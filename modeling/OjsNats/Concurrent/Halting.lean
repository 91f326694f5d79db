import OjsNats.Concurrent.Records
import OjsNats.Concurrent.Schedule
import OjsNats.Lifecycle.Chains

/-!
# Cancelled workflows

A workflow is cancelled while its jobs are fetched and reported.  As long as no operation
writes over a state that it has not seen, and the cancellation goes through all jobs that
are not over, the workflow and its jobs stay as the cancellation left them.
-/

namespace OjsNats.Concurrent

open Core Nats Lifecycle Effect

/-- The state of the workflow that the operation knows of. -/
def knownState (i : Nat) (log : List (Action Call Op Ans)) : Option (String × String) :=
  (lastNoted glimpse? i log).map fun (k, r) => (k, r.state)

def storedState (id : String) (w : World) : Option (String × String) :=
  (w.value .workflows id).map fun r => (id, r.state)

/-- The state of the job that the operation has read last. -/
def readState (i : Nat) (log : List (Action Call Op Ans)) : Option (String × State) :=
  (lastNoted seen? i log).map fun (k, rec) => (k, rec.state)

/-- The job belongs to the workflow and is not over. -/
def live (lib : Externals) (id : String) (w : World) (k : String) : Bool :=
  (w.value .jobs k).any fun rec => rec.workflowID = id && !lib.isTerminalState rec.state

/-- The write of a job of the workflow: over the state that the operation has read, or of a
new job, for the workflow in the state that it knows. -/
def Aware (id : String) (w : World) (log : List (Action Call Op Ans)) (i : Nat) (k : String) :
    Prop :=
  match w.value .jobs k with
  | some rec => readState i log = some (k, rec.state)
  | none => knownState i log = storedState id w

/-- The operation that writes the workflow's record, and what it writes. -/
def closing? (id : String) : Action Call Op Ans → Option (Nat × Call × WorkflowState)
  | .call i call (.put .workflows k v) (.ok _) => if k = id then some (i, call, v) else none
  | _ => none

/-- The operation that writes a job of the workflow, and which. -/
def storing? (id : String) : Action Call Op Ans → Option (Nat × String)
  | .call i _ (.put .jobs k v) (.ok _) => if v.workflowID = id then some (i, k) else none
  | _ => none

/-- An operation writes only over what it knows of the workflow and its jobs, and one that
cancels the workflow has been told of all jobs that are not over. -/
def Acquainted (lib : Externals) (id : String) (w : World) (log : List (Action Call Op Ans))
    (a : Action Call Op Ans) : Prop :=
  (∀ p ∈ closing? id a, knownState p.1 log = storedState id w ∧
    (p.2.1.operation = .cancelWorkflow → ∀ j ∈ (w.kv .jobs).keys, live lib id w j = true →
      j ∈ p.2.2.jobIDs)) ∧
  ∀ p ∈ storing? id a, Aware id w log p.1 p.2

/-- Workflows are created, advanced and cancelled by operations that heed what they write
over. -/
def Mindful (lib : Externals) (id : String) (c : Server) (a : Action Call Op Ans) : Prop :=
  Among conducted a ∧ Acquainted lib id c.state c.log a

instance (id : String) (w : World) (log : List (Action Call Op Ans)) (i : Nat) (k : String) :
    Decidable (Aware id w log i k) :=
  match found : w.value .jobs k with
  | some rec => decidable_of_iff (readState i log = some (k, rec.state)) (by simp [Aware, found])
  | none => decidable_of_iff (knownState i log = storedState id w) (by simp [Aware, found])

instance (lib : Externals) (id : String) (c : Server) (a : Action Call Op Ans) :
    Decidable (Mindful lib id c a) :=
  inferInstanceAs (Decidable (_ ∧ (∀ p ∈ closing? id a, _ = _ ∧ (_ = _ → ∀ j ∈ _, _ = _ → _ ∈ _)) ∧
    ∀ p ∈ storing? id a, Aware id c.state c.log p.1 p.2))

/-- Jobs that are listed are stored. -/
structure Listed (w : World) (views : List (Call × Sight)) : Prop where
  named : ∀ k r, w.value .workflows k = some r → k ≠ ""
  record : ∀ k r, w.value .workflows k = some r → ∀ j ∈ r.jobIDs, w.value .jobs j ≠ none
  copy : ∀ (i : Nat) (call : Call) (g : Sight) (k : String) (r : WorkflowState),
    views[i]? = some (call, g) → g.copy = some (k, r) → ∀ j ∈ r.jobIDs, w.value .jobs j ≠ none
  stored : ∀ (i : Nat) (call : Call) (g : Sight), views[i]? = some (call, g) →
    ∀ j ∈ g.stored, w.value .jobs j ≠ none

/-- All stored jobs of the workflow are over. -/
def Halted (lib : Externals) (id : String) (w : World) : Prop :=
  ∀ j rec, w.value .jobs j = some rec → rec.workflowID = id →
    lib.isTerminalState rec.state = true

/-- A cancellation has left the jobs over that it went through, and in the end all of them. -/
structure Cancelling (lib : Externals) (id : String) (w : World) (views : List (Call × Sight)) :
    Prop where
  listed : Listed w views
  swept : ∀ (i : Nat) (k : String) (g : Sight) (r : WorkflowState),
    views[i]? = some (.cancelWorkflow k, g) → g.copy = some (id, r) → ∀ j ∈ g.visited,
      j ∈ r.jobIDs → ∀ rec, w.value .jobs j = some rec → rec.workflowID = id →
        lib.isTerminalState rec.state = true
  halted : ∀ (i : Nat) (g : Sight), views[i]? = some (.cancelWorkflow id, g) → g.writes ≠ 0 →
    (∃ r, w.value .workflows id = some r ∧ r.state = "cancelled") ∧ Halted lib id w

section Cancelling

variable {lib : Externals} {id : String} {first w t : World} {log : List (Action Call Op Ans)}
  {views : List (Call × Sight)} {i : Nat} {call : Call} {g g' : Sight} {op : Op} {a : Ans op}
  {k : String}

/-! ## What is listed -/

theorem MayFurther.listed {failed : Bool} {r v : WorkflowState} (h : MayFurther lib failed g r v) :
    ∀ j ∈ v.jobIDs, j ∈ r.jobIDs ∨ j ∈ g.stored := by
  rcases h with ⟨-, continues⟩ | ⟨-, -, stepIdx, result, rfl⟩ | ⟨-, -, now, rfl⟩
  · exact continues.listed
  · rw [countedWorkflow_jobIDs]
    exact fun j => .inl
  · exact fun j => .inl

/-- A new version of a record lists the jobs of the version before, and stored ones. -/
theorem MayWrite.listed {v : WorkflowState} (h : MayWrite lib g k v call) :
    ∀ j ∈ v.jobIDs, j ∈ g.stored ∨ ∃ r, g.copy = some (k, r) ∧ j ∈ r.jobIDs := by
  intro j mem
  cases call with
  | createWorkflow req =>
    obtain ⟨-, ⟨-, -, now, rfl⟩ | ⟨-, r, ids, copy, rfl, stored⟩⟩ := h
    · cases mem
    · exact .inl (stored j mem)
  | ack | nack =>
    obtain ⟨r, copy, -, furthers⟩ := h
    rcases furthers.listed j mem with old | new
    · exact .inr ⟨r, copy, old⟩
    · exact .inl new
  | cancelWorkflow id =>
    obtain ⟨-, -, -, -, r, copy, same, -⟩ := h
    exact .inr ⟨r, copy, same ▸ mem⟩
  | _ => exact h.elim

theorem Listed.set (h : Listed w views)
    (onward : ∀ j, w.value .jobs j ≠ none → t.value .jobs j ≠ none)
    (named : ∀ k r, t.value .workflows k = some r → k ≠ "")
    (record : ∀ k r, t.value .workflows k = some r → ∀ j ∈ r.jobIDs, t.value .jobs j ≠ none)
    (copy : ∀ k r, g'.copy = some (k, r) → ∀ j ∈ r.jobIDs, t.value .jobs j ≠ none)
    (stored : ∀ j ∈ g'.stored, t.value .jobs j ≠ none) :
    Listed t (views.set i (call, g')) := by
  refine ⟨named, record, ?_, ?_⟩
  · intro k' call' f k r at_k holds
    rcases getElem?_set_cases at_k with ⟨-, eq⟩ | ⟨-, old⟩
    · cases eq
      exact copy k r holds
    · exact fun j mem => onward j (h.copy k' call' f k r old holds j mem)
  · intro k' call' f at_k
    rcases getElem?_set_cases at_k with ⟨-, eq⟩ | ⟨-, old⟩
    · cases eq
      exact stored
    · exact fun j mem => onward j (h.stored k' call' f old j mem)

theorem Listed.happens (h : Listed w views) (view : views[i]? = some (call, g))
    (ground : Grounded first w call g) (step : Happens lib call g w op a t g') :
    Listed t (views.set i (call, g')) := by
  obtain ⟨new, onward, -⟩ := step.onward ground
  have kept (j : String) := onward.job_ne (k := j)
  have copies (k : String) (r : WorkflowState) (copy : g.copy = some (k, r)) (j : String)
      (mem : j ∈ r.jobIDs) := kept j (h.copy i call g k r view copy j mem)
  have stored (j : String) (mem : j ∈ g.stored) := kept j (h.stored i call g view j mem)
  cases step with
  | aside _ jobs workflows =>
    refine h.set kept ?_ ?_ copies stored
    · exact fun k r found => h.named k r ((workflows k).symm.trans found)
    · exact fun k r found j mem => kept j (h.record k r ((workflows k).symm.trans found) j mem)
  | mint | find | miss | overlook | tell =>
    exact h.set kept h.named h.record copies stored
  | @look k r₀ rev looks found =>
    refine h.set kept h.named h.record ?_ stored
    rintro _ _ ⟨⟩
    exact h.record k r₀ found
  | @store k v rev stores =>
    refine h.set kept ?_ ?_ copies ?_
    · exact fun k' r found => h.named k' r ((value_workflows_put_jobs w k k' v).symm.trans found)
    · exact fun k' r found j mem =>
        kept j (h.record k' r ((value_workflows_put_jobs w k k' v).symm.trans found) j mem)
    · intro j mem
      rcases List.mem_cons.mp mem with rfl | old
      · rw [value_jobs_put, if_pos rfl]
        simp
      · exact stored j old
  | @write k v rev writes =>
    have listed (j : String) (mem : j ∈ v.jobIDs) :
        (w.put .workflows k v).value .jobs j ≠ none := by
      rcases writes.listed j mem with own | ⟨r, copy, old⟩
      · exact stored j own
      · exact copies k r copy j old
    have nonempty : k ≠ "" := by
      cases call with
      | createWorkflow req => exact (ground.named k writes.1).2
      | ack | nack =>
        obtain ⟨r, copy, -⟩ := writes
        obtain ⟨r', found⟩ := Option.ne_none_iff_exists'.mp (ground.copied k r copy)
        exact h.named k r' found
      | cancelWorkflow id =>
        obtain ⟨-, -, -, -, r, copy, -⟩ := writes
        obtain ⟨r', found⟩ := Option.ne_none_iff_exists'.mp (ground.copied k r copy)
        exact h.named k r' found
      | _ => exact writes.elim
    refine h.set kept ?_ ?_ ?_ stored
    · intro k' r found
      rw [value_workflows_put] at found
      split at found
      · rename_i same
        exact same ▸ nonempty
      · exact h.named k' r found
    · intro k' r found
      rw [value_workflows_put] at found
      split at found
      · cases found
        exact listed
      · exact fun j mem => kept j (h.record k' r found j mem)
    · rintro _ _ ⟨⟩
      exact listed

/-! ## Jobs that are over -/

theorem MayRevise.closed {rec v : JobState} (h : MayRevise rec v call)
    (closed : lib.isTerminalState rec.state = true) : lib.isTerminalState v.state = true := by
  have stopped (state : State) (active : rec.state = state)
      (going : lib.isTerminalState state = false) : False := by
    rw [active, going] at closed
    cases closed
  cases call with
  | ack => exact (stopped .active h.1 (by simp [Bool.eq_false_iff, lib.isTerminalState_iff])).elim
  | nack => exact (stopped .active h (by simp [Bool.eq_false_iff, lib.isTerminalState_iff])).elim
  | fetch =>
    rcases h with ⟨waiting, -⟩ | ⟨-, discarded⟩
    · exact (stopped .available waiting
        (by simp [Bool.eq_false_iff, lib.isTerminalState_iff])).elim
    · rw [discarded, lib.isTerminalState_iff]
      simp
  | cancelWorkflow =>
    rw [show v.state = .cancelled from h, lib.isTerminalState_iff]
    simp
  | _ => exact h.elim

/-- A job of the workflow that is over stays so. -/
theorem closed_store {v : JobState} (ground : Grounded first w call g)
    (stores : MayRecord call g k v)
    (aware : v.workflowID = id → ∀ rec, w.value .jobs k = some rec →
      g.seen.map (fun (k, rec) => (k, rec.state)) = some (k, rec.state)) {j : String}
    (present : w.value .jobs j ≠ none)
    (closed : ∀ rec, w.value .jobs j = some rec → rec.workflowID = id →
      lib.isTerminalState rec.state = true) (rec' : JobState)
    (found : (w.put .jobs k v).value .jobs j = some rec') (owner : rec'.workflowID = id) :
    lib.isTerminalState rec'.state = true := by
  rw [value_jobs_put] at found
  split at found
  · rename_i same
    subst same
    cases found
    rcases stores.2 with ⟨rec, seen, akin, revises, -⟩ | ⟨minted, -⟩
    · obtain ⟨rec₀, here, kin⟩ := ground.seen j rec seen
      have told := aware owner rec₀ here
      rw [seen, Option.map_some, Option.some.injEq, Prod.mk.injEq] at told
      refine revises.closed ?_
      rw [told.2]
      exact closed rec₀ here ((kin.1.trans akin.1.symm).trans owner)
    · exact absurd (ground.minted j minted).2 present
  · exact closed rec' found owner

/-! ## What a cancellation leaves behind -/

theorem Cancelling.set (h : Cancelling lib id w views) (view : views[i]? = some (call, g))
    (listed : Listed t (views.set i (call, g')))
    (closed : ∀ j, w.value .jobs j ≠ none → (∀ rec, w.value .jobs j = some rec →
      rec.workflowID = id → lib.isTerminalState rec.state = true) → ∀ rec,
      t.value .jobs j = some rec → rec.workflowID = id → lib.isTerminalState rec.state = true)
    (own : ∀ k, call = .cancelWorkflow k → ∀ r, g'.copy = some (id, r) → ∀ j ∈ g'.visited,
      j ∈ r.jobIDs → ∀ rec, t.value .jobs j = some rec → rec.workflowID = id →
        lib.isTerminalState rec.state = true)
    (halted : (∃ r, w.value .workflows id = some r ∧ r.state = "cancelled") → Halted lib id w →
      (∃ r, t.value .workflows id = some r ∧ r.state = "cancelled") ∧ Halted lib id t)
    (closes : call = .cancelWorkflow id → g'.writes ≠ 0 → g.writes = 0 →
      (∃ r, t.value .workflows id = some r ∧ r.state = "cancelled") ∧ Halted lib id t) :
    Cancelling lib id t (views.set i (call, g')) := by
  refine ⟨listed, ?_, ?_⟩
  · intro k' k f r at_k copy j mem listed' rec found owner
    rcases getElem?_set_cases at_k with ⟨rfl, eq⟩ | ⟨-, old⟩
    · cases eq
      exact own k rfl r copy j mem listed' rec found owner
    · exact closed j (h.listed.copy k' _ f id r old copy j listed')
        (h.swept k' k f r old copy j mem listed') rec found owner
  · intro k' f at_k wrote
    rcases getElem?_set_cases at_k with ⟨rfl, eq⟩ | ⟨-, old⟩
    · cases eq
      by_cases first : g.writes = 0
      · exact closes rfl wrote first
      · obtain ⟨record, closed⟩ := h.halted k' g view first
        exact halted record closed
    · obtain ⟨record, closed⟩ := h.halted k' f old wrote
      exact halted record closed

/-- A call that changes neither jobs nor workflows. -/
theorem Cancelling.still (h : Cancelling lib id w views) (view : views[i]? = some (call, g))
    (listed : Listed t (views.set i (call, g')))
    (jobs : ∀ j, t.value .jobs j = w.value .jobs j)
    (workflows : ∀ k, t.value .workflows k = w.value .workflows k)
    (own : ∀ k, call = .cancelWorkflow k → ∀ r, g'.copy = some (id, r) → ∀ j ∈ g'.visited,
      j ∈ r.jobIDs → ∀ rec, w.value .jobs j = some rec → rec.workflowID = id →
        lib.isTerminalState rec.state = true) (writes : g'.writes = g.writes) :
    Cancelling lib id t (views.set i (call, g')) := by
  refine h.set view listed (fun j _ closed rec found => ?_) ?_ (fun record closed => ⟨?_, ?_⟩) ?_
  · rw [jobs] at found
    exact closed rec found
  · intro k same r copy j mem listed' rec found
    rw [jobs] at found
    exact own k same r copy j mem listed' rec found
  · rw [workflows]
    exact record
  · intro j rec found
    rw [jobs] at found
    exact closed j rec found
  · intro _ wrote first
    exact absurd (writes.trans first) wrote

theorem Cancelling.own (h : Cancelling lib id w views) (view : views[i]? = some (call, g))
    (k : String) (same : call = .cancelWorkflow k) (r : WorkflowState)
    (copy : g.copy = some (id, r)) (j : String) (mem : j ∈ g.visited) (listed : j ∈ r.jobIDs)
    (rec : JobState) (found : w.value .jobs j = some rec) (owner : rec.workflowID = id) :
    lib.isTerminalState rec.state = true :=
  h.swept i k g r (same ▸ view) copy j mem listed rec found owner

/-- The write of a job. -/
theorem Cancelling.store (h : Cancelling lib id w views) (view : views[i]? = some (call, g))
    (recorded : Recorded first w log views) {v : JobState}
    (stores : MayRecord call g k v)
    (listed : Listed (w.put .jobs k v) (views.set i (call, g.store k v)))
    (aware : v.workflowID = id → Aware id w log i k) :
    Cancelling lib id (w.put .jobs k v) (views.set i (call, g.store k v)) := by
  have ground := recorded.grounded i call g view
  have told (owner : v.workflowID = id) (rec : JobState) (found : w.value .jobs k = some rec) :
      g.seen.map (fun (k, rec) => (k, rec.state)) = some (k, rec.state) := by
    have aware := aware owner
    unfold Aware at aware
    simp only [found] at aware
    rw [← recorded.read.known i call g view]
    exact aware
  refine h.set view listed (fun j present closed rec found owner =>
    closed_store ground stores told present closed rec found owner) ?_
    (fun record closed => ⟨?_, ?_⟩) ?_
  · rintro k' rfl r copy j mem listed' rec found owner
    rcases List.mem_cons.mp mem with rfl | old
    · rw [value_jobs_put, if_pos rfl] at found
      cases found
      rcases stores.2 with ⟨rec, seen, akin, revises, -⟩ | ⟨-, -, -, founds | spawns⟩
      · rw [show v.state = .cancelled from revises, lib.isTerminalState_iff]
        simp
      · exact absurd founds.creates (by simp [Call.operation])
      · exact absurd spawns.1 (by simp [reportedJob])
    · exact closed_store ground stores told (h.listed.copy i _ g id r view copy j listed')
        (h.swept i k' g r view copy j old listed') rec found owner
  · rw [value_workflows_put_jobs]
    exact record
  · intro j rec found owner
    by_cases present : w.value .jobs j = none
    · -- a new job, of a workflow that its operation takes for a running one
      rw [value_jobs_put] at found
      split at found
      · rename_i same
        subst same
        cases found
        have knows : knownState i log = storedState id w := by
          have aware := aware owner
          unfold Aware at aware
          simp only [present] at aware
          exact aware
        obtain ⟨r, stored, cancelled⟩ := record
        have copied {r' : WorkflowState} (copy : g.copy = some (id, r')) :
            r'.state = "cancelled" := by
          unfold knownState storedState at knows
          rw [recorded.glimpsed.known i call g view, copy, stored] at knows
          exact (Prod.mk.inj (Option.some.inj knows)).2.trans cancelled
        rcases stores.2 with ⟨rec, seen, -⟩ | ⟨-, -, -, founds | ⟨-, id', r', copy, rule⟩⟩
        · obtain ⟨rec', here, -⟩ := ground.seen j rec seen
          cases present.symm.trans here
        · obtain ⟨r', copy, running⟩ := founds.running
          rw [owner] at copy
          exact absurd ((copied copy).symm.trans running) (by decide)
        · rcases rule with ⟨own, running, -⟩ | ⟨free, -⟩
          · cases own.symm.trans owner
            exact absurd ((copied copy).symm.trans running) (by decide)
          · exact absurd (owner.symm.trans free) (h.listed.named id r stored)
      · cases present.symm.trans found
    · exact closed_store ground stores told present (fun rec => closed j rec) rec found owner
  · intro _ wrote first
    exact absurd first wrote

/-- The write of a workflow's record. -/
theorem Cancelling.write (h : Cancelling lib id w views) (view : views[i]? = some (call, g))
    (recorded : Recorded first w log views) {v : WorkflowState}
    (writes : MayWrite lib g k v call)
    (listed : Listed (w.put .workflows k v) (views.set i (call, g.write k v)))
    (knows : k = id → knownState i log = storedState id w)
    (told : k = id → call.operation = .cancelWorkflow → ∀ j ∈ (w.kv .jobs).keys,
      live lib id w j = true → j ∈ v.jobIDs) :
    Cancelling lib id (w.put .workflows k v) (views.set i (call, g.write k v)) := by
  refine h.set view listed (fun j _ closed rec found => ?_) ?_ (fun record closed => ⟨?_, ?_⟩) ?_
  · rw [value_jobs_put_workflows] at found
    exact closed rec found
  · rintro k' rfl r copy j mem listed' rec found owner
    cases copy
    obtain ⟨-, -, -, -, r', copy, same, -⟩ := writes
    rw [value_jobs_put_workflows] at found
    exact h.swept i k' g r' view copy j mem (same ▸ listed') rec found owner
  · obtain ⟨r, stored, cancelled⟩ := record
    rw [value_workflows_put]
    split
    · rename_i same
      subst same
      refine ⟨v, rfl, ?_⟩
      have knows := knows rfl
      have copied : ∃ r', g.copy = some (id, r') ∧ r'.state = "cancelled" := by
        unfold knownState storedState at knows
        rw [recorded.glimpsed.known i call g view, stored] at knows
        obtain ⟨⟨k, r'⟩, copy, eq⟩ := Option.map_eq_some_iff.mp knows
        obtain ⟨rfl, state⟩ := Prod.mk.inj eq
        exact ⟨r', copy, state.trans cancelled⟩
      obtain ⟨r', copy, closed⟩ := copied
      cases call with
      | createWorkflow req =>
        obtain ⟨-, ⟨-, blank, -⟩ | ⟨-, r₁, ids, copy', rfl, -⟩⟩ := writes
        · cases blank.symm.trans copy
        · cases copy.symm.trans copy'
          exact closed
      | ack | nack =>
        obtain ⟨r₁, copy', running, -⟩ := writes
        cases copy.symm.trans copy'
        exact absurd (closed.symm.trans running) (by decide)
      | cancelWorkflow => exact writes.2.2.2.1
      | _ => exact writes.elim
    · exact ⟨r, stored, cancelled⟩
  · intro j rec found
    rw [value_jobs_put_workflows] at found
    exact closed j rec found
  · rintro rfl _ _
    obtain ⟨rfl, -, -, cancelled, r, copy, same, all⟩ := writes
    refine ⟨⟨v, by rw [value_workflows_put, if_pos rfl], cancelled⟩, fun j rec found owner => ?_⟩
    rw [value_jobs_put_workflows] at found
    by_contra going
    have mem : j ∈ (w.kv .jobs).keys := by
      rw [Store.Bucket.mem_keys_iff]
      exact Option.isSome_iff_exists.mpr ⟨rec, found⟩
    have told := told rfl rfl j mem (by simp [live, found, owner, going])
    exact going (h.swept i k g r view copy j (all j (same ▸ told)) (same ▸ told) rec found owner)

theorem Cancelling.happens (h : Cancelling lib id w views) (view : views[i]? = some (call, g))
    (recorded : Recorded first w log views) (step : Happens lib call g w op a t g')
    (acquainted : Acquainted lib id w log (.call i call op a)) :
    Cancelling lib id t (views.set i (call, g')) := by
  have listed := h.listed.happens view (recorded.grounded i call g view) step
  have own := h.own view
  cases step with
  | aside _ jobs workflows => exact h.still view listed jobs workflows own rfl
  | mint | overlook | tell => exact h.still view listed (fun _ => rfl) (fun _ => rfl) own rfl
  | @find j rec rev reads found =>
    refine h.still view listed (fun _ => rfl) (fun _ => rfl) ?_ rfl
    intro k same r copy m mem within rec' found' owner
    simp only [Sight.find] at mem
    split at mem
    · rename_i closed
      rcases List.mem_cons.mp mem with rfl | old
      · cases found.symm.trans found'
        exact closed
      · exact own k same r copy m old within rec' found' owner
    · exact own k same r copy m mem within rec' found' owner
  | @miss j e reads missing =>
    refine h.still view listed (fun _ => rfl) (fun _ => rfl) ?_ rfl
    intro k same r copy m mem within rec' found' owner
    rcases List.mem_cons.mp mem with rfl | old
    · cases missing.symm.trans found'
    · exact own k same r copy m old within rec' found' owner
  | @look j r rev looks found =>
    refine h.still view listed (fun _ => rfl) (fun _ => rfl) ?_ rfl
    rintro k rfl _ _ m mem
    obtain ⟨-, -, -, none⟩ := looks
    simp only [Sight.look, none, List.not_mem_nil] at mem
  | @store j v rev stores =>
    exact h.store view recorded stores listed fun owner =>
      acquainted.2 (i, j) (by simp [storing?, owner])
  | @write k v rev writes =>
    have closes (same : k = id) := acquainted.1 (i, call, v) (by simp [closing?, same])
    exact h.write view recorded writes listed (fun same => (closes same).1)
      fun same => (closes same).2

end Cancelling

/-! ## Every run -/

section Runs

variable {lib : Externals} {id : String} {w : World} {views : List (Call × Sight)}

theorem Listed.begin (h : Listed w views) (call : Call) :
    Listed w (views ++ [(call, ({} : Sight))]) := by
  refine ⟨h.named, h.record, ?_, ?_⟩
  · intro k call' f key r at_k copy
    rcases getElem?_snoc_cases at_k with eq | old
    · cases eq
      cases copy
    · exact h.copy k call' f key r old copy
  · intro k call' f at_k
    rcases getElem?_snoc_cases at_k with eq | old
    · cases eq
      exact fun j mem => nomatch mem
    · exact h.stored k call' f old

theorem Cancelling.begin (h : Cancelling lib id w views) (call : Call) :
    Cancelling lib id w (views ++ [(call, ({} : Sight))]) := by
  refine ⟨h.listed.begin call, ?_, ?_⟩
  · intro k key f r at_k copy
    rcases getElem?_snoc_cases at_k with eq | old
    · cases eq
      cases copy
    · exact h.swept k key f r old copy
  · intro k f at_k wrote
    rcases getElem?_snoc_cases at_k with eq | old
    · cases eq
      exact absurd rfl wrote
    · exact h.halted k f old wrote

theorem Cancelling.idle (linked : Linked w) : Cancelling lib id w [] := by
  refine ⟨⟨fun k r found => (linked.known k r found).2, fun k r found j mem => ?_, ?_, ?_⟩, ?_, ?_⟩
  · rw [← roster_of_value found] at mem
    obtain ⟨rec, there, -⟩ := linked.listed k j mem
    rw [show w.value .jobs j = some rec from there]
    exact Option.some_ne_none rec
  · exact fun k _ _ _ _ at_k => by simp at at_k
  · exact fun k _ _ at_k => by simp at at_k
  · exact fun k _ _ _ at_k => by simp at at_k
  · exact fun k _ at_k => by simp at at_k

end Runs

theorem cancelling_invariant (lib : Externals) (first : World) (id : String) :
    Invariant (α := Reply) serves TimePasses (conduct lib) {} (Mindful lib id)
      fun w log views => Recorded first w log views ∧ Cancelling lib id w views := by
  refine (recorded_invariant lib first _).extend (fun _ _ ok => ok) ?_ ?_ ?_
  · exact fun _ _ call _ _ cancelling => cancelling.begin call
  · rintro c views _ _ ⟨now, -, rfl⟩ _ h
    exact ⟨⟨h.listed.named, h.listed.record, h.listed.copy, h.listed.stored⟩, h.swept, h.halted⟩
  · intro c views i call op r t g mindful recorded cancelling view allowed step
    exact cancelling.happens view recorded (happens_of_serves allowed step) mindful.2

/-- A cancelled workflow stays cancelled: once a cancellation has replied, the record says so
and every stored job of the workflow is over, whatever is reported, fetched and created
beside and after it, as long as the operations heed what they write over. -/
theorem cancelled_of_mindful {lib : Externals} {clock : Int} {trace : List Passage} {w : World}
    {c : Server} {id : String} {i : Nat} {wf : Workflow}
    (began : Run lib (World.start clock) trace w)
    (unforged : ∀ p ∈ trace, p.event.Meets Call.Unforged)
    (run : Runs lib (Mindful lib id) (idle w) c)
    (replied : c.threads[i]? = some (.cancelWorkflow id, .pure (.workflow (.ok wf)))) :
    (∃ r, c.state.value .workflows id = some r ∧ r.state = "cancelled") ∧
      Halted lib id c.state := by
  have follows (c : Server) (call : Call) (ok : Mindful lib id c (.start call)) :
      (conduct lib call).Follows (call.program lib) {} (Conducted call) := follows_conduct ok.1
  obtain ⟨views, behaved, -, cancelling⟩ := (cancelling_invariant lib w id).holds follows run .nil
    ⟨.idle (began.sound (.start clock)), .idle (began.linked unforged)⟩
  obtain ⟨g, view, wrote⟩ := behaved.getElem? replied
  exact cancelling.halted i g view (by rw [show g.writes = 1 from wrote]; decide)

/-! ## A chain cancelled under a report -/

/-- The first step of a chain is written as completed, then the chain is cancelled, and the
Ack finds no running workflow to advance. -/
def undercut : List Pick :=
  [.start (.createWorkflow twoSteps), .calls 0 60, .start (.fetch ["default"] 1 "worker-1" 0),
    .calls 1 60, .start (.ack (pairID 1) none), .calls 2 3, .start (.cancelWorkflow (pairID 0)),
    .calls 3 60, .calls 2 60]

def undercutServer : Server :=
  played (Mindful sample (pairID 0)) undercut (idle (World.start (Sample.instant 0)))

theorem cancelled_undercut : (∃ r, undercutServer.state.value .workflows (pairID 0) = some r ∧
    r.state = "cancelled") ∧ Halted sample (pairID 0) undercutServer.state := by
  have runs : Runs sample (Mindful sample (pairID 0)) (idle (World.start (Sample.instant 0)))
      undercutServer := runs_played (by decide)
  have replied : undercutServer.threads[3]? = some (.cancelWorkflow (pairID 0), .pure (.workflow
      (.ok { newWorkflow sample (pairID 0) twoSteps 2 (Sample.instant 0) with
        state := "cancelled"
        completedAt := sample.formatTime (Sample.instant 0) }))) := rfl
  exact cancelled_of_mindful .nil (by simp) runs replied

end OjsNats.Concurrent
