import OjsNats.Concurrent.Passes
import OjsNats.Effect.Interleaving
import OjsNats.Lifecycle.System

/-!
# One server, many operations at once

The operations of one server run interleaved, call by call, from a state that
was reached sequentially.  The history of a job is the list of the writes of
its record; the ledger ties it to the stored record and to what the running
operations know.
-/

namespace OjsNats.Concurrent

open Core Nats Lifecycle Effect Store

/-- A server with its running operations and what happened so far. -/
abbrev Server := Config World Call Op Ans Reply

/-- No operation has started. -/
def idle (w : World) : Server := ⟨w, [], []⟩

/-- Time passes. -/
def TimePasses (w w' : World) : Prop := ∃ now, w.clock ≤ now ∧ w' = { w with clock := now }

/-- Interleaved runs whose actions all meet a condition. -/
abbrev Runs (lib : Externals) (ok : Server → Action Call Op Ans → Prop) : Server → Server → Prop :=
  Interleaves serves (Call.program lib) TimePasses ok

/-- One write of a job's record. -/
structure Write where
  thread : Nat
  call : Call
  record : JobState

/-- The write of the job's record that an action is. -/
def write? (j : String) : Action Call Op Ans → Option Write
  | .call i call (.put .jobs k v) (.ok _) => if k = j then some ⟨i, call, v⟩ else none
  | _ => none

theorem eq_of_write? {j : String} {a : Action Call Op Ans} {m : Write} (h : write? j a = some m) :
    ∃ rev, a = .call m.thread m.call (.put .jobs j m.record) (.ok rev) := by
  unfold write? at h
  split at h
  · split at h
    · rename_i same
      subst same
      cases h
      exact ⟨_, rfl⟩
    · cases h
  · cases h

/-- The writes of the job's record, in order. -/
def history (j : String) (log : List (Action Call Op Ans)) : List Write := log.filterMap (write? j)

theorem history_snoc (j : String) (log : List (Action Call Op Ans)) (a : Action Call Op Ans) :
    history j (log ++ [a]) = history j log ++ (write? j a).toList := by
  unfold history
  rw [List.filterMap_append]
  cases h : write? j a <;> simp [h]

@[simp] theorem history_start (j : String) (log : List (Action Call Op Ans)) (call : Call) :
    history j (log ++ [.start call]) = history j log := by
  simp [history_snoc, write?]

@[simp] theorem history_outside (j : String) (log : List (Action Call Op Ans)) :
    history j (log ++ [.outside]) = history j log := by
  simp [history_snoc, write?]

theorem history_silent {j : String} {a : Action Call Op Ans} (silent : write? j a = none)
    (log : List (Action Call Op Ans)) : history j (log ++ [a]) = history j log := by
  simp [history_snoc, silent]

theorem history_write {j : String} {a : Action Call Op Ans} {m : Write}
    (entry : write? j a = some m) (log : List (Action Call Op Ans)) :
    history j (log ++ [a]) = history j log ++ [m] := by
  simp [history_snoc, entry]

/-- A fetch hands the job to a worker. -/
def Write.Claims (m : Write) : Prop :=
  m.call.operation = .fetch ∧ m.record.state = .active

instance (m : Write) : Decidable m.Claims := inferInstanceAs (Decidable (_ ∧ _))

/-- The stored record of the job, if there is one, is in the given state. -/
def Stands (w : World) (j : String) (state : State) : Prop :=
  ∀ rec ∈ w.value .jobs j, rec.state = state

instance (w : World) (j : String) (state : State) : Decidable (Stands w j state) :=
  inferInstanceAs (Decidable (∀ rec ∈ w.value .jobs j, rec.state = state))

/-- The write lands on the state that its operation relies on, if on any. -/
def Timely (relies : Write → Option State) (w : World) (j : String) (m : Write) : Prop :=
  ∀ state ∈ relies m, Stands w j state

instance (relies : Write → Option State) (w : World) (j : String) (m : Write) :
    Decidable (Timely relies w j m) :=
  inferInstanceAs (Decidable (∀ state ∈ relies m, Stands w j state))

/-- The action belongs to one of these operations. -/
def Among (ops : List Operation) : Action Call Op Ans → Prop
  | .start call => call.operation ∈ ops
  | .call _ call _ _ => call.operation ∈ ops
  | .outside => True

instance (ops : List Operation) : (a : Action Call Op Ans) → Decidable (Among ops a)
  | .start call => inferInstanceAs (Decidable (call.operation ∈ ops))
  | .call _ call _ _ => inferInstanceAs (Decidable (call.operation ∈ ops))
  | .outside => isTrue trivial

/-- Only these operations run, and every write of the job's record is timely. -/
def Orderly (ops : List Operation) (relies : Write → Option State) (j : String) (c : Server)
    (a : Action Call Op Ans) : Prop :=
  Among ops a ∧ ∀ m ∈ write? j a, Timely relies c.state j m

instance (ops : List Operation) (relies : Write → Option State) (j : String) (c : Server)
    (a : Action Call Op Ans) : Decidable (Orderly ops relies j c a) :=
  inferInstanceAs (Decidable (_ ∧ ∀ m ∈ write? j a, Timely relies c.state j m))

/-! ## What one call does to one job -/

section Served

variable {lib : Externals} {j : String} {call : Call} {w w' : World} {g : View}

/-- Each record is stored under its own id. -/
def Keyed (w : World) : Prop := ∀ k rec, w.value .jobs k = some rec → rec.id = k

/-- The call neither writes the job's record nor makes its id known. -/
structure Still (j : String) (w w' : World) (g g' : View) : Prop where
  record : w'.value .jobs j = w.value .jobs j
  total : View.countOf j w'.stream + (g'.tokens + g'.minted) =
    View.countOf j w.stream + (g.tokens + g.minted)
  minted : g'.minted = g.minted
  wrote : g'.wrote = g.wrote
  claimed : g'.claimed = g.claimed
  seen : g'.seen = g.seen ∨ g'.seen = w.value .jobs j
  known : j ∈ w'.used ↔ j ∈ w.used

theorem Still.refl (j : String) (w : World) (g : View) : Still j w w g g :=
  ⟨rfl, rfl, rfl, rfl, rfl, .inl rfl, Iff.rfl⟩

theorem countOf_deliver (j subject : String) (n : Nat) (stream : List Msg) :
    View.countOf j (deliver subject n stream).2 + View.countOf j (deliver subject n stream).1 =
      View.countOf j stream := by
  have split := ((deliver_perm subject n stream).filter fun m => m.data = j).length_eq
  rw [List.filter_append, List.length_append] at split
  unfold View.countOf
  omega

theorem countOf_publish (j subject k : String) (w : World) :
    View.countOf j (w.publish subject k).stream =
      View.countOf j w.stream + if k = j then 1 else 0 := by
  unfold View.countOf World.publish
  rw [List.filter_append, List.length_append]
  by_cases same : k = j <;> simp [same]

/-- The views differ in what they say of the lease and of the time. -/
def LeaseOnly (g g' : View) : Prop :=
  g' = { g with armed := g'.armed, leased := g'.leased, now := g'.now }

theorem LeaseOnly.lease (k : String) (leased : Bool) : LeaseOnly g (g.lease j k leased) := by
  unfold View.lease
  split <;> rfl

theorem LeaseOnly.arm (k : String) (armed : Bool) : LeaseOnly g (g.arm j k armed) := by
  unfold View.arm
  split <;> rfl

theorem Still.of_view {g' : View} (record : w'.value .jobs j = w.value .jobs j)
    (stream : w'.stream = w.stream) (used : w'.used = w.used) (view : LeaseOnly g g') :
    Still j w w' g g' := by
  rw [view]
  exact ⟨record, by rw [stream], rfl, rfl, rfl, .inl rfl, by rw [used]⟩

theorem Still.see {k : String} {rec : Option JobState} (read : k = j → rec = w.value .jobs j) :
    Still j w w g (g.see j k rec) := by
  unfold View.see
  split
  · rename_i same
    exact ⟨rfl, rfl, rfl, rfl, rfl, .inr (read same), Iff.rfl⟩
  · exact .refl j _ g

/-- A served call writes the job's record, gives out its id, or lets it be. -/
theorem served_cases {motive : (op : Op) → Ans op → World → View → Prop}
    (write : ∀ v rev, v.id = j → Permits lib j g v call →
      motive (.put .jobs j v) (.ok rev) (w.put .jobs j v) (g.write v))
    (mint : j ∉ w.used →
      motive .newUUIDv7 j { w with used := j :: w.used } { g with minted := g.minted + 1 })
    (still : ∀ op r w', (∀ i, write? j (.call i call op r) = none) →
      Still j w w' g (View.next lib j g op r) → motive op r w' (View.next lib j g op r))
    {op : Op} {r : Ans op} (allowed : Allows lib j call g op) (step : w.Serves op r w') :
    motive op r w' (View.next lib j g op r) := by
  cases op with
  | put b k v =>
    obtain ⟨rfl, rfl⟩ := step
    by_cases jobs : b = .jobs
    · subst jobs
      by_cases same : k = j
      · subst same
        have next : View.next lib k g (.put .jobs k v) (.ok ((w.kv .jobs).revision + 1)) =
            g.write v := View.writeAt_at rfl v
        rw [next]
        exact write v _ allowed.1 (allowed.2 rfl)
      · have next : View.next lib j g (.put .jobs k v) (.ok ((w.kv .jobs).revision + 1)) = g :=
          if_neg same
        refine still _ _ _ (fun _ => if_neg same) ?_
        rw [next]
        refine .of_view (value_put_other ?_) rfl rfl rfl
        rintro ⟨-, rfl⟩
        exact same rfl
    · refine still _ _ _ (fun _ => ?_) (.of_view (value_put_other ?_) rfl rfl ?_)
      · cases b <;> first | rfl | exact absurd rfl jobs
      · rintro ⟨rfl, -⟩
        exact jobs rfl
      · cases b with
        | jobs => exact absurd rfl jobs
        | active => exact .lease k true
        | _ => rfl
  | delete b k =>
    obtain ⟨rfl, rfl⟩ := step
    have jobs : b ≠ .jobs := by
      rintro rfl
      exact allowed
    refine still _ _ _ (fun _ => rfl) (.of_view (value_delete_other ?_) rfl rfl ?_)
    · rintro ⟨rfl, -⟩
      exact jobs rfl
    · cases b with
      | jobs => exact absurd rfl jobs
      | active => exact .lease k false
      | _ => rfl
  | create b k v =>
    have jobs : b ≠ .jobs := by
      rintro rfl
      exact allowed
    have other : ¬ (BucketName.jobs = b ∧ j = k) := by
      rintro ⟨rfl, -⟩
      exact jobs rfl
    refine still _ _ _ (fun _ => rfl) ?_
    simp only [World.Serves] at step
    split at step <;> obtain ⟨rfl, rfl⟩ := step
    · exact .refl j _ g
    · exact .of_view (value_put_other other) rfl rfl rfl
  | update b k v rev =>
    have jobs : b ≠ .jobs := by
      rintro rfl
      exact allowed
    have other : ¬ (BucketName.jobs = b ∧ j = k) := by
      rintro ⟨rfl, -⟩
      exact jobs rfl
    refine still _ _ _ (fun _ => rfl) ?_
    simp only [World.Serves] at step
    split at step <;> obtain ⟨rfl, rfl⟩ := step
    · exact .of_view (value_put_other other) rfl rfl rfl
    · exact .refl j _ g
  | get b k =>
    obtain ⟨rfl, rfl⟩ := step
    refine still _ _ _ (fun _ => rfl) ?_
    cases found : w'.lookup b k with
    | ok entry =>
      cases b with
      | jobs =>
        refine .see fun same => ?_
        rw [← same, World.lookup_value w' found]
      | active => exact .of_view rfl rfl rfl (.arm k _)
      | _ => exact .refl j _ g
    | error e =>
      cases b with
      | jobs =>
        refine .see fun same => ?_
        rw [← same, World.lookup_error w' found]
      | active => exact .of_view rfl rfl rfl (.arm k _)
      | _ => exact .refl j _ g
  | now =>
    obtain ⟨rfl, rfl⟩ := step
    exact still _ _ _ (fun _ => rfl) (.of_view rfl rfl rfl rfl)
  | newUUIDv7 =>
    obtain ⟨nonempty, unused, rfl⟩ := step
    by_cases same : r = j
    · subst same
      have next : View.next lib r g .newUUIDv7 r = { g with minted := g.minted + 1 } := if_pos rfl
      rw [next]
      exact mint unused
    · have next : View.next lib j g .newUUIDv7 r = g := if_neg same
      refine still _ _ _ (fun _ => rfl) ?_
      rw [next]
      exact ⟨rfl, rfl, rfl, rfl, rfl, .inl rfl, by simp [Ne.symm same]⟩
  | consumerFetch queue count =>
    obtain ⟨n, -, rfl, rfl⟩ := step
    refine still _ _ _ (fun _ => rfl) ⟨rfl, ?_, rfl, rfl, rfl, .inl rfl, Iff.rfl⟩
    have split := countOf_deliver j (queueJobsSubject queue) n w.stream
    simp only [View.next, View.hand]
    omega
  | publish subject k =>
    obtain ⟨rfl, rfl⟩ := step
    refine still _ _ _ (fun _ => rfl) ?_
    by_cases same : k = j
    · have next : View.next lib j g (.publish subject k) (.ok ()) =
          { g with tokens := g.tokens - 1 } := if_pos same
      rw [next]
      refine ⟨rfl, ?_, rfl, rfl, rfl, .inl rfl, Iff.rfl⟩
      have owed := allowed same
      rw [countOf_publish, if_pos same]
      simp only
      omega
    · have next : View.next lib j g (.publish subject k) (.ok ()) = g := if_neg same
      rw [next]
      refine ⟨rfl, ?_, rfl, rfl, rfl, .inl rfl, Iff.rfl⟩
      rw [countOf_publish, if_neg same]
      rfl
  | keys b =>
    obtain ⟨rfl, -⟩ := step
    exact still _ _ _ (fun _ => rfl) (.refl j _ g)
  | consumerStore queue | inflightStore k m | regexStore k re =>
    obtain rfl := step
    exact still _ _ _ (fun _ => rfl) (.of_view rfl rfl rfl rfl)
  | inflightLoadAndDelete k =>
    obtain ⟨rfl, rfl⟩ := step
    exact still _ _ _ (fun _ => rfl) (.of_view rfl rfl rfl rfl)
  | calculateBackoff | consumerLoad | ensureConsumer | inflightLoad | msgAck | msgInProgress
  | regexLoad =>
    obtain ⟨-, rfl⟩ := step
    exact still _ _ _ (fun _ => rfl) (.refl j _ g)

theorem Keyed.admits (keyed : Keyed w) {op : Op} {r : Ans op} (step : w.Serves op r w') :
    Admits op r := by
  cases op with
  | get b k =>
    cases b with
    | jobs =>
      cases r with
      | ok entry => exact keyed k entry.1 (World.lookup_value w step.1.symm)
      | error e => trivial
    | _ => trivial
  | _ => trivial

theorem Keyed.put (keyed : Keyed w) {k : String} {v : JobState} (own : v.id = k) :
    Keyed (w.put .jobs k v) := by
  intro k' rec stored
  by_cases same : k' = k
  · subst same
    rw [value_put, dif_pos ⟨rfl, rfl⟩] at stored
    cases stored
    exact own
  · refine keyed k' rec ((value_put_other ?_).symm.trans stored)
    exact fun h => same h.2

theorem Keyed.put_other (keyed : Keyed w) {b : BucketName} (jobs : b ≠ .jobs) (k : String)
    (v : b.Value) : Keyed (w.put b k v) := by
  intro k' rec stored
  refine keyed k' rec ((value_put_other ?_).symm.trans stored)
  rintro ⟨rfl, -⟩
  exact jobs rfl

theorem Keyed.served (keyed : Keyed w) {op : Op} {r : Ans op} (allowed : Allows lib j call g op)
    (step : w.Serves op r w') : Keyed w' := by
  cases op with
  | put b k v =>
    obtain ⟨-, rfl⟩ := step
    by_cases jobs : b = .jobs
    · subst jobs
      exact keyed.put allowed.1
    · exact keyed.put_other jobs k v
  | delete b k =>
    obtain ⟨-, rfl⟩ := step
    intro k' rec stored
    rw [value_delete] at stored
    split at stored
    · cases stored
    · exact keyed k' rec stored
  | create b k v =>
    have jobs : b ≠ .jobs := by
      rintro rfl
      exact allowed
    simp only [World.Serves] at step
    split at step <;> obtain ⟨-, rfl⟩ := step
    · exact keyed
    · exact keyed.put_other jobs k v
  | update b k v rev =>
    have jobs : b ≠ .jobs := by
      rintro rfl
      exact allowed
    simp only [World.Serves] at step
    split at step <;> obtain ⟨-, rfl⟩ := step
    · exact keyed.put_other jobs k v
    · exact keyed
  | newUUIDv7 =>
    obtain ⟨-, -, rfl⟩ := step
    exact keyed
  | consumerFetch queue count =>
    obtain ⟨n, -, -, rfl⟩ := step
    exact keyed
  | keys b =>
    obtain ⟨rfl, -⟩ := step
    exact keyed
  | consumerStore queue | inflightStore k m | regexStore k re =>
    obtain rfl := step
    exact keyed
  | now | get | inflightLoadAndDelete | publish | calculateBackoff | consumerLoad
  | ensureConsumer | inflightLoad | msgAck | msgInProgress | regexLoad =>
    obtain ⟨-, rfl⟩ := step
    exact keyed

end Served

/-! ## The ledger -/

/-- The history of the job agrees with its record and with the views. -/
structure Ledger (j : String) (first : Option JobState) (w : World)
    (log : List (Action Call Op Ans)) (views : List (Call × View)) : Prop where
  keyed : Keyed w
  record : w.value .jobs j = ((history j log).getLast?.map Write.record).or first
  bound : ∀ m ∈ history j log, m.thread < views.length
  claims : ∀ m ∈ history j log, m.record.state = .active → m.Claims
  wrote : ∀ (i : Nat) (call : Call) (g : View) v, views[i]? = some (call, g) → g.wrote = some v →
    ⟨i, call, v⟩ ∈ history j log
  claimed : ∀ (i : Nat) (call : Call) (g : View), views[i]? = some (call, g) → g.claimed = true →
    ∃ v, ⟨i, call, v⟩ ∈ history j log ∧ v.state = .active
  seen : ∀ (i : Nat) (call : Call) (g : View), views[i]? = some (call, g) → g.seen.isSome →
    w.value .jobs j ≠ none

theorem fetch_of_permits_active {lib : Externals} {j : String} {call : Call} {g : View}
    {v : JobState} (permits : Permits lib j g v call) (active : v.state = .active) :
    call.operation = .fetch := by
  cases call with
  | fetch queues count workerID timeout => rfl
  | ack k result | nack k jobErr requeue =>
    simp [Permits, Mints, active] at permits
  | cancel k | promoteScheduled | promoteRetries | requeueStalled =>
    simp [Permits, active] at permits
  | _ => exact permits.elim

section Ledger

variable {lib : Externals} {j : String} {first : Option JobState} {w t : World}
  {log : List (Action Call Op Ans)} {views : List (Call × View)} {i : Nat} {call : Call} {g g' : View}
  {a : Action Call Op Ans}

/-- Nothing happened to the job's record. -/
theorem Ledger.still (h : Ledger j first w log views) (view : views[i]? = some (call, g))
    (silent : write? j a = none) (record : t.value .jobs j = w.value .jobs j)
    (wrote : g'.wrote = g.wrote) (claimed : g'.claimed = g.claimed)
    (seen : g'.seen = g.seen ∨ g'.seen = w.value .jobs j) (keyed : Keyed t) :
    Ledger j first t (log ++ [a]) (views.set i (call, g')) := by
  have unchanged := history_silent silent log
  constructor
  · exact keyed
  · rw [unchanged, record]
    exact h.record
  · rw [unchanged, List.length_set]
    exact h.bound
  · rw [unchanged]
    exact h.claims
  · intro k call' f v at_k done
    rw [unchanged]
    rcases getElem?_set_cases at_k with ⟨rfl, eq⟩ | ⟨-, old⟩
    · cases eq
      exact h.wrote _ _ _ v view (wrote ▸ done)
    · exact h.wrote _ _ _ v old done
  · intro k call' f at_k done
    rw [unchanged]
    rcases getElem?_set_cases at_k with ⟨rfl, eq⟩ | ⟨-, old⟩
    · cases eq
      exact h.claimed _ _ _ view (claimed ▸ done)
    · exact h.claimed _ _ _ old done
  · intro k call' f at_k known
    rw [record]
    rcases getElem?_set_cases at_k with ⟨rfl, eq⟩ | ⟨-, old⟩
    · cases eq
      rcases seen with before | read
      · exact h.seen _ _ _ view (before ▸ known)
      · rw [read] at known
        exact Option.ne_none_iff_isSome.mpr known
    · exact h.seen _ _ _ old known

/-- A write of the job's record goes into the history. -/
theorem Ledger.write (h : Ledger j first w log views) (view : views[i]? = some (call, g))
    {v : JobState} (entry : write? j a = some ⟨i, call, v⟩) (permits : Permits lib j g v call)
    (stored : t.value .jobs j = some v) (keyed : Keyed t) :
    Ledger j first t (log ++ [a]) (views.set i (call, g.write v)) := by
  have longer := history_write entry log
  have within : i < views.length := (List.getElem?_eq_some_iff.mp view).1
  constructor
  · exact keyed
  · simp [longer, stored]
  · rw [longer, List.length_set]
    intro m mem
    rcases List.mem_append.mp mem with old | new
    · exact h.bound m old
    · obtain rfl := List.mem_singleton.mp new
      exact within
  · rw [longer]
    intro m mem active
    rcases List.mem_append.mp mem with old | new
    · exact h.claims m old active
    · obtain rfl := List.mem_singleton.mp new
      exact ⟨fetch_of_permits_active permits active, active⟩
  · intro k call' f u at_k wrote
    rw [longer]
    rcases getElem?_set_cases at_k with ⟨rfl, eq⟩ | ⟨-, old⟩
    · cases eq
      cases wrote
      simp
    · exact List.mem_append_left _ (h.wrote _ _ _ u old wrote)
  · intro k call' f at_k claimed
    rw [longer]
    rcases getElem?_set_cases at_k with ⟨rfl, eq⟩ | ⟨-, old⟩
    · cases eq
      rcases Bool.or_eq_true_iff.mp claimed with before | now
      · obtain ⟨u, mem, active⟩ := h.claimed _ _ _ view before
        exact ⟨u, List.mem_append_left _ mem, active⟩
      · exact ⟨v, by simp, of_decide_eq_true now⟩
    · obtain ⟨u, mem, active⟩ := h.claimed _ _ _ old claimed
      exact ⟨u, List.mem_append_left _ mem, active⟩
  · intro _ _ _ _ _
    simp [stored]

theorem ledger_invariant (lib : Externals) (j : String) (first : Option JobState) :
    Invariant (α := Reply) serves TimePasses (discipline lib j) {} (fun _ _ => True)
      (Ledger j first) where
  start := by
    intro c views label _ h
    have unchanged : history j (c.log ++ [.start label]) = history j c.log := by
      simp [history_snoc, write?]
    constructor
    · exact h.keyed
    · rw [unchanged]
      exact h.record
    · rw [unchanged, List.length_append]
      exact fun m mem => Nat.lt_add_right _ (h.bound m mem)
    · rw [unchanged]
      exact h.claims
    · intro k call g v at_k wrote
      rw [unchanged]
      rcases getElem?_snoc_cases at_k with eq | old
      · cases eq
        cases wrote
      · exact h.wrote _ _ _ v old wrote
    · intro k call g at_k claimed
      rw [unchanged]
      rcases getElem?_snoc_cases at_k with eq | old
      · cases eq
        cases claimed
      · exact h.claimed _ _ _ old claimed
    · intro k call g at_k seen
      rcases getElem?_snoc_cases at_k with eq | old
      · cases eq
        cases seen
      · exact h.seen _ _ _ old seen
  outside := by
    rintro c views _ _ ⟨now, -, rfl⟩ h
    have unchanged := history_outside j c.log
    refine ⟨h.keyed, ?_, ?_, ?_, ?_, ?_, h.seen⟩ <;> rw [unchanged]
    · exact h.record
    · exact h.bound
    · exact h.claims
    · exact h.wrote
    · exact h.claimed
  call := by
    intro c views i call op r t g _ h view allowed step
    refine ⟨h.keyed.admits step, ?_⟩
    refine served_cases (motive := fun op r t g' => Keyed t →
      Ledger j first t (c.log ++ [.call i call op r]) (views.set i (call, g')))
      ?_ ?_ ?_ allowed step (h.keyed.served allowed step)
    · intro v rev _ permits keyed
      refine h.write view (by simp [write?]) permits ?_ keyed
      rw [value_put, dif_pos ⟨rfl, rfl⟩]
    · intro _ keyed
      exact h.still view rfl rfl rfl rfl (.inl rfl) keyed
    · intro op r t silent same keyed
      exact h.still view (silent i) same.record same.wrote same.claimed same.seen keyed

theorem Ledger.idle (sound : Sound w) : Ledger j (w.value .jobs j) w [] [] where
  keyed := fun k => (sound.placed k).keyed
  record := rfl
  bound := by simp [history]
  claims := by simp [history]
  wrote := by simp
  claimed := by simp
  seen := by simp

end Ledger

/-- The discipline's invariants hold after every run of operations that keep it. -/
theorem Invariant.runs {lib : Externals} {j : String} {w : World} {c : Server}
    {ok : Server → Action Call Op Ans → Prop}
    {I : World → List (Action Call Op Ans) → List (Call × View) → Prop}
    (inv : Invariant serves TimePasses (discipline lib j) {} ok I)
    (concurrently : ∀ c call, ok c (.start call) → call.operation ∈ concurrent)
    (run : Runs lib ok (idle w) c) (start : I w [] []) :
    ∃ views, Behaved (discipline lib j) (Replies j) c.threads views ∧ I c.state c.log views :=
  inv.holds (fun c call started => follows_call (concurrently c call started)) run .nil start

/-- The operations whose reply needs a claim of the job made one. -/
theorem Ledger.claimed_of_reply {lib : Externals} {j : String} {first : Option JobState} {w : World}
    {log : List (Action Call Op Ans)} {threads : List (Call × Prog Reply)}
    {views : List (Call × View)} (behaved : Behaved (discipline lib j) (Replies j) threads views)
    (h : Ledger j first w log views) {i : Nat} {queues : List String} {count : Int}
    {workerID : String} {timeout : Int} {jobs : List Job}
    (replied : threads[i]? = some (.fetch queues count workerID timeout, .pure (.jobs jobs)))
    {job : Job} (mem : job ∈ jobs) (id : job.id = j) :
    ∃ v, ⟨i, .fetch queues count workerID timeout, v⟩ ∈ history j log ∧ v.state = .active := by
  obtain ⟨g, view, follows⟩ := behaved.getElem? replied
  exact h.claimed i _ g view (follows job mem id)

end OjsNats.Concurrent
