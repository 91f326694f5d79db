import OjsNats.Concurrent.Conduct

/-!
# Records that calls rely on

While workflows are created, advanced and cancelled at once, a job that was read stays
there with its workflow, a workflow that was read stays there, and no two calls store new
jobs under one id.
-/

namespace OjsNats.Concurrent

open Core Nats Lifecycle Effect

/-! ## What the log says -/

/-- What a call reads or writes of a workflow. -/
def glimpse? : (op : Op) → Ans op → Option (String × WorkflowState)
  | .get .workflows k, .ok (r, _) => some (k, r)
  | .put .workflows k v, .ok _ => some (k, v)
  | _, _ => none

/-- What a call reads of a job. -/
def seen? : (op : Op) → Ans op → Option (String × JobState)
  | .get .jobs k, .ok (rec, _) => some (k, rec)
  | _, _ => none

theorem copy_next {lib : Externals} {g : Sight} {op : Op} {r : Ans op} :
    (g.next lib op r).copy = (glimpse? op r).or g.copy := by
  cases op with
  | get b k =>
    cases b with
    | jobs | workflows => cases r <;> rfl
    | _ => rfl
  | put b k v =>
    cases b with
    | jobs | workflows => cases r <;> rfl
    | _ => rfl
  | publish => cases r <;> rfl
  | _ => rfl

theorem seen_next {lib : Externals} {g : Sight} {op : Op} {r : Ans op} :
    (g.next lib op r).seen = (seen? op r).or g.seen := by
  cases op with
  | get b k =>
    cases b with
    | jobs | workflows => cases r <;> rfl
    | _ => rfl
  | put b k v =>
    cases b with
    | jobs | workflows => cases r <;> rfl
    | _ => rfl
  | publish => cases r <;> rfl
  | _ => rfl

theorem output_next {lib : Externals} {g : Sight} {op : Op} {r : Ans op} :
    (g.next lib op r).output = g.output ++ (pushes? op r).toList := by
  cases op with
  | get b k =>
    cases b with
    | jobs | workflows => cases r <;> exact (List.append_nil _).symm
    | _ => exact (List.append_nil _).symm
  | put b k v =>
    cases b with
    | jobs =>
      cases r with
      | error e => exact (List.append_nil _).symm
      | ok n =>
        simp only [Sight.next, Sight.store, pushes?]
        split <;> rfl
    | workflows => cases r <;> exact (List.append_nil _).symm
    | _ => exact (List.append_nil _).symm
  | publish => cases r <;> first | rfl | exact (List.append_nil _).symm
  | _ => exact (List.append_nil _).symm

/-! ## What stays -/

theorem Akin.refl (rec : JobState) : Akin rec rec := ⟨rfl, rfl⟩

theorem Akin.trans {a b c : JobState} (h : Akin a b) (h' : Akin b c) : Akin a c :=
  ⟨h'.1.trans h.1, h'.2.trans h.2⟩

/-- No record is lost and no job changes its workflow; a job is new under one id at most. -/
structure Onward (w t : World) (new : Option String) : Prop where
  used : ∀ m ∈ w.used, m ∈ t.used
  missing : ∀ m, w.value .jobs m = none → new ≠ some m → t.value .jobs m = none
  jobs : ∀ k rec, w.value .jobs k = some rec → ∃ rec', t.value .jobs k = some rec' ∧ Akin rec rec'
  workflows : ∀ k, w.value .workflows k ≠ none → t.value .workflows k ≠ none

/-- What an operation has seen is still there. -/
structure Grounded (first w : World) (call : Call) (g : Sight) : Prop where
  minted : ∀ m, g.minted = some m → m ∈ w.used ∧ w.value .jobs m = none
  named : ∀ id, g.named = some id → id ∉ first.used ∧ id ≠ ""
  seen : ∀ k rec, g.seen = some (k, rec) → ∃ rec', w.value .jobs k = some rec' ∧ Akin rec rec'
  copied : ∀ k r, g.copy = some (k, r) → w.value .workflows k ≠ none
  owner : ∀ j k r, reportedJob call = some j → g.copy = some (k, r) →
    ∃ rec, w.value .jobs j = some rec ∧ rec.workflowID = k
  founder : call.operation = .createWorkflow → g.writes ≠ 0 →
    ∃ k r, g.named = some k ∧ g.copy = some (k, r)
  present : ∀ j, reportedJob call = some j → g.settled = true → w.value .jobs j ≠ none
  unowned : ∀ j, reportedJob call = some j → g.unowned = true →
    ∃ rec, w.value .jobs j = some rec ∧ rec.workflowID = ""
  refused : ∀ j k, reportedJob call = some j → g.refused = some k →
    ∃ rec, w.value .jobs j = some rec ∧ rec.workflowID = k

section Values

variable (w : World) (k j : String)

theorem value_jobs_put (v : JobState) :
    (w.put .jobs k v).value .jobs j = if j = k then some v else w.value .jobs j := by
  rw [value_put]
  by_cases same : j = k <;> simp [same]

theorem value_workflows_put (v : WorkflowState) :
    (w.put .workflows k v).value .workflows j = if j = k then some v else w.value .workflows j := by
  rw [value_put]
  by_cases same : j = k <;> simp [same]

theorem value_workflows_put_jobs (v : JobState) :
    (w.put .jobs k v).value .workflows j = w.value .workflows j :=
  value_put_other fun same => absurd same.1 (by decide)

theorem value_jobs_put_workflows (v : WorkflowState) :
    (w.put .workflows k v).value .jobs j = w.value .jobs j :=
  value_put_other fun same => absurd same.1 (by decide)

end Values

section Onward

variable {lib : Externals} {first w t : World} {call : Call} {g g' : Sight} {op : Op} {r : Ans op}

theorem Onward.of_same (jobs : ∀ k, t.value .jobs k = w.value .jobs k)
    (workflows : ∀ k, t.value .workflows k = w.value .workflows k)
    (used : ∀ m ∈ w.used, m ∈ t.used) : Onward w t none where
  used := used
  missing m missing _ := (jobs m).trans missing
  jobs k rec found := ⟨rec, (jobs k).trans found, .refl rec⟩
  workflows k found := by rwa [workflows]

theorem Onward.refl (w : World) : Onward w w none :=
  .of_same (fun _ => rfl) (fun _ => rfl) fun _ mem => mem

theorem Onward.job_ne {new : Option String} (h : Onward w t new) {k : String}
    (present : w.value .jobs k ≠ none) : t.value .jobs k ≠ none := by
  obtain ⟨rec, found⟩ := Option.ne_none_iff_exists'.mp present
  obtain ⟨rec', found', -⟩ := h.jobs k rec found
  simp [found']

theorem Onward.owner {new : Option String} (h : Onward w t new) {j k : String}
    (owner : ∃ rec, w.value .jobs j = some rec ∧ rec.workflowID = k) :
    ∃ rec, t.value .jobs j = some rec ∧ rec.workflowID = k := by
  obtain ⟨rec, found, owner⟩ := owner
  obtain ⟨rec', found', akin⟩ := h.jobs j rec found
  exact ⟨rec', found', akin.1.trans owner⟩

theorem Grounded.onward (h : Grounded first w call g) {new : Option String}
    (onward : Onward w t new) (other : ∀ m, g.minted = some m → new ≠ some m) :
    Grounded first t call g where
  minted m own := ⟨onward.used m (h.minted m own).1,
    onward.missing m (h.minted m own).2 (other m own)⟩
  named := h.named
  seen k rec seen := by
    obtain ⟨rec', found, akin⟩ := h.seen k rec seen
    obtain ⟨rec'', found', akin'⟩ := onward.jobs k rec' found
    exact ⟨rec'', found', akin.trans akin'⟩
  copied k r copy := onward.workflows k (h.copied k r copy)
  owner j k r own copy := onward.owner (h.owner j k r own copy)
  founder := h.founder
  present j own settled := onward.job_ne (h.present j own settled)
  unowned j own unowned := onward.owner (h.unowned j own unowned)
  refused j k own refused := onward.owner (h.refused j k own refused)

/-- A report looks at the workflow of its job. -/
theorem MayLook.owner {j k : String} (looks : MayLook g k call) (ground : Grounded first w call g)
    (same : reportedJob call = some j) :
    ∃ rec, w.value .jobs j = some rec ∧ rec.workflowID = k := by
  have seen : ∃ rec, g.seen = some (j, rec) ∧ rec.workflowID = k := by
    cases call with
    | ack | nack =>
      cases same
      exact looks.2
    | _ => cases same
  obtain ⟨rec, seen, owner⟩ := seen
  obtain ⟨rec', found, akin⟩ := ground.seen j rec seen
  exact ⟨rec', found, akin.1.trans owner⟩

/-- A report writes the workflow that it holds. -/
theorem MayWrite.copy {j k : String} {v : WorkflowState} (writes : MayWrite lib g k v call)
    (same : reportedJob call = some j) : ∃ r, g.copy = some (k, r) := by
  cases call with
  | ack | nack =>
    obtain ⟨r, copy, -⟩ := writes
    exact ⟨r, copy⟩
  | _ => cases same

theorem not_mayLook_of_creates {k : String} (creates : call.operation = .createWorkflow) :
    ¬ MayLook g k call := by
  cases call with
  | createWorkflow => exact id
  | _ => exact absurd creates (by simp [Call.operation])

theorem MayWrite.named {k : String} {v : WorkflowState} (writes : MayWrite lib g k v call)
    (creates : call.operation = .createWorkflow) : g.named = some k := by
  cases call with
  | createWorkflow => exact writes.1
  | _ => exact absurd creates (by simp [Call.operation])

theorem MayFound.unreported {v : JobState} (founds : MayFound call g v) (j : String) :
    reportedJob call ≠ some j := by
  intro same
  cases call with
  | createWorkflow => cases same
  | _ => exact absurd founds.creates (by simp [Call.operation])

/-- The id that was given last is used up. -/
theorem Grounded.spend (h : Grounded first w call g) :
    Grounded first w call { g with minted := none } where
  minted _ own := absurd own.symm (Option.some_ne_none _)
  named := h.named
  seen := h.seen
  copied := h.copied
  owner := h.owner
  founder := h.founder
  present := h.present
  unowned := h.unowned
  refused := h.refused

theorem Grounded.spend_onward (h : Grounded first w call g) {new : Option String}
    (onward : Onward w t new) : Grounded first t call { g with minted := none } :=
  h.spend.onward onward fun _ own => absurd own.symm (Option.some_ne_none _)

theorem Grounded.idle (first w : World) (call : Call) : Grounded first w call {} where
  minted _ own := absurd own.symm (Option.some_ne_none _)
  named _ own := absurd own.symm (Option.some_ne_none _)
  seen _ _ own := absurd own.symm (Option.some_ne_none _)
  copied _ _ own := absurd own.symm (Option.some_ne_none _)
  owner _ _ _ _ own := absurd own.symm (Option.some_ne_none _)
  founder _ wrote := absurd rfl wrote
  present _ _ settled := by cases settled
  unowned _ _ unowned := by cases unowned
  refused _ _ _ own := absurd own.symm (Option.some_ne_none _)

/-- A new version of a record that was read keeps the job. -/
theorem onward_rewrite {k : String} {v : JobState} (ground : Grounded first w call g)
    (rewrites : MayRewrite call g k v) : Onward w (w.put .jobs k v) none := by
  obtain ⟨rec, seen, akin, -⟩ := rewrites
  obtain ⟨rec', found, kin⟩ := ground.seen k rec seen
  refine ⟨fun m mem => mem, fun m missing _ => ?_, fun j rec'' found' => ?_, fun j found' => ?_⟩
  · rw [value_jobs_put, if_neg]
    · exact missing
    · rintro rfl
      cases found.symm.trans missing
  · rw [value_jobs_put]
    split
    · rename_i same
      subst same
      cases found.symm.trans found'
      exact ⟨v, rfl, akin.1.trans kin.1.symm, akin.2.trans kin.2.symm⟩
    · exact ⟨rec'', found', .refl rec''⟩
  · rwa [value_workflows_put_jobs]

theorem onward_store {k : String} {v : JobState} (ground : Grounded first w call g)
    (minted : g.minted = some k) : Onward w (w.put .jobs k v) (some k) := by
  obtain ⟨-, missing⟩ := ground.minted k minted
  refine ⟨fun m mem => mem, fun m missing other => ?_, fun j rec found => ⟨rec, ?_, .refl rec⟩,
    fun j found => ?_⟩
  · rw [value_jobs_put, if_neg]
    · exact missing
    · rintro rfl
      exact other rfl
  · rw [value_jobs_put, if_neg]
    · exact found
    · rintro rfl
      cases missing.symm.trans found
  · rwa [value_workflows_put_jobs]

theorem onward_write {k : String} {v : WorkflowState} : Onward w (w.put .workflows k v) none := by
  refine ⟨fun m mem => mem, fun m missing _ => ?_, fun j rec found => ⟨rec, ?_, .refl rec⟩,
    fun j found => ?_⟩
  · rw [value_jobs_put_workflows, missing]
  · rw [value_jobs_put_workflows, found]
  · rw [value_workflows_put]
    split
    · simp
    · exact found

/-- What is new after a call was given to its operation. -/
theorem Happens.onward (h : Happens lib call g w op r t g') (ground : Grounded first w call g) :
    ∃ new, Onward w t new ∧ ∀ k, new = some k → g.minted = some k := by
  cases h with
  | aside _ jobs workflows used =>
    exact ⟨none, .of_same jobs workflows fun m mem => used ▸ mem, nofun⟩
  | @mint id nonempty unused =>
    exact ⟨none, .of_same (fun _ => rfl) (fun _ => rfl) fun _ => List.mem_cons_of_mem _, nofun⟩
  | find | miss | look | overlook => exact ⟨none, .refl w, nofun⟩
  | tell => exact ⟨none, .of_same (fun _ => rfl) (fun _ => rfl) fun _ mem => mem, nofun⟩
  | write => exact ⟨none, onward_write, nofun⟩
  | @store k v rev stores =>
    rcases stores.2 with rewrites | ⟨minted, -⟩
    · exact ⟨none, onward_rewrite ground rewrites, nofun⟩
    · refine ⟨some k, onward_store ground minted, ?_⟩
      rintro _ ⟨⟩
      exact minted

/-- What an operation has seen is there after its own call. -/
theorem Grounded.happens (ground : Grounded first w call g) (older : ∀ m ∈ first.used, m ∈ w.used)
    (known : ∀ k, w.value .jobs k ≠ none → k ∈ w.used) (h : Happens lib call g w op r t g') :
    Grounded first t call g' := by
  cases h with
  | aside _ jobs workflows used =>
    exact ground.onward (.of_same jobs workflows fun m mem => used ▸ mem) fun _ _ => by simp
  | @mint id nonempty unused =>
    have kept := ground.onward (t := { w with used := id :: w.used })
      (.of_same (fun _ => rfl) (fun _ => rfl) fun _ => List.mem_cons_of_mem _) fun _ _ => by simp
    refine { kept with minted := ?_, named := ?_, founder := ?_ }
    · rintro m ⟨⟩
      refine ⟨List.mem_cons_self, ?_⟩
      by_contra found
      exact unused (known _ found)
    · intro name named
      cases before : g.named with
      | some id' =>
        rw [Sight.mint, before] at named
        cases named
        exact ground.named _ before
      | none =>
        rw [Sight.mint, before] at named
        cases named
        exact ⟨fun old => unused (older _ old), nonempty⟩
    · intro creates wrote
      obtain ⟨k, r, named, copy⟩ := ground.founder creates wrote
      exact ⟨k, r, by rw [Sight.mint, named]; rfl, copy⟩
  | @find k rec rev own found =>
    refine { ground with seen := ?_, unowned := ?_ }
    · rintro _ _ ⟨⟩
      exact ⟨rec, found, .refl rec⟩
    · intro j same unowned
      simp only [Sight.find, Bool.or_eq_true, Bool.and_eq_true, decide_eq_true_eq] at unowned
      rcases unowned with before | ⟨-, none⟩
      · exact ground.unowned j same before
      · exact ⟨rec, own j same ▸ found, none⟩
  | @miss k e own missing =>
    refine { ground with unowned := ?_ }
    intro j same unowned
    simp only [Sight.miss, Bool.or_eq_true] at unowned
    rcases unowned with before | settled
    · exact ground.unowned j same before
    · exact absurd (own j same ▸ missing) (ground.present j same settled)
  | @look k r rev looks found =>
    refine { ground with copied := ?_, owner := ?_, founder := ?_, refused := ?_ }
    · rintro _ _ ⟨⟩
      rw [found]
      simp
    · rintro j _ _ same ⟨⟩
      exact looks.owner ground same
    · intro creates
      exact absurd looks (not_mayLook_of_creates creates)
    · intro j k' same refused
      simp only [Sight.look] at refused
      split at refused
      · exact ground.refused j k' same refused
      · cases refused
        exact looks.owner ground same
  | @overlook k e looks missing =>
    refine { ground with refused := ?_ }
    rintro j _ same ⟨⟩
    exact looks.owner ground same
  | @write k v rev writes =>
    have kept := ground.onward (onward_write (k := k) (v := v)) fun _ _ => by simp
    refine { kept with copied := ?_, owner := ?_, founder := ?_ }
    · rintro _ _ ⟨⟩
      rw [value_workflows_put, if_pos rfl]
      simp
    · rintro j _ _ same ⟨⟩
      obtain ⟨r, copy⟩ := writes.copy same
      exact kept.owner j _ r same copy
    · intro creates _
      exact ⟨k, v, writes.named creates, rfl⟩
  | tell => exact { ground with }
  | @store k v rev stores =>
    have settles (kept : Grounded first (w.put .jobs k v) call { g with minted := none })
        (present : ∀ j, reportedJob call = some j → (w.put .jobs k v).value .jobs j ≠ none) :
        Grounded first (w.put .jobs k v) call (g.store k v) :=
      { kept with present := fun j same _ => present j same }
    rcases stores.2 with rewrites | ⟨minted, -, -, founds | spawns⟩
    · refine settles (ground.spend_onward (onward_rewrite ground rewrites)) ?_
      intro j same
      obtain ⟨rec, -, -, -, own⟩ := rewrites
      rw [← (own j same).1, value_jobs_put, if_pos rfl]
      simp
    · refine settles (ground.spend_onward (onward_store ground minted)) ?_
      intro j same
      exact absurd same (founds.unreported j)
    · have onward := onward_store (v := v) ground minted
      refine settles (ground.spend_onward onward) fun j same => onward.job_ne ?_
      obtain ⟨-, id, r, copy, -⟩ := spawns
      obtain ⟨rec, found, -⟩ := ground.owner j id r same copy
      rw [found]
      simp

theorem Happens.keyed (h : Happens lib call g w op r t g') (keyed : Keyed w) : Keyed t := by
  cases h with
  | aside _ jobs => exact fun k rec found => keyed k rec ((jobs k).symm.trans found)
  | write => exact keyed.put_other (by decide) _ _
  | store stores => exact keyed.put stores.1
  | _ => exact keyed

theorem Happens.known (h : Happens lib call g w op r t g') (ground : Grounded first w call g)
    (known : ∀ k, w.value .jobs k ≠ none → k ∈ w.used) (k : String)
    (found : t.value .jobs k ≠ none) : k ∈ t.used := by
  cases h with
  | aside _ jobs _ used =>
    rw [jobs] at found
    exact used ▸ known k found
  | mint => exact List.mem_cons_of_mem _ (known k found)
  | write =>
    rw [value_jobs_put_workflows] at found
    exact known k found
  | @store j v rev stores =>
    rw [value_jobs_put] at found
    split at found
    · rename_i same
      subst same
      rcases stores.2 with ⟨rec, seen, -⟩ | ⟨minted, -⟩
      · obtain ⟨rec', present, -⟩ := ground.seen k rec seen
        exact known k (by simp [present])
      · exact (ground.minted k minted).1
    · exact known k found
  | _ => exact known k found

/-- A new id was not in use. -/
theorem Happens.minted (h : Happens lib call g w op r t g') {m : String}
    (minted : g'.minted = some m) : g.minted = some m ∨ m ∉ w.used := by
  cases h with
  | mint nonempty unused =>
    cases minted
    exact .inr unused
  | store => cases minted
  | _ => exact .inl minted

theorem Happens.used (h : Happens lib call g w op r t g') : ∀ m ∈ w.used, m ∈ t.used := by
  cases h with
  | aside _ _ _ used => exact fun m mem => used ▸ mem
  | mint => exact fun _ => List.mem_cons_of_mem _
  | _ => exact fun _ mem => mem

end Onward

/-! ## Every run -/

/-- The records in the store, the ids that were given and what the operations have seen. -/
structure Recorded (first w : World) (log : List (Action Call Op Ans))
    (views : List (Call × Sight)) : Prop where
  keyed : Keyed w
  known : ∀ k, w.value .jobs k ≠ none → k ∈ w.used
  older : ∀ m ∈ first.used, m ∈ w.used
  grounded : ∀ (i : Nat) (call : Call) (g : Sight), views[i]? = some (call, g) →
    Grounded first w call g
  apart : ∀ (i j : Nat) (call call' : Call) (g g' : Sight) (m : String),
    views[i]? = some (call, g) → views[j]? = some (call', g') →
    g.minted = some m → g'.minted = some m → i = j
  glimpsed : RemembersLast glimpse? Sight.copy log views
  read : RemembersLast seen? Sight.seen log views
  pushed : Remembered pushes? Sight.output log views

section Recorded

variable {lib : Externals} {first w t : World} {log : List (Action Call Op Ans)}
  {views : List (Call × Sight)} {i : Nat} {call : Call} {g g' : Sight} {op : Op} {r : Ans op}

theorem Recorded.serve (h : Recorded first w log views) (view : views[i]? = some (call, g))
    (step : Happens lib call g w op r t (g.next lib op r)) :
    Recorded first t (log ++ [.call i call op r]) (views.set i (call, g.next lib op r)) where
  keyed := step.keyed h.keyed
  known := step.known (h.grounded i call g view) h.known
  older m mem := step.used m (h.older m mem)
  grounded j call' f at_j := by
    rcases getElem?_set_cases at_j with ⟨-, eq⟩ | ⟨ne, old⟩
    · cases eq
      exact (h.grounded i call g view).happens h.older h.known step
    · obtain ⟨new, onward, minted⟩ := step.onward (h.grounded i call g view)
      refine (h.grounded j call' f old).onward onward fun m theirs same => ne ?_
      exact h.apart j i _ _ f g m old view theirs (minted m same)
  apart j j' call' call'' f f' m at_j at_j' own own' := by
    have clash {k : Nat} {call : Call} {f : Sight} (old : views[k]? = some (call, f))
        (theirs : f.minted = some m) (mine : (g.next lib op r).minted = some m) : k = i := by
      rcases step.minted mine with before | fresh
      · exact h.apart k i _ _ f g m old view theirs before
      · exact absurd ((h.grounded k _ f old).minted m theirs).1 fresh
    rcases getElem?_set_cases at_j with ⟨rfl, eq⟩ | ⟨ne, old⟩
    · cases eq
      rcases getElem?_set_cases at_j' with ⟨rfl, eq⟩ | ⟨ne', old'⟩
      · rfl
      · exact (clash old' own' own).symm
    · rcases getElem?_set_cases at_j' with ⟨rfl, eq⟩ | ⟨ne', old'⟩
      · cases eq
        exact clash old own own'
      · exact h.apart j j' _ _ f f' m old old' own own'
  glimpsed := h.glimpsed.call view copy_next
  read := h.read.call view seen_next
  pushed := h.pushed.call view output_next

theorem Recorded.start (h : Recorded first w log views) (call : Call) :
    Recorded first w (log ++ [.start call]) (views ++ [(call, ({} : Sight))]) where
  keyed := h.keyed
  known := h.known
  older := h.older
  grounded j call' f at_j := by
    rcases getElem?_snoc_cases at_j with eq | old
    · cases eq
      exact Grounded.idle first w call
    · exact h.grounded j call' f old
  apart j j' call' call'' f f' m at_j at_j' own own' := by
    rcases getElem?_snoc_cases at_j with eq | old
    · cases eq
      cases own
    · rcases getElem?_snoc_cases at_j' with eq | old'
      · cases eq
        cases own'
      · exact h.apart j j' _ _ f f' m old old' own own'
  glimpsed := h.glimpsed.begin call rfl
  read := h.read.begin call rfl
  pushed := h.pushed.begin call rfl

theorem Recorded.rest (h : Recorded first w log views) (now : Int) :
    Recorded first { w with clock := now } (log ++ [.outside]) views where
  keyed := h.keyed
  known := h.known
  older := h.older
  grounded j call f at_j :=
    (h.grounded j call f at_j).onward
      (.of_same (fun _ => rfl) (fun _ => rfl) fun _ mem => mem) fun _ _ => by simp
  apart := h.apart
  glimpsed := h.glimpsed.rest
  read := h.read.rest
  pushed := h.pushed.rest

/-- What a served call was answered. -/
theorem Recorded.admits (h : Recorded first w log views) (view : views[i]? = some (call, g))
    (step : w.Serves op r t) : (conduct lib call).admits g op r := by
  cases op with
  | get b k =>
    cases b with
    | jobs =>
      cases r with
      | ok entry => exact h.keyed k entry.1 (World.lookup_value w step.1.symm)
      | error e => trivial
    | workflows =>
      cases r with
      | ok entry => trivial
      | error e =>
        intro r copy
        exact (h.grounded i call g view).copied k r copy (World.lookup_error w step.1.symm)
    | _ => trivial
  | put b k v =>
    obtain ⟨rfl, -⟩ := step
    trivial
  | delete b k =>
    obtain ⟨rfl, -⟩ := step
    trivial
  | msgAck m =>
    obtain ⟨rfl, -⟩ := step
    trivial
  | publish subject k =>
    obtain ⟨rfl, -⟩ := step
    trivial
  | _ => trivial

theorem Recorded.idle (sound : Sound w) : Recorded w w [] [] where
  keyed k := (sound.placed k).keyed
  known k found := (sound.known k found).1
  older _ mem := mem
  grounded _ _ _ at_i := by simp at at_i
  apart _ _ _ _ _ _ _ at_i := by simp at at_i
  glimpsed := .nil
  read := .nil
  pushed := .nil

end Recorded

theorem recorded_invariant (lib : Externals) (first : World)
    (ok : Server → Action Call Op Ans → Prop) :
    Invariant (α := Reply) serves TimePasses (conduct lib) {} ok (Recorded first) where
  start _ _ call _ h := h.start call
  outside := by
    rintro c views _ _ ⟨now, -, rfl⟩ h
    exact h.rest now
  call := by
    intro c views i call op r t g _ h view allowed step
    exact ⟨h.admits view step, h.serve view (happens_of_serves allowed step)⟩

end OjsNats.Concurrent
