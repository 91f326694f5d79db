import OjsNats.Concurrent.Claims

/-!
# One outcome of an active job

Ack, Nack and Cancel read the job's state and write its record in two calls.
If each of their writes lands while the job is still active, only the first of
them writes, so at most one of them succeeds.
-/

namespace OjsNats.Concurrent

open Core Nats Lifecycle Effect

/-- The job whose outcome the operation decides. -/
def decided : Call → Option String
  | .ack k _ | .nack k _ _ | .cancel k => some k
  | _ => none

/-- The action belongs to an operation that decides the outcome of the job. -/
def Decides (j : String) : Action Call Op Ans → Prop
  | .start call => decided call = some j
  | .call _ call _ _ => decided call = some j
  | .outside => True

instance (j : String) : (a : Action Call Op Ans) → Decidable (Decides j a)
  | .start call => inferInstanceAs (Decidable (decided call = some j))
  | .call _ call _ _ => inferInstanceAs (Decidable (decided call = some j))
  | .outside => isTrue trivial

/-- Only such operations run, and their writes land on an active job. -/
def InTime (j : String) (c : Server) (a : Action Call Op Ans) : Prop :=
  Decides j a ∧ ∀ m ∈ write? j a, Timely (fun _ => some .active) c.state j m

instance (j : String) (c : Server) (a : Action Call Op Ans) : Decidable (InTime j c a) :=
  inferInstanceAs (Decidable (_ ∧ ∀ m ∈ write? j a, Timely (fun _ => some .active) c.state j m))

/-- The operation has returned success. -/
def succeeded (c : Server) (i : Nat) : Bool :=
  match c.threads[i]? with
  | some (.ack _ _, .pure (.acked (.ok _))) | some (.nack _ _ _, .pure (.nacked (.ok _)))
  | some (.cancel _, .pure (.job (.ok _))) => true
  | _ => false

/-- At most one operation has succeeded, and the stored record is the one it wrote. -/
def OneOutcome (j : String) (c : Server) : Prop :=
  (∀ i k, succeeded c i = true → succeeded c k = true → i = k) ∧
    ∀ i, succeeded c i = true → ∃ m ∈ history j c.log, m.thread = i ∧
      c.state.value .jobs j = some m.record

/-- The job is active and unwritten, or it was written once. -/
structure Sole (j : String) (w : World) (log : List (Action Call Op Ans))
    (views : List (Call × View)) : Prop where
  known : j ∈ w.used
  deciding : ∀ (i : Nat) (call : Call) (g : View), views[i]? = some (call, g) →
    decided call = some j ∧ g.minted = 0
  sole : (history j log = [] ∧ Stands w j .active) ∨ ∃ m, history j log = [m] ∧
    w.value .jobs j = some m.record ∧ m.record.state ≠ .active

section Sole

variable {lib : Externals} {j : String} {first : Option JobState} {w t : World}
  {log : List (Action Call Op Ans)} {views : List (Call × View)} {i : Nat} {call : Call} {g g' : View}
  {a : Action Call Op Ans}

theorem Sole.still (h : Sole j w log views) (view : views[i]? = some (call, g))
    (silent : write? j a = none) (same : Still j w t g g') :
    Sole j t (log ++ [a]) (views.set i (call, g')) := by
  have unchanged := history_silent silent log
  refine ⟨same.known.mpr h.known, ?_, ?_⟩
  · intro k call' f at_k
    rcases getElem?_set_cases at_k with ⟨-, eq⟩ | ⟨-, old⟩
    · cases eq
      rw [same.minted]
      exact h.deciding i call g view
    · exact h.deciding k call' f old
  · unfold Stands
    rw [unchanged, same.record]
    exact h.sole

/-- The states that a report or a cancellation leads to. -/
theorem outcome_of_permits (decides : decided call = some j) (unminted : g.minted = 0)
    {v : JobState} (permits : Permits lib j g v call) : v.state ≠ .active := by
  cases call with
  | ack k result =>
    rcases permits with ⟨given, -⟩ | ⟨-, -, -, state⟩
    · omega
    · simp [state]
  | nack k jobErr requeue =>
    rcases permits with ⟨given, -⟩ | ⟨-, -, -, state | state | state⟩
    · omega
    all_goals simp [state]
  | cancel k =>
    obtain ⟨-, -, -, state⟩ := permits
    simp [state]
  | _ => simp [decided] at decides

theorem Sole.written (h : Sole j w log views)
    (view : views[i]? = some (call, g)) {v : JobState} (permits : Permits lib j g v call) (timely : Stands w j .active)
    (entry : write? j a = some ⟨i, call, v⟩) (stored : t.value .jobs j = some v)
    (used : t.used = w.used) : Sole j t (log ++ [a]) (views.set i (call, g.write v)) := by
  obtain ⟨decides, unminted⟩ := h.deciding i call g view
  have longer := history_write entry log
  refine ⟨used ▸ h.known, ?_, ?_⟩
  · intro k call' f at_k
    rcases getElem?_set_cases at_k with ⟨-, eq⟩ | ⟨-, old⟩
    · cases eq
      exact ⟨decides, by rw [write_minted, unminted]⟩
    · exact h.deciding k call' f old
  · rcases h.sole with ⟨empty, -⟩ | ⟨m, -, record, settled⟩
    · refine .inr ⟨⟨i, call, v⟩, by rw [longer, empty]; rfl, stored, ?_⟩
      exact outcome_of_permits decides unminted permits
    · exact absurd (timely _ record) settled

end Sole

theorem sole_invariant (lib : Externals) (j : String) (first : Option JobState) :
    Invariant (α := Reply) serves TimePasses (discipline lib j) {} (InTime j)
      (fun w log views => Ledger j first w log views ∧ Sole j w log views) := by
  refine (ledger_invariant lib j first).extend (fun _ _ _ => trivial) ?_ ?_ ?_
  · intro c views call inTime _ h
    refine ⟨h.known, ?_, ?_⟩
    · intro k call' f at_k
      rcases getElem?_snoc_cases at_k with eq | old
      · cases eq
        exact ⟨inTime.1, rfl⟩
      · exact h.deciding k call' f old
    · rw [history_start]
      exact h.sole
  · rintro c views _ _ ⟨now, -, rfl⟩ _ h
    refine ⟨h.known, h.deciding, ?_⟩
    rw [history_outside]
    exact h.sole
  · intro c views i call op r t g inTime _ h view allowed step
    refine served_cases (motive := fun op r t g' => InTime j c (.call i call op r) →
      Sole j t (c.log ++ [.call i call op r]) (views.set i (call, g'))) ?_ ?_ ?_ allowed step inTime
    · intro v rev _ permits inTime
      have entry : write? j (.call i call (.put .jobs j v) (.ok rev)) = some ⟨i, call, v⟩ := by
        simp [write?]
      refine h.written view permits (inTime.2 _ entry _ rfl) entry ?_ rfl
      rw [value_put, dif_pos ⟨rfl, rfl⟩]
    · exact fun new _ => absurd h.known new
    · intro op r t silent same _
      exact h.still view (silent i) same

/-- If every write of an outcome lands on the active job, there is one outcome. -/
theorem oneOutcome_of_inTime {lib : Externals} {j : String} {w : World} {c : Server}
    (reachable : Reachable lib w) (active : (w.slot j).state = some .active)
    (run : Runs lib (InTime j) (idle w) c) : OneOutcome j c := by
  have sound := reachable.sound
  obtain ⟨rec, stored, state⟩ := Option.map_eq_some_iff.mp active
  have start : Sole j w [] [] := by
    refine ⟨(sound.known j (by simp [stored])).1, by simp, .inl ⟨rfl, ?_⟩⟩
    intro rec' stored'
    cases stored.symm.trans stored'
    exact state
  have concurrently (c : Server) (call : Call) (h : InTime j c (.start call)) :
      call.operation ∈ concurrent := by
    have decides : decided call = some j := h.1
    cases call <;> simp [decided] at decides <;> simp [Call.operation, concurrent]
  obtain ⟨views, behaved, ledger, sole⟩ :=
    Invariant.runs (sole_invariant lib j _) concurrently run ⟨.idle sound, start⟩
  -- an operation that succeeded wrote the record
  have wrote (i : Nat) (success : succeeded c i = true) : ∃ m ∈ history j c.log, m.thread = i := by
    have entry {call : Call} {reply : Reply} (at_i : c.threads[i]? = some (call, .pure reply))
        (done : ∀ g, Replies j call reply g → decided call = some j → g.wrote.isSome) :
        ∃ m ∈ history j c.log, m.thread = i := by
      obtain ⟨g, view, replies⟩ := behaved.getElem? at_i
      obtain ⟨v, wrote⟩ := Option.isSome_iff_exists.mp
        (done g replies (sole.deciding i call g view).1)
      exact ⟨_, ledger.wrote i call g v view wrote, rfl⟩
    unfold succeeded at success
    split at success
    · rename_i at_i
      exact entry at_i fun g replies eq => replies (Option.some.inj eq)
    · rename_i at_i
      exact entry at_i fun g replies eq => replies (Option.some.inj eq)
    · rename_i at_i
      exact entry at_i fun g replies eq => replies (Option.some.inj eq)
    · cases success
  rcases sole.sole with ⟨empty, -⟩ | ⟨m, one, record, -⟩
  · constructor
    · intro i k success
      obtain ⟨m, mem, -⟩ := wrote i success
      simp [empty] at mem
    · intro i success
      obtain ⟨m, mem, -⟩ := wrote i success
      simp [empty] at mem
  · have only (i : Nat) (success : succeeded c i = true) : m.thread = i := by
      obtain ⟨m', mem, same⟩ := wrote i success
      rw [one, List.mem_singleton] at mem
      exact mem ▸ same
    exact ⟨fun i k first second => (only i first).symm.trans (only k second),
      fun i success => ⟨m, by simp [one], only i success, record⟩⟩

/-! ## Runs -/

/-- The job is claimed. -/
def claimed : World := after mailed mailFetch

theorem reachable_claimed : Reachable sample claimed :=
  reachable_mailed.after (fresh_of_no_ids rfl)

/-- An Ack runs to its end, then a Cancel. -/
def settled : Server := played (InTime "job-1")
  [.start (.ack "job-1" none), .start (.cancel "job-1"), .calls 0 20, .calls 1 20]
  (idle claimed)

theorem oneOutcome_settled : succeeded settled 0 = true ∧ OneOutcome "job-1" settled :=
  ⟨by decide, oneOutcome_of_inTime reachable_claimed (by decide) (runs_played (by decide))⟩

/-- An Ack and a Cancel both read the active job. -/
def contested : Server := played (fun _ a => Decides "job-1" a)
  [.start (.ack "job-1" none), .start (.cancel "job-1"), .calls 0 1, .calls 1 1, .calls 0 20,
    .calls 1 20] (idle claimed)

/-- An Ack and a Cancel of one active job can both succeed. -/
theorem not_oneOutcome : ¬ ∀ (lib : Externals) (w : World) (j : String) (c : Server),
    Reachable lib w → (w.slot j).state = some .active →
      Runs lib (fun _ a => Decides j a) (idle w) c → OneOutcome j c := by
  intro one
  have both := (one sample claimed "job-1" contested reachable_claimed (by decide)
    (runs_played (by decide))).1 0 1 (by decide) (by decide)
  cases both

end OjsNats.Concurrent
