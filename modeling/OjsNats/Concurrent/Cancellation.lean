import OjsNats.Concurrent.Outcomes

/-!
# A successful Cancel is final

Fetch and the scheduler passes write a record without looking whether it
changed since they read it.  As long as each of their writes lands on the state
it was meant for, no write makes a cancelled job available or active again.
-/

namespace OjsNats.Concurrent

open Core Nats Lifecycle Effect

/-- A Cancel of the job, a fetch or a pass. -/
def Meets (j : String) (call : Call) : Prop :=
  (call.operation = .cancel ∧ decided call = some j) ∨
    call.operation ∈ [.fetch, .promoteScheduled, .promoteRetries, .requeueStalled]

instance (j : String) (call : Call) : Decidable (Meets j call) := inferInstanceAs (Decidable (_ ∨ _))

/-- The action belongs to such an operation. -/
def Meeting (j : String) : Action Call Op Ans → Prop
  | .start call => Meets j call
  | .call _ call _ _ => Meets j call
  | .outside => True

instance (j : String) : (a : Action Call Op Ans) → Decidable (Meeting j a)
  | .start call => inferInstanceAs (Decidable (Meets j call))
  | .call _ call _ _ => inferInstanceAs (Decidable (Meets j call))
  | .outside => isTrue trivial

/-- The state that an operation takes the job out of. -/
def takesFrom (m : Write) : Option State :=
  match m.call.operation with
  | .fetch => if m.record.state = .active then some .available else none
  | .promoteScheduled => some .scheduled
  | .promoteRetries => some .retryable
  | .requeueStalled => some .active
  | _ => none

/-- Only such operations run, and they take the job out of the state they read. -/
def Undisturbed (j : String) (c : Server) (a : Action Call Op Ans) : Prop :=
  Meeting j a ∧ ∀ m ∈ write? j a, Timely takesFrom c.state j m

instance (j : String) (c : Server) (a : Action Call Op Ans) : Decidable (Undisturbed j c a) :=
  inferInstanceAs (Decidable (_ ∧ ∀ m ∈ write? j a, Timely takesFrom c.state j m))

/-- After a Cancel has succeeded in `m` the job is not available or active in
`c`, and no fetch that started since has returned it. -/
def FinalSince (j : String) (m c : Server) : Prop :=
  ∀ i, succeeded m i = true →
    (∀ rec, c.state.value .jobs j = some rec → rec.state ≠ .available ∧ rec.state ≠ .active) ∧
      ∀ k, m.threads.length ≤ k → j ∉ returned c k

def Write.Ends (m : Write) : Prop := m.record.state = .cancelled ∨ m.record.state = .discarded

/-- Since a Cancel wrote the record, the job is cancelled or discarded. -/
def Ended (ms : List Write) : Prop :=
  ∀ before m after, ms = before ++ m :: after → m.call.operation = .cancel →
    ∀ m' ∈ m :: after, m'.Ends

theorem Ended.last {ms : List Write} {m : Write} (ended : Ended ms) (mem : m ∈ ms)
    (cancels : m.call.operation = .cancel) : ∃ last, ms.getLast? = some last ∧ last.Ends := by
  obtain ⟨before, after, rfl⟩ := List.append_of_mem mem
  obtain ⟨last, eq⟩ := Option.isSome_iff_exists.mp
    (show (m :: after).getLast?.isSome by simp)
  refine ⟨last, ?_, ended before m after rfl cancels last (List.mem_of_getLast? eq)⟩
  rw [List.getLast?_append, eq]
  rfl

theorem Ended.snoc {ms : List Write} {m : Write} (ended : Ended ms)
    (ends : (m.call.operation = .cancel ∨ ∃ m' ∈ ms, m'.call.operation = .cancel) → m.Ends) :
    Ended (ms ++ [m]) := by
  intro before a after eq cancels m' mem
  rcases List.eq_nil_or_concat after with rfl | ⟨after', last, rfl⟩
  · obtain ⟨rfl, same⟩ := List.append_inj' eq rfl
    obtain rfl : m = a := by simpa using same
    obtain rfl := List.mem_singleton.mp mem
    exact ends (.inl cancels)
  · have split : ms ++ [m] = (before ++ a :: after') ++ [last] := by simpa using eq
    obtain ⟨rfl, same⟩ := List.append_inj' split rfl
    obtain rfl : m = last := by simpa using same
    have cases' : m' ∈ a :: after' ∨ m' = m := by
      rw [List.concat_eq_append, List.mem_cons, List.mem_append, List.mem_singleton] at mem
      rw [List.mem_cons, or_assoc]
      exact mem
    rcases cases' with old | rfl
    · exact ended before a after' rfl cancels m' old
    · exact ends (.inr ⟨a, by simp, cancels⟩)

/-- The invariant of the runs in which a Cancel is not disturbed. -/
structure Settling (j : String) (log : List (Action Call Op Ans))
    (views : List (Call × View)) : Prop where
  meets : ∀ (i : Nat) (call : Call) (g : View), views[i]? = some (call, g) → Meets j call
  ended : Ended (history j log)

theorem Settling.kept {j : String} {log : List (Action Call Op Ans)} {views : List (Call × View)}
    {i : Nat} {call : Call} {g g' : View} {a : Action Call Op Ans} (h : Settling j log views)
    (view : views[i]? = some (call, g)) (ended : Ended (history j (log ++ [a]))) :
    Settling j (log ++ [a]) (views.set i (call, g')) := by
  refine ⟨?_, ended⟩
  intro k call' f at_k
  rcases getElem?_set_cases at_k with ⟨-, eq⟩ | ⟨-, old⟩
  · cases eq
    exact h.meets i call g view
  · exact h.meets k call' f old

/-- A timely write ends the job, if it is a Cancel's or comes after one. -/
theorem Ended.written {lib : Externals} {j : String} {w : World} {ms : List Write} {i : Nat}
    {call : Call} {g : View} {v : JobState} (ended : Ended ms) {first : Option JobState}
    (record : w.value .jobs j = (ms.getLast?.map Write.record).or first)
    (meets : Meets j call) (permits : Permits lib j g v call)
    (timely : Timely takesFrom w j ⟨i, call, v⟩)
    (since : call.operation = .cancel ∨ ∃ m ∈ ms, m.call.operation = .cancel) :
    Write.Ends ⟨i, call, v⟩ := by
  -- an operation other than Cancel would need a record that did not end
  have never {state : State} (other : call.operation ≠ .cancel) (stands : Stands w j state)
      (live : state ≠ .cancelled ∧ state ≠ .discarded) : False := by
    rcases since with cancels | ⟨m, mem, cancels⟩
    · exact other cancels
    · obtain ⟨last, eq, ends⟩ := ended.last mem cancels
      rw [eq] at record
      have state := stands _ record
      rcases ends with cancelled | discarded
      · exact live.1 (state.symm.trans cancelled)
      · exact live.2 (state.symm.trans discarded)
  cases call with
  | cancel k => exact .inl permits.2.2.2
  | fetch queues count workerID timeout =>
    obtain ⟨-, rec, -, ⟨-, state⟩ | ⟨-, -, -, state⟩⟩ := permits
    · exact .inr state
    · refine (never (by simp [Call.operation]) (timely .available ?_) (by simp)).elim
      exact if_pos state
  | promoteScheduled =>
    exact (never (by simp [Call.operation]) (timely .scheduled rfl) (by simp)).elim
  | promoteRetries =>
    exact (never (by simp [Call.operation]) (timely .retryable rfl) (by simp)).elim
  | requeueStalled =>
    exact (never (by simp [Call.operation]) (timely .active rfl) (by simp)).elim
  | _ => simp [Meets, Call.operation] at meets

theorem settling_invariant (lib : Externals) (j : String) (first : Option JobState) :
    Invariant (α := Reply) serves TimePasses (discipline lib j) {} (Undisturbed j)
      (fun w log views => Ledger j first w log views ∧ Settling j log views) := by
  refine (ledger_invariant lib j first).extend (fun _ _ _ => trivial) ?_ ?_ ?_
  · intro c views call undisturbed _ h
    refine ⟨?_, ?_⟩
    · intro k call' f at_k
      rcases getElem?_snoc_cases at_k with eq | old
      · cases eq
        exact undisturbed.1
      · exact h.meets k call' f old
    · rw [history_start]
      exact h.ended
  · intro c views _ _ _ _ h
    refine ⟨h.meets, ?_⟩
    rw [history_outside]
    exact h.ended
  · intro c views i call op r t g undisturbed ledger h view allowed step
    refine served_cases (motive := fun op r t g' => Undisturbed j c (.call i call op r) →
      Settling j (c.log ++ [.call i call op r]) (views.set i (call, g')))
      ?_ ?_ ?_ allowed step undisturbed
    · intro v rev _ permits undisturbed
      have entry : write? j (.call i call (.put .jobs j v) (.ok rev)) = some ⟨i, call, v⟩ := by
        simp [write?]
      refine h.kept view ?_
      rw [history_write entry]
      exact h.ended.snoc (h.ended.written ledger.record undisturbed.1 permits
        (undisturbed.2 _ entry))
    · intro new _
      refine h.kept view ?_
      rw [history_silent rfl]
      exact h.ended
    · intro op r t silent same _
      refine h.kept view ?_
      rw [history_silent (silent i)]
      exact h.ended

/-- As long as nothing disturbs it, a Cancel that has succeeded is final. -/
theorem finalSince_of_undisturbed {lib : Externals} {j : String} {w : World} {m c : Server}
    (reachable : Reachable lib w) (first : Runs lib (Undisturbed j) (idle w) m)
    (rest : Runs lib (Undisturbed j) m c) : FinalSince j m c := by
  have sound := reachable.sound
  have concurrently (c : Server) (call : Call) (h : Undisturbed j c (.start call)) :
      call.operation ∈ concurrent := by
    rcases h.1 with ⟨cancels, -⟩ | other
    · simp [cancels, concurrent]
    · exact (by decide : ([.fetch, .promoteScheduled, .promoteRetries, .requeueStalled] :
        List Operation) ⊆ concurrent) other
  have start : Settling j [] [] := by
    refine ⟨by simp, ?_⟩
    intro before m after eq
    simp [history] at eq
  have inv := settling_invariant lib j (w.value .jobs j)
  obtain ⟨views, behaved, ledger, settling⟩ :=
    Invariant.runs inv concurrently first ⟨.idle sound, start⟩
  obtain ⟨views', behaved', ledger', settling'⟩ :=
    Invariant.runs inv concurrently (first.trans rest) ⟨.idle sound, start⟩
  intro i success
  -- the Cancel that succeeded wrote the record
  obtain ⟨v, entry⟩ : ∃ v, ⟨i, .cancel j, v⟩ ∈ history j m.log := by
    unfold succeeded at success
    split at success
    · rename_i at_i
      obtain ⟨g, view, -⟩ := behaved.getElem? at_i
      simpa [Meets, Call.operation] using settling.meets i _ g view
    · rename_i at_i
      obtain ⟨g, view, -⟩ := behaved.getElem? at_i
      simpa [Meets, Call.operation] using settling.meets i _ g view
    · rename_i k _ at_i
      obtain ⟨g, view, replies⟩ := behaved.getElem? at_i
      obtain rfl : k = j := by
        simpa [Meets, Call.operation, decided] using settling.meets i _ g view
      obtain ⟨v, wrote⟩ := Option.isSome_iff_exists.mp (replies rfl)
      exact ⟨v, ledger.wrote i _ g v view wrote⟩
    · cases success
  obtain ⟨before, after, split⟩ := List.append_of_mem entry
  obtain ⟨later, grown⟩ := rest.log_extends
  have full : history j c.log = before ++ ⟨i, .cancel j, v⟩ :: (after ++ history j later) := by
    rw [grown, history, List.filterMap_append, ← history, ← history, split]
    simp
  constructor
  · intro rec stored
    obtain ⟨last, eq, ends⟩ := settling'.ended.last
      (show ⟨i, .cancel j, v⟩ ∈ history j c.log by simp [full]) rfl
    have record := ledger'.record
    rw [eq, stored] at record
    obtain rfl : rec = last.record := Option.some.inj record
    rcases ends with state | state <;> simp [state]
  · intro k later_k replied
    unfold returned at replied
    split at replied
    · rename_i running
      obtain ⟨job, mem, id⟩ := List.mem_map.mp replied
      obtain ⟨u, claim, active⟩ := ledger'.claimed_of_reply behaved' running mem id
      have inside : (⟨k, _, u⟩ : Write) ∈ before ∨
          (⟨k, _, u⟩ : Write) ∈ ⟨i, .cancel j, v⟩ :: (after ++ history j later) :=
        List.mem_append.mp (full ▸ claim)
      rcases inside with early | late
      · have bound := ledger.bound _ (split ▸ List.mem_append_left _ early)
        have same := behaved.length_eq
        simp only at bound
        omega
      · rcases settling'.ended before _ _ full rfl _ late with state | state <;>
          simp [active] at state
    · cases replied

/-! ## Runs -/

/-- The claimed job has failed, and its retry is due. -/
def failed : World := later (after claimed (.nack "job-1" none false)) 2

theorem reachable_failed : Reachable sample failed :=
  (reachable_claimed.after (fresh_of_no_ids rfl)).later (by decide)

/-- A Cancel runs to its end; then a pass and a fetch. -/
def cancelledFirst : Server := played (Undisturbed "job-1")
  [.start (.cancel "job-1"), .calls 0 20] (idle failed)

def passedAfter : Server := played (Undisturbed "job-1")
  [.start .promoteRetries, .start mailFetch, .calls 1 20, .calls 2 20] cancelledFirst

theorem finalSince_cancelledFirst : succeeded cancelledFirst 0 = true ∧
    FinalSince "job-1" cancelledFirst passedAfter :=
  ⟨by decide, finalSince_of_undisturbed reachable_failed (runs_played (by decide))
    (runs_played (by decide))⟩

/-- A pass has read the due entry and the record when the Cancel starts. -/
def cancelledBetween : Server := played (fun _ a => Meeting "job-1" a)
  [.start .promoteRetries, .start (.cancel "job-1"), .calls 0 4, .calls 1 20] (idle failed)

def promotedAfter : Server := played (fun _ a => Meeting "job-1" a) [.calls 0 20] cancelledBetween

/-- A job can become available after its Cancel has succeeded. -/
theorem not_finalSince : ¬ ∀ (lib : Externals) (j : String) (w : World) (m c : Server),
    Reachable lib w → Runs lib (fun _ a => Meeting j a) (idle w) m →
      Runs lib (fun _ a => Meeting j a) m c → FinalSince j m c := by
  intro final
  have ended := (final sample "job-1" failed cancelledBetween promotedAfter reachable_failed
    (runs_played (by decide)) (runs_played (by decide)) 1 (by decide)).1
  have available : (promotedAfter.state.value .jobs "job-1").map JobState.state =
    some .available := by decide
  obtain ⟨rec, stored, state⟩ := Option.map_eq_some_iff.mp available
  exact (ended rec stored).1 state

end OjsNats.Concurrent
