import OjsNats.Concurrent.Records

/-!
# The progress of a workflow

The record of a workflow counts the reports on its jobs.  As long as no write throws away
progress that its operation has not seen, the record and the running operations agree on
which reports are counted and which of them has ended the workflow.
-/

namespace OjsNats.Concurrent

open Core Nats Lifecycle Effect

/-! ## Progress -/

/-- What reports change of a workflow's record. -/
structure Progress where
  state : String
  completed : Int
  failed : Int
  deriving DecidableEq

def progressOf (r : WorkflowState) : Progress := ⟨r.state, r.completed, r.failed⟩

/-- The operation that writes the workflow's record. -/
def updating? (id : String) : Action Call Op Ans → Option Nat
  | .call i _ (.put .workflows k _) (.ok _) => if k = id then some i else none
  | _ => none

/-- The progress of the workflow that the operation knows of. -/
def knownProgress (i : Nat) (log : List (Action Call Op Ans)) : Option (String × Progress) :=
  (lastNoted glimpse? i log).map fun (k, r) => (k, progressOf r)

def storedProgress (id : String) (w : World) : Option (String × Progress) :=
  (w.value .workflows id).map fun r => (id, progressOf r)

/-- Creating workflows, reporting and fetching. -/
def counting : List Operation := [.createWorkflow, .ack, .nack, .fetch]

/-- Only these operations run, and an operation that writes the workflow's record has seen
the progress that is stored. -/
def Abreast (id : String) (c : Server) (a : Action Call Op Ans) : Prop :=
  Among counting a ∧ ∀ i ∈ updating? id a, knownProgress i c.log = storedProgress id c.state

instance (id : String) (c : Server) (a : Action Call Op Ans) : Decidable (Abreast id c a) :=
  inferInstanceAs (Decidable (_ ∧ ∀ i ∈ updating? id a, _ = _))

/-! ## The count -/

/-- The report has counted its job in the record of the workflow, which it holds since. -/
structure Holds (id : String) (call : Call) (g : Sight) (r : WorkflowState) : Prop where
  reports : (reportedJob call).isSome
  wrote : g.writes ≠ 0
  copy : g.copy = some (id, r)

def counts (id : String) (v : Call × Sight) : Bool :=
  (reportedJob v.1).isSome && decide (v.2.writes ≠ 0) && decide (v.2.copy.map Prod.fst = some id)

theorem counts_iff {id : String} {call : Call} {g : Sight} :
    counts id (call, g) = true ↔ ∃ r, Holds id call g r := by
  unfold counts
  simp only [Bool.and_eq_true, decide_eq_true_eq, Option.map_eq_some_iff]
  constructor
  · rintro ⟨⟨reports, wrote⟩, ⟨k, r⟩, copy, rfl⟩
    exact ⟨r, reports, wrote, copy⟩
  · rintro ⟨r, reports, wrote, copy⟩
    exact ⟨⟨reports, wrote⟩, (id, r), copy, rfl⟩

/-- The reports of one kind that are counted. -/
def countedReports (id : String) (op : Operation) (views : List (Call × Sight)) : Nat :=
  views.countP fun v => decide (v.1.operation = op) && counts id v

section Tally

variable {id : String} {op : Operation} {views : List (Call × Sight)} {i : Nat} {call : Call}
  {g g' : Sight}

theorem countP_set_add {α : Type*} {p : α → Bool} {xs : List α} {i : Nat} {x y : α}
    (at_i : xs[i]? = some x) : (xs.set i y).countP p + (if p x then 1 else 0) =
      xs.countP p + if p y then 1 else 0 := by
  induction xs generalizing i with
  | nil => simp at at_i
  | cons z rest ih =>
    cases i with
    | zero =>
      cases Option.some.inj at_i
      simp only [List.set_cons_zero, List.countP_cons]
      omega
    | succ i =>
      have step := ih at_i
      simp only [List.set_cons_succ, List.countP_cons]
      omega

theorem tally_same (view : views[i]? = some (call, g))
    (same : counts id (call, g') = counts id (call, g)) :
    countedReports id op (views.set i (call, g')) = countedReports id op views := by
  have step := countP_set_add (p := fun v => decide (v.1.operation = op) && counts id v)
    (y := (call, g')) view
  simp only [same] at step
  exact Nat.add_right_cancel step

theorem tally_counted (view : views[i]? = some (call, g)) (before : counts id (call, g) = false)
    (after : counts id (call, g') = true) : countedReports id op (views.set i (call, g')) =
      countedReports id op views + if call.operation = op then 1 else 0 := by
  have step := countP_set_add (p := fun v => decide (v.1.operation = op) && counts id v)
    (y := (call, g')) view
  simp only [before, after, Bool.and_false, Bool.false_eq_true, ↓reduceIte, Nat.add_zero,
    Bool.and_true, decide_eq_true_eq] at step
  exact step

theorem tally_snoc (call : Call) :
    countedReports id op (views ++ [(call, ({} : Sight))]) = countedReports id op views := by
  simp [countedReports, counts]

end Tally

/-- The record counts the reports that have written it; once it is over, one of them has
ended it, and no other may announce anything. -/
structure Tallies (id : String) (views : List (Call × Sight)) (r : WorkflowState) : Prop where
  completed : r.completed = countedReports id .ack views
  failed : r.failed = countedReports id .nack views
  closed : r.state ≠ "running" → Full r ∧ r.state = if 0 < r.failed then "failed" else "completed"
  silent : ∀ (i : Nat) (call : Call) (g : Sight) (r' : WorkflowState), views[i]? = some (call, g) →
    Holds id call g r' → r'.state = "running" → g.output = []
  current : ∀ (i : Nat) (call : Call) (g : Sight) (r' : WorkflowState), views[i]? = some (call, g) →
    Holds id call g r' → r'.state ≠ "running" → progressOf r' = progressOf r
  sole : ∀ (i k : Nat) (call call' : Call) (g g' : Sight) (r₁ r₂ : WorkflowState),
    views[i]? = some (call, g) → views[k]? = some (call', g') → Holds id call g r₁ →
    Holds id call' g' r₂ → r₁.state ≠ "running" → r₂.state ≠ "running" → i = k
  full : 1 ≤ r.total → Full r → ∃ (i : Nat) (call : Call) (g : Sight) (r' : WorkflowState),
    views[i]? = some (call, g) ∧ Holds id call g r' ∧ progressOf r' = progressOf r
  refused : ∀ (i : Nat) (call : Call) (g : Sight), views[i]? = some (call, g) →
    (reportedJob call).isSome → g.refused = some id → r.state ≠ "running"

section Tallies

variable {id : String} {views : List (Call × Sight)} {r v : WorkflowState} {i : Nat} {call : Call}
  {g g' : Sight}

theorem progress_eq_iff : progressOf r = progressOf v ↔
    r.state = v.state ∧ r.completed = v.completed ∧ r.failed = v.failed :=
  Progress.mk.injEq _ _ _ _ _ _ ▸ Iff.rfl

theorem Tallies.congr (h : Tallies id views r) (same : progressOf v = progressOf r)
    (total : v.total = r.total) : Tallies id views v := by
  obtain ⟨state, completed, failed⟩ := progress_eq_iff.mp same
  have full : Full v ↔ Full r := by rw [Full, Full, total, completed, failed]
  refine ⟨completed.trans h.completed, failed.trans h.failed, ?_, h.silent, ?_, h.sole, ?_, ?_⟩
  · rw [state, full, failed]
    exact h.closed
  · exact fun i call g r' view holds closed =>
      (h.current i call g r' view holds closed).trans same.symm
  · rw [full, same, total]
    exact h.full
  · rw [state]
    exact h.refused

/-- A call that does not touch the record. -/
theorem Tallies.still (h : Tallies id views r) (view : views[i]? = some (call, g))
    (same : ∀ r', Holds id call g' r' ↔ Holds id call g r')
    (silent : ∀ r', Holds id call g r' → r'.state = "running" → g'.output = g.output)
    (refused : (reportedJob call).isSome → g'.refused = some id →
      g.refused = some id ∨ r.state ≠ "running") :
    Tallies id (views.set i (call, g')) r := by
  have count : counts id (call, g') = counts id (call, g) := by
    rw [Bool.eq_iff_iff, counts_iff, counts_iff]
    exact exists_congr same
  -- what is said of a view before is said of it after
  have before (k : Nat) (call' : Call) (f : Sight) (r' : WorkflowState)
      (at_k : (views.set i (call, g'))[k]? = some (call', f)) (holds : Holds id call' f r') :
      ∃ f₀, views[k]? = some (call', f₀) ∧ Holds id call' f₀ r' ∧
        (r'.state = "running" → f.output = f₀.output) := by
    rcases getElem?_set_cases at_k with ⟨rfl, eq⟩ | ⟨ne, old⟩
    · cases eq
      exact ⟨g, view, (same r').mp holds, silent r' ((same r').mp holds)⟩
    · exact ⟨f, old, holds, fun _ => rfl⟩
  refine ⟨?_, ?_, h.closed, ?_, ?_, ?_, ?_, ?_⟩
  · rw [tally_same view count]
    exact h.completed
  · rw [tally_same view count]
    exact h.failed
  · intro k call' f r' at_k holds running
    obtain ⟨f₀, at_k₀, holds₀, output⟩ := before k call' f r' at_k holds
    exact (output running).trans (h.silent k call' f₀ r' at_k₀ holds₀ running)
  · intro k call' f r' at_k holds closed
    obtain ⟨f₀, at_k₀, holds₀, -⟩ := before k call' f r' at_k holds
    exact h.current k call' f₀ r' at_k₀ holds₀ closed
  · intro k l call₁ call₂ f₁ f₂ r₁ r₂ at_k at_l holds₁ holds₂ over₁ over₂
    obtain ⟨f, at_k₀, holds, -⟩ := before k call₁ f₁ r₁ at_k holds₁
    obtain ⟨f', at_l₀, holds', -⟩ := before l call₂ f₂ r₂ at_l holds₂
    exact h.sole k l call₁ call₂ f f' r₁ r₂ at_k₀ at_l₀ holds holds' over₁ over₂
  · intro many full
    obtain ⟨k, call', f, r', at_k, holds, agrees⟩ := h.full many full
    by_cases here : k = i
    · subst here
      cases at_k.symm.trans view
      exact ⟨k, call, g', r', List.getElem?_set_self (List.getElem?_eq_some_iff.mp view).1,
        (same r').mpr holds, agrees⟩
    · exact ⟨k, call', f, r', (List.getElem?_set_ne (Ne.symm here)).trans at_k, holds, agrees⟩
  · intro k call' f at_k reports theirs
    rcases getElem?_set_cases at_k with ⟨rfl, eq⟩ | ⟨ne, old⟩
    · cases eq
      exact (refused reports theirs).elim (h.refused k call g view reports) fun closed => closed
    · exact h.refused k call' f old reports theirs

theorem counts_first (first : g.writes = 0) : counts id (call, g) = false := by
  simp [counts, first]

/-- While the workflow runs, no report has ended it or was told that it is over. -/
theorem Tallies.running (h : Tallies id views r) (running : r.state = "running") :
    (∀ (i : Nat) (call : Call) (g : Sight) (r' : WorkflowState), views[i]? = some (call, g) →
      Holds id call g r' → r'.state = "running") ∧
    ∀ (i : Nat) (call : Call) (g : Sight), views[i]? = some (call, g) →
      (reportedJob call).isSome → g.refused ≠ some id := by
  refine ⟨fun i call g r' view holds => ?_, fun i call g view reports refused => ?_⟩
  · by_contra closed
    exact closed ((progress_eq_iff.mp (h.current i call g r' view holds closed)).1.trans running)
  · exact h.refused i call g view reports refused running

theorem progress_counted (r : WorkflowState) (stepIdx : Int) (result : Option RawMessage)
    (failed : Bool) : progressOf (countedWorkflow r stepIdx result failed) =
      ⟨r.state, r.completed + if failed then 0 else 1, r.failed + if failed then 1 else 0⟩ := by
  cases result <;> cases failed <;> simp [progressOf, countedWorkflow]

/-- A report counts its job. -/
theorem Tallies.count {failed : Bool} (h : Tallies id views r) (view : views[i]? = some (call, g))
    (kind : call.operation = if failed then .nack else .ack) (reports : (reportedJob call).isSome)
    (first : g.writes = 0) (silent : g.output = []) (running : r.state = "running")
    (progressed : progressOf v = ⟨r.state, r.completed + if failed then 0 else 1,
      r.failed + if failed then 1 else 0⟩) :
    Tallies id (views.set i (call, g.write id v)) v := by
  obtain ⟨state, completed, failing⟩ := Progress.mk.inj progressed
  obtain ⟨going, open'⟩ := h.running running
  have wrote : Holds id call (g.write id v) v := ⟨reports, Nat.succ_ne_zero _, rfl⟩
  have counted {op : Operation} : countedReports id op (views.set i (call, g.write id v)) =
      countedReports id op views + if call.operation = op then 1 else 0 :=
    tally_counted view (counts_first first) (counts_iff.mpr ⟨v, wrote⟩)
  have still : v.state = "running" := state.trans running
  -- no report holds a record that is over
  have all (k : Nat) (call' : Call) (f : Sight) (r' : WorkflowState)
      (at_k : (views.set i (call, g.write id v))[k]? = some (call', f))
      (holds : Holds id call' f r') : r'.state = "running" := by
    rcases getElem?_set_cases at_k with ⟨rfl, eq⟩ | ⟨ne, old⟩
    · cases eq
      cases holds.copy
      exact still
    · exact going k call' f r' old holds
  refine ⟨?_, ?_, fun closed => absurd still closed, ?_, ?_, ?_, fun _ _ => ?_, ?_⟩
  · rw [counted, completed, h.completed, kind]
    cases failed <;> simp
  · rw [counted, failing, h.failed, kind]
    cases failed <;> simp
  · intro k call' f r' at_k holds _
    rcases getElem?_set_cases at_k with ⟨rfl, eq⟩ | ⟨ne, old⟩
    · cases eq
      exact silent
    · exact h.silent k call' f r' old holds (going k call' f r' old holds)
  · intro k call' f r' at_k holds closed
    exact absurd (all k call' f r' at_k holds) closed
  · intro k l call₁ call₂ f₁ f₂ r₁ r₂ at_k at_l holds₁ holds₂ over₁ over₂
    exact absurd (all k call₁ f₁ r₁ at_k holds₁) over₁
  · exact ⟨i, call, _, v, List.getElem?_set_self (List.getElem?_eq_some_iff.mp view).1, wrote, rfl⟩
  · intro k call' f at_k reports theirs
    rcases getElem?_set_cases at_k with ⟨rfl, eq⟩ | ⟨ne, old⟩
    · cases eq
      exact absurd theirs (open' k call g view reports)
    · exact absurd theirs (open' k call' f old reports)

/-- A report ends the workflow. -/
theorem Tallies.finish (h : Tallies id views r) (view : views[i]? = some (call, g))
    {r' : WorkflowState} (holds : Holds id call g r') (full : Full v)
    (running : r.state = "running")
    (state : v.state = if 0 < v.failed then "failed" else "completed")
    (completed : v.completed = r.completed) (failed : v.failed = r.failed) :
    Tallies id (views.set i (call, g.write id v)) v := by
  obtain ⟨going, open'⟩ := h.running running
  have wrote : Holds id call (g.write id v) v := ⟨holds.reports, Nat.succ_ne_zero _, rfl⟩
  have count {op : Operation} : countedReports id op (views.set i (call, g.write id v)) =
      countedReports id op views :=
    tally_same view ((counts_iff.mpr ⟨v, wrote⟩).trans (counts_iff.mpr ⟨r', holds⟩).symm)
  have closed : v.state ≠ "running" := by
    rw [state]
    split <;> decide
  -- no other report holds a record that is over
  have own (k : Nat) (call' : Call) (f : Sight) (r₁ : WorkflowState)
      (at_k : (views.set i (call, g.write id v))[k]? = some (call', f))
      (holds : Holds id call' f r₁) (closed : r₁.state ≠ "running") : k = i ∧ r₁ = v := by
    rcases getElem?_set_cases at_k with ⟨rfl, eq⟩ | ⟨ne, old⟩
    · cases eq
      cases holds.copy
      exact ⟨rfl, rfl⟩
    · exact absurd (going k call' f r₁ old holds) closed
  refine ⟨?_, ?_, fun _ => ⟨full, state⟩, ?_, ?_, ?_, fun _ _ => ?_, fun _ _ _ _ _ _ => closed⟩
  · rw [count, completed, h.completed]
  · rw [count, failed, h.failed]
  · intro k call' f r₁ at_k holds₁ running₁
    rcases getElem?_set_cases at_k with ⟨rfl, eq⟩ | ⟨ne, old⟩
    · cases eq
      cases holds₁.copy
      exact absurd running₁ closed
    · exact h.silent k call' f r₁ old holds₁ running₁
  · intro k call' f r₁ at_k holds₁ over₁
    rw [(own k call' f r₁ at_k holds₁ over₁).2]
  · intro k l call₁ call₂ f₁ f₂ r₁ r₂ at_k at_l holds₁ holds₂ over₁ over₂
    exact (own k call₁ f₁ r₁ at_k holds₁ over₁).1.trans (own l call₂ f₂ r₂ at_l holds₂ over₂).1.symm
  · exact ⟨i, call, _, v, List.getElem?_set_self (List.getElem?_eq_some_iff.mp view).1, wrote, rfl⟩

/-- A new record, of which no report knows. -/
theorem Tallies.fresh (progressed : progressOf r = ⟨"running", 0, 0⟩)
    (blank : ∀ (i : Nat) (call : Call) (g : Sight), views[i]? = some (call, g) →
      (reportedJob call).isSome → (∀ r', g.copy ≠ some (id, r')) ∧ g.refused ≠ some id)
    (unfinished : 1 ≤ r.total → ¬ Full r) : Tallies id views r := by
  obtain ⟨state, completed, failed⟩ := Progress.mk.inj progressed
  have none (i : Nat) (call : Call) (g : Sight) (r' : WorkflowState)
      (view : views[i]? = some (call, g)) : ¬ Holds id call g r' :=
    fun holds => (blank i call g view holds.reports).1 r' holds.copy
  have empty (op : Operation) : countedReports id op views = 0 := by
    refine List.countP_eq_zero.mpr fun ⟨call, g⟩ mem counted => ?_
    obtain ⟨i, view⟩ := List.getElem?_of_mem mem
    rw [Bool.and_eq_true, counts_iff] at counted
    obtain ⟨-, r', holds⟩ := counted
    exact none i call g r' view holds
  refine ⟨?_, ?_, fun closed => absurd state closed, ?_, ?_, ?_, ?_, ?_⟩
  · rw [empty, completed]
    rfl
  · rw [empty, failed]
    rfl
  · exact fun i call g r' view holds => absurd holds (none i call g r' view)
  · exact fun i call g r' view holds => absurd holds (none i call g r' view)
  · exact fun i _ call _ g _ r₁ _ view _ holds => absurd holds (none i call g r₁ view)
  · exact fun many full => absurd full (unfinished many)
  · exact fun i call g view reports refused => absurd refused (blank i call g view reports).2

theorem not_holds_idle : ¬ Holds id call {} r := fun holds => holds.wrote rfl

theorem Tallies.begin (h : Tallies id views r) (call : Call) :
    Tallies id (views ++ [(call, ({} : Sight))]) r := by
  have old {k : Nat} {call' : Call} {f : Sight} {r' : WorkflowState}
      (at_k : (views ++ [(call, ({} : Sight))])[k]? = some (call', f))
      (holds : Holds id call' f r') : views[k]? = some (call', f) := by
    rcases getElem?_snoc_cases at_k with eq | old
    · cases eq
      exact absurd holds not_holds_idle
    · exact old
  refine ⟨?_, ?_, h.closed, ?_, ?_, ?_, ?_, ?_⟩
  · rw [tally_snoc]
    exact h.completed
  · rw [tally_snoc]
    exact h.failed
  · exact fun k call' f r' at_k holds => h.silent k call' f r' (old at_k holds) holds
  · exact fun k call' f r' at_k holds => h.current k call' f r' (old at_k holds) holds
  · exact fun k l call₁ call₂ f₁ f₂ r₁ r₂ at_k at_l holds₁ holds₂ =>
      h.sole k l call₁ call₂ f₁ f₂ r₁ r₂ (old at_k holds₁) (old at_l holds₂) holds₁ holds₂
  · intro many full
    obtain ⟨k, call', f, r', at_k, rest⟩ := h.full many full
    refine ⟨k, call', f, r', ?_, rest⟩
    rw [List.getElem?_append_left (List.getElem?_eq_some_iff.mp at_k).1]
    exact at_k
  · intro k call' f at_k reports refused
    rcases getElem?_snoc_cases at_k with eq | old
    · cases eq
      cases refused
    · exact h.refused k call' f old reports refused

end Tallies

end OjsNats.Concurrent
