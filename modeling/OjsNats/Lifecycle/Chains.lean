import OjsNats.Lifecycle.Groups

/-!
# Chains run in order

A chain's record counts its completed steps, and its last job is the one step
that is under way.  From that invariant: one job for each step, in order, each
with the results of the steps before it.
-/

namespace OjsNats.Lifecycle

open Core Nats Effect Semantics Relation

variable {lib : Externals} {w t : World} {id : String} {wfState : WorkflowState} {event : Event}

/-! ## What a run has acked and discarded -/

/-- The job that an accepted `Ack` completed, and the result it gave. -/
def Event.ackedJob : Event → Option (String × Option RawMessage)
  | .call (.ack k result) (.acked (.ok _)) => some (k, result)
  | _ => none

/-- The acked jobs of a run with their results, in order. -/
def acked (trace : List Passage) : List (String × Option RawMessage) :=
  trace.filterMap fun p => p.event.ackedJob

/-- The result that a job was first acked with. -/
def ackedResult (trace : List Passage) (k : String) : Option RawMessage :=
  ((acked trace).lookup k).join

def WasAcked (trace : List Passage) (k : String) : Prop := k ∈ (acked trace).map Prod.fst

/-- At some point of the run a job of the workflow was discarded. -/
def WasDiscarded (id : String) (trace : List Passage) : Prop :=
  ∃ p ∈ trace, ∃ k, Member p.after id k ∧ (p.after.slot k).state = some .discarded

theorem acked_snoc (trace : List Passage) (p : Passage) :
    acked (trace ++ [p]) = acked trace ++ p.event.ackedJob.toList := by
  unfold acked
  rw [List.filterMap_append]
  congr 1

theorem WasAcked.snoc {trace : List Passage} {k : String} (before : WasAcked trace k)
    (p : Passage) : WasAcked (trace ++ [p]) k := by
  rw [WasAcked, acked_snoc, List.map_append]
  exact List.mem_append_left _ before

theorem ackedResult_snoc {trace : List Passage} {k : String} (before : WasAcked trace k)
    (p : Passage) : ackedResult (trace ++ [p]) k = ackedResult trace k := by
  obtain ⟨entry, mem, same⟩ := List.mem_map.mp before
  have found : ((acked trace).lookup k).isSome := by
    rw [List.lookup_isSome_iff]
    exact ⟨entry, mem, by simp [same]⟩
  obtain ⟨result, found⟩ := Option.isSome_iff_exists.mp found
  rw [ackedResult, acked_snoc, List.lookup_append, found, Option.some_or, ackedResult, found]

theorem lookup_of_not_acked {trace : List Passage} {k : String} (unacked : ¬ WasAcked trace k) :
    (acked trace).lookup k = none := by
  rw [List.lookup_eq_none_iff]
  intro entry mem
  have other : k ≠ entry.1 := fun same => unacked (List.mem_map.mpr ⟨entry, mem, same.symm⟩)
  simpa using other

theorem ackedResult_of_not_acked {trace : List Passage} {k : String}
    (unacked : ¬ WasAcked trace k) : ackedResult trace k = none := by
  rw [ackedResult, lookup_of_not_acked unacked]
  rfl

/-- A job that the last step did not ack has the result it had. -/
theorem ackedResult_other {trace : List Passage} {k : String} {p : Passage}
    (other : ∀ result, p.event.ackedJob ≠ some (k, result)) :
    ackedResult (trace ++ [p]) k = ackedResult trace k := by
  rw [ackedResult, acked_snoc, List.lookup_append, ackedResult]
  congr 1
  cases found : p.event.ackedJob with
  | none => simp
  | some entry =>
    obtain ⟨j, result⟩ := entry
    have ne : k ≠ j := by
      rintro rfl
      exact other result found
    have miss : (k == j) = false := by simpa using ne
    simp [List.lookup_cons, miss]

theorem ackedResult_last {trace : List Passage} {k : String} {p : Passage}
    {result : Option RawMessage} (unacked : ¬ WasAcked trace k)
    (last : p.event.ackedJob = some (k, result)) : ackedResult (trace ++ [p]) k = result := by
  rw [ackedResult, acked_snoc, List.lookup_append, lookup_of_not_acked unacked, last]
  simp

theorem wasAcked_snoc {trace : List Passage} {k : String} {p : Passage} :
    WasAcked (trace ++ [p]) k ↔ WasAcked trace k ∨ ∃ result, p.event.ackedJob = some (k, result) := by
  rw [WasAcked, acked_snoc, List.map_append, List.mem_append]
  refine or_congr Iff.rfl ?_
  cases found : p.event.ackedJob with
  | none => simp
  | some entry =>
    obtain ⟨j, result⟩ := entry
    simp [eq_comm]

theorem WasDiscarded.snoc {trace : List Passage} (before : WasDiscarded id trace) (p : Passage) :
    WasDiscarded id (trace ++ [p]) := by
  obtain ⟨q, mem, discarded⟩ := before
  exact ⟨q, List.mem_append_left _ mem, discarded⟩

/-! ## Results by step -/

theorem intToStr_injective {m n : Nat} (same : intToStr m = intToStr n) : m = n := by
  have digits : Nat.toDigits 10 m = Nat.toDigits 10 n := String.ofList_injective same
  rw [← Nat.ofDigitChars_ten_toDigits (n := m), digits, Nat.ofDigitChars_ten_toDigits]

theorem lookup_filter_ne {results : List (String × RawMessage)} {key key' : String}
    (other : key' ≠ key) :
    (results.filter fun entry => entry.1 ≠ key).lookup key' = results.lookup key' := by
  induction results with
  | nil => rfl
  | cons entry rest ih =>
    obtain ⟨name, value⟩ := entry
    by_cases kept : name = key
    · have miss : (key' == name) = false := by simpa [kept] using other
      rw [List.filter_cons_of_neg (by simp [kept]), ih, List.lookup_cons, miss]
    · rw [List.filter_cons_of_pos (by simp [kept]), List.lookup_cons, List.lookup_cons, ih]

theorem lookup_setResult {results : List (String × RawMessage)} {key key' : String}
    {result : RawMessage} : (setResult results key result).lookup key' =
      if key' = key then some result else results.lookup key' := by
  unfold setResult
  rw [List.lookup_append]
  by_cases same : key' = key
  · have gone : (results.filter fun entry => entry.1 ≠ key).lookup key' = none := by
      rw [List.lookup_eq_none_iff]
      intro entry mem
      have ne : entry.1 ≠ key := by simpa using (List.mem_filter.mp mem).2
      simpa [same] using Ne.symm ne
    rw [gone, if_pos same, same]
    simp
  · have miss : (key' == key) = false := by simpa using same
    rw [lookup_filter_ne same, if_neg same]
    simp [List.lookup_cons, miss]

theorem filterMap_range_getElem? {α β : Type} (xs : List α) (f : α → Option β) (n : Nat) :
    (List.range n).filterMap (fun i => xs[i]?.bind f) = (xs.take n).filterMap f := by
  induction n with
  | zero => simp
  | succ n ih =>
    rw [List.range_succ, List.filterMap_append, ih, List.take_add_one, List.filterMap_append]
    congr 1
    cases found : xs[n]? with
    | none => simp [found]
    | some x => simp [found, List.filterMap_cons]

theorem parentResults_eq (wfState : WorkflowState) (n : Nat) : parentResults wfState n =
    (List.range n).filterMap fun i : Nat => wfState.results.lookup (intToStr i) := by
  have casts (xs : List Nat) :
      xs.flatMap (fun i : Nat => [(i : Int)]) = xs.map fun i : Nat => (i : Int) := by
    induction xs with
    | nil => rfl
    | cons i rest ih => rw [List.flatMap_cons, ih, List.map_cons, List.singleton_append]
  simp only [parentResults, List.bind_eq_flatMap, List.pure_def, Int.toNat_natCast]
  rw [casts, List.filterMap_map]
  rfl

/-! ## The invariant -/

/-- The jobs of a chain are its steps, in order, each with the results of those before it. -/
structure Ordered (id : String) (trace : List Passage) (w : World) (wfState : WorkflowState) :
    Prop where
  type : wfState.type = "chain"
  total : wfState.total = wfState.jobDefs.length
  nonempty : wfState.jobIDs ≠ []
  fits : wfState.jobIDs.length ≤ wfState.jobDefs.length
  steps : ∀ (i : Nat) k stored, wfState.jobIDs[i]? = some k → (w.slot k).record = some stored →
    stored.workflowStep = i ∧
      stored.parentResults = (wfState.jobIDs.take i).filterMap (ackedResult trace)
  earlier : ∀ (i : Nat) k, wfState.jobIDs[i]? = some k → i + 1 < wfState.jobIDs.length →
    (w.slot k).state = some .completed ∧ WasAcked trace k
  ended : ∀ k, WasAcked trace k → k ∈ w.used ∧
    (k ∈ wfState.jobIDs → (w.slot k).state = some .completed)
  frozen : ∀ p ∈ trace, (∃ k, Member p.after id k ∧ (p.after.slot k).state = some .discarded) →
    ∀ k, Member w id k → Member p.after id k

/-- The chain runs: all but its last job are completed and counted. -/
structure UnderWay (id : String) (trace : List Passage) (w : World) (wfState : WorkflowState) :
    Prop where
  state : wfState.state = "running"
  failed : wfState.failed = 0
  completed : wfState.completed + 1 = wfState.jobIDs.length
  last : ∀ (i : Nat) k, wfState.jobIDs[i]? = some k → i + 1 = wfState.jobIDs.length →
    (w.slot k).state ≠ some .completed ∧ (w.slot k).state ≠ some .discarded
  undiscarded : ¬ WasDiscarded id trace
  results : ∀ i : Nat, wfState.results.lookup (intToStr i) =
    wfState.jobIDs[i]?.bind (ackedResult trace)

/-- Where a chain is. -/
inductive Phase (id : String) (trace : List Passage) (w : World) (wfState : WorkflowState) : Prop
  | running : UnderWay id trace w wfState → Phase id trace w wfState
  | completed : wfState.state = "completed" → wfState.jobIDs.length = wfState.jobDefs.length →
      (∀ k ∈ wfState.jobIDs, (w.slot k).state = some .completed ∧ WasAcked trace k) →
      ¬ WasDiscarded id trace → Phase id trace w wfState
  | failed : wfState.state = "failed" → WasDiscarded id trace → Phase id trace w wfState
  | cancelled {k : String} : wfState.state = "cancelled" → k ∈ wfState.jobIDs →
      (w.slot k).state = some .cancelled → Phase id trace w wfState

structure Chained (id : String) (trace : List Passage) (w : World) (wfState : WorkflowState) :
    Prop where
  ordered : Ordered id trace w wfState
  phase : Phase id trace w wfState

/-! ## Jobs of a chain -/

theorem Slot.Step.unfinished {now : Int} {j : String} {m : Move} {s s' : Slot}
    (step : Slot.Step lib now j m s s') (expire : m ≠ .expire) (discard : m ≠ .discard)
    (complete : ∀ result, m ≠ .complete result)
    (before : s.state ≠ some .completed ∧ s.state ≠ some .discarded) :
    s'.state ≠ some .completed ∧ s'.state ≠ some .discarded := by
  cases step with
  | enqueue _ _ state | schedule _ _ state => simp [Slot.state, state]
  | claim _ _ _ _ next | retryLater _ _ next | requeue _ _ _ next | cancel _ _ next
  | promoteScheduled _ _ next | promoteRetry _ _ next | revive _ _ next =>
    simp [Slot.state, next.state]
  | expire => exact absurd rfl expire
  | discard => exact absurd rfl discard
  | complete => exact absurd rfl (complete _)
  | skip | extend | forget => exact before

section Rests

variable {k : String} (rests : Rests lib id wfState w event t) (sound : Sound w)
  (linked : Linked w) (found : w.value .workflows id = some wfState) (mem : k ∈ wfState.jobIDs)

include rests sound linked found mem

/-- A completed or cancelled job of a resting workflow stays so. -/
theorem Rests.ended {st : State} (ended : st = .completed ∨ st = .cancelled)
    (before : (w.slot k).state = some st) : (t.slot k).state = some st := by
  have terminal : (w.slot k).Terminal := by
    rcases ended with rfl | rfl
    · exact .inl before
    · exact .inr (.inl before)
  refine (rests.terminal sound linked found mem terminal fun _ _ => ?_).trans before
  cases dead : (w.slot k).dead with
  | none => rfl
  | some due =>
    have discarded := (sound.placed k).dead_discarded (by simp [dead])
    rw [before] at discarded
    rcases ended with rfl | rfl <;> simp at discarded

/-- While a workflow runs and rests, no job of it is completed or discarded. -/
theorem Rests.unfinished (running : wfState.state = "running")
    (before : (w.slot k).state ≠ some .completed ∧ (w.slot k).state ≠ some .discarded) :
    (t.slot k).state ≠ some .completed ∧ (t.slot k).state ≠ some .discarded := by
  obtain ⟨stored, record, owner⟩ := (linked.mem_jobIDs found).mp mem
  have nonempty := (linked.known id wfState found).2
  have lasting := (linked.owned k stored record (owner ▸ nonempty)).1
  refine (rests.slots k mem).keeps (P := fun a => a.state ≠ some .completed ∧
    a.state ≠ some .discarded) (sound.placed k) record lasting before ?_
  intro m a b ok expire step _ unfinished
  obtain ⟨discard, complete⟩ := ok.unsettled running
  exact step.unfinished expire discard complete unfinished

end Rests

theorem parentResults_of_terms {stored stored' : JobState} (same : stored'.terms = stored.terms) :
    stored'.parentResults = stored.parentResults :=
  show stored'.terms.parentResults = stored.terms.parentResults by rw [same]

theorem Sound.used_of_state {k : String} {st : State} (sound : Sound w)
    (state : (w.slot k).state = some st) : k ∈ w.used := by
  refine (sound.known k ?_).1
  intro missing
  simp [Slot.state, missing] at state

/-- The results of the steps before one step are not acked again. -/
theorem Ordered.parents {done : List Passage} (ordered : Ordered id done w wfState) (p : Passage)
    {i : Nat} (bound : i < wfState.jobIDs.length) :
    (wfState.jobIDs.take i).filterMap (ackedResult (done ++ [p])) =
      (wfState.jobIDs.take i).filterMap (ackedResult done) := by
  refine List.filterMap_congr fun j mem => ackedResult_snoc ?_ p
  obtain ⟨n, short, same⟩ := List.mem_take_iff_getElem.mp mem
  have here : wfState.jobIDs[n]? = some j := by
    rw [List.getElem?_eq_getElem (by omega), same]
  exact (ordered.earlier n j here (by omega)).2

/-- A step that pushes no job of the chain and keeps its completed jobs. -/
theorem Ordered.same {done : List Passage} {wfState' : WorkflowState}
    (ordered : Ordered id done w wfState) (sound' : Sound t) (linked : Linked w)
    (linked' : Linked t) (found : w.value .workflows id = some wfState)
    (found' : t.value .workflows id = some wfState') (type : wfState'.type = wfState.type)
    (total : wfState'.total = wfState.total) (jobDefs : wfState'.jobDefs = wfState.jobDefs)
    (jobIDs : wfState'.jobIDs = wfState.jobIDs) (used : ∀ j ∈ w.used, j ∈ t.used)
    (kept : ∀ k ∈ wfState.jobIDs, (w.slot k).state = some .completed →
      (t.slot k).state = some .completed)
    (terms : ∀ k ∈ wfState.jobIDs, ∀ stored, (w.slot k).record = some stored →
      ∃ stored', (t.slot k).record = some stored' ∧ stored'.terms = stored.terms)
    (acks : ∀ k result, event.ackedJob = some (k, result) → (t.slot k).state = some .completed) :
    Ordered id (done ++ [⟨w, event, t⟩]) t wfState' where
  type := type.trans ordered.type
  total := by rw [total, jobDefs, ordered.total]
  nonempty := jobIDs ▸ ordered.nonempty
  fits := by rw [jobIDs, jobDefs]; exact ordered.fits
  steps := by
    intro i k stored' here record'
    rw [jobIDs] at here ⊢
    obtain ⟨bound, -⟩ := List.getElem?_eq_some_iff.mp here
    have mem : k ∈ wfState.jobIDs := List.mem_of_getElem? here
    obtain ⟨stored, record, -⟩ := (linked.mem_jobIDs found).mp mem
    obtain ⟨again, record'', same⟩ := terms k mem stored record
    cases record'.symm.trans record''
    obtain ⟨step, parents⟩ := ordered.steps i k stored here record
    rw [ordered.parents _ bound]
    exact ⟨(workflowStep_of_terms same).trans step, (parentResults_of_terms same).trans parents⟩
  earlier := by
    intro i k here more
    rw [jobIDs] at here more
    obtain ⟨completed, acked⟩ := ordered.earlier i k here more
    exact ⟨kept k (List.mem_of_getElem? here) completed, acked.snoc _⟩
  ended := by
    intro k acked
    rcases wasAcked_snoc.mp acked with before | ⟨result, now⟩
    · obtain ⟨known, completed⟩ := ordered.ended k before
      exact ⟨used k known, fun mem => kept k (jobIDs ▸ mem) (completed (jobIDs ▸ mem))⟩
    · have completed := acks k result now
      exact ⟨sound'.used_of_state completed, fun _ => completed⟩
  frozen := by
    intro p mem discarded k member
    rcases List.mem_append.mp mem with earlier | last
    · refine ordered.frozen p earlier discarded k ((linked.mem_jobIDs found).mp ?_)
      exact jobIDs ▸ (linked'.mem_jobIDs found').mpr member
    · obtain rfl := List.mem_singleton.mp last
      exact member

/-- The chain's jobs are where a state puts them: completed before the last one. -/
theorem Ordered.index {done : List Passage} (ordered : Ordered id done w wfState) {k : String}
    (mem : k ∈ wfState.jobIDs) : (w.slot k).state = some .completed ∧ WasAcked done k ∨
      ∃ i : Nat, wfState.jobIDs[i]? = some k ∧ i + 1 = wfState.jobIDs.length := by
  obtain ⟨i, bound, rfl⟩ := List.mem_iff_getElem.mp mem
  have here : wfState.jobIDs[i]? = some wfState.jobIDs[i] := List.getElem?_eq_getElem bound
  by_cases more : i + 1 < wfState.jobIDs.length
  · exact .inl (ordered.earlier i _ here more)
  · exact .inr ⟨i, here, by omega⟩

theorem not_wasDiscarded_snoc {done : List Passage} (undiscarded : ¬ WasDiscarded id done)
    (now : ∀ k, Member t id k → (t.slot k).state ≠ some .discarded) :
    ¬ WasDiscarded id (done ++ [⟨w, event, t⟩]) := by
  rintro ⟨q, mem, k, member, discarded⟩
  rcases List.mem_append.mp mem with earlier | last
  · exact undiscarded ⟨q, earlier, k, member, discarded⟩
  · obtain rfl := List.mem_singleton.mp last
    exact now k member discarded

/-! ## Steps -/

theorem Event.ackedJob_eq_some {k : String} {result : Option RawMessage}
    (h : event.ackedJob = some (k, result)) :
    ∃ reply, event = .call (.ack k result) (.acked (.ok reply)) := by
  unfold Event.ackedJob at h
  split at h
  · cases h
    exact ⟨_, rfl⟩
  · cases h

theorem Chained.rests {done : List Passage} (chained : Chained id done w wfState)
    (sound : Sound w) (sound' : Sound t) (linked : Linked w) (linked' : Linked t)
    (used : ∀ j ∈ w.used, j ∈ t.used) (found : w.value .workflows id = some wfState)
    (rests : Rests lib id wfState w event t) :
    Chained id (done ++ [⟨w, event, t⟩]) t wfState := by
  have ordered := chained.ordered
  have acks (k : String) (result : Option RawMessage) (ack : event.ackedJob = some (k, result)) :
      (t.slot k).state = some .completed ∧ (wfState.state = "running" → k ∉ wfState.jobIDs) := by
    obtain ⟨reply, call⟩ := Event.ackedJob_eq_some ack
    exact (rests.acked k result reply call).2
  have kept (k : String) (mem : k ∈ wfState.jobIDs) (completed : (w.slot k).state = some .completed) :
      (t.slot k).state = some .completed :=
    rests.ended sound linked found mem (.inl rfl) completed
  have listed {k : String} (member : Member t id k) : k ∈ wfState.jobIDs :=
    (linked'.mem_jobIDs rests.record).mpr member
  refine ⟨ordered.same sound' linked linked' found rests.record rfl rfl rfl rfl used kept
    (fun k mem stored record => (rests.slots k mem).terms record) fun k result ack =>
      (acks k result ack).1, ?_⟩
  cases chained.phase with
  | running underWay =>
    have last (i : Nat) (k : String) (here : wfState.jobIDs[i]? = some k)
        (ends : i + 1 = wfState.jobIDs.length) :
        (t.slot k).state ≠ some .completed ∧ (t.slot k).state ≠ some .discarded :=
      rests.unfinished sound linked found (List.mem_of_getElem? here) underWay.state
        (underWay.last i k here ends)
    refine .running ⟨underWay.state, underWay.failed, underWay.completed, last, ?_, fun i => ?_⟩
    · refine not_wasDiscarded_snoc underWay.undiscarded fun k member => ?_
      rcases ordered.index (listed member) with ⟨completed, -⟩ | ⟨i, here, ends⟩
      · simp [kept k (listed member) completed]
      · exact (last i k here ends).2
    · rw [underWay.results]
      cases here : wfState.jobIDs[i]? with
      | none => rfl
      | some k =>
        refine (ackedResult_other fun result ack => ?_).symm
        exact (acks k result ack).2 underWay.state (List.mem_of_getElem? here)
  | completed state full done' undiscarded =>
    have completed (k : String) (mem : k ∈ wfState.jobIDs) : (t.slot k).state = some .completed :=
      kept k mem (done' k mem).1
    refine .completed state full (fun k mem => ⟨completed k mem, (done' k mem).2.snoc _⟩) ?_
    exact not_wasDiscarded_snoc undiscarded fun k member => by simp [completed k (listed member)]
  | failed state discarded => exact .failed state (discarded.snoc _)
  | cancelled state mem cancelled =>
    exact .cancelled state mem (rests.ended sound linked found mem (.inr rfl) cancelled)

/-- Only cancelling moves. -/
theorem Slot.Evolves.cancelling {now : Int} {j : String} {s s' : Slot} {allowed : Move → Prop}
    (h : s.Evolves lib now j allowed s') (only : ∀ m, allowed m → m = .cancel) :
    s'.state = s.state ∨ s'.state = some .cancelled := by
  induction h with
  | refl => exact .inl rfl
  | tail _ step _ =>
    obtain ⟨m, ok, step⟩ := step
    obtain rfl := only m ok
    cases step with
    | cancel _ _ next => exact .inr (by simp [Slot.state, next.state])
    | requeue kind => simp at kind

theorem Chained.stopped {done : List Passage} (chained : Chained id done w wfState)
    (sound : Sound w) (linked : Linked w) (linked' : Linked t)
    (unacked : event.ackedJob = none) (stopped : Stopped lib w t id wfState) :
    Chained id (done ++ [⟨w, event, t⟩]) t (finishedWorkflow lib wfState "cancelled" w.clock) := by
  have ordered := chained.ordered
  have kept (k : String) (completed : (w.slot k).state = some .completed) :
      (t.slot k).state = some .completed := by
    refine ((stopped.evolves.slots k).terminal (sound.placed k) (.inl completed) ?_).trans completed
    rintro m ⟨-, rfl⟩
    simp
  refine ⟨ordered.same (stopped.evolves.sound sound) linked linked' stopped.before stopped.after
    rfl rfl rfl rfl stopped.evolves.used (fun k _ => kept k)
    (fun k _ stored record => (stopped.evolves.slots k).terms record)
    fun k result ack => by simp [unacked] at ack, ?_⟩
  cases chained.phase with
  | running underWay =>
    obtain ⟨k, mem⟩ := List.exists_mem_of_ne_nil _ ordered.nonempty
    have bound : wfState.jobIDs.length - 1 < wfState.jobIDs.length := by
      have := List.length_pos_of_mem mem
      omega
    obtain ⟨last, here⟩ : ∃ last, wfState.jobIDs[wfState.jobIDs.length - 1]? = some last :=
      ⟨_, List.getElem?_eq_getElem bound⟩
    have listed : last ∈ wfState.jobIDs := List.mem_of_getElem? here
    obtain ⟨uncompleted, undiscarded⟩ := underWay.last _ last here (by omega)
    refine .cancelled (k := last) rfl listed ?_
    rcases (stopped.evolves.slots last).cancelling fun m ok => ok.2 with same | cancelled
    · -- left as it was, it was over already
      obtain ⟨stored, record, -⟩ := (linked'.mem_jobIDs stopped.after).mp listed
      have state : (t.slot last).state = some stored.state := Slot.state_of_record record
      rw [← same, state] at uncompleted undiscarded
      rcases (lib.isTerminalState_iff stored.state).mp (stopped.closed last listed stored record) with
        completed | cancelled | discarded
      · exact absurd (congrArg some completed) uncompleted
      · rw [state, cancelled]
      · exact absurd (congrArg some discarded) undiscarded
    · exact cancelled
  | completed state => exact absurd (.inl state) stopped.live
  | failed state => exact absurd (.inr (.inl state)) stopped.live
  | cancelled state => exact absurd (.inr (.inr state)) stopped.live

/-- An acked job is completed by its step. -/
theorem Step.acked (step : Step lib w event t) (sound : Sound w)
    (unforged : event.Meets Call.Unforged) {k : String} {result : Option RawMessage}
    (ack : event.ackedJob = some (k, result)) : (t.slot k).state = some .completed := by
  obtain ⟨reply, call⟩ := Event.ackedJob_eq_some ack
  cases step.onWorkflows sound unforged with
  | quiet quiet => exact (quiet.acked k result reply call).2.1
  | advanced advanced =>
    have reported := advanced.reported
    obtain ⟨s, u, move, moved, steered⟩ := advanced.settled
    subst call
    cases reported with
    | ack =>
      obtain ⟨active, completed⟩ := settlement_step move
      have known : k ∈ w.used := sound.used_of_state active
      rw [steered.others k fun new => (steered.fresh k new).2 (moved.used.symm ▸ known), moved.slot]
      exact completed
  | created created => cases call.symm.trans created
  | stopped stopped => cases call.symm.trans stopped

theorem Run.acked_used {clock : Int} {trace : List Passage}
    (run : Run lib (World.start clock) trace w)
    (unforged : ∀ p ∈ trace, p.event.Meets Call.Unforged) {k : String}
    (acked : WasAcked trace k) : k ∈ w.used := by
  revert k
  refine run.holds (I := fun done v => ∀ {k}, WasAcked done k → k ∈ v.used) (.start clock)
    (fun acked => by cases acked) ?_
  intro done p mem sound step known k acked
  rcases wasAcked_snoc.mp acked with before | ⟨result, now⟩
  · exact step.used sound (known before)
  · exact (step.sound sound).used_of_state (step.acked sound (unforged p mem) now)

theorem storedSlot_unsettled (lib : Externals) (now : Int) (job : Job) (s : Slot) :
    (storedSlot lib now job s).state ≠ some .completed ∧
      (storedSlot lib now job s).state ≠ some .discarded := by
  unfold storedSlot
  split <;> simp [Slot.state, storedRecord, enqueuedJob]

theorem storedSlot_record (lib : Externals) (now : Int) (job : Job) (s : Slot) : ∃ state,
    (storedSlot lib now job s).record = some (storedRecord lib state now job) := by
  unfold storedSlot
  split
  · exact ⟨.scheduled, rfl⟩
  · exact ⟨.available, rfl⟩

/-- A new chain has its first step under way. -/
theorem Born.chained {req : WorkflowRequest} {ids : List String} {done : List Passage}
    (born : Born lib w event t id req ids) (linked' : Linked t)
    (unborn : ∀ q ∈ done, q.after.value .workflows id = none)
    (earlier : ∀ q ∈ done, Linked q.after)
    (known : ∀ k, WasAcked done k → k ∈ w.used) (used : ∀ j ∈ w.used, j ∈ t.used)
    (chain : req.type = "chain") (steps : req.steps ≠ []) :
    Chained id (done ++ [⟨w, event, t⟩]) t
      { newWorkflowState lib id req (requestedJobs req) w.clock with jobIDs := ids } := by
  obtain ⟨first, rest, cons⟩ := List.exists_cons_of_ne_nil steps
  have requested : requestedJobs req = first :: rest := by rw [requestedJobs, if_pos chain, cons]
  have jobs : initialJobs id req = [workflowStepToJob first id 0] := by
    rw [initialJobs, if_pos chain, cons]
    rfl
  obtain ⟨reply, call⟩ := born.call
  have unacked : event.ackedJob = none := by rw [call]; rfl
  have steered := born.steered
  rw [jobs] at steered
  obtain ⟨k, rfl⟩ : ∃ k, ids = [k] := List.length_eq_one_iff.mp steered.length
  have found := steered.record
  have nonempty : id ≠ "" := (linked'.known id _ found).2
  have fresh : k ∉ w.used := fun mem =>
    (steered.fresh k List.mem_cons_self).2 (List.mem_cons_of_mem _ mem)
  have acked {j : String} (now : WasAcked (done ++ [⟨w, event, t⟩]) j) : j ∈ w.used := by
    rcases wasAcked_snoc.mp now with before | ⟨result, ack⟩
    · exact known j before
    · simp [unacked] at ack
  have silent : ¬ WasAcked (done ++ [⟨w, event, t⟩]) k := fun now => fresh (acked now)
  have here : (k, workflowStepToJob first id 0) ∈ [k].zip [workflowStepToJob first id 0] := by simp
  obtain ⟨state, record⟩ := steered.toPushed.record here
  have terms := workflowStepToJob_terms first id 0
  have unheard (q : Passage) (mem : q ∈ done) (j : String) : ¬ Member q.after id j := by
    rintro ⟨stored, here, owner⟩
    have listed := ((earlier q mem).owned j stored here (owner ▸ nonempty)).2
    rw [owner, roster, unborn q mem] at listed
    cases listed
  have unsettled : (t.slot k).state ≠ some .completed ∧ (t.slot k).state ≠ some .discarded := by
    rw [steered.slots k (workflowStepToJob first id 0) (by simp)]
    exact storedSlot_unsettled _ _ _ _
  have only {i : Nat} {j : String} (here : [k][i]? = some j) : i = 0 ∧ j = k := by
    cases i with
    | zero => simpa using here.symm
    | succ i => simp at here
  refine ⟨?_, .running ?_⟩
  · exact {
      type := chain
      total := rfl
      nonempty := by simp
      fits := by
        show [k].length ≤ (requestedJobs req).length
        simp [requested]
      steps := fun i j stored here record' => by
        obtain ⟨rfl, rfl⟩ := only here
        cases record.symm.trans record'
        exact ⟨terms.2.1, terms.2.2.1⟩
      earlier := fun i j here more => by
        obtain ⟨rfl, -⟩ := only here
        simp at more
      ended := fun j now => ⟨used j (acked now), fun mem => by
        rw [List.mem_singleton] at mem
        exact absurd (mem ▸ now) silent⟩
      frozen := fun q mem discarded j member => by
        rcases List.mem_append.mp mem with before | last
        · obtain ⟨j', member', -⟩ := discarded
          exact absurd member' (unheard q before j')
        · obtain rfl := List.mem_singleton.mp last
          exact member }
  · exact {
      state := rfl
      failed := rfl
      completed := rfl
      last := fun i j here _ => by
        obtain ⟨-, rfl⟩ := only here
        exact unsettled
      undiscarded := by
        refine not_wasDiscarded_snoc ?_ fun j member => ?_
        · rintro ⟨q, mem, j, member, -⟩
          exact unheard q mem j member
        · have listed : j ∈ [k] := (linked'.mem_jobIDs found).mpr member
          rw [List.mem_singleton.mp listed]
          exact unsettled.2
      results := fun i => by
        show none = _
        cases here : [k][i]? with
        | none => rfl
        | some j =>
          obtain ⟨-, rfl⟩ := only here
          exact (ackedResult_of_not_acked silent).symm }

/-! ## Reports on a chain -/

theorem Event.Reported.ackedJob {k : String} {result : Option RawMessage} {failed : Bool}
    (reported : event.Reported k result failed) :
    event.ackedJob = if failed then none else some (k, result) := by
  cases reported with
  | ack => rfl
  | nack => rfl

section Advanced

variable {done : List Passage} {k : String} {result : Option RawMessage} {failed : Bool}
  {ids : List String}

/-- The job that reports is the chain's last one. -/
theorem Ordered.reports (ordered : Ordered id done w wfState)
    (effects : Effects lib w t k id wfState result failed ids) :
    ∃ i : Nat, wfState.jobIDs[i]? = some k ∧ i + 1 = wfState.jobIDs.length ∧ stepOf w k = i := by
  rcases ordered.index effects.listed with ⟨completed, -⟩ | ⟨i, here, ends⟩
  · rw [effects.active] at completed
    simp at completed
  · refine ⟨i, here, ends, ?_⟩
    obtain ⟨stored, record⟩ : ∃ stored, (w.slot k).record = some stored := by
      have active := effects.active
      cases found : (w.slot k).record with
      | some stored => exact ⟨stored, rfl⟩
      | none => simp [Slot.state, found] at active
    rw [stepOf, record]
    exact (ordered.steps i k stored here record).1

/-- The record after a report of a chain's last job. -/
theorem UnderWay.counted (underWay : UnderWay id done w wfState) (stepIdx : Int) :
    (countedWorkflow wfState stepIdx result failed).completed +
      (countedWorkflow wfState stepIdx result failed).failed = wfState.jobIDs.length := by
  have one := underWay.completed
  have none := underWay.failed
  rw [countedWorkflow_completed, countedWorkflow_failed]
  cases failed <;> simp <;> omega

theorem Effects.kept (effects : Effects lib w t k id wfState result failed ids) {j : String}
    (mem : j ∈ wfState.jobIDs) (completed : (w.slot j).state = some .completed) :
    (t.slot j).state = some .completed := by
  by_cases same : j = k
  · rw [same, effects.active] at completed
    simp at completed
  · rw [effects.others j mem same]
    exact completed

/-- The report of the last job of a chain that pushes none. -/
theorem Ordered.closed {state : String} {time : String} (ordered : Ordered id done w wfState)
    (sound' : Sound t) (linked : Linked w) (linked' : Linked t)
    (found : w.value .workflows id = some wfState)
    (terms : ∀ stored, (w.slot k).record = some stored →
      ∃ stored', (t.slot k).record = some stored' ∧ stored'.terms = stored.terms)
    (used : ∀ j ∈ w.used, j ∈ t.used) (reported : event.Reported k result failed)
    (effects : Effects lib w t k id wfState result failed ids)
    (found' : t.value .workflows id = some { countedWorkflow wfState (stepOf w k) result failed with
      state := state, completedAt := time }) :
    Ordered id (done ++ [⟨w, event, t⟩]) t { countedWorkflow wfState (stepOf w k) result failed with
      state := state, completedAt := time } := by
  refine ordered.same sound' linked linked' found found' countedWorkflow_type countedWorkflow_total
    countedWorkflow_jobDefs countedWorkflow_jobIDs used (fun j mem => effects.kept mem) ?_ ?_
  · intro j mem stored record
    by_cases same : j = k
    · subst same
      exact terms stored record
    · rw [effects.others j mem same]
      exact ⟨stored, record, rfl⟩
  · intro j result' ack
    rw [reported.ackedJob] at ack
    cases failed with
    | true => simp at ack
    | false =>
      simp only [Bool.false_eq_true, ↓reduceIte, Option.some.injEq, Prod.mk.injEq] at ack
      rw [← ack.1]
      exact effects.settled

/-- A discarded job ends its chain. -/
theorem Chained.failing (chained : Chained id done w wfState) (sound' : Sound t)
    (linked : Linked w) (linked' : Linked t) (found : w.value .workflows id = some wfState)
    (terms : ∀ stored, (w.slot k).record = some stored →
      ∃ stored', (t.slot k).record = some stored' ∧ stored'.terms = stored.terms)
    (used : ∀ j ∈ w.used, j ∈ t.used) (reported : event.Reported k result true)
    (effects : Effects lib w t k id wfState result true ids)
    (found' : t.value .workflows id = some
      (finishedWorkflow lib (countedWorkflow wfState (stepOf w k) result true) "failed" w.clock)) :
    Chained id (done ++ [⟨w, event, t⟩]) t
      (finishedWorkflow lib (countedWorkflow wfState (stepOf w k) result true) "failed" w.clock) := by
  refine ⟨chained.ordered.closed sound' linked linked' found terms used reported effects found',
    .failed rfl ⟨⟨w, event, t⟩, by simp, k, ?_, effects.settled⟩⟩
  refine (linked'.mem_jobIDs found').mp ?_
  show k ∈ (countedWorkflow wfState (stepOf w k) result true).jobIDs
  rw [countedWorkflow_jobIDs]
  exact effects.listed

/-- The last step completes its chain. -/
theorem Chained.completing (chained : Chained id done w wfState)
    (underWay : UnderWay id done w wfState) (sound' : Sound t)
    (linked : Linked w) (linked' : Linked t) (found : w.value .workflows id = some wfState)
    (terms : ∀ stored, (w.slot k).record = some stored →
      ∃ stored', (t.slot k).record = some stored' ∧ stored'.terms = stored.terms)
    (used : ∀ j ∈ w.used, j ∈ t.used) (reported : event.Reported k result false)
    (effects : Effects lib w t k id wfState result false ids)
    (full : wfState.total ≤ wfState.jobIDs.length)
    (found' : t.value .workflows id = some
      (finishedWorkflow lib (countedWorkflow wfState (stepOf w k) result false) "completed" w.clock)) :
    Chained id (done ++ [⟨w, event, t⟩]) t
      (finishedWorkflow lib (countedWorkflow wfState (stepOf w k) result false) "completed" w.clock) := by
  have ordered := chained.ordered
  have jobIDs : (finishedWorkflow lib (countedWorkflow wfState (stepOf w k) result false) "completed"
      w.clock).jobIDs = wfState.jobIDs := countedWorkflow_jobIDs
  have completed (j : String) (mem : j ∈ wfState.jobIDs) :
      (t.slot j).state = some .completed ∧ WasAcked (done ++ [⟨w, event, t⟩]) j := by
    rcases ordered.index mem with ⟨completed, acked⟩ | ⟨i, here, ends⟩
    · exact ⟨effects.kept mem completed, acked.snoc _⟩
    · obtain ⟨i', here', ends', -⟩ := ordered.reports effects
      obtain rfl : i = i' := by omega
      obtain rfl : j = k := Option.some.inj (here.symm.trans here')
      exact ⟨effects.settled, wasAcked_snoc.mpr (.inr ⟨result, reported.ackedJob⟩)⟩
  refine ⟨ordered.closed sound' linked linked' found terms used reported effects found',
    .completed rfl ?_ (fun j mem => completed j (jobIDs ▸ mem)) ?_⟩
  · rw [jobIDs, show (finishedWorkflow lib (countedWorkflow wfState (stepOf w k) result false)
      "completed" w.clock).jobDefs = wfState.jobDefs from countedWorkflow_jobDefs]
    have fits := ordered.fits
    have total := ordered.total
    omega
  · refine not_wasDiscarded_snoc underWay.undiscarded fun j member => ?_
    have mem : j ∈ wfState.jobIDs := jobIDs ▸ (linked'.mem_jobIDs found').mpr member
    simp [(completed j mem).1]

theorem countedWorkflow_results {i n : Nat} :
    (countedWorkflow wfState i result failed).results.lookup (intToStr n) =
      if n = i then result.or (wfState.results.lookup (intToStr n))
      else wfState.results.lookup (intToStr n) := by
  cases result with
  | none =>
    rw [Option.none_or, ite_self]
    cases failed <;> rfl
  | some r =>
    have set : (countedWorkflow wfState i (some r) failed).results =
        setResult wfState.results (intToStr i) r := by
      cases failed <;> rfl
    rw [set, lookup_setResult, Option.some_or]
    by_cases same : n = i
    · rw [if_pos (by rw [same]), if_pos same]
    · rw [if_neg fun key => same (intToStr_injective key), if_neg same]

/-- The results of a chain after a report, by the places of their steps. -/
theorem UnderWay.results_after (underWay : UnderWay id done w wfState)
    (ordered : Ordered id done w wfState) (reported : event.Reported k result false)
    (effects : Effects lib w t k id wfState result false ids) {new : String}
    (silent : ¬ WasAcked (done ++ [⟨w, event, t⟩]) new) (n : Nat) :
    (countedWorkflow wfState (stepOf w k) result false).results.lookup (intToStr n) =
      (wfState.jobIDs ++ [new])[n]?.bind (ackedResult (done ++ [⟨w, event, t⟩])) := by
  obtain ⟨i, here, ends, step⟩ := ordered.reports effects
  have ack : event.ackedJob = some (k, result) := reported.ackedJob
  have unacked : ¬ WasAcked done k := fun acked => by
    have completed := (ordered.ended k acked).2 effects.listed
    rw [effects.active] at completed
    simp at completed
  rw [step, countedWorkflow_results, underWay.results]
  rcases Nat.lt_trichotomy n i with before | rfl | after
  · obtain ⟨j, there⟩ : ∃ j, wfState.jobIDs[n]? = some j :=
      ⟨_, List.getElem?_eq_getElem (by omega)⟩
    rw [if_neg (by omega), List.getElem?_append_left (by omega), there]
    exact (ackedResult_snoc (ordered.earlier n j there (by omega)).2 _).symm
  · rw [if_pos rfl, List.getElem?_append_left (by omega), here]
    show result.or (ackedResult done k) = ackedResult (done ++ [⟨w, event, t⟩]) k
    rw [ackedResult_of_not_acked unacked, Option.or_none]
    exact (ackedResult_last unacked ack).symm
  · rw [if_neg (by omega), List.getElem?_eq_none (by omega)]
    by_cases last : n = wfState.jobIDs.length
    · subst last
      rw [List.getElem?_append_right (le_refl _), Nat.sub_self]
      exact (ackedResult_of_not_acked silent).symm
    · rw [List.getElem?_eq_none (l := wfState.jobIDs ++ [new]) (by simp; omega)]
      rfl

/-- A completed step pushes the next one. -/
theorem Chained.continuing (chained : Chained id done w wfState)
    (underWay : UnderWay id done w wfState) (sound : Sound w) (sound' : Sound t)
    (linked : Linked w) (linked' : Linked t) (found : w.value .workflows id = some wfState)
    (terms : ∀ stored, (w.slot k).record = some stored →
      ∃ stored', (t.slot k).record = some stored' ∧ stored'.terms = stored.terms)
    (used : ∀ j ∈ w.used, j ∈ t.used) (reported : event.Reported k result false)
    (effects : Effects lib w t k id wfState result false ids)
    (more : wfState.jobIDs.length < wfState.jobDefs.length)
    (successors : successorJobs id wfState (stepOf w k) result false =
      chainJobs id (countedWorkflow wfState (stepOf w k) result false) (stepOf w k + 1))
    (found' : t.value .workflows id = some
      { countedWorkflow wfState (stepOf w k) result false with
        jobIDs := (countedWorkflow wfState (stepOf w k) result false).jobIDs ++ ids }) :
    Chained id (done ++ [⟨w, event, t⟩]) t
      { countedWorkflow wfState (stepOf w k) result false with
        jobIDs := (countedWorkflow wfState (stepOf w k) result false).jobIDs ++ ids } := by
  have ordered := chained.ordered
  obtain ⟨i, here, ends, step⟩ := ordered.reports effects
  -- exactly one job is pushed
  obtain ⟨next, def_⟩ : ∃ next, wfState.jobDefs[i + 1]? = some next :=
    ⟨_, List.getElem?_eq_getElem (by omega)⟩
  have jobs : successorJobs id wfState (stepOf w k) result false =
      [chainJob id (countedWorkflow wfState i result false) (i + 1) next] := by
    rw [successors, step, chainJobs, if_neg (by omega), countedWorkflow_jobDefs,
      show ((i : Int) + 1).toNat = i + 1 by omega, def_]
    rfl
  have length := effects.length
  rw [jobs] at length
  obtain ⟨new, rfl⟩ : ∃ new, ids = [new] := List.length_eq_one_iff.mp length
  have fresh : new ∉ w.used := effects.fresh new List.mem_cons_self
  have slot := effects.slots new (chainJob id (countedWorkflow wfState i result false) (i + 1) next)
    (by rw [jobs]; simp)
  obtain ⟨state, record⟩ := storedSlot_record lib w.clock (freshJob lib new w.clock
    (chainJob id (countedWorkflow wfState i result false) (i + 1) next)) Slot.vacant
  rw [← slot] at record
  have unsettled : (t.slot new).state ≠ some .completed ∧ (t.slot new).state ≠ some .discarded := by
    rw [slot]
    exact storedSlot_unsettled _ _ _ _
  have ack : event.ackedJob = some (k, result) := reported.ackedJob
  have silent : ¬ WasAcked (done ++ [⟨w, event, t⟩]) new := by
    rintro acked
    rcases wasAcked_snoc.mp acked with before | ⟨result', now⟩
    · exact fresh (ordered.ended new before).1
    · rw [ack] at now
      cases now
      exact fresh (sound.used_of_state effects.active)
  have jobIDs : (countedWorkflow wfState (stepOf w k) result false).jobIDs ++ [new] =
      wfState.jobIDs ++ [new] := by rw [countedWorkflow_jobIDs]
  rw [jobIDs] at found' ⊢
  -- all jobs but the new one are completed
  have completed (j : String) (mem : j ∈ wfState.jobIDs) :
      (t.slot j).state = some .completed ∧ WasAcked (done ++ [⟨w, event, t⟩]) j := by
    rcases ordered.index mem with ⟨completed, acked⟩ | ⟨i', here', ends'⟩
    · exact ⟨effects.kept mem completed, acked.snoc _⟩
    · obtain rfl : i = i' := by omega
      obtain rfl : k = j := Option.some.inj (here.symm.trans here')
      exact ⟨effects.settled, wasAcked_snoc.mpr (.inr ⟨result, ack⟩)⟩
  have split {n : Nat} {j : String} (there : (wfState.jobIDs ++ [new])[n]? = some j) :
      wfState.jobIDs[n]? = some j ∨ n = wfState.jobIDs.length ∧ j = new := by
    rcases Nat.lt_or_ge n wfState.jobIDs.length with short | long
    · rw [List.getElem?_append_left short] at there
      exact .inl there
    · rw [List.getElem?_append_right long] at there
      obtain ⟨bound, same⟩ := List.getElem?_eq_some_iff.mp there
      have zero : n - wfState.jobIDs.length = 0 := by simpa using bound
      exact .inr ⟨by omega, by simpa [zero] using same.symm⟩
  refine ⟨?_, .running ?_⟩
  · exact {
      type := countedWorkflow_type.trans ordered.type
      total := by
        show (countedWorkflow wfState (stepOf w k) result false).total =
          (countedWorkflow wfState (stepOf w k) result false).jobDefs.length
        rw [countedWorkflow_total, countedWorkflow_jobDefs, ordered.total]
      nonempty := by simp
      fits := by
        show (wfState.jobIDs ++ [new]).length ≤
          (countedWorkflow wfState (stepOf w k) result false).jobDefs.length
        rw [countedWorkflow_jobDefs, List.length_append]
        exact more
      steps := fun n j stored' there record' => by
        rcases split there with old | ⟨rfl, rfl⟩
        · obtain ⟨bound, -⟩ := List.getElem?_eq_some_iff.mp old
          obtain ⟨stored, before, -⟩ := (linked.mem_jobIDs found).mp (List.mem_of_getElem? old)
          have same : stored'.terms = stored.terms := by
            by_cases last : j = k
            · subst last
              obtain ⟨again, after, same⟩ := terms stored before
              cases record'.symm.trans after
              exact same
            · rw [effects.others j (List.mem_of_getElem? old) last, before] at record'
              cases record'
              rfl
          obtain ⟨stepped, parents⟩ := ordered.steps n j stored old before
          rw [List.take_append_of_le_length (by omega), ordered.parents _ bound]
          exact ⟨(workflowStep_of_terms same).trans stepped,
            (parentResults_of_terms same).trans parents⟩
        · cases record.symm.trans record'
          refine ⟨?_, ?_⟩
          · show (workflowStepToJob next id (i + 1)).workflowStep = (wfState.jobIDs.length : Int)
            rw [(workflowStepToJob_terms next id (i + 1)).2.1]
            omega
          · show parentResults (countedWorkflow wfState i result false) (i + 1) =
              ((wfState.jobIDs ++ [j]).take wfState.jobIDs.length).filterMap
                (ackedResult (done ++ [⟨w, event, t⟩]))
            rw [← filterMap_range_getElem?,
              show ((i : Int) + 1) = (wfState.jobIDs.length : Nat) by omega, parentResults_eq, ← step]
            exact List.filterMap_congr fun n _ =>
              underWay.results_after ordered reported effects silent n
      earlier := fun n j there more' => by
        rcases split there with old | ⟨rfl, -⟩
        · exact completed j (List.mem_of_getElem? old)
        · simp at more'
      ended := fun j acked => by
        refine ⟨?_, fun mem => ?_⟩
        · rcases wasAcked_snoc.mp acked with before | ⟨result', now⟩
          · exact used j (ordered.ended j before).1
          · rw [ack] at now
            cases now
            exact sound'.used_of_state effects.settled
        · rcases List.mem_append.mp mem with old | last
          · exact (completed j old).1
          · rw [List.mem_singleton] at last
            exact absurd (last ▸ acked) silent
      frozen := fun q mem discarded j member => by
        rcases List.mem_append.mp mem with before | last
        · obtain ⟨j', member', state'⟩ := discarded
          exact absurd ⟨q, before, j', member', state'⟩ underWay.undiscarded
        · obtain rfl := List.mem_singleton.mp last
          exact member }
  · exact {
      state := by
        show (countedWorkflow wfState (stepOf w k) result false).state = "running"
        rw [← underWay.state]
        cases result <;> rfl
      failed := by
        show (countedWorkflow wfState (stepOf w k) result false).failed = 0
        simp [underWay.failed]
      completed := by
        show (countedWorkflow wfState (stepOf w k) result false).completed + 1 =
          ((wfState.jobIDs ++ [new]).length : Int)
        have counted := underWay.completed
        simp only [countedWorkflow_completed, Bool.false_eq_true, ↓reduceIte, List.length_append,
          List.length_singleton]
        omega
      last := fun n j there ends' => by
        rcases split there with old | ⟨-, rfl⟩
        · obtain ⟨bound, -⟩ := List.getElem?_eq_some_iff.mp old
          simp at ends'
          omega
        · exact unsettled
      undiscarded := by
        refine not_wasDiscarded_snoc underWay.undiscarded fun j member => ?_
        rcases List.mem_append.mp ((linked'.mem_jobIDs found').mpr member) with old | last
        · simp [(completed j old).1]
        · rw [List.mem_singleton.mp last]
          exact unsettled.2
      results := fun n => underWay.results_after ordered reported effects silent n }

theorem Chained.advanced (chained : Chained id done w wfState) (sound : Sound w) (sound' : Sound t)
    (linked : Linked w) (linked' : Linked t) (used : ∀ j ∈ w.used, j ∈ t.used)
    (found : w.value .workflows id = some wfState)
    (advanced : Advanced lib w event t k id wfState result failed ids) :
    Chained id (done ++ [⟨w, event, t⟩]) t
      (notedWorkflow (settledWorkflow lib w.clock wfState (stepOf w k) result failed) ids) := by
  have effects := advanced.effects sound linked
  have terms (stored : JobState) (record : (w.slot k).record = some stored) :=
    (advanced.peopled sound).kept k stored record
  have ordered := chained.ordered
  have chain : wfState.type = "chain" := ordered.type
  obtain ⟨underWay⟩ : Nonempty (PLift (UnderWay id done w wfState)) := by
    have running := effects.running
    cases chained.phase with
    | running underWay => exact ⟨⟨underWay⟩⟩
    | completed state | failed state | cancelled state => simp [running] at state
  have underWay := underWay.down
  have counted : (countedWorkflow wfState (stepOf w k) result failed).completed +
      (countedWorkflow wfState (stepOf w k) result failed).failed = wfState.jobIDs.length :=
    underWay.counted (stepOf w k)
  have record := effects.record
  have length := effects.length
  rw [successorJobs_chain id chain, counted, countedWorkflow_total] at length
  rw [settledWorkflow_chain chain, counted, countedWorkflow_total] at record ⊢
  cases failed with
  | true =>
    have none : ids = [] := List.length_eq_zero_iff.mp (by simpa using length)
    subst none
    have noted (wfState : WorkflowState) : notedWorkflow wfState [] = wfState := by
      simp [notedWorkflow]
    rw [if_pos rfl, noted] at record ⊢
    exact chained.failing sound' linked linked' found terms used advanced.reported effects record
  | false =>
    rw [if_neg Bool.false_ne_true] at record ⊢
    by_cases full : wfState.total ≤ wfState.jobIDs.length
    · have none : ids = [] := List.length_eq_zero_iff.mp (by simpa [full] using length)
      subst none
      have noted (wfState : WorkflowState) : notedWorkflow wfState [] = wfState := by
        simp [notedWorkflow]
      rw [if_pos full, noted] at record ⊢
      exact chained.completing underWay sound' linked linked' found terms used advanced.reported
        effects full record
    · have more : wfState.jobIDs.length < wfState.jobDefs.length := by
        have total := ordered.total
        omega
      rw [if_neg full, notedWorkflow, if_pos (countedWorkflow_type.trans chain)] at record ⊢
      refine chained.continuing underWay sound sound' linked linked' found terms used
        advanced.reported effects more ?_ record
      rw [successorJobs_chain id chain, counted, countedWorkflow_total, if_neg (by simpa using full)]

end Advanced

/-! ## Runs -/

/-- The jobs of a chain are its steps in order: each is pushed once, after the job of the step
before it was acked, with the results acked so far; after a discard none is pushed, and the
chain is completed once all of its steps were acked without one. -/
structure RanInOrder (id : String) (trace : List Passage) (w : World) (wfState : WorkflowState) :
    Prop where
  nodup : wfState.jobIDs.Nodup
  jobs : ∀ k, k ∈ wfState.jobIDs ↔ Member w id k
  fits : wfState.jobIDs.length ≤ wfState.jobDefs.length
  steps : ∀ (i : Nat) k stored, wfState.jobIDs[i]? = some k → (w.slot k).record = some stored →
    stored.workflowStep = i ∧
      stored.parentResults = (wfState.jobIDs.take i).filterMap (ackedResult trace)
  after : ∀ (i : Nat) k, wfState.jobIDs[i]? = some k → i + 1 < wfState.jobIDs.length →
    WasAcked trace k
  frozen : ∀ p ∈ trace, (∃ k, Member p.after id k ∧ (p.after.slot k).state = some .discarded) →
    ∀ k, Member w id k → Member p.after id k
  completed : wfState.state = "completed" ↔ wfState.jobIDs.length = wfState.jobDefs.length ∧
    (∀ k ∈ wfState.jobIDs, WasAcked trace k) ∧ ¬ WasDiscarded id trace

theorem Chained.ranInOrder {trace : List Passage} (chained : Chained id trace w wfState)
    (linked : Linked w) (found : w.value .workflows id = some wfState) :
    RanInOrder id trace w wfState := by
  have ordered := chained.ordered
  refine ⟨roster_of_value found ▸ linked.nodup id, fun k => linked.mem_jobIDs found, ordered.fits,
    ordered.steps, fun i k here more => (ordered.earlier i k here more).2, ordered.frozen, ?_⟩
  cases chained.phase with
  | running underWay =>
    refine ⟨fun state => by simp [underWay.state] at state, fun ⟨full, acked, _⟩ => ?_⟩
    have bound : wfState.jobIDs.length - 1 < wfState.jobIDs.length := by
      have := List.length_pos_of_ne_nil ordered.nonempty
      omega
    have here := List.getElem?_eq_getElem bound
    have mem := List.mem_of_getElem? here
    exact absurd ((ordered.ended _ (acked _ mem)).2 mem) (underWay.last _ _ here (by omega)).1
  | completed state full all undiscarded =>
    exact ⟨fun _ => ⟨full, fun k mem => (all k mem).2, undiscarded⟩, fun _ => state⟩
  | failed state discarded =>
    exact ⟨fun completed => by simp [state] at completed,
      fun ⟨_, _, undiscarded⟩ => absurd discarded undiscarded⟩
  | @cancelled k state mem cancelled =>
    refine ⟨fun completed => by simp [state] at completed, fun ⟨_, acked, _⟩ => ?_⟩
    have completed := (ordered.ended k (acked k mem)).2 mem
    rw [cancelled] at completed
    simp at completed

theorem notedWorkflow_jobDefs (wfState : WorkflowState) (ids : List String) :
    (notedWorkflow wfState ids).jobDefs = wfState.jobDefs := by
  unfold notedWorkflow
  split <;> rfl

theorem notedWorkflow_type (wfState : WorkflowState) (ids : List String) :
    (notedWorkflow wfState ids).type = wfState.type := by
  unfold notedWorkflow
  split <;> rfl

@[simp] theorem settledWorkflow_jobDefs {now stepIdx : Int} {result : Option RawMessage}
    {failed : Bool} :
    (settledWorkflow lib now wfState stepIdx result failed).jobDefs = wfState.jobDefs := by
  obtain ⟨state, time, same⟩ := settledWorkflow_eq lib now wfState stepIdx result failed
  rw [same]
  exact countedWorkflow_jobDefs

theorem Run.chained {clock : Int} {trace : List Passage} (run : Run lib (World.start clock) trace w)
    (unforged : ∀ p ∈ trace, p.event.Meets Call.Unforged)
    (found : w.value .workflows id = some wfState) (chain : wfState.type = "chain")
    (steps : wfState.jobDefs ≠ []) : Chained id trace w wfState := by
  have along : wfState.type = "chain" → wfState.jobDefs ≠ [] → Chained id trace w wfState := by
    refine run.along_course (I := fun done v wfState => wfState.type = "chain" →
      wfState.jobDefs ≠ [] → Chained id done v wfState) unforged found ?_ ?_
    · intro done p req ids here unborn born chain steps
      have genuine : ∀ q ∈ done, q.event.Meets Call.Unforged := fun q inside =>
        unforged q (here.earlier q inside)
      have requested : requestedJobs req = req.steps := if_pos chain
      exact born.chained here.linked' (fun q inside => (unborn q inside).2)
        (here.run.linked_of_mem genuine) (fun k => here.run.acked_used genuine)
        (fun _ => here.used) chain (requested ▸ steps)
    · intro done p wfState wfState' here found found' course chained chain steps
      cases course with
      | rests rests =>
        cases found'.symm.trans rests.record
        exact (chained chain steps).rests here.sound here.sound' here.linked here.linked'
          (fun _ => here.used) found rests
      | advances advanced =>
        have record := (advanced.effects here.sound here.linked).record
        cases found'.symm.trans record
        rw [notedWorkflow_type, settledWorkflow_type] at chain
        rw [notedWorkflow_jobDefs, settledWorkflow_jobDefs] at steps
        exact (chained chain steps).advanced here.sound here.sound' here.linked here.linked'
          (fun _ => here.used) found advanced
      | stops call stopped =>
        cases found'.symm.trans stopped.after
        exact (chained chain steps).stopped here.sound here.linked here.linked'
          (by rw [call]; rfl) stopped
  exact along chain steps

/-- A chain runs its steps in order, each at most once. -/
theorem chain_ran_in_order {clock : Int} {trace : List Passage}
    (run : Run lib (World.start clock) trace w)
    (unforged : ∀ p ∈ trace, p.event.Meets Call.Unforged)
    (found : w.value .workflows id = some wfState) (chain : wfState.type = "chain")
    (steps : wfState.jobDefs ≠ []) : RanInOrder id trace w wfState :=
  (run.chained unforged found chain steps).ranInOrder (run.linked unforged) found

/-! ## A chain of two steps -/

def twoSteps : WorkflowRequest where
  name := "two steps"
  type := "chain"
  steps := [{ name := "first", type := "mail" }, { name := "second", type := "mail" }]

/-- Both steps are acked, the first one with a result. -/
def inOrder : List Cue :=
  [.call (.createWorkflow twoSteps), .call (.fetch ["default"] 1 "worker-1" 0),
    .call (.ack (pairID 1) (some (.num 7))), .call (.fetch ["default"] 1 "worker-1" 0),
    .call (.ack (pairID 2) none)]

/-- What a played run says about the chain. -/
def chainAccount (r : List Passage × World) : Option (String × String × Nat × List String) :=
  (r.2.value .workflows (pairID 0)).map fun wfState =>
    (wfState.type, wfState.state, wfState.jobDefs.length, wfState.jobIDs)

theorem chain_ran_in_order_twoSteps : ∃ trace w wfState,
    play (World.start (Sample.instant 0)) inOrder = some (trace, w) ∧
    w.value .workflows (pairID 0) = some wfState ∧ wfState.state = "completed" ∧
    RanInOrder (pairID 0) trace w wfState := by
  have plays : (play (World.start (Sample.instant 0)) inOrder).isSome := by decide
  obtain ⟨⟨trace, w⟩, played⟩ := Option.isSome_iff_exists.mp plays
  have facts : (play (World.start (Sample.instant 0)) inOrder).bind chainAccount =
      some ("chain", "completed", 2, [pairID 1, pairID 2]) := by decide
  rw [played, Option.bind_some] at facts
  obtain ⟨wfState, found, same⟩ := Option.map_eq_some_iff.mp facts
  obtain ⟨type, state, defs, -⟩ := by simpa using same
  have unforged : ∀ cue ∈ inOrder, cue.Meets Call.Unforged := by
    simp [inOrder, Cue.Meets, Call.Unforged]
  have steps : wfState.jobDefs ≠ [] := List.ne_nil_of_length_pos (by omega)
  exact ⟨trace, w, wfState, played, found, state, chain_ran_in_order (run_of_play played)
    (meets_of_play played unforged) found type steps⟩

end OjsNats.Lifecycle
