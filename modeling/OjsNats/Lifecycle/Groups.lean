import Mathlib.Algebra.Order.BigOperators.Group.List
import OjsNats.Lifecycle.Course

/-!
# When groups and batches finish

A group or a batch counts reports, not jobs.  Each job is counted once and the
workflow ends when all of its jobs have, unless a discarded job is revived
while the workflow still runs.
-/

namespace OjsNats.Lifecycle

open Core Nats Effect Semantics Relation

variable {lib : Externals} {w t : World} {id : String} {wfState : WorkflowState}

/-! ## The counters -/

/-- `Completed + Failed` of a workflow. -/
def progress (w : World) (id : String) : Int :=
  match w.value .workflows id with
  | some wfState => wfState.completed + wfState.failed
  | none => 0

theorem progress_of_value (found : w.value .workflows id = some wfState) :
    progress w id = wfState.completed + wfState.failed := by
  rw [progress, found]

/-- The event is a call of `Ack` or `Nack` on the job. -/
def Event.reportsOn (k : String) : Event → Bool
  | .call (.ack j _) _ => j = k
  | .call (.nack j _ _) _ => j = k
  | _ => false

/-- What one step adds to the counters of a workflow by a report on the job. -/
def gain (id k : String) (p : Passage) : Int :=
  if p.event.reportsOn k then progress p.after id - progress p.before id else 0

/-- What the reports on a job have added to the counters of a workflow. -/
def contribution (id k : String) (trace : List Passage) : Int := (trace.map (gain id k)).sum

theorem contribution_snoc (id k : String) (trace : List Passage) (p : Passage) :
    contribution id k (trace ++ [p]) = contribution id k trace + gain id k p := by
  simp [contribution]

theorem gain_of_same {k : String} {p : Passage} (same : progress p.after id = progress p.before id) :
    gain id k p = 0 := by
  simp [gain, same]

def Running (w : World) (id : String) : Prop :=
  ∃ wfState, w.value .workflows id = some wfState ∧ wfState.state = "running"

def Finished (w : World) (id : String) : Prop :=
  ∃ wfState, w.value .workflows id = some wfState ∧
    (wfState.state = "completed" ∨ wfState.state = "failed")

/-- Each job counts once, and the workflow finishes only when all its jobs are over. -/
structure OnTime (id : String) (trace : List Passage) (w : World) : Prop where
  once : ∀ k, contribution id k trace ≤ 1
  total : progress w id = ((roster w id).map fun k => contribution id k trace).sum
  patient : ∀ p ∈ trace, Running p.before id → Finished p.after id →
    ∀ k, Member p.after id k → (p.after.slot k).Terminal

/-- The step revives a discarded job of the workflow while it runs. -/
def RevivesMember (id : String) (p : Passage) : Prop := ∃ k reply wfState,
  p.event = .call (.retryDeadLetter k) reply ∧ (p.before.slot k).dead ≠ none ∧
    reportsTo p.before k = some (id, wfState)

/-! ## Jobs that are over -/

/-- A terminal job that is no dead letter stays so. -/
theorem Slot.Step.buried {now : Int} {j : String} {m : Move} {s s' : Slot}
    (step : Slot.Step lib now j m s s') (placed : s.Placed j) (expire : m ≠ .expire)
    (terminal : s.Terminal) (dead : s.dead = none) : s'.state = s.state ∧ s'.dead = none := by
  have revive : m ≠ .revive := by
    rintro rfl
    cases step with
    | revive _ entry => simp [dead] at entry
    | requeue kind => simp at kind
  refine ⟨step.terminal placed terminal expire revive, ?_⟩
  cases step with
  | discard some state => simpa using terminal.not_state some state
  | revive => rfl
  | forget => rfl
  | enqueue | schedule | claim | expire | skip | extend | complete | retryLater | requeue | cancel
  | promoteScheduled | promoteRetry => exact dead

/-- While a workflow rests, its terminal jobs stay as they are but for a revival. -/
theorem Rests.terminal {event : Event} (rests : Rests lib id wfState w event t) (sound : Sound w)
    (linked : Linked w) (found : w.value .workflows id = some wfState) {k : String}
    (mem : k ∈ wfState.jobIDs) (terminal : (w.slot k).Terminal)
    (spared : ∀ reply, event = .call (.retryDeadLetter k) reply → (w.slot k).dead = none) :
    (t.slot k).state = (w.slot k).state := by
  have placed := sound.placed k
  obtain ⟨stored, record, owner⟩ := (linked.mem_jobIDs found).mp mem
  have nonempty := (linked.known id wfState found).2
  have lasting := (linked.owned k stored record (owner ▸ nonempty)).1
  have still {a : Slot} (same : a.state = (w.slot k).state) : a.Terminal := by
    simpa [Slot.Terminal, same] using terminal
  by_cases revives : ∃ reply, event = .call (.retryDeadLetter k) reply
  · obtain ⟨reply, retry⟩ := revives
    refine ((rests.slots k mem).keeps (P := fun a => a.state = (w.slot k).state ∧ a.dead = none)
      placed record lasting ⟨rfl, spared reply retry⟩ ?_).1
    rintro m a b - expire step placed' ⟨same, dead⟩
    obtain ⟨kept, dead'⟩ := step.buried placed' expire (still same) dead
    exact ⟨kept.trans same, dead'⟩
  · refine (rests.slots k mem).keeps (P := fun a => a.state = (w.slot k).state) placed record lasting
      rfl ?_
    intro m a b ok expire step placed' same
    exact (step.terminal placed' (still same) expire fun revive => revives (ok.revives revive)).trans
      same

/-! ## The tally of a group -/

/-- The counters of a group or a batch, and the jobs that were counted. -/
structure Tallied (id : String) (trace : List Passage) (w : World) (wfState : WorkflowState) :
    Prop where
  onTime : OnTime id trace w
  size : wfState.total = wfState.jobIDs.length
  spent : wfState.state = "running" → ∀ k, contribution id k trace ≠ 0 →
    k ∈ wfState.jobIDs ∧ (w.slot k).Terminal

theorem memberJobs_length {workflowID : String} {i : Nat} {steps : List WorkflowJobRequest} :
    (memberJobs workflowID i steps).length = steps.length := by
  induction steps generalizing i with
  | nil => rfl
  | cons step rest ih => simp [memberJobs, ih]

theorem Born.tallied {event : Event} {req : WorkflowRequest} {ids : List String}
    {done : List Passage} (born : Born lib w event t id req ids)
    (unborn : ∀ q ∈ done, q.before.value .workflows id = none ∧ q.after.value .workflows id = none)
    (missing : w.value .workflows id = none) (group : req.type ≠ "chain") :
    Tallied id (done ++ [⟨w, event, t⟩]) t
      { newWorkflowState lib id req (requestedJobs req) w.clock with jobIDs := ids } := by
  have record := born.steered.record
  have zero (k : String) : contribution id k (done ++ [⟨w, event, t⟩]) = 0 := by
    refine List.sum_eq_zero fun g mem => ?_
    obtain ⟨q, passed, rfl⟩ := List.mem_map.mp mem
    rcases List.mem_append.mp passed with earlier | last
    · obtain ⟨before, after⟩ := unborn q earlier
      exact gain_of_same (by simp [progress, before, after])
    · obtain rfl := List.mem_singleton.mp last
      obtain ⟨reply, call⟩ := born.call
      simp [gain, call, Event.reportsOn]
  refine ⟨⟨fun k => by simp [zero k], ?_, ?_⟩, ?_, fun _ k counted => absurd (zero k) counted⟩
  · rw [progress_of_value record]
    simp [zero, newWorkflowState]
  · intro q mem running
    obtain ⟨wfState, before, -⟩ := running
    rcases List.mem_append.mp mem with earlier | last
    · cases (unborn q earlier).1.symm.trans before
    · obtain rfl := List.mem_singleton.mp last
      cases missing.symm.trans before
  · have length : ids.length = (requestedJobs req).length := by
      rw [born.steered.length, initialJobs, if_neg group, memberJobs_length, requestedJobs,
        if_neg group]
    show ((requestedJobs req).length : Int) = ids.length
    rw [length]

/-- A step that leaves the record and the terminal jobs of a workflow keeps its tally. -/
theorem Tallied.same {done : List Passage} {event : Event} {wfState' : WorkflowState}
    (tallied : Tallied id done w wfState) (found : w.value .workflows id = some wfState)
    (found' : t.value .workflows id = some wfState')
    (counters : wfState'.completed + wfState'.failed = wfState.completed + wfState.failed)
    (jobIDs : wfState'.jobIDs = wfState.jobIDs) (total : wfState'.total = wfState.total)
    (unfinished : wfState.state = "running" → ¬ (wfState'.state = "completed" ∨ wfState'.state = "failed"))
    (spent : wfState'.state = "running" → wfState.state = "running" ∧ ∀ k ∈ wfState.jobIDs,
      (w.slot k).Terminal → (t.slot k).Terminal) :
    Tallied id (done ++ [⟨w, event, t⟩]) t wfState' := by
  have same : progress t id = progress w id := by
    rw [progress_of_value found', progress_of_value found, counters]
  have kept (k : String) : contribution id k (done ++ [⟨w, event, t⟩]) = contribution id k done := by
    rw [contribution_snoc, gain_of_same same, add_zero]
  refine ⟨⟨fun k => kept k ▸ tallied.onTime.once k, ?_, ?_⟩, ?_, ?_⟩
  · simp only [kept]
    rw [same, tallied.onTime.total, roster_of_value found, roster_of_value found', jobIDs]
  · intro q mem running finished
    rcases List.mem_append.mp mem with earlier | last
    · exact tallied.onTime.patient q earlier running finished
    · obtain rfl := List.mem_singleton.mp last
      obtain ⟨before, stored, running⟩ := running
      obtain ⟨after, stored', finished⟩ := finished
      cases found.symm.trans stored
      cases found'.symm.trans stored'
      exact absurd finished (unfinished running)
  · rw [total, jobIDs, tallied.size]
  · intro running k counted
    rw [kept] at counted
    obtain ⟨before, terminal⟩ := spent running
    obtain ⟨mem, gone⟩ := tallied.spent before k counted
    exact ⟨jobIDs ▸ mem, terminal k mem gone⟩

theorem Event.Reported.reportsOn {event : Event} {k : String} {result : Option RawMessage}
    {failed : Bool} (reported : event.Reported k result failed) (j : String) :
    event.reportsOn j = decide (k = j) := by
  cases reported with
  | ack => rfl
  | nack => rfl

/-- A sum of terms of at most one that reaches their number has no other term. -/
theorem eq_one_of_length_le_sum {α : Type} {xs : List α} {f : α → Int} (most : ∀ x ∈ xs, f x ≤ 1)
    (full : (xs.length : Int) ≤ (xs.map f).sum) : ∀ x ∈ xs, f x = 1 := by
  intro x mem
  by_contra other
  have less : (xs.map f).sum < (xs.map fun _ => (1 : Int)).sum :=
    List.sum_lt_sum f _ most ⟨x, mem, lt_of_le_of_ne (most x mem) other⟩
  rw [List.map_const', List.sum_replicate, Int.nsmul_eq_mul, mul_one] at less
  exact absurd full (not_le.mpr less)

/-- Counting one more element of a list without repetitions. -/
theorem sum_counting {xs : List String} {k : String} {f : String → Int} (nodup : xs.Nodup)
    (mem : k ∈ xs) : (xs.map fun j => f j + if k = j then 1 else 0).sum = (xs.map f).sum + 1 := by
  have split : (xs.map fun j => f j + if k = j then 1 else 0) =
      xs.map fun j => if j = k then f j + 1 else f j := by
    refine List.map_congr_left fun j _ => ?_
    by_cases same : j = k
    · simp [same]
    · simp [same, Ne.symm same]
  rw [split, List.sum_map_ite_eq, List.count_eq_one_of_mem nodup mem]
  simp only [one_nsmul]
  omega

/-- The report of a job that has not been counted counts it. -/
theorem Tallied.advanced {done : List Passage} {event : Event} {k : String}
    {result : Option RawMessage} {failed : Bool} {ids : List String}
    (tallied : Tallied id done w wfState) (linked : Linked w) (linked' : Linked t)
    (found : w.value .workflows id = some wfState) (group : wfState.type ≠ "chain")
    (reported : event.Reported k result failed)
    (effects : Effects lib w t k id wfState result failed ids) :
    Tallied id (done ++ [⟨w, event, t⟩]) t
      (notedWorkflow (settledWorkflow lib w.clock wfState (stepOf w k) result failed) ids) := by
  have noted : notedWorkflow (settledWorkflow lib w.clock wfState (stepOf w k) result failed) ids =
      settledWorkflow lib w.clock wfState (stepOf w k) result failed :=
    if_neg fun chain => group (settledWorkflow_type.symm.trans chain)
  have record := effects.record
  rw [noted] at record ⊢
  obtain ⟨state, time, shape⟩ := settledWorkflow_eq lib w.clock wfState (stepOf w k) result failed
  have uncounted : contribution id k done = 0 := by
    by_contra counted
    have gone := (tallied.spent effects.running k counted).2
    simp [Slot.Terminal, effects.active] at gone
  have counters : progress t id = progress w id + 1 := by
    rw [progress_of_value record, progress_of_value found, shape]
    simp only [countedWorkflow_completed, countedWorkflow_failed]
    cases failed <;> simp <;> omega
  have counts (j : String) : contribution id j (done ++ [⟨w, event, t⟩]) =
      contribution id j done + if k = j then 1 else 0 := by
    rw [contribution_snoc, gain, reported.reportsOn, counters]
    simp
  have jobIDs : (settledWorkflow lib w.clock wfState (stepOf w k) result failed).jobIDs =
      wfState.jobIDs := settledWorkflow_jobIDs
  have total : (settledWorkflow lib w.clock wfState (stepOf w k) result failed).total =
      wfState.total := by rw [shape]; exact countedWorkflow_total
  have nodup : wfState.jobIDs.Nodup := roster_of_value found ▸ linked.nodup id
  have settled : (t.slot k).Terminal := by
    unfold Slot.Terminal
    rw [effects.settled]
    cases failed <;> simp
  have once (j : String) : contribution id j (done ++ [⟨w, event, t⟩]) ≤ 1 := by
    rw [counts]
    by_cases same : k = j
    · rw [if_pos same, ← same, uncounted]
      exact le_rfl
    · rw [if_neg same, add_zero]
      exact tallied.onTime.once j
  have summed : progress t id =
      (wfState.jobIDs.map fun j => contribution id j (done ++ [⟨w, event, t⟩])).sum := by
    simp only [counts]
    rw [sum_counting nodup effects.listed, counters, tallied.onTime.total, roster_of_value found]
  -- a job that has been counted is over
  have gone (j : String) (counted : contribution id j (done ++ [⟨w, event, t⟩]) ≠ 0) :
      j ∈ wfState.jobIDs ∧ (t.slot j).Terminal := by
    by_cases same : j = k
    · exact same ▸ ⟨effects.listed, settled⟩
    · rw [counts, if_neg (Ne.symm same), add_zero] at counted
      obtain ⟨mem, terminal⟩ := tallied.spent effects.running j counted
      rw [← effects.others j mem same] at terminal
      exact ⟨mem, terminal⟩
  refine ⟨⟨once, ?_, ?_⟩, ?_, fun _ j counted => ?_⟩
  · rw [summed, roster_of_value record, jobIDs]
  · intro q mem running finished
    rcases List.mem_append.mp mem with earlier | last
    · exact tallied.onTime.patient q earlier running finished
    · obtain rfl := List.mem_singleton.mp last
      intro j member
      have full : (wfState.jobIDs.length : Int) ≤ progress t id := by
        obtain ⟨after, stored, finished⟩ := finished
        cases record.symm.trans stored
        rw [← tallied.size]
        by_contra more
        have counted : progress t id = (countedWorkflow wfState (stepOf w k) result failed).completed +
            (countedWorkflow wfState (stepOf w k) result failed).failed := by
          rw [progress_of_value record, shape]
        rw [settledWorkflow_group group, countedWorkflow_total, ← counted, if_neg more] at finished
        have running : (countedWorkflow wfState (stepOf w k) result failed).state = "running" := by
          rw [← effects.running]
          cases result <;> cases failed <;> rfl
        rw [running] at finished
        simp at finished
      have mem : j ∈ wfState.jobIDs := by
        rw [← jobIDs]
        exact (linked'.mem_jobIDs record).mpr member
      have one := eq_one_of_length_le_sum (fun i _ => once i) (summed ▸ full) j mem
      exact (gone j (by simp [one])).2
  · rw [total, jobIDs, tallied.size]
  · rw [jobIDs]
    exact gone j counted

/-! ## Runs -/

theorem Tallied.rests {done : List Passage} {event : Event} (tallied : Tallied id done w wfState)
    (sound : Sound w) (linked : Linked w) (found : w.value .workflows id = some wfState)
    (rests : Rests lib id wfState w event t) (spared : ¬ RevivesMember id ⟨w, event, t⟩) :
    Tallied id (done ++ [⟨w, event, t⟩]) t wfState := by
  refine tallied.same found rests.record rfl rfl rfl (fun running finished => ?_)
    fun running => ⟨running, fun k mem terminal => ?_⟩
  · simp [running] at finished
  · have reports := ((linked.mem_jobIDs found).mp mem).reportsTo
      (linked.known id wfState found).2 found running
    have same := rests.terminal sound linked found mem terminal fun reply retry => by
      by_contra dead
      exact spared ⟨k, reply, wfState, retry, dead, reports⟩
    unfold Slot.Terminal
    rw [same]
    exact terminal

/-- Unless a discarded job of a running group or batch is revived, each job is counted
at most once, and the workflow finishes only when all of its jobs are over. -/
theorem group_on_time {clock : Int} {trace : List Passage}
    (run : Run lib (World.start clock) trace w)
    (unforged : ∀ p ∈ trace, p.event.Meets Call.Unforged)
    (found : w.value .workflows id = some wfState) (group : wfState.type ≠ "chain")
    (spared : ∀ p ∈ trace, ¬ RevivesMember id p) : OnTime id trace w := by
  have tallied : wfState.type ≠ "chain" → Tallied id trace w wfState := by
    refine run.along_course (I := fun done v wfState => wfState.type ≠ "chain" →
      Tallied id done v wfState) unforged found ?_ ?_
    · intro done p req ids here unborn born group
      refine born.tallied unborn ?_ group
      cases missing : p.before.value .workflows id with
      | none => rfl
      | some wfState => exact absurd (here.linked.known id wfState missing).1 born.unused
    · intro done p wfState wfState' here found found' course tallied group
      cases course with
      | rests rests =>
        cases found'.symm.trans rests.record
        exact (tallied group).rests here.sound here.linked found rests (spared p here.mem)
      | advances advanced =>
        have effects := advanced.effects here.sound here.linked
        cases found'.symm.trans effects.record
        have kind : wfState.type ≠ "chain" := by
          rintro chain
          refine group ?_
          unfold notedWorkflow
          split
          · exact settledWorkflow_type.trans chain
          · exact settledWorkflow_type.trans chain
        exact (tallied kind).advanced here.linked here.linked' found kind advanced.reported effects
      | stops _ stopped =>
        cases found'.symm.trans stopped.after
        refine (tallied group).same found found' rfl rfl rfl (fun _ finished => ?_) fun running => ?_
        · simp [finishedWorkflow] at finished
        · simp [finishedWorkflow] at running
  exact (tallied group).onTime

/-! ## A group of two jobs -/

/-- The first job goes to the dead letters when it fails. -/
def pair : WorkflowRequest where
  name := "pair"
  type := "group"
  jobs :=
    [{ name := "first", type := "mail",
       options := some { retry := some { maxAttempts := 1, onExhaustion := "dead_letter" } } },
     { name := "second", type := "mail" }]

/-- The ids of the group and its jobs in a run that creates it first. -/
def pairID (n : Nat) : String := "00000000-0000-7000-8000-00000000000" ++ toString n

/-- The first job is discarded, and the second one ends. -/
def failingOnce : List Cue :=
  [.call (.createWorkflow pair), .call (.fetch ["default"] 2 "worker-1" 0),
    .call (.nack (pairID 1) none false), .call (.ack (pairID 2) none)]

/-- The first job is discarded, revived and ends, while the second one is still active. -/
def failingRevived : List Cue :=
  [.call (.createWorkflow pair), .call (.fetch ["default"] 2 "worker-1" 0),
    .call (.nack (pairID 1) none false), .call (.retryDeadLetter (pairID 1)),
    .call (.fetch ["default"] 1 "worker-2" 0), .call (.ack (pairID 1) none)]

/-- What a played run says about the group and its first job. -/
def account (r : List Passage × World) : Option (String × String × Int) :=
  (r.2.value .workflows (pairID 0)).map fun wfState =>
    (wfState.type, wfState.state, contribution (pairID 0) (pairID 1) r.1)

theorem group_on_time_failing : ∃ trace w,
    play (World.start (Sample.instant 0)) failingOnce = some (trace, w) ∧
    Finished w (pairID 0) ∧ OnTime (pairID 0) trace w := by
  have plays : (play (World.start (Sample.instant 0)) failingOnce).isSome := by decide
  obtain ⟨⟨trace, w⟩, played⟩ := Option.isSome_iff_exists.mp plays
  have facts : (play (World.start (Sample.instant 0)) failingOnce).bind account =
      some ("group", "failed", 1) := by decide
  rw [played, Option.bind_some] at facts
  obtain ⟨wfState, found, same⟩ := Option.map_eq_some_iff.mp facts
  obtain ⟨type, state, -⟩ := by simpa using same
  have unforged : ∀ cue ∈ failingOnce, cue.Meets Call.Unforged := by
    simp [failingOnce, Cue.Meets, Call.Unforged]
  have spared : ∀ cue ∈ failingOnce, cue.Meets fun call => ∀ k, call ≠ .retryDeadLetter k := by
    simp [failingOnce, Cue.Meets]
  refine ⟨trace, w, played, ⟨wfState, found, .inr state⟩, group_on_time (run_of_play played)
    (meets_of_play played unforged) found (by simp [type]) ?_⟩
  rintro p mem ⟨k, reply, _, retry, -⟩
  have kind := meets_of_play played spared p mem
  rw [retry] at kind
  exact kind k rfl

/-- A revived job can be counted twice. -/
theorem not_group_on_time : ¬ ∀ (lib : Externals) (clock : Int) (trace : List Passage) (w : World)
    (id : String) (wfState : WorkflowState), Run lib (World.start clock) trace w →
    (∀ p ∈ trace, p.event.Meets Call.Unforged) → w.value .workflows id = some wfState →
    wfState.type = "group" ∨ wfState.type = "batch" → OnTime id trace w := by
  intro onTime
  have plays : (play (World.start (Sample.instant 0)) failingRevived).isSome := by decide
  obtain ⟨⟨trace, w⟩, played⟩ := Option.isSome_iff_exists.mp plays
  have facts : (play (World.start (Sample.instant 0)) failingRevived).bind account =
      some ("group", "failed", 2) := by decide
  rw [played, Option.bind_some] at facts
  obtain ⟨wfState, found, same⟩ := Option.map_eq_some_iff.mp facts
  obtain ⟨type, -, counted⟩ := by simpa using same
  have unforged : ∀ cue ∈ failingRevived, cue.Meets Call.Unforged := by
    simp [failingRevived, Cue.Meets, Call.Unforged]
  have once := (onTime sample _ trace w (pairID 0) wfState (run_of_play played)
    (meets_of_play played unforged) found (.inl type)).once (pairID 1)
  omega

end OjsNats.Lifecycle
