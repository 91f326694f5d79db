import OjsNats.Lifecycle.Batches

/-!
# What becomes of a workflow

From any moment of a run on, the record of a workflow counts the reports on its jobs as long
as it runs.  It stops running once and for good, by a report or by its cancellation.
-/

namespace OjsNats.Nats

/-- What the creation of a workflow fixes. -/
def WorkflowState.plan (r : WorkflowState) : WorkflowState :=
  { r with
    state := "", completed := 0, failed := 0, completedAt := "", jobIDs := [], results := [] }

end OjsNats.Nats

namespace OjsNats.Lifecycle

open Core Nats Effect Semantics Program Relation

variable {lib : Externals} {w t u : World} {id k : String} {r v x : WorkflowState} {event : Event}
  {done rest more : List Passage}

/-- The workflow runs before the step. -/
def runs (id : String) (p : Passage) : Bool :=
  (p.before.value .workflows id).any fun r => r.state = "running"

/-- The reports that ended jobs of the workflow while it ran. -/
def timelyReports (id : String) (trace : List Passage) : List (String × Bool) :=
  reports id (trace.filter (runs id))

/-- The step ends the workflow, and leaves it with this record. -/
inductive Ends (id : String) (v : WorkflowState) (p : Passage) : Prop
  | cancelled {reply : Reply} : p.event = .call (.cancelWorkflow id) reply →
      v.state = "cancelled" → Ends id v p
  | reported {k : String} {failed : Bool} : report? id p = some (k, failed) →
      v.total ≤ v.completed + v.failed ∨ v.type = "chain" ∧ failed = true →
      v.state = (if 0 < v.failed then "failed" else "completed") → Ends id v p

/-- What becomes of a workflow's record in some steps of a run. -/
structure Develops (id : String) (trace : List Passage) (r v : WorkflowState) : Prop where
  plan : v.plan = r.plan
  jobIDs : r.jobIDs <+: v.jobIDs
  completed : v.completed = r.completed + (timelyReports id trace).countP fun report => !report.2
  failed : v.failed = r.failed + (timelyReports id trace).countP fun report => report.2
  frozen : r.state ≠ "running" → v = r
  verdict : r.state = "running" → v.state = "running" ∨ ∃ p ∈ trace, Ends id v p

theorem timelyReports_append : timelyReports id (rest ++ more) =
    timelyReports id rest ++ timelyReports id more := by
  simp [timelyReports, reports]

theorem Ends.still {p : Passage} (ends : Ends id v p) :
    v.state ≠ "running" := by
  cases ends with
  | cancelled _ state => simp [state]
  | reported _ _ state =>
    rw [state]
    split <;> simp

namespace Develops

theorem refl (r : WorkflowState) : Develops id [] r r where
  plan := rfl
  jobIDs := List.prefix_rfl
  completed := by simp [timelyReports, reports]
  failed := by simp [timelyReports, reports]
  frozen := fun _ => rfl
  verdict := .inl

theorem trans (first : Develops id rest r v) (second : Develops id more v x) :
    Develops id (rest ++ more) r x where
  plan := second.plan.trans first.plan
  jobIDs := first.jobIDs.trans second.jobIDs
  completed := by
    rw [second.completed, first.completed, timelyReports_append, List.countP_append, Nat.cast_add,
      Int.add_assoc]
  failed := by
    rw [second.failed, first.failed, timelyReports_append, List.countP_append, Nat.cast_add,
      Int.add_assoc]
  frozen := by
    intro still
    obtain rfl := first.frozen still
    exact second.frozen still
  verdict := by
    intro running
    rcases first.verdict running with running | ⟨p, mem, ends⟩
    · exact (second.verdict running).imp_right fun ⟨p, mem, ends⟩ =>
        ⟨p, List.mem_append_right _ mem, ends⟩
    · obtain rfl := second.frozen ends.still
      exact .inr ⟨p, List.mem_append_left _ mem, ends⟩

end Develops

/-! ## One step -/

/-- No failure is taken back, a chain does not run on after one, and there are four states. -/
structure Tidy (r : WorkflowState) : Prop where
  failed : 0 ≤ r.failed
  chain : r.type = "chain" → r.state = "running" → r.failed = 0
  states : r.state = "running" ∨ r.state = "completed" ∨ r.state = "failed" ∨ r.state = "cancelled"

/-- A step at which a running workflow rests is no report on a job of it. -/
theorem Rests.unreported (rests : Rests lib id r w event t) (sound : Sound w) (linked : Linked w)
    (found : w.value .workflows id = some r) (step : Step lib w event t)
    (running : r.state = "running") : report? id ⟨w, event, t⟩ = none := by
  have listed {k : String} (member : belongs w id k = true) : k ∈ r.jobIDs :=
    (linked.mem_jobIDs found).mpr (belongs_iff.mp member)
  by_contra reported
  unfold report? at reported
  split at reported
  next k result reply called =>
    cases show event = _ from called
    obtain ⟨-, -, apart⟩ := rests.acked k result reply rfl
    exact reported (if_neg fun member => apart running (listed member))
  next k jobErr requeue reply called =>
    cases show event = _ from called
    refine reported (if_neg fun ⟨member, discarded⟩ => ?_)
    obtain ⟨stored, record, owner⟩ := belongs_iff.mp member
    have lasting := (linked.owned k stored record (owner ▸ (linked.known id r found).2)).1
    refine (rests.slots k (listed member)).keeps (P := fun a => a.state ≠ some .discarded)
      (sound.placed k) record lasting (by simp [nacked_active step sound]) ?_ discarded
    intro m a b ok expire step _ before
    exact step.not_discarded expire (ok.unsettled running).1 before
  · exact reported rfl

theorem timelyReports_of_report {report : Option (String × Bool)}
    (found : w.value .workflows id = some r) (reported : report? id ⟨w, event, t⟩ = report) :
    timelyReports id [⟨w, event, t⟩] = if r.state = "running" then report.toList else [] := by
  by_cases running : r.state = "running" <;>
    cases report <;> simp [timelyReports, reports, runs, found, running, reported]

/-- A step that leaves the record and reports nothing. -/
theorem Develops.same (found : w.value .workflows id = some r)
    (silent : r.state = "running" → report? id ⟨w, event, t⟩ = none) :
    Develops id [⟨w, event, t⟩] r r := by
  have none : timelyReports id [⟨w, event, t⟩] = [] := by
    rw [timelyReports_of_report found rfl]
    split
    · rw [silent ‹_›]
      rfl
    · rfl
  exact
    { plan := rfl
      jobIDs := List.prefix_rfl
      completed := by simp [none]
      failed := by simp [none]
      frozen := fun _ => rfl
      verdict := .inl }

theorem countedWorkflow_plan {stepIdx : Int} {result : Option RawMessage} {failed : Bool} :
    (countedWorkflow r stepIdx result failed).plan = r.plan := by
  cases result <;> cases failed <;> rfl

theorem countedWorkflow_state {stepIdx : Int} {result : Option RawMessage} {failed : Bool} :
    (countedWorkflow r stepIdx result failed).state = r.state := by
  cases result <;> cases failed <;> rfl

theorem notedWorkflow_eq (r : WorkflowState) (ids : List String) : ∃ jobIDs,
    notedWorkflow r ids = { r with jobIDs := jobIDs } ∧ r.jobIDs <+: jobIDs := by
  unfold notedWorkflow
  split
  · exact ⟨_, rfl, List.prefix_append _ _⟩
  · exact ⟨_, rfl, List.prefix_rfl⟩

/-- A report leaves the workflow running, or is the one that decides it. -/
theorem settledWorkflow_verdict (tidy : Tidy r) (running : r.state = "running") {now stepIdx : Int}
    {result : Option RawMessage} {failed : Bool}
    (settled : settledWorkflow lib now r stepIdx result failed = v) : v.state = "running" ∨
      (v.total ≤ v.completed + v.failed ∨ v.type = "chain" ∧ failed = true) ∧
        v.state = if 0 < v.failed then "failed" else "completed" := by
  subst settled
  by_cases chain : r.type = "chain"
  · have unfailed := tidy.chain chain running
    rw [settledWorkflow_chain chain]
    split
    next failure =>
      refine .inr ⟨.inr ⟨countedWorkflow_type.trans chain, failure⟩, (if_pos ?_).symm⟩
      show 0 < (countedWorkflow r stepIdx result failed).failed
      simp [failure, unfailed]
    next success =>
      split
      next full =>
        refine .inr ⟨.inl full, (if_neg ?_).symm⟩
        show ¬ 0 < (countedWorkflow r stepIdx result failed).failed
        simp [success, unfailed]
      · exact .inl (countedWorkflow_state.trans running)
  · rw [settledWorkflow_group chain]
    split
    next full => exact .inr ⟨.inl full, rfl⟩
    · exact .inl (countedWorkflow_state.trans running)

/-- A report counts, and may end the workflow. -/
theorem Advanced.develops {result : Option RawMessage} {failed : Bool} {ids : List String}
    (advanced : Advanced lib w event t k id r result failed ids) (sound : Sound w)
    (linked : Linked w) (found : w.value .workflows id = some r) (tidy : Tidy r) :
    Develops id [⟨w, event, t⟩] r
      (notedWorkflow (settledWorkflow lib w.clock r (stepOf w k) result failed) ids) := by
  have effects := advanced.effects sound linked
  have report := advanced.report effects
  have one : timelyReports id [⟨w, event, t⟩] = [(k, failed)] := by
    rw [timelyReports_of_report found report, if_pos effects.running]
    rfl
  have verdict := settledWorkflow_verdict tidy effects.running
    (rfl : settledWorkflow lib w.clock r (stepOf w k) result failed = _)
  obtain ⟨state, time, shape⟩ := settledWorkflow_eq lib w.clock r (stepOf w k) result failed
  obtain ⟨jobIDs, noted, longer⟩ :=
    notedWorkflow_eq (settledWorkflow lib w.clock r (stepOf w k) result failed) ids
  rw [settledWorkflow_jobIDs] at longer
  rw [noted]
  exact
    { plan := by
        rw [shape]
        exact countedWorkflow_plan
      jobIDs := longer
      completed := by
        rw [one, shape]
        cases failed <;> simp
      failed := by
        rw [one, shape]
        cases failed <;> simp
      frozen := fun still => absurd effects.running still
      verdict := fun _ => verdict.imp_right fun ⟨enough, decided⟩ =>
        ⟨_, List.mem_singleton_self _, .reported report enough decided⟩ }

theorem Stopped.develops {reply : Reply} (called : event = .call (.cancelWorkflow id) reply)
    (stopped : Stopped lib w t id r) (found : w.value .workflows id = some r) (tidy : Tidy r) :
    Develops id [⟨w, event, t⟩] r (finishedWorkflow lib r "cancelled" w.clock) := by
  subst called
  have running : r.state = "running" := tidy.states.resolve_right stopped.live
  have none : timelyReports id [⟨w, .call (.cancelWorkflow id) reply, t⟩] = [] := by
    rw [timelyReports_of_report found rfl, if_pos running]
    rfl
  exact
    { plan := rfl
      jobIDs := List.prefix_rfl
      completed := by simp [none, finishedWorkflow]
      failed := by simp [none, finishedWorkflow]
      frozen := fun still => absurd running still
      verdict := fun _ => .inr ⟨_, List.mem_singleton_self _, .cancelled rfl rfl⟩ }

theorem Course.develops (course : Course lib id r w event t) (sound : Sound w) (linked : Linked w)
    (found : w.value .workflows id = some r) (step : Step lib w event t) (tidy : Tidy r) :
    ∃ v, t.value .workflows id = some v ∧ Develops id [⟨w, event, t⟩] r v := by
  cases course with
  | rests rests => exact ⟨r, rests.record, .same found (rests.unreported sound linked found step)⟩
  | advances advanced =>
    exact ⟨_, (advanced.effects sound linked).record, advanced.develops sound linked found tidy⟩
  | stops called stopped => exact ⟨_, stopped.after, stopped.develops called found tidy⟩

/-! ## Runs -/

theorem settledWorkflow_tidy (tidy : Tidy r) (running : r.state = "running") {now stepIdx : Int}
    {result : Option RawMessage} {failed : Bool} :
    Tidy (settledWorkflow lib now r stepIdx result failed) := by
  obtain ⟨state, time, shape⟩ := settledWorkflow_eq lib now r stepIdx result failed
  refine ⟨?_, fun chain still => ?_, ?_⟩
  · have nonneg := tidy.failed
    have failures : (settledWorkflow lib now r stepIdx result failed).failed =
        r.failed + if failed then 1 else 0 := by
      rw [shape]
      exact countedWorkflow_failed
    split at failures <;> omega
  · rw [settledWorkflow_type] at chain
    rw [settledWorkflow_chain chain] at still
    split at still
    · simp [finishedWorkflow] at still
    next success =>
      rw [shape]
      show (countedWorkflow r stepIdx result failed).failed = 0
      rw [countedWorkflow_failed, tidy.chain chain running, if_neg success, Int.add_zero]
  · rcases settledWorkflow_verdict tidy running rfl with still | ⟨-, decided⟩
    · exact .inl still
    · rw [decided]
      split <;> simp

theorem Course.tidy (course : Course lib id r w event t) (sound : Sound w) (linked : Linked w)
    (after : t.value .workflows id = some v) (tidy : Tidy r) : Tidy v := by
  cases course with
  | rests rests =>
    cases after.symm.trans rests.record
    exact tidy
  | @advances k result failed ids advanced =>
    have effects := advanced.effects sound linked
    obtain ⟨jobIDs, noted, -⟩ :=
      notedWorkflow_eq (settledWorkflow lib w.clock r (stepOf w k) result failed) ids
    cases after.symm.trans (effects.record.trans (congrArg some noted))
    obtain ⟨nonneg, chain, states⟩ :
        Tidy (settledWorkflow lib w.clock r (stepOf w k) result failed) :=
      settledWorkflow_tidy tidy effects.running
    exact ⟨nonneg, chain, states⟩
  | stops called stopped =>
    cases after.symm.trans stopped.after
    exact ⟨tidy.failed, by simp [finishedWorkflow], by simp [finishedWorkflow]⟩

theorem Run.tidy {clock : Int} (run : Run lib (World.start clock) done w)
    (unforged : ∀ p ∈ done, p.event.Meets Call.Unforged)
    (found : w.value .workflows id = some r) : Tidy r :=
  run.along_course (I := fun _ _ r => Tidy r) unforged found
    (fun _ _ _ _ _ _ _ => ⟨le_rfl, fun _ _ => rfl, .inl rfl⟩)
    fun _ _ _ _ here _ after course tidy => course.tidy here.sound here.linked after tidy

@[simp] theorem wp_getWorkflow {Q : Result Workflow → World → Prop}
    (found : w.value .workflows id = some r) :
    serves.wp (getWorkflow id) Q w ↔ Q (.ok (workflowOfState r)) w := by
  obtain ⟨rev, lookup⟩ := World.lookup_of_value w found
  simp only [getWorkflow, bind_eq, wp_bind, wp_get .workflows, lookup, pure_eq, wp_pure]

/-- From any moment of a run on a workflow keeps its plan and lists its jobs, counts each report
that ends one while it runs, and ends once, by such a report or by its cancellation; after that
its record and what `GetWorkflow` says of it are the same for ever. -/
theorem workflow_develops {clock : Int} (before : Run lib (World.start clock) done w)
    (run : Run lib w rest t) (unforged : ∀ p ∈ done ++ rest, p.event.Meets Call.Unforged)
    (found : w.value .workflows id = some r) : ∃ v, t.value .workflows id = some v ∧
      serves.wp (getWorkflow id) (fun reply _ => reply = .ok (workflowOfState v)) t ∧
      Develops id rest r v := by
  suffices develops : ∃ v, t.value .workflows id = some v ∧ Develops id rest r v by
    obtain ⟨v, after, develops⟩ := develops
    exact ⟨v, after, by simp [after], develops⟩
  induction run generalizing done r with
  | nil => exact ⟨r, found, .refl r⟩
  | @cons w m t event rest step _ ih =>
    have earlier (p : Passage) (mem : p ∈ done) : p.event.Meets Call.Unforged :=
      unforged p (List.mem_append_left _ mem)
    have sound : Sound w := before.sound (.start clock)
    have linked : Linked w := before.linked earlier
    have course := step.course sound linked (unforged ⟨w, event, m⟩ (by simp)) found
    obtain ⟨v, found', first⟩ :=
      course.develops sound linked found step (before.tidy earlier found)
    obtain ⟨x, found'', second⟩ := ih (before.snoc step) (by simpa using unforged) found'
    exact ⟨x, found'', first.trans second⟩

/-- The first job of the pair is discarded, the second one ends, and the first is revived. -/
def revivedLate : List Cue :=
  [.call (.nack (pairID 1) none false), .call (.ack (pairID 2) none),
    .call (.retryDeadLetter (pairID 1)), .call (.fetch ["default"] 1 "worker-2" 0),
    .call (.ack (pairID 1) none), .call (.cancelWorkflow (pairID 0))]

theorem workflow_develops_revivedLate : ∃ done w rest t r v,
    play (World.start (Sample.instant 0)) (failingOnce.take 2) = some (done, w) ∧
    play w revivedLate = some (rest, t) ∧ w.value .workflows (pairID 0) = some r ∧
    r.state = "running" ∧ t.value .workflows (pairID 0) = some v ∧ v.state = "failed" ∧
    v.completed = 1 ∧ Develops (pairID 0) rest r v := by
  have facts : ((play (World.start (Sample.instant 0)) (failingOnce.take 2)).bind fun first =>
      (play first.2 revivedLate).bind fun second =>
        (first.2.value .workflows (pairID 0)).bind fun r =>
          (second.2.value .workflows (pairID 0)).map fun v => (r.state, v.state, v.completed)) =
      some ("running", "failed", 1) := by decide
  obtain ⟨⟨done, w⟩, plays, facts⟩ := Option.bind_eq_some_iff.mp facts
  obtain ⟨⟨rest, t⟩, plays', facts⟩ := Option.bind_eq_some_iff.mp facts
  obtain ⟨r, found, facts⟩ := Option.bind_eq_some_iff.mp facts
  obtain ⟨v, found', facts⟩ := Option.map_eq_some_iff.mp facts
  obtain ⟨running, failed, completed⟩ := by simpa using facts
  have unforged : ∀ cue ∈ failingOnce.take 2, cue.Meets Call.Unforged := by
    simp [failingOnce, Cue.Meets, Call.Unforged]
  have unforged' : ∀ cue ∈ revivedLate, cue.Meets Call.Unforged := by
    simp [revivedLate, Cue.Meets, Call.Unforged]
  obtain ⟨x, after, -, develops⟩ := workflow_develops (run_of_play plays) (run_of_play plays')
    (List.forall_mem_append.mpr ⟨meets_of_play plays unforged, meets_of_play plays' unforged'⟩)
    found
  obtain rfl : v = x := Option.some.inj (found'.symm.trans after)
  exact ⟨done, w, rest, t, r, v, plays, plays', found, running, after, failed, completed, develops⟩

end OjsNats.Lifecycle
