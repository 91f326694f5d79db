import OjsNats.Grpc.Convert
import OjsNats.Lifecycle.Membership

/-!
# Workflows created over gRPC

The conversion files the steps of a request as the steps of a workflow without
a type, of which `CreateWorkflow` reads the jobs.
-/

namespace OjsNats.Grpc

open Core Nats Effect Semantics Program Lifecycle

variable {lib : Externals} {w u : World} {req : CreateWorkflowRequest} {reply : Result Workflow}

/-- `Server.CreateWorkflow` up to its answer. -/
def createWorkflow (lib : Externals) (req : CreateWorkflowRequest) : Prog (Result Workflow) :=
  Nats.createWorkflow lib (protoToWorkflowRequest req)

/-- The job is one for the step of that number. -/
def StepJob (req : CreateWorkflowRequest) (id : String) (i : Nat) (rec : JobState) : Prop :=
  rec.workflowID = id ∧ rec.workflowStep = i ∧
    ∃ step, req.steps[i]? = some step ∧ rec.type = step.type ∧ rec.args = marshalArgs step.args

/-- What is expected of a workflow created by a request in `w`, with `u` left behind. -/
structure RunsAllSteps (lib : Externals) (req : CreateWorkflowRequest) (w u : World)
    (wf : Workflow) : Prop where
  total : wf.stepsTotal = some (req.steps.length : Int) ∨
    wf.jobsTotal = some (req.steps.length : Int)
  pushes : ∃ j, (w.slot j).record = none ∧ Member u wf.id j
  completes : ∀ trace t, Run lib u trace t →
    (∀ j, Member t wf.id j → (t.slot j).state = some .completed) →
    (∀ i < req.steps.length, ∃! j, ∃ rec, (t.slot j).record = some rec ∧ StepJob req wf.id i rec) ∧
    ∃ wfState, t.value .workflows wf.id = some wfState ∧ wfState.state = "completed" ∧
      wfState.completed = req.steps.length

/-- The workflow has no jobs. -/
theorem wp_createWorkflow : serves.wp (createWorkflow lib req) (fun reply u =>
    ∃ wf, reply = .ok wf ∧ wf.stepsTotal = none ∧ wf.jobsTotal = some 0 ∧
      ∀ j, u.slot j = w.slot j) w := by
  have untyped : ¬ "" = "chain" := by decide
  simp only [createWorkflow, Nats.createWorkflow, protoToWorkflowRequest, untyped, if_false,
    pushMembers, bind_eq, wp_bind, wp_timeNow, wp_newUUIDv7]
  intro id _ _
  refine wp_putWorkflow.mpr (wp_pure.mpr (wp_bind.mpr (wp_putWorkflow.mpr (wp_pure.mpr ?_))))
  exact ⟨_, rfl, rfl, rfl, fun j => by simp [Slot.write]⟩

/-- No request with steps gives a workflow that runs them. -/
theorem createWorkflow_runs_no_step (steps : req.steps ≠ [])
    (run : serves.Exec (createWorkflow lib req) w reply u) :
    ∃ wf, reply = .ok wf ∧ (∀ j, u.slot j = w.slot j) ∧ ¬ RunsAllSteps lib req w u wf := by
  obtain ⟨wf, ok, untyped, empty, same⟩ := wp_createWorkflow reply u run
  refine ⟨wf, ok, same, fun runs => ?_⟩
  have positive := List.length_pos_iff.mpr steps
  rcases runs.total with total | total
  · rw [untyped] at total
    cases total
  · rw [empty] at total
    have := Option.some.inj total
    omega

/-- One step, and no job. -/
def oneStep : CreateWorkflowRequest := { name := "mails", steps := [{ id := "1", type := "mail" }] }

theorem createWorkflow_runs_no_step_one : ∃ reply u, serves.Exec (createWorkflow sample oneStep)
    (World.start (Sample.instant 0)) reply u ∧ ∃ wf, reply = .ok wf ∧
      ¬ RunsAllSteps sample oneStep (World.start (Sample.instant 0)) u wf := by
  obtain ⟨reply, u, run⟩ := exists_exec serves_answers (createWorkflow sample oneStep)
    (World.start (Sample.instant 0))
  obtain ⟨wf, ok, -, fails⟩ := createWorkflow_runs_no_step (by simp [oneStep]) run
  exact ⟨reply, u, run, wf, ok, fails⟩

theorem not_createWorkflow_runs : ¬ ∀ (lib : Externals) (w u : World) (req : CreateWorkflowRequest)
    (reply : Result Workflow), Reachable lib w → req.steps ≠ [] →
    serves.Exec (createWorkflow lib req) w reply u →
    ∃ wf, reply = .ok wf ∧ RunsAllSteps lib req w u wf := by
  intro runs
  obtain ⟨reply, u, run⟩ := exists_exec serves_answers (createWorkflow sample oneStep)
    (World.start (Sample.instant 0))
  obtain ⟨wf, ok, promised⟩ := runs sample _ u oneStep reply (.start (by decide))
    (by simp [oneStep]) run
  obtain ⟨wf', ok', -, empty, same⟩ := wp_createWorkflow reply u run
  obtain ⟨j, absent, rec, stored, -⟩ := promised.pushes
  rw [same, absent] at stored
  cases stored

end OjsNats.Grpc
