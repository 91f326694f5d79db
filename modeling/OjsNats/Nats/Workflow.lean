import OjsNats.Nats.Enqueue

/-!
# Workflows

`workflow.go`: chains push one step at a time, groups and batches push all
their jobs at once and count the finished ones.
-/

namespace OjsNats.Nats

open Core Effect

variable (lib : Externals)

/-- The queue of a workflow step or a callback. -/
def optionsQueue (options : Option EnqueueOptions) : String :=
  match options with
  | some o => if o.queue = "" then "default" else o.queue
  | none => "default"

def workflowStepToJob (step : WorkflowJobRequest) (workflowID : String) (stepIdx : Int) : Job :=
  let job : Job :=
    { type := step.type
      args := step.args
      queue := optionsQueue step.options
      workflowID := workflowID
      workflowStep := stepIdx }
  match step.options with
  | none => job
  | some options =>
      match options.retryPolicy with
      | some policy => { job with retry := some policy, maxAttempts := some policy.maxAttempts }
      | none =>
          match options.retry with
          | some policy => { job with retry := some policy, maxAttempts := some policy.maxAttempts }
          | none => job

/-- Store a workflow record; the code ignores the error. -/
def putWorkflow (wfState : WorkflowState) (id : String) : Prog Unit := do
  let _ ← Store.put .workflows id wfState
  return ()

/-! ## Advancing -/

def fireCallback (cb : WorkflowCallback) : Prog Unit := do
  let _ ← push lib { type := cb.type, args := cb.args, queue := optionsQueue cb.options }
  return ()

def fireIf (condition : Bool) (cb : Option WorkflowCallback) : Prog Unit :=
  match cb with
  | some cb => if condition then fireCallback lib cb else return ()
  | none => return ()

def fireBatchCallbacks (wfState : WorkflowState) (hasFailure : Bool) : Prog Unit :=
  match wfState.callbacks with
  | none => return ()
  | some callbacks => do
      fireIf lib true callbacks.onComplete
      fireIf lib (!hasFailure) callbacks.onSuccess
      fireIf lib hasFailure callbacks.onFailure

/-- The results stored for the steps before `stepIdx`, in step order. -/
def parentResults (wfState : WorkflowState) (stepIdx : Int) : List RawMessage :=
  (List.range stepIdx.toNat).filterMap fun i => wfState.results.lookup (intToStr i)

def enqueueChainStep (workflowID : String) (wfState : WorkflowState) (stepIdx : Int) :
    Prog (Result Unit) := do
  if (wfState.jobDefs.length : Int) ≤ stepIdx then
    return .ok ()
  else if stepIdx < 0 then
    return .error .panicked
  else
    match wfState.jobDefs[stepIdx.toNat]? with
    | none => return .ok ()
    | some step =>
        let job := { workflowStepToJob step workflowID stepIdx with
          parentResults := parentResults wfState stepIdx }
        match ← push lib job with
        | .error e => return .error e
        | .ok created =>
            putWorkflow { wfState with jobIDs := wfState.jobIDs ++ [created.id] } workflowID
            return .ok ()

def setResult (results : List (String × RawMessage)) (key : String) (result : RawMessage) :
    List (String × RawMessage) :=
  results.filter (fun entry => entry.1 ≠ key) ++ [(key, result)]

/-- The workflow record after one more report, before its end is considered. -/
def countedWorkflow (wfState : WorkflowState) (stepIdx : Int) (result : Option RawMessage)
    (failed : Bool) : WorkflowState :=
  let wfState :=
    match result with
    | some r => { wfState with results := setResult wfState.results (intToStr stepIdx) r }
    | none => wfState
  if failed then { wfState with failed := wfState.failed + 1 }
  else { wfState with completed := wfState.completed + 1 }

def finishedWorkflow (wfState : WorkflowState) (state : String) (now : Int) : WorkflowState :=
  { wfState with state := state, completedAt := lib.formatTime now }

/-- `AdvanceWorkflow` on a chain, from the counted record on. -/
def advanceChain (workflowID : String) (wfState : WorkflowState) (stepIdx : Int) (failed : Bool) :
    Prog (Result Unit) := do
  if failed then
    let now ← timeNow
    putWorkflow (finishedWorkflow lib wfState "failed" now) workflowID
    return .ok ()
  else if wfState.total ≤ wfState.completed + wfState.failed then
    let now ← timeNow
    putWorkflow (finishedWorkflow lib wfState "completed" now) workflowID
    return .ok ()
  else
    putWorkflow wfState workflowID
    enqueueChainStep lib workflowID wfState (stepIdx + 1)

/-- `AdvanceWorkflow` on a group or a batch, from the counted record on. -/
def advanceGroup (workflowID : String) (wfState : WorkflowState) : Prog (Result Unit) := do
  putWorkflow wfState workflowID
  if wfState.total ≤ wfState.completed + wfState.failed then
    let now ← timeNow
    let finalState := if 0 < wfState.failed then "failed" else "completed"
    let wfState := finishedWorkflow lib wfState finalState now
    putWorkflow wfState workflowID
    if wfState.type = "batch" then
      fireBatchCallbacks lib wfState (decide (0 < wfState.failed))
      return .ok ()
    else
      return .ok ()
  else
    return .ok ()

/-- `AdvanceWorkflow` -/
def advanceWorkflowState (workflowID jobID : String) (result : Option RawMessage)
    (failed : Bool) : Prog (Result Unit) := do
  let stored : Except CallError (WorkflowState × Nat) ← Store.get .workflows workflowID
  match stored with
  | .error _ => return .ok ()
  | .ok (wfState, _) =>
      if wfState.state ≠ "running" then
        return .ok ()
      else
        let stepIdx ← do
          match ← getJobState jobID with
          | .ok job => pure job.workflowStep
          | .error _ => pure 0
        let wfState := countedWorkflow wfState stepIdx result failed
        if wfState.type = "chain" then
          advanceChain lib workflowID wfState stepIdx failed
        else
          advanceGroup lib workflowID wfState

/-- `advanceWorkflow`, which `Ack` and `Nack` call on the job they settled. -/
def advanceWorkflow (jobID : String) (state : State) (result : Option RawMessage) : Prog Unit := do
  match ← getJobState jobID with
  | .error _ => return ()
  | .ok job =>
      if job.workflowID = "" then
        return ()
      else
        let failed := state == .discarded || state == .cancelled
        let _ ← advanceWorkflowState lib job.workflowID jobID result failed
        return ()

/-! ## The workflow operations -/

def newWorkflowState (wfID : String) (req : WorkflowRequest) (jobs : List WorkflowJobRequest)
    (now : Int) : WorkflowState where
  id := wfID
  name := req.name
  type := req.type
  state := "running"
  total := jobs.length
  createdAt := lib.formatTime now
  callbacks := req.callbacks
  jobDefs := jobs

def newWorkflow (wfID : String) (req : WorkflowRequest) (total : Int) (now : Int) : Workflow :=
  let wf : Workflow :=
    { id := wfID
      name := req.name
      type := req.type
      state := "running"
      createdAt := lib.formatTime now }
  if req.type = "chain" then { wf with stepsTotal := some total, stepsCompleted := some 0 }
  else { wf with jobsTotal := some total, jobsCompleted := some 0 }

/-- Push the jobs of a group or batch from index `i` on, stopping at the first
error; the ids of the pushed jobs. -/
def pushMembers (wfID : String) : Nat → List WorkflowJobRequest → List String →
    Prog (Result (List String))
  | _, [], ids => return .ok ids
  | i, step :: rest, ids => do
      match ← push lib (workflowStepToJob step wfID i) with
      | .error e => return .error e
      | .ok created => pushMembers wfID (i + 1) rest (ids ++ [created.id])

def createWorkflow (req : WorkflowRequest) : Prog (Result Workflow) := do
  let now ← timeNow
  let wfID ← newUUIDv7
  let jobs := if req.type = "chain" then req.steps else req.jobs
  let wf := newWorkflow lib wfID req jobs.length now
  let wfState := newWorkflowState lib wfID req jobs now
  putWorkflow wfState wfID
  if req.type = "chain" then
    match jobs with
    | [] => return .error .panicked
    | step :: _ =>
        match ← push lib (workflowStepToJob step wfID 0) with
        | .error e => return .error e
        | .ok created =>
            putWorkflow { wfState with jobIDs := [created.id] } wfID
            return .ok wf
  else
    match ← pushMembers lib wfID 0 jobs [] with
    | .error e => return .error e
    | .ok ids =>
        putWorkflow { wfState with jobIDs := ids } wfID
        return .ok wf

def workflowOfState (wfState : WorkflowState) : Workflow :=
  let wf : Workflow :=
    { id := wfState.id
      name := wfState.name
      type := wfState.type
      state := wfState.state
      createdAt := wfState.createdAt
      completedAt := wfState.completedAt }
  if wf.type = "chain" then
    { wf with stepsTotal := some wfState.total, stepsCompleted := some wfState.completed }
  else
    { wf with jobsTotal := some wfState.total, jobsCompleted := some wfState.completed }

def getWorkflow (id : String) : Prog (Result Workflow) := do
  let stored : Except CallError (WorkflowState × Nat) ← Store.get .workflows id
  match stored with
  | .error _ => return .error (.notFound "Workflow" id)
  | .ok (wfState, _) => return .ok (workflowOfState wfState)

/-- `CancelWorkflow` on one member job. -/
def cancelMember (jobID : String) : Prog Unit := do
  match ← getJobState jobID with
  | .error _ => return ()
  | .ok job =>
      if lib.isTerminalState job.state then
        return ()
      else
        let _ ← cancel lib jobID
        return ()

def cancelWorkflow (id : String) : Prog (Result Workflow) := do
  match ← getWorkflow id with
  | .error e => return .error e
  | .ok wf =>
      if wf.state = "completed" ∨ wf.state = "failed" ∨ wf.state = "cancelled" then
        return .error (.conflict ("Cannot cancel workflow in state '" ++ wf.state ++ "'.") [])
      else
        let stored : Except CallError (WorkflowState × Nat) ← Store.get .workflows id
        let wfState : WorkflowState :=
          match stored with
          | .ok (wfState, _) => wfState
          | .error _ => {}
        Program.forEach wfState.jobIDs () fun jobID _ => cancelMember lib jobID
        let now ← timeNow
        let wfState := finishedWorkflow lib wfState "cancelled" now
        putWorkflow wfState id
        return .ok { wf with state := "cancelled", completedAt := wfState.completedAt }

end OjsNats.Nats
