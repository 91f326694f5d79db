import OjsNats.Nats.Workflow

/-!
# Reporting the outcome of a job

`Ack` and `Nack` of `backend.go`.
-/

namespace OjsNats.Nats

open Core Effect

variable (lib : Externals)

/-- The record `Ack` writes. -/
def completedJob (now : Int) (result : Option RawMessage) (job : Job) : Job :=
  { job with
    state := .completed
    completedAt := lib.formatTime now
    error := none
    result := result.or job.result }

@[simp] theorem completedJob_id (now : Int) (result : Option RawMessage) (job : Job) :
    (completedJob lib now result job).id = job.id := rfl

@[simp] theorem completedJob_queue (now : Int) (result : Option RawMessage) (job : Job) :
    (completedJob lib now result job).queue = job.queue := rfl

/-- What `Ack` does once the job has left the active index. -/
def finishAck (jobID : String) (result : Option RawMessage) (now : Int) (job : Job) :
    Prog (Result AckResponse) := do
  incrementCompleted job.queue
  advanceWorkflow lib jobID .completed result
  let updated ← info jobID
  return .ok {
    acknowledged := true
    id := jobID
    state := .completed
    completedAt := lib.formatTime now
    job := some (match updated with
      | .ok updatedJob => updatedJob
      | .error _ => job) }

def ack (jobID : String) (result : Option RawMessage) : Prog (Result AckResponse) := do
  match ← getJobState jobID with
  | .error _ => return .error (.notFound "Job" jobID)
  | .ok job =>
      if job.state ≠ .active then
        return .error (.conflict
          ("Cannot acknowledge job not in 'active' state. Current state: '"
            ++ job.state.name ++ "'.")
          [("job_id", jobID), ("current_state", job.state.name), ("expected_state", "active")])
      else
        let now ← timeNow
        let job := completedJob lib now result job
        match ← putJobState job with
        | .error e => return .error (.internal "updating completed job state" (.call e))
        | .ok _ =>
        match ← Store.delete .active jobID with
        | .error e => return .error (.internal "removing active job state" (.call e))
        | .ok () =>
        match ← ackMessage jobID with
        | .error e => return .error (.internal "acking job message" (.call e))
        | .ok () => finishAck lib jobID result now job

/-! ## Nack -/

/-- The error payload `Nack` records for a failed attempt. -/
def errorPayload (attempt : Int) (jobErr : JobError) : RawMessage :=
  let kind := if jobErr.type ≠ "" then jobErr.type else jobErr.code
  .obj ([("message", .str jobErr.message), ("attempt", .num attempt)]
    ++ (if kind = "" then [] else [("type", .str kind)])
    ++ (match jobErr.retryable with
      | some retryable => [("retryable", .bool retryable)]
      | none => [])
    ++ (match jobErr.details with
      | some details => [("details", .obj details)]
      | none => []))

/-- Whether some pattern matches the error's type or message. -/
def matchesAny (jobErr : JobError) : List String → Prog Bool
  | [] => return false
  | pattern :: rest => do
      let errType := if jobErr.type ≠ "" then jobErr.type else jobErr.code
      if ← matchesPattern lib errType pattern then
        return true
      else if ← matchesPattern lib jobErr.message pattern then
        return true
      else
        matchesAny jobErr rest

def isNonRetryable (job : Job) (jobErr : Option JobError) : Prog Bool :=
  match jobErr with
  | none => return false
  | some jobErr =>
      if jobErr.retryable = some false then
        return true
      else
        match job.retry with
        | none => return false
        | some policy => matchesAny lib jobErr policy.nonRetryableErrors

def onExhaustion (job : Job) : String :=
  match job.retry with
  | some policy => if policy.onExhaustion = "" then "discard" else policy.onExhaustion
  | none => "discard"

def maxAttemptsOf (job : Job) : Int := job.maxAttempts.getD 3

/-- A record put back in its queue by `Nack` or by the reaper. -/
def requeuedJob (now : Int) (job : Job) : Job :=
  { job with state := .available, startedAt := "", enqueuedAt := lib.formatTime now }

@[simp] theorem requeuedJob_id (now : Int) (job : Job) :
    (requeuedJob lib now job).id = job.id := rfl

@[simp] theorem requeuedJob_queue (now : Int) (job : Job) :
    (requeuedJob lib now job).queue = job.queue := rfl

/-- The job with the payload of this failure in its error history. -/
def withError (errJSON : Option RawMessage) (job : Job) : Job :=
  { job with errors := job.errors ++ errJSON.toList }

@[simp] theorem withError_id (errJSON : Option RawMessage) (job : Job) :
    (withError errJSON job).id = job.id := rfl

@[simp] theorem withError_queue (errJSON : Option RawMessage) (job : Job) :
    (withError errJSON job).queue = job.queue := rfl

def discardedJob (now newAttempt : Int) (errJSON : Option RawMessage) (job : Job) : Job :=
  { job with
    state := .discarded
    completedAt := lib.formatTime now
    attempt := newAttempt
    error := errJSON.or job.error }

@[simp] theorem discardedJob_id (now newAttempt : Int) (errJSON : Option RawMessage) (job : Job) :
    (discardedJob lib now newAttempt errJSON job).id = job.id := rfl

@[simp] theorem discardedJob_queue (now newAttempt : Int) (errJSON : Option RawMessage) (job : Job) :
    (discardedJob lib now newAttempt errJSON job).queue = job.queue := rfl

def retryableJob (newAttempt backoffMs : Int) (errJSON : Option RawMessage) (job : Job) : Job :=
  { job with
    state := .retryable
    attempt := newAttempt
    retryDelayMs := some backoffMs
    error := errJSON.or job.error }

@[simp] theorem retryableJob_id (newAttempt backoffMs : Int) (errJSON : Option RawMessage) (job : Job) :
    (retryableJob newAttempt backoffMs errJSON job).id = job.id := rfl

@[simp] theorem retryableJob_queue (newAttempt backoffMs : Int) (errJSON : Option RawMessage) (job : Job) :
    (retryableJob newAttempt backoffMs errJSON job).queue = job.queue := rfl

/-- The branch of `Nack` that requeues at once. -/
def nackRequeue (jobID : String) (now : Int) (job : Job) : Prog (Result NackResponse) := do
  let job := requeuedJob lib now job
  match ← putJobState job with
  | .error e => return .error (.internal "updating requeued job state" (.call e))
  | .ok _ =>
  match ← Store.delete .active jobID with
  | .error e => return .error (.internal "removing active state for requeued job" (.call e))
  | .ok () =>
  match ← ackMessage jobID with
  | .error e => return .error (.internal "acking requeued job message" (.call e))
  | .ok () =>
  match ← publishJob job.queue jobID with
  | .error e => return .error (.internal "republishing requeued job" e)
  | .ok () =>
      let retJob ← info jobID
      return .ok {
        id := jobID
        state := .available
        attempt := job.attempt
        maxAttempts := maxAttemptsOf job
        job := retJob.toOption }

/-- `Nack` indexes a dead letter only under the policy's `dead_letter`. -/
def deadLetter (jobID : String) (now : Int) (job : Job) : Prog (Except CallError Unit) := do
  if onExhaustion job = "dead_letter" then
    match ← Store.put .dead jobID (lib.formatTime now) with
    | .error e => return .error e
    | .ok _ => return .ok ()
  else
    return .ok ()

/-- The branch of `Nack` that ends the job. -/
def nackDiscard (jobID : String) (now newAttempt : Int) (errJSON : Option RawMessage) (job : Job) :
    Prog (Result NackResponse) := do
  let job := discardedJob lib now newAttempt errJSON job
  match ← putJobState job with
  | .error e => return .error (.internal "updating discarded job state" (.call e))
  | .ok _ =>
  match ← Store.delete .active jobID with
  | .error e => return .error (.internal "removing active state for discarded job" (.call e))
  | .ok () =>
  match ← ackMessage jobID with
  | .error e => return .error (.internal "acking discarded job message" (.call e))
  | .ok () =>
  match ← deadLetter lib jobID now job with
  | .error e => return .error (.internal "indexing dead letter job" (.call e))
  | .ok () =>
      advanceWorkflow lib jobID .discarded none
      let retJob ← info jobID
      return .ok {
        id := jobID
        state := .discarded
        attempt := newAttempt
        maxAttempts := maxAttemptsOf job
        discardedAt := lib.formatTime now
        job := retJob.toOption }

/-- The branch of `Nack` that schedules a retry. -/
def nackRetry (jobID : String) (now newAttempt : Int) (errJSON : Option RawMessage) (job : Job) :
    Prog (Result NackResponse) := do
  let backoff ← calculateBackoff job.retry newAttempt
  let nextAttemptAt := lib.formatTime (now + backoff)
  let job := retryableJob newAttempt (Int.tdiv backoff 1000000) errJSON job
  match ← putJobState job with
  | .error e => return .error (.internal "updating retryable job state" (.call e))
  | .ok _ =>
  match ← Store.delete .active jobID with
  | .error e => return .error (.internal "removing active state for retryable job" (.call e))
  | .ok () =>
  match ← ackMessage jobID with
  | .error e => return .error (.internal "acking retryable job message" (.call e))
  | .ok () =>
  match ← Store.put .retry jobID nextAttemptAt with
  | .error e => return .error (.internal "indexing retryable job" (.call e))
  | .ok _ =>
      let retJob ← info jobID
      return .ok {
        id := jobID
        state := .retryable
        attempt := newAttempt
        maxAttempts := maxAttemptsOf job
        nextAttemptAt := nextAttemptAt
        job := retJob.toOption }

/-- `Nack` without requeue, on the active job. -/
def nackFailure (jobID : String) (jobErr : Option JobError) (now : Int) (job : Job) :
    Prog (Result NackResponse) := do
  let newAttempt := job.attempt + 1
  let errJSON := jobErr.map (errorPayload job.attempt)
  let job := withError errJSON job
  let nonRetryable ← isNonRetryable lib job jobErr
  if nonRetryable || decide (maxAttemptsOf job ≤ newAttempt) then
    nackDiscard lib jobID now newAttempt errJSON job
  else
    nackRetry lib jobID now newAttempt errJSON job

def nack (jobID : String) (jobErr : Option JobError) (requeue : Bool) :
    Prog (Result NackResponse) := do
  match ← getJobState jobID with
  | .error _ => return .error (.notFound "Job" jobID)
  | .ok job =>
      if job.state ≠ .active then
        return .error (.conflict
          ("Cannot fail job not in 'active' state. Current state: '" ++ job.state.name ++ "'.")
          [("job_id", jobID), ("current_state", job.state.name), ("expected_state", "active")])
      else
        let now ← timeNow
        if requeue then nackRequeue lib jobID now job
        else nackFailure lib jobID jobErr now job

end OjsNats.Nats
