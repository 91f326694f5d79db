import OjsNats.Nats.Report

/-!
# Scheduler passes and dead letters

`scheduler_hooks.go` and `deadletter.go`.  A pass lists an index and treats the
jobs one after the other; the first error is kept and the pass goes on.
-/

namespace OjsNats.Nats

open Core Effect

variable (lib : Externals)

/-- The first error of a pass so far. -/
abbrev FirstErr := Option BackendError

def keepFirst (firstErr : FirstErr) (e : BackendError) : FirstErr := firstErr.or (some e)

def passResult (firstErr : FirstErr) : Result Unit :=
  match firstErr with
  | some e => .error e
  | none => .ok ()

/-- The first of two layouts that parses. -/
def parseEither (first second : String → Option Int) (text : String) : Option Int :=
  (first text).or (second text)

/-- What `PromoteScheduled` and `PromoteRetries` do with a due job of the index
`b`; `what` names the job in the errors. -/
def promoteJob (b : BucketName) (what : String) (now : Int) (jobID : String)
    (firstErr : FirstErr) : Prog FirstErr := do
  match ← getJobState jobID with
  | .error _ =>
      let _ ← Store.delete b jobID
      return firstErr
  | .ok job =>
      let job := enqueuedJob lib .available now job
      match ← putJobState job with
      | .error e =>
          return keepFirst firstErr
            (.wrapped ("update " ++ what ++ " job state for " ++ jobID) (.call e))
      | .ok _ =>
          match ← Store.delete b jobID with
          | .error e =>
              return keepFirst firstErr
                (.wrapped ("delete " ++ what ++ " index for " ++ jobID) (.call e))
          | .ok () =>
              match ← publishJob job.queue jobID with
              | .error e => return keepFirst firstErr (.wrapped ("publish " ++ what ++ " job " ++ jobID) e)
              | .ok () => return firstErr

def promoteScheduledJob (now : Int) (jobID : String) (firstErr : FirstErr) : Prog FirstErr := do
  match ← Store.get .scheduled jobID with
  | .error _ => return firstErr
  | .ok (data, _) =>
      match parseEither lib.parseRFC3339 lib.parseTime data with
      | none => return firstErr
      | some scheduledAt =>
          if now < scheduledAt then return firstErr
          else promoteJob lib .scheduled "scheduled" now jobID firstErr

def promoteScheduled : Prog (Result Unit) := do
  match ← Store.keys .scheduled with
  | .error e => return .error (.call e)
  | .ok keys =>
      let now ← timeNow
      let firstErr ← Program.forEach keys none (promoteScheduledJob lib now)
      return passResult firstErr

def promoteRetriesJob (now : Int) (jobID : String) (firstErr : FirstErr) : Prog FirstErr := do
  match ← Store.get .retry jobID with
  | .error _ => return firstErr
  | .ok (data, _) =>
      match parseEither lib.parseTime lib.parseRFC3339 data with
      | none => return firstErr
      | some nextAttemptAt =>
          if now < nextAttemptAt then return firstErr
          else promoteJob lib .retry "retryable" now jobID firstErr

def promoteRetries : Prog (Result Unit) := do
  match ← Store.keys .retry with
  | .error e => return .error (.call e)
  | .ok keys =>
      let now ← timeNow
      let firstErr ← Program.forEach keys none (promoteRetriesJob lib now)
      return passResult firstErr

/-- What `RequeueStalled` does with a job whose lease has run out. -/
def requeueJob (now : Int) (jobID : String) (firstErr : FirstErr) : Prog FirstErr := do
  match ← getJobState jobID with
  | .error _ =>
      let _ ← Store.delete .active jobID
      return firstErr
  | .ok job =>
      if job.state ≠ .active then
        let _ ← Store.delete .active jobID
        return firstErr
      else
        let job := requeuedJob lib now job
        match ← putJobState job with
        | .error e =>
            return keepFirst firstErr
              (.wrapped ("update stalled job state for " ++ jobID) (.call e))
        | .ok _ =>
        match ← Store.delete .active jobID with
        | .error e =>
            return keepFirst firstErr
              (.wrapped ("delete active state for stalled job " ++ jobID) (.call e))
        | .ok () =>
        match ← ackMessage jobID with
        | .error e =>
            return keepFirst firstErr
              (.wrapped ("ack stale message for stalled job " ++ jobID) (.call e))
        | .ok () =>
        match ← publishJob job.queue jobID with
        | .error e => return keepFirst firstErr (.wrapped ("republish stalled job " ++ jobID) e)
        | .ok () => return firstErr

def requeueStalledJob (now : Int) (jobID : String) (firstErr : FirstErr) : Prog FirstErr := do
  match ← Store.get .active jobID with
  | .error _ => return firstErr
  | .ok (data, _) =>
      match lib.parseTime (data : ActiveJobInfo).visibilityDeadline with
      | none => return firstErr
      | some deadline =>
          if deadline < now then requeueJob lib now jobID firstErr
          else return firstErr

def requeueStalled : Prog (Result Unit) := do
  match ← Store.keys .active with
  | .error e => return .error (.call e)
  | .ok keys =>
      let now ← timeNow
      let firstErr ← Program.forEach keys none (requeueStalledJob lib now)
      return passResult firstErr

/-! ## Dead letters -/

/-- The record `RetryDeadLetter` writes. -/
def revivedJob (now : Int) (job : Job) : Job :=
  { job with
    state := .available
    attempt := 0
    enqueuedAt := lib.formatTime now
    error := none
    errors := []
    completedAt := ""
    retryDelayMs := none }

@[simp] theorem revivedJob_id (now : Int) (job : Job) :
    (revivedJob lib now job).id = job.id := rfl

@[simp] theorem revivedJob_queue (now : Int) (job : Job) :
    (revivedJob lib now job).queue = job.queue := rfl

/-- `RetryDeadLetter`, which ignores the errors of its writes. -/
def retryDeadLetter (jobID : String) : Prog (Result Job) := do
  if ← Store.exists? .dead jobID then
    let now ← timeNow
    match ← getJobState jobID with
    | .error _ => return .error (.notFound "Dead letter job" jobID)
    | .ok job =>
        let job := revivedJob lib now job
        let _ ← putJobState job
        let _ ← Store.delete .dead jobID
        let _ ← publishJob job.queue jobID
        info jobID
  else
    return .error (.notFound "Dead letter job" jobID)

def deleteDeadLetter (jobID : String) : Prog (Result Unit) := do
  if ← Store.exists? .dead jobID then
    match ← Store.delete .dead jobID with
    | .ok () => return .ok ()
    | .error e => return .error (.call e)
  else
    return .error (.notFound "Dead letter job" jobID)

end OjsNats.Nats
