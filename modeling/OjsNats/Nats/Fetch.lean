import OjsNats.Nats.Helpers

/-!
# Claiming jobs and keeping them

`Fetch`, `Heartbeat` and the queue and worker controls of `backend.go`.
-/

namespace OjsNats.Nats

open Core Effect

variable (lib : Externals)

/-- The expiry test of `Fetch`. -/
def isExpired (job : Job) (now : Int) : Bool :=
  job.expiresAt ≠ "" &&
    match lib.parseRFC3339 job.expiresAt with
    | some expTime => decide (expTime < now)
    | none => false

def effectiveVisTimeout (visibilityTimeoutMs : Int) (job : Job) : Int :=
  let timeout :=
    if visibilityTimeoutMs ≤ 0 then job.visibilityTimeoutMs.getD visibilityTimeoutMs
    else visibilityTimeoutMs
  if timeout ≤ 0 then lib.defaultVisibilityTimeoutMs else timeout

def activeInfo (queue workerID : String) (now timeoutMs : Int) : ActiveJobInfo where
  queue := queue
  visibilityDeadline := lib.formatTime (now + millisToDuration timeoutMs)
  workerID := workerID

def claimedJob (now : Int) (job : Job) : Job :=
  { job with state := .active, startedAt := lib.formatTime now }

@[simp] theorem claimedJob_id (now : Int) (job : Job) :
    (claimedJob lib now job).id = job.id := rfl

@[simp] theorem claimedJob_queue (now : Int) (job : Job) :
    (claimedJob lib now job).queue = job.queue := rfl

/-- The body of `Fetch` for one message; `jobs` are the jobs claimed so far. -/
def fetchJob (queue workerID : String) (visibilityTimeoutMs now : Int) (jobID : String)
    (jobs : List Job) : Prog (List Job) := do
  match ← getJobState jobID with
  | .error _ =>
      let _ ← ackMessage jobID
      return jobs
  | .ok job =>
      if isExpired lib job now then
        let _ ← putJobState { job with state := .discarded }
        let _ ← ackMessage jobID
        return jobs
      else if job.state ≠ .available then
        let _ ← ackMessage jobID
        return jobs
      else
        let timeout := effectiveVisTimeout lib visibilityTimeoutMs job
        match ← Store.put .active jobID (activeInfo lib queue workerID now timeout) with
        | .error _ =>
            let _ ← ackMessage jobID
            return jobs
        | .ok _ =>
            match ← putJobState (claimedJob lib now job) with
            | .error _ =>
                let _ ← Store.delete .active jobID
                let _ ← ackMessage jobID
                return jobs
            | .ok _ =>
                recordFetchTime queue now
                return jobs ++ [claimedJob lib now job]

/-- The body of `Fetch` for one queue.  Once `count` jobs are claimed no queue
is looked at any more, which is the `break` of the loop. -/
def fetchQueue (count : Int) (workerID : String) (visibilityTimeoutMs now : Int) (queue : String)
    (jobs : List Job) : Prog (List Job) := do
  if count ≤ jobs.length then
    return jobs
  else if ← isQueuePaused queue then
    return jobs
  else if ← isRateLimited queue now then
    return jobs
  else
    match ← fetchMessages queue (count - jobs.length).toNat with
    | .error _ => return jobs
    | .ok jobIDs =>
        Program.forEach jobIDs jobs (fetchJob lib queue workerID visibilityTimeoutMs now)

def fetch (queues : List String) (count : Int) (workerID : String) (visibilityTimeoutMs : Int) :
    Prog (List Job) := do
  let now ← timeNow
  Program.forEach queues [] (fetchQueue lib count workerID visibilityTimeoutMs now)

/-! ## Heartbeat -/

/-- The extension of one job's lease; `extended` are the jobs extended so far. -/
def extendLease (workerID : String) (visibilityTimeoutMs now : Int) (jobID : String)
    (extended : List String) : Prog (List String) := do
  match ← getJobState jobID with
  | .error _ => return extended
  | .ok job =>
      if job.state ≠ .active then
        return extended
      else
        let _ ← Store.put .active jobID (activeInfo lib job.queue workerID now visibilityTimeoutMs)
        inProgress jobID
        return extended ++ [jobID]

/-- `test_directive` in a job's metadata. -/
def testDirective : Option RawMessage → Option String
  | some (.obj fields) =>
      match fields.reverse.lookup "test_directive" with
      | some (.str directive) => if directive = "" then none else some directive
      | _ => none
  | _ => none

/-- Look for a directive in the jobs' metadata, stopping at the first one. -/
def findDirective (jobID : String) (found : Option String) : Prog (Option String) := do
  match found with
  | some directive => return some directive
  | none =>
      match ← getJobState jobID with
      | .error _ => return none
      | .ok job => return testDirective job.«meta»

def heartbeat (workerID : String) (activeJobs : List String) (visibilityTimeoutMs : Int) :
    Prog HeartbeatResponse := do
  let now ← timeNow
  let existing : Except CallError (WorkerState × Nat) ← Store.get .workers workerID
  let directive :=
    match existing with
    | .ok (state, _) =>
        match state.directive with
        | some d => if d = "" then "continue" else d
        | none => "continue"
    | .error _ => "continue"
  let workerInfo : WorkerState :=
    { lastHeartbeat := some (lib.formatTime now)
      activeJobs := some activeJobs.length
      directive := if directive = "continue" then none else some directive }
  let _ ← Store.put .workers workerID workerInfo
  let extended ← Program.forEach activeJobs [] (extendLease lib workerID visibilityTimeoutMs now)
  let directive ←
    if directive = "continue" then do
      let found ← Program.forEach activeJobs none findDirective
      pure (found.getD "continue")
    else
      pure directive
  return {
    state := "active"
    directive := directive
    jobsExtended := extended
    serverTime := lib.formatTime now }

/-! ## Controls -/

def pauseQueue (name : String) : Prog (Except CallError Unit) :=
  updateQueueMeta name fun stored => { stored with name := name, paused := true }

def resumeQueue (name : String) : Prog (Except CallError Unit) :=
  updateQueueMeta name fun stored => { stored with name := name, paused := false }

def setWorkerState (workerID state : String) : Prog (Except CallError Unit) := do
  match ← Store.put .workers workerID { directive := some state : WorkerState } with
  | .ok _ => return .ok ()
  | .error e => return .error e

/-! ## Statistics -/

/-- One turn of the loop of `QueueStats` over the active entries. -/
def countActive (name key : String) (activeCount : Int) : Prog Int := do
  match ← Store.get .active key with
  | .error _ => return activeCount
  | .ok (data, _) =>
      if (data : ActiveJobInfo).queue = name then return activeCount + 1 else return activeCount

/-- The counter that `incrementCompleted` keeps, as `QueueStats` reads it. -/
def completedCount (name : String) : Prog Int := do
  match ← Store.get .stats (kvStatsKey name "completed") with
  | .error _ => return 0
  | .ok (data, _) => return atoi data

/-- `QueueStats`; `numPending` is what `Info` says of the consumer, if it answers. -/
def queueStats (name : String) (numPending : Option Nat) : Prog QueueStats := do
  let paused ← isQueuePaused name
  let listed ← Store.keys .active
  let activeKeys := match listed with
    | .ok keys => keys
    | .error _ => []
  let activeCount ← Program.forEach activeKeys 0 (countActive name)
  let completed ← completedCount name
  let consumer ← getConsumer name
  -- `int(info.NumPending)` of an unsigned number
  let available := match consumer, numPending with
    | .ok (), some n => (n : Int).bmod (2 ^ 64)
    | _, _ => 0
  return {
    queue := name
    status := if paused then "paused" else "active"
    stats := { available := available, active := activeCount, completed := completed } }

end OjsNats.Nats
