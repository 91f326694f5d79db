import OjsNats.Nats.Helpers

/-!
# Enqueuing and cancelling

`Info`, `Cancel`, `Push` and `PushBatch` of `backend.go`.
-/

namespace OjsNats.Nats

open Core Effect

variable (lib : Externals)

def info (jobID : String) : Prog (Result Job) := do
  match ← getJobState jobID with
  | .error _ => return .error (.notFound "Job" jobID)
  | .ok job => return .ok job

/-- The record `Cancel` writes. -/
def cancelledJob (now : Int) (job : Job) : Job :=
  { job with state := .cancelled, cancelledAt := lib.formatTime now }

@[simp] theorem cancelledJob_id (now : Int) (job : Job) :
    (cancelledJob lib now job).id = job.id := rfl

@[simp] theorem cancelledJob_queue (now : Int) (job : Job) :
    (cancelledJob lib now job).queue = job.queue := rfl

/-- What `Cancel` does once the record is written. -/
def cancelIndexes (jobID : String) (job : Job) : Prog (Result Job) := do
  match ← Store.delete .active jobID with
  | .error e => return .error (.internal "removing active state for cancelled job" (.call e))
  | .ok () =>
  match ← Store.delete .scheduled jobID with
  | .error e => return .error (.internal "removing scheduled index for cancelled job" (.call e))
  | .ok () =>
  match ← Store.delete .retry jobID with
  | .error e => return .error (.internal "removing retry index for cancelled job" (.call e))
  | .ok () =>
  match ← ackMessage jobID with
  | .error e => return .error (.internal "acking cancelled job message" (.call e))
  | .ok () => return .ok job

def cancel (jobID : String) : Prog (Result Job) := do
  match ← getJobState jobID with
  | .error _ => return .error (.notFound "Job" jobID)
  | .ok job =>
      if lib.isTerminalState job.state then
        return .error (.conflict
          ("Cannot cancel job in terminal state '" ++ job.state.name ++ "'.")
          [("job_id", jobID), ("current_state", job.state.name)])
      else
        let now ← timeNow
        let job := cancelledJob lib now job
        match ← putJobState job with
        | .error e => return .error (.internal "updating cancelled job state" (.call e))
        | .ok _ => cancelIndexes jobID job

/-! ## Push -/

/-- The test of `Push` for an existing job that stands in the way of a new one. -/
def isRelevant (unique : UniquePolicy) (existing : Job) : Bool :=
  if unique.states = [] then !lib.isTerminalState existing.state
  else unique.states.any fun s => s == existing.state.name

def overwriteUnique (fingerprint jobID : String) : Prog Unit := do
  let _ ← UniqueStore.release fingerprint
  let _ ← UniqueStore.checkAndSet fingerprint jobID
  return ()

/-- The unique-policy block of `Push`: what `Push` returns at once, or `none` if
it goes on to store the job. -/
def handleUnique (job : Job) (unique : UniquePolicy) : Prog (Option (Result Job)) := do
  let fingerprint := UniqueStore.computeFingerprint lib job unique
  let conflict := if unique.onConflict = "" then "reject" else unique.onConflict
  match ← UniqueStore.checkAndSet fingerprint job.id with
  | .error e => return some (.error (.wrapped "unique check" (.call e)))
  | .ok existingID =>
      if existingID = "" then
        return none
      else
        match ← info existingID with
        | .error _ =>
            overwriteUnique fingerprint job.id
            return none
        | .ok existing =>
            if isRelevant lib unique existing then
              if conflict = "reject" then
                return some (.error (.duplicate "A job with the same unique key already exists."
                  [("existing_job_id", existingID), ("unique_key", fingerprint)]))
              else if conflict = "ignore" then
                return some (.ok { existing with isExisting := true })
              else if conflict = "replace" then
                let _ ← cancel lib existingID
                overwriteUnique fingerprint job.id
                return none
              else
                overwriteUnique fingerprint job.id
                return none
            else
              overwriteUnique fingerprint job.id
              return none

/-- Whether `Push` holds the job back until its `scheduled_at`. -/
def isScheduledLater (job : Job) (now : Int) : Bool :=
  job.scheduledAt ≠ "" &&
    match lib.parseRFC3339 job.scheduledAt with
    | some scheduledTime => decide (now < scheduledTime)
    | none => false

/-- A record as `Push`, the promoters and the requeuing paths store it. -/
def enqueuedJob (state : State) (now : Int) (job : Job) : Job :=
  { job with state := state, enqueuedAt := lib.formatTime now }

@[simp] theorem enqueuedJob_id (state : State) (now : Int) (job : Job) :
    (enqueuedJob lib state now job).id = job.id := rfl

@[simp] theorem enqueuedJob_scheduledAt (state : State) (now : Int) (job : Job) :
    (enqueuedJob lib state now job).scheduledAt = job.scheduledAt := rfl

@[simp] theorem enqueuedJob_queue (state : State) (now : Int) (job : Job) :
    (enqueuedJob lib state now job).queue = job.queue := rfl

/-- The rate limit of a job, if it sets one, becomes its queue's. -/
def storeRateLimit (job : Job) : Prog Unit :=
  match job.rateLimit with
  | some limit =>
      if 0 < limit.maxPerSecond then updateQueueRateLimit job.queue limit.maxPerSecond
      else return ()
  | none => return ()

/-- `Push` from the queue registration on. -/
def storeJob (now : Int) (job : Job) : Prog (Result Job) := do
  ensureQueue job.queue
  storeRateLimit job
  if isScheduledLater lib job now then
    let job := enqueuedJob lib .scheduled now job
    match ← putJobState job with
    | .error e => return .error (.wrapped "store scheduled job" (.call e))
    | .ok _ =>
        let _ ← Store.put .scheduled job.id job.scheduledAt
        return .ok job
  else
    let job := enqueuedJob lib .available now job
    match ← putJobState job with
    | .error e => return .error (.wrapped "store job" (.call e))
    | .ok _ =>
        match ← publishJob job.queue job.id with
        | .error e => return .error (.wrapped "publish job" e)
        | .ok () => return .ok job

/-- `ComputeFingerprint` sorts the policy's own list of keys. -/
def sortedKeys (unique : UniquePolicy) : UniquePolicy :=
  { unique with keys := unique.keys.mergeSort }

def freshJob (id : String) (now : Int) (job : Job) : Job :=
  { job with
    id := id
    createdAt := lib.formatTime now
    attempt := 0
    unique := job.unique.map sortedKeys }

def push (job : Job) : Prog (Result Job) := do
  let now ← timeNow
  let id ← if job.id = "" then newUUIDv7 else pure job.id
  let job := freshJob lib id now job
  match job.unique with
  | none => storeJob lib now job
  | some unique =>
      match ← handleUnique lib job unique with
      | some early => return early
      | none => storeJob lib now job

/-! ## PushBatch -/

/-- The first complaint of the validation that precedes all writes. -/
def validateBatch : List Job → Option BackendError
  | [] => none
  | job :: rest =>
      match lib.validateEnqueueRequest job.type job.args with
      | some complaint => some (.validation complaint)
      | none => validateBatch rest

def batchJob (id : String) (now : Int) (job : Job) : Job :=
  { job with
    id := id
    state := .available
    attempt := 0
    createdAt := lib.formatTime now
    enqueuedAt := lib.formatTime now }

@[simp] theorem batchJob_id (id : String) (now : Int) (job : Job) :
    (batchJob lib id now job).id = id := rfl

@[simp] theorem batchJob_queue (id : String) (now : Int) (job : Job) :
    (batchJob lib id now job).queue = job.queue := rfl

/-- The jobs stored so far, and the error that ended the batch, if any. -/
def pushBatchLoop (now : Int) : List Job → List Job → Prog (List Job × Option BackendError)
  | [], done => return (done, none)
  | job :: rest, done => do
      let id ← if job.id = "" then newUUIDv7 else pure job.id
      let job := batchJob lib id now job
      let place := toString done.length ++ " (" ++ id ++ ")"
      match ← putJobState job with
      | .error e => return (done, some (.wrapped ("store batch job " ++ place) (.call e)))
      | .ok _ =>
          ensureQueue job.queue
          match ← publishJob job.queue job.id with
          | .error e => return (done ++ [job], some (.wrapped ("publish batch job " ++ place) e))
          | .ok () => pushBatchLoop now rest (done ++ [job])

def pushBatch (jobs : List Job) : Prog (List Job × Option BackendError) := do
  match validateBatch lib jobs with
  | some complaint => return ([], some complaint)
  | none =>
      let now ← timeNow
      pushBatchLoop lib now jobs []

end OjsNats.Nats
