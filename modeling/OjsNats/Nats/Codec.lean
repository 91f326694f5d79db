import OjsNats.Core.Types

/-!
# What the buckets hold

The records of `codec.go`, one value type for each KV bucket.  A bucket stores
the JSON text of its values; the model stores the value the text encodes.
-/

namespace OjsNats.Nats

open Core

structure JobState where
  id : String
  type : String
  state : State
  queue : String
  args : Option RawMessage
  «meta» : Option RawMessage
  priority : Option Int
  attempt : Int
  maxAttempts : Option Int
  timeoutMs : Option Int
  createdAt : String
  enqueuedAt : String
  startedAt : String
  completedAt : String
  cancelledAt : String
  scheduledAt : String
  result : Option RawMessage
  error : Option RawMessage
  errors : List RawMessage
  tags : List String
  retry : Option RetryPolicy
  unique : Option UniquePolicy
  expiresAt : String
  retryDelayMs : Option Int
  parentResults : List RawMessage
  visibilityTimeoutMs : Option Int
  workflowID : String
  workflowStep : Int
  workerID : String := ""
  rateLimitMaxPerSec : Int := 0
  unknownFields : List (String × RawMessage)

def jobToState (job : Job) : JobState where
  id := job.id
  type := job.type
  state := job.state
  queue := job.queue
  args := job.args
  «meta» := job.«meta»
  priority := job.priority
  attempt := job.attempt
  maxAttempts := job.maxAttempts
  timeoutMs := job.timeoutMs
  createdAt := job.createdAt
  enqueuedAt := job.enqueuedAt
  startedAt := job.startedAt
  completedAt := job.completedAt
  cancelledAt := job.cancelledAt
  scheduledAt := job.scheduledAt
  result := job.result
  error := job.error
  errors := job.errors
  tags := job.tags
  retry := job.retry
  unique := job.unique
  expiresAt := job.expiresAt
  retryDelayMs := job.retryDelayMs
  parentResults := job.parentResults
  visibilityTimeoutMs := job.visibilityTimeoutMs
  workflowID := job.workflowID
  workflowStep := job.workflowStep
  unknownFields := job.unknownFields
  rateLimitMaxPerSec :=
    match job.rateLimit with
    | some limit => limit.maxPerSecond
    | none => 0

def stateToJob (s : JobState) : Job where
  id := s.id
  type := s.type
  state := s.state
  queue := s.queue
  args := s.args
  «meta» := s.«meta»
  priority := s.priority
  attempt := s.attempt
  maxAttempts := s.maxAttempts
  timeoutMs := s.timeoutMs
  createdAt := s.createdAt
  enqueuedAt := s.enqueuedAt
  startedAt := s.startedAt
  completedAt := s.completedAt
  cancelledAt := s.cancelledAt
  scheduledAt := s.scheduledAt
  result := s.result
  error := s.error
  errors := s.errors
  tags := s.tags
  retry := s.retry
  unique := s.unique
  expiresAt := s.expiresAt
  retryDelayMs := s.retryDelayMs
  parentResults := s.parentResults
  visibilityTimeoutMs := s.visibilityTimeoutMs
  workflowID := s.workflowID
  workflowStep := s.workflowStep
  unknownFields := s.unknownFields

/-- `marshalJobState`, up to the JSON text. -/
def marshalJobState (job : Job) : JobState := jobToState job

/-- `unmarshalJobState`, up to the JSON text. -/
def unmarshalJobState (data : JobState) : Job := stateToJob data

section Codec

variable (job : Job) (s : JobState)

@[simp] theorem marshalJobState_id : (marshalJobState job).id = job.id := rfl

@[simp] theorem marshalJobState_state : (marshalJobState job).state = job.state := rfl

@[simp] theorem marshalJobState_queue : (marshalJobState job).queue = job.queue := rfl

@[simp] theorem marshalJobState_enqueuedAt : (marshalJobState job).enqueuedAt = job.enqueuedAt := rfl

@[simp] theorem marshalJobState_expiresAt : (marshalJobState job).expiresAt = job.expiresAt := rfl

@[simp] theorem unmarshalJobState_id : (unmarshalJobState s).id = s.id := rfl

@[simp] theorem unmarshalJobState_state : (unmarshalJobState s).state = s.state := rfl

@[simp] theorem unmarshalJobState_queue : (unmarshalJobState s).queue = s.queue := rfl

@[simp] theorem unmarshalJobState_enqueuedAt : (unmarshalJobState s).enqueuedAt = s.enqueuedAt := rfl

@[simp] theorem unmarshalJobState_expiresAt : (unmarshalJobState s).expiresAt = s.expiresAt := rfl

end Codec

structure WorkflowState where
  id : String := ""
  name : String := ""
  type : String := ""
  state : String := ""
  total : Int := 0
  completed : Int := 0
  failed : Int := 0
  createdAt : String := ""
  completedAt : String := ""
  callbacks : Option WorkflowCallbacks := none
  jobDefs : List WorkflowJobRequest := []
  jobIDs : List String := []
  results : List (String × RawMessage) := []

structure ActiveJobInfo where
  queue : String
  visibilityDeadline : String
  workerID : String
  deriving DecidableEq

structure QueueMeta where
  name : String := ""
  paused : Bool := false
  rateLimitPerSec : Int := 0
  lastFetchMs : Int := 0
  completedCount : Int := 0

/-- The JSON object stored for a worker. -/
structure WorkerState where
  lastHeartbeat : Option String := none
  activeJobs : Option Nat := none
  directive : Option String := none

def kvStatsKey (queue stat : String) : String := queue ++ "." ++ stat

def intToStr (n : Int) : String := toString n

/-- The KV buckets, `ojs-jobs` … `ojs-stats`. -/
inductive BucketName where
  | jobs
  | unique
  | cron
  | workers
  | workflows
  | queues
  | scheduled
  | retry
  | dead
  | active
  | stats
  deriving DecidableEq

/-- What a bucket stores under a key. -/
@[reducible] def BucketName.Value : BucketName → Type
  | .jobs => JobState
  | .unique => String
  | .cron => CronJob
  | .workers => WorkerState
  | .workflows => WorkflowState
  | .queues => QueueMeta
  | .scheduled => String
  | .retry => String
  | .dead => String
  | .active => ActiveJobInfo
  | .stats => String

end OjsNats.Nats
