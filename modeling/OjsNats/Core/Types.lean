import Mathlib.Data.Rat.Defs
import Mathlib.Algebra.Ring.Int.Defs
import Mathlib.Algebra.Ring.Nat

/-!
# Jobs, workflows and cron entries

The shared types of `internal/core`.  Pointers that may be nil are options, raw
JSON is a parsed `Json` value, and the state constants are an enumeration.
Instants and durations are integers: nanoseconds, instants since the Unix epoch.
-/

namespace OjsNats.Core

/-- `time.Duration(ms) * time.Millisecond`, which wraps around at 64 bits. -/
def millisToDuration (ms : Int) : Int := (ms * 1000000).bmod (2 ^ 64)

/-- The values of a `time.Duration`. -/
def IsDuration (d : Int) : Prop := -(2 ^ 63) ≤ d ∧ d < 2 ^ 63

theorem isDuration_millisToDuration (ms : Int) : IsDuration (millisToDuration ms) := by
  unfold IsDuration millisToDuration
  have low := Int.le_bmod (x := ms * 1000000) (m := 2 ^ 64) (by decide)
  have high := Int.bmod_lt (x := ms * 1000000) (m := 2 ^ 64) (by decide)
  exact ⟨by simpa using low, by simpa using high⟩

/-- `now.UnixMilli()` -/
def unixMilli (t : Int) : Int := t / 1000000

inductive Json where
  | null
  | bool (value : Bool)
  | num (value : Rat)
  | str (value : String)
  | arr (items : List Json)
  | obj (fields : List (String × Json))
  deriving Inhabited

/-- `json.RawMessage`; an absent one is `none`. -/
abbrev RawMessage := Json

/-- The constants `StateAvailable` … `StateDiscarded`. -/
inductive State where
  | available
  | scheduled
  | pending
  | active
  | retryable
  | completed
  | cancelled
  | discarded
  deriving DecidableEq, Repr, Inhabited

/-- The text stored for a state. -/
def State.name : State → String
  | .available => "available"
  | .scheduled => "scheduled"
  | .pending => "pending"
  | .active => "active"
  | .retryable => "retryable"
  | .completed => "completed"
  | .cancelled => "cancelled"
  | .discarded => "discarded"

structure RetryPolicy where
  maxAttempts : Int := 0
  initialInterval : String := ""
  backoffCoefficient : Rat := 0
  maxInterval : String := ""
  jitter : Bool := false
  nonRetryableErrors : List String := []
  onExhaustion : String := ""

structure UniquePolicy where
  keys : List String := []
  period : String := ""
  onConflict : String := ""
  states : List String := []

structure RateLimitPolicy where
  maxPerSecond : Int := 0

structure Job where
  id : String := ""
  type : String := ""
  state : State := .available
  queue : String := ""
  args : Option RawMessage := none
  «meta» : Option RawMessage := none
  priority : Option Int := none
  attempt : Int := 0
  maxAttempts : Option Int := none
  timeoutMs : Option Int := none
  createdAt : String := ""
  enqueuedAt : String := ""
  startedAt : String := ""
  completedAt : String := ""
  cancelledAt : String := ""
  scheduledAt : String := ""
  result : Option RawMessage := none
  error : Option RawMessage := none
  errors : List RawMessage := []
  tags : List String := []
  retry : Option RetryPolicy := none
  unique : Option UniquePolicy := none
  expiresAt : String := ""
  retryDelayMs : Option Int := none
  parentResults : List RawMessage := []
  visibilityTimeoutMs : Option Int := none
  workflowID : String := ""
  workflowStep : Int := 0
  unknownFields : List (String × RawMessage) := []
  rateLimit : Option RateLimitPolicy := none
  isExisting : Bool := false

/-- What a worker reports about a failed attempt. -/
structure JobError where
  code : String := ""
  type : String := ""
  message : String := ""
  retryable : Option Bool := none
  details : Option (List (String × Json)) := none

structure EnqueueOptions where
  queue : String := ""
  retryPolicy : Option RetryPolicy := none
  retry : Option RetryPolicy := none

structure WorkflowJobRequest where
  name : String := ""
  type : String := ""
  args : Option RawMessage := none
  options : Option EnqueueOptions := none

structure WorkflowCallback where
  type : String := ""
  args : Option RawMessage := none
  options : Option EnqueueOptions := none

structure WorkflowCallbacks where
  onComplete : Option WorkflowCallback := none
  onSuccess : Option WorkflowCallback := none
  onFailure : Option WorkflowCallback := none

structure WorkflowRequest where
  name : String := ""
  type : String := ""
  steps : List WorkflowJobRequest := []
  jobs : List WorkflowJobRequest := []
  callbacks : Option WorkflowCallbacks := none

structure Workflow where
  id : String := ""
  name : String := ""
  type : String := ""
  state : String := ""
  stepsTotal : Option Int := none
  stepsCompleted : Option Int := none
  jobsTotal : Option Int := none
  jobsCompleted : Option Int := none
  createdAt : String := ""
  completedAt : String := ""

structure CronJobTemplate where
  type : String := ""
  args : Option RawMessage := none
  options : Option EnqueueOptions := none

structure CronJob where
  name : String := ""
  expression : String := ""
  schedule : String := ""
  timezone : String := ""
  overlapPolicy : String := ""
  enabled : Bool := false
  jobTemplate : Option CronJobTemplate := none
  queue : String := ""
  createdAt : String := ""
  lastRunAt : String := ""
  nextRunAt : String := ""

structure AckResponse where
  acknowledged : Bool
  id : String
  state : State
  completedAt : String
  job : Option Job

structure NackResponse where
  id : String
  state : State
  attempt : Int
  maxAttempts : Int
  nextAttemptAt : String := ""
  discardedAt : String := ""
  job : Option Job := none

structure HeartbeatResponse where
  state : String
  directive : String
  jobsExtended : List String
  serverTime : String

structure Stats where
  available : Int
  active : Int
  completed : Int

structure QueueStats where
  queue : String
  status : String
  stats : Stats

end OjsNats.Core
