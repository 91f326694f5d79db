import OjsNats.Lifecycle.Board
import OjsNats.Nats.Cron

/-!
# Programs beside the jobs

Queue records, counters, locks, workflows, worker and cron entries, consumers
and the cache of expressions are kept apart from the jobs.  The programs here
make calls on nothing else, so they leave every job alone.
-/

namespace OjsNats.Lifecycle

open Core Nats Effect Program

/-- The calls that neither read nor change anything that belongs to a job. -/
def Sideline : Op → Prop
  | .put b _ _ | .create b _ _ | .update b _ _ _ | .delete b _ | .get b _ => Foreign b = true
  | .now | .newUUIDv7 | .consumerFetch _ _ | .inflightStore _ _ | .inflightLoadAndDelete _
  | .publish _ _ => False
  | _ => True

theorem sideline_get {b : BucketName} (foreign : Foreign b = true) (k : String) :
    (Store.get b k).Uses Sideline :=
  ⟨foreign, fun _ => trivial⟩

theorem sideline_put {b : BucketName} (foreign : Foreign b = true) (k : String) (v : b.Value) :
    (Store.put b k v).Uses Sideline :=
  ⟨foreign, fun _ => trivial⟩

/-! ## Queues and counters -/

/-- The reads and writes of one bucket. -/
def OnlyOn (b : BucketName) : Op → Prop
  | .get b' _ | .put b' _ _ | .create b' _ _ | .update b' _ _ _ => b' = b
  | _ => False

theorem OnlyOn.sideline {b : BucketName} (foreign : Foreign b = true) {op : Op}
    (h : OnlyOn b op) : Sideline op := by
  cases op with
  | get | put | create | update =>
    obtain rfl := h
    exact foreign
  | _ => exact h.elim

/-- The reads and writes of one key. -/
def OnlyAt (b : BucketName) (k : String) : Op → Prop
  | .get b' k' | .put b' k' _ | .create b' k' _ | .update b' k' _ _ => b' = b ∧ k' = k
  | _ => False

theorem OnlyAt.onlyOn {b : BucketName} {k : String} {op : Op} (h : OnlyAt b k op) :
    OnlyOn b op := by
  cases op with
  | get | put | create | update => exact h.1
  | _ => exact h.elim

theorem onlyOn_updateJSONLoop (b : BucketName) (k : String)
    (unmarshal : b.Value → b.Value → b.Value) (mutate : b.Value → b.Value) (n : Nat)
    (target : b.Value) : (Store.updateJSONLoop b k unmarshal mutate n target).Uses (OnlyOn b) := by
  induction n generalizing target with
  | zero =>
    refine ⟨rfl, fun r => ?_⟩
    cases r <;> trivial
  | succ n ih =>
    refine ⟨rfl, fun r => ?_⟩
    cases r with
    | error e =>
      refine ⟨rfl, fun r => ?_⟩
      cases r with
      | ok _ => trivial
      | error _ => exact ih _
    | ok entry =>
      refine ⟨rfl, fun r => ?_⟩
      cases r with
      | ok _ => trivial
      | error _ => exact ih _

theorem onlyOn_updateQueueMeta (name : String) (mutate : QueueMeta → QueueMeta) :
    (updateQueueMeta name mutate).Uses (OnlyOn .queues) :=
  onlyOn_updateJSONLoop .queues name _ _ 3 _

theorem onlyOn_recordFetchTime (queue : String) (now : Int) :
    (recordFetchTime queue now).Uses (OnlyOn .queues) :=
  uses_bind (onlyOn_updateQueueMeta queue _) fun _ => trivial

theorem onlyOn_ensureQueue (name : String) : (ensureQueue name).Uses (OnlyOn .queues) := by
  refine uses_bind ⟨rfl, fun r => ?_⟩ fun found => ?_
  · cases r <;> trivial
  · cases found with
    | true => trivial
    | false => exact ⟨rfl, fun _ => trivial⟩

theorem onlyOn_storeRateLimit (job : Job) : (storeRateLimit job).Uses (OnlyOn .queues) := by
  unfold storeRateLimit
  split
  · split
    · exact uses_bind (onlyOn_updateQueueMeta _ _) fun _ => trivial
    · trivial
  · trivial

theorem onlyOn_isQueuePaused (name : String) : (isQueuePaused name).Uses (OnlyOn .queues) := by
  refine ⟨rfl, fun r => ?_⟩
  cases r <;> trivial

theorem onlyOn_isRateLimited (queue : String) (now : Int) :
    (isRateLimited queue now).Uses (OnlyOn .queues) := by
  refine ⟨rfl, fun r => ?_⟩
  cases r with
  | error e => trivial
  | ok entry =>
    simp only [bind_pure_left]
    split <;> trivial

/-- A completion is counted under one key. -/
theorem onlyAt_incrementCompleted (queue : String) :
    (incrementCompleted queue).Uses (OnlyAt .stats (kvStatsKey queue "completed")) := by
  have loop (key : String) (n : Nat) :
      (incrementCompletedLoop key n).Uses (OnlyAt .stats key) := by
    induction n with
    | zero => trivial
    | succ n ih =>
      refine ⟨⟨rfl, rfl⟩, fun r => ?_⟩
      cases r with
      | error e => exact ⟨⟨rfl, rfl⟩, fun _ => trivial⟩
      | ok entry =>
        refine ⟨⟨rfl, rfl⟩, fun r => ?_⟩
        cases r with
        | ok _ => trivial
        | error _ => exact ih
  exact loop _ 3

theorem onlyOn_incrementCompleted (queue : String) :
    (incrementCompleted queue).Uses (OnlyOn .stats) :=
  (onlyAt_incrementCompleted queue).mono fun _ => OnlyAt.onlyOn

theorem sideline_recordFetchTime (queue : String) (now : Int) :
    (recordFetchTime queue now).Uses Sideline :=
  (onlyOn_recordFetchTime queue now).mono fun _ => OnlyOn.sideline rfl

theorem sideline_ensureQueue (name : String) : (ensureQueue name).Uses Sideline :=
  (onlyOn_ensureQueue name).mono fun _ => OnlyOn.sideline rfl

theorem sideline_storeRateLimit (job : Job) : (storeRateLimit job).Uses Sideline :=
  (onlyOn_storeRateLimit job).mono fun _ => OnlyOn.sideline rfl

theorem sideline_isQueuePaused (name : String) : (isQueuePaused name).Uses Sideline :=
  (onlyOn_isQueuePaused name).mono fun _ => OnlyOn.sideline rfl

theorem sideline_isRateLimited (queue : String) (now : Int) :
    (isRateLimited queue now).Uses Sideline :=
  (onlyOn_isRateLimited queue now).mono fun _ => OnlyOn.sideline rfl

theorem sideline_incrementCompleted (queue : String) :
    (incrementCompleted queue).Uses Sideline :=
  (onlyOn_incrementCompleted queue).mono fun _ => OnlyOn.sideline rfl

theorem sideline_pauseQueue (name : String) : (pauseQueue name).Uses Sideline :=
  (onlyOn_updateQueueMeta name _).mono fun _ => OnlyOn.sideline rfl

theorem sideline_resumeQueue (name : String) : (resumeQueue name).Uses Sideline :=
  (onlyOn_updateQueueMeta name _).mono fun _ => OnlyOn.sideline rfl

theorem sideline_setWorkerState (workerID state : String) :
    (setWorkerState workerID state).Uses Sideline := by
  refine ⟨rfl, fun r => ?_⟩
  cases r <;> trivial

/-! ## Locks, workflows and cron entries -/

theorem sideline_putWorkflow (wfState : WorkflowState) (id : String) :
    (putWorkflow wfState id).Uses Sideline :=
  uses_bind (sideline_put rfl id wfState) fun _ => trivial

theorem sideline_updateCronNextRun (lib : Externals) (cronJob : CronJob) (now : Int) :
    (updateCronNextRun lib cronJob now).Uses Sideline := by
  unfold updateCronNextRun
  split
  · trivial
  · exact uses_bind (sideline_put rfl _ _) fun _ => trivial

theorem sideline_setCronInstance (cronName jobID : String) :
    (setCronInstance cronName jobID).Uses Sideline :=
  uses_bind (sideline_put rfl _ _) fun _ => trivial

/-! ## Expressions, consumers and in-progress marks -/

theorem sideline_matchesPattern (lib : Externals) (s pattern : String) :
    (matchesPattern lib s pattern).Uses Sideline := by
  refine ⟨trivial, fun cached => ?_⟩
  cases cached with
  | some re => trivial
  | none =>
    simp only [bind_pure_left]
    split
    · trivial
    · exact ⟨trivial, fun _ => trivial⟩

theorem sideline_matchesAny (lib : Externals) (jobErr : JobError) (patterns : List String) :
    (matchesAny lib jobErr patterns).Uses Sideline := by
  induction patterns with
  | nil => trivial
  | cons pattern rest ih =>
    refine uses_bind (sideline_matchesPattern lib _ pattern) fun found => ?_
    cases found with
    | true => trivial
    | false =>
      refine uses_bind (sideline_matchesPattern lib _ pattern) fun found => ?_
      cases found with
      | true => trivial
      | false => exact ih

theorem sideline_isNonRetryable (lib : Externals) (job : Job) (jobErr : Option JobError) :
    (isNonRetryable lib job jobErr).Uses Sideline := by
  unfold isNonRetryable
  split
  · trivial
  · split
    · trivial
    · split
      · trivial
      · exact sideline_matchesAny lib _ _

theorem sideline_getConsumer (queue : String) : (getConsumer queue).Uses Sideline := by
  refine ⟨trivial, fun cached => ?_⟩
  cases cached with
  | true => trivial
  | false =>
    refine ⟨trivial, fun ensured => ?_⟩
    cases ensured with
    | error e => trivial
    | ok _ => exact ⟨trivial, fun _ => trivial⟩

theorem sideline_inProgress (k : String) : (inProgress k).Uses Sideline := by
  refine ⟨trivial, fun tracked => ?_⟩
  cases tracked with
  | none => trivial
  | some msg => exact ⟨trivial, fun _ => trivial⟩

end OjsNats.Lifecycle
