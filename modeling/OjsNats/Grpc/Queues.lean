import OjsNats.Grpc.Retries
import OjsNats.Lifecycle.Naming

/-!
# The queues of the jobs that the server builds

Five functions build a job to push.  Three of them put a job without a queue into
the queue `default`; the two conversions of gRPC requests leave it without one.
-/

namespace OjsNats.Grpc

open Core Nats Lifecycle

/-- What `fireCallback` pushes. -/
def callbackJob (cb : WorkflowCallback) : Job :=
  { type := cb.type, args := cb.args, queue := optionsQueue cb.options }

/-- Where a job that is pushed comes from. -/
inductive Origin where
  | request (req : EnqueueRequest)
  | entry (req : BatchJobEntry)
  | member (step : WorkflowJobRequest) (workflowID : String) (stepIdx : Int)
  | callback (cb : WorkflowCallback)
  | cron (cronJob : CronJob)

namespace Origin

def job (clockwork : Clockwork) : Origin → Job
  | request req => enqueueRequestToJob clockwork req
  | entry req => enqueueJobRequestToJob req
  | member step workflowID stepIdx => workflowStepToJob step workflowID stepIdx
  | callback cb => callbackJob cb
  | cron cronJob => cronFiredJob cronJob

/-- The queue that the request names; it is empty if there is none. -/
def queue : Origin → String
  | request req => (req.options.map JobOptions.queue).getD ""
  | entry req => (req.options.map JobOptions.queue).getD ""
  | member step _ _ => (step.options.map EnqueueOptions.queue).getD ""
  | callback cb => (cb.options.map EnqueueOptions.queue).getD ""
  | cron cronJob => ((cronJob.jobTemplate.bind CronJobTemplate.options).map
      EnqueueOptions.queue).getD ""

/-- The builders with a default. -/
def Defaults : Origin → Prop
  | request _ | entry _ => False
  | member _ _ _ | callback _ | cron _ => True

instance : DecidablePred Defaults := fun origin =>
  match origin with
  | request _ | entry _ => isFalse id
  | member _ _ _ | callback _ | cron _ => isTrue trivial

end Origin

/-- There is a queue, and a subject for it without empty tokens. -/
structure NamesQueue (job : Job) : Prop where
  nonempty : job.queue ≠ ""
  tokens : ∀ token ∈ (queueJobsSubject job.queue).toList.splitOn '.', token ≠ []

section Queues

variable {lib : Externals} {clockwork : Clockwork} {origin : Origin} {job : Job}

theorem fireCallback_eq (cb : WorkflowCallback) : fireCallback lib cb =
    (do
      let _ ← push lib (callbackJob cb)
      return ()) :=
  rfl

theorem optionsQueue_eq (options : Option EnqueueOptions) : optionsQueue options =
    let queue := (options.map EnqueueOptions.queue).getD ""
    if queue = "" then "default" else queue := by
  cases options <;> rfl

theorem workflowStepToJob_queue (step : WorkflowJobRequest) (workflowID : String) (stepIdx : Int) :
    (workflowStepToJob step workflowID stepIdx).queue = optionsQueue step.options := by
  unfold workflowStepToJob
  split
  · rfl
  · split
    · rfl
    · split <;> rfl

theorem cronFiredJob_queue (cronJob : CronJob) : (cronFiredJob cronJob).queue =
    optionsQueue (cronJob.jobTemplate.bind CronJobTemplate.options) := by
  unfold cronFiredJob
  cases cronJob.jobTemplate with
  | none => rfl
  | some template => cases here : template.options <;> simp [optionsQueue, here]

/-- The queue of the request, or the default where there is one. -/
theorem job_queue (clockwork : Clockwork) (origin : Origin) : (origin.job clockwork).queue =
    if origin.Defaults ∧ origin.queue = "" then "default" else origin.queue := by
  cases origin with
  | request req =>
    unfold Origin.job enqueueRequestToJob
    cases here : req.options <;> simp [Origin.queue, Origin.Defaults, here]
  | entry req =>
    unfold Origin.job enqueueJobRequestToJob
    cases here : req.options <;> simp [Origin.queue, Origin.Defaults, here]
  | member step workflowID stepIdx =>
    rw [Origin.job, workflowStepToJob_queue, optionsQueue_eq]
    simp [Origin.queue, Origin.Defaults]
  | callback cb =>
    rw [Origin.job, callbackJob, optionsQueue_eq]
    simp [Origin.queue, Origin.Defaults]
  | cron cronJob =>
    rw [Origin.job, cronFiredJob_queue, optionsQueue_eq]
    simp [Origin.queue, Origin.Defaults]

theorem namesQueue_iff : NamesQueue job ↔ ∀ token ∈ job.queue.toList.splitOn '.', token ≠ [] := by
  constructor
  · intro names token mem
    refine names.tokens token ?_
    rw [tokens_queueJobsSubject]
    simp [mem]
  · intro tokens
    constructor
    · intro empty
      exact tokens [] (by simp [empty]) rfl
    · intro token mem
      rw [tokens_queueJobsSubject] at mem
      simp only [List.mem_cons, List.mem_append, List.not_mem_nil, or_false] at mem
      rcases mem with rfl | rfl | mem | rfl
      · decide
      · decide
      · exact tokens token mem
      · decide

/-- A job names its queue exactly if the request names one without empty tokens, or names
none where there is a default. -/
theorem namesQueue_job_iff (clockwork : Clockwork) (origin : Origin) :
    NamesQueue (origin.job clockwork) ↔
      (origin.Defaults ∧ origin.queue = "") ∨
        ∀ token ∈ origin.queue.toList.splitOn '.', token ≠ [] := by
  rw [namesQueue_iff, job_queue]
  split
  next defaulted =>
    refine ⟨fun _ => .inl defaulted, fun _ => ?_⟩
    decide
  next given =>
    constructor
    · exact .inr
    · rintro (defaulted | tokens)
      · exact absurd defaulted given
      · exact tokens

/-- A mail without options has no queue. -/
theorem not_namesQueue_job :
    ¬ ∀ origin : Origin, NamesQueue (origin.job sampleClockwork) := by
  intro names
  refine (names (.request { type := "mail" })).nonempty ?_
  rw [job_queue]
  rfl

end Queues

end OjsNats.Grpc
