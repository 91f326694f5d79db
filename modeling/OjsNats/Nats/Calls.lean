import OjsNats.Nats.SchedulerHooks
import OjsNats.Nats.Fetch
import OjsNats.Nats.Cron

/-!
# The operations of the backend

Each operation with its arguments, and the program it runs.
-/

namespace OjsNats.Nats

open Core Effect

inductive Call where
  | push (job : Job)
  | pushBatch (jobs : List Job)
  | fetch (queues : List String) (count : Int) (workerID : String) (visibilityTimeoutMs : Int)
  | ack (jobID : String) (result : Option RawMessage)
  | nack (jobID : String) (jobErr : Option JobError) (requeue : Bool)
  | cancel (jobID : String)
  | heartbeat (workerID : String) (activeJobs : List String) (visibilityTimeoutMs : Int)
  | promoteScheduled
  | promoteRetries
  | requeueStalled
  | fireCronJobs
  | retryDeadLetter (jobID : String)
  | deleteDeadLetter (jobID : String)
  | createWorkflow (req : WorkflowRequest)
  | advanceWorkflow (workflowID jobID : String) (result : Option RawMessage) (failed : Bool)
  | cancelWorkflow (id : String)
  | registerCron (cronJob : CronJob)
  | deleteCron (name : String)
  | pauseQueue (name : String)
  | resumeQueue (name : String)
  | setWorkerState (workerID state : String)

/-- The operations without their arguments. -/
inductive Operation where
  | push | pushBatch | fetch | ack | nack | cancel | heartbeat | promoteScheduled | promoteRetries
  | requeueStalled | fireCronJobs | retryDeadLetter | deleteDeadLetter | createWorkflow
  | advanceWorkflow | cancelWorkflow | registerCron | deleteCron | pauseQueue | resumeQueue
  | setWorkerState
  deriving DecidableEq

def Call.operation : Call → Operation
  | .push _ => .push
  | .pushBatch _ => .pushBatch
  | .fetch _ _ _ _ => .fetch
  | .ack _ _ => .ack
  | .nack _ _ _ => .nack
  | .cancel _ => .cancel
  | .heartbeat _ _ _ => .heartbeat
  | .promoteScheduled => .promoteScheduled
  | .promoteRetries => .promoteRetries
  | .requeueStalled => .requeueStalled
  | .fireCronJobs => .fireCronJobs
  | .retryDeadLetter _ => .retryDeadLetter
  | .deleteDeadLetter _ => .deleteDeadLetter
  | .createWorkflow _ => .createWorkflow
  | .advanceWorkflow _ _ _ _ => .advanceWorkflow
  | .cancelWorkflow _ => .cancelWorkflow
  | .registerCron _ => .registerCron
  | .deleteCron _ => .deleteCron
  | .pauseQueue _ => .pauseQueue
  | .resumeQueue _ => .resumeQueue
  | .setWorkerState _ _ => .setWorkerState

/-- What an operation returns. -/
inductive Reply where
  | job (result : Result Job)
  | batch (jobs : List Job) (error : Option BackendError)
  | jobs (jobs : List Job)
  | acked (result : Result AckResponse)
  | nacked (result : Result NackResponse)
  | beat (response : HeartbeatResponse)
  | done (result : Result Unit)
  | workflow (result : Result Workflow)
  | cron (result : Result CronJob)
  | stored (result : Except CallError Unit)

def Call.program (lib : Externals) : Call → Prog Reply
  | .push job => do return .job (← Nats.push lib job)
  | .pushBatch jobs => do
      let (stored, error) ← Nats.pushBatch lib jobs
      return .batch stored error
  | .fetch queues count workerID visibilityTimeoutMs => do
      return .jobs (← Nats.fetch lib queues count workerID visibilityTimeoutMs)
  | .ack jobID result => do return .acked (← Nats.ack lib jobID result)
  | .nack jobID jobErr requeue => do return .nacked (← Nats.nack lib jobID jobErr requeue)
  | .cancel jobID => do return .job (← Nats.cancel lib jobID)
  | .heartbeat workerID activeJobs visibilityTimeoutMs => do
      return .beat (← Nats.heartbeat lib workerID activeJobs visibilityTimeoutMs)
  | .promoteScheduled => do return .done (← Nats.promoteScheduled lib)
  | .promoteRetries => do return .done (← Nats.promoteRetries lib)
  | .requeueStalled => do return .done (← Nats.requeueStalled lib)
  | .fireCronJobs => do return .done (← Nats.fireCronJobs lib)
  | .retryDeadLetter jobID => do return .job (← Nats.retryDeadLetter lib jobID)
  | .deleteDeadLetter jobID => do return .done (← Nats.deleteDeadLetter jobID)
  | .createWorkflow req => do return .workflow (← Nats.createWorkflow lib req)
  | .advanceWorkflow workflowID jobID result failed => do
      return .done (← advanceWorkflowState lib workflowID jobID result failed)
  | .cancelWorkflow id => do return .workflow (← Nats.cancelWorkflow lib id)
  | .registerCron cronJob => do return .cron (← Nats.registerCron lib cronJob)
  | .deleteCron name => do return .cron (← Nats.deleteCron name)
  | .pauseQueue name => do return .stored (← Nats.pauseQueue name)
  | .resumeQueue name => do return .stored (← Nats.resumeQueue name)
  | .setWorkerState workerID state => do return .stored (← Nats.setWorkerState workerID state)

/-- The job ids that the caller of an operation chose for new jobs. -/
def Call.clientIDs : Call → List String
  | .push job => [job.id].filter (· ≠ "")
  | .pushBatch jobs => (jobs.map Job.id).filter (· ≠ "")
  | _ => []

end OjsNats.Nats
