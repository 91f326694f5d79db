import OjsNats.Lifecycle.Absence

/-!
# Who takes messages from the stream

Only a fetch does.  All other operations leave the messages in the stream, in their order, and
publish after them.
-/

namespace OjsNats.Lifecycle

open Core Nats Effect Semantics Program

/-- The calls that hand out no message. -/
def Undelivering : Op → Prop
  | .consumerFetch _ _ => False
  | _ => True

theorem Undelivering.grows {w t : World} {op : Op} {r : Ans op} (h : Undelivering op)
    (step : w.Serves op r t) : w.stream <+: t.stream := by
  cases op with
  | consumerFetch => exact h.elim
  | publish =>
    rw [step.2]
    exact List.prefix_append _ _
  | put | delete | newUUIDv7 | keys => simp_all [World.Serves]
  | create | update =>
    simp only [World.Serves] at step
    split at step <;> simp [step.2]
  | consumerStore | inflightStore | regexStore =>
    cases step
    exact List.prefix_rfl
  | now | calculateBackoff | get | consumerLoad | ensureConsumer | inflightLoad
  | inflightLoadAndDelete | msgAck | msgInProgress | regexLoad =>
    have same : t.stream = w.stream := by rw [step.2]
    exact same ▸ List.prefix_rfl

section Programs

variable {α β ε : Type} {lib : Externals} {allowed : Op → Prop}

/-- A program that goes on with the error or the value of another one. -/
theorem uses_result {p : Prog (Except ε α)} {f : Except ε α → Prog β} (first : p.Uses allowed)
    (error : ∀ e, (f (.error e)).Uses allowed) (ok : ∀ a, (f (.ok a)).Uses allowed) :
    (p.bind f).Uses allowed := by
  refine uses_bind first fun r => ?_
  cases r with
  | error e => exact error e
  | ok a => exact ok a

theorem OnlyOn.undelivering {b : BucketName} {op : Op} (h : OnlyOn b op) : Undelivering op := by
  cases op with
  | consumerFetch => exact h
  | _ => trivial

theorem ByPolicy.undelivering {op : Op} (h : ByPolicy op) : Undelivering op := by
  cases op with
  | consumerFetch => exact h
  | _ => trivial

theorem Sideline.undelivering {op : Op} (h : Sideline op) : Undelivering op := by
  cases op with
  | consumerFetch => exact h
  | _ => trivial

theorem undelivering_getJobState (k : String) : (getJobState k).Uses Undelivering :=
  (byPolicy_getJobState k).mono fun _ => ByPolicy.undelivering

theorem undelivering_info (k : String) : (info k).Uses Undelivering :=
  (byPolicy_info k).mono fun _ => ByPolicy.undelivering

theorem undelivering_ackMessage (k : String) : (ackMessage k).Uses Undelivering :=
  (byPolicy_ackMessage k).mono fun _ => ByPolicy.undelivering

theorem undelivering_cancel (k : String) : (cancel lib k).Uses Undelivering :=
  (byPolicy_cancel lib k).mono fun _ => ByPolicy.undelivering

theorem undelivering_publishJob (queue k : String) : (publishJob queue k).Uses Undelivering := by
  refine ⟨trivial, fun r => ?_⟩
  cases r <;> trivial

theorem undelivering_keys (b : BucketName) : (Store.keys b).Uses Undelivering := by
  refine ⟨trivial, fun r => ?_⟩
  match r with
  | .ok _ => trivial
  | .error .noKeysFound => trivial
  | .error .keyNotFound | .error .keyExists | .error .wrongRevision | .error .unavailable =>
    trivial

/-- One call of the storage. -/
theorem undelivering_ask {op : Op} (h : Undelivering op) :
    (Program.ask op : Prog (Ans op)).Uses Undelivering :=
  ⟨h, fun _ => trivial⟩

/-! ## Enqueuing -/

theorem undelivering_storeJob (now : Int) (job : Job) :
    (storeJob lib now job).Uses Undelivering := by
  have registers := (sideline_ensureQueue job.queue).mono fun _ => Sideline.undelivering
  have limits := (sideline_storeRateLimit job).mono fun _ => Sideline.undelivering
  refine uses_bind registers fun _ => uses_bind limits fun _ => uses_ite ?_ ?_
  · exact uses_result (undelivering_ask trivial) (fun _ => trivial) fun _ =>
      uses_bind (undelivering_ask trivial) fun _ => trivial
  · exact uses_result (undelivering_ask trivial) (fun _ => trivial) fun _ =>
      uses_result (undelivering_publishJob _ _) (fun _ => trivial) fun _ => trivial

theorem undelivering_newID {given : String} {rest : String → Prog α}
    (h : ∀ id, (rest id).Uses Undelivering) :
    (if given = "" then newUUIDv7.bind rest else rest given).Uses Undelivering :=
  uses_ite (uses_bind (undelivering_ask trivial) h) (h given)

theorem undelivering_push (job : Job) : (push lib job).Uses Undelivering := by
  refine uses_bind (undelivering_ask trivial) fun now => ?_
  simp only [bind_eq, pure_eq, bind_pure_left]
  refine undelivering_newID fun id => ?_
  split
  · exact undelivering_storeJob now _
  · have handles := (byPolicy_handleUnique lib (freshJob lib id now job)
      ‹UniquePolicy›).mono fun _ => ByPolicy.undelivering
    refine uses_bind handles fun early => ?_
    cases early with
    | some reply => trivial
    | none => exact undelivering_storeJob now _

theorem undelivering_pushBatch (jobs : List Job) : (pushBatch lib jobs).Uses Undelivering := by
  have loop (now : Int) (jobs done : List Job) :
      (pushBatchLoop lib now jobs done).Uses Undelivering := by
    induction jobs generalizing done with
    | nil => trivial
    | cons job rest ih =>
      simp only [pushBatchLoop, bind_eq, pure_eq, bind_pure_left]
      refine undelivering_newID fun id => uses_result (undelivering_ask trivial)
        (fun _ => trivial) fun _ => ?_
      have registers := (sideline_ensureQueue job.queue).mono fun _ => Sideline.undelivering
      exact uses_bind registers fun _ =>
        uses_result (undelivering_publishJob _ _) (fun _ => trivial) fun _ => ih _
  unfold pushBatch
  split
  · trivial
  · exact uses_bind (undelivering_ask trivial) fun now => loop now jobs []

/-! ## Cron entries -/

theorem undelivering_updateCronNextRun (cronJob : CronJob) (now : Int) :
    (updateCronNextRun lib cronJob now).Uses Undelivering :=
  (sideline_updateCronNextRun lib cronJob now).mono fun _ => Sideline.undelivering

theorem undelivering_cronGet (name : String) : (CronStore.get name).Uses Undelivering := by
  refine uses_bind (undelivering_ask trivial) fun r => ?_
  cases r <;> trivial

theorem undelivering_registerCron (cronJob : CronJob) :
    (registerCron lib cronJob).Uses Undelivering := by
  unfold registerCron
  split
  · trivial
  · exact uses_bind (undelivering_ask trivial) fun _ =>
      uses_result (undelivering_ask trivial) (fun _ => trivial) fun _ => trivial

theorem undelivering_deleteCron (name : String) : (deleteCron name).Uses Undelivering :=
  uses_result (undelivering_cronGet name) (fun _ => trivial) fun _ =>
    uses_result (undelivering_ask trivial) (fun _ => trivial) fun _ => trivial

theorem undelivering_fireDue (cronJob : CronJob) (now : Int) :
    (fireDue lib cronJob now).Uses Undelivering := by
  refine uses_result (undelivering_push _) (fun _ => trivial) fun created => uses_ite ?_
    (undelivering_updateCronNextRun _ _)
  exact uses_bind (uses_bind (undelivering_ask trivial) fun _ => trivial) fun _ =>
    undelivering_updateCronNextRun _ _

theorem undelivering_fireCron (now : Int) (cronJob : CronJob) :
    (fireCron lib now cronJob).Uses Undelivering := by
  have running (name : String) : (isCronInstanceRunning lib name).Uses Undelivering :=
    uses_result (undelivering_ask trivial) (fun _ => trivial) fun _ =>
      uses_result (undelivering_getJobState _) (fun _ => trivial) fun _ => trivial
  refine uses_ite trivial ?_
  split
  · trivial
  · refine uses_ite trivial (uses_ite ?_ (undelivering_fireDue _ _))
    exact uses_bind (running _) fun _ =>
      uses_ite (undelivering_updateCronNextRun _ _) (undelivering_fireDue _ _)

theorem undelivering_fireCronJobs : (fireCronJobs lib).Uses Undelivering := by
  have list : CronStore.list.Uses Undelivering := by
    refine uses_result (undelivering_keys .cron) (fun _ => trivial) fun keys => ?_
    refine uses_bind (uses_forEach _ fun key _ crons => ?_) fun _ => trivial
    exact uses_result (undelivering_cronGet key) (fun _ => trivial) fun _ => trivial
  refine uses_result list (fun _ => trivial) fun crons => ?_
  exact uses_bind (undelivering_ask trivial) fun now =>
    uses_bind (uses_forEach _ fun cronJob _ _ => undelivering_fireCron now cronJob)
      fun _ => trivial

/-! ## Workflows -/

theorem undelivering_putWorkflow (wfState : WorkflowState) (id : String) :
    (putWorkflow wfState id).Uses Undelivering :=
  uses_bind (undelivering_ask trivial) fun _ => trivial

theorem undelivering_fireBatchCallbacks (wfState : WorkflowState) (hasFailure : Bool) :
    (fireBatchCallbacks lib wfState hasFailure).Uses Undelivering := by
  have fires (condition : Bool) (cb : Option WorkflowCallback) :
      (fireIf lib condition cb).Uses Undelivering := by
    cases cb with
    | none => trivial
    | some cb => exact uses_ite (uses_bind (undelivering_push _) fun _ => trivial) trivial
  unfold fireBatchCallbacks
  split
  · trivial
  · exact uses_bind (fires _ _) fun _ => uses_bind (fires _ _) fun _ => fires _ _

theorem undelivering_enqueueChainStep (workflowID : String) (wfState : WorkflowState)
    (stepIdx : Int) : (enqueueChainStep lib workflowID wfState stepIdx).Uses Undelivering := by
  refine uses_ite trivial (uses_ite trivial ?_)
  split
  · trivial
  · exact uses_result (undelivering_push _) (fun _ => trivial) fun _ =>
      uses_bind (undelivering_putWorkflow _ _) fun _ => trivial

theorem undelivering_advanceWorkflowState (workflowID k : String) (result : Option RawMessage)
    (failed : Bool) : (advanceWorkflowState lib workflowID k result failed).Uses Undelivering := by
  have chain (wfState : WorkflowState) (stepIdx : Int) :
      (advanceChain lib workflowID wfState stepIdx failed).Uses Undelivering := by
    have finish (state : String) : (timeNow.bind fun now =>
        (putWorkflow (finishedWorkflow lib wfState state now) workflowID).bind fun _ =>
          (Program.pure (.ok ()) : Prog (Result Unit))).Uses Undelivering :=
      uses_bind (undelivering_ask trivial) fun _ =>
        uses_bind (undelivering_putWorkflow _ _) fun _ => trivial
    refine uses_ite (finish _) (uses_ite (finish _) ?_)
    exact uses_bind (undelivering_putWorkflow _ _) fun _ => undelivering_enqueueChainStep _ _ _
  have group (wfState : WorkflowState) :
      (advanceGroup lib workflowID wfState).Uses Undelivering := by
    refine uses_bind (undelivering_putWorkflow _ _) fun _ => uses_ite ?_ trivial
    refine uses_bind (undelivering_ask trivial) fun _ =>
      uses_bind (undelivering_putWorkflow _ _) fun _ => uses_ite ?_ trivial
    exact uses_bind (undelivering_fireBatchCallbacks _ _) fun _ => trivial
  refine uses_result (p := Program.ask (Op.get .workflows workflowID)) (undelivering_ask trivial)
    (fun _ => trivial) fun stored => uses_ite trivial ?_
  exact uses_result (undelivering_getJobState _) (fun _ => uses_ite (chain _ _) (group _))
    fun _ => uses_ite (chain _ _) (group _)

theorem undelivering_advanceWorkflow (k : String) (state : State) (result : Option RawMessage) :
    (advanceWorkflow lib k state result).Uses Undelivering :=
  uses_result (undelivering_getJobState k) (fun _ => trivial) fun _ => uses_ite trivial
    (uses_bind (undelivering_advanceWorkflowState _ _ _ _) fun _ => trivial)

theorem undelivering_createWorkflow (req : WorkflowRequest) :
    (createWorkflow lib req).Uses Undelivering := by
  have members (wfID : String) (i : Nat) (steps : List WorkflowJobRequest) (ids : List String) :
      (pushMembers lib wfID i steps ids).Uses Undelivering := by
    induction steps generalizing i ids with
    | nil => trivial
    | cons step rest ih =>
      exact uses_result (undelivering_push _) (fun _ => trivial) fun _ => ih _ _
  have finish (wfState : WorkflowState) (wfID : String) (wf : Workflow) :
      ((putWorkflow wfState wfID).bind fun _ =>
        (Program.pure (.ok wf) : Prog (Result Workflow))).Uses Undelivering :=
    uses_bind (undelivering_putWorkflow _ _) fun _ => trivial
  refine uses_bind (undelivering_ask trivial) fun _ => uses_bind (undelivering_ask trivial)
    fun wfID => uses_bind (undelivering_putWorkflow _ _) fun _ => uses_ite ?_ ?_
  · split
    · trivial
    · exact uses_result (undelivering_push _) (fun _ => trivial) fun _ => finish _ _ _
  · exact uses_result (members _ _ _ _) (fun _ => trivial) fun _ => finish _ _ _

theorem undelivering_cancelWorkflow (id : String) :
    (cancelWorkflow lib id).Uses Undelivering := by
  have reads : (getWorkflow id).Uses Undelivering :=
    uses_result (p := Program.ask (Op.get .workflows id)) (undelivering_ask trivial)
      (fun _ => trivial) fun _ => trivial
  refine uses_result reads (fun _ => trivial) fun wf => uses_ite trivial ?_
  refine uses_bind (p := Program.ask (Op.get .workflows id)) (undelivering_ask trivial)
    fun stored => uses_bind (uses_forEach _ fun k _ _ => ?_) fun _ => ?_
  · exact uses_result (undelivering_getJobState k) (fun _ => trivial) fun _ =>
      uses_ite trivial (uses_bind (undelivering_cancel _) fun _ => trivial)
  · exact uses_bind (undelivering_ask trivial) fun _ =>
      uses_bind (undelivering_putWorkflow _ _) fun _ => trivial

/-! ## Reports -/

theorem undelivering_ack (k : String) (result : Option RawMessage) :
    (ack lib k result).Uses Undelivering := by
  refine uses_result (undelivering_getJobState k) (fun _ => trivial) fun job => uses_ite trivial ?_
  refine uses_bind (undelivering_ask trivial) fun now =>
    uses_result (undelivering_ask trivial) (fun _ => trivial) fun _ =>
      uses_result (undelivering_ask trivial) (fun _ => trivial) fun _ =>
        uses_result (undelivering_ackMessage k) (fun _ => trivial) fun _ => ?_
  have counts := (sideline_incrementCompleted (completedJob lib now result job).queue).mono
    fun _ => Sideline.undelivering
  exact uses_bind counts fun _ => uses_bind (undelivering_advanceWorkflow _ _ _) fun _ =>
    uses_bind (undelivering_info _) fun _ => trivial

theorem undelivering_nack (k : String) (jobErr : Option JobError) (requeue : Bool) :
    (nack lib k jobErr requeue).Uses Undelivering := by
  have requeues (now : Int) (job : Job) : (nackRequeue lib k now job).Uses Undelivering :=
    uses_result (undelivering_ask trivial) (fun _ => trivial) fun _ =>
      uses_result (undelivering_ask trivial) (fun _ => trivial) fun _ =>
        uses_result (undelivering_ackMessage k) (fun _ => trivial) fun _ =>
          uses_result (undelivering_publishJob _ _) (fun _ => trivial) fun _ =>
            uses_bind (undelivering_info k) fun _ => trivial
  have buries (now : Int) (job : Job) : (deadLetter lib k now job).Uses Undelivering :=
    uses_ite (uses_result (undelivering_ask trivial) (fun _ => trivial) fun _ => trivial) trivial
  have discards (now newAttempt : Int) (errJSON : Option RawMessage) (job : Job) :
      (nackDiscard lib k now newAttempt errJSON job).Uses Undelivering :=
    uses_result (undelivering_ask trivial) (fun _ => trivial) fun _ =>
      uses_result (undelivering_ask trivial) (fun _ => trivial) fun _ =>
        uses_result (undelivering_ackMessage k) (fun _ => trivial) fun _ =>
          uses_result (buries _ _) (fun _ => trivial) fun _ =>
            uses_bind (undelivering_advanceWorkflow _ _ _) fun _ =>
              uses_bind (undelivering_info k) fun _ => trivial
  have retries (now newAttempt : Int) (errJSON : Option RawMessage) (job : Job) :
      (nackRetry lib k now newAttempt errJSON job).Uses Undelivering :=
    uses_bind (undelivering_ask trivial) fun _ =>
      uses_result (undelivering_ask trivial) (fun _ => trivial) fun _ =>
        uses_result (undelivering_ask trivial) (fun _ => trivial) fun _ =>
          uses_result (undelivering_ackMessage k) (fun _ => trivial) fun _ =>
            uses_result (undelivering_ask trivial) (fun _ => trivial) fun _ =>
              uses_bind (undelivering_info k) fun _ => trivial
  refine uses_result (undelivering_getJobState k) (fun _ => trivial) fun job => uses_ite trivial ?_
  refine uses_bind (undelivering_ask trivial) fun now => uses_ite (requeues now job) ?_
  have judges := (sideline_isNonRetryable lib
    (withError (jobErr.map (errorPayload job.attempt)) job) jobErr).mono
      fun _ => Sideline.undelivering
  exact uses_bind judges fun _ => uses_ite (discards _ _ _ _) (retries _ _ _ _)

theorem undelivering_heartbeat (workerID : String) (ids : List String) (timeout : Int) :
    (heartbeat lib workerID ids timeout).Uses Undelivering := by
  have extends_ (now : Int) (k : String) (extended : List String) :
      (extendLease lib workerID timeout now k extended).Uses Undelivering := by
    have progress := (sideline_inProgress k).mono fun _ => Sideline.undelivering
    exact uses_result (undelivering_getJobState k) (fun _ => trivial) fun _ => uses_ite trivial
      (uses_bind (undelivering_ask trivial) fun _ => uses_bind progress fun _ => trivial)
  have find (k : String) (found : Option String) : (findDirective k found).Uses Undelivering := by
    cases found with
    | some directive => trivial
    | none =>
      exact uses_result (undelivering_getJobState k) (fun _ => trivial) fun _ => trivial
  refine uses_bind (undelivering_ask trivial) fun now => uses_bind (undelivering_ask trivial)
    fun existing => uses_bind (undelivering_ask trivial) fun _ =>
      uses_bind (uses_forEach _ fun k _ extended => extends_ now k extended) fun extended =>
        uses_ite ?_ trivial
  exact uses_bind (uses_forEach _ fun k _ found => find k found) fun _ => trivial

/-! ## Passes and dead letters -/

theorem undelivering_pass {b : BucketName} {body : Int → String → FirstErr → Prog FirstErr}
    (turn : ∀ now k firstErr, (body now k firstErr).Uses Undelivering) :
    Program.Uses Undelivering (do
      match ← Store.keys b with
      | .error e => return (.error (.call e) : Result Unit)
      | .ok keys =>
          let now ← timeNow
          let firstErr ← Program.forEach keys none (body now)
          return passResult firstErr) :=
  uses_result (undelivering_keys b) (fun _ => trivial) fun _ =>
    uses_bind (undelivering_ask trivial) fun now =>
      uses_bind (uses_forEach _ fun k _ firstErr => turn now k firstErr) fun _ => trivial

theorem undelivering_promoteJob (b : BucketName) (what : String) (now : Int) (k : String)
    (firstErr : FirstErr) : (promoteJob lib b what now k firstErr).Uses Undelivering :=
  uses_result (undelivering_getJobState k)
    (fun _ => uses_bind (undelivering_ask trivial) fun _ => trivial) fun _ =>
      uses_result (undelivering_ask trivial) (fun _ => trivial) fun _ =>
        uses_result (undelivering_ask trivial) (fun _ => trivial) fun _ =>
          uses_result (undelivering_publishJob _ _) (fun _ => trivial) fun _ => trivial

theorem undelivering_promoteScheduled : (promoteScheduled lib).Uses Undelivering := by
  refine undelivering_pass fun now k firstErr =>
    uses_result (undelivering_ask trivial) (fun _ => trivial) fun entry => ?_
  dsimp only
  split
  · trivial
  · exact uses_ite trivial (undelivering_promoteJob _ _ _ _ _)

theorem undelivering_promoteRetries : (promoteRetries lib).Uses Undelivering := by
  refine undelivering_pass fun now k firstErr =>
    uses_result (undelivering_ask trivial) (fun _ => trivial) fun entry => ?_
  dsimp only
  split
  · trivial
  · exact uses_ite trivial (undelivering_promoteJob _ _ _ _ _)

theorem undelivering_requeueStalled : (requeueStalled lib).Uses Undelivering := by
  have requeues (now : Int) (k : String) (firstErr : FirstErr) :
      (requeueJob lib now k firstErr).Uses Undelivering := by
    have leaves : ((Store.delete .active k).bind fun _ =>
        (Program.pure firstErr : Prog FirstErr)).Uses Undelivering :=
      uses_bind (undelivering_ask trivial) fun _ => trivial
    refine uses_result (undelivering_getJobState k) (fun _ => leaves) fun job =>
      uses_ite leaves ?_
    exact uses_result (undelivering_ask trivial) (fun _ => trivial) fun _ =>
      uses_result (undelivering_ask trivial) (fun _ => trivial) fun _ =>
        uses_result (undelivering_ackMessage k) (fun _ => trivial) fun _ =>
          uses_result (undelivering_publishJob _ _) (fun _ => trivial) fun _ => trivial
  refine undelivering_pass fun now k firstErr =>
    uses_result (undelivering_ask trivial) (fun _ => trivial) fun entry => ?_
  dsimp only
  split
  · trivial
  · exact uses_ite (requeues _ _ _) trivial

theorem undelivering_exists? (b : BucketName) (k : String) :
    (Store.exists? b k).Uses Undelivering := by
  refine uses_bind (undelivering_ask trivial) fun r => ?_
  cases r <;> trivial

theorem undelivering_retryDeadLetter (k : String) :
    (retryDeadLetter lib k).Uses Undelivering := by
  refine uses_bind (undelivering_exists? .dead k) fun found => uses_ite ?_ trivial
  refine uses_bind (undelivering_ask trivial) fun now =>
    uses_result (undelivering_getJobState k) (fun _ => trivial) fun job => ?_
  exact uses_bind (undelivering_ask trivial) fun _ => uses_bind (undelivering_ask trivial) fun _ =>
    uses_bind (undelivering_publishJob _ _) fun _ => undelivering_info k

theorem undelivering_deleteDeadLetter (k : String) : (deleteDeadLetter k).Uses Undelivering := by
  refine uses_bind (undelivering_exists? .dead k) fun found => uses_ite ?_ trivial
  exact uses_result (undelivering_ask trivial) (fun _ => trivial) fun _ => trivial

/-! ## The operations -/

theorem undelivering_reply {p : Prog α} (f : α → Reply) (h : p.Uses Undelivering) :
    (p.bind fun a => .pure (f a)).Uses Undelivering :=
  uses_bind h fun _ => trivial

/-- No operation but a fetch takes messages. -/
theorem undelivering_program {call : Call} (other : call.operation ≠ .fetch) :
    (call.program lib).Uses Undelivering := by
  have beside {p : Prog (Except CallError Unit)} (h : p.Uses Sideline) :
      (p.bind fun a => .pure (Reply.stored a)).Uses Undelivering :=
    undelivering_reply _ (h.mono fun _ => Sideline.undelivering)
  cases call with
  | push job => exact undelivering_reply _ (undelivering_push job)
  | pushBatch jobs => exact undelivering_reply _ (undelivering_pushBatch jobs)
  | fetch queues count workerID timeout => exact absurd rfl other
  | ack k result => exact undelivering_reply _ (undelivering_ack k result)
  | nack k jobErr requeue => exact undelivering_reply _ (undelivering_nack k jobErr requeue)
  | cancel k => exact undelivering_reply _ (undelivering_cancel k)
  | heartbeat workerID ids timeout => exact undelivering_reply _ (undelivering_heartbeat _ _ _)
  | promoteScheduled => exact undelivering_reply _ undelivering_promoteScheduled
  | promoteRetries => exact undelivering_reply _ undelivering_promoteRetries
  | requeueStalled => exact undelivering_reply _ undelivering_requeueStalled
  | fireCronJobs => exact undelivering_reply _ undelivering_fireCronJobs
  | retryDeadLetter k => exact undelivering_reply _ (undelivering_retryDeadLetter k)
  | deleteDeadLetter k => exact undelivering_reply _ (undelivering_deleteDeadLetter k)
  | createWorkflow req => exact undelivering_reply _ (undelivering_createWorkflow req)
  | advanceWorkflow id k result failed =>
    exact undelivering_reply _ (undelivering_advanceWorkflowState id k result failed)
  | cancelWorkflow id => exact undelivering_reply _ (undelivering_cancelWorkflow id)
  | registerCron cronJob => exact undelivering_reply _ (undelivering_registerCron cronJob)
  | deleteCron name => exact undelivering_reply _ (undelivering_deleteCron name)
  | pauseQueue name => exact beside (sideline_pauseQueue name)
  | resumeQueue name => exact beside (sideline_resumeQueue name)
  | setWorkerState workerID state => exact beside (sideline_setWorkerState workerID state)

/-- It publishes after the messages that are there. -/
theorem stream_prefix {call : Call} (other : call.operation ≠ .fetch) {w t : World} {reply : Reply}
    (run : serves.Exec (call.program lib) w reply t) : w.stream <+: t.stream :=
  run.preserves (undelivering_program other) (P := fun v => w.stream <+: v.stream)
    (fun _ _ _ _ undelivering step before => before.trans (undelivering.grows step))
    List.prefix_rfl

end Programs

end OjsNats.Lifecycle
