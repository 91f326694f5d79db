import OjsNats.Lifecycle.Enqueuing

/-!
# Workflows and cron entries move jobs

Both only push jobs of their own and cancel members; their records are in
buckets that hold no part of a slot.
-/

namespace OjsNats.Lifecycle

open Core Nats Effect Semantics Program

variable {lib : Externals}

theorem auxiliary_timeNow : timeNow.Uses Auxiliary := ⟨trivial, fun _ => trivial⟩

theorem putWorkflow_advances (wfState : WorkflowState) (id : String)
    {allowed : String → Move → Prop} : Advances lib allowed (putWorkflow wfState id) :=
  .of_sideline (sideline_putWorkflow wfState id)

theorem timeNow_advances {allowed : String → Move → Prop} : Advances lib allowed timeNow :=
  .of_auxiliary auxiliary_timeNow

theorem get_advances (b : BucketName) (k : String) {allowed : String → Move → Prop} :
    Advances lib allowed (Store.get b k) :=
  .of_auxiliary (auxiliary_get b k)

theorem getJobState_advances (k : String) {allowed : String → Move → Prop} :
    Advances lib allowed (getJobState k) :=
  .of_auxiliary (auxiliary_getJobState k)

theorem newUUIDv7_advances {allowed : String → Move → Prop} :
    Advances lib allowed newUUIDv7 :=
  fun _ _ => wp_newUUIDv7.mpr fun _ _ _ => evolves_generated

/-! ## Jobs without a client -/

/-- A new job that no client sent: nothing has happened to it and it has no unique policy. -/
structure Spawned (rec : JobState) : Prop where
  unique : rec.unique = none
  errors : rec.errors = []

/-- The moves that bring jobs no client sent. -/
def Spawns : String → Move → Prop := Brings fun _ rec => Spawned rec

/-- The moves that bring jobs of no client and no workflow. -/
def SpawnsLoose : String → Move → Prop := Brings fun _ rec => Spawned rec ∧ rec.workflowID = ""

theorem SpawnsLoose.spawns (j : String) (m : Move) (h : SpawnsLoose j m) : Spawns j m :=
  Brings.mono (fun _ _ new => new.1) j m h

/-- A job as workflows, callbacks and cron entries build it. -/
structure Unclaimed (job : Job) : Prop where
  id : job.id = ""
  unique : job.unique = none
  errors : job.errors = []

theorem Unclaimed.spawned {job : Job} (new : Unclaimed job) (j : String) (rec : JobState)
    (stored : Stores lib job j rec) : Spawned rec := by
  obtain ⟨state, now, rfl⟩ := stored
  exact ⟨by simp [marshalJobState, jobToState, enqueuedJob, freshJob, new.unique], new.errors⟩

theorem push_spawns {job : Job} (new : Unclaimed job) : Advances lib Spawns (push lib job) :=
  (push_advances job new.id new.unique).mono (Brings.mono new.spawned)

theorem push_spawnsLoose {job : Job} (new : Unclaimed job) (loose : job.workflowID = "") :
    Advances lib SpawnsLoose (push lib job) := by
  refine (push_advances job new.id new.unique).mono (Brings.mono fun j rec stored => ?_)
  refine ⟨new.spawned j rec stored, ?_⟩
  obtain ⟨state, now, rfl⟩ := stored
  exact loose

theorem unclaimed_workflowStepToJob (step : WorkflowJobRequest) (workflowID : String)
    (stepIdx : Int) : Unclaimed (workflowStepToJob step workflowID stepIdx) := by
  unfold workflowStepToJob
  dsimp only
  split
  · exact ⟨rfl, rfl, rfl⟩
  · split
    · exact ⟨rfl, rfl, rfl⟩
    · split <;> exact ⟨rfl, rfl, rfl⟩

theorem fireIf_advances (condition : Bool) (cb : Option WorkflowCallback) :
    Advances lib Spawns (fireIf lib condition cb) := by
  unfold fireIf
  split
  · exact .ite _ ((push_spawns ⟨rfl, rfl, rfl⟩).bind fun _ => .pure _) (.pure _)
  · exact .pure _

theorem fireBatchCallbacks_advances (wfState : WorkflowState) (hasFailure : Bool) :
    Advances lib Spawns (fireBatchCallbacks lib wfState hasFailure) := by
  unfold fireBatchCallbacks
  split
  · exact .pure _
  · exact (fireIf_advances _ _).bind fun _ => (fireIf_advances _ _).bind fun _ => fireIf_advances _ _

theorem enqueueChainStep_advances (workflowID : String) (wfState : WorkflowState) (stepIdx : Int) :
    Advances lib Spawns (enqueueChainStep lib workflowID wfState stepIdx) := by
  refine .ite _ (.pure _) (.ite _ (.pure _) ?_)
  split
  · exact .pure _
  · rename_i step _
    have plain := unclaimed_workflowStepToJob step workflowID stepIdx
    have new : Unclaimed { workflowStepToJob step workflowID stepIdx with
        parentResults := parentResults wfState stepIdx } :=
      ⟨plain.id, plain.unique, plain.errors⟩
    refine (push_spawns new).bind fun r => ?_
    cases r with
    | error e => exact .pure _
    | ok created => exact (putWorkflow_advances _ _).bind fun _ => .pure _

theorem advanceChain_advances (workflowID : String) (wfState : WorkflowState) (stepIdx : Int)
    (failed : Bool) : Advances lib Spawns (advanceChain lib workflowID wfState stepIdx failed) := by
  refine .ite _ ?_ (.ite _ ?_ ?_)
  · exact timeNow_advances.bind fun _ => (putWorkflow_advances _ _).bind fun _ => .pure _
  · exact timeNow_advances.bind fun _ => (putWorkflow_advances _ _).bind fun _ => .pure _
  · exact (putWorkflow_advances _ _).bind fun _ => enqueueChainStep_advances _ _ _

theorem advanceGroup_advances (workflowID : String) (wfState : WorkflowState) :
    Advances lib Spawns (advanceGroup lib workflowID wfState) := by
  refine (putWorkflow_advances _ _).bind fun _ => .ite _ ?_ (.pure _)
  refine timeNow_advances.bind fun _ => (putWorkflow_advances _ _).bind fun _ => .ite _ ?_ (.pure _)
  exact (fireBatchCallbacks_advances _ _).bind fun _ => .pure _

theorem advanceWorkflowState_advances (workflowID jobID : String) (result : Option RawMessage)
    (failed : Bool) :
    Advances lib Spawns (advanceWorkflowState lib workflowID jobID result failed) := by
  refine (get_advances .workflows workflowID).bind fun r => ?_
  cases r with
  | error e => exact .pure _
  | ok entry =>
    refine .ite _ (.pure _) ((getJobState_advances _).bind fun r => ?_)
    cases r with
    | ok job => exact .ite _ (advanceChain_advances _ _ _ _) (advanceGroup_advances _ _)
    | error e => exact .ite _ (advanceChain_advances _ _ _ _) (advanceGroup_advances _ _)

theorem advanceWorkflow_advances (jobID : String) (state : State) (result : Option RawMessage) :
    Advances lib Spawns (advanceWorkflow lib jobID state result) := by
  refine (getJobState_advances _).bind fun r => ?_
  cases r with
  | error e => exact .pure _
  | ok job =>
    exact .ite _ (.pure _) ((advanceWorkflowState_advances _ _ _ _).bind fun _ => .pure _)

/-! ## The workflow operations -/

theorem pushMembers_advances (wfID : String) (i : Nat) (steps : List WorkflowJobRequest)
    (ids : List String) : Advances lib Spawns (pushMembers lib wfID i steps ids) := by
  induction steps generalizing i ids with
  | nil => exact .pure _
  | cons step rest ih =>
    refine (push_spawns (unclaimed_workflowStepToJob _ _ _)).bind fun r => ?_
    cases r with
    | error e => exact .pure _
    | ok created => exact ih _ _

theorem createWorkflow_advances (req : WorkflowRequest) :
    Advances lib Spawns (createWorkflow lib req) := by
  refine timeNow_advances.bind fun _ => newUUIDv7_advances.bind fun wfID =>
    (putWorkflow_advances _ _).bind fun _ => .ite _ ?_ ?_
  · split
    · exact .pure _
    · refine (push_spawns (unclaimed_workflowStepToJob _ _ _)).bind fun r => ?_
      cases r with
      | error e => exact .pure _
      | ok created => exact (putWorkflow_advances _ _).bind fun _ => .pure _
  · refine (pushMembers_advances _ _ _ _).bind fun r => ?_
    cases r with
    | error e => exact .pure _
    | ok ids => exact (putWorkflow_advances _ _).bind fun _ => .pure _

theorem getWorkflow_advances (id : String) {allowed : String → Move → Prop} :
    Advances lib allowed (getWorkflow id) := by
  refine (get_advances .workflows id).bind fun r => ?_
  cases r <;> exact .pure _

theorem cancelMember_advances (jobID : String) : Advances lib Cancels (cancelMember lib jobID) := by
  refine (getJobState_advances _).bind fun r => ?_
  cases r with
  | error e => exact .pure _
  | ok job => exact .ite _ (.pure _) ((cancel_cancels _).bind fun _ => .pure _)

theorem cancelWorkflow_advances (id : String) : Advances lib Cancels (cancelWorkflow lib id) := by
  refine (getWorkflow_advances id).bind fun r => ?_
  cases r with
  | error e => exact .pure _
  | ok wf =>
    refine .ite _ (.pure _) ((get_advances .workflows id).bind fun _ => ?_)
    refine (Advances.forEach _ fun jobID _ _ => cancelMember_advances jobID).bind fun _ => ?_
    exact timeNow_advances.bind fun _ => (putWorkflow_advances _ _).bind fun _ => .pure _

/-! ## Cron -/

theorem updateCronNextRun_advances (cronJob : CronJob) (now : Int)
    {allowed : String → Move → Prop} : Advances lib allowed (updateCronNextRun lib cronJob now) :=
  .of_sideline (sideline_updateCronNextRun lib cronJob now)

theorem fireDue_advances (cronJob : CronJob) (now : Int) :
    Advances lib SpawnsLoose (fireDue lib cronJob now) := by
  refine (push_spawnsLoose ⟨rfl, rfl, rfl⟩ rfl).bind fun r => ?_
  cases r with
  | error e => exact .pure _
  | ok created =>
    refine .ite _ (Advances.bind ?_ fun _ => updateCronNextRun_advances _ _)
      (updateCronNextRun_advances _ _)
    exact .of_sideline (sideline_setCronInstance _ _)

theorem isCronInstanceRunning_advances (cronName : String) {allowed : String → Move → Prop} :
    Advances lib allowed (isCronInstanceRunning lib cronName) := by
  refine (get_advances .stats _).bind fun r => ?_
  cases r with
  | error e => exact .pure _
  | ok entry =>
    refine (getJobState_advances _).bind fun r => ?_
    cases r <;> exact .pure _

theorem fireCron_advances (now : Int) (cronJob : CronJob) :
    Advances lib SpawnsLoose (fireCron lib now cronJob) := by
  refine .ite _ (.pure _) ?_
  split
  · exact .pure _
  · refine .ite _ (.pure _) (.ite _ ?_ (fireDue_advances _ _))
    exact (isCronInstanceRunning_advances _).bind fun _ =>
      .ite _ (updateCronNextRun_advances _ _) (fireDue_advances _ _)

theorem keys_advances (b : BucketName) {allowed : String → Move → Prop} :
    Advances lib allowed (Store.keys b) := by
  refine .of_auxiliary ⟨trivial, fun r => ?_⟩
  match r with
  | .ok _ => trivial
  | .error .noKeysFound => trivial
  | .error .keyNotFound | .error .keyExists | .error .wrongRevision | .error .unavailable =>
    trivial

theorem cronGet_advances (name : String) {allowed : String → Move → Prop} :
    Advances lib allowed (CronStore.get name) := by
  refine (get_advances .cron name).bind fun r => ?_
  cases r <;> exact .pure _

theorem cronList_advances {allowed : String → Move → Prop} :
    Advances lib allowed CronStore.list := by
  refine (keys_advances .cron).bind fun r => ?_
  cases r with
  | error e => exact .pure _
  | ok keys =>
    refine (Advances.forEach _ fun key _ crons => ?_).bind fun _ => .pure _
    refine (cronGet_advances key).bind fun r => ?_
    cases r <;> exact .pure _

theorem fireCronJobs_advances : Advances lib SpawnsLoose (fireCronJobs lib) := by
  refine cronList_advances.bind fun r => ?_
  cases r with
  | error e => exact .pure _
  | ok crons =>
    exact timeNow_advances.bind fun now =>
      (Advances.forEach _ fun cronJob _ _ => fireCron_advances now cronJob).bind fun _ => .pure _

theorem registerCron_advances (cronJob : CronJob) {allowed : String → Move → Prop} :
    Advances lib allowed (registerCron lib cronJob) := by
  unfold registerCron
  split
  · exact .pure _
  · refine timeNow_advances.bind fun _ => ?_
    refine (Advances.of_sideline (sideline_put rfl _ _)).bind fun r => ?_
    cases r <;> exact .pure _

theorem deleteCron_advances (name : String) {allowed : String → Move → Prop} :
    Advances lib allowed (deleteCron name) := by
  refine (cronGet_advances name).bind fun r => ?_
  cases r with
  | error e => exact .pure _
  | ok cronJob =>
    have deletes : (CronStore.delete name).Uses Sideline := ⟨rfl, fun _ => trivial⟩
    refine (Advances.of_sideline deletes).bind fun r => ?_
    cases r <;> exact .pure _

end OjsNats.Lifecycle
