import OjsNats.Lifecycle.Steering

/-!
# What a step does to the workflows

In a run whose jobs of workflows come from workflows only, each workflow record
lists the jobs of the workflow.  A step either leaves the records alone, or it
creates or cancels one workflow, or it settles one job and advances its workflow.
-/

namespace OjsNats.Nats

open Core

/-- An operation as the API sends it: no job of a client names a workflow, and a
workflow advances only when one of its jobs is settled. -/
def Call.Unforged : Call → Prop
  | .push job => job.workflowID = ""
  | .pushBatch jobs => ∀ job ∈ jobs, job.workflowID = ""
  | .advanceWorkflow _ _ _ _ => False
  | _ => True

end OjsNats.Nats

namespace OjsNats.Lifecycle

open Core Nats Effect Semantics Program Relation

variable {lib : Externals} {w t u : World}

/-! ## Terms of jobs -/

namespace Slot

variable {now : Int} {j : String} {m : Move} {s s' : Slot}

/-- The terms of a job stay as they are. -/
theorem Step.terms {stored : JobState} (step : Step lib now j m s s')
    (h : s.record = some stored) :
    ∃ stored', s'.record = some stored' ∧ stored'.terms = stored.terms := by
  cases step with
  | enqueue none | schedule none => simp [none] at h
  | claim some _ _ _ next | expire some _ _ next | complete some _ next | discard some _ next
  | retryLater some _ next | cancel some _ next =>
    cases h.symm.trans some
    exact ⟨_, rfl, next.terms⟩
  | requeue _ some _ next | promoteScheduled some _ next | promoteRetry some _ next
  | revive some _ next =>
    cases h.symm.trans some
    exact ⟨_, rfl, next.terms⟩
  | skip | extend | forget => exact ⟨stored, h, rfl⟩

theorem Evolves.terms {allowed : Move → Prop} {stored : JobState}
    (h : s.Evolves lib now j allowed s') (before : s.record = some stored) :
    ∃ stored', s'.record = some stored' ∧ stored'.terms = stored.terms := by
  induction h with
  | refl => exact ⟨stored, before, rfl⟩
  | tail _ step ih =>
    obtain ⟨m, -, step⟩ := step
    obtain ⟨middle, found, same⟩ := ih
    obtain ⟨after, found', same'⟩ := step.terms found
    exact ⟨after, found', same'.trans same⟩

/-- A job that is there afterwards was there before, or a move brought it. -/
theorem Evolves.origin {allowed : Move → Prop} {stored : JobState}
    (h : s.Evolves lib now j allowed s') (after : s'.record = some stored) :
    (∃ before, s.record = some before ∧ stored.terms = before.terms) ∨
    ∃ m new, allowed m ∧ (m = .enqueue new ∨ m = .schedule new) ∧ stored.terms = new.terms := by
  induction h generalizing stored with
  | refl => exact .inl ⟨stored, after, rfl⟩
  | @tail b c _ step ih =>
    obtain ⟨m, ok, step⟩ := step
    cases found : b.record with
    | some middle =>
      obtain ⟨after', found', same⟩ := step.terms found
      cases after.symm.trans found'
      refine (ih found).imp ?_ ?_
      · rintro ⟨before, first, terms⟩
        exact ⟨before, first, same.trans terms⟩
      · rintro ⟨m, new, ok, kind, terms⟩
        exact ⟨m, new, ok, kind, same.trans terms⟩
    | none =>
      rcases step.born (by simp [after]) with existing | ⟨new, kind⟩
      · exact absurd found existing
      · refine .inr ⟨m, new, ok, kind, ?_⟩
        rcases kind with rfl | rfl
        · cases step with
          | enqueue => cases after; rfl
          | requeue kind => simp at kind
        · cases step with
          | schedule => cases after; rfl
          | requeue kind => simp at kind

end Slot

/-! ## The kinds of steps -/

/-- The moves of a step that advances no workflow: it brings no job of a workflow, settles
no job of a running workflow, and cancels jobs that locks name or by `Cancel`. -/
structure Idles (lib : Externals) (w : World) (event : Event) (j : String) (m : Move) : Prop where
  ok : event.moves lib j m
  loose : ∀ new, m = .enqueue new ∨ m = .schedule new → new.workflowID = ""
  unreported : m = .discard ∨ (∃ result, m = .complete result) → reportsTo w j = none
  cancels : m = .cancel → (∃ reply, event = .call (.cancel j) reply) ∨ LockNames w j

/-- The workflow records stay, and every job makes idle moves. -/
structure Quiet (lib : Externals) (w : World) (event : Event) (t : World) : Prop where
  workflows : ∀ id, t.value .workflows id = w.value .workflows id
  slots : ∀ j, (w.slot j).Evolves lib w.clock j (Idles lib w event j) (t.slot j)
  acked : ∀ k result reply, event = .call (.ack k result) (.acked (.ok reply)) →
    (w.slot k).state = some .active ∧ (t.slot k).state = some .completed ∧ reportsTo w k = none

/-- The event is an accepted report on a job: an `Ack` with its result, or a `Nack`. -/
inductive Event.Reported : Event → String → Option RawMessage → Bool → Prop
  | ack {k : String} {result : Option RawMessage} {reply : AckResponse} :
      Reported (.call (.ack k result) (.acked (.ok reply))) k result false
  | nack {k : String} {jobErr : Option JobError} {requeue : Bool} {reply : NackResponse} :
      Reported (.call (.nack k jobErr requeue) (.nacked (.ok reply))) k none true

/-- The move of a job that is settled. -/
def settlement (result : Option RawMessage) (failed : Bool) : Move :=
  if failed then .discard else .complete result

/-- A job of a running workflow is settled, and the workflow advances. -/
structure Advanced (lib : Externals) (w : World) (event : Event) (t : World)
    (k workflowID : String) (wfState : WorkflowState) (result : Option RawMessage) (failed : Bool)
    (ids : List String) : Prop where
  reported : event.Reported k result failed
  reporting : reportsTo w k = some (workflowID, wfState)
  settled : ∃ s u, Slot.Step lib w.clock k (settlement result failed) (w.slot k) s ∧
    Moved k s w u ∧ Steered lib workflowID
      (notedWorkflow (settledWorkflow lib w.clock wfState (stepOf w k) result failed) ids)
      (successorJobs workflowID wfState (stepOf w k) result failed) ids u t

/-- A workflow that is not over is cancelled with the jobs of its list. -/
structure Stopped (lib : Externals) (w t : World) (workflowID : String)
    (wfState : WorkflowState) : Prop where
  before : w.value .workflows workflowID = some wfState
  live : ¬ (wfState.state = "completed" ∨ wfState.state = "failed" ∨ wfState.state = "cancelled")
  evolves : Evolves lib (fun j m => j ∈ wfState.jobIDs ∧ m = .cancel) w t
  closed : ∀ k ∈ wfState.jobIDs, Over lib t k
  after : t.value .workflows workflowID = some (finishedWorkflow lib wfState "cancelled" w.clock)
  aside : ∀ id, id ≠ workflowID → t.value .workflows id = w.value .workflows id

/-- What a step of a run does to the workflows. -/
inductive WorkflowStep (lib : Externals) (w : World) (event : Event) (t : World) : Prop
  | quiet : Quiet lib w event t → WorkflowStep lib w event t
  | advanced {k workflowID : String} {wfState : WorkflowState} {result : Option RawMessage}
      {failed : Bool} {ids : List String} :
      Advanced lib w event t k workflowID wfState result failed ids → WorkflowStep lib w event t
  | created {req : WorkflowRequest} {reply : Reply} {workflowID : String} {ids : List String} :
      event = .call (.createWorkflow req) reply → workflowID ≠ "" → workflowID ∉ w.used →
      Steered lib workflowID
        { newWorkflowState lib workflowID req (requestedJobs req) w.clock with jobIDs := ids }
        (initialJobs workflowID req) ids { w with used := workflowID :: w.used } t →
      WorkflowStep lib w event t
  | stopped {workflowID : String} {reply : Reply} {wfState : WorkflowState} :
      event = .call (.cancelWorkflow workflowID) reply → Stopped lib w t workflowID wfState →
      WorkflowStep lib w event t

/-- The jobs that an operation brings without steering a workflow belong to none. -/
theorem moves_loose {call : Call} {j : String} {m : Move} {new : JobState}
    (ok : moves lib call j m) (unforged : call.Unforged) (steers : ¬ call.Steers)
    (kind : m = .enqueue new ∨ m = .schedule new) : new.workflowID = "" := by
  have brought {kinds : String → JobState → Prop} (h : Brings kinds j m) : kinds j new := by
    obtain ⟨rec', kind', holds⟩ := h
    rcases kind with rfl | rfl <;> rcases kind' with eq | eq <;> cases eq <;> exact holds
  cases call with
  | push job =>
    rcases ok with brings | rfl
    · obtain ⟨state, now, rfl⟩ := brought brings
      exact unforged
    · simp at kind
  | pushBatch jobs =>
    obtain ⟨job, mem, now, rfl⟩ := brought ok
    exact unforged job mem
  | fireCronJobs =>
    have spawned := brought (show Brings (fun _ rec => Spawned rec ∧ rec.workflowID = "") j m from ok)
    exact spawned.2
  | fetch => rcases ok with rfl | rfl | rfl <;> simp at kind
  | cancel | heartbeat | retryDeadLetter | deleteDeadLetter =>
    obtain ⟨-, rfl⟩ := ok
    simp at kind
  | promoteScheduled | promoteRetries | requeueStalled =>
    cases ok
    simp at kind
  | registerCron | deleteCron | pauseQueue | resumeQueue | setWorkerState => exact ok.elim
  | ack | nack | createWorkflow | advanceWorkflow | cancelWorkflow => exact absurd trivial steers

/-- Only reports settle jobs, and only pushes and cancellations cancel them. -/
theorem moves_unsteered {call : Call} {j : String} {m : Move} (ok : moves lib call j m)
    (steers : ¬ call.Steers) : m ≠ .discard ∧ (∀ result, m ≠ .complete result) ∧
      (m = .cancel → call = .cancel j ∨ ∃ job, call = .push job) := by
  have brought {kinds : String → JobState → Prop} (h : Brings kinds j m) :
      m ≠ .discard ∧ (∀ result, m ≠ .complete result) ∧ m ≠ .cancel := by
    obtain ⟨rec', rfl | rfl, -⟩ := h <;> simp
  cases call with
  | push job =>
    rcases ok with brings | rfl
    · exact ⟨(brought brings).1, (brought brings).2.1, fun _ => .inr ⟨job, rfl⟩⟩
    · simp
  | pushBatch jobs =>
    exact ⟨(brought ok).1, (brought ok).2.1, fun same => absurd same (brought ok).2.2⟩
  | fireCronJobs =>
    have spawns : Brings (fun _ rec => Spawned rec ∧ rec.workflowID = "") j m := ok
    exact ⟨(brought spawns).1, (brought spawns).2.1, fun same => absurd same (brought spawns).2.2⟩
  | fetch => rcases ok with rfl | rfl | rfl <;> simp
  | cancel =>
    obtain ⟨rfl, rfl⟩ := ok
    simp
  | heartbeat | retryDeadLetter | deleteDeadLetter =>
    obtain ⟨-, rfl⟩ := ok
    simp
  | promoteScheduled | promoteRetries | requeueStalled =>
    cases ok
    simp
  | registerCron | deleteCron | pauseQueue | resumeQueue | setWorkerState => exact ok.elim
  | ack | nack | createWorkflow | advanceWorkflow | cancelWorkflow => exact absurd trivial steers

/-! ## Reports -/

section Reports

variable {k : String} {m : Move} {s : Slot} {event : Event}

theorem workflowID_of_terms {stored stored' : JobState} (same : stored'.terms = stored.terms) :
    stored'.workflowID = stored.workflowID :=
  show stored'.terms.workflowID = stored.terms.workflowID by rw [same]

theorem workflowStep_of_terms {stored stored' : JobState} (same : stored'.terms = stored.terms) :
    stored'.workflowStep = stored.workflowStep :=
  show stored'.terms.workflowStep = stored.terms.workflowStep by rw [same]

/-- A job that moves stays in its workflow. -/
theorem Moved.reportsTo (moved : Moved k s w u) {stored : JobState}
    (before : (w.slot k).record = some stored)
    (step : Slot.Step lib w.clock k m (w.slot k) s) :
    reportsTo u k = reportsTo w k ∧ stepOf u k = stepOf w k := by
  obtain ⟨stored', after, same⟩ := step.terms before
  rw [← moved.slot] at after
  have workflows (id : String) : u.value .workflows id = w.value .workflows id :=
    value_of_kv (moved.kv .workflows rfl) id
  constructor
  · unfold Lifecycle.reportsTo
    simp only [before, after, workflowID_of_terms same, workflows]
  · unfold stepOf
    simp only [before, after, workflowStep_of_terms same]

/-- A single idle move of a job. -/
theorem Moved.quiet (moved : Moved k s w u) (step : Slot.Step lib w.clock k m (w.slot k) s)
    (idles : Idles lib w event k m)
    (acked : ∀ k' result reply, event = .call (.ack k' result) (.acked (.ok reply)) →
      (w.slot k').state = some .active ∧ (u.slot k').state = some .completed ∧
        Lifecycle.reportsTo w k' = none) :
    Quiet lib w event u where
  workflows := value_of_kv (moved.kv .workflows rfl)
  slots := by
    intro j
    by_cases same : j = k
    · subst same
      exact ReflTransGen.single ⟨m, idles, moved.slot ▸ step⟩
    · rw [moved.others j same]
      exact ReflTransGen.refl
  acked := acked

theorem Quiet.refl (refused : ∀ k result reply, event ≠ .call (.ack k result) (.acked (.ok reply))) :
    Quiet lib w event w where
  workflows := fun _ => rfl
  slots := fun _ => ReflTransGen.refl
  acked := fun k result reply same => absurd same (refused k result reply)

theorem wp_ack_workflows (sound : Sound w) (k : String) (result : Option RawMessage) :
    serves.wp (ack lib k result)
      (fun r t => WorkflowStep lib w (.call (.ack k result) (.acked r)) t) w := by
  refine wp_ack sound (fun _ _ => .quiet (.refl (by simp))) fun s u step moved => ?_
  obtain ⟨stored, before, active, after⟩ : ∃ stored, (w.slot k).record = some stored ∧
      stored.state = .active ∧ s.state = some .completed := by
    cases step with
    | complete some state next => exact ⟨_, some, state, by simp [Slot.state, next.state]⟩
    | requeue kind => simp at kind
  obtain ⟨reports, steps⟩ := moved.reportsTo before step
  have sound' : Sound u := moved.sound step (by simp [before]) sound
  refine wp_advanceWorkflow sound' (fun none reply => .quiet ?_)
    fun workflowID wfState found ids t steered reply => ?_
  · refine moved.quiet step ⟨.inl ⟨rfl, rfl⟩, by simp, fun _ => reports ▸ none, by simp⟩ ?_
    rintro k' result' reply' same
    cases same
    exact ⟨by simp [Slot.state, before, active], by rw [moved.slot, after], reports ▸ none⟩
  · rw [steps, moved.clock] at steered
    exact .advanced ⟨.ack, reports ▸ found, s, u, step, moved, steered⟩

theorem wp_nack_workflows (sound : Sound w) (k : String) (jobErr : Option JobError)
    (requeue : Bool) : serves.wp (nack lib k jobErr requeue)
      (fun r t => WorkflowStep lib w (.call (.nack k jobErr requeue) (.nacked r)) t) w := by
  refine wp_nack sound (fun _ _ => .quiet (.refl (by simp))) (fun again s u reply step moved => ?_)
    (fun fails s u reply step moved => ?_) (fun fails s u step moved => ?_)
  · refine .quiet (moved.quiet step ⟨.inl ⟨rfl, .inl ⟨rfl, again⟩⟩, ?_, ?_, ?_⟩ ?_) <;> simp
  · refine .quiet (moved.quiet step ⟨.inl ⟨rfl, .inr ⟨.inr rfl, fails⟩⟩, ?_, ?_, ?_⟩ ?_) <;> simp
  · obtain ⟨stored, before⟩ : ∃ stored, (w.slot k).record = some stored := by
      cases step with
      | discard some => exact ⟨_, some⟩
      | requeue kind => simp at kind
    obtain ⟨reports, steps⟩ := moved.reportsTo before step
    have sound' : Sound u := moved.sound step (by simp [before]) sound
    refine wp_advanceWorkflow sound' (fun none reply => .quiet ?_)
      fun workflowID wfState found ids t steered reply => ?_
    · refine moved.quiet step ⟨.inl ⟨rfl, .inr ⟨.inl rfl, fails⟩⟩, by simp, fun _ => reports ▸ none,
        by simp⟩ (by simp)
    · rw [steps, moved.clock] at steered
      exact .advanced ⟨.nack, reports ▸ found, s, u, step, moved, steered⟩

end Reports

/-- Every step of a run is of one of the kinds. -/
theorem Step.onWorkflows {event : Event} (step : Step lib w event t) (sound : Sound w)
    (unforged : event.Meets Call.Unforged) : WorkflowStep lib w event t := by
  cases step with
  | tick => exact .quiet ⟨fun _ => rfl, fun _ => ReflTransGen.refl, by simp⟩
  | call fresh run =>
    rename_i call reply
    by_cases steers : call.Steers
    · cases call with
      | ack k result =>
        obtain ⟨r, rfl, ends⟩ := exec_reply run
        exact wp_ack_workflows sound k result r t ends
      | nack k jobErr requeue =>
        obtain ⟨r, rfl, ends⟩ := exec_reply run
        exact wp_nack_workflows sound k jobErr requeue r t ends
      | createWorkflow req =>
        obtain ⟨r, rfl, ends⟩ := exec_reply run
        exact wp_createWorkflow (Q := fun r t => WorkflowStep lib w
          (.call (.createWorkflow req) (.workflow r)) t) sound
          (fun workflowID reply ids t nonempty unused steered =>
            .created rfl nonempty unused steered) r t ends
      | cancelWorkflow workflowID =>
        obtain ⟨r, rfl, ends⟩ := exec_reply run
        exact wp_cancelWorkflow (Q := fun r t => WorkflowStep lib w
          (.call (.cancelWorkflow workflowID) (.workflow r)) t) sound
          (fun _ => .quiet (.refl (by simp)))
          (fun wfState before live reply t evolves closed after aside =>
            .stopped rfl ⟨before, live, evolves, closed, after, aside⟩) r t ends
      | advanceWorkflow => exact absurd unforged id
      | _ => exact absurd steers id
    · have kv := kv_of_spares (spares_workflows lib steers) run
      have workflows (id : String) : t.value .workflows id = w.value .workflows id :=
        value_of_kv kv id
      have acked (k : String) (result : Option RawMessage) (reply' : AckResponse) :
          Event.call call reply ≠ .call (.ack k result) (.acked (.ok reply')) := by
        rintro same
        cases same
        exact steers trivial
      refine .quiet ⟨workflows, fun j => ?_, fun k result reply' same =>
        absurd same (acked k result reply')⟩
      by_cases pushes : ∃ job, call = .push job
      · obtain ⟨job, rfl⟩ := pushes
        obtain ⟨r, rfl, ends⟩ := exec_reply run
        have given (nonempty : job.id ≠ "") : Reserved (w.accept (.push job)) job.id :=
          .of_fresh fresh (by simp [Call.clientIDs, nonempty]) nonempty
        have evolves := (wp_push_takes (sound.accept _) given r t ends).1
        refine (evolves.slots j).mono fun m ok => ?_
        have allowed : moves lib (.push job) j m := Supplants.pushes j m ok
        obtain ⟨kept, unfinished, -⟩ := moves_unsteered allowed steers
        refine ⟨allowed, fun new kind => moves_loose allowed unforged steers kind, ?_, ?_⟩
        · rintro (discard | ⟨result, complete⟩)
          · exact absurd discard kept
          · exact absurd complete (unfinished result)
        · rintro rfl
          rcases ok with ⟨new, kind, -⟩ | ⟨-, named⟩
          · simp at kind
          · exact .inr named
      · refine ((call_evolves sound fresh reply t run).slots j).mono fun m ok => ?_
        obtain ⟨kept, unfinished, cancels⟩ := moves_unsteered ok steers
        refine ⟨ok, fun new kind => moves_loose ok unforged steers kind, ?_, fun same => ?_⟩
        · rintro (discard | ⟨result, complete⟩)
          · exact absurd discard kept
          · exact absurd complete (unfinished result)
        · rcases cancels same with rfl | pushed
          · exact .inl ⟨reply, rfl⟩
          · exact absurd pushed pushes

/-! ## The jobs of the workflows -/

/-- The jobs that a workflow record lists. -/
def roster (w : World) (id : String) : List String :=
  match w.value .workflows id with
  | some wfState => wfState.jobIDs
  | none => []

theorem roster_of_value {id : String} {wfState : WorkflowState}
    (h : w.value .workflows id = some wfState) : roster w id = wfState.jobIDs := by
  rw [roster, h]

theorem roster_eq {id : String} (same : t.value .workflows id = w.value .workflows id) :
    roster t id = roster w id := by
  rw [roster, same, roster]

/-- The job belongs to the workflow. -/
def Member (w : World) (id k : String) : Prop :=
  ∃ stored, (w.slot k).record = some stored ∧ stored.workflowID = id

/-- Each workflow record lists the jobs of the workflow, none of which expires or is named
by a lock. -/
structure Linked (w : World) : Prop where
  known : ∀ id wfState, w.value .workflows id = some wfState → id ∈ w.used ∧ id ≠ ""
  nodup : ∀ id, (roster w id).Nodup
  listed : ∀ id k, k ∈ roster w id → Member w id k
  owned : ∀ k stored, (w.slot k).record = some stored → stored.workflowID ≠ "" →
    stored.expiresAt = "" ∧ k ∈ roster w stored.workflowID
  unlocked : ∀ k, LockNames w k → k ∈ w.used ∧ k ≠ "" ∧ ∀ stored,
    (w.slot k).record = some stored → stored.workflowID = ""

theorem Linked.start (clock : Int) : Linked (World.start clock) where
  known := fun _ _ found => by cases found
  nodup := fun _ => List.nodup_nil
  listed := fun _ _ mem => nomatch mem
  owned := fun _ _ found => by cases found
  unlocked := fun _ ⟨_, found⟩ => by cases found

/-- The jobs after a step: those from before, on the same terms, and the pushed ones. -/
structure Peopled (lib : Externals) (jobs : List Job) (ids : List String) (w t : World) :
    Prop where
  kept : ∀ k stored, (w.slot k).record = some stored →
    ∃ stored', (t.slot k).record = some stored' ∧ stored'.terms = stored.terms
  origin : ∀ k stored', (t.slot k).record = some stored' →
    (∃ stored, (w.slot k).record = some stored ∧ stored'.terms = stored.terms) ∨
    stored'.workflowID = "" ∨ ∃ job ∈ jobs, k ∈ ids ∧
      stored'.workflowID = job.workflowID ∧ stored'.expiresAt = job.expiresAt
  pushed : ∀ k job, (k, job) ∈ ids.zip jobs → ∃ stored', (t.slot k).record = some stored' ∧
    stored'.workflowID = job.workflowID

theorem Quiet.peopled {event : Event} (quiet : Quiet lib w event t) : Peopled lib [] [] w t where
  kept := fun k _ found => (quiet.slots k).terms found
  origin := by
    intro k stored' found
    refine (quiet.slots k).origin found |>.imp id fun ⟨m, new, ok, kind, same⟩ => .inl ?_
    rw [workflowID_of_terms same, ok.loose new kind]
  pushed := fun _ _ mem => nomatch mem

theorem Stopped.peopled {workflowID : String} {wfState : WorkflowState}
    (stopped : Stopped lib w t workflowID wfState) : Peopled lib [] [] w t where
  kept := fun k _ found => (stopped.evolves.slots k).terms found
  origin := by
    intro k stored' found
    refine (stopped.evolves.slots k).origin found |>.imp id fun ⟨m, new, ok, kind, _⟩ => ?_
    rw [ok.2] at kind
    simp at kind
  pushed := fun _ _ mem => nomatch mem

/-- The record of a pushed job. -/
theorem Pushed.record {jobs : List Job} {ids : List String} (pushed : Pushed lib jobs ids w t)
    {k : String} {job : Job} (mem : (k, job) ∈ ids.zip jobs) : ∃ state,
      (t.slot k).record = some (storedRecord lib state w.clock (freshJob lib k w.clock job)) := by
  rw [pushed.slots k job mem]
  unfold storedSlot
  split
  · exact ⟨.scheduled, rfl⟩
  · exact ⟨.available, rfl⟩

theorem Pushed.peopled {jobs : List Job} {ids : List String} (pushed : Pushed lib jobs ids w t)
    (sound : Sound w) : Peopled lib jobs ids w t where
  kept := by
    intro k stored found
    have known : k ∈ w.used := (sound.known k (by simp [found])).1
    rw [pushed.others k fun mem => (pushed.fresh k mem).2 known]
    exact ⟨stored, found, rfl⟩
  origin := by
    intro k stored' found
    by_cases mem : k ∈ ids
    · obtain ⟨i, bound, rfl⟩ := List.mem_iff_getElem.mp mem
      have bound' : i < jobs.length := pushed.length ▸ bound
      have pair : (ids[i], jobs[i]) ∈ ids.zip jobs :=
        List.mem_iff_getElem.mpr ⟨i, by simp [bound, bound'], by simp⟩
      obtain ⟨state, stored⟩ := pushed.record pair
      cases found.symm.trans stored
      exact .inr (.inr ⟨jobs[i], List.getElem_mem bound', mem, rfl, rfl⟩)
    · rw [pushed.others k mem] at found
      exact .inl ⟨stored', found, rfl⟩
  pushed := by
    intro k job mem
    obtain ⟨state, stored⟩ := pushed.record mem
    exact ⟨_, stored, rfl⟩

theorem Peopled.after {jobs : List Job} {ids : List String} {k : String} {m : Move} {s : Slot}
    (moved : Moved k s w u) (step : Slot.Step lib w.clock k m (w.slot k) s)
    (unborn : ∀ new, m ≠ .enqueue new ∧ m ≠ .schedule new) (peopled : Peopled lib jobs ids u t) :
    Peopled lib jobs ids w t where
  kept := by
    intro j stored found
    by_cases same : j = k
    · subst same
      obtain ⟨middle, found', terms⟩ := step.terms found
      obtain ⟨after, found'', terms'⟩ := peopled.kept j middle (moved.slot ▸ found')
      exact ⟨after, found'', terms'.trans terms⟩
    · exact peopled.kept j stored (moved.others j same ▸ found)
  origin := by
    intro j stored' found
    refine (peopled.origin j stored' found).imp (fun ⟨middle, found', terms⟩ => ?_) id
    by_cases same : j = k
    · subst same
      have evolves : (w.slot j).Evolves lib w.clock j (· = m) (u.slot j) :=
        ReflTransGen.single ⟨m, rfl, moved.slot ▸ step⟩
      rcases evolves.origin found' with ⟨stored, before, terms'⟩ | ⟨m', new, rfl, kind, -⟩
      · exact ⟨stored, before, terms.trans terms'⟩
      · exact absurd kind (not_or.mpr (unborn new))
    · exact ⟨middle, moved.others j same ▸ found', terms⟩
  pushed := peopled.pushed

theorem Advanced.peopled {event : Event} {k workflowID : String} {wfState : WorkflowState}
    {result : Option RawMessage} {failed : Bool} {ids : List String} (sound : Sound w)
    (advanced : Advanced lib w event t k workflowID wfState result failed ids) :
    Peopled lib (successorJobs workflowID wfState (stepOf w k) result failed) ids w t := by
  obtain ⟨s, u, step, moved, steered⟩ := advanced.settled
  obtain ⟨stored, before⟩ : ∃ stored, (w.slot k).record = some stored := by
    cases found : (w.slot k).record with
    | some stored => exact ⟨stored, rfl⟩
    | none =>
      have reporting := advanced.reporting
      simp [reportsTo, found] at reporting
  have sound' : Sound u := moved.sound step (by simp [before]) sound
  refine (steered.toPushed.peopled sound').after moved step fun new => ?_
  unfold settlement
  split <;> simp

/-- The pushed jobs extend the list of one workflow, or belong to none. -/
structure Extends (jobs : List Job) (ids : List String) (workflowID : String)
    (new : List String) (w t : World) : Prop where
  rosters : ∀ id, roster t id = roster w id ++ if id = workflowID then new else []
  members : new = ids ∧ (∀ job ∈ jobs, job.workflowID = workflowID ∧ job.expiresAt = "") ∨
    new = [] ∧ ∀ job ∈ jobs, job.workflowID = ""
  length : ids.length = jobs.length
  nodup : ids.Nodup
  fresh : ∀ k ∈ ids, k ∉ w.used
  known : ∀ id wfState, t.value .workflows id = some wfState →
    (∃ wfState', w.value .workflows id = some wfState') ∨ id ∈ t.used ∧ id ≠ ""
  used : ∀ j ∈ w.used, j ∈ t.used

theorem exists_zip_of_mem {α β : Type} {xs : List α} {ys : List β} {x : α}
    (length : xs.length = ys.length) (mem : x ∈ xs) : ∃ y ∈ ys, (x, y) ∈ xs.zip ys := by
  obtain ⟨i, bound, rfl⟩ := List.mem_iff_getElem.mp mem
  have bound' : i < ys.length := length ▸ bound
  exact ⟨ys[i], List.getElem_mem bound', List.mem_iff_getElem.mpr ⟨i, by simp [bound, bound'], by simp⟩⟩

theorem Linked.extended {jobs : List Job} {ids new : List String} {workflowID : String}
    (linked : Linked w) (sound : Sound w) (peopled : Peopled lib jobs ids w t)
    (extends_ : Extends jobs ids workflowID new w t)
    (locks : ∀ k, LockNames t k → LockNames w k ∨ k ∈ t.used ∧ k ≠ "" ∧ (w.slot k).record = none ∧
      k ∉ ids) : Linked t where
  known := by
    intro id wfState found
    rcases extends_.known id wfState found with ⟨wfState', before⟩ | known
    · obtain ⟨known, nonempty⟩ := linked.known id wfState' before
      exact ⟨extends_.used id known, nonempty⟩
    · exact known
  nodup := by
    intro id
    rw [extends_.rosters]
    split
    · refine List.nodup_append.mpr ⟨linked.nodup id, ?_, ?_⟩
      · rcases extends_.members with ⟨rfl, -⟩ | ⟨rfl, -⟩
        · exact extends_.nodup
        · exact List.nodup_nil
      · rintro k mem _ mem' rfl
        rcases extends_.members with ⟨rfl, -⟩ | ⟨rfl, -⟩
        · obtain ⟨stored, found, -⟩ := linked.listed id k mem
          exact extends_.fresh k mem' (sound.known k (by simp [found])).1
        · cases mem'
    · rw [List.append_nil]
      exact linked.nodup id
  listed := by
    intro id k mem
    rw [extends_.rosters, List.mem_append] at mem
    rcases mem with before | pushed
    · obtain ⟨stored, found, rfl⟩ := linked.listed id k before
      obtain ⟨stored', found', same⟩ := peopled.kept k stored found
      exact ⟨stored', found', workflowID_of_terms same⟩
    · split at pushed
      · rename_i here
        subst here
        rcases extends_.members with ⟨rfl, belongs⟩ | ⟨rfl, -⟩
        · obtain ⟨job, mem, pair⟩ := exists_zip_of_mem extends_.length pushed
          obtain ⟨stored', found, same⟩ := peopled.pushed k job pair
          exact ⟨stored', found, same.trans (belongs job mem).1⟩
        · cases pushed
      · cases pushed
  owned := by
    intro k stored' found member
    rw [extends_.rosters, List.mem_append]
    rcases peopled.origin k stored' found with ⟨stored, before, same⟩ | loose | ⟨job, mem, pushed, id, expiry⟩
    · have owner := workflowID_of_terms same
      obtain ⟨lasting, listed⟩ := linked.owned k stored before (owner ▸ member)
      have expiry : stored'.terms.expiresAt = stored.terms.expiresAt := by rw [same]
      exact ⟨expiry.trans lasting, .inl (owner ▸ listed)⟩
    · exact absurd loose member
    · rcases extends_.members with ⟨rfl, belongs⟩ | ⟨-, loose⟩
      · obtain ⟨owner, lasting⟩ := belongs job mem
        refine ⟨expiry.trans lasting, .inr ?_⟩
        rw [if_pos (id.trans owner)]
        exact pushed
      · exact absurd (id.trans (loose job mem)) member
  unlocked := by
    intro k named
    have unowned (known : k ∈ t.used) (nonempty : k ≠ "") (unpushed : k ∉ ids)
        (before : ∀ stored, (w.slot k).record = some stored → stored.workflowID = "") :
        k ∈ t.used ∧ k ≠ "" ∧ ∀ stored, (t.slot k).record = some stored → stored.workflowID = "" := by
      refine ⟨known, nonempty, fun stored' found => ?_⟩
      rcases peopled.origin k stored' found with ⟨stored, found', same⟩ | loose | ⟨job, -, pushed, -⟩
      · exact (workflowID_of_terms same).trans (before stored found')
      · exact loose
      · exact absurd pushed unpushed
    rcases locks k named with held | ⟨known, nonempty, vacant, unpushed⟩
    · obtain ⟨known, nonempty, loose⟩ := linked.unlocked k held
      exact unowned (extends_.used k known) nonempty (fun mem => extends_.fresh k mem known) loose
    · exact unowned known nonempty unpushed (by simp [vacant])

/-! ## The pushed jobs -/

section PushedJobs

variable {workflowID : String} {job : Job}

theorem workflowStepToJob_terms (step : WorkflowJobRequest) (workflowID : String)
    (stepIdx : Int) : (workflowStepToJob step workflowID stepIdx).workflowID = workflowID ∧
      (workflowStepToJob step workflowID stepIdx).workflowStep = stepIdx ∧
      (workflowStepToJob step workflowID stepIdx).parentResults = [] ∧
      (workflowStepToJob step workflowID stepIdx).expiresAt = "" := by
  unfold workflowStepToJob
  dsimp only
  split
  · exact ⟨rfl, rfl, rfl, rfl⟩
  · split
    · exact ⟨rfl, rfl, rfl, rfl⟩
    · split <;> exact ⟨rfl, rfl, rfl, rfl⟩

theorem mem_chainJobs {wfState : WorkflowState} {stepIdx : Int}
    (mem : job ∈ chainJobs workflowID wfState stepIdx) : ∃ step,
      job = chainJob workflowID wfState stepIdx step := by
  unfold chainJobs at mem
  split at mem
  · cases mem
  · obtain ⟨step, -, rfl⟩ := List.mem_map.mp mem
    exact ⟨step, rfl⟩

theorem mem_memberJobs {i : Nat} {steps : List WorkflowJobRequest}
    (mem : job ∈ memberJobs workflowID i steps) : ∃ (step : _) (n : Nat),
      job = workflowStepToJob step workflowID n := by
  induction steps generalizing i with
  | nil => cases mem
  | cons step rest ih =>
    rcases List.mem_cons.mp mem with rfl | later
    · exact ⟨step, i, rfl⟩
    · exact ih later

theorem mem_callbackJobs {wfState : WorkflowState} {hasFailure : Bool}
    (mem : job ∈ callbackJobs wfState hasFailure) : job.workflowID = "" := by
  have fired {condition : Bool} {cb : Option WorkflowCallback}
      (mem : job ∈ firedJobs condition cb) : job.workflowID = "" := by
    unfold firedJobs at mem
    split at mem
    · obtain ⟨cb, -, rfl⟩ := List.mem_map.mp mem
      rfl
    · cases mem
  unfold callbackJobs at mem
  split at mem
  · cases mem
  · rw [List.mem_append, List.mem_append] at mem
    rcases mem with (mem | mem) | mem
    · exact fired mem
    · exact fired mem
    · exact fired mem

/-- A chain pushes its own jobs, a group or a batch only callbacks. -/
theorem mem_successorJobs {wfState : WorkflowState} {stepIdx : Int}
    {result : Option RawMessage} {failed : Bool}
    (mem : job ∈ successorJobs workflowID wfState stepIdx result failed) :
    if wfState.type = "chain" then job.workflowID = workflowID ∧ job.expiresAt = ""
    else job.workflowID = "" := by
  split
  · rename_i chain
    rw [successorJobs_chain workflowID chain] at mem
    split at mem
    · cases mem
    · obtain ⟨step, rfl⟩ := mem_chainJobs mem
      obtain ⟨id, -, -, expiry⟩ := workflowStepToJob_terms step workflowID (stepIdx + 1)
      exact ⟨id, expiry⟩
  · rename_i group
    rw [successorJobs_group workflowID group] at mem
    split at mem
    · exact mem_callbackJobs mem
    · cases mem

theorem mem_initialJobs {req : WorkflowRequest} (mem : job ∈ initialJobs workflowID req) :
    job.workflowID = workflowID ∧ job.expiresAt = "" := by
  have belongs {i : Nat} {steps : List WorkflowJobRequest}
      (mem : job ∈ memberJobs workflowID i steps) :
      job.workflowID = workflowID ∧ job.expiresAt = "" := by
    obtain ⟨step, n, rfl⟩ := mem_memberJobs mem
    obtain ⟨id, -, -, expiry⟩ := workflowStepToJob_terms step workflowID n
    exact ⟨id, expiry⟩
  unfold initialJobs at mem
  split at mem
  · exact belongs mem
  · exact belongs mem

end PushedJobs

/-- Apart from its state, the record after a report is the counted one. -/
theorem settledWorkflow_eq (lib : Externals) (now : Int) (wfState : WorkflowState) (stepIdx : Int)
    (result : Option RawMessage) (failed : Bool) : ∃ state time,
    settledWorkflow lib now wfState stepIdx result failed =
      { countedWorkflow wfState stepIdx result failed with state := state, completedAt := time } := by
  have settles : (∃ state, settledWorkflow lib now wfState stepIdx result failed =
      finishedWorkflow lib (countedWorkflow wfState stepIdx result failed) state now) ∨
      settledWorkflow lib now wfState stepIdx result failed =
        countedWorkflow wfState stepIdx result failed := by
    unfold settledWorkflow
    dsimp only
    split
    · split
      · exact .inl ⟨_, rfl⟩
      · split
        · exact .inl ⟨_, rfl⟩
        · exact .inr rfl
    · split
      · exact .inl ⟨_, rfl⟩
      · exact .inr rfl
  rcases settles with ⟨state, same⟩ | same
  · exact ⟨state, lib.formatTime now, same⟩
  · exact ⟨_, _, same⟩

section Settled

variable {now stepIdx : Int} {wfState : WorkflowState} {result : Option RawMessage} {failed : Bool}

@[simp] theorem countedWorkflow_jobIDs :
    (countedWorkflow wfState stepIdx result failed).jobIDs = wfState.jobIDs := by
  cases result <;> cases failed <;> rfl

@[simp] theorem countedWorkflow_total :
    (countedWorkflow wfState stepIdx result failed).total = wfState.total := by
  cases result <;> cases failed <;> rfl

@[simp] theorem countedWorkflow_jobDefs :
    (countedWorkflow wfState stepIdx result failed).jobDefs = wfState.jobDefs := by
  cases result <;> cases failed <;> rfl

@[simp] theorem countedWorkflow_completed :
    (countedWorkflow wfState stepIdx result failed).completed =
      wfState.completed + if failed then 0 else 1 := by
  cases result <;> cases failed <;> simp [countedWorkflow]

@[simp] theorem countedWorkflow_failed :
    (countedWorkflow wfState stepIdx result failed).failed =
      wfState.failed + if failed then 1 else 0 := by
  cases result <;> cases failed <;> simp [countedWorkflow]

@[simp] theorem settledWorkflow_jobIDs :
    (settledWorkflow lib now wfState stepIdx result failed).jobIDs = wfState.jobIDs := by
  obtain ⟨state, time, same⟩ := settledWorkflow_eq lib now wfState stepIdx result failed
  rw [same]
  exact countedWorkflow_jobIDs

@[simp] theorem settledWorkflow_type :
    (settledWorkflow lib now wfState stepIdx result failed).type = wfState.type := by
  obtain ⟨state, time, same⟩ := settledWorkflow_eq lib now wfState stepIdx result failed
  rw [same]
  exact countedWorkflow_type

end Settled

/-- The list of a workflow after a report. -/
theorem notedWorkflow_jobIDs (wfState : WorkflowState) (ids : List String) :
    (notedWorkflow wfState ids).jobIDs =
      wfState.jobIDs ++ if wfState.type = "chain" then ids else [] := by
  unfold notedWorkflow
  split
  · rfl
  · rw [List.append_nil]

/-! ## Every run keeps the lists -/

/-- What a job that reports to a running workflow is. -/
theorem reportsTo_eq_some {k workflowID : String} {wfState : WorkflowState}
    (h : reportsTo w k = some (workflowID, wfState)) :
    Member w workflowID k ∧ workflowID ≠ "" ∧ w.value .workflows workflowID = some wfState ∧
      wfState.state = "running" := by
  unfold reportsTo at h
  split at h
  · cases h
  · rename_i stored record
    split at h
    · cases h
    · rename_i nonempty
      split at h
      · cases h
      · rename_i wfState' found
        split at h
        · rename_i running
          cases h
          exact ⟨⟨stored, record, rfl⟩, nonempty, found, running⟩
        · cases h

theorem Step.used {event : Event} (step : Step lib w event t) (sound : Sound w) {j : String}
    (known : j ∈ w.used) : j ∈ t.used := by
  cases step with
  | tick => exact known
  | call fresh run =>
    exact (call_evolves sound fresh _ _ run).used j (List.mem_append_right _ known)

/-- A step that leaves every roster and adds no job to a workflow. -/
theorem Linked.kept {event : Event} (linked : Linked w) (sound : Sound w)
    (step : Step lib w event t) (peopled : Peopled lib [] [] w t)
    (rosters : ∀ id, roster t id = roster w id)
    (known : ∀ id wfState, t.value .workflows id = some wfState →
      ∃ wfState', w.value .workflows id = some wfState')
    (locks : ∀ k, LockNames t k → LockNames w k ∨
      k ∈ t.used ∧ k ≠ "" ∧ (w.slot k).record = none) : Linked t := by
  have extends_ : Extends [] [] "" [] w t := {
    rosters := fun id => by simp [rosters id]
    members := .inr ⟨rfl, by simp⟩
    length := rfl
    nodup := List.nodup_nil
    fresh := by simp
    known := fun id wfState found => .inl (known id wfState found)
    used := fun j => step.used sound }
  refine linked.extended sound peopled extends_ fun k named => ?_
  exact (locks k named).imp id fun ⟨known, given, vacant⟩ => ⟨known, given, vacant, by simp⟩

theorem Linked.quiet {event : Event} (linked : Linked w) (sound : Sound w)
    (step : Step lib w event t) (quiet : Quiet lib w event t) : Linked t := by
  refine linked.kept sound step quiet.peopled (fun id => roster_eq (quiet.workflows id))
    (fun id wfState found => ⟨wfState, (quiet.workflows id).symm.trans found⟩) fun k named => ?_
  have nonempty : ¬ LockNames w "" := fun empty => (linked.unlocked "" empty).2.1 rfl
  exact (step.lockNames sound nonempty named).imp id fun ⟨_, known, given, vacant⟩ =>
    ⟨known, given, vacant⟩

/-- A step that is no push takes no lock. -/
theorem Linked.locks {event : Event} (linked : Linked w) (sound : Sound w)
    (step : Step lib w event t) (pushes : ∀ job reply, event ≠ .call (.push job) reply) {k : String}
    (named : LockNames t k) : LockNames w k := by
  have nonempty : ¬ LockNames w "" := fun empty => (linked.unlocked "" empty).2.1 rfl
  rcases step.lockNames sound nonempty named with held | ⟨⟨job, reply, push⟩, -⟩
  · exact held
  · exact absurd push (pushes job reply)

theorem Linked.stopped {event : Event} {workflowID : String} {reply : Reply}
    {wfState : WorkflowState} (linked : Linked w) (sound : Sound w) (step : Step lib w event t)
    (call : event = .call (.cancelWorkflow workflowID) reply)
    (stopped : Stopped lib w t workflowID wfState) : Linked t := by
  refine linked.kept sound step stopped.peopled (fun id => ?_) (fun id wfState' found => ?_)
    fun k named => .inl (linked.locks sound step (by simp [call]) named)
  · by_cases same : id = workflowID
    · subst same
      rw [roster_of_value stopped.before, roster_of_value stopped.after]
      rfl
    · exact roster_eq (stopped.aside id same)
  · by_cases same : id = workflowID
    · exact ⟨wfState, same ▸ stopped.before⟩
    · exact ⟨wfState', (stopped.aside id same).symm.trans found⟩

theorem Linked.created {event : Event} {req : WorkflowRequest} {reply : Reply}
    {workflowID : String} {ids : List String} (linked : Linked w) (sound : Sound w)
    (step : Step lib w event t) (call : event = .call (.createWorkflow req) reply)
    (nonempty : workflowID ≠ "") (unused : workflowID ∉ w.used)
    (steered : Steered lib workflowID
      { newWorkflowState lib workflowID req (requestedJobs req) w.clock with jobIDs := ids }
      (initialJobs workflowID req) ids { w with used := workflowID :: w.used } t) : Linked t := by
  have sound' : Sound { w with used := workflowID :: w.used } :=
    ⟨sound.placed, fun j known => ⟨List.mem_cons_of_mem _ (sound.known j known).1,
      (sound.known j known).2⟩⟩
  have peopled : Peopled lib (initialJobs workflowID req) ids w t :=
    let raised := steered.toPushed.peopled sound'
    ⟨raised.kept, raised.origin, raised.pushed⟩
  have missing : w.value .workflows workflowID = none := by
    cases found : w.value .workflows workflowID with
    | none => rfl
    | some wfState => exact absurd (linked.known workflowID wfState found).1 unused
  have extends_ : Extends (initialJobs workflowID req) ids workflowID ids w t := {
    rosters := fun id => by
      by_cases same : id = workflowID
      · subst same
        rw [roster_of_value steered.record, roster, missing, if_pos rfl]
        rfl
      · simp only [same, ↓reduceIte, List.append_nil]
        exact roster_eq (steered.aside id same)
    members := .inl ⟨rfl, fun job mem => mem_initialJobs mem⟩
    length := steered.length
    nodup := steered.nodup
    fresh := fun k mem known => (steered.fresh k mem).2 (List.mem_cons_of_mem _ known)
    known := fun id wfState found => by
      by_cases same : id = workflowID
      · subst same
        exact .inr ⟨(steered.used id).mpr (.inr List.mem_cons_self), nonempty⟩
      · exact .inl ⟨wfState, (steered.aside id same).symm.trans found⟩
    used := fun j => step.used sound }
  exact linked.extended sound peopled extends_ fun k named =>
    .inl (linked.locks sound step (by simp [call]) named)

theorem Advanced.aside {event : Event} {k workflowID : String} {wfState : WorkflowState}
    {result : Option RawMessage} {failed : Bool} {ids : List String}
    (advanced : Advanced lib w event t k workflowID wfState result failed ids) (id : String)
    (other : id ≠ workflowID) : t.value .workflows id = w.value .workflows id := by
  obtain ⟨s, u, -, moved, steered⟩ := advanced.settled
  exact (steered.aside id other).trans (value_of_kv (moved.kv .workflows rfl) id)

theorem Linked.advanced {event : Event} {k workflowID : String} {wfState : WorkflowState}
    {result : Option RawMessage} {failed : Bool} {ids : List String} (linked : Linked w)
    (sound : Sound w) (step : Step lib w event t)
    (advanced : Advanced lib w event t k workflowID wfState result failed ids) : Linked t := by
  obtain ⟨-, nonempty, before, -⟩ := reportsTo_eq_some advanced.reporting
  have peopled := advanced.peopled sound
  have aside := advanced.aside
  obtain ⟨s, u, -, moved, steered⟩ := advanced.settled
  have extends_ : Extends (successorJobs workflowID wfState (stepOf w k) result failed) ids workflowID
      (if wfState.type = "chain" then ids else []) w t := {
    rosters := fun id => by
      by_cases same : id = workflowID
      · subst same
        rw [roster_of_value steered.record, roster_of_value before, notedWorkflow_jobIDs,
          settledWorkflow_jobIDs, settledWorkflow_type, if_pos rfl]
      · rw [if_neg same, List.append_nil]
        exact roster_eq (aside id same)
    members := by
      by_cases chain : wfState.type = "chain"
      · refine .inl ⟨if_pos chain, fun job mem => ?_⟩
        simpa [chain] using mem_successorJobs mem
      · refine .inr ⟨if_neg chain, fun job mem => ?_⟩
        simpa [chain] using mem_successorJobs mem
    length := steered.length
    nodup := steered.nodup
    fresh := fun j mem known => (steered.fresh j mem).2 (moved.used.symm ▸ known)
    known := fun id wfState' found => by
      by_cases same : id = workflowID
      · exact .inl ⟨wfState, same ▸ before⟩
      · exact .inl ⟨wfState', (aside id same).symm.trans found⟩
    used := fun j => step.used sound }
  refine linked.extended sound peopled extends_ fun j named =>
    .inl (linked.locks sound step ?_ named)
  rintro job reply rfl
  cases advanced.reported

theorem Linked.step {event : Event} (linked : Linked w) (sound : Sound w)
    (step : Step lib w event t) (unforged : event.Meets Call.Unforged) : Linked t := by
  cases step.onWorkflows sound unforged with
  | quiet quiet => exact linked.quiet sound step quiet
  | advanced advanced => exact linked.advanced sound step advanced
  | created call nonempty unused steered =>
    exact linked.created sound step call nonempty unused steered
  | stopped call stopped => exact linked.stopped sound step call stopped

/-- Every run of genuine operations keeps the workflows and their jobs together. -/
theorem Run.linked {clock : Int} {trace : List Passage} (run : Run lib (World.start clock) trace w)
    (unforged : ∀ p ∈ trace, p.event.Meets Call.Unforged) : Linked w :=
  run.holds (I := fun _ v => Linked v) (.start clock) (.start clock)
    fun _ p mem sound step linked => linked.step sound step (unforged p mem)

theorem Run.linked_of_mem {clock : Int} {trace : List Passage}
    (run : Run lib (World.start clock) trace w)
    (unforged : ∀ p ∈ trace, p.event.Meets Call.Unforged) : ∀ p ∈ trace, Linked p.after := by
  refine (run.holds (I := fun done v => Linked v ∧ ∀ p ∈ done, Linked p.after) (.start clock)
    ⟨.start clock, by simp⟩ ?_).2
  rintro done p mem sound step ⟨linked, earlier⟩
  have next : Linked p.after := linked.step sound step (unforged p mem)
  refine ⟨next, fun q inside => ?_⟩
  rcases List.mem_append.mp inside with before | last
  · exact earlier q before
  · obtain rfl := List.mem_singleton.mp last
    exact next

theorem Run.linked_before {clock : Int} {trace : List Passage}
    (run : Run lib (World.start clock) trace w)
    (unforged : ∀ p ∈ trace, p.event.Meets Call.Unforged) : ∀ p ∈ trace, Linked p.before := by
  refine run.holds_along (I := fun done _ => ∀ p ∈ done, Linked p.before) (by simp) ?_
  intro done p rest whole before step linked q mem
  rcases List.mem_append.mp mem with earlier | last
  · exact linked q earlier
  · obtain rfl := List.mem_singleton.mp last
    exact before.linked fun q inside => unforged q (by simp [whole, inside])

end OjsNats.Lifecycle
