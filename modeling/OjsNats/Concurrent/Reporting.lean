import OjsNats.Concurrent.Discipline

/-!
# Reports, cancellations, leases and passes keep the discipline

A report or a cancellation writes the record of its job once, after reading
that it may; a pass writes the record of a job it has read.
-/

namespace OjsNats.Concurrent

open Core Nats Lifecycle Effect Protocol Program

variable {lib : Externals} {j k : String} {call : Call} {g : View}

/-! ## Workflows -/

theorem workflowStepToJob_unnamed (step : WorkflowJobRequest) (workflowID : String) (i : Int) :
    (workflowStepToJob step workflowID i).id = "" ∧
      (workflowStepToJob step workflowID i).unique = none := by
  unfold workflowStepToJob
  split
  · exact ⟨rfl, rfl⟩
  · split
    · exact ⟨rfl, rfl⟩
    · split <;> exact ⟨rfl, rfl⟩

section Workflow

variable (mints : MayMint lib j call)

include mints

theorem follows_fireIf (condition : Bool) (cb : Option WorkflowCallback) :
    (discipline lib j call).Follows (fireIf lib condition cb) g (fun _ g' => Kept g g') := by
  unfold fireIf
  split
  · split
    · apply follows_bind.mpr
      apply (follows_push mints rfl rfl).mono
      exact fun _ _ kept => kept
    · exact id
  · exact id

theorem follows_fireBatchCallbacks (wfState : WorkflowState) (hasFailure : Bool) :
    (discipline lib j call).Follows (fireBatchCallbacks lib wfState hasFailure) g
      (fun _ g' => Kept g g') := by
  unfold fireBatchCallbacks
  split
  · exact id
  · apply follows_bind.mpr
    apply (follows_fireIf mints _ _).mono
    intro _ a first
    apply follows_bind.mpr
    apply (follows_fireIf mints _ _).mono
    intro _ b second
    apply (follows_fireIf mints _ _).mono
    intro _ c third
    exact (first.trans second).trans third

theorem follows_enqueueChainStep (workflowID : String) (wfState : WorkflowState) (i : Int) :
    (discipline lib j call).Follows (enqueueChainStep lib workflowID wfState i) g
      (fun _ g' => Kept g g') := by
  unfold enqueueChainStep
  split
  · exact id
  · split
    · exact id
    · split
      · exact id
      · rename_i step _
        obtain ⟨unnamed, free⟩ := workflowStepToJob_unnamed step workflowID i
        apply follows_bind.mpr
        refine (follows_push mints ?_ ?_).mono ?_
        · exact unnamed
        · exact free
        · intro created g' kept
          cases created with
          | error e => exact kept
          | ok job =>
            apply follows_bind.mpr
            exact follows_sideline (sideline_putWorkflow _ _) fun _ => kept

theorem follows_advanceChain (workflowID : String) (wfState : WorkflowState) (i : Int)
    (failed : Bool) : (discipline lib j call).Follows (advanceChain lib workflowID wfState i failed) g
      (fun _ g' => Kept g g') := by
  have finish (state : String) : (discipline lib j call).Follows (timeNow.bind fun now =>
      (putWorkflow (finishedWorkflow lib wfState state now) workflowID).bind fun _ =>
        .pure (.ok () : Result Unit)) g (fun _ g' => Kept g g') := by
    apply follows_bind.mpr
    apply follows_timeNow
    intro now
    apply follows_bind.mpr
    exact follows_sideline (sideline_putWorkflow _ _) fun _ => id
  unfold advanceChain
  split
  · exact finish "failed"
  · split
    · exact finish "completed"
    · apply follows_bind.mpr
      apply follows_sideline (sideline_putWorkflow _ _)
      intro _
      exact follows_enqueueChainStep mints _ _ _

theorem follows_advanceGroup (workflowID : String) (wfState : WorkflowState) :
    (discipline lib j call).Follows (advanceGroup lib workflowID wfState) g
      (fun _ g' => Kept g g') := by
  apply follows_bind.mpr
  apply follows_sideline (sideline_putWorkflow _ _)
  intro _
  split
  · apply follows_bind.mpr
    apply follows_timeNow
    intro now
    apply follows_bind.mpr
    apply follows_sideline (sideline_putWorkflow _ _)
    intro _
    generalize (if 0 < wfState.failed then "failed" else "completed") = finalState
    split
    · apply follows_bind.mpr
      apply (follows_fireBatchCallbacks mints _ _).mono
      exact fun _ _ kept => kept
    · exact id
  · exact id

theorem follows_advanceWorkflowState (workflowID : String) (result : Option RawMessage)
    (failed : Bool) : (discipline lib j call).Follows
      (advanceWorkflowState lib workflowID k result failed) g (fun _ g' => Kept g g') := by
  apply follows_bind.mpr
  apply follows_sideline (sideline_get rfl _)
  intro stored
  cases stored with
  | error e => exact id
  | ok entry =>
    simp only
    split
    · exact id
    · apply follows_bind.mpr
      apply follows_bind.mpr
      have advance (stepIdx : Int) (g' : View) (kept : Kept g g') :
          (discipline lib j call).Follows
            (if (countedWorkflow entry.1 stepIdx result failed).type = "chain" then
              advanceChain lib workflowID (countedWorkflow entry.1 stepIdx result failed) stepIdx
                failed
            else advanceGroup lib workflowID (countedWorkflow entry.1 stepIdx result failed)) g'
            (fun _ g'' => Kept g g'') := by
        split
        · exact (follows_advanceChain mints _ _ _ _).mono fun _ _ next => kept.trans next
        · exact (follows_advanceGroup mints _ _).mono fun _ _ next => kept.trans next
      apply follows_getJobState
      · intro rec _
        exact advance _ _ (Kept.see g _)
      · intro _
        exact advance _ _ (Kept.see g _)

theorem follows_advanceWorkflow (state : State) (result : Option RawMessage) :
    (discipline lib j call).Follows (advanceWorkflow lib k state result) g
      (fun _ g' => Kept g g') := by
  apply follows_bind.mpr
  apply follows_getJobState
  · intro rec _
    simp only
    split
    · exact Kept.see g _
    · apply follows_bind.mpr
      apply (follows_advanceWorkflowState mints _ _ _).mono
      exact fun _ _ next => (Kept.see g _).trans next
  · intro _
    exact Kept.see g _

end Workflow

/-! ## Reports -/

/-- The operation has read the record and not written it. -/
def Ready (j k : String) (rec : JobState) (g : View) : Prop :=
  k = j → g.seen = some rec ∧ g.wrote = none

/-- The operation has written the record. -/
def Done (j k : String) (g : View) : Prop := k = j → g.wrote.isSome

/-- An operation on `k` alone: its success means that it wrote the record. -/
def Wrote (j k : String) {α : Type} (r : Result α) (g : View) : Prop :=
  match r with
  | .ok _ => Done j k g
  | .error _ => True

theorem Ready.see {rec : JobState} (fresh : g.wrote = none) : Ready j k rec (g.see j k (some rec)) := by
  intro same
  rw [View.see_at same]
  exact ⟨rfl, fresh⟩

theorem Done.write (v : JobState) : Done j k (g.writeAt j k v) := by
  intro same
  rw [View.writeAt_at same]
  rfl

theorem Done.kept {g' : View} (done : Done j k g) (kept : Kept g g') : Done j k g' :=
  fun same => kept (done same)

theorem Kept.lease (g : View) (leased : Bool) : Kept g (g.lease j k leased) := by
  intro wrote
  unfold View.lease
  split <;> exact wrote

theorem follows_reply {α : Type} {f : Result Job → Result α} (done : Done j k g) :
    (discipline lib j call).Follows ((info k).bind fun r => .pure (f r)) g (Wrote j k) := by
  have wrote (r : Result Job) (rec : Option JobState) : Wrote j k (f r) (g.see j k rec) := by
    unfold Wrote
    split
    · exact done.kept (Kept.see g rec)
    · trivial
  apply follows_bind.mpr
  apply follows_info
  · exact fun _ _ => wrote _ _
  · exact wrote _ _

theorem mayMint_ack (k : String) (result : Option RawMessage) :
    MayMint lib j (.ack k result) := fun _ _ mints => .inl mints

theorem mayMint_nack (k : String) (jobErr : Option JobError) (requeue : Bool) :
    MayMint lib j (.nack k jobErr requeue) := fun _ _ mints => .inl mints

theorem follows_finishAck (mints : MayMint lib j call) (result : Option RawMessage) (now : Int)
    (job : Job) (done : Done j k g) :
    (discipline lib j call).Follows (finishAck lib k result now job) g (Wrote j k) := by
  apply follows_bind.mpr
  apply follows_sideline (sideline_incrementCompleted _)
  intro _
  apply follows_bind.mpr
  apply (follows_advanceWorkflow mints _ _).mono
  intro _ g' kept
  exact follows_reply (done.kept kept)

theorem follows_ack (result : Option RawMessage) (fresh : g.wrote = none) :
    (discipline lib j (.ack k result)).Follows (ack lib k result) g (Wrote j k) := by
  apply follows_bind.mpr
  apply follows_getJobState
  · rintro rec rfl
    have ready : Ready j rec.id rec (g.see j rec.id (some rec)) := Ready.see fresh
    simp only
    split
    · trivial
    · rename_i active
      rw [not_not] at active
      apply follows_bind.mpr
      apply follows_timeNow
      intro now
      apply follows_bind.mpr
      apply follows_putJobState
      · intro same
        obtain ⟨seen, fresh⟩ := ready same
        exact .inr ⟨same, fresh, ⟨rec, seen, active⟩, rfl⟩
      · intro _
        apply follows_bind.mpr
        apply follows_deleteActive
        · exact fun _ _ _ _ _ eq => nomatch eq
        · apply follows_bind.mpr
          apply follows_unnoticed (unnoticed_ackMessage _)
          intro acked
          cases acked with
          | error e => trivial
          | ok _ =>
            apply follows_finishAck (mayMint_ack _ _)
            exact (Done.write _).kept (Kept.lease _ _)
        · exact fun _ => trivial
      · exact fun _ => trivial
  · exact fun _ => trivial

section Nack

variable {jobErr : Option JobError} {requeue : Bool} {rec : JobState} {job : Job} {now : Int}

theorem follows_nackRequeue (id : job.id = k) (active : rec.state = .active)
    (ready : Ready j k rec g) : (discipline lib j (.nack k jobErr requeue)).Follows
      (nackRequeue lib k now job) g (Wrote j k) := by
  subst id
  apply follows_bind.mpr
  apply follows_putJobState
  · intro same
    obtain ⟨seen, fresh⟩ := ready same
    exact .inr ⟨same, fresh, ⟨rec, seen, active⟩, .inl rfl⟩
  · intro _
    apply follows_bind.mpr
    apply follows_deleteActive
    · exact fun _ _ _ _ _ eq => nomatch eq
    · apply follows_bind.mpr
      apply follows_unnoticed (unnoticed_ackMessage _)
      intro acked
      cases acked with
      | error e => trivial
      | ok _ =>
        apply follows_bind.mpr
        apply follows_publishJob
        · intro same
          rw [View.tokens_lease]
          exact View.tokens_writeAt rfl same
        · apply follows_reply
          exact (Done.write _).kept ((Kept.lease _ _).trans (Kept.announce _))
        · exact fun _ => trivial
    · exact fun _ => trivial
  · exact fun _ => trivial

theorem unnoticed_deadLetter : (deadLetter lib k now job).Uses Unnoticed := by
  unfold deadLetter
  split
  · refine ⟨⟨by simp, by simp⟩, fun r => ?_⟩
    cases r <;> trivial
  · trivial

theorem follows_nackDiscard {newAttempt : Int} {errJSON : Option RawMessage} (id : job.id = k)
    (active : rec.state = .active) (ready : Ready j k rec g) :
    (discipline lib j (.nack k jobErr requeue)).Follows
      (nackDiscard lib k now newAttempt errJSON job) g (Wrote j k) := by
  subst id
  apply follows_bind.mpr
  apply follows_putJobState
  · intro same
    obtain ⟨seen, fresh⟩ := ready same
    exact .inr ⟨same, fresh, ⟨rec, seen, active⟩, .inr (.inl rfl)⟩
  · intro _
    apply follows_bind.mpr
    apply follows_deleteActive
    · exact fun _ _ _ _ _ eq => nomatch eq
    · apply follows_bind.mpr
      apply follows_unnoticed (unnoticed_ackMessage _)
      intro acked
      cases acked with
      | error e => trivial
      | ok _ =>
        apply follows_bind.mpr
        apply follows_unnoticed unnoticed_deadLetter
        intro indexed
        cases indexed with
        | error e => trivial
        | ok _ =>
          apply follows_bind.mpr
          apply (follows_advanceWorkflow (mayMint_nack _ _ _) _ _).mono
          intro _ g' kept
          apply follows_reply
          exact (Done.write _).kept ((Kept.lease _ _).trans kept)
    · exact fun _ => trivial
  · exact fun _ => trivial

theorem follows_nackRetry {newAttempt : Int} {errJSON : Option RawMessage} (id : job.id = k)
    (active : rec.state = .active) (ready : Ready j k rec g) :
    (discipline lib j (.nack k jobErr requeue)).Follows
      (nackRetry lib k now newAttempt errJSON job) g (Wrote j k) := by
  subst id
  apply follows_bind.mpr
  refine follows_ask.mpr ⟨trivial, fun backoff _ => ?_⟩
  apply follows_bind.mpr
  apply follows_putJobState
  · intro same
    obtain ⟨seen, fresh⟩ := ready same
    exact .inr ⟨same, fresh, ⟨rec, seen, active⟩, .inr (.inr rfl)⟩
  · intro _
    apply follows_bind.mpr
    apply follows_deleteActive
    · exact fun _ _ _ _ _ eq => nomatch eq
    · apply follows_bind.mpr
      apply follows_unnoticed (unnoticed_ackMessage _)
      intro acked
      cases acked with
      | error e => trivial
      | ok _ =>
        apply follows_bind.mpr
        refine follows_ask.mpr ⟨trivial, fun indexed _ => ?_⟩
        cases indexed with
        | error e => trivial
        | ok _ =>
          apply follows_reply
          exact (Done.write _).kept (Kept.lease _ _)
    · exact fun _ => trivial
  · exact fun _ => trivial

theorem follows_nack (fresh : g.wrote = none) : (discipline lib j (.nack k jobErr requeue)).Follows
    (nack lib k jobErr requeue) g (Wrote j k) := by
  apply follows_bind.mpr
  apply follows_getJobState
  · rintro rec rfl
    have ready : Ready j rec.id rec (g.see j rec.id (some rec)) := Ready.see fresh
    simp only
    split
    · trivial
    · rename_i active
      rw [not_not] at active
      apply follows_bind.mpr
      apply follows_timeNow
      intro now
      split
      · exact follows_nackRequeue rfl active ready
      · apply follows_bind.mpr
        apply follows_sideline (sideline_isNonRetryable _ _ _)
        intro nonRetryable
        split
        · exact follows_nackDiscard rfl active ready
        · exact follows_nackRetry rfl active ready
  · exact fun _ => trivial

end Nack

/-! ## Cancel -/

theorem follows_cancel (fresh : g.wrote = none) :
    (discipline lib j (.cancel k)).Follows (cancel lib k) g (Wrote j k) := by
  apply follows_bind.mpr
  apply follows_getJobState
  · rintro rec rfl
    have ready : Ready j rec.id rec (g.see j rec.id (some rec)) := Ready.see fresh
    simp only
    split
    · trivial
    · rename_i live
      rw [Bool.not_eq_true] at live
      apply follows_bind.mpr
      apply follows_timeNow
      intro now
      apply follows_bind.mpr
      apply follows_putJobState
      · intro same
        obtain ⟨seen, fresh⟩ := ready same
        exact ⟨same, fresh, ⟨rec, seen, live⟩, rfl⟩
      · intro _
        apply follows_bind.mpr
        apply follows_deleteActive
        · exact fun _ _ _ _ _ eq => nomatch eq
        · apply follows_bind.mpr
          refine follows_ask.mpr ⟨trivial, fun unscheduled _ => ?_⟩
          cases unscheduled with
          | error e => trivial
          | ok _ =>
            apply follows_bind.mpr
            refine follows_ask.mpr ⟨trivial, fun unretried _ => ?_⟩
            cases unretried with
            | error e => trivial
            | ok _ =>
              apply follows_bind.mpr
              apply follows_unnoticed (unnoticed_ackMessage _)
              intro acked
              cases acked with
              | error e => trivial
              | ok _ => exact (Done.write _).kept (Kept.lease _ _)
        · exact fun _ => trivial
      · exact fun _ => trivial
  · exact fun _ => trivial

end OjsNats.Concurrent
