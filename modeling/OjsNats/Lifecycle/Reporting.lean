import OjsNats.Lifecycle.Derived

/-!
# Reports and heartbeats move jobs

Ack and Nack settle the active job they are about and advance its workflow;
a heartbeat renews leases.
-/

namespace OjsNats.Lifecycle

open Core Nats Effect Semantics Program

variable {lib : Externals}

/-! ## Ack -/

/-- The moves an `Ack` of the job can cause. -/
def Acks (k : String) (result : Option RawMessage) : String → Move → Prop := fun j m =>
  (j = k ∧ m = .complete result) ∨ Spawns j m

/-- `Ack` refuses a job that is not active; else it completes the job and then
advances its workflow. -/
theorem wp_ack {w : World} {k : String} {result : Option RawMessage}
    {Q : Result AckResponse → World → Prop} (sound : Sound w)
    (refused : (w.slot k).state ≠ some .active → ∀ e, Q (.error e) w)
    (accepted : ∀ s u, Slot.Step lib w.clock k (.complete result) (w.slot k) s → Moved k s w u →
      serves.wp (advanceWorkflow lib k .completed result) (fun _ t => ∀ reply, Q (.ok reply) t) u) :
    serves.wp (ack lib k result) Q w := by
  cases h : (w.slot k).record with
  | none =>
    simp only [Nats.ack, bind_eq, wp_bind, wp_getJobState, World.job_of_none h, pure_eq, wp_pure]
    exact refused (by simp [Slot.state, h]) _
  | some rec =>
    by_cases active : rec.state = .active
    · simp only [Nats.ack, bind_eq, wp_bind, wp_getJobState, World.job_of_record h]
      simp only [unmarshalJobState_state, active, ne_eq, not_true_eq_false, ↓reduceIte, wp_bind,
        wp_timeNow, wp_putJobState, wp_delete, wp_ackMessage, finishAck, bind_eq]
      obtain rfl : rec.id = k := (sound.placed k).keyed rec h
      have next : Becomes .completed rec
          (marshalJobState (completedJob lib w.clock result (unmarshalJobState rec))) :=
        ⟨rfl, rfl, rfl, rfl⟩
      have settled := (((Moved.refl rec.id w).put (b := .jobs) rfl (marshalJobState
        (completedJob lib w.clock result (unmarshalJobState rec)))).delete (b := .active) rfl).track
          none
      refine wp_beside (sideline_incrementCompleted _)
        (spares_guarded (confined_incrementCompleted _) (by simp [Guarded])) fun _ u beside => ?_
      refine (accepted _ u (.complete h active next ⟨rfl, rfl, rfl⟩) (settled.beside beside)).mono
        fun _ t holds => ?_
      simp only [wp_info, pure_eq, wp_pure]
      exact holds _
    · simp only [Nats.ack, bind_eq, wp_bind, wp_getJobState, World.job_of_record h]
      simp only [unmarshalJobState_state, ne_eq, active, not_false_eq_true, ↓reduceIte, pure_eq,
        wp_pure]
      exact refused (by simpa [Slot.state, h] using active) _

theorem ack_advances (k : String) (result : Option RawMessage) :
    Advances lib (Acks k result) (ack lib k result) := by
  intro w sound
  refine wp_ack sound (fun _ _ => Evolves.refl w) fun s u step moved => ?_
  have known : (w.slot k).record ≠ none := by
    cases step with
    | complete some => simp [some]
    | requeue kind => simp at kind
  refine (((advanceWorkflow_advances _ _ _).mono fun _ _ => .inr).after sound
    (moved.evolves (.inl ⟨rfl, rfl⟩) step known)).mono fun _ _ evolves _ => evolves

/-! ## Nack -/

/-- The moves a `Nack` of the job can cause. -/
def Nacks (k : String) (requeue : Bool) : String → Move → Prop := fun j m =>
  (j = k ∧ (m = .requeue ∧ requeue = true ∨ (m = .discard ∨ m = .retryLater) ∧ requeue = false)) ∨
    Spawns j m

section Branches

variable {w : World} {k : String} {rec : JobState} {Q : Result NackResponse → World → Prop}

theorem wp_nackRequeue (sound : Sound w) (h : (w.slot k).record = some rec)
    (active : rec.state = .active)
    (requeued : ∀ s u reply, Slot.Step lib w.clock k .requeue (w.slot k) s → Moved k s w u →
      Q (.ok reply) u) :
    serves.wp (nackRequeue lib k w.clock (unmarshalJobState rec)) Q w := by
  obtain rfl : rec.id = k := (sound.placed k).keyed rec h
  simp only [nackRequeue, bind_eq, wp_bind, wp_putJobState, wp_delete, wp_ackMessage,
    wp_publishJob, wp_info, pure_eq, wp_pure]
  have next : Requeues lib w.clock rec
      (marshalJobState (requeuedJob lib w.clock (unmarshalJobState rec))) :=
    ⟨⟨rfl, rfl, rfl, rfl⟩, rfl⟩
  have settled := ((((Moved.refl rec.id w).put (b := .jobs) rfl (marshalJobState
    (requeuedJob lib w.clock (unmarshalJobState rec)))).delete (b := .active) rfl).track
      none).publish (queueJobsSubject rec.queue)
  exact requeued _ _ _ (.requeue (.inl rfl) h active next ⟨rfl, rfl, rfl⟩) settled

/-- The payload of a failure of the job, if the worker reported an error. -/
def failurePayload (rec : JobState) (jobErr : Option JobError) : Option RawMessage :=
  jobErr.map (errorPayload rec.attempt)

theorem wp_nackRetry (sound : Sound w) (h : (w.slot k).record = some rec)
    (active : rec.state = .active) (jobErr : Option JobError)
    (left : rec.attempt + 1 < maxAttemptsOf (unmarshalJobState rec))
    (retried : ∀ s u reply, Slot.Step lib w.clock k .retryLater (w.slot k) s → Moved k s w u →
      Q (.ok reply) u) :
    serves.wp (nackRetry lib k w.clock (rec.attempt + 1) (failurePayload rec jobErr)
        (withError (failurePayload rec jobErr) (unmarshalJobState rec))) Q w := by
  obtain rfl : rec.id = k := (sound.placed k).keyed rec h
  simp only [nackRetry, bind_eq, wp_bind, wp_calculateBackoff, wp_putJobState, wp_delete,
    wp_ackMessage, wp_put, wp_info, pure_eq, wp_pure]
  intro backoff duration
  have next : Becomes .retryable rec (marshalJobState (retryableJob (rec.attempt + 1)
      (backoff.tdiv 1000000) (failurePayload rec jobErr)
      (withError (failurePayload rec jobErr) (unmarshalJobState rec)))) :=
    ⟨rfl, rfl, rfl, rfl⟩
  have due (era : InEra w.clock) := lib.parseTime_isSome era duration
  have settled := ((((Moved.refl rec.id w).put (b := .jobs) rfl (marshalJobState
    (retryableJob (rec.attempt + 1) (backoff.tdiv 1000000) (failurePayload rec jobErr)
      (withError (failurePayload rec jobErr) (unmarshalJobState rec))))).delete
        (b := .active) rfl).track none).put (b := .retry) rfl (lib.formatTime (w.clock + backoff))
  exact retried _ _ _ (.retryLater h active next due ⟨rfl, ⟨jobErr, rfl⟩, rfl⟩ left) settled

@[simp] theorem wp_deadLetter {now : Int} {job : Job} {Q : Except CallError Unit → World → Prop} :
    serves.wp (deadLetter lib k now job) Q w ↔ Q (.ok ())
      (if onExhaustion job = "dead_letter" then w.put .dead k (lib.formatTime now) else w) := by
  unfold deadLetter
  split
  · simp only [bind_eq, wp_bind, wp_put, pure_eq, wp_pure]
  · simp only [pure_eq, wp_pure]

theorem wp_nackDiscard (sound : Sound w) (h : (w.slot k).record = some rec)
    (active : rec.state = .active) (jobErr : Option JobError)
    (discarded : ∀ s u, Slot.Step lib w.clock k .discard (w.slot k) s → Moved k s w u →
      serves.wp (advanceWorkflow lib k .discarded none)
        (fun _ t => ∀ reply, Q (.ok reply) t) u) :
    serves.wp
      (nackDiscard lib k w.clock (rec.attempt + 1) (failurePayload rec jobErr)
        (withError (failurePayload rec jobErr) (unmarshalJobState rec))) Q w := by
  obtain rfl : rec.id = k := (sound.placed k).keyed rec h
  have next : Becomes .discarded rec (marshalJobState (discardedJob lib w.clock (rec.attempt + 1)
      (failurePayload rec jobErr) (withError (failurePayload rec jobErr) (unmarshalJobState rec)))) :=
    ⟨rfl, rfl, rfl, rfl⟩
  have counts : Counts rec (marshalJobState (discardedJob lib w.clock (rec.attempt + 1)
      (failurePayload rec jobErr) (withError (failurePayload rec jobErr) (unmarshalJobState rec)))) :=
    ⟨rfl, ⟨jobErr, rfl⟩, rfl⟩
  have settled := (((Moved.refl rec.id w).put (b := .jobs) rfl (marshalJobState
    (discardedJob lib w.clock (rec.attempt + 1) (failurePayload rec jobErr)
      (withError (failurePayload rec jobErr) (unmarshalJobState rec))))).delete
        (b := .active) rfl).track none
  simp only [nackDiscard, bind_eq, wp_bind, wp_putJobState, wp_delete, wp_ackMessage,
    wp_deadLetter, wp_info, pure_eq, wp_pure]
  split
  · exact (discarded _ _ (.discard h active next counts)
      (settled.put (b := .dead) rfl (lib.formatTime w.clock))).mono fun _ _ holds => holds _
  · exact (discarded _ _ (.discard h active next counts) settled).mono fun _ _ holds => holds _

end Branches

/-- `Nack` refuses a job that is not active; else it puts the job back, or counts
the failure and retries or discards the job, and a discarded job advances its workflow. -/
theorem wp_nack {w : World} {k : String} {jobErr : Option JobError} {requeue : Bool}
    {Q : Result NackResponse → World → Prop} (sound : Sound w)
    (refused : (w.slot k).state ≠ some .active → ∀ e, Q (.error e) w)
    (requeued : requeue = true → ∀ s u reply, Slot.Step lib w.clock k .requeue (w.slot k) s →
      Moved k s w u → Q (.ok reply) u)
    (retried : requeue = false → ∀ s u reply,
      Slot.Step lib w.clock k .retryLater (w.slot k) s → Moved k s w u → Q (.ok reply) u)
    (discarded : requeue = false → ∀ s u, Slot.Step lib w.clock k .discard (w.slot k) s →
      Moved k s w u → serves.wp (advanceWorkflow lib k .discarded none)
        (fun _ t => ∀ reply, Q (.ok reply) t) u) :
    serves.wp (nack lib k jobErr requeue) Q w := by
  cases h : (w.slot k).record with
  | none =>
    simp only [nack, bind_eq, wp_bind, wp_getJobState, World.job_of_none h, pure_eq, wp_pure]
    exact refused (by simp [Slot.state, h]) _
  | some rec =>
    by_cases active : rec.state = .active
    · simp only [nack, bind_eq, wp_bind, wp_getJobState, World.job_of_record h]
      simp only [unmarshalJobState_state, active, ne_eq, not_true_eq_false, ↓reduceIte, wp_bind,
        wp_timeNow]
      cases requeue with
      | true => exact wp_nackRequeue sound h active (requeued rfl)
      | false =>
        simp only [Bool.false_eq_true, ↓reduceIte, nackFailure, bind_eq, wp_bind]
        refine wp_beside (sideline_isNonRetryable _ _ _)
          (spares_guarded (S := []) (confined_isNonRetryable lib _ _) (by simp))
          fun nonRetryable v beside => ?_
        have sound' : Sound v := beside.toSameBoard.sound sound
        have slot : v.slot k = w.slot k := beside.slots k
        have h' : (v.slot k).record = some rec := slot.symm ▸ h
        rw [← beside.clock]
        split
        · refine wp_nackDiscard sound' h' active jobErr fun s u step moved => ?_
          rw [slot, beside.clock] at step
          exact discarded rfl s u step (Moved.after beside moved)
        · rename_i spared
          have left : rec.attempt + 1 < maxAttemptsOf (unmarshalJobState rec) := by
            simp only [Bool.or_eq_true, decide_eq_true_eq, not_or, Int.not_le] at spared
            exact spared.2
          refine wp_nackRetry sound' h' active jobErr left fun s u reply step moved => ?_
          rw [slot, beside.clock] at step
          exact retried rfl s u reply step (Moved.after beside moved)
    · simp only [nack, bind_eq, wp_bind, wp_getJobState, World.job_of_record h]
      simp only [unmarshalJobState_state, ne_eq, active, not_false_eq_true, ↓reduceIte, pure_eq,
        wp_pure]
      exact refused (by simpa [Slot.state, h] using active) _

theorem nack_advances (k : String) (jobErr : Option JobError) (requeue : Bool) :
    Advances lib (Nacks k requeue) (nack lib k jobErr requeue) := by
  intro w sound
  have moves {m : Move} {s : Slot} {u : World}
      (kind : m = .requeue ∧ requeue = true ∨ (m = .discard ∨ m = .retryLater) ∧ requeue = false)
      (step : Slot.Step lib w.clock k m (w.slot k) s) (moved : Moved k s w u) :
      Evolves lib (Nacks k requeue) w u := by
    refine moved.evolves (.inl ⟨rfl, kind⟩) step ?_
    cases step with
    | requeue _ some | discard some | retryLater some => simp [some]
    | enqueue | schedule | claim | expire | skip | extend | complete | cancel | promoteScheduled
    | promoteRetry | revive | forget => simp at kind
  refine wp_nack sound (fun _ _ => Evolves.refl w)
    (fun again s u _ step moved => moves (.inl ⟨rfl, again⟩) step moved)
    (fun fails s u _ step moved => moves (.inr ⟨.inr rfl, fails⟩) step moved)
    fun fails s u step moved => ?_
  exact (((advanceWorkflow_advances _ _ _).mono fun _ _ => .inr).after sound
    (moves (.inr ⟨.inl rfl, fails⟩) step moved)).mono fun _ _ evolves _ => evolves

/-! ## Heartbeat -/

/-- The moves a `Heartbeat` of the jobs can cause. -/
def Beats (ids : List String) : String → Move → Prop := fun j m => j ∈ ids ∧ m = .extend

theorem extendLease_evolves {w : World} {now : Int} {ids : List String} {k : String}
    (mem : k ∈ ids) (workerID : String) (visibilityTimeoutMs : Int) (extended : List String)
    (clock : w.clock = now) :
    serves.wp (extendLease lib workerID visibilityTimeoutMs now k extended)
      (fun _ t => Evolves lib (Beats ids) w t) w := by
  subst clock
  cases h : (w.slot k).record with
  | none =>
    simp only [extendLease, bind_eq, wp_bind, wp_getJobState, World.job_of_none h, pure_eq, wp_pure]
    exact Evolves.refl w
  | some rec =>
    by_cases active : rec.state = .active
    · simp only [extendLease, bind_eq, wp_bind, wp_getJobState, World.job_of_record h]
      simp only [unmarshalJobState_state, active, ne_eq, not_true_eq_false, ↓reduceIte, wp_bind,
        wp_put]
      refine wp_sideline (sideline_inProgress k) fun _ t same => wp_pure.mpr ?_
      refine Evolves.trans ?_ same.evolves
      refine .single (j := k) ⟨mem, rfl⟩ ?_ (fun j ne => ?_) rfl rfl (.inl (by simp [h]))
      · have deadline (era : InEra w.clock) : (lib.parseTime (activeInfo lib rec.queue workerID
            w.clock visibilityTimeoutMs).visibilityDeadline).isSome :=
          lib.parseTime_isSome era (isDuration_millisToDuration _)
        simpa [Slot.write] using Slot.Step.extend h active deadline
      · simp [ne]
    · simp only [extendLease, bind_eq, wp_bind, wp_getJobState, World.job_of_record h]
      simp only [unmarshalJobState_state, ne_eq, active, not_false_eq_true, ↓reduceIte, pure_eq,
        wp_pure]
      exact Evolves.refl w

theorem findDirective_advances (k : String) (found : Option String)
    {allowed : String → Move → Prop} : Advances lib allowed (findDirective k found) := by
  unfold findDirective
  split
  · exact .pure _
  · refine (getJobState_advances k).bind fun r => ?_
    cases r <;> exact .pure _

theorem heartbeat_advances (workerID : String) (ids : List String) (visibilityTimeoutMs : Int) :
    Advances lib (Beats ids) (heartbeat lib workerID ids visibilityTimeoutMs) := by
  intro w sound
  simp only [heartbeat, bind_eq, wp_bind, wp_timeNow, wp_get .workers]
  refine wp_sideline (sideline_put rfl _ _) fun _ v same => ?_
  refine (wp_forEach_evolves (same.sound sound) fun k mem extended u _ clock =>
    extendLease_evolves mem workerID visibilityTimeoutMs extended
      (clock.trans same.clock)).mono fun extended t evolves => ?_
  refine (Advances.ite _ ?_ (.pure _)).after sound (same.evolves.trans evolves)
  exact (Advances.forEach _ fun k _ found => findDirective_advances k found).bind fun _ => .pure _

end OjsNats.Lifecycle
