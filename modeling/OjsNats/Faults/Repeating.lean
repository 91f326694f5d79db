import OjsNats.Faults.Reporting
import OjsNats.Lifecycle.Counting
import OjsNats.Lifecycle.Membership
import OjsNats.Lifecycle.Tallies

/-!
# Reports that are repeated

A report that fails once the record is written is refused when it is repeated,
so what it had left to do is never done.
-/

namespace OjsNats.Faults

open Core Nats Effect Semantics Program Lifecycle

variable {lib : Externals} {w m t u : World} {j : String} {rec : JobState} {call : Call}

/-- A report that is repeated, at any later time, until none of its calls fails. -/
inductive Repeated (lib : Externals) (call : Call) : World → List Op → World → Prop
  | served {w t : World} {reply : Reply} : serves.Exec (call.program lib) w reply t →
      Repeated lib call w [] t
  | failed {w m t : World} {op : Op} {failed : List Op} {reply : Reply} {now : Int} :
      faulty.Exec (call.program lib) (w, []) reply (m, [op]) → Internal reply → w.clock ≤ now →
      Repeated lib call (m.atTime now) failed t → Repeated lib call w (op :: failed) t

/-- What a slot shows apart from timestamps. -/
structure Showing where
  state : Option State
  active : Bool
  scheduled : Bool
  retry : Bool
  dead : Bool
  /-- The subjects of the undelivered messages. -/
  messages : List String

def shown (s : Slot) : Showing where
  state := s.state
  active := s.active.isSome
  scheduled := s.scheduled.isSome
  retry := s.retry.isSome
  dead := s.dead.isSome
  messages := s.messages.map Msg.subject

def undated (wfState : WorkflowState) : WorkflowState :=
  { wfState with createdAt := "", completedAt := "" }

/-- The worlds differ in nothing but timestamps, as far as jobs, counters and workflows go. -/
structure Coincides (t t' : World) : Prop where
  slots : ∀ k, shown (t.slot k) = shown (t'.slot k)
  counters : ∀ key, t.value .stats key = t'.value .stats key
  progress : ∀ id, (t.value .workflows id).map undated = (t'.value .workflows id).map undated

/-- Once a report has stopped after the write of the record, its repetition changes nothing. -/
theorem Repeated.of_refused {failed : List Op} (reports : Reports j call)
    (stored : (u.slot j).record = some rec) (refuses : ¬ Accepts lib rec.state call)
    (repeated : Repeated lib call u failed t) : failed = [] ∧ t = u := by
  cases repeated with
  | served run => exact ⟨rfl, wp_refused reports stored refuses _ _ run⟩
  | failed run internal =>
    have never : ∀ rec, (u.slot j).record = some rec → Accepts lib rec.state call →
        (u.slot j).Placed j := by
      intro rec' stored' accepts
      cases stored.symm.trans stored'
      exact absurd accepts refuses
    obtain ⟨rec', stored', accepts, -⟩ := halts_report reports never _ _ run internal
    cases stored.symm.trans stored'
    exact absurd accepts refuses

/-! ## Reports that are served -/

section Served

variable {rec : JobState} {jobErr : Option JobError}

/-- The rest of a `Nack` without requeue, once the error is judged. -/
def afterJudgement (lib : Externals) (j : String) (now : Int) (rec : JobState)
    (jobErr : Option JobError) (ended : Bool) : Prog (Result NackResponse) :=
  let errJSON := failurePayload rec jobErr
  let job := withError errJSON (unmarshalJobState rec)
  if ended then nackDiscard lib j now (rec.attempt + 1) errJSON job
  else nackRetry lib j now (rec.attempt + 1) errJSON job

theorem exec_bind_of_wp {α β : Type} {p : Prog α} {f : α → Prog β} {a : α} {b : β}
    (h : ∀ Q : α → World → Prop, serves.wp p Q w ↔ Q a m) :
    serves.Exec (p.bind f) w b t ↔ serves.Exec (f a) m b t := by
  constructor
  · intro run
    obtain ⟨a', m', first, rest⟩ := exec_bind.mp run
    obtain ⟨rfl, rfl⟩ := (h fun a' m' => a' = a ∧ m' = m).mpr ⟨rfl, rfl⟩ a' m' first
    exact rest
  · intro rest
    have first : serves.Exec p w a m := (h fun a' m' => serves.Exec p w a' m').mp fun _ _ run => run
    exact exec_bind.mpr ⟨a, m, first, rest⟩

/-- What `Nack` does after it has read the clock and judged the error. -/
theorem exec_nack (stored : (w.slot j).record = some rec) (active : rec.state = .active)
    {r : Result NackResponse} : serves.Exec (nack lib j jobErr false) w r t ↔
      serves.Exec (afterJudgement lib j w.clock rec jobErr (endsJob lib w.regexCache rec jobErr))
        (afterJudging lib w rec (.nack j jobErr false)) r t := by
  refine (exec_bind_of_wp fun _ => Lifecycle.wp_getJobState).trans ?_
  rw [World.job_of_record stored]
  dsimp only
  have inside : ¬ (unmarshalJobState rec).state ≠ .active := not_not.mpr active
  rw [if_neg inside]
  refine (exec_bind_of_wp fun _ => Lifecycle.wp_timeNow).trans ?_
  exact exec_bind_of_wp fun _ => wp_judgement

theorem endsJob_again (cache : Cache) :
    endsJob lib (judgement lib cache (unmarshalJobState rec) jobErr).2 rec jobErr =
      endsJob lib cache rec jobErr := by
  unfold endsJob
  rw [judgement_again]

/-- An error that was judged before leaves nothing to be compiled. -/
theorem afterJudging_again (w : World) (rec : JobState) (call : Call) (now : Int) :
    afterJudging lib ((afterJudging lib w rec call).atTime now) rec call =
      (afterJudging lib w rec call).atTime now := by
  cases call with
  | nack k jobErr requeue =>
    cases requeue with
    | true => rfl
    | false => simp only [afterJudging, World.recached, World.atTime, judgement_again]
  | _ => rfl

theorem outcome_again (w : World) (rec : JobState) (call : Call) (now : Int) :
    outcome lib ((afterJudging lib w rec call).atTime now).regexCache rec call =
      outcome lib w.regexCache rec call := by
  cases call with
  | nack k jobErr requeue =>
    cases requeue with
    | true => rfl
    | false => simp only [outcome, afterJudging, World.recached, World.atTime, endsJob_again]
  | _ => rfl

/-- After a report whose error was judged, the same report goes the same way. -/
theorem exec_afterJudging {call : Call} {reply : Reply} {now : Int}
    (stored : (w.slot j).record = some rec) (reports : Reports j call)
    (accepts : Accepts lib rec.state call) :
    serves.Exec (call.program lib) ((afterJudging lib w rec call).atTime now) reply t →
      serves.Exec (call.program lib) (w.atTime now) reply t := by
  cases call with
  | nack k jobErr requeue =>
    obtain rfl : k = j := reports
    cases requeue with
    | true => exact id
    | false =>
      intro run
      obtain ⟨r, last, run, same⟩ := exec_bind.mp run
      have ended : endsJob lib
          ((afterJudging lib w rec (.nack k jobErr false)).atTime now).regexCache rec jobErr =
            endsJob lib w.regexCache rec jobErr := endsJob_again _
      have again := (exec_nack (w := (afterJudging lib w rec (.nack k jobErr false)).atTime now)
        stored accepts).mp run
      rw [afterJudging_again, ended] at again
      have first : serves.Exec (nack lib k jobErr false) (w.atTime now) r last :=
        (exec_nack (w := w.atTime now) stored accepts).mpr again
      exact exec_bind.mpr ⟨r, last, first, same⟩
  | ack => exact id
  | cancel => exact id
  | _ => exact reports.elim

/-- A count changes the counter. -/
theorem nextCount_ne (data : String) : nextCount data ≠ data := by
  intro same
  have low := Int.le_bmod (x := atoi data + 1) (m := 2 ^ 64) (by decide)
  have high := Int.bmod_lt (x := atoi data + 1) (m := 2 ^ 64) (by decide)
  have read : atoi (nextCount data) = (atoi data + 1).bmod (2 ^ 64) :=
    atoi_intToStr (by omega) (by omega)
  have rest := Int.bmod_emod (x := atoi data + 1) (m := 2 ^ 64)
  rw [same] at read
  rw [← read] at rest
  omega

theorem counted_ne (w : World) (queue : String) :
    (w.counted queue).value .stats (kvStatsKey queue "completed") ≠
      w.value .stats (kvStatsKey queue "completed") := by
  intro same
  rw [World.counted, value_put, dif_pos ⟨rfl, rfl⟩] at same
  cases stored : w.value .stats (kvStatsKey queue "completed") with
  | none => simp [stored] at same
  | some data =>
    simp only [stored, Option.some.injEq] at same
    exact nextCount_ne data same

/-- An acknowledgement that is accepted changes the counter of its queue. -/
theorem ack_counted (sound : Sound w) (result : Option RawMessage)
    (stored : (w.slot j).record = some rec) (active : rec.state = .active) :
    serves.wp (ack lib j result) (fun _ t => t.value .stats (kvStatsKey rec.queue "completed") ≠
      w.value .stats (kvStatsKey rec.queue "completed")) w := by
  intro r t run
  rcases ack_counts result r t run with ⟨⟨e, rfl⟩, -⟩ | ⟨response, rec', -, stored', -, counted⟩
  · have accepted : serves.wp (ack lib j result) (fun r _ => ∃ response, r = .ok response) w :=
      wp_ack sound (fun away => absurd (Slot.state_of_record stored ▸ congrArg some active) away)
        fun _ _ _ _ _ _ _ response => ⟨response, rfl⟩
    obtain ⟨response, same⟩ := accepted _ _ run
    cases same
  · cases (show some rec = some rec' from stored.symm.trans stored')
    rw [value_of_kv counted]
    exact counted_ne w rec.queue

theorem failed_settled (lib : Externals) (now : Int) (wfState : WorkflowState) (stepIdx : Int)
    (ids : List String) :
    (notedWorkflow (settledWorkflow lib now wfState stepIdx none true) ids).failed =
      wfState.failed + 1 := by
  obtain ⟨state, time, same⟩ := settledWorkflow_eq lib now wfState stepIdx none true
  have noted (wfState : WorkflowState) : (notedWorkflow wfState ids).failed = wfState.failed := by
    unfold notedWorkflow
    split <;> rfl
  rw [noted, same]
  exact countedWorkflow_failed

/-- The workflow of a discarded job counts the failure. -/
theorem discard_advances (sound : Sound w) (stored : (w.slot j).record = some rec)
    (active : rec.state = .active) {workflowID : String} {wfState : WorkflowState}
    (reports : reportsTo w j = some (workflowID, wfState)) :
    serves.wp (nackDiscard lib j w.clock (rec.attempt + 1) (failurePayload rec jobErr)
        (withError (failurePayload rec jobErr) (unmarshalJobState rec)))
      (fun _ t => ∃ wfState', t.value .workflows workflowID = some wfState' ∧
        wfState'.failed = wfState.failed + 1) w := by
  refine wp_nackDiscard sound stored active jobErr fun s u step moved => ?_
  have same := (moved.reportsTo stored step).1
  refine wp_advanceWorkflow (moved.sound step (by simp [stored]) sound) (fun idle => ?_)
    fun workflowID' wfState' reports' ids t steered reply => ?_
  · rw [same, reports] at idle
    cases idle
  · cases (show some (workflowID, wfState) = some (workflowID', wfState') from
      reports.symm.trans (same.symm.trans reports'))
    exact ⟨_, steered.record, failed_settled ..⟩

/-- A discarded job whose policy says so is a dead letter. -/
theorem discard_buries (keyed : rec.id = j) (stored : (w.slot j).record = some rec)
    (buries : Buries (w.slot j)) (now newAttempt : Int) (errJSON : Option RawMessage) :
    serves.wp (nackDiscard lib j now newAttempt errJSON (withError errJSON (unmarshalJobState rec)))
      (fun _ t => (t.slot j).dead.isSome) w := by
  subst keyed
  obtain ⟨rec', stored', policy⟩ := buries
  cases stored.symm.trans stored'
  have policy' : onExhaustion (discardedJob lib now newAttempt errJSON
      (withError errJSON (unmarshalJobState rec))) = "dead_letter" := policy
  simp only [nackDiscard, bind_eq, wp_bind, Lifecycle.wp_putJobState, Lifecycle.wp_delete,
    Lifecycle.wp_ackMessage, wp_deadLetter, policy', ↓reduceIte, Lifecycle.wp_info, pure_eq,
    wp_pure]
  intro _ t run
  have kept := kv_of_spares (b := .dead)
    (spares_of (confined_advanceWorkflow lib _ _ _) (by decide)) run
  have entry := value_of_kv kept rec.id
  rw [value_put, dif_pos ⟨rfl, rfl⟩] at entry
  exact Option.isSome_iff_exists.mpr ⟨_, entry⟩

/-- A discarded job that is neither a dead letter nor in a running workflow changes alone. -/
theorem discard_closes (sound : Sound w) (stored : (w.slot j).record = some rec)
    (active : rec.state = .active) (spared : ¬ Buries (w.slot j)) (loose : reportsTo w j = none) :
    serves.wp (nackDiscard lib j w.clock (rec.attempt + 1) (failurePayload rec jobErr)
        (withError (failurePayload rec jobErr) (unmarshalJobState rec)))
      (fun _ t => ∃ rec', rec'.state = .discarded ∧ Left j (closed (w.slot j) rec') w t) w := by
  obtain rfl : rec.id = j := (sound.placed j).keyed rec stored
  have policy : onExhaustion (discardedJob lib w.clock (rec.attempt + 1)
      (failurePayload rec jobErr) (withError (failurePayload rec jobErr) (unmarshalJobState rec))) ≠
        "dead_letter" := fun policy => spared ⟨rec, stored, policy⟩
  simp only [nackDiscard, bind_eq, wp_bind, Lifecycle.wp_putJobState, Lifecycle.wp_delete,
    Lifecycle.wp_ackMessage, wp_deadLetter, policy, ↓reduceIte, Lifecycle.wp_info, pure_eq, wp_pure]
  generalize written : marshalJobState (discardedJob lib w.clock (rec.attempt + 1)
      (failurePayload rec jobErr) (withError (failurePayload rec jobErr) (unmarshalJobState rec))) =
    rec'
  have next : Becomes .discarded rec rec' := by
    subst written
    exact ⟨rfl, rfl, rfl, rfl⟩
  have counts : Counts rec rec' := by
    subst written
    exact ⟨rfl, ⟨jobErr, rfl⟩, rfl⟩
  have moved := (((Moved.refl rec.id w).put (b := .jobs) rfl rec').delete (b := .active) rfl).track
    none
  have step : Slot.Step lib w.clock rec.id .discard (w.slot rec.id)
      { w.slot rec.id with record := some rec', active := none, inflight := none } :=
    .discard stored active next counts
  refine wp_advanceWorkflow (moved.sound step (by simp [stored]) sound) (fun _ => ?_)
    fun workflowID wfState reports => ?_
  · exact ⟨rec', next.state, left_closed (sound.placed rec.id) stored active rec'⟩
  · have none := (moved.reportsTo stored step).1.trans loose
    cases none.symm.trans reports

/-- A job that is cancelled is out of all indexes, and nothing else changes. -/
theorem cancel_closes (keyed : rec.id = j) (stored : (w.slot j).record = some rec)
    (live : lib.isTerminalState rec.state = false) :
    serves.wp (cancel lib j)
      (fun _ t => ∃ rec', rec'.state = .cancelled ∧ Left j (closed (w.slot j) rec') w t) w := by
  subst keyed
  simp only [cancel, bind_eq, wp_bind, Lifecycle.wp_getJobState, World.job_of_record stored]
  simp only [unmarshalJobState_state, live, Bool.false_eq_true, ↓reduceIte, cancelIndexes, bind_eq,
    wp_bind, Lifecycle.wp_timeNow, Lifecycle.wp_putJobState, Lifecycle.wp_delete,
    Lifecycle.wp_ackMessage, pure_eq, wp_pure]
  have written : Left rec.id _ w _ := left_written
    (marshalJobState (cancelledJob lib w.clock (unmarshalJobState rec)))
  have inactive := written.delete (b := .active) (by decide) (by decide)
  have unscheduled := inactive.delete (b := .scheduled) (by decide) (by decide)
  have unretried := unscheduled.delete (b := .retry) (by decide) (by decide)
  exact ⟨_, rfl, unretried.track none⟩

end Served

/-! ## What a repetition makes up for -/

/-- The failure ends the job, which is no dead letter and reports to no running workflow. -/
def Concludes (lib : Externals) (w : World) (j : String) (jobErr : Option JobError) : Prop :=
  (∃ rec, (w.slot j).record = some rec ∧ endsJob lib w.regexCache rec jobErr = true) ∧
    ¬ Buries (w.slot j) ∧ reportsTo w j = none

/-- When this call fails, a repetition of the report still does all that is to be done. -/
def Mends (lib : Externals) (w : World) (j : String) (call : Call) : Op → Prop
  | .put .jobs _ _ => True
  | .delete .active _ => (w.slot j).active = none ∧ (w.slot j).scheduled = none ∧
      (w.slot j).retry = none
  | .delete .scheduled _ => (w.slot j).scheduled = none ∧ (w.slot j).retry = none
  | .delete .retry _ => (w.slot j).retry = none
  | .msgAck _ =>
      match call with
      | .cancel _ => True
      | .nack _ jobErr false => Concludes lib w j jobErr
      | _ => False
  | _ => False

section Halted

variable {rec' : JobState} {s s' : Slot} {op : Op} {now : Int} {reply : Reply}

theorem Coincides.refl (t : World) : Coincides t t := ⟨fun _ => rfl, fun _ => rfl, fun _ => rfl⟩

theorem Coincides.of_left {t' : World} (left : Left j s w t) (left' : Left j s' w t')
    (same : shown s = shown s') : Coincides t t' where
  slots := by
    intro k
    by_cases here : k = j
    · rw [here, left.slot, left'.slot, same]
    · rw [left.others k here, left'.others k here]
  counters := fun key => by rw [value_of_kv left.stats, value_of_kv left'.stats]
  progress := fun id => by rw [value_of_kv left.workflows, value_of_kv left'.workflows]

/-- What the world of a report that was served shows agrees with the state of its job. -/
theorem Coincides.placed {t' : World} (same : Coincides t t') (reachable : Reachable lib t') :
    ((t.slot j).active.isSome ↔ (t.slot j).state = some .active) ∧
    ((t.slot j).scheduled.isSome ↔ (t.slot j).state = some .scheduled) ∧
    ((t.slot j).retry.isSome ↔ (t.slot j).state = some .retryable) ∧
    ((t.slot j).state = some .available → (t.slot j).messages ≠ []) := by
  have shows := same.slots j
  simp only [shown, Showing.mk.injEq] at shows
  obtain ⟨state, active, scheduled, retry, -, messages⟩ := shows
  have placed := reachable.sound.placed j
  rw [state, active, scheduled, retry]
  refine ⟨placed.active_iff, placed.scheduled_iff, placed.retry_iff, fun available silent => ?_⟩
  rw [silent, List.map_nil] at messages
  exact reachable.present j available (List.map_eq_nil_iff.mp messages.symm)

theorem accept_report (reports : Reports j call) (w : World) :
    call.Fresh w ∧ w.accept call = w := by
  cases call with
  | ack | nack | cancel => exact ⟨fresh_of_no_ids rfl, rfl⟩
  | _ => exact reports.elim

/-- Served at any later time, a report leads to a state that a server can be in. -/
theorem reachable_served (reachable : Reachable lib w) (reports : Reports j call)
    (later : w.clock ≤ now) (run : serves.Exec (call.program lib) (w.atTime now) reply t) :
    Reachable lib t := by
  obtain ⟨fresh, same⟩ := accept_report reports (w.atTime now)
  exact (reachable.step (.tick later)).step (.call fresh (same.symm ▸ run))

theorem clock_served (sound : Sound w) (reports : Reports j call)
    (run : serves.Exec (call.program lib) w reply t) : t.clock = w.clock := by
  obtain ⟨fresh, same⟩ := accept_report reports w
  exact (call_evolves sound fresh _ _ (same.symm ▸ run)).clock

/-- What a `Nack` does that ends the job. -/
structure Ended (w : World) (j : String) (t : World) : Prop where
  buried : Buries (w.slot j) → (t.slot j).dead.isSome
  advanced : ∀ workflowID wfState, reportsTo w j = some (workflowID, wfState) →
    ∃ wfState', t.value .workflows workflowID = some wfState' ∧ wfState'.failed = wfState.failed + 1
  alone : ¬ Buries (w.slot j) → reportsTo w j = none →
    ∃ rec, rec.state = .discarded ∧ Left j (closed (w.slot j) rec) w t

theorem ended_nack (sound : Sound w) (stored : (w.slot j).record = some rec)
    (active : rec.state = .active) {jobErr : Option JobError}
    (ends : endsJob lib w.regexCache rec jobErr = true) {r : Result NackResponse}
    (run : serves.Exec (nack lib j jobErr false) (w.atTime now) r t) : Ended w j t := by
  have rest := (exec_nack (w := w.atTime now) stored active).mp run
  rw [show endsJob lib (w.atTime now).regexCache rec jobErr = true from ends] at rest
  have sound' : Sound (afterJudging lib (w.atTime now) rec (.nack j jobErr false)) :=
    ⟨sound.placed, sound.known⟩
  have keyed : rec.id = j := (sound.placed j).keyed rec stored
  refine ⟨fun buries => ?_, fun workflowID wfState reports => ?_, fun spared loose => ?_⟩
  · exact discard_buries (w := afterJudging lib (w.atTime now) rec (.nack j jobErr false)) keyed
      stored buries now (rec.attempt + 1) _ r t rest
  · exact discard_advances sound' stored active reports r t rest
  · obtain ⟨rec', state, left⟩ := discard_closes sound' stored active spared loose r t rest
    exact ⟨rec', state, left.slot, left.others, left.stats, left.workflows⟩

theorem outcome_ne (lib : Externals) (rec : JobState) (reports : Reports j call) (cache : Cache) :
    outcome lib cache rec call ≠ .active ∧ outcome lib cache rec call ≠ .scheduled := by
  cases call with
  | ack | cancel => simp [outcome]
  | nack k jobErr requeue =>
    cases requeue with
    | true => simp [outcome]
    | false =>
      simp only [outcome]
      split <;> simp
  | _ => exact reports.elim

/-- A failure that is reported up to the message alone coincides with a whole report only if
the job ends and nothing else depends on it. -/
theorem concludes_of_coincides {t' : World} {jobErr : Option JobError} {r : Result NackResponse}
    (reachable : Reachable lib w) (stored : (w.slot j).record = some rec)
    (active : rec.state = .active)
    (state : rec'.state = outcome lib w.regexCache rec (.nack j jobErr false))
    (left : Left j (closed (w.slot j) rec') w t)
    (run : serves.Exec (nack lib j jobErr false) (w.atTime now) r t')
    (reachable' : Reachable lib t') (same : Coincides t t') : Concludes lib w j jobErr := by
  have sound := reachable.sound
  obtain ⟨-, -, retry, -⟩ := same.placed (j := j) reachable'
  rw [left.slot] at retry
  cases ends : endsJob lib w.regexCache rec jobErr with
  | false =>
    have retryable : rec'.state = .retryable := by simp [state, outcome, ends]
    simp [closed, Slot.state, retryable] at retry
  | true =>
    have ended := ended_nack sound stored active ends run
    refine ⟨⟨rec, stored, ends⟩, fun buries => ?_, ?_⟩
    · have shows := congrArg Showing.dead (same.slots j)
      have spared : (w.slot j).dead = none := (sound.placed j).dead_none stored (by simp [active])
      simp only [shown, left.slot, closed, spared, ended.buried buries] at shows
      cases shows
    · cases reports : reportsTo w j with
      | none => rfl
      | some found =>
        obtain ⟨workflowID, wfState⟩ := found
        obtain ⟨wfState', after, counted⟩ := ended.advanced workflowID wfState reports
        have progress := same.progress workflowID
        rw [value_of_kv left.workflows, (reportsTo_eq_some reports).2.2.1, after, Option.map_some,
          Option.map_some, Option.some_inj] at progress
        have failed := congrArg WorkflowState.failed progress
        simp only [undated] at failed
        omega

/-- Where a repetition coincides with a report that is served, it makes up for the failure. -/
theorem mends_of_coincides {t' : World} (reachable : Reachable lib w) (reports : Reports j call)
    (stored : (w.slot j).record = some rec) (accepts : Accepts lib rec.state call)
    (state : rec'.state = outcome lib w.regexCache rec call)
    (halt : Halt j (w.slot j) rec' call op s) (left : Left j s w t) (later : w.clock ≤ now)
    (run : serves.Exec (call.program lib) (w.atTime now) reply t') (same : Coincides t t') :
    Mends lib w j call op := by
  have reachable' := reachable_served reachable reports later run
  obtain ⟨active, scheduled, retry, available⟩ := same.placed (j := j) reachable'
  obtain ⟨inactive, unscheduled⟩ := outcome_ne lib rec reports w.regexCache
  rw [left.slot] at active scheduled retry available
  have placed := reachable.sound.placed j
  cases halt with
  | undeleted =>
    refine ⟨Slot.isNone_of_not active (by simpa [Slot.state, state] using inactive),
      Slot.isNone_of_not scheduled (by simpa [Slot.state, state] using unscheduled), ?_⟩
    cases entry : (w.slot j).retry with
    | none => rfl
    | some due =>
      -- only a cancellation takes a job that waits for its retry
      have waits := placed.state_of_retry stored entry
      cases call with
      | cancel =>
        simp only [entry, Slot.state, Option.map_some, state, outcome] at retry
        simp at retry
      | ack | nack =>
        rw [waits] at accepts
        cases accepts
      | _ => exact reports.elim
  | unscheduled =>
    simp only [outcome] at state
    exact ⟨Slot.isNone_of_not scheduled (by simp [Slot.state, state]),
      Slot.isNone_of_not retry (by simp [Slot.state, state])⟩
  | unretried =>
    simp only [outcome] at state
    exact Slot.isNone_of_not retry (by simp [Slot.state, state])
  | unacked =>
    cases call with
    | cancel => trivial
    | ack k result =>
      obtain rfl : k = j := reports
      obtain ⟨r, last, run, -, rfl⟩ := exec_bind.mp run
      have sound : Sound (w.atTime now) := ⟨reachable.sound.placed, reachable.sound.known⟩
      refine absurd ?_ (ack_counted sound result stored accepts r _ run)
      exact (same.counters _).symm.trans (value_of_kv left.stats _)
    | nack k jobErr requeue =>
      obtain rfl : k = j := reports
      cases requeue with
      | true =>
        simp only [outcome] at state
        refine absurd (placed.entries_active stored accepts).2.2.2 (available ?_)
        simp [closed, Slot.state, state]
      | false =>
        obtain ⟨r, last, run, -, rfl⟩ := exec_bind.mp run
        exact concludes_of_coincides reachable stored accepts state left run reachable' same
    | _ => exact reports.elim
  | unpublished =>
    simp only [outcome] at state
    refine absurd (placed.entries_active stored accepts).2.2.2 (available ?_)
    simp [closed, Slot.state, state]
  | unindexed retryable => simp [closed, Slot.state, retryable] at retry
  | unburied discarded buries =>
    obtain ⟨r, last, run, -, rfl⟩ := exec_bind.mp run
    have concludes := concludes_of_coincides reachable stored accepts state left run reachable' same
    exact concludes.2.1 buries

/-- A whole cancellation coincides with one that has left no index entry behind. -/
theorem coincides_cancel (placed : (w.slot j).Placed j) (stored : (w.slot j).record = some rec)
    (live : lib.isTerminalState rec.state = false) (now : Int) (left : Left j s w t)
    (same : ∀ rec'', rec''.state = .cancelled → shown s = shown (closed (w.slot j) rec'')) :
    ∃ reply t', serves.Exec ((Call.cancel j).program lib) (w.atTime now) reply t' ∧
      Coincides t t' := by
  obtain ⟨reply, t', run⟩ := exists_exec serves_answers ((Call.cancel j).program lib) (w.atTime now)
  obtain ⟨r, last, first, -, rfl⟩ := exec_bind.mp run
  obtain ⟨rec'', cancelled, left'⟩ := cancel_closes (w := w.atTime now)
    (placed.keyed rec stored) stored live r _ first
  have left' : Left j (closed (w.slot j) rec'') w t' :=
    ⟨left'.slot, left'.others, left'.stats, left'.workflows⟩
  exact ⟨reply, t', run, .of_left left left' (same rec'' cancelled)⟩

/-- Where it makes up for the failure, a repetition coincides with a report that is served. -/
theorem coincides_of_mends (sound : Sound w) (reports : Reports j call)
    (stored : (w.slot j).record = some rec) (accepts : Accepts lib rec.state call)
    (state : rec'.state = outcome lib w.regexCache rec call)
    (halt : Halt j (w.slot j) rec' call op s) (left : Left j s w t) (now : Int)
    (mends : Mends lib w j call op) :
    ∃ reply t', serves.Exec (call.program lib) (w.atTime now) reply t' ∧ Coincides t t' := by
  have placed := sound.placed j
  cases halt with
  | undeleted =>
    obtain ⟨active, scheduled, retry⟩ := mends
    cases call with
    | cancel k =>
      obtain rfl : k = j := reports
      refine coincides_cancel placed stored accepts now left fun rec'' cancelled => ?_
      simp only [outcome] at state
      simp [shown, closed, Slot.state, state, cancelled, active, scheduled, retry]
    | ack | nack =>
      -- an active job has its entry
      have entry := placed.active_iff.mpr (Slot.state_of_record stored ▸ congrArg some accepts)
      simp [active] at entry
    | _ => exact reports.elim
  | unscheduled =>
    obtain ⟨scheduled, retry⟩ := mends
    refine coincides_cancel placed stored accepts now left fun rec'' cancelled => ?_
    simp only [outcome] at state
    simp [shown, closed, Slot.state, state, cancelled, scheduled, retry]
  | unretried =>
    have retry : (w.slot j).retry = none := mends
    refine coincides_cancel placed stored accepts now left fun rec'' cancelled => ?_
    simp only [outcome] at state
    simp [shown, closed, Slot.state, state, cancelled, retry]
  | unacked =>
    cases call with
    | cancel k =>
      obtain rfl : k = j := reports
      refine coincides_cancel placed stored accepts now left fun rec'' cancelled => ?_
      simp only [outcome] at state
      simp [shown, closed, Slot.state, state, cancelled]
    | nack k jobErr requeue =>
      obtain rfl : k = j := reports
      cases requeue with
      | true => exact mends.elim
      | false =>
        obtain ⟨⟨rec₀, stored₀, ends⟩, spared, loose⟩ := mends
        cases stored.symm.trans stored₀
        obtain ⟨reply, t', run⟩ := exists_exec serves_answers
          ((Call.nack k jobErr false).program lib) (w.atTime now)
        obtain ⟨r, last, first, -, rfl⟩ := exec_bind.mp run
        obtain ⟨rec'', discarded, left'⟩ :=
          (ended_nack sound stored accepts ends first).alone spared loose
        refine ⟨reply, _, run, .of_left left left' ?_⟩
        simp only [outcome, ends, if_pos] at state
        simp [shown, closed, Slot.state, state, discarded]
    | ack => exact mends.elim
    | _ => exact reports.elim
  | unpublished | unindexed | unburied => exact mends.elim

end Halted

/-! ## Repetitions -/

/-- The worlds in which a report is made again: the first one, and those in which the error is
judged and nothing is written. -/
inductive Resumed (lib : Externals) (j : String) (call : Call) (w : World) : World → Prop
  | first : Resumed lib j call w w
  | again {rec : JobState} {now : Int} : (w.slot j).record = some rec →
      Accepts lib rec.state call → w.clock ≤ now →
      Resumed lib j call w ((afterJudging lib w rec call).atTime now)

theorem afterJudging_same (lib : Externals) (w : World) (rec : JobState) (call : Call) :
    (afterJudging lib w rec call).slot = w.slot ∧ (afterJudging lib w rec call).kv = w.kv ∧
      (afterJudging lib w rec call).used = w.used := by
  unfold afterJudging
  split <;> exact ⟨rfl, rfl, rfl⟩

theorem Resumed.slots (resumed : Resumed lib j call w u) :
    u.slot = w.slot ∧ u.used = w.used ∧ w.clock ≤ u.clock := by
  cases resumed with
  | first => exact ⟨rfl, rfl, Int.le_refl _⟩
  | @again rec now _ _ later =>
    obtain ⟨slots, -, used⟩ := afterJudging_same lib w rec call
    exact ⟨slots, used, later⟩

theorem Resumed.sound (resumed : Resumed lib j call w u) (sound : Sound w) : Sound u := by
  obtain ⟨slots, used, -⟩ := resumed.slots
  refine ⟨fun k => ?_, fun k => ?_⟩
  · rw [slots]
    exact sound.placed k
  · rw [slots, used]
    exact sound.known k

theorem Resumed.judged (resumed : Resumed lib j call w u) (stored : (w.slot j).record = some rec) :
    afterJudging lib u rec call = (afterJudging lib w rec call).atTime u.clock ∧
      outcome lib u.regexCache rec call = outcome lib w.regexCache rec call := by
  cases resumed with
  | first =>
    refine ⟨?_, rfl⟩
    unfold afterJudging
    split <;> rfl
  | again stored' =>
    cases stored.symm.trans stored'
    exact ⟨afterJudging_again .., outcome_again ..⟩

theorem Halt.record {s s' : Slot} {rec : JobState} {op : Op} (halt : Halt j s rec call op s') :
    s'.record = some rec := by
  cases halt <;> rfl

/-- However often a report fails and is repeated, it ends as one that is served exactly if each
failure was made up for. -/
theorem resumed_iff {failed : List Op} (reachable : Reachable lib w) (reports : Reports j call)
    (resumed : Resumed lib j call w u) (repeated : Repeated lib call u failed t) :
    (∃ reply t', serves.Exec (call.program lib) (w.atTime t.clock) reply t' ∧ Coincides t t') ↔
      ∀ op ∈ failed, Mends lib w j call op := by
  have sound := reachable.sound
  induction repeated with
  | @served u t reply run =>
    refine iff_of_true ⟨reply, t, ?_, .refl t⟩ (by simp)
    rw [clock_served (resumed.sound sound) reports run]
    cases resumed with
    | first => exact run
    | again stored accepts => exact exec_afterJudging stored reports accepts run
  | @failed u m t op failed reply now run internal later rest ih =>
    obtain ⟨slots, -, since⟩ := resumed.slots
    have placed : (u.slot j).Placed j := slots ▸ sound.placed j
    obtain ⟨rec, stored, accepts, stops⟩ :=
      halts_report reports (fun _ _ _ => placed) _ _ run internal
    rw [slots] at stored
    obtain ⟨judged, outcomes⟩ := resumed.judged stored
    rw [judged, outcomes] at stops
    rcases stops internal with ⟨rec', unwritten⟩ | ⟨op', rec', s, single, state, halt, left⟩
    · -- nothing is written, and the report is made again as if for the first time
      cases unwritten
      have resumed' : Resumed lib j call w ((afterJudging lib w rec call).atTime now) :=
        .again stored accepts (since.trans later)
      refine (ih resumed').trans ?_
      rw [List.forall_mem_cons]
      exact (and_iff_right trivial).symm
    · cases single
      obtain ⟨slots', kv, -⟩ := afterJudging_same lib w rec call
      have halt : Halt j (w.slot j) rec' call op s := by
        rw [← slots']
        exact halt
      have left : Left j s w (m.atTime now) := by
        refine ⟨left.slot, fun k ne => ?_, ?_, ?_⟩
        · rw [← slots']
          exact left.others k ne
        · rw [← kv]
          exact left.stats
        · rw [← kv]
          exact left.workflows
      have refuses : ¬ Accepts lib rec'.state call := by
        rw [state]
        exact refuses_outcome reports accepts _
      obtain ⟨rfl, rfl⟩ := rest.of_refused reports (by rw [left.slot, halt.record]) refuses
      rw [List.forall_mem_singleton]
      constructor
      · rintro ⟨reply, t', run, coincides⟩
        exact mends_of_coincides reachable reports stored accepts state halt left
          (since.trans later) run coincides
      · exact coincides_of_mends sound reports stored accepts state halt left now

/-- A report that fails and is repeated until it meets no failure ends as one that is served at
once, up to timestamps, exactly if each of its failures was made up for. -/
theorem repeated_coincides_iff {failed : List Op} (reachable : Reachable lib w)
    (reports : Reports j call) (repeated : Repeated lib call w failed t) :
    (∃ reply t', serves.Exec (call.program lib) (w.atTime t.clock) reply t' ∧ Coincides t t') ↔
      ∀ op ∈ failed, Mends lib w j call op :=
  resumed_iff reachable reports .first repeated

/-- A worker has fetched the one job. -/
def handedOut : World :=
  after (after (World.start (Sample.instant 0)) (.push (mailJob "job-1")))
    (.fetch ["mails"] 1 "worker-1" 0)

theorem reachable_handedOut : Reachable sample handedOut :=
  ((Reachable.start (by decide)).after ⟨by decide, fun _ _ => rfl⟩).after (fresh_of_no_ids rfl)

/-- Acknowledge the job while certain calls fail. -/
def ackFailing (failing : Op → Bool) : Option (Reply × World × List Op) :=
  executeFailing failing ((Call.ack "job-1" none).program sample) (handedOut, [])

theorem reports_ack : Reports "job-1" (.ack "job-1" none) := rfl

/-- What an acknowledgement says that fails. -/
def complaint : Reply → Option String
  | .acked (.error (.internal what _)) => some what
  | _ => none

theorem internal_of_complaint {reply : Reply} {what : String} (h : complaint reply = some what) :
    Internal reply := by
  unfold complaint at h
  split at h
  · trivial
  · cases h

def writesRecord : Op → Bool
  | .put .jobs _ _ => true
  | _ => false

def deletesLease : Op → Bool
  | .delete .active _ => true
  | _ => false

/-- An acknowledgement that could not write the record is made up for by the next. -/
theorem repeated_coincides_unwritten : ∃ op t,
    Repeated sample (.ack "job-1" none) handedOut [op] t ∧ ∃ reply t',
      serves.Exec ((Call.ack "job-1" none).program sample) (handedOut.atTime t.clock) reply t' ∧
        Coincides t t' := by
  have runs : (ackFailing writesRecord).isSome := by decide
  obtain ⟨⟨reply, m, failed⟩, executed⟩ := Option.isSome_iff_exists.mp runs
  have facts : (ackFailing writesRecord).map (fun r => (complaint r.1, r.2.2.map writesRecord)) =
      some (some "updating completed job state", [true]) := by decide
  rw [executed, Option.map_some, Option.some_inj, Prod.mk.injEq] at facts
  obtain ⟨complains, single⟩ := facts
  obtain ⟨op, rfl, writes⟩ := List.map_eq_singleton_iff.mp single
  obtain ⟨reply', t, served⟩ := exists_exec serves_answers ((Call.ack "job-1" none).program sample)
    (m.atTime handedOut.clock)
  have repeated : Repeated sample (.ack "job-1" none) handedOut [op] t :=
    .failed (exec_of_executeFailing executed) (internal_of_complaint complains) (Int.le_refl _)
      (.served served)
  refine ⟨op, t, repeated, (repeated_coincides_iff reachable_handedOut reports_ack
    repeated).mpr (List.forall_mem_singleton.mpr ?_)⟩
  unfold writesRecord at writes
  split at writes
  · trivial
  · cases writes

/-- An acknowledgement that could not delete the lease leaves it behind for good. -/
theorem not_repeated_coincides : ¬ ∀ (lib : Externals) (w t : World) (j : String) (call : Call)
    (failed : List Op), Reachable lib w → Reports j call → Repeated lib call w failed t →
      ∃ reply t', serves.Exec (call.program lib) (w.atTime t.clock) reply t' ∧
        Coincides t t' := by
  intro coincide
  have runs : (ackFailing deletesLease).isSome := by decide
  obtain ⟨⟨reply, m, failed⟩, executed⟩ := Option.isSome_iff_exists.mp runs
  have facts : (ackFailing deletesLease).map (fun r => (complaint r.1, r.2.2.map deletesLease,
      (r.2.1.slot "job-1").state, (r.2.1.slot "job-1").active.isSome)) =
      some (some "removing active job state", [true], some .completed, true) := by decide
  rw [executed, Option.map_some, Option.some_inj] at facts
  simp only [Prod.mk.injEq] at facts
  obtain ⟨complains, single, completed, leased⟩ := facts
  obtain ⟨op, rfl, -⟩ := List.map_eq_singleton_iff.mp single
  obtain ⟨rec, stored, state⟩ := record_of_isSome completed
  have refuses : ¬ Accepts sample rec.state (.ack "job-1" none) := by simp [Accepts, state]
  obtain ⟨reply', t, served⟩ := exists_exec serves_answers ((Call.ack "job-1" none).program sample)
    (m.atTime handedOut.clock)
  obtain rfl := wp_refused (w := m.atTime handedOut.clock) reports_ack stored refuses _ _ served
  have repeated : Repeated sample (.ack "job-1" none) handedOut [op] (m.atTime handedOut.clock) :=
    .failed (exec_of_executeFailing executed) (internal_of_complaint complains) (Int.le_refl _)
      (.served served)
  obtain ⟨reply, t', run, same⟩ := coincide sample handedOut _ "job-1" _ _ reachable_handedOut
    reports_ack repeated
  have reachable' := reachable_served reachable_handedOut reports_ack (Int.le_refl _) run
  obtain ⟨active, -⟩ := same.placed (j := "job-1") reachable'
  have still : (m.slot "job-1").state = some .active := active.mp leased
  rw [completed] at still
  cases still

end OjsNats.Faults
