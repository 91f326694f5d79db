import OjsNats.Faults.Recovery
import OjsNats.Lifecycle.Judging

/-!
# Reports when calls fail

`Ack`, `Nack` and `Cancel` write the record of the job first and do the rest
afterwards.  Which call has failed tells what is done and what is not.
-/

namespace OjsNats.Faults

open Core Nats Effect Semantics Program Lifecycle

variable {lib : Externals} {w m t u : World} {log : List Op} {j : String}

/-- Calls that cannot fail. -/
def Infallible : Op → Prop
  | .regexLoad _ | .regexStore _ _ => True
  | _ => False

theorem wp_infallible {α : Type} {p : Prog α} (uses : p.Uses Infallible)
    {Q : α → World × List Op → Prop} (h : serves.wp p (fun a t => Q a (t, log)) w) :
    faulty.wp p Q (w, log) := by
  induction p generalizing w with
  | pure a =>
    have here := wp_pure.mp h
    exact wp_pure.mpr here
  | call op next ih =>
    refine wp_call.mpr ?_
    rintro r ⟨t, log'⟩ (⟨step, rfl⟩ | ⟨step, -⟩)
    · exact ih r (uses.2 r) (wp_call.mp h r t step)
    · have safe := uses.1
      cases op with
      | regexLoad | regexStore => exact step.elim
      | _ => exact safe.elim

theorem infallible_matchesPattern (s pattern : String) :
    (matchesPattern lib s pattern).Uses Infallible := by
  refine ⟨trivial, fun cached => ?_⟩
  cases cached with
  | some re => trivial
  | none =>
    simp only [bind_pure_left]
    split
    · trivial
    · exact ⟨trivial, fun _ => trivial⟩

theorem infallible_matchesAny (jobErr : JobError) (patterns : List String) :
    (matchesAny lib jobErr patterns).Uses Infallible := by
  induction patterns with
  | nil => trivial
  | cons pattern rest ih =>
    refine uses_bind (infallible_matchesPattern _ pattern) fun found => ?_
    cases found with
    | true => trivial
    | false =>
      refine uses_bind (infallible_matchesPattern _ pattern) fun found => ?_
      cases found with
      | true => trivial
      | false => exact ih

theorem infallible_isNonRetryable (job : Job) (jobErr : Option JobError) :
    (isNonRetryable lib job jobErr).Uses Infallible := by
  unfold isNonRetryable
  split
  · trivial
  · split
    · trivial
    · split
      · trivial
      · exact infallible_matchesAny _ _

/-! ## Reports -/

/-- The report is about the job. -/
def Reports (j : String) : Call → Prop
  | .ack k _ | .nack k _ _ | .cancel k => k = j
  | _ => False

/-- The operation returns an internal error. -/
def Faulted {α : Type} : Result α → Prop
  | .error (.internal _ _) => True
  | _ => False

def Internal : Reply → Prop
  | .acked r => Faulted r
  | .nacked r => Faulted r
  | .job r => Faulted r
  | _ => False

/-- Whether `Nack` ends the job instead of retrying it. -/
def endsJob (lib : Externals) (cache : Cache) (rec : JobState) (jobErr : Option JobError) : Bool :=
  (judgement lib cache (unmarshalJobState rec) jobErr).1 ||
    decide (maxAttemptsOf (unmarshalJobState rec) ≤ rec.attempt + 1)

/-- The state that a report gives a job. -/
def outcome (lib : Externals) (cache : Cache) (rec : JobState) : Call → State
  | .ack _ _ => .completed
  | .nack _ _ true => .available
  | .nack _ jobErr false => if endsJob lib cache rec jobErr then .discarded else .retryable
  | _ => .cancelled

/-- The states in which a job takes the report. -/
def Accepts (lib : Externals) (state : State) : Call → Prop
  | .cancel _ => lib.isTerminalState state = false
  | _ => state = .active

/-- The world after the matching of the error that is reported. -/
def afterJudging (lib : Externals) (w : World) (rec : JobState) : Call → World
  | .nack _ jobErr false =>
      w.recached (judgement lib w.regexCache (unmarshalJobState rec) jobErr).2
  | _ => w

/-- The job has the given slot; the others, the counters and the workflows are as before. -/
structure Left (j : String) (s : Slot) (w m : World) : Prop where
  slot : m.slot j = s
  others : ∀ k, k ≠ j → m.slot k = w.slot k
  stats : m.kv .stats = w.kv .stats
  workflows : m.kv .workflows = w.kv .workflows

section Left

variable {s : Slot}

theorem Left.refl (j : String) (w : World) : Left j (w.slot j) w w :=
  ⟨rfl, fun _ _ => rfl, rfl, rfl⟩

theorem Left.put {b : BucketName} (left : Left j s w m) (stats : b ≠ .stats)
    (workflows : b ≠ .workflows) (v : b.Value) : Left j (s.write b (some v)) w (m.put b j v) where
  slot := by simp [left.slot]
  others := fun k ne => by simp [ne, left.others k ne]
  stats := (kv_put_of_ne j v stats).trans left.stats
  workflows := (kv_put_of_ne j v workflows).trans left.workflows

theorem Left.delete {b : BucketName} (left : Left j s w m) (stats : b ≠ .stats)
    (workflows : b ≠ .workflows) : Left j (s.write b none) w (m.delete b j) where
  slot := by simp [left.slot]
  others := fun k ne => by simp [ne, left.others k ne]
  stats := (kv_delete_of_ne j stats).trans left.stats
  workflows := (kv_delete_of_ne j workflows).trans left.workflows

theorem Left.track (left : Left j s w m) (msg : Option Msg) :
    Left j { s with inflight := msg } w (m.track j msg) where
  slot := by simp [left.slot]
  others := fun k ne => by simp [ne, left.others k ne]
  stats := left.stats
  workflows := left.workflows

/-- The first write of a report. -/
theorem left_written (rec : JobState) :
    Left j { w.slot j with record := some rec } w (w.put .jobs j rec) :=
  (Left.refl j w).put (b := .jobs) (by decide) (by decide) rec

end Left

/-- A slot with a new record that no index holds and no message is tracked for. -/
def closed (s : Slot) (rec : JobState) : Slot :=
  { s with record := some rec, active := none, scheduled := none, retry := none, inflight := none }

/-- The policy of the job sends it to the dead letters. -/
def Buries (s : Slot) : Prop :=
  ∃ rec, s.record = some rec ∧ onExhaustion (unmarshalJobState rec) = "dead_letter"

/-- Where a report stops once the new record is written: the call that fails, and the slot
that it leaves. -/
inductive Halt (j : String) (s : Slot) (rec : JobState) : Call → Op → Slot → Prop
  | undeleted {call : Call} : Halt j s rec call (.delete .active j) { s with record := some rec }
  | unscheduled : Halt j s rec (.cancel j) (.delete .scheduled j)
      { s with record := some rec, active := none }
  | unretried : Halt j s rec (.cancel j) (.delete .retry j)
      { s with record := some rec, active := none, scheduled := none }
  | unacked {call : Call} {msg : Msg} : Halt j s rec call (.msgAck msg) (closed s rec)
  | unpublished {jobErr : Option JobError} {subject : String} :
      Halt j s rec (.nack j jobErr true) (.publish subject j) (closed s rec)
  | unindexed {jobErr : Option JobError} {due : String} : rec.state = .retryable →
      Halt j s rec (.nack j jobErr false) (.put .retry j due) (closed s rec)
  | unburied {jobErr : Option JobError} {due : String} : rec.state = .discarded → Buries s →
      Halt j s rec (.nack j jobErr false) (.put .dead j due) (closed s rec)

/-- If it fails, a report on a job it accepts either has not written the record and left all as
it was, or has stopped after that. -/
def Stops (j : String) (w : World) (call : Call) (state : State) (faulted : Prop)
    (s : World × List Op) : Prop :=
  faulted → (∃ rec, s = (w, [.put .jobs j rec])) ∨
    ∃ op rec slot, s.2 = [op] ∧ rec.state = state ∧ Halt j (w.slot j) rec call op slot ∧
      Left j slot w s.1

/-- If a report ends with an internal error, the job was in a state to take it. -/
def Halts (lib : Externals) (j : String) (w : World) (call : Call) (faulted : Prop)
    (s : World × List Op) : Prop :=
  faulted → ∃ rec, (w.slot j).record = some rec ∧ Accepts lib rec.state call ∧
    Stops j (afterJudging lib w rec call) call (outcome lib w.regexCache rec call) faulted s

section Stops

variable {rec rec' : JobState} {s : Slot}

theorem Stops.of_halt {call : Call} {state : State} {op : Op} {faulted : Prop}
    (after : rec'.state = state) (halt : Halt j (w.slot j) rec' call op s) (left : Left j s w m) :
    Stops j w call state faulted (m, [op]) :=
  fun _ => .inr ⟨op, rec', s, rfl, after, halt, left⟩

theorem Stops.unwritten {call : Call} {state : State} {faulted : Prop} :
    Stops j w call state faulted (w, [.put .jobs j rec']) :=
  fun _ => .inl ⟨rec', rfl⟩

theorem Halts.of_stops {call : Call} {faulted : Prop} {r : World × List Op}
    (stored : (w.slot j).record = some rec) (accepts : Accepts lib rec.state call)
    (stops : Stops j (afterJudging lib w rec call) call (outcome lib w.regexCache rec call)
      faulted r) : Halts lib j w call faulted r :=
  fun _ => ⟨rec, stored, accepts, stops⟩

/-- The slot of an active job whose report has got beyond the acknowledgement. -/
theorem closed_eq (placed : s.Placed j) (stored : s.record = some rec)
    (active : rec.state = .active) :
    closed s rec' = { s with record := some rec', active := none, inflight := none } := by
  obtain ⟨scheduled, retry, -, -⟩ := placed.entries_active stored active
  unfold closed
  rw [scheduled, retry]

/-- The first three writes of a report on an active job. -/
theorem left_closed (placed : (w.slot j).Placed j) (stored : (w.slot j).record = some rec)
    (active : rec.state = .active) (rec' : JobState) : Left j (closed (w.slot j) rec') w
      (((w.put .jobs j rec').delete .active j).track j none) := by
  rw [closed_eq placed stored active]
  exact ((left_written rec').delete (b := .active) (by decide) (by decide)).track none

theorem halts_ack (result : Option RawMessage) (placed : ∀ rec, (w.slot j).record = some rec →
      Accepts lib rec.state (.ack j result) → (w.slot j).Placed j) :
    faulty.wp (ack lib j result)
      (fun r s => Halts lib j w (.ack j result) (Faulted r) s) (w, []) := by
  refine wp_bind.mpr (wp_getJobState ?_ (wp_pure.mpr False.elim))
  cases stored : (w.slot j).record with
  | none =>
    rw [World.job_of_none stored]
    exact wp_pure.mpr False.elim
  | some rec =>
    rw [World.job_of_record stored]
    dsimp only
    split
    · exact wp_pure.mpr False.elim
    · rename_i active
      replace active : rec.state = .active := not_not.mp active
      have placed := placed rec stored active
      obtain rfl : rec.id = j := placed.keyed rec stored
      have accepts : Accepts lib rec.state (.ack rec.id result) := active
      refine wp_bind.mpr (wp_timeNow.mpr (wp_bind.mpr (wp_put.mpr ⟨?_, ?_⟩)))
      · refine wp_bind.mpr (wp_delete.mpr ⟨?_, ?_⟩)
        · refine wp_bind.mpr (wp_ackMessage ?_ fun msg _ => ?_)
          · refine wp_bind.mpr fun _ _ _ => wp_bind.mpr fun _ _ _ => wp_bind.mpr fun _ _ _ => ?_
            exact wp_pure.mpr False.elim
          · exact wp_pure.mpr (.of_stops stored accepts (.of_halt rfl .unacked
              (left_closed placed stored active _)))
        · exact wp_pure.mpr (.of_stops stored accepts (.of_halt rfl .undeleted
            (left_written _)))
      · exact wp_pure.mpr (.of_stops stored accepts .unwritten)

theorem halts_cancel (placed : ∀ rec, (w.slot j).record = some rec →
      Accepts lib rec.state (.cancel j) → (w.slot j).Placed j) :
    faulty.wp (cancel lib j) (fun r s => Halts lib j w (.cancel j) (Faulted r) s) (w, []) := by
  refine wp_bind.mpr (wp_getJobState ?_ (wp_pure.mpr False.elim))
  cases stored : (w.slot j).record with
  | none =>
    rw [World.job_of_none stored]
    exact wp_pure.mpr False.elim
  | some rec =>
    rw [World.job_of_record stored]
    dsimp only
    split
    · exact wp_pure.mpr False.elim
    · rename_i live
      have accepts : Accepts lib rec.state (.cancel j) := (Bool.not_eq_true _).mp live
      obtain rfl : rec.id = j := (placed rec stored accepts).keyed rec stored
      refine wp_bind.mpr (wp_timeNow.mpr (wp_bind.mpr (wp_put.mpr ⟨?_, ?_⟩)))
      · have written := (Left.refl rec.id w).put (b := .jobs) (by decide) (by decide)
          (marshalJobState (cancelledJob lib w.clock (unmarshalJobState rec)))
        have inactive := written.delete (b := .active) (by decide) (by decide)
        have unscheduled := inactive.delete (b := .scheduled) (by decide) (by decide)
        have unretried := unscheduled.delete (b := .retry) (by decide) (by decide)
        refine wp_bind.mpr (wp_delete.mpr ⟨wp_bind.mpr (wp_delete.mpr ⟨wp_bind.mpr (wp_delete.mpr
          ⟨wp_bind.mpr (wp_ackMessage (wp_pure.mpr False.elim) fun msg _ => ?_), ?_⟩), ?_⟩), ?_⟩)
        · exact wp_pure.mpr (.of_stops stored accepts (.of_halt rfl .unacked
            (unretried.track none)))
        · exact wp_pure.mpr (.of_stops stored accepts (.of_halt rfl .unretried unscheduled))
        · exact wp_pure.mpr (.of_stops stored accepts (.of_halt rfl .unscheduled inactive))
        · exact wp_pure.mpr (.of_stops stored accepts (.of_halt rfl .undeleted written))
      · exact wp_pure.mpr (.of_stops stored accepts .unwritten)

theorem halts_nackRequeue (placed : (w.slot j).Placed j) (stored : (w.slot j).record = some rec)
    (active : rec.state = .active) (jobErr : Option JobError) (now : Int) :
    faulty.wp (nackRequeue lib j now (unmarshalJobState rec))
      (fun r s => Stops j w (.nack j jobErr true) .available (Faulted r) s) (w, []) := by
  obtain rfl : rec.id = j := placed.keyed rec stored
  have closed := left_closed placed stored active
    (marshalJobState (requeuedJob lib now (unmarshalJobState rec)))
  refine wp_bind.mpr (wp_put.mpr ⟨wp_bind.mpr (wp_delete.mpr ⟨wp_bind.mpr (wp_ackMessage
    (wp_bind.mpr (wp_publishJob ?_ fun e => ?_)) fun msg _ => ?_), ?_⟩), ?_⟩)
  · exact wp_bind.mpr fun _ _ _ => wp_pure.mpr False.elim
  · exact wp_pure.mpr (.of_halt rfl .unpublished closed)
  · exact wp_pure.mpr (.of_halt rfl .unacked closed)
  · exact wp_pure.mpr (.of_halt rfl .undeleted (left_written _))
  · exact wp_pure.mpr .unwritten

theorem halts_nackDiscard (placed : (w.slot j).Placed j) (stored : (w.slot j).record = some rec)
    (active : rec.state = .active) (jobErr : Option JobError) (now newAttempt : Int)
    (errJSON : Option RawMessage) :
    faulty.wp (nackDiscard lib j now newAttempt errJSON (withError errJSON (unmarshalJobState rec)))
      (fun r s => Stops j w (.nack j jobErr false) .discarded (Faulted r) s) (w, []) := by
  obtain rfl : rec.id = j := placed.keyed rec stored
  have closed := left_closed placed stored active (marshalJobState (discardedJob lib now newAttempt
    errJSON (withError errJSON (unmarshalJobState rec))))
  refine wp_bind.mpr (wp_put.mpr ⟨wp_bind.mpr (wp_delete.mpr ⟨wp_bind.mpr (wp_ackMessage
    (wp_bind.mpr ?_) fun msg _ => ?_), ?_⟩), ?_⟩)
  · unfold deadLetter
    split
    · rename_i buries
      refine wp_bind.mpr (wp_put.mpr ⟨wp_pure.mpr ?_, wp_pure.mpr ?_⟩)
      · exact wp_bind.mpr fun _ _ _ => wp_bind.mpr fun _ _ _ => wp_pure.mpr False.elim
      · exact wp_pure.mpr (.of_halt rfl (.unburied rfl ⟨rec, stored, buries⟩) closed)
    · refine wp_pure.mpr ?_
      exact wp_bind.mpr fun _ _ _ => wp_bind.mpr fun _ _ _ => wp_pure.mpr False.elim
  · exact wp_pure.mpr (.of_halt rfl .unacked closed)
  · exact wp_pure.mpr (.of_halt rfl .undeleted (left_written _))
  · exact wp_pure.mpr .unwritten

theorem halts_nackRetry (placed : (w.slot j).Placed j) (stored : (w.slot j).record = some rec)
    (active : rec.state = .active) (jobErr : Option JobError) (now newAttempt : Int)
    (errJSON : Option RawMessage) :
    faulty.wp (nackRetry lib j now newAttempt errJSON (withError errJSON (unmarshalJobState rec)))
      (fun r s => Stops j w (.nack j jobErr false) .retryable (Faulted r) s) (w, []) := by
  obtain rfl : rec.id = j := placed.keyed rec stored
  refine wp_bind.mpr (wp_ask_faulty.mpr ⟨Lifecycle.wp_calculateBackoff.mpr fun backoff _ => ?_,
    fun _ step => step.elim⟩)
  have closed := left_closed placed stored active (marshalJobState (retryableJob newAttempt
    (backoff.tdiv 1000000) errJSON (withError errJSON (unmarshalJobState rec))))
  refine wp_bind.mpr (wp_put.mpr ⟨wp_bind.mpr (wp_delete.mpr ⟨wp_bind.mpr (wp_ackMessage
    (wp_bind.mpr (wp_put.mpr ⟨?_, ?_⟩)) fun msg _ => ?_), ?_⟩), ?_⟩)
  · exact wp_bind.mpr fun _ _ _ => wp_pure.mpr False.elim
  · exact wp_pure.mpr (.of_halt rfl (.unindexed rfl) closed)
  · exact wp_pure.mpr (.of_halt rfl .unacked closed)
  · exact wp_pure.mpr (.of_halt rfl .undeleted (left_written _))
  · exact wp_pure.mpr .unwritten

theorem halts_nack (jobErr : Option JobError) (requeue : Bool)
    (placed : ∀ rec, (w.slot j).record = some rec →
      Accepts lib rec.state (.nack j jobErr requeue) → (w.slot j).Placed j) :
    faulty.wp (nack lib j jobErr requeue)
      (fun r s => Halts lib j w (.nack j jobErr requeue) (Faulted r) s) (w, []) := by
  refine wp_bind.mpr (wp_getJobState ?_ (wp_pure.mpr False.elim))
  cases stored : (w.slot j).record with
  | none =>
    rw [World.job_of_none stored]
    exact wp_pure.mpr False.elim
  | some rec =>
    rw [World.job_of_record stored]
    dsimp only
    split
    · exact wp_pure.mpr False.elim
    · rename_i active
      replace active : rec.state = .active := not_not.mp active
      refine wp_bind.mpr (wp_timeNow.mpr ?_)
      replace placed := placed rec stored active
      cases requeue with
      | true =>
        exact (halts_nackRequeue placed stored active jobErr w.clock).mono fun _ _ stops =>
          .of_stops stored active stops
      | false =>
        refine wp_bind.mpr (wp_infallible (infallible_isNonRetryable _ _) (wp_judgement.mpr ?_))
        have ends : outcome lib w.regexCache rec (.nack j jobErr false) =
            if endsJob lib w.regexCache rec jobErr then .discarded else .retryable := rfl
        -- the matching leaves the slots alone
        have placed' : ((afterJudging lib w rec (.nack j jobErr false)).slot j).Placed j := placed
        split
        · rename_i ended
          rw [show endsJob lib w.regexCache rec jobErr = true from ended, if_pos rfl] at ends
          refine wp.mono (halts_nackDiscard placed' stored active jobErr _ _ _) fun _ _ stops => ?_
          exact .of_stops stored active (ends ▸ stops)
        · rename_i goes
          rw [show endsJob lib w.regexCache rec jobErr = false from (Bool.not_eq_true _).mp goes]
            at ends
          refine wp.mono (halts_nackRetry placed' stored active jobErr _ _ _) fun _ _ stops => ?_
          exact .of_stops stored active (ends ▸ stops)

theorem halts_report {call : Call} (reports : Reports j call)
    (placed : ∀ rec, (w.slot j).record = some rec → Accepts lib rec.state call →
      (w.slot j).Placed j) :
    faulty.wp (call.program lib) (fun reply s => Halts lib j w call (Internal reply) s)
      (w, []) := by
  cases call with
  | ack k result =>
    obtain rfl : k = j := reports
    exact wp_bind.mpr ((halts_ack result placed).mono fun _ _ halts => wp_pure.mpr halts)
  | nack k jobErr requeue =>
    obtain rfl : k = j := reports
    exact wp_bind.mpr ((halts_nack jobErr requeue placed).mono fun _ _ halts => wp_pure.mpr halts)
  | cancel k =>
    obtain rfl : k = j := reports
    exact wp_bind.mpr ((halts_cancel placed).mono fun _ _ halts => wp_pure.mpr halts)
  | _ => exact reports.elim

end Stops

/-! ## Refused reports -/

section Refused

variable {rec : JobState} {call : Call}

/-- A job that does not accept a report is left as it is. -/
theorem wp_refused (reports : Reports j call) (stored : (w.slot j).record = some rec)
    (refuses : ¬ Accepts lib rec.state call) :
    serves.wp (call.program lib) (fun _ t => t = w) w := by
  cases call with
  | ack k result =>
    obtain rfl : k = j := reports
    refine wp_bind.mpr (wp_bind.mpr (Lifecycle.wp_getJobState.mpr ?_))
    rw [World.job_of_record stored]
    dsimp only
    have inactive : (unmarshalJobState rec).state ≠ .active := refuses
    rw [if_pos inactive]
    exact wp_pure.mpr (wp_pure.mpr rfl)
  | nack k jobErr requeue =>
    obtain rfl : k = j := reports
    refine wp_bind.mpr (wp_bind.mpr (Lifecycle.wp_getJobState.mpr ?_))
    rw [World.job_of_record stored]
    dsimp only
    have inactive : (unmarshalJobState rec).state ≠ .active := refuses
    rw [if_pos inactive]
    exact wp_pure.mpr (wp_pure.mpr rfl)
  | cancel k =>
    obtain rfl : k = j := reports
    refine wp_bind.mpr (wp_bind.mpr (Lifecycle.wp_getJobState.mpr ?_))
    rw [World.job_of_record stored]
    dsimp only
    have ended : lib.isTerminalState (unmarshalJobState rec).state = true :=
      (Bool.not_eq_false _).mp refuses
    rw [if_pos ended]
    exact wp_pure.mpr (wp_pure.mpr rfl)
  | _ => exact reports.elim

/-- No report is accepted a second time. -/
theorem refuses_outcome (reports : Reports j call) (accepts : Accepts lib rec.state call)
    (cache : Cache) : ¬ Accepts lib (outcome lib cache rec call) call := by
  cases call with
  | ack k result => simp [Accepts, outcome]
  | nack k jobErr requeue =>
    cases requeue with
    | true => simp [Accepts, outcome]
    | false =>
      simp only [Accepts, outcome]
      split <;> simp
  | cancel k => simp [Accepts, outcome, isTerminalState_of]
  | _ => exact reports.elim

end Refused

end OjsNats.Faults
