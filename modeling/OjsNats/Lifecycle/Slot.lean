import OjsNats.Nats.Fetch
import OjsNats.Nats.SchedulerHooks

/-!
# The lifecycle of one job

Everything the storage knows about one job is its slot.  The moves are what
the backend is meant to do with a slot, as single steps; `Placed` says that
each index, the in-flight map and the stream agree with the job's state.
-/

namespace OjsNats.Nats

open Core

/-- What no operation changes after a job's enqueuing: the record without the
fields that operations rewrite. -/
def JobState.terms (rec : JobState) : JobState :=
  { rec with
    state := .available
    attempt := 0
    enqueuedAt := ""
    startedAt := ""
    completedAt := ""
    cancelledAt := ""
    result := none
    error := none
    errors := []
    retryDelayMs := none
    workerID := ""
    rateLimitMaxPerSec := 0 }

end OjsNats.Nats

namespace OjsNats.Lifecycle

open Core Nats

structure Slot where
  record : Option JobState
  scheduled : Option String
  retry : Option String
  dead : Option String
  active : Option ActiveJobInfo
  inflight : Option Msg
  /-- The undelivered messages that carry the job's id. -/
  messages : List Msg

namespace Slot

def state (s : Slot) : Option State := s.record.map JobState.state

theorem state_of_record {s : Slot} {rec : JobState} (h : s.record = some rec) :
    s.state = some rec.state := by
  simp [state, h]

@[ext] theorem ext {s t : Slot} (record : s.record = t.record)
    (scheduled : s.scheduled = t.scheduled) (retry : s.retry = t.retry) (dead : s.dead = t.dead)
    (active : s.active = t.active) (inflight : s.inflight = t.inflight)
    (messages : s.messages = t.messages) : s = t := by
  cases s
  cases t
  simp_all

/-- Each index entry, the in-flight message and the stream say what the state says. -/
structure Placed (j : String) (s : Slot) : Prop where
  keyed : ∀ rec, s.record = some rec → rec.id = j
  scheduled_iff : s.scheduled.isSome ↔ s.state = some .scheduled
  retry_iff : s.retry.isSome ↔ s.state = some .retryable
  active_iff : s.active.isSome ↔ s.state = some .active
  inflight_iff : s.inflight.isSome ↔ s.state = some .active
  dead_discarded : s.dead.isSome → s.state = some .discarded
  announced : s.messages = [] ∨ ∃ m rec, s.messages = [m] ∧ s.record = some rec ∧
    m.subject = queueJobsSubject rec.queue ∧ (rec.state = .available ∨ rec.state = .cancelled)

/-- An available job has an undelivered message. -/
def Present (s : Slot) : Prop := s.state = some .available → s.messages ≠ []

/-- The index entries hold timestamps that the passes can read. -/
structure Legible (lib : Externals) (s : Slot) : Prop where
  scheduled : ∀ due, s.scheduled = some due →
    (parseEither lib.parseRFC3339 lib.parseTime due).isSome
  retry : ∀ due, s.retry = some due → (parseEither lib.parseTime lib.parseRFC3339 due).isSome
  active : ∀ info, s.active = some info → (lib.parseTime info.visibilityDeadline).isSome

/-- No trace of a job. -/
def vacant : Slot := ⟨none, none, none, none, none, none, []⟩

theorem Placed.vacant (j : String) : Slot.vacant.Placed j where
  keyed := by simp [Slot.vacant]
  scheduled_iff := by simp [Slot.vacant, state]
  retry_iff := by simp [Slot.vacant, state]
  active_iff := by simp [Slot.vacant, state]
  inflight_iff := by simp [Slot.vacant, state]
  dead_discarded := by simp [Slot.vacant]
  announced := .inl rfl

theorem Present.vacant : Slot.vacant.Present := by simp [Present, Slot.vacant, state]

theorem Legible.vacant (lib : Externals) : Slot.vacant.Legible lib :=
  ⟨by simp [Slot.vacant], by simp [Slot.vacant], by simp [Slot.vacant]⟩

section Shape

variable {j : String} {s : Slot} {rec : JobState}

theorem isNone_of_not {α : Type} {o : Option α} {p : Prop} (h : o.isSome ↔ p) (hp : ¬ p) :
    o = none := by
  cases o with
  | none => rfl
  | some a => exact absurd (h.mp rfl) hp

theorem Placed.eq_vacant (placed : s.Placed j) (h : s.record = none) : s = Slot.vacant := by
  have state : s.state = none := by simp [Slot.state, h]
  have dead : s.dead = none := by
    cases eq : s.dead with
    | none => rfl
    | some d => simpa [state] using placed.dead_discarded (by simp [eq])
  have messages : s.messages = [] := by
    rcases placed.announced with none | ⟨m, rec, -, some, -⟩
    · exact none
    · simp [h] at some
  exact Slot.ext h (isNone_of_not placed.scheduled_iff (by simp [state]))
    (isNone_of_not placed.retry_iff (by simp [state])) dead
    (isNone_of_not placed.active_iff (by simp [state]))
    (isNone_of_not placed.inflight_iff (by simp [state])) messages

theorem Placed.scheduled_none (placed : s.Placed j) (h : s.record = some rec)
    (state : rec.state ≠ .scheduled) : s.scheduled = none :=
  isNone_of_not placed.scheduled_iff (by simpa [state_of_record h] using state)

theorem Placed.retry_none (placed : s.Placed j) (h : s.record = some rec)
    (state : rec.state ≠ .retryable) : s.retry = none :=
  isNone_of_not placed.retry_iff (by simpa [state_of_record h] using state)

theorem Placed.active_none (placed : s.Placed j) (h : s.record = some rec)
    (state : rec.state ≠ .active) : s.active = none :=
  isNone_of_not placed.active_iff (by simpa [state_of_record h] using state)

theorem Placed.inflight_none (placed : s.Placed j) (h : s.record = some rec)
    (state : rec.state ≠ .active) : s.inflight = none :=
  isNone_of_not placed.inflight_iff (by simpa [state_of_record h] using state)

theorem Placed.dead_none (placed : s.Placed j) (h : s.record = some rec)
    (state : rec.state ≠ .discarded) : s.dead = none := by
  cases eq : s.dead with
  | none => rfl
  | some d =>
    have discarded := placed.dead_discarded (by simp [eq])
    exact absurd discarded (by simpa [state_of_record h] using state)

theorem Placed.messages_nil (placed : s.Placed j) (h : s.record = some rec)
    (available : rec.state ≠ .available) (cancelled : rec.state ≠ .cancelled) :
    s.messages = [] := by
  rcases placed.announced with none | ⟨m, rec', -, same, -, state⟩
  · exact none
  · cases h.symm.trans same
    rcases state with state | state
    · exact absurd state available
    · exact absurd state cancelled

theorem Placed.entries_active (placed : s.Placed j) (h : s.record = some rec)
    (state : rec.state = .active) :
    s.scheduled = none ∧ s.retry = none ∧ s.dead = none ∧ s.messages = [] :=
  ⟨placed.scheduled_none h (by simp [state]), placed.retry_none h (by simp [state]),
    placed.dead_none h (by simp [state]),
    placed.messages_nil h (by simp [state]) (by simp [state])⟩

/-- An undelivered message means that no index holds the job. -/
theorem Placed.entries_announced {msg : Msg} (placed : s.Placed j) (h : s.record = some rec)
    (one : s.messages = [msg]) :
    s.scheduled = none ∧ s.retry = none ∧ s.dead = none ∧ s.active = none ∧ s.inflight = none := by
  rcases placed.announced with none | ⟨m, rec', -, same, -, state⟩
  · simp [one] at none
  · cases h.symm.trans same
    have ne (st : State) (ha : st ≠ .available) (hc : st ≠ .cancelled) : rec.state ≠ st := by
      rintro rfl
      exact state.elim ha hc
    exact ⟨placed.scheduled_none h (ne _ (by simp) (by simp)),
      placed.retry_none h (ne _ (by simp) (by simp)),
      placed.dead_none h (ne _ (by simp) (by simp)),
      placed.active_none h (ne _ (by simp) (by simp)),
      placed.inflight_none h (ne _ (by simp) (by simp))⟩

theorem Placed.of_record {scheduled retry dead : Option String}
    {active : Option ActiveJobInfo} {inflight : Option Msg} {messages : List Msg}
    (id : rec.id = j) (hs : scheduled.isSome ↔ rec.state = .scheduled)
    (hr : retry.isSome ↔ rec.state = .retryable) (ha : active.isSome ↔ rec.state = .active)
    (hi : inflight.isSome ↔ rec.state = .active) (hd : dead.isSome → rec.state = .discarded)
    (hm : messages = [] ∨ ∃ m, messages = [m] ∧ m.subject = queueJobsSubject rec.queue ∧
      (rec.state = .available ∨ rec.state = .cancelled)) :
    (Slot.mk (some rec) scheduled retry dead active inflight messages).Placed j where
  keyed := by
    rintro _ ⟨⟩
    exact id
  scheduled_iff := by simpa [Slot.state] using hs
  retry_iff := by simpa [Slot.state] using hr
  active_iff := by simpa [Slot.state] using ha
  inflight_iff := by simpa [Slot.state] using hi
  dead_discarded := by simpa [Slot.state] using hd
  announced := by
    rcases hm with none | ⟨m, one, subject, state⟩
    · exact .inl none
    · exact .inr ⟨m, rec, one, rfl, subject, state⟩

end Shape

end Slot

/-! ## Moves -/

/-- The kinds of steps in a job's life. -/
inductive Move where
  | enqueue (rec : JobState)
  | schedule (rec : JobState)
  | claim
  | expire
  | skip
  | extend
  | complete (result : Option RawMessage)
  | discard
  | retryLater
  | requeue
  | stall
  | cancel
  | promote
  | revive
  | forget

/-- A later record of the same job, in the given state. -/
structure Becomes (state : State) (rec rec' : JobState) : Prop where
  id : rec'.id = rec.id
  queue : rec'.queue = rec.queue
  state : rec'.state = state
  terms : rec'.terms = rec.terms

/-- Whatever is read off the terms of a job stays. -/
theorem Becomes.same {α : Sort*} {st : State} {rec rec' : JobState} (next : Becomes st rec rec')
    (f : JobState → α) (h : ∀ r, f r.terms = f r) : f rec' = f rec := by
  rw [← h rec', next.terms, h rec]

/-- No attempt is counted. -/
structure Continues (rec rec' : JobState) : Prop where
  attempt : rec'.attempt = rec.attempt
  errors : rec'.errors = rec.errors
  result : rec'.result = rec.result

/-- The job has a result, if one was given; no attempt is counted. -/
structure Finishes (result : Option RawMessage) (rec rec' : JobState) : Prop where
  attempt : rec'.attempt = rec.attempt
  errors : rec'.errors = rec.errors
  result : rec'.result = result.or rec.result

/-- A failed attempt is counted, and its error recorded if there is one. -/
structure Counts (rec rec' : JobState) : Prop where
  attempt : rec'.attempt = rec.attempt + 1
  errors : ∃ jobErr : Option JobError,
    rec'.errors = rec.errors ++ (jobErr.map (errorPayload rec.attempt)).toList
  result : rec'.result = rec.result

/-- The count of the attempts starts again. -/
structure Restarts (rec rec' : JobState) : Prop where
  attempt : rec'.attempt = 0
  errors : rec'.errors = []
  result : rec'.result = rec.result

/-- A later record of the same job, available and enqueued at `now`. -/
structure Requeues (lib : Externals) (now : Int) (rec rec' : JobState) : Prop
    extends Becomes .available rec rec' where
  enqueuedAt : rec'.enqueuedAt = lib.formatTime now

/-- The message that announces a job in its queue. -/
def announcement (now : Int) (rec : JobState) : Msg :=
  ⟨queueJobsSubject rec.queue, rec.id, now⟩

@[simp] theorem announcement_marshalJobState (now : Int) (job : Job) :
    announcement now (marshalJobState job) = ⟨queueJobsSubject job.queue, job.id, now⟩ := rfl

/-- One step in the life of job `j` at time `now`. -/
inductive Slot.Step (lib : Externals) (now : Int) (j : String) : Move → Slot → Slot → Prop
  | enqueue {s : Slot} {rec : JobState} :
      s.record = none → rec.id = j → rec.state = .available →
      rec.enqueuedAt = lib.formatTime now → rec.attempt = 0 →
      Step lib now j (.enqueue rec) s
        { s with record := some rec, messages := s.messages ++ [announcement now rec] }
  | schedule {s : Slot} {rec : JobState} {due : String} :
      s.record = none → rec.id = j → rec.state = .scheduled → (lib.parseRFC3339 due).isSome →
      rec.attempt = 0 →
      Step lib now j (.schedule rec) s { s with record := some rec, scheduled := some due }
  | claim {s : Slot} {rec rec' : JobState} {msg : Msg} {info : ActiveJobInfo} :
      s.record = some rec → s.messages = [msg] →
      isExpired lib (unmarshalJobState rec) now = false → rec.state = .available →
      Becomes .active rec rec' →
      (InEra now → (lib.parseTime info.visibilityDeadline).isSome) → Continues rec rec' →
      Step lib now j .claim s
        { s with record := some rec', active := some info, inflight := some msg, messages := [] }
  | expire {s : Slot} {rec rec' : JobState} {msg : Msg} :
      s.record = some rec → s.messages = [msg] →
      isExpired lib (unmarshalJobState rec) now = true → Becomes .discarded rec rec' →
      Continues rec rec' →
      Step lib now j .expire s { s with record := some rec', inflight := none, messages := [] }
  | skip {s : Slot} {rec : JobState} {msg : Msg} :
      s.record = some rec → s.messages = [msg] →
      isExpired lib (unmarshalJobState rec) now = false → rec.state ≠ .available →
      Step lib now j .skip s { s with inflight := none, messages := [] }
  | extend {s : Slot} {rec : JobState} {info : ActiveJobInfo} :
      s.record = some rec → rec.state = .active →
      (InEra now → (lib.parseTime info.visibilityDeadline).isSome) →
      Step lib now j .extend s { s with active := some info }
  | complete {s : Slot} {rec rec' : JobState} {result : Option RawMessage} :
      s.record = some rec → rec.state = .active → Becomes .completed rec rec' →
      Finishes result rec rec' →
      Step lib now j (.complete result) s
        { s with record := some rec', active := none, inflight := none }
  | discard {s : Slot} {rec rec' : JobState} {dead : Option String} :
      s.record = some rec → rec.state = .active → Becomes .discarded rec rec' →
      Counts rec rec' →
      Step lib now j .discard s
        { s with record := some rec', active := none, inflight := none, dead := dead }
  | retryLater {s : Slot} {rec rec' : JobState} {due : String} :
      s.record = some rec → rec.state = .active → Becomes .retryable rec rec' →
      (InEra now → (lib.parseTime due).isSome) → Counts rec rec' →
      rec'.attempt < maxAttemptsOf (unmarshalJobState rec) →
      Step lib now j .retryLater s
        { s with record := some rec', active := none, inflight := none, retry := some due }
  | requeue {s : Slot} {rec rec' : JobState} {m : Move} : m = .requeue ∨ m = .stall →
      s.record = some rec → rec.state = .active → Requeues lib now rec rec' →
      Continues rec rec' →
      Step lib now j m s
        { s with
          record := some rec'
          active := none
          inflight := none
          messages := s.messages ++ [announcement now rec'] }
  | cancel {s : Slot} {rec rec' : JobState} :
      s.record = some rec → lib.isTerminalState rec.state = false →
      Becomes .cancelled rec rec' → Continues rec rec' →
      Step lib now j .cancel s
        { s with
          record := some rec'
          active := none
          scheduled := none
          retry := none
          inflight := none }
  | promoteScheduled {s : Slot} {rec rec' : JobState} {due : String} :
      s.record = some rec → s.scheduled = some due → Requeues lib now rec rec' →
      Continues rec rec' →
      Step lib now j .promote s
        { s with
          record := some rec'
          scheduled := none
          messages := s.messages ++ [announcement now rec'] }
  | promoteRetry {s : Slot} {rec rec' : JobState} {due : String} :
      s.record = some rec → s.retry = some due → Requeues lib now rec rec' →
      Continues rec rec' →
      Step lib now j .promote s
        { s with
          record := some rec'
          retry := none
          messages := s.messages ++ [announcement now rec'] }
  | revive {s : Slot} {rec rec' : JobState} {due : String} :
      s.record = some rec → s.dead = some due → Requeues lib now rec rec' →
      Restarts rec rec' →
      Step lib now j .revive s
        { s with
          record := some rec'
          dead := none
          messages := s.messages ++ [announcement now rec'] }
  | forget {s : Slot} {due : String} : s.dead = some due →
      Step lib now j .forget s { s with dead := none }

namespace Slot

variable {lib : Externals} {now : Int} {j : String} {m : Move} {s t : Slot}

section Entry

variable {rec : JobState} {due : String}

theorem Placed.state_of_scheduled (placed : s.Placed j) (h : s.record = some rec)
    (entry : s.scheduled = some due) : rec.state = .scheduled := by
  simpa [entry, state_of_record h] using placed.scheduled_iff

theorem Placed.state_of_retry (placed : s.Placed j) (h : s.record = some rec)
    (entry : s.retry = some due) : rec.state = .retryable := by
  simpa [entry, state_of_record h] using placed.retry_iff

theorem Placed.state_of_dead (placed : s.Placed j) (h : s.record = some rec)
    (entry : s.dead = some due) : rec.state = .discarded := by
  simpa [entry, state_of_record h] using placed.dead_discarded

/-- A job without any entry whose record becomes available is announced once. -/
theorem Placed.announce {rec rec' : JobState} {messages : List Msg} (id : rec'.id = j)
    (next : Requeues lib now rec rec') (silent : messages = []) :
    (Slot.mk (some rec') none none none none none
      (messages ++ [announcement now rec'])).Placed j :=
  .of_record id (by simp [next.state]) (by simp [next.state]) (by simp [next.state])
    (by simp [next.state]) (by simp)
    (.inr ⟨_, by rw [silent, List.nil_append], rfl, .inl next.state⟩)

end Entry

theorem Step.placed (step : Step lib now j m s t) (placed : s.Placed j) : t.Placed j := by
  cases step with
  | enqueue none id state enqueuedAt =>
    rw [placed.eq_vacant none]
    exact .of_record id (by simp [vacant, state]) (by simp [vacant, state])
      (by simp [vacant, state]) (by simp [vacant, state]) (by simp [vacant])
      (.inr ⟨_, rfl, rfl, .inl state⟩)
  | schedule none id state =>
    rw [placed.eq_vacant none]
    exact .of_record id (by simp [state]) (by simp [vacant, state]) (by simp [vacant, state])
      (by simp [vacant, state]) (by simp [vacant]) (.inl rfl)
  | claim some one fresh state next =>
    obtain ⟨hs, hr, hd, -, -⟩ := placed.entries_announced some one
    exact .of_record (next.id.trans (placed.keyed _ some)) (by simp [hs, next.state])
      (by simp [hr, next.state]) (by simp [next.state]) (by simp [next.state]) (by simp [hd])
      (.inl rfl)
  | expire some one expired next =>
    obtain ⟨hs, hr, hd, ha, -⟩ := placed.entries_announced some one
    exact .of_record (next.id.trans (placed.keyed _ some)) (by simp [hs, next.state])
      (by simp [hr, next.state]) (by simp [ha, next.state]) (by simp [next.state])
      (by simp [hd]) (.inl rfl)
  | skip some one fresh state =>
    obtain ⟨hs, hr, hd, ha, hi⟩ := placed.entries_announced some one
    refine ⟨placed.keyed, placed.scheduled_iff, placed.retry_iff, placed.active_iff, ?_,
      placed.dead_discarded, .inl rfl⟩
    simpa [hi, Slot.state] using placed.inflight_iff
  | extend some state =>
    refine ⟨placed.keyed, placed.scheduled_iff, placed.retry_iff, ?_, placed.inflight_iff,
      placed.dead_discarded, placed.announced⟩
    simp [Slot.state, some, state]
  | complete some state next =>
    obtain ⟨hs, hr, hd, hm⟩ := placed.entries_active some state
    exact .of_record (next.id.trans (placed.keyed _ some)) (by simp [hs, next.state])
      (by simp [hr, next.state]) (by simp [next.state]) (by simp [next.state]) (by simp [hd])
      (.inl hm)
  | discard some state next =>
    obtain ⟨hs, hr, hd, hm⟩ := placed.entries_active some state
    exact .of_record (next.id.trans (placed.keyed _ some)) (by simp [hs, next.state])
      (by simp [hr, next.state]) (by simp [next.state]) (by simp [next.state])
      (fun _ => next.state) (.inl hm)
  | retryLater some state next =>
    obtain ⟨hs, hr, hd, hm⟩ := placed.entries_active some state
    exact .of_record (next.id.trans (placed.keyed _ some)) (by simp [hs, next.state])
      (by simp [next.state]) (by simp [next.state]) (by simp [next.state]) (by simp [hd])
      (.inl hm)
  | requeue kind some state next =>
    obtain ⟨hs, hr, hd, hm⟩ := placed.entries_active some state
    rw [hs, hr, hd]
    exact .announce (next.id.trans (placed.keyed _ some)) next hm
  | @cancel _ rec rec' some live next =>
    have notDiscarded : rec.state ≠ .discarded := by
      intro state
      simp [state, (lib.isTerminalState_iff .discarded).mpr] at live
    have messages : s.messages = [] ∨ ∃ m, s.messages = [m] ∧
        m.subject = queueJobsSubject rec'.queue ∧
        (rec'.state = .available ∨ rec'.state = .cancelled) := by
      rcases placed.announced with none | ⟨m, rec₀, one, same, subject, -⟩
      · exact .inl none
      · cases some.symm.trans same
        exact .inr ⟨m, one, by rw [subject, next.queue], .inr next.state⟩
    exact .of_record (next.id.trans (placed.keyed _ some)) (by simp [next.state])
      (by simp [next.state]) (by simp [next.state]) (by simp [next.state])
      (by simp [placed.dead_none some notDiscarded]) messages
  | promoteScheduled some entry next =>
    have state := placed.state_of_scheduled some entry
    rw [placed.retry_none some (by simp [state]), placed.dead_none some (by simp [state]),
      placed.active_none some (by simp [state]), placed.inflight_none some (by simp [state])]
    exact .announce (next.id.trans (placed.keyed _ some)) next
      (placed.messages_nil some (by simp [state]) (by simp [state]))
  | promoteRetry some entry next =>
    have state := placed.state_of_retry some entry
    rw [placed.scheduled_none some (by simp [state]), placed.dead_none some (by simp [state]),
      placed.active_none some (by simp [state]), placed.inflight_none some (by simp [state])]
    exact .announce (next.id.trans (placed.keyed _ some)) next
      (placed.messages_nil some (by simp [state]) (by simp [state]))
  | revive some entry next =>
    have state := placed.state_of_dead some entry
    rw [placed.scheduled_none some (by simp [state]), placed.retry_none some (by simp [state]),
      placed.active_none some (by simp [state]), placed.inflight_none some (by simp [state])]
    exact .announce (next.id.trans (placed.keyed _ some)) next
      (placed.messages_nil some (by simp [state]) (by simp [state]))
  | forget entry =>
    exact ⟨placed.keyed, placed.scheduled_iff, placed.retry_iff, placed.active_iff,
      placed.inflight_iff, by simp, placed.announced⟩

/-- A job comes into being by an enqueuing or scheduling move only. -/
theorem Step.born (step : Step lib now j m s t) (existing : t.record ≠ none) :
    s.record ≠ none ∨ ∃ rec, m = .enqueue rec ∨ m = .schedule rec := by
  cases step with
  | enqueue => exact .inr ⟨_, .inl rfl⟩
  | schedule => exact .inr ⟨_, .inr rfl⟩
  | forget => exact .inl existing
  | claim some | expire some | skip some | extend some | complete some | discard some
  | retryLater some | requeue _ some | cancel some | promoteScheduled some | promoteRetry some
  | revive some => exact .inl (by simp [some])

/-- No move removes a record. -/
theorem Step.stored (step : Step lib now j m s t) (existing : s.record ≠ none) :
    t.record ≠ none := by
  cases step with
  | forget | skip | extend => exact existing
  | _ => simp

theorem Step.present (step : Step lib now j m s t) (present : s.Present) : t.Present := by
  cases step with
  | enqueue none id state => simp [Present]
  | schedule none id state => simp [Present, Slot.state, state]
  | claim some one fresh state next => simp [Present, Slot.state, next.state]
  | expire some one expired next => simp [Present, Slot.state, next.state]
  | skip some one fresh state => simp [Present, Slot.state, some, state]
  | extend some state => exact present
  | complete some state next => simp [Present, Slot.state, next.state]
  | discard some state next => simp [Present, Slot.state, next.state]
  | retryLater some state next => simp [Present, Slot.state, next.state]
  | requeue kind some state next => simp [Present]
  | cancel some live next => simp [Present, Slot.state, next.state]
  | promoteScheduled some entry next => simp [Present]
  | promoteRetry some entry next => simp [Present]
  | revive some entry next => simp [Present]
  | forget entry => exact present

theorem Step.legible (step : Step lib now j m s t) (era : InEra now) (legible : s.Legible lib) :
    t.Legible lib := by
  obtain ⟨hs, hr, ha⟩ := legible
  cases step with
  | schedule none id state due =>
    refine ⟨?_, hr, ha⟩
    rintro _ ⟨⟩
    simp [parseEither, Option.isSome_or, due]
  | claim some one fresh state next deadline =>
    refine ⟨hs, hr, ?_⟩
    rintro _ ⟨⟩
    exact deadline era
  | extend some state deadline =>
    refine ⟨hs, hr, ?_⟩
    rintro _ ⟨⟩
    exact deadline era
  | retryLater some state next due =>
    refine ⟨hs, ?_, by simp⟩
    rintro _ ⟨⟩
    simp [parseEither, Option.isSome_or, due era]
  | promoteScheduled some entry next => exact ⟨by simp, hr, ha⟩
  | promoteRetry some entry next => exact ⟨hs, by simp, ha⟩
  | cancel some live next => exact ⟨by simp, by simp, by simp⟩
  | complete some state next => exact ⟨hs, hr, by simp⟩
  | discard some state next => exact ⟨hs, hr, by simp⟩
  | requeue kind some state next => exact ⟨hs, hr, by simp⟩
  | enqueue | expire | skip | revive | forget => exact ⟨hs, hr, ha⟩

end Slot

end OjsNats.Lifecycle
