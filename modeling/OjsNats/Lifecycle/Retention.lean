import OjsNats.Lifecycle.System

/-!
# Messages that age out

The job stream drops messages at a maximum age.  An available job then keeps
its record but loses its message, and no pass looks for such a job; until that
age its message is in its queue.
-/

namespace OjsNats.Lifecycle

open Core Nats Relation

variable {lib : Externals} {w w' : World}

/-- `MaxAge` of the job stream, 24 hours. -/
def maxAge : Int := 24 * 60 * 60 * 1000000000

/-- A job is announced by a message as old as its enqueuing, or was enqueued so
long ago that the message may be gone. -/
structure Slot.Dated (lib : Externals) (now : Int) (s : Slot) : Prop where
  announced : ∀ rec m, s.record = some rec → rec.state = .available → m ∈ s.messages →
    rec.enqueuedAt = lib.formatTime m.published
  silent : ∀ rec, s.record = some rec → rec.state = .available → s.messages = [] →
    ∃ t, rec.enqueuedAt = lib.formatTime t ∧ t + maxAge ≤ now

namespace Slot

variable {now : Int} {j : String} {m : Move} {s t : Slot}

theorem Dated.vacant : Slot.vacant.Dated lib now :=
  ⟨by simp [Slot.vacant], by simp [Slot.vacant]⟩

/-- A job in any other state is dated. -/
theorem Dated.of_state (h : s.state ≠ some .available) : s.Dated lib now := by
  have other {rec : JobState} (stored : s.record = some rec) : rec.state ≠ .available := by
    intro available
    exact h (by rw [state_of_record stored, available])
  exact ⟨fun _ _ stored available => absurd available (other stored),
    fun _ stored available => absurd available (other stored)⟩

/-- A job whose only message was published when it was enqueued is dated. -/
theorem Dated.of_announcement {rec : JobState} {messages : List Msg}
    (enqueuedAt : rec.enqueuedAt = lib.formatTime now) (stored : s.record = some rec)
    (spoken : s.messages = messages ++ [announcement now rec]) (alone : messages = []) :
    s.Dated lib now := by
  refine ⟨fun rec' m stored' _ mem => ?_, fun _ _ _ silent => ?_⟩
  · cases stored.symm.trans stored'
    rw [spoken, alone, List.nil_append, List.mem_singleton] at mem
    rw [mem]
    exact enqueuedAt
  · simp [spoken] at silent

theorem Step.dated (step : Step lib now j m s t) (placed : s.Placed j) (dated : s.Dated lib now) :
    t.Dated lib now := by
  cases step with
  | enqueue none id state enqueuedAt =>
    exact .of_announcement enqueuedAt rfl rfl (by rw [placed.eq_vacant none]; rfl)
  | schedule none id state => exact .of_state (by simp [Slot.state, state])
  | claim some one fresh state next => exact .of_state (by simp [Slot.state, next.state])
  | expire some one expired next => exact .of_state (by simp [Slot.state, next.state])
  | skip some one fresh state => exact .of_state (by simpa [Slot.state, some] using state)
  | extend | forget => exact ⟨dated.announced, dated.silent⟩
  | complete some state next => exact .of_state (by simp [Slot.state, next.state])
  | discard some state next => exact .of_state (by simp [Slot.state, next.state])
  | retryLater some state next => exact .of_state (by simp [Slot.state, next.state])
  | cancel some live next => exact .of_state (by simp [Slot.state, next.state])
  | requeue kind some state next =>
    exact .of_announcement next.enqueuedAt rfl rfl (placed.entries_active some state).2.2.2
  | promoteScheduled some entry next =>
    have state := placed.state_of_scheduled some entry
    exact .of_announcement next.enqueuedAt rfl rfl
      (placed.messages_nil some (by simp [state]) (by simp [state]))
  | promoteRetry some entry next =>
    have state := placed.state_of_retry some entry
    exact .of_announcement next.enqueuedAt rfl rfl
      (placed.messages_nil some (by simp [state]) (by simp [state]))
  | revive some entry next =>
    have state := placed.state_of_dead some entry
    exact .of_announcement next.enqueuedAt rfl rfl
      (placed.messages_nil some (by simp [state]) (by simp [state]))

theorem Evolves.dated {allowed : Move → Prop} (h : s.Evolves lib now j allowed t)
    (placed : s.Placed j) (dated : s.Dated lib now) : t.Dated lib now := by
  induction h with
  | refl => exact dated
  | tail before step ih =>
    obtain ⟨m, -, step⟩ := step
    exact step.dated (Evolves.placed before placed) ih

theorem Dated.later {now' : Int} (dated : s.Dated lib now) (later : now ≤ now') :
    s.Dated lib now' := by
  refine ⟨dated.announced, fun rec stored available silent => ?_⟩
  obtain ⟨t, enqueuedAt, aged⟩ := dated.silent rec stored available silent
  exact ⟨t, enqueuedAt, Int.le_trans aged later⟩

/-- Losing messages of the maximum age keeps a job dated. -/
theorem Dated.purge (dated : s.Dated lib now) (placed : s.Placed j) (keep : Msg → Bool)
    (young : ∀ m ∈ s.messages, now < m.published + maxAge → keep m = true) :
    ({ s with messages := s.messages.filter keep } : Slot).Dated lib now := by
  refine ⟨fun rec m stored available mem => ?_, fun rec stored available silent => ?_⟩
  · exact dated.announced rec m stored available (List.mem_filter.mp mem).1
  · rcases placed.announced with nil | ⟨m, rec', one, -⟩
    · exact dated.silent rec stored available nil
    · have mem : m ∈ s.messages := by simp [one]
      refine ⟨m.published, dated.announced rec m stored available mem, ?_⟩
      by_contra recent
      have kept := young m mem (Int.not_le.mp recent)
      simp [one, kept] at silent

theorem Placed.purge (placed : s.Placed j) (keep : Msg → Bool) :
    ({ s with messages := s.messages.filter keep } : Slot).Placed j := by
  refine ⟨placed.keyed, placed.scheduled_iff, placed.retry_iff, placed.active_iff,
    placed.inflight_iff, placed.dead_discarded, ?_⟩
  rcases placed.announced with nil | ⟨m, rec, one, rest⟩
  · exact .inl (by simp [nil])
  · cases kept : keep m with
    | true => exact .inr ⟨m, rec, by simp [one, kept], rest⟩
    | false => exact .inl (by simp [one, kept])

end Slot

/-- The stream drops messages, but none younger than the maximum age. -/
def purge (w : World) (keep : Msg → Bool) : World := { w with stream := w.stream.filter keep }

theorem slot_purge (w : World) (keep : Msg → Bool) (j : String) :
    (purge w keep).slot j = { w.slot j with messages := (w.slot j).messages.filter keep } := by
  refine Slot.ext rfl rfl rfl rfl rfl rfl ?_
  simp only [World.slot, purge, List.filter_filter]
  congr 1
  funext m
  rw [Bool.and_comm]

/-- The states of the runs in which the stream also drops aged messages. -/
inductive Lasting (lib : Externals) : World → Prop
  | start {clock : Int} : 0 ≤ clock → Lasting lib (World.start clock)
  | step {w w' : World} {event : Event} : Lasting lib w → Step lib w event w' → Lasting lib w'
  | purge {w : World} {keep : Msg → Bool} : Lasting lib w →
      (∀ m ∈ w.stream, w.clock < m.published + maxAge → keep m = true) →
      Lasting lib (purge w keep)

theorem Lasting.sound (lasting : Lasting lib w) : Sound w := by
  induction lasting with
  | start => exact .start _
  | step _ step ih => exact step.sound ih
  | @purge w keep _ young ih =>
    exact ⟨fun j => slot_purge w keep j ▸ (ih.placed j).purge keep,
      fun j known => ih.known j (by simpa [slot_purge] using known)⟩

theorem Lasting.dated (lasting : Lasting lib w) (j : String) :
    (w.slot j).Dated lib w.clock := by
  induction lasting with
  | start => exact .vacant
  | step before step ih =>
    exact ((step.evolves before.sound j).dated (before.sound.placed j) ih).later
      (step.clock_le before.sound)
  | @purge w keep before young ih =>
    rw [slot_purge]
    exact ih.purge (before.sound.placed j) keep fun m mem => young m (List.mem_filter.mp mem).1

/-- An available job has a message in its queue, or was enqueued at least the
maximum age ago. -/
theorem available_announced_or_aged (lasting : Lasting lib w) {j : String} {rec : JobState}
    (stored : w.value .jobs j = some rec) (available : rec.state = .available) :
    (∃ m ∈ w.stream, m.data = j ∧ m.subject = queueJobsSubject rec.queue) ∨
      ∃ t, rec.enqueuedAt = lib.formatTime t ∧ t + maxAge ≤ w.clock := by
  rcases (lasting.sound.placed j).announced with silent | ⟨m, rec', one, same, subject, -⟩
  · exact .inr ((lasting.dated j).silent rec stored available silent)
  · cases Option.some.inj (same.symm.trans stored)
    have mem : m ∈ (w.slot j).messages := by simp [one]
    obtain ⟨inStream, data⟩ := List.mem_filter.mp mem
    exact .inl ⟨m, inStream, of_decide_eq_true data, subject⟩

/-! ## A job that waits -/

def mail : Call := .push { id := "job-1", type := "mail", queue := "mails" }

/-- The job has been waiting for some seconds. -/
def waiting (seconds : Int) : World :=
  later (after (World.start (Sample.instant 0)) mail) seconds

theorem lasting_waiting {seconds : Int} (nonneg : 0 ≤ seconds) :
    Lasting sample (waiting seconds) := by
  have ends : (execute (mail.program sample)
      ((World.start (Sample.instant 0)).accept mail)).isSome := by decide
  obtain ⟨reply, pushed⟩ := exists_step_after ⟨by decide, fun _ _ => rfl⟩ ends
  refine ((Lasting.start (by decide)).step pushed).step (.tick ?_)
  have clock : (after (World.start (Sample.instant 0)) mail).clock = Sample.instant 0 := by decide
  rw [clock]
  unfold Sample.instant
  omega

theorem available_announced_waiting :
    ∃ m ∈ (waiting 1).stream, m.data = "job-1" ∧ m.subject = queueJobsSubject "mails" := by
  have clock : (waiting 1).clock = Sample.instant 1 := rfl
  obtain ⟨rec, stored⟩ := Option.isSome_iff_exists.mp
    (show ((waiting 1).value .jobs "job-1").isSome by decide)
  have facts : (((waiting 1).value .jobs "job-1").map fun rec =>
      (rec.state, rec.queue, rec.enqueuedAt)) =
        some (.available, "mails", "2026-01-01T00:00:00.000Z") := by decide
  simp only [stored, Option.map_some, Option.some.injEq, Prod.mk.injEq] at facts
  obtain ⟨available, queue, enqueuedAt⟩ := facts
  rcases available_announced_or_aged (lasting_waiting (by decide)) stored available with
    announced | ⟨t, same, aged⟩
  · exact queue ▸ announced
  · -- the timestamp reads back as the instant of the push
    have reads := Sample.parseTime_formatTime t
    rw [show Sample.formatTime t = "2026-01-01T00:00:00.000Z" from same.symm.trans enqueuedAt,
      show Sample.parseTime "2026-01-01T00:00:00.000Z" = some (Sample.instant 0) by decide] at reads
    have pushed : Sample.instant 0 ≤ t := Option.some.inj reads ▸ truncateToMillis_le t
    rw [clock] at aged
    unfold Sample.instant at pushed aged
    unfold maxAge at aged
    omega

/-- Not every available job is announced or indexed. -/
theorem not_available_fetchable : ¬ ∀ (lib : Externals) (w : World) (j : String), Lasting lib w →
    (w.slot j).state = some .available → (w.slot j).messages ≠ [] ∨
      (w.slot j).scheduled.isSome ∨ (w.slot j).retry.isSome ∨ (w.slot j).active.isSome := by
  intro fetchable
  have dropped : Lasting sample (purge (waiting 86400) fun _ => false) :=
    (lasting_waiting (by decide)).purge (by decide)
  have found := fetchable sample _ "job-1" dropped (by decide)
  revert found
  decide

end OjsNats.Lifecycle
