import OjsNats.Lifecycle.System

/-!
# When terminal states are final

Only a fetch can move a job out of a terminal state other than by reviving a
dead letter: its expiry check comes before its state check, so it discards a
cancelled job whose leftover message it is handed after the job expired.
-/

namespace OjsNats.Lifecycle

open Core Nats Relation

variable {lib : Externals} {w w' : World}

/-- Completed, cancelled or discarded. -/
def Slot.Terminal (s : Slot) : Prop :=
  s.state = some .completed ∨ s.state = some .cancelled ∨ s.state = some .discarded

/-- A cancelled job that has expired and still has a message. -/
def Slot.Lapsed (lib : Externals) (now : Int) (s : Slot) : Prop :=
  ∃ rec, s.record = some rec ∧ rec.state = .cancelled ∧
    isExpired lib (unmarshalJobState rec) now = true ∧ s.messages ≠ []

namespace Slot

variable {now : Int} {j : String} {m : Move} {s t : Slot}

theorem Terminal.not_live {rec : JobState} (terminal : s.Terminal) (h : s.record = some rec) :
    lib.isTerminalState rec.state = true := by
  refine (lib.isTerminalState_iff rec.state).mpr ?_
  simpa [Terminal, state_of_record h] using terminal

theorem Terminal.not_state {rec : JobState} {st : State} (terminal : s.Terminal)
    (h : s.record = some rec) (state : rec.state = st) :
    st = .completed ∨ st = .cancelled ∨ st = .discarded := by
  simpa [Terminal, state_of_record h, state] using terminal

/-- Of the moves only an expiry or a revival changes a terminal state. -/
theorem Step.terminal (step : Step lib now j m s t) (placed : s.Placed j) (terminal : s.Terminal)
    (expire : m ≠ .expire) (revive : m ≠ .revive) : t.state = s.state := by
  cases step with
  | enqueue none | schedule none => simp [Terminal, Slot.state, none] at terminal
  | claim some one fresh state => simpa using terminal.not_state some state
  | expire => exact absurd rfl expire
  | extend some state => rfl
  | complete some state => simpa using terminal.not_state some state
  | discard some state => simpa using terminal.not_state some state
  | retryLater some state => simpa using terminal.not_state some state
  | requeue kind some state => simpa using terminal.not_state some state
  | cancel some live => simp [terminal.not_live some] at live
  | promoteScheduled some entry =>
    simpa using terminal.not_state some (placed.state_of_scheduled some entry)
  | promoteRetry some entry => simpa using terminal.not_state some (placed.state_of_retry some entry)
  | revive => exact absurd rfl revive
  | skip | forget => rfl

theorem Evolves.terminal {allowed : Move → Prop} (h : s.Evolves lib now j allowed t)
    (placed : s.Placed j) (terminal : s.Terminal)
    (never : ∀ m, allowed m → m ≠ .expire ∧ m ≠ .revive) : t.state = s.state := by
  induction h with
  | refl => rfl
  | @tail b c before step ih =>
    obtain ⟨m, ok, step⟩ := step
    have still : b.Terminal := by simpa [Terminal, ih] using terminal
    exact (step.terminal (Evolves.placed before placed) still (never m ok).1 (never m ok).2).trans ih

/-- Without a revival a terminal job stays over. -/
theorem Evolves.still_terminal {allowed : Move → Prop} (h : s.Evolves lib now j allowed t)
    (placed : s.Placed j) (terminal : s.Terminal) (never : ∀ m, allowed m → m ≠ .revive) :
    t.Terminal := by
  induction h with
  | refl => exact terminal
  | @tail b c before step ih =>
    obtain ⟨m, ok, step⟩ := step
    by_cases expire : m = .expire
    · subst expire
      cases step with
      | expire some one expired next => exact .inr (.inr (by simp [Slot.state, next.state]))
      | requeue kind => rcases kind with kind | kind <;> cases kind
    · rw [Terminal, step.terminal (Evolves.placed before placed) ih expire (never m ok)]
      exact ih

/-- What a fetch makes of a terminal job: it keeps the record, or discards it
with the message it was handed. -/
def Settled (lib : Externals) (now : Int) (s t : Slot) : Prop :=
  (t.record = s.record ∧ (t.messages = s.messages ∨ t.messages = [])) ∨
    (s.Lapsed lib now ∧ t.state = some .discarded ∧ t.messages = [])

theorem Step.settled {b : Slot} (step : Step lib now j m s t) (placed : s.Placed j)
    (terminal : b.Terminal) (ok : Claims j m) (before : b.Settled lib now s) :
    b.Settled lib now t := by
  have unspoken {msg : Msg} (one : s.messages = [msg]) : s.record = b.record ∧
      s.messages = b.messages := by
    rcases before with ⟨record, same | none⟩ | ⟨-, -, none⟩
    · exact ⟨record, same⟩
    · simp [one] at none
    · simp [one] at none
  cases step with
  | claim some one fresh state =>
    have terminal' : s.Terminal := by simpa [Terminal, Slot.state, (unspoken one).1] using terminal
    simpa using terminal'.not_state some state
  | @expire _ rec _ msg some one expired next =>
    obtain ⟨record, messages⟩ := unspoken one
    have terminal' : s.Terminal := by simpa [Terminal, Slot.state, record] using terminal
    have cancelled : rec.state = .cancelled := by
      rcases placed.announced with silent | ⟨m, rec', -, same, -, state⟩
      · simp [one] at silent
      · cases some.symm.trans same
        rcases state with state | state
        · simpa using terminal'.not_state some state
        · exact state
    refine .inr ⟨⟨rec, record ▸ some, cancelled, expired, ?_⟩, ?_, rfl⟩
    · simp [← messages, one]
    · simp [Slot.state, next.state]
  | skip some one => exact .inl ⟨(unspoken one).1, .inr rfl⟩
  | requeue kind => rcases kind with rfl | rfl <;> simp [Claims] at ok
  | enqueue | schedule | extend | complete | discard | retryLater | cancel | promoteScheduled
  | promoteRetry | revive | forget => simp [Claims] at ok

theorem Evolves.settled (h : s.Evolves lib now j (Claims j) t) (placed : s.Placed j)
    (terminal : s.Terminal) : s.Settled lib now t := by
  induction h with
  | refl => exact .inl ⟨rfl, .inl rfl⟩
  | tail before step ih =>
    obtain ⟨m, ok, step⟩ := step
    exact step.settled (Evolves.placed before placed) terminal ok ih

/-- A fetch that takes the message of a lapsed job discards the job. -/
theorem Evolves.lapsed (h : s.Evolves lib now j (Claims j) t) (lapsed : s.Lapsed lib now) :
    t = s ∨ (t.state = some .discarded ∧ t.messages = []) := by
  obtain ⟨rec, stored, cancelled, expired, spoken⟩ := lapsed
  induction h with
  | refl => exact .inl rfl
  | tail before step ih =>
    obtain ⟨m, ok, step⟩ := step
    rcases ih with rfl | ⟨discarded, silent⟩
    · cases step with
      | claim some one fresh =>
        cases stored.symm.trans some
        simp [expired] at fresh
      | skip some one fresh =>
        cases stored.symm.trans some
        simp [expired] at fresh
      | expire some one expired next => exact .inr ⟨by simp [Slot.state, next.state], rfl⟩
      | requeue kind => rcases kind with rfl | rfl <;> simp [Claims] at ok
      | enqueue | schedule | extend | complete | discard | retryLater | cancel
      | promoteScheduled | promoteRetry | revive | forget => simp [Claims] at ok
    · cases step with
      | claim _ one | expire _ one | skip _ one => simp [silent] at one
      | requeue kind => rcases kind with rfl | rfl <;> simp [Claims] at ok
      | enqueue | schedule | extend | complete | discard | retryLater | cancel
      | promoteScheduled | promoteRetry | revive | forget => simp [Claims] at ok

/-- A revival needs a dead-letter entry. -/
theorem Evolves.revived {allowed : Move → Prop} (h : s.Evolves lib now j allowed t)
    (only : ∀ m, allowed m → m = .revive) : t = s ∨ s.dead.isSome := by
  rcases ReflTransGen.cases_head h with rfl | ⟨b, ⟨m, ok, step⟩, -⟩
  · exact .inl rfl
  · obtain rfl := only m ok
    cases step with
    | requeue kind => simp at kind
    | revive some entry => exact .inr (by simp [entry])

end Slot

/-! ## Steps and runs -/

/-- The step does not change a terminal state, unless it revives a dead letter. -/
def KeepsTerminal (j : String) (w : World) (event : Event) (w' : World) : Prop :=
  (w.slot j).Terminal → (w'.slot j).state = (w.slot j).state ∨
    ((w.slot j).dead.isSome ∧ ∃ reply, event = .call (.retryDeadLetter j) reply)

/-- The step is a fetch that is handed the message of a lapsed job. -/
def TakesLapsed (lib : Externals) (j : String) (w : World) (event : Event) (w' : World) : Prop :=
  (∃ queues count workerID timeout reply,
    event = .call (.fetch queues count workerID timeout) reply) ∧
    (w.slot j).Lapsed lib w.clock ∧ (w'.slot j).messages = []

theorem moves_expire {call : Call} {j : String} (h : moves lib call j .expire) :
    ∃ queues count workerID timeout, call = .fetch queues count workerID timeout := by
  cases call <;>
    simp [moves, Pushes, Brings, Spawns, SpawnsLoose, Claims, Acks, Nacks, Beats, Promotes, Stalls,
      Cancels] at h ⊢

theorem moves_revive {call : Call} {j : String} (h : moves lib call j .revive) :
    call = .retryDeadLetter j := by
  cases call <;>
    simp_all [moves, Pushes, Brings, Spawns, SpawnsLoose, Claims, Acks, Nacks, Beats, Promotes,
      Stalls, Cancels]

/-- A step keeps terminal states exactly if it takes no lapsed job's message. -/
theorem Step.keepsTerminal_iff {event : Event} (step : Step lib w event w') (sound : Sound w)
    (j : String) : KeepsTerminal j w event w' ↔ ¬ TakesLapsed lib j w event w' := by
  have evolves := step.evolves sound j
  have placed := sound.placed j
  constructor
  · rintro keeps ⟨⟨queues, count, workerID, timeout, reply, rfl⟩, lapsed, taken⟩
    have state : (w.slot j).state = some .cancelled := by
      obtain ⟨rec, stored, cancelled, -⟩ := lapsed
      rw [Slot.state_of_record stored, cancelled]
    rcases Slot.Evolves.lapsed evolves lapsed with same | ⟨discarded, -⟩
    · obtain ⟨rec, -, -, -, spoken⟩ := lapsed
      exact spoken (same ▸ taken)
    · rcases keeps (.inr (.inl state)) with kept | ⟨-, reply', event⟩
      · simp [discarded, state] at kept
      · cases event
  · intro spared terminal
    have kept (never : ∀ m, event.moves lib j m → m ≠ .expire ∧ m ≠ .revive) :
        (w'.slot j).state = (w.slot j).state := evolves.terminal placed terminal never
    cases event with
    | tick => exact .inl (kept fun _ h => h.elim)
    | call call reply =>
      by_cases expires : moves lib call j .expire
      · obtain ⟨queues, count, workerID, timeout, rfl⟩ := moves_expire expires
        rcases evolves.settled placed terminal with ⟨record, -⟩ | ⟨lapsed, -, taken⟩
        · exact .inl (by rw [Slot.state, record, Slot.state])
        · exact absurd ⟨⟨queues, count, workerID, timeout, reply, rfl⟩, lapsed, taken⟩ spared
      · by_cases revives : moves lib call j .revive
        · obtain rfl := moves_revive revives
          rcases Slot.Evolves.revived evolves (fun _ h => h.2) with same | dead
          · exact .inl (by rw [same])
          · exact .inr ⟨dead, reply, rfl⟩
        · exact .inl (kept fun m h => ⟨fun eq => expires (eq ▸ h), fun eq => revives (eq ▸ h)⟩)

/-- In a run terminal states are final exactly if no fetch is handed the
leftover message of a cancelled job that has expired. -/
theorem terminal_final_iff {t : World} {trace : List Passage} (reachable : Reachable lib w)
    (run : Run lib w trace t) :
    (∀ p ∈ trace, ∀ j, KeepsTerminal j p.before p.event p.after) ↔
      ∀ p ∈ trace, ∀ j, ¬ TakesLapsed lib j p.before p.event p.after := by
  have each {p : Passage} (mem : p ∈ trace) (j : String) := by
    obtain ⟨sound, step⟩ := run.step_of_mem reachable.sound mem
    exact step.keepsTerminal_iff sound j
  exact ⟨fun h p mem j => (each mem j).mp (h p mem j), fun h p mem j => (each mem j).mpr (h p mem j)⟩

/-! ## A cancelled job that expires -/

def expiring : Job :=
  { id := "job-1", type := "mail", queue := "mails", expiresAt := "2026-01-01T00:00:01.000Z" }

/-- The job is cancelled while its message is in the queue, and then expires. -/
def lapsed : World :=
  later (after (after (World.start (Sample.instant 0)) (.push expiring)) (.cancel "job-1")) 2

theorem reachable_lapsed : Reachable sample lapsed :=
  (((Reachable.start (by decide)).after ⟨by decide, fun _ _ => rfl⟩).after
    (fresh_of_no_ids rfl)).later (by decide)

def lapsedFetch : Call := .fetch ["mails"] 1 "worker-1" 0

theorem exists_run_lapsed : ∃ reply, Run sample lapsed
    [⟨lapsed, .call lapsedFetch reply, after lapsed lapsedFetch⟩] (after lapsed lapsedFetch) := by
  have ends : (execute (lapsedFetch.program sample) (lapsed.accept lapsedFetch)).isSome := by decide
  obtain ⟨reply, step⟩ := exists_step_after (fresh_of_no_ids rfl) ends
  exact ⟨reply, .cons step .nil⟩

theorem not_keepsTerminal_lapsed (reply : Reply) : ¬ KeepsTerminal "job-1" lapsed
    (.call lapsedFetch reply) (after lapsed lapsedFetch) := by
  intro keeps
  have cancelled : (lapsed.slot "job-1").state = some .cancelled := by decide
  have discarded : ((after lapsed lapsedFetch).slot "job-1").state = some .discarded := by decide
  rcases keeps (.inr (.inl cancelled)) with kept | ⟨-, reply', event⟩
  · simp [cancelled, discarded] at kept
  · simp [lapsedFetch] at event

theorem terminal_final_lapsed : ∃ reply, ¬ ∀ j, ¬ TakesLapsed sample j lapsed
    (.call lapsedFetch reply) (after lapsed lapsedFetch) := by
  obtain ⟨reply, run⟩ := exists_run_lapsed
  refine ⟨reply, fun spared => not_keepsTerminal_lapsed reply ?_⟩
  refine (terminal_final_iff reachable_lapsed run).mpr (fun p mem j => ?_) _
    (List.mem_singleton.mpr rfl) "job-1"
  obtain rfl := List.mem_singleton.mp mem
  exact spared j

/-- Terminal states are not final in every run. -/
theorem not_terminal_final : ¬ ∀ (lib : Externals) (w t : World) (trace : List Passage),
    Reachable lib w → Run lib w trace t →
      ∀ p ∈ trace, ∀ j, KeepsTerminal j p.before p.event p.after := by
  intro final
  obtain ⟨reply, run⟩ := exists_run_lapsed
  exact not_keepsTerminal_lapsed reply
    (final sample lapsed _ _ reachable_lapsed run _ (List.mem_singleton.mpr rfl) "job-1")

end OjsNats.Lifecycle
