import OjsNats.Lifecycle.Deadlines
import OjsNats.Lifecycle.Failures

/-!
# Leases over a run

While a job is active its deadline is that of the fetch, or of the last heartbeat
that listed the job.  A pass takes the job back exactly if it comes after that.
-/

namespace OjsNats.Lifecycle

open Core Nats Effect Semantics Program Relation

variable {lib : Externals} {w t u : World} {j : String} {event : Event}

/-! ## Moves that leave a lease -/

section Moves

variable {call : Call}

theorem fetch_of_claim (ok : moves lib call j .claim) :
    ∃ queues count workerID timeout, call = .fetch queues count workerID timeout := by
  cases call with
  | fetch queues count workerID timeout => exact ⟨_, _, _, _, rfl⟩
  | _ => simp [moves, Pushes, Brings, SpawnsLoose, Spawns, Acks, Nacks, Beats, Promotes, Stalls,
      Cancels] at ok

theorem heartbeat_of_extend (ok : moves lib call j .extend) :
    ∃ workerID ids timeout, call = .heartbeat workerID ids timeout ∧ j ∈ ids := by
  cases call with
  | heartbeat workerID ids timeout => exact ⟨_, _, _, rfl, ok.1⟩
  | _ => simp [moves, Pushes, Brings, SpawnsLoose, Spawns, Acks, Nacks, Claims, Promotes, Stalls,
      Cancels] at ok

/-- The moves that take an active job elsewhere than to its end. -/
def Move.Releases (m : Move) : Prop :=
  m = .discard ∨ m = .retryLater ∨ m = .requeue ∨ m = .stall

theorem nack_or_pass_of_releases {m : Move} (ok : moves lib call j m) (releases : m.Releases) :
    (∃ err requeue, call = .nack j err requeue) ∨ call = .requeueStalled := by
  cases call with
  | nack k err requeue =>
    rcases ok with ⟨rfl, -⟩ | ⟨rec, made, -⟩
    · exact .inl ⟨err, requeue, rfl⟩
    · rcases made with rfl | rfl <;> simp [Move.Releases] at releases
  | requeueStalled => exact .inr rfl
  | _ => rcases releases with rfl | rfl | rfl | rfl <;>
      simp [moves, Pushes, Brings, SpawnsLoose, Spawns, Acks, Claims, Beats, Promotes,
        Cancels] at ok

end Moves

section Slots

variable {now : Int} {m : Move} {s s' : Slot}

/-- A job that is active after another move was so before, under the same lease. -/
theorem Slot.Step.steady (step : Slot.Step lib now j m s s') (unclaimed : m ≠ .claim)
    (unextended : m ≠ .extend) (active : s'.state = some .active) :
    s.state = some .active ∧ s'.active = s.active := by
  cases step with
  | claim => exact absurd rfl unclaimed
  | extend => exact absurd rfl unextended
  | skip | forget => exact ⟨active, rfl⟩
  | enqueue _ _ state | schedule _ _ state => simp [Slot.state, state] at active
  | expire _ _ _ next | complete _ _ next | discard _ _ next | retryLater _ _ next
  | cancel _ _ next => simp [Slot.state, next.state] at active
  | requeue _ _ _ next | promoteScheduled _ _ next | promoteRetry _ _ next
  | revive _ _ next => simp [Slot.state, next.state] at active

theorem Slot.Evolves.steady {allowed : Move → Prop} (h : s.Evolves lib now j allowed s')
    (others : ∀ m, allowed m → m ≠ .claim ∧ m ≠ .extend) (active : s'.state = some .active) :
    s.state = some .active ∧ s'.active = s.active := by
  induction h with
  | refl => exact ⟨active, rfl⟩
  | tail _ step ih =>
    obtain ⟨m, ok, step⟩ := step
    obtain ⟨before, same⟩ := step.steady (others m ok).1 (others m ok).2 active
    obtain ⟨first, same'⟩ := ih before
    exact ⟨first, same.trans same'⟩

/-- Over, with no dead letter that could be retried. -/
def Slot.Ended (s : Slot) : Prop :=
  s.Terminal ∧ s.dead = none

theorem Slot.Step.ended (step : Slot.Step lib now j m s s') (placed : s.Placed j)
    (ended : s.Ended) : s'.Ended := by
  obtain ⟨terminal, undead⟩ := ended
  have unrevived : m ≠ .revive := by
    rintro rfl
    cases step with
    | requeue kind => rcases kind with kind | kind <;> cases kind
    | revive _ dead => simp [undead] at dead
  have evolves : s.Evolves lib now j (· = m) s' := .single ⟨m, rfl, step⟩
  refine ⟨evolves.still_terminal placed terminal fun _ same => same ▸ unrevived, ?_⟩
  cases step with
  | discard stored state => simpa using terminal.not_state stored state
  | revive _ dead => simp [undead] at dead
  | forget => rfl
  | _ => exact undead

theorem Slot.Step.kept (step : Slot.Step lib now j m s s') (placed : s.Placed j)
    (holds : ¬ m.Releases) (kept : s.state = some .active ∨ s.Ended) :
    s'.state = some .active ∨ s'.Ended := by
  rcases kept with active | ended
  · obtain ⟨rec, stored, state⟩ := Option.map_eq_some_iff.mp active
    obtain ⟨unscheduled, unretried, undead, silent⟩ := placed.entries_active stored state
    cases step with
    | enqueue none | schedule none => simp [stored] at none
    | claim _ one | expire _ one | skip _ one => simp [silent] at one
    | extend | forget => exact .inl active
    | complete _ _ next | cancel _ _ next =>
      exact .inr ⟨by simp [Slot.Terminal, Slot.state, next.state], undead⟩
    | discard | retryLater => simp [Move.Releases] at holds
    | requeue kind => rcases kind with rfl | rfl <;> simp [Move.Releases] at holds
    | promoteScheduled _ entry => simp [unscheduled] at entry
    | promoteRetry _ entry => simp [unretried] at entry
    | revive _ entry => simp [undead] at entry
  · exact .inr (step.ended placed ended)

theorem Slot.Evolves.kept {allowed : Move → Prop} (h : s.Evolves lib now j allowed s')
    (placed : s.Placed j) (holds : ∀ m, allowed m → ¬ m.Releases)
    (kept : s.state = some .active ∨ s.Ended) : s'.state = some .active ∨ s'.Ended := by
  induction h with
  | refl => exact kept
  | tail before step ih =>
    obtain ⟨m, ok, step⟩ := step
    exact step.kept (Evolves.placed before placed) (holds m ok) ih

theorem Slot.Evolves.ended {allowed : Move → Prop} (h : s.Evolves lib now j allowed s')
    (placed : s.Placed j) (ended : s.Ended) : s'.Ended := by
  induction h with
  | refl => exact ended
  | tail before step ih =>
    obtain ⟨m, ok, step⟩ := step
    exact step.ended (Evolves.placed before placed) ih

end Slots

/-! ## The end of a lease -/

/-- The end of the lease of a job after a step in which it stays active. -/
def Passage.leaseEnd (j : String) (d : Int) (p : Passage) : Int :=
  match p.event with
  | .call (.heartbeat _ ids timeout) _ => if j ∈ ids then expiry p.before timeout else d
  | _ => d

/-- The same after several steps. -/
def leaseEnd (j : String) (d : Int) (done : List Passage) : Int :=
  done.foldl (Passage.leaseEnd j) d

/-- The step is a pass for stalled jobs. -/
def Passage.isStallPass (p : Passage) : Bool :=
  match p.event with
  | .call .requeueStalled _ => true
  | _ => false

theorem Passage.isStallPass_iff {p : Passage} :
    p.isStallPass ↔ ∃ reply, p.event = .call .requeueStalled reply := by
  unfold isStallPass
  split
  · rename_i reply same
    exact iff_of_true rfl ⟨reply, same⟩
  · rename_i other
    exact iff_of_false nofun fun ⟨reply, same⟩ => other reply same

/-- The operation is an `Ack` or a `Nack` of the job. -/
def settles (j : String) : Call → Bool
  | .ack k _ | .nack k _ _ => k = j
  | _ => false

def Unsettled (j : String) (done : List Passage) : Prop :=
  ∀ p ∈ done, p.event.Meets fun call => settles j call = false

/-- No pass makes the job available while it is neither acked nor nacked. -/
def KeptByPasses (j : String) (trace : List Passage) : Prop :=
  ∀ done p rest, trace = done ++ p :: rest → Unsettled j done → p.isStallPass →
    (p.after.slot j).state = some .available → (p.before.slot j).state = some .available

/-- The job has been active after every step, which neither acked nor nacked it. -/
def Held (j : String) (done : List Passage) : Prop :=
  Unsettled j done ∧ ∀ p ∈ done, (p.after.slot j).state = some .active

/-- Every pass while the job is held comes before the end of its lease. -/
def PassesInTime (j : String) (d : Int) (trace : List Passage) : Prop :=
  ∀ done p rest, trace = done ++ p :: rest → Held j done → p.isStallPass →
    p.before.clock ≤ leaseEnd j d done

/-- Without heartbeats that list the job, its lease ends when it did. -/
theorem leaseEnd_of_unlisted {d : Int} {done : List Passage}
    (unlisted : ∀ p ∈ done, ∀ workerID ids timeout reply,
      p.event = .call (.heartbeat workerID ids timeout) reply → j ∉ ids) :
    leaseEnd j d done = d := by
  induction done with
  | nil => rfl
  | cons p rest ih =>
    have same : Passage.leaseEnd j d p = d := by
      unfold Passage.leaseEnd
      split
      · rename_i workerID ids timeout reply event
        exact if_neg (unlisted p List.mem_cons_self workerID ids timeout reply event)
      · rfl
    rw [leaseEnd, List.foldl_cons, same]
    exact ih fun q mem => unlisted q (List.mem_cons_of_mem p mem)

section Runs

variable {d : Int} {trace : List Passage}

/-- A step that does not list the job in a heartbeat leaves its lease. -/
theorem Step.lease_kept (step : Step lib w event t) (sound : Sound w)
    (unlisted : ∀ workerID ids timeout reply,
      event = .call (.heartbeat workerID ids timeout) reply → j ∉ ids)
    (before : (w.slot j).state = some .active) (after : (t.slot j).state = some .active) :
    (t.slot j).active = (w.slot j).active := by
  have evolves := step.evolves sound j
  cases event with
  | tick =>
    cases step
    rfl
  | call call reply =>
    by_cases fetches : ∃ queues count workerID timeout, call = .fetch queues count workerID timeout
    · obtain ⟨queues, count, workerID, timeout, rfl⟩ := fetches
      obtain ⟨rec, stored, state⟩ := record_of_isSome before
      have silent := ((sound.placed j).entries_active stored state).2.2.2
      rw [Slot.Evolves.unannounced evolves silent]
    · refine (evolves.steady (fun m ok => ⟨?_, ?_⟩) after).2
      · rintro rfl
        exact fetches (fetch_of_claim ok)
      · rintro rfl
        obtain ⟨workerID, ids, timeout, rfl, mem⟩ := heartbeat_of_extend ok
        exact unlisted workerID ids timeout reply rfl mem

/-- While the job stays active, its deadline is the end of its lease. -/
theorem Step.deadline (step : Step lib w event t) (sound : Sound w) (era : InEra w.clock)
    (before : (w.slot j).state = some .active) (after : (t.slot j).state = some .active)
    (deadline : Deadline lib w j d) : Deadline lib t j (Passage.leaseEnd j d ⟨w, event, t⟩) := by
  by_cases listed : ∃ workerID ids timeout reply,
      event = .call (.heartbeat workerID ids timeout) reply ∧ j ∈ ids
  · obtain ⟨workerID, ids, timeout, reply, rfl, mem⟩ := listed
    cases step with
    | call fresh run =>
      obtain ⟨response, -, run⟩ := exec_reply run
      have done := wp_heartbeat_extended response t run
      have extended := (done.listed j).mpr ⟨mem, before⟩
      simp only [Passage.leaseEnd, if_pos mem]
      exact (done.deadline era extended _).mpr rfl
  · have unlisted : ∀ workerID ids timeout reply,
        event = .call (.heartbeat workerID ids timeout) reply → j ∉ ids :=
      fun workerID ids timeout reply same mem =>
        listed ⟨workerID, ids, timeout, reply, same, mem⟩
    have same : Passage.leaseEnd j d ⟨w, event, t⟩ = d :=
      leaseEnd_of_unlisted (List.forall_mem_singleton.mpr unlisted)
    obtain ⟨info, stored, parsed⟩ := deadline
    rw [same]
    exact ⟨info, (step.lease_kept sound unlisted before after).trans stored, parsed⟩

theorem Run.clock_le (run : Run lib w trace t) (sound : Sound w) : w.clock ≤ t.clock := by
  refine run.holds (I := fun _ v => w.clock ≤ v.clock) sound le_rfl ?_
  intro _ p _ sound step before
  exact before.trans (step.clock_le sound)

theorem Run.before_le (run : Run lib w trace t) (sound : Sound w) {p : Passage}
    (mem : p ∈ trace) : w.clock ≤ p.before.clock ∧ p.before.clock ≤ t.clock := by
  induction run with
  | nil => cases mem
  | cons step rest ih =>
    have here := step.clock_le sound
    rcases List.mem_cons.mp mem with rfl | later
    · exact ⟨le_rfl, here.trans (rest.clock_le (step.sound sound))⟩
    · exact ⟨here.trans (ih (step.sound sound) later).1, (ih (step.sound sound) later).2⟩

theorem inEra_of_le {now later : Int} (nonneg : 0 ≤ now) (era : InEra later) (le : now ≤ later) :
    InEra now :=
  ⟨nonneg, (Int.add_le_add_right le _).trans era.2⟩

theorem Run.era_before (run : Run lib w trace t) (sound : Sound w) (nonneg : 0 ≤ w.clock)
    (era : InEra t.clock) {p : Passage} (mem : p ∈ trace) : InEra p.before.clock :=
  inEra_of_le (nonneg.trans (run.before_le sound mem).1) era (run.before_le sound mem).2

/-- The job is active, with the end of its lease for a deadline, after any steps that hold it. -/
theorem Run.deadline (run : Run lib w trace t) (sound : Sound w) (nonneg : 0 ≤ w.clock)
    (era : InEra t.clock) (active : (w.slot j).state = some .active)
    (deadline : Deadline lib w j d) (held : Held j trace) :
    (t.slot j).state = some .active ∧ Deadline lib t j (leaseEnd j d trace) := by
  replace held := held.2
  induction run generalizing d with
  | nil => exact ⟨active, deadline⟩
  | @cons w m t event rest step later ih =>
    have run : Run lib w (⟨w, event, m⟩ :: rest) t := .cons step later
    have era' : InEra w.clock := run.era_before sound nonneg era List.mem_cons_self
    have active' : (m.slot j).state = some .active := held _ List.mem_cons_self
    have deadline' := step.deadline sound era' active active' deadline
    exact ih (step.sound sound) (nonneg.trans (step.clock_le sound)) era active' deadline'
      fun p mem => held p (List.mem_cons_of_mem _ mem)

/-- What a pass for stalled jobs does. -/
theorem Step.passed {p : Passage} (step : Step lib p.before p.event p.after)
    (pass : p.isStallPass) (sound : Sound p.before) :
    (Stalled lib p.before.clock (p.before.slot j).active →
      (p.after.slot j).state = some .available) ∧
    (¬ Stalled lib p.before.clock (p.before.slot j).active →
      p.after.slot j = p.before.slot j) := by
  obtain ⟨w, event, t⟩ := p
  obtain ⟨reply, rfl⟩ := Passage.isStallPass_iff.mp pass
  cases step with
  | call fresh run =>
    obtain ⟨result, -, run⟩ := exec_reply run
    have passed := requeueStalled_passed (sound.accept .requeueStalled) result t run
    refine ⟨fun late => ?_, passed.kept j⟩
    have moved := passed.moved j late
    generalize t.slot j = s' at moved ⊢
    cases moved with
    | requeue _ _ _ next => simp [Slot.state, next.state]

/-- A pass that comes in time leaves the job. -/
theorem Step.spared {p : Passage} (step : Step lib p.before p.event p.after)
    (pass : p.isStallPass) (sound : Sound p.before) (deadline : Deadline lib p.before j d)
    (inTime : p.before.clock ≤ d) : p.after.slot j = p.before.slot j := by
  apply (step.passed pass sound).2
  rw [deadline.stalled_iff]
  exact not_lt.mpr inTime

/-- No other step releases a job that it does not settle. -/
theorem Step.kept (step : Step lib w event t) (sound : Sound w)
    (unsettled : event.Meets fun call => settles j call = false)
    (other : ¬ Passage.isStallPass ⟨w, event, t⟩)
    (active : (w.slot j).state = some .active) :
    (t.slot j).state = some .active ∨ (t.slot j).Ended := by
  refine (step.evolves sound j).kept (sound.placed j) (fun m ok releases => ?_) (.inl active)
  cases event with
  | tick => exact ok
  | call call reply =>
    rcases nack_or_pass_of_releases ok releases with ⟨err, requeue, rfl⟩ | rfl
    · simp [Event.Meets, settles] at unsettled
    · exact other rfl

/-- If the passes come in time, an unsettled job is held or has ended. -/
theorem Run.held_or_ended (run : Run lib w trace t) (sound : Sound w) (nonneg : 0 ≤ w.clock)
    (era : InEra t.clock) (active : (w.slot j).state = some .active)
    (deadline : Deadline lib w j d) (inTime : PassesInTime j d trace)
    (unsettled : Unsettled j trace) : Held j trace ∨ (t.slot j).Ended := by
  refine run.holds_along (I := fun done v => Held j done ∨ (v.slot j).Ended)
    (.inl (by simp [Held, Unsettled])) ?_
  rintro done p rest rfl before step (held | ended)
  · have sound' := before.sound sound
    have era' := run.era_before sound nonneg era (p := p) (by simp)
    obtain ⟨active', deadline'⟩ := before.deadline sound nonneg era' active deadline held
    have kept : (p.after.slot j).state = some .active ∨ (p.after.slot j).Ended := by
      by_cases pass : p.isStallPass
      · have spared := step.spared pass sound' deadline' (inTime done p rest rfl held pass)
        exact .inl (by rw [spared, active'])
      · exact step.kept sound' (unsettled p (by simp)) pass active'
    refine kept.imp_left fun active => ⟨?_, ?_⟩
    · have within : done ++ [p] ⊆ done ++ p :: rest :=
        List.append_subset.mpr ⟨List.subset_append_left done _, by simp⟩
      exact fun q mem => unsettled q (within mem)
    · intro q mem
      rcases List.mem_append.mp mem with earlier | last
      · exact held.2 q earlier
      · rw [List.mem_singleton.mp last]
        exact active
  · exact .inr ((step.evolves (before.sound sound) j).ended ((before.sound sound).placed j) ended)

/-- The passes of a run keep a job exactly if each comes in time. -/
theorem Run.keptByPasses_iff (run : Run lib w trace t) (sound : Sound w) (nonneg : 0 ≤ w.clock)
    (era : InEra t.clock) (active : (w.slot j).state = some .active)
    (deadline : Deadline lib w j d) : KeptByPasses j trace ↔ PassesInTime j d trace := by
  constructor
  · rintro kept done p rest rfl held pass
    obtain ⟨before, step⟩ := run.split
    have era' := run.era_before sound nonneg era (p := p) (by simp)
    obtain ⟨active', deadline'⟩ := before.deadline sound nonneg era' active deadline held
    by_contra late
    have stalled := deadline'.stalled_iff.mpr (not_le.mp late)
    have requeued := (step.passed pass (before.sound sound)).1 stalled
    have available := kept done p rest rfl held.1 pass requeued
    simp [active'] at available
  · rintro inTime done p rest rfl unsettled pass available
    obtain ⟨before, step⟩ := run.split
    have sound' := before.sound sound
    have era' := run.era_before sound nonneg era (p := p) (by simp)
    have earlier : PassesInTime j d done := fun first q last whole =>
      inTime first q (last ++ p :: rest) (by simp [whole])
    rcases before.held_or_ended sound nonneg era' active deadline earlier unsettled with
      held | ended
    · obtain ⟨active', deadline'⟩ := before.deadline sound nonneg era' active deadline held
      have spared := step.spared pass sound' deadline' (inTime done p rest rfl held pass)
      rwa [spared] at available
    · obtain ⟨terminal, -⟩ := (step.evolves sound' j).ended (sound'.placed j) ended
      simp [Slot.Terminal, available] at terminal

end Runs

end OjsNats.Lifecycle
