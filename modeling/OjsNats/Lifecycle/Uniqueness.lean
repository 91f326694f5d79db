import OjsNats.Lifecycle.System

/-!
# One live job per fingerprint

A push under a unique policy takes the lock of its fingerprint or finds the job
that holds it.  The lock outlives its job, so what is kept is that it names the
only job of the fingerprint that may be live.
-/

namespace OjsNats.Core

/-- A policy that refuses, returns or replaces every live job in its way. -/
structure UniquePolicy.Exclusive (unique : UniquePolicy) : Prop where
  states : unique.states = []
  onConflict : unique.onConflict = "" ∨ unique.onConflict = "reject" ∨
    unique.onConflict = "ignore" ∨ unique.onConflict = "replace"

end OjsNats.Core

namespace OjsNats.Nats

open Core

/-- The fingerprint of a stored job, if it has a unique policy. -/
def fingerprintOf (lib : Externals) (rec : JobState) : Option String :=
  rec.unique.map (UniqueStore.computeFingerprint lib (unmarshalJobState rec))

/-- Jobs with a unique policy come by `Push` only, with an exclusive policy, and
no dead letter is retried. -/
def Call.Exclusive : Call → Prop
  | .push job => ∀ unique, job.unique = some unique → unique.Exclusive
  | .pushBatch jobs => ∀ job ∈ jobs, job.unique = none
  | .retryDeadLetter _ => False
  | _ => True

end OjsNats.Nats

namespace OjsNats.Lifecycle

open Core Nats Effect Semantics Relation

variable {lib : Externals} {w w' : World}

/-- The job is live and has the fingerprint. -/
def Slot.Holds (lib : Externals) (fingerprint : String) (s : Slot) : Prop :=
  ∃ rec, s.record = some rec ∧ fingerprintOf lib rec = some fingerprint ∧
    lib.isTerminalState rec.state = false

/-- The lock of a fingerprint names the only job that may be live. -/
structure Locked (lib : Externals) (w : World) : Prop where
  named : ∀ f j, (w.slot j).Holds lib f → w.value .unique f = some j
  nonempty : ∀ f j, w.value .unique f = some j → j ≠ ""

/-! ## Moves -/

namespace Slot

variable {now : Int} {j f : String} {m : Move} {s t : Slot}

theorem not_holds_of_ended {rec : JobState} (stored : s.record = some rec)
    (ended : rec.state = .completed ∨ rec.state = .cancelled ∨ rec.state = .discarded) :
    ¬ s.Holds lib f := by
  rintro ⟨rec', stored', -, live⟩
  cases stored.symm.trans stored'
  rw [isTerminalState_of ended] at live
  cases live

theorem Step.not_holds_of_cancel (step : Step lib now j .cancel s t) : ¬ t.Holds lib f := by
  cases step with
  | cancel stored live next => exact not_holds_of_ended rfl (by simp [next.state])
  | requeue kind => simp at kind

/-- A job that holds a fingerprint after a move has held it before, unless the
move revives it or it is new. -/
theorem Step.holds_before (step : Step lib now j m s t) (placed : s.Placed j)
    (revive : m ≠ .revive)
    (new : ∀ rec, m = .enqueue rec ∨ m = .schedule rec → fingerprintOf lib rec ≠ some f)
    (holds : t.Holds lib f) : s.Holds lib f := by
  have kept {st : State} {rec rec' : JobState} (before : s.record = some rec)
      (next : Becomes st rec rec') (live : lib.isTerminalState rec.state = false)
      (stored : t.record = some rec') : s.Holds lib f := by
    obtain ⟨rec₁, stored₁, fingerprint, -⟩ := holds
    obtain rfl : rec' = rec₁ := Option.some.inj (stored.symm.trans stored₁)
    exact ⟨rec, before, (next.same (fingerprintOf lib) fun _ => rfl).symm.trans fingerprint, live⟩
  cases step with
  | enqueue none =>
    obtain ⟨rec, ⟨⟩, fingerprint, -⟩ := holds
    exact absurd fingerprint (new _ (.inl rfl))
  | schedule none =>
    obtain ⟨rec, ⟨⟩, fingerprint, -⟩ := holds
    exact absurd fingerprint (new _ (.inr rfl))
  | claim some one fresh state next => exact kept some next (isTerminalState_of_not (by simp [state])) rfl
  | expire some one expired next =>
    exact absurd holds (not_holds_of_ended rfl (by simp [next.state]))
  | complete some state next =>
    exact absurd holds (not_holds_of_ended rfl (by simp [next.state]))
  | discard some state next =>
    exact absurd holds (not_holds_of_ended rfl (by simp [next.state]))
  | retryLater some state next =>
    exact kept some next (isTerminalState_of_not (by simp [state])) rfl
  | requeue kind some state next =>
    exact kept some next.toBecomes (isTerminalState_of_not (by simp [state])) rfl
  | cancel some live next => exact absurd holds (not_holds_of_ended rfl (by simp [next.state]))
  | promoteScheduled some entry next =>
    have state := placed.state_of_scheduled some entry
    exact kept some next.toBecomes (isTerminalState_of_not (by simp [state])) rfl
  | promoteRetry some entry next =>
    have state := placed.state_of_retry some entry
    exact kept some next.toBecomes (isTerminalState_of_not (by simp [state])) rfl
  | revive => exact absurd rfl revive
  | skip | extend | forget => exact holds

theorem Evolves.holds_before {allowed : Move → Prop} (h : s.Evolves lib now j allowed t)
    (placed : s.Placed j) (revive : ∀ m, allowed m → m ≠ .revive)
    (new : ∀ m, allowed m → ∀ rec, m = .enqueue rec ∨ m = .schedule rec →
      fingerprintOf lib rec ≠ some f)
    (holds : t.Holds lib f) : s.Holds lib f := by
  induction h with
  | refl => exact holds
  | tail before step ih =>
    obtain ⟨m, ok, step⟩ := step
    exact ih (step.holds_before (Evolves.placed before placed) (revive m ok) (new m ok) holds)

end Slot

/-! ## Operations that take no lock -/

/-- What leaves the locks alone and brings no live job of a fingerprint keeps the invariant. -/
theorem Locked.after (locked : Locked lib w) (kv : w'.kv .unique = w.kv .unique)
    (before : ∀ f j, (w'.slot j).Holds lib f → (w.slot j).Holds lib f) : Locked lib w' where
  named := fun f j holds => (value_of_kv kv f).trans (locked.named f j (before f j holds))
  nonempty := fun f j lock => locked.nonempty f j ((value_of_kv kv f).symm.trans lock)

theorem Stores.unique {job : Job} {j : String} {rec : JobState} (stored : Stores lib job j rec) :
    rec.unique = job.unique.map sortedKeys := by
  obtain ⟨state, now, rfl⟩ := stored
  rfl

/-- An operation that takes no lock brings no job with a fingerprint and revives none. -/
theorem moves_free {call : Call} {j : String} {m : Move} (ok : moves lib call j m)
    (exclusive : call.Exclusive) (locks : ¬ call.Locks) :
    m ≠ .revive ∧ ∀ rec, m = .enqueue rec ∨ m = .schedule rec → fingerprintOf lib rec = none := by
  have brought {new : String → JobState → Prop} (h : Brings new j m)
      (free : ∀ rec, new j rec → rec.unique = none) : m ≠ .revive ∧
        ∀ rec, m = .enqueue rec ∨ m = .schedule rec → fingerprintOf lib rec = none := by
    obtain ⟨rec, kind, holds⟩ := h
    refine ⟨by rcases kind with rfl | rfl <;> simp, fun rec' kind' => ?_⟩
    have same : rec' = rec := by
      rcases kind with rfl | rfl <;> simpa [eq_comm] using kind'
    rw [fingerprintOf, same, free rec holds, Option.map_none]
  have spawned (h : Spawns j m) := brought (show Brings (fun _ rec => Spawned rec) j m from h)
    fun _ new => new.unique
  cases call with
  | push job =>
    have free : job.unique = none := by simpa [Call.Locks] using locks
    rcases ok with brings | rfl
    · exact brought brings fun rec stored => by rw [stored.unique, free, Option.map_none]
    · simp
  | pushBatch jobs =>
    refine brought ok fun rec stored => ?_
    obtain ⟨job, mem, now, rfl⟩ := stored
    exact exclusive job mem
  | fireCronJobs => exact spawned (SpawnsLoose.spawns j m ok)
  | createWorkflow | advanceWorkflow => exact spawned ok
  | fetch => rcases ok with rfl | rfl | rfl <;> simp
  | ack k result =>
    rcases ok with ⟨-, rfl⟩ | brings
    · simp
    · exact spawned brings
  | nack k jobErr requeue =>
    rcases ok with ⟨-, ⟨rfl, -⟩ | ⟨rfl | rfl, -⟩⟩ | brings
    · simp
    · simp
    · simp
    · exact spawned brings
  | retryDeadLetter k => exact exclusive.elim
  | cancel | heartbeat | deleteDeadLetter =>
    obtain ⟨-, rfl⟩ := ok
    simp
  | promoteScheduled | promoteRetries | requeueStalled | cancelWorkflow =>
    cases ok
    simp
  | registerCron | deleteCron | pauseQueue | resumeQueue | setWorkerState => exact ok.elim

theorem Locked.call {call : Call} {reply : Reply} (locked : Locked lib w) (sound : Sound w)
    (exclusive : call.Exclusive) (locks : ¬ call.Locks) (fresh : call.Fresh w)
    (run : serves.Exec (call.program lib) (w.accept call) reply w') : Locked lib w' := by
  have evolves : Evolves lib (moves lib call) (w.accept call) w' :=
    call_evolves sound fresh reply w' run
  have kv : w'.kv .unique = (w.accept call).kv .unique := kv_of_spares (spares_locks lib locks) run
  refine locked.after kv fun f j holds => ?_
  refine (evolves.slots j).holds_before (sound.placed j) (fun m ok => ?_) (fun m ok rec kind => ?_)
    holds
  · exact (moves_free ok exclusive locks).1
  · rw [(moves_free ok exclusive locks).2 rec kind]
    simp

/-! ## Taking the lock -/

/-- The job takes the lock of a fingerprint that no live job has any more. -/
structure TakesLock (lib : Externals) (f k : String) (w w' : World) : Prop where
  lock : ∀ g, w'.value .unique g = if g = f then some k else w.value .unique g
  before : ∀ g j, (w'.slot j).Holds lib g → (w.slot j).Holds lib g
  free : ∀ j, ¬ (w'.slot j).Holds lib f

/-- A live holder of the lock is in the way of a push under an exclusive policy. -/
theorem Locked.obstructs {job : Job} {unique : UniquePolicy} {j : String} (locked : Locked lib w)
    (exclusive : unique.Exclusive)
    (holds : (w.slot j).Holds lib (UniqueStore.computeFingerprint lib job unique)) :
    ∃ rec, Obstructs lib w job unique j rec ∧ lib.isTerminalState rec.state = false := by
  have lock := locked.named _ j holds
  obtain ⟨rec, stored, -, live⟩ := holds
  have relevant : isRelevant lib unique (unmarshalJobState rec) = true := by
    simp [isRelevant, exclusive.states, live]
  exact ⟨rec, ⟨lock, locked.nonempty _ j lock, stored, relevant⟩, live⟩

theorem Locked.takes {job : Job} {unique : UniquePolicy} {u : World} (locked : Locked lib w)
    (sound : Sound w) (exclusive : unique.Exclusive) (goes : ¬ StopsAtLock lib w job unique)
    (granted : Granted lib job unique w u) :
    TakesLock lib (UniqueStore.computeFingerprint lib job unique) job.id w u := by
  have before (g j : String) (holds : (u.slot j).Holds lib g) : (w.slot j).Holds lib g := by
    by_cases replaces : Replaces lib w job unique j
    · exact (granted.replaced j replaces).holds_before (sound.placed j) (by simp) (by simp) holds
    · exact granted.unreplaced j replaces ▸ holds
  refine ⟨granted.lock fun none => locked.nonempty _ _ none rfl, before, fun j holds => ?_⟩
  obtain ⟨rec, obstructs, live⟩ := locked.obstructs exclusive (before _ j holds)
  have replace : conflictOf unique = "replace" := by
    rcases exclusive.onConflict with conflict | conflict | conflict | conflict
    · exact absurd ⟨j, rec, obstructs, .inl (by simp [conflictOf, conflict])⟩ goes
    · exact absurd ⟨j, rec, obstructs, .inl (by simp [conflictOf, conflict])⟩ goes
    · exact absurd ⟨j, rec, obstructs, .inr (by simp [conflictOf, conflict])⟩ goes
    · simp [conflictOf, conflict]
  exact (granted.replaced j ⟨rec, obstructs, replace, live⟩).not_holds_of_cancel holds

/-! ## Storing the job -/

theorem fingerprintOf_storedRecord {state : State} {now : Int} {job : Job} {unique : UniquePolicy}
    (policy : job.unique = some unique) : fingerprintOf lib (storedRecord lib state now job) =
      some (UniqueStore.computeFingerprint lib job unique) := by
  simp only [fingerprintOf, storedRecord, marshalJobState, enqueuedJob, policy]
  rfl

/-- The job that has taken the lock becomes the live job of its fingerprint. -/
theorem Locked.stored {job : Job} {unique : UniquePolicy} {t : World} (locked : Locked lib w)
    (policy : job.unique = some unique)
    (taken : TakesLock lib (UniqueStore.computeFingerprint lib job unique) job.id w t)
    (reserved : Reserved t job.id) (untried : job.attempt = 0) :
    serves.wp (storeJob lib t.clock job) (fun _ u => Locked lib u) t := by
  refine wp_storeJob untried reserved fun state m s u kind step moved => ?_
  have lock (g : String) : u.value .unique g = t.value .unique g := value_of_kv (moved.kv .unique rfl) g
  have own (f : String) (holds : s.Holds lib f) :
      f = UniqueStore.computeFingerprint lib job unique := by
    obtain ⟨rec, after, fingerprint, -⟩ := holds
    have new : rec = storedRecord lib state t.clock job := by
      rcases kind with rfl | rfl
      · cases step with
        | enqueue => exact (Option.some.inj after).symm
        | requeue kind => simp at kind
      · cases step with
        | schedule => exact (Option.some.inj after).symm
        | requeue kind => simp at kind
    rw [new, fingerprintOf_storedRecord policy] at fingerprint
    exact (Option.some.inj fingerprint).symm
  refine ⟨fun f j holds => ?_, fun f j held => ?_⟩
  · by_cases same : j = job.id
    · subst same
      rw [lock, taken.lock, own f (moved.slot ▸ holds), if_pos rfl]
    · have before : (t.slot j).Holds lib f := moved.others j same ▸ holds
      have other : f ≠ UniqueStore.computeFingerprint lib job unique := by
        rintro rfl
        exact taken.free j before
      rw [lock, taken.lock, if_neg other]
      exact locked.named f j (taken.before f j before)
  · rw [lock, taken.lock] at held
    split at held
    · exact Option.some.inj held ▸ reserved.nonempty
    · exact locked.nonempty f j held

theorem Locked.push {job : Job} (locked : Locked lib w) (sound : Sound w)
    (exclusive : ∀ unique, job.unique = some unique → unique.Exclusive)
    (policy : job.unique ≠ none) (given : job.id ≠ "" → Reserved w job.id) :
    serves.wp (push lib job) (fun _ t => Locked lib t) w := by
  obtain ⟨unique, given_policy⟩ := Option.ne_none_iff_exists'.mp policy
  simp only [Nats.push, Program.bind_eq, Program.pure_eq, Program.bind_pure_left, wp_bind,
    wp_timeNow]
  refine wp_newID lib sound given fun id t evolves reserved _ kv => ?_
  have sound' := evolves.sound sound
  have locked' : Locked lib t := locked.after (by rw [kv]) fun f j holds =>
    (evolves.slots j).holds_before (sound.placed j) (fun _ h => h.elim) (fun _ h => h.elim) holds
  have policy' : (freshJob lib id w.clock job).unique = some (sortedKeys unique) := by
    simp [freshJob, given_policy]
  have exclusive' : (sortedKeys unique).Exclusive :=
    ⟨(exclusive unique given_policy).states, (exclusive unique given_policy).onConflict⟩
  simp only [policy']
  have handled : serves.wp (handleUnique lib (freshJob lib id w.clock job) (sortedKeys unique))
      (fun r u => (r ≠ none → u = t) ∧
        (r = none → TakesLock lib _ id t u ∧ Evolves lib Cancels t u)) t :=
    wp_handleUnique (fun k => (sound'.placed k).keyed) (fun _ _ => ⟨fun _ => rfl, by simp⟩)
      fun goes _ granted => ⟨by simp, fun _ =>
        ⟨locked'.takes sound' exclusive' goes granted, granted.evolves.mono fun _ _ h => h.1⟩⟩
  refine wp_bind.mpr (handled.mono fun r u result => ?_)
  cases r with
  | some early =>
    obtain rfl : u = t := result.1 (by simp)
    exact wp_pure.mpr locked'
  | none =>
    obtain ⟨taken, next⟩ := result.2 rfl
    have still : Reserved u id := reserved.after next fun m h rec => by
      cases h
      simp
    have clock : w.clock = u.clock := (next.clock.trans evolves.clock).symm
    rw [clock] at policy' taken ⊢
    exact locked'.stored policy' taken still rfl

theorem Locked.step {event : Event} (locked : Locked lib w) (sound : Sound w)
    (step : Step lib w event w') (exclusive : event.Meets Call.Exclusive) : Locked lib w' := by
  cases step with
  | tick => exact ⟨locked.named, locked.nonempty⟩
  | call fresh run =>
    rename_i call reply
    by_cases locks : call.Locks
    · cases call with
      | push job =>
        obtain ⟨result, -, run⟩ := exec_reply run
        have reserved (nonempty : job.id ≠ "") : Reserved (w.accept (.push job)) job.id :=
          .of_fresh fresh (by simp [Call.clientIDs, nonempty]) nonempty
        have accepted : Locked lib (w.accept (.push job)) := ⟨locked.named, locked.nonempty⟩
        exact accepted.push (sound.accept _) exclusive locks reserved result w' run
      | _ => exact locks.elim
    · exact locked.call sound exclusive locks fresh run

theorem Locked.start (clock : Int) : Locked lib (World.start clock) where
  named := by
    rintro f j ⟨rec, stored, -⟩
    cases stored
  nonempty := fun f j held => by cases held

/-- At most one live job has a fingerprint, and the lock names it. -/
theorem one_live_per_fingerprint {clock : Int} {trace : List Passage}
    (run : Run lib (World.start clock) trace w)
    (exclusive : ∀ p ∈ trace, p.event.Meets Call.Exclusive) (f : String) :
    (∀ j k, (w.slot j).Holds lib f → (w.slot k).Holds lib f → j = k) ∧
    ∀ j, (w.slot j).Holds lib f → w.value .unique f = some j := by
  have locked : Locked lib w := run.holds (I := fun _ v => Locked lib v) (.start clock)
    (.start clock) fun _ p mem sound step before => before.step sound step (exclusive p mem)
  refine ⟨fun j k holds holds' => ?_, fun j => locked.named f j⟩
  have same := (locked.named f j holds).symm.trans (locked.named f k holds')
  exact Option.some.inj same

/-- A mail that no other live mail may accompany. -/
def letter (id onConflict : String) : Job :=
  { id := id, type := "mail", queue := "mails", unique := some { onConflict := onConflict },
    retry := some { onExhaustion := "dead_letter" } }

/-- The second mail is refused, the third takes the place of the first. -/
def replacing : List Cue :=
  [.call (.push (letter "job-1" "reject")), .call (.push (letter "job-2" "")),
    .call (.push (letter "job-3" "replace")), .call (.fetch ["mails"] 1 "worker-1" 0),
    .call (.push (letter "job-4" "ignore"))]

/-- What a played run says about a job: its state and its fingerprint. -/
def standing (j : String) (r : List Passage × World) : Option (State × Option String) :=
  (r.2.value .jobs j).map fun rec => (rec.state, fingerprintOf sample rec)

theorem holds_of_standing {j f : String} {st : State} {r : List Passage × World}
    (stands : standing j r = some (st, some f)) (live : sample.isTerminalState st = false) :
    (r.2.slot j).Holds sample f := by
  obtain ⟨rec, stored, same⟩ := Option.map_eq_some_iff.mp stands
  obtain ⟨rfl, fingerprint⟩ := Prod.mk.inj same
  exact ⟨rec, stored, fingerprint, live⟩

theorem one_live_per_fingerprint_replacing : ∃ trace w,
    play (World.start (Sample.instant 0)) replacing = some (trace, w) ∧
    (w.slot "job-3").Holds sample Sample.digest ∧
    w.value .unique Sample.digest = some "job-3" ∧
    ∀ j, (w.slot j).Holds sample Sample.digest → j = "job-3" := by
  have plays : (play (World.start (Sample.instant 0)) replacing).isSome := by decide
  obtain ⟨⟨trace, w⟩, played⟩ := Option.isSome_iff_exists.mp plays
  have facts : (play (World.start (Sample.instant 0)) replacing).bind (standing "job-3") =
      some (.available, some Sample.digest) := by decide
  rw [played, Option.bind_some] at facts
  have live : (w.slot "job-3").Holds sample Sample.digest := holds_of_standing facts rfl
  have exclusive : ∀ cue ∈ replacing, cue.Meets Call.Exclusive := by
    simp only [replacing, letter, List.forall_mem_cons, Cue.Meets, Call.Exclusive, Option.some.injEq,
      forall_eq', true_and, List.not_mem_nil, false_implies, implies_true, and_true]
    exact ⟨⟨rfl, by simp⟩, ⟨rfl, by simp⟩, ⟨rfl, by simp⟩, rfl, by simp⟩
  obtain ⟨unique, lock⟩ := one_live_per_fingerprint (run_of_play played)
    (meets_of_play played exclusive) Sample.digest
  exact ⟨trace, w, played, live, lock _ live, fun j holds => unique j _ holds live⟩

/-! ## Retrying a dead letter takes no lock -/

theorem Slot.Step.holds_of_revive {now : Int} {j f : String} {rec : JobState} {s t : Slot}
    (step : Slot.Step lib now j .revive s t) (stored : s.record = some rec)
    (fingerprint : fingerprintOf lib rec = some f) : t.Holds lib f := by
  cases step with
  | @revive _ rec₀ _ _ stored₀ entry next =>
    obtain rfl : rec = rec₀ := Option.some.inj (stored.symm.trans stored₀)
    exact ⟨_, rfl, (next.same (fingerprintOf lib) fun _ => rfl).trans fingerprint,
      isTerminalState_of_not (by simp [next.state])⟩
  | requeue kind => simp at kind

theorem Step.holds_of_retryDeadLetter {j k f due : String} {rec : JobState} {reply : Reply}
    (step : Step lib w (.call (.retryDeadLetter j) reply) w') (sound : Sound w)
    (dead : w.value .dead j = some due) (stored : w.value .jobs j = some rec)
    (fingerprint : fingerprintOf lib rec = some f) (other : k ≠ j)
    (live : (w.slot k).Holds lib f) : (w'.slot j).Holds lib f ∧ (w'.slot k).Holds lib f := by
  cases step with
  | call fresh run =>
    obtain ⟨result, -, run⟩ := exec_reply run
    have entry : (w.slot j).dead = some due := dead
    suffices retried : serves.wp (retryDeadLetter lib j) (fun _ t => (t.slot j).Holds lib f ∧
        (t.slot k).Holds lib f) (w.accept (.retryDeadLetter j)) from retried result w' run
    refine wp_retryDeadLetter (sound.accept (.retryDeadLetter j)) (fun absent _ => ?_)
      fun s t _ step moved => ⟨?_, ?_⟩
    · rw [slot_accept, entry] at absent
      cases absent
    · rw [moved.slot]
      exact step.holds_of_revive stored fingerprint
    · rw [moved.others k other]
      exact live

/-- Retrying a dead letter whose fingerprint another live job has leaves two live
jobs with it, in every state. -/
theorem retryDeadLetter_doubles {clock : Int} {trace : List Passage} {j k f due : String}
    {rec : JobState} (run : Run lib (World.start clock) trace w)
    (dead : w.value .dead j = some due) (stored : w.value .jobs j = some rec)
    (fingerprint : fingerprintOf lib rec = some f) (other : k ≠ j)
    (live : (w.slot k).Holds lib f) :
    (∃ reply w', Step lib w (.call (.retryDeadLetter j) reply) w') ∧
    ∀ reply w', Step lib w (.call (.retryDeadLetter j) reply) w' →
      (w'.slot j).Holds lib f ∧ (w'.slot k).Holds lib f :=
  ⟨exists_step (fresh_of_no_ids rfl), fun _ _ step => step.holds_of_retryDeadLetter
    (run.sound (.start clock)) dead stored fingerprint other live⟩

/-- The first mail fails for good, and a second one takes its lock. -/
def replaced : List Cue :=
  [.call (.push (letter "job-1" "reject")), .call (.fetch ["mails"] 1 "worker-1" 0),
    .call (.nack "job-1" (some { message := "no route", retryable := some false }) false),
    .call (.push (letter "job-2" "reject"))]

theorem replaced_plays : ∃ trace w due rec,
    play (World.start (Sample.instant 0)) replaced = some (trace, w) ∧
    w.value .dead "job-1" = some due ∧ w.value .jobs "job-1" = some rec ∧
    fingerprintOf sample rec = some Sample.digest ∧
    (w.slot "job-2").Holds sample Sample.digest ∧
    rec.unique.map (fun unique => (unique.states, unique.onConflict)) = some ([], "reject") := by
  have plays : (play (World.start (Sample.instant 0)) replaced).isSome := by decide
  obtain ⟨⟨trace, w⟩, played⟩ := Option.isSome_iff_exists.mp plays
  have first : (play (World.start (Sample.instant 0)) replaced).bind (standing "job-1") =
      some (.discarded, some Sample.digest) := by decide
  have second : (play (World.start (Sample.instant 0)) replaced).bind (standing "job-2") =
      some (.available, some Sample.digest) := by decide
  have policy : (play (World.start (Sample.instant 0)) replaced).bind (fun r =>
      ((r.2.value .jobs "job-1").bind JobState.unique).map fun unique =>
        (unique.states, unique.onConflict)) = some ([], "reject") := by decide
  have dead : (play (World.start (Sample.instant 0)) replaced).map (fun r =>
      (r.2.value .dead "job-1").isSome) = some true := by decide
  rw [played, Option.bind_some] at first second policy
  rw [played, Option.map_some, Option.some.injEq] at dead
  obtain ⟨due, dead⟩ := Option.isSome_iff_exists.mp dead
  obtain ⟨rec, stored, same⟩ := Option.map_eq_some_iff.mp first
  obtain ⟨-, fingerprint⟩ := Prod.mk.inj same
  rw [stored, Option.bind_some] at policy
  exact ⟨trace, w, due, rec, played, dead, stored, fingerprint, holds_of_standing second rfl,
    policy⟩

theorem retryDeadLetter_doubles_replaced : ∃ trace w,
    play (World.start (Sample.instant 0)) replaced = some (trace, w) ∧
    ∀ reply w', Step sample w (.call (.retryDeadLetter "job-1") reply) w' →
      (w'.slot "job-1").Holds sample Sample.digest ∧
      (w'.slot "job-2").Holds sample Sample.digest := by
  obtain ⟨trace, w, due, rec, played, dead, stored, fingerprint, live, -⟩ := replaced_plays
  exact ⟨trace, w, played, (retryDeadLetter_doubles (run_of_play played) dead stored fingerprint
    (by decide) live).2⟩

/-- Retrying a dead letter does not respect uniqueness. -/
theorem not_retryDeadLetter_unique : ¬ ∀ (lib : Externals) (clock : Int) (trace : List Passage)
    (w w' : World) (j k f due : String) (rec : JobState) (unique : UniquePolicy) (reply : Reply),
    Run lib (World.start clock) trace w → w.value .dead j = some due →
    w.value .jobs j = some rec → rec.unique = some unique → unique.states = [] →
    unique.onConflict = "reject" → fingerprintOf lib rec = some f → k ≠ j →
    (w.slot k).Holds lib f → Step lib w (.call (.retryDeadLetter j) reply) w' →
    ¬ ((w'.slot j).Holds lib f ∧ (w'.slot k).Holds lib f) := by
  intro respects
  obtain ⟨trace, w, due, rec, played, dead, stored, fingerprint, live, policy⟩ := replaced_plays
  obtain ⟨unique, some, same⟩ := Option.map_eq_some_iff.mp policy
  obtain ⟨states, onConflict⟩ := Prod.mk.inj same
  have run := run_of_play played
  obtain ⟨reply, w', step⟩ : ∃ reply w', Step sample w (.call (.retryDeadLetter "job-1") reply) w' :=
    exists_step (fresh_of_no_ids rfl)
  exact respects sample _ trace w w' "job-1" "job-2" _ due rec unique reply run dead stored some
    states onConflict fingerprint (by decide) live step (step.holds_of_retryDeadLetter
      (run.sound (.start _)) dead stored fingerprint (by decide) live)

end OjsNats.Lifecycle
