import OjsNats.Lifecycle.System

/-!
# Counting attempts

A failed attempt is counted once and recorded at most once, and the count stays
within the job's limit.
-/

namespace OjsNats.Nats

open Core

/-- The jobs an operation brings have no errors recorded yet. -/
def Call.Unfailed : Call → Prop
  | .push job => job.errors = []
  | .pushBatch jobs => ∀ job ∈ jobs, job.errors = []
  | _ => True

/-- The attempt that an entry of the error history belongs to. -/
def recordedAttempt : RawMessage → Option Rat
  | .obj fields =>
      match fields.lookup "attempt" with
      | some (.num n) => some n
      | _ => none
  | _ => none

@[simp] theorem recordedAttempt_errorPayload (attempt : Int) (jobErr : JobError) :
    recordedAttempt (errorPayload attempt jobErr) = some (attempt : Rat) := by
  simp [recordedAttempt, errorPayload, List.lookup_cons]

/-- The number of attempts a job may take. -/
def attemptLimit (rec : JobState) : Int := max 1 (maxAttemptsOf (unmarshalJobState rec))

theorem one_le_attemptLimit (rec : JobState) : 1 ≤ attemptLimit rec := Int.le_max_left _ _

end OjsNats.Nats

namespace OjsNats.Lifecycle

open Core Nats Effect Semantics Relation

variable {lib : Externals}

/-- The count is within the limit, and below it while the job is not terminal. -/
structure Within (lib : Externals) (rec : JobState) : Prop where
  nonneg : 0 ≤ rec.attempt
  limited : rec.attempt ≤ attemptLimit rec
  pending : lib.isTerminalState rec.state = false → rec.attempt < attemptLimit rec

/-- The attempt numbers in the error history: strictly increasing, none of them
still to come. -/
def Chronicles (errors : List RawMessage) (attempt : Int) : Prop :=
  ∃ numbers : List Int, errors.map recordedAttempt = numbers.map (fun n : Int => some (n : Rat)) ∧
    numbers.Pairwise (· < ·) ∧ ∀ n ∈ numbers, 0 ≤ n ∧ n < attempt

theorem Becomes.attemptLimit {st : State} {rec rec' : JobState} (next : Becomes st rec rec') :
    attemptLimit rec' = attemptLimit rec :=
  next.same Nats.attemptLimit fun _ => rfl

/-! ## The history -/

section Chronicles

variable {errors : List RawMessage} {attempt : Int}

theorem Chronicles.nil (attempt : Int) : Chronicles [] attempt := ⟨[], by simp⟩

theorem Chronicles.mono {later : Int} (h : Chronicles errors attempt) (le : attempt ≤ later) :
    Chronicles errors later := by
  obtain ⟨numbers, same, increasing, below⟩ := h
  refine ⟨numbers, same, increasing, fun n mem => ?_⟩
  have := below n mem
  omega

theorem Chronicles.record (nonneg : 0 ≤ attempt) (h : Chronicles errors attempt)
    (jobErr : Option JobError) :
    Chronicles (errors ++ (jobErr.map (errorPayload attempt)).toList) (attempt + 1) := by
  cases jobErr with
  | none => simpa using h.mono (by omega)
  | some jobErr =>
    obtain ⟨numbers, same, increasing, below⟩ := h
    refine ⟨numbers ++ [attempt], by simp [same], ?_, fun n mem => ?_⟩
    · rw [List.pairwise_append]
      refine ⟨increasing, List.pairwise_singleton _ _, fun n mem m last => ?_⟩
      obtain rfl := List.mem_singleton.mp last
      exact (below n mem).2
    · rcases List.mem_append.mp mem with old | last
      · have := below n old
        omega
      · obtain rfl := List.mem_singleton.mp last
        omega

/-- Strictly increasing numbers in a range are no more than the range. -/
theorem length_le_of_pairwise_lt {numbers : List Int} {low high : Int} (ordered : low ≤ high)
    (increasing : numbers.Pairwise (· < ·)) (within : ∀ n ∈ numbers, low ≤ n ∧ n < high) :
    (numbers.length : Int) ≤ high - low := by
  induction numbers generalizing low with
  | nil => simpa using ordered
  | cons n rest ih =>
    obtain ⟨least, increasing⟩ := List.pairwise_cons.mp increasing
    have here := within n (by simp)
    have others : (rest.length : Int) ≤ high - (n + 1) := ih (by omega) increasing fun m mem =>
      ⟨by have := least m mem; omega, (within m (by simp [mem])).2⟩
    rw [List.length_cons]
    push_cast
    omega

theorem Chronicles.length_le (nonneg : 0 ≤ attempt) (h : Chronicles errors attempt) :
    (errors.length : Int) ≤ attempt := by
  obtain ⟨numbers, same, increasing, below⟩ := h
  have length : errors.length = numbers.length := by simpa using congrArg List.length same
  rw [length]
  simpa using length_le_of_pairwise_lt nonneg increasing below

end Chronicles

/-! ## What a move does to the count -/

section Record

variable {st : State} {rec rec' : JobState}

theorem Within.untried (attempt : rec.attempt = 0) : Within lib rec := by
  have room := one_le_attemptLimit rec
  exact ⟨by omega, by omega, fun _ => by omega⟩

/-- A move that counts nothing keeps the count within the limit, if the job was
live before it or is terminal after it. -/
theorem Within.continues (within : Within lib rec) (next : Becomes st rec rec')
    (attempt : rec'.attempt = rec.attempt)
    (ends : lib.isTerminalState rec.state = false ∨ lib.isTerminalState st = true) :
    Within lib rec' where
  nonneg := attempt ▸ within.nonneg
  limited := by
    rw [attempt, next.attemptLimit]
    exact within.limited
  pending := by
    intro live
    rw [attempt, next.attemptLimit]
    rcases ends with before | after
    · exact within.pending before
    · rw [next.state, after] at live
      cases live

theorem Within.counts (within : Within lib rec) (live : lib.isTerminalState rec.state = false)
    (next : Becomes st rec rec') (attempt : rec'.attempt = rec.attempt + 1)
    (ends : rec'.attempt < Nats.attemptLimit rec ∨ lib.isTerminalState st = true) :
    Within lib rec' where
  nonneg := by
    have := within.nonneg
    omega
  limited := by
    have := within.pending live
    rw [attempt, next.attemptLimit]
    omega
  pending := by
    intro pending
    rw [next.attemptLimit]
    rcases ends with below | after
    · exact below
    · rw [next.state, after] at pending
      cases pending

end Record

namespace Slot

variable {now : Int} {j : String} {m : Move} {s t : Slot}

/-- The count of the stored record, if any, is within its limit. -/
def Within (lib : Externals) (s : Slot) : Prop :=
  ∀ rec, s.record = some rec → Lifecycle.Within lib rec

/-- The history of the stored record, if any, belongs to its counted attempts. -/
def Chronicled (s : Slot) : Prop :=
  ∀ rec, s.record = some rec → Chronicles rec.errors rec.attempt

theorem forall_record {P : JobState → Prop} {rec : JobState} (stored : s.record = some rec)
    (h : P rec) : ∀ rec', s.record = some rec' → P rec' := by
  intro rec' stored'
  cases stored.symm.trans stored'
  exact h

theorem Step.within (step : Step lib now j m s t) (placed : s.Placed j) (within : s.Within lib) :
    t.Within lib := by
  cases step with
  | enqueue none id state enqueuedAt untried => exact forall_record rfl (.untried untried)
  | schedule none id state due untried => exact forall_record rfl (.untried untried)
  | claim some one fresh state next deadline same =>
    exact forall_record rfl ((within _ some).continues next same.attempt
      (.inl (isTerminalState_of_not (by simp [state]))))
  | expire some one expired next same =>
    exact forall_record rfl ((within _ some).continues next same.attempt
      (.inr (isTerminalState_of (by simp))))
  | complete some state next finishes =>
    exact forall_record rfl ((within _ some).continues next finishes.attempt
      (.inr (isTerminalState_of (by simp))))
  | discard some state next counts =>
    exact forall_record rfl ((within _ some).counts (isTerminalState_of_not (by simp [state])) next
      counts.attempt (.inr (isTerminalState_of (by simp))))
  | retryLater some state next due counts left =>
    exact forall_record rfl ((within _ some).counts (isTerminalState_of_not (by simp [state])) next
      counts.attempt (.inl (Int.lt_of_lt_of_le left (Int.le_max_right _ _))))
  | requeue kind some state next same =>
    exact forall_record rfl ((within _ some).continues next.toBecomes same.attempt
      (.inl (isTerminalState_of_not (by simp [state]))))
  | cancel some live next same =>
    exact forall_record rfl ((within _ some).continues next same.attempt (.inl live))
  | promoteScheduled some entry next same =>
    have state := placed.state_of_scheduled some entry
    exact forall_record rfl ((within _ some).continues next.toBecomes same.attempt
      (.inl (isTerminalState_of_not (by simp [state]))))
  | promoteRetry some entry next same =>
    have state := placed.state_of_retry some entry
    exact forall_record rfl ((within _ some).continues next.toBecomes same.attempt
      (.inl (isTerminalState_of_not (by simp [state]))))
  | revive some entry next restarts => exact forall_record rfl (.untried restarts.attempt)
  | skip | extend | forget => exact within

theorem Step.chronicled (step : Step lib now j m s t)
    (new : ∀ rec, m = .enqueue rec ∨ m = .schedule rec → rec.errors = [])
    (within : s.Within lib) (chronicled : s.Chronicled) : t.Chronicled := by
  have kept {rec rec' : JobState} (some : s.record = some rec)
      (attempt : rec'.attempt = rec.attempt) (errors : rec'.errors = rec.errors) :
      Chronicles rec'.errors rec'.attempt := by
    rw [attempt, errors]
    exact chronicled rec some
  have counted {rec rec' : JobState} (some : s.record = some rec) (counts : Counts rec rec') :
      Chronicles rec'.errors rec'.attempt := by
    obtain ⟨jobErr, errors⟩ := counts.errors
    rw [counts.attempt, errors]
    exact (chronicled rec some).record (within rec some).nonneg jobErr
  cases step with
  | enqueue => exact forall_record rfl (by simpa [new _ (.inl rfl)] using Chronicles.nil _)
  | schedule => exact forall_record rfl (by simpa [new _ (.inr rfl)] using Chronicles.nil _)
  | claim some _ _ _ _ _ same | expire some _ _ _ same | requeue _ some _ _ same
  | cancel some _ _ same | promoteScheduled some _ _ same | promoteRetry some _ _ same =>
    exact forall_record rfl (kept some same.attempt same.errors)
  | complete some _ _ finishes =>
    exact forall_record rfl (kept some finishes.attempt finishes.errors)
  | discard some _ _ counts | retryLater some _ _ _ counts =>
    exact forall_record rfl (counted some counts)
  | revive some _ _ restarts =>
    exact forall_record rfl (by simpa [restarts.errors] using Chronicles.nil _)
  | skip | extend | forget => exact chronicled

variable {allowed : Move → Prop}

theorem Evolves.within (h : s.Evolves lib now j allowed t) (placed : s.Placed j)
    (within : s.Within lib) : t.Within lib := by
  induction h with
  | refl => exact within
  | tail before step ih =>
    obtain ⟨m, -, step⟩ := step
    exact step.within (Evolves.placed before placed) ih

theorem Evolves.chronicled (h : s.Evolves lib now j allowed t) (placed : s.Placed j)
    (new : ∀ m, allowed m → ∀ rec, m = .enqueue rec ∨ m = .schedule rec → rec.errors = [])
    (within : s.Within lib) (chronicled : s.Chronicled) : t.Chronicled := by
  induction h with
  | refl => exact chronicled
  | tail before step ih =>
    obtain ⟨m, ok, step⟩ := step
    exact step.chronicled (new m ok) (Evolves.within before placed within) ih

/-- The count of a job, zero before it exists. -/
def attempt (s : Slot) : Int :=
  match s.record with
  | some rec => rec.attempt
  | none => 0

theorem attempt_of_record {rec : JobState} (stored : s.record = some rec) :
    s.attempt = rec.attempt := by
  rw [attempt, stored]

/-- Only failures and revivals change the count. -/
theorem Step.attempt_kept (step : Step lib now j m s t)
    (quiet : m ≠ .discard ∧ m ≠ .retryLater ∧ m ≠ .revive) : t.attempt = s.attempt := by
  cases step with
  | enqueue none id state enqueuedAt untried => simp [attempt, none, untried]
  | schedule none id state due untried => simp [attempt, none, untried]
  | claim some _ _ _ _ _ same | expire some _ _ _ same | requeue _ some _ _ same
  | cancel some _ _ same | promoteScheduled some _ _ same | promoteRetry some _ _ same =>
    simpa [attempt, some] using same.attempt
  | complete some _ _ finishes => simpa [attempt, some] using finishes.attempt
  | discard | retryLater | revive => simp at quiet
  | skip | extend | forget => rfl

theorem Evolves.attempt_kept (h : s.Evolves lib now j allowed t)
    (quiet : ∀ m, allowed m → m ≠ .discard ∧ m ≠ .retryLater ∧ m ≠ .revive) :
    t.attempt = s.attempt := by
  induction h with
  | refl => rfl
  | tail before step ih =>
    obtain ⟨m, ok, step⟩ := step
    exact (step.attempt_kept (quiet m ok)).trans ih

end Slot

/-! ## Steps -/

variable {w w' : World}

theorem Stores.errors {job : Job} {j : String} {rec : JobState} (stored : Stores lib job j rec) :
    rec.errors = job.errors := by
  obtain ⟨state, now, rfl⟩ := stored
  rfl

/-- The jobs an operation brings have the errors their callers gave them. -/
theorem moves_new {call : Call} {j : String} {m : Move} {rec : JobState} (unfailed : call.Unfailed)
    (ok : moves lib call j m) (kind : m = .enqueue rec ∨ m = .schedule rec) : rec.errors = [] := by
  have brought {new : String → JobState → Prop} (h : Brings new j m) : new j rec := by
    obtain ⟨rec', kind', holds⟩ := h
    rcases kind with rfl | rfl <;> rcases kind' with eq | eq <;> cases eq <;> exact holds
  have spawned (h : Spawns j m) : rec.errors = [] :=
    (brought (show Brings (fun _ rec => Spawned rec) j m from h)).errors
  cases call with
  | push job =>
    rcases ok with brings | rfl
    · exact (brought brings).errors.trans unfailed
    · simp at kind
  | pushBatch jobs =>
    obtain ⟨job, mem, now, rfl⟩ := brought ok
    exact unfailed job mem
  | fireCronJobs => exact spawned (SpawnsLoose.spawns j m ok)
  | createWorkflow | advanceWorkflow => exact spawned ok
  | ack k result =>
    rcases ok with ⟨-, rfl⟩ | brings
    · simp at kind
    · exact spawned brings
  | nack k jobErr requeue =>
    rcases ok with ⟨-, ⟨rfl, -⟩ | ⟨rfl | rfl, -⟩⟩ | brings
    · simp at kind
    · simp at kind
    · simp at kind
    · exact spawned brings
  | fetch | cancel | heartbeat | promoteScheduled | promoteRetries | requeueStalled
  | retryDeadLetter | deleteDeadLetter | cancelWorkflow | registerCron | deleteCron | pauseQueue
  | resumeQueue | setWorkerState =>
    rcases kind with rfl | rfl <;> simp [moves, Claims, Beats, Promotes, Stalls, Cancels] at ok

theorem Step.within {event : Event} (step : Step lib w event w') (sound : Sound w) {j : String}
    (within : (w.slot j).Within lib) : (w'.slot j).Within lib :=
  (step.evolves sound j).within (sound.placed j) within

theorem Step.chronicled {event : Event} (step : Step lib w event w') (sound : Sound w)
    (unfailed : event.Meets Call.Unfailed) {j : String} (within : (w.slot j).Within lib)
    (chronicled : (w.slot j).Chronicled) : (w'.slot j).Chronicled := by
  refine (step.evolves sound j).chronicled (sound.placed j) (fun m ok rec kind => ?_) within
    chronicled
  cases event with
  | call call reply => exact moves_new unfailed ok kind
  | tick => exact ok.elim

/-! ## Failed attempts of a run -/

/-- The failed attempts of a job since its last dead-letter retry, after one more event. -/
def Event.tally (j : String) (failures : Nat) : Event → Nat
  | .call (.nack k _ false) (.nacked (.ok _)) => if k = j then failures + 1 else failures
  | .call (.retryDeadLetter k) (.job (.ok _)) => if k = j then 0 else failures
  | _ => failures

/-- The failed attempts of a job since its last dead-letter retry. -/
def failedAttempts (j : String) (trace : List Passage) : Nat :=
  trace.foldl (fun failures p => p.event.tally j failures) 0

theorem Slot.Step.attempt_counts {now : Int} {j : String} {m : Move} {s t : Slot}
    (step : Slot.Step lib now j m s t) (kind : m = .discard ∨ m = .retryLater) :
    t.attempt = s.attempt + 1 := by
  cases step with
  | discard some _ _ counts | retryLater some _ _ _ counts =>
    simpa [Slot.attempt, some] using counts.attempt
  | requeue other => rcases other with rfl | rfl <;> simp at kind
  | enqueue | schedule | claim | expire | skip | extend | complete | cancel | promoteScheduled
  | promoteRetry | revive | forget => simp at kind

theorem Slot.Step.attempt_restarts {now : Int} {j : String} {s t : Slot}
    (step : Slot.Step lib now j .revive s t) : t.attempt = 0 := by
  cases step with
  | revive some _ _ restarts => simpa [Slot.attempt] using restarts.attempt
  | requeue other => simp at other

theorem Spawns.attempt_kept (evolves : Evolves lib Spawns w w') (j : String) :
    (w'.slot j).attempt = (w.slot j).attempt := by
  refine (evolves.slots j).attempt_kept fun m ok => ?_
  obtain ⟨rec, rfl | rfl, -⟩ := ok <;> simp

/-- A failing report counts one attempt of its job, and no other. -/
theorem nack_tally (sound : Sound w) (k : String) (jobErr : Option JobError) (requeue : Bool)
    (j : String) :
    serves.wp (nack lib k jobErr requeue) (fun r t => ∀ n : Nat, (w.slot j).attempt = n →
      (t.slot j).attempt = (Event.call (.nack k jobErr requeue) (.nacked r)).tally j n) w := by
  have settled {m : Move} {s : Slot} {u : World} {reply : NackResponse}
      (kind : if requeue then m = .requeue else m = .discard ∨ m = .retryLater)
      (step : Slot.Step lib w.clock k m (w.slot k) s) (moved : Moved k s w u) (n : Nat)
      (before : (w.slot j).attempt = n) : (u.slot j).attempt =
        (Event.call (.nack k jobErr requeue) (.nacked (.ok reply))).tally j n := by
    by_cases same : k = j
    · subst same
      rw [moved.slot]
      cases requeue with
      | true =>
        obtain rfl : m = .requeue := by simpa using kind
        exact (step.attempt_kept (by simp)).trans before
      | false =>
        rw [step.attempt_counts (by simpa using kind), before]
        simp [Event.tally]
    · rw [moved.others j (Ne.symm same), before]
      cases requeue <;> simp [Event.tally, same]
  refine wp_nack sound (fun _ e n before => ?_)
    (fun again s u reply step moved => settled (by simp [again]) step moved)
    (fun fails s u reply step moved => settled (by simp [fails]) step moved)
    fun fails s u step moved => ?_
  · cases requeue <;> simpa [Event.tally] using before
  · have kind : if requeue then Move.discard = .requeue
        else Move.discard = .discard ∨ Move.discard = .retryLater := by simp [fails]
    have known : (w.slot k).record ≠ none := by
      cases step with
      | discard some => simp [some]
      | requeue other => simp at other
    have evolves : Evolves lib (fun _ _ => True) w u := moved.evolves trivial step known
    have sound' : Sound u := evolves.sound sound
    refine (advanceWorkflow_advances _ _ _ u sound').mono fun _ t evolves reply n before => ?_
    rw [Spawns.attempt_kept evolves j]
    exact settled kind step moved n before

theorem retryDeadLetter_tally (sound : Sound w) (k j : String) :
    serves.wp (retryDeadLetter lib k) (fun r t => ∀ n : Nat, (w.slot j).attempt = n →
      (t.slot j).attempt = (Event.call (.retryDeadLetter k) (.job r)).tally j n) w := by
  refine wp_retryDeadLetter sound (fun _ e n before => before) fun s u reply step moved n before => ?_
  by_cases same : k = j
  · subst same
    rw [moved.slot, step.attempt_restarts]
    simp [Event.tally]
  · rw [moved.others j (Ne.symm same), before]
    simp [Event.tally, same]

/-- The operations that neither fail nor revive a job leave the counts alone. -/
theorem moves_quiet {call : Call} {j : String} {m : Move} (ok : moves lib call j m)
    (nack : ∀ k jobErr requeue, call ≠ .nack k jobErr requeue)
    (retry : ∀ k, call ≠ .retryDeadLetter k) :
    m ≠ .discard ∧ m ≠ .retryLater ∧ m ≠ .revive := by
  have brought {new : String → JobState → Prop} (h : Brings new j m) :
      m ≠ .discard ∧ m ≠ .retryLater ∧ m ≠ .revive := by
    obtain ⟨rec, rfl | rfl, -⟩ := h <;> simp
  cases call with
  | push job =>
    rcases ok with brings | rfl
    · exact brought brings
    · simp
  | pushBatch jobs => exact brought ok
  | fireCronJobs => exact brought (SpawnsLoose.spawns j m ok)
  | createWorkflow | advanceWorkflow =>
    exact brought (show Brings (fun _ rec => Spawned rec) j m from ok)
  | fetch => rcases ok with rfl | rfl | rfl <;> simp
  | ack k result =>
    rcases ok with ⟨-, rfl⟩ | brings
    · simp
    · exact brought (show Brings (fun _ rec => Spawned rec) j m from brings)
  | nack k jobErr requeue => exact absurd rfl (nack k jobErr requeue)
  | retryDeadLetter k => exact absurd rfl (retry k)
  | cancel | heartbeat | deleteDeadLetter =>
    obtain ⟨-, rfl⟩ := ok
    simp
  | promoteScheduled | promoteRetries | requeueStalled | cancelWorkflow =>
    cases ok
    simp
  | registerCron | deleteCron | pauseQueue | resumeQueue | setWorkerState => exact ok.elim

theorem Step.tally {event : Event} (step : Step lib w event w') (sound : Sound w) (j : String)
    (n : Nat) (before : (w.slot j).attempt = n) : (w'.slot j).attempt = event.tally j n := by
  have quiet : (∀ m, event.moves lib j m → m ≠ .discard ∧ m ≠ .retryLater ∧ m ≠ .revive) →
      (w'.slot j).attempt = n := fun h => ((step.evolves sound j).attempt_kept h).trans before
  cases step with
  | tick => exact before
  | call fresh run =>
    rename_i call reply
    have sound' := sound.accept call
    by_cases fails : ∃ k jobErr requeue, call = .nack k jobErr requeue
    · obtain ⟨k, jobErr, requeue, rfl⟩ := fails
      obtain ⟨r, rfl, ends⟩ := exec_reply run
      exact nack_tally sound' k jobErr requeue j r w' ends n before
    · by_cases revives : ∃ k, call = .retryDeadLetter k
      · obtain ⟨k, rfl⟩ := revives
        obtain ⟨r, rfl, ends⟩ := exec_reply run
        exact retryDeadLetter_tally sound' k j r w' ends n before
      · refine (quiet fun m ok => moves_quiet ok (fun k jobErr requeue same => ?_)
          fun k same => ?_).trans ?_
        · exact fails ⟨k, jobErr, requeue, same⟩
        · exact revives ⟨k, same⟩
        · unfold Event.tally
          split
          · rename_i k _ _ same
            cases same
            exact absurd ⟨k, _, _, rfl⟩ fails
          · rename_i k _ same
            cases same
            exact absurd ⟨k, rfl⟩ revives
          · rfl

theorem failedAttempts_snoc (j : String) (trace : List Passage) (p : Passage) :
    failedAttempts j (trace ++ [p]) = p.event.tally j (failedAttempts j trace) := by
  simp [failedAttempts]

theorem Run.within {clock : Int} {trace : List Passage}
    (run : Run lib (World.start clock) trace w) (j : String) : (w.slot j).Within lib :=
  run.holds (I := fun _ v => (v.slot j).Within lib) (.start clock)
    (fun _ stored => by simp [World.start, World.slot, World.value] at stored)
    fun _ _ _ sound step within => step.within sound within

theorem Run.attempt {clock : Int} {trace : List Passage}
    (run : Run lib (World.start clock) trace w) (j : String) :
    (w.slot j).attempt = failedAttempts j trace := by
  refine run.holds (I := fun done v => (v.slot j).attempt = failedAttempts j done) (.start clock)
    rfl fun done p _ sound step before => ?_
  rw [failedAttempts_snoc]
  exact step.tally sound j _ before

/-- Every failed attempt is counted once and recorded at most once. -/
theorem attempts_counted {clock : Int} {trace : List Passage}
    (run : Run lib (World.start clock) trace w)
    (unfailed : ∀ p ∈ trace, p.event.Meets Call.Unfailed) {j : String} {rec : JobState}
    (stored : w.value .jobs j = some rec) :
    0 ≤ rec.attempt ∧ rec.attempt ≤ max 1 (maxAttemptsOf (unmarshalJobState rec)) ∧
    (lib.isTerminalState rec.state = false →
      rec.attempt < max 1 (maxAttemptsOf (unmarshalJobState rec))) ∧
    (∃ numbers : List Int,
      rec.errors.map recordedAttempt = numbers.map (fun n : Int => some (n : Rat)) ∧
      numbers.Pairwise (· < ·) ∧ ∀ n ∈ numbers, n < rec.attempt) ∧
    rec.attempt = failedAttempts j trace ∧ rec.errors.length ≤ failedAttempts j trace := by
  have within : Within lib rec := run.within j rec stored
  have chronicled : Chronicles rec.errors rec.attempt := by
    refine (run.holds (I := fun _ v => (v.slot j).Within lib ∧ (v.slot j).Chronicled)
      (.start clock) ⟨?_, ?_⟩ fun _ p mem sound step before => ?_).2 rec stored
    · intro rec' stored'
      simp [World.start, World.slot, World.value] at stored'
    · intro rec' stored'
      simp [World.start, World.slot, World.value] at stored'
    · exact ⟨step.within sound before.1,
        step.chronicled sound (unfailed p mem) before.1 before.2⟩
  have counted : rec.attempt = failedAttempts j trace :=
    (Slot.attempt_of_record stored).symm.trans (run.attempt j)
  have length := chronicled.length_le within.nonneg
  obtain ⟨numbers, same, increasing, below⟩ := chronicled
  exact ⟨within.nonneg, within.limited, within.pending,
    ⟨numbers, same, increasing, fun n mem => (below n mem).2⟩, counted, by omega⟩

/-! ## A job that fails -/

/-- The job fails its first attempt and its last. -/
def failing : List Cue :=
  [.call (.push { id := "job-1", type := "mail", queue := "mails", maxAttempts := some 2 }),
    .call (.fetch ["mails"] 1 "worker-1" 0),
    .call (.nack "job-1" (some { message := "no route" }) false), .wait 2,
    .call .promoteRetries, .call (.fetch ["mails"] 1 "worker-1" 0),
    .call (.nack "job-1" (some { message := "no route" }) false)]

theorem attempts_counted_failing : ∃ trace w rec, play (World.start (Sample.instant 0)) failing =
    some (trace, w) ∧ w.value .jobs "job-1" = some rec ∧ rec.state = .discarded ∧
    (2 : Int) = failedAttempts "job-1" trace ∧ rec.errors.length = 2 := by
  have plays : (play (World.start (Sample.instant 0)) failing).isSome := by decide
  obtain ⟨⟨trace, w⟩, played⟩ := Option.isSome_iff_exists.mp plays
  have facts : (play (World.start (Sample.instant 0)) failing).map (fun r =>
      (r.2.value .jobs "job-1").map fun rec => (rec.state, rec.attempt, rec.errors.length)) =
        some (some (.discarded, 2, 2)) := by decide
  rw [played, Option.map_some, Option.some.injEq] at facts
  obtain ⟨rec, stored, same⟩ := Option.map_eq_some_iff.mp facts
  obtain ⟨state, attempt, length⟩ := by simpa using same
  have unfailed : ∀ cue ∈ failing, cue.Meets Call.Unfailed := by
    simp [failing, Cue.Meets, Call.Unfailed]
  obtain ⟨-, -, -, -, counted, -⟩ :=
    attempts_counted (run_of_play played) (meets_of_play played unfailed) stored
  exact ⟨trace, w, rec, played, stored, state, attempt ▸ counted, length⟩

end OjsNats.Lifecycle
