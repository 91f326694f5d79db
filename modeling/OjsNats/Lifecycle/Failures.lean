import OjsNats.Lifecycle.Course
import OjsNats.Lifecycle.Executions

/-!
# Failing again and again

The runs in which a job without a limit of its own only fails: the third
failure is the last.
-/

namespace OjsNats.Nats

open Core Effect

variable (lib : Externals)

/-- The error's own flag rules out a retry. -/
def Unretryable (jobErr : Option JobError) : Prop :=
  ∃ e, jobErr = some e ∧ e.retryable = some false

/-- The job's policy has no pattern that an error could match. -/
def Patternless (job : Job) : Prop :=
  ∀ policy, job.retry = some policy → policy.nonRetryableErrors = []

/-- Without patterns only the error's flag counts. -/
theorem isNonRetryable_patternless {job : Job} {jobErr : Option JobError}
    (patternless : Patternless job) (retryable : ¬ Unretryable jobErr) :
    isNonRetryable lib job jobErr = .pure false := by
  cases jobErr with
  | none => rfl
  | some e =>
    have spared : ¬ e.retryable = some false := fun flag => retryable ⟨e, rfl, flag⟩
    simp only [isNonRetryable, spared, if_false]
    cases policy : job.retry with
    | none => rfl
    | some policy' =>
      simp only [patternless policy' policy]
      rfl

end OjsNats.Nats

namespace OjsNats.Lifecycle

open Core Nats Effect Semantics Program Relation

variable {lib : Externals} {w t : World} {j : String} {rec : JobState}
  {jobErr : Option JobError}

/-- A job stays as it is while other jobs are spawned. -/
theorem Slot.Evolves.spawned {now : Int} {s s' : Slot}
    (h : s.Evolves lib now j (Spawns j) s') (found : s.record = some rec) : s' = s := by
  induction h with
  | refl => rfl
  | tail _ step ih =>
    obtain ⟨m, ⟨new, kind, -⟩, step⟩ := step
    subst ih
    rcases kind with rfl | rfl
    · cases step with
      | enqueue none => cases none.symm.trans found
      | requeue other => simp at other
    · cases step with
      | schedule none => cases none.symm.trans found
      | requeue other => simp at other

/-- A failing report of an active job whose policy has no patterns: the job is
retried below its limit, and discarded at it. -/
theorem wp_nack_patternless (sound : Sound w) (found : (w.slot j).record = some rec)
    (active : rec.state = .active) (patternless : Patternless (unmarshalJobState rec))
    (retryable : ¬ Unretryable jobErr) :
    serves.wp (nack lib j jobErr false) (fun _ t => ∃ rec', (t.slot j).record = some rec' ∧
      rec'.terms = rec.terms ∧ rec'.attempt = rec.attempt + 1 ∧
      rec'.state = if rec.attempt + 1 < maxAttemptsOf (unmarshalJobState rec) then .retryable
        else .discarded) w := by
  have judged : isNonRetryable lib
      (withError (jobErr.map (errorPayload rec.attempt)) (unmarshalJobState rec)) jobErr =
      .pure false := isNonRetryable_patternless lib patternless retryable
  simp only [nack, bind_eq, wp_bind, wp_getJobState, World.job_of_record found]
  simp only [unmarshalJobState_state, active, ne_eq, not_true_eq_false, ↓reduceIte, wp_bind,
    wp_timeNow, Bool.false_eq_true, nackFailure, bind_eq]
  rw [show (unmarshalJobState rec).attempt = rec.attempt from rfl, judged, wp_pure]
  refine iteInduction (motive := fun p => serves.wp p _ w) (fun spent => ?_) fun left => ?_
  · have spent : maxAttemptsOf (unmarshalJobState rec) ≤ rec.attempt + 1 := by
      rw [Bool.false_or] at spent
      exact of_decide_eq_true spent
    refine wp_nackDiscard sound found active jobErr fun s u step moved => ?_
    have known : (w.slot j).record ≠ none := by simp [found]
    have evolves : Evolves lib (fun _ _ => True) w u := moved.evolves trivial step known
    cases step with
    | requeue other => simp at other
    | discard found' _ next counts =>
      cases found.symm.trans found'
      refine (advanceWorkflow_advances _ _ _ u (evolves.sound sound)).mono ?_
      intro _ t spawned _
      have stays := (spawned.slots j).spawned (by rw [moved.slot])
      refine ⟨_, by rw [stays, moved.slot], next.terms, counts.attempt, ?_⟩
      rw [next.state, if_neg (by omega)]
  · have left : rec.attempt + 1 < maxAttemptsOf (unmarshalJobState rec) := by
      rw [Bool.false_or] at left
      exact Int.lt_of_not_ge fun spent => left (decide_eq_true spent)
    refine wp_nackRetry sound found active jobErr left fun s u reply step moved => ?_
    cases step with
    | requeue other => simp at other
    | retryLater found' _ next _ counts =>
      cases found.symm.trans found'
      refine ⟨_, by rw [moved.slot], next.terms, counts.attempt, ?_⟩
      rw [next.state, if_pos left]

/-! ## The failures of a job in a run -/

/-- The event is a failing report of the job that was accepted. -/
def Event.fails (j : String) : Event → Bool
  | .call (.nack k _ false) (.nacked (.ok _)) => k = j
  | _ => false

/-- The number of failing reports of the job that were accepted. -/
def failures (j : String) (trace : List Passage) : Nat := trace.countP fun p => p.event.fails j

/-- An attempt of the job ends only by a failing report, with an error that can be retried. -/
def OnlyFails (j : String) (p : Passage) : Prop :=
  (p.before.slot j).state = some .active → (p.after.slot j).state ≠ some .active →
    ∃ jobErr reply, p.event = .call (.nack j jobErr false) (.nacked (.ok reply)) ∧
      ¬ Unretryable jobErr

/-- The job is retryable after each of its first `n - 1` failures and discarded at the `n`-th. -/
def HonoursLimit (n : Int) (j : String) (trace : List Passage) : Prop :=
  ∀ done p rest, trace = done ++ p :: rest → p.event.fails j = true →
    ((failures j (done ++ [p]) : Int) < n → (p.after.slot j).state = some .retryable) ∧
    ((failures j (done ++ [p]) : Int) = n → (p.after.slot j).state = some .discarded)

/-- The job has no limit of its own, no patterns and no expiry, and its attempts are not spent. -/
structure Slot.Unspent (attempts : Nat) (s : Slot) : Prop where
  known : ∃ rec, s.record = some rec
  unlimited : ∀ rec, s.record = some rec → rec.maxAttempts = none
  patternless : ∀ rec, s.record = some rec → Patternless (unmarshalJobState rec)
  lasting : ∀ rec, s.record = some rec → rec.expiresAt = ""
  attempt : ∀ rec, s.record = some rec → rec.attempt = attempts
  pending : s.state ≠ some .discarded

namespace Slot

variable {now : Int} {m : Move} {s s' : Slot} {attempts : Nat}

theorem Unspent.of_record {rec' : JobState} {count : Nat} (unspent : s.Unspent attempts)
    (found : s.record = some rec) (found' : s'.record = some rec') (same : rec'.terms = rec.terms)
    (attempt : rec'.attempt = count) (pending : rec'.state ≠ .discarded) :
    s'.Unspent count where
  known := ⟨rec', found'⟩
  unlimited := forall_record found' (by
    have kept : rec'.terms.maxAttempts = rec.terms.maxAttempts := by rw [same]
    exact kept.trans (unspent.unlimited rec found))
  patternless := forall_record found' (by
    have kept : rec'.terms.retry = rec.terms.retry := by rw [same]
    exact fun policy here => unspent.patternless rec found policy (kept.symm.trans here))
  lasting := forall_record found' (by
    have kept : rec'.terms.expiresAt = rec.terms.expiresAt := by rw [same]
    exact kept.trans (unspent.lasting rec found))
  attempt := forall_record found' attempt
  pending := by
    rw [Slot.state, found']
    exact fun discarded => pending (Option.some.inj discarded)

/-- A move that is no failure leaves the attempts as they are. -/
theorem Step.unspent (step : Step lib now j m s s') (placed : s.Placed j)
    (quiet : m ≠ .discard ∧ m ≠ .retryLater) (unspent : s.Unspent attempts) :
    s'.Unspent attempts := by
  have next {st : State} {rec rec' : JobState} (found : s.record = some rec)
      (found' : s'.record = some rec') (becomes : Becomes st rec rec')
      (attempt : rec'.attempt = rec.attempt) (pending : st ≠ .discarded) :
      s'.Unspent attempts :=
    unspent.of_record found found' becomes.terms (attempt.trans (unspent.attempt rec found))
      (becomes.state ▸ pending)
  obtain ⟨rec, found⟩ := unspent.known
  cases step with
  | enqueue none | schedule none => cases none.symm.trans found
  | claim some _ _ _ becomes _ same => exact next some rfl becomes same.attempt (by simp)
  | expire some one expired becomes same =>
    have lasting := unspent.lasting _ some
    simp [isExpired, lasting] at expired
  | complete some _ becomes same => exact next some rfl becomes same.attempt (by simp)
  | discard | retryLater => simp at quiet
  | requeue _ some _ becomes same => exact next some rfl becomes.toBecomes same.attempt (by simp)
  | cancel some _ becomes same => exact next some rfl becomes same.attempt (by simp)
  | promoteScheduled some _ becomes same | promoteRetry some _ becomes same =>
    exact next some rfl becomes.toBecomes same.attempt (by simp)
  | revive some entry => exact absurd (placed.dead_discarded (by simp [entry])) unspent.pending
  | skip some | extend some | forget =>
    exact ⟨unspent.known, unspent.unlimited, unspent.patternless, unspent.lasting,
      unspent.attempt, unspent.pending⟩

theorem Evolves.unspent {allowed : Move → Prop} (h : s.Evolves lib now j allowed s')
    (placed : s.Placed j) (quiet : ∀ m, allowed m → m ≠ .discard ∧ m ≠ .retryLater)
    (unspent : s.Unspent attempts) : s'.Unspent attempts := by
  induction h with
  | refl => exact unspent
  | tail before step ih =>
    obtain ⟨m, ok, step⟩ := step
    exact step.unspent (Evolves.placed before placed) (quiet m ok) ih

end Slot

/-- Only a failing report of the job counts an attempt. -/
theorem moves_unfailing {call : Call} {m : Move} (ok : moves lib call j m)
    (spared : ∀ jobErr, call ≠ .nack j jobErr false) : m ≠ .discard ∧ m ≠ .retryLater := by
  by_cases revives : ∃ k, call = .retryDeadLetter k
  · obtain ⟨k, rfl⟩ := revives
    obtain ⟨-, rfl⟩ := ok
    simp
  by_cases fails : ∃ k jobErr requeue, call = .nack k jobErr requeue
  · obtain ⟨k, jobErr, requeue, rfl⟩ := fails
    rcases ok with ⟨rfl, ⟨rfl, -⟩ | ⟨-, rfl⟩⟩ | ⟨rec, rfl | rfl, -⟩
    · simp
    · exact absurd rfl (spared jobErr)
    · simp
    · simp
  · have quiet := moves_quiet ok (fun k jobErr requeue same => fails ⟨k, jobErr, requeue, same⟩)
      fun k same => revives ⟨k, same⟩
    exact ⟨quiet.1, quiet.2.1⟩

/-- After a report the job is not active, whether the report was accepted or not. -/
theorem wp_nack_ends (sound : Sound w) (jobErr : Option JobError) (requeue : Bool) :
    serves.wp (nack lib j jobErr requeue) (fun _ t => (t.slot j).state ≠ some .active) w := by
  refine wp_nack sound (fun inactive _ => inactive) (fun _ s u reply step moved => ?_)
    (fun _ s u reply step moved => ?_) fun _ s u step moved => ?_
  · rw [moved.slot]
    cases step with
    | requeue _ _ _ next => simp [Slot.state, next.state]
  · rw [moved.slot]
    cases step with
    | retryLater _ _ next => simp [Slot.state, next.state]
    | requeue other => simp at other
  · cases step with
    | requeue other => simp at other
    | discard found _ next counts =>
      have evolves : Evolves lib (fun _ _ => True) w u :=
        moved.evolves trivial (.discard found ‹_› next counts) (by simp [found])
      refine (advanceWorkflow_advances _ _ _ u (evolves.sound sound)).mono fun _ t spawned _ => ?_
      rw [(spawned.slots j).spawned (by rw [moved.slot]), moved.slot]
      simp [Slot.state, next.state]

/-- A report moves active jobs only. -/
theorem Slot.Step.reported {now : Int} {m : Move} {s s' : Slot} (step : Slot.Step lib now j m s s')
    (kind : m = .requeue ∨ m = .retryLater ∨ m = .discard) : s.state = some .active := by
  cases step with
  | requeue _ found active | retryLater found active | discard found active =>
    rw [Slot.state, found, Option.map_some, active]
  | enqueue | schedule | claim | expire | skip | extend | complete | cancel | promoteScheduled
  | promoteRetry | revive | forget => simp at kind

/-- A report on a job that is not active changes nothing. -/
theorem wp_nack_refused (sound : Sound w) (inactive : (w.slot j).state ≠ some .active)
    (jobErr : Option JobError) (requeue : Bool) :
    serves.wp (nack lib j jobErr requeue) (fun r t => (∃ e, r = .error e) ∧ t = w) w :=
  wp_nack sound (fun _ e => ⟨⟨e, rfl⟩, rfl⟩)
    (fun _ _ _ _ step _ => absurd (step.reported (.inl rfl)) inactive)
    (fun _ _ _ _ step _ => absurd (step.reported (.inr (.inl rfl))) inactive)
    fun _ _ _ step _ => absurd (step.reported (.inr (.inr rfl))) inactive

variable {event : Event} {attempts : Nat}

/-- What the next failure makes of a job. -/
structure Fails (attempts : Nat) (s : Slot) : Prop where
  state : s.state = some (if attempts + 1 < 3 then .retryable else .discarded)
  unspent : attempts + 1 < 3 → s.Unspent (attempts + 1)

/-- A step is a failure of the job, or leaves its attempts as they are. -/
theorem Step.unspent (step : Step lib w event t) (sound : Sound w)
    (only : OnlyFails j ⟨w, event, t⟩) (unspent : (w.slot j).Unspent attempts) :
    if event.fails j then Fails attempts (t.slot j) else (t.slot j).Unspent attempts := by
  by_cases reported : ∃ jobErr reply, event = .call (.nack j jobErr false) reply
  · obtain ⟨jobErr, reply, rfl⟩ := reported
    cases step with
    | call fresh run =>
      obtain ⟨r, rfl, ends⟩ := exec_reply run
      have sound' := sound.accept (.nack j jobErr false)
      by_cases active : (w.slot j).state = some .active
      · obtain ⟨jobErr', reply, same, retryable⟩ := only active (wp_nack_ends sound' _ _ r t ends)
        cases same
        obtain ⟨rec, found, state⟩ := state_record active
        have limit : maxAttemptsOf (unmarshalJobState rec) = 3 := by
          have unset : (unmarshalJobState rec).maxAttempts = none := unspent.unlimited rec found
          rw [maxAttemptsOf, unset]
          rfl
        obtain ⟨rec', found', terms, attempt, state'⟩ := wp_nack_patternless sound' found state
          (unspent.patternless rec found) retryable _ t ends
        have counted := unspent.attempt rec found
        rw [limit, counted] at state'
        rw [counted] at attempt
        have here : (t.slot j).state =
            some (if attempts + 1 < 3 then .retryable else .discarded) := by
          rw [Slot.state, found', Option.map_some, state']
          norm_cast
        simp only [Event.fails, decide_true, if_true]
        refine ⟨here, fun left => unspent.of_record found found' terms ?_ ?_⟩
        · push_cast
          exact attempt
        · rw [state', if_pos (by omega)]
          simp
      · obtain ⟨⟨e, rfl⟩, rfl⟩ := wp_nack_refused sound' active jobErr false r t ends
        simp only [Event.fails, Bool.false_eq_true, if_false]
        exact unspent
  · have silent : event.fails j = false := by
      unfold Event.fails
      split
      · rename_i k jobErr reply
        refine decide_eq_false fun same => reported ⟨jobErr, .nacked (.ok reply), ?_⟩
        rw [same]
      · rfl
    rw [silent, if_neg (by simp)]
    refine (step.evolves sound j).unspent (sound.placed j) (fun m ok => ?_) unspent
    cases event with
    | tick => exact ok.elim
    | call call reply =>
      exact moves_unfailing ok fun jobErr same => reported ⟨jobErr, reply, by rw [same]⟩

/-! ## The limit of a run -/

theorem Run.split {done rest : List Passage} {p : Passage}
    (run : Run lib w (done ++ p :: rest) t) :
    Run lib w done p.before ∧ Step lib p.before p.event p.after := by
  induction done generalizing w with
  | nil =>
    cases run with
    | cons step _ => exact ⟨.nil, step⟩
  | cons q done ih =>
    cases run with
    | cons step later => exact ⟨.cons step (ih later).1, (ih later).2⟩

theorem failures_snoc (j : String) (done : List Passage) (p : Passage) :
    failures j (done ++ [p]) = failures j done + if p.event.fails j then 1 else 0 := by
  rw [failures, List.countP_append, List.countP_singleton, ← failures]

theorem failures_append (j : String) (done rest : List Passage) :
    failures j (done ++ rest) = failures j done + failures j rest := List.countP_append

/-- Each failure up to the last is the failure of some step. -/
theorem exists_failure {trace : List Passage} {n : Nat} (positive : 1 ≤ n)
    (enough : n ≤ failures j trace) : ∃ done p rest, trace = done ++ p :: rest ∧
      p.event.fails j = true ∧ failures j (done ++ [p]) = n := by
  induction trace generalizing n with
  | nil =>
    simp only [failures, List.countP_nil] at enough
    omega
  | cons q trace ih =>
    rw [failures, List.countP_cons, ← failures] at enough
    have cons (done : List Passage) :
        failures j (q :: done) = failures j done + if q.event.fails j then 1 else 0 :=
      List.countP_cons
    by_cases fails : q.event.fails j = true
    · by_cases first : n = 1
      · exact ⟨[], q, trace, rfl, fails, by rw [List.nil_append, cons, if_pos fails, first]; rfl⟩
      · rw [if_pos fails] at enough
        obtain ⟨done, p, rest, rfl, fails', count⟩ := ih (n := n - 1) (by omega) (by omega)
        refine ⟨q :: done, p, rest, rfl, fails', ?_⟩
        rw [List.cons_append, cons, count, if_pos fails]
        omega
    · rw [if_neg fails] at enough
      obtain ⟨done, p, rest, rfl, fails', count⟩ := ih positive enough
      refine ⟨q :: done, p, rest, rfl, fails', ?_⟩
      rw [List.cons_append, cons, count, if_neg fails]
      rfl

variable {trace : List Passage} {n : Int}

theorem Run.unspent (run : Run lib w trace t) (sound : Sound w)
    (only : ∀ p ∈ trace, OnlyFails j p) (unspent : (w.slot j).Unspent 0)
    (left : failures j trace < 3) : (t.slot j).Unspent (failures j trace) := by
  refine run.holds (I := fun done v => failures j done < 3 →
    (v.slot j).Unspent (failures j done)) sound (fun _ => unspent) ?_ left
  intro done p mem sound step before left
  rw [failures_snoc] at left ⊢
  have next := step.unspent sound (only p mem) (before (by omega))
  by_cases fails : p.event.fails j = true
  · rw [if_pos fails] at next left ⊢
    exact next.unspent left
  · rw [if_neg fails] at next ⊢
    exact next

/-- The first two failures leave the job retryable, and the third discards it. -/
theorem Run.failed {done rest : List Passage} {p : Passage}
    (run : Run lib w (done ++ p :: rest) t) (sound : Sound w)
    (only : ∀ q ∈ done ++ p :: rest, OnlyFails j q) (unspent : (w.slot j).Unspent 0)
    (fails : p.event.fails j = true) (early : failures j (done ++ [p]) ≤ 3) :
    (p.after.slot j).state =
      some (if failures j (done ++ [p]) < 3 then .retryable else .discarded) := by
  obtain ⟨before, step⟩ := run.split
  rw [failures_snoc, if_pos fails] at early ⊢
  have unspent' := before.unspent sound (fun q mem => only q (by simp [mem])) unspent (by omega)
  have next := step.unspent (before.sound sound) (only p (by simp)) unspent'
  rw [if_pos fails] at next
  exact next.state

/-- A limit is honoured exactly if it is three or the run does not get to see the difference. -/
theorem Run.honoursLimit_iff (run : Run lib w trace t) (sound : Sound w)
    (only : ∀ p ∈ trace, OnlyFails j p) (unspent : (w.slot j).Unspent 0) (positive : 1 ≤ n) :
    HonoursLimit n j trace ↔ n = 3 ∨ (failures j trace : Int) < min n 3 := by
  constructor
  · intro honours
    by_contra other
    obtain ⟨differs, reached⟩ := not_or.mp other
    obtain ⟨done, p, rest, rfl, fails, count⟩ := exists_failure (j := j) (n := (min n 3).toNat)
      (by omega) (show (min n 3).toNat ≤ failures j trace by omega)
    have failed := run.failed sound only unspent fails (by omega)
    have promised := honours done p rest rfl fails
    rw [failed] at promised
    rcases Int.lt_or_lt_of_ne differs with less | more
    · have last := promised.2 (by omega)
      rw [if_pos (by omega)] at last
      cases last
    · have kept := promised.1 (by omega)
      rw [if_neg (by omega)] at kept
      cases kept
  · intro fits done p rest whole fails
    subst whole
    have count : failures j (done ++ [p]) ≤ failures j (done ++ p :: rest) := by
      have whole : done ++ p :: rest = (done ++ [p]) ++ rest := by simp
      rw [whole, failures_append j (done ++ [p])]
      exact Nat.le_add_right _ _
    have failed := run.failed sound only unspent fails
    constructor
    · intro below
      rw [failed (by omega), if_pos (by omega)]
    · intro last
      rw [failed (by omega), if_neg (by omega)]

end OjsNats.Lifecycle
