import OjsNats.Lifecycle.Attempts

/-!
# Executions of a job

A fetch starts an execution.  Failures are counted and bound the executions;
a lease that runs out puts the job back without counting anything, so each
recovery by the reaper allows one execution more.
-/

namespace OjsNats.Lifecycle

open Core Nats Effect Semantics Relation

variable {lib : Externals} {w w' : World}

/-- How often the event hands out the job. -/
def Event.executions (j : String) : Event → Nat
  | .call (.fetch _ _ _ _) (.jobs jobs) => (idsOf jobs).count j
  | _ => 0

/-- How often a job was fetched in a run. -/
def executions (j : String) (trace : List Passage) : Nat :=
  (trace.map fun p => p.event.executions j).sum

/-- Whether the event is a pass of the reaper that finds the job's lease run out. -/
def Event.recoveries (lib : Externals) (j : String) (w : World) : Event → Nat
  | .call .requeueStalled _ => if Stalled lib w.clock (w.value .active j) then 1 else 0
  | _ => 0

/-- How often the reaper put a job back in a run. -/
def recoveries (lib : Externals) (j : String) (trace : List Passage) : Nat :=
  (trace.map fun p => p.event.recoveries lib j p.before).sum

/-- A worker puts the job back, or its dead letter is retried. -/
def PutsBack (j : String) : Call → Prop
  | .nack k _ true => k = j
  | .retryDeadLetter k => k = j
  | _ => False

theorem executions_snoc (j : String) (trace : List Passage) (p : Passage) :
    executions j (trace ++ [p]) = executions j trace + p.event.executions j := by
  simp [executions]

theorem recoveries_snoc (j : String) (trace : List Passage) (p : Passage) :
    recoveries lib j (trace ++ [p]) =
      recoveries lib j trace + p.event.recoveries lib j p.before := by
  simp [recoveries]

namespace Slot

/-- After so many executions that were not recovered: each of them has failed,
is going on, or was the last. -/
structure Paced (lib : Externals) (executions : Int) (s : Slot) : Prop where
  unknown : s.record = none → executions ≤ 0
  waiting : ∀ rec, s.record = some rec → lib.isTerminalState rec.state = false →
    rec.state ≠ .active → executions ≤ rec.attempt
  active : ∀ rec, s.record = some rec → rec.state = .active → executions ≤ rec.attempt + 1
  ended : ∀ rec, s.record = some rec → lib.isTerminalState rec.state = true →
    executions ≤ attemptLimit rec

variable {now : Int} {j : String} {m : Move} {s t : Slot} {n : Int}

theorem Paced.le_limit {rec : JobState} (paced : s.Paced lib n) (within : s.Within lib)
    (stored : s.record = some rec) : n ≤ attemptLimit rec := by
  cases terminal : lib.isTerminalState rec.state with
  | true => exact paced.ended rec stored terminal
  | false =>
    have pending := (within rec stored).pending terminal
    by_cases active : rec.state = .active
    · have := paced.active rec stored active
      omega
    · have := paced.waiting rec stored terminal active
      omega

/-- A job that waits. -/
theorem Paced.of_waiting {rec : JobState} (stored : s.record = some rec)
    (live : lib.isTerminalState rec.state = false) (le : n ≤ rec.attempt) : s.Paced lib n where
  unknown := by simp [stored]
  waiting := forall_record stored fun _ _ => le
  active := forall_record stored fun _ => by omega
  ended := forall_record stored fun terminal => by simp [live] at terminal

theorem Paced.of_active {rec : JobState} (stored : s.record = some rec)
    (active : rec.state = .active) (le : n ≤ rec.attempt + 1) : s.Paced lib n where
  unknown := by simp [stored]
  waiting := forall_record stored fun _ other => absurd active other
  active := forall_record stored fun _ => le
  ended := forall_record stored fun terminal => by
    simp [active, isTerminalState_of_not] at terminal

/-- A job that has ended. -/
theorem Paced.of_ended {rec : JobState} (stored : s.record = some rec)
    (terminal : lib.isTerminalState rec.state = true) (le : n ≤ attemptLimit rec) :
    s.Paced lib n where
  unknown := by simp [stored]
  waiting := forall_record stored fun live => by simp [terminal] at live
  active := forall_record stored fun active => by
    simp [active, isTerminalState_of_not] at terminal
  ended := forall_record stored fun _ => le

theorem Paced.mono {less : Int} (paced : s.Paced lib n) (le : less ≤ n) : s.Paced lib less where
  unknown := fun h => Int.le_trans le (paced.unknown h)
  waiting := fun rec h live other => Int.le_trans le (paced.waiting rec h live other)
  active := fun rec h active => Int.le_trans le (paced.active rec h active)
  ended := fun rec h terminal => Int.le_trans le (paced.ended rec h terminal)

/-- Moves that start no execution and put nothing back keep the pace. -/
theorem Step.paced (step : Step lib now j m s t) (placed : s.Placed j) (within : s.Within lib)
    (kept : m ≠ .claim ∧ m ≠ .requeue ∧ m ≠ .stall ∧ m ≠ .revive) (paced : s.Paced lib n) :
    t.Paced lib n := by
  cases step with
  | enqueue none id state enqueuedAt untried =>
    exact .of_waiting rfl (isTerminalState_of_not (by simp [state]))
      (untried ▸ paced.unknown none)
  | schedule none id state due untried =>
    exact .of_waiting rfl (isTerminalState_of_not (by simp [state]))
      (untried ▸ paced.unknown none)
  | claim => simp at kept
  | expire some one expired next same =>
    refine .of_ended rfl (isTerminalState_of (by simp [next.state])) ?_
    rw [next.attemptLimit]
    exact paced.le_limit within some
  | complete some state next =>
    refine .of_ended rfl (isTerminalState_of (by simp [next.state])) ?_
    rw [next.attemptLimit]
    exact paced.le_limit within some
  | discard some state next =>
    refine .of_ended rfl (isTerminalState_of (by simp [next.state])) ?_
    rw [next.attemptLimit]
    exact paced.le_limit within some
  | cancel some live next =>
    refine .of_ended rfl (isTerminalState_of (by simp [next.state])) ?_
    rw [next.attemptLimit]
    exact paced.le_limit within some
  | retryLater some state next due counts =>
    refine .of_waiting rfl (isTerminalState_of_not (by simp [next.state])) ?_
    rw [counts.attempt]
    exact paced.active _ some state
  | requeue kind => rcases kind with rfl | rfl <;> simp at kept
  | promoteScheduled some entry next same =>
    have state := placed.state_of_scheduled some entry
    refine .of_waiting rfl (isTerminalState_of_not (by simp [next.state])) ?_
    rw [same.attempt]
    exact paced.waiting _ some (isTerminalState_of_not (by simp [state])) (by simp [state])
  | promoteRetry some entry next same =>
    have state := placed.state_of_retry some entry
    refine .of_waiting rfl (isTerminalState_of_not (by simp [next.state])) ?_
    rw [same.attempt]
    exact paced.waiting _ some (isTerminalState_of_not (by simp [state])) (by simp [state])
  | revive => simp at kept
  | skip | extend | forget => exact ⟨paced.unknown, paced.waiting, paced.active, paced.ended⟩

theorem Evolves.paced {allowed : Move → Prop} (h : s.Evolves lib now j allowed t)
    (placed : s.Placed j) (within : s.Within lib)
    (kept : ∀ m, allowed m → m ≠ .claim ∧ m ≠ .requeue ∧ m ≠ .stall ∧ m ≠ .revive)
    (paced : s.Paced lib n) : t.Paced lib n := by
  induction h with
  | refl => exact paced
  | tail before step ih =>
    obtain ⟨m, ok, step⟩ := step
    exact step.paced (Evolves.placed before placed) (Evolves.within before placed within)
      (kept m ok) ih

end Slot

/-! ## Steps -/

theorem state_record {s : Slot} {st : State} (h : s.state = some st) :
    ∃ rec, s.record = some rec ∧ rec.state = st := by
  simpa [Slot.state] using h

/-- A fetch hands out each job at most once, and only jobs that waited. -/
theorem Fetched.paced {jobs : List Job} (fetched : Fetched lib jobs w w') (sound : Sound w)
    {j : String} {n : Int} (within : (w.slot j).Within lib) (paced : (w.slot j).Paced lib n) :
    (w'.slot j).Paced lib (n + (idsOf jobs).count j) := by
  have evolves := fetched.evolves.slots j
  by_cases handed : j ∈ idsOf jobs
  · rw [List.count_eq_one_of_mem fetched.nodup handed]
    obtain ⟨available, active⟩ := fetched.claimed j handed
    obtain ⟨rec, stored, state⟩ := state_record available
    obtain ⟨rec', stored', state'⟩ := state_record active
    have attempt : rec'.attempt = rec.attempt := by
      rw [← Slot.attempt_of_record stored, ← Slot.attempt_of_record stored']
      refine evolves.attempt_kept fun m ok => ?_
      rcases ok with ⟨rfl, -⟩ | rfl | rfl <;> simp
    have waited := paced.waiting rec stored (isTerminalState_of_not (by simp [state]))
      (by simp [state])
    exact .of_active stored' state' (by rw [attempt]; omega)
  · rw [List.count_eq_zero_of_not_mem handed]
    have kept := evolves.paced (sound.placed j) within (fun m ok => ?_) paced
    · simpa using kept
    · rcases ok with ⟨-, mem⟩ | rfl | rfl
      · exact absurd mem handed
      · simp
      · simp

/-- A pass of the reaper puts back the jobs whose leases have run out. -/
theorem stalled_paced (passed : Passed lib .stall (fun s => Stalled lib w.clock s.active) w w')
    {j : String} {n : Int} (paced : (w.slot j).Paced lib n) :
    (w'.slot j).Paced lib (n - if Stalled lib w.clock (w.value .active j) then 1 else 0) := by
  by_cases out : Stalled lib w.clock (w.value .active j)
  · rw [if_pos out]
    have step := passed.moved j out
    generalize w'.slot j = t at step
    cases step with
    | requeue kind some state next same =>
      refine .of_waiting rfl (isTerminalState_of_not (by simp [next.state])) ?_
      have := paced.active _ some state
      rw [same.attempt]
      omega
  · rw [if_neg out, Int.sub_zero, passed.kept j out]
    exact paced

theorem moves_paced {call : Call} {j : String} {m : Move} (ok : moves lib call j m)
    (spared : ¬ PutsBack j call) (fetch : ∀ queues count workerID timeout,
      call ≠ .fetch queues count workerID timeout) (stalls : call ≠ .requeueStalled) :
    m ≠ .claim ∧ m ≠ .requeue ∧ m ≠ .stall ∧ m ≠ .revive := by
  have brought {new : String → JobState → Prop} (h : Brings new j m) :
      m ≠ .claim ∧ m ≠ .requeue ∧ m ≠ .stall ∧ m ≠ .revive := by
    obtain ⟨rec, rfl | rfl, -⟩ := h <;> simp
  have spawned (h : Spawns j m) : m ≠ .claim ∧ m ≠ .requeue ∧ m ≠ .stall ∧ m ≠ .revive :=
    brought (show Brings (fun _ rec => Spawned rec) j m from h)
  cases call with
  | push job =>
    rcases ok with brings | rfl
    · exact brought brings
    · simp
  | pushBatch jobs => exact brought ok
  | fireCronJobs => exact spawned (SpawnsLoose.spawns j m ok)
  | createWorkflow | advanceWorkflow => exact spawned ok
  | fetch queues count workerID timeout => exact absurd rfl (fetch _ _ _ _)
  | ack k result =>
    rcases ok with ⟨-, rfl⟩ | brings
    · simp
    · exact spawned brings
  | nack k jobErr requeue =>
    rcases ok with ⟨rfl, ⟨-, rfl⟩ | ⟨rfl | rfl, -⟩⟩ | brings
    · exact absurd rfl spared
    · simp
    · simp
    · exact spawned brings
  | retryDeadLetter k =>
    obtain ⟨rfl, -⟩ := ok
    exact absurd rfl spared
  | requeueStalled => exact absurd rfl stalls
  | cancel | heartbeat | deleteDeadLetter =>
    obtain ⟨-, rfl⟩ := ok
    simp
  | promoteScheduled | promoteRetries | cancelWorkflow =>
    cases ok
    simp
  | registerCron | deleteCron | pauseQueue | resumeQueue | setWorkerState => exact ok.elim

theorem Step.paced {event : Event} (step : Step lib w event w') (sound : Sound w) {j : String}
    (spared : event.Meets fun call => ¬ PutsBack j call) {n : Int}
    (within : (w.slot j).Within lib) (paced : (w.slot j).Paced lib n) :
    (w'.slot j).Paced lib (n + event.executions j - event.recoveries lib j w) := by
  have evolves := step.evolves sound j
  cases step with
  | tick => simpa [Event.executions, Event.recoveries] using paced
  | call fresh run =>
    rename_i call reply
    have sound' := sound.accept call
    by_cases fetches : ∃ queues count workerID timeout, call = .fetch queues count workerID timeout
    · obtain ⟨queues, count, workerID, timeout, rfl⟩ := fetches
      obtain ⟨jobs, rfl, ends⟩ := exec_reply run
      have fetched := @fetch_fetched lib _ queues count workerID timeout sound' jobs w' ends
      simpa [Event.executions, Event.recoveries] using fetched.paced sound' within paced
    · by_cases stalls : call = .requeueStalled
      · subst stalls
        obtain ⟨r, rfl, ends⟩ := exec_reply run
        have passed := @requeueStalled_passed lib _ sound' r w' ends
        have kept := stalled_paced passed (j := j) paced
        by_cases out : Stalled lib w.clock (w.value .active j)
        · have out' : Stalled lib (w.accept .requeueStalled).clock
              ((w.accept .requeueStalled).value .active j) := out
          simpa [Event.executions, Event.recoveries, out, out'] using kept
        · have out' : ¬ Stalled lib (w.accept .requeueStalled).clock
              ((w.accept .requeueStalled).value .active j) := out
          simpa [Event.executions, Event.recoveries, out, out'] using kept
      · have kept := evolves.paced (sound.placed j) within (fun m ok => moves_paced ok spared
          (fun queues count workerID timeout same => fetches ⟨_, _, _, _, same⟩) stalls) paced
        have handed : (Event.call call reply).executions j = 0 := by
          unfold Event.executions
          split
          · rename_i same
            cases same
            exact absurd ⟨_, _, _, _, rfl⟩ fetches
          · rfl
        have found : (Event.call call reply).recoveries lib j w = 0 := by
          unfold Event.recoveries
          split
          · rename_i same
            cases same
            exact absurd rfl stalls
          · rfl
        simpa [handed, found] using kept

/-! ## Runs -/

/-- Executions are bounded by the limit and the recoveries by the reaper. -/
theorem executions_le_limit_add_recoveries {clock : Int} {trace : List Passage} {j : String}
    (run : Run lib (World.start clock) trace w)
    (spared : ∀ p ∈ trace, p.event.Meets fun call => ¬ PutsBack j call) {rec : JobState}
    (stored : w.value .jobs j = some rec) :
    (executions j trace : Int) ≤ attemptLimit rec + recoveries lib j trace := by
  have unknown : ((World.start clock).slot j).record = none := rfl
  have paced : (w.slot j).Within lib ∧
      (w.slot j).Paced lib (executions j trace - recoveries lib j trace) := by
    refine run.holds (I := fun done v => (v.slot j).Within lib ∧
      (v.slot j).Paced lib (executions j done - recoveries lib j done)) (.start clock) ?_ ?_
    · exact ⟨fun _ h => by simp [unknown] at h, fun _ => by simp [executions, recoveries],
        fun _ h => by simp [unknown] at h, fun _ h => by simp [unknown] at h,
        fun _ h => by simp [unknown] at h⟩
    · rintro done p mem sound step ⟨within, before⟩
      refine ⟨step.within sound within, ?_⟩
      have next := step.paced sound (spared p mem) within before
      rw [executions_snoc, recoveries_snoc]
      push_cast
      exact next.mono (by omega)
  have bound := paced.2.le_limit paced.1 stored
  omega

/-- A job that the reaper never finds with its lease run out is fetched at most as
often as its limit says, if nobody puts it back. -/
theorem executions_le_limit {clock : Int} {trace : List Passage} {j : String}
    (run : Run lib (World.start clock) trace w)
    (spared : ∀ p ∈ trace, p.event.Meets fun call => ¬ PutsBack j call)
    (kept : ∀ p ∈ trace, ∀ reply, p.event = .call .requeueStalled reply →
      ¬ Stalled lib p.before.clock (p.before.value .active j))
    {rec : JobState} (stored : w.value .jobs j = some rec) :
    (executions j trace : Int) ≤ max 1 (maxAttemptsOf (unmarshalJobState rec)) := by
  have none : recoveries lib j trace = 0 := by
    refine List.sum_eq_zero_iff_forall_eq_nat.mpr fun n mem => ?_
    obtain ⟨p, passed, rfl⟩ := List.mem_map.mp mem
    unfold Event.recoveries
    split
    · rename_i event
      rw [if_neg (kept p passed _ event)]
    · rfl
  have bound := executions_le_limit_add_recoveries run spared stored
  rw [none] at bound
  simpa [attemptLimit] using bound

/-! ## A job that stalls -/

def once : Job :=
  { id := "job-1", type := "mail", queue := "mails", maxAttempts := some 1 }

/-- The only attempt stalls, and the job is fetched again. -/
def stalling : List Cue :=
  [.call (.push once), .call (.fetch ["mails"] 1 "worker-1" 0), .wait 31,
    .call .requeueStalled, .call (.fetch ["mails"] 1 "worker-2" 0)]

/-- The only attempt ends in time. -/
def finishing : List Cue :=
  [.call (.push once), .call (.fetch ["mails"] 1 "worker-1" 0), .wait 1,
    .call .requeueStalled, .call (.ack "job-1" none)]

/-- What a played run says about a job. -/
def summary (j : String) (r : List Passage × World) : Option (State × Int × Nat) :=
  (r.2.value .jobs j).map fun rec =>
    (rec.state, maxAttemptsOf (unmarshalJobState rec), executions j r.1)

theorem executions_le_limit_finishing : ∃ trace w,
    play (World.start (Sample.instant 0)) finishing = some (trace, w) ∧
    executions "job-1" trace = 1 ∧ (executions "job-1" trace : Int) ≤ max 1 1 := by
  have plays : (play (World.start (Sample.instant 0)) finishing).isSome := by decide
  obtain ⟨⟨trace, w⟩, played⟩ := Option.isSome_iff_exists.mp plays
  have facts : (play (World.start (Sample.instant 0)) finishing).bind (summary "job-1") =
      some (.completed, 1, 1) := by decide
  have live : (play (World.start (Sample.instant 0)) finishing).map (fun r => r.1.all fun p =>
      decide (¬ Stalled sample p.before.clock (p.before.value .active "job-1"))) = some true := by
    decide
  rw [played, Option.bind_some] at facts
  rw [played, Option.map_some, Option.some.injEq, List.all_eq_true] at live
  obtain ⟨rec, stored, same⟩ := Option.map_eq_some_iff.mp facts
  obtain ⟨-, limit, fetched⟩ := by simpa using same
  have spared : ∀ cue ∈ finishing, cue.Meets fun call => ¬ PutsBack "job-1" call := by
    simp [finishing, Cue.Meets, PutsBack]
  have bound := executions_le_limit (run_of_play played) (meets_of_play played spared)
    (fun p mem _ _ => of_decide_eq_true (live p mem)) stored
  rw [limit] at bound
  exact ⟨trace, w, played, fetched, bound⟩

/-- The limit does not bound the executions of every run. -/
theorem not_executions_le_limit : ¬ ∀ (lib : Externals) (clock : Int) (trace : List Passage)
    (w : World) (j : String) (rec : JobState), Run lib (World.start clock) trace w →
    (∀ p ∈ trace, p.event.Meets fun call => ¬ PutsBack j call) → w.value .jobs j = some rec →
    (executions j trace : Int) ≤ max 1 (maxAttemptsOf (unmarshalJobState rec)) := by
  intro bounded
  have plays : (play (World.start (Sample.instant 0)) stalling).isSome := by decide
  obtain ⟨⟨trace, w⟩, played⟩ := Option.isSome_iff_exists.mp plays
  have facts : (play (World.start (Sample.instant 0)) stalling).bind (summary "job-1") =
      some (.active, 1, 2) := by decide
  rw [played, Option.bind_some] at facts
  obtain ⟨rec, stored, same⟩ := Option.map_eq_some_iff.mp facts
  obtain ⟨-, limit, fetched⟩ := by simpa using same
  have spared : ∀ cue ∈ stalling, cue.Meets fun call => ¬ PutsBack "job-1" call := by
    simp [stalling, Cue.Meets, PutsBack]
  have bound := bounded sample _ trace w "job-1" rec (run_of_play played)
    (meets_of_play played spared) stored
  rw [limit, fetched] at bound
  omega

end OjsNats.Lifecycle
