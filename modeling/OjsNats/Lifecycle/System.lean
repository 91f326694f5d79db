import OjsNats.Lifecycle.Reporting
import OjsNats.Lifecycle.Passes
import OjsNats.Lifecycle.Claiming
import OjsNats.Nats.Execute

/-!
# The backend, one operation at a time

Each operation refines a sequence of moves, so what a single move keeps holds
in every state a server reaches by complete operations and the passing of time.
-/

namespace OjsNats.Nats

open Core Effect

/-- The storage before anything was stored. -/
def World.start (clock : Int) : World where
  kv := fun _ => Store.Bucket.empty
  stream := []
  inflight := fun _ => none
  consumers := fun _ => false
  regexCache := fun _ => none
  clock := clock
  used := []

/-- An operation arrives: the ids its caller chose are in use from now on. -/
def World.accept (w : World) (call : Call) : World :=
  { w with used := call.clientIDs ++ w.used }

/-- The ids that the caller chose for new jobs are new and distinct. -/
structure Call.Fresh (call : Call) (w : World) : Prop where
  nodup : call.clientIDs.Nodup
  unknown : ∀ id ∈ call.clientIDs, (w.slot id).record = none

end OjsNats.Nats

namespace OjsNats.Lifecycle

open Core Nats Effect Semantics Program Relation

variable (lib : Externals)

/-- The moves an operation can cause. -/
def moves : Call → String → Move → Prop
  | .push job => Pushes (Stores lib job)
  | .pushBatch jobs => Brings (BatchStores lib jobs)
  | .fireCronJobs => SpawnsLoose
  | .createWorkflow _ | .advanceWorkflow _ _ _ _ => Spawns
  | .fetch _ _ _ _ => Claims
  | .ack k result => Acks k result
  | .nack k _ requeue => Nacks k requeue
  | .cancel k => fun j m => j = k ∧ m = .cancel
  | .heartbeat _ ids _ => Beats ids
  | .promoteScheduled | .promoteRetries => Promotes
  | .requeueStalled => Stalls
  | .retryDeadLetter k => fun j m => j = k ∧ m = .revive
  | .deleteDeadLetter k => fun j m => j = k ∧ m = .forget
  | .cancelWorkflow _ => Cancels
  | .registerCron _ | .deleteCron _ | .pauseQueue _ | .resumeQueue _ | .setWorkerState _ _ =>
    fun _ _ => False

variable {lib} {w w' : World}

theorem Sound.start (clock : Int) : Sound (World.start clock) where
  placed := Slot.Placed.vacant
  known := fun _ h => absurd rfl h

theorem slot_accept (w : World) (call : Call) (j : String) :
    (w.accept call).slot j = w.slot j := rfl

theorem Sound.accept (sound : Sound w) (call : Call) : Sound (w.accept call) where
  placed := sound.placed
  known := fun j h =>
    ⟨List.mem_append_right _ (sound.known j h).1, (sound.known j h).2⟩

theorem Reserved.of_fresh {call : Call} (fresh : call.Fresh w) {id : String}
    (mem : id ∈ call.clientIDs) (nonempty : id ≠ "") : Reserved (w.accept call) id :=
  ⟨nonempty, List.mem_append_left _ mem, fresh.unknown id mem⟩

/-- The program of a call runs an operation and wraps its result. -/
theorem Advances.reply {α : Type} {allowed : String → Move → Prop} {p : Prog α} (f : α → Reply)
    (h : Advances lib allowed p) : Advances lib allowed (p.bind fun a => .pure (f a)) :=
  h.bind fun _ => .pure _

theorem exec_reply {α : Type} {p : Prog α} {f : α → Reply} {reply : Reply}
    (run : serves.Exec (p.bind fun a => .pure (f a)) w reply w') :
    ∃ a, reply = f a ∧ serves.Exec p w a w' := by
  obtain ⟨a, m, first, rfl, rfl⟩ := exec_bind.mp run
  exact ⟨a, rfl, first⟩

/-- Every operation takes every slot through moves it is allowed. -/
theorem call_evolves {call : Call} (sound : Sound w) (fresh : call.Fresh w) :
    serves.wp (call.program lib) (fun _ t => Evolves lib (moves lib call) (w.accept call) t)
      (w.accept call) := by
  have sound' := sound.accept call
  cases call with
  | push job =>
    refine wp_bind.mpr ((push_evolves sound' fun nonempty => ?_).mono fun _ _ h => wp_pure.mpr h)
    exact .of_fresh fresh (by simp [Call.clientIDs, nonempty]) nonempty
  | pushBatch jobs =>
    refine wp_bind.mpr ((pushBatch_evolves sound' (fun job mem nonempty => ?_) fresh.nodup).mono
      fun _ _ h => wp_pure.mpr h)
    exact .of_fresh fresh (by simpa [Call.clientIDs, nonempty] using ⟨job, mem, rfl⟩) nonempty
  | fetch queues count workerID timeout => exact (fetch_advances _ _ _ _).reply _ _ sound'
  | ack k result => exact (ack_advances _ _).reply _ _ sound'
  | nack k jobErr requeue => exact (nack_advances _ _ _).reply _ _ sound'
  | cancel k => exact (cancel_advances _).reply _ _ sound'
  | heartbeat workerID ids timeout => exact (heartbeat_advances _ _ _).reply _ _ sound'
  | promoteScheduled => exact promoteScheduled_advances.reply _ _ sound'
  | promoteRetries => exact promoteRetries_advances.reply _ _ sound'
  | requeueStalled => exact requeueStalled_advances.reply _ _ sound'
  | fireCronJobs => exact fireCronJobs_advances.reply _ _ sound'
  | retryDeadLetter k => exact (retryDeadLetter_advances _).reply _ _ sound'
  | deleteDeadLetter k => exact (deleteDeadLetter_advances _).reply _ _ sound'
  | createWorkflow req => exact (createWorkflow_advances _).reply _ _ sound'
  | advanceWorkflow id k result failed =>
    exact (advanceWorkflowState_advances _ _ _ _).reply _ _ sound'
  | cancelWorkflow id => exact (cancelWorkflow_advances _).reply _ _ sound'
  | registerCron cronJob => exact (registerCron_advances _).reply _ _ sound'
  | deleteCron name => exact (deleteCron_advances _).reply _ _ sound'
  | pauseQueue name =>
    exact (Advances.of_sideline (sideline_pauseQueue name)).reply _ _ sound'
  | resumeQueue name =>
    exact (Advances.of_sideline (sideline_resumeQueue name)).reply _ _ sound'
  | setWorkerState workerID state =>
    exact (Advances.of_sideline (sideline_setWorkerState _ _)).reply _ _ sound'

/-! ## Sequential runs -/

/-- What happens between two states of a sequential run. -/
inductive Event where
  | call (call : Call) (reply : Reply)
  | tick

/-- An operation runs from start to end without a failing call, or time passes. -/
inductive Step (lib : Externals) : World → Event → World → Prop
  | call {w w' : World} {call : Call} {reply : Reply} : call.Fresh w →
      serves.Exec (call.program lib) (w.accept call) reply w' → Step lib w (.call call reply) w'
  | tick {w : World} {now : Int} : w.clock ≤ now → Step lib w .tick { w with clock := now }

/-- The states of the sequential runs of one server that starts with empty storage. -/
inductive Reachable (lib : Externals) : World → Prop
  | start {clock : Int} : 0 ≤ clock → Reachable lib (World.start clock)
  | step {w w' : World} {event : Event} : Reachable lib w → Step lib w event w' →
      Reachable lib w'

/-- The event is no operation, or one of a kind. -/
def Event.Meets (kind : Call → Prop) : Event → Prop
  | .call operation _ => kind operation
  | .tick => True

/-- The moves between two states of a run. -/
def Event.moves (lib : Externals) : Event → String → Move → Prop
  | .call operation _ => Lifecycle.moves lib operation
  | .tick => fun _ _ => False

theorem Step.evolves {event : Event} (step : Step lib w event w') (sound : Sound w) (j : String) :
    (w.slot j).Evolves lib w.clock j (event.moves lib j) (w'.slot j) := by
  cases step with
  | call fresh run => exact (call_evolves sound fresh _ _ run).slots j
  | tick later => exact ReflTransGen.refl

theorem Step.sound {event : Event} (step : Step lib w event w') (sound : Sound w) : Sound w' := by
  cases step with
  | call fresh run => exact (call_evolves sound fresh _ _ run).sound (sound.accept _)
  | tick later => exact ⟨sound.placed, sound.known⟩

theorem Step.clock_le {event : Event} (step : Step lib w event w') (sound : Sound w) :
    w.clock ≤ w'.clock := by
  cases step with
  | call fresh run => exact Int.le_of_eq (call_evolves sound fresh _ _ run).clock.symm
  | tick later => exact later

/-- Only a push takes a lock, for a job that was not there. -/
theorem Step.lockNames {event : Event} (step : Step lib w event w') (sound : Sound w)
    (nonempty : ¬ LockNames w "") {k : String} (named : LockNames w' k) : LockNames w k ∨
      (∃ job reply, event = .call (.push job) reply) ∧ k ∈ w'.used ∧ k ≠ "" ∧
        (w.slot k).record = none := by
  cases step with
  | tick => exact .inl named
  | call fresh run =>
    rename_i call reply
    by_cases locks : call.Locks
    · cases call with
      | push job =>
        obtain ⟨r, rfl, ends⟩ := exec_reply run
        have given (nonempty : job.id ≠ "") : Reserved (w.accept (.push job)) job.id :=
          .of_fresh fresh (by simp [Call.clientIDs, nonempty]) nonempty
        refine ((wp_push_takes (sound.accept _) given r w' ends).2 nonempty k named).imp id
          fun new => ⟨⟨job, _, rfl⟩, new⟩
      | _ => exact locks.elim
    · have kv : w'.kv .unique = (w.accept call).kv .unique :=
        kv_of_spares (spares_locks lib locks) run
      exact .inl (LockNames.of_kv (w := w) kv named)

theorem Reachable.sound (reachable : Reachable lib w) : Sound w := by
  induction reachable with
  | start => exact .start _
  | step _ step ih => exact step.sound ih

theorem Reachable.present (reachable : Reachable lib w) (j : String) : (w.slot j).Present := by
  induction reachable with
  | start => exact Slot.Present.vacant
  | step before step ih => exact (step.evolves before.sound j).present ih

/-- What a server has stored is filed. -/
theorem Reachable.filed (reachable : Reachable lib w) : AllFiled w := by
  induction reachable with
  | start =>
    intro b k v stored
    cases stored
  | step _ step ih =>
    cases step with
    | tick => exact ih.of_kv rfl
    | call _ run => exact filed_program lib run (ih.of_kv rfl)

/-- No lock is held in no job's name. -/
theorem Reachable.unlocked (reachable : Reachable lib w) : ¬ LockNames w "" := by
  induction reachable with
  | start =>
    rintro ⟨f, held⟩
    cases held
  | step before step ih =>
    intro named
    rcases step.lockNames before.sound ih named with held | ⟨-, -, other, -⟩
    · exact ih held
    · exact other rfl

theorem Reachable.clock_nonneg (reachable : Reachable lib w) : 0 ≤ w.clock := by
  induction reachable with
  | start nonneg => exact nonneg
  | step before step ih => exact Int.le_trans ih (step.clock_le before.sound)

/-- While the clock can be trusted, so can the timestamps in the indexes. -/
theorem Reachable.legible (reachable : Reachable lib w) (era : InEra w.clock) (j : String) :
    (w.slot j).Legible lib := by
  induction reachable with
  | start => exact Slot.Legible.vacant lib
  | step before step ih =>
    have earlier := Int.add_le_add_right (step.clock_le before.sound) (2 ^ 63)
    have era' : InEra _ := ⟨before.clock_nonneg, Int.le_trans earlier era.2⟩
    exact (step.evolves before.sound j).legible era' (ih era')

/-- One step of a run, with the worlds before and after it. -/
structure Passage where
  before : World
  event : Event
  after : World

/-- A sequential run, as the list of its steps. -/
inductive Run (lib : Externals) : World → List Passage → World → Prop
  | nil {w : World} : Run lib w [] w
  | cons {w m t : World} {event : Event} {rest : List Passage} : Step lib w event m →
      Run lib m rest t → Run lib w (⟨w, event, m⟩ :: rest) t

theorem Run.step_of_mem {t : World} {trace : List Passage} (run : Run lib w trace t)
    (sound : Sound w) {p : Passage} (mem : p ∈ trace) :
    Sound p.before ∧ Step lib p.before p.event p.after := by
  induction run with
  | nil => cases mem
  | cons step _ ih =>
    rcases List.mem_cons.mp mem with rfl | later
    · exact ⟨sound, step⟩
    · exact ih (step.sound sound) later

theorem Run.sound {t : World} {trace : List Passage} (run : Run lib w trace t) (sound : Sound w) :
    Sound t := by
  induction run with
  | nil => exact sound
  | cons step _ ih => exact ih (step.sound sound)

/-- An operation with fresh ids runs to its end. -/
theorem exists_step {call : Call} (fresh : call.Fresh w) :
    ∃ reply w', Step lib w (.call call reply) w' := by
  obtain ⟨reply, w', run⟩ := exists_exec serves_answers (call.program lib) (w.accept call)
  exact ⟨reply, w', .call fresh run⟩

/-- What holds at first and is kept by each step of a run holds at its end. -/
theorem Run.holds {t : World} {trace : List Passage} {I : List Passage → World → Prop}
    (run : Run lib w trace t) (sound : Sound w) (start : I [] w)
    (kept : ∀ done p, p ∈ trace → Sound p.before → Step lib p.before p.event p.after →
      I done p.before → I (done ++ [p]) p.after) : I trace t := by
  suffices general : ∀ done, I done w → I (done ++ trace) t from general [] start
  clear start
  induction run with
  | nil =>
    intro done holds
    rw [List.append_nil]
    exact holds
  | @cons w m t event rest step _ ih =>
    intro done holds
    have next : I (done ++ [⟨w, event, m⟩]) m := kept done _ List.mem_cons_self sound step holds
    have last := ih (step.sound sound)
      (fun done p mem => kept done p (List.mem_cons_of_mem _ mem)) _ next
    rw [List.append_assoc] at last
    exact last

theorem Run.snoc {m t : World} {trace : List Passage} {event : Event} (run : Run lib w trace m)
    (step : Step lib m event t) : Run lib w (trace ++ [⟨m, event, t⟩]) t := by
  induction run with
  | nil => exact .cons step .nil
  | cons first _ ih => exact .cons first (ih step)

/-- As `Run.holds`, with the run up to each step at hand. -/
theorem Run.holds_along {t : World} {trace : List Passage} {I : List Passage → World → Prop}
    (run : Run lib w trace t) (start : I [] w)
    (kept : ∀ done p rest, trace = done ++ p :: rest → Run lib w done p.before →
      Step lib p.before p.event p.after → I done p.before → I (done ++ [p]) p.after) :
    I trace t := by
  suffices general : ∀ (done rest : List Passage) (m : World), trace = done ++ rest →
      Run lib w done m → Run lib m rest t → I done m → I trace t from
    general [] trace w rfl .nil run start
  intro done rest
  induction rest generalizing done with
  | nil =>
    intro m whole _ ends holds
    cases ends
    rw [whole, List.append_nil]
    exact holds
  | cons p rest ih =>
    intro m whole before later holds
    cases later with
    | cons step later =>
      refine ih (done ++ [_]) _ (by simp [whole]) (before.snoc step) later ?_
      exact kept done _ rest whole before step holds

/-! ## Runs that compute -/

/-- The world after an operation, run on the sample externals. -/
def after (w : World) (call : Call) : World :=
  match execute (call.program sample) (w.accept call) with
  | some (_, t) => t
  | none => w

/-- The world some seconds after the start of the year 2026. -/
def later (w : World) (seconds : Int) : World := { w with clock := Sample.instant seconds }

theorem exists_step_after {call : Call} (fresh : call.Fresh w)
    (ends : (execute (call.program sample) (w.accept call)).isSome) :
    ∃ reply, Step sample w (.call call reply) (after w call) := by
  unfold after
  split
  · rename_i reply t run
    exact ⟨reply, .call fresh (exec_of_execute run)⟩
  · rename_i stuck
    simp [stuck] at ends

theorem Reachable.after (reachable : Reachable sample w) {call : Call} (fresh : call.Fresh w) :
    Reachable sample (Lifecycle.after w call) := by
  by_cases ends : (execute (call.program sample) (w.accept call)).isSome
  · obtain ⟨reply, step⟩ := exists_step_after fresh ends
    exact reachable.step step
  · rw [Option.not_isSome_iff_eq_none] at ends
    simpa [Lifecycle.after, ends] using reachable

theorem Reachable.later (reachable : Reachable sample w) {seconds : Int}
    (passes : w.clock ≤ Sample.instant seconds) : Reachable sample (Lifecycle.later w seconds) :=
  reachable.step (.tick passes)

/-- An operation whose caller chooses no id is fresh everywhere. -/
theorem fresh_of_no_ids {call : Call} (none : call.clientIDs = []) : call.Fresh w where
  nodup := by simp [none]
  unknown := by simp [none]

/-- What happens next in a run on the sample externals. -/
inductive Cue where
  | call (call : Call)
  /-- The clock shows some seconds after the start of the year 2026. -/
  | wait (seconds : Int)

/-- Play a run, as long as ids are fresh and time does not go back. -/
def play (w : World) : List Cue → Option (List Passage × World)
  | [] => some ([], w)
  | .call operation :: rest =>
      if operation.clientIDs.Nodup ∧
          operation.clientIDs.all (fun id => (w.value .jobs id).isNone) then
        match execute (operation.program sample) (w.accept operation) with
        | none => none
        | some (reply, m) =>
            match play m rest with
            | none => none
            | some (trace, t) => some (⟨w, .call operation reply, m⟩ :: trace, t)
      else none
  | .wait seconds :: rest =>
      if w.clock ≤ Sample.instant seconds then
        match play (later w seconds) rest with
        | none => none
        | some (trace, t) => some (⟨w, .tick, later w seconds⟩ :: trace, t)
      else none

theorem run_of_play {t : World} {cues : List Cue} {trace : List Passage}
    (played : play w cues = some (trace, t)) : Run sample w trace t := by
  induction cues generalizing w trace with
  | nil =>
    cases played
    exact .nil
  | cons cue rest ih =>
    cases cue with
    | call operation =>
      simp only [play] at played
      split at played
      · rename_i fresh
        have known (id : String) (mem : id ∈ operation.clientIDs) : (w.slot id).record = none :=
          Option.isNone_iff_eq_none.mp (List.all_eq_true.mp fresh.2 id mem)
        split at played
        · cases played
        · rename_i reply m run
          split at played
          · cases played
          · rename_i trace' t' rest_played
            cases played
            exact .cons (.call ⟨fresh.1, known⟩ (exec_of_execute run)) (ih rest_played)
      · cases played
    | wait seconds =>
      simp only [play] at played
      split at played
      · rename_i passes
        split at played
        · cases played
        · rename_i trace' t' rest_played
          cases played
          exact .cons (.tick passes) (ih rest_played)
      · cases played

def Cue.Meets (kind : Call → Prop) : Cue → Prop
  | .call operation => kind operation
  | .wait _ => True

/-- The operations of a played run are those of its cues. -/
theorem meets_of_play {t : World} {cues : List Cue} {trace : List Passage} {kind : Call → Prop}
    (played : play w cues = some (trace, t)) (meets : ∀ cue ∈ cues, cue.Meets kind) :
    ∀ p ∈ trace, p.event.Meets kind := by
  induction cues generalizing w trace with
  | nil =>
    cases played
    simp
  | cons cue rest ih =>
    have later : ∀ cue ∈ rest, cue.Meets kind := fun cue mem => meets cue (by simp [mem])
    have first := meets cue (by simp)
    cases cue with
    | call operation =>
      simp only [play] at played
      split at played
      · split at played
        · cases played
        · split at played
          · cases played
          · rename_i rest_played
            cases played
            exact List.forall_mem_cons.mpr ⟨first, ih rest_played later⟩
      · cases played
    | wait seconds =>
      simp only [play] at played
      split at played
      · split at played
        · cases played
        · rename_i rest_played
          cases played
          exact List.forall_mem_cons.mpr ⟨trivial, ih rest_played later⟩
      · cases played

end OjsNats.Lifecycle
