import OjsNats.Faults.Pushing
import OjsNats.Lifecycle.Holding
import OjsNats.Lifecycle.Sweeps
import OjsNats.Lifecycle.Tallies

/-!
# Waiting for the time

A scheduled job, and a job between two attempts, wait in an index.  Only a cancellation changes
such a job before a pass of its index comes at its time or later, and that pass puts it into its
queue once.  Until then no fetch hands it out.
-/

namespace OjsNats.Lifecycle

open Core Nats Effect Semantics Program

variable {lib : Externals} {w m t : World} {j : String} {due : Int} {pass : Pass} {event : Event}
  {trace : List Passage}

/-- The job has become available, with the terms it had, and is announced once. -/
def Slot.Released (lib : Externals) (now : Int) (j : String) (s s' : Slot) : Prop :=
  ∃ rec, s.record = some rec ∧
    s'.record = some (marshalJobState (enqueuedJob lib .available now (unmarshalJobState rec))) ∧
    s'.messages = [⟨queueJobsSubject rec.queue, j, now⟩]

namespace Pass

variable {now : Int} {s : Slot}

/-- The request with which the scheduler runs the pass. -/
def call : Pass → Call
  | .promoteScheduled => .promoteScheduled
  | .promoteRetries => .promoteRetries
  | .requeueStalled => .requeueStalled

/-- The state of the jobs in the index. -/
def state : Pass → State
  | .promoteScheduled => .scheduled
  | .promoteRetries => .retryable
  | .requeueStalled => .active

/-- The job waits in the index of a promoting pass for the time `due`. -/
def Waits (lib : Externals) (due : Int) (s : Slot) : Pass → Prop
  | .promoteScheduled => ∃ text, s.scheduled = some text ∧
      parseEither lib.parseRFC3339 lib.parseTime text = some due
  | .promoteRetries => ∃ text, s.retry = some text ∧
      parseEither lib.parseTime lib.parseRFC3339 text = some due
  | .requeueStalled => False

theorem state_injective {pass' : Pass} (same : pass.state = pass'.state) : pass = pass' := by
  cases pass <;> cases pass' <;> first | rfl | cases same

theorem call_injective {pass' : Pass} (same : pass.call = pass'.call) : pass = pass' := by
  cases pass <;> cases pass' <;> first | rfl | cases same

/-- A waiting job is due from its time on. -/
theorem Waits.due_iff (waits : pass.Waits lib due s) : pass.Due lib now s ↔ due ≤ now := by
  cases pass with
  | promoteScheduled | promoteRetries =>
    obtain ⟨text, entry, reads⟩ := waits
    constructor
    · rintro ⟨text', due', entry', reads', passed⟩
      cases entry.symm.trans entry'
      cases reads.symm.trans reads'
      exact passed
    · exact fun passed => ⟨text, due, entry, reads, passed⟩
  | requeueStalled => exact waits.elim

theorem Waits.state (waits : pass.Waits lib due s) (placed : s.Placed j) :
    s.state = some pass.state := by
  cases pass with
  | promoteScheduled =>
    obtain ⟨text, entry, -⟩ := waits
    exact placed.scheduled_iff.mp (by simp [entry])
  | promoteRetries =>
    obtain ⟨text, entry, -⟩ := waits
    exact placed.retry_iff.mp (by simp [entry])
  | requeueStalled => exact waits.elim

/-- The jobs that are due for a pass are in its index. -/
theorem state_of_due (placed : s.Placed j) (due : pass.Due lib now s) :
    s.state = some pass.state := by
  cases pass with
  | promoteScheduled =>
    obtain ⟨text, due, entry, -⟩ := due
    exact placed.scheduled_iff.mp (by simp [entry])
  | promoteRetries =>
    obtain ⟨text, due, entry, -⟩ := due
    exact placed.retry_iff.mp (by simp [entry])
  | requeueStalled =>
    obtain ⟨info, deadline, entry, -⟩ := due
    exact placed.active_iff.mp (by simp [entry])

/-- No other pass finds a waiting job due. -/
theorem Waits.not_due {other : Pass} (waits : pass.Waits lib due s) (placed : s.Placed j)
    (ne : other ≠ pass) : ¬ other.Due lib now s := by
  intro due
  have same := (waits.state placed).symm.trans (state_of_due placed due)
  exact ne (state_injective (Option.some.inj same)).symm

theorem Waits.unsettled (waits : pass.Waits lib due s) (placed : s.Placed j) :
    s.state = some .scheduled ∨ s.state = some .retryable := by
  have state := waits.state placed
  cases pass with
  | promoteScheduled => exact .inl state
  | promoteRetries => exact .inr state
  | requeueStalled => exact waits.elim

/-- The pass puts a waiting job into its queue. -/
theorem Waits.released (waits : pass.Waits lib due s) (placed : s.Placed j) :
    s.Released lib now j (pass.treated lib now s) := by
  obtain ⟨rec, stored, state⟩ := Option.map_eq_some_iff.mp (waits.state placed)
  have id := placed.keyed rec stored
  have silent : s.messages = [] := by
    refine placed.messages_nil stored ?_ ?_ <;> rw [state] <;>
      cases pass <;> first | exact waits.elim | simp [Pass.state]
  refine ⟨rec, stored, ?_⟩
  cases pass with
  | promoteScheduled | promoteRetries =>
    simp [treated, Pass.promoted, stored, silent, Slot.write, ← id]
  | requeueStalled => exact waits.elim

end Pass

/-! ## One step -/

namespace Slot

variable {now : Int} {s s' : Slot} {mv : Move}

/-- A waiting job is promoted or cancelled. -/
theorem Step.of_unsettled (step : Step lib now j mv s s') (placed : s.Placed j)
    (unsettled : s.state = some .scheduled ∨ s.state = some .retryable) :
    mv = .promote ∨ mv = .cancel := by
  have state {rec : JobState} (stored : s.record = some rec) :
      rec.state = .scheduled ∨ rec.state = .retryable := by
    simpa [Slot.state, stored] using unsettled
  have active {rec : JobState} (stored : s.record = some rec) (active : rec.state = .active) :
      False := by
    simpa [active] using state stored
  have spoken {rec : JobState} {msg : Msg} (stored : s.record = some rec)
      (one : s.messages = [msg]) : False := by
    have silent : s.messages = [] := by
      rcases state stored with st | st <;>
        exact placed.messages_nil stored (by simp [st]) (by simp [st])
    simp [one] at silent
  have dead {entry : String} (buried : s.dead = some entry) : False := by
    have discarded := placed.dead_discarded (by simp [buried])
    simp [discarded] at unsettled
  cases step with
  | enqueue none | schedule none => simp [Slot.state, none] at unsettled
  | claim stored one | expire stored one | skip stored one => exact (spoken stored one).elim
  | extend stored now | complete stored now | discard stored now | retryLater stored now =>
    exact (active stored now).elim
  | requeue _ stored now => exact (active stored now).elim
  | cancel => exact .inr rfl
  | promoteScheduled | promoteRetry => exact .inl rfl
  | revive _ buried | forget buried => exact (dead buried).elim

theorem Step.ended_of_cancel (step : Step lib now j .cancel s s') (placed : s.Placed j)
    (unsettled : s.state = some .scheduled ∨ s.state = some .retryable) : s'.Ended := by
  cases step with
  | cancel stored _ next =>
    refine ⟨.inr (.inl (by simp [Slot.state, next.state])), placed.dead_none stored fun state => ?_⟩
    simp [Slot.state, stored, state] at unsettled
  | requeue kind => simp at kind

/-- Unless it is promoted, a waiting job stays as it is or is cancelled. -/
theorem Evolves.of_unsettled {allowed : Move → Prop} (h : s.Evolves lib now j allowed s')
    (placed : s.Placed j) (unsettled : s.state = some .scheduled ∨ s.state = some .retryable)
    (unpromoted : ¬ allowed .promote) : s' = s ∨ allowed .cancel ∧ s'.Ended := by
  induction h with
  | refl => exact .inl rfl
  | tail before step ih =>
    obtain ⟨mv, ok, step⟩ := step
    rcases ih with rfl | ⟨cancels, ended⟩
    · rcases step.of_unsettled placed unsettled with rfl | rfl
      · exact absurd ok unpromoted
      · exact .inr ⟨ok, step.ended_of_cancel placed unsettled⟩
    · exact .inr ⟨cancels, step.ended (Evolves.placed before placed) ended⟩

end Slot

/-- The step is the pass, at the time `due` or later. -/
def Collects (pass : Pass) (due : Int) (p : Passage) : Prop :=
  (∃ reply, p.event = .call pass.call reply) ∧ due ≤ p.before.clock

/-- The step is an operation that cancels the job. -/
def Withdraws (lib : Externals) (j : String) (p : Passage) : Prop :=
  ∃ call reply, p.event = .call call reply ∧ CancelsJob lib p.before j call

/-- What a step makes of a waiting job. -/
inductive Attends (lib : Externals) (pass : Pass) (due : Int) (j : String) (p : Passage) : Prop
  | still : ¬ Collects pass due p → p.after.slot j = p.before.slot j → Attends lib pass due j p
  | released : Collects pass due p →
      (p.before.slot j).Released lib p.before.clock j (p.after.slot j) → Attends lib pass due j p
  | withdrawn : ¬ Collects pass due p → Withdraws lib j p → (p.after.slot j).Ended →
      Attends lib pass due j p

theorem swept_call {reply : Reply} (sound : Sound w)
    (run : serves.Exec (pass.call.program lib) w reply t) : Swept lib pass w t := by
  have own : UnderOwnIDs w := fun k => (sound.placed k).keyed
  cases pass <;> obtain ⟨_, rfl, ran⟩ := exec_reply run <;> exact program_swept _ own _ _ ran

/-- A pass promotes the waiting jobs of its index whose time has come, and leaves the others. -/
theorem attends_pass {other : Pass} {reply : Reply} (sound : Sound w)
    (run : serves.Exec (other.call.program lib) (w.accept other.call) reply t)
    (waits : pass.Waits lib due (w.slot j)) :
    Attends lib pass due j ⟨w, .call other.call reply, t⟩ := by
  have swept := swept_call (sound.accept other.call) run
  by_cases same : other = pass
  · subst same
    by_cases passed : due ≤ w.clock
    · refine .released ⟨⟨reply, rfl⟩, passed⟩ ?_
      rw [show t.slot j = _ from swept.due j (waits.due_iff.mpr passed)]
      exact waits.released (sound.placed j)
    · exact .still (fun collects => passed collects.2)
        (swept.idle j fun due => passed (waits.due_iff.mp due))
  · refine .still (fun collects => ?_) (swept.idle j (waits.not_due (sound.placed j) same))
    obtain ⟨⟨reply', event⟩, -⟩ := collects
    exact same (Pass.call_injective (Event.call.inj event).1)

/-- Apart from the passes no operation promotes a job. -/
theorem not_moves_promote {call : Call} (busy : ∀ other : Pass, call ≠ other.call) :
    ¬ moves lib call j .promote := by
  have brings (new : String → JobState → Prop) : ¬ Brings new j .promote := by simp [Brings]
  cases call with
  | promoteScheduled => exact absurd rfl (busy .promoteScheduled)
  | promoteRetries => exact absurd rfl (busy .promoteRetries)
  | push => exact fun ok => ok.elim (brings _) (by simp)
  | pushBatch => exact brings _
  | fireCronJobs => exact brings fun _ rec => Spawned rec ∧ rec.workflowID = ""
  | createWorkflow | advanceWorkflow => exact brings fun _ rec => Spawned rec
  | ack => exact fun ok => ok.elim (by simp) (brings _)
  | nack => exact fun ok => ok.elim (by simp) (brings _)
  | cancel | retryDeadLetter | deleteDeadLetter => simp [moves]
  | fetch => simp [moves, Claims]
  | heartbeat => simp [moves, Beats]
  | requeueStalled => simp [moves, Stalls]
  | cancelWorkflow => simp [moves, Cancels]
  | registerCron | deleteCron | pauseQueue | resumeQueue | setWorkerState => exact id

/-- A push leaves a waiting job as it is, or replaces it. -/
theorem wp_push_unsettled {job : Job} (sound : Sound w) (given : job.id ≠ "")
    (fresh : (w.slot job.id).record = none)
    (unsettled : (w.slot j).state = some .scheduled ∨ (w.slot j).state = some .retryable) :
    serves.wp (push lib job) (fun _ t => t.slot j = w.slot j ∨
      PushCancels lib w job j ∧ (t.slot j).Ended) w := by
  refine (push_submits (fun k => (sound.placed k).keyed) given).mono fun _ t submitted => ?_
  have other : j ≠ job.id := by
    rintro rfl
    simp [Slot.state, fresh] at unsettled
  cases submitted with
  | stopped _ same => exact .inl (same j)
  | stored _ spared cancelled moved =>
    rw [moved.others j other]
    by_cases cancels : PushCancels lib w job j
    · exact .inr ⟨cancels, (cancelled j cancels).ended_of_cancel (sound.placed j) unsettled⟩
    · exact .inl (spared j cancels)

theorem push_unsettled {job : Job} {reply : Result Job} (sound : Sound w)
    (fresh : (Call.push job).Fresh w)
    (unsettled : (w.slot j).state = some .scheduled ∨ (w.slot j).state = some .retryable)
    (run : serves.Exec (push lib job) (w.accept (.push job)) reply t) :
    t.slot j = w.slot j ∨ PushCancels lib w job j ∧ (t.slot j).Ended := by
  have sound' : Sound (w.accept (.push job)) := sound.accept _
  by_cases given : job.id = ""
  · refine wp_push_as_given (Q := fun _ t => t.slot j = w.slot j ∨
      PushCancels lib w job j ∧ (t.slot j).Ended) given (fun id nonempty unused => ?_) reply t run
    have reserved := Reserved.of_generated sound' nonempty unused
    have generated : Evolves lib (fun _ _ => False) (w.accept (.push job))
      { w.accept (.push job) with used := id :: (w.accept (.push job)).used } := evolves_generated
    exact (wp_push_unsettled (generated.sound sound') nonempty reserved.vacant unsettled).mono
      fun _ _ => Or.imp_right fun ended => ⟨pushCancels_renamed ended.1, ended.2⟩
  · have unknown := fresh.unknown job.id (by simp [Call.clientIDs, given])
    have outcome := wp_push_unsettled sound' given unknown unsettled reply t run
    exact outcome.imp_right fun ended => ⟨pushCancels_renamed ended.1, ended.2⟩

theorem Step.attends (step : Step lib w event t) (sound : Sound w)
    (waits : pass.Waits lib due (w.slot j)) : Attends lib pass due j ⟨w, event, t⟩ := by
  have placed := sound.placed j
  have unsettled := waits.unsettled placed
  cases step with
  | tick => exact .still (fun collects => by simp [Collects] at collects) rfl
  | call fresh run =>
    rename_i operation reply
    by_cases passes : ∃ other : Pass, operation = other.call
    · obtain ⟨other, rfl⟩ := passes
      exact attends_pass sound run waits
    have elsewhen : ¬ Collects pass due ⟨w, .call operation reply, t⟩ := by
      rintro ⟨⟨reply', same⟩, -⟩
      exact passes ⟨pass, (Event.call.inj same).1⟩
    have settle (outcome : t.slot j = w.slot j ∨
        CancelsJob lib w j operation ∧ (t.slot j).Ended) :
        Attends lib pass due j ⟨w, .call operation reply, t⟩ := by
      rcases outcome with same | ⟨cancels, ended⟩
      · exact .still elsewhen same
      · exact .withdrawn elsewhen ⟨operation, reply, rfl, cancels⟩ ended
    have unpromoted : ¬ moves lib operation j .promote :=
      not_moves_promote fun other same => passes ⟨other, same⟩
    have evolves := (call_evolves sound fresh _ _ run).slots j
    apply settle
    cases operation with
    | push job =>
      obtain ⟨r, rfl, ran⟩ := exec_reply run
      exact push_unsettled sound fresh unsettled ran
    | cancelWorkflow id =>
      obtain ⟨r, rfl, ran⟩ := exec_reply run
      refine wp_cancelWorkflow (Q := fun _ t => t.slot j = w.slot j ∨
        CancelsJob lib w j (.cancelWorkflow id) ∧ (t.slot j).Ended) (sound.accept _)
          (fun _ => .inl rfl) (fun wfState stored live reply t evolves _ _ _ => ?_) r t ran
      exact ((evolves.slots j).of_unsettled placed unsettled (by simp)).imp_right
        fun ended => ⟨⟨wfState, stored, live, ended.1.1⟩, ended.2⟩
    | cancel jobID =>
      exact (evolves.of_unsettled placed unsettled unpromoted).imp_right
        fun ended => ⟨ended.1.1, ended.2⟩
    | _ =>
      exact (evolves.of_unsettled placed unsettled unpromoted).imp_right
        fun ended => absurd ended.1 (not_moves_cancel (by simp) (by simp) (by simp))

/-! ## Runs -/

/-- How the wait of a job goes that is in slot `s` at first: it goes on, or a pass comes at its
time, or the job is cancelled before. -/
inductive Waited (lib : Externals) (pass : Pass) (due : Int) (j : String) (s : Slot)
    (trace : List Passage) (t : World) : Prop
  | on : (∀ p ∈ trace, ¬ Collects pass due p) → (∀ p ∈ trace, j ∉ fetchedIDs p) →
      t.slot j = s → Waited lib pass due j s trace t
  | released (done : List Passage) (p : Passage) (rest : List Passage) :
      trace = done ++ p :: rest → (∀ q ∈ done, ¬ Collects pass due q) →
      (∀ q ∈ done ++ [p], j ∉ fetchedIDs q) → p.before.slot j = s → Collects pass due p →
      s.Released lib p.before.clock j (p.after.slot j) → Waited lib pass due j s trace t
  | withdrawn (done : List Passage) (p : Passage) (rest : List Passage) :
      trace = done ++ p :: rest → (∀ q ∈ done ++ [p], ¬ Collects pass due q) →
      (∀ q ∈ trace, j ∉ fetchedIDs q) → p.before.slot j = s → Withdraws lib j p →
      (t.slot j).Ended → Waited lib pass due j s trace t

/-- A fetch hands out available jobs only. -/
theorem Step.available_of_fetched (step : Step lib w event t) (sound : Sound w)
    (fetched : j ∈ fetchedIDs ⟨w, event, t⟩) : (w.slot j).state = some .available := by
  cases step with
  | tick => cases fetched
  | call fresh run =>
    rename_i call reply
    cases call with
    | fetch queues count workerID visibilityTimeoutMs =>
      obtain ⟨jobs, rfl, ran⟩ := exec_reply run
      obtain ⟨job, mem, rfl⟩ := List.mem_map.mp fetched
      obtain ⟨rec, stored, state, -⟩ :=
        (wp_fetch_handsOut (sound.accept _) jobs t ran).2.before job mem
      exact (Slot.state_of_record stored).trans (congrArg some state)
    | _ => cases fetched

theorem Run.unfetched_of_ended (run : Run lib w trace t) (sound : Sound w)
    (ended : (w.slot j).Ended) : (∀ p ∈ trace, j ∉ fetchedIDs p) ∧ (t.slot j).Ended := by
  induction run with
  | nil => exact ⟨by simp, ended⟩
  | cons step _ ih =>
    obtain ⟨later, last⟩ := ih (step.sound sound)
      ((step.evolves sound _).ended (sound.placed _) ended)
    refine ⟨List.forall_mem_cons.mpr ⟨fun fetched => ?_, later⟩, last⟩
    have terminal := ended.1
    simp [Slot.Terminal, step.available_of_fetched sound fetched] at terminal

theorem Run.waited (run : Run lib w trace t) (sound : Sound w)
    (waits : pass.Waits lib due (w.slot j)) : Waited lib pass due j (w.slot j) trace t := by
  induction run with
  | nil => exact .on (by simp) (by simp) rfl
  | @cons w m t event rest step later ih =>
    have unfetched : j ∉ fetchedIDs ⟨w, event, m⟩ := by
      intro fetched
      have available := step.available_of_fetched sound fetched
      simpa [available] using waits.unsettled (sound.placed j)
    cases step.attends sound waits with
    | still elsewhen same =>
      have goesOn := ih (step.sound sound) (same ▸ waits)
      rw [show m.slot j = w.slot j from same] at goesOn
      cases goesOn with
      | on early silent last =>
        exact .on (List.forall_mem_cons.mpr ⟨elsewhen, early⟩)
          (List.forall_mem_cons.mpr ⟨unfetched, silent⟩) last
      | released done p rest split early silent here collects after =>
        exact .released (⟨w, event, m⟩ :: done) p rest (by rw [split, List.cons_append])
          (List.forall_mem_cons.mpr ⟨elsewhen, early⟩)
          (List.forall_mem_cons.mpr ⟨unfetched, silent⟩) here collects after
      | withdrawn done p rest split early silent here withdraws ended =>
        exact .withdrawn (⟨w, event, m⟩ :: done) p rest (by rw [split, List.cons_append])
          (List.forall_mem_cons.mpr ⟨elsewhen, early⟩)
          (List.forall_mem_cons.mpr ⟨unfetched, silent⟩) here withdraws ended
    | released collects after =>
      exact .released [] _ rest rfl (by simp) (List.forall_mem_singleton.mpr unfetched) rfl
        collects after
    | withdrawn elsewhen withdraws ended =>
      obtain ⟨silent, last⟩ := later.unfetched_of_ended (step.sound sound) ended
      exact .withdrawn [] _ rest rfl (List.forall_mem_singleton.mpr elsewhen)
        (List.forall_mem_cons.mpr ⟨unfetched, silent⟩) rfl withdraws last

/-! ## Jobs for later -/

/-- What the policy block of a push returns at once is a job that was there. -/
theorem wp_handleUnique_existing {job : Job} {unique : UniquePolicy}
    (keyed : ∀ k rec, (w.slot k).record = some rec → rec.id = k) :
    serves.wp (handleUnique lib job unique) (fun early u => u.clock = w.clock ∧
      ∀ existing, early = some (.ok existing) → existing.isExisting = true) w := by
  by_cases obstructed : ∃ holder rec, Obstructs lib w job unique holder rec
  · obtain ⟨holder, rec, obstructs⟩ := obstructed
    refine wp_handleUnique_obstructed keyed obstructs (fun _ => ⟨rfl, by simp⟩) (fun _ => ⟨rfl, ?_⟩)
      (fun _ _ _ _ moved => ⟨moved.clock, by simp⟩) fun _ => ⟨rfl, by simp⟩
    rintro existing same
    cases same
    rfl
  · exact wp_handleUnique_unobstructed (fun holder rec obstructs =>
      obstructed ⟨holder, rec, obstructs⟩) fun _ same _ => ⟨same.clock, by simp⟩

/-- If the reply says that a new job is scheduled, the job is in the index, for a later time. -/
def IndexedLater (lib : Externals) (job : Job) (now : Int) (reply : Result Job) (t : World) :
    Prop :=
  ∀ created, reply = .ok created → created.isExisting = false → created.state = .scheduled →
    ∃ due, lib.parseRFC3339 job.scheduledAt = some due ∧ now < due ∧
      (t.slot created.id).scheduled = some job.scheduledAt

theorem wp_storeJob_scheduled {now : Int} {job : Job} (clock : w.clock = now) :
    serves.wp (storeJob lib now job) (IndexedLater lib job now) w := by
  subst clock
  refine wp_storeJob_stores fun state u moved record => ?_
  rintro created same - scheduled
  cases same
  obtain rfl : state = .scheduled := scheduled
  unfold storedSlot at record moved
  split at record
  · rename_i later
    rw [if_pos later] at moved
    obtain ⟨due, reads⟩ := Option.isSome_iff_exists.mp (parseRFC3339_of_scheduledLater later)
    refine ⟨due, reads, ?_, by rw [enqueuedJob_id, moved.slot]⟩
    simp only [isScheduledLater, reads, Bool.and_eq_true, decide_eq_true_eq] at later
    exact later.2
  · have states := congrArg JobState.state (Option.some.inj record)
    simp [storedRecord, marshalJobState, jobToState, enqueuedJob] at states

theorem wp_push_scheduled {job : Job} (keyed : ∀ k rec, (w.slot k).record = some rec → rec.id = k) :
    serves.wp (push lib job) (IndexedLater lib job w.clock) w := by
  rw [push_eq, wp_bind, wp_timeNow]
  have rest (id : String) (ids : List String) : serves.wp
      (pushFresh lib w.clock (freshJob lib id w.clock job)) (IndexedLater lib job w.clock)
        { w with used := ids } := by
    unfold pushFresh
    cases (freshJob lib id w.clock job).unique with
    | none => exact wp_storeJob_scheduled rfl
    | some unique =>
      refine wp_bind.mpr ((wp_handleUnique_existing (w := { w with used := ids }) keyed).mono ?_)
      rintro (_ | early) u ⟨clock, existing⟩
      · exact wp_storeJob_scheduled clock
      · refine wp_pure.mpr fun created same new => ?_
        have old := existing created (congrArg some same)
        simp [old] at new
  exact wp_chosenID (fun _ => rest job.id w.used) fun _ id _ _ => rest id (id :: w.used)

/-- A job that `Push` has scheduled stays as it is, and no fetch hands it out, until the first
pass of `PromoteScheduled` at its time or later, which puts it into its queue once; or it is
cancelled before that and never handed out. -/
theorem scheduled_waits {job created : Job} (reachable : Reachable lib w)
    (step : Step lib w (.call (.push job) (.job (.ok created))) m)
    (new : created.isExisting = false) (scheduled : created.state = .scheduled)
    (run : Run lib m trace t) : ∃ due, lib.parseRFC3339 job.scheduledAt = some due ∧
      w.clock < due ∧ Waited lib .promoteScheduled due created.id (m.slot created.id) trace t := by
  have sound := reachable.sound
  obtain ⟨due, reads, later, entry⟩ : ∃ due, lib.parseRFC3339 job.scheduledAt = some due ∧
      w.clock < due ∧ (m.slot created.id).scheduled = some job.scheduledAt := by
    cases step with
    | call fresh run =>
      obtain ⟨reply, same, ran⟩ := exec_reply run
      obtain rfl : Except.ok created = reply := Reply.job.inj same
      exact wp_push_scheduled (fun k => ((sound.accept _).placed k).keyed) _ m ran created rfl new
        scheduled
  refine ⟨due, reads, later, run.waited (step.sound sound) ?_⟩
  exact ⟨job.scheduledAt, entry, by simp [parseEither, reads]⟩

/-! ## Jobs between two attempts -/

/-- If the reply says that the job is to be retried, the job is in the index, for the time that
the reply names. -/
def IndexedRetry (lib : Externals) (j : String) (now : Int) (reply : Result NackResponse)
    (t : World) : Prop :=
  ∀ response, reply = .ok response → response.state = .retryable →
    ∃ backoff, IsDuration backoff ∧ response.nextAttemptAt = lib.formatTime (now + backoff) ∧
      (t.slot j).retry = some response.nextAttemptAt

theorem wp_nackRetry_indexed {newAttempt : Int} {errJSON : Option RawMessage} {job : Job} :
    serves.wp (nackRetry lib j w.clock newAttempt errJSON job) (IndexedRetry lib j w.clock) w := by
  simp only [nackRetry, bind_eq, wp_bind, wp_calculateBackoff, wp_putJobState, wp_delete,
    wp_ackMessage, wp_put, wp_info, pure_eq, wp_pure]
  rintro backoff duration response same -
  cases same
  exact ⟨backoff, duration, rfl, by simp [Slot.write]⟩

theorem wp_nackFailure_indexed {jobErr : Option JobError} {job : Job} :
    serves.wp (nackFailure lib j jobErr w.clock job) (IndexedRetry lib j w.clock) w := by
  simp only [nackFailure, bind_eq, wp_bind]
  refine wp_sideline (sideline_isNonRetryable _ _ _) fun nonRetryable v same => ?_
  rw [← same.clock]
  split
  · simp only [nackDiscard, bind_eq, wp_bind, wp_putJobState, wp_delete, wp_ackMessage,
      wp_deadLetter, wp_info, pure_eq, wp_pure]
    rintro _ u - response replied retryable
    cases replied
    cases retryable
  · exact wp_nackRetry_indexed

theorem wp_nack_indexed {jobErr : Option JobError} {requeue : Bool} :
    serves.wp (nack lib j jobErr requeue) (IndexedRetry lib j w.clock) w := by
  simp only [nack, bind_eq, wp_bind, wp_getJobState]
  split
  · exact wp_pure.mpr fun _ same => by cases same
  · rename_i job _
    split
    · exact wp_pure.mpr fun _ same => by cases same
    · simp only [wp_bind, wp_timeNow]
      split
      · simp only [nackRequeue, bind_eq, wp_bind, wp_putJobState, wp_delete, wp_ackMessage,
          wp_publishJob, wp_info, pure_eq, wp_pure]
        rintro response replied retryable
        cases replied
        cases retryable
      · exact wp_nackFailure_indexed

/-- A job that `Nack` has set back stays as it is, and no fetch hands it out, until the first
pass of `PromoteRetries` at the time that the reply names or later, which puts it into its queue
once; or it is cancelled before that and never handed out. -/
theorem retry_waits {jobErr : Option JobError} {requeue : Bool} {response : NackResponse}
    (reachable : Reachable lib w) (era : InEra w.clock)
    (step : Step lib w (.call (.nack j jobErr requeue) (.nacked (.ok response))) m)
    (retryable : response.state = .retryable) (run : Run lib m trace t) :
    ∃ backoff, IsDuration backoff ∧ response.nextAttemptAt = lib.formatTime (w.clock + backoff) ∧
      Waited lib .promoteRetries (truncateToMillis (w.clock + backoff)) j (m.slot j) trace t := by
  have sound := reachable.sound
  obtain ⟨backoff, duration, named, entry⟩ : ∃ backoff, IsDuration backoff ∧
      response.nextAttemptAt = lib.formatTime (w.clock + backoff) ∧
      (m.slot j).retry = some response.nextAttemptAt := by
    cases step with
    | call fresh run =>
      obtain ⟨reply, same, ran⟩ := exec_reply run
      obtain rfl : Except.ok response = reply := Reply.nacked.inj same
      exact wp_nack_indexed _ m ran response rfl retryable
  refine ⟨backoff, duration, named, run.waited (step.sound sound) ?_⟩
  refine ⟨response.nextAttemptAt, entry, ?_⟩
  rw [named, parseEither, parseTime_later era duration, Option.some_or]

/-! ## Two mails that wait -/

/-- Play a run, then a program, then another run. -/
def playAround {α : Type} (cues : List Cue) (operation : Call) (p : Prog α) (cues' : List Cue) :
    Option (World × α × World × List Passage × World) :=
  (play (World.start (Sample.instant 0)) cues).bind fun played =>
    (execute p (played.2.accept operation)).bind fun ended =>
      (play ended.2 cues').map fun later => (played.2, ended.1, ended.2, later)

theorem run_of_playAround {α : Type} {cues cues' : List Cue} {operation : Call} {p : Prog α} {a : α}
    (plays : playAround cues operation p cues' = some (w, a, m, trace, t)) :
    Reachable sample w ∧ serves.Exec p (w.accept operation) a m ∧ Run sample m trace t := by
  obtain ⟨⟨before, v⟩, played, plays⟩ := Option.bind_eq_some_iff.mp plays
  obtain ⟨⟨a', m'⟩, ends, plays⟩ := Option.bind_eq_some_iff.mp plays
  obtain ⟨⟨later, t'⟩, played', same⟩ := Option.map_eq_some_iff.mp plays
  cases same
  exact ⟨(run_of_play played).reachable (.start (by decide)), exec_of_execute ends,
    run_of_play played'⟩

/-- A mail for half a minute later. -/
def laterMail : Job :=
  { id := "job-1", queue := "mails", scheduledAt := "2026-01-01T00:00:30.000Z" }

def laterCues : List Cue :=
  [.wait 2, .call .promoteScheduled, .call (.fetch ["mails"] 1 "worker-1" 0), .wait 31,
    .call .promoteScheduled, .call (.fetch ["mails"] 1 "worker-1" 0)]

theorem scheduled_waits_laterMail : ∃ m trace t, Run sample m trace t ∧
    trace.map fetchedIDs = [[], [], [], [], [], ["job-1"]] ∧
    Waited sample .promoteScheduled (Sample.instant 30) "job-1" (m.slot "job-1") trace t := by
  have facts : (playAround [] (.push laterMail) (push sample laterMail) laterCues).map (fun r =>
      (r.2.1.toOption.map fun created => (created.id, created.isExisting, created.state),
        (r.1.value .jobs "job-1").isNone, r.2.2.2.1.map fetchedIDs)) =
      some (some ("job-1", false, .scheduled), true, [[], [], [], [], [], ["job-1"]]) := by decide
  obtain ⟨⟨w, reply, m, trace, t⟩, plays, outcome⟩ := Option.map_eq_some_iff.mp facts
  obtain ⟨reachable, pushed, run⟩ := run_of_playAround plays
  obtain ⟨answer, unknown, fetched⟩ : (reply.toOption.map fun created =>
      (created.id, created.isExisting, created.state)) = some ("job-1", false, .scheduled) ∧
      (w.value .jobs "job-1").isNone = true ∧
      trace.map fetchedIDs = [[], [], [], [], [], ["job-1"]] := by
    simpa using outcome
  cases reply with
  | error e => simp [Except.toOption] at answer
  | ok created =>
    obtain ⟨id, new, scheduled⟩ : created.id = "job-1" ∧ created.isExisting = false ∧
        created.state = .scheduled := by simpa [Except.toOption] using answer
    have fresh : (Call.push laterMail).Fresh w := by
      refine ⟨by decide, fun k mem => ?_⟩
      obtain rfl : k = "job-1" := by simpa [Call.clientIDs, laterMail] using mem
      exact Option.isNone_iff_eq_none.mp unknown
    have step : Step sample w (.call (.push laterMail) (.job (.ok created))) m :=
      .call fresh (exec_bind.mpr ⟨_, m, pushed, rfl, rfl⟩)
    obtain ⟨due, reads, -, waited⟩ := scheduled_waits reachable step new scheduled run
    have time : sample.parseRFC3339 laterMail.scheduledAt = some (Sample.instant 30) := by decide
    obtain rfl : due = Sample.instant 30 := Option.some.inj (reads.symm.trans time)
    exact ⟨m, trace, t, run, fetched, id ▸ waited⟩

/-- A mail that a worker has in hand. -/
def takenMail : List Cue :=
  [.call (.push { id := "job-1", queue := "mails" }), .call (.fetch ["mails"] 1 "worker-1" 0)]

def retryCues : List Cue :=
  [.call .promoteRetries, .call (.fetch ["mails"] 1 "worker-1" 0), .wait 2,
    .call .promoteRetries, .call (.fetch ["mails"] 1 "worker-1" 0)]

theorem retry_waits_takenMail : ∃ m trace t backoff, Run sample m trace t ∧
    trace.map fetchedIDs = [[], [], [], [], ["job-1"]] ∧
    Waited sample .promoteRetries (truncateToMillis (Sample.instant 0 + backoff)) "job-1"
      (m.slot "job-1") trace t := by
  have facts : (playAround takenMail (.nack "job-1" none false) (nack sample "job-1" none false)
      retryCues).map (fun r => (r.2.1.toOption.map NackResponse.state, r.1.clock,
        r.2.2.2.1.map fetchedIDs)) =
      some (some .retryable, Sample.instant 0, [[], [], [], [], ["job-1"]]) := by decide
  obtain ⟨⟨w, reply, m, trace, t⟩, plays, outcome⟩ := Option.map_eq_some_iff.mp facts
  obtain ⟨reachable, nacked, run⟩ := run_of_playAround plays
  obtain ⟨answer, clock, fetched⟩ : reply.toOption.map NackResponse.state = some .retryable ∧
      w.clock = Sample.instant 0 ∧ trace.map fetchedIDs = [[], [], [], [], ["job-1"]] := by
    simpa using outcome
  cases reply with
  | error e => simp [Except.toOption] at answer
  | ok response =>
    have retryable : response.state = .retryable := by simpa [Except.toOption] using answer
    have step : Step sample w (.call (.nack "job-1" none false) (.nacked (.ok response))) m :=
      .call (fresh_of_no_ids rfl) (exec_bind.mpr ⟨_, m, nacked, rfl, rfl⟩)
    have era : InEra w.clock := by
      rw [clock]
      unfold InEra
      decide
    obtain ⟨backoff, -, -, waited⟩ := retry_waits reachable era step retryable run
    exact ⟨m, trace, t, backoff, run, fetched, clock ▸ waited⟩

end OjsNats.Lifecycle
