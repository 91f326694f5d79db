import Mathlib
import OjsNats.Lifecycle.Backlog
import OjsNats.Lifecycle.Resubmission
import OjsNats.Lifecycle.Statistics

/-!
# The jobs that the statistics count

`QueueStats` takes its three numbers from the backlog of the consumer, the
active entries and a counter.  Over a run they stay in step with the jobs and
the acknowledgements until an available job is cancelled: its message stays
behind, and goes on being counted.
-/

namespace OjsNats.Nats

open Core

/-- The ids of the stored jobs of a queue in a state. -/
def World.jobsIn (w : World) (queue : String) (state : State) : List String :=
  (w.kv .jobs).keys.filter fun k =>
    (w.value .jobs k).any fun rec => decide (rec.queue = queue ∧ rec.state = state)

theorem World.mem_jobsIn {w : World} {queue k : String} {state : State} :
    k ∈ w.jobsIn queue state ↔
      ∃ rec, w.value .jobs k = some rec ∧ rec.queue = queue ∧ rec.state = state := by
  rw [World.jobsIn, List.mem_filter, Store.Bucket.mem_keys_iff]
  constructor
  · intro h
    obtain ⟨rec, stored, holds⟩ := Option.any_eq_true _ _ |>.mp h.2
    exact ⟨rec, stored, of_decide_eq_true holds⟩
  · intro h
    obtain ⟨rec, stored, holds⟩ := h
    exact ⟨by rw [← World.value, stored]; rfl, by simp [stored, holds]⟩

theorem World.jobsIn_nodup (w : World) (queue : String) (state : State) :
    (w.jobsIn queue state).Nodup :=
  (w.kv .jobs).keys_nodup.filter _

theorem kvStatsKey_injective {queue other stat : String}
    (same : kvStatsKey queue stat = kvStatsKey other stat) : queue = other := by
  unfold kvStatsKey at same
  rwa [String.append_left_inj, String.append_left_inj] at same

/-! ## The counter -/

theorem atoi_intToStr {n : Int} (low : -(2 ^ 63) ≤ n) (high : n < 2 ^ 63) :
    atoi (intToStr n) = n := by
  have read : (intToStr n).toInt? = some n := Int.toInt?_repr n
  rw [atoi, read]
  dsimp only
  omega

/-- The counter's text for a number of completions; it is created with the first. -/
def completedText (n : Nat) : Option String := if n = 0 then none else some (intToStr n)

/-- The counter goes from one number to the next. -/
theorem completedText_counted {w : World} {queue : String} {n : Nat} (small : n + 1 < 2 ^ 63)
    (text : w.value .stats (kvStatsKey queue "completed") = completedText n) :
    (w.counted queue).value .stats (kvStatsKey queue "completed") = completedText (n + 1) := by
  rw [World.counted, Lifecycle.value_put, dif_pos ⟨rfl, rfl⟩, text]
  cases n with
  | zero => rfl
  | succ n =>
    have read : atoi (intToStr (n + 1 : Nat)) = (n + 1 : Nat) :=
      atoi_intToStr (by omega) (by omega)
    have next : ((n + 1 : Nat) + 1 : Int).bmod (2 ^ 64) = (n + 1 + 1 : Nat) := by
      rw [Int.bmod_eq_of_le (by omega) (by omega)]
      rfl
    simp only [completedText, Nat.add_eq_zero_iff, one_ne_zero, and_false, if_false, nextCount]
    rw [read, next]

end OjsNats.Nats

namespace OjsNats.Lifecycle

open Core Nats Effect Semantics Program

variable {lib : Externals} {w t : World} {queue : String} {event : Event} {trace : List Passage}

/-- A step that is a successful acknowledgement of a job of the queue. -/
def acksOf (queue : String) (p : Passage) : Bool :=
  match p.event with
  | .call (.ack jobID _) (.acked (.ok _)) =>
      (p.before.value .jobs jobID).any fun rec => decide (rec.queue = queue)
  | _ => false

/-! ## What a call must not do -/

/-- The call cancels the job, if the job has not ended. -/
def CancelsJob (lib : Externals) (w : World) (k : String) : Call → Prop
  | .cancel jobID => k = jobID
  | .cancelWorkflow id => ∃ wfState, w.value .workflows id = some wfState ∧
      ¬ (wfState.state = "completed" ∨ wfState.state = "failed" ∨ wfState.state = "cancelled") ∧
      k ∈ wfState.jobIDs
  | .push job => PushCancels lib w job k
  | _ => False

/-- No cron entry keeps the job it remembers where the completions of the queue are counted. -/
def CountApart (w : World) (queue : String) : Prop :=
  ∀ cronJob : CronJob, w.value .cron cronJob.name = some cronJob →
    cronJob.overlapPolicy = "skip" → cronInstanceKey cronJob.name ≠ kvStatsKey queue "completed"

/-- The call cancels no available job of the queue, and no cron pass writes over its counter. -/
structure KeepsTally (lib : Externals) (queue : String) (w : World) (call : Call) : Prop where
  spares : ∀ k rec, CancelsJob lib w k call → w.value .jobs k = some rec → rec.queue = queue →
    rec.state ≠ .available
  apart : call = .fireCronJobs → CountApart w queue

/-! ## Messages of available jobs only -/

namespace Slot

variable {now : Int} {j : String} {m : Move} {s s' : Slot}

/-- A job of the queue with an undelivered message is available. -/
def Live (queue : String) (s : Slot) : Prop :=
  ∀ rec, s.record = some rec → rec.queue = queue → s.messages ≠ [] → rec.state = .available

/-- A job of the queue has no undelivered message. -/
def Silent (queue : String) (s : Slot) : Prop :=
  ∀ rec, s.record = some rec → rec.queue = queue → s.messages = []

theorem Silent.live (silent : s.Silent queue) : s.Live queue :=
  fun rec stored own spoken => absurd (silent rec stored own) spoken

/-- A job that is not available has no message to leave behind. -/
theorem Live.silent (live : s.Live queue)
    (spared : ∀ rec, s.record = some rec → rec.queue = queue → rec.state ≠ .available) :
    s.Silent queue := by
  intro rec stored own
  by_contra spoken
  exact spared rec stored own (live rec stored own spoken)

/-- Every move but a cancellation makes a job with a message available. -/
theorem Step.still_live (step : Step lib now j m s s') (placed : s.Placed j) (other : m ≠ .cancel)
    (live : s.Live queue) : s'.Live queue := by
  have quiet {rec : JobState} (stored : s.record = some rec) (active : rec.state = .active) :
      s.messages = [] := (placed.entries_active stored active).2.2.2
  intro rec' stored' own spoken
  cases step with
  | enqueue none id state => cases stored'; exact state
  | schedule none =>
    rw [placed.eq_vacant none] at spoken
    exact absurd rfl spoken
  | claim | expire | skip => exact absurd rfl spoken
  | extend => exact live rec' stored' own spoken
  | complete stored active | discard stored active | retryLater stored active =>
    exact absurd (quiet stored active) spoken
  | requeue _ _ _ next | promoteScheduled _ _ next | promoteRetry _ _ next | revive _ _ next =>
    cases stored'
    exact next.state
  | cancel => exact absurd rfl other
  | forget => exact live rec' stored' own spoken

theorem Step.silent_of_cancel (step : Step lib now j .cancel s s') (silent : s.Silent queue) :
    s'.Silent queue := by
  intro rec' stored' own
  cases step with
  | cancel stored _ next =>
    cases stored'
    exact silent _ stored (next.queue.symm.trans own)
  | requeue kind => simp at kind

/-- Moves without a cancellation keep the messages to available jobs, and so do
cancellations of jobs without a message. -/
theorem Evolves.live {allowed : Move → Prop} (h : s.Evolves lib now j allowed s')
    (placed : s.Placed j) (live : s.Live queue)
    (spared : allowed .cancel → s.Silent queue ∧ ∀ m, allowed m → m = .cancel) :
    s'.Live queue := by
  by_cases cancels : allowed .cancel
  · obtain ⟨silent, only⟩ := spared cancels
    refine Silent.live ?_
    induction h with
    | refl => exact silent
    | tail _ step ih =>
      obtain ⟨m, ok, step⟩ := step
      exact (only m ok ▸ step).silent_of_cancel ih
  · induction h with
    | refl => exact live
    | tail before step ih =>
      obtain ⟨m, ok, step⟩ := step
      exact step.still_live (Evolves.placed before placed) (fun same => cancels (same ▸ ok)) ih

end Slot

/-- Every job of the queue with an undelivered message is available. -/
def AllLive (queue : String) (w : World) : Prop := ∀ k, (w.slot k).Live queue

/-- A push with a generated id does what it does with a given one. -/
theorem wp_push_as_given {job : Job} {Q : Result Job → World → Prop} (generated : job.id = "")
    (given : ∀ id, id ≠ "" → id ∉ w.used →
      serves.wp (push lib { job with id := id }) Q { w with used := id :: w.used }) :
    serves.wp (push lib job) Q w := by
  rw [push_eq, wp_bind, wp_timeNow, if_pos generated]
  refine wp_bind.mpr (wp_newUUIDv7.mpr fun id nonempty unused => ?_)
  have pushed := given id nonempty unused
  rwa [push_eq, wp_bind, wp_timeNow, if_neg nonempty] at pushed

theorem pushCancels_renamed {id k : String} {used : List String} {job : Job}
    (cancels : PushCancels lib { w with used := used } { job with id := id } k) :
    PushCancels lib w job k := by
  obtain ⟨unique, policy, rec, obstructs, conflict, live⟩ := cancels
  exact ⟨unique, policy, rec, ⟨obstructs.lock, obstructs.nonempty, obstructs.stored,
    obstructs.relevant⟩, conflict, live⟩

theorem live_storedSlot {now : Int} {job : Job} {s : Slot} (silent : s.messages = []) :
    (storedSlot lib now job s).Live queue := by
  intro rec stored own spoken
  unfold storedSlot at stored spoken
  split at stored
  · rename_i later
    rw [if_pos later] at spoken
    exact absurd silent spoken
  · cases stored
    rfl

theorem push_live {job : Job} (sound : Sound w) (given : job.id ≠ "")
    (fresh : (w.slot job.id).record = none)
    (spares : ∀ k rec, PushCancels lib w job k → w.value .jobs k = some rec → rec.queue = queue →
      rec.state ≠ .available) (live : AllLive queue w) :
    serves.wp (push lib job) (fun _ t => AllLive queue t) w := by
  refine (push_submits (fun k => (sound.placed k).keyed) given).mono fun _ t submitted => ?_
  cases submitted with
  | stopped _ same =>
    intro k
    rw [same]
    exact live k
  | @stored u _ spared cancelled moved =>
    -- the lock may have had another job cancelled, which was not available
    have settled (k : String) : (u.slot k).Live queue := by
      by_cases cancels : PushCancels lib w job k
      · have silent := (live k).silent fun rec => spares k rec cancels
        exact ((cancelled k cancels).silent_of_cancel silent).live
      · rw [spared k cancels]
        exact live k
    have vacant : w.slot job.id = Slot.vacant := (sound.placed job.id).eq_vacant fresh
    have untouched : u.slot job.id = Slot.vacant := by
      rw [← vacant]
      refine spared job.id fun cancels => ?_
      obtain ⟨_, _, stored, -⟩ := (cancelled job.id cancels).of_cancel
      cases fresh.symm.trans stored
    intro k
    by_cases own : k = job.id
    · rw [own, moved.slot, untouched]
      exact live_storedSlot rfl
    · rw [moved.others k own]
      exact settled k

/-- Apart from cancellations and pushes no operation cancels a job. -/
theorem not_moves_cancel {call : Call} {k : String} (push : ∀ job, call ≠ .push job)
    (cancel : ∀ jobID, call ≠ .cancel jobID) (cancelWorkflow : ∀ id, call ≠ .cancelWorkflow id) :
    ¬ moves lib call k .cancel := by
  have brings (new : String → JobState → Prop) : ¬ Brings new k .cancel := by simp [Brings]
  cases call with
  | push | cancel | cancelWorkflow => simp at push cancel cancelWorkflow
  | pushBatch => exact brings _
  | fireCronJobs => exact brings fun _ rec => Spawned rec ∧ rec.workflowID = ""
  | createWorkflow | advanceWorkflow => exact brings fun _ rec => Spawned rec
  | ack => exact fun ok => ok.elim (by simp) (brings _)
  | nack => exact fun ok => ok.elim (by simp) (brings _)
  | fetch => simp [moves, Claims]
  | heartbeat => simp [moves, Beats]
  | promoteScheduled | promoteRetries => simp [moves, Promotes]
  | requeueStalled => simp [moves, Stalls]
  | retryDeadLetter | deleteDeadLetter => simp [moves]
  | registerCron | deleteCron | pauseQueue | resumeQueue | setWorkerState => exact id

theorem Step.live (step : Step lib w event t) (sound : Sound w)
    (keeps : event.Meets (KeepsTally lib queue w)) (live : AllLive queue w) : AllLive queue t := by
  have spared {call : Call} {k : String} (keeps : KeepsTally lib queue w call)
      (cancels : CancelsJob lib w k call) : (w.slot k).Silent queue :=
    (live k).silent fun rec => keeps.spares k rec cancels
  cases step with
  | tick => exact live
  | call fresh exec =>
    rename_i operation reply
    have others (none : ∀ k, ¬ moves lib operation k .cancel) : AllLive queue t := fun k =>
      Slot.Evolves.live ((call_evolves sound fresh _ _ exec).slots k) (sound.placed k) (live k)
        fun cancels => absurd cancels (none k)
    cases operation with
    | push job =>
      obtain ⟨r, rfl, ends⟩ := exec_reply exec
      have sound' : Sound (w.accept (.push job)) := sound.accept _
      by_cases given : job.id = ""
      · refine wp_push_as_given (Q := fun _ t => AllLive queue t) given
          (fun id nonempty unused => ?_) r t ends
        have reserved := Reserved.of_generated sound' nonempty unused
        have generated : Evolves lib (fun _ _ => False) (w.accept (.push job))
          { w.accept (.push job) with used := id :: (w.accept (.push job)).used } :=
            evolves_generated
        exact push_live (generated.sound sound') nonempty reserved.vacant
          (fun k rec cancels => keeps.spares k rec (pushCancels_renamed cancels)) live
      · have unknown := fresh.unknown job.id (by simp [Call.clientIDs, given])
        exact push_live sound' given unknown
          (fun k rec cancels => keeps.spares k rec (pushCancels_renamed cancels)) live r t ends
    | cancel jobID =>
      intro k
      refine Slot.Evolves.live ((call_evolves sound fresh _ _ exec).slots k) (sound.placed k)
        (live k) fun ok => ⟨spared keeps ok.1, fun m ok => ok.2⟩
    | cancelWorkflow id =>
      obtain ⟨r, rfl, ends⟩ := exec_reply exec
      refine wp_cancelWorkflow (Q := fun _ t => AllLive queue t) (sound.accept _)
        (fun _ => live) (fun wfState stored open' reply t evolves _ _ _ k => ?_) r t ends
      exact Slot.Evolves.live (evolves.slots k) (sound.placed k) (live k)
        fun ok => ⟨spared keeps ⟨wfState, stored, open', ok.1⟩, fun m ok => ok.2⟩
    | _ => exact others fun k => not_moves_cancel (by simp) (by simp) (by simp)

/-! ## The counter counts the acknowledgements -/

theorem countApart_moveOn {now : Int} {cronJob : CronJob} (apart : CountApart w queue)
    (stored : w.value .cron cronJob.name = some cronJob) :
    CountApart (w.moveOn lib now cronJob) queue := by
  unfold World.moveOn
  split
  · rename_i schedule _
    intro other found skip
    rw [value_put] at found
    split at found
    · rename_i same
      -- the entry keeps its name and its policy
      obtain rfl : movedOn lib schedule now cronJob = other := Option.some.inj found
      exact apart cronJob stored skip
    · exact apart other found skip
  · exact apart

/-- A pass that keeps apart from the counter leaves it alone. -/
theorem pass_count (sound : Sound w) (filed : AllFiled w) (apart : CountApart w queue) :
    serves.wp (fireCronJobs lib) (fun _ t => t.value .stats (kvStatsKey queue "completed") =
      w.value .stats (kvStatsKey queue "completed")) w := by
  rw [fireCronJobs_eq]
  have moved (v : World) (cronJob : CronJob) (now : Int) (key : String) :
      (v.moveOn lib now cronJob).value .stats key = v.value .stats key := by
    unfold World.moveOn
    split
    · exact value_put_other (by simp)
    · rfl
  refine wp_bind.mpr ((wp_notedPass (I := fun _ m => CountApart m queue ∧
    m.value .stats (kvStatsKey queue "completed") = w.value .stats (kvStatsKey queue "completed"))
    sound filed ⟨apart, rfl⟩ ?_).mono fun _ _ h => wp_pure.mpr h.2)
  intro cronJob events m sound' _ stored h
  obtain ⟨apart', same⟩ := h
  refine wp_notedCron sound' ⟨apart', same⟩ (fun _ _ _ => ?_) fun _ _ jobID v pushed => ?_
  · exact ⟨countApart_moveOn apart' stored, (moved _ _ _ _).trans same⟩
  · have cron (name : String) : (v.remember cronJob jobID).value .cron name = m.value .cron name :=
      value_of_kv pushed.remembered name
    have apart'' : CountApart (v.remember cronJob jobID) queue := fun other found skip =>
      apart' other ((cron other.name).symm.trans found) skip
    refine ⟨countApart_moveOn apart'' ((cron cronJob.name).trans stored), ?_⟩
    rw [moved, World.remember]
    have before := value_of_kv pushed.stats (kvStatsKey queue "completed")
    split
    · rename_i skip
      rw [value_put_other fun at' => apart' cronJob stored skip at'.2.symm]
      exact before.trans same
    · exact before.trans same

theorem Completes.same_queue {other : String} {call : Call} {reply : Reply}
    (h : Completes w other call reply) (h' : Completes w queue call reply) : other = queue := by
  obtain ⟨jobID, result, -, rec, rfl, -, stored, -, own⟩ := h
  obtain ⟨_, _, -, rec', same, -, stored', -, own'⟩ := h'
  cases same
  cases stored.symm.trans stored'
  exact own.symm.trans own'

/-- The acknowledgements that succeed are those that complete a job. -/
theorem acksOf_iff {call : Call} {reply : Reply}
    (exec : serves.Exec (call.program lib) (w.accept call) reply t) :
    acksOf queue ⟨w, .call call reply, t⟩ = true ↔ Completes w queue call reply := by
  constructor
  · intro acks
    unfold acksOf at acks
    split at acks
    · rename_i jobID result response same
      cases same
      obtain ⟨rec, stored, own⟩ := (Option.any_eq_true _ _).mp acks
      obtain ⟨r, replied, ends⟩ := exec_reply exec
      cases replied
      rcases ack_counts result _ t ends with ⟨⟨e, refused⟩, -⟩ | ⟨_, rec', -, stored', active, -⟩
      · cases refused
      · obtain rfl : rec = rec' := Option.some.inj (stored.symm.trans stored')
        exact ⟨jobID, result, response, rec, rfl, rfl, stored, active, of_decide_eq_true own⟩
    · cases acks
  · intro completes
    obtain ⟨jobID, result, response, rec, rfl, rfl, stored, -, own⟩ := completes
    simp [acksOf, stored, own]

/-- A step adds to the counter of the queue what it acknowledges there. -/
theorem Step.count (step : Step lib w event t) (sound : Sound w) (filed : AllFiled w)
    (keeps : event.Meets (KeepsTally lib queue w)) :
    t.value .stats (kvStatsKey queue "completed") =
      if acksOf queue ⟨w, event, t⟩ then
        (w.counted queue).value .stats (kvStatsKey queue "completed")
      else w.value .stats (kvStatsKey queue "completed") := by
  cases step with
  | tick => rfl
  | call fresh exec =>
    rename_i operation reply
    by_cases pass : operation = .fireCronJobs
    · subst pass
      obtain ⟨r, rfl, ends⟩ := exec_reply exec
      have apart : CountApart (w.accept .fireCronJobs) queue := keeps.apart rfl
      exact pass_count (sound.accept .fireCronJobs) (filed.of_kv rfl) apart r t ends
    · rcases stats_call pass exec with ⟨same, none⟩ | ⟨other, completes, counted⟩
      · rw [if_neg fun acks => none queue ((acksOf_iff exec).mp acks)]
        exact value_of_kv same _
      · by_cases own : other = queue
        · subst own
          rw [if_pos ((acksOf_iff exec).mpr completes)]
          exact value_of_kv counted _
        · rw [if_neg fun acks => own (completes.same_queue ((acksOf_iff exec).mp acks))]
          refine (value_of_kv counted _).trans (value_counted_other fun same => own ?_)
          exact (kvStatsKey_injective same).symm

/-! ## `QueueStats` -/

/-- The active entry under the key names the queue. -/
def namesQueue (w : World) (queue k : String) : Bool :=
  (w.value .active k).any fun info => decide (info.queue = queue)

/-- The loop over the active entries counts those that name the queue. -/
theorem wp_countActive {keys : List String} {acc : Int} {Q : Int → World → Prop}
    (counted : Q (acc + (keys.filter (namesQueue w queue)).length) w) :
    serves.wp (Program.forEach keys acc (countActive queue)) Q w := by
  induction keys generalizing acc with
  | nil => exact wp_pure.mpr (by simpa using counted)
  | cons k rest ih =>
    refine wp_bind.mpr ?_
    simp only [countActive, bind_eq, pure_eq, wp_bind, wp_get .active]
    cases found : w.lookup .active k with
    | error e =>
      have missing := World.lookup_error w found
      exact wp_pure.mpr (ih (by simpa [namesQueue, missing] using counted))
    | ok entry =>
      obtain ⟨info, rev⟩ := entry
      have stored := World.lookup_value w found
      dsimp only
      split
      · rename_i own
        refine wp_pure.mpr (ih ?_)
        rw [List.filter_cons_of_pos (by simp [namesQueue, stored, own]), List.length_cons,
          Nat.cast_succ, Int.add_comm _ 1, ← Int.add_assoc] at counted
        exact counted
      · rename_i other
        refine wp_pure.mpr (ih ?_)
        rwa [List.filter_cons_of_neg (by simp [namesQueue, stored, other])] at counted

theorem wp_completedCount {Q : Int → World → Prop} {n : Nat} (small : n < 2 ^ 63)
    (text : w.value .stats (kvStatsKey queue "completed") = completedText n) (h : Q n w) :
    serves.wp (completedCount queue) Q w := by
  simp only [completedCount, bind_eq, pure_eq, wp_bind, wp_get .stats]
  cases found : w.lookup .stats (kvStatsKey queue "completed") with
  | error e =>
    have none : n = 0 := by
      by_contra some
      simp [World.lookup_error w found, completedText, some] at text
    subst none
    exact wp_pure.mpr h
  | ok entry =>
    obtain ⟨data, rev⟩ := entry
    rw [World.lookup_value w found, completedText] at text
    split at text
    · cases text
    · cases text
      dsimp only
      rw [atoi_intToStr (by omega) (by omega)]
      exact wp_pure.mpr h

/-- What `QueueStats` reports: the backlog it is told, the active entries that name
the queue, and the counter. -/
theorem wp_queueStats {Q : QueueStats → World → Prop} {pending n : Nat}
    (few : pending < 2 ^ 63) (small : n < 2 ^ 63)
    (text : w.value .stats (kvStatsKey queue "completed") = completedText n)
    (h : ∀ keys : List String, keys.Nodup → (∀ k, k ∈ keys ↔ (w.value .active k).isSome) →
      ∀ report t, report.stats = ⟨pending, (keys.filter (namesQueue w queue)).length, n⟩ →
        Q report t) :
    serves.wp (queueStats queue (some pending)) Q w := by
  have paused {R : Bool → World → Prop} (holds : ∀ b, R b w) :
      serves.wp (isQueuePaused queue) R w := by
    simp only [isQueuePaused, bind_eq, pure_eq, wp_bind, wp_get .queues]
    split <;> exact wp_pure.mpr (holds _)
  refine wp_bind.mpr (paused fun _ => wp_bind.mpr (wp_keys fun keys nodup listed => ?_))
  refine wp_bind.mpr (wp_countActive (wp_bind.mpr (wp_completedCount small text ?_)))
  refine wp_bind.mpr (wp_getConsumer fun consumers => wp_pure.mpr ?_)
  refine h keys nodup listed _ _ ?_
  have available : (pending : Int).bmod (2 ^ 64) = pending :=
    Int.bmod_eq_of_le (by omega) (by omega)
  simp only [available, Int.zero_add]

/-! ## What the numbers count -/

/-- The backlog has one message for each available job of the queue, and no others. -/
theorem length_backlog (sound : Sound w) (present : ∀ k, (w.slot k).Present)
    (live : AllLive queue w) :
    (backlog w queue).length = (w.jobsIn queue .available).length := by
  have all : handedIDs w queue (backlog w queue).length = backlog w queue := by
    rw [handedIDs_eq, List.take_length]
  have nodup : (backlog w queue).Nodup := all ▸ nodup_delivered _ _ sound.single
  refine ((List.perm_ext_iff_of_nodup nodup (w.jobsIn_nodup queue .available)).mpr
    fun k => ?_).length_eq
  rw [World.mem_jobsIn]
  constructor
  · intro waiting
    have spoken := messages_of_backlog waiting
    cases stored : (w.slot k).record with
    | none => simp [(sound.placed k).eq_vacant stored, Slot.vacant] at spoken
    | some rec =>
      have own : rec.queue = queue := queue_of_delivered sound stored (all.symm ▸ waiting)
      exact ⟨rec, stored, own, live k rec stored own spoken⟩
  · intro h
    obtain ⟨rec, stored, own, available⟩ := h
    obtain ⟨m, one, subject⟩ := (sound.placed k).one_message (present k) stored available
    have here : m ∈ (w.slot k).messages := by simp [one]
    obtain ⟨mem, data⟩ := List.mem_filter.mp here
    exact List.mem_map.mpr ⟨m, List.mem_filter.mpr ⟨mem, by simp [subject, own]⟩,
      of_decide_eq_true data⟩

/-- The active entries that name the queue are those of its active jobs. -/
theorem length_active {keys : List String} (sound : Sound w) (labels : Labels w)
    (nodup : keys.Nodup) (listed : ∀ k, k ∈ keys ↔ (w.value .active k).isSome) :
    (keys.filter (namesQueue w queue)).length = (w.jobsIn queue .active).length := by
  refine ((List.perm_ext_iff_of_nodup (nodup.filter _) (w.jobsIn_nodup queue .active)).mpr
    fun k => ?_).length_eq
  rw [World.mem_jobsIn, List.mem_filter, listed k]
  have placed := sound.placed k
  constructor
  · intro h
    obtain ⟨info, active, own⟩ := (Option.any_eq_true _ _).mp h.2
    have state : (w.slot k).state = some .active := placed.active_iff.mp h.1
    obtain ⟨rec, stored, state⟩ := Option.map_eq_some_iff.mp state
    exact ⟨rec, stored, (labels.slots k info rec active stored).symm.trans (of_decide_eq_true own),
      state⟩
  · intro h
    obtain ⟨rec, stored, own, state⟩ := h
    have indexed := placed.active_iff.mpr (by rw [Slot.state_of_record stored, state])
    obtain ⟨info, active⟩ := Option.isSome_iff_exists.mp indexed
    refine ⟨indexed, (Option.any_eq_true _ _).mpr ⟨info, active, decide_eq_true ?_⟩⟩
    exact (labels.slots k info rec active stored).trans own

/-! ## Whole runs -/

/-- What the statistics say of the jobs and of the acknowledgements that have succeeded. -/
structure AddsUp (w : World) (queue : String) (trace : List Passage) (stats : Stats) : Prop where
  available : stats.available = (w.jobsIn queue .available).length
  active : stats.active = (w.jobsIn queue .active).length
  completed : stats.completed = trace.countP (acksOf queue)

/-- `QueueStats` reports the tally, if it is told the number of undelivered messages. -/
def ReportsTally (w : World) (queue : String) (trace : List Passage) : Prop :=
  (∃ report t, serves.Exec (queueStats queue (some (backlog w queue).length)) w report t) ∧
    serves.wp (queueStats queue (some (backlog w queue).length))
      (fun report _ => AddsUp w queue trace report.stats) w

/-- What a run that keeps the tally has kept. -/
structure Counted (queue : String) (trace : List Passage) (w : World) : Prop where
  live : AllLive queue w
  text : trace.countP (acksOf queue) < 2 ^ 63 →
    w.value .stats (kvStatsKey queue "completed") = completedText (trace.countP (acksOf queue))

theorem Counted.snoc {p : Passage} (counted : Counted queue trace p.before)
    (sound : Sound p.before) (filed : AllFiled p.before) (step : Step lib p.before p.event p.after)
    (keeps : p.event.Meets (KeepsTally lib queue p.before)) :
    Counted queue (trace ++ [p]) p.after where
  live := step.live sound keeps counted.live
  text := by
    intro small
    rw [List.countP_append] at small ⊢
    have before := counted.text (by omega)
    rw [step.count sound filed keeps]
    cases acks : acksOf queue p with
    | true =>
      have one : [p].countP (acksOf queue) = 1 := by simp [acks]
      rw [one] at small ⊢
      rw [if_pos rfl]
      exact completedText_counted small before
    | false =>
      have none : [p].countP (acksOf queue) = 0 := by simp [acks]
      rw [none, Nat.add_zero, if_neg Bool.false_ne_true]
      exact before

theorem Run.counted {clock : Int} (run : Run lib (World.start clock) trace w)
    (keeps : ∀ p ∈ trace, p.event.Meets (KeepsTally lib queue p.before)) :
    Counted queue trace w := by
  refine run.holds_along (I := fun done v => Counted queue done v)
    ⟨fun _ => Slot.Silent.live fun _ _ _ => rfl, fun _ => rfl⟩
    fun done p rest whole before step counted => ?_
  have mem : p ∈ trace := by simp [whole]
  exact counted.snoc (before.sound (.start clock)) (Attained.of_run before).filed step
    (keeps p mem)

theorem Run.present {clock : Int} (run : Run lib (World.start clock) trace w) (k : String) :
    (w.slot k).Present :=
  run.holds (I := fun _ v => (v.slot k).Present) (.start clock) .vacant
    fun _ _ _ sound step present => (step.evolves sound k).present present

/-- In a run that cancels no available job of the queue and keeps apart from its
counter, the statistics agree with the jobs. -/
theorem queueStats_tallies {clock : Int} (run : Run lib (World.start clock) trace w)
    (keeps : ∀ p ∈ trace, p.event.Meets (KeepsTally lib queue p.before))
    (waiting : (backlog w queue).length < 2 ^ 63)
    (acked : trace.countP (acksOf queue) < 2 ^ 63) : ReportsTally w queue trace := by
  have sound : Sound w := run.sound (.start clock)
  have counted := run.counted keeps
  refine ⟨exists_exec serves_answers _ _, wp_queueStats waiting acked (counted.text acked)
    fun keys nodup listed report t reported => ?_⟩
  constructor
  · rw [reported, length_backlog sound run.present counted.live]
  · rw [reported, length_active sound run.labels nodup listed]
  · rw [reported]

def mailJob (id : String) : Job := { id := id, type := "mail", queue := "mails" }

/-- Of three mails one has been sent, and one is being sent. -/
def sending : List Cue :=
  [.call (.push (mailJob "job-1")), .call (.push (mailJob "job-2")),
    .call (.push (mailJob "job-3")), .call (.fetch ["mails"] 2 "worker-1" 0),
    .call (.ack "job-1" none)]

theorem keepsTally_of_free {call : Call}
    (free : ∀ job, call = .push job → job.unique = none) (cancel : ∀ jobID, call ≠ .cancel jobID)
    (cancelWorkflow : ∀ id, call ≠ .cancelWorkflow id) (pass : call ≠ .fireCronJobs) :
    KeepsTally lib queue w call where
  spares := by
    intro k rec cancels
    cases call with
    | push job =>
      obtain ⟨unique, policy, -⟩ := cancels
      cases (free job rfl).symm.trans policy
    | cancel jobID => exact absurd rfl (cancel jobID)
    | cancelWorkflow id => exact absurd rfl (cancelWorkflow id)
    | _ => exact cancels.elim
  apart := fun same => absurd same pass

theorem queueStats_tallies_sending : ∃ trace w,
    play (World.start (Sample.instant 0)) sending = some (trace, w) ∧
    (w.jobsIn "mails" .available).length = 1 ∧ (w.jobsIn "mails" .active).length = 1 ∧
    trace.countP (acksOf "mails") = 1 ∧ ReportsTally w "mails" trace := by
  have plays : (play (World.start (Sample.instant 0)) sending).isSome := by decide
  obtain ⟨⟨trace, w⟩, played⟩ := Option.isSome_iff_exists.mp plays
  have facts : (play (World.start (Sample.instant 0)) sending).map (fun r =>
      ((r.2.jobsIn "mails" .available).length, (r.2.jobsIn "mails" .active).length,
        r.1.countP (acksOf "mails"), (backlog r.2 "mails").length)) = some (1, 1, 1, 1) := by decide
  rw [played, Option.map_some, Option.some.injEq] at facts
  simp only [Prod.mk.injEq] at facts
  obtain ⟨available, active, acked, waiting⟩ := facts
  have kind : ∀ cue ∈ sending, cue.Meets fun call => ∀ w, KeepsTally sample "mails" w call := by
    intro cue mem
    simp only [sending, List.mem_cons, List.not_mem_nil, or_false] at mem
    rcases mem with rfl | rfl | rfl | rfl | rfl
    all_goals exact fun w => keepsTally_of_free (by simp [mailJob]) (by simp) (by simp) (by simp)
  refine ⟨trace, w, played, available, active, acked, queueStats_tallies (run_of_play played)
    (fun p mem => ?_) (by omega) (by omega)⟩
  have meets := meets_of_play played kind p mem
  cases event : p.event with
  | tick => trivial
  | call operation reply =>
    rw [event] at meets
    exact meets p.before

/-- The mail is called off before anyone has fetched it. -/
def calledOff : List Cue := [.call (.push (mailJob "job-1")), .call (.cancel "job-1")]

/-- The statistics do not agree with the jobs in every run. -/
theorem not_queueStats_tallies : ¬ ∀ (lib : Externals) (clock : Int) (trace : List Passage)
    (w : World) (queue : String), Run lib (World.start clock) trace w →
    ReportsTally w queue trace := by
  intro agree
  have plays : (play (World.start (Sample.instant 0)) calledOff).isSome := by decide
  obtain ⟨⟨trace, w⟩, played⟩ := Option.isSome_iff_exists.mp plays
  have facts : (play (World.start (Sample.instant 0)) calledOff).bind (fun r =>
      (execute (queueStats "mails" (some (backlog r.2 "mails").length)) r.2).map fun e =>
        (e.1.stats.available, (r.2.jobsIn "mails" .available).length)) = some (1, 0) := by decide
  rw [played, Option.bind_some] at facts
  obtain ⟨⟨report, t⟩, executed, same⟩ := Option.map_eq_some_iff.mp facts
  obtain ⟨reported, none⟩ := Prod.mk.inj same
  have tallied := (agree sample _ trace w "mails" (run_of_play played)).2 report t
    (exec_of_execute executed)
  have wrong := tallied.available
  rw [reported, none] at wrong
  cases wrong

end OjsNats.Lifecycle
