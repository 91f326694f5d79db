import OjsNats.Lifecycle.Extending
import OjsNats.Lifecycle.Handouts
import OjsNats.Lifecycle.Passes

/-!
# Fresh leases

The deadline that a fetch stores is the time of the fetch and the timeout in
nanoseconds, which wraps around at 64 bits.  A lease of a wrapped timeout may be
over when it begins.
-/

namespace OjsNats.Lifecycle

open Core Nats Effect Semantics Program

variable {lib : Externals} {w v t : World} {queue workerID : String} {queues : List String}
  {count visibilityTimeoutMs : Int} {job : Job} {jobs : List Job}

/-- The jobs are active, under leases that began at the given time. -/
def Leased (lib : Externals) (visibilityTimeoutMs now : Int) (jobs : List Job) (t : World) : Prop :=
  ∀ job ∈ jobs, (t.slot job.id).state = some .active ∧ ∃ info,
    (t.slot job.id).active = some info ∧ info.visibilityDeadline =
      lib.formatTime (now + millisToDuration (effectiveVisTimeout lib visibilityTimeoutMs job))

/-- A turn does not touch the leases that there are, and gives one to each job that it claims. -/
theorem Leased.turn {n : Nat} (leased : Leased lib visibilityTimeoutMs w.clock jobs v)
    (sound : Sound v) (clock : v.clock = w.clock)
    (turn : Turn lib queue workerID visibilityTimeoutMs (handedIDs v queue n) [] v t) :
    Leased lib visibilityTimeoutMs w.clock
      (jobs ++ (handedIDs v queue n).filterMap (claimIn lib v)) t := by
  intro job mem
  rcases List.mem_append.mp mem with earlier | later
  · obtain ⟨active, info, stored, deadline⟩ := leased job earlier
    -- an active job has no message that the turn could take
    have apart : job.id ∉ handedIDs v queue n := by
      intro handed
      obtain ⟨msg, one, -⟩ := turn.dealt job.id handed
      obtain ⟨rec, found, state⟩ := record_of_isSome active
      have silent := ((sound.placed job.id).entries_active found state).2.2.2
      simp [silent] at one
    rw [turn.others job.id apart (by simp)]
    exact ⟨active, info, stored, deadline⟩
  · obtain ⟨j, handed, claims⟩ := List.mem_filterMap.mp later
    obtain ⟨rfl, rec, stored, fresh, available, same⟩ := claimIn_eq_some sound claims
    obtain ⟨msg, -, slot⟩ := turn.dealt job.id handed
    rw [slot, fetchedSlot_claimed stored fresh available]
    refine ⟨rfl, _, rfl, ?_⟩
    rw [same, ← clock]
    rfl

theorem wp_fetch_leased (sound : Sound w) :
    serves.wp (fetch lib queues count workerID visibilityTimeoutMs)
      (fun jobs t => (Sound t ∧ t.clock = w.clock) ∧
        Leased lib visibilityTimeoutMs w.clock jobs t) w := by
  simp only [fetch, bind_eq, wp_bind, wp_timeNow]
  refine wp_forEach (fun _ jobs v => (Sound v ∧ v.clock = w.clock) ∧
    Leased lib visibilityTimeoutMs w.clock jobs v)
    ⟨⟨sound, rfl⟩, by simp [Leased]⟩ ?_ fun jobs t h => h
  rintro queue rest jobs v ⟨⟨sound, clock⟩, leased⟩
  refine wp.refine refines_rationed (wp_fetchQueue sound clock (fun _ => ?_) ?_)
  · exact ⟨⟨sound, clock⟩, leased⟩
  · intro _ n _ _ t turn _ sound'
    exact ⟨⟨sound', turn.clock.trans clock⟩, leased.turn sound clock turn⟩

/-! ## Leases that are over when they begin -/

/-- The stored deadline of the job is after the clock. -/
def EndsLater (lib : Externals) (t : World) (j : String) : Prop :=
  ∃ d, Deadline lib t j d ∧ t.clock < d

/-- A pass for stalled jobs leaves the job where it is. -/
def SparedByPass (lib : Externals) (t : World) (j : String) : Prop :=
  ∀ result u, serves.Exec (requeueStalled lib) t result u → (u.slot j).state = some .active

theorem Leased.deadline (leased : Leased lib visibilityTimeoutMs w.clock jobs t)
    (era : InEra w.clock) (mem : job ∈ jobs) (d : Int) : Deadline lib t job.id d ↔
      d = expiry w (effectiveVisTimeout lib visibilityTimeoutMs job) := by
  obtain ⟨-, info, stored, deadline⟩ := leased job mem
  have parsed : lib.parseTime info.visibilityDeadline =
      some (expiry w (effectiveVisTimeout lib visibilityTimeoutMs job)) := by
    rw [deadline]
    exact parseTime_expiry era _
  exact Deadline.eq_iff ⟨info, stored, parsed⟩ d

theorem Deadline.stalled_iff {j : String} {d : Int} (deadline : Deadline lib w j d) :
    Stalled lib w.clock (w.slot j).active ↔ d < w.clock := by
  constructor
  · rintro ⟨info, d', stored, parsed, past⟩
    rwa [(deadline.eq_iff d').mp ⟨info, stored, parsed⟩] at past
  · intro past
    obtain ⟨info, stored, parsed⟩ := deadline
    exact ⟨info, d, stored, parsed, past⟩

/-- A job whose lease is not over is not requeued. -/
theorem sparedByPass_of_deadline {j : String} {d : Int} (sound : Sound t)
    (active : (t.slot j).state = some .active) (deadline : Deadline lib t j d)
    (later : t.clock ≤ d) : SparedByPass lib t j := by
  intro result u run
  have live : ¬ Stalled lib t.clock (t.slot j).active := by
    rw [deadline.stalled_iff]
    exact not_lt.mpr later
  rw [(requeueStalled_passed sound result u run).kept j live]
  exact active

/-- The deadline is stored in whole milliseconds, so it is later than the fetch exactly if the
timeout leads to another millisecond. -/
theorem lt_expiry_iff {timeout : Int} : w.clock < expiry w timeout ↔
    1000000 ≤ w.clock % 1000000 + millisToDuration timeout := by
  unfold expiry truncateToMillis
  omega

theorem Leased.endsLater_iff (leased : Leased lib visibilityTimeoutMs w.clock jobs t)
    (era : InEra w.clock) (sound : Sound t) (clock : t.clock = w.clock) (mem : job ∈ jobs) :
    EndsLater lib t job.id ∧ SparedByPass lib t job.id ↔
      1000000 ≤ w.clock % 1000000 +
        millisToDuration (effectiveVisTimeout lib visibilityTimeoutMs job) := by
  rw [← lt_expiry_iff]
  constructor
  · rintro ⟨⟨d, deadline, later⟩, -⟩
    rw [← (leased.deadline era mem d).mp deadline, ← clock]
    exact later
  · intro later
    have deadline := (leased.deadline era mem _).mpr rfl
    rw [← clock] at later
    have active := (leased job mem).1
    exact ⟨⟨_, deadline, later⟩, sparedByPass_of_deadline sound active deadline later.le⟩

/-- A fresh lease ends later, and no pass at its time takes the job back, exactly if its timeout
in nanoseconds, wrapped to 64 bits, leads to another millisecond. -/
theorem fetch_endsLater_iff (reachable : Reachable lib w) (era : InEra w.clock)
    (run : serves.Exec (fetch lib queues count workerID visibilityTimeoutMs) w jobs t)
    (mem : job ∈ jobs) :
    EndsLater lib t job.id ∧ SparedByPass lib t job.id ↔
      1000000 ≤ w.clock % 1000000 +
        millisToDuration (effectiveVisTimeout lib visibilityTimeoutMs job) := by
  obtain ⟨⟨sound, clock⟩, leased⟩ := wp_fetch_leased reachable.sound jobs t run
  exact leased.endsLater_iff era sound clock mem

/-- Timeouts of up to 292 years are not wrapped. -/
theorem millisToDuration_of_range {ms : Int} (positive : 0 ≤ ms) (range : ms ≤ 9223372036854) :
    millisToDuration ms = ms * 1000000 := by
  unfold millisToDuration
  rw [Int.bmod_eq_of_le] <;> omega

/-- In that range every positive timeout leads to another millisecond. -/
theorem fetch_endsLater_of_range (reachable : Reachable lib w) (era : InEra w.clock)
    (run : serves.Exec (fetch lib queues count workerID visibilityTimeoutMs) w jobs t)
    (mem : job ∈ jobs) (positive : 1 ≤ effectiveVisTimeout lib visibilityTimeoutMs job)
    (range : effectiveVisTimeout lib visibilityTimeoutMs job ≤ 9223372036854) :
    EndsLater lib t job.id ∧ SparedByPass lib t job.id := by
  obtain ⟨⟨sound, clock⟩, leased⟩ := wp_fetch_leased reachable.sound jobs t run
  refine (leased.endsLater_iff era sound clock mem).mpr ?_
  rw [millisToDuration_of_range (by omega) range]
  omega

/-! ## A mail with a timeout of its own -/

def mailFor (visibilityTimeoutMs : Option Int) : List Cue :=
  [.call (.push { id := "job-1", queue := "mails", visibilityTimeoutMs := visibilityTimeoutMs })]

/-- The clock, and the timeouts of the jobs that are fetched. -/
def fetchedTimeouts (visibilityTimeoutMs : Option Int) : Option (Int × List Int) :=
  (playFetch (mailFor visibilityTimeoutMs) ["mails"] 1).map fun r =>
    (r.1.clock, r.2.1.map (effectiveVisTimeout sample 0))

theorem exists_fetchedTimeouts {visibilityTimeoutMs : Option Int} {timeout : Int}
    (plays : fetchedTimeouts visibilityTimeoutMs = some (Sample.instant 0, [timeout])) :
    ∃ w t job, Reachable sample w ∧ InEra w.clock ∧
      serves.Exec (fetch sample ["mails"] 1 "worker-1" 0) w [job] t ∧
      w.clock = Sample.instant 0 ∧ effectiveVisTimeout sample 0 job = timeout := by
  obtain ⟨⟨w, jobs, t⟩, played, outcome⟩ := Option.map_eq_some_iff.mp plays
  obtain ⟨clock, timeouts⟩ := Prod.mk.inj outcome
  obtain ⟨job, rfl, same⟩ := List.map_eq_singleton_iff.mp timeouts
  obtain ⟨reachable, run⟩ := execute_of_playFetch played
  refine ⟨w, t, job, reachable, ?_, exec_of_execute run, clock, same⟩
  dsimp only at clock
  rw [clock]
  unfold InEra
  decide

theorem fetch_endsLater_iff_mail : ∃ w t job,
    serves.Exec (fetch sample ["mails"] 1 "worker-1" 0) w [job] t ∧
      EndsLater sample t job.id ∧ SparedByPass sample t job.id := by
  have plays : fetchedTimeouts none = some (Sample.instant 0, [30000]) := by decide
  obtain ⟨w, t, job, reachable, era, run, clock, timeout⟩ := exists_fetchedTimeouts plays
  refine ⟨w, t, job, run, (fetch_endsLater_iff reachable era run List.mem_cons_self).mpr ?_⟩
  rw [clock, timeout]
  decide

/-- The timeout of the job, in nanoseconds, is a negative number. -/
theorem not_fetch_endsLater : ¬ ∀ (w t : World) (jobs : List Job) (job : Job),
    Reachable sample w → InEra w.clock →
    serves.Exec (fetch sample ["mails"] 1 "worker-1" 0) w jobs t → job ∈ jobs →
    EndsLater sample t job.id ∧ SparedByPass sample t job.id := by
  intro later
  have plays : fetchedTimeouts (some 9223372036855) =
      some (Sample.instant 0, [9223372036855]) := by decide
  obtain ⟨w, t, job, reachable, era, run, clock, timeout⟩ := exists_fetchedTimeouts plays
  obtain ⟨⟨sound, same⟩, leased⟩ := wp_fetch_leased reachable.sound [job] t run
  have ends := later w t [job] job reachable era run List.mem_cons_self
  rw [leased.endsLater_iff era sound same List.mem_cons_self, clock, timeout] at ends
  revert ends
  decide

end OjsNats.Lifecycle
