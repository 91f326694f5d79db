import OjsNats.Lifecycle.System

/-!
# Heartbeats and deadlines

A heartbeat files a new deadline for each active job it lists.  The deadline
comes from the heartbeat alone, so it can end a lease that a fetch made longer.
-/

namespace OjsNats.Lifecycle

open Core Nats Effect Semantics Program

variable {lib : Externals} {w m t u : World} {j k workerID : String} {ids extended : List String}
  {timeout : Int} {response : HeartbeatResponse}

/-- The deadline that is stored for a job. -/
def Deadline (lib : Externals) (w : World) (j : String) (d : Int) : Prop :=
  ∃ info, (w.slot j).active = some info ∧ lib.parseTime info.visibilityDeadline = some d

/-- A job has one deadline at most. -/
theorem Deadline.eq_iff {d : Int} (deadline : Deadline lib w j d) (d' : Int) :
    Deadline lib w j d' ↔ d' = d := by
  obtain ⟨info, stored, parsed⟩ := deadline
  constructor
  · rintro ⟨info', stored', parsed'⟩
    obtain rfl := Option.some.inj (stored.symm.trans stored')
    exact Option.some.inj (parsed'.symm.trans parsed)
  · rintro rfl
    exact ⟨info, stored, parsed⟩

/-- The lease of a job ends no earlier than before. -/
def KeepsLease (lib : Externals) (w u : World) (j : String) : Prop :=
  ∀ d, Deadline lib w j d → ∃ d', Deadline lib u j d' ∧ d ≤ d'

/-- The last millisecond before a timeout is over. -/
def expiry (w : World) (timeout : Int) : Int :=
  truncateToMillis (w.clock + millisToDuration timeout)

/-- No active job of the list has a lease that goes on after the timeout. -/
def LeasesEndBy (lib : Externals) (w : World) (ids : List String) (timeout : Int) : Prop :=
  ∀ j ∈ ids, (w.slot j).state = some .active → ∀ d, Deadline lib w j d → d ≤ expiry w timeout

/-! ## The loop over the listed jobs -/

/-- The active entry that a heartbeat files for a job. -/
def renewed (lib : Externals) (workerID : String) (timeout now : Int) (s : Slot) :
    Option ActiveJobInfo :=
  s.record.map fun rec => activeInfo lib rec.queue workerID now timeout

/-- The active ones of the jobs looked at are extended, and the others are as before. -/
structure Extended (lib : Externals) (workerID : String) (timeout : Int) (w : World)
    (seen extended : List String) (m : World) : Prop where
  records : ∀ j, (m.slot j).record = (w.slot j).record
  listed : ∀ j, j ∈ extended ↔ j ∈ seen ∧ (w.slot j).state = some .active
  leases : ∀ j, j ∈ extended → (m.slot j).active = renewed lib workerID timeout w.clock (w.slot j)
  others : ∀ j, j ∉ extended → (m.slot j).active = (w.slot j).active

namespace Extended

variable {seen : List String}

theorem none_seen (same : SameBoard w m) : Extended lib workerID timeout w [] [] m where
  records := fun j => by rw [same.slots]
  listed := by simp
  leases := by simp
  others := fun j _ => by rw [same.slots]

theorem same (done : Extended lib workerID timeout w seen extended m) (same : SameBoard m t) :
    Extended lib workerID timeout w seen extended t := by
  constructor
  · exact fun j => by rw [same.slots, done.records]
  · exact done.listed
  · exact fun j mem => by rw [same.slots, done.leases j mem]
  · exact fun j absent => by rw [same.slots, done.others j absent]

theorem passed (done : Extended lib workerID timeout w seen extended m)
    (idle : (w.slot k).state ≠ some .active) :
    Extended lib workerID timeout w (seen ++ [k]) extended m where
  records := done.records
  listed := fun j => by
    rw [done.listed, List.mem_append, List.mem_singleton, or_and_right]
    constructor
    · exact .inl
    · rintro (before | ⟨rfl, active⟩)
      · exact before
      · exact absurd active idle
  leases := done.leases
  others := done.others

theorem renew (done : Extended lib workerID timeout w seen extended m) {rec : JobState}
    (found : (w.slot k).record = some rec) (active : rec.state = .active) :
    Extended lib workerID timeout w (seen ++ [k]) (extended ++ [k])
      (m.put .active k (activeInfo lib rec.queue workerID w.clock timeout)) where
  records := fun j => by
    rw [slot_put, ← done.records]
    split <;> rfl
  listed := fun j => by
    rw [List.mem_append, done.listed, List.mem_append, or_and_right]
    refine or_congr Iff.rfl ⟨fun mem => ⟨mem, ?_⟩, And.left⟩
    rw [List.mem_singleton.mp mem, Slot.state, found, Option.map_some, active]
  leases := fun j mem => by
    rw [slot_put]
    split
    · rename_i same
      rw [same, renewed, found]
      rfl
    · rename_i other
      refine done.leases j ((List.mem_append.mp mem).resolve_right fun last => ?_)
      exact other (List.mem_singleton.mp last)
  others := fun j absent => by
    have other : j ≠ k := fun same => absent (List.mem_append_right _ (by simp [same]))
    rw [slot_put, if_neg other]
    exact done.others j fun mem => absent (List.mem_append_left _ mem)

end Extended

theorem wp_extendLease {seen : List String}
    (done : Extended lib workerID timeout w seen extended m) :
    serves.wp (extendLease lib workerID timeout w.clock k extended)
      (fun extended' t => Extended lib workerID timeout w (seen ++ [k]) extended' t) m := by
  simp only [extendLease, bind_eq, wp_bind, wp_getJobState]
  cases found : (w.slot k).record with
  | none =>
    have idle : (w.slot k).state ≠ some .active := by simp [Slot.state, found]
    rw [World.job_of_none ((done.records k).trans found)]
    exact wp_pure.mpr (done.passed idle)
  | some rec =>
    rw [World.job_of_record ((done.records k).trans found)]
    dsimp only
    split
    · rename_i idle
      refine wp_pure.mpr (done.passed fun active => idle ?_)
      rw [Slot.state, found] at active
      exact Option.some.inj active
    · rename_i active
      simp only [wp_bind, wp_put]
      have extends_ := done.renew found (not_not.mp active)
      exact wp_sideline (sideline_inProgress k) fun _ t same => wp_pure.mpr (extends_.same same)

theorem wp_findDirective {found : Option String} {Q : Option String → World → Prop}
    (same : ∀ directive, Q directive w) : serves.wp (findDirective k found) Q w := by
  unfold findDirective
  split
  · exact wp_pure.mpr (same _)
  · simp only [bind_eq, wp_bind, wp_getJobState]
    split <;> exact wp_pure.mpr (same _)

/-- A heartbeat extends the leases of the active jobs of its list, and of no others. -/
theorem wp_heartbeat_extended : serves.wp (heartbeat lib workerID ids timeout) (fun response u =>
    Extended lib workerID timeout w ids response.jobsExtended u) w := by
  simp only [heartbeat, bind_eq, wp_bind, wp_timeNow, wp_get .workers]
  refine wp_sideline (sideline_put rfl _ _) fun _ v same => ?_
  refine (wp_forEach (fun rest extended m => ∃ seen, seen ++ rest = ids ∧
    Extended lib workerID timeout w seen extended m) ⟨[], rfl, .none_seen same⟩ ?_
    fun _ _ h => h).mono ?_
  · rintro k rest extended m ⟨seen, rfl, done⟩
    exact (wp_extendLease done).mono fun _ _ next => ⟨seen ++ [k], by simp, next⟩
  · rintro extended t ⟨seen, rfl, done⟩
    rw [List.append_nil] at *
    refine iteInduction (motive := fun p => serves.wp p _ t) (fun _ => ?_) fun _ => ?_
    · refine wp_bind.mpr ((wp_forEach (fun _ _ m => m = t) rfl ?_ fun _ _ h => h).mono ?_)
      · rintro k _ _ _ rfl
        exact wp_findDirective fun _ => rfl
      · rintro _ _ rfl
        exact wp_bind.mpr (wp_pure.mpr (wp_pure.mpr done))
    · exact wp_bind.mpr (wp_pure.mpr (wp_pure.mpr done))

/-! ## Leases that a heartbeat keeps -/

/-- A time that is a duration away reads back, but for the part of a millisecond. -/
theorem parseTime_later {now d : Int} (era : InEra now) (duration : IsDuration d) :
    lib.parseTime (lib.formatTime (now + d)) = some (truncateToMillis (now + d)) := by
  unfold InEra lastInstant at era
  unfold IsDuration at duration
  exact lib.parseTime_formatTime _ (by unfold firstInstant; omega) (by unfold lastInstant; omega)

theorem parseTime_expiry (era : InEra w.clock) (timeout : Int) :
    lib.parseTime (lib.formatTime (w.clock + millisToDuration timeout)) =
      some (expiry w timeout) :=
  parseTime_later era (isDuration_millisToDuration timeout)

theorem Extended.deadline (done : Extended lib workerID timeout w ids extended u)
    (era : InEra w.clock) (mem : j ∈ extended) (d : Int) :
    Deadline lib u j d ↔ d = expiry w timeout := by
  obtain ⟨-, active⟩ := (done.listed j).mp mem
  cases found : (w.slot j).record with
  | none => simp [Slot.state, found] at active
  | some rec =>
    have lease := done.leases j mem
    rw [renewed, found, Option.map_some] at lease
    have deadline : Deadline lib u j (expiry w timeout) :=
      ⟨_, lease, parseTime_expiry era timeout⟩
    exact deadline.eq_iff d

/-- A heartbeat shortens no lease it extends exactly if none of them goes on after its timeout. -/
theorem keepsLeases_iff (era : InEra w.clock)
    (run : serves.Exec (heartbeat lib workerID ids timeout) w response u) :
    (∀ j ∈ response.jobsExtended, KeepsLease lib w u j) ↔ LeasesEndBy lib w ids timeout := by
  have done := wp_heartbeat_extended response u run
  constructor
  · intro keeps j mem active d before
    have listed := (done.listed j).mpr ⟨mem, active⟩
    obtain ⟨d', after, le⟩ := keeps j listed d before
    exact le.trans_eq ((done.deadline era listed d').mp after)
  · intro ends j listed d before
    obtain ⟨mem, active⟩ := (done.listed j).mp listed
    exact ⟨_, (done.deadline era listed _).mpr rfl, ends j mem active d before⟩

/-- A job was fetched for a minute. -/
def leased : World :=
  let mail : Job := { id := "job-1", type := "mail", queue := "mails" }
  after (after (World.start (Sample.instant 0)) (.push mail)) (.fetch ["mails"] 1 "worker-1" 60000)

theorem reachable_leased : Reachable sample leased := by
  have start : Reachable sample (World.start (Sample.instant 0)) := .start (by decide)
  unfold leased
  refine Reachable.after (start.after ?_) ?_
  · exact ⟨by decide, fun _ _ => rfl⟩
  · exact fresh_of_no_ids rfl

theorem inEra_leased : InEra leased.clock := by
  unfold InEra
  decide

theorem deadline_leased (d : Int) : Deadline sample leased "job-1" d ↔ d = Sample.instant 60 := by
  have stored : ((leased.slot "job-1").active.bind fun info =>
      sample.parseTime info.visibilityDeadline) = some (Sample.instant 60) := by decide
  obtain ⟨info, active, parsed⟩ := Option.bind_eq_some_iff.mp stored
  exact Deadline.eq_iff ⟨info, active, parsed⟩ d

/-- Two more minutes are no loss. -/
theorem keepsLeases_iff_leased : ∃ response u,
    serves.Exec (heartbeat sample "worker-1" ["job-1"] 120000) leased response u ∧
      "job-1" ∈ response.jobsExtended ∧
      ∀ j ∈ response.jobsExtended, KeepsLease sample leased u j := by
  obtain ⟨response, u, run⟩ := exists_exec serves_answers
    (heartbeat sample "worker-1" ["job-1"] 120000) leased
  refine ⟨response, u, run, ?_, (keepsLeases_iff inEra_leased run).mpr fun j mem _ d before => ?_⟩
  · exact ((wp_heartbeat_extended response u run).listed "job-1").mpr (by decide)
  · obtain rfl := List.mem_singleton.mp mem
    rw [(deadline_leased d).mp before]
    decide

/-- Half a minute is less than the minute of the fetch. -/
theorem not_keepsLeases : ¬ ∀ (lib : Externals) (w u : World) (workerID : String)
    (ids : List String) (timeout : Int) (response : HeartbeatResponse), Reachable lib w →
    InEra w.clock → serves.Exec (heartbeat lib workerID ids timeout) w response u →
    ∀ j ∈ response.jobsExtended, KeepsLease lib w u j := by
  intro keeps
  obtain ⟨response, u, run⟩ := exists_exec serves_answers
    (heartbeat sample "worker-1" ["job-1"] 30000) leased
  have done := wp_heartbeat_extended response u run
  have listed := (done.listed "job-1").mpr (by decide)
  obtain ⟨d, after, later⟩ := keeps sample leased u "worker-1" _ _ response reachable_leased
    inEra_leased run "job-1" listed _ ((deadline_leased _).mpr rfl)
  rw [(done.deadline inEra_leased listed d).mp after] at later
  exact absurd later (by decide)

end OjsNats.Lifecycle
