import OjsNats.Lifecycle.Failures
import OjsNats.Lifecycle.Handouts

/-!
# Streams of jobs

`StreamJobs` counts the jobs that it has sent, and fetches as long as the count
is below its limit.  The jobs end through other calls, of which the count knows
nothing.
-/

namespace OjsNats.Grpc

open Core Nats Effect Semantics Program Lifecycle Relation

structure StreamJobsRequest where
  queues : List String := []
  workerId : String := ""
  maxConcurrent : Int := 0

/-- The limit on the jobs of a stream. -/
def maxConcurrent (req : StreamJobsRequest) : Int :=
  if req.maxConcurrent ≤ 0 then 1 else req.maxConcurrent

/-- A call of `StreamJobs` and the jobs that it has sent; those are outstanding whose
records have been active ever since. -/
structure Stream where
  world : World
  active : Int := 0
  sent : List String := []
  outstanding : List String := []
  reports : List Call := []
  serving : Bool := true

/-- The checks before the loop. -/
def streamJobs (req : StreamJobsRequest) (w : World) : Except String Stream :=
  if req.queues = [] then .error "at least one queue is required"
  else if req.workerId = "" then .error "worker_id is required"
  else .ok { world := w }

/-- A stream fetches at a tick, unless its counter has reached the limit. -/
def Fetches (req : StreamJobsRequest) (active : Int) : Prop := ¬ maxConcurrent req ≤ active

/-- The jobs that a stream has to send at a tick. -/
def tick (lib : Externals) (req : StreamJobsRequest) (active : Int) : Prog (List Job) :=
  if maxConcurrent req ≤ active then
    return []
  else
    fetch lib req.queues (maxConcurrent req - active) req.workerId lib.defaultVisibilityTimeoutMs

/-- The job is in state active. -/
def isActive (w : World) (j : String) : Bool := (w.slot j).state = some .active

/-- The stream sends the jobs, until a send fails. -/
def Stream.sends (s : Stream) (w : World) (jobs : List Job) (n : Nat) : Stream :=
  let new := (jobs.take n).map Job.id
  { s with
    world := w
    active := s.active + new.length
    sent := s.sent ++ new
    outstanding := s.outstanding.filter (isActive w) ++ new
    serving := jobs.length ≤ n }

/-- Another call has reported on a job. -/
def Stream.reported (s : Stream) (w : World) (call : Call) : Stream :=
  { s with
    world := w
    outstanding := s.outstanding.filter (isActive w)
    reports := s.reports ++ [call] }

/-- The job that a call reports on. -/
def reportOn : Call → Option String
  | .ack j _ | .nack j _ _ | .cancel j => some j
  | _ => none

/-- The stream ticks or ends, another call reports on a job that it sent, or time passes. -/
inductive StreamStep (lib : Externals) (req : StreamJobsRequest) : Stream → Stream → Prop
  | tick {s : Stream} {w : World} {jobs : List Job} {n : Nat} : s.serving = true →
      serves.Exec (tick lib req s.active) s.world jobs w → StreamStep lib req s (s.sends w jobs n)
  | report {s : Stream} {w : World} {call : Call} {reply : Reply} {j : String} :
      reportOn call = some j → j ∈ s.sent → Step lib s.world (.call call reply) w →
      StreamStep lib req s (s.reported w call)
  | wait {s : Stream} {w : World} : Step lib s.world .tick w →
      StreamStep lib req s { s with world := w }
  | done {s : Stream} : StreamStep lib req s { s with serving := false }

/-- What is expected of a stream at every tick. -/
structure KeepsDelivering (req : StreamJobsRequest) (s : Stream) : Prop where
  counts : s.active = s.outstanding.length
  fetches : Fetches req s.active ↔ (s.outstanding.length : Int) < maxConcurrent req

section Steps

variable {lib : Externals} {req : StreamJobsRequest} {w w' : World} {s t : Stream}

theorem isActive_iff {j : String} : isActive w j = true ↔ (w.slot j).state = some .active :=
  decide_eq_true_iff

/-- A job that is active has no message for a fetch to take. -/
theorem fetch_activates {queues : List String} {count visibilityTimeoutMs : Int}
    {workerID : String} {jobs : List Job} (reachable : Reachable lib w)
    (run : serves.Exec (fetch lib queues count workerID visibilityTimeoutMs) w jobs w') :
    Reachable lib w' ∧ (∀ j, isActive w j = true → isActive w' j = true) ∧
      (∀ job ∈ jobs, isActive w' job.id = true) ∧ (jobs.length : Int) ≤ max 0 count := by
  obtain ⟨few, out⟩ := fetch_handsOut reachable run
  have evolves := fetch_advances _ _ _ _ w reachable.sound jobs w' run
  have step : Step lib w
      (.call (.fetch queues count workerID visibilityTimeoutMs) (.jobs jobs)) w' :=
    .call ⟨List.nodup_nil, by simp [Call.clientIDs]⟩ (exec_bind.mpr ⟨jobs, w', run, rfl, rfl⟩)
  refine ⟨reachable.step step, fun j active => ?_, fun job mem => ?_, by omega⟩
  · obtain ⟨rec, stored, state⟩ : ∃ rec, (w.slot j).record = some rec ∧ rec.state = .active := by
      simpa [Slot.state] using isActive_iff.mp active
    have silent := ((reachable.sound.placed j).entries_active stored state).2.2.2
    rw [isActive_iff, (evolves.slots j).unannounced silent]
    exact isActive_iff.mp active
  · obtain ⟨state, stored, -⟩ := out.after job mem
    rw [isActive_iff, Slot.state_of_record stored]
    exact congrArg some state

/-- The jobs that are active stay so at a tick, and those to be sent become so. -/
theorem tick_activates {active : Int} {jobs : List Job} (reachable : Reachable lib w)
    (run : serves.Exec (tick lib req active) w jobs w') :
    Reachable lib w' ∧ (∀ j, isActive w j = true → isActive w' j = true) ∧
      (∀ job ∈ jobs, isActive w' job.id = true) ∧
      (jobs.length : Int) ≤ max 0 (maxConcurrent req - active) := by
  unfold tick at run
  split at run
  · obtain ⟨rfl, rfl⟩ := run
    exact ⟨reachable, fun _ same => same, by simp, by simp⟩
  · exact fetch_activates reachable run

theorem wp_ack_ends {j : String} (sound : Sound w) (result : Option RawMessage) :
    serves.wp (ack lib j result) (fun _ t => (t.slot j).state ≠ some .active) w := by
  refine wp_ack sound (fun inactive _ => inactive) fun s u step moved => ?_
  cases step with
  | requeue other => simp at other
  | complete found active next counts =>
    have evolves : Evolves lib (fun _ _ => True) w u :=
      moved.evolves trivial (.complete found active next counts) (by simp [found])
    refine (advanceWorkflow_advances _ _ _ u (evolves.sound sound)).mono fun _ t spawned _ => ?_
    rw [(spawned.slots j).spawned (by rw [moved.slot]), moved.slot]
    simp [Slot.state, next.state]

theorem wp_cancel_ends {j : String} (sound : Sound w) :
    serves.wp (cancel lib j) (fun _ t => (t.slot j).state ≠ some .active) w := by
  refine wp_cancel (sound.placed j).keyed (fun terminal _ active => ?_) fun s u _ step moved => ?_
  · obtain ⟨rec, stored, state⟩ := Option.map_eq_some_iff.mp active
    have ended := terminal rec stored
    rw [state, lib.isTerminalState_iff] at ended
    simp at ended
  · rw [moved.slot]
    cases step with
    | requeue other => simp at other
    | cancel _ _ next => simp [Slot.state, next.state]

/-- A job is not active any more after a report. -/
theorem report_ends {call : Call} {reply : Reply} {j : String} (reachable : Reachable lib w)
    (reports : reportOn call = some j) (step : Step lib w (.call call reply) w') :
    isActive w' j = false := by
  have sound := reachable.sound
  suffices inactive : (w'.slot j).state ≠ some .active from decide_eq_false inactive
  cases step with
  | call fresh run =>
    cases call with
    | ack k result =>
      cases reports
      obtain ⟨r, -, ends⟩ := exec_reply run
      exact wp_ack_ends (sound.accept (.ack j result)) result r w' ends
    | nack k jobErr requeue =>
      cases reports
      obtain ⟨r, -, ends⟩ := exec_reply run
      exact wp_nack_ends (sound.accept (.nack j jobErr requeue)) jobErr requeue r w' ends
    | cancel k =>
      cases reports
      obtain ⟨r, -, ends⟩ := exec_reply run
      exact wp_cancel_ends (sound.accept (.cancel j)) r w' ends
    | _ => cases reports

end Steps

/-! ## Runs of a stream -/

/-- The runs of one stream. -/
abbrev Streams (lib : Externals) (req : StreamJobsRequest) : Stream → Stream → Prop :=
  ReflTransGen (StreamStep lib req)

section Runs

variable {lib : Externals} {req : StreamJobsRequest} {w : World} {s t : Stream}

/-- The counter counts the jobs sent, of which some are over once there was a report. -/
structure Counted (lib : Externals) (req : StreamJobsRequest) (s : Stream) : Prop where
  reachable : Reachable lib s.world
  counter : s.active = s.sent.length
  limited : s.active ≤ maxConcurrent req
  live : ∀ j ∈ s.outstanding, isActive s.world j = true
  whole : s.reports = [] → s.outstanding = s.sent
  ended : s.reports ≠ [] → s.outstanding.length < s.sent.length

theorem maxConcurrent_pos (req : StreamJobsRequest) : 0 < maxConcurrent req := by
  unfold maxConcurrent
  split
  · decide
  · omega

theorem Counted.tick {jobs : List Job} {n : Nat} (counted : Counted lib req s)
    (run : serves.Exec (tick lib req s.active) s.world jobs w) :
    Counted lib req (s.sends w jobs n) := by
  obtain ⟨reachable, stays, becomes, few⟩ := tick_activates counted.reachable run
  have same : s.outstanding.filter (isActive w) = s.outstanding :=
    List.filter_eq_self.mpr fun j mem => stays j (counted.live j mem)
  have below := counted.limited
  refine ⟨reachable, ?_, ?_, ?_, ?_, ?_⟩
  · simp [Stream.sends, counted.counter]
  · have taken : (jobs.take n).length ≤ jobs.length := List.length_take_le' n jobs
    simp only [Stream.sends, List.length_map]
    omega
  · intro j mem
    rcases List.mem_append.mp mem with old | new
    · exact stays j (counted.live j (List.mem_filter.mp old).1)
    · obtain ⟨job, taken, rfl⟩ := List.mem_map.mp new
      exact becomes job (List.mem_of_mem_take taken)
  · intro none
    have whole : s.outstanding = s.sent := counted.whole none
    simp only [Stream.sends, same]
    rw [whole]
  · intro some
    have := counted.ended some
    simp only [Stream.sends, same, List.length_append]
    omega

theorem Counted.report {call : Call} {reply : Reply} {j : String} (counted : Counted lib req s)
    (reports : reportOn call = some j) (own : j ∈ s.sent)
    (step : Step lib s.world (.call call reply) w) : Counted lib req (s.reported w call) := by
  have ended := report_ends counted.reachable reports step
  refine ⟨counted.reachable.step step, counted.counter, counted.limited, fun k mem => ?_, ?_, ?_⟩
  · exact (List.mem_filter.mp mem).2
  · intro none
    simp [Stream.reported] at none
  · intro _
    by_cases first : s.reports = []
    · have whole := counted.whole first
      have fewer : (s.outstanding.filter (isActive w)).length < s.outstanding.length := by
        refine List.length_filter_lt_length_iff_exists.mpr ⟨j, whole ▸ own, ?_⟩
        simp [ended]
      exact whole ▸ fewer
    · exact (List.length_filter_le _ _).trans_lt (counted.ended first)

theorem Counted.step (counted : Counted lib req s) (step : StreamStep lib req s t) :
    Counted lib req t := by
  cases step with
  | tick _ run => exact counted.tick run
  | report reports own step => exact counted.report reports own step
  | @wait w step =>
    have live : ∀ j ∈ s.outstanding, isActive w j = true := by
      cases step with
      | tick => exact counted.live
    exact ⟨counted.reachable.step step, counted.counter, counted.limited, live, counted.whole,
      counted.ended⟩
  | done =>
    exact ⟨counted.reachable, counted.counter, counted.limited, counted.live, counted.whole,
      counted.ended⟩

theorem streamJobs_counted (reachable : Reachable lib w) (opens : streamJobs req w = .ok s)
    (run : Streams lib req s t) : Counted lib req t := by
  have opened : s = { world := w } := by
    unfold streamJobs at opens
    split at opens
    · cases opens
    · split at opens
      · cases opens
      · cases opens
        rfl
  induction run with
  | refl =>
    subst opened
    exact ⟨reachable, rfl, (maxConcurrent_pos req).le, fun j mem => absurd mem (by simp),
      fun _ => rfl, fun some => absurd rfl some⟩
  | tail _ step ih => exact ih.step step

/-- A stream never sends more jobs than its limit, however many have ended. -/
theorem streamJobs_sends_few (reachable : Reachable lib w) (opens : streamJobs req w = .ok s)
    (run : Streams lib req s t) : (t.sent.length : Int) ≤ maxConcurrent req := by
  have counted := streamJobs_counted reachable opens run
  rw [← counted.counter]
  exact counted.limited

/-- A stream keeps delivering exactly as long as no job that it sent has been reported on. -/
theorem keepsDelivering_iff (reachable : Reachable lib w) (opens : streamJobs req w = .ok s)
    (run : Streams lib req s t) : KeepsDelivering req t ↔ t.reports = [] := by
  have counted := streamJobs_counted reachable opens run
  constructor
  · intro keeps
    by_contra some
    have fewer := counted.ended some
    have same := counted.counter.symm.trans keeps.counts
    omega
  · intro none
    have same : t.active = t.outstanding.length := by
      rw [counted.counter, counted.whole none]
    refine ⟨same, ?_⟩
    rw [Fetches, same]
    exact not_le

end Runs

/-! ## A stream of one job at a time -/

def oneMail : StreamJobsRequest :=
  { queues := ["mails"], workerId := "worker-1", maxConcurrent := 1 }

/-- A job waits. -/
def waiting : World :=
  after (World.start (Sample.instant 0)) (.push { id := "job-1", queue := "mails" })

/-- The stream has not ticked yet. -/
def opened : Stream := { world := waiting }

/-- The stream after a tick. -/
def ticked (s : Stream) : Stream :=
  match execute (tick sample oneMail s.active) s.world with
  | some (jobs, w) => s.sends w jobs jobs.length
  | none => s

/-- The stream after its job was acknowledged. -/
def acknowledged (s : Stream) : Stream :=
  s.reported (after s.world (.ack "job-1" none)) (.ack "job-1" none)

theorem reachable_waiting : Reachable sample waiting :=
  (Reachable.start (by decide)).after ⟨by decide, fun _ _ => rfl⟩

theorem streamStep_ticked {s : Stream} (serving : s.serving = true)
    (ends : (execute (tick sample oneMail s.active) s.world).isSome) :
    StreamStep sample oneMail s (ticked s) := by
  obtain ⟨⟨jobs, w⟩, run⟩ := Option.isSome_iff_exists.mp ends
  have same : ticked s = s.sends w jobs jobs.length := by rw [ticked, run]
  rw [same]
  exact .tick serving (exec_of_execute run)

theorem streams_ticked : Streams sample oneMail opened (ticked opened) :=
  .single (streamStep_ticked rfl (by decide))

theorem keepsDelivering_iff_ticked : KeepsDelivering oneMail (ticked opened) :=
  (keepsDelivering_iff reachable_waiting rfl streams_ticked).mpr (by decide)

/-- A stream of one job at a time never fetches again once its job is done. -/
theorem not_keepsDelivering : ¬ ∀ (lib : Externals) (req : StreamJobsRequest) (w : World)
    (s t : Stream), Reachable lib w → streamJobs req w = .ok s → 1 ≤ req.maxConcurrent →
    Streams lib req s t → KeepsDelivering req t := by
  intro keeps
  have ends : (execute ((Call.ack "job-1" none).program sample)
      ((ticked opened).world.accept (.ack "job-1" none))).isSome := by decide
  obtain ⟨reply, step⟩ := exists_step_after (fresh_of_no_ids rfl) ends
  have run : Streams sample oneMail opened (acknowledged (ticked opened)) :=
    streams_ticked.tail (.report rfl (by decide) step)
  have kept := keeps sample oneMail waiting opened _ reachable_waiting rfl (by decide) run
  exact absurd kept.counts (by decide)

end OjsNats.Grpc
