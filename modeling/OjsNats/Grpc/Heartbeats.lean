import OjsNats.Lifecycle.Holding

/-!
# Heartbeats over gRPC

The gRPC server names no jobs in its heartbeats, so they extend no lease: a job
that was fetched over gRPC is held until the timeout of the fetch is over,
however often its worker is heard of.
-/

namespace OjsNats.Grpc

open Core Nats Effect Semantics Program Lifecycle

structure FetchRequest where
  queues : List String := []
  count : Int := 0
  workerId : String := ""

structure HeartbeatRequest where
  workerId : String := ""

variable (lib : Externals)

/-- The call of `Fetch`; `StreamJobs` fetches with the same timeout. -/
def fetchCall (req : FetchRequest) : Call :=
  .fetch req.queues (if req.count ≤ 0 then 1 else req.count) req.workerId
    lib.defaultVisibilityTimeoutMs

/-- The call of `Heartbeat`, with no jobs. -/
def heartbeatCall (req : HeartbeatRequest) : Call :=
  .heartbeat req.workerId [] lib.defaultVisibilityTimeoutMs

variable {lib} {w u t : World} {req : FetchRequest} {job : Job} {jobs : List Job}
  {trace : List Passage}

/-- A job that was fetched over gRPC is active, under a lease of the default timeout, or that of
the job. -/
theorem active_of_fetched (reachable : Reachable lib w)
    (fetched : Step lib w (.call (fetchCall lib req) (.jobs jobs)) u) (mem : job ∈ jobs)
    (era : InEra u.clock) : (u.slot job.id).state = some .active ∧
      Deadline lib u job.id
        (expiry w (effectiveVisTimeout lib lib.defaultVisibilityTimeoutMs job)) := by
  cases fetched with
  | call fresh ran =>
    obtain ⟨jobs', same, ran⟩ := exec_reply ran
    cases same
    obtain ⟨⟨sound, clock⟩, leased⟩ := wp_fetch_leased (reachable.sound.accept _) jobs u ran
    rw [clock] at era
    exact ⟨(leased job mem).1, (leased.deadline era mem _).mpr rfl⟩

/-- A job that was fetched over gRPC is kept exactly if each pass while it is held comes before
the end of its lease, which is that of the fetch until a heartbeat lists the job. -/
theorem grpcJob_kept_iff (reachable : Reachable lib w)
    (fetched : Step lib w (.call (fetchCall lib req) (.jobs jobs)) u) (mem : job ∈ jobs)
    (run : Run lib u trace t) (era : InEra t.clock) :
    KeptByPasses job.id trace ↔ PassesInTime job.id
      (expiry w (effectiveVisTimeout lib lib.defaultVisibilityTimeoutMs job)) trace := by
  have reachable' := reachable.step fetched
  have nonneg := reachable'.clock_nonneg
  have era' := inEra_of_le nonneg era (run.clock_le reachable'.sound)
  obtain ⟨active, deadline⟩ := active_of_fetched reachable fetched mem era'
  exact run.keptByPasses_iff reachable'.sound nonneg era active deadline

/-- Heartbeats over gRPC do not list the job, so without others no pass may come after the
timeout of the fetch. -/
theorem grpcJob_kept_iff_of_unlisted (reachable : Reachable lib w)
    (fetched : Step lib w (.call (fetchCall lib req) (.jobs jobs)) u) (mem : job ∈ jobs)
    (run : Run lib u trace t) (era : InEra t.clock)
    (unlisted : ∀ p ∈ trace, ∀ workerID ids timeout reply,
      p.event = .call (.heartbeat workerID ids timeout) reply → job.id ∉ ids) :
    KeptByPasses job.id trace ↔ ∀ done p rest, trace = done ++ p :: rest → Held job.id done →
      p.isStallPass → p.before.clock ≤
        expiry w (effectiveVisTimeout lib lib.defaultVisibilityTimeoutMs job) := by
  have reachable' := reachable.step fetched
  have nonneg := reachable'.clock_nonneg
  have era' := inEra_of_le nonneg era (run.clock_le reachable'.sound)
  obtain ⟨active, deadline⟩ := active_of_fetched reachable fetched mem era'
  rw [run.keptByPasses_iff reachable'.sound nonneg era active deadline]
  refine forall₃_congr fun done p rest => forall_congr' fun whole => ?_
  rw [leaseEnd_of_unlisted fun q earlier => unlisted q (by simp [whole, earlier])]

/-! ## Workers that are heard of in time -/

/-- When the worker was last heard of over gRPC, after a step. -/
def lastBeat (workerId : String) (since : Int) (p : Passage) : Int :=
  match p.event with
  | .call (.heartbeat id [] _) _ => if id = workerId then p.before.clock else since
  | _ => since

/-- The worker was never silent for the default timeout. -/
def beatsInTime (lib : Externals) (workerId : String) : Int → List Passage → Bool
  | _, [] => true
  | since, p :: rest =>
      p.after.clock < since + millisToDuration lib.defaultVisibilityTimeoutMs &&
        beatsInTime lib workerId (lastBeat workerId since p) rest

/-- A job that waits for a worker. -/
def mailWaiting : World :=
  after (World.start (Sample.instant 0)) (.push { id := "job-1", queue := "mails" })

def mailRequest : FetchRequest := { queues := ["mails"], workerId := "worker-1" }

/-- The pass comes a second after the timeout of the fetch, and sooner after the heartbeat. -/
def beating : List Cue :=
  [.wait 2, .call (heartbeatCall sample { workerId := "worker-1" }), .wait 31,
    .call .requeueStalled]

/-- What happens after the fetch. -/
def playFetched (cues : List Cue) : Option (List Job × World × List Passage × World) :=
  (execute (Nats.fetch sample ["mails"] 1 "worker-1" sample.defaultVisibilityTimeoutMs)
    (mailWaiting.accept (fetchCall sample mailRequest))).bind fun fetched =>
      (play fetched.2 cues).map fun ended => (fetched.1, fetched.2, ended)

theorem exists_playFetched {cues : List Cue}
    (plays : (playFetched cues).map (fun r => r.1.map Job.id) = some ["job-1"]) :
    ∃ job u trace t, playFetched cues = some ([job], u, trace, t) ∧ job.id = "job-1" ∧
      Step sample mailWaiting (.call (fetchCall sample mailRequest) (.jobs [job])) u ∧
      play u cues = some (trace, t) := by
  obtain ⟨⟨jobs, u, trace, t⟩, played, ids⟩ := Option.map_eq_some_iff.mp plays
  obtain ⟨job, rfl, id⟩ := List.map_eq_singleton_iff.mp ids
  obtain ⟨⟨jobs, m⟩, ran, ended⟩ := Option.bind_eq_some_iff.mp played
  obtain ⟨⟨rest, v⟩, later, same⟩ := Option.map_eq_some_iff.mp ended
  cases same
  have fetched : Step sample mailWaiting (.call (fetchCall sample mailRequest) (.jobs [job])) m :=
    .call (fresh_of_no_ids rfl) (exec_bind.mpr ⟨_, _, exec_of_execute ran, rfl, rfl⟩)
  exact ⟨job, _, _, _, played, id, fetched, later⟩

theorem reachable_mailWaiting : Reachable sample mailWaiting := by
  have start : Reachable sample (World.start (Sample.instant 0)) := .start (by decide)
  exact start.after ⟨by decide, fun _ _ => rfl⟩

theorem ids_beating : (playFetched beating).map (fun r => r.1.map Job.id) = some ["job-1"] := by
  decide

theorem inEra_beating (plays : playFetched beating = some (jobs, u, trace, t)) :
    InEra t.clock := by
  have clock : (playFetched beating).map (fun r => r.2.2.2.clock) = some (Sample.instant 31) := by
    decide
  rw [plays, Option.map_some, Option.some_inj] at clock
  dsimp only at clock
  rw [clock]
  unfold InEra
  decide

theorem grpcJob_kept_iff_beating : ∃ job u trace t,
    playFetched beating = some ([job], u, trace, t) ∧ (KeptByPasses job.id trace ↔
      PassesInTime job.id
        (expiry mailWaiting (effectiveVisTimeout sample sample.defaultVisibilityTimeoutMs job))
        trace) := by
  obtain ⟨job, u, trace, t, plays, id, fetched, later⟩ := exists_playFetched ids_beating
  exact ⟨job, u, trace, t, plays, grpcJob_kept_iff reachable_mailWaiting fetched List.mem_cons_self
    (run_of_play later) (inEra_beating plays)⟩

/-- A worker that is heard of in time may lose its job. -/
theorem not_grpcJob_kept : ¬ ∀ (w u t : World) (req : FetchRequest) (jobs : List Job) (job : Job)
    (trace : List Passage), Reachable sample w →
    Step sample w (.call (fetchCall sample req) (.jobs jobs)) u → job ∈ jobs →
    Run sample u trace t → InEra t.clock → beatsInTime sample req.workerId u.clock trace →
    KeptByPasses job.id trace := by
  intro kept
  obtain ⟨job, u, trace, t, plays, id, fetched, later⟩ := exists_playFetched ids_beating
  have era := inEra_beating plays
  have beats : (playFetched beating).map (fun r =>
      beatsInTime sample "worker-1" r.2.1.clock r.2.2.1) = some true := by decide
  have last : (playFetched beating).bind (fun r => r.2.2.1.getLast?.map fun p =>
      (p.isStallPass, (p.before.slot "job-1").state, (p.after.slot "job-1").state)) =
      some (true, some .active, some .available) := by decide
  rw [plays, Option.map_some, Option.some_inj] at beats
  rw [plays, Option.bind_some] at last
  obtain ⟨p, ends, same⟩ := Option.map_eq_some_iff.mp last
  simp only [Prod.mk.injEq] at same
  obtain ⟨pass, active, available⟩ := same
  obtain ⟨done, rfl⟩ := List.getLast?_eq_some_iff.mp ends
  have unsettled : Unsettled job.id done := fun q earlier =>
    meets_of_play later (by simp [beating, Cue.Meets, heartbeatCall, settles]) q
      (List.mem_append_left _ earlier)
  have holds := kept mailWaiting u t mailRequest [job] job _ reachable_mailWaiting fetched
    List.mem_cons_self (run_of_play later) era beats done p [] rfl unsettled pass
  rw [id, available, active] at holds
  simpa using holds rfl

end OjsNats.Grpc
