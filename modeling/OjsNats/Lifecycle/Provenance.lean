import OjsNats.Faults.Pushing
import OjsNats.Lifecycle.Failures
import OjsNats.Lifecycle.Membership

/-!
# Where a fetched job comes from

Every job was brought by one step of the run, and what has been agreed on then is what a worker
gets.  For the jobs of clients this is what the client sent.
-/

namespace OjsNats.Lifecycle

open Core Nats Effect Semantics Program

variable {lib : Externals} {w t : World} {j : String} {trace : List Passage}

/-- The terms of a job that an operation brings at the time: for a client's job those it was
sent with, under the id it was sent with. -/
def Agreed (lib : Externals) (now : Int) (j : String) (terms : JobState) : Call → Prop
  | .push given => (given.id = "" ∨ given.id = j) ∧
      terms = (marshalJobState (freshJob lib j now given)).terms
  | .pushBatch jobs => ∃ given ∈ jobs, (given.id = "" ∨ given.id = j) ∧
      terms = (marshalJobState (batchJob lib j now given)).terms
  | .fireCronJobs => terms.unique = none ∧ terms.workflowID = ""
  | .createWorkflow _ | .advanceWorkflow _ _ _ _ | .ack _ _ | .nack _ _ _ => terms.unique = none
  | _ => False

/-! ## Pushes -/

theorem push_agreed {job : Job} (sound : Sound w) (given : job.id ≠ "" → Reserved w job.id) :
    serves.wp (push lib job) (fun _ t => Evolves lib
      (Pushes fun j rec => Agreed lib w.clock j rec.terms (.push job)) w t) w := by
  rw [push_eq, wp_bind, wp_timeNow]
  have rest {id : String} {u : World} (own : job.id = "" ∨ job.id = id) (sound' : Sound u)
      (clock : u.clock = w.clock) (reserved : Reserved u id) :
      serves.wp (pushFresh lib w.clock (freshJob lib id w.clock job)) (fun _ t => Evolves lib
        (Pushes fun j rec => Agreed lib w.clock j rec.terms (.push job)) u t) u := by
    refine (pushFresh_evolves sound' clock rfl reserved).mono ?_
    rintro _ t ⟨next, -⟩
    refine next.mono fun k m moves => Supplants.pushes k m (moves.imp_left (Brings.mono ?_ k m))
    rintro k rec ⟨rfl, state, rfl⟩
    exact ⟨own, rfl⟩
  refine wp_chosenID (fun nonempty => rest (.inr rfl) sound rfl (given nonempty))
    fun generated id nonempty unused => ?_
  have reserved := Reserved.of_generated sound nonempty unused
  have first : Evolves lib (fun _ _ => False) w { w with used := id :: w.used } :=
    evolves_generated
  exact (rest (.inl generated) (first.sound sound) rfl reserved).mono fun _ t next =>
    (first.mono fun _ _ => False.elim).trans next

/-- A turn of a batch with a generated id does what it does with a given one. -/
theorem wp_pushBatchLoop_as_given {now : Int} {job : Job} {rest done : List Job}
    {Q : List Job × Option BackendError → World → Prop} (generated : job.id = "")
    (given : ∀ id, id ≠ "" → id ∉ w.used → serves.wp
      (pushBatchLoop lib now ({ job with id := id } :: rest) done) Q
        { w with used := id :: w.used }) :
    serves.wp (pushBatchLoop lib now (job :: rest) done) Q w := by
  simp only [pushBatchLoop, bind_eq, pure_eq, generated, ↓reduceIte, wp_bind, wp_newUUIDv7]
  intro id nonempty unused
  have turn := given id nonempty unused
  simp only [pushBatchLoop, bind_eq, pure_eq, bind_pure_left, nonempty, ↓reduceIte, wp_bind]
    at turn
  exact turn

theorem wp_pushBatchLoop_turn {now : Int} {job : Job} {rest done : List Job}
    {Q : List Job × Option BackendError → World → Prop} (clock : w.clock = now)
    (reserved : Reserved w job.id)
    (next : ∀ t, Evolves lib
      (fun j m => j = job.id ∧ m = .enqueue (marshalJobState (batchJob lib job.id now job))) w t →
      serves.wp (pushBatchLoop lib now rest (done ++ [batchJob lib job.id now job])) Q t) :
    serves.wp (pushBatchLoop lib now (job :: rest) done) Q w := by
  simp only [pushBatchLoop, bind_eq, pure_eq, bind_pure_left, reserved.nonempty, ↓reduceIte,
    wp_bind, wp_putJobState]
  refine wp_sideline (sideline_ensureQueue _) fun _ u same => ?_
  simp only [wp_publishJob]
  exact next _ (batchJob_evolves clock reserved same)

/-- Every job of the batch is stored with its own terms, each id being still reserved when its
turn comes. -/
theorem pushBatchLoop_agreed {jobs rest done : List Job} (sound : Sound w)
    (sub : ∀ job ∈ rest, job ∈ jobs) (given : ∀ job ∈ rest, job.id ≠ "" → Reserved w job.id)
    (distinct : ((rest.map Job.id).filter (· ≠ "")).Nodup) :
    serves.wp (pushBatchLoop lib w.clock rest done) (fun _ t => Evolves lib
      (Brings fun j rec => Agreed lib w.clock j rec.terms (.pushBatch jobs)) w t) w := by
  induction rest generalizing w done with
  | nil => exact wp_pure.mpr (Evolves.refl w)
  | cons job rest ih =>
    have distinct' : ((rest.map Job.id).filter (· ≠ "")).Nodup := by
      rw [List.map_cons, List.filter_cons] at distinct
      split at distinct
      · exact (List.nodup_cons.mp distinct).2
      · exact distinct
    have turn {id : String} {u : World} (own : job.id = "" ∨ job.id = id) (sound' : Sound u)
        (clock : u.clock = w.clock) (reserved : Reserved u id)
        (others : ∀ other ∈ rest, other.id ≠ "" → Reserved u other.id ∧ other.id ≠ id) :
        serves.wp (pushBatchLoop lib w.clock ({ job with id := id } :: rest) done) (fun _ t =>
          Evolves lib (Brings fun j rec => Agreed lib w.clock j rec.terms (.pushBatch jobs)) u t)
            u := by
      refine wp_pushBatchLoop_turn clock reserved fun t next => ?_
      have brought : Evolves lib
          (Brings fun j rec => Agreed lib w.clock j rec.terms (.pushBatch jobs)) u t := by
        refine next.mono ?_
        rintro j m ⟨rfl, rfl⟩
        exact ⟨_, .inl rfl, job, sub job List.mem_cons_self, own, rfl⟩
      have same : t.clock = w.clock := next.clock.trans clock
      rw [← same]
      rw [← same] at brought
      refine (ih (next.sound sound') (fun job mem => sub job (List.mem_cons_of_mem _ mem))
        (fun other mem nonempty => ?_) distinct').mono fun _ _ more => brought.trans more
      obtain ⟨free, ne⟩ := others other mem nonempty
      exact free.after next fun _ moves => absurd moves.1 ne
    have free (other : Job) (mem : other ∈ rest) (nonempty : other.id ≠ "") :
        Reserved w other.id := given other (List.mem_cons_of_mem _ mem) nonempty
    by_cases generated : job.id = ""
    · refine wp_pushBatchLoop_as_given generated fun id nonempty unused => ?_
      have first : Evolves lib (fun _ _ => False) w { w with used := id :: w.used } :=
        evolves_generated
      refine (turn (.inl generated) (first.sound sound) rfl (.of_generated sound nonempty unused)
        fun other mem nonempty =>
          ⟨(free other mem nonempty).after first fun _ => False.elim, ?_⟩).mono
            fun _ t more => (first.mono fun _ _ => False.elim).trans more
      rintro rfl
      exact unused (free other mem nonempty).used
    · refine turn (.inr rfl) sound rfl (given job List.mem_cons_self generated)
        fun other mem nonempty => ⟨free other mem nonempty, fun same => ?_⟩
      have twice : job.id ∈ (rest.map Job.id).filter (· ≠ "") := by
        simpa [generated] using ⟨other, mem, same⟩
      rw [List.map_cons, List.filter_cons_of_pos (by simpa using generated),
        List.nodup_cons] at distinct
      exact distinct.1 twice

theorem pushBatch_agreed {jobs : List Job} (sound : Sound w)
    (given : ∀ job ∈ jobs, job.id ≠ "" → Reserved w job.id)
    (distinct : ((jobs.map Job.id).filter (· ≠ "")).Nodup) :
    serves.wp (pushBatch lib jobs) (fun _ t => Evolves lib
      (Brings fun j rec => Agreed lib w.clock j rec.terms (.pushBatch jobs)) w t) w := by
  unfold pushBatch
  split
  · exact wp_pure.mpr (Evolves.refl w)
  · simp only [bind_eq, wp_bind, wp_timeNow]
    exact pushBatchLoop_agreed sound (fun _ mem => mem) given distinct

/-! ## One step -/

theorem Brings.made {kind : String → JobState → Prop} {m : Move} {new : JobState}
    (brings : Brings kind j m) (move : m = .enqueue new ∨ m = .schedule new) : kind j new := by
  obtain ⟨rec, same, made⟩ := brings
  rcases move with rfl | rfl <;> simp at same <;> exact same ▸ made

theorem Spawns.made {m : Move} {new : JobState} (spawns : Spawns j m)
    (move : m = .enqueue new ∨ m = .schedule new) : Spawned new :=
  have brings : Brings (fun _ rec => Spawned rec) j m := spawns
  brings.made move

/-- A job that is there after a step was there before, on the same terms, or the step has brought
it. -/
theorem Step.terms_agreed {event : Event} {rec : JobState} (step : Step lib w event t)
    (sound : Sound w) (stored : (t.slot j).record = some rec) :
    (∃ before, (w.slot j).record = some before ∧ rec.terms = before.terms) ∨
      ∃ call reply, event = .call call reply ∧ Agreed lib w.clock j rec.terms call := by
  have origin {now : Int} {allowed : Move → Prop} {call : Call} {reply : Reply}
      (evolves : (w.slot j).Evolves lib now j allowed (t.slot j))
      (agreed : ∀ m new, allowed m → (m = .enqueue new ∨ m = .schedule new) →
        Agreed lib w.clock j new.terms call) :
      (∃ before, (w.slot j).record = some before ∧ rec.terms = before.terms) ∨
        ∃ call' reply', Event.call call reply = .call call' reply' ∧
          Agreed lib w.clock j rec.terms call' := by
    refine (evolves.origin stored).imp_right ?_
    rintro ⟨m, new, ok, kind, same⟩
    exact ⟨call, reply, rfl, same ▸ agreed m new ok kind⟩
  cases step with
  | tick => exact .inl ⟨rec, stored, rfl⟩
  | call fresh run =>
    rename_i call reply
    have sound' := sound.accept call
    have evolves := (call_evolves sound fresh _ _ run).slots j
    cases call with
    | push given =>
      obtain ⟨r, rfl, ran⟩ := exec_reply run
      have own (nonempty : given.id ≠ "") : Reserved (w.accept (.push given)) given.id :=
        .of_fresh fresh (by simp [Call.clientIDs, nonempty]) nonempty
      refine origin ((push_agreed sound' own r t ran).slots j) fun m new ok kind => ?_
      rcases ok with brings | rfl
      · exact brings.made kind
      · simp at kind
    | pushBatch jobs =>
      obtain ⟨r, rfl, ran⟩ := exec_reply run
      have own (given : Job) (mem : given ∈ jobs) (nonempty : given.id ≠ "") :
          Reserved (w.accept (.pushBatch jobs)) given.id :=
        .of_fresh fresh (by simpa [Call.clientIDs, nonempty] using ⟨given, mem, rfl⟩) nonempty
      exact origin ((pushBatch_agreed sound' own fresh.nodup r t ran).slots j)
        fun m new ok kind => Brings.made ok kind
    | fireCronJobs =>
      refine origin evolves fun m new ok kind => ?_
      obtain ⟨rec', same, made, loose⟩ := ok
      obtain rfl : new = rec' := by rcases kind with rfl | rfl <;> simpa using same
      exact ⟨made.unique, loose⟩
    | createWorkflow | advanceWorkflow =>
      exact origin evolves fun m new ok kind => (Spawns.made ok kind).unique
    | ack k result =>
      refine origin evolves fun m new ok kind => ?_
      rcases ok with ⟨-, rfl⟩ | spawns
      · simp at kind
      · exact (Spawns.made spawns kind).unique
    | nack k jobErr requeue =>
      refine origin evolves fun m new ok kind => ?_
      rcases ok with ⟨-, ⟨rfl, -⟩ | ⟨rfl | rfl, -⟩⟩ | spawns
      · simp at kind
      · simp at kind
      · simp at kind
      · exact (Spawns.made spawns kind).unique
    | _ =>
      refine origin evolves fun m new ok kind => absurd ok ?_
      rcases kind with rfl | rfl <;> simp [moves, Claims, Beats, Promotes, Stalls, Cancels]

/-! ## Runs -/

/-- The step brings the job, on these terms. -/
structure BroughtBy (lib : Externals) (j : String) (terms : JobState) (p : Passage) : Prop where
  absent : (p.before.slot j).record = none
  stored : ∃ rec, (p.after.slot j).record = some rec ∧ rec.terms = terms
  agreed : ∃ call reply, p.event = .call call reply ∧ Agreed lib p.before.clock j terms call

/-- Every job that is there was brought by a step of the run, on the terms it has. -/
theorem Run.brought (run : Run lib w trace t) (sound : Sound w) (j : String) (rec : JobState)
    (stored : (t.slot j).record = some rec) :
    (∃ before, (w.slot j).record = some before ∧ rec.terms = before.terms) ∨
      ∃ p ∈ trace, BroughtBy lib j rec.terms p := by
  revert rec
  refine run.holds (I := fun trace t => ∀ rec, (t.slot j).record = some rec →
    (∃ before, (w.slot j).record = some before ∧ rec.terms = before.terms) ∨
      ∃ p ∈ trace, BroughtBy lib j rec.terms p) sound (fun rec stored => .inl ⟨rec, stored, rfl⟩) ?_
  intro done p _ sound' step ih rec stored
  cases found : (p.before.slot j).record with
  | none =>
    rcases step.terms_agreed sound' stored with ⟨before, existing, -⟩ | agreed
    · cases found.symm.trans existing
    · exact .inr ⟨p, by simp, found, ⟨rec, stored, rfl⟩, agreed⟩
  | some before =>
    obtain ⟨after, stored', same⟩ := (step.evolves sound' j).terms found
    cases stored.symm.trans stored'
    rw [same]
    exact (ih before found).imp_right fun ⟨q, mem, brought⟩ => ⟨q, by simp [mem], brought⟩

/-- The jobs that a step returns as fetched. -/
def fetchedJobs (p : Passage) : List Job :=
  match p.event with
  | .call (.fetch _ _ _ _) (.jobs jobs) => jobs
  | _ => []

/-- A fetch hands out what the record says. -/
theorem Step.stored_of_fetched {event : Event} {job : Job} (step : Step lib w event t)
    (sound : Sound w) (fetched : job ∈ fetchedJobs ⟨w, event, t⟩) :
    ∃ rec, (w.slot job.id).record = some rec ∧ (marshalJobState job).terms = rec.terms := by
  cases step with
  | tick => cases fetched
  | call fresh run =>
    rename_i call reply
    cases call with
    | fetch queues count workerID visibilityTimeoutMs =>
      obtain ⟨jobs, rfl, ran⟩ := exec_reply run
      obtain ⟨rec, stored, -, -, -, -, claimed⟩ :=
        (wp_fetch_handsOut (sound.accept _) jobs t ran).2.before job fetched
      refine ⟨rec, stored, ?_⟩
      rw [claimed]
      rfl
    | _ => cases fetched

/-- Every job that a fetch hands out was brought by one earlier step of the run, and it has still
the terms it was brought on: those that its client sent, if a push or a batch brought it. -/
theorem fetched_as_agreed {clock : Int} (run : Run lib (World.start clock) trace t)
    {done rest : List Passage} {p : Passage} (split : trace = done ++ p :: rest) {job : Job}
    (fetched : job ∈ fetchedJobs p) :
    ∃ q ∈ done, BroughtBy lib job.id (marshalJobState job).terms q := by
  subst split
  have start : Sound (World.start clock) := .start clock
  obtain ⟨before, step⟩ := run.split
  obtain ⟨rec, stored, same⟩ := step.stored_of_fetched (before.sound start) fetched
  rw [same]
  rcases before.brought start job.id rec stored with ⟨_, existing, -⟩ | brought
  · cases existing
  · exact brought

/-- A mail that is handed out, put back, and handed out again. -/
def mailTwice : List Cue :=
  [.call (.push { id := "job-1", type := "mail", queue := "mails", priority := some 3 }),
    .call (.fetch ["mails"] 1 "worker-1" 0), .call (.nack "job-1" none true),
    .call (.fetch ["mails"] 1 "worker-2" 0)]

theorem fetched_as_agreed_mailTwice : ∃ trace t job,
    play (World.start (Sample.instant 0)) mailTwice = some (trace, t) ∧
    trace.map fetchedIDs = [[], ["job-1"], [], ["job-1"]] ∧ job.priority = some 3 ∧
    ∃ q ∈ trace, BroughtBy sample job.id (marshalJobState job).terms q := by
  have facts : (play (World.start (Sample.instant 0)) mailTwice).map (fun r =>
      (r.1.map fetchedIDs, r.1.map fun p => (fetchedJobs p).map Job.priority)) =
      some ([[], ["job-1"], [], ["job-1"]], [[], [some 3], [], [some 3]]) := by decide
  obtain ⟨⟨trace, t⟩, plays, outcome⟩ := Option.map_eq_some_iff.mp facts
  obtain ⟨ids, priorities⟩ := Prod.mk.inj outcome
  obtain ⟨done, p, rfl, -, last⟩ := List.map_eq_append_iff.mp
    (show trace.map (fun p => (fetchedJobs p).map Job.priority) =
      [[], [some 3], []] ++ [[some 3]] from priorities)
  obtain ⟨p, rfl, handed⟩ := List.map_eq_singleton_iff.mp last
  obtain ⟨job, fetched, high⟩ := List.map_eq_singleton_iff.mp handed
  obtain ⟨q, mem, brought⟩ := fetched_as_agreed (run_of_play plays) rfl
    (fetched ▸ List.mem_singleton_self job)
  exact ⟨done ++ [p], t, job, plays, ids, high, q, List.mem_append_left _ mem, brought⟩

end OjsNats.Lifecycle
