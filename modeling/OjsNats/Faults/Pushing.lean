import OjsNats.Faults.Frames
import OjsNats.Lifecycle.Absence
import OjsNats.Lifecycle.Handouts

/-!
# Pushing a job when a call fails

A push that cannot write the record of its job leaves nothing behind.  One that
wrote it may still fail to announce the job or to file it in the index.
-/

namespace OjsNats.Lifecycle

open Core Nats Effect Semantics Program

variable {lib : Externals} {w t : World} {k : String} {job : Job} {unique : UniquePolicy}

/-! ## What a push promises -/

/-- The ids that a step returns as fetched. -/
def fetchedIDs (p : Passage) : List String :=
  match p.event with
  | .call (.fetch _ _ _ _) (.jobs jobs) => jobs.map Job.id
  | _ => []

/-- The step is a push that is refused because of the job. -/
def RefusedFor (k : String) (p : Passage) : Prop :=
  ∃ job message details, p.event = .call (.push job) (.job (.error (.duplicate message details))) ∧
    ("existing_job_id", k) ∈ details

/-- No step of the run stores a job under the id. -/
def Unborn (k : String) (trace : List Passage) : Prop :=
  ∀ p ∈ trace, (p.before.slot k).record = none → (p.after.slot k).record = none

/-- There is no trace of the job, and unless it is stored anew it is never fetched and stands
in the way of no other push. -/
structure Forgotten (lib : Externals) (k : String) (t : World) : Prop where
  vacant : t.slot k = Slot.vacant
  unfetched : ∀ trace u, Run lib t trace u → Unborn k trace → ∀ p ∈ trace, k ∉ fetchedIDs p
  unblocking : ∀ trace u, Run lib t trace u → Unborn k trace → ∀ p ∈ trace, ¬ RefusedFor k p

/-- A job that was accepted can be found by a fetch or by the scheduler; one that was refused
is forgotten.  A job that was there before is not what the push accepted. -/
def Truthful (lib : Externals) (w : World) (reply : Result Job) (t : World) : Prop :=
  match reply with
  | .ok new => (w.slot new.id).record = none →
      (t.slot new.id).messages ≠ [] ∨ (t.slot new.id).scheduled.isSome
  | .error _ => ∀ k ∈ t.used, (w.slot k).record = none → Forgotten lib k t

theorem Run.absent {trace : List Passage} {u : World} (run : Run lib t trace u)
    (absent : (t.slot k).record = none) (unborn : Unborn k trace) :
    ∀ p ∈ trace, (p.before.slot k).record = none := by
  induction run with
  | nil => simp
  | @cons w m u event rest step _ ih =>
    have next : (m.slot k).record = none := unborn _ List.mem_cons_self absent
    have later := ih next fun p mem => unborn p (List.mem_cons_of_mem _ mem)
    exact List.forall_mem_cons.mpr ⟨absent, later⟩

theorem wp_storeJob_accepts {now : Int} (clock : w.clock = now) :
    serves.wp (storeJob lib now job) (fun reply _ => ∃ new, reply = .ok new) w := by
  subst clock
  exact wp_storeJob_stores fun state _ _ _ => ⟨enqueuedJob lib state w.clock job, rfl⟩

/-- The block of the policy refuses a push only because of a job that is there. -/
theorem wp_handleUnique_refused (keyed : ∀ k rec, (w.slot k).record = some rec → rec.id = k)
    (absent : (w.slot k).record = none) : serves.wp (handleUnique lib job unique) (fun early u =>
      u.clock = w.clock ∧ ∀ message details, early = some (.error (.duplicate message details)) →
        ("existing_job_id", k) ∉ details) w := by
  by_cases obstructed : ∃ holder rec, Obstructs lib w job unique holder rec
  · obtain ⟨holder, rec, obstructs⟩ := obstructed
    refine wp_handleUnique_obstructed keyed obstructs (fun _ => ⟨rfl, ?_⟩)
      (fun _ => ⟨rfl, by simp⟩) (fun _ _ _ _ moved => ⟨moved.clock, by simp⟩)
      fun _ => ⟨rfl, by simp⟩
    rintro message details same
    cases same
    have ne : k ≠ holder := by
      rintro rfl
      simp [obstructs.stored] at absent
    simpa using ne
  · exact wp_handleUnique_unobstructed (fun holder rec obstructs =>
      obstructed ⟨holder, rec, obstructs⟩) fun _ same _ => ⟨same.clock, by simp⟩

theorem wp_push_refused (keyed : ∀ k rec, (w.slot k).record = some rec → rec.id = k)
    (absent : (w.slot k).record = none) : serves.wp (push lib job) (fun reply _ =>
      ∀ message details, reply = .error (.duplicate message details) →
        ("existing_job_id", k) ∉ details) w := by
  rw [push_eq, wp_bind, wp_timeNow]
  have accepted {u : World} {now : Int} {job : Job} (clock : u.clock = now) :
      serves.wp (storeJob lib now job) (fun reply _ => ∀ message details,
        reply = .error (.duplicate message details) → ("existing_job_id", k) ∉ details) u :=
    (wp_storeJob_accepts clock).mono fun _ _ ⟨_, ok⟩ _ _ error => by cases ok.symm.trans error
  have rest (id : String) (ids : List String) : serves.wp
      (pushFresh lib w.clock (freshJob lib id w.clock job)) (fun reply _ =>
        ∀ message details, reply = .error (.duplicate message details) →
          ("existing_job_id", k) ∉ details) { w with used := ids } := by
    unfold pushFresh
    cases (freshJob lib id w.clock job).unique with
    | none => exact accepted rfl
    | some unique =>
      refine wp_bind.mpr ((wp_handleUnique_refused (w := { w with used := ids }) keyed
        absent).mono ?_)
      rintro (_ | early) u ⟨clock, unrelated⟩
      · exact accepted clock
      · exact wp_pure.mpr fun message details same => unrelated message details (congrArg some same)
  exact wp_chosenID (fun _ => rest job.id w.used) fun _ id _ _ => rest id (id :: w.used)

theorem Step.unfetched {event : Event} (step : Step lib w event t) (sound : Sound w)
    (absent : (w.slot k).record = none) : k ∉ fetchedIDs ⟨w, event, t⟩ := by
  cases step with
  | tick => exact List.not_mem_nil
  | @call _ call reply fresh run =>
    cases call with
    | fetch queues count workerID visibilityTimeoutMs =>
      obtain ⟨jobs, rfl, ran⟩ := exec_reply run
      intro fetched
      obtain ⟨job, mem, rfl⟩ := List.mem_map.mp fetched
      obtain ⟨rec, stored, -⟩ := (wp_fetch_handsOut (sound.accept _) jobs t ran).2.before job mem
      cases absent.symm.trans stored
    | _ => exact List.not_mem_nil

theorem Step.unrefused {event : Event} (step : Step lib w event t) (sound : Sound w)
    (absent : (w.slot k).record = none) : ¬ RefusedFor k ⟨w, event, t⟩ := by
  rintro ⟨job, message, details, event, named⟩
  dsimp only at event
  subst event
  cases step with
  | call fresh run =>
    obtain ⟨reply, same, ran⟩ := exec_reply run
    obtain rfl : Except.error (.duplicate message details) = reply := Reply.job.inj same
    exact wp_push_refused (fun k => ((sound.accept _).placed k).keyed) absent _ t ran message
      details rfl named

/-- A job without a trace is forgotten. -/
theorem Forgotten.of_vacant (sound : Sound t) (vacant : t.slot k = Slot.vacant) :
    Forgotten lib k t where
  vacant := vacant
  unfetched := by
    intro trace u run unborn p mem
    obtain ⟨before, step⟩ := run.step_of_mem sound mem
    exact step.unfetched before (run.absent (by rw [vacant]; rfl) unborn p mem)
  unblocking := by
    intro trace u run unborn p mem
    obtain ⟨before, step⟩ := run.step_of_mem sound mem
    exact step.unrefused before (run.absent (by rw [vacant]; rfl) unborn p mem)

end OjsNats.Lifecycle

namespace OjsNats.Faults

open Core Nats Effect Semantics Program Lifecycle

variable {lib : Externals} {w t : World} {log : List Op} {job : Job} {unique : UniquePolicy}
  {reply : Result Job}

/-! ## Storing a job when a call fails -/

/-- The calls that put a stored job where it can be found. -/
def Places : Op → Prop
  | .publish _ _ => True
  | .put .scheduled _ _ => True
  | _ => False

theorem wp_storeJob {Q : Result Job → World × List Op → Prop}
    (placed : ∀ state u quiet, Quiet quiet →
      (u.slot job.id).messages ≠ [] ∨ (u.slot job.id).scheduled.isSome →
      Q (.ok (enqueuedJob lib state w.clock job)) (u, log ++ quiet))
    (unstored : ∀ u quiet e rec, Quiet quiet → SameBoard w u →
      Q (.error e) (u, log ++ quiet ++ [.put .jobs job.id rec]))
    (unindexed : ∀ u quiet rec due, Quiet quiet → SameBoard w u →
      Q (.ok (enqueuedJob lib .scheduled w.clock job))
        (u.put .jobs job.id rec, log ++ quiet ++ [.put .scheduled job.id due]))
    (unpublished : ∀ u quiet e rec subject, Quiet quiet → SameBoard w u →
      Q (.error e) (u.put .jobs job.id rec, log ++ quiet ++ [.publish subject job.id])) :
    faulty.wp (storeJob lib w.clock job) Q (w, log) := by
  refine wp_bind.mpr (wp_onQueues (onlyOn_ensureQueue _) fun _ v quiet same silent => ?_)
  refine wp_bind.mpr (wp_onQueues (onlyOn_storeRateLimit _) fun _ u quiet' same' silent' => ?_)
  have board : SameBoard w u := same.trans same'
  have all : Quiet (quiet ++ quiet') := List.forall_mem_append.mpr ⟨silent, silent'⟩
  rw [List.append_assoc]
  split
  · simp only [putJobState, bind_eq, pure_eq, wp_bind, wp_put, wp_pure]
    exact ⟨⟨placed .scheduled _ _ all (.inr (by simp [Slot.write])),
      unindexed _ _ _ _ all board⟩, unstored _ _ _ _ all board⟩
  · simp only [putJobState, bind_eq, pure_eq, wp_bind, wp_put, wp_pure]
    refine ⟨wp_publishJob (wp_pure.mpr ?_) fun e => wp_pure.mpr ?_, unstored _ _ _ _ all board⟩
    · exact placed .available _ _ all (.inl (by simp))
    · exact unpublished _ _ _ _ _ all board

/-! ## The policy block when a call fails -/

theorem unplacing_of_byPolicy {op : Op} (by' : ByPolicy op) : ¬ Places op := by
  cases op with
  | put b =>
    obtain rfl : b = .jobs := by'
    exact id
  | publish => exact by'.elim
  | _ => exact id

theorem wp_checkAndSet {fingerprint k : String} {Q : Except CallError String → World × List Op → Prop}
    (unknown : ∀ e log', Q (.error e) (w, log'))
    (taken : Q (.ok "") (w.put .unique fingerprint k, log))
    (held : ∀ holder, Q (.ok holder) (w, log)) :
    faulty.wp (UniqueStore.checkAndSet fingerprint k) Q (w, log) := by
  refine wp_bind.mpr (wp_ask_faulty.mpr ⟨wp_create.mpr ?_, ?_⟩)
  · split
    · refine wp_bind.mpr ((wp_get .unique).mpr ⟨?_, wp_pure.mpr (unknown _ _)⟩)
      cases w.lookup .unique fingerprint with
      | ok entry => exact wp_pure.mpr (held entry.1)
      | error e => exact wp_pure.mpr (unknown _ _)
    · exact wp_pure.mpr taken
  · rintro _ ⟨rfl, -⟩
    exact wp_pure.mpr (unknown _ _)

theorem wp_info {k : String} {Q : Result Job → World × List Op → Prop}
    (missing : ∀ e log', Q (.error e) (w, log'))
    (found : ∀ rec, (w.slot k).record = some rec → Q (.ok (unmarshalJobState rec)) (w, log)) :
    faulty.wp (info k) Q (w, log) := by
  refine wp_bind.mpr (wp_bind.mpr ((wp_get .jobs).mpr ⟨?_, wp_pure.mpr (wp_pure.mpr (missing _ _))⟩))
  cases stored : w.lookup .jobs k with
  | ok entry =>
    obtain ⟨rec, rev⟩ := entry
    exact wp_pure.mpr (wp_pure.mpr (found rec (World.lookup_value w stored)))
  | error e => exact wp_pure.mpr (wp_pure.mpr (missing _ _))

/-- A push that ends in the block of its policy has stored nothing; what it then returns is a
job that was there. -/
theorem wp_handleUnique_early (keyed : ∀ k rec, (w.slot k).record = some rec → rec.id = k) :
    faulty.wp (handleUnique lib job unique) (fun early s => match early with
      | some (.error _) => SameBoard w s.1
      | some (.ok existing) => (w.slot existing.id).record ≠ none
      | none => True) (w, log) := by
  have overwrite (fingerprint : String) (s : World × List Op) :
      faulty.wp ((overwriteUnique fingerprint job.id).bind fun _ =>
        Program.pure (none : Option (Result Job))) (fun early s => match early with
      | some (.error _) => SameBoard w s.1
      | some (.ok existing) => (w.slot existing.id).record ≠ none
      | none => True) s :=
    wp_bind.mpr fun _ _ _ => wp_pure.mpr trivial
  refine wp_bind.mpr (wp_checkAndSet (fun _ _ => wp_pure.mpr (.refl w)) (wp_pure.mpr trivial)
    fun holder => ?_)
  dsimp only
  split
  · exact wp_pure.mpr trivial
  refine wp_bind.mpr (wp_info (fun _ _ => overwrite _ _) fun rec stored => ?_)
  dsimp only
  generalize (if unique.onConflict = "" then "reject" else unique.onConflict) = conflict
  split_ifs
  · exact wp_pure.mpr (.refl w)
  · refine wp_pure.mpr ?_
    have own : rec.id = holder := keyed holder rec stored
    simp [own, stored]
  · exact wp_bind.mpr fun _ _ _ => overwrite _ _
  · exact overwrite _ _
  · exact overwrite _ _

/-! ## The whole push -/

theorem places_of_quiet {quiet : List Op} (silent : Quiet quiet) : ∀ op ∈ quiet, ¬ Places op := by
  intro op mem
  have only := silent op mem
  cases op with
  | put b =>
    obtain rfl : b = .queues := only
    exact id
  | publish => exact only.elim
  | _ => exact id

theorem wp_byPolicy {α : Type} {p : Prog α} (uses : p.Uses ByPolicy) :
    faulty.wp p (fun _ s => s.1.clock = w.clock ∧ s.1.used = w.used) (w, log) := by
  intro a s run
  refine run.preserves uses (P := fun s => s.1.clock = w.clock ∧ s.1.used = w.used) ?_ ⟨rfl, rfl⟩
  rintro ⟨v, before⟩ op r ⟨u, after⟩ by' step ⟨clock, used⟩
  rcases step with ⟨step, -⟩ | ⟨step, -⟩
  · obtain ⟨-, clock', used'⟩ := by'.keeps step
    exact ⟨clock'.trans clock, used'.trans used⟩
  · obtain rfl := world_of_fails step
    exact ⟨clock, used⟩

/-- Storing the job of a push is truthful exactly if no call that places it fails. -/
theorem wp_storeJob_truthful {failed : List Op} {known : World} (unplacing : ∀ op ∈ failed, ¬ Places op)
    (sound : failed = [] → Sound w) (used : job.id ∈ w.used) (new : (known.slot job.id).record = none)
    (clear : failed = [] → ∀ k, (known.slot k).record = none → w.slot k = Slot.vacant) :
    faulty.wp (storeJob lib w.clock job) (fun reply s => s.2.length ≤ 1 →
      (Truthful lib known reply s.1 ↔ ∀ op ∈ s.2, ¬ Places op)) (w, failed) := by
  have first {quiet : List Op} {op : Op} (single : (failed ++ quiet ++ [op]).length ≤ 1) :
      failed = [] ∧ quiet = [] := by
    simp only [List.length_append, List.length_singleton] at single
    exact ⟨List.length_eq_zero_iff.mp (by omega), List.length_eq_zero_iff.mp (by omega)⟩
  refine wp_storeJob (fun state u quiet silent found _ => ?_)
    (fun u quiet e rec _ board single => ?_) (fun u quiet rec due _ board single => ?_)
    fun u quiet e rec subject _ board single => ?_
  · refine iff_of_true (fun _ => found) fun op mem => ?_
    rcases List.mem_append.mp mem with early | late
    · exact unplacing op early
    · exact places_of_quiet silent op late
  · obtain ⟨rfl, rfl⟩ := first single
    refine iff_of_true (fun k _ absent => .of_vacant (board.sound (sound rfl)) ?_) (by simp [Places])
    rw [board.slots, clear rfl k absent]
  · obtain ⟨rfl, rfl⟩ := first single
    refine iff_of_false (fun truthful => ?_) (by simp [Places])
    have found := truthful new
    rw [enqueuedJob_id, slot_put, if_pos rfl, board.slots, clear rfl job.id new] at found
    simp [Slot.write, Slot.vacant] at found
  · obtain ⟨rfl, rfl⟩ := first single
    refine iff_of_false (fun truthful => ?_) (by simp [Places])
    have vacant := (truthful job.id (by simpa [board.used] using used) new).vacant
    rw [slot_put, if_pos rfl] at vacant
    simpa [Slot.write, Slot.vacant] using congrArg Slot.record vacant

/-- A push under a policy that stores its job, or ends before. -/
theorem wp_pushFresh_truthful {known : World} (sound : Sound w) (used : job.id ∈ w.used)
    (new : (w.slot job.id).record = none) (same : ∀ k, known.slot k = w.slot k) :
    faulty.wp (pushFresh lib w.clock job) (fun reply s => s.2.length ≤ 1 →
      (Truthful lib known reply s.1 ↔ ∀ op ∈ s.2, ¬ Places op)) (w, []) := by
  have keyed : ∀ k rec, (w.slot k).record = some rec → rec.id = k := fun k => (sound.placed k).keyed
  have vacant {k : String} (absent : (known.slot k).record = none) : w.slot k = Slot.vacant := by
    rw [same] at absent
    exact (sound.placed k).eq_vacant absent
  unfold pushFresh
  cases job.unique with
  | none =>
    exact wp_storeJob_truthful (by simp) (fun _ => sound) used (by rw [same, new])
      fun _ k absent => vacant absent
  | some unique =>
    have granted : serves.wp (handleUnique lib job unique)
        (fun early v => early = none → Granted lib job unique w v) w :=
      wp_handleUnique keyed (fun _ _ => by simp) fun _ _ granted _ => granted
    refine wp_bind.mpr (((wp_handleUnique_early keyed).and ((wp.unfailing granted).and
      ((wp_byPolicy (byPolicy_handleUnique lib job unique)).and
        (wp_failed (byPolicy_handleUnique lib job unique))))).mono ?_)
    rintro early ⟨v, failed⟩ ⟨ends, granted, ⟨clock, kept⟩, _, rfl, by'⟩
    have unplacing : ∀ op ∈ failed, ¬ Places op := fun op mem => unplacing_of_byPolicy (by' op mem)
    match early with
    | some (.error e) =>
      refine wp_pure.mpr fun _ => iff_of_true (fun k _ absent => ?_) (by simpa using unplacing)
      exact .of_vacant (ends.sound sound) ((ends.slots k).trans (vacant absent))
    | some (.ok existing) =>
      refine wp_pure.mpr fun _ => iff_of_true (fun absent => absurd ?_ ends) (by simpa using unplacing)
      rw [← same, absent]
    | none =>
      dsimp only at clock kept granted ⊢
      rw [← clock]
      refine wp_storeJob_truthful unplacing (fun none => ?_) (kept ▸ used) (by rw [same, new])
        fun none k absent => ?_
      · exact (granted (by simp [none]) rfl).evolves.sound sound
      · rw [(granted (by simp [none]) rfl).unreplaced k, vacant absent]
        rintro ⟨rec, obstructs, -⟩
        rw [same, obstructs.stored] at absent
        cases absent

/-- A push in which at most one call fails is truthful exactly if that is not the call that
publishes the job or files it as scheduled. -/
theorem push_truthful_iff (reachable : Reachable lib w) (fresh : (Call.push job).Fresh w)
    (run : faulty.Exec (push lib job) (w.accept (.push job), []) reply (t, log))
    (single : log.length ≤ 1) : Truthful lib w reply t ↔ ∀ op ∈ log, ¬ Places op := by
  have sound := reachable.sound.accept (.push job)
  suffices outcome : faulty.wp (push lib job) (fun reply s => s.2.length ≤ 1 →
      (Truthful lib w reply s.1 ↔ ∀ op ∈ s.2, ¬ Places op)) (w.accept (.push job), []) from
    outcome reply (t, log) run single
  rw [push_eq, wp_bind, wp_timeNow]
  split
  · refine wp_bind.mpr (wp_newUUIDv7.mpr fun id nonempty unused => ?_)
    have reserved := Reserved.of_generated sound nonempty unused
    have generated : Evolves lib (fun _ _ => False) (w.accept (.push job))
        { w.accept (.push job) with used := id :: (w.accept (.push job)).used } := evolves_generated
    exact wp_pushFresh_truthful (generated.sound sound) reserved.used reserved.vacant fun _ => rfl
  · rename_i nonempty
    have reserved : Reserved (w.accept (.push job)) job.id :=
      .of_fresh fresh (by simp [Call.clientIDs, nonempty]) nonempty
    exact wp_pushFresh_truthful sound reserved.used reserved.vacant fun _ => rfl

/-- A job with a unique policy. -/
def onlyMail : Job := { id := "job-1", queue := "mails", unique := some {} }

/-- Push a job to an empty store while certain calls fail. -/
def pushFailing (failing : Op → Bool) : Option (Result Job × World × List Op) :=
  executeFailing failing (push sample onlyMail)
    ((World.start (Sample.instant 0)).accept (.push onlyMail), [])

theorem fresh_onlyMail : (Call.push onlyMail).Fresh (World.start (Sample.instant 0)) :=
  ⟨by decide, fun _ _ => rfl⟩

/-- A push that cannot write its record takes the lock, and nobody minds. -/
theorem push_truthful_iff_unwritten : ∃ reply t failed,
    pushFailing stores = some (reply, t, failed) ∧ failed ≠ [] ∧ reply.isOk = false ∧
    Truthful sample (World.start (Sample.instant 0)) reply t := by
  have runs : (pushFailing stores).isSome := by decide
  obtain ⟨⟨reply, t, failed⟩, executed⟩ := Option.isSome_iff_exists.mp runs
  have facts : (pushFailing stores).map (fun r => (r.1.isOk, r.2.2.map stores)) =
      some (false, [true]) := by decide
  rw [executed] at facts
  obtain ⟨refused, written⟩ := Prod.mk.inj (Option.some.inj facts)
  obtain ⟨op, rfl, writes⟩ := List.map_eq_singleton_iff.mp written
  refine ⟨reply, t, [op], executed, by simp, refused, ?_⟩
  refine (push_truthful_iff (.start (by decide)) fresh_onlyMail
    (exec_of_executeFailing executed) le_rfl).mpr ?_
  rw [List.forall_mem_singleton]
  cases op with
  | put b =>
    cases b with
    | jobs => exact id
    | _ => cases writes
  | _ => cases writes

/-- A push that cannot publish its job leaves the record behind. -/
theorem not_push_truthful : ¬ ∀ (lib : Externals) (w t : World) (job : Job) (reply : Result Job)
    (failed : List Op), Reachable lib w → (Call.push job).Fresh w → failed.length = 1 →
    faulty.Exec (push lib job) (w.accept (.push job), []) reply (t, failed) →
    Truthful lib w reply t := by
  intro truthful
  have runs : (pushFailing publishes).isSome := by decide
  obtain ⟨⟨reply, t, failed⟩, executed⟩ := Option.isSome_iff_exists.mp runs
  have facts : (pushFailing publishes).map (fun r => (r.1.isOk, r.2.2.length,
      (r.2.1.value .jobs "job-1").map JobState.state, decide ("job-1" ∈ r.2.1.used))) =
      some (false, 1, some .available, true) := by decide
  rw [executed] at facts
  obtain ⟨refused, facts⟩ := Prod.mk.inj (Option.some.inj facts)
  obtain ⟨single, facts⟩ := Prod.mk.inj facts
  obtain ⟨stored, used⟩ := Prod.mk.inj facts
  have promise := truthful sample _ t onlyMail reply failed (.start (by decide)) fresh_onlyMail
    single (exec_of_executeFailing executed)
  cases reply with
  | ok new => cases refused
  | error e =>
    have vacant := (promise "job-1" (of_decide_eq_true used) rfl).vacant
    obtain ⟨rec, found, -⟩ := Option.map_eq_some_iff.mp stored
    cases found.symm.trans (congrArg Slot.record vacant)

end OjsNats.Faults
