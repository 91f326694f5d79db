import OjsNats.Faults.Frames

/-!
# Pushing a batch when calls fail

`PushBatch` validates all its jobs before the first write, and then stores and
publishes them one by one.  It takes nothing back.
-/

namespace OjsNats.Faults

open Core Nats Effect Semantics Program Lifecycle

variable {lib : Externals} {w v u t : World} {log failed : List Op} {job : Job}
  {jobs rest done : List Job} {error : Option BackendError}

/-! ## How far a batch gets -/

/-- The job is stored and published. -/
structure Enqueued (t : World) (k : String) : Prop where
  stored : ∃ rec, (t.slot k).record = some rec ∧ rec.state = .available
  published : (t.slot k).messages ≠ []

/-- A batch stored all its jobs, or ended at the record or at the message of one of them. -/
inductive Progress (v t : World) : List Job → Option BackendError → List Op → Prop
  | complete {jobs : List Job} {quiet : List Op} : Quiet quiet →
      (∀ job ∈ jobs, Enqueued t job.id) → Progress v t jobs none quiet
  | unstored {before after : List Job} {job : Job} {quiet : List Op} {rec : JobState}
      {e : BackendError} : Quiet quiet → (∀ done ∈ before, Enqueued t done.id) →
      (∀ left ∈ job :: after, t.slot left.id = v.slot left.id) →
      Progress v t (before ++ job :: after) (some e) (quiet ++ [.put .jobs job.id rec])
  | unpublished {jobs : List Job} {k subject : String} {quiet : List Op} {e : BackendError} :
      Quiet quiet → k ∈ jobs.map Job.id →
      (∃ rec, (t.slot k).record = some rec ∧ rec.state = .available) →
      Progress v t jobs (some e) (quiet ++ [.publish subject k])

/-- The batch goes on after one more job. -/
theorem Progress.cons {quiet : List Op} (silent : Quiet quiet) (enqueued : Enqueued u job.id)
    (others : ∀ k, k ≠ job.id → u.slot k = v.slot k) (once : job.id ∉ rest.map Job.id)
    (kept : ∀ k, k ∉ rest.map Job.id → t.slot k = u.slot k)
    (progress : Progress u t rest error failed) : Progress v t (job :: rest) error (quiet ++ failed) := by
  have enqueued' : Enqueued t job.id := by
    have same := kept job.id once
    exact ⟨by rw [same]; exact enqueued.stored, by rw [same]; exact enqueued.published⟩
  cases progress with
  | complete silent' all =>
    exact .complete (List.forall_mem_append.mpr ⟨silent, silent'⟩)
      (List.forall_mem_cons.mpr ⟨enqueued', all⟩)
  | unstored silent' done left =>
    rw [← List.append_assoc, ← List.cons_append]
    refine .unstored (List.forall_mem_append.mpr ⟨silent, silent'⟩)
      (List.forall_mem_cons.mpr ⟨enqueued', done⟩) fun other mem => ?_
    have ne : other.id ≠ job.id := by
      intro same
      exact once (same ▸ List.mem_map_of_mem (List.mem_append_right _ mem))
    rw [left other mem, others other.id ne]
  | unpublished silent' mem stored =>
    rw [← List.append_assoc]
    exact .unpublished (List.forall_mem_append.mpr ⟨silent, silent'⟩) (List.mem_cons_of_mem _ mem)
      stored

/-- The loop stores and publishes its jobs until a call fails; the other jobs are left alone. -/
theorem wp_pushBatchLoop {now : Int} (done : List Job) (given : ∀ job ∈ jobs, job.id ≠ "")
    (distinct : (jobs.map Job.id).Nodup) : faulty.wp (pushBatchLoop lib now jobs done)
      (fun reply s => (∀ k, k ∉ jobs.map Job.id → s.1.slot k = v.slot k) ∧
        ∃ failed, s.2 = log ++ failed ∧ Progress v s.1 jobs reply.2 failed) (v, log) := by
  induction jobs generalizing v log done with
  | nil =>
    exact wp_pure.mpr ⟨fun _ _ => rfl, [], (List.append_nil log).symm,
      .complete (by simp [Quiet]) (by simp)⟩
  | cons job rest ih =>
    obtain ⟨once, distinct⟩ := List.nodup_cons.mp distinct
    have nonempty : job.id ≠ "" := given job List.mem_cons_self
    have given' : ∀ job ∈ rest, job.id ≠ "" := fun job mem => given job (List.mem_cons_of_mem _ mem)
    have apart {k : String} (out : k ∉ (job :: rest).map Job.id) :
        k ≠ job.id ∧ k ∉ rest.map Job.id := by
      rwa [List.map_cons, List.mem_cons, not_or] at out
    simp only [pushBatchLoop, bind_eq, pure_eq, bind_pure_left, nonempty, ↓reduceIte]
    refine wp_bind.mpr (wp_put.mpr ⟨?_, wp_pure.mpr ⟨fun _ _ => rfl, _, rfl, ?_⟩⟩)
    · refine wp_bind.mpr (wp_onQueues (onlyOn_ensureQueue _) fun _ u quiet board silent => ?_)
      have stored : ∃ rec, (u.slot job.id).record = some rec ∧ rec.state = .available := by
        refine ⟨marshalJobState (batchJob lib job.id now job), ?_, rfl⟩
        rw [board.slots]
        simp [Slot.write]
      have others (k : String) (ne : k ≠ job.id) : u.slot k = v.slot k := by
        rw [board.slots]
        simp [ne]
      refine wp_bind.mpr (wp_publishJob ?_ fun e => wp_pure.mpr ⟨fun k out => ?_, _,
        List.append_assoc _ _ _, .unpublished silent List.mem_cons_self stored⟩)
      · refine (ih (done ++ [_]) given' distinct).mono ?_
        rintro ⟨reply, error⟩ ⟨t, log'⟩ ⟨kept, failed, same, progress⟩
        refine ⟨fun k out => ?_, quiet ++ failed, same.trans (List.append_assoc _ _ _),
          progress.cons silent ⟨by simpa using stored, by simp⟩ (fun k ne => ?_) once kept⟩
        · obtain ⟨ne, out⟩ := apart out
          rw [kept k out]
          simp [ne, others k ne]
        · simp [ne, others k ne]
      · exact others k (apart out).1
    · exact @Progress.unstored v v [] rest job [] _ _ (by simp [Quiet]) (by simp) fun _ _ => rfl

/-! ## All jobs of a batch, or none -/

/-- There is nothing of the job that could still run. -/
structure Unqueued (lib : Externals) (t : World) (k : String) : Prop where
  ended : ∀ rec, (t.slot k).record = some rec → lib.isTerminalState rec.state = true
  silent : (t.slot k).messages = []

/-- A batch that returns no error enqueued all its jobs, one that returns an error none. -/
def Whole (lib : Externals) (jobs : List Job) (error : Option BackendError) (t : World) : Prop :=
  match error with
  | none => ∀ job ∈ jobs, Enqueued t job.id
  | some _ => ∀ job ∈ jobs, Unqueued lib t job.id

/-- The call is one that a batch reaches only after it stored a job: the publication of a job,
or the storing of one that is not the first. -/
def Late (jobs : List Job) : Op → Prop
  | .publish _ _ => True
  | .put .jobs k _ => jobs.head?.map Job.id ≠ some k
  | _ => False

instance (jobs : List Job) (op : Op) : Decidable (Late jobs op) := by
  unfold Late
  split <;> infer_instance

theorem late_of_quiet {quiet : List Op} (silent : Quiet quiet) : ∀ op ∈ quiet, ¬ Late jobs op := by
  intro op mem
  have only := silent op mem
  cases op with
  | put b =>
    cases b with
    | jobs => cases only
    | _ => exact id
  | publish => exact only.elim
  | _ => exact id

/-- A job that is left available is not unqueued. -/
theorem not_unqueued_of_available {k : String}
    (stored : ∃ rec, (t.slot k).record = some rec ∧ rec.state = .available) :
    ¬ Unqueued lib t k := by
  obtain ⟨rec, found, available⟩ := stored
  intro unqueued
  have ended := (lib.isTerminalState_iff rec.state).mp (unqueued.ended rec found)
  rw [available] at ended
  rcases ended with same | same | same <;> cases same

theorem Progress.whole_iff (vacant : ∀ job ∈ jobs, v.slot job.id = Slot.vacant)
    (distinct : (jobs.map Job.id).Nodup) (progress : Progress v t jobs error failed) :
    Whole lib jobs error t ↔ ∀ op ∈ failed, ¬ Late jobs op := by
  cases progress with
  | complete silent all => exact iff_of_true all (late_of_quiet silent)
  | @unstored before after job quiet rec e silent done left =>
    cases before with
    | nil =>
      refine iff_of_true (fun other mem => ?_) fun op mem => ?_
      · have same : t.slot other.id = Slot.vacant := (left other mem).trans (vacant other mem)
        exact ⟨by simp [same, Slot.vacant], by simp [same, Slot.vacant]⟩
      · rcases List.mem_append.mp mem with early | late
        · exact late_of_quiet silent op early
        · obtain rfl := List.mem_singleton.mp late
          simp [Late]
    | cons first before =>
      have ne : first.id ≠ job.id := by
        rintro same
        rw [List.cons_append, List.map_cons, List.nodup_cons, same] at distinct
        exact distinct.1 (List.mem_map_of_mem (List.mem_append_right _ List.mem_cons_self))
      refine iff_of_false (fun whole => ?_) fun early => ?_
      · exact not_unqueued_of_available (done first List.mem_cons_self).stored
          (whole first List.mem_cons_self)
      · exact early _ (List.mem_append_right _ (List.mem_singleton_self _))
          (by simpa [Late] using ne)
  | unpublished silent mem stored =>
    refine iff_of_false (fun whole => ?_) fun early => ?_
    · obtain ⟨job, listed, rfl⟩ := List.mem_map.mp mem
      exact not_unqueued_of_available stored (whole job listed)
    · exact early _ (List.mem_append_right _ (List.mem_singleton_self _)) trivial

/-- A batch is all or nothing exactly if the calls that fail come before its first record. -/
theorem pushBatch_whole_iff (given : ∀ job ∈ jobs, job.id ≠ "")
    (distinct : (jobs.map Job.id).Nodup) (fresh : ∀ job ∈ jobs, w.slot job.id = Slot.vacant)
    (run : faulty.Exec (pushBatch lib jobs) (w, []) (done, error) (t, failed)) :
    Whole lib jobs error t ↔ ∀ op ∈ failed, ¬ Late jobs op := by
  suffices outcome : faulty.wp (pushBatch lib jobs) (fun reply s =>
      Whole lib jobs reply.2 s.1 ↔ ∀ op ∈ s.2, ¬ Late jobs op) (w, []) from
    outcome (done, error) (t, failed) run
  simp only [pushBatch, bind_eq, pure_eq]
  cases validateBatch lib jobs with
  | some complaint =>
    refine wp_pure.mpr (iff_of_true (fun job mem => ?_) (by simp))
    exact ⟨by simp [fresh job mem, Slot.vacant], by simp [fresh job mem, Slot.vacant]⟩
  | none =>
    refine wp_bind.mpr (wp_timeNow.mpr ((wp_pushBatchLoop [] given distinct).mono ?_))
    rintro ⟨done, error⟩ ⟨t, log⟩ ⟨-, failed, rfl, progress⟩
    exact progress.whole_iff fresh distinct

/-- Two jobs for one batch. -/
def bothMails : List Job :=
  [{ id := "job-1", type := "mail", queue := "mails" },
    { id := "job-2", type := "mail", queue := "mails" }]

/-- Enqueue both to an empty store while certain calls fail. -/
def pushBatchFailing (failing : Op → Bool) :
    Option ((List Job × Option BackendError) × World × List Op) :=
  executeFailing failing (pushBatch sample bothMails) (World.start (Sample.instant 0), [])

theorem vacant_start (now : Int) (k : String) : (World.start now).slot k = Slot.vacant := rfl

/-- When not even the first record can be written there is nothing to take back. -/
theorem pushBatch_whole_iff_unstarted : ∃ done error t failed,
    pushBatchFailing stores = some ((done, error), t, failed) ∧ error.isSome ∧ failed ≠ [] ∧
    Whole sample bothMails error t := by
  have runs : (pushBatchFailing stores).isSome := by decide
  obtain ⟨⟨⟨done, error⟩, t, failed⟩, executed⟩ := Option.isSome_iff_exists.mp runs
  have facts : (pushBatchFailing stores).map (fun r => (r.1.2.isSome, r.2.2.length,
      r.2.2.all fun op => decide (¬ Late bothMails op))) = some (true, 1, true) := by decide
  rw [executed] at facts
  obtain ⟨refused, facts⟩ := Prod.mk.inj (Option.some.inj facts)
  obtain ⟨single, early⟩ := Prod.mk.inj facts
  refine ⟨done, error, t, failed, executed, refused, fun none => by simp [none] at single, ?_⟩
  refine (pushBatch_whole_iff (by decide) (by decide) (fun _ _ => vacant_start _ _)
    (exec_of_executeFailing executed)).mpr fun op mem => ?_
  exact of_decide_eq_true (List.all_eq_true.mp early op mem)

/-- A batch that cannot publish its first job leaves the record behind. -/
theorem not_pushBatch_whole : ¬ ∀ (lib : Externals) (w t : World) (jobs done : List Job)
    (error : Option BackendError) (failed : List Op), (∀ job ∈ jobs, job.id ≠ "") →
    (jobs.map Job.id).Nodup → (∀ job ∈ jobs, w.slot job.id = Slot.vacant) → failed.length = 1 →
    faulty.Exec (pushBatch lib jobs) (w, []) (done, error) (t, failed) →
    Whole lib jobs error t := by
  intro whole
  have runs : (pushBatchFailing publishes).isSome := by decide
  obtain ⟨⟨⟨done, error⟩, t, failed⟩, executed⟩ := Option.isSome_iff_exists.mp runs
  have facts : (pushBatchFailing publishes).map (fun r => (r.1.2.isSome, r.2.2.length,
      (r.2.1.value .jobs "job-1").map JobState.state)) = some (true, 1, some .available) := by
    decide
  rw [executed] at facts
  obtain ⟨refused, facts⟩ := Prod.mk.inj (Option.some.inj facts)
  obtain ⟨single, stored⟩ := Prod.mk.inj facts
  have promise := whole sample _ t bothMails done error failed (by decide) (by decide)
    (fun _ _ => vacant_start _ _) single (exec_of_executeFailing executed)
  cases error with
  | none => cases refused
  | some e =>
    obtain ⟨rec, found, available⟩ := Option.map_eq_some_iff.mp stored
    exact not_unqueued_of_available ⟨rec, found, available⟩ (promise _ List.mem_cons_self)

end OjsNats.Faults
