import OjsNats.Lifecycle.System

/-!
# Submitting an id again

`Push` and `PushBatch` store a job without looking for a record under its id.
An existing job is left alone only where the call stops before it stores, or
where it stores what is there already.
-/

namespace OjsNats.Lifecycle

open Core Nats Effect Semantics Program

variable {lib : Externals} {w w' : World} {j : String}

/-! ## Runs without fresh ids -/

/-- The states of the sequential runs of one server whose clients may send any ids. -/
inductive Attained (lib : Externals) : World → Prop
  | start {clock : Int} : Attained lib (World.start clock)
  | call {w w' : World} {call : Call} {reply : Reply} : Attained lib w →
      serves.Exec (call.program lib) (w.accept call) reply w' → Attained lib w'
  | tick {w : World} {now : Int} : Attained lib w → w.clock ≤ now →
      Attained lib { w with clock := now }

theorem Attained.filed (attained : Attained lib w) : AllFiled w := by
  induction attained with
  | start =>
    intro b k v stored
    cases stored
  | call _ run ih => exact filed_program lib run (ih.of_kv rfl)
  | tick _ _ ih => exact ih.of_kv rfl

theorem Attained.step {event : Event} (attained : Attained lib w) (step : Step lib w event w') :
    Attained lib w' := by
  cases step with
  | call fresh run => exact attained.call run
  | tick later => exact attained.tick later

theorem Attained.of_run {clock : Int} {trace : List Passage}
    (run : Run lib (World.start clock) trace w) : Attained lib w :=
  run.holds (I := fun _ v => Attained lib v) (.start clock) .start
    fun _ _ _ _ step before => before.step step

/-! ## What harmless means -/

/-- The job, its index entries and its undelivered messages are as before. -/
structure Slot.Undisturbed (s t : Slot) : Prop where
  record : ∀ rec, s.record = some rec → ∃ rec', t.record = some rec' ∧ rec'.state = rec.state ∧
    rec'.attempt = rec.attempt ∧ rec'.errors = rec.errors ∧ rec'.result = rec.result
  scheduled : t.scheduled = s.scheduled
  retry : t.retry = s.retry
  dead : t.dead = s.dead
  active : t.active = s.active
  messages : t.messages.length ≤ 1 ∨ t.messages.length ≤ s.messages.length

theorem Slot.Undisturbed.refl (s : Slot) : s.Undisturbed s :=
  ⟨fun rec stored => ⟨rec, stored, rfl, rfl, rfl, rfl⟩, rfl, rfl, rfl, rfl, .inr (Nat.le_refl _)⟩

/-- The push stops at the lock of its policy. -/
def PushStops (lib : Externals) (w : World) (job : Job) : Prop :=
  ∃ unique, job.unique = some unique ∧ StopsAtLock lib w job (sortedKeys unique)

/-- The push cancels the job whose id it submits. -/
def PushReplaces (lib : Externals) (w : World) (job : Job) : Prop :=
  ∃ unique, job.unique = some unique ∧ Replaces lib w job (sortedKeys unique) job.id

/-- What the push stores is stored already. -/
structure StoredAlready (lib : Externals) (w : World) (job : Job) : Prop where
  record : ∀ rec, (w.slot job.id).record = some rec →
    rec.attempt = 0 ∧ rec.errors = job.errors ∧ rec.result = job.result ∧
    if isScheduledLater lib job w.clock then
      rec.state = .scheduled ∧ (w.slot job.id).scheduled = some job.scheduledAt
    else rec.state = .available ∧ (w.slot job.id).messages = []
  replaced : PushReplaces lib w job → (w.slot job.id).active = none ∧
    (w.slot job.id).retry = none ∧
    (isScheduledLater lib job w.clock = false → (w.slot job.id).scheduled = none)

/-- What the batch stores under an id is stored already. -/
def BatchStoredAlready (w : World) (jobs : List Job) (j : String) : Prop :=
  ∃ job, jobs.filter (·.id = j) = [job] ∧ (w.slot j).messages = [] ∧
    ∀ rec, (w.slot j).record = some rec → rec.state = .available ∧ rec.attempt = 0 ∧
      rec.errors = job.errors ∧ rec.result = job.result

/-- The operation leaves the job under an id it submits alone. -/
def Spared (lib : Externals) (w : World) (j : String) : Call → Prop
  | .push job => PushStops lib w job ∨ StoredAlready lib w job
  | .pushBatch jobs => validateBatch lib jobs ≠ none ∨ BatchStoredAlready w jobs j
  | _ => True

/-! ## Pushes -/

/-- The stored slot against the slot there was; a replaced job has lost its entries. -/
theorem undisturbed_storedSlot {now : Int} {job : Job} {s u : Slot} {rec : JobState}
    (stored : s.record = some rec) (dead : u.dead = s.dead) (messages : u.messages = s.messages) :
    s.Undisturbed (storedSlot lib now (freshJob lib j now job) u) ↔
      (rec.attempt = 0 ∧ rec.errors = job.errors ∧ rec.result = job.result) ∧
      u.active = s.active ∧ u.retry = s.retry ∧
      if isScheduledLater lib job now then
        rec.state = .scheduled ∧ s.scheduled = some job.scheduledAt
      else rec.state = .available ∧ u.scheduled = s.scheduled ∧ s.messages = [] := by
  have record (state : State) : (∀ rec₀, s.record = some rec₀ → ∃ rec',
      some (storedRecord lib state now (freshJob lib j now job)) = some rec' ∧
      rec'.state = rec₀.state ∧ rec'.attempt = rec₀.attempt ∧ rec'.errors = rec₀.errors ∧
      rec'.result = rec₀.result) ↔ rec.state = state ∧
        rec.attempt = 0 ∧ rec.errors = job.errors ∧ rec.result = job.result := by
    constructor
    · intro kept
      obtain ⟨rec', new, state, attempt, errors, result⟩ := kept rec stored
      cases new
      exact ⟨state.symm, attempt.symm, errors.symm, result.symm⟩
    · rintro ⟨same, attempt, errors, result⟩ rec₀ stored₀
      obtain rfl : rec = rec₀ := Option.some.inj (stored.symm.trans stored₀)
      exact ⟨_, rfl, same.symm, attempt.symm, errors.symm, result.symm⟩
  unfold storedSlot
  rw [show isScheduledLater lib (freshJob lib j now job) now = isScheduledLater lib job now from rfl]
  cases later : isScheduledLater lib job now with
  | true =>
    simp only [↓reduceIte]
    constructor
    · intro undisturbed
      obtain ⟨state, terms⟩ := (record .scheduled).mp undisturbed.record
      exact ⟨terms, undisturbed.active, undisturbed.retry, state, undisturbed.scheduled.symm⟩
    · rintro ⟨terms, active, retry, state, due⟩
      exact ⟨(record .scheduled).mpr ⟨state, terms⟩, due.symm, retry, dead, active,
        .inr (by rw [messages])⟩
  | false =>
    simp only [Bool.false_eq_true, ↓reduceIte]
    constructor
    · intro undisturbed
      obtain ⟨state, terms⟩ := (record .available).mp undisturbed.record
      refine ⟨terms, undisturbed.active, undisturbed.retry, state, undisturbed.scheduled, ?_⟩
      have few := undisturbed.messages
      rw [messages, List.length_append, List.length_singleton] at few
      exact List.eq_nil_of_length_eq_zero (by omega)
    · rintro ⟨terms, active, retry, state, scheduled, silent⟩
      refine ⟨(record .available).mpr ⟨state, terms⟩, scheduled, retry, dead, active, .inl ?_⟩
      simp [messages, silent]

/-- A job that has been replaced has lost its entries. -/
theorem Slot.Step.entries_of_cancel {now : Int} {s t : Slot}
    (step : Slot.Step lib now j .cancel s t) : t.dead = s.dead ∧ t.messages = s.messages ∧
      t.active = none ∧ t.retry = none ∧ t.scheduled = none := by
  cases step with
  | cancel => exact ⟨rfl, rfl, rfl, rfl, rfl⟩
  | requeue kind => simp at kind

/-- The lock looks at no field that a push sets. -/
theorem obstructs_freshJob {id holder : String} {now : Int} {job : Job} {unique : UniquePolicy}
    {existing : JobState} : Obstructs lib w (freshJob lib id now job) unique holder existing ↔
      Obstructs lib w job unique holder existing :=
  ⟨fun h => ⟨h.lock, h.nonempty, h.stored, h.relevant⟩,
    fun h => ⟨h.lock, h.nonempty, h.stored, h.relevant⟩⟩

theorem stopsAtLock_freshJob {id : String} {now : Int} {job : Job} {unique : UniquePolicy} :
    StopsAtLock lib w (freshJob lib id now job) unique ↔ StopsAtLock lib w job unique := by
  simp only [StopsAtLock, obstructs_freshJob]

theorem replaces_freshJob {id holder : String} {now : Int} {job : Job} {unique : UniquePolicy} :
    Replaces lib w (freshJob lib id now job) unique holder ↔ Replaces lib w job unique holder := by
  simp only [Replaces, obstructs_freshJob]

/-- The push cancels the job. -/
def PushCancels (lib : Externals) (w : World) (job : Job) (k : String) : Prop :=
  ∃ unique, job.unique = some unique ∧ Replaces lib w job (sortedKeys unique) k

/-- A push under a given id stops at the lock, or stores its job and may cancel another. -/
inductive Submitted (lib : Externals) (job : Job) (w t : World) : Prop
  | stopped : PushStops lib w job → (∀ k, t.slot k = w.slot k) → Submitted lib job w t
  | stored {u : World} : ¬ PushStops lib w job →
      (∀ k, ¬ PushCancels lib w job k → u.slot k = w.slot k) →
      (∀ k, PushCancels lib w job k → Slot.Step lib w.clock k .cancel (w.slot k) (u.slot k)) →
      Moved job.id (storedSlot lib w.clock (freshJob lib job.id w.clock job) (u.slot job.id)) u t →
      Submitted lib job w t

theorem push_submits {job : Job} (keyed : ∀ k rec, (w.slot k).record = some rec → rec.id = k)
    (given : job.id ≠ "") : serves.wp (push lib job) (fun _ t => Submitted lib job w t) w := by
  rw [push_eq, wp_bind, wp_timeNow, if_neg given]
  cases policy : job.unique with
  | none =>
    have free : (freshJob lib job.id w.clock job).unique = none := by simp [freshJob, policy]
    rw [pushFresh_free free]
    refine wp_storeJob_stores fun state t moved _ => .stored ?_ (fun _ _ => rfl) ?_ moved
    · rintro ⟨unique, some, -⟩
      simp [policy] at some
    · rintro k ⟨unique, some, -⟩
      simp [policy] at some
  | some unique =>
    have policy' : (freshJob lib job.id w.clock job).unique = some (sortedKeys unique) := by
      simp [freshJob, policy]
    have only {p : UniquePolicy → Prop} : (∃ unique', job.unique = some unique' ∧ p unique') ↔
        p unique := by simp [policy]
    rw [pushFresh_policy policy']
    refine wp_bind.mpr (wp_handleUnique keyed (fun stops r => ?_) fun goes v granted => ?_)
    · exact wp_pure.mpr (.stopped (only.mpr (stopsAtLock_freshJob.mp stops)) fun _ => rfl)
    · rw [← granted.clock]
      refine wp_storeJob_stores fun state t moved _ => .stored (fun stops => ?_) (fun k spared => ?_)
        (fun k replaced => ?_) (granted.clock ▸ moved)
      · exact goes (stopsAtLock_freshJob.mpr (only.mp stops))
      · exact granted.unreplaced k fun h => spared (only.mpr (replaces_freshJob.mp h))
      · exact granted.clock ▸ granted.replaced k (replaces_freshJob.mpr (only.mp replaced))

/-- A push under an id in use stops at the lock or stores the job over the old one. -/
theorem push_resubmits {job : Job} (filed : AllFiled w) (given : job.id ≠ "") :
    serves.wp (push lib job) (fun _ t => (PushStops lib w job ∧ t.slot job.id = w.slot job.id) ∨
      ¬ PushStops lib w job ∧ ∃ u, t.slot job.id =
        storedSlot lib w.clock (freshJob lib job.id w.clock job) u ∧
        ((¬ PushReplaces lib w job ∧ u = w.slot job.id) ∨
          PushReplaces lib w job ∧ Slot.Step lib w.clock job.id .cancel (w.slot job.id) u)) w := by
  refine (push_submits (filed .jobs) given).mono fun _ t submitted => ?_
  cases submitted with
  | stopped stops same => exact .inl ⟨stops, same job.id⟩
  | @stored u goes spared cancelled moved =>
    refine .inr ⟨goes, u.slot job.id, moved.slot, ?_⟩
    by_cases replaces : PushReplaces lib w job
    · exact .inr ⟨replaces, cancelled job.id replaces⟩
    · exact .inl ⟨replaces, spared job.id replaces⟩

theorem push_undisturbed_iff {job : Job} {rec : JobState} (filed : AllFiled w)
    (given : job.id ≠ "") (stored : (w.slot job.id).record = some rec) :
    serves.wp (push lib job) (fun _ t => (w.slot job.id).Undisturbed (t.slot job.id) ↔
      PushStops lib w job ∨ StoredAlready lib w job) w := by
  refine (push_resubmits filed given).mono fun _ t outcome => ?_
  rcases outcome with ⟨stops, same⟩ | ⟨goes, u, slot, u_eq⟩
  · rw [same]
    exact ⟨fun _ => .inl stops, fun _ => .refl _⟩
  have terms : StoredAlready lib w job ↔ (rec.attempt = 0 ∧ rec.errors = job.errors ∧
      rec.result = job.result ∧ if isScheduledLater lib job w.clock then
        rec.state = .scheduled ∧ (w.slot job.id).scheduled = some job.scheduledAt
      else rec.state = .available ∧ (w.slot job.id).messages = []) ∧
      (PushReplaces lib w job → (w.slot job.id).active = none ∧ (w.slot job.id).retry = none ∧
        (isScheduledLater lib job w.clock = false → (w.slot job.id).scheduled = none)) := by
    constructor
    · exact fun already => ⟨already.record rec stored, already.replaced⟩
    · rintro ⟨record, replaced⟩
      refine ⟨fun rec' stored' => ?_, replaced⟩
      obtain rfl : rec = rec' := Option.some.inj (stored.symm.trans stored')
      exact record
  rw [slot, or_iff_right goes, terms]
  rcases u_eq with ⟨unreplaced, rfl⟩ | ⟨replaced, step⟩
  · rw [undisturbed_storedSlot stored rfl rfl]
    cases later : isScheduledLater lib job w.clock <;> simp [unreplaced, and_assoc]
  · obtain ⟨dead, messages, active, retry, scheduled⟩ := step.entries_of_cancel
    rw [undisturbed_storedSlot stored dead messages, active, retry, scheduled]
    cases later : isScheduledLater lib job w.clock with
    | true =>
      simp only [↓reduceIte]
      constructor
      · rintro ⟨⟨attempt, errors, result⟩, active, retry, state, due⟩
        exact ⟨⟨attempt, errors, result, state, due⟩, fun _ => ⟨active.symm, retry.symm, by simp⟩⟩
      · rintro ⟨⟨attempt, errors, result, state, due⟩, cleared⟩
        obtain ⟨active, retry, -⟩ := cleared replaced
        exact ⟨⟨attempt, errors, result⟩, active.symm, retry.symm, state, due⟩
    | false =>
      simp only [Bool.false_eq_true, ↓reduceIte]
      constructor
      · rintro ⟨⟨attempt, errors, result⟩, active, retry, state, scheduled, silent⟩
        exact ⟨⟨attempt, errors, result, state, silent⟩,
          fun _ => ⟨active.symm, retry.symm, fun _ => scheduled.symm⟩⟩
      · rintro ⟨⟨attempt, errors, result, state, silent⟩, cleared⟩
        obtain ⟨active, retry, scheduled⟩ := cleared replaced
        exact ⟨⟨attempt, errors, result⟩, active.symm, retry.symm, state, (scheduled trivial).symm,
          silent⟩

/-! ## Batches -/

/-- What a batch makes of the slot of an id that a client has sent. -/
structure Batched (lib : Externals) (now : Int) (again : List Job) (j : String) (s t : Slot) :
    Prop where
  record : t.record = match again.getLast? with
    | some job => some (marshalJobState (batchJob lib j now job))
    | none => s.record
  scheduled : t.scheduled = s.scheduled
  retry : t.retry = s.retry
  dead : t.dead = s.dead
  active : t.active = s.active
  messages : t.messages.length = s.messages.length + again.length

/-- A turn of the batch under another id leaves the slot alone, one under the id stores it. -/
theorem Batched.cons {now : Int} {job : Job} {id : String} {again : List Job} {u x : World}
    {t : Slot} (own : id = j ↔ job.id = j)
    (moved : Moved id { u.slot id with
      record := some (marshalJobState (batchJob lib id now job))
      messages := (u.slot id).messages ++ [⟨queueJobsSubject job.queue, id, u.clock⟩] } u x)
    (batched : Batched lib now again j (x.slot j) t) :
    Batched lib now (if job.id = j then job :: again else again) j (u.slot j) t := by
  by_cases same : id = j
  · subst same
    rw [if_pos (own.mp rfl)]
    have slot := moved.slot
    refine ⟨?_, batched.scheduled.trans (by rw [slot]), batched.retry.trans (by rw [slot]),
      batched.dead.trans (by rw [slot]), batched.active.trans (by rw [slot]), ?_⟩
    · rw [batched.record, slot, List.getLast?_cons]
      cases again.getLast? <;> rfl
    · rw [batched.messages, slot, List.length_append, List.length_cons, List.length_cons]
      simp only [List.length_nil]
      omega
  · rw [if_neg (mt own.mpr same), ← moved.others j (Ne.symm same)]
    exact batched

theorem pushBatchLoop_batched {now : Int} {v : World} (jobs done : List Job) (nonempty : j ≠ "")
    (used : j ∈ v.used) : serves.wp (pushBatchLoop lib now jobs done)
      (fun _ t => Batched lib now (jobs.filter (·.id = j)) j (v.slot j) (t.slot j)) v := by
  induction jobs generalizing v done with
  | nil => exact wp_pure.mpr ⟨rfl, rfl, rfl, rfl, rfl, rfl⟩
  | cons job rest ih =>
    have turned {id : String} {u x : World} {t : Slot} (own : id = j ↔ job.id = j)
        (moved : Moved id { u.slot id with
          record := some (marshalJobState (batchJob lib id now job))
          messages := (u.slot id).messages ++ [⟨queueJobsSubject job.queue, id, u.clock⟩] } u x)
        (batched : Batched lib now (rest.filter (·.id = j)) j (x.slot j) t) :
        Batched lib now ((job :: rest).filter (·.id = j)) j (u.slot j) t := by
      rw [List.filter_cons]
      simpa only [decide_eq_true_eq] using batched.cons own moved
    simp only [pushBatchLoop, bind_eq, pure_eq, bind_pure_left]
    refine wp_chosenID (fun _ => ?_) fun generated id _ unused => ?_
    · simp only [wp_bind, wp_putJobState]
      refine wp_beside (sideline_ensureQueue _)
        (spares_guarded (confined_ensureQueue _) (by simp [Guarded]))
        fun _ x beside => ?_
      simp only [wp_publishJob]
      refine (ih _ (beside.used ▸ used)).mono fun _ t batched => turned Iff.rfl ?_ batched
      exact (((Moved.refl job.id v).put (b := .jobs) rfl _).beside beside).publish _
    · have own : id = j ↔ job.id = j := by
        constructor
        · rintro rfl
          exact absurd used unused
        · exact fun same => absurd (same.symm.trans generated) nonempty
      simp only [wp_bind, wp_putJobState]
      refine wp_beside (sideline_ensureQueue _)
        (spares_guarded (confined_ensureQueue _) (by simp [Guarded]))
        fun _ x beside => ?_
      simp only [wp_publishJob]
      refine (ih _ ?_).mono fun _ t batched =>
        turned (u := { v with used := id :: v.used }) own ?_ batched
      · exact beside.used ▸ List.mem_cons_of_mem _ used
      · exact (((Moved.refl id _).put (b := .jobs) rfl _).beside beside).publish _

theorem pushBatch_batched {jobs : List Job} (nonempty : j ≠ "") (used : j ∈ w.used)
    (valid : validateBatch lib jobs = none) : serves.wp (pushBatch lib jobs)
      (fun _ t => Batched lib w.clock (jobs.filter (·.id = j)) j (w.slot j) (t.slot j)) w := by
  simp only [pushBatch, valid, bind_eq, wp_bind, wp_timeNow]
  exact pushBatchLoop_batched jobs [] nonempty used

theorem pushBatch_rejected {jobs : List Job} (invalid : validateBatch lib jobs ≠ none) :
    serves.wp (pushBatch lib jobs) (fun _ t => t = w) w := by
  obtain ⟨complaint, rejects⟩ := Option.ne_none_iff_exists'.mp invalid
  simp only [pushBatch, rejects, pure_eq, wp_pure]

theorem batched_undisturbed_iff {now : Int} {jobs : List Job} {rec : JobState} {t : World}
    (stored : (w.slot j).record = some rec) (again : j ∈ jobs.map Job.id)
    (batched : Batched lib now (jobs.filter (·.id = j)) j (w.slot j) (t.slot j)) :
    (w.slot j).Undisturbed (t.slot j) ↔ BatchStoredAlready w jobs j := by
  constructor
  · intro undisturbed
    have some : 0 < (jobs.filter (·.id = j)).length := by
      obtain ⟨job, member, id⟩ := List.mem_map.mp again
      exact List.length_pos_of_mem (List.mem_filter.mpr ⟨member, decide_eq_true id⟩)
    have few := undisturbed.messages
    rw [batched.messages] at few
    obtain ⟨job, only⟩ := List.length_eq_one_iff.mp (show (jobs.filter (·.id = j)).length = 1 by omega)
    refine ⟨job, only, List.eq_nil_of_length_eq_zero (by omega), fun rec' stored' => ?_⟩
    obtain ⟨new, after, state, attempt, errors, result⟩ := undisturbed.record rec' stored'
    rw [batched.record, only] at after
    cases after
    exact ⟨state.symm, attempt.symm, errors.symm, result.symm⟩
  · rintro ⟨job, only, silent, same⟩
    obtain ⟨state, attempt, errors, result⟩ := same rec stored
    refine ⟨fun rec' stored' => ?_, batched.scheduled, batched.retry, batched.dead, batched.active,
      .inl ?_⟩
    · obtain rfl : rec = rec' := Option.some.inj (stored.symm.trans stored')
      refine ⟨marshalJobState (batchJob lib j now job), ?_, state.symm, attempt.symm, errors.symm,
        result.symm⟩
      rw [batched.record, only]
      rfl
    · rw [batched.messages, only, silent]
      simp

/-! ## The law -/

theorem obstructs_accept {operation : Call} {job : Job} {unique : UniquePolicy} {holder : String}
    {existing : JobState} : Obstructs lib (w.accept operation) job unique holder existing ↔
      Obstructs lib w job unique holder existing :=
  ⟨fun h => ⟨h.lock, h.nonempty, h.stored, h.relevant⟩,
    fun h => ⟨h.lock, h.nonempty, h.stored, h.relevant⟩⟩

theorem pushStops_accept {operation : Call} {job : Job} :
    PushStops lib (w.accept operation) job ↔ PushStops lib w job := by
  simp only [PushStops, StopsAtLock, obstructs_accept]

theorem storedAlready_accept {operation : Call} {job : Job} :
    StoredAlready lib (w.accept operation) job ↔ StoredAlready lib w job := by
  have replaces : PushReplaces lib (w.accept operation) job ↔ PushReplaces lib w job := by
    simp only [PushReplaces, Replaces, obstructs_accept]
  exact ⟨fun h => ⟨h.record, fun r => h.replaced (replaces.mpr r)⟩,
    fun h => ⟨h.record, fun r => h.replaced (replaces.mp r)⟩⟩

/-- Submitting an id again leaves its job alone exactly where the call stops before it
stores or stores what is there. -/
theorem undisturbed_iff_spared {call : Call} {reply : Reply} {rec : JobState}
    (attained : Attained lib w) (stored : w.value .jobs j = some rec)
    (again : j ∈ call.clientIDs)
    (run : serves.Exec (call.program lib) (w.accept call) reply w') :
    (w.slot j).Undisturbed (w'.slot j) ↔ Spared lib w j call := by
  have filed : AllFiled (w.accept call) := attained.filed.of_kv rfl
  cases call with
  | push job =>
    obtain ⟨result, -, run⟩ := exec_reply run
    obtain ⟨same, given⟩ : j = job.id ∧ j ≠ "" := by
      simpa [Call.clientIDs, List.mem_filter] using again
    subst same
    have law := push_undisturbed_iff filed given stored result w' run
    rwa [pushStops_accept, storedAlready_accept] at law
  | pushBatch jobs =>
    obtain ⟨result, -, run⟩ := exec_reply run
    obtain ⟨member, given⟩ : j ∈ jobs.map Job.id ∧ j ≠ "" := by
      simpa [Call.clientIDs, List.mem_filter] using again
    by_cases valid : validateBatch lib jobs = none
    · have used : j ∈ (w.accept (.pushBatch jobs)).used := List.mem_append_left _ again
      have batched := pushBatch_batched given used valid result w' run
      have law := batched_undisturbed_iff stored member batched
      simpa [Spared, valid] using law
    · have same : w' = w.accept (.pushBatch jobs) := pushBatch_rejected valid result w' run
      rw [same]
      exact ⟨fun _ => .inl valid, fun _ => .refl _⟩
  | _ => cases again

def resent : Job :=
  { id := "job-1", type := "mail", queue := "mails", unique := some { onConflict := "reject" } }

/-- The job is waiting. -/
def onceQueued : List Cue := [.call (.push resent)]

/-- The job is done. -/
def worked : List Cue :=
  [.call (.push resent), .call (.fetch ["mails"] 1 "worker-1" 0), .call (.ack "job-1" none)]

/-- Play a run and push the job again. -/
def resend (cues : List Cue) : Option (World × Reply × World) :=
  (play (World.start (Sample.instant 0)) cues).bind fun played =>
    (execute (Call.program sample (.push resent)) (played.2.accept (.push resent))).map fun ended =>
      (played.2, ended)

theorem attained_of_resend {cues : List Cue} {reply : Reply}
    (resends : resend cues = some (w, reply, w')) : Attained sample w ∧
      serves.Exec (Call.program sample (.push resent)) (w.accept (.push resent)) reply w' := by
  obtain ⟨⟨trace, v⟩, played, ended⟩ := Option.bind_eq_some_iff.mp resends
  obtain ⟨⟨reply', v'⟩, run, same⟩ := Option.map_eq_some_iff.mp ended
  cases same
  exact ⟨.of_run (run_of_play played), exec_of_execute run⟩

theorem undisturbed_iff_spared_waiting : ∃ w reply w', resend onceQueued = some (w, reply, w') ∧
    (w.slot "job-1").Undisturbed (w'.slot "job-1") := by
  have resends : (resend onceQueued).isSome := by decide
  obtain ⟨⟨w, reply, w'⟩, resends⟩ := Option.isSome_iff_exists.mp resends
  have facts : (resend onceQueued).bind (fun r => (r.1.value .jobs "job-1").map fun rec =>
      (rec.state, r.1.value .unique Sample.digest)) = some (.available, some "job-1") := by decide
  rw [resends, Option.bind_some] at facts
  obtain ⟨rec, stored, same⟩ := Option.map_eq_some_iff.mp facts
  obtain ⟨state, lock⟩ := Prod.mk.inj same
  obtain ⟨attained, run⟩ := attained_of_resend resends
  have obstructs : Obstructs sample w resent (sortedKeys { onConflict := "reject" }) "job-1" rec :=
    ⟨lock, by decide, stored, by simp [isRelevant, sortedKeys, state, sample, Sample.isTerminalState]⟩
  have stops : PushStops sample w resent :=
    ⟨_, rfl, "job-1", rec, obstructs, .inl (by simp [conflictOf, sortedKeys])⟩
  exact ⟨w, reply, w', resends,
    (undisturbed_iff_spared attained stored (by decide) run).mpr (.inl stops)⟩

/-- Submitting an id again is not harmless in every state. -/
theorem not_undisturbed : ¬ ∀ (lib : Externals) (w w' : World) (j : String) (rec : JobState)
    (call : Call) (reply : Reply), Attained lib w → w.value .jobs j = some rec →
    j ∈ call.clientIDs → serves.Exec (call.program lib) (w.accept call) reply w' →
    (w.slot j).Undisturbed (w'.slot j) := by
  intro harmless
  have resends : (resend worked).isSome := by decide
  obtain ⟨⟨w, reply, w'⟩, resends⟩ := Option.isSome_iff_exists.mp resends
  have before : (resend worked).bind (fun r => (r.1.value .jobs "job-1").map JobState.state) =
      some .completed := by decide
  have after : (resend worked).bind (fun r => (r.2.2.value .jobs "job-1").map JobState.state) =
      some .available := by decide
  rw [resends, Option.bind_some] at before after
  obtain ⟨rec, stored, state⟩ := Option.map_eq_some_iff.mp before
  obtain ⟨rec', stored', state'⟩ := Option.map_eq_some_iff.mp after
  obtain ⟨attained, run⟩ := attained_of_resend resends
  obtain ⟨kept, same, unchanged, -⟩ := (harmless sample w w' "job-1" rec (.push resent) reply
    attained stored (by decide) run).record rec stored
  obtain rfl : rec' = kept := Option.some.inj (stored'.symm.trans same)
  rw [state, state'] at unchanged
  cases unchanged

end OjsNats.Lifecycle
