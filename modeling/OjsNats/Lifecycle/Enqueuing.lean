import OjsNats.Lifecycle.Evolution

/-!
# Enqueuing and cancelling move jobs

A new job is enqueued or scheduled; pushing may cancel the job it replaces.
The jobs of workflows and cron entries replace none.
-/

namespace OjsNats.Lifecycle

open Core Nats Effect Semantics Program

variable (lib : Externals)

/-- The moves of a job that is cancelled. -/
def Cancels : String → Move → Prop := fun _ m => m = .cancel

/-- The moves that bring new jobs of a kind. -/
def Brings (new : String → JobState → Prop) : String → Move → Prop := fun j m =>
  ∃ rec, (m = .enqueue rec ∨ m = .schedule rec) ∧ new j rec

/-- The moves of a push of jobs of a kind. -/
def Pushes (new : String → JobState → Prop) : String → Move → Prop := fun j m =>
  Brings new j m ∨ m = .cancel

/-- The records `Push` can store for a job. -/
def Stores (job : Job) : String → JobState → Prop := fun j rec =>
  ∃ state now, rec = marshalJobState (enqueuedJob lib state now (freshJob lib j now job))

theorem Brings.mono {new more : String → JobState → Prop} (sub : ∀ j rec, new j rec → more j rec)
    (j : String) (m : Move) (h : Brings new j m) : Brings more j m := by
  obtain ⟨rec, kind, brought⟩ := h
  exact ⟨rec, kind, sub j rec brought⟩

theorem Cancels.pushes {new : String → JobState → Prop} (j : String) (m : Move)
    (h : Cancels j m) : Pushes new j m := .inr h

/-- No trace of the job yet, and its id is taken. -/
structure Reserved (w : World) (id : String) : Prop where
  nonempty : id ≠ ""
  used : id ∈ w.used
  vacant : (w.slot id).record = none

variable {lib}

theorem Reserved.after {w w' : World} {id : String} {allowed : String → Move → Prop}
    (h : Reserved w id) (evolves : Evolves lib allowed w w')
    (unborn : ∀ m, allowed id m → ∀ rec, m ≠ .enqueue rec ∧ m ≠ .schedule rec) :
    Reserved w' id where
  nonempty := h.nonempty
  used := evolves.used id h.used
  vacant := (evolves.slots id).record_none unborn h.vacant

/-- `Cancel` refuses a missing or terminal job; else it takes the job out of every index. -/
theorem wp_cancel {w : World} {k : String} {Q : Result Job → World → Prop}
    (keyed : ∀ rec, (w.slot k).record = some rec → rec.id = k)
    (refused : (∀ rec, (w.slot k).record = some rec → lib.isTerminalState rec.state = true) →
      ∀ e, Q (.error e) w)
    (accepted : ∀ s u reply, Slot.Step lib w.clock k .cancel (w.slot k) s → Moved k s w u →
      Q (.ok reply) u) : serves.wp (cancel lib k) Q w := by
  cases h : (w.slot k).record with
  | none =>
    simp only [cancel, bind_eq, wp_bind, wp_getJobState, World.job_of_none h, pure_eq, wp_pure]
    exact refused (by simp [h]) _
  | some rec =>
    cases live : lib.isTerminalState rec.state with
    | true =>
      simp only [cancel, bind_eq, wp_bind, wp_getJobState, World.job_of_record h]
      simp only [unmarshalJobState_state, live, ↓reduceIte, pure_eq, wp_pure]
      exact refused (by simp [h, live]) _
    | false =>
      obtain rfl : rec.id = k := keyed rec h
      simp only [cancel, bind_eq, wp_bind, wp_getJobState, World.job_of_record h]
      simp only [unmarshalJobState_state, live, Bool.false_eq_true, ↓reduceIte, cancelIndexes,
        bind_eq, wp_bind, wp_timeNow, wp_putJobState, wp_delete, wp_ackMessage, pure_eq, wp_pure]
      have next : Becomes .cancelled rec
          (marshalJobState (cancelledJob lib w.clock (unmarshalJobState rec))) :=
        ⟨rfl, rfl, rfl, rfl⟩
      have settled := (((((Moved.refl rec.id w).put (b := .jobs) rfl (marshalJobState
        (cancelledJob lib w.clock (unmarshalJobState rec)))).delete (b := .active) rfl).delete
          (b := .scheduled) rfl).delete (b := .retry) rfl).track none
      exact accepted _ _ _ (.cancel h live next ⟨rfl, rfl, rfl⟩) settled

theorem cancel_advances (k : String) :
    Advances lib (fun j m => j = k ∧ m = .cancel) (cancel lib k) := by
  intro w sound
  refine wp_cancel (sound.placed k).keyed (fun _ _ => Evolves.refl w) fun s u _ step moved => ?_
  refine moved.evolves ⟨rfl, rfl⟩ step ?_
  cases step with
  | cancel some => simp [some]
  | requeue kind => simp at kind

theorem cancel_cancels (k : String) : Advances lib Cancels (cancel lib k) :=
  (cancel_advances k).mono fun _ _ h => h.2

/-! ## Push -/

theorem auxiliary_get (b : BucketName) (k : String) : (Store.get b k).Uses Auxiliary :=
  ⟨trivial, fun _ => trivial⟩

theorem auxiliary_getJobState (k : String) : (getJobState k).Uses Auxiliary := by
  refine uses_bind (auxiliary_get .jobs k) fun r => ?_
  cases r <;> trivial

/-! ## The policy block of a push -/

@[simp] theorem wp_checkAndSet {w : World} {f k : String}
    {Q : Except CallError String → World → Prop} :
    serves.wp (UniqueStore.checkAndSet f k) Q w ↔
      match w.value .unique f with
      | some holder => Q (.ok holder) w
      | none => Q (.ok "") (w.put .unique f k) := by
  simp only [UniqueStore.checkAndSet, bind_eq, wp_bind, wp_create]
  cases held : w.value .unique f with
  | none => simp
  | some holder =>
    obtain ⟨rev, found⟩ := World.lookup_of_value w held
    simp only [Option.isSome_some, ↓reduceIte]
    rw [wp_get .unique, found]
    simp

@[simp] theorem wp_overwriteUnique {w : World} {f k : String} {Q : Unit → World → Prop} :
    serves.wp (overwriteUnique f k) Q w ↔ Q () ((w.delete .unique f).put .unique f k) := by
  have free : (w.delete .unique f).value .unique f = none := by simp [value_delete]
  simp [overwriteUnique, UniqueStore.release, wp_bind, free]

theorem sameBoard_overwrite (w : World) (f k : String) :
    SameBoard w ((w.delete .unique f).put .unique f k) :=
  (sameBoard_delete rfl).trans (sameBoard_put rfl)

/-- The conflict policy, with its default. -/
def conflictOf (unique : UniquePolicy) : String :=
  if unique.onConflict = "" then "reject" else unique.onConflict

/-- The holder of the lock is a job that stands in the way of a push. -/
structure Obstructs (lib : Externals) (w : World) (job : Job) (unique : UniquePolicy)
    (holder : String) (rec : JobState) : Prop where
  lock : w.value .unique (UniqueStore.computeFingerprint lib job unique) = some holder
  nonempty : holder ≠ ""
  stored : (w.slot holder).record = some rec
  relevant : isRelevant lib unique (unmarshalJobState rec) = true

/-- The push ends at the lock. -/
def StopsAtLock (lib : Externals) (w : World) (job : Job) (unique : UniquePolicy) : Prop :=
  ∃ holder rec, Obstructs lib w job unique holder rec ∧
    (conflictOf unique = "reject" ∨ conflictOf unique = "ignore")

/-- The push cancels the holder of the lock. -/
def Replaces (lib : Externals) (w : World) (job : Job) (unique : UniquePolicy) (holder : String) :
    Prop :=
  ∃ rec, Obstructs lib w job unique holder rec ∧ conflictOf unique = "replace" ∧
    lib.isTerminalState rec.state = false

/-- The push takes the lock and goes on. -/
structure Granted (lib : Externals) (job : Job) (unique : UniquePolicy) (w w' : World) : Prop where
  clock : w'.clock = w.clock
  used : w'.used = w.used
  unreplaced : ∀ k, ¬ Replaces lib w job unique k → w'.slot k = w.slot k
  replaced : ∀ k, Replaces lib w job unique k →
    Slot.Step lib w.clock k .cancel (w.slot k) (w'.slot k)
  lock : w.value .unique (UniqueStore.computeFingerprint lib job unique) ≠ some "" →
    ∀ g, w'.value .unique g =
      if g = UniqueStore.computeFingerprint lib job unique then some job.id else w.value .unique g

theorem value_of_kv {w w' : World} {b : BucketName} (same : w'.kv b = w.kv b) (k : String) :
    w'.value b k = w.value b k := by
  rw [World.value, same, World.value]

theorem Slot.Step.of_cancel {now : Int} {k : String} {s t : Slot}
    (step : Slot.Step lib now k .cancel s t) : ∃ rec rec', s.record = some rec ∧
      lib.isTerminalState rec.state = false ∧ t.record = some rec' ∧
      Becomes .cancelled rec rec' := by
  cases step with
  | cancel found live becomes => exact ⟨_, _, found, live, rfl, becomes⟩
  | requeue kind => simp at kind

theorem Slot.Step.live {now : Int} {k : String} {s t : Slot} {stored : JobState}
    (step : Slot.Step lib now k .cancel s t) (h : s.record = some stored) :
    lib.isTerminalState stored.state = false := by
  obtain ⟨rec, _, found, live, -⟩ := step.of_cancel
  obtain rfl : rec = stored := Option.some.inj (found.symm.trans h)
  exact live

theorem Obstructs.eq {w : World} {job : Job} {unique : UniquePolicy} {holder holder' : String}
    {rec rec' : JobState} (h : Obstructs lib w job unique holder rec)
    (h' : Obstructs lib w job unique holder' rec') : holder' = holder ∧ rec' = rec := by
  obtain rfl : holder' = holder := Option.some.inj (h'.lock.symm.trans h.lock)
  exact ⟨rfl, Option.some.inj (h'.stored.symm.trans h.stored)⟩

/-- Without a job in the way the lock is there for the taking. -/
theorem granted_unobstructed {w u : World} {job : Job} {unique : UniquePolicy}
    (free : ∀ holder rec, ¬ Obstructs lib w job unique holder rec) (same : SameBoard w u)
    (lock : w.value .unique (UniqueStore.computeFingerprint lib job unique) ≠ some "" →
      ∀ g, u.value .unique g = if g = UniqueStore.computeFingerprint lib job unique
        then some job.id else w.value .unique g) :
    ¬ StopsAtLock lib w job unique ∧ Granted lib job unique w u :=
  ⟨fun ⟨holder, existing, obstructs, _⟩ => free holder existing obstructs, same.clock, same.used,
    fun k _ => same.slots k, fun k ⟨existing, obstructs, _⟩ => absurd obstructs (free k existing),
    lock⟩

theorem value_overwritten {w u : World} {f k g : String} (kv : u.kv .unique = w.kv .unique) :
    ((u.delete .unique f).put .unique f k).value .unique g =
      if g = f then some k else w.value .unique g := by
  have same : u.value .unique g = w.value .unique g := value_of_kv kv g
  by_cases own : g = f
  · simp [value_put, own]
  · simp [value_put, value_delete, own, same]

/-- The lock is overwritten and no job cancelled. -/
theorem granted_kept {w : World} {job : Job} {unique : UniquePolicy}
    (unreplaced : ∀ k, ¬ Replaces lib w job unique k) : Granted lib job unique w
      ((w.delete .unique (UniqueStore.computeFingerprint lib job unique)).put .unique
        (UniqueStore.computeFingerprint lib job unique) job.id) where
  clock := rfl
  used := rfl
  unreplaced := fun k _ => (sameBoard_overwrite w _ job.id).slots k
  replaced := fun k replaces => absurd replaces (unreplaced k)
  lock := fun _ _ => value_overwritten rfl

/-- The lock is overwritten and its holder cancelled. -/
theorem granted_replaced {w u : World} {job : Job} {unique : UniquePolicy} {holder : String}
    {s : Slot} (only : ∀ k, Replaces lib w job unique k ↔ k = holder)
    (step : Slot.Step lib w.clock holder .cancel (w.slot holder) s) (moved : Moved holder s w u) :
    Granted lib job unique w
      ((u.delete .unique (UniqueStore.computeFingerprint lib job unique)).put .unique
        (UniqueStore.computeFingerprint lib job unique) job.id) where
  clock := moved.clock
  used := moved.used
  unreplaced := by
    intro k other
    rw [(sameBoard_overwrite u _ _).slots k]
    exact moved.others k (mt (only k).mpr other)
  replaced := by
    intro k replaces
    obtain rfl := (only k).mp replaces
    rw [(sameBoard_overwrite u _ _).slots k, moved.slot]
    exact step
  lock := fun _ _ => value_overwritten (moved.kv .unique rfl)

/-- The policies under which a push deals with the job that holds its lock. -/
def Settles (lib : Externals) (unique : UniquePolicy) (rec : JobState) : Prop :=
  conflictOf unique = "reject" ∨ conflictOf unique = "ignore" ∨
    conflictOf unique = "replace" ∧ lib.isTerminalState rec.state = false

/-- What the policy block of a push does when a job stands in its way. -/
theorem wp_handleUnique_obstructed {w : World} {job : Job} {unique : UniquePolicy}
    {holder : String} {rec : JobState} {Q : Option (Result Job) → World → Prop}
    (keyed : ∀ k rec, (w.slot k).record = some rec → rec.id = k)
    (obstructs : Obstructs lib w job unique holder rec)
    (rejected : conflictOf unique = "reject" → Q (some (.error (.duplicate
      "A job with the same unique key already exists." [("existing_job_id", holder),
        ("unique_key", UniqueStore.computeFingerprint lib job unique)]))) w)
    (ignored : conflictOf unique = "ignore" →
      Q (some (.ok { unmarshalJobState rec with isExisting := true })) w)
    (replaced : conflictOf unique = "replace" → ∀ s u,
      Slot.Step lib w.clock holder .cancel (w.slot holder) s → Moved holder s w u →
      Q none ((u.delete .unique (UniqueStore.computeFingerprint lib job unique)).put .unique
        (UniqueStore.computeFingerprint lib job unique) job.id))
    (kept : ¬ Settles lib unique rec →
      Q none ((w.delete .unique (UniqueStore.computeFingerprint lib job unique)).put .unique
        (UniqueStore.computeFingerprint lib job unique) job.id)) :
    serves.wp (handleUnique lib job unique) Q w := by
  simp only [handleUnique, bind_eq, wp_bind, wp_checkAndSet, obstructs.lock, obstructs.nonempty,
    ↓reduceIte, wp_info, World.info_of_record obstructs.stored, obstructs.relevant]
  rw [show (if unique.onConflict = "" then "reject" else unique.onConflict) =
    conflictOf unique from rfl]
  by_cases reject : conflictOf unique = "reject"
  · simp only [reject, ↓reduceIte, pure_eq, wp_pure]
    exact rejected reject
  by_cases ignore : conflictOf unique = "ignore"
  · simp only [ignore, String.reduceEq, ↓reduceIte, pure_eq, wp_pure]
    exact ignored ignore
  by_cases replace : conflictOf unique = "replace"
  · simp only [replace, String.reduceEq, ↓reduceIte, wp_bind]
    refine wp_cancel (keyed holder) (fun terminal _ => ?_) fun s u _ step moved => ?_
    · simp only [wp_overwriteUnique, pure_eq, wp_pure]
      refine kept fun settles => ?_
      obtain same | same | ⟨-, live⟩ := settles
      · exact reject same
      · exact ignore same
      · rw [terminal rec obstructs.stored] at live
        cases live
    · simp only [wp_overwriteUnique, pure_eq, wp_pure]
      exact replaced replace s u step moved
  · simp only [reject, ignore, replace, ↓reduceIte, wp_bind, wp_overwriteUnique, pure_eq, wp_pure]
    refine kept fun settles => ?_
    obtain same | same | ⟨same, -⟩ := settles
    · exact reject same
    · exact ignore same
    · exact replace same

/-- Without a job in its way the policy block only takes the lock. -/
theorem wp_handleUnique_unobstructed {w : World} {job : Job} {unique : UniquePolicy}
    {Q : Option (Result Job) → World → Prop}
    (free : ∀ holder rec, ¬ Obstructs lib w job unique holder rec)
    (taken : ∀ u, SameBoard w u →
      (w.value .unique (UniqueStore.computeFingerprint lib job unique) ≠ some "" →
        ∀ g, u.value .unique g = if g = UniqueStore.computeFingerprint lib job unique
          then some job.id else w.value .unique g) → Q none u) :
    serves.wp (handleUnique lib job unique) Q w := by
  simp only [handleUnique, bind_eq, wp_bind, wp_checkAndSet]
  cases held : w.value .unique (UniqueStore.computeFingerprint lib job unique) with
  | none =>
    simp only [↓reduceIte, pure_eq, wp_pure]
    exact taken _ (sameBoard_put rfl) fun _ g => by simp [value_put]
  | some holder =>
    by_cases empty : holder = ""
    · simp only [empty, ↓reduceIte, pure_eq, wp_pure]
      exact taken _ (.refl w) fun other => absurd (held.trans (congrArg some empty)) other
    have overwritten := taken _ (sameBoard_overwrite w
      (UniqueStore.computeFingerprint lib job unique) job.id) fun _ _ => value_overwritten rfl
    simp only [empty, ↓reduceIte, wp_bind, wp_info]
    cases found : (w.slot holder).record with
    | none =>
      simp only [World.info, World.job_of_none found, wp_bind, wp_overwriteUnique, pure_eq, wp_pure]
      exact overwritten
    | some rec =>
      simp only [World.info_of_record found]
      by_cases relevant : isRelevant lib unique (unmarshalJobState rec) = true
      · exact absurd ⟨held, empty, found, relevant⟩ (free holder rec)
      · simp only [relevant, Bool.false_eq_true, ↓reduceIte, wp_bind, wp_overwriteUnique, pure_eq,
          wp_pure]
        exact overwritten

/-- `Push` under a policy either stops at the lock or takes it. -/
theorem wp_handleUnique {w : World} {job : Job} {unique : UniquePolicy}
    {Q : Option (Result Job) → World → Prop}
    (keyed : ∀ k rec, (w.slot k).record = some rec → rec.id = k)
    (stops : StopsAtLock lib w job unique → ∀ r, Q (some r) w)
    (granted : ¬ StopsAtLock lib w job unique → ∀ u, Granted lib job unique w u → Q none u) :
    serves.wp (handleUnique lib job unique) Q w := by
  by_cases obstructed : ∃ holder rec, Obstructs lib w job unique holder rec
  · obtain ⟨holder, rec, obstructs⟩ := obstructed
    have goes (reject : conflictOf unique ≠ "reject") (ignore : conflictOf unique ≠ "ignore") :
        ¬ StopsAtLock lib w job unique := by
      rintro ⟨_, _, _, conflict⟩
      exact conflict.elim reject ignore
    refine wp_handleUnique_obstructed keyed obstructs
      (fun reject => stops ⟨holder, rec, obstructs, .inl reject⟩ _)
      (fun ignore => stops ⟨holder, rec, obstructs, .inr ignore⟩ _)
      (fun replace s u step moved => ?_) fun unsettled => ?_
    · refine granted (goes (by simp [replace]) (by simp [replace])) _
        (granted_replaced (fun k => ⟨?_, ?_⟩) step moved)
      · rintro ⟨rec', obstructs', -⟩
        exact (obstructs.eq obstructs').1
      · rintro rfl
        exact ⟨rec, obstructs, replace, step.live obstructs.stored⟩
    · refine granted (goes (fun reject => unsettled (.inl reject))
        fun ignore => unsettled (.inr (.inl ignore))) _ (granted_kept ?_)
      rintro k ⟨rec', obstructs', replace, live⟩
      obtain ⟨-, rfl⟩ := obstructs.eq obstructs'
      exact unsettled (.inr (.inr ⟨replace, live⟩))
  · have free : ∀ holder rec, ¬ Obstructs lib w job unique holder rec :=
      fun holder rec obstructs => obstructed ⟨holder, rec, obstructs⟩
    refine wp_handleUnique_unobstructed free fun u same lock => ?_
    obtain ⟨goes, taken⟩ := granted_unobstructed free same lock
    exact granted goes u taken

/-- A lock names the job. -/
def LockNames (w : World) (k : String) : Prop := ∃ f, w.value .unique f = some k

/-- The moves of a push from a world: it brings its job, and may cancel one that a lock names. -/
def Supplants (w : World) (new : String → JobState → Prop) : String → Move → Prop := fun j m =>
  Brings new j m ∨ (m = .cancel ∧ LockNames w j)

theorem Supplants.pushes {w : World} {new : String → JobState → Prop} (j : String) (m : Move)
    (h : Supplants w new j m) : Pushes new j m := h.imp id And.left

theorem Granted.evolves {w u : World} {job : Job} {unique : UniquePolicy}
    (granted : Granted lib job unique w u) :
    Evolves lib (fun j m => m = .cancel ∧ LockNames w j) w u where
  clock := granted.clock
  used := fun _ mem => granted.used ▸ mem
  slots := by
    intro k
    by_cases replaces : Replaces lib w job unique k
    · have named : LockNames w k := ⟨_, replaces.choose_spec.1.lock⟩
      exact Relation.ReflTransGen.single ⟨.cancel, ⟨rfl, named⟩, granted.replaced k replaces⟩
    · rw [granted.unreplaced k replaces]
      exact Relation.ReflTransGen.refl
  known := by
    intro k known
    by_cases replaces : Replaces lib w job unique k
    · obtain ⟨rec, obstructs, -⟩ := replaces
      exact .inl (by simp [obstructs.stored])
    · exact .inl (granted.unreplaced k replaces ▸ known)

theorem Granted.named {w u : World} {job : Job} {unique : UniquePolicy}
    (granted : Granted lib job unique w u) (nonempty : ¬ LockNames w "") {k : String}
    (named : LockNames u k) : LockNames w k ∨ k = job.id := by
  obtain ⟨g, held⟩ := named
  rw [granted.lock fun empty => nonempty ⟨_, empty⟩] at held
  split at held
  · exact .inr (Option.some.inj held).symm
  · exact .inl ⟨g, held⟩

theorem parseRFC3339_of_scheduledLater {job : Job} {now : Int}
    (later : isScheduledLater lib job now = true) : (lib.parseRFC3339 job.scheduledAt).isSome := by
  unfold isScheduledLater at later
  cases h : lib.parseRFC3339 job.scheduledAt with
  | some t => rfl
  | none => simp [h] at later

/-- The record `Push` stores for a job. -/
def storedRecord (lib : Externals) (state : State) (now : Int) (job : Job) : JobState :=
  marshalJobState (enqueuedJob lib state now job)

/-- The slot of a job once `Push` has stored it. -/
def storedSlot (lib : Externals) (now : Int) (job : Job) (s : Slot) : Slot :=
  if isScheduledLater lib job now then
    { s with
      record := some (storedRecord lib .scheduled now job)
      scheduled := some job.scheduledAt }
  else
    { s with
      record := some (storedRecord lib .available now job)
      messages := s.messages ++ [announcement now (storedRecord lib .available now job)] }

/-- Storing a job, whether or not there is one under its id. -/
theorem wp_storeJob_stores {w : World} {job : Job} {Q : Result Job → World → Prop}
    (stored : ∀ state u, Moved job.id (storedSlot lib w.clock job (w.slot job.id)) w u →
      (storedSlot lib w.clock job (w.slot job.id)).record =
        some (storedRecord lib state w.clock job) →
      Q (.ok (enqueuedJob lib state w.clock job)) u) :
    serves.wp (storeJob lib w.clock job) Q w := by
  refine wp_bind.mpr (wp_beside (sideline_ensureQueue _)
    (spares_guarded (confined_ensureQueue _) (by simp [Guarded])) fun _ v beside => ?_)
  refine wp_bind.mpr (wp_beside (sideline_storeRateLimit _)
    (spares_guarded (confined_storeRateLimit _) (by simp [Guarded])) fun _ u beside' => ?_)
  have moved : Moved job.id (w.slot job.id) w u :=
    ((Moved.refl job.id w).beside beside).beside beside'
  unfold storedSlot at stored
  cases later : isScheduledLater lib job w.clock with
  | true =>
    rw [later] at stored
    simp only [↓reduceIte, bind_eq, wp_bind, wp_putJobState, wp_put, pure_eq, wp_pure]
    exact stored .scheduled _
      ((moved.put (b := .jobs) rfl _).put (b := .scheduled) rfl job.scheduledAt) rfl
  | false =>
    rw [later] at stored
    simp only [Bool.false_eq_true, ↓reduceIte, bind_eq, wp_bind, wp_putJobState, wp_publishJob,
      pure_eq, wp_pure]
    exact stored .available _
      ((moved.put (b := .jobs) rfl _).publish (queueJobsSubject job.queue)) rfl

/-- Storing a job without a record enqueues or schedules it. -/
theorem storedSlot_step {now : Int} {job : Job} {s : Slot} {rec : JobState}
    (untried : job.attempt = 0) (vacant : s.record = none)
    (stored : (storedSlot lib now job s).record = some rec) :
    ∃ m, (m = .enqueue rec ∨ m = .schedule rec) ∧
      Slot.Step lib now job.id m s (storedSlot lib now job s) := by
  unfold storedSlot at stored ⊢
  split at stored
  · rename_i later
    cases stored
    rw [if_pos later]
    exact ⟨_, .inr rfl,
      .schedule vacant rfl rfl (parseRFC3339_of_scheduledLater later) untried⟩
  · rename_i early
    cases stored
    rw [if_neg early]
    exact ⟨_, .inl rfl, .enqueue vacant rfl rfl rfl untried⟩

theorem wp_storeJob {w : World} {job : Job} {Q : Result Job → World → Prop}
    (untried : job.attempt = 0) (reserved : Reserved w job.id)
    (stored : ∀ state m s u, (m = .enqueue (storedRecord lib state w.clock job) ∨
        m = .schedule (storedRecord lib state w.clock job)) →
      Slot.Step lib w.clock job.id m (w.slot job.id) s → Moved job.id s w u →
      Q (.ok (enqueuedJob lib state w.clock job)) u) :
    serves.wp (storeJob lib w.clock job) Q w := by
  refine wp_storeJob_stores fun state u moved record => ?_
  obtain ⟨m, kind, step⟩ := storedSlot_step untried reserved.vacant record
  exact stored state m _ u kind step moved

theorem storeJob_evolves {w : World} {now : Int} {job : Job} (clock : w.clock = now)
    (untried : job.attempt = 0) (reserved : Reserved w job.id) :
    serves.wp (storeJob lib now job) (fun _ t => Evolves lib (Brings fun j rec =>
      j = job.id ∧ ∃ state, rec = storedRecord lib state now job) w t ∧
      t.kv .unique = w.kv .unique) w := by
  subst clock
  refine wp_storeJob untried reserved fun state m s u kind step moved => ?_
  have brings : Brings (fun j rec => j = job.id ∧ ∃ state,
      rec = storedRecord lib state w.clock job) job.id m := ⟨_, kind, rfl, state, rfl⟩
  exact ⟨.single brings (moved.slot ▸ step) moved.others moved.clock moved.used
    (.inr ⟨reserved.used, reserved.nonempty⟩), moved.kv .unique rfl⟩

theorem LockNames.of_kv {w t : World} {k : String} (same : t.kv .unique = w.kv .unique)
    (named : LockNames t k) : LockNames w k := by
  obtain ⟨f, held⟩ := named
  exact ⟨f, (value_of_kv same f).symm.trans held⟩

/-- `Push` after its policy block. -/
def storeUnless (lib : Externals) (now : Int) (job : Job) : Option (Result Job) → Prog (Result Job)
  | some early => .pure early
  | none => storeJob lib now job

/-- A push with its policy: the lock first, then the storing. -/
def pushUnique (lib : Externals) (now : Int) (job : Job) (unique : UniquePolicy) :
    Prog (Result Job) :=
  (handleUnique lib job unique).bind (storeUnless lib now job)

/-- `Push` from the unique-policy block on. -/
def pushFresh (lib : Externals) (now : Int) (job : Job) : Prog (Result Job) :=
  match job.unique with
  | none => storeJob lib now job
  | some unique => pushUnique lib now job unique

theorem pushFresh_free {now : Int} {job : Job} (free : job.unique = none) :
    pushFresh lib now job = storeJob lib now job := by
  rw [pushFresh, free]

theorem pushFresh_policy {now : Int} {job : Job} {unique : UniquePolicy}
    (policy : job.unique = some unique) :
    pushFresh lib now job = pushUnique lib now job unique := by
  rw [pushFresh, policy]

/-- A push notes the time and its id before anything else. -/
theorem push_eq (lib : Externals) (job : Job) : push lib job = timeNow.bind fun now =>
    if job.id = "" then newUUIDv7.bind fun id => pushFresh lib now (freshJob lib id now job)
    else pushFresh lib now (freshJob lib job.id now job) := by
  simp only [push, bind_eq, pure_eq, bind_pure_left]
  rfl

theorem pushFresh_evolves {w : World} {now : Int} {job : Job} (sound : Sound w)
    (clock : w.clock = now) (untried : job.attempt = 0) (reserved : Reserved w job.id) :
    serves.wp (pushFresh lib now job) (fun _ t => Evolves lib (Supplants w fun j rec =>
      j = job.id ∧ ∃ state, rec = storedRecord lib state now job) w t ∧
      (¬ LockNames w "" → ∀ k, LockNames t k → LockNames w k ∨ k = job.id)) w := by
  unfold pushFresh
  cases job.unique with
  | none =>
    exact (storeJob_evolves clock untried reserved).mono fun _ _ ⟨next, kv⟩ =>
      ⟨next.mono fun _ _ => .inl, fun _ k named => .inl (named.of_kv kv)⟩
  | some unique =>
    refine wp_bind.mpr (wp_handleUnique (fun k => (sound.placed k).keyed) (fun _ early => ?_)
      fun _ t granted => ?_)
    · exact wp_pure.mpr ⟨Evolves.refl w, fun _ _ => .inl⟩
    · have evolves := granted.evolves
      have still : Reserved t job.id := reserved.after evolves fun m h rec => by
        rw [h.1]
        simp
      refine (storeJob_evolves (evolves.clock.trans clock) untried still).mono
        fun _ u ⟨next, kv⟩ => ⟨?_, fun nonempty k named => granted.named nonempty (named.of_kv kv)⟩
      exact (evolves.mono fun _ _ => .inr).trans (next.mono fun _ _ => .inl)

/-- A generated id is reserved. -/
theorem Reserved.of_generated {w : World} {id : String} (sound : Sound w) (nonempty : id ≠ "")
    (unused : id ∉ w.used) : Reserved { w with used := id :: w.used } id where
  nonempty := nonempty
  used := List.mem_cons_self
  vacant := by
    by_contra known
    exact unused (sound.known id known).1

theorem evolves_generated {w : World} {id : String} {allowed : String → Move → Prop} :
    Evolves lib allowed w { w with used := id :: w.used } where
  clock := rfl
  used := fun _ h => List.mem_cons_of_mem _ h
  slots := fun _ => Relation.ReflTransGen.refl
  known := fun _ h => .inl h

/-- The id of a new job: the client's, or a generated one. -/
theorem wp_chosenID {α : Type} {w : World} {given : String} {Q : α → World → Prop}
    {rest : String → Prog α} (client : given ≠ "" → serves.wp (rest given) Q w)
    (generated : given = "" → ∀ id, id ≠ "" → id ∉ w.used →
      serves.wp (rest id) Q { w with used := id :: w.used }) :
    serves.wp (if given = "" then newUUIDv7.bind rest else rest given) Q w := by
  split
  · rename_i empty
    exact wp_bind.mpr (wp_newUUIDv7.mpr fun id nonempty unused =>
      generated empty id nonempty unused)
  · rename_i nonempty
    exact client nonempty

theorem wp_newID (lib : Externals) {α : Type} {w : World} {given : String} {Q : α → World → Prop}
    {rest : String → Prog α} (sound : Sound w) (reserved : given ≠ "" → Reserved w given)
    (h : ∀ id t, Evolves lib (fun _ _ => False) w t → Reserved t id →
      (id = given ∨ id ∉ w.used) → t.kv = w.kv → serves.wp (rest id) Q t) :
    serves.wp (if given = "" then newUUIDv7.bind rest else rest given) Q w :=
  wp_chosenID
    (fun nonempty => h given w (Evolves.refl w) (reserved nonempty) (.inl rfl) rfl)
    fun _ id nonempty unused =>
      h id _ evolves_generated (.of_generated sound nonempty unused) (.inr unused) rfl

/-- The records stored for a job under its id are those of the push. -/
theorem Stores.of_fresh {id : String} {now : Int} {job : Job} (j : String) (rec : JobState)
    (h : j = (freshJob lib id now job).id ∧ ∃ state,
      rec = storedRecord lib state now (freshJob lib id now job)) :
    Stores lib job j rec := by
  obtain ⟨rfl, state, rfl⟩ := h
  exact ⟨state, now, rfl⟩

/-- A push brings its job and cancels at most a job that a lock names; a lock it takes
names a job that was not there. -/
theorem wp_push_takes {w : World} {job : Job} (sound : Sound w)
    (given : job.id ≠ "" → Reserved w job.id) :
    serves.wp (push lib job) (fun _ t => Evolves lib (Supplants w (Stores lib job)) w t ∧
      (¬ LockNames w "" → ∀ k, LockNames t k → LockNames w k ∨
        k ∈ t.used ∧ k ≠ "" ∧ (w.slot k).record = none)) w := by
  rw [push_eq, wp_bind, wp_timeNow]
  refine wp_newID lib sound given fun id v evolves reserved _ kv => ?_
  have vacant : (w.slot id).record = none := by
    have vacant := reserved.vacant
    rwa [World.slot, World.value, kv] at vacant
  have named {k : String} (h : LockNames v k) : LockNames w k := h.of_kv (by rw [kv])
  have untried : (freshJob lib id w.clock job).attempt = 0 := rfl
  refine (pushFresh_evolves (evolves.sound sound) evolves.clock untried
    reserved).mono ?_
  rintro _ t ⟨next, taken⟩
  refine ⟨?_, fun nonempty k held => ?_⟩
  · refine (evolves.mono fun _ _ h => h.elim).trans (next.mono fun j m h => ?_)
    exact h.imp (Brings.mono Stores.of_fresh j m) fun cancels => ⟨cancels.1, named cancels.2⟩
  · rcases taken (fun empty => nonempty (named empty)) k held with before | same
    · exact .inl (named before)
    · obtain rfl : k = id := same
      exact .inr ⟨next.used k reserved.used, reserved.nonempty, vacant⟩

theorem push_evolves {w : World} {job : Job} (sound : Sound w)
    (given : job.id ≠ "" → Reserved w job.id) :
    serves.wp (push lib job) (fun _ t => Evolves lib (Pushes (Stores lib job)) w t) w :=
  (wp_push_takes sound given).mono fun _ _ h => h.1.mono Supplants.pushes

/-- A push without an id and without a unique policy stores the job under a new id. -/
theorem wp_push_generated {w : World} {job : Job} {Q : Result Job → World → Prop}
    (generated : job.id = "") (free : job.unique = none) (sound : Sound w)
    (stored : ∀ id state m s u, id ≠ "" → id ∉ w.used →
      (m = .enqueue (storedRecord lib state w.clock (freshJob lib id w.clock job)) ∨
        m = .schedule (storedRecord lib state w.clock (freshJob lib id w.clock job))) →
      Slot.Step lib w.clock id m (w.slot id) s →
      Moved id s { w with used := id :: w.used } u →
      Q (.ok (enqueuedJob lib state w.clock (freshJob lib id w.clock job))) u) :
    serves.wp (push lib job) Q w := by
  simp only [push, bind_eq, pure_eq, wp_bind, wp_timeNow, generated, ↓reduceIte, wp_newUUIDv7]
  intro id nonempty unused
  have none : (freshJob lib id w.clock job).unique = none := by simp [freshJob, free]
  simp only [none]
  have reserved : Reserved { w with used := id :: w.used } (freshJob lib id w.clock job).id :=
    .of_generated sound nonempty unused
  exact wp_storeJob (w := { w with used := id :: w.used }) rfl reserved
    fun state m s u kind step moved => stored id state m s u nonempty unused kind step moved

theorem push_advances (job : Job) (generated : job.id = "") (free : job.unique = none) :
    Advances lib (Brings (Stores lib job)) (push lib job) := by
  intro w sound
  refine wp_push_generated generated free sound
    fun id state m s u nonempty unused kind step moved => ?_
  have brings : Brings (Stores lib job) id m := ⟨_, kind, state, w.clock, rfl⟩
  have stored : Evolves lib (Brings (Stores lib job)) { w with used := id :: w.used } u :=
    .single brings (moved.slot ▸ step) moved.others moved.clock moved.used
      (.inr ⟨List.mem_cons_self, nonempty⟩)
  exact evolves_generated.trans stored

/-! ## PushBatch -/

/-- The records `PushBatch` can store for one of the jobs. -/
def BatchStores (lib : Externals) (jobs : List Job) : String → JobState → Prop := fun j rec =>
  ∃ job ∈ jobs, ∃ now, rec = marshalJobState (batchJob lib j now job)

/-- One turn of the batch enqueues a reserved job. -/
theorem batchJob_evolves {w u : World} {now : Int} {id : String} {job : Job}
    (clock : w.clock = now) (reserved : Reserved w id)
    (same : SameBoard (w.put .jobs id (marshalJobState (batchJob lib id now job))) u) :
    Evolves lib (fun j m => j = id ∧ m = .enqueue (marshalJobState (batchJob lib id now job))) w
      (u.publish (queueJobsSubject (batchJob lib id now job).queue) id) := by
  subst clock
  have isID : (marshalJobState (batchJob lib id w.clock job)).id = id := rfl
  refine .single (j := id) ⟨rfl, rfl⟩ ?_ (fun j ne => ?_) same.clock same.used
    (.inr ⟨reserved.used, reserved.nonempty⟩)
  · simpa [same.slots, same.clock, Slot.write] using
      Slot.Step.enqueue reserved.vacant isID rfl rfl rfl
  · simp [same.slots, ne]

/-- Storing a batch enqueues its jobs one by one, each id still reserved when
its turn comes. -/
theorem pushBatchLoop_evolves {w v : World} {new : String → JobState → Prop}
    (jobs done : List Job) (sound : Sound w) (evolves : Evolves lib (Brings new) w v)
    (kind : ∀ j rec, BatchStores lib jobs j rec → new j rec)
    (given : ∀ job ∈ jobs, job.id ≠ "" → Reserved v job.id)
    (distinct : ((jobs.map Job.id).filter (· ≠ "")).Nodup) :
    serves.wp (pushBatchLoop lib w.clock jobs done) (fun _ t => Evolves lib (Brings new) w t) v := by
  induction jobs generalizing v done with
  | nil => exact wp_pure.mpr evolves
  | cons job rest ih =>
    simp only [pushBatchLoop, bind_eq, pure_eq, bind_pure_left]
    refine wp_newID lib (evolves.sound sound) (given job (by simp))
      fun id t generated reserved origin _ => ?_
    simp only [wp_bind, wp_putJobState]
    refine wp_sideline (sideline_ensureQueue _) fun _ u same => ?_
    simp only [wp_publishJob]
    have turn := batchJob_evolves (generated.clock.trans evolves.clock) reserved same
    have brings : ∀ j m, j = id ∧ m = .enqueue (marshalJobState (batchJob lib id w.clock job)) →
        Brings new j m := by
      rintro j m ⟨rfl, move⟩
      exact ⟨_, .inl move, kind _ _ ⟨job, by simp, w.clock, rfl⟩⟩
    have brought := turn.mono brings
    refine ih _ (evolves.trans ((generated.mono fun _ _ h => h.elim).trans brought)) ?_
      (fun other mem nonempty => ?_) ?_
    · rintro j rec ⟨other, mem, stored⟩
      exact kind j rec ⟨other, by simp [mem], stored⟩
    · have reservedOther := given other (by simp [mem]) nonempty
      have ne : other.id ≠ id := by
        rintro rfl
        rcases origin with same | unused
        · have twice : other.id ∈ (rest.map Job.id).filter (· ≠ "") := by
            simpa [nonempty] using ⟨other, mem, rfl⟩
          rw [List.map_cons, ← same, List.filter_cons_of_pos (by simpa using nonempty),
            List.nodup_cons] at distinct
          exact distinct.1 twice
        · exact unused reservedOther.used
      exact (reservedOther.after generated fun _ h => h.elim).after turn
        fun _ h => absurd h.1 ne
    · rw [List.map_cons, List.filter_cons] at distinct
      split at distinct
      · exact (List.nodup_cons.mp distinct).2
      · exact distinct

theorem pushBatch_evolves {w : World} {jobs : List Job} (sound : Sound w)
    (given : ∀ job ∈ jobs, job.id ≠ "" → Reserved w job.id)
    (distinct : ((jobs.map Job.id).filter (· ≠ "")).Nodup) :
    serves.wp (pushBatch lib jobs)
      (fun _ t => Evolves lib (Brings (BatchStores lib jobs)) w t) w := by
  unfold pushBatch
  split
  · exact wp_pure.mpr (Evolves.refl w)
  · simp only [bind_eq, wp_bind, wp_timeNow]
    exact pushBatchLoop_evolves jobs [] sound (Evolves.refl w) (fun _ _ h => h) given distinct

end OjsNats.Lifecycle
