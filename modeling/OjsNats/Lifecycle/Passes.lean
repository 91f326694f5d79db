import OjsNats.Lifecycle.Evolution

/-!
# Scheduler passes and dead letters move jobs

A pass reads an index entry and moves the job it belongs to.
-/

namespace OjsNats.Lifecycle

open Core Nats Effect Semantics Program

variable {lib : Externals}

theorem record_of_isSome {w : World} {k : String} {st : State}
    (h : (w.slot k).state = some st) : ∃ rec, (w.slot k).record = some rec ∧ rec.state = st := by
  simpa [Slot.state] using h

/-! ## One turn -/

/-- What one turn of a pass makes of a job: the move, if it is due. -/
structure Turned (lib : Externals) (m : Move) (due : Slot → Prop) (k : String) (w t : World) :
    Prop where
  moved : due (w.slot k) → ∃ s, Slot.Step lib w.clock k m (w.slot k) s ∧ Moved k s w t
  kept : ¬ due (w.slot k) → t = w

section Turn

variable {w : World} {k : String} {m : Move} {due : Slot → Prop}

theorem Turned.idle (h : ¬ due (w.slot k)) : Turned lib m due k w w :=
  ⟨fun now => absurd now h, fun _ => rfl⟩

theorem Turned.move {s : Slot} {t : World} (h : due (w.slot k))
    (step : Slot.Step lib w.clock k m (w.slot k) s) (moved : Moved k s w t) :
    Turned lib m due k w t :=
  ⟨fun _ => ⟨s, step, moved⟩, fun never => absurd h never⟩

/-- An index entry whose time has come. -/
def Due (parse : String → Option Int) (now : Int) (entry : Option String) : Prop :=
  ∃ text t, entry = some text ∧ parse text = some t ∧ t ≤ now

/-- A lease that has run out. -/
def Stalled (lib : Externals) (now : Int) (entry : Option ActiveJobInfo) : Prop :=
  ∃ info t, entry = some info ∧ lib.parseTime info.visibilityDeadline = some t ∧ t < now

instance (now : Int) (entry : Option ActiveJobInfo) : Decidable (Stalled lib now entry) :=
  decidable_of_iff (entry.any fun info =>
    (lib.parseTime info.visibilityDeadline).any fun t => decide (t < now)) (by
      simp [Stalled, Option.any_eq_true])

/-- Promoting a job whose index entry the bucket `b` holds. -/
theorem promoteJob_moves {b : BucketName} {rec : JobState} {Q : FirstErr → World → Prop}
    (other : Guarded b = false) (what : String) (firstErr : FirstErr) (sound : Sound w)
    (h : (w.slot k).record = some rec)
    (moves : ∀ rec' t, Requeues lib w.clock rec rec' → Continues rec rec' →
      Moved k { ((w.slot k).write .jobs (some rec')).write b none with
        messages := (((w.slot k).write .jobs (some rec')).write b none).messages ++
          [announcement w.clock rec'] } w t → Q firstErr t) :
    serves.wp (promoteJob lib b what w.clock k firstErr) Q w := by
  obtain rfl : rec.id = k := (sound.placed k).keyed rec h
  simp only [promoteJob, bind_eq, wp_bind, wp_getJobState, World.job_of_record h, wp_putJobState,
    wp_delete, wp_publishJob, pure_eq, wp_pure]
  have settled := (((Moved.refl rec.id w).put (b := .jobs) rfl (marshalJobState
    (enqueuedJob lib .available w.clock (unmarshalJobState rec)))).delete other).publish
      (queueJobsSubject rec.queue)
  exact moves (marshalJobState (enqueuedJob lib .available w.clock (unmarshalJobState rec))) _
    ⟨⟨rfl, rfl, rfl, rfl⟩, rfl⟩ ⟨rfl, rfl, rfl⟩ settled

theorem promoteScheduledJob_turns (k : String) (firstErr : FirstErr) (sound : Sound w) :
    serves.wp (promoteScheduledJob lib w.clock k firstErr)
      (fun _ t => Turned lib .promote (fun s =>
        Due (parseEither lib.parseRFC3339 lib.parseTime) w.clock s.scheduled) k w t) w := by
  simp only [promoteScheduledJob, bind_eq, wp_bind, wp_get .scheduled]
  cases entry : w.lookup .scheduled k with
  | error e =>
    have absent : (w.slot k).scheduled = none := World.lookup_error w entry
    exact wp_pure.mpr (.idle (by simp [Due, absent]))
  | ok found =>
    obtain ⟨text, rev⟩ := found
    have indexed : (w.slot k).scheduled = some text := World.lookup_value w entry
    obtain ⟨rec, h, -⟩ := record_of_isSome ((sound.placed k).scheduled_iff.mp (by simp [indexed]))
    dsimp only
    split
    · rename_i illegible
      exact wp_pure.mpr (.idle (by simp [Due, indexed, illegible]))
    · rename_i t legible
      split
      · rename_i early
        exact wp_pure.mpr (.idle (by simpa [Due, indexed, legible] using early))
      · rename_i passed
        refine promoteJob_moves rfl _ _ sound h fun rec' t next same moved => ?_
        exact .move ⟨text, _, indexed, legible, Int.not_lt.mp passed⟩
          (.promoteScheduled h indexed next same) moved

theorem promoteRetriesJob_turns (k : String) (firstErr : FirstErr) (sound : Sound w) :
    serves.wp (promoteRetriesJob lib w.clock k firstErr)
      (fun _ t => Turned lib .promote (fun s =>
        Due (parseEither lib.parseTime lib.parseRFC3339) w.clock s.retry) k w t) w := by
  simp only [promoteRetriesJob, bind_eq, wp_bind, wp_get .retry]
  cases entry : w.lookup .retry k with
  | error e =>
    have absent : (w.slot k).retry = none := World.lookup_error w entry
    exact wp_pure.mpr (.idle (by simp [Due, absent]))
  | ok found =>
    obtain ⟨text, rev⟩ := found
    have indexed : (w.slot k).retry = some text := World.lookup_value w entry
    obtain ⟨rec, h, -⟩ := record_of_isSome ((sound.placed k).retry_iff.mp (by simp [indexed]))
    dsimp only
    split
    · rename_i illegible
      exact wp_pure.mpr (.idle (by simp [Due, indexed, illegible]))
    · rename_i t legible
      split
      · rename_i early
        exact wp_pure.mpr (.idle (by simpa [Due, indexed, legible] using early))
      · rename_i passed
        refine promoteJob_moves rfl _ _ sound h fun rec' t next same moved => ?_
        exact .move ⟨text, _, indexed, legible, Int.not_lt.mp passed⟩
          (.promoteRetry h indexed next same) moved

theorem requeueStalledJob_turns (k : String) (firstErr : FirstErr) (sound : Sound w) :
    serves.wp (requeueStalledJob lib w.clock k firstErr)
      (fun _ t => Turned lib .stall (fun s => Stalled lib w.clock s.active) k w t) w := by
  simp only [requeueStalledJob, bind_eq, wp_bind, wp_get .active]
  cases entry : w.lookup .active k with
  | error e =>
    have absent : (w.slot k).active = none := World.lookup_error w entry
    exact wp_pure.mpr (.idle (by simp [Stalled, absent]))
  | ok found =>
    obtain ⟨info, rev⟩ := found
    have indexed : (w.slot k).active = some info := World.lookup_value w entry
    obtain ⟨rec, h, active⟩ := record_of_isSome ((sound.placed k).active_iff.mp (by simp [indexed]))
    obtain rfl : rec.id = k := (sound.placed k).keyed rec h
    dsimp only
    split
    · rename_i illegible
      exact wp_pure.mpr (.idle (by simp [Stalled, indexed, illegible]))
    · rename_i deadline legible
      split
      · rename_i passed
        simp only [requeueJob, bind_eq, wp_bind, wp_getJobState, World.job_of_record h]
        simp only [unmarshalJobState_state, active, ne_eq, not_true_eq_false, ↓reduceIte, wp_bind,
          wp_putJobState, wp_delete, wp_ackMessage, wp_publishJob, pure_eq, wp_pure]
        have next : Requeues lib w.clock rec
            (marshalJobState (requeuedJob lib w.clock (unmarshalJobState rec))) :=
          ⟨⟨rfl, rfl, rfl, rfl⟩, rfl⟩
        have settled := ((((Moved.refl rec.id w).put (b := .jobs) rfl (marshalJobState
          (requeuedJob lib w.clock (unmarshalJobState rec)))).delete (b := .active) rfl).track
            none).publish (queueJobsSubject rec.queue)
        exact .move ⟨info, deadline, indexed, legible, passed⟩
          (.requeue (.inr rfl) h active next ⟨rfl, rfl, rfl⟩) settled
      · rename_i live
        exact wp_pure.mpr (.idle (by simpa [Stalled, indexed, legible] using live))

end Turn

/-! ## The passes -/

/-- What a pass makes of all jobs: the due ones have made the move. -/
structure Passed (lib : Externals) (m : Move) (due : Slot → Prop) (w t : World) : Prop where
  moved : ∀ j, due (w.slot j) → Slot.Step lib w.clock j m (w.slot j) (t.slot j)
  kept : ∀ j, ¬ due (w.slot j) → t.slot j = w.slot j
  clock : t.clock = w.clock
  used : t.used = w.used
  kv : ∀ b, Guarded b = true → t.kv b = w.kv b

/-- Between two turns: the jobs still to come are as they were. -/
structure Passing (lib : Externals) (m : Move) (due : Slot → Prop) (w : World)
    (rest : List String) (v : World) : Prop where
  sound : Sound v
  nodup : rest.Nodup
  ahead : ∀ j ∈ rest, v.slot j = w.slot j
  moved : ∀ j, j ∉ rest → due (w.slot j) → Slot.Step lib w.clock j m (w.slot j) (v.slot j)
  kept : ∀ j, j ∉ rest → ¬ due (w.slot j) → v.slot j = w.slot j
  clock : v.clock = w.clock
  used : v.used = w.used
  kv : ∀ b, Guarded b = true → v.kv b = w.kv b

/-- A move of a pass needs a job. -/
theorem Slot.Step.existing {now : Int} {j : String} {m : Move} {s t : Slot}
    (step : Slot.Step lib now j m s t) (kind : m = .promote ∨ m = .stall) : s.record ≠ none := by
  cases step with
  | requeue _ some | promoteScheduled some | promoteRetry some => simp [some]
  | enqueue | schedule | claim | expire | skip | extend | complete | discard | retryLater | cancel
  | revive | forget => simp at kind

theorem Passing.turn {m : Move} {due : Slot → Prop} {w v t : World} {k : String}
    {rest : List String} (kind : m = .promote ∨ m = .stall)
    (h : Passing lib m due w (k :: rest) v) (turned : Turned lib m due k v t) :
    Passing lib m due w rest t := by
  obtain ⟨absent, nodup⟩ := List.nodup_cons.mp h.nodup
  have here : v.slot k = w.slot k := h.ahead k (by simp)
  by_cases now : due (v.slot k)
  · obtain ⟨s, step, moved⟩ := turned.moved now
    have evolves : Evolves lib (fun _ m' => m' = m) v t :=
      moved.evolves rfl step (step.existing kind)
    refine ⟨evolves.sound h.sound, nodup, fun j mem => ?_, fun j done due => ?_,
      fun j done idle => ?_, moved.clock.trans h.clock, moved.used.trans h.used,
      fun b guarded => (moved.kv b guarded).trans (h.kv b guarded)⟩
    · have ne : j ≠ k := by
        rintro rfl
        exact absent mem
      rw [moved.others j ne]
      exact h.ahead j (by simp [mem])
    · by_cases same : j = k
      · subst same
        rw [moved.slot, ← here, ← h.clock]
        exact step
      · rw [moved.others j same]
        exact h.moved j (by simp [same, done]) due
    · by_cases same : j = k
      · subst same
        exact absurd (here ▸ now) idle
      · rw [moved.others j same]
        exact h.kept j (by simp [same, done]) idle
  · obtain rfl := turned.kept now
    refine ⟨h.sound, nodup, fun j mem => h.ahead j (by simp [mem]), fun j done due => ?_,
      fun j done idle => ?_, h.clock, h.used, h.kv⟩
    · by_cases same : j = k
      · subst same
        exact absurd (here ▸ due) now
      · exact h.moved j (by simp [same, done]) due
    · by_cases same : j = k
      · subst same
        exact here
      · exact h.kept j (by simp [same, done]) idle

theorem pass_passed {m : Move} {due : Int → Slot → Prop} {b : BucketName}
    {body : Int → String → FirstErr → Prog FirstErr} {w : World}
    (kind : m = .promote ∨ m = .stall) (sound : Sound w)
    (indexed : ∀ j, due w.clock (w.slot j) → (w.value b j).isSome)
    (turn : ∀ k firstErr v, Sound v →
      serves.wp (body v.clock k firstErr) (fun _ t => Turned lib m (due v.clock) k v t) v) :
    serves.wp (do
      match ← Store.keys b with
      | .error e => return .error (.call e)
      | .ok keys =>
          let now ← timeNow
          let firstErr ← Program.forEach keys none (body now)
          return (passResult firstErr : Result Unit))
      (fun _ t => Passed lib m (due w.clock) w t) w := by
  refine wp_bind.mpr (wp_keys fun keys nodup listed => ?_)
  simp only [bind_eq, wp_bind, wp_timeNow]
  refine wp_forEach (fun rest _ v => Passing lib m (due w.clock) w rest v) ?_ ?_ ?_
  · exact ⟨sound, nodup, fun _ _ => rfl,
      fun j absent now => absurd ((listed j).mpr (indexed j now)) absent, fun _ _ _ => rfl, rfl,
      rfl, fun _ _ => rfl⟩
  · intro k rest firstErr v passing
    rw [← passing.clock]
    refine (turn k firstErr v passing.sound).mono fun _ t turned => ?_
    rw [passing.clock] at turned ⊢
    exact passing.turn kind turned
  · intro _ t passing
    exact wp_pure.mpr ⟨fun j => passing.moved j (by simp), fun j => passing.kept j (by simp),
      passing.clock, passing.used, passing.kv⟩

theorem promoteScheduled_passed {w : World} (sound : Sound w) :
    serves.wp (promoteScheduled lib) (fun _ t => Passed lib .promote (fun s =>
      Due (parseEither lib.parseRFC3339 lib.parseTime) w.clock s.scheduled) w t) w := by
  let due : Int → Slot → Prop := fun now s =>
    Due (parseEither lib.parseRFC3339 lib.parseTime) now s.scheduled
  have indexed (j : String) (now : due w.clock (w.slot j)) : (w.value .scheduled j).isSome := by
    obtain ⟨text, t, entry, -⟩ := now
    exact Option.isSome_iff_exists.mpr ⟨text, entry⟩
  exact pass_passed (.inl rfl) sound indexed fun k firstErr _ sound' =>
    promoteScheduledJob_turns k firstErr sound'

theorem promoteRetries_passed {w : World} (sound : Sound w) :
    serves.wp (promoteRetries lib) (fun _ t => Passed lib .promote (fun s =>
      Due (parseEither lib.parseTime lib.parseRFC3339) w.clock s.retry) w t) w := by
  let due : Int → Slot → Prop := fun now s =>
    Due (parseEither lib.parseTime lib.parseRFC3339) now s.retry
  have indexed (j : String) (now : due w.clock (w.slot j)) : (w.value .retry j).isSome := by
    obtain ⟨text, t, entry, -⟩ := now
    exact Option.isSome_iff_exists.mpr ⟨text, entry⟩
  exact pass_passed (.inl rfl) sound indexed fun k firstErr _ sound' =>
    promoteRetriesJob_turns k firstErr sound'

theorem requeueStalled_passed {w : World} (sound : Sound w) :
    serves.wp (requeueStalled lib) (fun _ t => Passed lib .stall (fun s =>
      Stalled lib w.clock s.active) w t) w := by
  let due : Int → Slot → Prop := fun now s => Stalled lib now s.active
  have indexed (j : String) (now : due w.clock (w.slot j)) : (w.value .active j).isSome := by
    obtain ⟨info, t, entry, -⟩ := now
    exact Option.isSome_iff_exists.mpr ⟨info, entry⟩
  exact pass_passed (.inr rfl) sound indexed fun k firstErr _ sound' =>
    requeueStalledJob_turns k firstErr sound'

theorem Passed.evolves {m : Move} {due : Slot → Prop} {w t : World}
    (kind : m = .promote ∨ m = .stall) (passed : Passed lib m due w t) :
    Evolves lib (fun _ m' => m' = m) w t where
  clock := passed.clock
  used := fun _ mem => passed.used ▸ mem
  slots := by
    intro j
    by_cases now : due (w.slot j)
    · exact Relation.ReflTransGen.single ⟨m, rfl, passed.moved j now⟩
    · rw [passed.kept j now]
      exact Relation.ReflTransGen.refl
  known := by
    intro j known
    by_cases now : due (w.slot j)
    · exact .inl ((passed.moved j now).existing kind)
    · exact .inl (passed.kept j now ▸ known)

/-- The moves of a promoting pass. -/
def Promotes : String → Move → Prop := fun _ m => m = .promote

/-- The moves of the reaper. -/
def Stalls : String → Move → Prop := fun _ m => m = .stall

theorem promoteScheduled_advances : Advances lib Promotes (promoteScheduled lib) :=
  fun _ sound => (promoteScheduled_passed sound).mono fun _ _ passed => passed.evolves (.inl rfl)

theorem promoteRetries_advances : Advances lib Promotes (promoteRetries lib) :=
  fun _ sound => (promoteRetries_passed sound).mono fun _ _ passed => passed.evolves (.inl rfl)

theorem requeueStalled_advances : Advances lib Stalls (requeueStalled lib) :=
  fun _ sound => (requeueStalled_passed sound).mono fun _ _ passed => passed.evolves (.inr rfl)

/-! ## Dead letters -/

/-- The slot of a dead job that starts again. -/
def Slot.revived (lib : Externals) (now : Int) (rec : JobState) (s : Slot) : Slot :=
  { s with
    record := some (marshalJobState (revivedJob lib now (unmarshalJobState rec)))
    dead := none
    messages := s.messages ++ [⟨queueJobsSubject rec.queue, rec.id, now⟩] }

/-- `RetryDeadLetter` of a job with a record and an entry. -/
theorem wp_retryDeadLetter_entered {w : World} {rec : JobState} {Q : Result Job → World → Prop}
    (stored : (w.slot rec.id).record = some rec) (entry : (w.slot rec.id).dead.isSome)
    (revived : ∀ u reply, Moved rec.id ((w.slot rec.id).revived lib w.clock rec) w u →
      Q (.ok reply) u) : serves.wp (retryDeadLetter lib rec.id) Q w := by
  have entered : (w.value .dead rec.id).isSome := entry
  simp only [retryDeadLetter, bind_eq, wp_bind, wp_exists?, entered, ↓reduceIte, wp_timeNow,
    wp_getJobState, World.job_of_record stored, wp_putJobState, wp_delete, wp_publishJob, wp_info]
  have settled := (((Moved.refl rec.id w).put (b := .jobs) rfl (marshalJobState
    (revivedJob lib w.clock (unmarshalJobState rec)))).delete (b := .dead) rfl).publish
      (queueJobsSubject rec.queue)
  have replies (u : World) (moved : Moved rec.id ((w.slot rec.id).revived lib w.clock rec) w u) :
      Q (u.info rec.id) u := by
    rw [World.info_of_record (congrArg Slot.record moved.slot)]
    exact revived u _ moved
  exact replies _ settled

/-- `RetryDeadLetter` needs a dead-letter entry; the job then starts again. -/
theorem wp_retryDeadLetter {w : World} {k : String} {Q : Result Job → World → Prop}
    (sound : Sound w) (refused : (w.slot k).dead = none → ∀ e, Q (.error e) w)
    (revived : ∀ s u reply, Slot.Step lib w.clock k .revive (w.slot k) s → Moved k s w u →
      Q (.ok reply) u) : serves.wp (retryDeadLetter lib k) Q w := by
  cases entry : (w.slot k).dead with
  | none =>
    have unlisted : w.value .dead k = none := entry
    simp only [retryDeadLetter, bind_eq, wp_bind, wp_exists?, unlisted]
    exact wp_pure.mpr (refused entry _)
  | some due =>
    obtain ⟨rec, stored, -⟩ := record_of_isSome ((sound.placed k).dead_discarded (by simp [entry]))
    obtain rfl : rec.id = k := (sound.placed k).keyed rec stored
    refine wp_retryDeadLetter_entered stored (by simp [entry]) fun u reply moved => ?_
    have next : Requeues lib w.clock rec
        (marshalJobState (revivedJob lib w.clock (unmarshalJobState rec))) :=
      ⟨⟨rfl, rfl, rfl, rfl⟩, rfl⟩
    exact revived _ u reply (.revive stored entry next ⟨rfl, rfl, rfl⟩) moved

theorem retryDeadLetter_advances (k : String) :
    Advances lib (fun j m => j = k ∧ m = .revive) (retryDeadLetter lib k) := by
  intro w sound
  refine wp_retryDeadLetter sound (fun _ _ => Evolves.refl w) fun s u _ step moved => ?_
  refine moved.evolves ⟨rfl, rfl⟩ step ?_
  cases step with
  | revive some => simp [some]
  | requeue kind => simp at kind

theorem deleteDeadLetter_advances (k : String) :
    Advances lib (fun j m => j = k ∧ m = .forget) (deleteDeadLetter k) := by
  intro w sound
  simp only [deleteDeadLetter, bind_eq, wp_bind, wp_exists?]
  cases entry : w.value .dead k with
  | none => exact wp_pure.mpr (Evolves.refl w)
  | some due =>
    have indexed : (w.slot k).dead = some due := entry
    obtain ⟨rec, h, -⟩ := record_of_isSome ((sound.placed k).dead_discarded (by simp [indexed]))
    simp only [Option.isSome_some, ↓reduceIte, wp_bind, wp_delete, pure_eq, wp_pure]
    refine .single (j := k) ⟨rfl, rfl⟩ ?_ (fun j ne => ?_) rfl rfl (.inl (by simp [h]))
    · simpa [Slot.write] using Slot.Step.forget indexed
    · simp [ne]

end OjsNats.Lifecycle
