import OjsNats.Lifecycle.Rules
import OjsNats.Lifecycle.Footprint

/-!
# Programs that move jobs

A program advances the board if, from a sound world, every slot goes through
moves it allows.  Soundness is kept by every move, so such programs compose.
-/

namespace OjsNats.Lifecycle

open Core Nats Effect Semantics Relation

variable {lib : Externals}

/-- A job's slot goes from one to the other by allowed moves. -/
def Slot.Evolves (lib : Externals) (now : Int) (j : String) (allowed : Move → Prop) :
    Slot → Slot → Prop :=
  ReflTransGen fun s t => ∃ m, allowed m ∧ Slot.Step lib now j m s t

section Slot

variable {now : Int} {j : String} {allowed : Move → Prop} {s t : Slot}

theorem Slot.Evolves.placed (h : s.Evolves lib now j allowed t) (placed : s.Placed j) :
    t.Placed j := by
  induction h with
  | refl => exact placed
  | tail _ step ih =>
    obtain ⟨m, -, step⟩ := step
    exact step.placed ih

theorem Slot.Evolves.present (h : s.Evolves lib now j allowed t) (present : s.Present) :
    t.Present := by
  induction h with
  | refl => exact present
  | tail _ step ih =>
    obtain ⟨m, -, step⟩ := step
    exact step.present ih

theorem Slot.Evolves.legible (h : s.Evolves lib now j allowed t) (era : InEra now)
    (legible : s.Legible lib) : t.Legible lib := by
  induction h with
  | refl => exact legible
  | tail _ step ih =>
    obtain ⟨m, -, step⟩ := step
    exact step.legible era ih

theorem Slot.Evolves.mono {weaker : Move → Prop} (h : s.Evolves lib now j allowed t)
    (imp : ∀ m, allowed m → weaker m) : s.Evolves lib now j weaker t :=
  ReflTransGen.mono (fun _ _ ⟨m, ok, step⟩ => ⟨m, imp m ok, step⟩) _ _ h

theorem Slot.Evolves.stored (h : s.Evolves lib now j allowed t) (existing : s.record ≠ none) :
    t.record ≠ none := by
  induction h with
  | refl => exact existing
  | tail _ step ih =>
    obtain ⟨m, -, step⟩ := step
    exact step.stored ih

/-- Without enqueuing and scheduling moves no job comes into being. -/
theorem Slot.Evolves.record_none (h : s.Evolves lib now j allowed t)
    (unborn : ∀ m, allowed m → ∀ rec, m ≠ .enqueue rec ∧ m ≠ .schedule rec)
    (missing : s.record = none) : t.record = none := by
  induction h with
  | refl => exact missing
  | tail _ step ih =>
    obtain ⟨m, ok, step⟩ := step
    by_contra existing
    rcases step.born existing with before | ⟨rec, enqueue | schedule⟩
    · exact before ih
    · exact (unborn m ok rec).1 enqueue
    · exact (unborn m ok rec).2 schedule

end Slot

/-- Every slot is placed, and a job's id is in use. -/
structure Sound (w : World) : Prop where
  placed : ∀ j, (w.slot j).Placed j
  known : ∀ j, (w.slot j).record ≠ none → j ∈ w.used ∧ j ≠ ""

structure Evolves (lib : Externals) (allowed : String → Move → Prop) (w w' : World) : Prop where
  clock : w'.clock = w.clock
  used : ∀ j ∈ w.used, j ∈ w'.used
  slots : ∀ j, (w.slot j).Evolves lib w.clock j (allowed j) (w'.slot j)
  known : ∀ j, (w'.slot j).record ≠ none → (w.slot j).record ≠ none ∨ j ∈ w'.used ∧ j ≠ ""

section Board

variable {allowed : String → Move → Prop} {w w' w'' : World}

theorem SameBoard.evolves (same : SameBoard w w') : Evolves lib allowed w w' where
  clock := same.clock
  used := fun _ h => same.used ▸ h
  slots := fun j => same.slots j ▸ ReflTransGen.refl
  known := fun j h => .inl (same.slots j ▸ h)

theorem SameBoard.sound (same : SameBoard w w') (sound : Sound w) : Sound w' where
  placed := fun j => same.slots j ▸ sound.placed j
  known := fun j h => same.used ▸ sound.known j (same.slots j ▸ h)

theorem Evolves.refl (w : World) : Evolves lib allowed w w := (SameBoard.refl w).evolves

theorem Evolves.trans (h : Evolves lib allowed w w') (h' : Evolves lib allowed w' w'') :
    Evolves lib allowed w w'' where
  clock := h'.clock.trans h.clock
  used := fun j mem => h'.used j (h.used j mem)
  slots := fun j => ReflTransGen.trans (h.slots j) (h.clock ▸ h'.slots j)
  known := by
    intro j born
    rcases h'.known j born with before | new
    · rcases h.known j before with before | ⟨mem, nonempty⟩
      · exact .inl before
      · exact .inr ⟨h'.used j mem, nonempty⟩
    · exact .inr new

theorem Evolves.mono {weaker : String → Move → Prop} (h : Evolves lib allowed w w')
    (imp : ∀ j m, allowed j m → weaker j m) : Evolves lib weaker w w' :=
  ⟨h.clock, h.used, fun j => (h.slots j).mono (imp j), h.known⟩

theorem Evolves.sound (h : Evolves lib allowed w w') (sound : Sound w) : Sound w' where
  placed := fun j => (h.slots j).placed (sound.placed j)
  known := by
    intro j born
    rcases h.known j born with before | new
    · obtain ⟨mem, nonempty⟩ := sound.known j before
      exact ⟨h.used j mem, nonempty⟩
    · exact new

/-- One job makes one move, the others stay. -/
theorem Evolves.single {j : String} {m : Move} (ok : allowed j m)
    (step : Slot.Step lib w.clock j m (w.slot j) (w'.slot j))
    (others : ∀ k, k ≠ j → w'.slot k = w.slot k) (clock : w'.clock = w.clock)
    (used : w'.used = w.used)
    (born : (w.slot j).record ≠ none ∨ j ∈ w.used ∧ j ≠ "") : Evolves lib allowed w w' where
  clock := clock
  used := fun _ h => used ▸ h
  slots := by
    intro k
    by_cases same : k = j
    · subst same
      exact ReflTransGen.single ⟨m, ok, step⟩
    · rw [others k same]
      exact ReflTransGen.refl
  known := by
    intro k known
    by_cases same : k = j
    · subst same
      exact born.imp id fun ⟨mem, nonempty⟩ => ⟨used ▸ mem, nonempty⟩
    · exact .inl (others k same ▸ known)

theorem World.job_of_record {k : String} {rec : JobState} (h : (w.slot k).record = some rec) :
    w.job k = .ok (unmarshalJobState rec) := by
  rw [World.job, show w.value .jobs k = some rec from h]

theorem World.info_of_record {k : String} {rec : JobState} (h : (w.slot k).record = some rec) :
    w.info k = .ok (unmarshalJobState rec) := by
  rw [World.info, World.job_of_record h]

theorem World.job_of_none {k : String} (h : (w.slot k).record = none) :
    w.job k = .error .keyNotFound := by
  rw [World.job, show w.value .jobs k = none from h]

end Board

/-! ## Programs -/

/-- From a sound world the program takes every slot through allowed moves. -/
def Advances (lib : Externals) (allowed : String → Move → Prop) {α : Type} (p : Prog α) : Prop :=
  ∀ w, Sound w → serves.wp p (fun _ t => Evolves lib allowed w t) w

section Advances

variable {allowed : String → Move → Prop} {α β : Type}

theorem Advances.pure (a : α) : Advances lib allowed (.pure a) :=
  fun w _ => wp_pure.mpr (Evolves.refl w)

theorem Advances.after {p : Prog α} {w v : World} (h : Advances lib allowed p)
    (sound : Sound w) (evolves : Evolves lib allowed w v) :
    serves.wp p (fun _ t => Evolves lib allowed w t) v :=
  (h v (evolves.sound sound)).mono fun _ _ next => evolves.trans next

theorem Advances.bind {p : Prog α} {f : α → Prog β} (hp : Advances lib allowed p)
    (hf : ∀ a, Advances lib allowed (f a)) : Advances lib allowed (p.bind f) := by
  intro w sound
  exact wp_bind.mpr ((hp w sound).mono fun a t evolves => (hf a).after sound evolves)

theorem Advances.forEach {xs : List β} {body : β → α → Prog α} (acc : α)
    (h : ∀ x ∈ xs, ∀ a, Advances lib allowed (body x a)) :
    Advances lib allowed (Program.forEach xs acc body) := by
  induction xs generalizing acc with
  | nil => exact .pure acc
  | cons x rest ih =>
    exact (h x (by simp) acc).bind fun a => ih a fun y mem => h y (by simp [mem])

/-- A loop whose turns advance the board at the time the loop was entered. -/
theorem wp_forEach_evolves {xs : List β} {body : β → α → Prog α} {acc : α} {w : World}
    (sound : Sound w)
    (turn : ∀ x ∈ xs, ∀ a v, Sound v → v.clock = w.clock →
      serves.wp (body x a) (fun _ t => Evolves lib allowed v t) v) :
    serves.wp (Program.forEach xs acc body) (fun _ t => Evolves lib allowed w t) w := by
  refine wp_forEach (fun rest _ v => (∀ x ∈ rest, x ∈ xs) ∧ Evolves lib allowed w v)
    ⟨fun _ mem => mem, Evolves.refl w⟩ ?_ fun _ _ h => h.2
  rintro x rest a v ⟨mem, evolves⟩
  refine (turn x (mem x (by simp)) a v (evolves.sound sound) evolves.clock).mono fun _ t next => ?_
  exact ⟨fun y h => mem y (by simp [h]), evolves.trans next⟩

theorem Advances.ite (c : Prop) [Decidable c] {p q : Prog α} (hp : Advances lib allowed p)
    (hq : Advances lib allowed q) : Advances lib allowed (if c then p else q) := by
  split
  · exact hp
  · exact hq

theorem Advances.mono {weaker : String → Move → Prop} {p : Prog α} (h : Advances lib allowed p)
    (imp : ∀ j m, allowed j m → weaker j m) : Advances lib weaker p :=
  fun w sound => (h w sound).mono fun _ _ evolves => evolves.mono imp

theorem Advances.of_auxiliary {p : Prog α} (uses : p.Uses Auxiliary) : Advances lib allowed p :=
  fun _ _ => wp_auxiliary uses fun _ _ same => same.evolves

theorem Advances.of_sideline {p : Prog α} (uses : p.Uses Sideline) : Advances lib allowed p :=
  .of_auxiliary (uses.mono fun _ => Sideline.auxiliary)

end Advances

/-! ## One job moves -/

/-- Worlds that agree on every slot and on the buckets shared by jobs. -/
structure Beside (w w' : World) : Prop extends SameBoard w w' where
  kv : ∀ b, Guarded b = true → w'.kv b = w.kv b

theorem wp_beside {α : Type} {p : Prog α} {Q : α → World → Prop} {w : World}
    (uses : p.Uses Sideline) (spares : ∀ b, Guarded b = true → p.Uses (Spares b))
    (h : ∀ a t, Beside w t → Q a t) : serves.wp p Q w := by
  intro a t run
  have same : SameBoard w t := wp_sideline (Q := fun _ t => SameBoard w t) uses (fun _ _ h => h) a t run
  exact h a t ⟨same, fun b guarded => kv_of_spares (spares b guarded) run⟩

/-- One slot has become the given one; the other slots and the shared buckets are the same. -/
structure Moved (k : String) (s : Slot) (w w' : World) : Prop where
  slot : w'.slot k = s
  others : ∀ j, j ≠ k → w'.slot j = w.slot j
  clock : w'.clock = w.clock
  used : w'.used = w.used
  kv : ∀ b, Guarded b = true → w'.kv b = w.kv b

section Moved

variable {w u v : World} {k : String} {s : Slot}

theorem Moved.refl (k : String) (w : World) : Moved k (w.slot k) w w :=
  ⟨rfl, fun _ _ => rfl, rfl, rfl, fun _ _ => rfl⟩

theorem Moved.put {b : BucketName} (moved : Moved k s w u) (other : Guarded b = false)
    (v : b.Value) : Moved k (s.write b (some v)) w (u.put b k v) where
  slot := by simp [moved.slot]
  others := fun j ne => by simp [ne, moved.others j ne]
  clock := moved.clock
  used := moved.used
  kv := fun b guarded =>
    (kv_put_of_ne _ _ (ne_of_guarded guarded other)).trans (moved.kv b guarded)

theorem Moved.delete {b : BucketName} (moved : Moved k s w u) (other : Guarded b = false) :
    Moved k (s.write b none) w (u.delete b k) where
  slot := by simp [moved.slot]
  others := fun j ne => by simp [ne, moved.others j ne]
  clock := moved.clock
  used := moved.used
  kv := fun b guarded =>
    (kv_delete_of_ne _ (ne_of_guarded guarded other)).trans (moved.kv b guarded)

theorem Moved.track (moved : Moved k s w u) (m : Option Msg) :
    Moved k { s with inflight := m } w (u.track k m) where
  slot := by simp [moved.slot]
  others := fun j ne => by simp [ne, moved.others j ne]
  clock := moved.clock
  used := moved.used
  kv := moved.kv

theorem Moved.publish (moved : Moved k s w u) (subject : String) :
    Moved k { s with messages := s.messages ++ [⟨subject, k, w.clock⟩] } w
      (u.publish subject k) where
  slot := by simp [moved.slot, moved.clock]
  others := fun j ne => by simp [ne, moved.others j ne]
  clock := moved.clock
  used := moved.used
  kv := moved.kv

theorem Moved.beside (moved : Moved k s w u) (beside : Beside u v) : Moved k s w v where
  slot := (beside.slots k).trans moved.slot
  others := fun j ne => (beside.slots j).trans (moved.others j ne)
  clock := beside.clock.trans moved.clock
  used := beside.used.trans moved.used
  kv := fun b guarded => (beside.kv b guarded).trans (moved.kv b guarded)

theorem Moved.after (beside : Beside w u) (moved : Moved k s u v) : Moved k s w v where
  slot := moved.slot
  others := fun j ne => (moved.others j ne).trans (beside.slots j)
  clock := moved.clock.trans beside.clock
  used := moved.used.trans beside.used
  kv := fun b guarded => (moved.kv b guarded).trans (beside.kv b guarded)

theorem Moved.evolves {allowed : String → Move → Prop} {m : Move} (moved : Moved k s w u)
    (ok : allowed k m) (step : Slot.Step lib w.clock k m (w.slot k) s)
    (known : (w.slot k).record ≠ none) : Evolves lib allowed w u :=
  .single ok (moved.slot ▸ step) moved.others moved.clock moved.used (.inl known)

theorem Moved.sound {m : Move} (moved : Moved k s w u)
    (step : Slot.Step lib w.clock k m (w.slot k) s) (known : (w.slot k).record ≠ none)
    (sound : Sound w) : Sound u := by
  have evolves : Evolves lib (fun _ _ => True) w u := moved.evolves trivial step known
  exact evolves.sound sound

end Moved

end OjsNats.Lifecycle
