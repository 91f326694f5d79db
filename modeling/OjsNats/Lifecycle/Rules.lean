import Mathlib.Data.Fintype.EquivFin
import OjsNats.Lifecycle.Sideline

/-!
# What the helpers do

The weakest preconditions of the backend's helpers when calls are served, and
the frame rule for the calls that touch no slot.
-/

namespace OjsNats.Nats

open Core

namespace World

variable (w : World)

/-- The job that `getJobState` reads. -/
def job (k : String) : Except CallError Job :=
  match w.value .jobs k with
  | some rec => .ok (unmarshalJobState rec)
  | none => .error .keyNotFound

/-- The answer of `Info`. -/
def info (k : String) : Result Job :=
  match w.job k with
  | .ok job => .ok job
  | .error _ => .error (.notFound "Job" k)

theorem lookup_value {b : BucketName} {k : String} {v : b.Value} {rev : Nat}
    (h : w.lookup b k = .ok (v, rev)) : w.value b k = some v := by
  unfold lookup at h
  unfold value Store.Bucket.value
  cases eq : (w.kv b).get k with
  | none => simp [eq] at h
  | some entry =>
    rw [eq] at h
    cases h
    rfl

theorem lookup_of_value {b : BucketName} {k : String} {v : b.Value} (h : w.value b k = some v) :
    ∃ rev, w.lookup b k = .ok (v, rev) := by
  unfold value Store.Bucket.value at h
  unfold lookup
  cases eq : (w.kv b).get k with
  | none => simp [eq] at h
  | some entry =>
    obtain ⟨v', rev⟩ := entry
    obtain rfl : v' = v := by simpa [eq] using h
    exact ⟨rev, rfl⟩

theorem lookup_error {b : BucketName} {k : String} {e : CallError} (h : w.lookup b k = .error e) :
    w.value b k = none := by
  unfold lookup at h
  unfold value Store.Bucket.value
  cases eq : (w.kv b).get k with
  | none => rfl
  | some entry => simp [eq] at h

end World

end OjsNats.Nats

namespace OjsNats.Lifecycle

open Core Nats Effect Semantics

section Rules

variable {w : World} {b : BucketName} {k : String}

theorem wp_ask_of {op : Op} {Q : Ans op → World → Prop} {r : Ans op} {t : World}
    (h : ∀ r' t', w.Serves op r' t' ↔ r' = r ∧ t' = t) :
    serves.wp (Program.ask op) Q w ↔ Q r t := by
  rw [wp_ask]
  constructor
  · exact fun all => all r t ((h r t).mpr ⟨rfl, rfl⟩)
  · intro holds r' t' step
    obtain ⟨rfl, rfl⟩ := (h r' t').mp step
    exact holds

theorem wp_get (b : BucketName) {Q : Except CallError (b.Value × Nat) → World → Prop} :
    serves.wp (Store.get b k) Q w ↔ Q (w.lookup b k) w :=
  wp_ask_of fun _ _ => Iff.rfl

@[simp] theorem wp_put {v : b.Value} {Q : Except CallError Nat → World → Prop} :
    serves.wp (Store.put b k v) Q w ↔ Q (.ok ((w.kv b).revision + 1)) (w.put b k v) :=
  wp_ask_of fun _ _ => Iff.rfl

@[simp] theorem wp_delete {Q : Except CallError Unit → World → Prop} :
    serves.wp (Store.delete b k) Q w ↔ Q (.ok ()) (w.delete b k) :=
  wp_ask_of fun _ _ => Iff.rfl

theorem wp_create {v : b.Value} {Q : Except CallError Nat → World → Prop} :
    serves.wp (Store.create b k v) Q w ↔ if (w.value b k).isSome then Q (.error .keyExists) w
      else Q (.ok ((w.kv b).revision + 1)) (w.put b k v) := by
  split
  · rename_i live
    exact wp_ask_of fun r t => by simp only [World.Serves, live, if_true]
  · rename_i free
    exact wp_ask_of fun r t => by simp only [World.Serves, free, if_false, Bool.false_eq_true]

@[simp] theorem wp_timeNow {Q : Int → World → Prop} :
    serves.wp timeNow Q w ↔ Q w.clock w :=
  wp_ask_of fun _ _ => Iff.rfl

@[simp] theorem wp_newUUIDv7 {Q : String → World → Prop} : serves.wp newUUIDv7 Q w ↔
    ∀ id, id ≠ "" → id ∉ w.used → Q id { w with used := id :: w.used } := by
  rw [newUUIDv7, wp_ask]
  constructor
  · exact fun h id nonempty unused => h id _ ⟨nonempty, unused, rfl⟩
  · rintro h id _ ⟨nonempty, unused, rfl⟩
    exact h id nonempty unused

@[simp] theorem wp_exists? {Q : Bool → World → Prop} :
    serves.wp (Store.exists? b k) Q w ↔ Q (w.value b k).isSome w := by
  simp only [Store.exists?, Program.bind_eq, wp_bind, wp_get b]
  cases h : w.lookup b k with
  | ok entry =>
    obtain ⟨v, rev⟩ := entry
    simp [World.lookup_value w h]
  | error e => simp [World.lookup_error w h]

/-- A listing names the keys of the bucket in some order. -/
theorem wp_keys_iff {Q : Except CallError (List String) → World → Prop} :
    serves.wp (Store.keys b) Q w ↔
      ∀ keys : List String, keys.Perm (w.kv b).keys → Q (.ok keys) w := by
  simp only [Store.keys, Program.bind_eq, wp_bind, wp_ask]
  constructor
  · intro h keys perm
    by_cases empty : (w.kv b).keys = []
    · obtain rfl := List.perm_nil.mp (empty ▸ perm)
      exact wp_pure.mp (h (.error .noKeysFound) w ⟨rfl, by rw [if_pos empty]⟩)
    · refine wp_pure.mp (h (.ok keys) w ⟨rfl, ?_⟩)
      rw [if_neg empty]
      exact ⟨keys, rfl, perm⟩
  · rintro h r t ⟨rfl, listing⟩
    split at listing
    · rename_i empty
      subst listing
      exact wp_pure.mpr (h [] (by rw [empty]))
    · obtain ⟨keys, rfl, perm⟩ := listing
      exact wp_pure.mpr (h keys perm)

/-- A listing names each key of the bucket once. -/
theorem wp_keys {Q : Except CallError (List String) → World → Prop}
    (h : ∀ keys, keys.Nodup → (∀ k, k ∈ keys ↔ (w.value b k).isSome) → Q (.ok keys) w) :
    serves.wp (Store.keys b) Q w :=
  wp_keys_iff.mpr fun keys perm =>
    h keys (perm.nodup_iff.mpr (w.kv b).keys_nodup) fun k =>
      perm.mem_iff.trans ((w.kv b).mem_keys_iff k)

@[simp] theorem wp_getJobState {Q : Except CallError Job → World → Prop} :
    serves.wp (getJobState k) Q w ↔ Q (w.job k) w := by
  simp only [getJobState, Program.bind_eq, wp_bind, wp_get .jobs, World.job]
  cases h : w.lookup .jobs k with
  | ok entry =>
    obtain ⟨rec, rev⟩ := entry
    rw [World.lookup_value w h]
    exact wp_pure
  | error e =>
    rw [World.lookup_error w h]
    rw [World.lookup] at h
    split at h
    · cases h
    · cases h
      exact wp_pure

@[simp] theorem wp_putJobState {job : Job} {Q : Except CallError Nat → World → Prop} :
    serves.wp (putJobState job) Q w ↔
      Q (.ok ((w.kv .jobs).revision + 1)) (w.put .jobs job.id (marshalJobState job)) :=
  wp_put

@[simp] theorem wp_info {Q : Result Job → World → Prop} :
    serves.wp (info k) Q w ↔ Q (w.info k) w := by
  simp only [Nats.info, Program.bind_eq, wp_bind, wp_getJobState, World.info]
  cases w.job k <;> exact wp_pure

@[simp] theorem wp_ackMessage {Q : Except CallError Unit → World → Prop} :
    serves.wp (ackMessage k) Q w ↔ Q (.ok ()) (w.track k none) := by
  simp only [ackMessage, Program.bind_eq, wp_bind]
  rw [wp_ask_of (t := w.track k none) fun _ _ => Iff.rfl]
  cases w.inflight k with
  | none => exact wp_pure
  | some msg => exact wp_ask_of fun _ _ => Iff.rfl

@[simp] theorem wp_publishJob {queue : String} {Q : Result Unit → World → Prop} :
    serves.wp (publishJob queue k) Q w ↔ Q (.ok ()) (w.publish (queueJobsSubject queue) k) := by
  simp only [publishJob, Program.bind_eq, wp_bind]
  rw [wp_ask_of fun _ _ => Iff.rfl]
  exact wp_pure

@[simp] theorem wp_calculateBackoff {retry : Option RetryPolicy} {attempt : Int}
    {Q : Int → World → Prop} :
    serves.wp (calculateBackoff retry attempt) Q w ↔ ∀ d, IsDuration d → Q d w := by
  rw [calculateBackoff, wp_ask]
  constructor
  · exact fun h d duration => h d w ⟨duration, rfl⟩
  · rintro h d _ ⟨duration, rfl⟩
    exact h d duration

end Rules

/-- A served call is always answered. -/
theorem serves_answers (w : World) (op : Op) : ∃ r t, serves.step w op r t := by
  cases op with
  | newUUIDv7 =>
    obtain ⟨id, new⟩ := Infinite.exists_notMem_finset (insert "" w.used.toFinset)
    rw [Finset.mem_insert, List.mem_toFinset, not_or] at new
    exact ⟨id, _, new.1, new.2, rfl⟩
  | calculateBackoff retry attempt => exact ⟨(0 : Int), w, by simp [IsDuration], rfl⟩
  | create b k v =>
    by_cases live : (w.value b k).isSome
    · exact ⟨_, _, by simpa [serves, World.Serves, live] using ⟨rfl, rfl⟩⟩
    · exact ⟨_, _, by simpa [serves, World.Serves, live] using ⟨rfl, rfl⟩⟩
  | update b k v rev =>
    by_cases same : ((w.kv b).get k).map Prod.snd = some rev
    · exact ⟨_, _, by simpa [serves, World.Serves, same] using ⟨rfl, rfl⟩⟩
    · exact ⟨_, _, by simpa [serves, World.Serves, same] using ⟨rfl, rfl⟩⟩
  | keys b =>
    by_cases empty : (w.kv b).keys = []
    · exact ⟨.error .noKeysFound, w, rfl, by simp [empty]⟩
    · exact ⟨.ok (w.kv b).keys, w, rfl, by simp [empty]⟩
  | consumerFetch queue count => exact ⟨_, _, 0, Nat.zero_le _, rfl, rfl⟩
  | consumerStore | inflightStore | regexStore => exact ⟨(), _, rfl⟩
  | now | get | put | delete | consumerLoad | ensureConsumer | inflightLoad
  | inflightLoadAndDelete | msgAck | msgInProgress | publish | regexLoad => exact ⟨_, _, rfl, rfl⟩

/-! ## Calls that touch no slot -/

/-- Worlds that agree on every slot, the clock and the ids in use. -/
structure SameBoard (w w' : World) : Prop where
  slots : ∀ j, w'.slot j = w.slot j
  clock : w'.clock = w.clock
  used : w'.used = w.used

theorem SameBoard.refl (w : World) : SameBoard w w := ⟨fun _ => rfl, rfl, rfl⟩

theorem SameBoard.trans {a b c : World} (h : SameBoard a b) (h' : SameBoard b c) : SameBoard a c :=
  ⟨fun j => (h'.slots j).trans (h.slots j), h'.clock.trans h.clock, h'.used.trans h.used⟩

/-- The calls that change no slot and use up no id. -/
def Auxiliary : Op → Prop
  | .put b _ _ | .create b _ _ | .update b _ _ _ | .delete b _ => Foreign b = true
  | .newUUIDv7 | .consumerFetch _ _ | .inflightStore _ _ | .inflightLoadAndDelete _
  | .publish _ _ => False
  | _ => True

theorem sameBoard_put {w : World} {b : BucketName} {k : String} {v : b.Value}
    (foreign : Foreign b = true) : SameBoard w (w.put b k v) :=
  ⟨fun j => by simp [Slot.write_foreign _ foreign], rfl, rfl⟩

theorem sameBoard_delete {w : World} {b : BucketName} {k : String} (foreign : Foreign b = true) :
    SameBoard w (w.delete b k) :=
  ⟨fun j => by simp [Slot.write_foreign _ foreign], rfl, rfl⟩

theorem Auxiliary.sameBoard {w w' : World} {op : Op} {r : Ans op} (aux : Auxiliary op)
    (step : w.Serves op r w') : SameBoard w w' := by
  cases op with
  | put b k v => exact step.2 ▸ sameBoard_put aux
  | delete b k => exact step.2 ▸ sameBoard_delete aux
  | create b k v =>
    simp only [World.Serves] at step
    split at step
    · exact step.2 ▸ SameBoard.refl w
    · exact step.2 ▸ sameBoard_put aux
  | update b k v rev =>
    simp only [World.Serves] at step
    split at step
    · exact step.2 ▸ sameBoard_put aux
    · exact step.2 ▸ SameBoard.refl w
  | newUUIDv7 | consumerFetch | inflightStore | inflightLoadAndDelete | publish => exact aux.elim
  | keys b => exact step.1 ▸ SameBoard.refl w
  | consumerStore | regexStore =>
    cases step
    exact ⟨fun _ => rfl, rfl, rfl⟩
  | now | calculateBackoff | get | consumerLoad | ensureConsumer | inflightLoad | msgAck
  | msgInProgress | regexLoad => exact step.2 ▸ SameBoard.refl w

theorem wp_auxiliary {α : Type} {p : Prog α} {Q : α → World → Prop} {w : World}
    (uses : p.Uses Auxiliary) (h : ∀ a t, SameBoard w t → Q a t) : serves.wp p Q w := by
  intro a t run
  refine h a t (run.preserves uses (P := SameBoard w) ?_ (SameBoard.refl w))
  intro s op r m aux step same
  exact same.trans (aux.sameBoard step)

theorem Sideline.auxiliary {op : Op} (h : Sideline op) : Auxiliary op := by
  cases op with
  | put | create | update | delete => exact h
  | newUUIDv7 | consumerFetch | inflightStore | inflightLoadAndDelete | publish => exact h.elim
  | _ => trivial

theorem wp_sideline {α : Type} {p : Prog α} {Q : α → World → Prop} {w : World}
    (uses : p.Uses Sideline) (h : ∀ a t, SameBoard w t → Q a t) : serves.wp p Q w :=
  wp_auxiliary (uses.mono fun _ => Sideline.auxiliary) h

end OjsNats.Lifecycle
