import OjsNats.Lifecycle.Slot

/-!
# The slots of the world

`World.slot` reads one job's slot off the buckets, the in-flight map and the
stream.  The lemmas say what each change of the world does to every slot.
-/

namespace OjsNats.Nats

open Core


namespace World

variable (w : World)

/-- What the world knows about one job. -/
def slot (j : String) : Lifecycle.Slot where
  record := w.value .jobs j
  scheduled := w.value .scheduled j
  retry := w.value .retry j
  dead := w.value .dead j
  active := w.value .active j
  inflight := w.inflight j
  messages := w.stream.filter fun m => m.data = j

/-- Set the in-flight message of a job. -/
def track (j : String) (m : Option Msg) : World :=
  { w with inflight := Function.update w.inflight j m }

end World

end OjsNats.Nats

namespace OjsNats.Lifecycle

open Core Nats Store

/-- Set the entry a bucket holds for the job; only five of the buckets have one. -/
def Slot.write (s : Slot) : (b : BucketName) → Option b.Value → Slot
  | .jobs, v => { s with record := v }
  | .scheduled, v => { s with scheduled := v }
  | .retry, v => { s with retry := v }
  | .dead, v => { s with dead := v }
  | .active, v => { s with active := v }
  | _, _ => s

/-- The buckets that hold no part of a slot. -/
def Foreign : BucketName → Bool
  | .jobs | .scheduled | .retry | .dead | .active => false
  | _ => true

theorem Slot.write_foreign (s : Slot) {b : BucketName} (h : Foreign b = true)
    (v : Option b.Value) : s.write b v = s := by
  cases b <;> first | rfl | cases h

@[simp] theorem Slot.write_messages (s : Slot) (b : BucketName) (v : Option b.Value) :
    (s.write b v).messages = s.messages := by
  cases b <;> rfl

@[simp] theorem Slot.write_inflight (s : Slot) (b : BucketName) (v : Option b.Value) :
    (s.write b v).inflight = s.inflight := by
  cases b <;> rfl

section Changes

variable (w : World) (b : BucketName) (k : String) (j : String)

theorem value_put (v : b.Value) (b' : BucketName) :
    (w.put b k v).value b' j =
      if h : b' = b ∧ j = k then some (h.1 ▸ v) else w.value b' j := by
  unfold World.put World.value
  by_cases same : b' = b
  · subst same
    simp only [Function.update_self, Bucket.value_put, true_and, dite_eq_ite]
  · simp [same]

theorem value_delete (b' : BucketName) :
    (w.delete b k).value b' j = if b' = b ∧ j = k then none else w.value b' j := by
  unfold World.delete World.value
  by_cases same : b' = b
  · subst same
    simp only [Function.update_self, Bucket.value_delete, true_and]
  · simp [same]

variable {w b k} in
theorem value_put_other {b' : BucketName} {k' : String} {v : b.Value}
    (other : ¬ (b' = b ∧ k' = k)) : (w.put b k v).value b' k' = w.value b' k' := by
  rw [value_put, dif_neg other]

variable {w b k} in
theorem value_delete_other {b' : BucketName} {k' : String} (other : ¬ (b' = b ∧ k' = k)) :
    (w.delete b k).value b' k' = w.value b' k' := by
  rw [value_delete, if_neg other]

@[simp] theorem put_stream (v : b.Value) : (w.put b k v).stream = w.stream := rfl

@[simp] theorem put_inflight (v : b.Value) : (w.put b k v).inflight = w.inflight := rfl

@[simp] theorem delete_stream : (w.delete b k).stream = w.stream := rfl

@[simp] theorem delete_inflight : (w.delete b k).inflight = w.inflight := rfl

@[simp] theorem slot_put (v : b.Value) :
    (w.put b k v).slot j = if j = k then (w.slot j).write b (some v) else w.slot j := by
  by_cases same : j = k
  · cases b <;> simp [World.slot, value_put, same, Slot.write]
  · simp [World.slot, value_put, same]

@[simp] theorem slot_delete :
    (w.delete b k).slot j = if j = k then (w.slot j).write b none else w.slot j := by
  by_cases same : j = k
  · cases b <;> simp [World.slot, value_delete, same, Slot.write]
  · simp [World.slot, value_delete, same]

@[simp] theorem slot_publish (subject : String) :
    (w.publish subject k).slot j = if j = k then
      { w.slot j with messages := (w.slot j).messages ++ [⟨subject, k, w.clock⟩] }
    else w.slot j := by
  by_cases same : j = k
  · simp [World.slot, World.publish, World.value, same]
  · simp [World.slot, World.publish, World.value, same, Ne.symm same]

@[simp] theorem slot_track (m : Option Msg) :
    (w.track k m).slot j = if j = k then { w.slot j with inflight := m } else w.slot j := by
  by_cases same : j = k
  · simp [World.slot, World.track, World.value, same]
  · simp [World.slot, World.track, World.value, same]

@[simp] theorem slot_clock (t : Int) : ({ w with clock := t } : World).slot j = w.slot j := rfl

@[simp] theorem slot_used (ids : List String) :
    ({ w with used := ids } : World).slot j = w.slot j := rfl

@[simp] theorem clock_put (v : b.Value) : (w.put b k v).clock = w.clock := rfl

@[simp] theorem clock_delete : (w.delete b k).clock = w.clock := rfl

@[simp] theorem clock_publish (subject : String) : (w.publish subject k).clock = w.clock := rfl

@[simp] theorem clock_track (m : Option Msg) : (w.track k m).clock = w.clock := rfl

@[simp] theorem used_put (v : b.Value) : (w.put b k v).used = w.used := rfl

@[simp] theorem used_delete : (w.delete b k).used = w.used := rfl

@[simp] theorem used_publish (subject : String) : (w.publish subject k).used = w.used := rfl

@[simp] theorem used_track (m : Option Msg) : (w.track k m).used = w.used := rfl

end Changes

section Delivery

/-- Each job's messages are split between those handed out and those left. -/
theorem deliver_perm (subject : String) (n : Nat) (stream : List Msg) :
    ((deliver subject n stream).1 ++ (deliver subject n stream).2).Perm stream := by
  induction stream generalizing n with
  | nil => cases n <;> simp [deliver]
  | cons m rest ih =>
    cases n with
    | zero => simp [deliver]
    | succ n =>
      by_cases same : m.subject = subject
      · simpa [deliver, same] using ih n
      · simp only [deliver, same, if_false]
        exact List.perm_middle.trans ((ih (n + 1)).cons m)

theorem deliver_subject {subject : String} {n : Nat} {stream : List Msg} {m : Msg}
    (h : m ∈ (deliver subject n stream).1) : m.subject = subject := by
  induction stream generalizing n with
  | nil => cases n <;> simp [deliver] at h
  | cons m' rest ih =>
    cases n with
    | zero => simp [deliver] at h
    | succ n =>
      by_cases same : m'.subject = subject
      · simp only [deliver, same, if_true, List.mem_cons] at h
        rcases h with rfl | h
        · exact same
        · exact ih h
      · simp only [deliver, same, if_false] at h
        exact ih h

end Delivery

end OjsNats.Lifecycle
