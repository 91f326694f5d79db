import Mathlib.Data.List.Nodup
import Mathlib.Data.List.Perm.Basic

/-!
# A key-value bucket with revisions

Every write gives the key the next revision of the bucket, so a reader can
later ask for a write that only succeeds if the key was not written since.
-/

namespace OjsNats.Store

universe u v

/-- A bucket: the live keys, each with its value and the revision that wrote it. -/
structure Bucket (K : Type u) (V : Type v) where
  entries : List (K × V × Nat)
  revision : Nat
  nodup : (entries.map Prod.fst).Nodup

namespace Bucket

variable {K : Type u} {V : Type v} [DecidableEq K]

def empty : Bucket K V := ⟨[], 0, by simp⟩

def keys (b : Bucket K V) : List K := b.entries.map Prod.fst

def find : List (K × V × Nat) → K → Option (V × Nat)
  | [], _ => none
  | (key, entry) :: rest, k => if key = k then some entry else find rest k

/-- The value and the revision stored under a key. -/
def get (b : Bucket K V) (k : K) : Option (V × Nat) := find b.entries k

def value (b : Bucket K V) (k : K) : Option V := (b.get k).map Prod.fst

def without (entries : List (K × V × Nat)) (k : K) : List (K × V × Nat) :=
  entries.filter fun e => e.1 ≠ k

theorem nodup_without {entries : List (K × V × Nat)} (h : (entries.map Prod.fst).Nodup) (k : K) :
    ((without entries k).map Prod.fst).Nodup :=
  (List.filter_sublist.map _).nodup h

theorem not_mem_without (entries : List (K × V × Nat)) (k : K) :
    k ∉ (without entries k).map Prod.fst := by
  simp [without]

/-- Write a value under a key, at the bucket's next revision. -/
def put (b : Bucket K V) (k : K) (v : V) : Bucket K V where
  entries := (k, v, b.revision + 1) :: without b.entries k
  revision := b.revision + 1
  nodup := by
    rw [List.map_cons, List.nodup_cons]
    exact ⟨not_mem_without b.entries k, nodup_without b.nodup k⟩

/-- Remove a key.  The removal takes a revision of its own, also when there was
nothing to remove. -/
def delete (b : Bucket K V) (k : K) : Bucket K V where
  entries := without b.entries k
  revision := b.revision + 1
  nodup := nodup_without b.nodup k

theorem find_without (entries : List (K × V × Nat)) (k k' : K) :
    find (without entries k) k' = if k' = k then none else find entries k' := by
  induction entries with
  | nil => simp [without, find]
  | cons e rest ih =>
    obtain ⟨key, entry⟩ := e
    by_cases removed : key = k
    · subst removed
      simp only [without, List.filter_cons, ne_eq, not_true_eq_false, decide_false,
        Bool.false_eq_true, if_false] at ih ⊢
      rw [ih]
      by_cases same : k' = key
      · simp [same]
      · simp [same, find, Ne.symm same]
    · simp only [without, List.filter_cons, ne_eq, removed, not_false_eq_true, decide_true,
        if_true, find] at ih ⊢
      rw [ih]
      by_cases same : key = k'
      · simp [same, show ¬ k' = k from same ▸ removed]
      · simp [same]

@[simp] theorem get_empty (k : K) : (empty : Bucket K V).get k = none := rfl

@[simp] theorem value_empty (k : K) : (empty : Bucket K V).value k = none := rfl

@[simp] theorem get_put_self (b : Bucket K V) (k : K) (v : V) :
    (b.put k v).get k = some (v, b.revision + 1) := by
  simp [get, put, find]

theorem get_put (b : Bucket K V) (k k' : K) (v : V) :
    (b.put k v).get k' = if k' = k then some (v, b.revision + 1) else b.get k' := by
  by_cases same : k' = k
  · simp [same]
  · simp [get, put, find, find_without, same, Ne.symm same]

theorem get_delete (b : Bucket K V) (k k' : K) :
    (b.delete k).get k' = if k' = k then none else b.get k' :=
  find_without b.entries k k'

theorem value_put (b : Bucket K V) (k k' : K) (v : V) :
    (b.put k v).value k' = if k' = k then some v else b.value k' := by
  simp only [value, get_put]
  split <;> rfl

theorem value_delete (b : Bucket K V) (k k' : K) :
    (b.delete k).value k' = if k' = k then none else b.value k' := by
  simp only [value, get_delete]
  split <;> rfl

theorem get_eq_none_iff (b : Bucket K V) (k : K) : b.get k = none ↔ k ∉ b.keys := by
  unfold get keys
  induction b.entries with
  | nil => simp [find]
  | cons e rest ih =>
    obtain ⟨key, entry⟩ := e
    by_cases same : key = k
    · simp [find, same]
    · simp [find, same, ih, Ne.symm same]

theorem mem_keys_iff (b : Bucket K V) (k : K) : k ∈ b.keys ↔ (b.value k).isSome := by
  rw [value, Option.isSome_map, ← Option.ne_none_iff_isSome, ne_eq, get_eq_none_iff, not_not]

/-- No entry has a revision that is still to come. -/
def Numbered (b : Bucket K V) : Prop := ∀ k e, b.get k = some e → e.2 ≤ b.revision

theorem numbered_empty : (empty : Bucket K V).Numbered := by
  intro k e here
  cases here

theorem Numbered.put {b : Bucket K V} (numbered : b.Numbered) (k : K) (v : V) :
    (b.put k v).Numbered := by
  intro k' e here
  rw [get_put] at here
  split at here
  · cases here
    exact Nat.le_refl _
  · exact Nat.le_succ_of_le (numbered k' e here)

theorem Numbered.delete {b : Bucket K V} (numbered : b.Numbered) (k : K) :
    (b.delete k).Numbered := by
  intro k' e here
  rw [get_delete] at here
  split at here
  · cases here
  · exact Nat.le_succ_of_le (numbered k' e here)

omit [DecidableEq K] in
theorem keys_nodup (b : Bucket K V) : b.keys.Nodup := b.nodup

end Bucket

end OjsNats.Store
