import Mathlib.Data.List.Nodup
import Mathlib.Data.List.Range

/-!
# The ids of WebSocket events

Each event that a server sends over a WebSocket takes the next value of one
counter of 64 bits.  Its id shows four decimal digits of that value.
-/

namespace OjsNats.Api

/-- The loop multiplies by ten `n` times. -/
def pow10 (n : UInt64) : UInt64 := Nat.repeat (· * 10) n.toNat 1

def digitRune (n i : UInt64) : Char := Char.ofNat ('0'.toNat + ((n / pow10 i) % 10).toNat)

/-- The digits at the positions 3 to 0. -/
def formatUint (n : UInt64) : String :=
  [3, 2, 1, 0].foldl (fun s i => s ++ String.singleton (digitRune n i)) ""

def formatEventID (id : UInt64) : String := "evt_" ++ formatUint id

/-- `eventID.Add(1)` and the id that is made of its result. -/
def nextEventID (eventID : UInt64) : UInt64 × String := (eventID + 1, formatEventID (eventID + 1))

/-- The ids of the next events that a server sends. -/
def sentIDs : Nat → UInt64 → List String
  | 0, _ => []
  | k + 1, eventID => (nextEventID eventID).2 :: sentIDs k (nextEventID eventID).1

/-! ## Digits -/

theorem toList_formatUint (n : UInt64) : (formatUint n).toList =
    [digitRune n 3, digitRune n 2, digitRune n 1, digitRune n 0] := by
  simp [formatUint]

theorem digit_injective : ∀ a b : Fin 10,
    Char.ofNat ('0'.toNat + a.val) = Char.ofNat ('0'.toNat + b.val) → a = b := by
  decide

/-- The rune at a position tells the digit there. -/
theorem digitRune_eq_iff {m n i : UInt64} : digitRune m i = digitRune n i ↔
    m.toNat / (pow10 i).toNat % 10 = n.toNat / (pow10 i).toNat % 10 := by
  have digit (k : UInt64) : ((k / pow10 i) % 10).toNat = k.toNat / (pow10 i).toNat % 10 := by
    simp
  unfold digitRune
  rw [digit, digit]
  constructor
  · intro same
    have below (k : Nat) : k % 10 < 10 := Nat.mod_lt k (by decide)
    exact congrArg Fin.val (digit_injective ⟨_, below _⟩ ⟨_, below _⟩ same)
  · intro same
    rw [same]

/-- Two values have the same id exactly if their last four digits are the same. -/
theorem formatEventID_eq_iff (m n : UInt64) :
    formatEventID m = formatEventID n ↔ m.toNat % 10000 = n.toNat % 10000 := by
  have powers : (pow10 3).toNat = 1000 ∧ (pow10 2).toNat = 100 ∧ (pow10 1).toNat = 10 ∧
      (pow10 0).toNat = 1 := by decide
  obtain ⟨thousand, hundred, ten, one⟩ := powers
  unfold formatEventID
  rw [String.append_right_inj, ← String.toList_inj, toList_formatUint, toList_formatUint]
  simp only [List.cons.injEq, and_true, digitRune_eq_iff, thousand, hundred, ten, one]
  omega

/-! ## The events of one server -/

theorem sentIDs_eq_map (k : Nat) (eventID : UInt64) : sentIDs k eventID =
    (List.range k).map fun i => formatEventID (eventID + UInt64.ofNat (i + 1)) := by
  induction k generalizing eventID with
  | zero => rfl
  | succ k ih =>
    rw [List.range_succ_eq_map, List.map_cons, List.map_map, sentIDs, nextEventID, ih]
    refine congrArg₂ List.cons rfl (List.map_congr_left fun i _ => ?_)
    have later : eventID + 1 + UInt64.ofNat (i + 1) = eventID + UInt64.ofNat (i + 1 + 1) := by
      rw [UInt64.add_assoc, UInt64.add_comm 1, UInt64.ofNat_add (i + 1) 1]
      rfl
    exact congrArg formatEventID later

/-- The ids of a new server repeat after ten thousand events. -/
theorem nodup_sentIDs_iff (k : Nat) : (sentIDs k 0).Nodup ↔ k ≤ 10000 := by
  have residue (i : Nat) (below : i < 10001) :
      (0 + UInt64.ofNat (i + 1)).toNat % 10000 = (i + 1) % 10000 := by
    rw [UInt64.zero_add, UInt64.toNat_ofNat_of_lt' (by simp [UInt64.size]; omega)]
  rw [sentIDs_eq_map]
  constructor
  · intro distinct
    by_contra more
    have same : (0 : Nat) = 10000 := by
      refine List.inj_on_of_nodup_map distinct (List.mem_range.mpr (by omega))
        (List.mem_range.mpr (by omega)) ((formatEventID_eq_iff _ _).mpr ?_)
      rw [residue 0 (by omega), residue 10000 (by omega)]
    omega
  · intro few
    refine List.Nodup.map_on (fun i mem j mem' same => ?_) List.nodup_range
    have i_lt : i < k := List.mem_range.mp mem
    have j_lt : j < k := List.mem_range.mp mem'
    have equal := (formatEventID_eq_iff _ _).mp same
    rw [residue i (by omega), residue j (by omega)] at equal
    omega

/-- Two values give different ids exactly if they differ in their last four digits, and a
server's ids are distinct exactly if it has sent ten thousand events at most. -/
theorem formatEventID_ne_iff (m n : UInt64) (k : Nat) :
    (formatEventID m ≠ formatEventID n ↔ m.toNat % 10000 ≠ n.toNat % 10000) ∧
      ((sentIDs k 0).Nodup ↔ k ≤ 10000) :=
  ⟨not_congr (formatEventID_eq_iff m n), nodup_sentIDs_iff k⟩

theorem not_formatEventID_injective :
    ¬ ∀ m n : UInt64, m ≠ n → formatEventID m ≠ formatEventID n := by
  intro distinct
  exact distinct 1 10001 (by decide) (by decide)

end OjsNats.Api
