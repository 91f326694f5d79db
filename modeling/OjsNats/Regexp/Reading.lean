import Mathlib.Data.List.TakeWhile
import Mathlib.Order.Basic

/-!
# Readers

A reader takes a value off the front of a text.  It carries two facts with it:
what it leaves is no longer than what it was given, and what it reads does not
change if a `$` is put behind the text.  Readers are put together with `do`, so
both facts hold of whole grammars without further proof.
-/

namespace OjsNats.Regexp

structure Reader (α : Type) where
  read : List Char → Option (α × List Char)
  shorter : ∀ {cs a rest}, read cs = some (a, rest) → rest.length ≤ cs.length
  steady : ∀ {cs a rest}, read cs = some (a, rest) → read (cs ++ ['$']) = some (a, rest ++ ['$'])

namespace Reader

variable {α β : Type}

/-! ## Putting readers together -/

protected def pure (a : α) : Reader α where
  read cs := some (a, cs)
  shorter := by
    intro cs b rest same
    cases same
    exact le_rfl
  steady := by
    intro cs b rest same
    cases same
    rfl

protected def bind (r : Reader α) (f : α → Reader β) : Reader β where
  read cs := (r.read cs).bind fun found => (f found.1).read found.2
  shorter := by
    intro cs b rest same
    obtain ⟨⟨a, left⟩, first, second⟩ := Option.bind_eq_some_iff.mp same
    exact le_trans ((f a).shorter second) (r.shorter first)
  steady := by
    intro cs b rest same
    obtain ⟨⟨a, left⟩, first, second⟩ := Option.bind_eq_some_iff.mp same
    rw [r.steady first]
    exact (f a).steady second

instance : Monad Reader where
  pure := Reader.pure
  bind := Reader.bind

theorem read_bind (r : Reader α) (f : α → Reader β) (cs : List Char) :
    (r >>= f).read cs = (r.read cs).bind fun found => (f found.1).read found.2 := rfl

def fail : Reader α where
  read _ := none
  shorter := by
    intro cs a rest same
    cases same
  steady := by
    intro cs a rest same
    cases same

/-! ## Characters -/

/-- The next character. -/
def item : Reader Char where
  read
    | [] => none
    | c :: cs => some (c, cs)
  shorter := by
    intro cs a rest same
    cases cs with
    | nil => cases same
    | cons c cs =>
      cases same
      exact Nat.le_succ _
  steady := by
    intro cs a rest same
    cases cs with
    | nil => cases same
    | cons c cs =>
      cases same
      rfl

/-- The next character if it is of a kind that `$` is not of. -/
def optional (kind : Char → Bool) (other : kind '$' = false := by decide) :
    Reader (Option Char) where
  read
    | [] => some (none, [])
    | c :: cs => if kind c then some (some c, cs) else some (none, c :: cs)
  shorter := by
    intro cs a rest same
    cases cs with
    | nil =>
      cases same
      exact le_rfl
    | cons c cs =>
      dsimp only at same
      split at same
      · cases same
        exact Nat.le_succ _
      · cases same
        exact le_rfl
  steady := by
    intro cs a rest same
    cases cs with
    | nil =>
      cases same
      rw [List.nil_append]
      exact if_neg (by rw [other]; exact Bool.false_ne_true)
    | cons c cs =>
      rw [List.cons_append]
      dsimp only at same ⊢
      split at same
      · rename_i matched
        cases same
        exact if_pos matched
      · rename_i unmatched
        cases same
        exact if_neg unmatched

/-- Whether the next character is `c`, which is then taken. -/
def skip (c : Char) (other : (decide ('$' = c)) = false := by decide) : Reader Bool := do
  let found ← optional (fun d => decide (d = c)) other
  return found.isSome

/-- Whether the next character is `c` with some other character than `d` behind it;
then `c` is taken.  Nothing can be read of a text that ends with it. -/
def skipUnless (c d : Char) (other : '$' ≠ c := by decide) : Reader Bool where
  read
    | [] => some (false, [])
    | [b] => if b = c then none else some (false, [b])
    | b :: e :: cs =>
        if b = c ∧ e ≠ d then some (true, e :: cs) else some (false, b :: e :: cs)
  shorter := by
    intro cs a rest same
    match cs with
    | [] =>
      cases same
      exact le_rfl
    | [b] =>
      dsimp only at same
      split at same <;> cases same
      exact le_rfl
    | b :: e :: cs =>
      dsimp only at same
      split at same
      · cases same
        exact Nat.le_succ _
      · cases same
        exact le_rfl
  steady := by
    intro cs a rest same
    match cs with
    | [] =>
      cases same
      exact if_neg other
    | [b] =>
      dsimp only at same
      split at same
      · cases same
      · rename_i differs
        cases same
        exact if_neg fun both => differs both.1
    | b :: e :: cs =>
      dsimp only [List.cons_append] at same ⊢
      split at same
      · rename_i both
        cases same
        exact if_pos both
      · rename_i neither
        cases same
        exact if_neg neither

/-- All the characters up to the first that is not of the kind; `$` is not. -/
def run (kind : Char → Bool) (other : kind '$' = false := by decide) : Reader (List Char) where
  read cs := some (cs.takeWhile kind, cs.dropWhile kind)
  shorter := by
    intro cs a rest same
    cases same
    exact List.length_dropWhile_le kind cs
  steady := by
    intro cs a rest same
    cases same
    induction cs with
    | nil => simp only [List.nil_append, List.takeWhile_cons, List.dropWhile_cons, other,
        Bool.false_eq_true, if_false, List.takeWhile_nil, List.dropWhile_nil]
    | cons c cs ih =>
      rw [List.cons_append, List.takeWhile_cons, List.dropWhile_cons, List.takeWhile_cons,
        List.dropWhile_cons]
      obtain ⟨taken, left⟩ := Prod.mk.inj (Option.some.inj ih)
      split
      · rw [taken, left]
      · rfl

/-- The next character if it is `c`. -/
def expect (c : Char) (other : (decide ('$' = c)) = false := by decide) : Reader Unit := do
  if ← skip c other then
    return ()
  else
    fail

/-! ## Up to a mark -/

/-- The text before the first occurrence of a mark, and the text after it. -/
def cut (mark : List Char) : List Char → Option (List Char × List Char)
  | [] => none
  | c :: cs =>
      if mark.isPrefixOf (c :: cs) then
        some ([], (c :: cs).drop mark.length)
      else
        (cut mark cs).map fun found => (c :: found.1, found.2)

section Cut

variable {mark : List Char}

theorem isPrefixOf_dollar (other : '$' ∉ mark) (cs : List Char) :
    mark.isPrefixOf (cs ++ ['$']) = mark.isPrefixOf cs := by
  induction mark generalizing cs with
  | nil => simp only [List.isPrefixOf_nil_left]
  | cons m mark ih =>
    rw [List.mem_cons, not_or] at other
    cases cs with
    | nil =>
      have differs : (m == '$') = false := beq_false_of_ne (Ne.symm other.1)
      simp only [List.nil_append, List.isPrefixOf, differs, Bool.false_and]
    | cons c cs =>
      rw [List.cons_append, List.isPrefixOf, List.isPrefixOf, ih other.2]

theorem cut_length {cs before after : List Char} (found : cut mark cs = some (before, after)) :
    after.length ≤ cs.length := by
  induction cs generalizing before with
  | nil => cases found
  | cons c cs ih =>
    rw [cut] at found
    split at found
    · cases found
      rw [List.length_drop]
      exact Nat.sub_le _ _
    · obtain ⟨⟨b, a⟩, later, same⟩ := Option.map_eq_some_iff.mp found
      cases same
      exact le_trans (ih later) (Nat.le_succ _)

/-- A `$` behind the text is no part of the mark. -/
theorem cut_dollar (nonempty : mark ≠ []) (other : '$' ∉ mark) (cs : List Char) :
    cut mark (cs ++ ['$']) = (cut mark cs).map fun found => (found.1, found.2 ++ ['$']) := by
  induction cs with
  | nil =>
    have absent : mark.isPrefixOf ([] ++ ['$']) = false := by
      rw [isPrefixOf_dollar other]
      cases mark with
      | nil => exact absurd rfl nonempty
      | cons m mark => rfl
    rw [List.nil_append] at absent
    rw [List.nil_append, cut, cut, absent]
    rfl
  | cons c cs ih =>
    rw [List.cons_append, cut, cut, ← List.cons_append, isPrefixOf_dollar other]
    split
    · rename_i inside
      have fits := (List.isPrefixOf_iff_prefix.mp inside).length_le
      rw [List.drop_append_of_le_length fits]
      rfl
    · rw [ih, Option.map_map, Option.map_map]
      rfl

end Cut

/-- The text before the next occurrence of a mark, which is taken too. -/
def through (mark : List Char) (nonempty : mark ≠ [] := by decide)
    (other : '$' ∉ mark := by decide) : Reader (List Char) where
  read := cut mark
  shorter := cut_length
  steady := by
    intro cs a rest same
    rw [cut_dollar nonempty other, same]
    rfl

/-! ## Repetition -/

/-- One value after the other, up to a closing character. -/
def untilLoop (close : Char) (r : Reader α) : Nat → List Char → Option (List α × List Char)
  | _, [] => none
  | 0, _ :: _ => none
  | n + 1, c :: cs =>
      if c = close then
        some ([], cs)
      else
        (r.read (c :: cs)).bind fun found =>
          (untilLoop close r n found.2).map fun later => (found.1 :: later.1, later.2)

section Until

variable {close : Char} {r : Reader α}

theorem untilLoop_length {n : Nat} {cs rest : List Char} {as : List α}
    (same : untilLoop close r n cs = some (as, rest)) : rest.length ≤ cs.length := by
  induction n generalizing cs as with
  | zero => cases cs <;> cases same
  | succ n ih =>
    cases cs with
    | nil => cases same
    | cons c cs =>
      rw [untilLoop] at same
      split at same
      · cases same
        exact Nat.le_succ _
      · obtain ⟨⟨a, left⟩, first, later⟩ := Option.bind_eq_some_iff.mp same
        obtain ⟨⟨bs, last⟩, loop, same⟩ := Option.map_eq_some_iff.mp later
        cases same
        exact le_trans (ih loop) (r.shorter first)

theorem untilLoop_dollar {n : Nat} {cs rest : List Char} {as : List α}
    (same : untilLoop close r n cs = some (as, rest)) :
    untilLoop close r (n + 1) (cs ++ ['$']) = some (as, rest ++ ['$']) := by
  induction n generalizing cs as with
  | zero => cases cs <;> cases same
  | succ n ih =>
    cases cs with
    | nil => cases same
    | cons c cs =>
      rw [untilLoop] at same
      rw [List.cons_append, untilLoop]
      split at same
      · rename_i closes
        cases same
        exact if_pos closes
      · rename_i continues
        obtain ⟨⟨a, left⟩, first, later⟩ := Option.bind_eq_some_iff.mp same
        obtain ⟨⟨bs, last⟩, loop, same⟩ := Option.map_eq_some_iff.mp later
        cases same
        rw [if_neg continues, ← List.cons_append, r.steady first, Option.bind_some, ih loop]
        rfl

end Until

/-- Every reading of `r` takes at least one character. -/
def Strict (r : Reader α) : Prop :=
  ∀ ⦃cs a rest⦄, r.read cs = some (a, rest) → rest.length < cs.length

theorem strict_item : Strict item := by
  intro cs a rest same
  cases cs with
  | nil => cases same
  | cons c cs =>
    cases same
    exact Nat.lt_succ_self _

theorem strict_expect {c : Char} {other : (decide ('$' = c)) = false} :
    Strict (expect c other) := by
  intro cs a rest same
  cases cs with
  | nil => cases same
  | cons d cs =>
    have found : (expect c other).read (d :: cs) = if d = c then some ((), cs) else none := by
      by_cases next : d = c
      · simp only [expect, skip, optional, read_bind, next, decide_true, if_true]
        rfl
      · simp only [expect, skip, optional, read_bind, next, decide_false, if_false]
        rfl
    rw [found] at same
    split at same <;> cases same
    exact Nat.lt_succ_self _

theorem Strict.bind {r : Reader α} (strict : Strict r) (f : α → Reader β) :
    Strict (r >>= f) := by
  intro cs b rest same
  obtain ⟨⟨a, left⟩, first, second⟩ := Option.bind_eq_some_iff.mp same
  exact lt_of_le_of_lt ((f a).shorter second) (strict first)

/-- As many turns as there are characters are enough. -/
theorem untilLoop_enough {close : Char} {r : Reader α} (strict : Strict r) {n m : Nat}
    {cs : List Char} (enough : cs.length ≤ n) (more : n ≤ m) :
    untilLoop close r m cs = untilLoop close r n cs := by
  induction n generalizing m cs with
  | zero =>
    rw [List.length_eq_zero_iff.mp (Nat.le_zero.mp enough)]
    cases m <;> rfl
  | succ n ih =>
    obtain ⟨m, rfl⟩ : ∃ k, m = k + 1 := ⟨m - 1, by omega⟩
    cases cs with
    | nil => rfl
    | cons c cs =>
      rw [untilLoop, untilLoop]
      split
      · rfl
      · cases found : r.read (c :: cs) with
        | none => rfl
        | some pair =>
          have fewer := strict found
          rw [List.length_cons] at fewer enough
          rw [Option.bind_some, Option.bind_some, ih (by omega) (by omega)]

/-- The values before a closing character, which is taken too. -/
def untilClose (close : Char) (r : Reader α) : Reader (List α) where
  read cs := untilLoop close r cs.length cs
  shorter := untilLoop_length
  steady := by
    intro cs a rest same
    rw [List.length_append]
    exact untilLoop_dollar same

/-! ## Readings that may fail -/

/-- A `$` behind a text that cannot be read does not help. -/
def Settled (r : Reader α) : Prop := ∀ cs, r.read cs = none → r.read (cs ++ ['$']) = none

theorem settled_pure (a : α) : Settled (pure a) := by
  intro cs same
  cases same

theorem settled_fail : Settled (fail : Reader α) := fun _ _ => rfl

theorem Settled.bind {r : Reader α} {f : α → Reader β} (first : Settled r)
    (later : ∀ a, Settled (f a)) : Settled (r >>= f) := by
  intro cs same
  rw [read_bind] at same ⊢
  cases found : r.read cs with
  | none =>
    rw [first cs found]
    rfl
  | some pair =>
    obtain ⟨a, left⟩ := pair
    rw [found] at same
    rw [r.steady found]
    exact later a left same

theorem settled_ite {p : Prop} [Decidable p] {r r' : Reader α} (yes : p → Settled r)
    (no : ¬ p → Settled r') : Settled (if p then r else r') := by
  split
  · exact yes ‹p›
  · exact no ‹¬ p›

theorem settled_optional {kind : Char → Bool} {other : kind '$' = false} :
    Settled (optional kind other) := by
  intro cs same
  cases cs with
  | nil => cases same
  | cons c cs =>
    dsimp only [optional] at same
    split at same <;> cases same

theorem settled_skip {c : Char} {other : (decide ('$' = c)) = false} : Settled (skip c other) :=
  settled_optional.bind fun _ => settled_pure _

theorem settled_expect {c : Char} {other : (decide ('$' = c)) = false} :
    Settled (expect c other) := by
  exact settled_skip.bind fun found => settled_ite (fun _ => settled_pure ()) fun _ => settled_fail

theorem settled_run {kind : Char → Bool} {other : kind '$' = false} :
    Settled (run kind other) := by
  intro cs same
  cases same

theorem settled_through {mark : List Char} {nonempty : mark ≠ []} {other : '$' ∉ mark} :
    Settled (through mark nonempty other) := by
  intro cs same
  have absent : cut mark cs = none := same
  change cut mark (cs ++ ['$']) = none
  rw [cut_dollar nonempty other, absent]
  rfl

/-- What a reader reads, or nothing where it cannot. -/
def attempt (r : Reader α) (settled : Settled r) : Reader (Option α) where
  read cs :=
    match r.read cs with
    | some (a, rest) => some (some a, rest)
    | none => some (none, cs)
  shorter := by
    intro cs a rest same
    split at same
    · rename_i found
      cases same
      exact r.shorter found
    · cases same
      exact le_rfl
  steady := by
    intro cs a rest same
    split at same
    · rename_i found
      cases same
      rw [r.steady found]
    · rename_i missing
      cases same
      rw [settled cs missing]

theorem strict_attempt {r : Reader α} {settled : Settled r} {f : Option α → Reader β}
    (strict : Strict r) (otherwise : Strict (f none)) : Strict (attempt r settled >>= f) := by
  intro cs b rest same
  obtain ⟨⟨a, left⟩, first, second⟩ := Option.bind_eq_some_iff.mp same
  dsimp only [attempt] at first
  split at first
  · rename_i found
    cases first
    exact lt_of_le_of_lt ((f _).shorter second) (strict found)
  · cases first
    exact otherwise second

end Reader

end OjsNats.Regexp
