import Mathlib.Algebra.Order.Group.Nat
import Mathlib.Tactic.Common

/-!
# Regular expressions and what they match

The syntax trees of Go's `regexp/syntax` and the parts of a text they span.
Captures and greediness are left out: they choose among matches but do not say
whether there is one.  Characters of an expression are code points, which need
not be characters of a text.
-/

namespace OjsNats.Regexp

/-- What Go's `regexp` takes from elsewhere. -/
structure Engine where
  /-- The code points equal to one under `unicode.SimpleFold`, itself among them. -/
  orbit : Nat → List Nat
  /-- `unicodeTable`, by the name between the braces of `\p`. -/
  table : List Char → Option (Nat → Bool)
  /-- Whether an expression exceeds `maxHeight`, `maxSize` or `maxRunes`. -/
  oversize : String → Bool

/-- The members of a bracket expression or of a class escape. -/
inductive ClassItem where
  | ranges (negated : Bool) (rs : List (Nat × Nat))
  | table (negated : Bool) (name : List Char)
  deriving DecidableEq, Repr

/-- Expressions for one character. -/
inductive Single where
  | literal (foldCase : Bool) (code : Nat)
  | charClass (foldCase negated : Bool) (items : List ClassItem)
  | anyCharNotNL
  | anyChar
  deriving DecidableEq, Repr

/-- Expressions for a place between characters. -/
inductive Assertion where
  | beginLine
  | endLine
  | beginText
  | endText
  | wordBoundary
  | noWordBoundary
  deriving DecidableEq, Repr

inductive Expr where
  | emptyMatch
  | single (s : Single)
  | assertion (a : Assertion)
  | concat (first second : Expr)
  | alternate (first second : Expr)
  /-- `OpStar`, `OpPlus`, `OpQuest` and `OpRepeat`, by their bounds. -/
  | repeated (sub : Expr) (min : Nat) (max : Option Nat)
  deriving DecidableEq, Repr

/-! ## Characters and places -/

def inRanges (rs : List (Nat × Nat)) (code : Nat) : Bool :=
  rs.any fun r => decide (r.1 ≤ code) && decide (code ≤ r.2)

/-- Whether a predicate holds of a code point, or of one equal to it but for case. -/
def folded (E : Engine) (foldCase : Bool) (p : Nat → Bool) (code : Nat) : Bool :=
  if foldCase then (E.orbit code).any p else p code

def ClassItem.has (E : Engine) (foldCase : Bool) (code : Nat) : ClassItem → Bool
  | .ranges negated rs => folded E foldCase (inRanges rs) code != negated
  | .table negated name =>
      folded E foldCase ((E.table name).getD fun _ => false) code != negated

def Single.accepts (E : Engine) (c : Char) : Single → Bool
  | .literal foldCase code => folded E foldCase (fun n => decide (n = code)) c.toNat
  | .charClass foldCase negated items =>
      (items.any fun item => item.has E foldCase c.toNat) != negated
  | .anyCharNotNL => decide (c ≠ '\n')
  | .anyChar => true

/-- `IsWordChar` -/
def isWordChar (c : Char) : Bool := c.isAlphanum || decide (c = '_')

/-- Whether the character before a place is of a kind. -/
def before (text : List Char) (kind : Char → Bool) : Nat → Bool
  | 0 => false
  | i + 1 => text[i]?.any kind

def atBoundary (text : List Char) (i : Nat) : Bool :=
  before text isWordChar i != text[i]?.any isWordChar

def Assertion.holds (text : List Char) (i : Nat) : Assertion → Bool
  | .beginLine => decide (i = 0) || before text (fun c => decide (c = '\n')) i
  | .endLine => decide (i = text.length) || decide (text[i]? = some '\n')
  | .beginText => decide (i = 0)
  | .endText => decide (i = text.length)
  | .wordBoundary => atBoundary text i
  | .noWordBoundary => !atBoundary text i

/-! ## Spans -/

/-- A relation put together with itself a number of times. -/
def Times (R : Nat → Nat → Prop) : Nat → Nat → Nat → Prop
  | 0, i, j => j = i
  | n + 1, i, j => ∃ k, R i k ∧ Times R n k j

/-- The expression matches the part of the text from `i` to `j`. -/
def Spans (E : Engine) (text : List Char) : Expr → Nat → Nat → Prop
  | .emptyMatch, i, j => j = i
  | .single s, i, j => j = i + 1 ∧ text[i]?.any (s.accepts E)
  | .assertion a, i, j => j = i ∧ a.holds text i
  | .concat first second, i, j => ∃ k, Spans E text first i k ∧ Spans E text second k j
  | .alternate first second, i, j => Spans E text first i j ∨ Spans E text second i j
  | .repeated sub min max, i, j =>
      ∃ n, min ≤ n ∧ (∀ m ∈ max, n ≤ m) ∧ Times (Spans E text sub) n i j

/-- Some part of the text matches. -/
def Contains (E : Engine) (text : List Char) (re : Expr) : Prop :=
  ∃ i ≤ text.length, ∃ j, Spans E text re i j

/-- The whole text matches. -/
def Covers (E : Engine) (text : List Char) (re : Expr) : Prop := Spans E text re 0 text.length

section Bounds

variable {E : Engine} {text : List Char} {R : Nat → Nat → Prop} {i j n : Nat}

theorem times_keeps {P : Nat → Nat → Prop} (refl : ∀ i, P i i)
    (step : ∀ {i k j}, R i k → P k j → P i j) (times : Times R n i j) : P i j := by
  induction n generalizing i with
  | zero =>
    have ends : j = i := times
    exact ends ▸ refl i
  | succ n ih =>
    obtain ⟨k, first, rest⟩ := times
    exact step first (ih rest)

theorem times_le (forward : ∀ {i j}, R i j → i ≤ j) (times : Times R n i j) : i ≤ j :=
  times_keeps (P := (· ≤ ·)) Nat.le_refl (fun first rest => (forward first).trans rest) times

theorem spans_le {re : Expr} (spans : Spans E text re i j) : i ≤ j := by
  induction re generalizing i j with
  | emptyMatch => exact spans.ge
  | single s => exact spans.1 ▸ Nat.le_succ i
  | assertion a => exact spans.1.ge
  | concat first second ihFirst ihSecond =>
    obtain ⟨k, before, after⟩ := spans
    exact (ihFirst before).trans (ihSecond after)
  | alternate first second ihFirst ihSecond =>
    cases spans with
    | inl spans => exact ihFirst spans
    | inr spans => exact ihSecond spans
  | repeated sub min max ih =>
    obtain ⟨n, -, -, times⟩ := spans
    exact times_le ih times

theorem spans_length {re : Expr} (inside : i ≤ text.length) (spans : Spans E text re i j) :
    j ≤ text.length := by
  induction re generalizing i j with
  | emptyMatch => exact spans ▸ inside
  | single s =>
    obtain ⟨rfl, accepted⟩ := spans
    by_contra beyond
    rw [List.getElem?_eq_none (by omega)] at accepted
    cases accepted
  | assertion a => exact spans.1 ▸ inside
  | concat first second ihFirst ihSecond =>
    obtain ⟨k, before, after⟩ := spans
    exact ihSecond (ihFirst inside before) after
  | alternate first second ihFirst ihSecond =>
    cases spans with
    | inl spans => exact ihFirst inside spans
    | inr spans => exact ihSecond inside spans
  | repeated sub min max ih =>
    obtain ⟨n, -, -, times⟩ := spans
    exact times_keeps (P := fun i j => i ≤ text.length → j ≤ text.length) (fun _ => id)
      (fun first rest inside => rest (ih inside first)) times inside

end Bounds

/-! ## Deciding what matches -/

section Deciding

variable {R : Nat → Nat → Prop} {i j n min : Nat} {max : Option Nat}

/-- More turns than there are characters have an empty one, which can be left out. -/
theorem times_shorten (forward : ∀ {i j}, R i j → i ≤ j) (times : Times R (n + 1) i j)
    (many : j < i + (n + 1)) : Times R n i j := by
  induction n generalizing i with
  | zero =>
    obtain ⟨k, first, rest⟩ := times
    have ends : j = k := rest
    have ahead := forward first
    exact (by omega : j = i)
  | succ n ih =>
    obtain ⟨k, first, rest⟩ := times
    by_cases stays : k = i
    · exact stays ▸ rest
    · have ahead := forward first
      exact ⟨k, first, ih rest (by omega)⟩

/-- A number of turns from the least on that is no larger than needed. -/
theorem times_bounded (forward : ∀ {i j}, R i j → i ≤ j) (least : min ≤ n)
    (most : ∀ m ∈ max, n ≤ m) (times : Times R n i j) :
    ∃ n < min + j + 1, min ≤ n ∧ (∀ m ∈ max, n ≤ m) ∧ Times R n i j := by
  induction n with
  | zero => exact ⟨0, Nat.succ_pos _, least, most, times⟩
  | succ n ih =>
    by_cases small : n + 1 < min + j + 1
    · exact ⟨n + 1, small, least, most, times⟩
    · exact ih (by omega) (fun m mem => Nat.le_of_succ_le (most m mem))
        (times_shorten forward times (by omega))

def Times.decide (forward : ∀ {i j}, R i j → i ≤ j) (dec : ∀ i j, Decidable (R i j)) :
    ∀ n i j, Decidable (Times R n i j)
  | 0, i, j => inferInstanceAs (Decidable (j = i))
  | n + 1, i, j =>
      have := Times.decide forward dec n
      decidable_of_iff (∃ k < j + 1, R i k ∧ Times R n k j) <| by
        constructor
        · rintro ⟨k, -, first, rest⟩
          exact ⟨k, first, rest⟩
        · rintro ⟨k, first, rest⟩
          exact ⟨k, Nat.lt_succ_of_le (times_le forward rest), first, rest⟩

instance Spans.decide (E : Engine) (text : List Char) :
    ∀ re i j, Decidable (Spans E text re i j)
  | .emptyMatch, i, j => inferInstanceAs (Decidable (j = i))
  | .single s, i, j =>
      inferInstanceAs (Decidable (j = i + 1 ∧ text[i]?.any (s.accepts E) = true))
  | .assertion a, i, j => inferInstanceAs (Decidable (j = i ∧ a.holds text i = true))
  | .concat first second, i, j =>
      have := Spans.decide E text first
      have := Spans.decide E text second
      decidable_of_iff (∃ k < j + 1, Spans E text first i k ∧ Spans E text second k j) <| by
        constructor
        · rintro ⟨k, -, before, after⟩
          exact ⟨k, before, after⟩
        · rintro ⟨k, before, after⟩
          exact ⟨k, Nat.lt_succ_of_le (spans_le after), before, after⟩
  | .alternate first second, i, j =>
      have := Spans.decide E text first
      have := Spans.decide E text second
      inferInstanceAs (Decidable (Spans E text first i j ∨ Spans E text second i j))
  | .repeated sub min max, i, j =>
      have := Times.decide spans_le (Spans.decide E text sub)
      decidable_of_iff (∃ n < min + j + 1, min ≤ n ∧ (∀ m ∈ max, n ≤ m) ∧
          Times (Spans E text sub) n i j) <| by
        constructor
        · rintro ⟨n, -, least, most, times⟩
          exact ⟨n, least, most, times⟩
        · rintro ⟨n, least, most, times⟩
          exact times_bounded spans_le least most times

instance (E : Engine) (text : List Char) (re : Expr) : Decidable (Contains E text re) :=
  decidable_of_iff (∃ i < text.length + 1, ∃ j < text.length + 1, Spans E text re i j) <| by
    constructor
    · rintro ⟨i, inside, j, -, spans⟩
      exact ⟨i, Nat.le_of_lt_succ inside, j, spans⟩
    · rintro ⟨i, inside, j, spans⟩
      exact ⟨i, Nat.lt_succ_of_le inside, j, Nat.lt_succ_of_le (spans_length inside spans), spans⟩

instance (E : Engine) (text : List Char) (re : Expr) : Decidable (Covers E text re) :=
  inferInstanceAs (Decidable (Spans E text re 0 text.length))

/-- `Regexp.MatchString` -/
def matchString (E : Engine) (re : Expr) (s : String) : Bool := decide (Contains E s.toList re)

end Deciding

end OjsNats.Regexp
