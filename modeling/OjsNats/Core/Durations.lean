import Mathlib.Algebra.Ring.Int.Defs
import Mathlib.Algebra.Ring.Nat

/-!
# Durations as text

Two notations for durations: that of Go's `time` package, such as `1m30s`, and
the time durations of ISO 8601, such as `PT1M30S`.  Durations are in nanoseconds.
-/

namespace OjsNats.Core

namespace Duration

def microsecond : Nat := 1000

def millisecond : Nat := 1000 * microsecond

def second : Nat := 1000 * millisecond

def minute : Nat := 60 * second

def hour : Nat := 60 * minute

/-! ## Go's notation -/

/-- `fmtInt`, in front of what was formatted before. -/
def fmtInt (v : Nat) (buf : List Char) : List Char := Nat.toDigits 10 v ++ buf

/-- `fmtFrac`: the digits after the point without trailing zeros, and what is left of `v`. -/
def fmtFrac (v : Nat) (print : Bool) (buf : List Char) : Nat → List Char × Nat
  | 0 => (if print then '.' :: buf else buf, v)
  | prec + 1 =>
      let digit := v % 10
      let print := print || digit ≠ 0
      fmtFrac (v / 10) print (if print then Nat.digitChar digit :: buf else buf) prec

/-- `Duration.format`, before the sign. -/
def formatDuration (u : Nat) : List Char :=
  if u < second then
    if u = 0 then ['0', 's']
    else if u < microsecond then fmtInt u ['n', 's']
    else if u < millisecond then
      let (buf, u) := fmtFrac u false ['µ', 's'] 3
      fmtInt u buf
    else
      let (buf, u) := fmtFrac u false ['m', 's'] 6
      fmtInt u buf
  else
    let (buf, u) := fmtFrac u false ['s'] 9
    let buf := fmtInt (u % 60) buf
    let u := u / 60
    if u = 0 then buf
    else
      let buf := fmtInt (u % 60) ('m' :: buf)
      let u := u / 60
      if u = 0 then buf else fmtInt u ('h' :: buf)

/-- `Duration.String` -/
def durationString (d : Int) : String :=
  String.ofList (if d < 0 then '-' :: formatDuration d.natAbs else formatDuration d.natAbs)

/-- `leadingInt` -/
def leadingInt (x : Nat) : List Char → Option (Nat × List Char)
  | [] => some (x, [])
  | c :: s =>
      if !c.isDigit then some (x, c :: s)
      else if 2 ^ 63 / 10 < x then none
      else
        let x := x * 10 + (c.toNat - '0'.toNat)
        if 2 ^ 63 < x then none else leadingInt x s

/-- `leadingFraction`: the digits that fit, the power of ten for them, and the rest. -/
def leadingFraction (x scale : Nat) (overflow : Bool) : List Char → Nat × Nat × List Char
  | [] => (x, scale, [])
  | c :: s =>
      if !c.isDigit then (x, scale, c :: s)
      else if overflow || (2 ^ 63 - 1) / 10 < x then leadingFraction x scale true s
      else
        let y := x * 10 + (c.toNat - '0'.toNat)
        if 2 ^ 63 < y then leadingFraction x scale true s
        else leadingFraction y (scale * 10) false s

/-- `unitMap` -/
def unitMap (unit : List Char) : Option Nat :=
  match unit with
  | ['n', 's'] => some 1
  | ['u', 's'] => some microsecond
  | ['µ', 's'] => some microsecond
  | ['μ', 's'] => some microsecond
  | ['m', 's'] => some millisecond
  | ['s'] => some second
  | ['m'] => some minute
  | ['h'] => some hour
  | _ => none

def startsNumber (c : Char) : Bool := c = '.' || c.isDigit

section Parsing

variable
  /- `uint64(float64(f) * (float64(unit) / scale))`, in floating point -/
  (fraction : Nat → Nat → Nat → Nat)

/-- One number with its unit, and the rest of the text. -/
def parseTerm (s : List Char) : Option (Nat × List Char) :=
  if !(s.head?.map startsNumber).getD false then none
  else do
    let (v, rest) ← leadingInt 0 s
    let pre := decide (s.length ≠ rest.length)
    let (f, scale, rest, post) :=
      match rest with
      | '.' :: digits =>
          let (f, scale, rest) := leadingFraction 0 1 false digits
          (f, scale, rest, decide (digits.length ≠ rest.length))
      | _ => (0, 1, rest, false)
    if !pre && !post then none
    else
      let unit ← unitMap (rest.takeWhile fun c => !startsNumber c)
      if 2 ^ 63 / unit < v then none
      else
        let v := v * unit + if 0 < f then fraction f unit scale else 0
        if 2 ^ 63 < v then none
        else return (v, rest.dropWhile fun c => !startsNumber c)

/-- The loop of `ParseDuration`; each round takes at least one character. -/
def parseTerms (d : Nat) : Nat → List Char → Option Nat
  | _, [] => some d
  | 0, _ :: _ => none
  | fuel + 1, c :: s => do
      let (v, rest) ← parseTerm fraction (c :: s)
      -- the sum is a `uint64`
      let d := (d + v) % 2 ^ 64
      if 2 ^ 63 < d then none else parseTerms d fuel rest

/-- `ParseDuration`, after the sign. -/
def parseMagnitude (s : List Char) : Option Nat :=
  if s = ['0'] then some 0
  else if s = [] then none
  else parseTerms fraction 0 s.length s

/-- `time.ParseDuration` -/
def parseDuration (s : String) : Option Int :=
  match s.toList with
  | '-' :: s => (parseMagnitude fraction s).map fun d => -(d : Int)
  | '+' :: s => (parseMagnitude fraction s).filter (· < 2 ^ 63) |>.map Int.ofNat
  | s => (parseMagnitude fraction s).filter (· < 2 ^ 63) |>.map Int.ofNat

end Parsing

section Notation

variable {fraction : Nat → Nat → Nat → Nat} {u : Nat} {buf : List Char} {c : Char}

/-- A number comes first in the text, whatever follows it. -/
theorem head?_fmtInt (v : Nat) (buf : List Char) : ∃ c ∈ (fmtInt v buf).head?, c.isDigit := by
  have nonempty : Nat.toDigits 10 v ≠ [] := Nat.toDigits_ne_nil
  refine ⟨(Nat.toDigits 10 v).head nonempty, ?_, ?_⟩
  · rw [fmtInt, List.head?_append, List.head?_eq_some_head nonempty]
    rfl
  · exact Nat.isDigit_of_mem_toDigits (by decide) (by decide) (List.head_mem nonempty)

theorem head?_formatDuration (u : Nat) : ∃ c ∈ (formatDuration u).head?, c.isDigit := by
  unfold formatDuration
  split
  · split
    · exact ⟨'0', rfl, rfl⟩
    · split
      · exact head?_fmtInt _ _
      · split <;> exact head?_fmtInt _ _
  · dsimp only
    split
    · exact head?_fmtInt _ _
    · split <;> exact head?_fmtInt _ _

/-- What is not a duration in Go's notation is refused at its first character. -/
theorem parseDuration_eq_none {s : List Char} (sign : c ≠ '-' ∧ c ≠ '+')
    (unnumbered : startsNumber c = false) :
    parseDuration fraction (String.ofList (c :: s)) = none := by
  have term : parseTerm fraction (c :: s) = none := by
    rw [parseTerm, List.head?_cons, Option.map_some, Option.getD_some, unnumbered]
    rfl
  have digit : c ≠ '0' := by
    rintro rfl
    revert unnumbered
    decide
  have magnitude : parseMagnitude fraction (c :: s) = none := by
    rw [parseMagnitude, if_neg (by simp [digit]), if_neg (List.cons_ne_nil c s),
      List.length_cons, parseTerms, term]
    rfl
  simp [parseDuration, magnitude, sign.1, sign.2]

end Notation

end Duration

/-! ## ISO 8601 -/

/-- The parts of `PTnHnMnS`; a part that is left out is empty. -/
structure TimeDuration where
  hours : List Char := []
  minutes : List Char := []
  seconds : List Char := []
  /-- the digits after the point of the seconds -/
  decimals : List Char := []
  digits : ∀ c ∈ hours ++ minutes ++ seconds ++ decimals, c.isDigit
  nonempty : hours ++ minutes ++ seconds ≠ []
  whole : seconds = [] → decimals = []

namespace TimeDuration

def part (unit : Char) (number : List Char) : List Char :=
  if number = [] then [] else number ++ [unit]

def text (t : TimeDuration) : List Char :=
  'P' :: 'T' :: part 'H' t.hours ++ part 'M' t.minutes ++
    part 'S' (t.seconds ++ if t.decimals = [] then [] else '.' :: t.decimals)

def number (digits : List Char) : Nat := Nat.ofDigitChars 10 digits 0

/-- The nanoseconds of the parts in front of the decimal point. -/
def nanoseconds (t : TimeDuration) : Nat :=
  number t.hours * Duration.hour + number t.minutes * Duration.minute +
    number t.seconds * Duration.second

end TimeDuration

/-- The text is an ISO 8601 time duration of so many nanoseconds. -/
def DenotesDuration (s : String) (d : Int) : Prop :=
  ∃ t : TimeDuration, s = String.ofList t.text ∧
    d * 10 ^ t.decimals.length = t.nanoseconds * 10 ^ t.decimals.length +
      TimeDuration.number t.decimals * Duration.second

section Denoting

open TimeDuration Duration

variable {s : String} {d : Int}

/-- Each duration has a text, in seconds with nine decimals. -/
theorem exists_denotesDuration (positive : 0 ≤ d) : ∃ s, DenotesDuration s d := by
  obtain ⟨n, rfl⟩ := Int.eq_ofNat_of_zero_le positive
  let tail := Nat.toDigits 10 (n % 10 ^ 9)
  have short : tail.length ≤ 9 :=
    (Nat.length_toDigits_le_iff (by decide) (by decide)).mpr (Nat.mod_lt _ (by decide))
  let t : TimeDuration := {
    seconds := Nat.toDigits 10 (n / 10 ^ 9)
    decimals := List.replicate (9 - tail.length) '0' ++ tail
    digits := by
      intro c mem
      simp only [List.nil_append, List.mem_append, List.mem_replicate] at mem
      rcases mem with mem | ⟨-, rfl⟩ | mem
      · exact Nat.isDigit_of_mem_toDigits (by decide) (by decide) mem
      · rfl
      · exact Nat.isDigit_of_mem_toDigits (by decide) (by decide) mem
    nonempty := by simp [Nat.toDigits_ne_nil]
    whole := fun none => absurd none Nat.toDigits_ne_nil }
  have nine : t.decimals.length = 9 := by
    simp only [t, List.length_append, List.length_replicate]
    omega
  have seconds : number t.seconds = n / 10 ^ 9 := Nat.ofDigitChars_ten_toDigits
  have whole : t.nanoseconds = n / 10 ^ 9 * second := by
    rw [nanoseconds, seconds]
    simp [t, number]
  have decimals : number t.decimals = n % 10 ^ 9 := by
    simp only [t, number, Nat.ofDigitChars_append, Nat.ofDigitChars_replicate_zero]
    exact Nat.ofDigitChars_ten_toDigits
  refine ⟨String.ofList t.text, t, rfl, ?_⟩
  rw [whole, decimals, nine]
  simp only [second, millisecond, microsecond]
  have split := Nat.div_add_mod n (10 ^ 9)
  omega

end Denoting

end OjsNats.Core
