import OjsNats.Regexp.Reading
import OjsNats.Regexp.Syntax

/-!
# The tokens of a regular expression

The Perl syntax that `regexp.Compile` accepts, cut into tokens: literals,
escapes, bracket expressions, flags and repetitions.  What a token means where
it stands is left to the parser.
-/

namespace OjsNats.Regexp

inductive Flag where
  | foldCase
  | multiLine
  | dotNL
  | nonGreedy
  deriving DecidableEq, Repr

inductive Token where
  | literal (code : Nat)
  /-- `\Q…\E` -/
  | quoted (codes : List Char)
  | charClass (negated : Bool) (items : List ClassItem)
  | dot
  | caret
  | dollar
  | assertion (a : Assertion)
  | bar
  /-- A group begins, with the flags set in it. -/
  | opening (settings : List (Flag × Bool))
  | setFlags (settings : List (Flag × Bool))
  | closing
  | repeated (min : Nat) (max : Option Nat)
  deriving DecidableEq, Repr

open Reader

/-! ## Numbers -/

/-- `unhex` -/
def unhex (c : Char) : Option Nat :=
  if '0' ≤ c ∧ c ≤ '9' then some (c.toNat - '0'.toNat)
  else if 'a' ≤ c ∧ c ≤ 'f' then some (c.toNat - 'a'.toNat + 10)
  else if 'A' ≤ c ∧ c ≤ 'F' then some (c.toNat - 'A'.toNat + 10)
  else none

/-- The number some digits stand for after those read already, if they are digits of
the base. -/
def numberFrom (base : Nat) : Nat → List Char → Option Nat
  | n, [] => some n
  | n, c :: cs =>
      match unhex c with
      | some d => if d < base then numberFrom base (base * n + d) cs else none
      | none => none

def number (base : Nat) (digits : List Char) : Option Nat := numberFrom base 0 digits

def maxRune : Nat := 0x10FFFF

/-- The code point some digits stand for. -/
def codeOf (base : Nat) (digits : List Char) : Reader Nat :=
  match number base digits with
  | some n => if digits = [] ∨ maxRune < n then fail else return n
  | none => fail

/-- What stands behind `\x`. -/
def hexEscape : Reader Nat := do
  let c ← item
  if c = '{' then
    let digits ← through ['}']
    codeOf 16 digits
  else
    let d ← item
    codeOf 16 [c, d]

def isOctal (c : Char) : Bool := decide ('0' ≤ c ∧ c ≤ '7')

/-- A backslash and an octal digit have been read. -/
def octalEscape (c : Char) : Reader Nat := do
  match ← optional isOctal with
  -- a single digit other than 0 would be a backreference
  | none => if c = '0' then return 0 else fail
  | some d =>
      let e ← optional isOctal
      codeOf 8 (c :: d :: e.toList)

/-- `parser.parseInt` -/
def parseInt : Reader Nat := do
  let digits ← run Char.isDigit
  if digits = [] ∨ (digits.head? = some '0' ∧ 1 < digits.length) then
    fail
  else
    return (number 10 digits).getD 0

/-- What stands behind the opening brace of a repetition. -/
def bounds : Reader (Nat × Option Nat) := do
  let min ← parseInt
  if ← skip ',' then
    if ← skip '}' then
      return (min, none)
    else do
      let max ← parseInt
      expect '}'
      return (min, some max)
  else do
    expect '}'
    return (min, some min)

theorem settled_parseInt : Settled parseInt := by
  refine settled_run.bind fun digits => settled_ite (fun _ => settled_fail) fun _ => ?_
  exact settled_pure _

theorem settled_bounds : Settled bounds := by
  refine settled_parseInt.bind fun min => settled_skip.bind fun comma => ?_
  refine settled_ite (fun _ => settled_skip.bind fun close => ?_) fun _ => ?_
  · refine settled_ite (fun _ => settled_pure _) fun _ => ?_
    exact settled_parseInt.bind fun max => settled_expect.bind fun _ => settled_pure _
  · exact settled_expect.bind fun _ => settled_pure _

/-! ## Classes -/

def perlDigit : List (Nat × Nat) := [(0x30, 0x39)]

def perlSpace : List (Nat × Nat) := [(0x9, 0xa), (0xc, 0xd), (0x20, 0x20)]

def perlWord : List (Nat × Nat) := [(0x30, 0x39), (0x41, 0x5a), (0x5f, 0x5f), (0x61, 0x7a)]

/-- `posixGroup`, by the name between the colons. -/
def posixGroup : List (List Char × List (Nat × Nat)) :=
  [("alnum".toList, [(0x30, 0x39), (0x41, 0x5a), (0x61, 0x7a)]),
    ("alpha".toList, [(0x41, 0x5a), (0x61, 0x7a)]),
    ("ascii".toList, [(0x0, 0x7f)]),
    ("blank".toList, [(0x9, 0x9), (0x20, 0x20)]),
    ("cntrl".toList, [(0x0, 0x1f), (0x7f, 0x7f)]),
    ("digit".toList, [(0x30, 0x39)]),
    ("graph".toList, [(0x21, 0x7e)]),
    ("lower".toList, [(0x61, 0x7a)]),
    ("print".toList, [(0x20, 0x7e)]),
    ("punct".toList, [(0x21, 0x2f), (0x3a, 0x40), (0x5b, 0x60), (0x7b, 0x7e)]),
    ("space".toList, [(0x9, 0xd), (0x20, 0x20)]),
    ("upper".toList, [(0x41, 0x5a)]),
    ("word".toList, perlWord),
    ("xdigit".toList, [(0x30, 0x39), (0x41, 0x46), (0x61, 0x66)])]

/-- Whether a name begins with `^`, and the rest of it. -/
def negation : List Char → Bool × List Char
  | [] => (false, [])
  | c :: cs => if c = '^' then (true, cs) else (false, c :: cs)

/-- The class of a name between `[:` and `:]`. -/
def posixClass (name : List Char) : Reader ClassItem :=
  match posixGroup.lookup (negation name).2 with
  | some rs => return .ranges (negation name).1 rs
  | none => fail

/-- `parser.parseNamedClass` -/
def posixName : Reader (List Char) := do
  expect '['
  expect ':'
  through [':', ']']

theorem settled_posixName : Settled posixName :=
  settled_expect.bind fun _ => settled_expect.bind fun _ => settled_through

section Unicode

variable (E : Engine)

/-- The name of a Unicode class that begins with a character. -/
def className (c : Char) : Reader (List Char) := if c = '{' then through ['}'] else return [c]

/-- `parser.parseUnicodeClass` behind `\p` or `\P`. -/
def unicodeClass (negated : Bool) : Reader ClassItem := do
  let c ← item
  let name ← className c
  if (E.table (negation name).2).isSome then
    return .table (negated != (negation name).1) (negation name).2
  else
    fail

/-- What an escape stands for. -/
inductive Escaped where
  | code (n : Nat)
  | item (it : ClassItem)

/-- What stands behind a backslash, in and outside of brackets. -/
def escape : Reader Escaped := do
  let c ← item
  match c with
  | 'p' => return .item (← unicodeClass E false)
  | 'P' => return .item (← unicodeClass E true)
  | 'd' => return .item (.ranges false perlDigit)
  | 'D' => return .item (.ranges true perlDigit)
  | 's' => return .item (.ranges false perlSpace)
  | 'S' => return .item (.ranges true perlSpace)
  | 'w' => return .item (.ranges false perlWord)
  | 'W' => return .item (.ranges true perlWord)
  | 'x' => return .code (← hexEscape)
  | 'a' => return .code 7
  | 'f' => return .code 12
  | 'n' => return .code 10
  | 'r' => return .code 13
  | 't' => return .code 9
  | 'v' => return .code 11
  | c =>
      if isOctal c then
        return .code (← octalEscape c)
      else if c.toNat < 0x80 ∧ ¬ c.isAlphanum then
        return .code c.toNat
      else
        fail

/-- `parser.parseClassChar` -/
def classChar : Reader Nat := do
  let c ← item
  if c = '\\' then
    match ← escape E with
    | .code n => return n
    | .item _ => fail
  else
    return c.toNat

/-- The range that begins with a code point. -/
def classRange (lo : Nat) : Reader ClassItem := do
  if ← skipUnless '-' ']' then
    let hi ← classChar E
    if hi < lo then fail else return .ranges false [(lo, hi)]
  else
    return .ranges false [(lo, lo)]

/-- One turn of the loop of `parser.parseClass`. -/
def classItem : Reader ClassItem := do
  match ← attempt posixName settled_posixName with
  | some name => posixClass name
  | none =>
      let c ← item
      if c = '\\' then
        match ← escape E with
        | .code lo => classRange E lo
        | .item it => return it
      else
        classRange E c.toNat

/-- `parser.parseClass` behind the bracket. -/
def bracket : Reader Token := do
  let negated ← skip '^'
  -- a bracket that closes is a member where it comes first
  let first ← classItem E
  let others ← untilClose ']' (classItem E)
  return .charClass negated (first :: others)

theorem strict_posixName : Strict posixName := strict_expect.bind _

theorem strict_classItem : Strict (classItem E) :=
  strict_attempt strict_posixName (strict_item.bind _)

/-- Each member takes at least one character, so the turns do not run out. -/
theorem untilClose_classItem {n : Nat} {cs : List Char} (enough : cs.length ≤ n) :
    (untilClose ']' (classItem E)).read cs = untilLoop ']' (classItem E) n cs :=
  (untilLoop_enough (strict_classItem E) le_rfl enough).symm

end Unicode

/-! ## Groups and flags -/

def flagOf : Char → Option Flag
  | 'i' => some .foldCase
  | 'm' => some .multiLine
  | 's' => some .dotNL
  | 'U' => some .nonGreedy
  | _ => none

/-- The flags some letters set, given whether they switch on and whether some
flag has been seen since. -/
def settingsOf : Bool → Bool → List Char → Option (List (Flag × Bool))
  | on, seen, [] => if on ∨ seen then some [] else none
  | on, _, c :: cs =>
      if c = '-' then
        if on then settingsOf false false cs else none
      else
        (flagOf c).bind fun flag => (settingsOf on true cs).map ((flag, on) :: ·)

def isFlagLetter (c : Char) : Bool := decide (c = '-') || (flagOf c).isSome

/-- The rest of a named group. -/
def namedGroup : Reader Token := do
  let name ← through ['>']
  if name ≠ [] ∧ name.all isWordChar then return .opening [] else fail

def flagGroup : Reader Token := do
  let letters ← run isFlagLetter
  let c ← item
  match settingsOf true false letters with
  | none => fail
  | some settings =>
      if c = ':' then return .opening settings
      else if c = ')' then return .setFlags settings
      else fail

/-- `parser.parsePerlFlags` behind `(?`. -/
def perlGroup : Reader Token := do
  match ← optional fun c => decide (c = 'P' ∨ c = '<') with
  | none => flagGroup
  | some 'P' => do
      expect '<'
      namedGroup
  | some _ => namedGroup

/-! ## Tokens -/

/-- The most repetitions that may be asked for. -/
def maxRepeat : Nat := 1000

/-- A repetition, with the `?` that makes it lazy. -/
def repetition (min : Nat) (max : Option Nat) : Reader Token := do
  let _ ← skip '?'
  return .repeated min max

/-- What stands behind an opening brace; it is a literal where no bounds follow. -/
def counted : Reader Token := do
  match ← attempt bounds settled_bounds with
  | none => return .literal '{'.toNat
  | some (min, max) =>
      if maxRepeat < min ∨ ∃ m ∈ max, maxRepeat < m ∨ m < min then
        fail
      else
        repetition min max

section Tokens

variable (E : Engine)

/-- An escape outside of brackets, behind the backslash and the character `c`. -/
def outerEscape : Reader Token := do
  match ← optional fun c => decide (c = 'A' ∨ c = 'b' ∨ c = 'B' ∨ c = 'C' ∨ c = 'z') with
  | some 'A' => return .assertion .beginText
  | some 'b' => return .assertion .wordBoundary
  | some 'B' => return .assertion .noWordBoundary
  | some 'z' => return .assertion .endText
  | some _ => fail
  | none =>
      match ← escape E with
      | .code n => return .literal n
      | .item it => return .charClass false [it]

/-- One turn of the loop of `regexp/syntax.parse`, but for `\Q`. -/
def token : Reader Token := do
  let c ← item
  match c with
  | '(' => if ← skip '?' then perlGroup else return .opening []
  | ')' => return .closing
  | '|' => return .bar
  | '^' => return .caret
  | '$' => return .dollar
  | '.' => return .dot
  | '[' => bracket E
  | '*' => repetition 0 none
  | '+' => repetition 1 none
  | '?' => repetition 0 (some 1)
  | '{' => counted
  | '\\' => outerEscape E
  | c => return .literal c.toNat

theorem strict_token : Strict (token E) := strict_item.bind _

/-- The tokens of an expression, and the text behind a `\Q` that no `\E` ends. -/
structure Lexed where
  tokens : List Token
  quotation : Option (List Char)
  deriving DecidableEq, Repr

def Lexed.cons (t : Token) (l : Lexed) : Lexed := { l with tokens := t :: l.tokens }

/-- The text behind a `\Q` at the front. -/
def quotationOf (cs : List Char) : Option (List Char) :=
  if List.isPrefixOf ['\\', 'Q'] cs then some (cs.drop 2) else none

def lexLoop : Nat → List Char → Option Lexed
  | _, [] => some ⟨[], none⟩
  | 0, _ :: _ => none
  | n + 1, c :: cs =>
      match quotationOf (c :: cs) with
      | some body =>
          match cut ['\\', 'E'] body with
          | none => some ⟨[], some body⟩
          | some (codes, rest) => (lexLoop n rest).map (.cons (.quoted codes))
      | none =>
          (token E).read (c :: cs) |>.bind fun found => (lexLoop n found.2).map (.cons found.1)

def lex (pattern : List Char) : Option Lexed := lexLoop E pattern.length pattern

/-! ## Anchors around an expression -/

/-- The tokens with a `$` behind them, which an open quotation takes in. -/
def Lexed.dollar (l : Lexed) : Lexed :=
  match l.quotation with
  | none => { l with tokens := l.tokens ++ [.dollar] }
  | some body => { l with quotation := some (body ++ ['$']) }

theorem Lexed.dollar_cons (t : Token) (l : Lexed) : (l.cons t).dollar = l.dollar.cons t := by
  unfold Lexed.dollar Lexed.cons
  cases l.quotation <;> rfl

theorem quotationOf_dollar (cs : List Char) :
    quotationOf (cs ++ ['$']) = (quotationOf cs).map (· ++ ['$']) := by
  rw [quotationOf, quotationOf, isPrefixOf_dollar (by decide)]
  split
  · rename_i inside
    have fits : 2 ≤ cs.length := (List.isPrefixOf_iff_prefix.mp inside).length_le
    rw [List.drop_append_of_le_length fits]
    rfl
  · rfl

theorem quotationOf_length {cs body : List Char} (opens : quotationOf cs = some body) :
    body.length < cs.length := by
  unfold quotationOf at opens
  split at opens
  · rename_i inside
    have fits : 2 ≤ cs.length := (List.isPrefixOf_iff_prefix.mp inside).length_le
    cases opens
    rw [List.length_drop]
    omega
  · cases opens

variable {E : Engine}

/-- Each turn takes at least one character, so the turns do not run out. -/
theorem lexLoop_enough {n m : Nat} {cs : List Char} (enough : cs.length ≤ n) (more : n ≤ m) :
    lexLoop E m cs = lexLoop E n cs := by
  induction n generalizing m cs with
  | zero =>
    rw [List.length_eq_zero_iff.mp (Nat.le_zero.mp enough)]
    cases m <;> rfl
  | succ n ih =>
    obtain ⟨m, rfl⟩ : ∃ k, m = k + 1 := ⟨m - 1, by omega⟩
    cases cs with
    | nil => rfl
    | cons c cs =>
      rw [lexLoop, lexLoop]
      cases opens : quotationOf (c :: cs) with
      | some body =>
        have shorter := quotationOf_length opens
        cases found : cut ['\\', 'E'] body with
        | none => simp only [found]
        | some pair =>
          have left : pair.2.length ≤ body.length := cut_length found
          simp only [found]
          rw [ih (by omega) (by omega)]
      | none =>
        cases found : (token E).read (c :: cs) with
        | none => rfl
        | some pair =>
          have fewer := strict_token E found
          simp only [Option.bind_some]
          rw [ih (by omega) (by omega)]

theorem lexLoop_dollar {n : Nat} {cs : List Char} {l : Lexed} (same : lexLoop E n cs = some l) :
    lexLoop E (n + 1) (cs ++ ['$']) = some l.dollar := by
  induction n generalizing cs l with
  | zero =>
    cases cs with
    | nil =>
      cases same
      rfl
    | cons c cs => cases same
  | succ n ih =>
    cases cs with
    | nil =>
      cases same
      rfl
    | cons c cs =>
      rw [lexLoop] at same
      rw [List.cons_append, lexLoop, ← List.cons_append, quotationOf_dollar]
      cases opens : quotationOf (c :: cs) with
      | some body =>
        simp only [opens] at same
        simp only [Option.map_some]
        rw [cut_dollar (by decide) (by decide)]
        cases found : cut ['\\', 'E'] body with
        | none =>
          simp only [found] at same
          cases same
          rfl
        | some pair =>
          simp only [found] at same
          obtain ⟨later, rest, rfl⟩ := Option.map_eq_some_iff.mp same
          simp only [Option.map_some]
          rw [ih rest, Lexed.dollar_cons]
          rfl
      | none =>
        rw [opens] at same
        obtain ⟨⟨t, left⟩, first, others⟩ := Option.bind_eq_some_iff.mp same
        obtain ⟨later, rest, rfl⟩ := Option.map_eq_some_iff.mp others
        simp only [Option.map_none]
        rw [(token E).steady first, Option.bind_some, ih rest, Lexed.dollar_cons]
        rfl

theorem lex_dollar {pattern : List Char} {l : Lexed} (same : lex E pattern = some l) :
    lex E (pattern ++ ['$']) = some l.dollar := by
  rw [lex, List.length_append]
  exact lexLoop_dollar same

theorem lex_caret (pattern : List Char) :
    lex E ('^' :: pattern) = (lex E pattern).map (.cons .caret) := rfl

end Tokens

end OjsNats.Regexp
