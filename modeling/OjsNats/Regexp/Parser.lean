import OjsNats.Regexp.Lexer

/-!
# The parser

`regexp/syntax.parse` as a machine over the tokens: the group being read, the
groups around it with the flags that come back when they close, and whether the
last token was a repetition.
-/

namespace OjsNats.Regexp

/-- The flags that change what an expression matches. -/
structure Flags where
  foldCase : Bool := false
  multiLine : Bool := false
  dotNL : Bool := false
  deriving DecidableEq, Repr

def Flags.set (flags : Flags) : Flag × Bool → Flags
  | (.foldCase, on) => { flags with foldCase := on }
  | (.multiLine, on) => { flags with multiLine := on }
  | (.dotNL, on) => { flags with dotNL := on }
  | (.nonGreedy, _) => flags

def Flags.setAll (flags : Flags) (settings : List (Flag × Bool)) : Flags :=
  settings.foldl Flags.set flags

/-! ## Groups -/

/-- A group as far as it has been read: its finished alternatives, and the items
of the alternative being read, the last one first. -/
structure Group where
  earlier : List Expr := []
  items : List Expr := []
  deriving DecidableEq, Repr

/-- `parser.concat`, of items with the last one first. -/
def sequence (items : List Expr) : Expr :=
  items.foldl (fun later item => .concat item later) .emptyMatch

/-- `parser.alternate` -/
def Group.expr (g : Group) : Expr := g.earlier.foldr .alternate (sequence g.items)

/-- `parser.parseVerticalBar` -/
def Group.bar (g : Group) : Group := { earlier := g.earlier ++ [sequence g.items] }

/-- The group after some more items. -/
def Group.push (g : Group) (items : List Expr) : Group :=
  { g with items := items.reverse ++ g.items }

/-- A group that is waiting for one inside it to close. -/
structure Frame where
  group : Group
  flags : Flags
  deriving DecidableEq, Repr

structure Parser where
  flags : Flags := {}
  group : Group := {}
  outer : List Frame := []
  repeated : Bool := false
  deriving DecidableEq, Repr

/-- `repeatIsValid` -/
def repeatIsValid : Expr → Nat → Bool
  | .repeated sub min max, n =>
      let m := max.getD min
      if max = some 0 then true
      else if n < m then false
      else repeatIsValid sub (if 0 < m then n / m else n)
  | .concat first second, n => repeatIsValid first n && repeatIsValid second n
  | .alternate first second, n => repeatIsValid first n && repeatIsValid second n
  | _, _ => true

/-- Whether an item may be repeated so: only bounds from two on are checked. -/
def mayRepeat (item : Expr) (min : Nat) (max : Option Nat) : Bool :=
  !(decide (2 ≤ min) || max.any fun m => decide (2 ≤ m)) ||
    repeatIsValid (.repeated item min max) maxRepeat

def Flags.literal (flags : Flags) (code : Nat) : Expr := .single (.literal flags.foldCase code)

/-- What `$` stands for. -/
def Flags.dollar (flags : Flags) : Expr :=
  if flags.multiLine then .assertion .endLine else .assertion .endText

/-- The items a token adds to the alternative. -/
def Token.items (flags : Flags) : Token → List Expr
  | .literal code => [flags.literal code]
  | .quoted cs => cs.map fun c => flags.literal c.toNat
  | .charClass negated items => [.single (.charClass flags.foldCase negated items)]
  | .dot => [.single (if flags.dotNL then .anyChar else .anyCharNotNL)]
  | .caret => [.assertion (if flags.multiLine then .beginLine else .beginText)]
  | .dollar => [flags.dollar]
  | .assertion a => [.assertion a]
  | _ => []

namespace Parser

def push (st : Parser) (items : List Expr) : Parser :=
  { st with group := st.group.push items, repeated := false }

/-- `parser.repeat` -/
def repeatLast (st : Parser) (min : Nat) (max : Option Nat) : Option Parser :=
  if st.repeated then
    none
  else
    match st.group.items with
    | [] => none
    | item :: items =>
        if mayRepeat item min max then
          some { st with
            group := { st.group with items := .repeated item min max :: items }
            repeated := true }
        else
          none

/-- `parser.parseRightParen` -/
def close (st : Parser) : Option Parser :=
  match st.outer with
  | [] => none
  | frame :: outer =>
      some { flags := frame.flags, group := frame.group.push [st.group.expr], outer := outer }

def step (st : Parser) : Token → Option Parser
  | .bar => some { st with group := st.group.bar, repeated := false }
  | .opening settings =>
      some { flags := st.flags.setAll settings, outer := ⟨st.group, st.flags⟩ :: st.outer }
  | .setFlags settings => some { st with flags := st.flags.setAll settings, repeated := false }
  | .closing => st.close
  | .repeated min max => st.repeatLast min max
  | t => some (st.push (t.items st.flags))

/-- The parser after some tokens. -/
def run (st : Parser) : List Token → Option Parser
  | [] => some st
  | t :: ts => (st.step t).bind fun st => st.run ts

theorem run_append (st : Parser) (ts us : List Token) :
    st.run (ts ++ us) = (st.run ts).bind fun st => st.run us := by
  induction ts generalizing st with
  | nil => rfl
  | cons t ts ih =>
    rw [List.cons_append, run, run, Option.bind_assoc]
    exact Option.bind_congr fun next _ => ih next

end Parser

/-! ## Expressions -/

/-- An expression as the parser leaves it: its alternatives, the flags at its
end, and whether a `\Q` is still open there. -/
structure Outline where
  group : Group
  flags : Flags
  quoting : Bool
  deriving DecidableEq, Repr

/-- What the parser makes of the tokens. -/
def Lexed.outline (l : Lexed) : Option Outline :=
  (({} : Parser).run l.tokens).bind fun st =>
    if st.outer = [] then
      some {
        group := st.group.push ((l.quotation.getD []).map fun c => st.flags.literal c.toNat)
        flags := st.flags
        quoting := l.quotation.isSome }
    else
      none

def outline (E : Engine) (pattern : List Char) : Option Outline :=
  (lex E pattern).bind Lexed.outline

def Outline.expr (o : Outline) : Expr := o.group.expr

/-- `regexp/syntax.Parse` -/
def parse (E : Engine) (pattern : String) : Option Expr :=
  (outline E pattern.toList).map Outline.expr

/-- `regexp.Compile`, as the match test of the compiled expression. -/
def compile (E : Engine) (pattern : String) : Option (String → Bool) :=
  if E.oversize pattern then none else (parse E pattern).map (matchString E)

end OjsNats.Regexp
