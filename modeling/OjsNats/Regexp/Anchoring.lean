import OjsNats.Regexp.Parser

/-!
# Expressions between `^` and `$`

What becomes of an expression when a `^` is put before its text and a `$`
behind it.  The `^` goes to the first of its alternatives and the `$` to the
last, so the two anchor the whole expression only if it is a single alternative
with the flag `m` off at its end and no `\Q` left open.
-/

namespace OjsNats.Regexp

/-! ## A `^` before the expression -/

/-- The group with the beginning of the text before its first alternative. -/
def Group.anchored (g : Group) : Group :=
  match g.earlier with
  | [] => { g with items := g.items ++ [.assertion .beginText] }
  | first :: rest => { g with earlier := .concat (.assertion .beginText) first :: rest }

/-- The outermost of some groups anchored. -/
def anchorFrames : List Frame → List Frame
  | [] => []
  | [frame] => [{ frame with group := frame.group.anchored }]
  | frame :: next :: outer => frame :: anchorFrames (next :: outer)

def Parser.anchored (st : Parser) : Parser :=
  match st.outer with
  | [] => { st with group := st.group.anchored }
  | _ :: _ => { st with outer := anchorFrames st.outer }

theorem Group.push_append (g : Group) (xs ys : List Expr) :
    g.push (xs ++ ys) = (g.push xs).push ys := by
  simp only [Group.push, List.reverse_append, List.append_assoc]

theorem Group.anchored_push (g : Group) (items : List Expr) :
    (g.push items).anchored = g.anchored.push items := by
  obtain ⟨earlier, old⟩ := g
  cases earlier with
  | nil => simp only [Group.push, Group.anchored, List.append_assoc]
  | cons first rest => rfl

theorem Group.anchored_bar (g : Group) : g.bar.anchored = g.anchored.bar := by
  obtain ⟨earlier, items⟩ := g
  cases earlier with
  | nil =>
    simp only [Group.bar, Group.anchored, List.nil_append, sequence, List.foldl_append,
      List.foldl_cons, List.foldl_nil]
  | cons first rest => rfl

theorem Parser.anchored_push (st : Parser) (items : List Expr) :
    (st.push items).anchored = st.anchored.push items := by
  obtain ⟨flags, group, outer, repeated⟩ := st
  cases outer with
  | nil => simp only [Parser.push, Parser.anchored, Group.anchored_push]
  | cons frame outer => rfl

theorem Parser.anchored_flags (st : Parser) : st.anchored.flags = st.flags := by
  obtain ⟨flags, group, outer, repeated⟩ := st
  cases outer <;> rfl

theorem Parser.close_anchored {st st' : Parser} (same : st.close = some st') :
    st.anchored.close = some st'.anchored := by
  obtain ⟨flags, group, outer, repeated⟩ := st
  cases outer with
  | nil => cases same
  | cons frame outer =>
    cases same
    cases outer with
    | nil => simp only [Parser.anchored, anchorFrames, Parser.close, Group.anchored_push]
    | cons next outer => rfl

theorem Parser.repeatLast_anchored {st st' : Parser} {min : Nat} {max : Option Nat}
    (same : st.repeatLast min max = some st') :
    st.anchored.repeatLast min max = some st'.anchored := by
  obtain ⟨flags, ⟨earlier, items⟩, outer, repeated⟩ := st
  unfold repeatLast at same
  split at same
  · cases same
  rename_i unrepeated
  cases items with
  | nil => cases same
  | cons item items =>
    dsimp only at same
    split at same
    · rename_i allowed
      cases same
      cases outer with
      | nil => cases earlier <;> simp [repeatLast, anchored, Group.anchored, unrepeated, allowed]
      | cons frame outer => simp [repeatLast, anchored, unrepeated, allowed]
    · cases same

/-- The anchor stays where it is whatever token comes next. -/
theorem Parser.step_anchored {st st' : Parser} {t : Token} (same : st.step t = some st') :
    st.anchored.step t = some st'.anchored := by
  have pushes (items : List Expr) (same : some (st.push items) = some st') :
      some (st.anchored.push items) = some st'.anchored := by
    cases same
    rw [anchored_push]
  cases t with
  | bar =>
    cases same
    obtain ⟨flags, group, outer, repeated⟩ := st
    cases outer with
    | nil => simp only [step, anchored, Group.anchored_bar]
    | cons frame outer => rfl
  | opening settings =>
    cases same
    obtain ⟨flags, group, outer, repeated⟩ := st
    cases outer <;> rfl
  | setFlags settings =>
    cases same
    obtain ⟨flags, group, outer, repeated⟩ := st
    cases outer <;> rfl
  | closing => exact close_anchored same
  | repeated min max => exact repeatLast_anchored same
  | literal | quoted | charClass | dot | caret | dollar | assertion =>
    change some (st.anchored.push (Token.items st.anchored.flags _)) = some st'.anchored
    rw [anchored_flags]
    exact pushes _ same

theorem Parser.run_anchored {st st' : Parser} {ts : List Token} (same : st.run ts = some st') :
    st.anchored.run ts = some st'.anchored := by
  induction ts generalizing st with
  | nil =>
    cases same
    rfl
  | cons t ts ih =>
    obtain ⟨next, first, rest⟩ := Option.bind_eq_some_iff.mp same
    rw [run, step_anchored first]
    exact ih rest

/-! ## A `$` behind it -/

/-- What a `$` behind the expression stands for. -/
def Outline.dollar (o : Outline) : Expr :=
  if o.quoting then o.flags.literal '$'.toNat else o.flags.dollar

/-- The expression between `^` and `$`. -/
def Outline.anchored (o : Outline) : Outline :=
  { o with group := (o.group.push [o.dollar]).anchored }

theorem Lexed.outline_anchored {l : Lexed} {o : Outline} (same : l.outline = some o) :
    (l.dollar.cons .caret).outline = some o.anchored := by
  obtain ⟨ts, quotation⟩ := l
  obtain ⟨st, ran, ends⟩ := Option.bind_eq_some_iff.mp same
  split at ends
  swap
  · cases ends
  rename_i closed
  cases ends
  have stays : st.anchored = { st with group := st.group.anchored } := by
    obtain ⟨flags, group, outer, repeated⟩ := st
    cases closed
    rfl
  have ran' : ({} : Parser).run (.caret :: ts) = some { st with group := st.group.anchored } :=
    stays ▸ Parser.run_anchored ran
  cases quotation with
  | none =>
    have reached : ({} : Parser).run (.caret :: (ts ++ [.dollar])) =
        some (({ st with group := st.group.anchored } : Parser).push [st.flags.dollar]) := by
      rw [← List.cons_append, Parser.run_append, ran']
      rfl
    change (({} : Parser).run (.caret :: (ts ++ [.dollar]))).bind _ = _
    rw [reached, Option.bind_some]
    refine (if_pos closed).trans ?_
    simp only [Outline.anchored, Group.anchored_push]
    rfl
  | some body =>
    change (({} : Parser).run (.caret :: ts)).bind _ = _
    rw [ran', Option.bind_some]
    refine (if_pos closed).trans ?_
    simp only [Outline.anchored, Group.anchored_push, Lexed.cons, Lexed.dollar,
      Option.getD_some, List.map_append, Group.push_append]
    rfl

theorem outline_anchored {E : Engine} {pattern : List Char} {o : Outline}
    (same : outline E pattern = some o) :
    outline E ('^' :: (pattern ++ ['$'])) = some o.anchored := by
  obtain ⟨l, lexed, parsed⟩ := Option.bind_eq_some_iff.mp same
  rw [outline, lex_caret, lex_dollar lexed]
  exact Lexed.outline_anchored parsed

/-! ## What the alternatives match -/

section Matching

variable {E : Engine} {text : List Char} {i j : Nat}

theorem spans_foldr_alternate {es : List Expr} {last : Expr} :
    Spans E text (es.foldr .alternate last) i j ↔
      (∃ e ∈ es, Spans E text e i j) ∨ Spans E text last i j := by
  induction es with
  | nil => simp only [List.foldr_nil, List.not_mem_nil, false_and, exists_false, false_or]
  | cons e es ih =>
    simp only [List.foldr_cons, Spans, ih, List.mem_cons, exists_eq_or_imp, or_assoc]

theorem spans_foldl_concat (items : List Expr) (later : Expr) :
    Spans E text (items.foldl (fun later item => .concat item later) later) i j ↔
      ∃ k, Spans E text (sequence items) i k ∧ Spans E text later k j := by
  induction items generalizing later j with
  | nil =>
    constructor
    · exact fun spans => ⟨i, rfl, spans⟩
    · rintro ⟨k, same, spans⟩
      have same : k = i := same
      exact same ▸ spans
  | cons item items ih =>
    have unfolded : sequence (item :: items) =
        items.foldl (fun later item => .concat item later) (.concat item .emptyMatch) := rfl
    rw [List.foldl_cons, ih, unfolded]
    constructor
    · rintro ⟨k, first, m, second, rest⟩
      exact ⟨m, (ih (.concat item .emptyMatch)).mpr ⟨k, first, m, second, rfl⟩, rest⟩
    · rintro ⟨m, front, rest⟩
      obtain ⟨k, first, n, second, same⟩ := (ih (.concat item .emptyMatch)).mp front
      have same : m = n := same
      exact ⟨k, first, n, second, same ▸ rest⟩

theorem spans_sequence_cons {item : Expr} {items : List Expr} :
    Spans E text (sequence (item :: items)) i j ↔
      ∃ k, Spans E text (sequence items) i k ∧ Spans E text item k j := by
  rw [sequence, List.foldl_cons, spans_foldl_concat]
  constructor
  · rintro ⟨k, front, m, back, same⟩
    have same : j = m := same
    exact ⟨k, front, same ▸ back⟩
  · rintro ⟨k, front, back⟩
    exact ⟨k, front, j, back, rfl⟩

theorem spans_beginText {e : Expr} :
    Spans E text (.concat (.assertion .beginText) e) i j ↔ i = 0 ∧ Spans E text e i j := by
  constructor
  · rintro ⟨k, ⟨same, begins⟩, spans⟩
    exact ⟨of_decide_eq_true begins, same ▸ spans⟩
  · rintro ⟨begins, spans⟩
    exact ⟨i, ⟨rfl, decide_eq_true begins⟩, spans⟩

theorem sequence_beginText (items : List Expr) :
    sequence (items ++ [.assertion .beginText]) =
      .concat (.assertion .beginText) (sequence items) := by
  simp only [sequence, List.foldl_append, List.foldl_cons, List.foldl_nil]

/-! ## What an anchored expression matches -/

namespace Outline

variable (E text) in
/-- A `$` behind the expression matches at this place. -/
def StopsAt (o : Outline) (k : Nat) : Prop := ∃ j, Spans E text o.dollar k j

/-- The alternative that stands last. -/
def last (o : Outline) : Expr := sequence o.group.items

variable (E text) in
/-- The text begins with something of the first alternative, has something of
one in the middle, or has something of the last before the place of the `$`; a
single alternative is both first and last. -/
def FoundIn (o : Outline) : Prop :=
  match o.group.earlier with
  | [] => ∃ k, Spans E text o.last 0 k ∧ o.StopsAt E text k
  | first :: middle =>
      (∃ j, Spans E text first 0 j) ∨ (∃ e ∈ middle, Contains E text e) ∨
        ∃ i ≤ text.length, ∃ k, Spans E text o.last i k ∧ o.StopsAt E text k

/-- One alternative, the flag `m` off at its end, and no quotation open there. -/
structure Straight (o : Outline) : Prop where
  single : o.group.earlier = []
  singleLine : o.flags.multiLine = false
  unquoted : o.quoting = false

variable {o : Outline}

/-- What an expression between `^` and `$` matches. -/
theorem contains_anchored : Contains E text o.anchored.expr ↔ o.FoundIn E text := by
  obtain ⟨⟨earlier, items⟩, flags, quoting⟩ := o
  cases earlier with
  | nil =>
    have shape : Outline.expr (Outline.anchored ⟨⟨[], items⟩, flags, quoting⟩) =
        .concat (.assertion .beginText) (sequence
          (Outline.dollar ⟨⟨[], items⟩, flags, quoting⟩ :: items)) := sequence_beginText _
    simp only [Contains, shape, spans_beginText, spans_sequence_cons]
    constructor
    · rintro ⟨i, -, j, rfl, k, front, stops⟩
      exact ⟨k, front, j, stops⟩
    · rintro ⟨k, front, j, stops⟩
      exact ⟨0, Nat.zero_le _, j, rfl, k, front, stops⟩
  | cons first middle =>
    have shape : Outline.expr (Outline.anchored ⟨⟨first :: middle, items⟩, flags, quoting⟩) =
        (Expr.concat (.assertion .beginText) first :: middle).foldr .alternate (sequence
          (Outline.dollar ⟨⟨first :: middle, items⟩, flags, quoting⟩ :: items)) := rfl
    simp only [Contains, shape, spans_foldr_alternate, List.mem_cons, exists_eq_or_imp,
      spans_beginText, spans_sequence_cons]
    constructor
    · rintro ⟨i, inside, j, (⟨rfl, front⟩ | ⟨e, mem, within⟩) | ⟨k, back, stops⟩⟩
      · exact .inl ⟨j, front⟩
      · exact .inr (.inl ⟨e, mem, i, inside, j, within⟩)
      · exact .inr (.inr ⟨i, inside, k, back, j, stops⟩)
    · rintro (⟨j, front⟩ | ⟨e, mem, i, inside, j, within⟩ | ⟨i, inside, k, back, j, stops⟩)
      · exact ⟨0, Nat.zero_le _, j, .inl (.inl ⟨rfl, front⟩)⟩
      · exact ⟨i, inside, j, .inl (.inr ⟨e, mem, within⟩)⟩
      · exact ⟨i, inside, j, .inr ⟨k, back, stops⟩⟩

theorem covers_iff : Covers E text o.expr ↔
    (∃ e ∈ o.group.earlier, Spans E text e 0 text.length) ∨ Spans E text o.last 0 text.length :=
  spans_foldr_alternate

/-- Outside of a quotation a `$` matches at the end of the text. -/
theorem stopsAt_length (unquoted : o.quoting = false) : o.StopsAt E text text.length := by
  refine ⟨text.length, ?_⟩
  rw [dollar, unquoted, if_neg Bool.false_ne_true, Flags.dollar]
  split
  · exact ⟨rfl, by simp only [Assertion.holds, decide_true, Bool.true_or]⟩
  · exact ⟨rfl, decide_eq_true rfl⟩

/-- Where no quotation is open, a text that matches as a whole is found. -/
theorem foundIn_of_covers (unquoted : o.quoting = false) (covers : Covers E text o.expr) :
    o.FoundIn E text := by
  have stops : o.StopsAt E text text.length := stopsAt_length unquoted
  unfold FoundIn
  cases covers_iff.mp covers with
  | inl whole =>
    obtain ⟨e, mem, spans⟩ := whole
    split
    · rename_i none
      rw [none] at mem
      cases mem
    · rename_i first middle alternatives
      rw [alternatives] at mem
      cases mem with
      | head => exact .inl ⟨_, spans⟩
      | tail _ mem => exact .inr (.inl ⟨e, mem, 0, Nat.zero_le _, _, spans⟩)
  | inr whole =>
    split
    · exact ⟨_, whole, stops⟩
    · exact .inr (.inr ⟨0, Nat.zero_le _, _, whole, stops⟩)

/-- Anchors around a straight expression hold it to the whole text. -/
theorem Straight.foundIn_iff (straight : o.Straight) :
    o.FoundIn E text ↔ Covers E text o.expr := by
  refine ⟨fun found => ?_, foundIn_of_covers straight.unquoted⟩
  unfold FoundIn at found
  rw [straight.single] at found
  obtain ⟨k, spans, j, stops⟩ := found
  rw [dollar, straight.unquoted, if_neg Bool.false_ne_true, Flags.dollar, straight.singleLine,
    if_neg Bool.false_ne_true] at stops
  have ends : k = text.length := of_decide_eq_true stops.2
  exact covers_iff.mpr (.inr (ends ▸ spans))

end Outline

end Matching

end OjsNats.Regexp
