import OjsNats.Core.Sample
import OjsNats.Lifecycle.System
import OjsNats.Regexp.Anchoring

/-!
# Patterns of errors that are not retried

`matchesPattern` puts `^` and `$` around a pattern.  What that makes of a
pattern is read off the expression it stands for; the cache changes nothing.
-/

namespace OjsNats.Lifecycle

open Core Nats Effect Semantics Program Regexp

variable (lib : Externals)

/-! ## The cache -/

/-- Every cached expression is what `regexp.Compile` makes of its key. -/
def CacheFaithful (w : World) : Prop :=
  ∀ key re, w.regexCache key = some re → lib.compileRegexp key = some re

/-- The worlds of a server whose patterns were only ever compiled by
`matchesPattern`, whatever it was called with. -/
inductive Warmed : World → Prop where
  | cold {w : World} : w.regexCache = (fun _ => none) → Warmed w
  | matched {w t : World} {s pattern : String} {found : Bool} : Warmed w →
      serves.Exec (matchesPattern lib s pattern) w found t → Warmed t
  | elsewhere {w t : World} : Warmed w → t.regexCache = w.regexCache → Warmed t

/-- What `matchesPattern` answers with an empty cache. -/
def judged (s pattern : String) : Bool :=
  match lib.compileRegexp ("^" ++ pattern ++ "$") with
  | none => s == pattern
  | some re => re s

variable {lib} {w : World}

/-- A cached expression judges like a compiled one. -/
theorem wp_matchesPattern {s pattern : String} (faithful : CacheFaithful lib w) :
    serves.wp (matchesPattern lib s pattern)
      (fun found t => found = judged lib s pattern ∧ CacheFaithful lib t) w := by
  simp only [matchesPattern, bind_eq, wp_bind, wp_ask]
  rintro cached t ⟨rfl, rfl⟩
  cases hit : t.regexCache ("^" ++ pattern ++ "$") with
  | some re =>
    refine wp_pure.mpr ⟨?_, faithful⟩
    rw [judged, faithful _ re hit]
  | none =>
    cases compiled : lib.compileRegexp ("^" ++ pattern ++ "$") with
    | none =>
      refine wp_pure.mpr ⟨?_, faithful⟩
      rw [judged, compiled]
    | some re =>
      simp only [wp_bind, wp_ask]
      rintro - t' rfl
      refine wp_pure.mpr ⟨?_, fun key re' found => ?_⟩
      · rw [judged, compiled]
      · have found : Function.update t.regexCache ("^" ++ pattern ++ "$") (some re) key =
            some re' := found
        by_cases same : key = "^" ++ pattern ++ "$"
        · rw [same, Function.update_self] at found
          rw [same, compiled, found]
        · rw [Function.update_of_ne same] at found
          exact faithful key re' found

theorem Warmed.faithful (warmed : Warmed lib w) : CacheFaithful lib w := by
  induction warmed with
  | cold empty =>
    intro key re found
    rw [empty] at found
    cases found
  | matched before run ih => exact (wp_matchesPattern ih _ _ run).2
  | elsewhere before same ih =>
    intro key re found
    exact ih key re (same ▸ found)

/-- Nothing that was matched before changes an answer. -/
theorem exec_matchesPattern (warmed : Warmed lib w) {s pattern : String} {found : Bool} :
    (∃ t, serves.Exec (matchesPattern lib s pattern) w found t) ↔ found = judged lib s pattern := by
  constructor
  · rintro ⟨t, run⟩
    exact (wp_matchesPattern warmed.faithful _ _ run).1
  · rintro rfl
    obtain ⟨found, t, run⟩ := exists_exec serves_answers (matchesPattern lib s pattern) w
    exact ⟨t, (wp_matchesPattern warmed.faithful _ _ run).1 ▸ run⟩

/-- The text of an error that patterns are matched with beside its message. -/
def kindOf (jobErr : JobError) : String :=
  if jobErr.type ≠ "" then jobErr.type else jobErr.code

theorem wp_matchesAny {jobErr : JobError} {patterns : List String}
    (faithful : CacheFaithful lib w) :
    serves.wp (matchesAny lib jobErr patterns)
      (fun found _ => found = true ↔ ∃ pattern ∈ patterns,
        judged lib (kindOf jobErr) pattern = true ∨ judged lib jobErr.message pattern = true)
      w := by
  induction patterns generalizing w with
  | nil =>
    refine wp_pure.mpr ?_
    simp only [Bool.false_eq_true, List.not_mem_nil, false_and, exists_false]
  | cons pattern rest ih =>
    simp only [matchesAny, bind_eq, wp_bind]
    refine (wp_matchesPattern faithful).mono ?_
    rintro - t ⟨rfl, faithful⟩
    change serves.wp (if judged lib (kindOf jobErr) pattern = true then _ else _) _ t
    split
    · rename_i matched
      exact wp_pure.mpr (iff_of_true rfl ⟨pattern, List.mem_cons_self, .inl matched⟩)
    · rename_i other
      simp only [wp_bind]
      refine (wp_matchesPattern faithful).mono ?_
      rintro - t ⟨rfl, faithful⟩
      change serves.wp (if judged lib jobErr.message pattern = true then _ else _) _ t
      split
      · rename_i matched
        exact wp_pure.mpr (iff_of_true rfl ⟨pattern, List.mem_cons_self, .inr matched⟩)
      · rename_i different
        refine (ih faithful).mono fun found t answer => answer.trans ?_
        simp only [List.mem_cons, exists_eq_or_imp, other, different, Bool.false_eq_true,
          or_self, false_or]

/-! ## Whole matches -/

section Whole

variable (lib w) {E : Engine} {o : Outline} {pattern s : String}

variable (E o pattern s) in
/-- `matchesPattern` says yes exactly if the whole text matches. -/
def MatchesWhole : Prop :=
  ∀ found t, serves.Exec (matchesPattern lib s pattern) w found t →
    (found = true ↔ Covers E s.toList o.expr)

variable (E o pattern s) in
/-- When the anchors hold a match to the whole text: always if the expression is
straight; otherwise if the text matches as a whole or if nothing is found in it.
An expression that is too large with its anchors is compared as a text, and one
with an open quotation takes the `$` in. -/
def HeldWhole : Prop :=
  if E.oversize ("^" ++ pattern ++ "$") then
    s = pattern ↔ Covers E s.toList o.expr
  else if o.quoting then
    o.FoundIn E s.toList ↔ Covers E s.toList o.expr
  else
    o.Straight ∨ Covers E s.toList o.expr ∨ ¬ o.FoundIn E s.toList

variable {lib w}

theorem judged_iff (documented : lib.compileRegexp = compile E)
    (valid : outline E pattern.toList = some o) : judged lib s pattern = true ↔
      if E.oversize ("^" ++ pattern ++ "$") then s = pattern else o.FoundIn E s.toList := by
  have key : ("^" ++ pattern ++ "$").toList = '^' :: (pattern.toList ++ ['$']) := by
    simp only [String.toList_append]
    rfl
  have parsed : parse E ("^" ++ pattern ++ "$") = some o.anchored.expr := by
    rw [parse, key, outline_anchored valid]
    rfl
  by_cases large : E.oversize ("^" ++ pattern ++ "$") = true
  · have refused : lib.compileRegexp ("^" ++ pattern ++ "$") = none := by
      rw [documented, compile, if_pos large]
    rw [judged, refused, if_pos large]
    exact beq_iff_eq
  · have compiled : lib.compileRegexp ("^" ++ pattern ++ "$") =
        some (matchString E o.anchored.expr) := by
      rw [documented, compile, if_neg large, parsed]
      rfl
    rw [judged, compiled, if_neg large]
    exact decide_eq_true_iff.trans Outline.contains_anchored

theorem heldWhole_iff (documented : lib.compileRegexp = compile E)
    (valid : outline E pattern.toList = some o) :
    HeldWhole E o pattern s ↔ (judged lib s pattern = true ↔ Covers E s.toList o.expr) := by
  rw [judged_iff documented valid, HeldWhole]
  split
  · exact Iff.rfl
  split
  · exact Iff.rfl
  rename_i unquoted
  have found (covers : Covers E s.toList o.expr) : o.FoundIn E s.toList :=
    Outline.foundIn_of_covers ((Bool.not_eq_true _).mp unquoted) covers
  constructor
  · rintro (straight | covers | missing)
    · exact straight.foundIn_iff
    · exact iff_of_true (found covers) covers
    · exact iff_of_false missing fun covers => missing (found covers)
  · intro same
    by_cases covers : Covers E s.toList o.expr
    · exact .inr (.inl covers)
    · exact .inr (.inr fun part => covers (same.mp part))

theorem matchesWhole_iff (warmed : Warmed lib w) : MatchesWhole lib w E o pattern s ↔
    (judged lib s pattern = true ↔ Covers E s.toList o.expr) := by
  constructor
  · intro whole
    have answers : ∃ t, serves.Exec (matchesPattern lib s pattern) w (judged lib s pattern) t :=
      (exec_matchesPattern warmed).mpr rfl
    obtain ⟨t, run⟩ := answers
    exact whole _ t run
  · intro same found t run
    rw [(exec_matchesPattern warmed).mp ⟨t, run⟩]
    exact same

variable (E) in
/-- The pattern matches the type, the code or the message of the error entirely. -/
def MatchesEntirely (jobErr : JobError) (pattern : String) : Prop :=
  ∃ e, parse E pattern = some e ∧
    (Covers E (kindOf jobErr).toList e ∨ Covers E jobErr.message.toList e)

variable (E) in
/-- The pattern is valid and held to the whole of the texts it is matched with. -/
def HeldFor (jobErr : JobError) (pattern : String) : Prop :=
  ∃ o, outline E pattern.toList = some o ∧ HeldWhole E o pattern (kindOf jobErr) ∧
    HeldWhole E o pattern jobErr.message

theorem HeldFor.judged_iff {jobErr : JobError} (documented : lib.compileRegexp = compile E)
    (held : HeldFor E jobErr pattern) :
    judged lib (kindOf jobErr) pattern = true ∨ judged lib jobErr.message pattern = true ↔
      MatchesEntirely E jobErr pattern := by
  obtain ⟨o, valid, kind, message⟩ := held
  have parsed : parse E pattern = some o.expr := by
    rw [parse, valid]
    rfl
  rw [(heldWhole_iff documented valid).mp kind, (heldWhole_iff documented valid).mp message]
  constructor
  · exact fun covers => ⟨o.expr, parsed, covers⟩
  · rintro ⟨e, same, covers⟩
    rw [parsed] at same
    exact Option.some.inj same ▸ covers

/-- A pattern is held to the whole text exactly under `HeldWhole`, whatever was
matched before; where all patterns of a policy are, `Nack` goes by whole matches. -/
theorem matchesPattern_heldWhole (documented : lib.compileRegexp = compile E)
    (warmed : Warmed lib w) :
    (∀ pattern o s, outline E pattern.toList = some o →
      (MatchesWhole lib w E o pattern s ↔ HeldWhole E o pattern s)) ∧
    ∀ job jobErr policy, job.retry = some policy → jobErr.retryable ≠ some false →
      (∀ pattern ∈ policy.nonRetryableErrors, HeldFor E jobErr pattern) →
      ∀ found t, serves.Exec (isNonRetryable lib job (some jobErr)) w found t →
        (found = true ↔
          ∃ pattern ∈ policy.nonRetryableErrors, MatchesEntirely E jobErr pattern) := by
  constructor
  · intro pattern o s valid
    rw [matchesWhole_iff warmed, heldWhole_iff documented valid]
  · intro job jobErr policy retry retryable held found t run
    simp only [isNonRetryable, retryable, if_false, retry] at run
    have answer : found = true ↔ ∃ pattern ∈ policy.nonRetryableErrors,
        judged lib (kindOf jobErr) pattern = true ∨ judged lib jobErr.message pattern = true :=
      wp_matchesAny warmed.faithful found t run
    exact answer.trans <| exists_congr fun pattern =>
      and_congr_right fun mem => (held pattern mem).judged_iff documented

end Whole

/-! ## Alternatives -/

/-- Unicode cut down to the letters of ASCII. -/
def ascii : Engine where
  orbit n :=
    if 0x41 ≤ n ∧ n ≤ 0x5a then [n, n + 32]
    else if 0x61 ≤ n ∧ n ≤ 0x7a then [n, n - 32]
    else [n]
  table := fun _ => none
  oversize := fun _ => false

/-- The sample externals with regular expressions. -/
def patterned : Externals := { sample with compileRegexp := compile ascii }

def eitherOr : Outline :=
  { group := ⟨[sequence [.single (.literal false 97)]], [.single (.literal false 98)]⟩
    flags := {}
    quoting := false }

theorem outline_eitherOr : outline ascii "a|b".toList = some eitherOr := by decide

theorem heldWhole_eitherOr : HeldWhole ascii eitherOr "a|b" "b" := by
  have covers : Covers ascii "b".toList eitherOr.expr := by decide
  exact .inr (.inl covers)

/-- A job whose policy gives up on `a` and on `b`. -/
def choosy : Job := { retry := some { nonRetryableErrors := ["a|b"] } }

theorem matchesPattern_heldWhole_eitherOr :
    MatchesWhole patterned (World.start 0) ascii eitherOr "a|b" "b" ∧
    ∀ found t,
      serves.Exec (isNonRetryable patterned choosy (some { code := "b", message := "b" }))
        (World.start 0) found t →
      (found = true ↔ ∃ pattern ∈ ["a|b"],
        MatchesEntirely ascii { code := "b", message := "b" } pattern) := by
  have documented : patterned.compileRegexp = compile ascii := rfl
  have cold : Warmed patterned (World.start 0) := .cold rfl
  have settled := matchesPattern_heldWhole documented cold
  constructor
  · exact (settled.1 "a|b" eitherOr "b" outline_eitherOr).mpr heldWhole_eitherOr
  · refine settled.2 choosy { code := "b", message := "b" } _ rfl (by decide) ?_
    intro pattern mem
    rw [List.mem_singleton.mp mem]
    exact ⟨eitherOr, outline_eitherOr, heldWhole_eitherOr, heldWhole_eitherOr⟩

/-- The anchors around `a|b` hold `a` to the beginning and `b` to the end. -/
theorem not_matchesWhole :
    ¬ MatchesWhole patterned (World.start 0) ascii eitherOr "a|b" "ac" ∧
    (∃ t, serves.Exec (isNonRetryable patterned choosy (some { code := "ac" })) (World.start 0)
      true t) ∧
    ¬ ∃ pattern ∈ ["a|b"], MatchesEntirely ascii { code := "ac" } pattern := by
  have cold : Warmed patterned (World.start 0) := .cold rfl
  have judges : judged patterned "ac" "a|b" = true := by decide
  have partly : ¬ Covers ascii "ac".toList eitherOr.expr := by decide
  have empty : ¬ Covers ascii "".toList eitherOr.expr := by decide
  refine ⟨?_, ?_, ?_⟩
  · rw [matchesWhole_iff cold, judges]
    exact fun same => partly (same.mp rfl)
  · obtain ⟨found, t, run⟩ := exists_exec serves_answers
      (isNonRetryable patterned choosy (some { code := "ac" })) (World.start 0)
    have answer : found = true ↔ ∃ pattern ∈ ["a|b"],
        judged patterned "ac" pattern = true ∨ judged patterned "" pattern = true :=
      wp_matchesAny cold.faithful found t run
    have yes : found = true := answer.mpr ⟨"a|b", List.mem_singleton_self _, .inl judges⟩
    exact ⟨t, yes ▸ run⟩
  · rintro ⟨pattern, mem, e, parsed, covers⟩
    have same : some eitherOr.expr = some e := by
      rw [← parsed, List.mem_singleton.mp mem, parse, outline_eitherOr]
      rfl
    cases same
    exact covers.elim partly empty

end OjsNats.Lifecycle
