import Mathlib.Data.List.Basic

/-!
# Subjects with wildcards

A subject is a list of tokens, a pattern one with two wildcards in it: one stands
for any token, the other, at the end, for one or more.
-/

namespace OjsNats.Subject

variable {τ : Type*} [DecidableEq τ]

/-- The tokens with a meaning in patterns. -/
structure Wildcards (τ : Type*) where
  one : τ
  tail : τ

namespace Wildcards

variable (wild : Wildcards τ)

/-- The pattern's tokens are matched one by one. -/
def matches? : List τ → List τ → Bool
  | [], subject => subject.isEmpty
  | _ :: _, [] => false
  | p :: ps, t :: ts => (ps.isEmpty && p = wild.tail) || ((p = wild.one || p = t) && matches? ps ts)

/-- The pattern is more than a subject. -/
def HasWildcard : List τ → Prop
  | [] => False
  | p :: ps => p = wild.one ∨ (ps = [] ∧ p = wild.tail) ∨ HasWildcard ps

/-- The pattern with a token in the place of each wildcard. -/
def fill (x : τ) : List τ → List τ
  | [] => []
  | p :: ps => (if p = wild.one ∨ (ps = [] ∧ p = wild.tail) then x else p) :: fill x ps

section Matching

variable {wild : Wildcards τ} {pattern subject : List τ} {x p t : τ} {P : τ → Prop}

theorem matches?_cons {ps ts : List τ} : wild.matches? (p :: ps) (t :: ts) = true ↔
    (ps = [] ∧ p = wild.tail) ∨ ((p = wild.one ∨ p = t) ∧ wild.matches? ps ts = true) := by
  simp [matches?]

/-- A literal token of the pattern is a token of the subject. -/
theorem matches?_literal {ps ts : List τ} (one : p ≠ wild.one) (more : ps ≠ []) :
    wild.matches? (p :: ps) (t :: ts) = true ↔ p = t ∧ wild.matches? ps ts = true := by
  simp [matches?_cons, one, more]

/-- A pattern without wildcards matches itself only. -/
theorem eq_of_matches? (literal : ¬ wild.HasWildcard pattern)
    (matched : wild.matches? pattern subject = true) : subject = pattern := by
  induction pattern generalizing subject with
  | nil => simpa [matches?] using matched
  | cons p ps ih =>
    cases subject with
    | nil => cases matched
    | cons t ts =>
      simp only [HasWildcard, not_or] at literal
      rcases matches?_cons.mp matched with last | ⟨rfl | rfl, rest⟩
      · exact absurd last literal.2.1
      · exact absurd rfl literal.1
      · rw [ih literal.2.2 rest]

theorem matches?_singleton : wild.matches? pattern [t] = true ↔
    pattern = [wild.one] ∨ pattern = [wild.tail] ∨ pattern = [t] := by
  cases pattern with
  | nil => simp [matches?]
  | cons p ps =>
    have rest : wild.matches? ps [] = true ↔ ps = [] := by cases ps <;> simp [matches?]
    rw [matches?_cons, rest]
    simp only [List.cons.injEq]
    tauto

theorem matches?_self (wild : Wildcards τ) (pattern : List τ) :
    wild.matches? pattern pattern = true := by
  induction pattern with
  | nil => rfl
  | cons p ps ih => exact matches?_cons.mpr (.inr ⟨.inr rfl, ih⟩)

theorem matches?_fill (wild : Wildcards τ) (x : τ) (pattern : List τ) :
    wild.matches? pattern (wild.fill x pattern) = true := by
  induction pattern with
  | nil => rfl
  | cons p ps ih =>
    rw [fill, matches?_cons]
    by_cases last : ps = [] ∧ p = wild.tail
    · exact .inl last
    · refine .inr ⟨?_, ih⟩
      by_cases one : p = wild.one
      · exact .inl one
      · exact .inr (by simp [one, last])

theorem fill_ne_nil (wild : Wildcards τ) (x : τ) (nonempty : pattern ≠ []) :
    wild.fill x pattern ≠ [] := by
  obtain ⟨p, ps, rfl⟩ := List.exists_cons_of_ne_nil nonempty
  simp [fill]

/-- The filled pattern is another one, if there was anything to fill. -/
theorem fill_ne (one : x ≠ wild.one) (tail : x ≠ wild.tail) (wilds : wild.HasWildcard pattern) :
    wild.fill x pattern ≠ pattern := by
  induction pattern with
  | nil => cases wilds
  | cons p ps ih =>
    intro same
    obtain ⟨first, rest⟩ := List.cons.inj same
    rcases wilds with rfl | ⟨rfl, rfl⟩ | later
    · exact one (by simpa using first)
    · exact tail (by simpa using first)
    · exact ih later rest

/-- What holds of the tokens of a subject that fits holds of the filled pattern's. -/
theorem forall_mem_fill (matched : wild.matches? pattern subject = true)
    (tokens : ∀ t ∈ subject, P t) (filler : P x) : ∀ t ∈ wild.fill x pattern, P t := by
  induction pattern generalizing subject with
  | nil => simp [fill]
  | cons p ps ih =>
    cases subject with
    | nil => cases matched
    | cons t ts =>
      have first : P (if p = wild.one ∨ (ps = [] ∧ p = wild.tail) then x else p) := by
        split
        · exact filler
        next literal =>
          rcases matches?_cons.mp matched with last | ⟨one | rfl, -⟩
          · exact absurd (.inr last) literal
          · exact absurd (.inl one) literal
          · exact tokens p (by simp)
      have rest : ∀ t ∈ wild.fill x ps, P t := by
        rcases matches?_cons.mp matched with ⟨rfl, -⟩ | ⟨-, rest⟩
        · simp [fill]
        · exact ih rest fun t mem => tokens t (List.mem_cons_of_mem _ mem)
      simpa [fill] using ⟨first, rest⟩

/-- The filled pattern begins as the subject does, or with the filler. -/
theorem head?_fill (matched : wild.matches? pattern subject = true) :
    (wild.fill x pattern).head? = subject.head? ∨ (wild.fill x pattern).head? = some x := by
  cases pattern with
  | nil =>
    rw [matches?, List.isEmpty_iff] at matched
    exact .inl (by rw [matched, fill])
  | cons p ps =>
    cases subject with
    | nil => cases matched
    | cons t ts =>
      by_cases wilds : p = wild.one ∨ (ps = [] ∧ p = wild.tail)
      · exact .inr (by simp [fill, wilds])
      · rcases matches?_cons.mp matched with last | ⟨one | rfl, -⟩
        · exact absurd (.inr last) wilds
        · exact absurd (.inl one) wilds
        · exact .inl (by simp [fill, wilds])

end Matching

end Wildcards

/-! ## Texts -/

section Texts

variable {α : Type*} [DecidableEq α] {sep : α} {text : List α} {P : α → Prop}

/-- The tokens of a text have its characters in them, without the separators. -/
theorem forall_mem_splitOn (chars : ∀ c ∈ text, c ≠ sep → P c) :
    ∀ token ∈ text.splitOn sep, ∀ c ∈ token, P c := by
  induction text with
  | nil => simp
  | cons first rest ih =>
    have later := ih fun c mem => chars c (List.mem_cons_of_mem _ mem)
    rw [List.splitOn_cons_eq_if_modifyHead]
    split
    · simpa using later
    next other =>
      have here : P first := chars first List.mem_cons_self (by simpa using other)
      cases split : rest.splitOn sep with
      | nil => simp
      | cons token tokens =>
        rw [split] at later
        simpa [here] using later

omit [DecidableEq α] in
theorem forall_mem_intercalate {tokens : List (List α)} (separator : P sep)
    (chars : ∀ token ∈ tokens, ∀ c ∈ token, P c) : ∀ c ∈ [sep].intercalate tokens, P c := by
  induction tokens with
  | nil => simp
  | cons token tokens ih =>
    have here := chars token List.mem_cons_self
    have later := ih fun token mem => chars token (List.mem_cons_of_mem _ mem)
    by_cases last : tokens = []
    · simpa [last] using here
    · rw [List.intercalate_cons_of_ne_nil last]
      simp only [List.mem_append, List.mem_singleton]
      rintro c ((mem | rfl) | mem)
      · exact here c mem
      · exact separator
      · exact later c mem

omit [DecidableEq α] in
theorem head?_intercalate {tokens : List (List α)} {c : α} {rest : List α}
    (first : tokens.head? = some (c :: rest)) : ([sep].intercalate tokens).head? = some c := by
  obtain ⟨later, rfl⟩ := List.head?_eq_some_iff.mp first
  rw [List.intercalate_cons_cons_left]
  rfl

end Texts

end OjsNats.Subject
