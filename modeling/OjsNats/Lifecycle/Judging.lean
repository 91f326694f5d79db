import OjsNats.Lifecycle.Patterns

/-!
# Whether an error is retried

`Nack` matches an error with the patterns of the job's policy, which fills the
cache of compiled expressions.  Judged again with the cache this has left, the
error is judged the same and the cache stays as it is.
-/

namespace OjsNats.Nats

open Core

/-- The compiled expressions by their texts. -/
abbrev Cache := String → Option (String → Bool)

namespace World

/-- The world with other compiled expressions. -/
def recached (w : World) (cache : Cache) : World := { w with regexCache := cache }

/-- The world at another time. -/
def atTime (w : World) (now : Int) : World := { w with clock := now }

end World

end OjsNats.Nats

namespace OjsNats.Lifecycle

open Core Nats Effect Semantics Program

section Pure

variable (lib : Externals)

/-- What `matchesPattern` answers, and the cache it leaves. -/
def matched (cache : Cache) (s pattern : String) : Bool × Cache :=
  let key := "^" ++ pattern ++ "$"
  match cache key with
  | some re => (re s, cache)
  | none =>
      match lib.compileRegexp key with
      | none => (s == pattern, cache)
      | some re => (re s, Function.update cache key (some re))

/-- What `matchesAny` answers, and the cache it leaves. -/
def matchedAny (jobErr : JobError) (cache : Cache) : List String → Bool × Cache
  | [] => (false, cache)
  | pattern :: rest =>
      let first := matched lib cache (kindOf jobErr) pattern
      if first.1 then (true, first.2)
      else
        let second := matched lib first.2 jobErr.message pattern
        if second.1 then (true, second.2) else matchedAny jobErr second.2 rest

/-- What `isNonRetryable` answers, and the cache it leaves. -/
def judgement (cache : Cache) (job : Job) (jobErr : Option JobError) : Bool × Cache :=
  match jobErr with
  | none => (false, cache)
  | some jobErr =>
      if jobErr.retryable = some false then (true, cache)
      else
        match job.retry with
        | none => (false, cache)
        | some policy => matchedAny lib jobErr cache policy.nonRetryableErrors

end Pure

variable {lib : Externals} {w : World} {cache later : Cache}

section Runs

theorem wp_matched {s pattern : String} {Q : Bool → World → Prop} :
    serves.wp (matchesPattern lib s pattern) Q w ↔
      Q (matched lib w.regexCache s pattern).1
        (w.recached (matched lib w.regexCache s pattern).2) := by
  simp only [matchesPattern, bind_eq, wp_bind, wp_ask, matched]
  have read {R : Option (String → Bool) → World → Prop} : (∀ r t, serves.step w
      (.regexLoad ("^" ++ pattern ++ "$")) r t → R r t) ↔
        R (w.regexCache ("^" ++ pattern ++ "$")) w :=
    ⟨fun h => h _ _ ⟨rfl, rfl⟩, by rintro h _ _ ⟨rfl, rfl⟩; exact h⟩
  rw [read]
  cases w.regexCache ("^" ++ pattern ++ "$") with
  | some re => exact wp_pure
  | none =>
    cases lib.compileRegexp ("^" ++ pattern ++ "$") with
    | none => exact wp_pure
    | some re =>
      simp only [wp_bind, wp_ask]
      refine ⟨fun h => wp_pure.mp (h () _ rfl), ?_⟩
      rintro h _ _ rfl
      exact wp_pure.mpr h

theorem wp_matchedAny {jobErr : JobError} {patterns : List String} {Q : Bool → World → Prop} :
    serves.wp (matchesAny lib jobErr patterns) Q w ↔
      Q (matchedAny lib jobErr w.regexCache patterns).1
        (w.recached (matchedAny lib jobErr w.regexCache patterns).2) := by
  induction patterns generalizing w with
  | nil => exact wp_pure
  | cons pattern rest ih =>
    simp only [matchesAny, matchedAny, bind_eq, wp_bind, wp_matched]
    change (serves.wp (if (matched lib w.regexCache (kindOf jobErr) pattern).1 = true then _ else _)
      Q (w.recached (matched lib w.regexCache (kindOf jobErr) pattern).2)) ↔ _
    cases (matched lib w.regexCache (kindOf jobErr) pattern).1 with
    | true => exact wp_pure
    | false =>
      simp only [Bool.false_eq_true, ↓reduceIte, wp_bind, wp_matched]
      generalize (matched lib w.regexCache (kindOf jobErr) pattern).2 = first
      change (serves.wp (if (matched lib first jobErr.message pattern).1 = true then _ else _) Q
        (w.recached (matched lib first jobErr.message pattern).2)) ↔ _
      cases (matched lib first jobErr.message pattern).1 with
      | true => exact wp_pure
      | false => exact ih

theorem wp_judgement {job : Job} {jobErr : Option JobError} {Q : Bool → World → Prop} :
    serves.wp (isNonRetryable lib job jobErr) Q w ↔
      Q (judgement lib w.regexCache job jobErr).1
        (w.recached (judgement lib w.regexCache job jobErr).2) := by
  cases jobErr with
  | none => exact wp_pure
  | some jobErr =>
    simp only [isNonRetryable, judgement]
    by_cases spared : jobErr.retryable = some false
    · simp only [spared, ↓reduceIte]
      exact wp_pure
    · simp only [spared, ↓reduceIte]
      cases job.retry with
      | none => exact wp_pure
      | some policy => exact wp_matchedAny

end Runs

/-! ## Judging again -/

/-- The later cache has the entries of the earlier one, and else what `regexp.Compile` makes. -/
def Warmer (lib : Externals) (cache later : Cache) : Prop :=
  ∀ key, later key = cache key ∨ cache key = none ∧ later key = lib.compileRegexp key

theorem Warmer.refl (cache : Cache) : Warmer lib cache cache := fun _ => .inl rfl

theorem Warmer.trans {last : Cache} (first : Warmer lib cache later)
    (second : Warmer lib later last) : Warmer lib cache last := by
  intro key
  rcases second key with same | ⟨none, compiled⟩
  · exact (first key).imp same.trans fun ⟨missing, compiled⟩ => ⟨missing, same.trans compiled⟩
  · rcases first key with same | ⟨earlier, -⟩
    · exact .inr ⟨same.symm.trans none, compiled⟩
    · exact .inr ⟨earlier, compiled⟩

theorem warmer_matched {s pattern : String} :
    Warmer lib cache (matched lib cache s pattern).2 := by
  unfold matched
  dsimp only
  split
  · exact .refl cache
  · rename_i missing
    split
    · exact .refl cache
    · rename_i re compiled
      intro key
      by_cases same : key = "^" ++ pattern ++ "$"
      · subst same
        exact .inr ⟨missing, by simp [compiled]⟩
      · exact .inl (by simp [same])

theorem warmer_matchedAny {jobErr : JobError} {patterns : List String} :
    Warmer lib cache (matchedAny lib jobErr cache patterns).2 := by
  induction patterns generalizing cache with
  | nil => exact .refl cache
  | cons pattern rest ih =>
    unfold matchedAny
    dsimp only
    split
    · exact warmer_matched
    · split
      · exact warmer_matched.trans warmer_matched
      · exact (warmer_matched.trans warmer_matched).trans ih

/-- Matched again, a text is judged the same and nothing is compiled. -/
theorem matched_again {s pattern : String}
    (warmer : Warmer lib (matched lib cache s pattern).2 later) :
    matched lib later s pattern = ((matched lib cache s pattern).1, later) := by
  have at_key := warmer ("^" ++ pattern ++ "$")
  unfold matched at at_key ⊢
  dsimp only at at_key ⊢
  cases hit : cache ("^" ++ pattern ++ "$") with
  | some re =>
    simp only [hit] at at_key
    rcases at_key with same | ⟨none, -⟩
    · rw [same]
    · cases none
  | none =>
    cases compiled : lib.compileRegexp ("^" ++ pattern ++ "$") with
    | none =>
      simp only [hit, compiled, true_and, or_self] at at_key
      rw [at_key]
    | some re =>
      simp only [hit, compiled, Function.update_self] at at_key
      rcases at_key with same | ⟨none, -⟩
      · rw [same]
      · cases none

theorem matchedAny_again {jobErr : JobError} {patterns : List String}
    (warmer : Warmer lib (matchedAny lib jobErr cache patterns).2 later) :
    matchedAny lib jobErr later patterns =
      ((matchedAny lib jobErr cache patterns).1, later) := by
  induction patterns generalizing cache with
  | nil => rfl
  | cons pattern rest ih =>
    unfold matchedAny at warmer ⊢
    dsimp only at warmer ⊢
    split at warmer
    · rename_i yes
      rw [matched_again warmer]
      simp only [yes, ↓reduceIte]
    · rename_i no
      split at warmer
      · rename_i yes
        rw [matched_again (warmer_matched.trans warmer)]
        simp only [no, Bool.false_eq_true, ↓reduceIte]
        rw [matched_again warmer]
        simp only [yes, ↓reduceIte]
      · rename_i neither
        have second := warmer_matchedAny.trans warmer
        rw [matched_again (warmer_matched.trans second)]
        simp only [no, Bool.false_eq_true, ↓reduceIte]
        rw [matched_again second]
        simp only [neither, Bool.false_eq_true, ↓reduceIte]
        exact ih warmer

/-- Judged again, an error is judged the same and nothing is compiled. -/
theorem judgement_again {job : Job} {jobErr : Option JobError} :
    judgement lib (judgement lib cache job jobErr).2 job jobErr =
      judgement lib cache job jobErr := by
  cases jobErr with
  | none => rfl
  | some jobErr =>
    simp only [judgement]
    by_cases spared : jobErr.retryable = some false
    · simp only [spared, ↓reduceIte]
    · simp only [spared, ↓reduceIte]
      cases job.retry with
      | none => rfl
      | some policy => exact matchedAny_again (.refl _)

end OjsNats.Lifecycle
