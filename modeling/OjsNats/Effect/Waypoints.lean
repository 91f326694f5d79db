import OjsNats.Effect.Semantics

/-!
# The states a run passes

A run of a program ends in one state and passes others on the way: the state
it starts in and the state after each of its calls.  `Via` names one of them,
so that a property can speak of what was the case before something else.
-/

namespace OjsNats.Effect.Semantics

universe u v w x

variable {Op : Type u} {Ans : Op → Type v} {S : Type x} {α β : Type w}

/-- A run of the program that passes the state `m`. -/
def Via (H : Semantics Op Ans S) : Program Op Ans α → S → S → α → S → Prop
  | .pure a, s, m, b, t => b = a ∧ t = s ∧ m = s
  | .call op next, s, m, b, t => ∃ r n, H.step s op r n ∧
      ((m = s ∧ H.Exec (next r) n b t) ∨ Via H (next r) n m b t)

variable {H : Semantics Op Ans S} {s m t : S} {a : α} {b : β}

theorem Via.exec {p : Program Op Ans α} (via : H.Via p s m a t) : H.Exec p s a t := by
  induction p generalizing s with
  | pure _ => exact ⟨via.1, via.2.1⟩
  | call op next ih =>
    obtain ⟨r, n, step, ⟨-, rest⟩ | rest⟩ := via
    · exact ⟨r, n, step, rest⟩
    · exact ⟨r, n, step, ih r rest⟩

theorem Exec.via_start {p : Program Op Ans α} (run : H.Exec p s a t) : H.Via p s s a t := by
  cases p with
  | pure _ => exact ⟨run.1, run.2, rfl⟩
  | call op next =>
    obtain ⟨r, n, step, rest⟩ := run
    exact ⟨r, n, step, .inl ⟨rfl, rest⟩⟩

/-- The second part of a run passes what the whole run passes. -/
theorem Exec.via_bind {p : Program Op Ans α} {f : α → Program Op Ans β} {n : S}
    (first : H.Exec p s a n) (rest : H.Via (f a) n m b t) : H.Via (p.bind f) s m b t := by
  induction p generalizing s with
  | pure _ =>
    obtain ⟨rfl, rfl⟩ := first
    exact rest
  | call op next ih =>
    obtain ⟨r, k, step, first⟩ := first
    exact ⟨r, k, step, .inr (ih r first)⟩

/-- What a class of calls never breaks holds of every state passed. -/
theorem Via.preserves {p : Program Op Ans α} {allowed : Op → Prop} (uses : p.Uses allowed)
    {P : S → Prop} (kept : ∀ s op r t, allowed op → H.step s op r t → P s → P t)
    (via : H.Via p s m a t) (start : P s) : P m := by
  induction p generalizing s with
  | pure _ => exact via.2.2 ▸ start
  | call op next ih =>
    obtain ⟨r, n, step, ⟨rfl, -⟩ | rest⟩ := via
    · exact start
    · exact ih r (uses.2 r) rest (kept s op r n uses.1 step start)

end OjsNats.Effect.Semantics
