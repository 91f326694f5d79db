import Mathlib.Logic.Relation

/-!
# Programs that call an outside world

A program is a tree: it either returns or makes one call and continues with
the answer.  What a call does is left to a `Semantics`, so the same program
can be run alone, run with a call that fails, stopped in the middle, or
interleaved with others.
-/

namespace OjsNats.Effect

universe u v w x y

/-- A computation that makes calls `op` answered by a value of `Ans op`. -/
inductive Program (Op : Type u) (Ans : Op → Type v) (α : Type w) where
  | pure (value : α) : Program Op Ans α
  | call (op : Op) (next : Ans op → Program Op Ans α) : Program Op Ans α

namespace Program

variable {Op : Type u} {Ans : Op → Type v} {α β γ : Type w}

def bind : Program Op Ans α → (α → Program Op Ans β) → Program Op Ans β
  | .pure a, f => f a
  | .call op next, f => .call op fun r => (next r).bind f

/-- Make one call and return its answer. -/
def ask (op : Op) : Program Op Ans (Ans op) := .call op .pure

instance : Monad (Program Op Ans) where
  pure := .pure
  bind := bind

@[simp] theorem pure_eq (a : α) : (Pure.pure a : Program Op Ans α) = .pure a := rfl

@[simp] theorem bind_eq (p : Program Op Ans α) (f : α → Program Op Ans β) :
    p >>= f = p.bind f := rfl

@[simp] theorem bind_pure_left (a : α) (f : α → Program Op Ans β) :
    (Program.pure a).bind f = f a := rfl

@[simp] theorem bind_call (op : Op) (next : Ans op → Program Op Ans α)
    (f : α → Program Op Ans β) :
    (Program.call op next).bind f = .call op fun r => (next r).bind f := rfl

theorem bind_assoc (p : Program Op Ans α) (f : α → Program Op Ans β)
    (g : β → Program Op Ans γ) : (p.bind f).bind g = p.bind fun a => (f a).bind g := by
  induction p with
  | pure a => rfl
  | call op next ih =>
    simp only [bind_call]
    congr 1
    funext r
    exact ih r

/-- Run `body` on each element in turn, carrying an accumulator. -/
def forEach (xs : List β) (acc : α) (body : β → α → Program Op Ans α) : Program Op Ans α :=
  match xs with
  | [] => .pure acc
  | x :: rest => (body x acc).bind fun acc' => forEach rest acc' body

/-- A loop whose turns keep more than they need to. -/
theorem forEach_map {xs : List β} {body : β → α → Program Op Ans α}
    (keeping : β → γ → Program Op Ans γ) (f : γ → α) (acc : γ)
    (turn : ∀ x c, body x (f c) = (keeping x c).bind fun c' => .pure (f c')) :
    forEach xs (f acc) body = (forEach xs acc keeping).bind fun c => .pure (f c) := by
  induction xs generalizing acc with
  | nil => rfl
  | cons x rest ih =>
    simp only [forEach, turn, bind_assoc, bind_pure_left, ih]

/-- Every call the program can make, whatever the answers, satisfies `allowed`. -/
def Uses (allowed : Op → Prop) : Program Op Ans α → Prop
  | .pure _ => True
  | .call op next => allowed op ∧ ∀ r, (next r).Uses allowed

section Uses

variable {allowed : Op → Prop}

@[simp] theorem uses_pure (a : α) : (Program.pure a : Program Op Ans α).Uses allowed := trivial

@[simp] theorem uses_call (op : Op) (next : Ans op → Program Op Ans α) :
    (Program.call op next).Uses allowed ↔ allowed op ∧ ∀ r, (next r).Uses allowed := Iff.rfl

theorem uses_bind {p : Program Op Ans α} {f : α → Program Op Ans β}
    (hp : p.Uses allowed) (hf : ∀ a, (f a).Uses allowed) : (p.bind f).Uses allowed := by
  induction p with
  | pure a => exact hf a
  | call op next ih => exact ⟨hp.1, fun r => ih r (hp.2 r)⟩

theorem uses_ite {c : Prop} [Decidable c] {p q : Program Op Ans α} (hp : p.Uses allowed)
    (hq : q.Uses allowed) : (if c then p else q).Uses allowed := by
  split
  · exact hp
  · exact hq

theorem uses_forEach {xs : List β} {body : β → α → Program Op Ans α} (acc : α)
    (h : ∀ x ∈ xs, ∀ a, (body x a).Uses allowed) : (forEach xs acc body).Uses allowed := by
  induction xs generalizing acc with
  | nil => trivial
  | cons x rest ih =>
    refine uses_bind (h x (by simp) acc) fun a => ?_
    exact ih a fun y hy => h y (by simp [hy])

theorem uses_true (p : Program Op Ans α) : p.Uses fun _ => True := by
  induction p with
  | pure a => trivial
  | call op next ih => exact ⟨trivial, ih⟩

theorem Uses.mono {weaker : Op → Prop} {p : Program Op Ans α} (hp : p.Uses allowed)
    (h : ∀ op, allowed op → weaker op) : p.Uses weaker := by
  induction p with
  | pure a => trivial
  | call op next ih => exact ⟨h op hp.1, fun r => ih r (hp.2 r)⟩

end Uses

end Program

end OjsNats.Effect
