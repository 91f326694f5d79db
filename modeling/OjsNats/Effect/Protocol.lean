import OjsNats.Effect.Program

/-!
# Protocols

A protocol says which calls a program may make next, given what its earlier
calls were answered.  What is remembered of the answers is the program's view.
A program is checked against a protocol on its own, for every answer the
protocol admits, and may then run beside others.
-/

namespace OjsNats.Effect

universe u v w x y

structure Protocol (Op : Type u) (Ans : Op → Type v) (View : Type x) where
  allows : View → Op → Prop
  admits : View → (op : Op) → Ans op → Prop
  next : View → (op : Op) → Ans op → View

namespace Protocol

variable {Op : Type u} {Ans : Op → Type v} {View : Type x} {α β : Type w}
variable (P : Protocol Op Ans View)

/-- The program makes allowed calls only, and returns with a view of which `Q` holds. -/
def Follows : Program Op Ans α → View → (α → View → Prop) → Prop
  | .pure a, g, Q => Q a g
  | .call op next, g, Q =>
      P.allows g op ∧ ∀ r, P.admits g op r → Follows (next r) (P.next g op r) Q

variable {P}

@[simp] theorem follows_pure {a : α} {g : View} {Q : α → View → Prop} :
    P.Follows (.pure a) g Q ↔ Q a g := Iff.rfl

theorem follows_call {op : Op} {next : Ans op → Program Op Ans α} {g : View}
    {Q : α → View → Prop} : P.Follows (.call op next) g Q ↔
      P.allows g op ∧ ∀ r, P.admits g op r → P.Follows (next r) (P.next g op r) Q := Iff.rfl

theorem follows_ask {op : Op} {g : View} {Q : Ans op → View → Prop} :
    P.Follows (Program.ask op) g Q ↔
      P.allows g op ∧ ∀ r, P.admits g op r → Q r (P.next g op r) := Iff.rfl

theorem follows_bind {p : Program Op Ans α} {f : α → Program Op Ans β} {g : View}
    {Q : β → View → Prop} :
    P.Follows (p.bind f) g Q ↔ P.Follows p g fun a g' => P.Follows (f a) g' Q := by
  induction p generalizing g with
  | pure a => exact Iff.rfl
  | call op next ih => simp only [Program.bind_call, follows_call, ih]

theorem Follows.mono {p : Program Op Ans α} {g : View} {Q R : α → View → Prop}
    (h : P.Follows p g Q) (imp : ∀ a g', Q a g' → R a g') : P.Follows p g R := by
  induction p generalizing g with
  | pure a => exact imp a g h
  | call op next ih => exact ⟨h.1, fun r admitted => ih r (h.2 r admitted)⟩

theorem follows_ite {c : Prop} [Decidable c] {p q : Program Op Ans α} {g : View}
    {Q : α → View → Prop} (hp : P.Follows p g Q) (hq : P.Follows q g Q) :
    P.Follows (if c then p else q) g Q := by
  split
  · exact hp
  · exact hq

/-- A loop keeps an invariant that may speak of the elements still to come. -/
theorem follows_forEach {xs : List β} {body : β → α → Program Op Ans α} {acc : α} {g : View}
    {Q : α → View → Prop} (I : List β → α → View → Prop) (start : I xs acc g)
    (turn : ∀ x rest a g, I (x :: rest) a g → P.Follows (body x a) g fun a' g' => I rest a' g')
    (finish : ∀ a g, I [] a g → Q a g) : P.Follows (Program.forEach xs acc body) g Q := by
  induction xs generalizing acc g with
  | nil => exact finish acc g start
  | cons x rest ih =>
    apply follows_bind.mpr
    apply (turn x rest acc g start).mono
    intro a g' kept
    exact ih kept

/-- Calls that are always allowed and teach nothing. -/
def Silent (P : Protocol Op Ans View) (op : Op) : Prop :=
  ∀ g, P.allows g op ∧ ∀ r, P.next g op r = g

theorem follows_silent {p : Program Op Ans α} {g : View} {Q : α → View → Prop}
    (uses : p.Uses P.Silent) (h : ∀ a, Q a g) : P.Follows p g Q := by
  induction p with
  | pure a => exact h a
  | call op next ih =>
    refine ⟨(uses.1 g).1, ?_⟩
    intro r _
    rw [(uses.1 g).2 r]
    exact ih r (uses.2 r)

end Protocol

end OjsNats.Effect
