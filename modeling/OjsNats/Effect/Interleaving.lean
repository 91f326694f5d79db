import OjsNats.Effect.Protocol
import OjsNats.Effect.Semantics
import Mathlib.Data.List.Forall2

/-!
# Interleaved programs

Any number of programs run on one state, one call of one of them at a time;
programs may be started and the state may change by itself at any point.  An
invariant of the state and the views of the running programs needs one proof
for each allowed call, not one for each pair of programs.
-/

namespace OjsNats.Effect

universe u v w x y z

/-- What happens next. -/
inductive Action (Label : Type y) (Op : Type u) (Ans : Op → Type v) where
  | start (label : Label)
  | call (thread : Nat) (label : Label) (op : Op) (answer : Ans op)
  | outside

/-- The shared state, the programs as far as they have still to run, and what
has happened so far. -/
structure Config (S : Type x) (Label : Type y) (Op : Type u) (Ans : Op → Type v)
    (α : Type w) where
  state : S
  threads : List (Label × Program Op Ans α)
  log : List (Action Label Op Ans)

section Run

variable {S : Type x} {Label : Type y} {Op : Type u} {Ans : Op → Type v} {α : Type w}
variable (H : Semantics Op Ans S) (code : Label → Program Op Ans α) (outside : S → S → Prop)

/-- One action. -/
inductive Turn : Config S Label Op Ans α → Action Label Op Ans → Config S Label Op Ans α → Prop
  | start {c : Config S Label Op Ans α} (label : Label) :
      Turn c (.start label)
        ⟨c.state, c.threads ++ [(label, code label)], c.log ++ [.start label]⟩
  | call {c : Config S Label Op Ans α} {i : Nat} {label : Label} {op : Op}
      {next : Ans op → Program Op Ans α} {r : Ans op} {t : S} :
      c.threads[i]? = some (label, .call op next) → H.step c.state op r t →
      Turn c (.call i label op r)
        ⟨t, c.threads.set i (label, next r), c.log ++ [.call i label op r]⟩
  | outside {c : Config S Label Op Ans α} {t : S} : outside c.state t →
      Turn c .outside ⟨t, c.threads, c.log ++ [.outside]⟩

/-- Runs whose actions all meet a condition on the configuration before them. -/
inductive Interleaves (ok : Config S Label Op Ans α → Action Label Op Ans → Prop) :
    Config S Label Op Ans α → Config S Label Op Ans α → Prop
  | refl {c : Config S Label Op Ans α} : Interleaves ok c c
  | tail {c m d : Config S Label Op Ans α} {a : Action Label Op Ans} :
      Interleaves ok c m → ok m a → Turn H code outside m a d → Interleaves ok c d

variable {H code outside}

theorem Interleaves.mono {ok weaker : Config S Label Op Ans α → Action Label Op Ans → Prop}
    {c d : Config S Label Op Ans α} (run : Interleaves H code outside ok c d)
    (imp : ∀ m a, ok m a → weaker m a) : Interleaves H code outside weaker c d := by
  induction run with
  | refl => exact .refl
  | tail _ meets turn ih => exact ih.tail (imp _ _ meets) turn

theorem Interleaves.trans {ok : Config S Label Op Ans α → Action Label Op Ans → Prop}
    {c m d : Config S Label Op Ans α} (first : Interleaves H code outside ok c m)
    (second : Interleaves H code outside ok m d) : Interleaves H code outside ok c d := by
  induction second with
  | refl => exact first
  | tail _ meets turn ih => exact ih.tail meets turn

/-- A run is a run under any semantics that answers at least as much. -/
theorem Interleaves.weaken {H' : Semantics Op Ans S}
    {ok : Config S Label Op Ans α → Action Label Op Ans → Prop} {c d : Config S Label Op Ans α}
    (run : Interleaves H code outside ok c d)
    (le : ∀ s op r t, H.step s op r t → H'.step s op r t) :
    Interleaves H' code outside ok c d := by
  induction run with
  | refl => exact .refl
  | tail _ meets turn ih =>
    refine ih.tail meets ?_
    cases turn with
    | start label => exact .start label
    | outside changes => exact .outside changes
    | call running step => exact .call running (le _ _ _ _ step)

/-- The log only grows. -/
theorem Interleaves.log_extends {ok : Config S Label Op Ans α → Action Label Op Ans → Prop}
    {c d : Config S Label Op Ans α} (run : Interleaves H code outside ok c d) :
    ∃ later, d.log = c.log ++ later := by
  induction run with
  | refl => exact ⟨[], by simp⟩
  | tail _ _ turn ih =>
    obtain ⟨later, eq⟩ := ih
    cases turn with
    | start label => exact ⟨later ++ [.start label], by simp [eq]⟩
    | outside _ => exact ⟨later ++ [.outside], by simp [eq]⟩
    | call _ _ => exact ⟨later ++ [_], by rw [eq, List.append_assoc]⟩

end Run

/-! ## Invariants -/

section Invariant

variable {S : Type x} {Label : Type y} {Op : Type u} {Ans : Op → Type v} {α : Type w}
  {View : Type z} {β : Type*}
variable {H : Semantics Op Ans S} {code : Label → Program Op Ans α} {outside : S → S → Prop}
variable (P : Label → Protocol Op Ans View) (post : Label → α → View → Prop)

/-- Each thread follows the protocol of its label from its view. -/
def Behaved (threads : List (Label × Program Op Ans α)) (views : List (Label × View)) : Prop :=
  List.Forall₂ (fun t v => v.1 = t.1 ∧ (P t.1).Follows t.2 v.2 (post t.1)) threads views

variable {P post}

theorem Behaved.getElem? {threads : List (Label × Program Op Ans α)} {views : List (Label × View)}
    (h : Behaved P post threads views) {i : Nat} {label : Label} {p : Program Op Ans α}
    (at_i : threads[i]? = some (label, p)) :
    ∃ g, views[i]? = some (label, g) ∧ (P label).Follows p g (post label) := by
  induction h generalizing i with
  | nil => simp at at_i
  | cons head _ ih =>
    cases i with
    | zero =>
      simp only [List.getElem?_cons_zero, Option.some.injEq] at at_i
      subst at_i
      obtain ⟨rfl, follows⟩ := head
      exact ⟨_, rfl, follows⟩
    | succ i => exact ih at_i

theorem Behaved.set {threads : List (Label × Program Op Ans α)} {views : List (Label × View)}
    (h : Behaved P post threads views) (i : Nat) {label : Label} {p : Program Op Ans α} {g : View}
    (follows : (P label).Follows p g (post label)) :
    Behaved P post (threads.set i (label, p)) (views.set i (label, g)) := by
  induction h generalizing i with
  | nil => exact .nil
  | cons head tail ih =>
    cases i with
    | zero => exact .cons ⟨rfl, follows⟩ tail
    | succ i => exact .cons head (ih i)

theorem Behaved.snoc {threads : List (Label × Program Op Ans α)} {views : List (Label × View)}
    (h : Behaved P post threads views) {label : Label} {p : Program Op Ans α} {g : View}
    (follows : (P label).Follows p g (post label)) :
    Behaved P post (threads ++ [(label, p)]) (views ++ [(label, g)]) :=
  List.rel_append h (.cons ⟨rfl, follows⟩ .nil)

/-- What an invariant of the state, the log and the views has to survive. -/
structure Invariant (H : Semantics Op Ans S) (outside : S → S → Prop)
    (P : Label → Protocol Op Ans View) (init : View)
    (ok : Config S Label Op Ans α → Action Label Op Ans → Prop)
    (I : S → List (Action Label Op Ans) → List (Label × View) → Prop) : Prop where
  start : ∀ c views label, ok c (.start label) → I c.state c.log views →
    I c.state (c.log ++ [.start label]) (views ++ [(label, init)])
  outside : ∀ c views t, ok c .outside → outside c.state t → I c.state c.log views →
    I t (c.log ++ [.outside]) views
  call : ∀ c views i label op r t g, ok c (.call i label op r) → I c.state c.log views →
    views[i]? = some (label, g) → (P label).allows g op → H.step c.state op r t →
    (P label).admits g op r ∧
      I t (c.log ++ [.call i label op r]) (views.set i (label, (P label).next g op r))

/-- An invariant holds in every configuration a run reaches. -/
theorem Invariant.holds {init : View}
    {ok : Config S Label Op Ans α → Action Label Op Ans → Prop}
    {I : S → List (Action Label Op Ans) → List (Label × View) → Prop}
    (inv : Invariant H outside P init ok I)
    (follows : ∀ c label, ok c (.start label) → (P label).Follows (code label) init (post label))
    {c d : Config S Label Op Ans α} {views : List (Label × View)}
    (run : Interleaves H code outside ok c d)
    (behaved : Behaved P post c.threads views) (start : I c.state c.log views) :
    ∃ views', Behaved P post d.threads views' ∧ I d.state d.log views' := by
  induction run with
  | refl => exact ⟨views, behaved, start⟩
  | tail _ meets turn ih =>
    obtain ⟨views', behaved', holds⟩ := ih
    cases turn with
    | start label =>
      exact ⟨_, behaved'.snoc (follows _ label meets), inv.start _ _ label meets holds⟩
    | outside changes => exact ⟨views', behaved', inv.outside _ _ _ meets changes holds⟩
    | call running step =>
      obtain ⟨g, view, goes⟩ := behaved'.getElem? running
      obtain ⟨admitted, kept⟩ := inv.call _ _ _ _ _ _ _ g meets holds view goes.1 step
      exact ⟨_, behaved'.set _ (goes.2 _ admitted), kept⟩

/-- An invariant may rely on another one. -/
theorem Invariant.extend {init : View} {ok weaker : Config S Label Op Ans α → Action Label Op Ans → Prop}
    {I J : S → List (Action Label Op Ans) → List (Label × View) → Prop}
    (inv : Invariant H outside P init weaker I) (imp : ∀ c a, ok c a → weaker c a)
    (start : ∀ c views label, ok c (.start label) → I c.state c.log views →
      J c.state c.log views → J c.state (c.log ++ [.start label]) (views ++ [(label, init)]))
    (time : ∀ c views t, ok c .outside → outside c.state t → I c.state c.log views →
      J c.state c.log views → J t (c.log ++ [.outside]) views)
    (call : ∀ c views i label op r t g, ok c (.call i label op r) → I c.state c.log views →
      J c.state c.log views → views[i]? = some (label, g) → (P label).allows g op →
      H.step c.state op r t →
      J t (c.log ++ [.call i label op r]) (views.set i (label, (P label).next g op r))) :
    Invariant H outside P init ok fun s log views => I s log views ∧ J s log views where
  start := fun c views label meets h =>
    ⟨inv.start c views label (imp _ _ meets) h.1, start c views label meets h.1 h.2⟩
  outside := fun c views t meets changes h =>
    ⟨inv.outside c views t (imp _ _ meets) changes h.1, time c views t meets changes h.1 h.2⟩
  call := by
    intro c views i label op r t g meets h view allowed step
    obtain ⟨admitted, kept⟩ := inv.call c views i label op r t g (imp _ _ meets) h.1 view allowed step
    exact ⟨admitted, kept, call c views i label op r t g meets h.1 h.2 view allowed step⟩

theorem getElem?_set_cases {xs : List β} {i k : Nat} {x y : β} (h : (xs.set i x)[k]? = some y) :
    (k = i ∧ y = x) ∨ (k ≠ i ∧ xs[k]? = some y) := by
  rw [List.getElem?_set] at h
  split at h
  · rename_i same
    split at h
    · exact .inl ⟨same.symm, (Option.some.inj h).symm⟩
    · cases h
  · rename_i other
    exact .inr ⟨Ne.symm other, h⟩

theorem getElem?_snoc_cases {xs : List β} {k : Nat} {x y : β} (h : (xs ++ [x])[k]? = some y) :
    y = x ∨ xs[k]? = some y := by
  rw [List.getElem?_append] at h
  split at h
  · exact .inr h
  · rw [List.getElem?_singleton] at h
    split at h
    · exact .inl (Option.some.inj h).symm
    · cases h

end Invariant

/-! ## What a thread has noted -/

section Notes

variable {Label : Type y} {Op : Type u} {Ans : Op → Type v} {View : Type z} {X : Type*}
variable (notes : (op : Op) → Ans op → Option X)

/-- The note that the thread makes of an action. -/
def note? (i : Nat) : Action Label Op Ans → Option X
  | .call k _ op r => if k = i then notes op r else none
  | _ => none

/-- The notes of the thread, in order. -/
def noted (i : Nat) (log : List (Action Label Op Ans)) : List X := log.filterMap (note? notes i)

theorem noted_snoc (i : Nat) (log : List (Action Label Op Ans)) (a : Action Label Op Ans) :
    noted notes i (log ++ [a]) = noted notes i log ++ (note? notes i a).toList := by
  unfold noted
  rw [List.filterMap_append]
  cases h : note? notes i a <;> simp [h]

theorem noted_other {i k : Nat} (other : i ≠ k) (log : List (Action Label Op Ans)) (l : Label)
    (op : Op) (r : Ans op) : noted notes i (log ++ [.call k l op r]) = noted notes i log := by
  simp [noted_snoc, note?, Ne.symm other]

/-- The views remember what their threads have noted. -/
structure Remembered (memory : View → List X) (log : List (Action Label Op Ans))
    (views : List (Label × View)) : Prop where
  known : ∀ i l g, views[i]? = some (l, g) → noted notes i log = memory g
  blank : ∀ i, views.length ≤ i → noted notes i log = []

variable {notes} {memory : View → List X} {log : List (Action Label Op Ans)}
  {views : List (Label × View)}

theorem Remembered.nil :
    Remembered notes memory ([] : List (Action Label Op Ans)) ([] : List (Label × View)) :=
  ⟨fun i l g at_i => by simp at at_i, fun i _ => rfl⟩

theorem Remembered.begin (h : Remembered notes memory log views) (l : Label) {g : View}
    (fresh : memory g = []) : Remembered notes memory (log ++ [.start l]) (views ++ [(l, g)]) := by
  have same (i : Nat) : noted notes i (log ++ [.start l]) = noted notes i log := by
    simp [noted_snoc, note?]
  constructor
  · intro i l' g' at_i
    rw [same]
    rw [List.getElem?_append] at at_i
    split at at_i
    · exact h.known i l' g' at_i
    · rename_i past
      rw [List.getElem?_singleton] at at_i
      split at at_i
      · cases at_i
        exact (h.blank i (Nat.le_of_not_lt past)).trans fresh.symm
      · cases at_i
  · intro i past
    rw [List.length_append] at past
    exact (same i).trans (h.blank i (by omega))

theorem Remembered.rest (h : Remembered notes memory log views) :
    Remembered notes memory (log ++ [.outside]) views := by
  have same (i : Nat) : noted notes i (log ++ [.outside]) = noted notes i log := by
    simp [noted_snoc, note?]
  exact ⟨fun i l g at_i => (same i).trans (h.known i l g at_i),
    fun i past => (same i).trans (h.blank i past)⟩

theorem Remembered.call (h : Remembered notes memory log views) {i : Nat} {l : Label}
    {g g' : View} {op : Op} {r : Ans op} (view : views[i]? = some (l, g))
    (saw : memory g' = memory g ++ (notes op r).toList) :
    Remembered notes memory (log ++ [.call i l op r]) (views.set i (l, g')) := by
  constructor
  · intro k l' f at_k
    rcases getElem?_set_cases at_k with ⟨rfl, eq⟩ | ⟨ne, old⟩
    · cases eq
      rw [noted_snoc, h.known _ _ g view, saw, note?, if_pos rfl]
    · exact (noted_other notes ne log l op r).trans (h.known k l' f old)
  · intro k past
    rw [List.length_set] at past
    have inside := (List.getElem?_eq_some_iff.mp view).1
    exact (noted_other notes (by omega) log l op r).trans (h.blank k past)

variable (notes) in
/-- The last note of the thread. -/
def lastNoted (i : Nat) (log : List (Action Label Op Ans)) : Option X :=
  (noted notes i log).getLast?

theorem lastNoted_snoc (i : Nat) (log : List (Action Label Op Ans)) (a : Action Label Op Ans) :
    lastNoted notes i (log ++ [a]) = (note? notes i a).or (lastNoted notes i log) := by
  unfold lastNoted
  rw [noted_snoc]
  cases note? notes i a <;> simp

theorem lastNoted_silent {i : Nat} {a : Action Label Op Ans} (silent : note? notes i a = none)
    (log : List (Action Label Op Ans)) :
    lastNoted notes i (log ++ [a]) = lastNoted notes i log := by
  rw [lastNoted_snoc, silent, Option.none_or]

theorem note?_other {i k : Nat} (other : k ≠ i) (l : Label) (op : Op) (r : Ans op) :
    note? notes k (.call i l op r) = none := if_neg (Ne.symm other)

/-- The views remember what their threads have noted last. -/
structure RemembersLast (notes : (op : Op) → Ans op → Option X) (memory : View → Option X)
    (log : List (Action Label Op Ans)) (views : List (Label × View)) : Prop where
  known : ∀ i l g, views[i]? = some (l, g) → lastNoted notes i log = memory g
  blank : ∀ i, views.length ≤ i → lastNoted notes i log = none

section RemembersLast

variable {last : View → Option X}

theorem RemembersLast.nil : RemembersLast notes last ([] : List (Action Label Op Ans))
    ([] : List (Label × View)) :=
  ⟨fun i l g at_i => by simp at at_i, fun i _ => rfl⟩

theorem RemembersLast.begin (h : RemembersLast notes last log views) (l : Label) {g : View}
    (fresh : last g = none) : RemembersLast notes last (log ++ [.start l]) (views ++ [(l, g)]) := by
  constructor
  · intro i l' g' at_i
    rw [lastNoted_silent rfl]
    rw [List.getElem?_append] at at_i
    split at at_i
    · exact h.known i l' g' at_i
    · rename_i past
      rw [List.getElem?_singleton] at at_i
      split at at_i
      · cases at_i
        exact (h.blank i (Nat.le_of_not_lt past)).trans fresh.symm
      · cases at_i
  · intro i past
    rw [List.length_append] at past
    exact (lastNoted_silent rfl log).trans (h.blank i (by omega))

theorem RemembersLast.rest (h : RemembersLast notes last log views) :
    RemembersLast notes last (log ++ [.outside]) views :=
  ⟨fun i l g at_i => (lastNoted_silent rfl log).trans (h.known i l g at_i),
    fun i past => (lastNoted_silent rfl log).trans (h.blank i past)⟩

theorem RemembersLast.call (h : RemembersLast notes last log views) {i : Nat} {l : Label}
    {g g' : View} {op : Op} {r : Ans op} (view : views[i]? = some (l, g))
    (saw : last g' = (notes op r).or (last g)) :
    RemembersLast notes last (log ++ [.call i l op r]) (views.set i (l, g')) := by
  constructor
  · intro k l' f at_k
    rcases getElem?_set_cases at_k with ⟨rfl, eq⟩ | ⟨ne, old⟩
    · cases eq
      rw [lastNoted_snoc, note?, if_pos rfl, h.known k l g view, saw]
    · exact (lastNoted_silent (note?_other ne l op r) log).trans (h.known k l' f old)
  · intro k past
    rw [List.length_set] at past
    have inside := (List.getElem?_eq_some_iff.mp view).1
    exact (lastNoted_silent (note?_other (by omega) l op r) log).trans (h.blank k past)

end RemembersLast

end Notes

end OjsNats.Effect
