import OjsNats.Effect.Protocol
import OjsNats.Effect.Semantics

/-!
# Runs that are cut off

`cuts` is the weakest precondition of what has to hold wherever a run is
abandoned, right after one of its calls.
-/

namespace OjsNats.Effect.Semantics

universe u v w x y

variable {Op : Type u} {Ans : Op → Type v} {S : Type x} {α β : Type w}

/-- However far a run from `s` gets, `Q` holds of its last call and of the state after it. -/
def cuts (H : Semantics Op Ans S) (p : Program Op Ans α) (Q : Op → S → Prop) (s : S) : Prop :=
  ∀ op t, H.StopsAfter p s op t → Q op t

variable {H : Semantics Op Ans S} {Q : Op → S → Prop} {s : S}

@[simp] theorem cuts_pure {a : α} : H.cuts (.pure a : Program Op Ans α) Q s :=
  fun _ _ stop => stop.elim

@[simp] theorem cuts_ask {op : Op} :
    H.cuts (Program.ask op) Q s ↔ ∀ r t, H.step s op r t → Q op t := by
  constructor
  · exact fun h r t step => h op t (.inl ⟨rfl, r, step⟩)
  · intro h last t stop
    rcases stop with ⟨rfl, r, step⟩ | ⟨r, m, -, inside⟩
    · exact h r t step
    · exact inside.elim

/-- A run is cut off in its first part, or in the second one after a complete first one. -/
theorem cuts_bind {p : Program Op Ans α} {f : α → Program Op Ans β} : H.cuts (p.bind f) Q s ↔
    H.cuts p Q s ∧ H.wp p (fun a m => H.cuts (f a) Q m) s := by
  constructor
  · intro h
    exact ⟨fun op t stop => h op t (stopsAfter_bind.mpr (.inl stop)),
      fun a m run op t stop => h op t (stopsAfter_bind.mpr (.inr ⟨a, m, run, stop⟩))⟩
  · intro h op t stop
    rcases stopsAfter_bind.mp stop with inside | ⟨a, m, run, inside⟩
    · exact h.1 op t inside
    · exact h.2 a m run op t inside

theorem cuts.mono {p : Program Op Ans α} {Q' : Op → S → Prop} (h : H.cuts p Q s)
    (imp : ∀ op t, Q op t → Q' op t) : H.cuts p Q' s :=
  fun op t stop => imp op t (h op t stop)

theorem cuts_forEach {xs : List β} {body : β → α → Program Op Ans α} {acc : α}
    (I : List β → α → S → Prop) (start : I xs acc s)
    (turn : ∀ x rest a m, I (x :: rest) a m → H.cuts (body x a) Q m ∧
      H.wp (body x a) (fun a' t => I rest a' t) m) :
    H.cuts (Program.forEach xs acc body) Q s := by
  induction xs generalizing acc s with
  | nil => exact cuts_pure
  | cons x rest ih =>
    obtain ⟨here, next⟩ := turn x rest acc s start
    exact cuts_bind.mpr ⟨here, next.mono fun a m kept => ih kept⟩

/-- A run that follows a protocol keeps, wherever it is cut off, what every allowed call keeps. -/
theorem StopsAfter.follows {View : Type y} {P : Protocol Op Ans View} {p : Program Op Ans α}
    {R : α → View → Prop} {uses : Op → Prop} (I : View → S → Prop)
    (kept : ∀ g s op r t, uses op → P.allows g op → H.step s op r t → I g s →
      P.admits g op r ∧ I (P.next g op r) t)
    (only : p.Uses uses) {g : View} (follows : P.Follows p g R) {t : S} {op : Op} (start : I g s)
    (stop : H.StopsAfter p s op t) : ∃ g', I g' t := by
  induction p generalizing g s with
  | pure a => exact stop.elim
  | call op' next ih =>
    rcases stop with ⟨-, r, step⟩ | ⟨r, m, step, rest⟩
    · exact ⟨_, (kept g s op' r t only.1 follows.1 step start).2⟩
    · obtain ⟨admitted, still⟩ := kept g s op' r m only.1 follows.1 step start
      exact ih r (only.2 r) (follows.2 r admitted) still rest

/-- A run without failures is one of those in which calls may fail. -/
theorem Exec.failing {F : Semantics Op Ans S} {p : Program Op Ans α} {t : S} {a : α}
    (log : List Op) (run : H.Exec p s a t) : (H.failing F).Exec p (s, log) a (t, log) :=
  run.project (fun s => (s, log)) fun _ _ _ _ step => Or.inl ⟨step, rfl⟩

/-- What holds after all runs in which calls may fail holds after those in which none fails. -/
theorem wp.served {F : Semantics Op Ans S} {p : Program Op Ans α} {R : α → S × List Op → Prop}
    {log : List Op} (h : (H.failing F).wp p R (s, log)) : H.wp p (fun a t => R a (t, log)) s :=
  fun a t run => h a (t, log) (run.failing log)

end OjsNats.Effect.Semantics
