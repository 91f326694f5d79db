import OjsNats.Effect.Program

/-!
# Running programs

A `Semantics` says how a call may be answered in a state and what it does to
it.  `Exec` is a complete run, `wp` the weakest precondition of its
postconditions; `StopsAfter` is a run abandoned after one of its calls.  Runs
with a failing call or from some call on under other rules are complete runs
of a derived semantics, so the same rules apply to them.
-/

namespace OjsNats.Effect

universe u v w x y

/-- How the outside world may answer a call, and the state it leaves. -/
structure Semantics (Op : Type u) (Ans : Op → Type v) (S : Type x) where
  step : S → (op : Op) → Ans op → S → Prop

namespace Semantics

variable {Op : Type u} {Ans : Op → Type v} {S : Type x} {α β : Type w}
variable (H : Semantics Op Ans S)

/-- A run of the program from one state to its result and the last state. -/
def Exec : Program Op Ans α → S → α → S → Prop
  | .pure a, s, b, t => b = a ∧ t = s
  | .call op next, s, b, t => ∃ r m, H.step s op r m ∧ Exec (next r) m b t

/-- Every run from `s` ends in a result and a state of which `Q` holds. -/
def wp (p : Program Op Ans α) (Q : α → S → Prop) (s : S) : Prop :=
  ∀ a t, H.Exec p s a t → Q a t

variable {H}

@[simp] theorem exec_pure {a b : α} {s t : S} :
    H.Exec (.pure a) s b t ↔ b = a ∧ t = s := Iff.rfl

@[simp] theorem exec_call {op : Op} {next : Ans op → Program Op Ans α} {s t : S} {b : α} :
    H.Exec (.call op next) s b t ↔ ∃ r m, H.step s op r m ∧ H.Exec (next r) m b t := Iff.rfl

theorem exec_bind {p : Program Op Ans α} {f : α → Program Op Ans β} {s t : S} {b : β} :
    H.Exec (p.bind f) s b t ↔ ∃ a m, H.Exec p s a m ∧ H.Exec (f a) m b t := by
  induction p generalizing s with
  | pure a =>
    constructor
    · exact fun run => ⟨a, s, ⟨rfl, rfl⟩, run⟩
    · rintro ⟨_, _, ⟨rfl, rfl⟩, run⟩
      exact run
  | call op next ih =>
    simp only [Program.bind_call, exec_call, ih]
    constructor
    · rintro ⟨r, m, step, a, n, first, last⟩
      exact ⟨a, n, ⟨r, m, step, first⟩, last⟩
    · rintro ⟨a, n, ⟨r, m, step, first⟩, last⟩
      exact ⟨r, m, step, a, n, first, last⟩

/-- Where every call is answered, every program returns. -/
theorem exists_exec (answers : ∀ s op, ∃ r t, H.step s op r t) (p : Program Op Ans α) (s : S) :
    ∃ a t, H.Exec p s a t := by
  induction p generalizing s with
  | pure a => exact ⟨a, s, rfl, rfl⟩
  | call op next ih =>
    obtain ⟨r, m, step⟩ := answers s op
    obtain ⟨a, t, rest⟩ := ih r m
    exact ⟨a, t, r, m, step, rest⟩

@[simp] theorem wp_pure {a : α} {Q : α → S → Prop} {s : S} :
    H.wp (.pure a) Q s ↔ Q a s := by
  constructor
  · exact fun h => h a s ⟨rfl, rfl⟩
  · rintro h _ _ ⟨rfl, rfl⟩
    exact h

theorem wp_call {op : Op} {next : Ans op → Program Op Ans α} {Q : α → S → Prop} {s : S} :
    H.wp (.call op next) Q s ↔ ∀ r t, H.step s op r t → H.wp (next r) Q t := by
  constructor
  · exact fun h r m step a t run => h a t ⟨r, m, step, run⟩
  · rintro h a t ⟨r, m, step, run⟩
    exact h r m step a t run

theorem wp_bind {p : Program Op Ans α} {f : α → Program Op Ans β} {Q : β → S → Prop} {s : S} :
    H.wp (p.bind f) Q s ↔ H.wp p (fun a t => H.wp (f a) Q t) s := by
  constructor
  · exact fun h a m first b t last => h b t (exec_bind.mpr ⟨a, m, first, last⟩)
  · intro h b t run
    obtain ⟨a, m, first, last⟩ := exec_bind.mp run
    exact h a m first b t last

theorem wp_ask {op : Op} {Q : Ans op → S → Prop} {s : S} :
    H.wp (Program.ask op) Q s ↔ ∀ r t, H.step s op r t → Q r t := by
  simp only [Program.ask, wp_call, wp_pure]

theorem wp.mono {p : Program Op Ans α} {P Q : α → S → Prop} {s : S}
    (h : H.wp p P s) (imp : ∀ a t, P a t → Q a t) : H.wp p Q s :=
  fun a t run => imp a t (h a t run)

theorem wp.and {p : Program Op Ans α} {P Q : α → S → Prop} {s : S}
    (hp : H.wp p P s) (hq : H.wp p Q s) : H.wp p (fun a t => P a t ∧ Q a t) s :=
  fun a t run => ⟨hp a t run, hq a t run⟩

/-- A program that only reads has the runs that its precondition speaks of. -/
theorem exec_of_wp {ι : Type*} {p : Program Op Ans α} {s t : S} {a : α} {allowed : ι → Prop}
    {result : ι → α} (h : ∀ Q : α → S → Prop, H.wp p Q s ↔ ∀ x, allowed x → Q (result x) s) :
    H.Exec p s a t ↔ t = s ∧ ∃ x, allowed x ∧ a = result x := by
  constructor
  · intro run
    have reached := (h fun b u => u = s ∧ ∃ x, allowed x ∧ b = result x).mpr
      fun x ok => ⟨rfl, x, ok, rfl⟩
    exact reached a t run
  · rintro ⟨rfl, x, ok, rfl⟩
    exact (h fun b u => H.Exec p t b u).mp (fun _ _ run => run) x ok

/-- A loop keeps an invariant that may speak of the elements still to come. -/
theorem wp_forEach {xs : List β} {body : β → α → Program Op Ans α} {acc : α} {s : S}
    {Q : α → S → Prop} (I : List β → α → S → Prop) (start : I xs acc s)
    (turn : ∀ x rest a m, I (x :: rest) a m → H.wp (body x a) (fun a' t => I rest a' t) m)
    (finish : ∀ a t, I [] a t → Q a t) : H.wp (Program.forEach xs acc body) Q s := by
  induction xs generalizing acc s with
  | nil => exact wp_pure.mpr (finish acc s start)
  | cons x rest ih =>
    refine wp_bind.mpr ((turn x rest acc s start).mono fun a t kept => ?_)
    exact ih kept

/-- A loop whose turns only read folds what they read. -/
theorem wp_forEach_reads {xs : List β} {body : β → α → Program Op Ans α} {s : S}
    {step : α → β → α}
    (reads : ∀ x acc (Q : α → S → Prop), H.wp (body x acc) Q s ↔ Q (step acc x) s) {acc : α}
    {Q : α → S → Prop} : H.wp (Program.forEach xs acc body) Q s ↔ Q (xs.foldl step acc) s := by
  induction xs generalizing acc with
  | nil => exact wp_pure
  | cons x rest ih => exact wp_bind.trans ((reads x acc _).trans ih)

/-- A loop whose every turn can keep an invariant has a run that keeps it. -/
theorem exists_exec_forEach {xs : List β} {body : β → α → Program Op Ans α} {acc : α} {s : S}
    (I : List β → α → S → Prop) (start : I xs acc s)
    (turn : ∀ x rest a m, I (x :: rest) a m → ∃ a' t, H.Exec (body x a) m a' t ∧ I rest a' t) :
    ∃ a t, H.Exec (Program.forEach xs acc body) s a t ∧ I [] a t := by
  induction xs generalizing acc s with
  | nil => exact ⟨acc, s, ⟨rfl, rfl⟩, start⟩
  | cons x rest ih =>
    obtain ⟨a, m, first, kept⟩ := turn x rest acc s start
    obtain ⟨b, t, later, ends⟩ := ih kept
    exact ⟨b, t, exec_bind.mpr ⟨a, m, first, later⟩, ends⟩

/-- A loop over distinct keys whose turns each rewrite the cell of their key. -/
theorem wp_forEach_cells {Key : Type w} {Cell : Type y} [DecidableEq Key] {xs : List Key}
    {body : Key → α → Program Op Ans α} {acc : α} {s : S} (I : S → Prop) (view : S → Key → Cell)
    (f : Key → Cell → Cell) (distinct : xs.Nodup) (start : I s)
    (turn : ∀ k a m, I m → H.wp (body k a) (fun _ t => I t ∧ view t k = f k (view m k) ∧
      ∀ j, j ≠ k → view t j = view m j) m) :
    H.wp (Program.forEach xs acc body)
      (fun _ t => I t ∧ ∀ j, view t j = if j ∈ xs then f j (view s j) else view s j) s := by
  induction xs generalizing acc s with
  | nil => exact wp_pure.mpr ⟨start, fun j => by simp⟩
  | cons k rest ih =>
    obtain ⟨absent, distinct⟩ := List.nodup_cons.mp distinct
    refine wp_bind.mpr ((turn k acc s start).mono fun a m ⟨kept, here, others⟩ => ?_)
    refine (ih distinct kept).mono fun _ t ⟨kept', cells⟩ => ⟨kept', fun j => ?_⟩
    rw [cells]
    by_cases same : j = k
    · rw [same, if_neg absent, if_pos List.mem_cons_self, here]
    · rw [others j same]
      simp [same]

/-- What a class of calls never breaks, a program of such calls never breaks. -/
theorem Exec.preserves {p : Program Op Ans α} {allowed : Op → Prop} (uses : p.Uses allowed)
    {P : S → Prop} (kept : ∀ s op r t, allowed op → H.step s op r t → P s → P t)
    {s t : S} {a : α} (run : H.Exec p s a t) (start : P s) : P t := by
  induction p generalizing s with
  | pure b => exact run.2 ▸ start
  | call op next ih =>
    obtain ⟨r, m, step, rest⟩ := run
    exact ih r (uses.2 r) rest (kept s op r m uses.1 step start)

/-- A quantity that a class of calls leaves alone is the same after the run. -/
theorem Exec.frame {p : Program Op Ans α} {allowed : Op → Prop} (uses : p.Uses allowed)
    {δ : Type*} (view : S → δ)
    (same : ∀ s op r t, allowed op → H.step s op r t → view t = view s)
    {s t : S} {a : α} (run : H.Exec p s a t) : view t = view s :=
  run.preserves uses (P := fun m => view m = view s)
    (fun m op r n use step eq => (same m op r n use step).trans eq) rfl

/-- Every answer of the one semantics is an answer of the other. -/
def Refines (H K : Semantics Op Ans S) : Prop :=
  ∀ s op r t, H.step s op r t → K.step s op r t

/-- A run is one of another semantics, seen through a map, if every call is. -/
theorem Exec.project {T : Type y} {K : Semantics Op Ans T} (f : S → T)
    (simulates : ∀ s op r t, H.step s op r t → K.step (f s) op r (f t)) {p : Program Op Ans α}
    {s t : S} {a : α} (run : H.Exec p s a t) : K.Exec p (f s) a (f t) := by
  induction p generalizing s with
  | pure b => exact ⟨run.1, congrArg f run.2⟩
  | call op next ih =>
    obtain ⟨r, m, step, rest⟩ := run
    exact ⟨r, f m, simulates s op r m step, ih r rest⟩

theorem Exec.refine {K : Semantics Op Ans S} (refines : Refines H K) {p : Program Op Ans α}
    {s t : S} {a : α} (run : H.Exec p s a t) : K.Exec p s a t :=
  run.project id refines

theorem wp.refine {K : Semantics Op Ans S} (refines : Refines H K) {p : Program Op Ans α}
    {Q : α → S → Prop} {s : S} (h : K.wp p Q s) : H.wp p Q s :=
  fun a t run => h a t (run.refine refines)

section Stop

variable (H)

/-- A run abandoned right after the call `op`, in state `t`. -/
def StopsAfter : Program Op Ans α → S → Op → S → Prop
  | .pure _, _, _, _ => False
  | .call op next, s, last, t =>
      (last = op ∧ ∃ r, H.step s op r t) ∨ ∃ r m, H.step s op r m ∧ StopsAfter (next r) m last t

variable {H}

@[simp] theorem stopsAfter_pure {a : α} {s t : S} {op : Op} :
    ¬ H.StopsAfter (.pure a : Program Op Ans α) s op t := id

theorem stopsAfter_call {op last : Op} {next : Ans op → Program Op Ans α} {s t : S} :
    H.StopsAfter (.call op next) s last t ↔ (last = op ∧ ∃ r, H.step s op r t) ∨
      ∃ r m, H.step s op r m ∧ H.StopsAfter (next r) m last t := Iff.rfl

theorem stopsAfter_bind {p : Program Op Ans α} {f : α → Program Op Ans β} {s t : S} {op : Op} :
    H.StopsAfter (p.bind f) s op t ↔
      H.StopsAfter p s op t ∨ ∃ a m, H.Exec p s a m ∧ H.StopsAfter (f a) m op t := by
  induction p generalizing s with
  | pure a =>
    simp only [Program.bind_pure_left, stopsAfter_pure, false_or, exec_pure]
    constructor
    · exact fun stop => ⟨a, s, ⟨rfl, rfl⟩, stop⟩
    · rintro ⟨_, _, ⟨rfl, rfl⟩, stop⟩
      exact stop
  | call op' next ih =>
    simp only [Program.bind_call, stopsAfter_call, ih, exec_call]
    constructor
    · rintro (here | ⟨r, m, step, inside | ⟨a, n, first, last⟩⟩)
      · exact .inl (.inl here)
      · exact .inl (.inr ⟨r, m, step, inside⟩)
      · exact .inr ⟨a, n, ⟨r, m, step, first⟩, last⟩
    · rintro ((here | ⟨r, m, step, inside⟩) | ⟨a, n, ⟨r, m, step, first⟩, last⟩)
      · exact .inl here
      · exact .inr ⟨r, m, step, .inl inside⟩
      · exact .inr ⟨r, m, step, .inr ⟨a, n, first, last⟩⟩

theorem StopsAfter.project {T : Type y} {K : Semantics Op Ans T} (f : S → T)
    (simulates : ∀ s op r t, H.step s op r t → K.step (f s) op r (f t)) {p : Program Op Ans α}
    {s t : S} {op : Op} (run : H.StopsAfter p s op t) : K.StopsAfter p (f s) op (f t) := by
  induction p generalizing s with
  | pure b => exact run.elim
  | call op' next ih =>
    rcases run with ⟨same, r, step⟩ | ⟨r, m, step, rest⟩
    · exact .inl ⟨same, r, simulates s op' r t step⟩
    · exact .inr ⟨r, f m, simulates s op' r m step, ih r rest⟩

theorem StopsAfter.preserves {p : Program Op Ans α} {allowed : Op → Prop}
    (uses : p.Uses allowed) {P : S → Prop}
    (kept : ∀ s op r t, allowed op → H.step s op r t → P s → P t)
    {s t : S} {op : Op} (run : H.StopsAfter p s op t) (start : P s) : P t := by
  induction p generalizing s with
  | pure b => exact run.elim
  | call op' next ih =>
    rcases run with ⟨-, r, step⟩ | ⟨r, m, step, rest⟩
    · exact kept s op' r t uses.1 step start
    · exact ih r (uses.2 r) rest (kept s op' r m uses.1 step start)

end Stop

section Fault

variable (H) (F : Semantics Op Ans S)

/-- Runs in which at most one call is answered by `F` instead of `H`.  The
second component remembers the call it was. -/
def onceFailing : Semantics Op Ans (S × Option Op) where
  step s op r t :=
    (H.step s.1 op r t.1 ∧ t.2 = s.2) ∨ (s.2 = none ∧ F.step s.1 op r t.1 ∧ t.2 = some op)

/-- Runs in which any calls may be answered by `F` instead of `H`.  The second
component lists those calls. -/
def failing : Semantics Op Ans (S × List Op) where
  step s op r t :=
    (H.step s.1 op r t.1 ∧ t.2 = s.2) ∨ (F.step s.1 op r t.1 ∧ t.2 = s.2 ++ [op])

/-- Runs that list their calls of a kind. -/
def listing (listed : Op → Bool) : Semantics Op Ans (S × List Op) where
  step s op r t := H.step s.1 op r t.1 ∧ t.2 = if listed op then s.2 ++ [op] else s.2

/-- Runs that list their calls and what they are answered. -/
def recording : Semantics Op Ans (S × List (Σ op, Ans op)) where
  step s op r t := H.step s.1 op r t.1 ∧ t.2 = s.2 ++ [⟨op, r⟩]

/-- Runs that follow `F` from some call on. -/
def switchingTo : Semantics Op Ans (S × Bool) where
  step s op r t :=
    (s.2 = false ∧ H.step s.1 op r t.1 ∧ t.2 = false) ∨ (F.step s.1 op r t.1 ∧ t.2 = true)

variable {H F}

theorem wp_ask_failing {op : Op} {Q : Ans op → S × List Op → Prop} {s : S} {log : List Op} :
    (H.failing F).wp (Program.ask op) Q (s, log) ↔ (∀ r t, H.step s op r t → Q r (t, log)) ∧
      ∀ r t, F.step s op r t → Q r (t, log ++ [op]) := by
  rw [wp_ask]
  constructor
  · exact fun all => ⟨fun r t step => all r (t, log) (.inl ⟨step, rfl⟩),
      fun r t step => all r (t, log ++ [op]) (.inr ⟨step, rfl⟩)⟩
  · rintro ⟨served, failed⟩ r ⟨t, log'⟩ (⟨step, rfl⟩ | ⟨step, rfl⟩)
    · exact served r t step
    · exact failed r t step

/-- A run lists the calls that failed in it, which are calls of the program. -/
theorem Exec.failed {p : Program Op Ans α} {allowed : Op → Prop} (uses : p.Uses allowed)
    {s t : S × List Op} {a : α} (run : (H.failing F).Exec p s a t) :
    ∃ failed, t.2 = s.2 ++ failed ∧ ∀ op ∈ failed, allowed op := by
  induction p generalizing s with
  | pure b => exact ⟨[], by simp [run.2], by simp⟩
  | call op next ih =>
    obtain ⟨r, m, step, rest⟩ := run
    obtain ⟨failed, log, all⟩ := ih r (uses.2 r) rest
    rcases step with ⟨-, same⟩ | ⟨-, more⟩
    · exact ⟨failed, by rw [log, same], all⟩
    · refine ⟨op :: failed, by rw [log, more, List.append_assoc]; rfl, ?_⟩
      exact List.forall_mem_cons.mpr ⟨uses.1, all⟩

/-- Where no call failed, it is a run of the semantics without failures. -/
theorem Exec.unfailing {p : Program Op Ans α} {s t : S × List Op} {a : α}
    (run : (H.failing F).Exec p s a t) (same : t.2 = s.2) : H.Exec p s.1 a t.1 := by
  induction p generalizing s with
  | pure b => exact ⟨run.1, by rw [run.2]⟩
  | call op next ih =>
    obtain ⟨r, m, step, rest⟩ := run
    have every : (next r).Uses fun _ => True := Program.uses_true _
    obtain ⟨failed, log, -⟩ := rest.failed every
    rcases step with ⟨step, kept⟩ | ⟨-, more⟩
    · exact ⟨r, m.1, step, ih r rest (same.trans kept.symm)⟩
    · have longer := congrArg List.length (log.symm.trans same)
      rw [more, List.length_append, List.length_append, List.length_singleton] at longer
      omega

/-- A postcondition of the runs without failures holds of the runs in which none failed. -/
theorem wp.unfailing {p : Program Op Ans α} {Q : α → S → Prop} {s : S} {log : List Op}
    (h : H.wp p Q s) : (H.failing F).wp p (fun a t => t.2 = log → Q a t.1) (s, log) :=
  fun a _ run same => h a _ (run.unfailing same)

theorem wp_failed {p : Program Op Ans α} {allowed : Op → Prop} (uses : p.Uses allowed) {s : S}
    {log : List Op} : (H.failing F).wp p (fun _ t => ∃ failed, t.2 = log ++ failed ∧
      ∀ op ∈ failed, allowed op) (s, log) :=
  fun _ _ run => run.failed uses

end Fault

end Semantics

end OjsNats.Effect
