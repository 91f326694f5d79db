import OjsNats.Faults.Creation

/-!
# Calls on the side that may fail

Whether or not the calls on the queue records and the locks fail, no job is
touched by them.
-/

namespace OjsNats.Faults

open Core Nats Effect Semantics Program Lifecycle

variable {lib : Externals} {w m t : World} {log : List Op} {b : BucketName} {k : String}

/-- A call that fails changes nothing. -/
theorem world_of_fails {op : Op} {r : Ans op} (step : w.Fails op r t) : t = w := by
  cases op with
  | get | put | create | update | delete | keys | ensureConsumer | consumerFetch | msgAck
  | msgInProgress | publish => exact step.2
  | _ => exact step.elim

theorem wp_ask_faulty {op : Op} {Q : Ans op → World × List Op → Prop} :
    faulty.wp (Program.ask op) Q (w, log) ↔ serves.wp (Program.ask op) (fun r t => Q r (t, log)) w ∧
      ∀ r, w.Fails op r w → Q r (w, log ++ [op]) := by
  refine wp_ask_failing.trans (and_congr wp_ask.symm ⟨fun h r => h r w, fun h r t step => ?_⟩)
  obtain rfl := world_of_fails step
  exact h r step

theorem wp_get (b : BucketName) {Q : Except CallError (b.Value × Nat) → World × List Op → Prop} :
    faulty.wp (Store.get b k) Q (w, log) ↔
      Q (w.lookup b k) (w, log) ∧ Q (.error .unavailable) (w, log ++ [.get b k]) := by
  refine wp_ask_failing.trans (and_congr ?_ ?_)
  · exact ⟨fun h => h _ _ ⟨rfl, rfl⟩, by rintro h _ _ ⟨rfl, rfl⟩; exact h⟩
  · exact ⟨fun h => h _ _ ⟨rfl, rfl⟩, by rintro h _ _ ⟨rfl, rfl⟩; exact h⟩

/-- Calls that touch no slot leave the board alone, whether they are served or fail. -/
theorem wp_auxiliary {α : Type} {p : Prog α} {allowed : Op → Prop} (uses : p.Uses allowed)
    (auxiliary : ∀ op, allowed op → Auxiliary op) {Q : α → World × List Op → Prop}
    (h : ∀ a u failed, SameBoard w u → (∀ op ∈ failed, allowed op) → Q a (u, log ++ failed)) :
    faulty.wp p Q (w, log) := by
  rintro a ⟨u, log'⟩ run
  obtain ⟨failed, rfl, all⟩ := run.failed uses
  refine h a u failed ?_ all
  refine run.preserves uses (P := fun s => SameBoard w s.1) ?_ (.refl w)
  rintro ⟨v, before⟩ op r ⟨v', after⟩ use step same
  rcases step with ⟨step, -⟩ | ⟨step, -⟩
  · exact same.trans ((auxiliary op use).sameBoard step)
  · obtain rfl := world_of_fails step
    exact same

/-- Calls on the queue records leave the board alone. -/
theorem wp_onQueues {α : Type} {p : Prog α} (uses : p.Uses (OnlyOn .queues))
    {Q : α → World × List Op → Prop}
    (h : ∀ a u quiet, SameBoard w u → Quiet quiet → Q a (u, log ++ quiet)) :
    faulty.wp p Q (w, log) :=
  wp_auxiliary uses (fun _ only => (OnlyOn.sideline rfl only).auxiliary) h

end OjsNats.Faults
