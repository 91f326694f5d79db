import OjsNats.Lifecycle.System

/-!
# Every job is where its state says

The indexes, the in-flight map and the stream agree with the state of every
job, in every state of every sequential run.
-/

namespace OjsNats.Lifecycle

open Core Nats

variable {lib : Externals} {w : World}

/-- A job's undelivered message, if it is available. -/
theorem Slot.Placed.one_message {j : String} {s : Slot} {rec : JobState} (placed : s.Placed j)
    (present : s.Present) (h : s.record = some rec) (available : rec.state = .available) :
    ∃ m, s.messages = [m] ∧ m.subject = queueJobsSubject rec.queue := by
  rcases placed.announced with silent | ⟨m, rec', one, same, subject, -⟩
  · exact absurd silent (present (by rw [state_of_record h, available]))
  · cases h.symm.trans same
    exact ⟨m, one, subject⟩

theorem Slot.Placed.announced_state {j : String} {s : Slot} (placed : s.Placed j)
    (spoken : s.messages ≠ []) : s.state = some .available ∨ s.state = some .cancelled := by
  rcases placed.announced with silent | ⟨m, rec, -, h, -, state⟩
  · exact absurd silent spoken
  · rcases state with state | state <;> simp [state_of_record h, state]

theorem Slot.Placed.length_messages {j : String} {s : Slot} (placed : s.Placed j) :
    s.messages.length ≤ 1 := by
  rcases placed.announced with silent | ⟨m, rec, one, -⟩
  · simp [silent]
  · simp [one]

/-- Every job is in exactly the place its state says. -/
theorem placed_of_reachable (reachable : Reachable lib w) (j : String) :
    ((w.slot j).state = some .scheduled ↔ (w.value .scheduled j).isSome) ∧
    ((w.slot j).state = some .retryable ↔ (w.value .retry j).isSome) ∧
    ((w.slot j).state = some .active ↔ (w.value .active j).isSome) ∧
    ((w.slot j).state = some .active ↔ (w.inflight j).isSome) ∧
    (∀ rec, w.value .jobs j = some rec → rec.state = .available →
      ∃ m, w.stream.filter (fun m => m.data = j) = [m] ∧
        m.subject = queueJobsSubject rec.queue) ∧
    (w.stream.filter fun m => m.data = j).length ≤ 1 ∧
    (w.stream.filter (fun m => m.data = j) ≠ [] →
      (w.slot j).state = some .available ∨ (w.slot j).state = some .cancelled) ∧
    ((w.value .dead j).isSome → (w.slot j).state = some .discarded) := by
  have placed := reachable.sound.placed j
  exact ⟨placed.scheduled_iff.symm, placed.retry_iff.symm, placed.active_iff.symm,
    placed.inflight_iff.symm, fun _ h => placed.one_message (reachable.present j) h,
    placed.length_messages, placed.announced_state, placed.dead_discarded⟩

/-- A job pushed and fetched, and one left in the queue. -/
def oneClaimed : World :=
  after (after (World.start (Sample.instant 0)) (.pushBatch
    [{ id := "job-1", type := "mail", queue := "mails" },
      { id := "job-2", type := "mail", queue := "mails" }]))
    (.fetch ["mails"] 1 "worker-1" 0)

theorem placed_oneClaimed : (oneClaimed.slot "job-1").state = some .active ∧
    (oneClaimed.value .active "job-1").isSome ∧ (oneClaimed.inflight "job-1").isSome ∧
    (oneClaimed.stream.filter fun m => m.data = "job-1") = [] ∧
    (oneClaimed.stream.filter fun m => m.data = "job-2").length = 1 := by
  have reachable : Reachable sample oneClaimed :=
    ((Reachable.start (by decide)).after ⟨by decide, fun _ _ => rfl⟩).after (fresh_of_no_ids rfl)
  have active : (oneClaimed.slot "job-1").state = some .active := by decide
  obtain ⟨-, -, indexed, inflight, -, -, spoken, -⟩ := placed_of_reachable reachable "job-1"
  refine ⟨active, indexed.mp active, inflight.mp active, ?_, by decide⟩
  by_contra announced
  rcases spoken announced with state | state <;> simp [active] at state

end OjsNats.Lifecycle
