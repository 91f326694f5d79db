import OjsNats.Lifecycle.System

/-!
# What is counted

An acknowledgement that succeeds counts one completion under the queue of the
job's record.  Apart from that only the passes write the statistics.
-/

namespace OjsNats.Nats.World

open Core

/-- One more completion in the queue. -/
def counted (w : World) (queue : String) : World :=
  w.put .stats (kvStatsKey queue "completed")
    (match w.value .stats (kvStatsKey queue "completed") with
      | some data => nextCount data
      | none => "1")

end OjsNats.Nats.World

namespace OjsNats.Lifecycle

open Core Nats Effect Semantics Program

variable {lib : Externals} {w t u : World} {k : String}

theorem wp_update_read {b : BucketName} {v new : b.Value} {rev : Nat}
    {Q : Except CallError Nat → World → Prop} (read : w.lookup b k = .ok (v, rev)) :
    serves.wp (Store.update b k new rev) Q w ↔ Q (.ok ((w.kv b).revision + 1)) (w.put b k new) := by
  have current : ((w.kv b).get k).map Prod.snd = some rev := by
    unfold World.lookup at read
    split at read
    · rename_i found
      cases read
      simp [found]
    · cases read
  exact wp_ask_of fun _ _ => by simp only [World.Serves, current, if_true]

/-- Undisturbed, the first turn of the loop counts the completion. -/
@[simp] theorem wp_incrementCompleted {queue : String} {Q : Unit → World → Prop} :
    serves.wp (incrementCompleted queue) Q w ↔ Q () (w.counted queue) := by
  simp only [incrementCompleted, incrementCompletedLoop, bind_eq, pure_eq, wp_bind, wp_get .stats,
    World.counted]
  cases found : w.lookup .stats (kvStatsKey queue "completed") with
  | error e =>
    have missing := World.lookup_error w found
    simp only [wp_bind, wp_create, missing, Option.isSome_none, Bool.false_eq_true, if_false,
      wp_pure]
  | ok entry =>
    obtain ⟨data, rev⟩ := entry
    have stored := World.lookup_value w found
    simp only [wp_bind, wp_update_read found, stored, wp_pure]

theorem counted_congr (same : t.kv .stats = w.kv .stats) (queue : String) :
    (t.counted queue).kv .stats = (w.counted queue).kv .stats := by
  simp [World.counted, World.put, World.value, same]

theorem value_counted_other {queue key : String} (other : key ≠ kvStatsKey queue "completed") :
    (w.counted queue).value .stats key = w.value .stats key :=
  value_put_other (by simp [other])

/-- The call is an acknowledgement that completed the job of a queue. -/
def Completes (w : World) (queue : String) (call : Call) (reply : Reply) : Prop :=
  ∃ jobID result response rec, call = .ack jobID result ∧ reply = .acked (.ok response) ∧
    w.value .jobs jobID = some rec ∧ rec.state = .active ∧ rec.queue = queue

theorem Completes.ack {queue : String} {call : Call} {reply : Reply}
    (completes : Completes w queue call reply) : ∃ jobID result response,
      call = .ack jobID result ∧ reply = .acked (.ok response) := by
  obtain ⟨jobID, result, response, -, called, replied, -⟩ := completes
  exact ⟨jobID, result, response, called, replied⟩

/-- An acknowledgement is refused and counts nothing, or is accepted and counts
one completion. -/
theorem ack_counts (result : Option RawMessage) : serves.wp (ack lib k result)
    (fun r t => ((∃ e, r = .error e) ∧ t.kv .stats = w.kv .stats) ∨
      ∃ response rec, r = .ok response ∧ w.value .jobs k = some rec ∧ rec.state = .active ∧
        t.kv .stats = (w.counted rec.queue).kv .stats) w := by
  have reported (job : Job) : (((w.put .jobs job.id (marshalJobState job)).delete .active k).track k
      none).kv .stats = w.kv .stats :=
    (kv_delete_of_ne (w := w.put .jobs job.id (marshalJobState job)) (b := .stats) k
      (by decide : BucketName.active ≠ .stats)).trans
      (kv_put_of_ne job.id (marshalJobState job) (by decide : BucketName.jobs ≠ .stats))
  simp only [Nats.ack, bind_eq, pure_eq, wp_bind, wp_getJobState, World.job]
  cases stored : w.value .jobs k with
  | none => exact wp_pure.mpr (.inl ⟨⟨_, rfl⟩, rfl⟩)
  | some rec =>
    dsimp only
    split
    · exact wp_pure.mpr (.inl ⟨⟨_, rfl⟩, rfl⟩)
    · rename_i active
      replace active : rec.state = .active := not_not.mp active
      simp only [wp_bind, wp_timeNow, wp_putJobState, wp_delete, wp_ackMessage, finishAck,
        bind_eq, pure_eq, wp_incrementCompleted, wp_info, wp_pure, completedJob_queue]
      intro _ t run
      have kept := kv_of_spares (b := .stats)
        (spares_of (confined_advanceWorkflow lib _ _ _) (by decide)) run
      refine .inr ⟨_, rec, rfl, rfl, active, kept.trans (counted_congr ?_ rec.queue)⟩
      exact reported _

/-- Of the operations that are no pass only an accepted acknowledgement writes
the statistics. -/
theorem stats_call {call : Call} {reply : Reply} (other : call ≠ .fireCronJobs)
    (exec : serves.Exec (call.program lib) (w.accept call) reply t) :
    (t.kv .stats = w.kv .stats ∧ ∀ queue, ¬ Completes w queue call reply) ∨
      ∃ queue, Completes w queue call reply ∧ t.kv .stats = (w.counted queue).kv .stats := by
  have quiet (out : BucketName.stats ∉ call.buckets)
      (reports : ∀ jobID result, call ≠ .ack jobID result) :
      t.kv .stats = w.kv .stats ∧ ∀ queue, ¬ Completes w queue call reply := by
    refine ⟨kv_program (w := w.accept call) lib out exec, fun queue completes => ?_⟩
    obtain ⟨jobID, result, -, same, -⟩ := completes.ack
    exact reports jobID result same
  cases call with
  | ack jobID result =>
    obtain ⟨r, rfl, ends⟩ := exec_reply exec
    rcases ack_counts result r t ends with
      ⟨⟨e, rfl⟩, same⟩ | ⟨response, rec, rfl, stored, active, counted⟩
    · refine .inl ⟨same, fun queue completes => ?_⟩
      obtain ⟨-, -, response, -, replied⟩ := completes.ack
      cases replied
    · exact .inr ⟨rec.queue, ⟨_, _, _, rec, rfl, rfl, stored, active, rfl⟩, counted⟩
  | fireCronJobs => exact absurd rfl other
  | push job =>
    refine .inl (quiet ?_ (by simp))
    cases policy : job.unique <;> simp [Call.buckets, policy]
  | _ => exact .inl (quiet (by simp [Call.buckets]) (by simp))

end OjsNats.Lifecycle
