import OjsNats.Lifecycle.Naming
import OjsNats.Lifecycle.Overlap
import OjsNats.Lifecycle.Tallies

/-!
# The keys of the statistics

The statistics bucket holds the counters of the queues and the last jobs of the
cron entries.  The keys of both are texts with a dot, which names of both kinds
may contain as well.
-/

namespace OjsNats.Nats

variable {queue cronName : String}

/-- The counter of the queue and the last job of the cron entry lie under the same key. -/
def Clash (queue cronName : String) : Prop :=
  (queue = "cron-instance" ∧ cronName = "completed") ∨
    ∃ middle, queue = "cron-instance." ++ middle ∧ cronName = middle ++ ".completed"

/-- What ends a text with a single dot, its last character, and begins with a dot is that dot. -/
theorem eq_nil_of_last_dot {front before rest : List Char} (dotless : '.' ∉ front)
    (same : front ++ ['.'] = before ++ '.' :: rest) : rest = [] := by
  rcases List.append_eq_append_iff.mp same with ⟨l, -, tail⟩ | ⟨l, whole, tail⟩
  · cases l with
    | nil => exact (List.cons.inj tail).2.symm
    | cons c l => simp at tail
  · cases l with
    | nil => exact (List.cons.inj tail).2
    | cons c l =>
      obtain ⟨rfl, -⟩ := List.cons.inj tail
      exact absurd (whole ▸ by simp) dotless

/-- The keys are the same exactly if the names clash. -/
theorem kvStatsKey_eq_iff :
    kvStatsKey queue "completed" = cronInstanceKey cronName ↔ Clash queue cronName := by
  have counter : kvStatsKey queue "completed" = queue ++ ".completed" := by
    rw [kvStatsKey, String.append_assoc]
    rfl
  rw [counter, cronInstanceKey, Clash]
  constructor
  · intro same
    have lists : queue.toList ++ ".completed".toList =
        "cron-instance.".toList ++ cronName.toList := by
      rw [← String.toList_append, ← String.toList_append, same]
    rcases List.append_eq_append_iff.mp lists with ⟨shared, front, back⟩ | ⟨middle, front, back⟩
    · cases shared with
      | nil =>
        refine .inr ⟨"", String.toList_inj.mp ?_, String.toList_inj.mp back.symm⟩
        rw [String.append_empty, front, List.append_nil]
      | cons c rest =>
        -- what both share is the last dot of the one and the first of the other
        have front' : "cron-instance".toList ++ ['.'] = queue.toList ++ c :: rest := front
        have back' : '.' :: "completed".toList = c :: (rest ++ cronName.toList) := back
        obtain ⟨rfl, tail⟩ := List.cons.inj back'
        obtain rfl := eq_nil_of_last_dot (by decide) front'
        refine .inl ⟨String.toList_inj.mp ?_, String.toList_inj.mp tail.symm⟩
        exact (List.append_cancel_right front').symm
    · refine .inr ⟨String.ofList middle, String.toList_inj.mp ?_, String.toList_inj.mp ?_⟩
      · simp only [front, String.toList_append, String.toList_ofList]
      · simp only [back, String.toList_append, String.toList_ofList]
  · rintro (⟨rfl, rfl⟩ | ⟨middle, rfl, rfl⟩)
    · rfl
    · rw [String.append_assoc]

end OjsNats.Nats

namespace OjsNats.Lifecycle

open OjsNats.Core Nats Effect Semantics Program

variable {lib : Externals} {w t : World} {queue cronName : String} {reply : Reply}
  {trace : List Passage}

/-- The event is an acknowledgement, and the job's queue does not clash with the cron entry. -/
def AcksApart (cronName : String) (p : Passage) : Prop := p.event.Meets fun call =>
  ∃ jobID result, call = .ack jobID result ∧
    ∀ rec, p.before.value .jobs jobID = some rec → ¬ Clash rec.queue cronName

theorem Step.remembers {event : Event} (step : Step lib w event t)
    (apart : AcksApart cronName ⟨w, event, t⟩) :
    t.value .stats (cronInstanceKey cronName) = w.value .stats (cronInstanceKey cronName) := by
  cases step with
  | tick => rfl
  | call _ exec =>
    obtain ⟨jobID, result, rfl, apart⟩ := apart
    rcases stats_call (by simp) exec with ⟨same, -⟩ | ⟨queue, completes, counted⟩
    · exact value_of_kv same _
    · obtain ⟨_, _, _, rec, called, -, stored, -, rfl⟩ := completes
      cases called
      refine (value_of_kv counted _).trans (value_counted_other fun same => ?_)
      exact apart rec stored (kvStatsKey_eq_iff.mp same.symm)

/-- Acknowledgements of such jobs do not change what the cron entry remembers. -/
theorem Run.remembers (run : Run lib w trace t) (apart : ∀ p ∈ trace, AcksApart cronName p) :
    ∀ p ∈ trace, p.after.value .stats (cronInstanceKey cronName) =
      w.value .stats (cronInstanceKey cronName) := by
  induction run with
  | nil => simp
  | cons step rest ih =>
    obtain ⟨first, later⟩ := List.forall_mem_cons.mp apart
    have same := step.remembers first
    exact List.forall_mem_cons.mpr ⟨same, fun p mem => (ih later p mem).trans same⟩

/-- A pass changes no counter whose queue clashes with no cron entry. -/
theorem Step.counter_of_pass (step : Step lib w (.call .fireCronJobs reply) t)
    (reachable : Reachable lib w) (apart : ∀ cronJob : CronJob,
      w.value .cron cronJob.name = some cronJob → ¬ Clash queue cronJob.name) :
    t.value .stats (kvStatsKey queue "completed") =
      w.value .stats (kvStatsKey queue "completed") := by
  cases step with
  | call _ exec =>
    obtain ⟨r, -, ends⟩ := exec_reply exec
    have sound := reachable.sound.accept .fireCronJobs
    have filed : AllFiled (w.accept .fireCronJobs) := reachable.filed.of_kv rfl
    refine pass_count sound filed (fun cronJob stored _ same => ?_) r t ends
    exact apart cronJob stored (kvStatsKey_eq_iff.mp same.symm)

/-- The keys of a queue and a cron entry differ exactly if their names do not clash.  Then
acknowledgements in the queue leave the entry's instance alone, and the entry's firing leaves the
queue's counter alone. -/
theorem statsKeys_apart_iff (queue cronName : String) :
    (kvStatsKey queue "completed" ≠ cronInstanceKey cronName ↔ ¬ Clash queue cronName) ∧
      (∀ other, kvStatsKey other "completed" = kvStatsKey queue "completed" → other = queue) ∧
      (∀ other, cronInstanceKey other = cronInstanceKey cronName → other = cronName) ∧
      (∀ (lib : Externals) (w t : World) (trace : List Passage), Run lib w trace t →
        (∀ p ∈ trace, AcksApart cronName p) → ∀ p ∈ trace,
          p.after.value .stats (cronInstanceKey cronName) =
            w.value .stats (cronInstanceKey cronName)) ∧
      ∀ (lib : Externals) (w t : World) (reply : Reply), Reachable lib w →
        Step lib w (.call .fireCronJobs reply) t → (∀ cronJob : CronJob,
          w.value .cron cronJob.name = some cronJob → ¬ Clash queue cronJob.name) →
        t.value .stats (kvStatsKey queue "completed") =
          w.value .stats (kvStatsKey queue "completed") := by
  refine ⟨not_congr kvStatsKey_eq_iff, ?_, ?_, ?_, ?_⟩
  · exact fun other same => kvStatsKey_injective same
  · exact fun other same => cronInstanceKey_injective same
  · exact fun lib w t trace run apart => run.remembers apart
  · exact fun lib w t reply reachable step apart => step.counter_of_pass reachable apart

/-- A mail is being worked on. -/
def mailTaken : World :=
  after (after (World.start (Sample.instant 0)) (.push { id := "job-1", queue := "mails" }))
    (.fetch ["mails"] 1 "worker-1" 0)

/-- Its acknowledgement counts, and does not change what a nightly cron entry remembers. -/
theorem statsKeys_apart_mails :
    (after mailTaken (.ack "job-1" none)).value .stats "mails.completed" = some "1" ∧
      (after mailTaken (.ack "job-1" none)).value .stats "cron-instance.nightly" = none := by
  refine ⟨by decide, ?_⟩
  have ends : (execute ((Call.ack "job-1" none).program sample)
      (mailTaken.accept (.ack "job-1" none))).isSome := by decide
  obtain ⟨reply, step⟩ := exists_step_after (fresh_of_no_ids rfl) ends
  have queue : (mailTaken.value .jobs "job-1").map JobState.queue = some "mails" := by decide
  have kept := (statsKeys_apart_iff "mails" "nightly").2.2.2.1 sample _ _ _ (.cons step .nil) ?_ _
    (List.mem_singleton_self _)
  · exact kept
  · refine List.forall_mem_singleton.mpr ⟨"job-1", none, rfl, fun rec stored => ?_⟩
    change mailTaken.value .jobs "job-1" = some rec at stored
    rw [stored] at queue
    rw [Option.some.inj queue, ← kvStatsKey_eq_iff]
    decide

/-- A queue and a cron entry with legal names may have one key. -/
theorem not_statsKeys_apart : ¬ ∀ queue cronName, IsQueueName queue → LegalKey cronName →
    kvStatsKey queue "completed" ≠ cronInstanceKey cronName := by
  intro apart
  have queue : IsQueueName "cron-instance" :=
    ⟨'c', "ron-instance".toList, by decide, by decide, by decide⟩
  exact apart "cron-instance" "completed" queue ⟨by decide, by decide, by decide, by decide⟩
    (by decide)

end OjsNats.Lifecycle
