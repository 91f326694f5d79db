import OjsNats.Faults.Stopping

/-!
# Dead letters that are retried when a call fails

`RetryDeadLetter` looks at the errors of its reads alone.  What holds of it
and of the passes together is said at the end, for every reachable state.
-/

namespace OjsNats.Faults

open Core Nats Effect Semantics Program Lifecycle

variable {lib : Externals} {w t : World} {log : List Op} {b : BucketName} {j k : String}
  {rec : JobState} {Q : Op → World → Prop}

/-! ## Rules -/

theorem wp_exists? {Q : Bool → World × List Op → Prop}
    (served : Q (w.value b k).isSome (w, log)) (failed : Q false (w, log ++ [.get b k])) :
    faulty.wp (Store.exists? b k) Q (w, log) := by
  refine wp_bind.mpr ((wp_get b).mpr ⟨?_, wp_pure.mpr failed⟩)
  cases found : w.lookup b k with
  | error e =>
    rw [World.lookup_error w found] at served
    exact wp_pure.mpr served
  | ok entry =>
    rw [World.lookup_value w found] at served
    exact wp_pure.mpr served

/-- Whatever comes of it, `Info` changes nothing. -/
theorem wp_info_unchanged {Q : World × List Op → Prop} (served : Q (w, log))
    (failed : Q (w, log ++ [.get .jobs k])) :
    faulty.wp (info k) (fun _ => Q) (w, log) := by
  refine wp_bind.mpr (wp_getJobState ?_ (wp_pure.mpr failed))
  cases w.job k with
  | error e => exact wp_pure.mpr served
  | ok job => exact wp_pure.mpr served

/-- Calls that have failed are not forgotten. -/
theorem wp_several {α : Type} {p : Prog α} :
    faulty.wp p (fun _ u => log.length ≤ u.2.length) (w, log) := by
  intro a u run
  obtain ⟨failed, whole, -⟩ := run.failed (Program.uses_true p)
  rw [whole, List.length_append]
  exact Nat.le_add_right _ _

theorem cuts_exists? (h : Q (.get b k) w) : serves.cuts (Store.exists? b k) Q w := by
  refine cuts_bind.mpr ⟨(cuts_get b).mpr h, fun r u _ => ?_⟩
  dsimp only
  split <;> exact cuts_pure

theorem cuts_info (h : Q (.get .jobs k) w) : serves.cuts (info k) Q w := by
  refine cuts_bind.mpr ⟨cuts_getJobState h, fun r u _ => ?_⟩
  dsimp only
  split <;> exact cuts_pure

/-! ## What is left of a dead job -/

/-- A job with a record and an entry is brought back by any later retry. -/
theorem recoverable_of_dead (stored : (t.slot j).record = some rec) (id : rec.id = j)
    (entry : (t.slot j).dead.isSome) : Recoverable lib (.retryDeadLetter j) j t := by
  refine .inr ⟨entry, fun later reply u _ run => ?_⟩
  subst id
  obtain ⟨r, -, ends⟩ := exec_reply run
  have brings : serves.wp (retryDeadLetter lib rec.id) (fun _ u => (u.slot rec.id).Back)
      { t with clock := later } := by
    refine wp_retryDeadLetter_entered stored entry fun u _ moved => ?_
    rw [moved.slot]
    exact ⟨rfl, by simp [Slot.revived]⟩
  exact brings r u ends

/-- What `RetryDeadLetter` finds of a job with an entry. -/
theorem silent_of_dead (sound : Sound w) (entry : (w.slot j).dead.isSome) :
    ∃ rec, (w.slot j).record = some rec ∧ rec.id = j ∧ rec.state = .discarded ∧
      (w.slot j).messages = [] := by
  have placed := sound.placed j
  obtain ⟨rec, stored, discarded⟩ := record_of_isSome (placed.dead_discarded entry)
  exact ⟨rec, stored, placed.keyed rec stored, discarded,
    placed.messages_nil stored (by simp [discarded]) (by simp [discarded])⟩

section Moved

variable {s : Slot} {u : World}

theorem back_of_moved (moved : Moved j s w u) (back : s.Back) : (u.slot j).Back := by
  rw [moved.slot]
  exact back

/-- A job that has lost its entry without having been brought back is lost. -/
theorem lost_of_moved (moved : Moved j s w u) (gone : s.dead = none) (away : ¬ s.Back) :
    ¬ Recoverable lib (.retryDeadLetter j) j u := by
  refine not_recoverable ((congrArg Slot.dead moved.slot).trans gone) ?_
  rw [moved.slot]
  exact away

theorem lost_of_restarted (moved : Moved j s w u) (gone : s.dead = none) (away : ¬ s.Back) :
    ¬ Recoverable lib (.retryDeadLetter j) j u.restarted := by
  refine not_recoverable ?_ fun back => away ?_
  · exact (congrArg Slot.dead moved.slot).trans gone
  · rw [slot_restarted, moved.slot] at back
    exact back

end Moved

/-- When a single call of `RetryDeadLetter` fails, the job can be recovered exactly if it is
neither the writing of the record nor the publication. -/
theorem wp_retryDeadLetter_recoverable (sound : Sound w) (entry : (w.slot j).dead.isSome) :
    faulty.wp (retryDeadLetter lib j) (fun _ u => ∀ op, u.2 = [op] →
      (Recoverable lib (.retryDeadLetter j) j u.1 ↔ ¬ Mover.Loses j (.retryDeadLetter j) op))
      (w, []) := by
  obtain ⟨rec, stored, id, discarded, silent⟩ := silent_of_dead sound entry
  subst id
  have kept : Recoverable lib (.retryDeadLetter rec.id) rec.id w :=
    recoverable_of_dead stored rfl entry
  have entered : (w.value .dead rec.id).isSome := entry
  have several {α : Type} {p : Prog α} {v : World} {log : List Op} (two : log.length = 2) :
      faulty.wp p (fun _ u => ∀ op, u.2 = [op] → (Recoverable lib (.retryDeadLetter rec.id) rec.id
        u.1 ↔ ¬ Mover.Loses rec.id (.retryDeadLetter rec.id) op)) (v, log) := by
    refine wp_several.mono fun _ u more op single => ?_
    rw [two, single] at more
    cases more
    contradiction
  have start := Moved.refl rec.id w
  have marked := start.put (b := .jobs) rfl (marshalJobState
    (revivedJob lib w.clock (unmarshalJobState rec)))
  have withdrawn := marked.delete (b := .dead) rfl
  refine wp_bind.mpr (wp_exists? ?_ (wp_pure.mpr fun op single => ?_))
  · rw [entered]
    refine wp_bind.mpr (wp_timeNow.mpr (wp_bind.mpr (wp_getJobState ?_ (wp_pure.mpr ?_))))
    · rw [World.job_of_record stored]
      refine wp_bind.mpr (wp_put.mpr ⟨?_, ?_⟩)
      · refine wp_bind.mpr (wp_delete.mpr ⟨?_, ?_⟩)
        · refine wp_bind.mpr (wp_publishJob ?_ fun _ => ?_)
          · -- nothing has failed before the last call
            refine wp_info_unchanged (fun op none => by cases none) fun op single => ?_
            cases single
            have announced := withdrawn.publish (queueJobsSubject rec.queue)
            exact iff_of_true (.inl (back_of_moved announced ⟨rfl, by simp⟩)) id
          · refine wp_info_unchanged (fun op single => ?_) fun op more => by cases more
            cases single
            exact iff_of_false (lost_of_moved withdrawn rfl (not_back_of_silent silent))
              fun kept => kept rfl
        · refine wp_bind.mpr (wp_publishJob ?_ fun _ => several rfl)
          refine wp_info_unchanged (fun op single => ?_) fun op more => by cases more
          cases single
          have announced := marked.publish (queueJobsSubject rec.queue)
          exact iff_of_true (.inl (back_of_moved announced ⟨rfl, by simp⟩)) id
      · refine wp_bind.mpr (wp_delete.mpr ⟨?_, several rfl⟩)
        refine wp_bind.mpr (wp_publishJob ?_ fun _ => several rfl)
        refine wp_info_unchanged (fun op single => ?_) fun op more => by cases more
        cases single
        have announced := (start.delete (b := .dead) rfl).publish (queueJobsSubject rec.queue)
        refine iff_of_false (lost_of_moved announced rfl ?_) fun kept => kept rfl
        -- the message is there, but the record still says that the job is discarded
        rintro ⟨available, -⟩
        have state : (w.slot rec.id).state = some .available := available
        rw [Slot.state_of_record stored, discarded] at state
        cases state
    · intro op single
      cases single
      exact iff_of_true kept id
  · cases single
    exact iff_of_true kept id

/-- When the server ends in `RetryDeadLetter`, the job can be recovered unless its entry has just
been deleted. -/
theorem cuts_retryDeadLetter (sound : Sound w) (entry : (w.slot j).dead.isSome) :
    serves.cuts (retryDeadLetter lib j) (fun op u =>
      (Recoverable lib (.retryDeadLetter j) j u.restarted ↔
        ¬ Mover.Strands j (.retryDeadLetter j) op)) w := by
  obtain ⟨rec, stored, id, discarded, silent⟩ := silent_of_dead sound entry
  subst id
  have kept : Recoverable lib (.retryDeadLetter rec.id) rec.id w.restarted :=
    recoverable_of_dead stored rfl entry
  have entered : (w.value .dead rec.id).isSome := entry
  have marked := (Moved.refl rec.id w).put (b := .jobs) rfl (marshalJobState
    (revivedJob lib w.clock (unmarshalJobState rec)))
  have withdrawn := marked.delete (b := .dead) rfl
  have announced := withdrawn.publish (queueJobsSubject rec.queue)
  have marks : Recoverable lib (.retryDeadLetter rec.id) rec.id
      (w.put .jobs rec.id (marshalJobState
        (revivedJob lib w.clock (unmarshalJobState rec)))).restarted := by
    refine recoverable_of_dead (congrArg Slot.record marked.slot) rfl ?_
    have same := congrArg Slot.dead marked.slot
    exact (congrArg Option.isSome same).trans entry
  refine cuts_bind.mpr ⟨cuts_exists? (iff_of_true kept id), Lifecycle.wp_exists?.mpr ?_⟩
  rw [entered]
  refine cuts_bind.mpr ⟨cuts_timeNow.mpr (iff_of_true kept id), Lifecycle.wp_timeNow.mpr ?_⟩
  refine cuts_bind.mpr ⟨cuts_getJobState (iff_of_true kept id), Lifecycle.wp_getJobState.mpr ?_⟩
  rw [World.job_of_record stored]
  refine cuts_bind.mpr ⟨cuts_put.mpr (iff_of_true marks id), Lifecycle.wp_put.mpr ?_⟩
  refine cuts_bind.mpr ⟨cuts_delete.mpr ?_, Lifecycle.wp_delete.mpr ?_⟩
  · exact iff_of_false (lost_of_restarted withdrawn rfl (not_back_of_silent silent))
      fun kept => kept rfl
  have brought := back_of_moved announced (by exact ⟨rfl, by simp⟩)
  refine cuts_bind.mpr ⟨cuts_publishJob (iff_of_true (.inl brought) id), ?_⟩
  exact Lifecycle.wp_publishJob.mpr (cuts_info (iff_of_true (.inl brought) id))

/-! ## All of them -/

/-- In every reachable state, when a single call of one of these operations fails, a job that it
moves can be recovered exactly if the call is none of those that lose it; and when the
server ends after a call, exactly if the call is none of those that strand it. -/
theorem recoverable_iff {mover : Mover} (reachable : Reachable lib w)
    (handles : mover.Handles lib w j) :
    (∀ reply t op, faulty.Exec (mover.call.program lib) (w, []) reply (t, [op]) →
      (Recoverable lib mover j t ↔ ¬ Mover.Loses j mover op)) ∧
    ∀ op t, serves.StopsAfter (mover.call.program lib) w op t →
      (Recoverable lib mover j t.restarted ↔ ¬ Mover.Strands j mover op) := by
  have sound := reachable.sound
  cases mover with
  | pass pass =>
    have addressed : Addressed w := fun k => (reachable.addressed k).inflight
    constructor
    · intro reply t op run
      exact pass_recoverable_iff sound addressed handles run
    · intro op t stops
      exact pass_restarted_iff sound addressed handles stops
  | retryDeadLetter jobID =>
    obtain ⟨rfl, entry⟩ := handles
    constructor
    · intro reply t op run
      obtain ⟨r, u, ends, same⟩ := exec_bind.mp run
      obtain rfl := same.2
      exact wp_retryDeadLetter_recoverable sound entry r (t, [op]) ends op rfl
    · intro op t stops
      rcases stopsAfter_bind.mp stops with inside | ⟨_, _, -, last⟩
      · exact cuts_retryDeadLetter sound entry op t inside
      · exact last.elim

/-- A job has failed its first attempt and waits for its retry, which is due. -/
def delayed : World :=
  let mail : Job := { id := "job-1", type := "mail", queue := "mails", maxAttempts := some 2 }
  let enqueued := after (World.start (Sample.instant 0)) (.push mail)
  let claimed := after enqueued (.fetch ["mails"] 1 "worker-1" 0)
  later (after claimed (.nack "job-1" (some { message := "no route" }) false)) 2

theorem reachable_delayed : Reachable sample delayed := by
  have start : Reachable sample (World.start (Sample.instant 0)) := .start (by decide)
  refine Reachable.later (Reachable.after (Reachable.after (start.after ?_) ?_) ?_) (by decide)
  · exact ⟨by decide, fun _ _ => rfl⟩
  · exact fresh_of_no_ids rfl
  · exact fresh_of_no_ids rfl

theorem delayed_due : (Mover.pass .promoteRetries).Handles sample delayed "job-1" := by
  have entry : delayed.value .retry "job-1" = some "2026-01-01T00:00:01.000Z" := by decide
  exact ⟨_, Sample.instant 1, entry, by decide, by decide⟩

/-- Promote the job while certain calls fail. -/
def promoteFailing (failing : Op → Bool) : Option (Reply × World × List Op) :=
  executeFailing failing ((Mover.pass .promoteRetries).call.program sample) (delayed, [])

def unfiles : Op → Bool
  | .delete .retry _ => true
  | _ => false

def announces : Op → Bool
  | .publish _ _ => true
  | _ => false

/-- An entry that cannot be deleted brings the job back once more. -/
theorem recoverable_iff_delayed : ∃ reply t op, promoteFailing unfiles = some (reply, t, [op]) ∧
    (t.slot "job-1").messages = [] ∧ Recoverable sample (.pass .promoteRetries) "job-1" t := by
  have runs : (promoteFailing unfiles).isSome := by decide
  obtain ⟨⟨reply, t, failed⟩, executed⟩ := Option.isSome_iff_exists.mp runs
  have facts : (promoteFailing unfiles).map (fun r => (r.2.2.map unfiles,
      (r.2.1.slot "job-1").messages)) = some ([true], []) := by decide
  rw [executed] at facts
  obtain ⟨single, silent⟩ := Prod.mk.inj (Option.some.inj facts)
  obtain ⟨op, rfl, deletes⟩ := List.map_eq_singleton_iff.mp single
  refine ⟨reply, t, op, executed, silent, ?_⟩
  refine ((recoverable_iff reachable_delayed delayed_due).1 reply t op
    (exec_of_executeFailing executed)).mpr ?_
  cases op with
  | delete b =>
    cases b with
    | retry => exact id
    | _ => cases deletes
  | _ => cases deletes

/-- A job whose publication fails is in no index any more. -/
theorem not_recoverable_delayed : ¬ ∀ (lib : Externals) (w : World) (mover : Mover) (j : String),
    Reachable lib w → mover.Handles lib w j →
    (∀ reply t op, faulty.Exec (mover.call.program lib) (w, []) reply (t, [op]) →
      Recoverable lib mover j t) ∧
    ∀ op t, serves.StopsAfter (mover.call.program lib) w op t →
      Recoverable lib mover j t.restarted := by
  intro recoverable
  have runs : (promoteFailing announces).isSome := by decide
  obtain ⟨⟨reply, t, failed⟩, executed⟩ := Option.isSome_iff_exists.mp runs
  have facts : (promoteFailing announces).map (fun r => (r.2.2.map announces,
      r.2.1.value .retry "job-1", (r.2.1.slot "job-1").messages)) = some ([true], none, []) := by
    decide
  rw [executed] at facts
  obtain ⟨single, facts⟩ := Prod.mk.inj (Option.some.inj facts)
  obtain ⟨gone, silent⟩ := Prod.mk.inj facts
  obtain ⟨op, rfl, -⟩ := List.map_eq_singleton_iff.mp single
  have promised := (recoverable sample delayed _ "job-1" reachable_delayed delayed_due).1 reply t op
    (exec_of_executeFailing executed)
  exact not_recoverable gone (not_back_of_silent silent) promised

end OjsNats.Faults
