import OjsNats.Faults.Frames
import OjsNats.Lifecycle.Sweeps

/-!
# Moving jobs back to their queues when a call fails

The passes and `RetryDeadLetter` write the record of a job, delete its index
entry and publish it, in this order.  A call that fails, or the end of the
server, may come between any two of these.
-/

namespace OjsNats.Nats

open Core

/-- A server that is started again finds what is stored; what it kept in memory is gone. -/
def World.restarted (w : World) : World :=
  { w with inflight := fun _ => none, consumers := fun _ => false, regexCache := fun _ => none }

end OjsNats.Nats

namespace OjsNats.Lifecycle

open Core Nats Effect Semantics Program

/-- The operations that move jobs back to their queues. -/
inductive Mover where
  | pass (pass : Pass)
  | retryDeadLetter (jobID : String)

namespace Mover

def call : Mover → Call
  | .pass .promoteScheduled => .promoteScheduled
  | .pass .promoteRetries => .promoteRetries
  | .pass .requeueStalled => .requeueStalled
  | .retryDeadLetter jobID => .retryDeadLetter jobID

/-- The index in which the operation finds its jobs. -/
def index : Mover → BucketName
  | .pass p => p.index
  | .retryDeadLetter _ => .dead

/-- The job is one that the operation moves. -/
def Handles (lib : Externals) (w : World) (j : String) : Mover → Prop
  | .pass p => p.Due lib w.clock (w.slot j)
  | .retryDeadLetter jobID => j = jobID ∧ (w.slot j).dead.isSome

/-- When this call fails, the job is lost. -/
def Loses (j : String) : Mover → Op → Prop
  | _, .publish _ k => k = j
  | .pass _, .get .jobs k => k = j
  | .pass .requeueStalled, .delete .active k => k = j
  | .pass .requeueStalled, .msgAck m => m.data = j
  | .retryDeadLetter _, .put .jobs k _ => k = j
  | _, _ => False

/-- When the server ends right after this call, the job is lost. -/
def Strands (j : String) : Mover → Op → Prop
  | .pass .promoteScheduled, .delete .scheduled k => k = j
  | .pass .promoteRetries, .delete .retry k => k = j
  | .pass .requeueStalled, .put .jobs k _ => k = j
  | .pass .requeueStalled, .delete .active k => k = j
  | .pass .requeueStalled, .inflightLoadAndDelete k => k = j
  | .pass .requeueStalled, .msgAck m => m.data = j
  | .retryDeadLetter _, .delete .dead k => k = j
  | _, _ => False

end Mover

/-- The job is available and has a message that a fetch can take. -/
def Slot.Back (s : Slot) : Prop := s.state = some .available ∧ s.messages ≠ []

/-- The job is back in its queue, or has an entry by which any later run of the
operation brings it back. -/
def Recoverable (lib : Externals) (mover : Mover) (j : String) (t : World) : Prop :=
  (t.slot j).Back ∨ (t.value mover.index j).isSome ∧ ∀ now reply u, t.clock ≤ now →
    serves.Exec (mover.call.program lib) { t with clock := now } reply u → (u.slot j).Back

variable {lib : Externals} {w t : World} {j k : String} {now : Int} {s s' : Slot} {pass : Pass}

/-! ## What is in flight -/

/-- Every message of a slot, undelivered or in flight, is about its job. -/
structure Slot.Addressed (j : String) (s : Slot) : Prop where
  inflight : ∀ msg, s.inflight = some msg → msg.data = j
  messages : ∀ msg ∈ s.messages, msg.data = j

theorem Slot.Addressed.vacant (j : String) : Slot.vacant.Addressed j :=
  ⟨by simp [Slot.vacant], by simp [Slot.vacant]⟩

theorem Slot.Step.addressed {m : Move} (step : Slot.Step lib now j m s s') (placed : s.Placed j)
    (addressed : s.Addressed j) : s'.Addressed j := by
  have dropped (msg : Msg) (held : none = some msg) : msg.data = j := by cases held
  have announced {rec : JobState} (id : rec.id = j) :
      ∀ msg ∈ s.messages ++ [announcement now rec], msg.data = j :=
    List.forall_mem_append.mpr ⟨addressed.messages, List.forall_mem_singleton.mpr id⟩
  cases step with
  | enqueue _ id => exact ⟨addressed.inflight, announced id⟩
  | schedule | extend | forget => exact ⟨addressed.inflight, addressed.messages⟩
  | claim _ one =>
    refine ⟨fun msg held => ?_, by simp⟩
    cases held
    exact addressed.messages _ (one ▸ List.mem_singleton_self _)
  | expire | skip => exact ⟨dropped, by simp⟩
  | complete | discard | retryLater | cancel => exact ⟨dropped, addressed.messages⟩
  | requeue _ stored _ next =>
    exact ⟨dropped, announced (next.id.trans (placed.keyed _ stored))⟩
  | promoteScheduled stored _ next | promoteRetry stored _ next | revive stored _ next =>
    exact ⟨addressed.inflight, announced (next.id.trans (placed.keyed _ stored))⟩

theorem Slot.Evolves.addressed {allowed : Move → Prop} (h : s.Evolves lib now j allowed s')
    (placed : s.Placed j) (addressed : s.Addressed j) : s'.Addressed j := by
  induction h with
  | refl => exact addressed
  | tail before step ih =>
    obtain ⟨m, -, step⟩ := step
    exact step.addressed (Slot.Evolves.placed before placed) ih

theorem Reachable.addressed (reachable : Reachable lib w) (j : String) :
    (w.slot j).Addressed j := by
  induction reachable with
  | start => exact .vacant j
  | step before step ih =>
    exact (step.evolves before.sound j).addressed (before.sound.placed j) ih

/-! ## A later pass -/

theorem Pass.Due.later {later : Int} (due : pass.Due lib now s) (le : now ≤ later) :
    pass.Due lib later s := by
  cases pass with
  | promoteScheduled | promoteRetries =>
    obtain ⟨text, time, entry, read, passed⟩ := due
    exact ⟨text, time, entry, read, passed.trans le⟩
  | requeueStalled =>
    obtain ⟨info, deadline, entry, read, passed⟩ := due
    exact ⟨info, deadline, entry, read, passed.trans_le le⟩

/-- The reaper only brings back active jobs. -/
def Pass.Takes (pass : Pass) (rec : JobState) : Prop := pass = .requeueStalled → rec.state = .active

theorem Pass.back_treated {rec : JobState} (stored : s.record = some rec)
    (takes : pass.Takes rec) : (pass.treated lib now s).Back := by
  cases pass with
  | promoteScheduled | promoteRetries =>
    simp only [treated, promoted, stored]
    exact ⟨by simp [Slot.state, Slot.write, enqueuedJob], by simp⟩
  | requeueStalled =>
    simp only [treated, reaped, stored, takes rfl, ↓reduceIte]
    exact ⟨by simp [Slot.state, requeuedJob], by simp⟩

theorem exec_pass {S : Type} {H : Semantics Op Ans S} {before after : S} {reply : Reply}
    (run : H.Exec ((Mover.pass pass).call.program lib) before reply after) :
    ∃ r, H.Exec (pass.program lib) before r after := by
  have ended {α : Type} {p : Prog α} {f : α → Reply}
      (run : H.Exec (p.bind fun a => .pure (f a)) before reply after) :
      ∃ a, H.Exec p before a after := by
    obtain ⟨a, _, first, -, rfl⟩ := exec_bind.mp run
    exact ⟨a, first⟩
  cases pass <;> exact ended run

/-- Where the entry is due, recovery depends on what a pass makes of the job. -/
theorem recoverable_pass (own : UnderOwnIDs t) (due : pass.Due lib t.clock (t.slot j)) :
    Recoverable lib (.pass pass) j t ↔ (t.slot j).Back ∨
      ∀ later, t.clock ≤ later → (pass.treated lib later (t.slot j)).Back := by
  have own' (later : Int) : UnderOwnIDs { t with clock := later } := own
  constructor
  · intro recoverable
    refine recoverable.imp id fun ⟨_, brings⟩ later le => ?_
    obtain ⟨reply, u, run⟩ := exists_exec serves_answers ((Mover.pass pass).call.program lib)
      { t with clock := later }
    obtain ⟨r, ends⟩ := exec_pass run
    have swept := program_swept pass (own' later) r u ends
    have back := brings later reply u le run
    rwa [swept.due j (due.later le)] at back
  · intro h
    have entry : (t.value (Mover.pass pass).index j).isSome := Pass.isSome_of_due due
    refine h.imp id fun back => ⟨entry, fun later reply u le run => ?_⟩
    obtain ⟨r, ends⟩ := exec_pass run
    have swept := program_swept pass (own' later) r u ends
    rw [swept.due j (due.later le)]
    exact back later le

/-- Without an entry nothing brings the job back. -/
theorem not_recoverable {mover : Mover} (gone : t.value mover.index j = none)
    (away : ¬ (t.slot j).Back) : ¬ Recoverable lib mover j t := by
  intro recoverable
  rcases recoverable with back | ⟨entry, -⟩
  · exact away back
  · rw [gone] at entry
    cases entry

end OjsNats.Lifecycle

namespace OjsNats.Faults

open Core Nats Effect Semantics Program Lifecycle

variable {lib : Externals} {w m t : World} {log failed : List Op} {b : BucketName} {j k : String}
  {now : Int} {s s' : Slot} {pass : Pass}

/-! ## Calls that fail -/

theorem keyNotFound_of_lookup {e : CallError} (found : w.lookup b k = .error e) :
    e = .keyNotFound := by
  unfold World.lookup at found
  split at found
  · cases found
  · cases found
    rfl

theorem wp_delete {Q : Except CallError Unit → World × List Op → Prop} :
    faulty.wp (Store.delete b k) Q (w, log) ↔
      Q (.ok ()) (w.delete b k, log) ∧ Q (.error .unavailable) (w, log ++ [.delete b k]) := by
  refine wp_ask_failing.trans (and_congr ?_ ?_)
  · exact ⟨fun h => h _ _ ⟨rfl, rfl⟩, by rintro h _ _ ⟨rfl, rfl⟩; exact h⟩
  · exact ⟨fun h => h _ _ ⟨rfl, rfl⟩, by rintro h _ _ ⟨rfl, rfl⟩; exact h⟩

theorem wp_getJobState {Q : Except CallError Job → World × List Op → Prop}
    (served : Q (w.job k) (w, log))
    (failed : Q (.error .unavailable) (w, log ++ [.get .jobs k])) :
    faulty.wp (getJobState k) Q (w, log) := by
  refine wp_bind.mpr ((wp_get .jobs).mpr ⟨?_, wp_pure.mpr failed⟩)
  unfold World.job at served
  cases found : w.lookup .jobs k with
  | error e =>
    obtain rfl : e = .keyNotFound := keyNotFound_of_lookup found
    rw [World.lookup_error w found] at served
    exact wp_pure.mpr served
  | ok entry =>
    rw [World.lookup_value w found] at served
    exact wp_pure.mpr served

theorem wp_ackMessage {Q : Except CallError Unit → World × List Op → Prop}
    (served : Q (.ok ()) (w.track k none, log))
    (failed : ∀ m, w.inflight k = some m →
      Q (.error .unavailable) (w.track k none, log ++ [.msgAck m])) :
    faulty.wp (ackMessage k) Q (w, log) := by
  refine wp_bind.mpr (wp_ask_faulty.mpr ⟨(wp_ask_of fun _ _ => Iff.rfl).mpr ?_, fun _ step => step.elim⟩)
  cases held : w.inflight k with
  | none => exact wp_pure.mpr served
  | some m =>
    refine wp_ask_faulty.mpr ⟨(wp_ask_of fun _ _ => Iff.rfl).mpr served, fun r step => ?_⟩
    obtain ⟨rfl, -⟩ := step
    exact failed m held

theorem wp_keys {Q : Except CallError (List String) → World × List Op → Prop}
    (listed : ∀ keys, keys.Nodup → (∀ k, k ∈ keys ↔ (w.value b k).isSome) → Q (.ok keys) (w, log))
    (failed : Q (.error .unavailable) (w, log ++ [.keys b])) :
    faulty.wp (Store.keys b) Q (w, log) := by
  have all (keys : List String) (perm : keys.Perm (w.kv b).keys) : Q (.ok keys) (w, log) :=
    listed keys (perm.nodup_iff.mpr (w.kv b).keys_nodup) fun k =>
      perm.mem_iff.trans ((w.kv b).mem_keys_iff k)
  refine wp_bind.mpr (wp_ask_faulty.mpr ⟨wp_ask.mpr fun r u step => ?_, fun r step => ?_⟩)
  · obtain ⟨rfl, listing⟩ := step
    split at listing
    · rename_i empty
      subst listing
      exact wp_pure.mpr (all [] (by rw [empty]))
    · obtain ⟨keys, rfl, perm⟩ := listing
      exact wp_pure.mpr (all keys perm)
  · obtain ⟨rfl, -⟩ := step
    exact wp_pure.mpr failed

/-! ## A turn of a pass -/

/-- The call is about the job. -/
def About (k : String) : Op → Prop
  | .get _ key | .put _ key _ | .delete _ key | .publish _ key | .inflightLoadAndDelete key =>
    key = k
  | .msgAck m => m.data = k
  | _ => False

/-- The record that a pass writes for a due job. -/
def rewritten (lib : Externals) (now : Int) (rec : JobState) : Pass → JobState
  | .requeueStalled => marshalJobState (requeuedJob lib now (unmarshalJobState rec))
  | _ => marshalJobState (enqueuedJob lib .available now (unmarshalJobState rec))

/-- The slot of a due job between the writing of its record and the publication. -/
def withdrawn (lib : Externals) (pass : Pass) (now : Int) (rec : JobState) (s : Slot) : Slot :=
  (s.write .jobs (some (rewritten lib now rec pass))).write pass.index none

/-- How far a pass gets with a job: the calls that fail in its turn, and the job's slot after it. -/
inductive Attempt (lib : Externals) (pass : Pass) (k : String) (now : Int) (s : Slot) :
    List Op → Slot → Prop
  | idle : ¬ pass.Due lib now s → Attempt lib pass k now s [] s
  | done : Attempt lib pass k now s [] (pass.treated lib now s)
  | unread : Attempt lib pass k now s [.get pass.index k] s
  | unknown : Attempt lib pass k now s [.get .jobs k] (s.write pass.index none)
  | unwritten {rec : JobState} : Attempt lib pass k now s [.put .jobs k rec] s
  | unforgotten : (∀ rec, s.record = some rec → ¬ pass.Takes rec) →
      Attempt lib pass k now s [.delete pass.index k] s
  | unremoved {rec : JobState} : s.record = some rec → pass.Takes rec →
      Attempt lib pass k now s [.delete pass.index k]
        (s.write .jobs (some (rewritten lib now rec pass)))
  | unacked {rec : JobState} {msg : Msg} : s.record = some rec → s.inflight = some msg →
      pass = .requeueStalled →
      Attempt lib pass k now s [.msgAck msg] { withdrawn lib pass now rec s with inflight := none }
  | unannounced {rec : JobState} {subject : String} {s' : Slot} : s.record = some rec →
      s' = withdrawn lib pass now rec s ∨
        s' = { withdrawn lib pass now rec s with inflight := none } →
      Attempt lib pass k now s [.publish subject k] s'
  | twice : Attempt lib pass k now s [.get .jobs k, .delete pass.index k] s

/-- A turn has been tried from one world to another. -/
def Tried (lib : Externals) (pass : Pass) (k : String) (m : World) (log : List Op)
    (u : World × List Op) : Prop :=
  ∃ failed s, u.2 = log ++ failed ∧ Attempt lib pass k m.clock (m.slot k) failed s ∧
    Moved k s m u.1

theorem treated_of_promotes {rec : JobState}
    (promotes : pass = .promoteScheduled ∨ pass = .promoteRetries) (stored : s.record = some rec) :
    pass.treated lib now s = { withdrawn lib pass now rec s with
      messages := (withdrawn lib pass now rec s).messages ++
        [⟨queueJobsSubject rec.queue, rec.id, now⟩] } := by
  rcases promotes with rfl | rfl
  all_goals
    simp only [Pass.treated, Pass.promoted, stored]
    rfl

theorem tried_promoteJob (own : UnderOwnIDs m)
    (promotes : pass = .promoteScheduled ∨ pass = .promoteRetries) (what : String)
    (firstErr : FirstErr) : faulty.wp (promoteJob lib pass.index what m.clock k firstErr)
      (fun _ u => Tried lib pass k m log u) (m, log) := by
  have guarded : Guarded pass.index = false := by rcases promotes with rfl | rfl <;> rfl
  have treats : pass.treated lib m.clock (m.slot k) =
      Pass.promoted lib pass.index m.clock (m.slot k) := by
    rcases promotes with rfl | rfl <;> rfl
  have moved := Moved.refl k m
  have dropped : Moved k ((m.slot k).write pass.index none) m (m.delete pass.index k) :=
    moved.delete guarded
  refine wp_bind.mpr (wp_getJobState ?_ ?_)
  · cases stored : (m.slot k).record with
    | none =>
      rw [World.job_of_none stored]
      refine wp_bind.mpr (wp_delete.mpr ⟨wp_pure.mpr ?_, wp_pure.mpr ?_⟩)
      · refine ⟨[], _, (List.append_nil log).symm, .done, ?_⟩
        rw [treats, Pass.promoted, stored]
        exact dropped
      · exact ⟨_, _, rfl, .unforgotten (by simp [stored]), moved⟩
    | some rec =>
      obtain rfl : rec.id = k := own k rec stored
      have takes : pass.Takes rec := by
        rintro rfl
        simp at promotes
      have rewrites : marshalJobState (enqueuedJob lib .available m.clock
          (unmarshalJobState rec)) = rewritten lib m.clock rec pass := by
        rcases promotes with rfl | rfl <;> rfl
      have stores := moved.put (b := .jobs) rfl (rewritten lib m.clock rec pass)
      have withdraws : Moved rec.id (withdrawn lib pass m.clock rec (m.slot rec.id)) m _ :=
        stores.delete guarded
      rw [World.job_of_record stored]
      refine wp_bind.mpr (wp_put.mpr ⟨?_, wp_pure.mpr ⟨_, _, rfl, .unwritten, moved⟩⟩)
      rw [rewrites]
      refine wp_bind.mpr (wp_delete.mpr ⟨?_, wp_pure.mpr ?_⟩)
      · refine wp_bind.mpr (wp_publishJob (wp_pure.mpr ?_) fun e => wp_pure.mpr ?_)
        · refine ⟨[], _, (List.append_nil log).symm, .done, ?_⟩
          rw [treated_of_promotes promotes stored]
          exact withdraws.publish (queueJobsSubject rec.queue)
        · exact ⟨_, _, rfl, .unannounced stored (.inl rfl), withdraws⟩
      · exact ⟨_, _, rfl, .unremoved stored takes, stores⟩
  · refine wp_bind.mpr (wp_delete.mpr ⟨wp_pure.mpr ?_, wp_pure.mpr ?_⟩)
    · exact ⟨_, _, rfl, .unknown, dropped⟩
    · exact ⟨_, _, List.append_assoc _ _ _, .twice, moved⟩

theorem tried_requeueJob (own : UnderOwnIDs m) (firstErr : FirstErr) :
    faulty.wp (requeueJob lib m.clock k firstErr)
      (fun _ u => Tried lib .requeueStalled k m log u) (m, log) := by
  have moved := Moved.refl k m
  have dropped : Moved k { m.slot k with active := none } m (m.delete .active k) :=
    moved.delete (b := .active) rfl
  refine wp_bind.mpr (wp_getJobState ?_ ?_)
  · cases stored : (m.slot k).record with
    | none =>
      rw [World.job_of_none stored]
      refine wp_bind.mpr (wp_delete.mpr ⟨wp_pure.mpr ?_, wp_pure.mpr ?_⟩)
      · refine ⟨[], _, (List.append_nil log).symm, .done, ?_⟩
        rw [Pass.treated, Pass.reaped_of_inactive (by simp [stored])]
        exact dropped
      · exact ⟨_, _, rfl, .unforgotten (by simp [stored]), moved⟩
    | some rec =>
      obtain rfl : rec.id = k := own k rec stored
      rw [World.job_of_record stored]
      dsimp only
      split
      · rename_i inactive
        refine wp_bind.mpr (wp_delete.mpr ⟨wp_pure.mpr ?_, wp_pure.mpr ?_⟩)
        · refine ⟨[], _, (List.append_nil log).symm, .done, ?_⟩
          rw [Pass.treated, Pass.reaped_of_inactive (by simpa [stored] using inactive)]
          exact dropped
        · refine ⟨_, _, rfl, .unforgotten fun rec' stored' takes => ?_, moved⟩
          obtain rfl := Option.some.inj (stored.symm.trans stored')
          exact inactive (takes rfl)
      · rename_i active
        replace active : rec.state = .active := not_not.mp active
        have stores := moved.put (b := .jobs) rfl (rewritten lib m.clock rec .requeueStalled)
        have withdraws : Moved rec.id (withdrawn lib .requeueStalled m.clock rec (m.slot rec.id)) m
            _ := stores.delete (b := .active) rfl
        have settled := withdraws.track none
        refine wp_bind.mpr (wp_put.mpr ⟨?_, wp_pure.mpr ⟨_, _, rfl, .unwritten, moved⟩⟩)
        refine wp_bind.mpr (wp_delete.mpr ⟨?_, wp_pure.mpr ?_⟩)
        · refine wp_bind.mpr (wp_ackMessage ?_ fun msg held => wp_pure.mpr ?_)
          · refine wp_bind.mpr (wp_publishJob (wp_pure.mpr ?_) fun e => wp_pure.mpr ?_)
            · refine ⟨[], _, (List.append_nil log).symm, .done, ?_⟩
              simp only [Pass.treated, Pass.reaped, stored, active, ↓reduceIte]
              exact settled.publish (queueJobsSubject rec.queue)
            · exact ⟨_, _, rfl, .unannounced stored (.inr rfl), settled⟩
          · exact ⟨_, _, rfl, .unacked stored held rfl, settled⟩
        · exact ⟨_, _, rfl, .unremoved stored (fun _ => active), stores⟩
  · refine wp_bind.mpr (wp_delete.mpr ⟨wp_pure.mpr ?_, wp_pure.mpr ?_⟩)
    · exact ⟨_, _, rfl, .unknown, dropped⟩
    · exact ⟨_, _, List.append_assoc _ _ _, .twice, moved⟩

theorem Tried.still (idle : ¬ pass.Due lib m.clock (m.slot k)) :
    Tried lib pass k m log (m, log) :=
  ⟨[], _, (List.append_nil log).symm, .idle idle, .refl k m⟩

/-- The entry cannot be read. -/
theorem Tried.unread : Tried lib pass k m log (m, log ++ [.get pass.index k]) :=
  ⟨_, _, rfl, .unread, .refl k m⟩

theorem tried_promoteScheduledJob (own : UnderOwnIDs m) (firstErr : FirstErr) :
    faulty.wp (promoteScheduledJob lib m.clock k firstErr)
      (fun _ u => Tried lib .promoteScheduled k m log u) (m, log) := by
  refine wp_bind.mpr ((wp_get .scheduled).mpr ⟨?_, wp_pure.mpr .unread⟩)
  refine wp_entry (lookup_toOption m .scheduled k) (fun idle => .still idle) fun _ => ?_
  exact tried_promoteJob own (.inl rfl) _ _

theorem tried_promoteRetriesJob (own : UnderOwnIDs m) (firstErr : FirstErr) :
    faulty.wp (promoteRetriesJob lib m.clock k firstErr)
      (fun _ u => Tried lib .promoteRetries k m log u) (m, log) := by
  refine wp_bind.mpr ((wp_get .retry).mpr ⟨?_, wp_pure.mpr .unread⟩)
  refine wp_entry (lookup_toOption m .retry k) (fun idle => .still idle) fun _ => ?_
  exact tried_promoteJob own (.inr rfl) _ _

theorem tried_requeueStalledJob (own : UnderOwnIDs m) (firstErr : FirstErr) :
    faulty.wp (requeueStalledJob lib m.clock k firstErr)
      (fun _ u => Tried lib .requeueStalled k m log u) (m, log) := by
  refine wp_bind.mpr ((wp_get .active).mpr ⟨?_, wp_pure.mpr .unread⟩)
  refine wp_lease (lookup_toOption m .active k) (fun idle => .still idle) fun _ => ?_
  exact tried_requeueJob own _

/-! ## What an attempt leaves -/

section Attempt

variable {rec : JobState}

@[simp] theorem withdrawn_messages : (withdrawn lib pass now rec s).messages = s.messages := by
  cases pass <;> rfl

@[simp] theorem withdrawn_record :
    (withdrawn lib pass now rec s).record = some (rewritten lib now rec pass) := by
  cases pass <;> rfl

@[simp] theorem rewritten_id : (rewritten lib now rec pass).id = rec.id := by
  cases pass <;> rfl

@[simp] theorem rewritten_state : (rewritten lib now rec pass).state = .available := by
  cases pass <;> rfl

/-- The job has an entry in the index of the pass. -/
def Entered (s : Slot) : Pass → Bool
  | .promoteScheduled => s.scheduled.isSome
  | .promoteRetries => s.retry.isSome
  | .requeueStalled => s.active.isSome

theorem isSome_index : (t.value (Mover.pass pass).index j).isSome = Entered (t.slot j) pass := by
  cases pass <;> rfl

theorem not_entered_write : Entered (s.write pass.index none) pass = false := by
  cases pass <;> rfl

theorem not_entered_withdrawn {inflight : Option Msg} :
    Entered { withdrawn lib pass now rec s with inflight := inflight } pass = false := by
  cases pass <;> rfl

/-- The writing of a record touches no entry. -/
theorem due_write {later : Int} {value : Option JobState} (due : pass.Due lib later s) :
    pass.Due lib later (s.write .jobs value) := by
  cases pass <;> exact due

theorem Attempt.about (attempt : Attempt lib pass k now s failed s')
    (addressed : ∀ msg, s.inflight = some msg → msg.data = k) : ∀ op ∈ failed, About k op := by
  cases attempt with
  | idle | done => simp
  | unacked _ held => simpa [About] using addressed _ held
  | unread | unknown | unwritten | unforgotten | unremoved | unannounced | twice => simp [About]

theorem Attempt.ids (attempt : Attempt lib pass k now s failed s')
    (own : ∀ rec, s.record = some rec → rec.id = k) : ∀ rec, s'.record = some rec → rec.id = k := by
  have rewrites {rec new : JobState} (stored : s.record = some rec)
      (same : some (rewritten lib now rec pass) = some new) : new.id = k := by
    cases same
    rw [rewritten_id]
    exact own rec stored
  cases attempt with
  | done => exact Pass.id_treated own
  | unknown =>
    have kept : (s.write pass.index none).record = s.record := by cases pass <;> rfl
    rwa [kept]
  | unremoved stored => exact fun _ same => rewrites stored same
  | unacked stored =>
    exact fun _ same => rewrites stored (withdrawn_record.symm.trans same)
  | unannounced stored left =>
    rcases left with rfl | rfl
    all_goals exact fun _ same => rewrites stored (withdrawn_record.symm.trans same)
  | idle | unread | unwritten | unforgotten | twice => exact own

theorem Attempt.inflight (attempt : Attempt lib pass k now s failed s') :
    s'.inflight = s.inflight ∨ s'.inflight = none := by
  have withdraws {rec : JobState} : (withdrawn lib pass now rec s).inflight = s.inflight := by
    cases pass <;> rfl
  cases attempt with
  | done =>
    cases pass with
    | promoteScheduled | promoteRetries =>
      refine .inl ?_
      simp only [Pass.treated, Pass.promoted]
      split <;> rfl
    | requeueStalled =>
      simp only [Pass.treated, Pass.reaped]
      split
      · exact .inl rfl
      · split
        · exact .inr rfl
        · exact .inl rfl
  | unknown => exact .inl (by cases pass <;> rfl)
  | unacked => exact .inr rfl
  | unannounced _ left =>
    rcases left with rfl | rfl
    · exact .inl withdraws
    · exact .inr rfl
  | idle | unread | unwritten | unforgotten | unremoved | twice => exact .inl rfl

end Attempt

/-! ## A job that a pass has to move -/

/-- A job with a due entry in a sound world: what the pass finds of it. -/
structure Waiting (pass : Pass) (s : Slot) (rec : JobState) : Prop where
  stored : s.record = some rec
  takes : pass.Takes rec
  away : rec.state ≠ .available
  silent : s.messages = []

theorem waiting_of_due (sound : Sound w) (due : pass.Due lib now (w.slot j)) :
    ∃ rec, Waiting pass (w.slot j) rec := by
  have placed := sound.placed j
  have waits {state : State} (here : (w.slot j).state = some state)
      (takes : pass = .requeueStalled → state = .active) (available : state ≠ .available)
      (cancelled : state ≠ .cancelled) : ∃ rec, Waiting pass (w.slot j) rec := by
    obtain ⟨rec, stored, same⟩ := record_of_isSome here
    exact ⟨rec, stored, fun kind => same.trans (takes kind), same ▸ available,
      placed.messages_nil stored (same ▸ available) (same ▸ cancelled)⟩
  have entered := Pass.isSome_of_due (w := w) due
  cases pass with
  | promoteScheduled => exact waits (placed.scheduled_iff.mp entered) (by simp) (by simp) (by simp)
  | promoteRetries => exact waits (placed.retry_iff.mp entered) (by simp) (by simp) (by simp)
  | requeueStalled =>
    exact waits (placed.active_iff.mp entered) (fun _ => rfl) (by simp) (by simp)

theorem not_back_of_silent (silent : s.messages = []) : ¬ s.Back := fun back => back.2 silent

/-- A job whose entry is due is recoverable if the pass takes it as it is. -/
theorem recoverable_of_due {rec : JobState} (own : UnderOwnIDs t)
    (due : pass.Due lib t.clock (t.slot j)) (stored : (t.slot j).record = some rec)
    (takes : pass.Takes rec) : Recoverable lib (.pass pass) j t :=
  (recoverable_pass own due).mpr (.inr fun _ _ => Pass.back_treated stored takes)

/-- A job without an entry and without a message is lost. -/
theorem lost_of_not_entered (gone : Entered (t.slot j) pass = false)
    (silent : (t.slot j).messages = []) : ¬ Recoverable lib (.pass pass) j t := by
  refine not_recoverable ?_ (not_back_of_silent silent)
  rw [← isSome_index] at gone
  exact Option.not_isSome_iff_eq_none.mp (by simp [gone])

/-- The reaper drops the lease of a job that is not active, and no more. -/
theorem lost_of_inactive {rec : JobState} (own : UnderOwnIDs t)
    (due : Pass.requeueStalled.Due lib t.clock (t.slot j))
    (stored : (t.slot j).record = some rec) (inactive : rec.state ≠ .active)
    (silent : (t.slot j).messages = []) : ¬ Recoverable lib (.pass .requeueStalled) j t := by
  rw [recoverable_pass own due]
  intro recoverable
  rcases recoverable with back | brings
  · exact not_back_of_silent silent back
  · have back := brings t.clock (Int.le_refl _)
    rw [Pass.treated, Pass.reaped_of_inactive (by simpa [stored] using inactive)] at back
    exact not_back_of_silent silent back

/-- A pass that gets through with a job has brought it back. -/
theorem Attempt.back {rec : JobState} (attempt : Attempt lib pass k now s [] s')
    (due : pass.Due lib now s) (waiting : Waiting pass s rec) : s'.Back := by
  cases attempt with
  | idle still => exact absurd due still
  | done => exact Pass.back_treated waiting.stored waiting.takes

/-- Of the calls about a job, those that lose it when they fail are the reading of its
record and the publication, and for the reaper all after the writing of the record. -/
theorem Attempt.recovers_iff {rec : JobState} {op : Op}
    (attempt : Attempt lib pass j now s [op] (t.slot j)) (own : UnderOwnIDs t)
    (clock : t.clock = now) (due : pass.Due lib now s) (waiting : Waiting pass s rec)
    (addressed : ∀ msg, s.inflight = some msg → msg.data = j) :
    Recoverable lib (.pass pass) j t ↔ ¬ Mover.Loses j (.pass pass) op := by
  subst clock
  have same (kept : t.slot j = s) : Recoverable lib (.pass pass) j t :=
    recoverable_of_due own (kept ▸ due) (kept ▸ waiting.stored) waiting.takes
  generalize after : t.slot j = s' at attempt
  cases attempt with
  | unread =>
    refine iff_of_true (same after) ?_
    cases pass <;> exact id
  | unwritten =>
    refine iff_of_true (same after) ?_
    cases pass <;> exact id
  | unforgotten leaves => exact absurd waiting.takes (leaves rec waiting.stored)
  | unknown =>
    refine iff_of_false (lost_of_not_entered (after ▸ not_entered_write) ?_) ?_
    · rw [after]
      exact (by cases pass <;> rfl : (s.write pass.index none).messages = s.messages).trans
        waiting.silent
    · cases pass <;> exact fun kept => kept rfl
  | @unremoved rec' stored takes =>
    have written : (t.slot j).record = some (rewritten lib t.clock rec' pass) := by
      rw [after]
      rfl
    have due' : pass.Due lib t.clock (t.slot j) := after ▸ due_write due
    cases pass with
    | promoteScheduled | promoteRetries =>
      exact iff_of_true (recoverable_of_due own due' written (by simp [Pass.Takes])) id
    | requeueStalled =>
      refine iff_of_false (lost_of_inactive own due' written (by simp) ?_) fun kept => kept rfl
      rw [after]
      exact waiting.silent
  | unacked _ held reaps =>
    subst reaps
    refine iff_of_false (lost_of_not_entered (after ▸ not_entered_withdrawn) ?_) fun kept =>
      kept (addressed _ held)
    rw [after]
    exact withdrawn_messages.trans waiting.silent
  | unannounced _ left =>
    refine iff_of_false (lost_of_not_entered ?_ ?_) ?_
    · rcases left with rfl | rfl
      · exact after ▸ not_entered_write
      · exact after ▸ not_entered_withdrawn
    · rcases left with rfl | rfl
      all_goals
        rw [after]
        exact withdrawn_messages.trans waiting.silent
    · cases pass <;> exact fun kept => kept rfl

/-! ## The whole pass -/

/-- A message that is in flight is about its job. -/
def Addressed (w : World) : Prop := ∀ k msg, w.inflight k = some msg → msg.data = k

/-- The calls are about other jobs. -/
def Elsewhere (j : String) (ops : List Op) : Prop := ∀ op ∈ ops, ∃ k, k ≠ j ∧ About k op

theorem Elsewhere.append {ops more : List Op} (h : Elsewhere j ops) (h' : Elsewhere j more) :
    Elsewhere j (ops ++ more) :=
  List.forall_mem_append.mpr ⟨h, h'⟩

theorem About.unique {op : Op} (here : About j op) (there : About k op) : k = j := by
  cases op with
  | get | put | delete | publish | inflightLoadAndDelete | msgAck => exact there.symm.trans here
  | _ => exact here.elim

theorem about_of_loses {op : Op} (loses : Mover.Loses j (.pass pass) op) : About j op := by
  unfold Mover.Loses at loses
  split at loses
  · exact loses
  · exact loses
  · exact loses
  · exact loses
  · exact loses
  · exact loses.elim

/-- What has become of a job in the middle of a pass: its turn is still to come, or it has had it. -/
inductive Course (lib : Externals) (pass : Pass) (j : String) (w : World) (rest : List String)
    (v : World) (log : List Op) : Prop
  | ahead : j ∈ rest → v.slot j = w.slot j → Elsewhere j log → Course lib pass j w rest v log
  | behind {before mine after : List Op} : j ∉ rest → log = before ++ mine ++ after →
      Elsewhere j before → Elsewhere j after →
      Attempt lib pass j w.clock (w.slot j) mine (v.slot j) → Course lib pass j w rest v log

/-- Between two turns of a pass in which calls may fail. -/
structure Amid (lib : Externals) (pass : Pass) (j : String) (w : World) (rest : List String)
    (v : World) (log : List Op) : Prop where
  own : UnderOwnIDs v
  addressed : Addressed v
  clock : v.clock = w.clock
  distinct : rest.Nodup
  course : Course lib pass j w rest v log

theorem Amid.turn {rest : List String} {v u : World} {log' : List Op}
    (amid : Amid lib pass j w (k :: rest) v log) (tried : Tried lib pass k v log (u, log')) :
    Amid lib pass j w rest u log' := by
  obtain ⟨failed, s, same, attempt, moved⟩ := tried
  dsimp only at same moved
  subst same
  obtain ⟨absent, distinct⟩ := List.nodup_cons.mp amid.distinct
  have about := attempt.about (amid.addressed k)
  constructor
  · intro i rec stored
    by_cases here : i = k
    · subst here
      rw [moved.slot] at stored
      exact attempt.ids (amid.own i) rec stored
    · rw [moved.others i here] at stored
      exact amid.own i rec stored
  · intro i msg held
    have held' : (u.slot i).inflight = some msg := held
    by_cases here : i = k
    · subst here
      rw [moved.slot] at held'
      rcases attempt.inflight with kept | gone
      · exact amid.addressed i msg (kept.symm.trans held')
      · cases gone.symm.trans held'
    · rw [moved.others i here] at held'
      exact amid.addressed i msg held'
  · exact moved.clock.trans amid.clock
  · exact distinct
  · cases amid.course with
    | ahead mem kept elsewhere =>
      by_cases here : j = k
      · subst here
        refine .behind absent (List.append_nil _).symm elsewhere (by simp [Elsewhere]) ?_
        rw [moved.slot, ← kept, ← amid.clock]
        exact attempt
      · refine .ahead ((List.mem_cons.mp mem).resolve_left here) ?_ ?_
        · rw [moved.others j here, kept]
        · exact elsewhere.append fun op mem => ⟨k, Ne.symm here, about op mem⟩
    | @behind before mine after out whole before' after' own =>
      obtain ⟨other, out⟩ : j ≠ k ∧ j ∉ rest := by simpa [List.mem_cons, not_or] using out
      have whole' : log ++ failed = before ++ mine ++ (after ++ failed) := by
        rw [whole, List.append_assoc]
      refine .behind out whole' before' (after'.append fun op mem => ?_) ?_
      · exact ⟨k, Ne.symm other, about op mem⟩
      · rw [moved.others j other]
        exact own

/-- What a pass leaves of a job with a due entry, and where the calls failed: its listing
failed, or the job has had its turn. -/
theorem wp_pass {body : Int → String → FirstErr → Prog FirstErr} (own : UnderOwnIDs w)
    (addressed : Addressed w) (due : pass.Due lib w.clock (w.slot j))
    (turn : ∀ k firstErr v log, UnderOwnIDs v → faulty.wp (body v.clock k firstErr)
      (fun _ u => Tried lib pass k v log u) (v, log)) :
    faulty.wp (do
      match ← Store.keys pass.index with
      | .error e => return .error (.call e)
      | .ok keys =>
          let now ← timeNow
          let firstErr ← Program.forEach keys none (body now)
          return (passResult firstErr : Result Unit))
      (fun _ u => u = (w, [.keys pass.index]) ∨ Amid lib pass j w [] u.1 u.2) (w, []) := by
  refine wp_bind.mpr (wp_keys (fun keys distinct listed => ?_) (wp_pure.mpr (.inl rfl)))
  refine wp_bind.mpr (wp_timeNow.mpr (wp_bind.mpr ?_))
  have listed' : j ∈ keys := (listed j).mpr (Pass.isSome_of_due due)
  refine wp_forEach (fun rest _ v => Amid lib pass j w rest v.1 v.2)
    ⟨own, addressed, rfl, distinct, .ahead listed' rfl (by simp [Elsewhere])⟩ ?_
    fun _ _ amid => wp_pure.mpr (.inr amid)
  intro k rest firstErr v amid
  obtain ⟨v, log⟩ := v
  rw [← amid.clock]
  exact (turn k firstErr v log amid.own).mono fun _ _ tried => amid.turn tried

theorem pass_amid (own : UnderOwnIDs w) (addressed : Addressed w)
    (due : pass.Due lib w.clock (w.slot j)) : faulty.wp (pass.program lib)
      (fun _ u => u = (w, [.keys pass.index]) ∨ Amid lib pass j w [] u.1 u.2) (w, []) := by
  cases pass with
  | promoteScheduled =>
    exact wp_pass own addressed due fun k e _ _ own => tried_promoteScheduledJob own e
  | promoteRetries =>
    exact wp_pass own addressed due fun k e _ _ own => tried_promoteRetriesJob own e
  | requeueStalled =>
    exact wp_pass own addressed due fun k e _ _ own => tried_requeueStalledJob own e

/-- When a single call of a pass fails, a job with a due entry can be recovered exactly if
that call is none of those that lose it. -/
theorem pass_recoverable_iff {reply : Reply} {op : Op} (sound : Sound w) (addressed : Addressed w)
    (due : pass.Due lib w.clock (w.slot j))
    (run : faulty.Exec ((Mover.pass pass).call.program lib) (w, []) reply (t, [op])) :
    Recoverable lib (.pass pass) j t ↔ ¬ Mover.Loses j (.pass pass) op := by
  have own : UnderOwnIDs w := fun k => (sound.placed k).keyed
  obtain ⟨rec, waiting⟩ := waiting_of_due sound due
  obtain ⟨r, ends⟩ := exec_pass run
  rcases pass_amid own addressed due r (t, [op]) ends with unlisted | amid
  · obtain ⟨rfl, same⟩ := Prod.mk.inj unlisted
    obtain rfl := (List.cons.inj same).1
    refine iff_of_true (recoverable_of_due own due waiting.stored waiting.takes) ?_
    cases pass <;> exact id
  · have elsewhere {ops : List Op} (at' : Elsewhere j ops) (mem : op ∈ ops) :
        ¬ Mover.Loses j (.pass pass) op := by
      obtain ⟨k, other, about⟩ := at' op mem
      exact fun loses => other ((about_of_loses loses).unique about)
    cases amid.course with
    | ahead mem => cases mem
    | @behind before mine after _ whole before' after' attempt =>
      cases mine with
      | nil =>
        refine iff_of_true (.inl (attempt.back due waiting)) ?_
        have mem : op ∈ before ++ [] ++ after := by rw [← whole]; simp
        rw [List.append_nil] at mem
        exact elsewhere (before'.append after') mem
      | cons first more =>
        have single : before = [] ∧ first = op ∧ more = [] := by
          have lengths := congrArg List.length whole
          simp only [List.length_append, List.length_cons, List.length_nil] at lengths
          have none : before = [] := List.eq_nil_of_length_eq_zero (by omega)
          have none' : more = [] := List.eq_nil_of_length_eq_zero (by omega)
          subst none none'
          exact ⟨rfl, (List.cons.inj whole).1.symm, rfl⟩
        obtain ⟨rfl, rfl, rfl⟩ := single
        exact attempt.recovers_iff amid.own amid.clock due waiting (addressed j)

end OjsNats.Faults
