import OjsNats.Effect.Stops
import OjsNats.Faults.Recovery

/-!
# Passes that do not get to their end

Where the server ends in the middle of a pass, the job at hand is left in one
of a few ways.  Which way it is depends on the last call alone.
-/

namespace OjsNats.Faults

open Core Nats Effect Semantics Program Lifecycle

variable {lib : Externals} {w m t : World} {b : BucketName} {j k : String} {now : Int}
  {s s' : Slot} {pass : Pass}

section Cuts

variable {Q : Op → World → Prop}

theorem cuts_get (b : BucketName) : serves.cuts (Store.get b k) Q w ↔ Q (.get b k) w := by
  refine cuts_ask.trans ⟨fun h => h _ _ ⟨rfl, rfl⟩, ?_⟩
  rintro h _ _ ⟨rfl, rfl⟩
  exact h

theorem cuts_put {v : b.Value} :
    serves.cuts (Store.put b k v) Q w ↔ Q (.put b k v) (w.put b k v) := by
  refine cuts_ask.trans ⟨fun h => h _ _ ⟨rfl, rfl⟩, ?_⟩
  rintro h _ _ ⟨rfl, rfl⟩
  exact h

theorem cuts_delete : serves.cuts (Store.delete b k) Q w ↔ Q (.delete b k) (w.delete b k) := by
  refine cuts_ask.trans ⟨fun h => h _ _ ⟨rfl, rfl⟩, ?_⟩
  rintro h _ _ ⟨rfl, rfl⟩
  exact h

theorem cuts_timeNow : serves.cuts timeNow Q w ↔ Q .now w := by
  refine cuts_ask.trans ⟨fun h => h _ _ ⟨rfl, rfl⟩, ?_⟩
  rintro h _ _ ⟨rfl, rfl⟩
  exact h

theorem cuts_keys (h : Q (.keys b) w) : serves.cuts (Store.keys b) Q w := by
  refine cuts_bind.mpr ⟨cuts_ask.mpr ?_, fun r u _ => ?_⟩
  · rintro r u ⟨rfl, -⟩
    exact h
  · dsimp only
    split <;> exact cuts_pure

theorem cuts_getJobState (h : Q (.get .jobs k) w) : serves.cuts (getJobState k) Q w := by
  refine cuts_bind.mpr ⟨(cuts_get .jobs).mpr h, fun r u _ => ?_⟩
  dsimp only
  split <;> exact cuts_pure

theorem cuts_publishJob {queue : String}
    (h : Q (.publish (queueJobsSubject queue) k) (w.publish (queueJobsSubject queue) k)) :
    serves.cuts (publishJob queue k) Q w := by
  refine cuts_bind.mpr ⟨cuts_ask.mpr ?_, fun r u _ => ?_⟩
  · rintro r u ⟨-, rfl⟩
    exact h
  · dsimp only
    split <;> exact cuts_pure

theorem cuts_ackMessage (released : Q (.inflightLoadAndDelete k) (w.track k none))
    (acked : ∀ msg, w.inflight k = some msg → Q (.msgAck msg) (w.track k none)) :
    serves.cuts (ackMessage k) Q w := by
  refine cuts_bind.mpr ⟨cuts_ask.mpr ?_, wp_ask.mpr ?_⟩
  · rintro r u ⟨-, rfl⟩
    exact released
  · rintro r u ⟨held, rfl⟩
    cases r with
    | none => exact cuts_pure
    | some msg =>
      refine cuts_ask.mpr ?_
      rintro r u ⟨-, rfl⟩
      exact acked msg held.symm

end Cuts

/-- How far a pass has got with a job when the server ends: the last call of its turn, and the
job's slot after it. -/
inductive CutOff (lib : Externals) (pass : Pass) (k : String) (now : Int) (s : Slot) :
    Op → Slot → Prop
  | reading {b : BucketName} : CutOff lib pass k now s (.get b k) s
  | forgetting : (∀ rec, s.record = some rec → ¬ pass.Takes rec) →
      CutOff lib pass k now s (.delete pass.index k) (s.write pass.index none)
  | writing {rec : JobState} : s.record = some rec →
      CutOff lib pass k now s (.put .jobs k (rewritten lib now rec pass))
        (s.write .jobs (some (rewritten lib now rec pass)))
  | deleting {rec : JobState} : s.record = some rec →
      CutOff lib pass k now s (.delete pass.index k) (withdrawn lib pass now rec s)
  | releasing {rec : JobState} : s.record = some rec → pass = .requeueStalled →
      CutOff lib pass k now s (.inflightLoadAndDelete k)
        { withdrawn lib pass now rec s with inflight := none }
  | acking {rec : JobState} {msg : Msg} : s.record = some rec → pass = .requeueStalled →
      s.inflight = some msg → CutOff lib pass k now s (.msgAck msg)
        { withdrawn lib pass now rec s with inflight := none }
  | publishing {subject : String} :
      CutOff lib pass k now s (.publish subject k) (pass.treated lib now s)

/-- A turn has been cut off after a call. -/
def CutIn (lib : Externals) (pass : Pass) (k : String) (m : World) (op : Op) (u : World) : Prop :=
  ∃ s, CutOff lib pass k m.clock (m.slot k) op s ∧ Moved k s m u

theorem cuts_promoteJob (own : UnderOwnIDs m)
    (promotes : pass = .promoteScheduled ∨ pass = .promoteRetries) (what : String)
    (firstErr : FirstErr) : serves.cuts (promoteJob lib pass.index what m.clock k firstErr)
      (CutIn lib pass k m) m := by
  have guarded : Guarded pass.index = false := by rcases promotes with rfl | rfl <;> rfl
  have moved := Moved.refl k m
  refine cuts_bind.mpr ⟨cuts_getJobState ⟨_, .reading, moved⟩, Lifecycle.wp_getJobState.mpr ?_⟩
  cases stored : (m.slot k).record with
  | none =>
    rw [World.job_of_none stored]
    refine cuts_bind.mpr ⟨cuts_delete.mpr ?_, fun _ _ _ => cuts_pure⟩
    exact ⟨_, .forgetting (by simp [stored]), moved.delete guarded⟩
  | some rec =>
    obtain rfl : rec.id = k := own k rec stored
    have rewrites : marshalJobState (enqueuedJob lib .available m.clock
        (unmarshalJobState rec)) = rewritten lib m.clock rec pass := by
      rcases promotes with rfl | rfl <;> rfl
    have stores := moved.put (b := .jobs) rfl (rewritten lib m.clock rec pass)
    have withdraws : Moved rec.id (withdrawn lib pass m.clock rec (m.slot rec.id)) m _ :=
      stores.delete guarded
    rw [World.job_of_record stored]
    refine cuts_bind.mpr ⟨cuts_put.mpr ?_, Lifecycle.wp_put.mpr ?_⟩
    · rw [rewrites]
      exact ⟨_, .writing stored, stores⟩
    rw [rewrites]
    refine cuts_bind.mpr ⟨cuts_delete.mpr ⟨_, .deleting stored, withdraws⟩,
      Lifecycle.wp_delete.mpr ?_⟩
    refine cuts_bind.mpr ⟨cuts_publishJob ⟨_, .publishing, ?_⟩, fun r _ _ => ?_⟩
    · rw [treated_of_promotes promotes stored]
      exact withdraws.publish (queueJobsSubject rec.queue)
    · dsimp only
      split <;> exact cuts_pure

theorem cuts_requeueJob (own : UnderOwnIDs m) (firstErr : FirstErr) :
    serves.cuts (requeueJob lib m.clock k firstErr) (CutIn lib .requeueStalled k m) m := by
  have moved := Moved.refl k m
  have dropped : Moved k { m.slot k with active := none } m (m.delete .active k) :=
    moved.delete (b := .active) rfl
  refine cuts_bind.mpr ⟨cuts_getJobState ⟨_, .reading, moved⟩, Lifecycle.wp_getJobState.mpr ?_⟩
  cases stored : (m.slot k).record with
  | none =>
    rw [World.job_of_none stored]
    refine cuts_bind.mpr ⟨cuts_delete.mpr ?_, fun _ _ _ => cuts_pure⟩
    exact ⟨_, .forgetting (by simp [stored]), dropped⟩
  | some rec =>
    obtain rfl : rec.id = k := own k rec stored
    rw [World.job_of_record stored]
    dsimp only
    split
    · rename_i inactive
      refine cuts_bind.mpr ⟨cuts_delete.mpr ⟨_, .forgetting fun rec' stored' takes => ?_, dropped⟩,
        fun _ _ _ => cuts_pure⟩
      obtain rfl := Option.some.inj (stored.symm.trans stored')
      exact inactive (takes rfl)
    · rename_i active
      replace active : rec.state = .active := not_not.mp active
      have stores := moved.put (b := .jobs) rfl (rewritten lib m.clock rec .requeueStalled)
      have withdraws : Moved rec.id (withdrawn lib .requeueStalled m.clock rec (m.slot rec.id)) m
          _ := stores.delete (b := .active) rfl
      have settled := withdraws.track none
      refine cuts_bind.mpr ⟨cuts_put.mpr ⟨_, .writing stored, stores⟩, Lifecycle.wp_put.mpr ?_⟩
      refine cuts_bind.mpr ⟨cuts_delete.mpr ⟨_, .deleting stored, withdraws⟩,
        Lifecycle.wp_delete.mpr ?_⟩
      refine cuts_bind.mpr ⟨cuts_ackMessage ⟨_, .releasing stored rfl, settled⟩ fun msg held =>
        ⟨_, .acking stored rfl held, settled⟩, Lifecycle.wp_ackMessage.mpr ?_⟩
      refine cuts_bind.mpr ⟨cuts_publishJob ⟨_, .publishing, ?_⟩, fun r _ _ => ?_⟩
      · simp only [Pass.treated, Pass.reaped, stored, active, ↓reduceIte]
        exact settled.publish (queueJobsSubject rec.queue)
      · dsimp only
        split <;> exact cuts_pure

theorem cuts_promoteScheduledJob (own : UnderOwnIDs m) (firstErr : FirstErr) :
    serves.cuts (promoteScheduledJob lib m.clock k firstErr)
      (CutIn lib .promoteScheduled k m) m := by
  refine cuts_bind.mpr ⟨(cuts_get .scheduled).mpr ⟨_, .reading, .refl k m⟩,
    (Lifecycle.wp_get .scheduled).mpr ?_⟩
  split
  · exact cuts_pure
  · split
    · exact cuts_pure
    · split
      · exact cuts_pure
      · exact cuts_promoteJob own (.inl rfl) _ _

theorem cuts_promoteRetriesJob (own : UnderOwnIDs m) (firstErr : FirstErr) :
    serves.cuts (promoteRetriesJob lib m.clock k firstErr) (CutIn lib .promoteRetries k m) m := by
  refine cuts_bind.mpr ⟨(cuts_get .retry).mpr ⟨_, .reading, .refl k m⟩,
    (Lifecycle.wp_get .retry).mpr ?_⟩
  split
  · exact cuts_pure
  · split
    · exact cuts_pure
    · split
      · exact cuts_pure
      · exact cuts_promoteJob own (.inr rfl) _ _

theorem cuts_requeueStalledJob (own : UnderOwnIDs m) (firstErr : FirstErr) :
    serves.cuts (requeueStalledJob lib m.clock k firstErr) (CutIn lib .requeueStalled k m) m := by
  refine cuts_bind.mpr ⟨(cuts_get .active).mpr ⟨_, .reading, .refl k m⟩,
    (Lifecycle.wp_get .active).mpr ?_⟩
  split
  · exact cuts_pure
  · split
    · exact cuts_pure
    · split
      · exact cuts_requeueJob own _
      · exact cuts_pure

theorem CutOff.about {op : Op} (cut : CutOff lib pass k now s op s')
    (addressed : ∀ msg, s.inflight = some msg → msg.data = k) : About k op := by
  cases cut with
  | acking _ _ held => exact addressed _ held
  | _ => rfl

theorem CutOff.ids {op : Op} (cut : CutOff lib pass k now s op s')
    (own : ∀ rec, s.record = some rec → rec.id = k) : ∀ rec, s'.record = some rec → rec.id = k := by
  have rewrites {rec new : JobState} (stored : s.record = some rec)
      (same : some (rewritten lib now rec pass) = some new) : new.id = k := by
    cases same
    rw [rewritten_id]
    exact own rec stored
  cases cut with
  | reading => exact own
  | forgetting =>
    have kept : (s.write pass.index none).record = s.record := by cases pass <;> rfl
    rwa [kept]
  | writing stored => exact fun _ same => rewrites stored same
  | deleting stored | releasing stored | acking stored =>
    exact fun _ same => rewrites stored (withdrawn_record.symm.trans same)
  | publishing => exact Pass.id_treated own

/-- A pass has been cut off: outside the turn of the job, before it or after it, or in it. -/
structure Halted (lib : Externals) (pass : Pass) (j : String) (w : World) (op : Op) (u : World) :
    Prop where
  own : UnderOwnIDs u
  clock : u.clock = w.clock
  turn : (¬ About j op ∧ (u.slot j = w.slot j ∨ u.slot j = pass.treated lib w.clock (w.slot j))) ∨
    CutOff lib pass j w.clock (w.slot j) op (u.slot j)

/-- In a pass in which no call has failed yet a job is untouched or treated. -/
theorem Amid.slot {rest : List String} {v : World} (amid : Amid lib pass j w rest v [])
    (due : pass.Due lib w.clock (w.slot j)) :
    (j ∈ rest ∧ v.slot j = w.slot j) ∨
      (j ∉ rest ∧ v.slot j = pass.treated lib w.clock (w.slot j)) := by
  cases amid.course with
  | ahead mem kept => exact .inl ⟨mem, kept⟩
  | @behind before mine after out whole _ _ attempt =>
    have none : mine = [] := by
      have := (List.append_eq_nil_iff.mp whole.symm).1
      exact (List.append_eq_nil_iff.mp this).2
    subst none
    refine .inr ⟨out, ?_⟩
    generalize v.slot j = s' at attempt
    cases attempt with
    | idle still => exact absurd due still
    | done => rfl

theorem Amid.halted {rest : List String} {v u : World} {op : Op}
    (amid : Amid lib pass j w (k :: rest) v []) (due : pass.Due lib w.clock (w.slot j))
    (cut : CutIn lib pass k v op u) : Halted lib pass j w op u := by
  obtain ⟨s, cut, moved⟩ := cut
  constructor
  · intro i rec stored
    by_cases here : i = k
    · subst here
      rw [moved.slot] at stored
      exact cut.ids (amid.own i) rec stored
    · rw [moved.others i here] at stored
      exact amid.own i rec stored
  · exact moved.clock.trans amid.clock
  · by_cases here : j = k
    · subst here
      rcases amid.slot due with ⟨-, kept⟩ | ⟨out, -⟩
      · refine .inr ?_
        rw [moved.slot, ← kept, ← amid.clock]
        exact cut
      · exact absurd List.mem_cons_self out
    · refine .inl ⟨fun about => here ?_, ?_⟩
      · exact (cut.about (amid.addressed k)).unique about
      · rw [moved.others j here]
        exact (amid.slot due).imp And.right And.right

theorem cuts_pass {body : Int → String → FirstErr → Prog FirstErr} (own : UnderOwnIDs w)
    (addressed : Addressed w) (due : pass.Due lib w.clock (w.slot j))
    (turn : ∀ k firstErr v log, UnderOwnIDs v → faulty.wp (body v.clock k firstErr)
      (fun _ u => Tried lib pass k v log u) (v, log))
    (cut : ∀ k firstErr v, UnderOwnIDs v → serves.cuts (body v.clock k firstErr)
      (CutIn lib pass k v) v) :
    serves.cuts (do
      match ← Store.keys pass.index with
      | .error e => return .error (.call e)
      | .ok keys =>
          let now ← timeNow
          let firstErr ← Program.forEach keys none (body now)
          return (passResult firstErr : Result Unit))
      (Halted lib pass j w) w := by
  have outside (op : Op) (other : ¬ About j op) : Halted lib pass j w op w :=
    ⟨own, rfl, .inl ⟨other, .inl rfl⟩⟩
  refine cuts_bind.mpr ⟨cuts_keys (outside _ id), Lifecycle.wp_keys fun keys distinct listed => ?_⟩
  refine cuts_bind.mpr ⟨cuts_timeNow.mpr (outside _ id), Lifecycle.wp_timeNow.mpr ?_⟩
  refine cuts_bind.mpr ⟨?_, fun _ _ _ => cuts_pure⟩
  have listed' : j ∈ keys := (listed j).mpr (Pass.isSome_of_due due)
  refine cuts_forEach (fun rest _ v => Amid lib pass j w rest v [])
    ⟨own, addressed, rfl, distinct, .ahead listed' rfl (by simp [Elsewhere])⟩ ?_
  intro k rest firstErr v amid
  rw [← amid.clock]
  exact ⟨(cut k firstErr v amid.own).mono fun _ _ => amid.halted due,
    (turn k firstErr v [] amid.own).served.mono fun _ _ tried => amid.turn tried⟩

theorem pass_halted (own : UnderOwnIDs w) (addressed : Addressed w)
    (due : pass.Due lib w.clock (w.slot j)) :
    serves.cuts (pass.program lib) (Halted lib pass j w) w := by
  cases pass with
  | promoteScheduled =>
    exact cuts_pass own addressed due (fun k e _ _ own => tried_promoteScheduledJob own e)
      fun k e _ own => cuts_promoteScheduledJob own e
  | promoteRetries =>
    exact cuts_pass own addressed due (fun k e _ _ own => tried_promoteRetriesJob own e)
      fun k e _ own => cuts_promoteRetriesJob own e
  | requeueStalled =>
    exact cuts_pass own addressed due (fun k e _ _ own => tried_requeueStalledJob own e)
      fun k e _ own => cuts_requeueStalledJob own e

/-! ## After the restart -/

@[simp] theorem slot_restarted (t : World) (j : String) :
    t.restarted.slot j = { t.slot j with inflight := none } := rfl

theorem due_restarted (t : World) (j : String) :
    pass.Due lib t.restarted.clock (t.restarted.slot j) ↔ pass.Due lib t.clock (t.slot j) := by
  cases pass <;> exact Iff.rfl

theorem stopsAfter_pass {op : Op}
    (stops : serves.StopsAfter ((Mover.pass pass).call.program lib) w op t) :
    serves.StopsAfter (pass.program lib) w op t := by
  have inside {α : Type} {p : Prog α} {f : α → Reply}
      (stops : serves.StopsAfter (p.bind fun a => .pure (f a)) w op t) :
      serves.StopsAfter p w op t := by
    rcases stopsAfter_bind.mp stops with first | ⟨_, _, -, last⟩
    · exact first
    · exact last.elim
  cases pass <;> exact inside stops

theorem about_of_strands {op : Op} (strands : Mover.Strands j (.pass pass) op) : About j op := by
  unfold Mover.Strands at strands
  split at strands
  · exact strands
  · exact strands
  · exact strands
  · exact strands
  · exact strands
  · exact strands
  · exact strands
  · exact strands.elim

/-- A pass that is cut off in the turn of a job loses it by the deletion of its entry and by what
follows before the publication, and the reaper by the writing of its record as well. -/
theorem CutOff.recovers_iff {rec : JobState} {op : Op}
    (cut : CutOff lib pass j t.clock s op (t.slot j)) (own : UnderOwnIDs t)
    (due : pass.Due lib t.clock s) (waiting : Waiting pass s rec)
    (addressed : ∀ msg, s.inflight = some msg → msg.data = j) :
    Recoverable lib (.pass pass) j t.restarted ↔ ¬ Mover.Strands j (.pass pass) op := by
  have own' : UnderOwnIDs t.restarted := own
  have lost {rec' : JobState} (inflight : Option Msg)
      (left : t.slot j = { withdrawn lib pass t.clock rec' s with inflight := inflight }) :
      ¬ Recoverable lib (.pass pass) j t.restarted := by
    refine lost_of_not_entered ?_ ?_
    · rw [slot_restarted, left]
      exact not_entered_withdrawn
    · rw [slot_restarted, left]
      exact withdrawn_messages.trans waiting.silent
  generalize after : t.slot j = s' at cut
  cases cut with
  | reading =>
    refine iff_of_true (recoverable_of_due own' ((due_restarted t j).mpr (after ▸ due)) ?_
      waiting.takes) ?_
    · rw [slot_restarted, after]
      exact waiting.stored
    · cases pass <;> exact id
  | forgetting leaves => exact absurd waiting.takes (leaves rec waiting.stored)
  | @writing rec' stored =>
    have due' : pass.Due lib t.restarted.clock (t.restarted.slot j) :=
      (due_restarted t j).mpr (after ▸ due_write due)
    have written : (t.restarted.slot j).record = some (rewritten lib t.clock rec' pass) := by
      rw [slot_restarted, after]
      rfl
    cases pass with
    | promoteScheduled | promoteRetries =>
      exact iff_of_true (recoverable_of_due own' due' written (by simp [Pass.Takes])) id
    | requeueStalled =>
      refine iff_of_false (lost_of_inactive own' due' written (by simp) ?_) fun kept => kept rfl
      rw [slot_restarted, after]
      exact waiting.silent
  | deleting =>
    refine iff_of_false (lost (withdrawn lib pass t.clock _ s).inflight after) ?_
    cases pass <;> exact fun kept => kept rfl
  | releasing _ reaps =>
    subst reaps
    exact iff_of_false (lost none after) fun kept => kept rfl
  | acking _ reaps held =>
    subst reaps
    exact iff_of_false (lost none after) fun kept => kept (addressed _ held)
  | publishing =>
    refine iff_of_true (.inl ?_) (by cases pass <;> exact id)
    rw [slot_restarted, after]
    exact Pass.back_treated waiting.stored waiting.takes

/-- When the server ends in a pass, a job with a due entry can be recovered exactly if the last
call is none of those that strand it. -/
theorem pass_restarted_iff {op : Op} (sound : Sound w) (addressed : Addressed w)
    (due : pass.Due lib w.clock (w.slot j))
    (stops : serves.StopsAfter ((Mover.pass pass).call.program lib) w op t) :
    Recoverable lib (.pass pass) j t.restarted ↔ ¬ Mover.Strands j (.pass pass) op := by
  obtain ⟨rec, waiting⟩ := waiting_of_due sound due
  have halted := pass_halted (fun k => (sound.placed k).keyed) addressed due op t
    (stopsAfter_pass stops)
  have own' : UnderOwnIDs t.restarted := halted.own
  rcases halted.turn with ⟨other, left⟩ | cut
  · refine iff_of_true ?_ fun strands => other (about_of_strands strands)
    rcases left with kept | treated
    · have due' : pass.Due lib t.restarted.clock (t.restarted.slot j) := by
        rw [due_restarted, halted.clock, kept]
        exact due
      refine recoverable_of_due own' due' ?_ waiting.takes
      rw [slot_restarted, kept]
      exact waiting.stored
    · refine .inl ?_
      rw [slot_restarted, treated]
      exact Pass.back_treated waiting.stored waiting.takes
  · rw [← halted.clock] at cut due
    exact cut.recovers_iff halted.own due waiting (addressed j)

end OjsNats.Faults
