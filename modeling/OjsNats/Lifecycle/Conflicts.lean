import OjsNats.Effect.Waypoints
import OjsNats.Lifecycle.Resubmission
import OjsNats.Lifecycle.Sweeps

/-!
# Conflict policies

The lock of a push may name a job in a relevant state.  The push then either
ends at the lock, or cancels that job before it stores its own, or stores its
own beside it.
-/

namespace OjsNats.Lifecycle

open Core Nats Effect Semantics Program

variable {lib : Externals} {w t : World} {job : Job} {unique : UniquePolicy} {holder : String}
  {rec : JobState} {reply : Result Job}

/-- Nothing has been stored and no message sent or taken. -/
structure Unchanged (w t : World) : Prop where
  kv : t.kv = w.kv
  stream : t.stream = w.stream
  inflight : t.inflight = w.inflight

/-- The push passes a state in which the job in its way is cancelled and its own is not
stored yet. -/
def CancelsFirst (lib : Externals) (w : World) (job : Job) (holder : String)
    (reply : Result Job) (t : World) : Prop :=
  ∃ new m, reply = .ok new ∧ serves.Via (push lib job) w m reply t ∧
    Slot.Step lib w.clock holder .cancel (w.slot holder) (m.slot holder) ∧
    (new.id ≠ holder → m.slot new.id = w.slot new.id)

/-- The ways to deal with the job that stands in the way of a push. -/
inductive Resolved (lib : Externals) (w : World) (job : Job) (holder : String) (rec : JobState)
    (reply : Result Job) (t : World) : Prop
  | duplicate {details : List (String × String)} :
      reply = .error (.duplicate "A job with the same unique key already exists." details) →
      Unchanged w t → Resolved lib w job holder rec reply t
  | existing : reply = .ok { unmarshalJobState rec with isExisting := true } → Unchanged w t →
      Resolved lib w job holder rec reply t
  | replaced : CancelsFirst lib w job holder reply t → Resolved lib w job holder rec reply t

/-! ## Pushes that cancel nothing -/

/-- The calls that write no cancelled record. -/
def Uncancelling : Op → Prop
  | .put .jobs _ rec | .create .jobs _ rec | .update .jobs _ rec _ => rec.state ≠ .cancelled
  | _ => True

theorem Uncancelling.of_confined {S : List BucketName} (off : .jobs ∉ S) {op : Op}
    (confined : Confined S op) : Uncancelling op := by
  cases op with
  | put b | create b | update b =>
    cases b with
    | jobs => exact absurd confined.1 off
    | _ => trivial
  | _ => trivial

theorem uncancelling_of_confined {α : Type} {p : Prog α} {S : List BucketName}
    (uses : p.Uses (Confined S)) (off : .jobs ∉ S) : p.Uses Uncancelling :=
  uses.mono fun _ => Uncancelling.of_confined off

theorem uncancelling_storeJob (now : Int) (job : Job) :
    (storeJob lib now job).Uses Uncancelling := by
  refine uses_bind (uncancelling_of_confined (confined_ensureQueue _) (by simp)) fun _ => ?_
  refine uses_bind (uncancelling_of_confined (confined_storeRateLimit _) (by simp)) fun _ => ?_
  refine uses_ite ?_ ?_
  · refine uses_bind ⟨by simp [Uncancelling, enqueuedJob], fun _ => trivial⟩ fun r => ?_
    cases r with
    | error e => trivial
    | ok rev => exact ⟨trivial, fun _ => trivial⟩
  · refine uses_bind ⟨by simp [Uncancelling, enqueuedJob], fun _ => trivial⟩ fun r => ?_
    cases r with
    | error e => trivial
    | ok rev =>
      refine uses_bind (uncancelling_of_confined (confined_publishJob _ _) List.not_mem_nil)
        fun r => ?_
      cases r <;> trivial

theorem uncancelling_handleUnique (other : conflictOf unique ≠ "replace") :
    (handleUnique lib job unique).Uses Uncancelling := by
  have overwrite (fingerprint : String) : ((overwriteUnique fingerprint job.id).bind fun _ =>
      Program.pure (none : Option (Result Job))).Uses Uncancelling :=
    uses_bind (uncancelling_of_confined (confined_overwriteUnique _ _) (by simp)) fun _ => trivial
  refine uses_bind (uncancelling_of_confined (confined_checkAndSet _ _) (by simp)) fun r => ?_
  cases r with
  | error e => trivial
  | ok existingID =>
    refine uses_ite trivial (uses_bind (uncancelling_of_confined (confined_info _) List.not_mem_nil)
      fun r => ?_)
    cases r with
    | error e => exact overwrite _
    | ok existing =>
      refine uses_ite (uses_ite trivial (uses_ite trivial ?_)) (overwrite _)
      rw [show (if unique.onConflict = "" then "reject" else unique.onConflict) =
        conflictOf unique from rfl, if_neg other]
      exact overwrite _

/-- Only a push that replaces cancels a job. -/
theorem uncancelling_push (policy : job.unique = some unique)
    (other : conflictOf unique ≠ "replace") : (push lib job).Uses Uncancelling := by
  rw [push_eq]
  refine uses_bind ⟨trivial, fun _ => trivial⟩ fun now => ?_
  have rest (id : String) : (pushFresh lib now (freshJob lib id now job)).Uses Uncancelling := by
    have policy' : (freshJob lib id now job).unique = some (sortedKeys unique) := by
      simp [freshJob, policy]
    rw [pushFresh_policy policy']
    refine uses_bind (uncancelling_handleUnique other) fun early => ?_
    cases early with
    | some reply => trivial
    | none => exact uncancelling_storeJob now _
  exact uses_ite (uses_bind ⟨trivial, fun _ => trivial⟩ rest) (rest _)

/-- The job is not stored as cancelled. -/
def Uncancelled (j : String) (m : World) : Prop :=
  ∀ rec, m.value .jobs j = some rec → rec.state ≠ .cancelled

theorem Uncancelled.put {j k : String} {b : BucketName} {v : b.Value} (before : Uncancelled j w)
    (uses : Uncancelling (.put b k v)) : Uncancelled j (w.put b k v) := by
  intro rec stored
  by_cases here : BucketName.jobs = b ∧ j = k
  · obtain ⟨rfl, rfl⟩ := here
    obtain rfl : v = rec := by simpa [value_put] using stored
    exact uses
  · rw [value_put_other here] at stored
    exact before rec stored

theorem Uncancelled.delete {j k : String} {b : BucketName} (before : Uncancelled j w) :
    Uncancelled j (w.delete b k) := by
  intro rec stored
  rw [value_delete] at stored
  split at stored
  · cases stored
  · exact before rec stored

theorem Uncancelled.step {j : String} {op : Op} {r : Ans op} (uses : Uncancelling op)
    (step : w.Serves op r t) (before : Uncancelled j w) : Uncancelled j t := by
  cases op with
  | put b k v => exact step.2 ▸ before.put uses
  | delete b k => exact step.2 ▸ before.delete
  | create b k v =>
    simp only [World.Serves] at step
    split at step
    · exact step.2 ▸ before
    · exact step.2 ▸ before.put (by cases b <;> exact uses)
  | update b k v revision =>
    simp only [World.Serves] at step
    split at step
    · exact step.2 ▸ before.put (by cases b <;> exact uses)
    · exact step.2 ▸ before
  | newUUIDv7 => exact step.2.2 ▸ before
  | keys => exact step.1 ▸ before
  | consumerFetch =>
    obtain ⟨n, -, -, rfl⟩ := step
    exact before
  | consumerStore | inflightStore | regexStore =>
    cases step
    exact before
  | now | calculateBackoff | get | consumerLoad | ensureConsumer | inflightLoad
  | inflightLoadAndDelete | msgAck | msgInProgress | publish | regexLoad => exact step.2 ▸ before

/-! ## The lock -/

theorem overwritten_ne {f k : String} {u : World} (same : u.kv .unique = w.kv .unique) :
    ((u.delete .unique f).put .unique f k).kv .unique ≠ w.kv .unique := by
  intro unchanged
  have revision := congrArg Store.Bucket.revision unchanged
  simp only [World.put, World.delete, Store.Bucket.put, Store.Bucket.delete, Function.update_self,
    same] at revision
  omega

/-- A push notes the time and its id before it looks at the lock. -/
theorem exec_pushUnique (policy : job.unique = some unique)
    (run : serves.Exec (push lib job) w reply t) : ∃ id used,
      serves.Exec (pushUnique lib w.clock (freshJob lib id w.clock job) (sortedKeys unique))
        { w with used := used } reply t ∧
      ∀ m, serves.Via (pushUnique lib w.clock (freshJob lib id w.clock job) (sortedKeys unique))
        { w with used := used } m reply t → serves.Via (push lib job) w m reply t := by
  have policy' (id : String) : (freshJob lib id w.clock job).unique = some (sortedKeys unique) := by
    simp [freshJob, policy]
  have clock : serves.Exec timeNow w w.clock w := ⟨_, _, ⟨rfl, rfl⟩, rfl, rfl⟩
  rw [push_eq] at run ⊢
  obtain ⟨_, _, ⟨_, _, ⟨rfl, rfl⟩, rfl, rfl⟩, run⟩ := exec_bind.mp run
  simp only [pushFresh_policy (policy' _)] at run
  by_cases given : job.id = ""
  · rw [if_pos given] at run
    obtain ⟨id, v, generated, run⟩ := exec_bind.mp run
    obtain ⟨_, _, ⟨nonempty, unused, rfl⟩, rfl, rfl⟩ := generated
    refine ⟨_, _, run, fun m via => clock.via_bind ?_⟩
    simp only [pushFresh_policy (policy' _), if_pos given]
    exact Exec.via_bind ⟨_, _, ⟨nonempty, unused, rfl⟩, rfl, rfl⟩ via
  · rw [if_neg given] at run
    refine ⟨_, _, run, fun m via => clock.via_bind ?_⟩
    simp only [pushFresh_policy (policy' _), if_neg given]
    exact via

/-- Storing a job always succeeds and leaves the locks alone. -/
theorem exec_storeJob {now : Int} (clock : w.clock = now)
    (run : serves.Exec (storeJob lib now job) w reply t) :
    (∃ state, reply = .ok (enqueuedJob lib state now job)) ∧ t.kv .unique = w.kv .unique := by
  subst clock
  exact wp_storeJob_stores (Q := fun reply t => (∃ state, reply = .ok (enqueuedJob lib state
    w.clock job)) ∧ t.kv .unique = w.kv .unique)
    (fun state u moved _ => ⟨⟨state, rfl⟩, moved.kv .unique rfl⟩) reply t run

/-! ## The law -/

/-- A push that is not to deal with the job in its way leaves it and takes its lock. -/
theorem not_resolved (policy : job.unique = some unique)
    (stored : (w.slot holder).record = some rec) (unsettled : ¬ Settles lib unique rec)
    (succeeds : ∃ new, reply = .ok new) (taken : t.kv .unique ≠ w.kv .unique) :
    ¬ Resolved lib w job holder rec reply t := by
  obtain ⟨new, rfl⟩ := succeeds
  rintro (⟨failed, -⟩ | ⟨-, unchanged⟩ | ⟨_, m, -, via, step, -⟩)
  · cases failed
  · exact taken (congrFun unchanged.kv .unique)
  · have live := step.live stored
    have other : conflictOf unique ≠ "replace" :=
      fun replace => unsettled (.inr (.inr ⟨replace, live⟩))
    have start : Uncancelled holder w := by
      rintro rec' stored' cancelled
      obtain rfl : rec = rec' := Option.some.inj (stored.symm.trans stored')
      rw [isTerminalState_of (.inr (.inl cancelled))] at live
      cases live
    have after : Uncancelled holder m :=
      via.preserves (uncancelling_push policy other) (fun _ _ _ _ => Uncancelled.step) start
    obtain ⟨_, rec', -, -, cancelled, becomes⟩ := step.of_cancel
    exact after rec' cancelled becomes.state

/-- A push deals with the job in its way exactly under a policy that it knows, and to
replace a job only if that job can still be cancelled. -/
theorem resolved_iff_settles (own : UnderOwnIDs w) (policy : job.unique = some unique)
    (obstructs : Obstructs lib w job (sortedKeys unique) holder rec)
    (run : serves.Exec (push lib job) w reply t) :
    Resolved lib w job holder rec reply t ↔ Settles lib unique rec := by
  obtain ⟨id, used, run', lift⟩ := exec_pushUnique policy run
  obtain ⟨early, u, block, rest⟩ := exec_bind.mp run'
  have obstructs' : Obstructs lib { w with used := used } (freshJob lib id w.clock job)
      (sortedKeys unique) holder rec :=
    ⟨obstructs.lock, obstructs.nonempty, obstructs.stored, obstructs.relevant⟩
  suffices outcome : serves.wp (handleUnique lib (freshJob lib id w.clock job) (sortedKeys unique))
      (fun early u => serves.Exec (handleUnique lib (freshJob lib id w.clock job)
        (sortedKeys unique)) { w with used := used } early u →
        serves.Exec (storeUnless lib w.clock (freshJob lib id w.clock job) early) u reply t →
        (Resolved lib w job holder rec reply t ↔ Settles lib unique rec)) { w with used := used } from
    outcome early u block block rest
  refine wp_handleUnique_obstructed own obstructs' (fun reject _ ended => ?_)
    (fun ignore _ ended => ?_) (fun replace s v step moved block ended => ?_)
    fun unsettled _ ended => ?_
  · obtain ⟨rfl, rfl⟩ := ended
    exact ⟨fun _ => .inl reject, fun _ => .duplicate rfl ⟨rfl, rfl, rfl⟩⟩
  · obtain ⟨rfl, rfl⟩ := ended
    exact ⟨fun _ => .inr (.inl ignore), fun _ => .existing rfl ⟨rfl, rfl, rfl⟩⟩
  · have board := sameBoard_overwrite v
      (UniqueStore.computeFingerprint lib (freshJob lib id w.clock job) (sortedKeys unique))
      (freshJob lib id w.clock job).id
    obtain ⟨⟨state, rfl⟩, -⟩ := exec_storeJob (board.clock.trans moved.clock) ended
    refine ⟨fun _ => .inr (.inr ⟨replace, step.live obstructs.stored⟩), fun _ => .replaced ?_⟩
    refine ⟨_, _, rfl, lift _ (block.via_bind ended.via_start), ?_, fun ne => ?_⟩
    · rw [board.slots, moved.slot]
      exact step
    · rw [board.slots]
      exact moved.others _ ne
  · obtain ⟨succeeds, locks⟩ := exec_storeJob rfl ended
    have taken : t.kv .unique ≠ w.kv .unique := by
      rw [locks]
      exact overwritten_ne rfl
    have ok : ∃ new, reply = .ok new := succeeds.imp' _ fun _ same => same
    exact iff_of_false (not_resolved policy obstructs.stored unsettled ok taken) unsettled

def booking (id onConflict : String) : Job :=
  { id := id, type := "mail", queue := "mails", unique := some { onConflict := onConflict } }

/-- Book once and then again under a policy. -/
def bookTwice (onConflict : String) : Option (World × Result Job × World) :=
  (play (World.start (Sample.instant 0)) [.call (.push (booking "job-1" "reject"))]).bind
    fun played => (execute (push sample (booking "job-2" onConflict)) played.2).map
      fun ended => (played.2, ended)

/-- The second booking finds the first one waiting. -/
theorem obstructs_of_bookTwice {onConflict : String}
    (books : bookTwice onConflict = some (w, reply, t))
    (waiting : (w.value .jobs "job-1").map JobState.state = some .available)
    (locked : w.value .unique Sample.digest = some "job-1") :
    Attained sample w ∧ serves.Exec (push sample (booking "job-2" onConflict)) w reply t ∧
      ∃ rec, Obstructs sample w (booking "job-2" onConflict)
        (sortedKeys { onConflict := onConflict }) "job-1" rec ∧ rec.state = .available := by
  obtain ⟨⟨trace, v⟩, played, ended⟩ := Option.bind_eq_some_iff.mp books
  obtain ⟨⟨reply', v'⟩, run, same⟩ := Option.map_eq_some_iff.mp ended
  cases same
  obtain ⟨rec, stored, state⟩ := Option.map_eq_some_iff.mp waiting
  refine ⟨.of_run (run_of_play played), exec_of_execute run, rec, ⟨locked, by decide, stored, ?_⟩,
    state⟩
  simp [isRelevant, sortedKeys, state, sample, Sample.isTerminalState]

theorem resolved_iff_settles_replace : ∃ w reply t rec,
    bookTwice "replace" = some (w, reply, t) ∧
    Resolved sample w (booking "job-2" "replace") "job-1" rec reply t := by
  have books : (bookTwice "replace").isSome := by decide
  obtain ⟨⟨w, reply, t⟩, books⟩ := Option.isSome_iff_exists.mp books
  have facts : (bookTwice "replace").map (fun r => ((r.1.value .jobs "job-1").map JobState.state,
      r.1.value .unique Sample.digest)) = some (some .available, some "job-1") := by decide
  rw [books] at facts
  obtain ⟨waiting, locked⟩ := Prod.mk.inj (Option.some.inj facts)
  obtain ⟨attained, run, rec, obstructs, state⟩ := obstructs_of_bookTwice books waiting locked
  have settles : Settles sample { onConflict := "replace" } rec :=
    .inr (.inr ⟨by decide, by simp [state, sample, Sample.isTerminalState]⟩)
  exact ⟨w, reply, t, rec, books,
    (resolved_iff_settles (attained.filed .jobs) rfl obstructs run).mpr settles⟩

/-- The documented policy `use_existing` stores a second job beside the first. -/
theorem unresolved_use_existing : ¬ ∀ (lib : Externals) (w t : World) (job : Job)
    (unique : UniquePolicy) (holder : String) (rec : JobState) (reply : Result Job),
    Attained lib w → job.unique = some unique →
    Obstructs lib w job (sortedKeys unique) holder rec →
    serves.Exec (push lib job) w reply t → Resolved lib w job holder rec reply t := by
  intro resolves
  have books : (bookTwice "use_existing").isSome := by decide
  obtain ⟨⟨w, reply, t⟩, books⟩ := Option.isSome_iff_exists.mp books
  have facts : (bookTwice "use_existing").map (fun r =>
      ((r.1.value .jobs "job-1").map JobState.state, r.1.value .unique Sample.digest,
        r.2.1.toOption.isSome, (r.1.kv .unique).revision, (r.2.2.kv .unique).revision)) =
      some (some .available, some "job-1", true, 1, 3) := by decide
  rw [books] at facts
  obtain ⟨waiting, facts⟩ := Prod.mk.inj (Option.some.inj facts)
  obtain ⟨locked, facts⟩ := Prod.mk.inj facts
  obtain ⟨succeeds, facts⟩ := Prod.mk.inj facts
  obtain ⟨before, after⟩ := Prod.mk.inj facts
  obtain ⟨attained, run, rec, obstructs, state⟩ := obstructs_of_bookTwice books waiting locked
  have unsettled : ¬ Settles sample { onConflict := "use_existing" } rec := by
    simp [Settles, conflictOf]
  have ok : ∃ new, reply = .ok new := by
    cases reply with
    | ok new => exact ⟨new, rfl⟩
    | error e => cases succeeds
  have taken : t.kv .unique ≠ w.kv .unique := by
    intro same
    rw [same, before] at after
    cases after
  exact not_resolved rfl obstructs.stored unsettled ok taken
    (resolves sample w t _ _ _ rec reply attained rfl obstructs run)

end OjsNats.Lifecycle
