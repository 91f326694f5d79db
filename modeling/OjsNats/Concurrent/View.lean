import OjsNats.Effect.Protocol
import OjsNats.Lifecycle.Rules
import OjsNats.Nats.Calls

/-!
# What an operation knows of a job

The view is what one running operation has learnt and done about one job.  The
discipline says, from the view, which calls the operation may still make: what
it may write over the job's record, and when it may announce the job.
-/

namespace OjsNats.Concurrent

open Core Nats Lifecycle Effect Protocol

structure View where
  now : Int := 0
  /-- How often the operation was given the job's id as a new one. -/
  minted : Nat := 0
  /-- Messages of the job that were handed to the operation, or that it owes. -/
  tokens : Nat := 0
  /-- The record the operation read last. -/
  seen : Option JobState := none
  /-- Whether the last lease it read had run out. -/
  armed : Bool := false
  /-- Whether the active entry is there, as far as the operation changed it. -/
  leased : Bool := false
  wrote : Option JobState := none
  claimed : Bool := false

namespace View

variable (g : View) (j k : String)

def see (rec : Option JobState) : View := if k = j then { g with seen := rec } else g

def arm (armed : Bool) : View := if k = j then { g with armed := armed } else g

def lease (leased : Bool) : View := if k = j then { g with leased := leased } else g

def mint : View := if k = j then { g with minted := g.minted + 1 } else g

/-- After a write of the job's record: an available job has yet to be announced,
any other write uses up the message it was about. -/
def write (v : JobState) : View :=
  { g with
    minted := g.minted - 1
    tokens := if v.state = .available then g.tokens + 1 else g.tokens - 1
    wrote := some v
    claimed := g.claimed || v.state = .active }

def writeAt (v : JobState) : View := if k = j then g.write v else g

def announce : View := if k = j then { g with tokens := g.tokens - 1 } else g

/-- The messages of the job among those handed out. -/
def countOf (msgs : List Msg) : Nat := (msgs.filter fun m => m.data = j).length

def hand (n : Nat) : View := { g with tokens := g.tokens + n }

section At

variable {g : View} {j k : String} (same : k = j)

include same

theorem see_at (rec : Option JobState) : g.see j k rec = { g with seen := rec } := if_pos same

theorem lease_at (leased : Bool) : g.lease j k leased = { g with leased := leased } := if_pos same

theorem writeAt_at (v : JobState) : g.writeAt j k v = g.write v := if_pos same

end At

@[simp] theorem now_see (rec : Option JobState) : (g.see j k rec).now = g.now := by
  unfold see
  split <;> rfl

@[simp] theorem now_lease (leased : Bool) : (g.lease j k leased).now = g.now := by
  unfold lease
  split <;> rfl

@[simp] theorem now_arm (armed : Bool) : (g.arm j k armed).now = g.now := by
  unfold arm
  split <;> rfl

@[simp] theorem now_writeAt (v : JobState) : (g.writeAt j k v).now = g.now := by
  unfold writeAt
  split <;> rfl

@[simp] theorem now_announce : (g.announce j k).now = g.now := by
  unfold announce
  split <;> rfl

theorem tokens_lease (leased : Bool) : (g.lease j k leased).tokens = g.tokens := by
  unfold lease
  split <;> rfl

theorem tokens_writeAt {g : View} {j k : String} {v : JobState} (state : v.state = .available)
    (same : k = j) : 0 < (g.writeAt j k v).tokens := by
  rw [writeAt_at same, write, if_pos state]
  exact Nat.succ_pos _

end View

/-- Whether a lease had run out at the given time. -/
def leaseOver (lib : Externals) (now : Int) (info : ActiveJobInfo) : Bool :=
  match lib.parseTime info.visibilityDeadline with
  | some deadline => decide (deadline < now)
  | none => false

section Discipline

variable (lib : Externals) (j : String)

def View.next (g : View) : (op : Op) → Ans op → View
  | .now, t => { g with now := t }
  | .newUUIDv7, id => g.mint j id
  | .get .jobs k, .ok (rec, _) => g.see j k (some rec)
  | .get .jobs k, .error _ => g.see j k none
  | .get .active k, .ok (info, _) => g.arm j k (leaseOver lib g.now info)
  | .get .active k, .error _ => g.arm j k false
  | .put .jobs k v, .ok _ => g.writeAt j k v
  | .put .active k _, .ok _ => g.lease j k true
  | .delete .active k, .ok _ => g.lease j k false
  | .consumerFetch _ _, .ok msgs => g.hand (View.countOf j msgs)
  | .publish _ k, .ok _ => g.announce j k
  | _, _ => g

/-- The write of a new job under an id the operation was given. -/
def Mints (g : View) (v : JobState) : Prop :=
  0 < g.minted ∧ (v.state = .available ∨ v.state = .scheduled)

/-- A write of the job's record that the operation may make. -/
def Permits (g : View) (v : JobState) : Call → Prop
  | .fetch _ _ _ _ => 0 < g.tokens ∧ ∃ rec, g.seen = some rec ∧
      ((isExpired lib (unmarshalJobState rec) g.now = true ∧ v.state = .discarded) ∨
        (isExpired lib (unmarshalJobState rec) g.now = false ∧ rec.state = .available ∧
          g.leased = true ∧ v.state = .active))
  | .ack k _ => Mints g v ∨ (k = j ∧ g.wrote = none ∧
      (∃ rec, g.seen = some rec ∧ rec.state = .active) ∧ v.state = .completed)
  | .nack k _ _ => Mints g v ∨ (k = j ∧ g.wrote = none ∧
      (∃ rec, g.seen = some rec ∧ rec.state = .active) ∧
      (v.state = .available ∨ v.state = .discarded ∨ v.state = .retryable))
  | .cancel k => k = j ∧ g.wrote = none ∧
      (∃ rec, g.seen = some rec ∧ lib.isTerminalState rec.state = false) ∧ v.state = .cancelled
  | .promoteScheduled | .promoteRetries => g.seen.isSome ∧ v.state = .available
  | .requeueStalled => g.armed = true ∧ (∃ rec, g.seen = some rec ∧ rec.state = .active) ∧
      v.state = .available
  | _ => False

def Allows (call : Call) (g : View) : Op → Prop
  | .put .jobs k v => v.id = k ∧ (k = j → Permits lib j g v call)
  | .put .active k info => k = j → ∃ d, IsDuration d ∧
      info.visibilityDeadline = lib.formatTime (g.now + d)
  | .create .jobs _ _ | .update .jobs _ _ _ | .delete .jobs _ => False
  | .create .active _ _ | .update .active _ _ _ => False
  | .delete .active k => k = j → ∀ queues count workerID timeout,
      call = .fetch queues count workerID timeout → 0 < g.tokens
  | .publish _ k => k = j → 0 < g.tokens
  | .consumerFetch _ _ => ∃ queues count workerID timeout,
      call = .fetch queues count workerID timeout
  | _ => True

/-- Records are stored under their own id. -/
def Admits : (op : Op) → Ans op → Prop
  | .get .jobs k, .ok (rec, _) => rec.id = k
  | _, _ => True

/-- What one operation does to one job. -/
def discipline (call : Call) : Protocol Op Ans View where
  allows := Allows lib j call
  admits := fun _ => Admits
  next := View.next lib j

end Discipline

section Rules

variable {lib : Externals} {j : String} {call : Call} {g : View}

/-- The calls that the discipline takes no notice of. -/
def Unnoticed : Op → Prop
  | .put b _ _ | .create b _ _ | .update b _ _ _ | .delete b _ | .get b _ => b ≠ .jobs ∧ b ≠ .active
  | .now | .newUUIDv7 | .consumerFetch _ _ | .publish _ _ => False
  | _ => True

theorem Unnoticed.silent {op : Op} (h : Unnoticed op) : (discipline lib j call).Silent op := by
  intro g
  cases op with
  | put b | create b | update b | delete b | get b =>
    obtain ⟨jobs, active⟩ := h
    cases b with
    | jobs => exact absurd rfl jobs
    | active => exact absurd rfl active
    | _ => exact ⟨trivial, fun _ => rfl⟩
  | now | newUUIDv7 | consumerFetch | publish => exact h.elim
  | _ => exact ⟨trivial, fun _ => rfl⟩

theorem follows_unnoticed {α : Type} {p : Prog α} {Q : α → View → Prop} (uses : p.Uses Unnoticed)
    (h : ∀ a, Q a g) : (discipline lib j call).Follows p g Q :=
  follows_silent (uses.mono fun _ => Unnoticed.silent) h

theorem foreign_ne {b : BucketName} (foreign : Foreign b = true) : b ≠ .jobs ∧ b ≠ .active := by
  refine ⟨?_, ?_⟩ <;> rintro rfl <;> simp [Foreign] at foreign

theorem Sideline.unnoticed {op : Op} (h : Sideline op) : Unnoticed op := by
  cases op with
  | put | create | update | delete | get => exact foreign_ne h
  | now | newUUIDv7 | consumerFetch | inflightStore | inflightLoadAndDelete | publish => exact h.elim
  | _ => trivial

theorem follows_sideline {α : Type} {p : Prog α} {Q : α → View → Prop} (uses : p.Uses Sideline)
    (h : ∀ a, Q a g) : (discipline lib j call).Follows p g Q :=
  follows_unnoticed (uses.mono fun _ => Sideline.unnoticed) h

theorem follows_timeNow {Q : Int → View → Prop} (h : ∀ t, Q t { g with now := t }) :
    (discipline lib j call).Follows timeNow g Q :=
  ⟨trivial, fun t _ => h t⟩

theorem follows_newUUIDv7 {Q : String → View → Prop} (h : ∀ id, Q id (g.mint j id)) :
    (discipline lib j call).Follows newUUIDv7 g Q :=
  ⟨trivial, fun id _ => h id⟩

theorem follows_getJobState {k : String} {Q : Except CallError Job → View → Prop}
    (ok : ∀ rec, rec.id = k → Q (.ok (unmarshalJobState rec)) (g.see j k (some rec)))
    (error : ∀ e, Q (.error e) (g.see j k none)) :
    (discipline lib j call).Follows (getJobState k) g Q := by
  apply follows_bind.mpr
  refine ⟨trivial, fun r admitted => ?_⟩
  cases r with
  | ok entry => exact ok entry.1 admitted
  | error e => exact error e

theorem follows_info {k : String} {Q : Result Job → View → Prop}
    (ok : ∀ rec, rec.id = k → Q (.ok (unmarshalJobState rec)) (g.see j k (some rec)))
    (error : Q (.error (.notFound "Job" k)) (g.see j k none)) :
    (discipline lib j call).Follows (info k) g Q :=
  follows_bind.mpr (follows_getJobState ok fun _ => error)

theorem follows_putJobState {job : Job} {Q : Except CallError Nat → View → Prop}
    (permitted : job.id = j → Permits lib j g (marshalJobState job) call)
    (ok : ∀ n, Q (.ok n) (g.writeAt j job.id (marshalJobState job))) (error : ∀ e, Q (.error e) g) :
    (discipline lib j call).Follows (putJobState job) g Q := by
  refine ⟨⟨rfl, permitted⟩, fun r _ => ?_⟩
  cases r with
  | ok n => exact ok n
  | error e => exact error e

theorem follows_getActive {k : String} {Q : Except CallError (ActiveJobInfo × Nat) → View → Prop}
    (ok : ∀ info rev, Q (.ok (info, rev)) (g.arm j k (leaseOver lib g.now info)))
    (error : ∀ e, Q (.error e) (g.arm j k false)) :
    (discipline lib j call).Follows (Store.get .active k) g Q := by
  refine ⟨trivial, fun r _ => ?_⟩
  cases r with
  | ok entry => exact ok entry.1 entry.2
  | error e => exact error e

theorem follows_putActive {k : String} {info : ActiveJobInfo} {Q : Except CallError Nat → View → Prop}
    (lasts : ∃ d, IsDuration d ∧ info.visibilityDeadline = lib.formatTime (g.now + d))
    (ok : ∀ n, Q (.ok n) (g.lease j k true)) (error : ∀ e, Q (.error e) g) :
    (discipline lib j call).Follows (Store.put .active k info) g Q := by
  refine ⟨fun _ => lasts, fun r _ => ?_⟩
  cases r with
  | ok n => exact ok n
  | error e => exact error e

theorem follows_deleteActive {k : String} {Q : Except CallError Unit → View → Prop}
    (held : k = j → ∀ queues count workerID timeout,
      call = .fetch queues count workerID timeout → 0 < g.tokens)
    (ok : Q (.ok ()) (g.lease j k false)) (error : ∀ e, Q (.error e) g) :
    (discipline lib j call).Follows (Store.delete .active k) g Q := by
  refine ⟨held, fun r _ => ?_⟩
  cases r with
  | ok u => exact ok
  | error e => exact error e

theorem unnoticed_ackMessage (k : String) : (ackMessage k).Uses Unnoticed := by
  refine ⟨trivial, fun tracked => ?_⟩
  cases tracked with
  | none => trivial
  | some msg => exact ⟨trivial, fun _ => trivial⟩

theorem follows_publishJob {queue k : String} {Q : Result Unit → View → Prop}
    (owed : k = j → 0 < g.tokens) (ok : Q (.ok ()) (g.announce j k)) (error : ∀ e, Q (.error e) g) :
    (discipline lib j call).Follows (publishJob queue k) g Q := by
  apply follows_bind.mpr
  refine ⟨owed, fun r _ => ?_⟩
  cases r with
  | ok u => exact ok
  | error e => exact error _

end Rules

end OjsNats.Concurrent
