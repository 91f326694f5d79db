import OjsNats.Core.Externals
import OjsNats.Effect.Semantics
import OjsNats.Nats.Codec
import OjsNats.Store.Bucket

/-!
# The world the backend talks to

The KV buckets, the job stream with its consumers, the in-memory maps of the
server and the clock, with the calls the backend makes on them.  `Serves` is
the world when nothing goes wrong; `Fails` is a call that reports an error and
has no effect.
-/

namespace OjsNats.Nats

open Core Effect Store

/-- A message in the stream: its subject, the job id it carries, and when it
was published. -/
structure Msg where
  subject : String
  data : String
  published : Int
  deriving DecidableEq, Repr

/-- Why a storage or stream call fails. -/
inductive CallError where
  | keyNotFound
  | keyExists
  | wrongRevision
  | noKeysFound
  | unavailable
  deriving DecidableEq, Repr

inductive Op where
  | now
  | newUUIDv7
  | calculateBackoff (retry : Option RetryPolicy) (attempt : Int)
  | get (b : BucketName) (key : String)
  | put (b : BucketName) (key : String) (value : b.Value)
  | create (b : BucketName) (key : String) (value : b.Value)
  | update (b : BucketName) (key : String) (value : b.Value) (revision : Nat)
  | delete (b : BucketName) (key : String)
  | keys (b : BucketName)
  | consumerLoad (queue : String)
  | consumerStore (queue : String)
  | ensureConsumer (queue : String)
  | consumerFetch (queue : String) (count : Nat)
  | inflightLoad (jobID : String)
  | inflightStore (jobID : String) (msg : Msg)
  | inflightLoadAndDelete (jobID : String)
  | msgAck (msg : Msg)
  | msgInProgress (msg : Msg)
  | publish (subject data : String)
  | regexLoad (key : String)
  | regexStore (key : String) (re : String → Bool)

/-- The answer to a call. -/
@[reducible] def Ans : Op → Type
  | .now => Int
  | .newUUIDv7 => String
  | .calculateBackoff _ _ => Int
  | .get b _ => Except CallError (b.Value × Nat)
  | .put _ _ _ => Except CallError Nat
  | .create _ _ _ => Except CallError Nat
  | .update _ _ _ _ => Except CallError Nat
  | .delete _ _ => Except CallError Unit
  | .keys _ => Except CallError (List String)
  | .consumerLoad _ => Bool
  | .consumerStore _ => Unit
  | .ensureConsumer _ => Except CallError Unit
  | .consumerFetch _ _ => Except CallError (List Msg)
  | .inflightLoad _ => Option Msg
  | .inflightStore _ _ => Unit
  | .inflightLoadAndDelete _ => Option Msg
  | .msgAck _ => Except CallError Unit
  | .msgInProgress _ => Except CallError Unit
  | .publish _ _ => Except CallError Unit
  | .regexLoad _ => Option (String → Bool)
  | .regexStore _ _ => Unit

abbrev Prog := Program Op Ans

def queueJobsSubject (queue : String) : String := "ojs" ++ ".queue." ++ queue ++ ".jobs"

theorem queueJobsSubject_injective {q q' : String}
    (h : queueJobsSubject q = queueJobsSubject q') : q = q' := by
  unfold queueJobsSubject at h
  rw [String.append_left_inj, String.append_right_inj] at h
  exact h

structure World where
  kv : (b : BucketName) → Bucket String b.Value
  /-- The messages of the stream that no consumer has been handed yet. -/
  stream : List Msg
  /-- `ConsumerManager.inflight` -/
  inflight : String → Option Msg
  /-- The queues with a cached consumer. -/
  consumers : String → Bool
  regexCache : String → Option (String → Bool)
  clock : Int
  /-- Every id a client has sent or `NewUUIDv7` has returned. -/
  used : List String

/-- Hand out the first `n` messages of a subject, keeping the others in order. -/
def deliver (subject : String) : Nat → List Msg → List Msg × List Msg
  | _, [] => ([], [])
  | 0, stream => ([], stream)
  | n + 1, m :: rest =>
      if m.subject = subject then
        ((m :: (deliver subject n rest).1), (deliver subject n rest).2)
      else
        ((deliver subject (n + 1) rest).1, m :: (deliver subject (n + 1) rest).2)

namespace World

/-- The value stored under a key of a bucket. -/
def value (w : World) (b : BucketName) (key : String) : Option b.Value := (w.kv b).value key

def put (w : World) (b : BucketName) (key : String) (v : b.Value) : World :=
  { w with kv := Function.update w.kv b ((w.kv b).put key v) }

def delete (w : World) (b : BucketName) (key : String) : World :=
  { w with kv := Function.update w.kv b ((w.kv b).delete key) }

/-- `KeyValue.Get` -/
def lookup (w : World) (b : BucketName) (key : String) : Except CallError (b.Value × Nat) :=
  match (w.kv b).get key with
  | some entry => .ok entry
  | none => .error .keyNotFound

def publish (w : World) (subject data : String) : World :=
  { w with stream := w.stream ++ [⟨subject, data, w.clock⟩] }

/-- A call that succeeds: its answer and the world after it.  The stream may
hand out fewer messages than were asked for, and lists keys in any order. -/
def Serves (w : World) : (op : Op) → Ans op → World → Prop
  | .now, t, w' => t = w.clock ∧ w' = w
  | .newUUIDv7, id, w' => id ≠ "" ∧ id ∉ w.used ∧ w' = { w with used := id :: w.used }
  | .calculateBackoff _ _, r, w' => IsDuration r ∧ w' = w
  | .get b key, r, w' => r = w.lookup b key ∧ w' = w
  | .put b key v, r, w' => r = .ok ((w.kv b).revision + 1) ∧ w' = w.put b key v
  | .create b key v, r, w' =>
      if (w.value b key).isSome then r = .error .keyExists ∧ w' = w
      else r = .ok ((w.kv b).revision + 1) ∧ w' = w.put b key v
  | .update b key v revision, r, w' =>
      if ((w.kv b).get key).map Prod.snd = some revision then
        r = .ok ((w.kv b).revision + 1) ∧ w' = w.put b key v
      else r = .error .wrongRevision ∧ w' = w
  | .delete b key, r, w' => r = .ok () ∧ w' = w.delete b key
  | .keys b, r, w' => w' = w ∧
      if (w.kv b).keys = [] then r = .error .noKeysFound
      else ∃ keys, r = .ok keys ∧ keys.Perm (w.kv b).keys
  | .consumerLoad queue, r, w' => r = w.consumers queue ∧ w' = w
  | .consumerStore queue, _, w' =>
      w' = { w with consumers := Function.update w.consumers queue true }
  | .ensureConsumer _, r, w' => r = .ok () ∧ w' = w
  | .consumerFetch queue count, r, w' => ∃ n ≤ count,
      r = .ok (deliver (queueJobsSubject queue) n w.stream).1 ∧
      w' = { w with stream := (deliver (queueJobsSubject queue) n w.stream).2 }
  | .inflightLoad jobID, r, w' => r = w.inflight jobID ∧ w' = w
  | .inflightStore jobID msg, _, w' =>
      w' = { w with inflight := Function.update w.inflight jobID (some msg) }
  | .inflightLoadAndDelete jobID, r, w' =>
      r = w.inflight jobID ∧ w' = { w with inflight := Function.update w.inflight jobID none }
  | .msgAck _, r, w' => r = .ok () ∧ w' = w
  | .msgInProgress _, r, w' => r = .ok () ∧ w' = w
  | .publish subject data, r, w' => r = .ok () ∧ w' = w.publish subject data
  | .regexLoad key, r, w' => r = w.regexCache key ∧ w' = w
  | .regexStore key re, _, w' =>
      w' = { w with regexCache := Function.update w.regexCache key (some re) }

/-- A storage, stream or acknowledgement call that reports an error. -/
def Fails (w : World) : (op : Op) → Ans op → World → Prop
  | .get _ _, r, w' => r = .error .unavailable ∧ w' = w
  | .put _ _ _, r, w' => r = .error .unavailable ∧ w' = w
  | .create _ _ _, r, w' => r = .error .unavailable ∧ w' = w
  | .update _ _ _ _, r, w' => r = .error .unavailable ∧ w' = w
  | .delete _ _, r, w' => r = .error .unavailable ∧ w' = w
  | .keys _, r, w' => r = .error .unavailable ∧ w' = w
  | .ensureConsumer _, r, w' => r = .error .unavailable ∧ w' = w
  | .consumerFetch _ _, r, w' => r = .error .unavailable ∧ w' = w
  | .msgAck _, r, w' => r = .error .unavailable ∧ w' = w
  | .msgInProgress _, r, w' => r = .error .unavailable ∧ w' = w
  | .publish _ _, r, w' => r = .error .unavailable ∧ w' = w
  | _, _, _ => False

end World

/-- The calls made under the request's context. -/
def Op.takesContext : Op → Bool
  | .get _ _ | .put _ _ _ | .create _ _ _ | .update _ _ _ _ | .delete _ _ | .keys _
  | .ensureConsumer _ | .publish _ _ => true
  | _ => false

/-- Calls are served. -/
def serves : Semantics Op Ans World := ⟨World.Serves⟩

/-- Calls report an error. -/
def fails : Semantics Op Ans World := ⟨World.Fails⟩

/-- Calls under a cancelled context report an error, the others are served. -/
def cancelled : Semantics Op Ans World where
  step w op r w' := if op.takesContext then w.Fails op r w' else w.Serves op r w'

end OjsNats.Nats
