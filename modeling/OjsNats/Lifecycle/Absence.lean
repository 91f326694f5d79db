import OjsNats.Lifecycle.Footprint

/-!
# Buckets that a program does not use

Pushing and cancelling read and write the buckets of the jobs and the locks, and
pushing also the queue records.  They make no call on any other bucket.
-/

namespace OjsNats.Lifecycle

open Core Nats Effect Program

/-- The calls that have nothing to do with the bucket. -/
def Off (b : BucketName) : Op → Prop
  | .get b' _ | .put b' _ _ | .create b' _ _ | .update b' _ _ _ | .delete b' _ | .keys b' => b' ≠ b
  | _ => True

theorem Off.leaves {b : BucketName} {op : Op} (off : Off b op) : Leaves b op := by
  cases op with
  | put | create | update | delete => exact off
  | _ => trivial

/-- The buckets that hold neither jobs nor locks. -/
def Apart : BucketName → Bool
  | .jobs | .unique | .scheduled | .retry | .active => false
  | _ => true

theorem ne_of_apart {b b' : BucketName} (apart : Apart b = true) (other : Apart b' = false) :
    b' ≠ b := by
  rintro rfl
  rw [apart] at other
  cases other

theorem OnlyOn.off {b b' : BucketName} (other : b' ≠ b) {op : Op} (h : OnlyOn b' op) :
    Off b op := by
  cases op with
  | get | put | create | update =>
    obtain rfl := h
    exact other
  | _ => exact h.elim

/-! ## The policy block of a push -/

/-- The calls that the block of a policy is made of. -/
def ByPolicy : Op → Prop
  | .create b _ _ => b = .unique
  | .get b _ => b = .unique ∨ b = .jobs
  | .put b _ _ => b = .jobs
  | .delete b _ => b = .unique ∨ b = .active ∨ b = .scheduled ∨ b = .retry
  | .now | .inflightLoadAndDelete _ | .msgAck _ => True
  | _ => False

theorem byPolicy_checkAndSet (fingerprint k : String) :
    (UniqueStore.checkAndSet fingerprint k).Uses ByPolicy := by
  refine ⟨rfl, fun r => ?_⟩
  match r with
  | .ok _ => trivial
  | .error .keyExists =>
    refine ⟨.inl rfl, fun r => ?_⟩
    cases r <;> trivial
  | .error .keyNotFound | .error .wrongRevision | .error .noKeysFound | .error .unavailable =>
    trivial

theorem byPolicy_overwriteUnique (fingerprint k : String) :
    (overwriteUnique fingerprint k).Uses ByPolicy :=
  uses_bind ⟨.inl rfl, fun _ => trivial⟩ fun _ =>
    uses_bind (byPolicy_checkAndSet _ _) fun _ => trivial

theorem byPolicy_getJobState (k : String) : (getJobState k).Uses ByPolicy := by
  refine ⟨.inr rfl, fun r => ?_⟩
  cases r <;> trivial

theorem byPolicy_info (k : String) : (info k).Uses ByPolicy := by
  refine uses_bind (byPolicy_getJobState k) fun r => ?_
  cases r <;> trivial

theorem byPolicy_ackMessage (k : String) : (ackMessage k).Uses ByPolicy := by
  refine ⟨trivial, fun tracked => ?_⟩
  cases tracked with
  | none => trivial
  | some msg => exact ⟨trivial, fun _ => trivial⟩

theorem byPolicy_cancelIndexes (k : String) (job : Job) : (cancelIndexes k job).Uses ByPolicy := by
  refine uses_bind ⟨by simp [ByPolicy], fun _ => trivial⟩ fun r => ?_
  cases r with
  | error e => trivial
  | ok _ =>
    refine uses_bind ⟨by simp [ByPolicy], fun _ => trivial⟩ fun r => ?_
    cases r with
    | error e => trivial
    | ok _ =>
      refine uses_bind ⟨by simp [ByPolicy], fun _ => trivial⟩ fun r => ?_
      cases r with
      | error e => trivial
      | ok _ =>
        refine uses_bind (byPolicy_ackMessage k) fun r => ?_
        cases r <;> trivial

theorem byPolicy_cancel (lib : Externals) (k : String) : (cancel lib k).Uses ByPolicy := by
  refine uses_bind (byPolicy_getJobState k) fun r => ?_
  cases r with
  | error e => trivial
  | ok job =>
    refine uses_ite trivial (uses_bind ⟨trivial, fun _ => trivial⟩ fun now => ?_)
    refine uses_bind ⟨rfl, fun _ => trivial⟩ fun r => ?_
    cases r with
    | error e => trivial
    | ok _ => exact byPolicy_cancelIndexes k _

theorem byPolicy_handleUnique (lib : Externals) (job : Job) (unique : UniquePolicy) :
    (handleUnique lib job unique).Uses ByPolicy := by
  have overwrite (fingerprint : String) : ((overwriteUnique fingerprint job.id).bind fun _ =>
      Program.pure (none : Option (Result Job))).Uses ByPolicy :=
    uses_bind (byPolicy_overwriteUnique _ _) fun _ => trivial
  refine uses_bind (byPolicy_checkAndSet _ _) fun r => ?_
  cases r with
  | error e => trivial
  | ok existingID =>
    refine uses_ite trivial (uses_bind (byPolicy_info _) fun r => ?_)
    cases r with
    | error e => exact overwrite _
    | ok existing =>
      refine uses_ite (uses_ite trivial (uses_ite trivial (uses_ite ?_ (overwrite _))))
        (overwrite _)
      exact uses_bind (byPolicy_cancel lib _) fun _ => overwrite _

theorem ByPolicy.keeps {w t : World} {op : Op} {r : Ans op} (by' : ByPolicy op)
    (step : w.Serves op r t) : t.stream = w.stream ∧ t.clock = w.clock ∧ t.used = w.used := by
  cases op with
  | get | now | msgAck => exact step.2 ▸ ⟨rfl, rfl, rfl⟩
  | put | delete | inflightLoadAndDelete => exact step.2 ▸ ⟨rfl, rfl, rfl⟩
  | create =>
    simp only [World.Serves] at step
    split at step <;> exact step.2 ▸ ⟨rfl, rfl, rfl⟩
  | _ => exact by'.elim

theorem ByPolicy.off {b : BucketName} (apart : Apart b = true) {op : Op} (by' : ByPolicy op) :
    Off b op := by
  cases op with
  | create | put => exact ne_of_apart apart (congrArg Apart by')
  | get =>
    rcases by' with same | same <;> exact ne_of_apart apart (congrArg Apart same)
  | delete =>
    rcases by' with same | same | same | same <;> exact ne_of_apart apart (congrArg Apart same)
  | keys | update => exact by'.elim
  | _ => trivial

section Apart

variable {b : BucketName} (apart : Apart b = true)

theorem off_publishJob (queue k : String) : (publishJob queue k).Uses (Off b) := by
  refine ⟨trivial, fun r => ?_⟩
  cases r <;> trivial

include apart

theorem off_getJobState (k : String) : (getJobState k).Uses (Off b) := by
  refine ⟨ne_of_apart apart rfl, fun r => ?_⟩
  cases r <;> trivial

theorem off_putJobState (job : Job) : (putJobState job).Uses (Off b) :=
  ⟨ne_of_apart apart rfl, fun _ => trivial⟩

theorem off_handleUnique (lib : Externals) (job : Job) (unique : UniquePolicy) :
    (handleUnique lib job unique).Uses (Off b) :=
  (byPolicy_handleUnique lib job unique).mono fun _ => ByPolicy.off apart

theorem off_storeJob (queues : .queues ≠ b) (lib : Externals) (now : Int) (job : Job) :
    (storeJob lib now job).Uses (Off b) := by
  refine uses_bind ((onlyOn_ensureQueue _).mono fun _ => OnlyOn.off queues) fun _ =>
    uses_bind ((onlyOn_storeRateLimit _).mono fun _ => OnlyOn.off queues) fun _ => ?_
  split
  · refine uses_bind (off_putJobState apart _) fun r => ?_
    cases r with
    | error e => trivial
    | ok _ => exact ⟨ne_of_apart apart rfl, fun _ => trivial⟩
  · refine uses_bind (off_putJobState apart _) fun r => ?_
    cases r with
    | error e => trivial
    | ok _ =>
      refine uses_bind (off_publishJob _ _) fun r => ?_
      cases r <;> trivial

omit apart in
theorem off_newID {α : Type} {given : String} {rest : String → Prog α}
    (h : ∀ id, (rest id).Uses (Off b)) :
    (if given = "" then newUUIDv7.bind rest else rest given).Uses (Off b) := by
  split
  · exact uses_bind ⟨trivial, fun _ => trivial⟩ h
  · exact h given

theorem off_push (queues : .queues ≠ b) (lib : Externals) (job : Job) :
    (push lib job).Uses (Off b) := by
  refine uses_bind ⟨trivial, fun _ => trivial⟩ fun now => ?_
  simp only [bind_eq, pure_eq, bind_pure_left]
  refine off_newID fun id => ?_
  split
  · exact off_storeJob apart queues lib now _
  · refine uses_bind (off_handleUnique apart lib _ _) fun early => ?_
    cases early with
    | some reply => trivial
    | none => exact off_storeJob apart queues lib now _

end Apart

end OjsNats.Lifecycle
