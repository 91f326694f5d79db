import OjsNats.Nats.Codec

/-!
# Job records as JSON

A `jobState` is an object with one member for each field, under the field's tag;
a field that is tagged `omitempty` has none when it is empty.  What is missing
reads as the zero value of the field.
-/

namespace OjsNats.Nats

open Core

/-- How a field of some type is written, if it is, and read back. -/
structure Codec (α : Type) where
  write : α → Option Json
  read : Option Json → Option α
  read_write : ∀ a, read (write a) = some a

namespace Codec

/-- A `string`. -/
def text : Codec String where
  write s := some (.str s)
  read
    | none | some .null => some ""
    | some (.str s) => some s
    | _ => none
  read_write _ := rfl

/-- A `string` tagged `omitempty`. -/
def textIfAny : Codec String where
  write s := if s = "" then none else some (.str s)
  read := text.read
  read_write s := by
    split
    · rename_i empty
      rw [empty]
      rfl
    · rfl

/-- The number is an integer. -/
def readInt : Json → Option Int
  | .num q => if q.den = 1 then some q.num else none
  | _ => none

@[simp] theorem readInt_num (n : Int) : readInt (.num n) = some n := by
  simp [readInt]

/-- An `int`. -/
def int : Codec Int where
  write n := some (.num n)
  read
    | none | some .null => some 0
    | some v => readInt v
  read_write n := readInt_num n

/-- An `int` tagged `omitempty`. -/
def intIfAny : Codec Int where
  write n := if n = 0 then none else some (.num n)
  read := int.read
  read_write n := by
    split
    · rename_i zero
      rw [zero]
      rfl
    · exact readInt_num n

/-- A pointer tagged `omitempty`, given the JSON of what it points at. -/
def pointer {α : Type} (write : α → Json) (read : Json → Option α)
    (read_write : ∀ a, read (write a) = some a) (proper : ∀ a, write a ≠ .null) :
    Codec (Option α) where
  write a := a.map write
  read
    | none | some .null => some none
    | some v => (read v).map some
  read_write a := by
    cases a with
    | none => rfl
    | some a =>
      have present : write a ≠ .null := proper a
      simp only [Option.map_some, read_write]

def intPointer : Codec (Option Int) :=
  pointer (fun n => .num n) readInt readInt_num fun _ => by simp

/-- A `json.RawMessage` tagged `omitempty`. -/
def raw : Codec (Option RawMessage) where
  write v := v
  read v := some v
  read_write _ := rfl

/-- A slice tagged `omitempty`, given the JSON of its elements. -/
def slice {α : Type} (write : α → Json) (read : Json → Option α)
    (read_write : ∀ a, read (write a) = some a) : Codec (List α) where
  write xs := if xs.isEmpty then none else some (.arr (xs.map write))
  read
    | none | some .null => some []
    | some (.arr items) => items.mapM read
    | _ => none
  read_write xs := by
    cases xs with
    | nil => rfl
    | cons x rest =>
      have all : ∀ xs : List α, (xs.map write).mapM read = some xs := by
        intro xs
        induction xs with
        | nil => rfl
        | cons x rest ih => simp [List.mapM_cons, read_write, ih]
      exact all (x :: rest)

def readText : Json → Option String
  | .str s => some s
  | _ => none

def texts : Codec (List String) := slice .str readText fun _ => rfl

def raws : Codec (List RawMessage) := slice id some fun _ => rfl

/-- A `map[string]json.RawMessage` tagged `omitempty`. -/
def rawMap : Codec (List (String × RawMessage)) where
  write fields := if fields.isEmpty then none else some (.obj fields)
  read
    | none | some .null => some []
    | some (.obj fields) => some fields
    | _ => none
  read_write fields := by
    cases fields <;> rfl

end Codec

def State.ofName : String → Option State
  | "available" => some .available
  | "scheduled" => some .scheduled
  | "pending" => some .pending
  | "active" => some .active
  | "retryable" => some .retryable
  | "completed" => some .completed
  | "cancelled" => some .cancelled
  | "discarded" => some .discarded
  | _ => none

/-- A state is a `string`. -/
def Codec.state : Codec State where
  write s := some (.str s.name)
  read
    | some (.str name) => State.ofName name
    | _ => none
  read_write s := by cases s <;> rfl

/-! ## Records -/

/-- The codecs of the policies, whose tags are those of the core package. -/
structure PolicyCodecs where
  retry : Codec (Option RetryPolicy)
  unique : Codec (Option UniquePolicy)

section Record

variable (policies : PolicyCodecs)

/-- The members of a `jobState`, tag by tag. -/
def members (s : JobState) : List (String × Option Json) :=
  [("id", Codec.text.write s.id),
    ("type", Codec.text.write s.type),
    ("state", Codec.state.write s.state),
    ("queue", Codec.text.write s.queue),
    ("args", Codec.raw.write s.args),
    ("meta", Codec.raw.write s.«meta»),
    ("priority", Codec.intPointer.write s.priority),
    ("attempt", Codec.int.write s.attempt),
    ("max_attempts", Codec.intPointer.write s.maxAttempts),
    ("timeout_ms", Codec.intPointer.write s.timeoutMs),
    ("created_at", Codec.textIfAny.write s.createdAt),
    ("enqueued_at", Codec.textIfAny.write s.enqueuedAt),
    ("started_at", Codec.textIfAny.write s.startedAt),
    ("completed_at", Codec.textIfAny.write s.completedAt),
    ("cancelled_at", Codec.textIfAny.write s.cancelledAt),
    ("scheduled_at", Codec.textIfAny.write s.scheduledAt),
    ("result", Codec.raw.write s.result),
    ("error", Codec.raw.write s.error),
    ("errors", Codec.raws.write s.errors),
    ("tags", Codec.texts.write s.tags),
    ("retry", policies.retry.write s.retry),
    ("unique", policies.unique.write s.unique),
    ("expires_at", Codec.textIfAny.write s.expiresAt),
    ("retry_delay_ms", Codec.intPointer.write s.retryDelayMs),
    ("parent_results", Codec.raws.write s.parentResults),
    ("visibility_timeout_ms", Codec.intPointer.write s.visibilityTimeoutMs),
    ("workflow_id", Codec.textIfAny.write s.workflowID),
    ("workflow_step", Codec.intIfAny.write s.workflowStep),
    ("worker_id", Codec.textIfAny.write s.workerID),
    ("rate_limit_max_per_sec", Codec.intIfAny.write s.rateLimitMaxPerSec),
    ("unknown_fields", Codec.rawMap.write s.unknownFields)]

/-- The members that are there. -/
def present (fields : List (String × Option Json)) : List (String × Json) :=
  fields.filterMap fun field => field.2.map (field.1, ·)

/-- `json.Marshal` of a `jobState`. -/
def writeJobState (s : JobState) : Json := .obj (present (members policies s))

/-- `json.Unmarshal` into an empty `jobState`. -/
def readJobState : Json → Option JobState
  | .obj data => do
    let id ← Codec.text.read (data.lookup "id")
    let type ← Codec.text.read (data.lookup "type")
    let state ← Codec.state.read (data.lookup "state")
    let queue ← Codec.text.read (data.lookup "queue")
    let args ← Codec.raw.read (data.lookup "args")
    let «meta» ← Codec.raw.read (data.lookup "meta")
    let priority ← Codec.intPointer.read (data.lookup "priority")
    let attempt ← Codec.int.read (data.lookup "attempt")
    let maxAttempts ← Codec.intPointer.read (data.lookup "max_attempts")
    let timeoutMs ← Codec.intPointer.read (data.lookup "timeout_ms")
    let createdAt ← Codec.textIfAny.read (data.lookup "created_at")
    let enqueuedAt ← Codec.textIfAny.read (data.lookup "enqueued_at")
    let startedAt ← Codec.textIfAny.read (data.lookup "started_at")
    let completedAt ← Codec.textIfAny.read (data.lookup "completed_at")
    let cancelledAt ← Codec.textIfAny.read (data.lookup "cancelled_at")
    let scheduledAt ← Codec.textIfAny.read (data.lookup "scheduled_at")
    let result ← Codec.raw.read (data.lookup "result")
    let error ← Codec.raw.read (data.lookup "error")
    let errors ← Codec.raws.read (data.lookup "errors")
    let tags ← Codec.texts.read (data.lookup "tags")
    let retry ← policies.retry.read (data.lookup "retry")
    let unique ← policies.unique.read (data.lookup "unique")
    let expiresAt ← Codec.textIfAny.read (data.lookup "expires_at")
    let retryDelayMs ← Codec.intPointer.read (data.lookup "retry_delay_ms")
    let parentResults ← Codec.raws.read (data.lookup "parent_results")
    let visibilityTimeoutMs ← Codec.intPointer.read (data.lookup "visibility_timeout_ms")
    let workflowID ← Codec.textIfAny.read (data.lookup "workflow_id")
    let workflowStep ← Codec.intIfAny.read (data.lookup "workflow_step")
    let workerID ← Codec.textIfAny.read (data.lookup "worker_id")
    let rateLimitMaxPerSec ← Codec.intIfAny.read (data.lookup "rate_limit_max_per_sec")
    let unknownFields ← Codec.rawMap.read (data.lookup "unknown_fields")
    return {
      id, type, state, queue, args, «meta», priority, attempt, maxAttempts, timeoutMs,
      createdAt, enqueuedAt, startedAt, completedAt, cancelledAt, scheduledAt, result,
      error, errors, tags, retry, unique, expiresAt, retryDelayMs, parentResults,
      visibilityTimeoutMs, workflowID, workflowStep, workerID, rateLimitMaxPerSec,
      unknownFields }
  | _ => none

/-- Each member that is there is found under its tag. -/
theorem lookup_present {fields : List (String × Option Json)}
    (distinct : (fields.map Prod.fst).Nodup) (tag : String) :
    (present fields).lookup tag = (fields.lookup tag).join := by
  induction fields with
  | nil => rfl
  | cons field rest ih =>
    obtain ⟨name, value⟩ := field
    obtain ⟨absent, distinct⟩ := List.nodup_cons.mp distinct
    have later := ih distinct
    unfold present at later ⊢
    by_cases same : tag = name
    · subst same
      cases value with
      | some v => simp
      | none =>
        have missing : rest.lookup tag = none := by
          rw [List.lookup_eq_none_iff]
          intro entry mem
          rw [bne_iff_ne]
          intro same
          exact absent (List.mem_map.mpr ⟨entry, mem, same.symm⟩)
        simpa [missing] using later
    · have other : (tag == name) = false := beq_eq_false_iff_ne.mpr same
      cases value with
      | some v => simpa [List.lookup_cons, other] using later
      | none => simpa [List.lookup_cons, other] using later

theorem tags_distinct (s : JobState) : ((members policies s).map Prod.fst).Nodup := by
  simp [members]

/-- A record reads back as it was written. -/
theorem readJobState_writeJobState (s : JobState) :
    readJobState policies (writeJobState policies s) = some s := by
  simp only [readJobState, writeJobState, lookup_present (tags_distinct policies s)]
  simp [members, List.lookup_cons, Codec.read_write]

/-! ## Jobs -/

/-- `marshalJobState`, as the JSON it returns. -/
def marshalled (job : Job) : Json := writeJobState policies (jobToState job)

/-- `unmarshalJobState` of JSON. -/
def unmarshalled (data : Json) : Option Job := (readJobState policies data).map stateToJob

/-- The persistent fields: whether a push found the job is not stored. -/
def persistent (job : Job) : Job := { job with isExisting := false }

/-- All persistent fields are read back but the rate limit. -/
theorem unmarshalled_marshalled (job : Job) : unmarshalled policies (marshalled policies job) =
    some { persistent job with rateLimit := none } := by
  rw [unmarshalled, marshalled, readJobState_writeJobState]
  rfl

/-- A job reads back as it was stored exactly if it has no rate limit. -/
theorem reads_back_iff (job : Job) :
    (∃ job', unmarshalled policies (marshalled policies job) = some job' ∧
      persistent job' = persistent job) ↔ job.rateLimit = none := by
  rw [unmarshalled_marshalled]
  constructor
  · rintro ⟨job', loaded, same⟩
    obtain rfl := Option.some.inj loaded
    exact (congrArg Job.rateLimit same).symm
  · intro unlimited
    refine ⟨_, rfl, ?_⟩
    rw [persistent, persistent, ← unlimited]

end Record

/-! ## Policies as the core package writes them -/

namespace Sample

def readBool : Json → Option Bool
  | .bool b => some b
  | _ => none

def readNum : Json → Option Rat
  | .num q => some q
  | _ => none

def writeRetry (policy : RetryPolicy) : Json :=
  .obj [("max_attempts", .num policy.maxAttempts),
    ("initial_interval", .str policy.initialInterval),
    ("backoff_coefficient", .num policy.backoffCoefficient),
    ("max_interval", .str policy.maxInterval), ("jitter", .bool policy.jitter),
    ("non_retryable_errors", .arr (policy.nonRetryableErrors.map .str)),
    ("on_exhaustion", .str policy.onExhaustion)]

def readRetry : Json → Option RetryPolicy
  | .obj [(_, maxAttempts), (_, .str initialInterval), (_, backoff), (_, .str maxInterval),
      (_, jitter), (_, errors), (_, .str onExhaustion)] => do
      return {
        maxAttempts := ← Codec.readInt maxAttempts
        initialInterval
        backoffCoefficient := ← readNum backoff
        maxInterval
        jitter := ← readBool jitter
        nonRetryableErrors := ← Codec.texts.read (some errors)
        onExhaustion }
  | _ => none

def writeUnique (policy : UniquePolicy) : Json :=
  .obj [("keys", .arr (policy.keys.map .str)), ("period", .str policy.period),
    ("on_conflict", .str policy.onConflict), ("states", .arr (policy.states.map .str))]

def readUnique : Json → Option UniquePolicy
  | .obj [(_, keys), (_, .str period), (_, .str onConflict), (_, states)] => do
      return {
        keys := ← Codec.texts.read (some keys)
        period
        onConflict
        states := ← Codec.texts.read (some states) }
  | _ => none

theorem texts_read (xs : List String) : Codec.texts.read (some (.arr (xs.map .str))) = some xs := by
  cases xs with
  | nil => rfl
  | cons x rest => exact Codec.texts.read_write (x :: rest)

def policies : PolicyCodecs where
  retry := .pointer writeRetry readRetry
    (fun policy => by simp [writeRetry, readRetry, texts_read, readNum, readBool])
    fun _ => by simp [writeRetry]
  unique := .pointer writeUnique readUnique
    (fun policy => by simp [writeUnique, readUnique, texts_read])
    fun _ => by simp [writeUnique]

end Sample

theorem not_reads_back : ¬ ∀ (policies : PolicyCodecs) (job : Job),
    ∃ job', unmarshalled policies (marshalled policies job) = some job' ∧
      persistent job' = persistent job := by
  intro reads
  obtain ⟨job', loaded, same⟩ := reads Sample.policies { id := "job-1", rateLimit := some ⟨10⟩ }
  rw [unmarshalled_marshalled] at loaded
  obtain rfl := Option.some.inj loaded
  cases congrArg Job.rateLimit same

end OjsNats.Nats
