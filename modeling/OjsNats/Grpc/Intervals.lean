import OjsNats.Grpc.Convert

/-!
# The intervals of policies

The gRPC service stores the intervals of a policy in Go's notation and reads
stored ones in it.  The stored policies use that of ISO 8601.
-/

namespace OjsNats.Grpc

open Core Duration

/-- The intervals that a policy names. -/
inductive Interval where
  | initialInterval
  | maxInterval
  | period

namespace Interval

/-- What a request asks for. -/
def asked (opts : JobOptions) : Interval → Option Int
  | initialInterval => opts.retry.bind RetryPolicy.initialInterval
  | maxInterval => opts.retry.bind RetryPolicy.maxInterval
  | period => opts.unique.bind UniquePolicy.period

/-- The text in the record. -/
def stored (job : Job) : Interval → Option String
  | initialInterval => job.retry.map Core.RetryPolicy.initialInterval
  | maxInterval => job.retry.map Core.RetryPolicy.maxInterval
  | period => job.unique.map Core.UniquePolicy.period

/-- What a client is told. -/
def reported (job : ProtoJob) : Interval → Option Int
  | initialInterval => job.retryPolicy.bind RetryPolicy.initialInterval
  | maxInterval => job.retryPolicy.bind RetryPolicy.maxInterval
  | period => job.uniquePolicy.bind UniquePolicy.period

end Interval

variable {clockwork : Clockwork} {decoder : Decoder} {req : EnqueueRequest} {opts : JobOptions}
  {job : Job} {i : Interval} {s : String} {d : Int}

theorem stored_enqueueRequestToJob (here : req.options = some opts) (asks : i.asked opts = some d) :
    i.stored (enqueueRequestToJob clockwork req) = some (clockwork.durationString d) := by
  cases i with
  | initialInterval =>
    obtain ⟨r, retry, interval⟩ := Option.bind_eq_some_iff.mp asks
    simp [enqueueRequestToJob, here, Interval.stored, retry, protoRetryToCore, interval]
  | maxInterval =>
    obtain ⟨r, retry, interval⟩ := Option.bind_eq_some_iff.mp asks
    simp [enqueueRequestToJob, here, Interval.stored, retry, protoRetryToCore, interval]
  | period =>
    obtain ⟨u, unique, interval⟩ := Option.bind_eq_some_iff.mp asks
    simp [enqueueRequestToJob, here, Interval.stored, unique, protoUniqueToCore, interval]

theorem reported_jobToProto (here : i.stored job = some s) :
    i.reported (jobToProto decoder job) = parseDuration decoder.fraction s := by
  cases i with
  | initialInterval =>
    obtain ⟨r, retry, rfl⟩ := Option.map_eq_some_iff.mp here
    simp [jobToProto, Interval.reported, retry, coreRetryToProto]
  | maxInterval =>
    obtain ⟨r, retry, rfl⟩ := Option.map_eq_some_iff.mp here
    simp [jobToProto, Interval.reported, retry, coreRetryToProto]
  | period =>
    obtain ⟨u, unique, rfl⟩ := Option.map_eq_some_iff.mp here
    simp [jobToProto, Interval.reported, unique, coreUniqueToProto]

/-- Go's text of a positive duration starts with a digit. -/
theorem not_denotesDuration_durationString (positive : 0 < d) (d' : Int) :
    ¬ DenotesDuration (durationString d) d' := by
  rintro ⟨t, text, -⟩
  obtain ⟨c, first, digit⟩ := head?_formatDuration d.natAbs
  have same : formatDuration d.natAbs = t.text := by
    rw [durationString, if_neg (by omega)] at text
    exact String.ofList_injective text
  rw [same] at first
  cases first
  revert digit
  decide

/-- A text of ISO 8601 starts with `P`. -/
theorem parseDuration_of_denotes {fraction : Nat → Nat → Nat → Nat}
    (denotes : DenotesDuration s d) : parseDuration fraction s = none := by
  obtain ⟨t, rfl, -⟩ := denotes
  exact parseDuration_eq_none (by decide) (by decide)

/-- No positive interval keeps its meaning: what a request asks for is stored as no text of
ISO 8601, and no such text for it, of which there are some, is reported. -/
theorem interval_never_kept (go : clockwork.durationString = durationString) (decoder : Decoder)
    (i : Interval) (d : Int) (positive : 0 < d) :
    (∀ req opts, req.options = some opts → i.asked opts = some d →
      ∃ s, i.stored (enqueueRequestToJob clockwork req) = some s ∧ ¬ DenotesDuration s d) ∧
    (∃ s, DenotesDuration s d) ∧
    ∀ job s, i.stored job = some s → DenotesDuration s d →
      i.reported (jobToProto decoder job) = none := by
  refine ⟨fun req opts here asks => ?_, exists_denotesDuration (by omega),
    fun job s here denotes => ?_⟩
  · refine ⟨_, stored_enqueueRequestToJob here asks, ?_⟩
    rw [go]
    exact not_denotesDuration_durationString positive d
  · rw [reported_jobToProto here]
    exact parseDuration_of_denotes denotes

/-! ## A minute -/

def goClockwork : Clockwork where
  durationString := durationString
  formatRFC3339 := fun _ => "2026-01-01T00:00:00Z"

/-- Exact arithmetic, and messages without values. -/
def sampleDecoder : Decoder where
  newValues := fun _ => []
  newStruct := fun _ => none
  parseRFC3339 := fun _ => none
  fraction := fun f unit scale => f * unit / scale

theorem interval_never_kept_minute :
    (∀ req opts, req.options = some opts → Interval.period.asked opts = some 60000000000 →
      ∃ s, Interval.period.stored (enqueueRequestToJob goClockwork req) = some s ∧
        ¬ DenotesDuration s 60000000000) ∧
    (∃ s, DenotesDuration s 60000000000) ∧
    ∀ job s, Interval.period.stored job = some s → DenotesDuration s 60000000000 →
      Interval.period.reported (jobToProto sampleDecoder job) = none :=
  interval_never_kept rfl sampleDecoder .period 60000000000 (by decide)

/-- The text of a minute in ISO 8601. -/
def isoMinute : TimeDuration where
  minutes := ['1']
  digits := by
    intro c mem
    rw [List.mem_singleton.mp mem]
    rfl
  nonempty := by decide
  whole := fun _ => rfl

def retriedAfterMinute : Job := { retry := some { initialInterval := "PT1M" } }

/-- A minute is stored as `1m0s`, and one stored as `PT1M` is not reported. -/
theorem not_interval_kept :
    (¬ ∀ r : RetryPolicy, r.initialInterval = some 60000000000 →
      DenotesDuration (protoRetryToCore goClockwork r).initialInterval 60000000000) ∧
    ¬ ∀ job s, Interval.initialInterval.stored job = some s → DenotesDuration s 60000000000 →
      Interval.initialInterval.reported (jobToProto sampleDecoder job) = some 60000000000 := by
  constructor
  · intro stores
    have denotes := stores { initialInterval := some 60000000000 } rfl
    exact not_denotesDuration_durationString (by decide) 60000000000 denotes
  · intro reports
    have told := reports retriedAfterMinute "PT1M" rfl ⟨isoMinute, by decide, by decide⟩
    revert told
    decide

end OjsNats.Grpc
