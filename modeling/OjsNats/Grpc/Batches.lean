import OjsNats.Grpc.Retries

/-!
# Single requests and batch entries

`Enqueue` and `EnqueueBatch` convert the same options message by two functions.
The one for batch entries leaves out the retry policy, the unique policy and the
delay.
-/

namespace OjsNats.Grpc

open Core

variable {clockwork : Clockwork}

/-- The options that both conversions read. -/
structure JobOptions.Plain (opts : JobOptions) : Prop where
  retry : opts.retry = none
  unique : opts.unique = none
  delayUntil : opts.delayUntil = none

section Fields

variable {type : String} {args : List Value} {opts : JobOptions}

theorem enqueueJobRequestToJob_retry (req : BatchJobEntry) :
    (enqueueJobRequestToJob req).retry = none := by
  unfold enqueueJobRequestToJob
  cases req.options <;> rfl

theorem enqueueJobRequestToJob_unique (req : BatchJobEntry) :
    (enqueueJobRequestToJob req).unique = none := by
  unfold enqueueJobRequestToJob
  cases req.options <;> rfl

theorem enqueueJobRequestToJob_scheduledAt (req : BatchJobEntry) :
    (enqueueJobRequestToJob req).scheduledAt = "" := by
  unfold enqueueJobRequestToJob
  cases req.options <;> rfl

theorem enqueueRequestToJob_of_plain (plain : opts.Plain) :
    enqueueJobRequestToJob { type, args, options := some opts } =
      enqueueRequestToJob clockwork { type, args, options := some opts } := by
  simp only [enqueueJobRequestToJob, enqueueRequestToJob, plain.retry, plain.unique,
    plain.delayUntil, Option.map_none]

/-- The record shows each option that the batch entry lost. -/
theorem plain_of_eq (formats : ∀ t, clockwork.formatRFC3339 t ≠ "")
    (same : enqueueJobRequestToJob { type, args, options := some opts } =
      enqueueRequestToJob clockwork { type, args, options := some opts }) : opts.Plain := by
  constructor
  · have retry := congrArg Job.retry same
    rw [enqueueJobRequestToJob_retry] at retry
    exact Option.map_eq_none_iff.mp retry.symm
  · have unique := congrArg Job.unique same
    rw [enqueueJobRequestToJob_unique] at unique
    exact Option.map_eq_none_iff.mp unique.symm
  · have scheduledAt := congrArg Job.scheduledAt same
    rw [enqueueJobRequestToJob_scheduledAt] at scheduledAt
    cases delayed : opts.delayUntil with
    | none => rfl
    | some t =>
      refine absurd scheduledAt.symm ?_
      simpa only [enqueueRequestToJob, delayed] using formats t

end Fields

/-- The two conversions agree exactly on the options that name no retry policy, no unique
policy and no delay. -/
theorem enqueueJobRequestToJob_eq_iff (formats : ∀ t, clockwork.formatRFC3339 t ≠ "")
    (type : String) (args : List Value) (options : Option JobOptions) :
    enqueueJobRequestToJob { type, args, options } =
        enqueueRequestToJob clockwork { type, args, options } ↔
      ∀ opts ∈ options, opts.Plain := by
  cases options with
  | none => simp [enqueueJobRequestToJob, enqueueRequestToJob]
  | some opts =>
    constructor
    · rintro same _ ⟨⟩
      exact plain_of_eq formats same
    · intro plain
      exact enqueueRequestToJob_of_plain (plain opts rfl)

/-! ## A mail with a priority, and one with a delay -/

def urgent : JobOptions := { queue := "mails", priority := 7 }

theorem enqueueJobRequestToJob_urgent :
    enqueueJobRequestToJob { type := "mail", options := some urgent } =
        enqueueRequestToJob sampleClockwork { type := "mail", options := some urgent } ↔
      ∀ opts ∈ some urgent, opts.Plain :=
  enqueueJobRequestToJob_eq_iff (by simp [sampleClockwork]) "mail" [] (some urgent)

def postponed : JobOptions := { queue := "mails", delayUntil := some 1767225600000000000 }

/-- The entry of the batch is a job for now, the single request one for later. -/
theorem not_enqueueJobRequestToJob_eq :
    ¬ ∀ (type : String) (args : List Value) (options : Option JobOptions),
      enqueueJobRequestToJob { type, args, options } =
        enqueueRequestToJob sampleClockwork { type, args, options } := by
  intro same
  have scheduledAt := congrArg Job.scheduledAt (same "mail" [] (some postponed))
  revert scheduledAt
  decide

end OjsNats.Grpc
