import OjsNats.Core.Durations
import OjsNats.Core.Types

/-!
# Requests over gRPC

`convert.go`: the messages of the gRPC service as far as the server reads them,
and their conversion to the core types.  Messages that may be nil are options.
-/

namespace OjsNats.Grpc

open Core

/-- A `double` of a `google.protobuf.Value`. -/
inductive Number where
  | finite (value : Rat)
  | nan
  | infinite (negative : Bool)

/-- `google.protobuf.Value`; a `Struct` is the list of its fields. -/
inductive Value where
  | null
  | number (value : Number)
  | string (value : String)
  | bool (value : Bool)
  | struct (fields : List (String × Value))
  | list (values : List Value)

structure RetryPolicy where
  maxAttempts : Int := 0
  initialInterval : Option Int := none
  backoffCoefficient : Rat := 0
  maxInterval : Option Int := none
  jitter : Bool := false

structure UniquePolicy where
  key : List String := []
  period : Option Int := none

structure JobOptions where
  queue : String := ""
  priority : Int := 0
  «meta» : Option (List (String × Value)) := none
  retry : Option RetryPolicy := none
  unique : Option UniquePolicy := none
  delayUntil : Option Int := none

structure EnqueueRequest where
  type : String := ""
  args : List Value := []
  options : Option JobOptions := none

structure BatchJobEntry where
  type : String := ""
  args : List Value := []
  options : Option JobOptions := none

/-- The service's `Job`. -/
structure ProtoJob where
  id : String := ""
  type : String := ""
  queue : String := ""
  state : State := .available
  attempt : Int := 0
  priority : Int := 0
  args : List Value := []
  «meta» : Option (List (String × Value)) := none
  result : Option (List (String × Value)) := none
  createdAt : Option Int := none
  enqueuedAt : Option Int := none
  scheduledAt : Option Int := none
  startedAt : Option Int := none
  completedAt : Option Int := none
  retryPolicy : Option RetryPolicy := none
  uniquePolicy : Option UniquePolicy := none

structure WorkflowStep where
  id : String := ""
  type : String := ""
  args : List Value := []

structure CreateWorkflowRequest where
  name : String := ""
  steps : List WorkflowStep := []

/-- What the conversions call of Go's `time`. -/
structure Clockwork where
  /-- `Duration.String` -/
  durationString : Int → String
  /-- `Time.Format(time.RFC3339)` in UTC -/
  formatRFC3339 : Int → String

/-- What the conversion of a stored job calls of `json`, `structpb` and `time`. -/
structure Decoder where
  /-- the values of a list, less those that `structpb` refuses -/
  newValues : RawMessage → List Value
  /-- `json.Unmarshal` followed by `structpb.NewStruct` -/
  newStruct : RawMessage → Option (List (String × Value))
  /-- `time.Parse(time.RFC3339, ·)` -/
  parseRFC3339 : String → Option Int
  /-- the floating point of `time.ParseDuration` -/
  fraction : Nat → Nat → Nat → Nat

/-! ## Values -/

/-- `AsInterface` of a number: only finite ones are numbers in JSON. -/
def Number.asInterface : Number → Json
  | .finite value => .num value
  | .nan => .str "NaN"
  | .infinite negative => .str (if negative then "-Infinity" else "Infinity")

mutual

/-- `AsInterface`, as the JSON that `json.Marshal` makes of it. -/
def Value.asInterface : Value → Json
  | .null => .null
  | .number value => value.asInterface
  | .string value => .str value
  | .bool value => .bool value
  | .struct fields => .obj (asMap fields)
  | .list values => .arr (valuesToInterface values)

/-- `Struct.AsMap` -/
def asMap : List (String × Value) → List (String × Json)
  | [] => []
  | (name, value) :: rest => (name, value.asInterface) :: asMap rest

def valuesToInterface : List Value → List Json
  | [] => []
  | value :: rest => value.asInterface :: valuesToInterface rest

end

/-- The arguments of a job; none are no JSON at all. -/
def marshalArgs (args : List Value) : Option RawMessage :=
  if args = [] then none else some (.arr (valuesToInterface args))

/-! ## Jobs -/

section Jobs

variable (clockwork : Clockwork)

def protoRetryToCore (r : RetryPolicy) : Core.RetryPolicy where
  maxAttempts := r.maxAttempts
  backoffCoefficient := r.backoffCoefficient
  jitter := r.jitter
  initialInterval :=
    match r.initialInterval with
    | some d => clockwork.durationString d
    | none => ""
  maxInterval :=
    match r.maxInterval with
    | some d => clockwork.durationString d
    | none => ""

def protoUniqueToCore (u : UniquePolicy) : Core.UniquePolicy where
  keys := u.key
  period :=
    match u.period with
    | some d => clockwork.durationString d
    | none => ""

def enqueueRequestToJob (req : EnqueueRequest) : Job :=
  let job : Job := { type := req.type, args := marshalArgs req.args }
  match req.options with
  | none => job
  | some opts =>
      { job with
        queue := opts.queue
        priority := if opts.priority ≠ 0 then some opts.priority else none
        «meta» := opts.meta.map fun fields => .obj (asMap fields)
        retry := opts.retry.map (protoRetryToCore clockwork)
        unique := opts.unique.map (protoUniqueToCore clockwork)
        scheduledAt :=
          match opts.delayUntil with
          | some t => clockwork.formatRFC3339 t
          | none => "" }

/-- The conversion of a batch entry reads three of the options. -/
def enqueueJobRequestToJob (req : BatchJobEntry) : Job :=
  let job : Job := { type := req.type, args := marshalArgs req.args }
  match req.options with
  | none => job
  | some opts =>
      { job with
        queue := opts.queue
        priority := if opts.priority ≠ 0 then some opts.priority else none
        «meta» := opts.meta.map fun fields => .obj (asMap fields) }

end Jobs

/-! ## Stored jobs -/

section StoredJobs

variable (decoder : Decoder)

def int32 (n : Int) : Int := n.bmod (2 ^ 32)

def parseRFC3339 (s : String) : Option Int :=
  if s = "" then none else decoder.parseRFC3339 s

/-- The retry policy in `jobToProto`. -/
def coreRetryToProto (r : Core.RetryPolicy) : RetryPolicy where
  maxAttempts := int32 r.maxAttempts
  backoffCoefficient := r.backoffCoefficient
  jitter := r.jitter
  initialInterval := Duration.parseDuration decoder.fraction r.initialInterval
  maxInterval := Duration.parseDuration decoder.fraction r.maxInterval

/-- The unique policy in `jobToProto`. -/
def coreUniqueToProto (u : Core.UniquePolicy) : UniquePolicy where
  key := u.keys
  period := Duration.parseDuration decoder.fraction u.period

/-- `stateToProto` has the same states on both sides. -/
def jobToProto (j : Job) : ProtoJob where
  id := j.id
  type := j.type
  queue := j.queue
  state := j.state
  attempt := int32 j.attempt
  priority := (j.priority.map int32).getD 0
  args := (j.args.map decoder.newValues).getD []
  «meta» := j.meta.bind decoder.newStruct
  result := j.result.bind decoder.newStruct
  createdAt := parseRFC3339 decoder j.createdAt
  enqueuedAt := parseRFC3339 decoder j.enqueuedAt
  scheduledAt := parseRFC3339 decoder j.scheduledAt
  startedAt := parseRFC3339 decoder j.startedAt
  completedAt := parseRFC3339 decoder j.completedAt
  retryPolicy := j.retry.map (coreRetryToProto decoder)
  uniquePolicy := j.unique.map (coreUniqueToProto decoder)

end StoredJobs

/-! ## Workflows -/

def protoToWorkflowStep (req : WorkflowStep) : WorkflowJobRequest where
  name := req.id
  type := req.type
  args := marshalArgs req.args

/-- The request's steps are the steps of the workflow, which has no type. -/
def protoToWorkflowRequest (req : CreateWorkflowRequest) : WorkflowRequest where
  name := req.name
  steps := req.steps.map protoToWorkflowStep

end OjsNats.Grpc
