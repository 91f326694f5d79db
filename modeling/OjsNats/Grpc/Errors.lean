import OjsNats.Core.Sample
import OjsNats.Nats.Cron

/-!
# The status of an error over gRPC

`coreErrorToGRPC` looks for markers in the text of an error, one group after the
other.  The text has the message in it, and the message may quote the request.
-/

namespace OjsNats.Grpc

open Core Nats

/-- The codes of an `OJSError`. -/
inductive Code where
  | invalidRequest
  | validationError
  | notFound
  | conflict
  | duplicate
  | internalError
  | unsupported
  | queuePaused
  deriving DecidableEq

/-- What the shared core package and NATS put into words. -/
structure Wording where
  /-- what `OJSError.Error` has in front of the message -/
  before : Code → String
  /-- and what it has behind it -/
  after : Code → String
  /-- the message of `NewNotFoundError` on a resource and an id -/
  notFoundMessage : String → String → String
  /-- the code that `ValidateEnqueueRequest` puts on a complaint -/
  validationCode : String → Code
  /-- an error of NATS -/
  callError : CallError → String

namespace Wording

variable (wording : Wording)

/-- `OJSError.Error` -/
def errorText (code : Code) (message : String) : String :=
  wording.before code ++ message ++ wording.after code

/-- The text of an error. -/
def text : BackendError → String
  | .call e => wording.callError e
  | .wrapped context cause => context ++ ": " ++ text cause
  | .notFound resource id => wording.errorText .notFound (wording.notFoundMessage resource id)
  | .conflict message _ => wording.errorText .conflict message
  | .internal context cause => wording.errorText .internalError (context ++ ": " ++ text cause)
  | .duplicate message _ => wording.errorText .duplicate message
  | .invalidRequest message _ => wording.errorText .invalidRequest message
  | .validation message => wording.errorText (wording.validationCode message) message
  | .panicked => ""

/-- The code and the message of an `OJSError`. -/
def ojsError : BackendError → Option (Code × String)
  | .notFound resource id => some (.notFound, wording.notFoundMessage resource id)
  | .conflict message _ => some (.conflict, message)
  | .internal context cause => some (.internalError, context ++ ": " ++ wording.text cause)
  | .duplicate message _ => some (.duplicate, message)
  | .invalidRequest message _ => some (.invalidRequest, message)
  | .validation message => some (wording.validationCode message, message)
  | .call _ | .wrapped _ _ | .panicked => none

theorem text_of_ojsError {wording : Wording} {e : BackendError} {code : Code} {message : String}
    (ojs : wording.ojsError e = some (code, message)) :
    wording.text e = wording.errorText code message := by
  cases e with
  | call | wrapped | panicked => cases ojs
  | notFound | conflict | internal | duplicate | invalidRequest | validation =>
    cases ojs
    rfl

end Wording

/-! ## The tests -/

/-- `containsStr` -/
def containsStr (s substr : List Char) : Bool :=
  substr.isPrefixOf s ||
    match s with
    | [] => false
    | _ :: rest => containsStr rest substr

def contains (s substr : String) : Bool :=
  substr.length ≤ s.length && (s = substr || 0 < s.length && containsStr s.toList substr.toList)

def isNotFound (msg : String) : Bool := contains msg "not found" || contains msg "not_found"

def isConflict (msg : String) : Bool :=
  contains msg "conflict" || contains msg "invalid state transition"

def isDuplicate (msg : String) : Bool := contains msg "duplicate" || contains msg "already exists"

def isValidation (msg : String) : Bool :=
  contains msg "invalid" || contains msg "required" || contains msg "validation"

/-- The status codes of `coreErrorToGRPC`. -/
inductive StatusCode where
  | notFound
  | alreadyExists
  | invalidArgument
  | internal
  deriving DecidableEq

structure Status where
  code : StatusCode
  message : String

def coreErrorToGRPC (wording : Wording) (err : Option BackendError) : Option Status :=
  match err with
  | none => none
  | some err =>
      let msg := wording.text err
      if isNotFound msg then some { code := .notFound, message := msg }
      else if isConflict msg then some { code := .alreadyExists, message := msg }
      else if isDuplicate msg then some { code := .alreadyExists, message := msg }
      else if isValidation msg then some { code := .invalidArgument, message := msg }
      else some { code := .internal, message := msg }

def statusCode (wording : Wording) (err : BackendError) : Option StatusCode :=
  (coreErrorToGRPC wording (some err)).map Status.code

/-! ## Markers -/

/-- The texts that are looked for; the second and third test have the same outcome. -/
def markers : List (List String) :=
  [["not found", "not_found"],
    ["conflict", "invalid state transition", "duplicate", "already exists"],
    ["invalid", "required", "validation"]]

/-- There is a marker of the first `n` groups in the text. -/
def Mentions (n : Nat) (s : String) : Prop :=
  ∃ marker ∈ (markers.take n).flatten, contains s marker

/-- The groups that are ahead of the first one in the text. -/
def foremost (s : String) : Nat :=
  if isNotFound s then 0 else if isConflict s || isDuplicate s then 1
  else if isValidation s then 2 else 3

/-- No marker begins within the text and goes on behind it. -/
def EndsClean (s : String) : Prop :=
  ∀ marker ∈ markers.flatten, ∀ i < marker.toList.length, 0 < i →
    ¬ marker.toList.take i <:+ s.toList

/-- No marker begins in front of the text and goes on within it. -/
def StartsClean (s : String) : Prop :=
  ∀ marker ∈ markers.flatten, ∀ i < marker.toList.length, 0 < i →
    ¬ marker.toList.drop i <+: s.toList

namespace Wording

/-- A marker is in the message, or in the words around it. -/
structure Sealed (wording : Wording) : Prop where
  before : ∀ code, EndsClean (wording.before code)
  after : ∀ code, StartsClean (wording.after code)

/-- The groups that are ahead of the words around the messages. -/
def own (wording : Wording) (code : Code) : Nat :=
  min (foremost (wording.before code)) (foremost (wording.after code))

end Wording

section Markers

variable {s t : String} {n : Nat}

theorem containsStr_iff {s substr : List Char} : containsStr s substr = true ↔ substr <:+: s := by
  induction s with
  | nil => simp [containsStr]
  | cons c s ih =>
    rw [containsStr, Bool.or_eq_true, ih, List.isPrefixOf_iff_prefix, List.infix_cons_iff]

theorem contains_iff {substr : String} :
    contains s substr = true ↔ substr.toList <:+: s.toList := by
  simp only [contains, Bool.and_eq_true, Bool.or_eq_true, decide_eq_true_eq, containsStr_iff]
  constructor
  · rintro ⟨-, rfl | ⟨-, inside⟩⟩
    · exact List.infix_rfl
    · exact inside
  · intro inside
    have shorter := inside.length_le
    refine ⟨by simpa only [String.length_toList] using shorter, ?_⟩
    by_cases empty : s = ""
    · subst empty
      refine .inl (String.toList_inj.mp ?_)
      exact (List.infix_nil.mp inside).symm
    · refine .inr ⟨?_, inside⟩
      exact Nat.pos_of_ne_zero fun zero => empty (String.length_eq_zero_iff.mp zero)

theorem foremost_le (s : String) : foremost s ≤ 3 := by
  unfold foremost
  split
  · decide
  · split
    · decide
    · split <;> decide

theorem mentions_succ {group : List String} (here : markers[n]? = some group) :
    Mentions (n + 1) s ↔ Mentions n s ∨ ∃ marker ∈ group, contains s marker := by
  simp only [Mentions, List.take_add_one, here, Option.toList_some, List.flatten_append,
    List.flatten_singleton, List.mem_append, or_and_right, exists_or]

/-- The tests go through the groups in order. -/
theorem mentions_iff (short : n ≤ 3) : Mentions n s ↔ foremost s < n := by
  have groups : n = 0 ∨ n = 1 ∨ n = 2 ∨ n = 3 := by omega
  have none : ¬ Mentions 0 s := by simp [Mentions]
  have first : Mentions 1 s ↔ isNotFound s := by
    rw [mentions_succ (show markers[0]? = some _ from rfl)]
    simp [none, isNotFound]
  have second : Mentions 2 s ↔ isNotFound s ∨ isConflict s ∨ isDuplicate s := by
    rw [mentions_succ (show markers[1]? = some _ from rfl), first]
    simp [isConflict, isDuplicate, or_assoc]
  have third : Mentions 3 s ↔
      (isNotFound s ∨ isConflict s ∨ isDuplicate s) ∨ isValidation s := by
    rw [mentions_succ (show markers[2]? = some _ from rfl), second]
    simp [isValidation, or_assoc]
  unfold foremost
  rcases groups with rfl | rfl | rfl | rfl
  · exact iff_of_false none (Nat.not_lt_zero _)
  · rw [first]
    grind
  · rw [second]
    grind
  · rw [third]
    grind

theorem mem_markers {marker : String} (mem : marker ∈ (markers.take n).flatten) :
    marker ∈ markers.flatten := by
  obtain ⟨group, first, mem⟩ := List.mem_flatten.mp mem
  exact List.mem_flatten.mpr ⟨group, List.mem_of_mem_take first, mem⟩

/-- A marker of two texts is in one of them, if none lies across the border. -/
theorem mentions_append (border : EndsClean s ∨ StartsClean t) :
    Mentions n (s ++ t) ↔ Mentions n s ∨ Mentions n t := by
  have either (marker : String) (mem : marker ∈ markers.flatten) :
      contains (s ++ t) marker ↔ contains s marker ∨ contains t marker := by
    rw [contains_iff, contains_iff, contains_iff, String.toList_append,
      List.infix_append_iff_ne_nil]
    constructor
    · rintro (inside | inside | ⟨l₁, l₂, first, last, split, suffix, starts⟩)
      · exact .inl inside
      · exact .inr inside
      · have positive : 0 < l₁.length := List.length_pos_iff.mpr first
        have shorter : l₁.length < marker.toList.length := by
          have := List.length_pos_iff.mpr last
          simp only [split, List.length_append]
          omega
        rcases border with clean | clean
        · refine absurd ?_ (clean marker mem l₁.length shorter positive)
          simpa [split] using suffix
        · refine absurd ?_ (clean marker mem l₁.length shorter positive)
          simpa [split] using starts
    · rintro (inside | inside)
      · exact .inl inside
      · exact .inr (.inl inside)
  constructor
  · rintro ⟨marker, mem, inside⟩
    rcases (either marker (mem_markers mem)).mp inside with inside | inside
    · exact .inl ⟨marker, mem, inside⟩
    · exact .inr ⟨marker, mem, inside⟩
  · rintro (⟨marker, mem, inside⟩ | ⟨marker, mem, inside⟩)
    · exact ⟨marker, mem, (either marker (mem_markers mem)).mpr (.inl inside)⟩
    · exact ⟨marker, mem, (either marker (mem_markers mem)).mpr (.inr inside)⟩

end Markers

/-! ## The status -/

/-- The status for the tests that a text passes first. -/
def statusOf : Nat → StatusCode
  | 0 => .notFound
  | 1 => .alreadyExists
  | 2 => .invalidArgument
  | _ => .internal

section Status

variable {wording : Wording} {lib : Externals} {e e' : BackendError} {code : Code} {m m' : String}
  {n : Nat}

theorem statusCode_eq (wording : Wording) (e : BackendError) :
    statusCode wording e = some (statusOf (foremost (wording.text e))) := by
  simp only [statusCode, coreErrorToGRPC, foremost]
  cases isNotFound (wording.text e) with
  | true => rfl
  | false =>
    cases isConflict (wording.text e) with
    | true => rfl
    | false =>
      cases isDuplicate (wording.text e) with
      | true => rfl
      | false => cases isValidation (wording.text e) <;> rfl

theorem statusOf_injective {a b : Nat} (first : a ≤ 3) (second : b ≤ 3) :
    statusOf a = statusOf b ↔ a = b := by
  have inverse : ∀ a ≤ 3, ∀ b ≤ 3, statusOf a = statusOf b → a = b := by decide
  exact ⟨inverse a first b second, congrArg statusOf⟩

theorem min_eq_min_iff {k a b : Nat} : min k a = min k b ↔ ∀ n ≤ k, a < n ↔ b < n := by
  constructor
  · intro same n ahead
    omega
  · intro same
    -- the larger of the two tells them apart, if it is in range
    have apart := same (min k (max a b)) (by omega)
    omega

/-- The message may bring a marker ahead of those around it. -/
theorem foremost_errorText (sealing : wording.Sealed) (code : Code) (message : String) :
    foremost (wording.errorText code message) = min (wording.own code) (foremost message) := by
  have mentions (n : Nat) (short : n ≤ 3) :
      foremost (wording.errorText code message) < n ↔
        (foremost (wording.before code) < n ∨ foremost message < n) ∨
          foremost (wording.after code) < n := by
    simp only [← mentions_iff short]
    rw [Wording.errorText, mentions_append (.inr (sealing.after code)),
      mentions_append (.inl (sealing.before code))]
  have here := foremost_le (wording.errorText code message)
  have there := foremost_le message
  have first := foremost_le (wording.before code)
  have last := foremost_le (wording.after code)
  have one := mentions 1 (by decide)
  have two := mentions 2 (by decide)
  have three := mentions 3 (by decide)
  unfold Wording.own
  omega

/-- Two errors of one code get the same status exactly if the same groups of markers, of those
that are ahead of the code's own wording, begin the search in both messages. -/
theorem statusCode_eq_iff (sealing : wording.Sealed)
    (ojs : wording.ojsError e = some (code, m)) (ojs' : wording.ojsError e' = some (code, m')) :
    statusCode wording e = statusCode wording e' ↔
      ∀ n ≤ wording.own code, Mentions n m ↔ Mentions n m' := by
  have bound : wording.own code ≤ 3 := (Nat.min_le_left _ _).trans (foremost_le _)
  have text (n : Nat) (ahead : n ≤ wording.own code) (m : String) :
      Mentions n m ↔ foremost m < n := mentions_iff (ahead.trans bound)
  rw [statusCode_eq, statusCode_eq, Wording.text_of_ojsError ojs, Wording.text_of_ojsError ojs',
    Option.some_inj, statusOf_injective (foremost_le _) (foremost_le _),
    foremost_errorText sealing, foremost_errorText sealing]
  rw [min_eq_min_iff]
  constructor
  · intro same n ahead
    rw [text n ahead, text n ahead]
    exact same n ahead
  · intro same n ahead
    rw [← text n ahead, ← text n ahead]
    exact same n ahead

/-! ## The errors of a registration -/

theorem endsClean_expression : EndsClean "Invalid cron expression: " := by
  unfold EndsClean
  decide +kernel

theorem endsClean_timezone : EndsClean "Invalid timezone: " := by
  unfold EndsClean
  decide +kernel

theorem not_mentions_expression (n : Nat) : ¬ Mentions n "Invalid cron expression: " := by
  rintro ⟨marker, mem, inside⟩
  have absent : ∀ marker ∈ markers.flatten, ¬ contains "Invalid cron expression: " marker := by
    decide +kernel
  exact absent marker (mem_markers mem) inside

theorem not_mentions_timezone (n : Nat) : ¬ Mentions n "Invalid timezone: " := by
  rintro ⟨marker, mem, inside⟩
  have absent : ∀ marker ∈ markers.flatten, ¬ contains "Invalid timezone: " marker := by
    decide +kernel
  exact absent marker (mem_markers mem) inside

theorem eq_of_parseRegistration {cronJob : CronJob}
    (refused : parseRegistration lib cronJob = .error e) :
    e = .invalidRequest ("Invalid cron expression: " ++ cronExpr cronJob)
        [("expression", cronExpr cronJob)] ∨
      e = .invalidRequest ("Invalid timezone: " ++ cronJob.timezone)
        [("timezone", cronJob.timezone)] := by
  simp only [parseRegistration] at refused
  split at refused
  · split at refused
    · cases refused
    · exact .inl (Except.error.inj refused).symm
  · split at refused
    · exact .inr (Except.error.inj refused).symm
    · split at refused
      · cases refused
      · split at refused
        · cases refused
        · exact .inl (Except.error.inj refused).symm

/-- The message of `RegisterCron` has the markers of the text that it quotes. -/
theorem mentions_of_parseRegistration (wording : Wording) {cronJob : CronJob}
    (refused : parseRegistration lib cronJob = .error e) :
    ∃ m, wording.ojsError e = some (.invalidRequest, m) ∧
      ((∀ n, Mentions n m ↔ Mentions n (cronExpr cronJob)) ∨
        ∀ n, Mentions n m ↔ Mentions n cronJob.timezone) := by
  rcases eq_of_parseRegistration refused with rfl | rfl
  · refine ⟨_, rfl, .inl fun n => ?_⟩
    rw [mentions_append (.inl endsClean_expression)]
    exact or_iff_right (not_mentions_expression n)
  · refine ⟨_, rfl, .inr fun n => ?_⟩
    rw [mentions_append (.inl endsClean_timezone)]
    exact or_iff_right (not_mentions_timezone n)

/-! ## Two expressions that are refused -/

/-- The names of the codes. -/
def Code.name : Code → String
  | .invalidRequest => "invalid_request"
  | .validationError => "validation_error"
  | .notFound => "not_found"
  | .conflict => "conflict"
  | .duplicate => "duplicate"
  | .internalError => "internal_error"
  | .unsupported => "unsupported"
  | .queuePaused => "queue_paused"

/-- The code in brackets and the message. -/
def sampleWording : Wording where
  before := fun code => "[" ++ code.name ++ "] "
  after := fun _ => ""
  notFoundMessage := fun resource id => resource ++ " '" ++ id ++ "' not found."
  validationCode := fun _ => .invalidRequest
  callError
    | .keyNotFound => "nats: key not found"
    | .keyExists => "nats: key exists"
    | .wrongRevision => "nats: wrong last sequence"
    | .noKeysFound => "nats: no keys found"
    | .unavailable => "nats: timeout"

theorem sampleWording_sealed : sampleWording.Sealed := by
  constructor
  · intro code
    unfold EndsClean
    cases code <;> decide +kernel
  · intro code
    unfold StartsClean
    cases code <;> decide +kernel

def refusedCron (expr : String) : BackendError :=
  .invalidRequest ("Invalid cron expression: " ++ expr) [("expression", expr)]

theorem statusCode_eq_iff_refused :
    statusCode sampleWording (refusedCron "daily") = statusCode sampleWording (refusedCron "* *") ↔
      ∀ n ≤ sampleWording.own .invalidRequest,
        Mentions n ("Invalid cron expression: " ++ "daily") ↔
          Mentions n ("Invalid cron expression: " ++ "* *") :=
  statusCode_eq_iff sampleWording_sealed rfl rfl

theorem parseRegistration_refused {name expr : String} (unknown : Sample.parseCron expr = none)
    (nonempty : expr ≠ "") :
    parseRegistration sample { name := name, expression := expr } = .error (refusedCron expr) := by
  have same : sample.parseCron expr = none := unknown
  simp [parseRegistration, cronExpr, nonempty, same, refusedCron]

/-- An expression that says `not found` is refused as something that was not found. -/
theorem not_statusCode_eq :
    ¬ ∀ (cronJob cronJob' : CronJob) (e e' : BackendError),
      parseRegistration sample cronJob = .error e → parseRegistration sample cronJob' = .error e' →
      statusCode sampleWording e = statusCode sampleWording e' := by
  intro same
  have status := same { name := "a", expression := "daily" }
    { name := "b", expression := "not found" } (refusedCron "daily") (refusedCron "not found")
    (parseRegistration_refused (by decide) (by decide))
    (parseRegistration_refused (by decide) (by decide))
  revert status
  decide +kernel

end Status

end OjsNats.Grpc
