import OjsNats.Core.Externals

/-!
# Externals that compute

The externals of the worked runs.  Timestamps are the real texts at a few
instants, most of one day; elsewhere any text that reads back will do.
-/

namespace OjsNats.Core.Sample

/-- The given number of seconds after the start of the year 2026. -/
def instant (seconds : Int) : Int := (1767225600 + seconds) * 1000000000

def timestamps : List (Int × String) :=
  [(instant 0, "2026-01-01T00:00:00.000Z"), (instant 1, "2026-01-01T00:00:01.000Z"),
    (instant 2, "2026-01-01T00:00:02.000Z"), (instant 30, "2026-01-01T00:00:30.000Z"),
    (instant 31, "2026-01-01T00:00:31.000Z"), (instant 60, "2026-01-01T00:01:00.000Z"),
    (instant 61, "2026-01-01T00:01:01.000Z"), (instant 120, "2026-01-01T00:02:00.000Z"),
    (instant 54000, "2026-01-01T15:00:00.000Z"), (instant 86400, "2026-01-02T00:00:00.000Z"),
    (instant 140400, "2026-01-02T15:00:00.000Z"), (firstInstant, "0001-01-01T00:00:00.000Z")]

/-- Unary text for the instants without a timestamp of their own. -/
def tally (ms : Int) : String :=
  String.ofList ('@' :: (if 0 ≤ ms then '+' else '-') :: List.replicate ms.natAbs 'm')

def readTally (text : String) : Option Int :=
  match text.toList with
  | '@' :: '+' :: rest => some (rest.length * 1000000)
  | '@' :: '-' :: rest => some (-rest.length * 1000000)
  | _ => none

theorem readTally_tally (ms : Int) : readTally (tally ms) = some (ms * 1000000) := by
  unfold readTally tally
  rw [String.toList_ofList]
  by_cases nonneg : 0 ≤ ms
  · simp only [nonneg, ↓reduceIte, List.length_replicate, Option.some.injEq]
    omega
  · simp only [nonneg, ↓reduceIte, List.length_replicate, Option.some.injEq]
    omega

def formatTime (t : Int) : String :=
  match timestamps.find? fun e => e.1 = truncateToMillis t with
  | some e => e.2
  | none => tally (t / 1000000)

def parseTimestamp (text : String) : Option Int :=
  (timestamps.find? fun e => e.2 = text).map Prod.fst

def parseTime (text : String) : Option Int := (parseTimestamp text).or (readTally text)

theorem parseTimestamp_of_mem : ∀ e ∈ timestamps, parseTimestamp e.2 = some e.1 := by
  decide

theorem parseTimestamp_tally (ms : Int) : parseTimestamp (tally ms) = none := by
  have starts : ∀ e ∈ timestamps, e.2.toList.head? ≠ some '@' := by decide
  rw [parseTimestamp, Option.map_eq_none_iff, List.find?_eq_none]
  intro e mem same
  have head := starts e mem
  rw [of_decide_eq_true same, tally, String.toList_ofList] at head
  exact head rfl

theorem parseTime_formatTime (t : Int) : parseTime (formatTime t) = some (truncateToMillis t) := by
  unfold formatTime
  split
  · rename_i e found
    have key : e.1 = truncateToMillis t := by simpa using List.find?_some found
    rw [parseTime, parseTimestamp_of_mem e (List.mem_of_find?_eq_some found), key]
    rfl
  · rw [parseTime, parseTimestamp_tally, readTally_tally]
    rfl

/-- The digest of `args:type:mail`, the only text that the worked runs hash. -/
def digest : String := "1b988addf61077a9f2860c38cc0f0a8ff65e18983c48d9f86519e08f96e74c31"

/-- The next multiple of a period, so many seconds past the start of a UTC day. -/
def nextMultiple (period past : Int) (t : Int) : Int :=
  ((t - past * 1000000000) / (period * 1000000000) + 1) * (period * 1000000000) +
    past * 1000000000

/-- Every minute, every midnight of UTC or of Tokyo, and a day that never comes. -/
def parseCron (spec : String) : Option (Int → Int) :=
  if spec = "* * * * *" then some (nextMultiple 60 0)
  else if spec = "0 0 * * *" then some (nextMultiple 86400 0)
  else if spec = "CRON_TZ=Asia/Tokyo 0 0 * * *" then some (nextMultiple 86400 54000)
  else if spec = "0 0 30 2 *" then some fun _ => firstInstant
  else none

/-- When a schedule that `parseCron` reads occurs. -/
def occurs (spec : String) (u : Int) : Prop :=
  (spec = "* * * * *" ∧ u % 60000000000 = 0) ∨
    (spec = "0 0 * * *" ∧ u % 86400000000000 = 0) ∨
    (spec = "CRON_TZ=Asia/Tokyo 0 0 * * *" ∧ (u - 54000000000000) % 86400000000000 = 0)

def loadLocation (name : String) : Option String :=
  if name = "Asia/Tokyo" then some name else none

def isTerminalState : State → Bool
  | .completed | .cancelled | .discarded => true
  | _ => false

end Sample

def sample : Externals where
  isTerminalState := Sample.isTerminalState
  isTerminalState_iff := by
    intro s
    cases s <;> simp [Sample.isTerminalState]
  defaultVisibilityTimeoutMs := 30000
  formatTime := Sample.formatTime
  parseTime := Sample.parseTime
  parseTime_formatTime := fun t _ _ => Sample.parseTime_formatTime t
  parseRFC3339 := Sample.parseTimestamp
  validateEnqueueRequest := fun type _ => if type = "" then some "type is required" else none
  compileRegexp := fun _ => none
  sha256Hex := fun _ => Sample.digest
  rawText := fun _ => ""
  parseCron := Sample.parseCron
  loadLocation := Sample.loadLocation

end OjsNats.Core
