import OjsNats.Core.Types

/-!
# Code outside the repository

Functions of the shared core package, of Go's `time` and `regexp`, of the hash
and of the cron library that the backend calls.  The model takes them as a
parameter; the fields that are equations are what the backend relies on.
-/

namespace OjsNats.Core

/-- Timestamps are stored in whole milliseconds. -/
def truncateToMillis (t : Int) : Int := t / 1000000 * 1000000

theorem truncateToMillis_le (t : Int) : truncateToMillis t ≤ t := by
  unfold truncateToMillis
  omega

/-- The first instant of the year 1 and of the year 10000: between them a
timestamp is text that parses back. -/
def firstInstant : Int := -62135596800000000000

def lastInstant : Int := 253402300800000000000

/-- The instants a server's clock can show: from them every 64-bit duration
leads to a timestamp that parses back. -/
def InEra (t : Int) : Prop := 0 ≤ t ∧ t + 2 ^ 63 ≤ lastInstant

structure Externals where
  /-- `core.IsTerminalState`: completed, cancelled and discarded are terminal. -/
  isTerminalState : State → Bool
  isTerminalState_iff : ∀ s, isTerminalState s = true ↔
    s = .completed ∨ s = .cancelled ∨ s = .discarded
  /-- `core.DefaultVisibilityTimeoutMs` -/
  defaultVisibilityTimeoutMs : Int
  /-- `core.FormatTime` -/
  formatTime : Int → String
  /-- `time.Parse(core.TimeFormat, ·)` -/
  parseTime : String → Option Int
  parseTime_formatTime : ∀ t, firstInstant ≤ t → t < lastInstant →
    parseTime (formatTime t) = some (truncateToMillis t)
  /-- `time.Parse(time.RFC3339, ·)` -/
  parseRFC3339 : String → Option Int
  /-- `core.ValidateEnqueueRequest` on a type and arguments: the complaint, if any. -/
  validateEnqueueRequest : String → Option RawMessage → Option String
  /-- `regexp.Compile`, as the match test of the compiled expression. -/
  compileRegexp : String → Option (String → Bool)
  /-- The SHA-256 digest in hexadecimal. -/
  sha256Hex : String → String
  /-- The text of a raw JSON message. -/
  rawText : RawMessage → String
  /-- `parser.Parse` of the cron library, as the schedule's `Next`. -/
  parseCron : String → Option (Int → Int)
  /-- `time.LoadLocation` followed by `String`. -/
  loadLocation : String → Option String

section Terminal

variable {lib : Externals} {st : State}

theorem isTerminalState_of (h : st = .completed ∨ st = .cancelled ∨ st = .discarded) :
    lib.isTerminalState st = true :=
  (lib.isTerminalState_iff st).mpr h

theorem isTerminalState_of_not (h : ¬ (st = .completed ∨ st = .cancelled ∨ st = .discarded)) :
    lib.isTerminalState st = false := by
  rw [← Bool.not_eq_true, lib.isTerminalState_iff]
  exact h

end Terminal

theorem Externals.parseTime_isSome (lib : Externals) {now d : Int} (era : InEra now)
    (duration : IsDuration d) : (lib.parseTime (lib.formatTime (now + d))).isSome := by
  unfold InEra lastInstant at era
  unfold IsDuration at duration
  rw [lib.parseTime_formatTime (now + d) (by unfold firstInstant; omega)
    (by unfold lastInstant; omega)]
  rfl

end OjsNats.Core
