import OjsNats.Lifecycle.NextRuns

/-!
# Firings and the occurrences of a schedule

A pass fires an entry when its stored next run has come.  As long as each next
run that is stored is an occurrence to come of the registered schedule, every
firing answers for an occurrence of its own.
-/

namespace OjsNats.Nats

open Core

/-- The text whose parse is the registered schedule. -/
def registeredSpec (lib : Externals) (given : CronJob) : String :=
  if given.timezone = "" then cronExpr given
  else
    match lib.loadLocation given.timezone with
    | none => cronExpr given
    | some loc =>
        if (lib.parseCron (zonedSpec loc given)).isSome then zonedSpec loc given
        else cronExpr given

theorem parse_registeredSpec {lib : Externals} {given : CronJob} {schedule : Int → Int}
    (registered : parseRegistration lib given = .ok schedule) :
    lib.parseCron (registeredSpec lib given) = some schedule := by
  unfold parseRegistration at registered
  unfold registeredSpec zonedSpec
  by_cases local_ : given.timezone = ""
  · cases plain : lib.parseCron (cronExpr given) with
    | none => simp [local_, plain] at registered
    | some next =>
      simp only [local_, plain, ↓reduceIte, Except.ok.injEq] at registered ⊢
      rw [registered]
  · cases located : lib.loadLocation given.timezone with
    | none => simp [local_, located] at registered
    | some loc =>
      cases zoned : lib.parseCron ("CRON_TZ=" ++ loc ++ " " ++ cronExpr given) with
      | some next =>
        simp only [local_, located, zoned, ↓reduceIte, Except.ok.injEq] at registered
        simp [local_, zoned, registered]
      | none =>
        cases plain : lib.parseCron (cronExpr given) with
        | none => simp [local_, located, zoned, plain] at registered
        | some next =>
          simp only [local_, located, zoned, plain, ↓reduceIte, Except.ok.injEq] at registered
          simp [local_, zoned, plain, registered]

/-- What the cron library documents of the schedules it parses: `Next` is the
first occurrence after an instant, and the zero time if there is none.  They
occur at whole seconds, and the next occurrence is never further away than a
64-bit duration. -/
structure CronLibrary (lib : Externals) (occurs : String → Int → Prop) : Prop where
  first : ∀ spec next, lib.parseCron spec = some next → ∀ t u, occurs spec u → t < u →
    occurs spec (next t) ∧ t < next t ∧ next t ≤ u
  zero : ∀ spec next, lib.parseCron spec = some next → ∀ t, (∀ u, occurs spec u → u ≤ t) →
    next t = firstInstant
  whole : ∀ spec u, occurs spec u → u % 1000000000 = 0
  near : ∀ spec next, lib.parseCron spec = some next → ∀ t, 0 ≤ t → next t < t + 2 ^ 63

end OjsNats.Nats

namespace OjsNats.Lifecycle

open Core Nats Effect Semantics

variable {lib : Externals} {occurs : String → Int → Prop} {kind : Call → Prop}
  {name : String} {w t : World} {es : List CronEvent}

/-- The entry was fired at some instant. -/
def FiredAt (es : List CronEvent) (name : String) (now : Int) : Prop :=
  ∃ cronJob jobID, .fired cronJob now jobID ∈ es ∧ cronJob.name = name

/-- A firing at `now` has an occurrence of the registered schedule to answer
for, after the registration and after the firings before it. -/
def Genuine (lib : Externals) (occurs : String → Int → Prop) (before : List CronEvent)
    (name : String) (now : Int) : Prop :=
  ∀ given since, registration name before = some (given, since) →
    ∃ u, occurs (registeredSpec lib given) u ∧ since < u ∧ u ≤ now ∧
      ∀ earlier, FiredAt before name earlier → earlier < u

/-- Every firing of the entry is genuine. -/
def FiresGenuinely (lib : Externals) (occurs : String → Int → Prop) (name : String)
    (es : List CronEvent) : Prop :=
  ∀ before cronJob now jobID, before ++ [.fired cronJob now jobID] <+: es →
    cronJob.name = name → Genuine lib occurs before name now

/-- What a pass at `now` makes of the expression is an occurrence to come of the
registered schedule. -/
def Sustained (lib : Externals) (occurs : String → Int → Prop) (before : List CronEvent)
    (name : String) (now : Int) : Prop :=
  ∀ given since, registration name before = some (given, since) →
    ∃ next, lib.parseCron (cronExpr given) = some next ∧
      occurs (registeredSpec lib given) (next now) ∧ now < next now

/-- The event leaves the entry with an occurrence to come. -/
def SteadyEvent (lib : Externals) (occurs : String → Int → Prop) (name : String)
    (before : List CronEvent) : CronEvent → Prop
  | .registered given entry now =>
      entry.name = name → ∃ u, occurs (registeredSpec lib given) u ∧ now < u
  | .deleted _ => True
  | .fired cronJob now _ => cronJob.name = name → Sustained lib occurs before name now
  | .rewritten entry now => entry.name = name → Sustained lib occurs before name now

/-- The entry always has an occurrence to come. -/
def Steady (lib : Externals) (occurs : String → Int → Prop) (name : String)
    (es : List CronEvent) : Prop :=
  ∀ before event, before ++ [event] <+: es → SteadyEvent lib occurs name before event

theorem Steady.of_append {more : List CronEvent} (h : Steady lib occurs name (es ++ more)) :
    Steady lib occurs name es :=
  fun before event' early => h before event' (early.trans (List.prefix_append _ _))

theorem Steady.init {event : CronEvent} (h : Steady lib occurs name (es ++ [event])) :
    Steady lib occurs name es :=
  h.of_append

theorem Steady.last {event : CronEvent} (h : Steady lib occurs name (es ++ [event])) :
    SteadyEvent lib occurs name es event :=
  h es event (List.prefix_refl _)

theorem FiredAt.snoc {event : CronEvent} {now : Int} (h : FiredAt (es ++ [event]) name now) :
    FiredAt es name now ∨
      ∃ cronJob jobID, event = .fired cronJob now jobID ∧ cronJob.name = name := by
  obtain ⟨cronJob, jobID, mem, own⟩ := h
  rcases List.mem_append.mp mem with old | new
  · exact .inl ⟨cronJob, jobID, old, own⟩
  · exact .inr ⟨cronJob, jobID, (List.mem_singleton.mp new).symm, own⟩

/-- The event is no firing of the entry. -/
def NoFiring (name : String) (event : CronEvent) : Prop :=
  ∀ cronJob now jobID, event = .fired cronJob now jobID → cronJob.name ≠ name

theorem FiredAt.of_noFiring {event : CronEvent} {now : Int} (none : NoFiring name event)
    (h : FiredAt (es ++ [event]) name now) : FiredAt es name now := by
  rcases h.snoc with old | ⟨cronJob, jobID, eq, own⟩
  · exact old
  · exact absurd own (none cronJob now jobID eq)

theorem FiresGenuinely.snoc {event : CronEvent} (h : FiresGenuinely lib occurs name es)
    (none : NoFiring name event) : FiresGenuinely lib occurs name (es ++ [event]) := by
  intro before cronJob now jobID early own
  rcases prefix_snoc_cases early with ⟨rfl, rfl⟩ | earlier
  · exact absurd own (none cronJob now jobID rfl)
  · exact h before cronJob now jobID earlier own

/-- The stored next run is an occurrence after the registration and after all
firings. -/
def Awaits (lib : Externals) (occurs : String → Int → Prop) (name : String)
    (es : List CronEvent) (given : CronJob) (since : Int) (w : World) : Prop :=
  ∀ entry ∈ w.value .cron name, ∃ u, entry.nextRunAt = lib.formatTime u ∧
    occurs (registeredSpec lib given) u ∧ since < u ∧ 0 ≤ u ∧ u < lastInstant ∧
    ∀ earlier, FiredAt es name earlier → earlier < u

/-- Nothing of the entry lies in the future, and its firings were genuine if it
was steady and the clock can still be trusted. -/
structure Timed (lib : Externals) (occurs : String → Int → Prop) (name : String)
    (es : List CronEvent) (w : World) : Prop where
  nonneg : 0 ≤ w.clock
  faithful : Faithful lib es w
  past : ∀ now, FiredAt es name now → now ≤ w.clock
  since : ∀ given since, registration name es = some (given, since) → since ≤ w.clock
  genuine : Steady lib occurs name es → w.clock + 2 ^ 63 ≤ lastInstant →
    FiresGenuinely lib occurs name es

structure Punctual (lib : Externals) (occurs : String → Int → Prop) (name : String)
    (es : List CronEvent) (w : World) : Prop extends Timed lib occurs name es w where
  awaits : Steady lib occurs name es → w.clock + 2 ^ 63 ≤ lastInstant →
    ∀ given since, registration name es = some (given, since) →
      Awaits lib occurs name es given since w

/-- The occurrence after `now` is what the entry waits for from then on. -/
theorem awaits_next {given : CronJob} {since now : Int} {next : Int → Int} {spec : String}
    (library : CronLibrary lib occurs) (parsed : lib.parseCron spec = some next)
    (own : occurs (registeredSpec lib given) (next now)) (future : now < next now)
    (nonneg : 0 ≤ now) (era : now + 2 ^ 63 ≤ lastInstant)
    (registered : since ≤ now) (past : ∀ earlier, FiredAt es name earlier → earlier ≤ now)
    (stored : ∀ entry ∈ w.value .cron name, entry.nextRunAt = lib.formatTime (next now)) :
    Awaits lib occurs name es given since w := by
  intro entry mem
  have soon := library.near spec next parsed now nonneg
  refine ⟨next now, stored entry mem, own, by omega, by omega, by omega, fun earlier fired => ?_⟩
  have := past earlier fired
  omega

namespace Timed

theorem idle (h : Timed lib occurs name es w) (same : t.kv .cron = w.kv .cron)
    (clock : t.clock = w.clock) : Timed lib occurs name es t where
  nonneg := clock ▸ h.nonneg
  faithful := h.faithful.idle same
  past := clock ▸ h.past
  since := clock ▸ h.since
  genuine := clock ▸ h.genuine

theorem register (h : Timed lib occurs name es w) {given : CronJob} {schedule : Int → Int}
    (parsed : parseRegistration lib given = .ok schedule) : Timed lib occurs name
      (es ++ [.registered given (registeredCron lib schedule w.clock given) w.clock])
      (w.put .cron given.name (registeredCron lib schedule w.clock given)) where
  nonneg := h.nonneg
  faithful := h.faithful.register parsed
  past := fun now fired => h.past now (fired.of_noFiring fun _ _ _ eq => by cases eq)
  since := by
    intro given' since registered
    rw [registration_snoc] at registered
    simp only [goesBy] at registered
    split at registered
    · cases registered
      exact Int.le_refl _
    · exact h.since given' since registered
  genuine := fun steady era => (h.genuine steady.init era).snoc fun _ _ _ eq => by cases eq

theorem delete (h : Timed lib occurs name es w) {name' : String} :
    Timed lib occurs name (es ++ [.deleted name']) (w.delete .cron name') where
  nonneg := h.nonneg
  faithful := h.faithful.delete
  past := fun now fired => h.past now (fired.of_noFiring fun _ _ _ eq => by cases eq)
  since := by
    intro given since registered
    rw [registration_snoc] at registered
    simp only [goesBy] at registered
    split at registered
    · cases registered
    · exact h.since given since registered
  genuine := fun steady era => (h.genuine steady.init era).snoc fun _ _ _ eq => by cases eq

/-- A pass moves an entry on. -/
theorem moveOn (h : Timed lib occurs name es w) {cronJob : CronJob}
    (stored : w.value .cron cronJob.name = some cronJob) :
    Timed lib occurs name (es ++ moveEvents lib w.clock cronJob)
      (w.moveOn lib w.clock cronJob) := by
  have faithful := h.faithful.moveOn w.clock stored
  unfold moveEvents at faithful ⊢
  cases parsed : lib.parseCron (cronExpr cronJob) with
  | none =>
    simp only [parsed, List.append_nil] at faithful ⊢
    refine ⟨?_, faithful, ?_, ?_, ?_⟩
    all_goals rw [moveOn_clock]
    · exact h.nonneg
    · exact h.past
    · exact h.since
    · exact h.genuine
  | some next =>
    simp only [parsed] at faithful ⊢
    have noFiring : NoFiring name (.rewritten (movedOn lib next w.clock cronJob) w.clock) :=
      fun _ _ _ eq => by cases eq
    refine ⟨?_, faithful, fun now fired => ?_, fun given since registered => ?_,
      fun steady era => (h.genuine steady.init ?_).snoc noFiring⟩
    · rw [moveOn_clock]
      exact h.nonneg
    · rw [moveOn_clock]
      exact h.past now (fired.of_noFiring noFiring)
    · rw [registration_snoc] at registered
      rw [moveOn_clock]
      exact h.since given since registered
    · rwa [moveOn_clock] at era

/-- An entry that was moved on waits for the occurrence it was moved on to. -/
theorem awaits_moveOn (h : Timed lib occurs name es w) (library : CronLibrary lib occurs)
    {cronJob : CronJob} {next : Int → Int} (own : cronJob.name = name)
    (stored : w.value .cron name = some cronJob)
    (parsed : lib.parseCron (cronExpr cronJob) = some next)
    (steady : Steady lib occurs name (es ++ moveEvents lib w.clock cronJob))
    (era : w.clock + 2 ^ 63 ≤ lastInstant) {given : CronJob} {since : Int}
    (registered : registration name es = some (given, since)) :
    Awaits lib occurs name (es ++ moveEvents lib w.clock cronJob) given since
      (w.moveOn lib w.clock cronJob) := by
  subst own
  have moved := h.moveOn stored
  have same := (h.faithful.entry _ given since registered).2 cronJob stored
  have value : (w.moveOn lib w.clock cronJob).value .cron cronJob.name =
      some (movedOn lib next w.clock cronJob) := by
    simp [World.moveOn, parsed, value_put]
  have sustained : Sustained lib occurs es cronJob.name w.clock := by
    simp only [moveEvents, parsed] at steady
    exact steady.last rfl
  obtain ⟨next', parsed', reaches, future⟩ := sustained given since registered
  rw [← same, parsed] at parsed'
  cases parsed'
  refine awaits_next library parsed reaches future h.nonneg era (h.since _ _ registered)
    (fun earlier fired => ?_) fun entry mem => ?_
  · have := moved.past earlier fired
    rwa [moveOn_clock] at this
  · rw [value] at mem
    cases mem
    rfl

end Timed

theorem Awaits.keep {es' : List CronEvent} {given : CronJob} {since : Int}
    (h : Awaits lib occurs name es given since w) (same : t.value .cron name = w.value .cron name)
    (fired : ∀ now, FiredAt es' name now → FiredAt es name now) :
    Awaits lib occurs name es' given since t := by
  intro entry mem
  rw [same] at mem
  obtain ⟨u, next, own, later, low, high, past⟩ := h entry mem
  exact ⟨u, next, own, later, low, high, fun earlier here => past earlier (fired earlier here)⟩

theorem registration_moveEvents (name : String) (es : List CronEvent) (now : Int)
    (cronJob : CronJob) :
    registration name (es ++ moveEvents lib now cronJob) = registration name es := by
  unfold moveEvents
  split
  · rw [registration_snoc]
    rfl
  · rw [List.append_nil]

/-- What an entry waits for after the turn of an entry. -/
theorem Timed.awaits_after (h : Timed lib occurs name es w) (library : CronLibrary lib occurs)
    {cronJob : CronJob} (stored : w.value .cron cronJob.name = some cronJob) {given : CronJob}
    {since : Int} (registered : registration name es = some (given, since))
    (steady : Steady lib occurs name (es ++ moveEvents lib w.clock cronJob))
    (era : w.clock + 2 ^ 63 ≤ lastInstant)
    (before : cronJob.name ≠ name ∨ lib.parseCron (cronExpr cronJob) = none →
      Awaits lib occurs name es given since w) :
    Awaits lib occurs name (es ++ moveEvents lib w.clock cronJob) given since
      (w.moveOn lib w.clock cronJob) := by
  cases parsed : lib.parseCron (cronExpr cronJob) with
  | none => simpa [moveEvents, World.moveOn, parsed] using before (.inr parsed)
  | some next =>
    by_cases own : cronJob.name = name
    · exact h.awaits_moveOn library own (own ▸ stored) parsed steady era registered
    · refine (before (.inl own)).keep ?_ fun now fired => ?_
      · simp only [World.moveOn, parsed]
        exact value_put_other (by simp [Ne.symm own])
      · simp only [moveEvents, parsed] at fired
        exact fired.of_noFiring fun _ _ _ eq => by cases eq

namespace Punctual

theorem idle (h : Punctual lib occurs name es w) (same : t.kv .cron = w.kv .cron)
    (clock : t.clock = w.clock) : Punctual lib occurs name es t where
  toTimed := h.toTimed.idle same clock
  awaits := by
    intro steady era given since registered
    rw [clock] at era
    exact (h.awaits steady era given since registered).keep (by rw [World.value, same, World.value])
      fun _ => id

theorem later (h : Punctual lib occurs name es w) {now : Int} (passes : w.clock ≤ now) :
    Punctual lib occurs name es { w with clock := now } where
  nonneg := Int.le_trans h.nonneg passes
  faithful := h.faithful.idle rfl
  past := fun earlier fired => Int.le_trans (h.past earlier fired) passes
  since := fun given since registered => Int.le_trans (h.since given since registered) passes
  genuine := fun steady era => h.genuine steady (Int.le_trans (by simpa using passes) era)
  awaits := fun steady era given since registered =>
    (h.awaits steady (Int.le_trans (by simpa using passes) era) given since registered).keep rfl
      fun _ => id

theorem register (h : Punctual lib occurs name es w) (library : CronLibrary lib occurs)
    {given : CronJob} {schedule : Int → Int}
    (parsed : parseRegistration lib given = .ok schedule) : Punctual lib occurs name
      (es ++ [.registered given (registeredCron lib schedule w.clock given) w.clock])
      (w.put .cron given.name (registeredCron lib schedule w.clock given)) where
  toTimed := h.toTimed.register parsed
  awaits := by
    intro steady era given' since registered
    have noFiring : NoFiring name
        (.registered given (registeredCron lib schedule w.clock given) w.clock) :=
      fun _ _ _ eq => by cases eq
    have spec := parse_registeredSpec parsed
    rw [registration_snoc] at registered
    simp only [goesBy] at registered
    split at registered
    · rename_i own
      obtain rfl : given.name = name := own
      cases registered
      obtain ⟨u, occurs_u, future⟩ := steady.last rfl
      obtain ⟨reaches, future', -⟩ := library.first _ _ spec _ u occurs_u future
      refine awaits_next library spec reaches future' h.nonneg era (Int.le_refl _)
        (fun earlier fired => h.past earlier (fired.of_noFiring noFiring)) fun entry mem => ?_
      rw [Option.mem_def, value_put, dif_pos ⟨rfl, rfl⟩] at mem
      cases mem
      rfl
    · rename_i other
      have other' : given.name ≠ name := other
      exact (h.awaits steady.init era given' since registered).keep
        (value_put_other (by simp [Ne.symm other'])) fun _ fired => fired.of_noFiring noFiring

theorem delete (h : Punctual lib occurs name es w) {name' : String} :
    Punctual lib occurs name (es ++ [.deleted name']) (w.delete .cron name') where
  toTimed := h.toTimed.delete
  awaits := by
    intro steady era given since registered
    rw [registration_snoc] at registered
    simp only [goesBy] at registered
    split at registered
    · cases registered
    · rename_i other
      exact (h.awaits steady.init era given since registered).keep
        (value_delete_other (by simp [Ne.symm other]))
        fun _ fired => fired.of_noFiring fun _ _ _ eq => by cases eq

/-- An entry that is due is fired for the occurrence it has waited for. -/
theorem fired (h : Punctual lib occurs name es w) (library : CronLibrary lib occurs)
    {cronJob : CronJob} (jobID : String) (stored : w.value .cron cronJob.name = some cronJob)
    (due : CronDue lib w.clock cronJob) :
    Timed lib occurs name (es ++ [.fired cronJob w.clock jobID]) w where
  nonneg := h.nonneg
  faithful := h.faithful.fired
  past := by
    intro now fired
    rcases fired.snoc with old | ⟨cronJob', jobID', eq, -⟩
    · exact h.past now old
    · cases eq
      exact Int.le_refl _
  since := by
    intro given since registered
    rw [registration_snoc] at registered
    exact h.since given since registered
  genuine := by
    intro steady era before cronJob' now jobID' early own
    rcases prefix_snoc_cases early with ⟨rfl, eq⟩ | earlier
    · cases eq
      subst own
      intro given since registered
      obtain ⟨u, next, reaches, later, low, high, past⟩ :=
        h.awaits steady.init era given since registered cronJob stored
      obtain ⟨nextRun, parsed, come⟩ := due
      have whole := library.whole _ u reaches
      rw [next, lib.parseTime_formatTime u (by unfold firstInstant; omega) high] at parsed
      have exact_ : truncateToMillis u = u := by
        unfold truncateToMillis
        omega
      rw [exact_, Option.some.injEq] at parsed
      exact ⟨u, reaches, later, parsed ▸ come, past⟩
    · exact h.genuine steady.init era before cronJob' now jobID' earlier own

/-- The turn of an entry in a pass. -/
theorem turn (h : Punctual lib occurs name es w) (library : CronLibrary lib occurs)
    (sound : Sound w) {cronJob : CronJob} (stored : w.value .cron cronJob.name = some cronJob) :
    serves.wp (notedCron lib w.clock cronJob)
      (fun more t => Punctual lib occurs name (es ++ more) t) w := by
  refine wp_notedCron sound (by simpa using h) (fun _ _ _ => ?_) fun due _ jobID t pushed => ?_
  · refine ⟨h.toTimed.moveOn stored, fun steady era given since registered => ?_⟩
    rw [registration_moveEvents] at registered
    rw [moveOn_clock] at era
    exact h.toTimed.awaits_after library stored registered steady era
      fun _ => h.awaits steady.of_append era given since registered
  · have fired := (h.fired library jobID stored due).idle pushed.remembered
      ((sameBoard_remember t cronJob jobID).clock.trans pushed.pushed.clock)
    have clock : (t.remember cronJob jobID).clock = w.clock :=
      (sameBoard_remember t cronJob jobID).clock.trans pushed.pushed.clock
    have stored' : (t.remember cronJob jobID).value .cron cronJob.name = some cronJob := by
      rwa [World.value, pushed.remembered]
    rw [List.append_cons, ← clock]
    rw [← clock] at fired
    refine ⟨fired.moveOn stored', fun steady era given since registered => ?_⟩
    rw [registration_moveEvents] at registered
    rw [moveOn_clock] at era
    refine fired.awaits_after library stored' registered steady era fun other => ?_
    have registered' : registration name es = some (given, since) := by
      rwa [registration_snoc] at registered
    by_cases own : cronJob.name = name
    · have unread := other.resolve_left fun apart => apart own
      obtain ⟨next, parsed, -⟩ := steady.of_append.last own given since registered'
      rw [← (h.faithful.entry name given since registered').2 cronJob (own ▸ stored), unread]
        at parsed
      cases parsed
    · refine (h.awaits steady.of_append.init (clock ▸ era) given since registered').keep
        (by rw [World.value, pushed.remembered, World.value]) fun now here => ?_
      refine here.of_noFiring fun cronJob' now' jobID' eq => ?_
      cases eq
      exact own

end Punctual

theorem punctual_of_chronicle (library : CronLibrary lib occurs) (reachable : Reachable lib w)
    (chronicle : Chronicle lib kind w es t) (name : String) :
    Punctual lib occurs name es t := by
  refine chronicle.cron_holds reachable (I := Punctual lib occurs name) ?_
    (fun es m now passes h => h.later passes) (fun es m t same clock h => h.idle same clock)
    (fun es m given schedule parsed h => h.register library parsed)
    (fun es m name' h => h.delete) fun cronJob es m sound stored h => h.turn library sound stored
  have unfired : ∀ now, ¬ FiredAt [] name now := by
    rintro now ⟨cronJob, jobID, mem, -⟩
    cases mem
  refine ⟨⟨reachable.clock_nonneg, .start w,
    fun now fired => absurd fired (unfired now), ?_, ?_⟩, ?_⟩
  · rintro given since ⟨⟩
  · intro _ _ before cronJob now jobID early
    simp at early
  · rintro _ _ given since ⟨⟩

/-- An entry that always has an occurrence to come fires only at occurrences of
the schedule that was registered, and only once at each. -/
theorem firesGenuinely_of_steady (library : CronLibrary lib occurs) (reachable : Reachable lib w)
    (chronicle : Chronicle lib kind w es t) (era : t.clock + 2 ^ 63 ≤ lastInstant)
    (steady : Steady lib occurs name es) : FiresGenuinely lib occurs name es :=
  (punctual_of_chronicle library reachable chronicle name).genuine steady era

/-! ## Runs -/

theorem sample_cases {spec : String} {next : Int → Int} (parsed : sample.parseCron spec = some next) :
    (spec = "* * * * *" ∧ next = Sample.nextMultiple 60 0) ∨
    (spec = "0 0 * * *" ∧ next = Sample.nextMultiple 86400 0) ∨
    (spec = "CRON_TZ=Asia/Tokyo 0 0 * * *" ∧ next = Sample.nextMultiple 86400 54000) ∨
    (spec = "0 0 30 2 *" ∧ next = fun _ => firstInstant) := by
  have unfolded : Sample.parseCron spec = some next := parsed
  unfold Sample.parseCron at unfolded
  split at unfolded
  · rename_i same
    exact .inl ⟨same, (Option.some.inj unfolded).symm⟩
  · split at unfolded
    · rename_i same
      exact .inr (.inl ⟨same, (Option.some.inj unfolded).symm⟩)
    · split at unfolded
      · rename_i same
        exact .inr (.inr (.inl ⟨same, (Option.some.inj unfolded).symm⟩))
      · split at unfolded
        · rename_i same
          exact .inr (.inr (.inr ⟨same, (Option.some.inj unfolded).symm⟩))
        · cases unfolded

theorem sample_cronLibrary : CronLibrary sample Sample.occurs where
  first := by
    intro spec next parsed t u here future
    rcases sample_cases parsed with ⟨rfl, rfl⟩ | ⟨rfl, rfl⟩ | ⟨rfl, rfl⟩ | ⟨rfl, rfl⟩
    all_goals simp [Sample.occurs, Sample.nextMultiple] at here ⊢
    all_goals omega
  zero := by
    intro spec next parsed t ended
    rcases sample_cases parsed with ⟨rfl, rfl⟩ | ⟨rfl, rfl⟩ | ⟨rfl, rfl⟩ | ⟨rfl, rfl⟩
    · have := ended (Sample.nextMultiple 60 0 t) (by simp [Sample.occurs, Sample.nextMultiple])
      simp only [Sample.nextMultiple] at this
      omega
    · have := ended (Sample.nextMultiple 86400 0 t) (by simp [Sample.occurs, Sample.nextMultiple])
      simp only [Sample.nextMultiple] at this
      omega
    · have := ended (Sample.nextMultiple 86400 54000 t)
        (by simp [Sample.occurs, Sample.nextMultiple])
      simp only [Sample.nextMultiple] at this
      omega
    · rfl
  whole := by
    intro spec u here
    rcases here with ⟨-, whole⟩ | ⟨-, whole⟩ | ⟨-, whole⟩ <;> omega
  near := by
    intro spec next parsed t nonneg
    rcases sample_cases parsed with ⟨rfl, rfl⟩ | ⟨rfl, rfl⟩ | ⟨rfl, rfl⟩ | ⟨rfl, rfl⟩
    all_goals simp only [Sample.nextMultiple, firstInstant]
    all_goals omega

theorem steady_snoc {event : CronEvent} (h : Steady lib occurs name es)
    (last : SteadyEvent lib occurs name es event) : Steady lib occurs name (es ++ [event]) := by
  intro before event' early
  rcases prefix_snoc_cases early with ⟨rfl, rfl⟩ | earlier
  · exact last
  · exact h before event' earlier

theorem steady_reported : Steady sample Sample.occurs "report" reported.1 := by
  have sustained : Sustained sample Sample.occurs [.registered minutely
      (storedAt (Sample.nextMultiple 60 0) 0 minutely) (Sample.instant 0)] "report"
      (Sample.instant 60) := by
    rintro given since ⟨⟩
    exact ⟨Sample.nextMultiple 60 0, rfl, .inl ⟨rfl, by decide⟩, by decide⟩
  have none : Steady sample Sample.occurs "report" [] := by
    intro before event early
    simp at early
  rw [reported_events]
  change Steady sample Sample.occurs "report" ((([] ++ [_]) ++ [_]) ++ [_])
  refine steady_snoc (steady_snoc (steady_snoc none ?_) ?_) ?_
  · exact fun _ => ⟨Sample.instant 60, .inl ⟨rfl, by decide⟩, by decide⟩
  · exact fun _ => sustained
  · exact fun _ => sustained

theorem firesGenuinely_reported : FiresGenuinely sample Sample.occurs "report" reported.1 :=
  firesGenuinely_of_steady sample_cronLibrary (.start (by decide))
    (chronicle_noted _ _ fun cue _ => meets_any cue)
    (by decide) steady_reported

/-- A report on a day that never comes. -/
def never : CronJob := { name := "report", expression := "0 0 30 2 *" }

def neverFired : List CronEvent × World :=
  noted (World.start (Sample.instant 0)) [.call (.registerCron never), .call .fireCronJobs]

/-- A schedule without an occurrence to come fires at every pass. -/
theorem not_firesGenuinely : ¬ ∀ (lib : Externals) (occurs : String → Int → Prop) (w t : World)
    (es : List CronEvent) (name : String), CronLibrary lib occurs → Reachable lib w →
      Chronicle lib (fun _ => True) w es t → t.clock + 2 ^ 63 ≤ lastInstant →
      FiresGenuinely lib occurs name es := by
  intro genuine
  have fires := genuine sample Sample.occurs _ _ neverFired.1 "report" sample_cronLibrary
    (.start (by decide)) (chronicle_noted _ _ fun cue _ => meets_any cue) (by decide)
    [.registered never (storedAt (fun _ => firstInstant) 0 never) (Sample.instant 0)]
    (storedAt (fun _ => firstInstant) 0 never) (Sample.instant 0)
    "00000000-0000-7000-8000-000000000000" ⟨[_], rfl⟩ rfl
  obtain ⟨u, here, -⟩ := fires never (Sample.instant 0) rfl
  rcases here with ⟨spec, -⟩ | ⟨spec, -⟩ | ⟨spec, -⟩
  · exact absurd spec (by decide)
  · exact absurd spec (by decide)
  · exact absurd spec (by decide)

end OjsNats.Lifecycle
