import OjsNats.Lifecycle.Chronicle

/-!
# The next run of a cron entry

Registration computes the next run from the expression in its time zone, a pass
from the expression alone.  The two agree where the zone makes no difference.
-/

namespace OjsNats.Nats

open Core

/-- The registration that a name goes by, with its time, after one more event. -/
def goesBy (name : String) (before : Option (CronJob × Int)) : CronEvent → Option (CronJob × Int)
  | .registered given entry now => if entry.name = name then some (given, now) else before
  | .deleted other => if other = name then none else before
  | .fired _ _ _ | .rewritten _ _ => before

/-- The last registration of a name that was not deleted since. -/
def registration (name : String) (es : List CronEvent) : Option (CronJob × Int) :=
  es.foldl (goesBy name) none

@[simp] theorem registration_snoc (name : String) (es : List CronEvent) (event : CronEvent) :
    registration name (es ++ [event]) = goesBy name (registration name es) event := by
  simp [registration]

/-- The event followed on the others. -/
theorem prefix_snoc_cases {es before : List CronEvent} {last event : CronEvent}
    (h : before ++ [event] <+: es ++ [last]) :
    (before = es ∧ event = last) ∨ before ++ [event] <+: es := by
  rcases List.prefix_concat_iff.mp h with same | earlier
  · obtain ⟨rfl, eq⟩ := List.append_inj' same rfl
    exact .inl ⟨rfl, List.singleton_inj.mp eq⟩
  · exact .inr earlier

/-- The text that the zone of a registration turns its expression into. -/
def zonedSpec (loc : String) (cronJob : CronJob) : String :=
  "CRON_TZ=" ++ loc ++ " " ++ cronExpr cronJob

end OjsNats.Nats

namespace OjsNats.Lifecycle

open Core Nats Effect Semantics

variable {lib : Externals} {kind : Call → Prop} {w t : World} {es : List CronEvent}

/-- A pass stored the entry at `now`, after the registration was the last. -/
def Rewritten (es : List CronEvent) (given entry : CronJob) (now : Int) : Prop :=
  ∃ before since, before ++ [.rewritten entry now] <+: es ∧
    registration entry.name before = some (given, since)

/-- The next run is the one that `RegisterCron` would have stored. -/
def AsRegistered (lib : Externals) (given entry : CronJob) (now : Int) : Prop :=
  ∃ schedule, parseRegistration lib given = .ok schedule ∧
    entry.nextRunAt = (registeredCron lib schedule now given).nextRunAt

/-- If the expression can be parsed with the zone and without, it has the same
next run. -/
def SameNext (lib : Externals) (given : CronJob) (now : Int) : Prop :=
  given.timezone ≠ "" → ∀ loc ∈ lib.loadLocation given.timezone,
    ∀ zoned ∈ lib.parseCron (zonedSpec loc given), ∀ plain ∈ lib.parseCron (cronExpr given),
      lib.formatTime (zoned now) = lib.formatTime (plain now)

theorem sameNext_iff {given : CronJob} {schedule plain : Int → Int} {now : Int}
    (registered : parseRegistration lib given = .ok schedule)
    (parsed : lib.parseCron (cronExpr given) = some plain) :
    SameNext lib given now ↔ lib.formatTime (plain now) = lib.formatTime (schedule now) := by
  unfold SameNext
  by_cases local_ : given.timezone = ""
  · simp only [parseRegistration, local_, ↓reduceIte, parsed, Except.ok.injEq] at registered
    simp [local_, registered]
  · simp only [parseRegistration, local_, ↓reduceIte, parsed] at registered
    cases located : lib.loadLocation given.timezone with
    | none => simp [located] at registered
    | some loc =>
      simp only [located] at registered
      cases zone : lib.parseCron ("CRON_TZ=" ++ loc ++ " " ++ cronExpr given) with
      | none =>
        simp only [zone, Except.ok.injEq] at registered
        simp [zonedSpec, zone, registered]
      | some zoned =>
        simp only [zone, Except.ok.injEq] at registered
        simp [zonedSpec, local_, zone, parsed, registered, eq_comm]

/-- The stored entries have the expressions of their registrations, and what
was stored by a pass has the next run of that expression. -/
structure Faithful (lib : Externals) (es : List CronEvent) (w : World) : Prop where
  entry : ∀ name given since, registration name es = some (given, since) →
    (∃ schedule, parseRegistration lib given = .ok schedule) ∧
    ∀ entry ∈ w.value .cron name, cronExpr entry = cronExpr given
  rewritten : ∀ given entry now, Rewritten es given entry now →
    (∃ schedule, parseRegistration lib given = .ok schedule) ∧
    ∃ plain, lib.parseCron (cronExpr given) = some plain ∧
      entry.nextRunAt = lib.formatTime (plain now)

theorem Rewritten.snoc {event : CronEvent} {given entry : CronJob} {now : Int}
    (h : Rewritten (es ++ [event]) given entry now) : Rewritten es given entry now ∨
      event = .rewritten entry now ∧ ∃ since, registration entry.name es = some (given, since) := by
  obtain ⟨before, since, early, registered⟩ := h
  rcases prefix_snoc_cases early with ⟨rfl, rfl⟩ | earlier
  · exact .inr ⟨rfl, since, registered⟩
  · exact .inl ⟨before, since, earlier, registered⟩

theorem cronExpr_registeredCron (given : CronJob) (schedule : Int → Int) (now : Int) :
    cronExpr (registeredCron lib schedule now given) = cronExpr given := by
  rw [cronExpr]
  exact ite_self _

namespace Faithful

theorem start (w : World) : Faithful lib [] w where
  entry := by
    intro name given since registered
    cases registered
  rewritten := by
    rintro given entry now ⟨before, since, early, -⟩
    simp at early

theorem idle (h : Faithful lib es w) (same : t.kv .cron = w.kv .cron) : Faithful lib es t where
  entry := by
    intro name given since registered
    rw [World.value, same]
    exact h.entry name given since registered
  rewritten := h.rewritten

/-- A job is fired. -/
theorem fired (h : Faithful lib es w) {cronJob : CronJob} {now : Int} {jobID : String} :
    Faithful lib (es ++ [.fired cronJob now jobID]) w where
  entry := by
    intro name given since registered
    rw [registration_snoc] at registered
    exact h.entry name given since registered
  rewritten := by
    intro given entry now' rewritten
    rcases rewritten.snoc with earlier | ⟨eq, -⟩
    · exact h.rewritten given entry now' earlier
    · cases eq

theorem register (h : Faithful lib es w) {given : CronJob} {schedule : Int → Int}
    (parsed : parseRegistration lib given = .ok schedule) :
    Faithful lib (es ++ [.registered given (registeredCron lib schedule w.clock given) w.clock])
      (w.put .cron given.name (registeredCron lib schedule w.clock given)) where
  entry := by
    intro name given' since registered
    rw [registration_snoc] at registered
    simp only [goesBy] at registered
    split at registered
    · rename_i own
      obtain rfl : given.name = name := own
      cases registered
      refine ⟨⟨schedule, parsed⟩, fun entry stored => ?_⟩
      rw [Option.mem_def, value_put, dif_pos ⟨rfl, rfl⟩] at stored
      cases stored
      exact cronExpr_registeredCron given schedule w.clock
    · rename_i other
      have other' : given.name ≠ name := other
      obtain ⟨accepted, kept⟩ := h.entry name given' since registered
      refine ⟨accepted, fun entry stored => kept entry ?_⟩
      rwa [value_put_other (by simp [Ne.symm other'])] at stored
  rewritten := by
    intro given' entry now rewritten
    rcases rewritten.snoc with earlier | ⟨eq, -⟩
    · exact h.rewritten given' entry now earlier
    · cases eq

theorem delete (h : Faithful lib es w) {name : String} :
    Faithful lib (es ++ [.deleted name]) (w.delete .cron name) where
  entry := by
    intro name' given since registered
    rw [registration_snoc] at registered
    simp only [goesBy] at registered
    split at registered
    · cases registered
    · rename_i other
      obtain ⟨accepted, kept⟩ := h.entry name' given since registered
      refine ⟨accepted, fun entry stored => kept entry ?_⟩
      rwa [value_delete_other (by simp [Ne.symm other])] at stored
  rewritten := by
    intro given entry now rewritten
    rcases rewritten.snoc with earlier | ⟨eq, -⟩
    · exact h.rewritten given entry now earlier
    · cases eq

/-- A pass moves the entry on. -/
theorem moveOn (h : Faithful lib es w) {cronJob : CronJob} (now : Int)
    (stored : w.value .cron cronJob.name = some cronJob) :
    Faithful lib (es ++ moveEvents lib now cronJob) (w.moveOn lib now cronJob) := by
  unfold moveEvents World.moveOn
  cases parsed : lib.parseCron (cronExpr cronJob) with
  | none => simpa using h
  | some plain =>
    constructor
    · intro name given since registered
      rw [registration_snoc] at registered
      obtain ⟨accepted, kept⟩ := h.entry name given since registered
      refine ⟨accepted, fun entry stored' => ?_⟩
      by_cases own : name = cronJob.name
      · subst own
        rw [Option.mem_def, value_put, dif_pos ⟨rfl, rfl⟩] at stored'
        cases stored'
        exact kept cronJob stored
      · rw [value_put_other (by simp [own])] at stored'
        exact kept entry stored'
    · intro given entry now' rewritten
      rcases rewritten.snoc with earlier | ⟨eq, since, registered⟩
      · exact h.rewritten given entry now' earlier
      · cases eq
        obtain ⟨accepted, kept⟩ := h.entry cronJob.name given since registered
        exact ⟨accepted, plain, by rw [← kept cronJob stored, parsed], rfl⟩

end Faithful

theorem faithful_of_chronicle (reachable : Reachable lib w)
    (chronicle : Chronicle lib kind w es t) : Faithful lib es t := by
  refine chronicle.cron_holds reachable (I := Faithful lib) (.start w)
    (fun es m now _ h => h.idle rfl) (fun es m t same _ h => h.idle same)
    (fun es m given schedule parsed h => h.register parsed) (fun es m name h => h.delete) ?_
  intro cronJob es m sound stored h
  refine wp_notedCron sound (by simpa using h) (fun _ _ _ => h.moveOn _ stored)
    fun _ _ jobID v pushed => ?_
  rw [List.append_cons]
  refine (h.fired.idle pushed.remembered).moveOn _ ?_
  rwa [World.value, pushed.remembered]

/-- A pass stores the next run that `RegisterCron` would compute exactly if the
zone that was registered makes no difference to it. -/
theorem asRegistered_iff (reachable : Reachable lib w) (chronicle : Chronicle lib kind w es t)
    {given entry : CronJob} {now : Int} (rewritten : Rewritten es given entry now) :
    AsRegistered lib given entry now ↔ SameNext lib given now := by
  obtain ⟨⟨schedule, accepted⟩, plain, parsed, next⟩ :=
    (faithful_of_chronicle reachable chronicle).rewritten given entry now rewritten
  rw [sameNext_iff accepted parsed, AsRegistered, next]
  constructor
  · rintro ⟨schedule', accepted', same⟩
    cases accepted.symm.trans accepted'
    exact same
  · exact fun same => ⟨schedule, accepted, same⟩

/-- The report is registered and fired. -/
def reported : List CronEvent × World :=
  noted (World.start (Sample.instant 0))
    [.call (.registerCron minutely), .wait 60, .call .fireCronJobs]

/-- What the sample parser makes a registration store. -/
def storedAt (schedule : Int → Int) (seconds : Int) (given : CronJob) : CronJob :=
  registeredCron sample schedule (Sample.instant seconds) given

def minutelyMoved : CronJob :=
  movedOn sample (Sample.nextMultiple 60 0) (Sample.instant 60)
    (storedAt (Sample.nextMultiple 60 0) 0 minutely)

theorem reported_events : reported.1 =
    [.registered minutely (storedAt (Sample.nextMultiple 60 0) 0 minutely) (Sample.instant 0),
      .fired (storedAt (Sample.nextMultiple 60 0) 0 minutely) (Sample.instant 60)
        "00000000-0000-7000-8000-000000000000",
      .rewritten minutelyMoved (Sample.instant 60)] := rfl

theorem rewritten_reported :
    Rewritten reported.1 minutely minutelyMoved (Sample.instant 60) := by
  rw [reported_events]
  exact ⟨[_, _], Sample.instant 0, ⟨[], rfl⟩, rfl⟩

theorem asRegistered_reported : AsRegistered sample minutely minutelyMoved (Sample.instant 60) :=
  (asRegistered_iff (.start (by decide)) (chronicle_noted _ _ fun cue _ => meets_any cue)
    rewritten_reported).mpr fun zoned => absurd rfl zoned

/-- Something to do at midnight in Tokyo. -/
def nightly : CronJob := { name := "nightly", expression := "0 0 * * *", timezone := "Asia/Tokyo" }

/-- It is registered, and fired at the first midnight. -/
def nightlyFired : List CronEvent × World :=
  noted (World.start (Sample.instant 0))
    [.call (.registerCron nightly), .wait 54000, .call .fireCronJobs]

def nightlyMoved : CronJob :=
  movedOn sample (Sample.nextMultiple 86400 0) (Sample.instant 54000)
    (storedAt (Sample.nextMultiple 86400 54000) 0 nightly)

theorem rewritten_nightly :
    Rewritten nightlyFired.1 nightly nightlyMoved (Sample.instant 54000) := by
  refine ⟨[.registered nightly (storedAt (Sample.nextMultiple 86400 54000) 0 nightly)
      (Sample.instant 0),
    .fired (storedAt (Sample.nextMultiple 86400 54000) 0 nightly) (Sample.instant 54000)
      "00000000-0000-7000-8000-000000000000"], Sample.instant 0, ⟨[], rfl⟩, rfl⟩

/-- After the first firing the zone is forgotten. -/
theorem not_asRegistered : ¬ ∀ (lib : Externals) (w t : World) (es : List CronEvent)
    (given entry : CronJob) (now : Int), Reachable lib w → Chronicle lib (fun _ => True) w es t →
      Rewritten es given entry now → AsRegistered lib given entry now := by
  intro faithful
  obtain ⟨schedule, accepted, next⟩ := faithful sample _ _ _ nightly nightlyMoved
    (Sample.instant 54000) (.start (by decide))
    (chronicle_noted _ _ fun cue _ => meets_any cue) rewritten_nightly
  obtain rfl : Sample.nextMultiple 86400 54000 = schedule := Except.ok.inj accepted
  exact absurd next (by decide)

end OjsNats.Lifecycle
