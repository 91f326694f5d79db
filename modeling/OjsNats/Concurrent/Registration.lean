import OjsNats.Concurrent.Schedule
import OjsNats.Lifecycle.Absence
import OjsNats.Lifecycle.Chronicle

/-!
# Cron entries that change during a pass

A pass lists the entries, pushes the jobs of those that are due and writes each
back from its copy.  In a run in which the entry is still what the pass read
when it is written back, it stays what its last registration or deletion made
of it.
-/

namespace OjsNats.Core

/-- What a registration settles for the firings to come. -/
structure CronSettings where
  expression : String
  timezone : String
  jobTemplate : Option CronJobTemplate
  overlapPolicy : String

def CronJob.settings (cronJob : CronJob) : CronSettings where
  expression := cronJob.expression
  timezone := cronJob.timezone
  jobTemplate := cronJob.jobTemplate
  overlapPolicy := cronJob.overlapPolicy

end OjsNats.Core

namespace OjsNats.Concurrent

open Core Nats Lifecycle Effect

/-! ## Changes of an entry -/

/-- What a call makes of the entry: what it registers, or nothing. -/
def alters (name : String) : Call → (op : Op) → Ans op → Option (Option CronJob)
  | .registerCron _, .put .cron k v, .ok _ => if k = name then some (some v) else none
  | .deleteCron _, .delete .cron k, .ok _ => if k = name then some none else none
  | _, _, _ => none

/-- A registration or a deletion of the entry. -/
structure Change where
  thread : Nat
  entry : Option CronJob

def change? (name : String) : Action Call Op Ans → Option Change
  | .call i call op r => (alters name call op r).map (⟨i, ·⟩)
  | _ => none

def changes (name : String) (log : List (Action Call Op Ans)) : List Change :=
  log.filterMap (change? name)

theorem changes_snoc (name : String) (log : List (Action Call Op Ans))
    (act : Action Call Op Ans) :
    changes name (log ++ [act]) = changes name log ++ (change? name act).toList := by
  unfold changes
  rw [List.filterMap_append]
  cases h : change? name act <;> simp [h]

/-- The copy of the entry that a call obtains. -/
def copies (name : String) : (op : Op) → Ans op → Option CronJob
  | .get .cron k, .ok (cronJob, _) => if k = name then some cronJob else none
  | _, _ => none

/-- The settings under which the entry is stored. -/
def settingsOf (w : World) (name : String) : Option CronSettings :=
  (w.value .cron name).map CronJob.settings

/-- The pass that writes an entry back by an action, and the entry's name. -/
def writesBack? : Action Call Op Ans → Option (Nat × String)
  | .call i .fireCronJobs (.put .cron k _) _ => some (i, k)
  | _ => none

/-- A pass writes the entry back while it still has the settings of its copy. -/
def UpToDate (name : String) (c : Server) (act : Action Call Op Ans) : Prop :=
  ∀ m ∈ writesBack? act, m.2 = name →
    ∀ copy ∈ noted (copies name) m.1 c.log, settingsOf c.state name = some copy.settings

/-- The entry is what its last change made of it, and an operation that has
returned without an error has made its change. -/
structure StaysSettled (name : String) (c : Server) : Prop where
  last : ∀ change ∈ (changes name c.log).getLast?,
    settingsOf c.state name = change.entry.map CronJob.settings
  deleted : ∀ (i : Nat) (cronJob : CronJob),
    c.threads[i]? = some (Call.deleteCron name, Program.pure (Reply.cron (.ok cronJob))) →
    ⟨i, none⟩ ∈ changes name c.log
  registered : ∀ (i : Nat) (given cronJob : CronJob), given.name = name →
    c.threads[i]? = some (Call.registerCron given, Program.pure (Reply.cron (.ok cronJob))) →
    ⟨i, some cronJob⟩ ∈ changes name c.log

/-! ## What the cron operations may call -/

/-- The copies that an operation has, and the change it has made. -/
structure CronView where
  copies : List CronJob := []
  change : Option (Option CronJob) := none

/-- What an operation may write under the name. -/
def MayStore (g : CronView) (v : CronJob) : Call → Prop
  | .fireCronJobs => ∃ copy ∈ g.copies, copy.settings = v.settings
  | .registerCron _ => True
  | _ => False

/-- Entries are filed under their names. -/
def labelled : (op : Op) → Ans op → Prop
  | .get .cron k, .ok (cronJob, _) => cronJob.name = k
  | _, _ => True

def cronProtocol (name : String) (call : Call) : Protocol Op Ans CronView where
  allows g
    | .put .cron k v => v.name = k ∧ (k = name → MayStore g v call)
    | .create .cron _ _ | .update .cron _ _ _ => False
    | .delete .cron k => call = .deleteCron k
    | _ => True
  admits _ op r := labelled op r
  next g op r :=
    { copies := g.copies ++ (copies name op r).toList
      change := alters name call op r <|> g.change }

section Rules

open Protocol Program

variable {lib : Externals} {name : String} {call : Call} {g : CronView}

theorem unaltered_of_off (name : String) {op : Op} (off : Off .cron op) (call : Call) (r : Ans op) :
    copies name op r = none ∧ alters name call op r = none := by
  cases op with
  | get b | put b | delete b =>
    cases b with
    | cron => exact absurd rfl off
    | _ => cases call <;> exact ⟨rfl, rfl⟩
  | _ => cases call <;> exact ⟨rfl, rfl⟩

theorem cron_silent {op : Op} (off : Off .cron op) : (cronProtocol name call).Silent op := by
  intro g
  constructor
  · cases op with
    | put b | create b | update b | delete b =>
      cases b with
      | cron => exact absurd rfl off
      | _ => trivial
    | _ => trivial
  · intro r
    obtain ⟨blind, unaltered⟩ := unaltered_of_off name off call r
    simp [cronProtocol, blind, unaltered]

theorem cron_off {α : Type} {p : Prog α} {Q : α → CronView → Prop} (uses : p.Uses (Off .cron))
    (h : ∀ a, Q a g) : (cronProtocol name call).Follows p g Q :=
  follows_silent (uses.mono fun _ => cron_silent) h

theorem cron_get {key : String} {Q : Except CallError CronJob → CronView → Prop}
    (error : ∀ e, Q (.error e) g)
    (ok : ∀ cronJob : CronJob, cronJob.name = key →
      Q (.ok cronJob) { g with copies := g.copies ++ (if key = name then [cronJob] else []) }) :
    (cronProtocol name call).Follows (CronStore.get key) g Q := by
  refine follows_bind.mpr (follows_ask.mpr ⟨trivial, fun r filed => ?_⟩)
  have unaltered : alters name call (.get .cron key) r = none := by
    cases call <;> rfl
  cases r with
  | error e =>
    have same : (cronProtocol name call).next g (.get .cron key) (.error e) = g := by
      simp [cronProtocol, copies, unaltered]
    change Q (.error e) ((cronProtocol name call).next g (.get .cron key) (.error e))
    rw [same]
    exact error e
  | ok entry =>
    obtain ⟨cronJob, rev⟩ := entry
    have saw : (cronProtocol name call).next g (.get .cron key) (.ok (cronJob, rev)) =
        { g with copies := g.copies ++ (if key = name then [cronJob] else []) } := by
      simp only [cronProtocol, copies, unaltered]
      split <;> rfl
    change Q (.ok cronJob) ((cronProtocol name call).next g (.get .cron key) (.ok (cronJob, rev)))
    rw [saw]
    exact ok cronJob filed

theorem cron_registerCron (given : CronJob) :
    (cronProtocol name (.registerCron given)).Follows (registerCron lib given) g
      fun r g' => given.name = name → ∀ cronJob, r = .ok cronJob →
        g'.change = some (some cronJob) := by
  unfold registerCron
  split
  · intro _ cronJob eq
    cases eq
  · refine follows_bind.mpr (cron_off ⟨trivial, fun _ => trivial⟩ fun now => follows_bind.mpr ?_)
    refine follows_ask.mpr ⟨⟨rfl, fun _ => trivial⟩, fun r _ => ?_⟩
    cases r with
    | error e =>
      intro _ cronJob eq
      cases eq
    | ok rev =>
      intro same cronJob eq
      cases eq
      simp [cronProtocol, alters, registeredCron, same]

theorem cron_deleteCron (given : String) :
    (cronProtocol name (.deleteCron given)).Follows (deleteCron given) g
      fun r g' => given = name → ∀ cronJob, r = .ok cronJob → g'.change = some none := by
  refine follows_bind.mpr (cron_get (fun e => ?_) fun cronJob _ => follows_bind.mpr ?_)
  · intro _ cronJob eq
    cases eq
  · refine follows_ask.mpr ⟨rfl, fun r _ => ?_⟩
    cases r with
    | error e =>
      intro _ cronJob eq
      cases eq
    | ok _ =>
      rintro rfl _ _
      simp [cronProtocol, alters]

/-- The pass has a copy with the settings of the entry, if it is the one. -/
def Copied (name : String) (g : CronView) (cronJob : CronJob) : Prop :=
  cronJob.name = name → cronJob ∈ g.copies

theorem cron_updateCronNextRun {cronJob : CronJob} {now : Int} (copied : Copied name g cronJob) :
    (cronProtocol name .fireCronJobs).Follows (updateCronNextRun lib cronJob now) g
      fun _ g' => g'.copies = g.copies := by
  unfold updateCronNextRun
  split
  · rfl
  · refine follows_bind.mpr (follows_ask.mpr ⟨⟨rfl, fun same => ?_⟩, fun r _ => ?_⟩)
    · exact ⟨cronJob, copied same, rfl⟩
    · simp [cronProtocol, copies]

theorem cron_fireCron {cronJob : CronJob} {now : Int} (copied : Copied name g cronJob) :
    (cronProtocol name .fireCronJobs).Follows (fireCron lib now cronJob) g
      fun _ g' => g'.copies = g.copies := by
  have due : (cronProtocol name .fireCronJobs).Follows (fireDue lib cronJob now) g
      fun _ g' => g'.copies = g.copies := by
    refine follows_bind.mpr (cron_off (off_push rfl (by decide) lib _) fun r => ?_)
    cases r with
    | error e => rfl
    | ok created =>
      refine follows_ite (follows_bind.mpr (cron_off ?_ fun _ => cron_updateCronNextRun copied))
        (cron_updateCronNextRun copied)
      exact ⟨(by decide : BucketName.stats ≠ .cron), fun _ => trivial⟩
  refine follows_ite rfl ?_
  split
  · rfl
  · refine follows_ite rfl (follows_ite (follows_bind.mpr (cron_off ?_ fun running => ?_)) due)
    · refine uses_bind ⟨(by decide : BucketName.stats ≠ .cron), fun _ => trivial⟩ fun r => ?_
      cases r with
      | error e => trivial
      | ok entry =>
        refine uses_bind (off_getJobState rfl _) fun r => ?_
        cases r <;> trivial
    · exact follows_ite (cron_updateCronNextRun copied) due

theorem cron_fireCronJobs :
    (cronProtocol name .fireCronJobs).Follows (fireCronJobs lib) g fun _ _ => True := by
  have listing : (cronProtocol name .fireCronJobs).Follows CronStore.list g fun r g' =>
      ∀ crons, r = .ok crons → ∀ cronJob ∈ crons, Copied name g' cronJob := by
    refine follows_bind.mpr (follows_bind.mpr (follows_ask.mpr ⟨trivial, fun r _ => ?_⟩))
    match r with
    | .ok keys =>
      refine follows_bind.mpr ((follows_forEach
        (fun _ crons f => ∀ cronJob ∈ crons, Copied name f cronJob) (by simp) ?_
        fun _ _ kept => kept).mono fun crons g' copied => ?_)
      · intro key rest crons f here
        refine follows_bind.mpr (cron_get (fun e => here) fun cronJob filed => ?_)
        intro other mem same
        rcases List.mem_append.mp mem with old | new
        · simp [here other old same]
        · rw [List.mem_singleton] at new
          subst new
          simp [← filed, same]
      · rintro _ ⟨⟩
        exact copied
    | .error .noKeysFound =>
      rintro _ ⟨⟩ cronJob mem
      cases mem
    | .error .keyNotFound | .error .keyExists | .error .wrongRevision | .error .unavailable =>
      intro crons eq
      cases eq
  refine follows_bind.mpr (listing.mono fun r g' copied => ?_)
  cases r with
  | error e => trivial
  | ok crons =>
    refine follows_bind.mpr (cron_off ⟨trivial, fun _ => trivial⟩ fun now => follows_bind.mpr ?_)
    apply follows_forEach fun rest _ f => ∀ cronJob ∈ rest, Copied name f cronJob
    · exact copied crons rfl
    · intro cronJob rest _ f here
      refine (cron_fireCron (here cronJob (by simp))).mono fun _ f' same => ?_
      intro other mem
      rw [Copied, same]
      exact here other (by simp [mem])
    · exact fun _ _ _ => trivial

/-- The operations on cron entries. -/
def cronOperations : List Operation := [.fireCronJobs, .registerCron, .deleteCron]

/-- An operation that has returned without an error has made its change. -/
structure HasChanged (name : String) (call : Call) (reply : Reply) (g : CronView) : Prop where
  deleted : call = .deleteCron name → ∀ cronJob, reply = .cron (.ok cronJob) →
    g.change = some none
  registered : ∀ given, call = .registerCron given → given.name = name →
    ∀ cronJob, reply = .cron (.ok cronJob) → g.change = some (some cronJob)

theorem cron_program (among : call.operation ∈ cronOperations) :
    (cronProtocol name call).Follows (call.program lib) g (HasChanged name call) := by
  cases call with
  | fireCronJobs =>
    refine follows_bind.mpr
      (cron_fireCronJobs.mono fun r g' _ => ⟨fun same => ?_, fun _ same => ?_⟩)
    · cases same
    · cases same
  | registerCron given =>
    refine follows_bind.mpr ((cron_registerCron given).mono fun r g' change => ⟨?_, ?_⟩)
    · intro same
      cases same
    · rintro _ ⟨⟩ same cronJob ⟨⟩
      exact change same cronJob rfl
  | deleteCron given =>
    refine follows_bind.mpr ((cron_deleteCron given).mono fun r g' change => ⟨?_, ?_⟩)
    · rintro ⟨⟩ cronJob ⟨⟩
      exact change rfl cronJob rfl
    · intro _ same
      cases same
  | _ => simp [cronOperations, Call.operation] at among

end Rules

/-! ## The entry -/

/-- The views remember the copies and the changes, and the entry is what its
last change made of it. -/
structure Settled (name : String) (w : World) (log : List (Action Call Op Ans))
    (views : List (Call × CronView)) : Prop where
  labelled : ∀ k cronJob, w.value .cron k = some cronJob → cronJob.name = k
  copied : Remembered (copies name) CronView.copies log views
  change : ∀ (i : Nat) (call : Call) (g : CronView), views[i]? = some (call, g) →
    ∀ entry ∈ g.change, ⟨i, entry⟩ ∈ changes name log
  last : ∀ change ∈ (changes name log).getLast?,
    settingsOf w name = change.entry.map CronJob.settings

section Settled

variable {name : String} {w w' : World} {log : List (Action Call Op Ans)}
  {views : List (Call × CronView)}

/-- An action that changes no settings of the entry. -/
theorem Settled.idle (h : Settled name w log views) {act : Action Call Op Ans}
    {views' : List (Call × CronView)} (silent : change? name act = none)
    (labelled : ∀ k cronJob, w'.value .cron k = some cronJob → cronJob.name = k)
    (copied : Remembered (copies name) CronView.copies (log ++ [act]) views')
    (change : ∀ (i : Nat) (call : Call) (g : CronView), views'[i]? = some (call, g) →
      ∀ entry ∈ g.change, ∃ f : CronView, views[i]? = some (call, f) ∧ entry ∈ f.change)
    (same : settingsOf w' name = settingsOf w name) : Settled name w' (log ++ [act]) views' := by
  have unchanged : changes name (log ++ [act]) = changes name log := by
    simp [changes_snoc, silent]
  refine ⟨labelled, copied, fun i call g at_i entry mem => ?_, ?_⟩
  · obtain ⟨f, at_i', mem'⟩ := change i call g at_i entry mem
    rw [unchanged]
    exact h.change i call f at_i' entry mem'
  · rw [unchanged, same]
    exact h.last

/-- A registration or a deletion of the entry. -/
theorem Settled.alter (h : Settled name w log views) {i : Nat} {call : Call} {g g' : CronView}
    {op : Op} {r : Ans op} (entry : Option CronJob) (view : views[i]? = some (call, g))
    (alters : alters name call op r = some entry)
    (labelled : ∀ k cronJob, w'.value .cron k = some cronJob → cronJob.name = k)
    (saw : g'.copies = g.copies ++ (copies name op r).toList) (made : g'.change = some entry)
    (value : settingsOf w' name = entry.map CronJob.settings) :
    Settled name w' (log ++ [.call i call op r]) (views.set i (call, g')) := by
  have changed : changes name (log ++ [.call i call op r]) = changes name log ++ [⟨i, entry⟩] := by
    simp [changes_snoc, change?, alters]
  refine ⟨labelled, h.copied.call view saw, fun k call' f at_k entry' mem => ?_, ?_⟩
  · rw [changed]
    rcases getElem?_set_cases at_k with ⟨rfl, eq⟩ | ⟨ne, old⟩
    · cases eq
      rw [made, Option.mem_some] at mem
      simp [mem]
    · simp [h.change k call' f old entry' mem]
  · rw [changed]
    simpa using value

end Settled

theorem labelled_put {w : World} {v : CronJob}
    (labelled : ∀ k cronJob, w.value .cron k = some cronJob → cronJob.name = k) {k' : String}
    (own : v.name = k') (k : String) (cronJob : CronJob)
    (stored : (w.put .cron k' v).value .cron k = some cronJob) : cronJob.name = k := by
  rw [value_put] at stored
  split at stored
  · rename_i here
    cases stored
    exact own.trans here.2.symm
  · exact labelled k cronJob stored

theorem labelled_delete {w : World} (k' : String)
    (labelled : ∀ k cronJob, w.value .cron k = some cronJob → cronJob.name = k)
    (k : String) (cronJob : CronJob)
    (stored : (w.delete .cron k').value .cron k = some cronJob) : cronJob.name = k := by
  rw [value_delete] at stored
  split at stored
  · cases stored
  · exact labelled k cronJob stored

theorem Settled.admits {name : String} {w w' : World} {log : List (Action Call Op Ans)}
    {views : List (Call × CronView)} (h : Settled name w log views) {op : Op} {r : Ans op}
    (step : serves.step w op r w') : Concurrent.labelled op r := by
  unfold Concurrent.labelled
  split
  · rename_i k cronJob rev
    exact h.labelled k cronJob (World.lookup_value w step.1.symm)
  · trivial

/-- Only cron operations run, and an entry is written back while it is current. -/
def Keeping (name : String) (c : Server) (act : Action Call Op Ans) : Prop :=
  Among cronOperations act ∧ UpToDate name c act

theorem settled_invariant (name : String) :
    Invariant (α := Reply) serves TimePasses (cronProtocol name) {} (Keeping name)
      (Settled name) where
  start := by
    intro c views call _ h
    refine h.idle rfl h.labelled (h.copied.begin call rfl) (fun i call' g at_i entry mem => ?_) rfl
    rcases getElem?_snoc_cases at_i with eq | old
    · cases eq
      cases mem
    · exact ⟨g, old, mem⟩
  outside := by
    rintro c views t _ ⟨now, _, rfl⟩ h
    exact h.idle rfl h.labelled h.copied.rest (fun i call g at_i entry mem => ⟨g, at_i, mem⟩) rfl
  call := by
    intro c views i call op r t g keeping h view allowed step
    refine ⟨h.admits step, ?_⟩
    have idle (unaltered : alters name call op r = none)
        (labelled : ∀ k cronJob, t.value .cron k = some cronJob → cronJob.name = k)
        (same : settingsOf t name = settingsOf c.state name) :
        Settled name t (c.log ++ [.call i call op r])
          (views.set i (call, (cronProtocol name call).next g op r)) := by
      refine h.idle (by simp [change?, unaltered]) labelled (h.copied.call view rfl)
        (fun k call' f at_k entry mem => ?_) same
      rcases getElem?_set_cases at_k with ⟨rfl, eq⟩ | ⟨ne, old⟩
      · cases eq
        simp only [cronProtocol, unaltered] at mem
        exact ⟨g, view, mem⟩
      · exact ⟨f, old, mem⟩
    by_cases off : Off .cron op
    · have kv := off.leaves.kv step
      refine idle (unaltered_of_off name off call r).2 (fun k cronJob stored => ?_) ?_
      · exact h.labelled k cronJob (by rwa [World.value, kv] at stored)
      · rw [settingsOf, settingsOf, World.value, kv, World.value]
    · cases op with
      | get b k =>
        obtain rfl : b = .cron := by simpa [Off] using off
        obtain ⟨-, rfl⟩ := step
        exact idle (by cases call <;> rfl) h.labelled rfl
      | keys b =>
        obtain ⟨rfl, -⟩ := step
        exact idle (by cases call <;> rfl) h.labelled rfl
      | create b k v | update b k v =>
        obtain rfl : b = .cron := by simpa [Off] using off
        exact allowed.elim
      | put b k v =>
        obtain rfl : b = .cron := by simpa [Off] using off
        obtain ⟨rfl, rfl⟩ := step
        have labelled := labelled_put h.labelled allowed.1
        by_cases here : k = name
        · subst here
          cases call with
          | registerCron given =>
            refine h.alter (some v) view (by simp [alters]) labelled rfl ?_ ?_
            · simp [cronProtocol, alters]
            · simp [settingsOf, value_put]
          | fireCronJobs =>
            obtain ⟨copy, mem, same⟩ := allowed.2 rfl
            rw [← h.copied.known i _ g view] at mem
            refine idle rfl labelled ?_
            rw [keeping.2 (i, k) rfl rfl copy mem, same]
            simp [settingsOf, value_put]
          | _ => exact (allowed.2 rfl).elim
        · refine idle (by cases call <;> simp [alters, here]) labelled ?_
          rw [settingsOf, value_put_other (by simp [Ne.symm here]), settingsOf]
      | delete b k =>
        obtain rfl : b = .cron := by simpa [Off] using off
        obtain ⟨rfl, rfl⟩ := step
        have own : call = .deleteCron k := allowed
        subst own
        have labelled := labelled_delete k h.labelled
        by_cases here : k = name
        · subst here
          refine h.alter none view (by simp [alters]) labelled rfl ?_ ?_
          · simp [cronProtocol, alters]
          · simp [settingsOf, value_delete]
        · refine idle (by simp [alters, here]) labelled ?_
          rw [settingsOf, value_delete, if_neg (by simp [Ne.symm here]), settingsOf]
      | _ => exact absurd trivial off

/-- In a run whose passes write the entry back only while it is current, it
stays what its last registration or deletion made of it. -/
theorem staysSettled_of_keeping {lib : Externals} {name : String} {w : World} {c : Server}
    (reachable : Reachable lib w) (run : Runs lib (Keeping name) (idle w) c) :
    StaysSettled name c := by
  have start : Settled name w [] [] := {
    labelled := reachable.filed .cron
    copied := .nil
    change := fun i call g at_i => by simp at at_i
    last := fun change mem => by cases mem }
  obtain ⟨views, behaved, settled⟩ := (settled_invariant name).holds
    (fun _ _ meets => cron_program meets.1) run .nil start
  refine ⟨settled.last, fun i cronJob at_i => ?_, fun i given cronJob own at_i => ?_⟩
  · obtain ⟨g, view, done⟩ := behaved.getElem? at_i
    exact settled.change i _ g view none (done.deleted rfl cronJob rfl)
  · obtain ⟨g, view, done⟩ := behaved.getElem? at_i
    exact settled.change i _ g view (some cronJob) (done.registered given rfl own cronJob rfl)

/-! ## Runs -/

/-- A copy and the entry agree, and neither has a template. -/
def agrees (copy cronJob : CronJob) : Bool :=
  copy.expression = cronJob.expression && copy.timezone = cronJob.timezone &&
    copy.overlapPolicy = cronJob.overlapPolicy && copy.jobTemplate.isNone &&
    cronJob.jobTemplate.isNone

theorem settings_of_agrees {copy cronJob : CronJob} (h : agrees copy cronJob = true) :
    cronJob.settings = copy.settings := by
  simp only [agrees, Bool.and_eq_true, decide_eq_true_eq, Option.isNone_iff_eq_none] at h
  obtain ⟨⟨⟨⟨expression, timezone⟩, overlapPolicy⟩, template⟩, template'⟩ := h
  simp [CronJob.settings, expression, timezone, overlapPolicy, template, template']

/-- The cron entries that are written back have no template and have not changed. -/
def Agreeing (name : String) (c : Server) (act : Action Call Op Ans) : Prop :=
  Among cronOperations act ∧ ∀ m ∈ writesBack? act, m.2 = name →
    ∀ copy ∈ noted (copies name) m.1 c.log,
      ∃ cronJob ∈ c.state.value .cron name, agrees copy cronJob = true

instance (name : String) (c : Server) (act : Action Call Op Ans) :
    Decidable (Agreeing name c act) :=
  inferInstanceAs (Decidable (Among cronOperations act ∧ ∀ m ∈ writesBack? act, m.2 = name →
    ∀ copy ∈ noted (copies name) m.1 c.log,
      ∃ cronJob ∈ c.state.value .cron name, agrees copy cronJob = true))

theorem keeping_of_agreeing {name : String} {c : Server} {act : Action Call Op Ans}
    (h : Agreeing name c act) : Keeping name c act := by
  refine ⟨h.1, fun m writes own copy mem => ?_⟩
  obtain ⟨cronJob, stored, agree⟩ := h.2 m writes own copy mem
  rw [settingsOf, Option.mem_def.mp stored, Option.map_some, settings_of_agrees agree]

/-- The report is registered, fired, and deleted after the pass. -/
def fired : Server := played (Agreeing "report")
  [.start (.registerCron minutely), .calls 0 5, .wait 60, .start .fireCronJobs, .calls 1 40,
    .start (.deleteCron "report"), .calls 2 5]
  (idle (World.start (Sample.instant 0)))

/-- The report is deleted while a pass has a copy of it. -/
def restored : Server := played (fun _ act => Among cronOperations act)
  [.start (.registerCron minutely), .calls 0 5, .wait 60, .start .fireCronJobs, .calls 1 3,
    .start (.deleteCron "report"), .calls 2 5, .calls 1 40]
  (idle (World.start (Sample.instant 0)))

theorem staysSettled_fired : StaysSettled "report" fired :=
  staysSettled_of_keeping (.start (by decide))
    ((runs_played (by decide)).mono fun _ _ => keeping_of_agreeing)

/-- A pass can bring back an entry that was deleted. -/
theorem not_staysSettled : ¬ ∀ (lib : Externals) (name : String) (w : World) (c : Server),
    Reachable lib w → Runs lib (fun _ act => Among cronOperations act) (idle w) c →
      StaysSettled name c := by
  intro stays
  have still := stays sample "report" (World.start (Sample.instant 0)) restored
    (.start (by decide)) (runs_played (by decide))
  have deletes : (changes "report" restored.log).getLast?.map
      (fun change => change.entry.isNone) = some true := by decide
  obtain ⟨change, last, deleted⟩ := Option.map_eq_some_iff.mp deletes
  have gone := still.last change last
  rw [Option.isNone_iff_eq_none.mp deleted, Option.map_none, settingsOf, Option.map_eq_none_iff]
    at gone
  have stored : (restored.state.value .cron "report").isSome = true := by decide
  simp [gone] at stored

end OjsNats.Concurrent
