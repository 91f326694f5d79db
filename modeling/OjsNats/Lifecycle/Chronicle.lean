import OjsNats.Lifecycle.Steering

/-!
# What passes do, written down

The cron programs return nothing about the jobs they push and the entries they
write back.  Here they return it, and are otherwise the same.  A chronicle is
the list of these events in a sequential run, with the registrations and the
deletions.
-/

namespace OjsNats.Nats

open Core Effect Program

inductive CronEvent where
  /-- `RegisterCron` stored the entry for what it was given. -/
  | registered (given entry : CronJob) (now : Int)
  | deleted (name : String)
  /-- A pass pushed the job of the entry it had read. -/
  | fired (cronJob : CronJob) (now : Int) (jobID : String)
  /-- A pass stored the entry with its next run. -/
  | rewritten (entry : CronJob) (now : Int)

/-- The entry that `updateCronNextRun` stores. -/
def movedOn (lib : Externals) (schedule : Int → Int) (now : Int) (cronJob : CronJob) : CronJob :=
  { cronJob with
    lastRunAt := lib.formatTime now
    nextRunAt := lib.formatTime (schedule now) }

section Noted

variable (lib : Externals)

/-- `updateCronNextRun`, with what it stored. -/
def notedUpdate (cronJob : CronJob) (now : Int) : Prog (List CronEvent) := do
  match lib.parseCron (cronExpr cronJob) with
  | none => return []
  | some schedule =>
      let _ ← CronStore.register (movedOn lib schedule now cronJob)
      return [.rewritten (movedOn lib schedule now cronJob) now]

/-- `fireDue`, with the job it pushed. -/
def notedDue (cronJob : CronJob) (now : Int) : Prog (List CronEvent) := do
  match ← push lib (cronFiredJob cronJob) with
  | .error _ => return []
  | .ok created =>
      if cronJob.overlapPolicy = "skip" then
        setCronInstance cronJob.name created.id
        let events ← notedUpdate lib cronJob now
        return .fired cronJob now created.id :: events
      else
        let events ← notedUpdate lib cronJob now
        return .fired cronJob now created.id :: events

/-- `fireCron`, with what it did. -/
def notedCron (now : Int) (cronJob : CronJob) : Prog (List CronEvent) := do
  if cronJob.nextRunAt = "" then
    return []
  else
    match lib.parseTime cronJob.nextRunAt with
    | none => return []
    | some nextRun =>
        if now < nextRun then
          return []
        else if cronJob.overlapPolicy = "skip" then
          if ← isCronInstanceRunning lib cronJob.name then
            notedUpdate lib cronJob now
          else
            notedDue lib cronJob now
        else
          notedDue lib cronJob now

/-- `fireCronJobs`, with what it did. -/
def notedPass : Prog (Result Unit × List CronEvent) := do
  match ← CronStore.list with
  | .error e => return (.error (.call e), [])
  | .ok crons =>
      let now ← timeNow
      let events ← Program.forEach crons [] fun cronJob events => do
        let more ← notedCron lib now cronJob
        return events ++ more
      return (.ok (), events)

variable {lib}

theorem updateCronNextRun_eq (cronJob : CronJob) (now : Int) :
    updateCronNextRun lib cronJob now = (notedUpdate lib cronJob now).bind fun _ => .pure () := by
  unfold updateCronNextRun notedUpdate
  cases lib.parseCron (cronExpr cronJob) <;> rfl

theorem fireDue_eq (cronJob : CronJob) (now : Int) :
    fireDue lib cronJob now = (notedDue lib cronJob now).bind fun _ => .pure () := by
  simp only [fireDue, notedDue, bind_eq, pure_eq, Program.bind_assoc, updateCronNextRun_eq]
  refine congrArg (Program.bind _) (funext fun r => ?_)
  cases r with
  | error e => rfl
  | ok created =>
    dsimp only
    split <;> simp only [Program.bind_assoc, bind_pure_left]

theorem fireCron_eq (now : Int) (cronJob : CronJob) :
    fireCron lib now cronJob = (notedCron lib now cronJob).bind fun _ => .pure () := by
  unfold fireCron notedCron
  split
  · rfl
  · cases lib.parseTime cronJob.nextRunAt with
    | none => rfl
    | some nextRun =>
      dsimp only
      split
      · rfl
      · split
        · simp only [bind_eq, Program.bind_assoc, updateCronNextRun_eq, fireDue_eq]
          refine congrArg (Program.bind _) (funext fun running => ?_)
          cases running <;> rfl
        · exact fireDue_eq cronJob now

/-- A pass is its noted pass without the notes. -/
theorem fireCronJobs_eq :
    fireCronJobs lib = (notedPass lib).bind fun noted => .pure noted.1 := by
  simp only [fireCronJobs, notedPass, bind_eq, pure_eq, Program.bind_assoc]
  refine congrArg (Program.bind _) (funext fun r => ?_)
  cases r with
  | error e => rfl
  | ok crons =>
    simp only [Program.bind_assoc, bind_pure_left]
    refine congrArg (Program.bind _) (funext fun now => ?_)
    rw [forEach_map (fun cronJob events =>
        (notedCron lib now cronJob).bind fun more => .pure (events ++ more))
      (fun _ : List CronEvent => ()) []]
    · simp only [Program.bind_assoc, bind_pure_left]
    · intro cronJob events
      simp only [fireCron_eq, Program.bind_assoc, bind_pure_left]

end Noted

end OjsNats.Nats

namespace OjsNats.Nats.World

open Core

variable (w : World)

/-- The entry moved on, if its expression can be parsed. -/
def moveOn (lib : Externals) (now : Int) (cronJob : CronJob) : World :=
  match lib.parseCron (cronExpr cronJob) with
  | some schedule => w.put .cron cronJob.name (movedOn lib schedule now cronJob)
  | none => w

/-- The fired job remembered, under the policy that asks for it. -/
def remember (cronJob : CronJob) (jobID : String) : World :=
  if cronJob.overlapPolicy = "skip" then w.put .stats (cronInstanceKey cronJob.name) jobID else w

end OjsNats.Nats.World

namespace OjsNats.Lifecycle

open Core Nats Effect Semantics Program

variable {lib : Externals} {w t : World} {cronJob : CronJob}

/-- What a pass notes when it moves an entry on. -/
def moveEvents (lib : Externals) (now : Int) (cronJob : CronJob) : List CronEvent :=
  match lib.parseCron (cronExpr cronJob) with
  | some schedule => [.rewritten (movedOn lib schedule now cronJob) now]
  | none => []

/-- The entry's next run has come. -/
def CronDue (lib : Externals) (now : Int) (cronJob : CronJob) : Prop :=
  ∃ nextRun, lib.parseTime cronJob.nextRunAt = some nextRun ∧ nextRun ≤ now

/-- The job that the entry's name remembers is not over. -/
def InstanceRuns (lib : Externals) (w : World) (name : String) : Prop :=
  ∃ jobID rec, w.value .stats (cronInstanceKey name) = some jobID ∧
    w.value .jobs jobID = some rec ∧ lib.isTerminalState rec.state = false

theorem sameBoard_moveOn (lib : Externals) (w : World) (now : Int) (cronJob : CronJob) :
    SameBoard w (w.moveOn lib now cronJob) := by
  unfold World.moveOn
  split
  · exact sameBoard_put rfl
  · exact .refl w

@[simp] theorem moveOn_clock (w : World) (now : Int) (cronJob : CronJob) :
    (w.moveOn lib now cronJob).clock = w.clock :=
  (sameBoard_moveOn lib w now cronJob).clock

theorem sameBoard_remember (w : World) (cronJob : CronJob) (jobID : String) :
    SameBoard w (w.remember cronJob jobID) := by
  unfold World.remember
  split
  · exact sameBoard_put rfl
  · exact .refl w

theorem wp_notedUpdate {now : Int} {Q : List CronEvent → World → Prop} :
    serves.wp (notedUpdate lib cronJob now) Q w ↔
      Q (moveEvents lib now cronJob) (w.moveOn lib now cronJob) := by
  unfold notedUpdate moveEvents World.moveOn
  split
  · rename_i unread
    simp [unread]
  · rename_i schedule parsed
    simp only [parsed, CronStore.register, bind_eq, pure_eq, wp_bind, wp_put, wp_pure]
    exact Iff.rfl

theorem wp_isCronInstanceRunning {name : String} {Q : Bool → World → Prop}
    (h : ∀ running, (running = true ↔ InstanceRuns lib w name) → Q running w) :
    serves.wp (isCronInstanceRunning lib name) Q w := by
  simp only [isCronInstanceRunning, bind_eq, wp_bind, wp_get .stats]
  cases found : w.lookup .stats (cronInstanceKey name) with
  | error e =>
    have missing := World.lookup_error w found
    exact wp_pure.mpr (h false (by simp [InstanceRuns, missing]))
  | ok entry =>
    obtain ⟨jobID, rev⟩ := entry
    have known := World.lookup_value w found
    simp only [wp_bind, wp_getJobState, World.job]
    cases stored : w.value .jobs jobID with
    | none => exact wp_pure.mpr (h false (by simp [InstanceRuns, known, stored]))
    | some rec =>
      refine wp_pure.mpr (h _ ?_)
      simp [InstanceRuns, known, stored]

/-- A push of the entry's job. -/
structure CronPushed (lib : Externals) (cronJob : CronJob) (jobID : String) (w t : World) :
    Prop where
  pushed : Pushed lib [cronFiredJob cronJob] [jobID] w t
  sound : Sound t
  cron : t.kv .cron = w.kv .cron
  stats : t.kv .stats = w.kv .stats

theorem CronPushed.remembered {jobID : String} (pushed : CronPushed lib cronJob jobID w t) :
    (t.remember cronJob jobID).kv .cron = w.kv .cron := by
  unfold World.remember
  split
  · exact (kv_put_of_ne _ _ (by decide)).trans pushed.cron
  · exact pushed.cron

theorem wp_push_cron {Q : Result Job → World → Prop} (sound : Sound w)
    (h : ∀ created t, CronPushed lib cronJob created.id w t → Q (.ok created) t) :
    serves.wp (push lib (cronFiredJob cronJob)) Q w := by
  have frame {b : BucketName} (out : b ∉ enqueueBuckets) :
      serves.wp (push lib (cronFiredJob cronJob)) (fun _ t => t.kv b = w.kv b) w :=
    fun _ _ run => kv_of_spares (spares_of (confined_push_free lib rfl) out) run
  have pushes : serves.wp (push lib (cronFiredJob cronJob)) (fun r t => ∃ created, r = .ok created ∧
      Pushed lib [cronFiredJob cronJob] [created.id] w t ∧ Sound t) w :=
    wp_push_pushed ⟨rfl, rfl, rfl⟩ sound fun id state t done sound' _ => ⟨_, rfl, done, sound'⟩
  refine (pushes.and ((frame (b := .cron) (by decide)).and (frame (b := .stats) (by decide)))).mono
    fun r t ⟨⟨created, same, done, sound'⟩, cron, stats⟩ => ?_
  subst same
  exact h created t ⟨done, sound', cron, stats⟩

/-- What a pass does with an entry: nothing, or it moves it on because its last
job runs, or it fires it. -/
theorem wp_notedCron {Q : List CronEvent → World → Prop} (sound : Sound w) (rests : Q [] w)
    (skips : CronDue lib w.clock cronJob → cronJob.overlapPolicy = "skip" →
      InstanceRuns lib w cronJob.name →
      Q (moveEvents lib w.clock cronJob) (w.moveOn lib w.clock cronJob))
    (fires : CronDue lib w.clock cronJob →
      (cronJob.overlapPolicy = "skip" → ¬ InstanceRuns lib w cronJob.name) →
      ∀ jobID t, CronPushed lib cronJob jobID w t →
        Q (.fired cronJob w.clock jobID :: moveEvents lib w.clock cronJob)
          ((t.remember cronJob jobID).moveOn lib w.clock cronJob)) :
    serves.wp (notedCron lib w.clock cronJob) Q w := by
  unfold notedCron
  split
  · exact wp_pure.mpr rests
  · split
    · exact wp_pure.mpr rests
    · rename_i nextRun parsed
      split
      · exact wp_pure.mpr rests
      · rename_i past
        have due : CronDue lib w.clock cronJob := ⟨nextRun, parsed, Int.not_lt.mp past⟩
        have firing (idle : cronJob.overlapPolicy = "skip" → ¬ InstanceRuns lib w cronJob.name) :
            serves.wp (notedDue lib cronJob w.clock) Q w := by
          refine wp_bind.mpr (wp_push_cron sound fun created t pushed => ?_)
          have fired := fires due idle created.id t pushed
          dsimp only
          split
          · rename_i skip
            simp only [World.remember, if_pos skip] at fired
            simpa [setCronInstance, wp_bind, wp_notedUpdate] using fired
          · rename_i other
            simp only [World.remember, if_neg other] at fired
            simpa [wp_bind, wp_notedUpdate] using fired
        split
        · rename_i skip
          refine wp_bind.mpr (wp_isCronInstanceRunning fun running runs => ?_)
          split
          · rename_i isTrue
            exact wp_notedUpdate.mpr (skips due skip (runs.mp isTrue))
          · rename_i isFalse
            exact firing fun _ live => isFalse (runs.mpr live)
        · rename_i other
          exact firing fun skip => absurd skip other

/-- A listing has each stored entry once. -/
theorem wp_list {Q : Except CallError (List CronJob) → World → Prop} (filed : AllFiled w)
    (h : ∀ crons, (crons.map CronJob.name).Nodup →
      (∀ cronJob ∈ crons, w.value .cron cronJob.name = some cronJob) → Q (.ok crons) w) :
    serves.wp CronStore.list Q w := by
  refine wp_bind.mpr (wp_keys fun keys nodup listed => wp_bind.mpr ?_)
  refine wp_forEach (fun rest crons t => t = w ∧ (crons.map CronJob.name ++ rest).Nodup ∧
    ∀ cronJob ∈ crons, w.value .cron cronJob.name = some cronJob) ⟨rfl, by simpa, by simp⟩ ?_ ?_
  · rintro key rest crons v ⟨rfl, distinct, stored⟩
    simp only [CronStore.get, bind_eq, wp_bind, wp_get .cron]
    have skipped : (crons.map CronJob.name ++ rest).Nodup :=
      distinct.sublist (List.sublist_append_right [key] rest |>.append_left _)
    cases found : v.lookup .cron key with
    | error e => exact wp_pure.mpr (wp_pure.mpr ⟨rfl, skipped, stored⟩)
    | ok entry =>
      obtain ⟨cronJob, rev⟩ := entry
      have value := World.lookup_value v found
      obtain rfl : cronJob.name = key := filed .cron key cronJob value
      refine wp_pure.mpr (wp_pure.mpr ⟨rfl, ?_, fun other mem => ?_⟩)
      · simpa using distinct
      · rcases List.mem_append.mp mem with old | new
        · exact stored other old
        · rw [List.mem_singleton] at new
          exact new ▸ value
  · rintro crons v ⟨rfl, distinct, stored⟩
    exact wp_pure.mpr (h crons (by simpa using distinct) stored)

/-- An entry's turn leaves the other entries alone. -/
theorem notedCron_apart (sound : Sound w) : serves.wp (notedCron lib w.clock cronJob)
    (fun _ t => Sound t ∧ t.clock = w.clock ∧
      ∀ k ≠ cronJob.name, t.value .cron k = w.value .cron k) w := by
  have moved (v : World) (k : String) (other : k ≠ cronJob.name) (now : Int) :
      (v.moveOn lib now cronJob).value .cron k = v.value .cron k := by
    unfold World.moveOn
    split
    · exact value_put_other (by simp [other])
    · rfl
  refine wp_notedCron sound ⟨sound, rfl, fun _ _ => rfl⟩ (fun _ _ _ => ?_)
    fun _ _ jobID t pushed => ?_
  · have same := sameBoard_moveOn lib w w.clock cronJob
    exact ⟨same.sound sound, same.clock, fun k other => moved w k other _⟩
  · have same := (sameBoard_remember t cronJob jobID).trans
      (sameBoard_moveOn lib _ w.clock cronJob)
    refine ⟨same.sound pushed.sound, same.clock.trans pushed.pushed.clock, fun k other => ?_⟩
    rw [moved _ k other]
    rw [World.value, pushed.remembered, World.value]

/-- What holds before a pass and is kept by the turn of each entry holds after
it.  When its turn comes, an entry is still stored as it was listed. -/
theorem wp_notedPass {I : List CronEvent → World → Prop} (sound : Sound w) (filed : AllFiled w)
    (start : I [] w)
    (turn : ∀ cronJob events m, Sound m → m.clock = w.clock →
      m.value .cron cronJob.name = some cronJob → I events m →
      serves.wp (notedCron lib m.clock cronJob) (fun more t => I (events ++ more) t) m) :
    serves.wp (notedPass lib) (fun noted t => I noted.2 t) w := by
  refine wp_bind.mpr (wp_list filed fun crons distinct stored => wp_bind.mpr ?_)
  simp only [wp_timeNow, bind_eq, pure_eq, wp_bind, wp_pure]
  refine wp_forEach (fun rest events m => Sound m ∧ m.clock = w.clock ∧
    (rest.map CronJob.name).Nodup ∧
    (∀ cronJob ∈ rest, m.value .cron cronJob.name = some cronJob) ∧ I events m)
    ⟨sound, rfl, distinct, stored, start⟩ ?_ fun _ _ h => h.2.2.2.2
  rintro cronJob rest events m ⟨sound', clock, distinct, stored, holds⟩
  rw [List.map_cons, List.nodup_cons] at distinct
  have here := turn cronJob events m sound' clock (stored cronJob (by simp)) holds
  refine wp_bind.mpr ?_
  rw [← clock]
  refine (here.and (notedCron_apart sound')).mono fun more t turned => wp_pure.mpr ?_
  obtain ⟨kept, sound'', clock', apart⟩ := turned
  refine ⟨sound'', clock', distinct.2, fun other mem => ?_, kept⟩
  rw [apart other.name fun same => distinct.1 (List.mem_map.mpr ⟨other, mem, same⟩)]
  exact stored other (by simp [mem])

/-! ## Sequential runs -/

/-- The events of an operation that is no pass. -/
def cronEvents (now : Int) : Call → Reply → List CronEvent
  | .registerCron given, .cron (.ok entry) => [.registered given entry now]
  | .deleteCron name, .cron (.ok _) => [.deleted name]
  | _, _ => []

/-- A sequential run of operations of a kind, with its events. -/
inductive Chronicle (lib : Externals) (kind : Call → Prop) (w : World) :
    List CronEvent → World → Prop
  | nil : Chronicle lib kind w [] w
  | tick {es : List CronEvent} {m : World} {now : Int} : Chronicle lib kind w es m →
      m.clock ≤ now → Chronicle lib kind w es { m with clock := now }
  | call {es : List CronEvent} {m t : World} {call : Call} {reply : Reply} :
      Chronicle lib kind w es m → kind call → call ≠ .fireCronJobs → call.Fresh m →
      serves.Exec (call.program lib) (m.accept call) reply t →
      Chronicle lib kind w (es ++ cronEvents m.clock call reply) t
  | pass {es : List CronEvent} {m t : World} {noted : Result Unit × List CronEvent} :
      Chronicle lib kind w es m → kind .fireCronJobs → serves.Exec (notedPass lib) m noted t →
      Chronicle lib kind w (es ++ noted.2) t

section Run

variable {kind : Call → Prop} {es : List CronEvent}

/-- A pass that was noted is a pass. -/
theorem step_of_notedPass {noted : Result Unit × List CronEvent}
    (run : serves.Exec (notedPass lib) w noted t) :
    Step lib w (.call .fireCronJobs (.done noted.1)) t := by
  refine .call ⟨by simp [Call.clientIDs], by simp [Call.clientIDs]⟩ ?_
  refine exec_bind.mpr ⟨noted.1, t, ?_, rfl, rfl⟩
  rw [fireCronJobs_eq]
  exact exec_bind.mpr ⟨noted, t, run, rfl, rfl⟩

/-- A chronicle is a run. -/
theorem Chronicle.run (chronicle : Chronicle lib kind w es t) :
    ∃ trace, Run lib w trace t ∧ ∀ p ∈ trace, p.event.Meets kind := by
  induction chronicle with
  | nil => exact ⟨[], .nil, by simp⟩
  | tick _ later ih =>
    obtain ⟨trace, run, meets⟩ := ih
    refine ⟨_, run.snoc (.tick later), ?_⟩
    simpa [or_imp, forall_and, Event.Meets] using meets
  | call _ ok _ fresh exec ih =>
    obtain ⟨trace, run, meets⟩ := ih
    refine ⟨_, run.snoc (.call fresh exec), ?_⟩
    simpa [or_imp, forall_and, Event.Meets, ok] using meets
  | pass _ ok exec ih =>
    obtain ⟨trace, run, meets⟩ := ih
    refine ⟨_, run.snoc (step_of_notedPass exec), ?_⟩
    simpa [or_imp, forall_and, Event.Meets, ok] using meets

/-- Every run has a chronicle. -/
theorem exists_chronicle {trace : List Passage} (run : Run lib w trace t)
    (meets : ∀ p ∈ trace, p.event.Meets kind) : ∃ es, Chronicle lib kind w es t := by
  refine run.holds_along (I := fun _ m => ∃ es, Chronicle lib kind w es m) ⟨[], .nil⟩ ?_
  rintro done ⟨m, event, m'⟩ rest whole _ step ⟨es, chronicle⟩
  have meets := meets ⟨m, event, m'⟩ (by simp [whole])
  replace step : Step lib m event m' := step
  cases step with
  | tick later => exact ⟨es, chronicle.tick later⟩
  | @call _ operation reply fresh exec =>
    by_cases pass : operation = .fireCronJobs
    · subst pass
      obtain ⟨r, -, ends⟩ := exec_reply exec
      rw [fireCronJobs_eq] at ends
      obtain ⟨noted, _, ends, -, rfl⟩ := exec_bind.mp ends
      exact ⟨_, chronicle.pass meets ends⟩
    · exact ⟨_, chronicle.call meets pass fresh exec⟩

/-- What each step of a chronicle keeps, and each turn of a pass, holds at its end. -/
theorem Chronicle.holds {I : List CronEvent → World → Prop} (reachable : Reachable lib w)
    (chronicle : Chronicle lib kind w es t) (start : I [] w)
    (tick : ∀ es m now, m.clock ≤ now → I es m → I es { m with clock := now })
    (call : ∀ es m t call reply, Reachable lib m → kind call → call ≠ .fireCronJobs →
      call.Fresh m → serves.Exec (call.program lib) (m.accept call) reply t → I es m →
      I (es ++ cronEvents m.clock call reply) t)
    (turn : ∀ cronJob es m, Sound m → m.value .cron cronJob.name = some cronJob → I es m →
      serves.wp (notedCron lib m.clock cronJob) (fun more t => I (es ++ more) t) m) : I es t := by
  suffices both : Reachable lib t ∧ I es t from both.2
  induction chronicle with
  | nil => exact ⟨reachable, start⟩
  | tick _ later ih => exact ⟨ih.1.step (.tick later), tick _ _ _ later ih.2⟩
  | call _ ok other fresh exec ih =>
    exact ⟨ih.1.step (.call fresh exec), call _ _ _ _ _ ih.1 ok other fresh exec ih.2⟩
  | @pass es m t noted _ _ exec ih =>
    refine ⟨ih.1.step (step_of_notedPass exec), ?_⟩
    refine wp_notedPass (I := fun more v => I (es ++ more) v) ih.1.sound ih.1.filed
      (by simpa using ih.2) (fun cronJob more v sound _ stored holds => ?_) noted t exec
    refine (turn cronJob _ v sound stored holds).mono fun _ u kept => ?_
    rwa [List.append_assoc] at kept

theorem registerCron_stores (given : CronJob) : serves.wp (registerCron lib given)
    (fun r t => ((∃ e, r = .error e) ∧ t = w) ∨
      ∃ schedule, parseRegistration lib given = .ok schedule ∧
        r = .ok (registeredCron lib schedule w.clock given) ∧
        t = w.put .cron given.name (registeredCron lib schedule w.clock given)) w := by
  unfold registerCron
  split
  · rename_i e _
    exact wp_pure.mpr (.inl ⟨⟨e, rfl⟩, rfl⟩)
  · rename_i schedule parsed
    simp only [CronStore.register, bind_eq, pure_eq, wp_bind, wp_timeNow, wp_put, wp_pure]
    exact .inr ⟨schedule, parsed, rfl, rfl⟩

theorem deleteCron_removes (name : String) : serves.wp (deleteCron name)
    (fun r t => ((∃ e, r = .error e) ∧ t = w) ∨
      ((∃ entry, r = .ok entry) ∧ t = w.delete .cron name)) w := by
  simp only [deleteCron, CronStore.get, CronStore.delete, bind_eq, wp_bind, wp_get .cron]
  cases w.lookup .cron name with
  | error e => exact wp_pure.mpr (wp_pure.mpr (.inl ⟨⟨_, rfl⟩, rfl⟩))
  | ok entry =>
    exact wp_pure.mpr (wp_bind.mpr (wp_delete.mpr (wp_pure.mpr (.inr ⟨⟨_, rfl⟩, rfl⟩))))

/-- What an operation that is no pass does to the entries: nothing, or it
registers one, or it deletes one. -/
theorem cron_call_cases {call : Call} {reply : Reply} (other : call ≠ .fireCronJobs)
    (exec : serves.Exec (call.program lib) (w.accept call) reply t) :
    (cronEvents w.clock call reply = [] ∧ t.kv .cron = w.kv .cron) ∨
    (∃ given schedule, parseRegistration lib given = .ok schedule ∧
      cronEvents w.clock call reply =
        [.registered given (registeredCron lib schedule w.clock given) w.clock] ∧
      t = w.put .cron given.name (registeredCron lib schedule w.clock given)) ∨
    (∃ name, cronEvents w.clock call reply = [.deleted name] ∧ t = w.delete .cron name) := by
  have quiet (out : BucketName.cron ∉ call.buckets) : t.kv .cron = w.kv .cron :=
    kv_program (w := w.accept call) lib out exec
  cases call with
  | registerCron given =>
    obtain ⟨r, rfl, ends⟩ := exec_reply exec
    rcases registerCron_stores (w := w) given r t ends with
      ⟨⟨e, rfl⟩, rfl⟩ | ⟨schedule, parsed, rfl, same⟩
    · exact .inl ⟨rfl, rfl⟩
    · exact .inr (.inl ⟨given, schedule, parsed, rfl, same⟩)
  | deleteCron name =>
    obtain ⟨r, rfl, ends⟩ := exec_reply exec
    rcases deleteCron_removes (w := w) name r t ends with
      ⟨⟨e, rfl⟩, rfl⟩ | ⟨⟨entry, rfl⟩, same⟩
    · exact .inl ⟨rfl, rfl⟩
    · exact .inr (.inr ⟨name, rfl, same⟩)
  | fireCronJobs => exact absurd rfl other
  | push job =>
    refine .inl ⟨rfl, quiet ?_⟩
    cases policy : job.unique <;> simp [Call.buckets, policy]
  | _ => exact .inl ⟨rfl, quiet (by simp [Call.buckets])⟩

/-- An invariant of the entries and the events: one rule for each way an entry changes. -/
theorem Chronicle.cron_holds {I : List CronEvent → World → Prop} (reachable : Reachable lib w)
    (chronicle : Chronicle lib kind w es t) (start : I [] w)
    (tick : ∀ es m now, m.clock ≤ now → I es m → I es { m with clock := now })
    (quiet : ∀ es m t, t.kv .cron = m.kv .cron → t.clock = m.clock → I es m → I es t)
    (register : ∀ es m given schedule, parseRegistration lib given = .ok schedule → I es m →
      I (es ++ [.registered given (registeredCron lib schedule m.clock given) m.clock])
        (m.put .cron given.name (registeredCron lib schedule m.clock given)))
    (delete : ∀ es m name, I es m → I (es ++ [.deleted name]) (m.delete .cron name))
    (turn : ∀ cronJob es m, Sound m → m.value .cron cronJob.name = some cronJob → I es m →
      serves.wp (notedCron lib m.clock cronJob) (fun more t => I (es ++ more) t) m) : I es t := by
  refine chronicle.holds reachable start tick
    (fun es m t call reply reachable _ other fresh exec holds => ?_) turn
  rcases cron_call_cases other exec with
    ⟨none, kv⟩ | ⟨given, schedule, parsed, new, rfl⟩ | ⟨name, new, rfl⟩
  · rw [none, List.append_nil]
    exact quiet es m t kv (call_evolves reachable.sound fresh _ _ exec).clock holds
  · rw [new]
    exact register es m given schedule parsed holds
  · rw [new]
    exact delete es m name holds

end Run

/-! ## Runs that compute -/

/-- A report every minute. -/
def minutely : CronJob := { name := "report", expression := "* * * * *" }

/-- Go on with a run on the sample externals, and with its events. -/
def noteCue (noted : List CronEvent × World) : Cue → List CronEvent × World
  | .call .fireCronJobs =>
      match execute (notedPass sample) noted.2 with
      | some (pass, t) => (noted.1 ++ pass.2, t)
      | none => noted
  | .call operation =>
      if operation.clientIDs = [] then
        match execute (operation.program sample) (noted.2.accept operation) with
        | some (reply, t) => (noted.1 ++ cronEvents noted.2.clock operation reply, t)
        | none => noted
      else noted
  | .wait seconds =>
      if noted.2.clock ≤ Sample.instant seconds then (noted.1, later noted.2 seconds) else noted

/-- A run on the sample externals, with its events. -/
def noted (w : World) (cues : List Cue) : List CronEvent × World := cues.foldl noteCue ([], w)

theorem chronicle_noteCue {kind : Call → Prop} {noted : List CronEvent × World} {cue : Cue}
    (meets : cue.Meets kind) (chronicle : Chronicle sample kind w noted.1 noted.2) :
    Chronicle sample kind w (noteCue noted cue).1 (noteCue noted cue).2 := by
  unfold noteCue
  split
  · split
    · rename_i run
      exact chronicle.pass meets (exec_of_execute run)
    · exact chronicle
  · rename_i operation other
    split
    · rename_i none
      split
      · rename_i run
        exact chronicle.call meets (fun same => other same) (fresh_of_no_ids none)
          (exec_of_execute run)
      · exact chronicle
    · exact chronicle
  · split
    · rename_i passes
      exact chronicle.tick passes
    · exact chronicle

theorem chronicle_noted {kind : Call → Prop} (w : World) (cues : List Cue)
    (meets : ∀ cue ∈ cues, cue.Meets kind) :
    Chronicle sample kind w (noted w cues).1 (noted w cues).2 := by
  induction cues using List.reverseRecOn with
  | nil => exact .nil
  | append_singleton front cue ih =>
    rw [noted, List.foldl_concat]
    exact chronicle_noteCue (meets cue (by simp)) (ih fun other mem => meets other (by simp [mem]))

theorem meets_any (cue : Cue) : cue.Meets fun _ => True := by
  cases cue <;> trivial

end OjsNats.Lifecycle
