import OjsNats.Nats.Enqueue

/-!
# Cron jobs

`cron.go`: registration and the pass that fires the due entries.
-/

namespace OjsNats.Nats

open Core Effect

variable (lib : Externals)

/-- The expression of a cron entry, or its schedule if it has none. -/
def cronExpr (cronJob : CronJob) : String :=
  if cronJob.expression = "" then cronJob.schedule else cronJob.expression

/-- The parse of `RegisterCron`; an expression that already names a time zone
is parsed as it is. -/
def parseRegistration (cronJob : CronJob) : Result (Int → Int) :=
  let expr := cronExpr cronJob
  let invalid := BackendError.invalidRequest ("Invalid cron expression: " ++ expr)
    [("expression", expr)]
  let plain : Result (Int → Int) :=
    match lib.parseCron expr with
    | some schedule => .ok schedule
    | none => .error invalid
  if cronJob.timezone = "" then plain
  else
    match lib.loadLocation cronJob.timezone with
    | none => .error (.invalidRequest ("Invalid timezone: " ++ cronJob.timezone)
        [("timezone", cronJob.timezone)])
    | some loc =>
        match lib.parseCron ("CRON_TZ=" ++ loc ++ " " ++ expr) with
        | some schedule => .ok schedule
        | none => plain

def registeredCron (schedule : Int → Int) (now : Int) (cronJob : CronJob) : CronJob :=
  { cronJob with
    createdAt := lib.formatTime now
    nextRunAt := lib.formatTime (schedule now)
    schedule := cronExpr cronJob
    expression := cronExpr cronJob
    queue := if cronJob.queue = "" then "default" else cronJob.queue
    overlapPolicy := if cronJob.overlapPolicy = "" then "allow" else cronJob.overlapPolicy
    enabled := true }

def registerCron (cronJob : CronJob) : Prog (Result CronJob) := do
  match parseRegistration lib cronJob with
  | .error e => return .error e
  | .ok schedule =>
      let now ← timeNow
      let cronJob := registeredCron lib schedule now cronJob
      match ← CronStore.register cronJob with
      | .error e => return .error (.wrapped "register cron" (.call e))
      | .ok _ => return .ok cronJob

def deleteCron (name : String) : Prog (Result CronJob) := do
  match ← CronStore.get name with
  | .error _ => return .error (.notFound "Cron job" name)
  | .ok cronJob =>
      match ← CronStore.delete name with
      | .error e => return .error (.wrapped "delete cron" (.call e))
      | .ok () => return .ok cronJob

/-! ## Firing -/

def cronInstanceKey (cronName : String) : String := "cron-instance." ++ cronName

def isCronInstanceRunning (cronName : String) : Prog Bool := do
  match ← Store.get .stats (cronInstanceKey cronName) with
  | .error _ => return false
  | .ok (jobID, _) =>
      match ← getJobState jobID with
      | .error _ => return false
      | .ok job => return !lib.isTerminalState job.state

def setCronInstance (cronName jobID : String) : Prog Unit := do
  let _ ← Store.put .stats (cronInstanceKey cronName) jobID
  return ()

def updateCronNextRun (cronJob : CronJob) (now : Int) : Prog Unit := do
  match lib.parseCron (cronExpr cronJob) with
  | none => return ()
  | some schedule =>
      let _ ← CronStore.register { cronJob with
        lastRunAt := lib.formatTime now
        nextRunAt := lib.formatTime (schedule now) }
      return ()

/-- The job a cron entry pushes, with a visibility timeout of ten minutes. -/
def cronFiredJob (cronJob : CronJob) : Job :=
  let queue :=
    match cronJob.jobTemplate with
    | some template =>
        match template.options with
        | some options => options.queue
        | none => ""
    | none => ""
  { type := (cronJob.jobTemplate.map CronJobTemplate.type).getD ""
    args := cronJob.jobTemplate.bind CronJobTemplate.args
    queue := if queue = "" then "default" else queue
    visibilityTimeoutMs := some 600000 }

/-- Push a due entry's job and move the entry on. -/
def fireDue (cronJob : CronJob) (now : Int) : Prog Unit := do
  match ← push lib (cronFiredJob cronJob) with
  | .error _ => return ()
  | .ok created =>
      if cronJob.overlapPolicy = "skip" then
        setCronInstance cronJob.name created.id
        updateCronNextRun lib cronJob now
      else
        updateCronNextRun lib cronJob now

/-- The body of `FireCronJobs` for one entry. -/
def fireCron (now : Int) (cronJob : CronJob) : Prog Unit := do
  if cronJob.nextRunAt = "" then
    return ()
  else
    match lib.parseTime cronJob.nextRunAt with
    | none => return ()
    | some nextRun =>
        if now < nextRun then
          return ()
        else if cronJob.overlapPolicy = "skip" then
          if ← isCronInstanceRunning lib cronJob.name then
            updateCronNextRun lib cronJob now
          else
            fireDue lib cronJob now
        else
          fireDue lib cronJob now

def fireCronJobs : Prog (Result Unit) := do
  match ← CronStore.list with
  | .error e => return .error (.call e)
  | .ok crons =>
      let now ← timeNow
      Program.forEach crons () fun cronJob _ => fireCron lib now cronJob
      return .ok ()

end OjsNats.Nats
