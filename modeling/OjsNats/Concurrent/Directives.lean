import OjsNats.Concurrent.Schedule
import OjsNats.Lifecycle.Absence

/-!
# Heartbeats and directives

A heartbeat reads the record of its worker and overwrites it later, with the
directive it has read.  A directive set in between is lost.  Any call may fail
here.
-/

namespace OjsNats.Nats

open Core Effect

/-- The directive in a worker's record; a worker without one continues. -/
def directiveIn (record : Option WorkerState) : String :=
  match record.bind WorkerState.directive with
  | some d => if d = "" then "continue" else d
  | none => "continue"

/-- The record that a heartbeat writes. -/
def workerInfo (lib : Externals) (now : Int) (activeJobs : List String) (directive : String) :
    WorkerState where
  lastHeartbeat := some (lib.formatTime now)
  activeJobs := some activeJobs.length
  directive := if directive = "continue" then none else some directive

end OjsNats.Nats

namespace OjsNats.Concurrent

open Core Nats Lifecycle Effect

/-! ## What the two operations may call -/

section Rules

open Protocol Program

variable {lib : Externals} {worker : String} {call : Call} {g : Beat}

end Rules

/-! ## The record -/

/-- The directive that an action is to give the worker. -/
def gives? (worker : String) : Action Call Op Ans → Option String
  | .start (.setWorkerState k d) => if k = worker then some d else none
  | _ => none

/-- Only heartbeats run and one directive is given to the worker. -/
def Directs (worker d : String) (act : Action Call Op Ans) : Prop :=
  Among [.heartbeat, .setWorkerState] act ∧ ∀ x ∈ gives? worker act, x = d

instance (worker d : String) (act : Action Call Op Ans) : Decidable (Directs worker d act) :=
  inferInstanceAs (Decidable (_ ∧ _))

/-- The record of the worker that a heartbeat writes. -/
def beats? (worker : String) : Action Call Op Ans → Option WorkerState
  | .call _ (.heartbeat _ _ _) (.put .workers k v) _ => if k = worker then some v else none
  | _ => none

/-- A heartbeat that overwrites a record of the worker with the directive writes it again. -/
def KeepsDirective (worker d : String) (c : Server) (act : Action Call Op Ans) : Prop :=
  ∀ v ∈ beats? worker act,
    directiveIn (c.state.value .workers worker) = d → directiveIn (some v) = d

instance (worker d : String) (c : Server) (act : Action Call Op Ans) :
    Decidable (KeepsDirective worker d c act) :=
  inferInstanceAs (Decidable (∀ v ∈ beats? worker act, _ → _))

/-- The actions of heartbeats that keep the directive, and of setting one directive. -/
def Obeys (worker d : String) (c : Server) (act : Action Call Op Ans) : Prop :=
  Directs worker d act ∧ KeepsDirective worker d c act

instance (worker d : String) (c : Server) (act : Action Call Op Ans) :
    Decidable (Obeys worker d c act) := inferInstanceAs (Decidable (_ ∧ _))

section Record

variable {lib : Externals} {worker d : String} {call : Call} {g : Beat}

end Record

/-! ## Runs -/

/-- A worker has been told to go quiet, and sends a heartbeat later. -/
def told : Server := played (Obeys "worker-1" "quiet")
  [.start (.setWorkerState "worker-1" "quiet"), .calls 0 5] (idle (World.start (Sample.instant 0)))

end OjsNats.Concurrent
