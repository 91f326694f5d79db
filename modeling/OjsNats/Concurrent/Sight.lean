import OjsNats.Concurrent.Server
import OjsNats.Lifecycle.Membership

/-!
# What an operation knows of workflows

A workflow is created, advanced and cancelled by several calls, with reads of its record
and of its jobs in between.  The sight of a running operation is what it has read and
written of them; the rules say which calls it may still make.
-/

namespace OjsNats.Concurrent

open Core Nats Lifecycle Effect Protocol

/-- What a push leaves behind: the record of the new job, and the message for its queue. -/
inductive Note where
  | stored (record : JobState)
  | announced (subject jobID : String)

/-- What a call notes of new jobs. -/
def pushes? : (op : Op) → Ans op → Option Note
  | .put .jobs _ v, .ok _ => if v.state = .available then some (.stored v) else none
  | .publish subject k, .ok _ => some (.announced subject k)
  | _, _ => none

structure Sight where
  /-- The job's record that the operation read last, under its id. -/
  seen : Option (String × JobState) := none
  /-- The workflow's record as the operation read or wrote it last. -/
  copy : Option (String × WorkflowState) := none
  /-- The id that the operation was given last and has stored no job under. -/
  minted : Option String := none
  /-- The first id that it was given. -/
  named : Option String := none
  /-- Whether it has written the record of a job. -/
  settled : Bool := false
  /-- The jobs whose records it has written. -/
  stored : List String := []
  /-- How often it has read and written the record of a workflow. -/
  reads : Nat := 0
  writes : Nat := 0
  /-- The jobs that it found over or missing, or that it wrote. -/
  visited : List String := []
  output : List Note := []
  /-- Whether its job turned out to have no workflow. -/
  unowned : Bool := false
  /-- The workflow that turned out to be over or missing. -/
  refused : Option String := none

namespace Sight

variable (g : Sight)

def find (lib : Externals) (k : String) (rec : JobState) : Sight :=
  { g with
    seen := some (k, rec)
    visited := if lib.isTerminalState rec.state then k :: g.visited else g.visited
    unowned := g.unowned || (g.settled && decide (rec.workflowID = "")) }

def miss (k : String) : Sight :=
  { g with visited := k :: g.visited, unowned := g.unowned || g.settled }

def store (k : String) (v : JobState) : Sight :=
  { g with
    minted := none
    settled := true
    stored := k :: g.stored
    visited := k :: g.visited
    output := g.output ++ if v.state = .available then [.stored v] else [] }

def look (k : String) (r : WorkflowState) : Sight :=
  { g with
    copy := some (k, r)
    reads := g.reads + 1
    refused := if r.state = "running" then g.refused else some k }

def overlook (k : String) : Sight := { g with refused := some k }

def write (k : String) (v : WorkflowState) : Sight :=
  { g with copy := some (k, v), writes := g.writes + 1 }

def mint (id : String) : Sight := { g with minted := some id, named := g.named.or (some id) }

def tell (subject k : String) : Sight := { g with output := g.output ++ [.announced subject k] }

def next (lib : Externals) : (op : Op) → Ans op → Sight
  | .newUUIDv7, id => g.mint id
  | .get .jobs k, .ok (rec, _) => g.find lib k rec
  | .get .jobs k, .error _ => g.miss k
  | .put .jobs k v, .ok _ => g.store k v
  | .get .workflows k, .ok (r, _) => g.look k r
  | .get .workflows k, .error _ => g.overlook k
  | .put .workflows k v, .ok _ => g.write k v
  | .publish subject k, .ok _ => g.tell subject k
  | _, _ => g

end Sight

/-! ## The rules -/

/-- The job whose outcome is reported. -/
def reportedJob : Call → Option String
  | .ack k _ | .nack k _ _ => some k
  | _ => none

/-- The workflow and the expiry of a job are those it was stored with. -/
def Akin (rec v : JobState) : Prop := v.workflowID = rec.workflowID ∧ v.expiresAt = rec.expiresAt

/-- What a call may make of a record that it has read. -/
def MayRevise (rec v : JobState) : Call → Prop
  | .ack _ _ => rec.state = .active ∧ v.state = .completed
  | .nack _ _ _ => rec.state = .active
  | .fetch _ _ _ _ => rec.state = .available ∧ v.state = .active ∨
      rec.expiresAt ≠ "" ∧ v.state = .discarded
  | .cancelWorkflow _ => v.state = .cancelled
  | _ => False

/-- A new version of the record that was read last; a report writes one, of its own job. -/
def MayRewrite (call : Call) (g : Sight) (k : String) (v : JobState) : Prop :=
  ∃ rec, g.seen = some (k, rec) ∧ Akin rec v ∧ MayRevise rec v call ∧
    ∀ j, reportedJob call = some j → k = j ∧ g.settled = false ∧ g.writes = 0

/-- A job of the workflow that is being created. -/
structure MayFound (call : Call) (g : Sight) (v : JobState) : Prop where
  creates : call.operation = .createWorkflow
  named : g.named = some v.workflowID
  once : g.writes = 1
  running : ∃ r, g.copy = some (v.workflowID, r) ∧ r.state = "running"

/-- The next job of a chain that runs, or a callback of a workflow that is over. -/
def MaySpawn (call : Call) (g : Sight) (v : JobState) : Prop :=
  (reportedJob call).isSome ∧ ∃ id r, g.copy = some (id, r) ∧
    (v.workflowID = id ∧ r.state = "running" ∧ r.type = "chain" ∨
      v.workflowID = "" ∧ r.state ≠ "running")

def MayRecord (call : Call) (g : Sight) (k : String) (v : JobState) : Prop :=
  v.id = k ∧ (MayRewrite call g k v ∨
    g.minted = some k ∧ v.state = .available ∧ v.expiresAt = "" ∧
      (MayFound call g v ∨ MaySpawn call g v))

/-- A report reads the record of its job's workflow once, a cancellation twice. -/
def MayLook (g : Sight) (k : String) : Call → Prop
  | .ack j _ | .nack j _ _ => g.writes = 0 ∧ ∃ rec, g.seen = some (j, rec) ∧ rec.workflowID = k
  | .cancelWorkflow id => k = id ∧ g.reads < 2 ∧ g.writes = 0 ∧ g.visited = []
  | _ => False

/-- The record is of the same kind, for as many jobs and with the same callbacks. -/
structure Kindred (r v : WorkflowState) : Prop where
  type : v.type = r.type
  total : v.total = r.total
  callbacks : v.callbacks = r.callbacks

/-- How a chain goes on, with the jobs that the operation has stored. -/
structure Continues (g : Sight) (r v : WorkflowState) : Prop extends Kindred r v where
  uncancelled : v.state ≠ "cancelled"
  listed : ∀ j ∈ v.jobIDs, j ∈ r.jobIDs ∨ j ∈ g.stored

/-- Whether all jobs are reported. -/
def Full (r : WorkflowState) : Prop := r.total ≤ r.completed + r.failed

/-- How a report takes a workflow on. -/
def MayFurther (lib : Externals) (failed : Bool) (g : Sight) (r v : WorkflowState) : Prop :=
  (r.type = "chain" ∧ Continues g r v) ∨
  (g.writes = 0 ∧ g.output = [] ∧ ∃ stepIdx result, v = countedWorkflow r stepIdx result failed) ∨
  (g.writes ≠ 0 ∧ Full r ∧ ∃ now, v =
    finishedWorkflow lib r (if 0 < r.failed then "failed" else "completed") now)

theorem kindred_counted (r : WorkflowState) (stepIdx : Int) (result : Option RawMessage)
    (failed : Bool) : Kindred r (countedWorkflow r stepIdx result failed) := by
  cases result <;> cases failed <;> exact ⟨rfl, rfl, rfl⟩

def MayWrite (lib : Externals) (g : Sight) (k : String) (v : WorkflowState) : Call → Prop
  | .createWorkflow req => g.named = some k ∧
      ((g.writes = 0 ∧ g.copy = none ∧
          ∃ now, v = newWorkflowState lib k req (requestedJobs req) now) ∨
        (g.writes = 1 ∧ ∃ r ids, g.copy = some (k, r) ∧ v = { r with jobIDs := ids } ∧
          ∀ j ∈ ids, j ∈ g.stored))
  | .ack _ _ => ∃ r, g.copy = some (k, r) ∧ r.state = "running" ∧ MayFurther lib false g r v
  | .nack _ _ _ => ∃ r, g.copy = some (k, r) ∧ r.state = "running" ∧ MayFurther lib true g r v
  | .cancelWorkflow id => k = id ∧ g.reads = 2 ∧ g.writes = 0 ∧ v.state = "cancelled" ∧
      ∃ r, g.copy = some (k, r) ∧ v.jobIDs = r.jobIDs ∧ ∀ j ∈ r.jobIDs, j ∈ g.visited
  | _ => False

/-- A report that has advanced a workflow announces new jobs only. -/
def MayTell (g : Sight) : Call → Prop
  | .ack _ _ | .nack _ _ _ =>
      g.writes = 0 ∨ ∃ id r, g.copy = some (id, r) ∧ (r.type = "chain" ∨ r.state ≠ "running")
  | _ => True

section Rules

variable (lib : Externals) (call : Call)

/-- What one operation does to workflows and their jobs, when no call fails. -/
def conduct : Protocol Op Ans Sight where
  allows g
    | .put .jobs k v => MayRecord call g k v
    | .get .jobs k => ∀ j, reportedJob call = some j → k = j
    | .get .workflows k => MayLook g k call
    | .put .workflows k v => MayWrite lib g k v call
    | .publish _ _ => MayTell g call
    | .create b _ _ | .update b _ _ _ | .delete b _ => b ≠ .jobs ∧ b ≠ .workflows
    | _ => True
  admits g
    | .get .jobs k, .ok (rec, _) => rec.id = k
    | .get .workflows k, .error _ => ∀ r, g.copy ≠ some (k, r)
    | .put _ _ _, .error _ | .delete _ _, .error _ | .msgAck _, .error _
    | .publish _ _, .error _ => False
    | _, _ => True
  next g := g.next lib

/-- The calls that have to do with neither workflows nor jobs. -/
def Aside : Op → Prop
  | .get b _ | .put b _ _ | .create b _ _ | .update b _ _ _ | .delete b _ =>
      b ≠ .jobs ∧ b ≠ .workflows
  | .newUUIDv7 | .publish _ _ => False
  | _ => True

end Rules

/-! ## What a call does -/

section Happens

variable {lib : Externals} {call : Call} {g : Sight} {w w' : World}

/-- A served call that the rules allow: what it does to the workflows and jobs, and what the
operation sees of it. -/
inductive Happens (lib : Externals) (call : Call) (g : Sight) (w : World) :
    (op : Op) → Ans op → World → Sight → Prop
  | aside {op : Op} {r : Ans op} {w' : World} : Aside op →
      (∀ k, w'.value .jobs k = w.value .jobs k) →
      (∀ k, w'.value .workflows k = w.value .workflows k) → w'.used = w.used →
      Happens lib call g w op r w' g
  | mint {id : String} : id ≠ "" → id ∉ w.used →
      Happens lib call g w .newUUIDv7 id { w with used := id :: w.used } (g.mint id)
  | find {k : String} {rec : JobState} {rev : Nat} : (∀ j, reportedJob call = some j → k = j) →
      w.value .jobs k = some rec →
      Happens lib call g w (.get .jobs k) (.ok (rec, rev)) w (g.find lib k rec)
  | miss {k : String} {e : CallError} : (∀ j, reportedJob call = some j → k = j) →
      w.value .jobs k = none →
      Happens lib call g w (.get .jobs k) (.error e) w (g.miss k)
  | store {k : String} {v : JobState} {rev : Nat} : MayRecord call g k v →
      Happens lib call g w (.put .jobs k v) (.ok rev) (w.put .jobs k v) (g.store k v)
  | look {k : String} {r : WorkflowState} {rev : Nat} : MayLook g k call →
      w.value .workflows k = some r →
      Happens lib call g w (.get .workflows k) (.ok (r, rev)) w (g.look k r)
  | overlook {k : String} {e : CallError} : MayLook g k call → w.value .workflows k = none →
      Happens lib call g w (.get .workflows k) (.error e) w (g.overlook k)
  | write {k : String} {v : WorkflowState} {rev : Nat} : MayWrite lib g k v call →
      Happens lib call g w (.put .workflows k v) (.ok rev) (w.put .workflows k v) (g.write k v)
  | tell {subject k : String} : MayTell g call →
      Happens lib call g w (.publish subject k) (.ok ()) (w.publish subject k) (g.tell subject k)

theorem aside_put {b : BucketName} {k : String} {v : b.Value} (jobs : b ≠ .jobs)
    (workflows : b ≠ .workflows) : (∀ j, (w.put b k v).value .jobs j = w.value .jobs j) ∧
      ∀ id, (w.put b k v).value .workflows id = w.value .workflows id :=
  ⟨fun _ => value_put_other fun same => jobs same.1.symm,
    fun _ => value_put_other fun same => workflows same.1.symm⟩

theorem happens_of_serves {op : Op} {r : Ans op} (allowed : (conduct lib call).allows g op)
    (step : w.Serves op r w') : Happens lib call g w op r w' ((conduct lib call).next g op r) := by
  have same {b : BucketName} (jobs : b ≠ .jobs) (workflows : b ≠ .workflows) (k : String)
      (v : b.Value) {op : Op} (r : Ans op) (beside : Aside op)
      (sees : (conduct lib call).next g op r = g) :
      Happens lib call g w op r (w.put b k v) ((conduct lib call).next g op r) := by
    rw [sees]
    exact .aside beside (aside_put jobs workflows).1 (aside_put jobs workflows).2 rfl
  cases op with
  | get b k =>
    obtain ⟨found, rfl⟩ := step
    by_cases jobs : b = .jobs
    · subst jobs
      cases r with
      | ok entry => exact .find allowed (World.lookup_value _ found.symm)
      | error e => exact .miss allowed (World.lookup_error _ found.symm)
    · by_cases workflows : b = .workflows
      · subst workflows
        cases r with
        | ok entry => exact .look allowed (World.lookup_value _ found.symm)
        | error e => exact .overlook allowed (World.lookup_error _ found.symm)
      · have sees : (conduct lib call).next g (.get b k) r = g := by
          cases b <;> first | rfl | exact absurd rfl jobs | exact absurd rfl workflows
        rw [sees]
        exact .aside ⟨jobs, workflows⟩ (fun _ => rfl) (fun _ => rfl) rfl
  | put b k v =>
    obtain ⟨rfl, rfl⟩ := step
    by_cases jobs : b = .jobs
    · subst jobs
      exact .store allowed
    · by_cases workflows : b = .workflows
      · subst workflows
        exact .write allowed
      · refine same jobs workflows k v _ ⟨jobs, workflows⟩ ?_
        cases b <;> first | rfl | exact absurd rfl jobs | exact absurd rfl workflows
  | create b k v =>
    obtain ⟨jobs, workflows⟩ := allowed
    simp only [World.Serves] at step
    split at step <;> obtain ⟨rfl, rfl⟩ := step
    · exact .aside ⟨jobs, workflows⟩ (fun _ => rfl) (fun _ => rfl) rfl
    · exact same jobs workflows k v _ ⟨jobs, workflows⟩ rfl
  | update b k v rev =>
    obtain ⟨jobs, workflows⟩ := allowed
    simp only [World.Serves] at step
    split at step <;> obtain ⟨rfl, rfl⟩ := step
    · exact same jobs workflows k v _ ⟨jobs, workflows⟩ rfl
    · exact .aside ⟨jobs, workflows⟩ (fun _ => rfl) (fun _ => rfl) rfl
  | delete b k =>
    obtain ⟨jobs, workflows⟩ := allowed
    obtain ⟨rfl, rfl⟩ := step
    exact .aside ⟨jobs, workflows⟩ (fun _ => value_delete_other fun same => jobs same.1.symm)
      (fun _ => value_delete_other fun same => workflows same.1.symm) rfl
  | newUUIDv7 =>
    obtain ⟨nonempty, unused, rfl⟩ := step
    exact .mint nonempty unused
  | publish subject k =>
    obtain ⟨rfl, rfl⟩ := step
    exact .tell allowed
  | keys b =>
    obtain ⟨rfl, -⟩ := step
    exact .aside trivial (fun _ => rfl) (fun _ => rfl) rfl
  | consumerFetch queue count =>
    obtain ⟨n, -, -, rfl⟩ := step
    exact .aside trivial (fun _ => rfl) (fun _ => rfl) rfl
  | consumerStore queue | inflightStore k m | regexStore k re =>
    obtain rfl := step
    exact .aside trivial (fun _ => rfl) (fun _ => rfl) rfl
  | inflightLoadAndDelete k =>
    obtain ⟨-, rfl⟩ := step
    exact .aside trivial (fun _ => rfl) (fun _ => rfl) rfl
  | now | calculateBackoff | consumerLoad | ensureConsumer | inflightLoad | msgAck | msgInProgress
  | regexLoad =>
    obtain ⟨-, rfl⟩ := step
    exact .aside trivial (fun _ => rfl) (fun _ => rfl) rfl

end Happens

end OjsNats.Concurrent
