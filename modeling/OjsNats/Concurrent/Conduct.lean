import OjsNats.Concurrent.Sight
import OjsNats.Concurrent.Reporting
import OjsNats.Faults.Reporting

/-!
# Operations on workflows keep the rules

Creating and cancelling a workflow, reporting on a job and fetching make only the calls
that the rules allow, whatever the calls are answered.
-/

namespace OjsNats.Concurrent

open Core Nats Lifecycle Effect Protocol Program

/-! ## Callbacks -/

/-- What the push of a job leaves behind. -/
def brings (v : JobState) : List Note := [.stored v, .announced (queueJobsSubject v.queue) v.id]

/-- The job runs the callback. -/
structure Answers (v : JobState) (cb : WorkflowCallback) : Prop where
  type : v.type = cb.type
  args : v.args = cb.args
  queue : v.queue = optionsQueue cb.options
  free : v.workflowID = ""

/-- The callbacks, each pushed once, in order. -/
def Fires (cbs : List WorkflowCallback) (output : List Note) : Prop :=
  ∃ jobs : List JobState, output = jobs.flatMap brings ∧ List.Forall₂ Answers jobs cbs

/-- The callbacks of a batch that is over. -/
def due (r : WorkflowState) : List WorkflowCallback :=
  if r.type = "batch" then
    match r.callbacks with
    | none => []
    | some callbacks => callbacks.onComplete.toList ++
        if 0 < r.failed then callbacks.onFailure.toList else callbacks.onSuccess.toList
  else []

theorem Fires.nil : Fires [] [] := ⟨[], rfl, .nil⟩

theorem Fires.append {cbs cbs' : List WorkflowCallback} {output output' : List Note}
    (h : Fires cbs output) (h' : Fires cbs' output') : Fires (cbs ++ cbs') (output ++ output') := by
  obtain ⟨jobs, rfl, answers⟩ := h
  obtain ⟨jobs', rfl, answers'⟩ := h'
  exact ⟨jobs ++ jobs', by rw [List.flatMap_append], List.rel_append answers answers'⟩

/-! ## What an operation has done when it replies -/

/-- A report has advanced the workflow, unless it was told not to: the workflow is over with
its callbacks, or reports on other jobs are still to come. -/
def HasCounted (g : Sight) : Prop :=
  g.unowned = true ∨ (g.writes = 0 ∧ g.refused.isSome = true) ∨
    ∃ id r, g.copy = some (id, r) ∧ g.writes ≠ 0 ∧
    (r.type = "chain" ∨ (r.state = "running" ∧ ¬ Full r) ∨
      (r.state ≠ "running" ∧ Fires (due r) g.output))

theorem HasCounted.find {g : Sight} (h : HasCounted g) (lib : Externals) (k : String)
    (rec : JobState) : HasCounted (g.find lib k rec) := by
  rcases h with unowned | counted
  · exact .inl (by simp [Sight.find, unowned])
  · exact .inr counted

theorem HasCounted.miss {g : Sight} (h : HasCounted g) (k : String) : HasCounted (g.miss k) := by
  rcases h with unowned | counted
  · exact .inl (by simp [Sight.miss, unowned])
  · exact .inr counted

/-- Whether a report says that the job failed, if it ended the job. -/
def ends : Call → Reply → Option Bool
  | .ack _ _, .acked (.ok _) => some false
  | .nack _ _ _, .nacked (.ok response) =>
      if response.state = .discarded then some true else none
  | _, _ => none

/-- A report that has ended a job has been counted, any other has written no workflow. -/
def Reported (outcome : Option Bool) (g : Sight) : Prop :=
  if outcome.isSome then HasCounted g else g.writes = 0

/-- What an operation has done when it replies. -/
def Conducted : Call → Reply → Sight → Prop
  | .createWorkflow _, .workflow (.ok wf), g => g.named = some wf.id ∧ g.writes = 2
  | .cancelWorkflow _, .workflow (.ok _), g => g.writes = 1
  | .ack k result, reply, g => Reported (ends (.ack k result) reply) g
  | .nack k jobErr requeue, reply, g => Reported (ends (.nack k jobErr requeue) reply) g
  | _, _, _ => True

namespace Conduct

variable {lib : Externals} {call : Call} {g : Sight} {k : String}

/-! ## Single calls -/

theorem aside_silent {op : Op} (h : Aside op) : (conduct lib call).Silent op := by
  intro g
  cases op with
  | get b | put b =>
    obtain ⟨jobs, workflows⟩ := h
    cases b with
    | jobs => exact absurd rfl jobs
    | workflows => exact absurd rfl workflows
    | _ => exact ⟨trivial, fun _ => rfl⟩
  | create | update | delete => exact ⟨h, fun _ => rfl⟩
  | newUUIDv7 | publish => exact h.elim
  | _ => exact ⟨trivial, fun _ => rfl⟩

theorem aside_onlyOn {b : BucketName} (beside : b ≠ .jobs ∧ b ≠ .workflows) {op : Op}
    (h : OnlyOn b op) : Aside op := by
  cases op with
  | get | put | create | update =>
    obtain rfl := h
    exact beside
  | _ => exact h.elim

theorem aside_infallible {op : Op} (h : Faults.Infallible op) : Aside op := by
  cases op with
  | regexLoad | regexStore => trivial
  | _ => exact h.elim

section Calls

variable {α : Type}

theorem follows_aside {p : Prog α} {Q : α → Sight → Prop} (uses : p.Uses Aside) (h : ∀ a, Q a g) :
    (conduct lib call).Follows p g Q :=
  follows_silent (uses.mono fun _ => aside_silent) h

theorem follows_onlyOn {b : BucketName} {p : Prog α} {Q : α → Sight → Prop}
    (uses : p.Uses (OnlyOn b)) (beside : b ≠ .jobs ∧ b ≠ .workflows) (h : ∀ a, Q a g) :
    (conduct lib call).Follows p g Q :=
  follows_aside (uses.mono fun _ => aside_onlyOn beside) h

theorem follows_timeNow {Q : Int → Sight → Prop} (h : ∀ t, Q t g) :
    (conduct lib call).Follows timeNow g Q :=
  ⟨trivial, fun t _ => h t⟩

theorem follows_newUUIDv7 {Q : String → Sight → Prop} (h : ∀ id, Q id (g.mint id)) :
    (conduct lib call).Follows newUUIDv7 g Q :=
  ⟨trivial, fun id _ => h id⟩

theorem follows_getJobState {Q : Except CallError Job → Sight → Prop}
    (own : ∀ j, reportedJob call = some j → k = j)
    (found : ∀ rec, rec.id = k → Q (.ok (unmarshalJobState rec)) (g.find lib k rec))
    (missing : ∀ e, Q (.error e) (g.miss k)) :
    (conduct lib call).Follows (getJobState k) g Q := by
  apply follows_bind.mpr
  refine ⟨own, fun r admitted => ?_⟩
  cases r with
  | ok entry => exact found entry.1 admitted
  | error e => exact missing e

theorem follows_info {Q : Result Job → Sight → Prop}
    (own : ∀ j, reportedJob call = some j → k = j)
    (found : ∀ rec, rec.id = k → Q (.ok (unmarshalJobState rec)) (g.find lib k rec))
    (missing : Q (.error (.notFound "Job" k)) (g.miss k)) :
    (conduct lib call).Follows (info k) g Q :=
  follows_bind.mpr (follows_getJobState own found fun _ => missing)

theorem follows_putJobState {job : Job} {Q : Except CallError Nat → Sight → Prop}
    (stores : MayRecord call g job.id (marshalJobState job))
    (stored : ∀ n, Q (.ok n) (g.store job.id (marshalJobState job))) :
    (conduct lib call).Follows (putJobState job) g Q := by
  refine ⟨stores, fun r admitted => ?_⟩
  cases r with
  | ok n => exact stored n
  | error e => exact admitted.elim

theorem follows_put {b : BucketName} {v : b.Value} {Q : Except CallError Nat → Sight → Prop}
    (beside : b ≠ .jobs ∧ b ≠ .workflows) (h : ∀ n, Q (.ok n) g) :
    (conduct lib call).Follows (Store.put b k v) g Q := by
  obtain ⟨allowed, silent⟩ := (aside_silent beside : (conduct lib call).Silent (.put b k v)) g
  refine ⟨allowed, fun r admitted => ?_⟩
  rw [silent r]
  cases r with
  | ok n => exact h n
  | error e => exact admitted.elim

theorem follows_delete {b : BucketName} {Q : Except CallError Unit → Sight → Prop}
    (beside : b ≠ .jobs ∧ b ≠ .workflows) (h : Q (.ok ()) g) :
    (conduct lib call).Follows (Store.delete b k) g Q := by
  refine ⟨beside, fun r admitted => ?_⟩
  cases r with
  | ok u => exact h
  | error e => exact admitted.elim

theorem follows_ackMessage {Q : Except CallError Unit → Sight → Prop} (h : Q (.ok ()) g) :
    (conduct lib call).Follows (ackMessage k) g Q := by
  refine ⟨trivial, fun tracked _ => ?_⟩
  cases tracked with
  | none => exact h
  | some msg =>
    refine ⟨trivial, fun r admitted => ?_⟩
    cases r with
    | ok u => exact h
    | error e => exact admitted.elim

theorem follows_publishJob {queue : String} {Q : Result Unit → Sight → Prop}
    (tells : MayTell g call)
    (h : Q (.ok ()) (g.tell (queueJobsSubject queue) k)) :
    (conduct lib call).Follows (publishJob queue k) g Q := by
  apply follows_bind.mpr
  refine ⟨tells, fun r admitted => ?_⟩
  cases r with
  | ok u => exact h
  | error e => exact admitted.elim

theorem follows_putWorkflow {r : WorkflowState} {Q : Unit → Sight → Prop}
    (writes : MayWrite lib g k r call) (h : Q () (g.write k r)) :
    (conduct lib call).Follows (putWorkflow r k) g Q := by
  apply follows_bind.mpr
  refine ⟨writes, fun a admitted => ?_⟩
  cases a with
  | ok n => exact h
  | error e => exact admitted.elim

end Calls

/-! ## Push -/

/-- The record that a push stores for a job without an id. -/
structure Brought (job : Job) (id : String) (v : JobState) : Prop where
  id : v.id = id
  type : v.type = job.type
  args : v.args = job.args
  queue : v.queue = job.queue
  owner : v.workflowID = job.workflowID
  state : v.state = .available

/-- What the operation sees of its push. -/
def Sees (g : Sight) (job : Job) (created : Result Job) (g' : Sight) : Prop :=
  ∃ id v, Brought job id v ∧ (∃ job', created = .ok job' ∧ job'.id = id) ∧
    g' = ((g.mint id).store id v).tell (queueJobsSubject job.queue) id

theorem follows_push {job : Job} (unnamed : job.id = "") (free : job.unique = none)
    (prompt : job.scheduledAt = "") (lasting : job.expiresAt = "")
    (may : ∀ id v, v.workflowID = job.workflowID →
      MayFound call (g.mint id) v ∨ MaySpawn call (g.mint id) v)
    (tells : MayTell g call) :
    (conduct lib call).Follows (push lib job) g (Sees g job) := by
  apply follows_bind.mpr
  apply follows_timeNow
  intro now
  rw [if_pos unnamed]
  apply follows_bind.mpr
  apply follows_newUUIDv7
  intro id
  simp only [freshJob, free, Option.map_none]
  apply follows_bind.mpr
  refine follows_onlyOn (onlyOn_ensureQueue _) ⟨by decide, by decide⟩ fun _ => ?_
  apply follows_bind.mpr
  refine follows_onlyOn (onlyOn_storeRateLimit _) ⟨by decide, by decide⟩ fun _ => ?_
  simp only [isScheduledLater, prompt, ne_eq, not_true_eq_false, decide_false, Bool.false_and,
    Bool.false_eq_true, ↓reduceIte]
  apply follows_bind.mpr
  refine follows_putJobState ⟨rfl, .inr ⟨rfl, rfl, lasting, may id _ rfl⟩⟩ fun n => ?_
  apply follows_bind.mpr
  refine follows_publishJob ?_ ?_
  · cases call with
    | ack => exact tells
    | nack => exact tells
    | _ => trivial
  · exact ⟨id, _, ⟨rfl, rfl, rfl, rfl, rfl, rfl⟩, ⟨_, rfl, rfl⟩, rfl⟩

/-! ## Advancing a workflow -/

theorem workflowStepToJob_plain (step : WorkflowJobRequest) (workflowID : String) (i : Int) :
    (workflowStepToJob step workflowID i).workflowID = workflowID ∧
      (workflowStepToJob step workflowID i).scheduledAt = "" ∧
      (workflowStepToJob step workflowID i).expiresAt = "" := by
  unfold workflowStepToJob
  split
  · exact ⟨rfl, rfl, rfl⟩
  · split
    · exact ⟨rfl, rfl, rfl⟩
    · split <;> exact ⟨rfl, rfl, rfl⟩

@[simp] theorem countedWorkflow_state (r : WorkflowState) (stepIdx : Int)
    (result : Option RawMessage) (failed : Bool) :
    (countedWorkflow r stepIdx result failed).state = r.state := by
  cases result <;> cases failed <;> rfl

/-- The rules of a report on the job. -/
structure Advances (lib : Externals) (call : Call) (k : String) (failed : Bool) : Prop where
  reportedJob : reportedJob call = some k
  looks : ∀ g id, g.writes = 0 → (∃ rec, g.seen = some (k, rec) ∧ rec.workflowID = id) →
    MayLook g id call
  writes : ∀ g id r v, g.copy = some (id, r) → r.state = "running" →
    MayFurther lib failed g r v → MayWrite lib g id v call
  tells : ∀ g id r, g.copy = some (id, r) → r.type = "chain" ∨ r.state ≠ "running" → MayTell g call

theorem Advances.ack (k : String) (result : Option RawMessage) :
    Advances lib (.ack k result) k false where
  reportedJob := rfl
  looks _ _ unwritten seen := ⟨unwritten, seen⟩
  writes _ _ r _ copy running furthers := ⟨r, copy, running, furthers⟩
  tells _ id r copy closed := .inr ⟨id, r, copy, closed⟩

theorem Advances.nack (k : String) (jobErr : Option JobError) (requeue : Bool) :
    Advances lib (.nack k jobErr requeue) k true where
  reportedJob := rfl
  looks _ _ unwritten seen := ⟨unwritten, seen⟩
  writes _ _ r _ copy running furthers := ⟨r, copy, running, furthers⟩
  tells _ id r copy closed := .inr ⟨id, r, copy, closed⟩

/-- The operation holds the record of a chain that it has written. -/
def Chained (id : String) (g : Sight) : Prop :=
  ∃ r, g.copy = some (id, r) ∧ g.writes ≠ 0 ∧ r.type = "chain"

theorem Chained.counted {id : String} (h : Chained id g) : HasCounted g := by
  obtain ⟨r, copy, wrote, chain⟩ := h
  exact .inr (.inr ⟨id, r, copy, wrote, .inl chain⟩)

section Advance

variable {id : String} {failed : Bool} (rules : Advances lib call k failed)

include rules

/-- A report reads no other job. -/
theorem Advances.own (j : String) (same : Concurrent.reportedJob call = some j) : k = j := by
  rw [rules.reportedJob] at same
  exact Option.some.inj same

theorem follows_enqueueChainStep {r : WorkflowState} {i : Int} (copy : g.copy = some (id, r))
    (running : r.state = "running") (chain : r.type = "chain") (wrote : g.writes ≠ 0) :
    (conduct lib call).Follows (enqueueChainStep lib id r i) g (fun _ g' => Chained id g') := by
  have holds : Chained id g := ⟨r, copy, wrote, chain⟩
  unfold enqueueChainStep
  split
  · exact holds
  · split
    · exact holds
    · split
      · exact holds
      · rename_i step _
        obtain ⟨unnamed, free⟩ := workflowStepToJob_unnamed step id i
        obtain ⟨owner, prompt, lasting⟩ := workflowStepToJob_plain step id i
        apply follows_bind.mpr
        refine (follows_push ?_ ?_ ?_ ?_ (fun m v owned => .inr ⟨?_, id, r, copy, .inl ⟨?_,
          running, chain⟩⟩) (rules.tells g id r copy (.inl chain))).mono ?_
        · exact unnamed
        · exact free
        · exact prompt
        · exact lasting
        · rw [rules.reportedJob]
          rfl
        · exact owned.trans owner
        · rintro _ _ ⟨m, v, -, ⟨job, rfl, same⟩, rfl⟩
          apply follows_bind.mpr
          refine follows_putWorkflow (rules.writes _ id r _ copy running
            (.inl ⟨chain, ⟨rfl, rfl, rfl⟩, ?_, fun j mem => ?_⟩)) ?_
          · exact ne_of_eq_of_ne running (by decide)
          · rcases List.mem_append.mp mem with old | new
            · exact .inl old
            · obtain rfl := List.mem_singleton.mp new
              rw [same]
              exact .inr List.mem_cons_self
          · exact ⟨_, rfl, Nat.succ_ne_zero _, chain⟩

theorem follows_advanceChain {r : WorkflowState} {stepIdx : Int} {result : Option RawMessage}
    (copy : g.copy = some (id, r)) (running : r.state = "running") (chain : r.type = "chain") :
    (conduct lib call).Follows
      (advanceChain lib id (countedWorkflow r stepIdx result failed) stepIdx failed) g
      (fun _ g' => Chained id g') := by
  have kind : (countedWorkflow r stepIdx result failed).type = "chain" :=
    countedWorkflow_type.trans chain
  have counted := kindred_counted r stepIdx result failed
  have listed : (countedWorkflow r stepIdx result failed).jobIDs = r.jobIDs :=
    countedWorkflow_jobIDs
  have finish (state : String) (uncancelled : state ≠ "cancelled") :
      (conduct lib call).Follows (timeNow.bind fun now =>
      (putWorkflow (finishedWorkflow lib (countedWorkflow r stepIdx result failed) state now)
        id).bind fun _ => .pure (.ok () : Result Unit)) g (fun _ g' => Chained id g') := by
    apply follows_bind.mpr
    apply follows_timeNow
    intro now
    apply follows_bind.mpr
    have finished : Continues g r (finishedWorkflow lib (countedWorkflow r stepIdx result failed)
        state now) :=
      ⟨⟨counted.type, counted.total, counted.callbacks⟩, uncancelled,
        fun j mem => .inl (listed ▸ mem)⟩
    refine follows_putWorkflow (rules.writes g id r _ copy running (.inl ⟨chain, finished⟩)) ?_
    exact ⟨_, rfl, Nat.succ_ne_zero _, kind⟩
  unfold advanceChain
  split
  · exact finish "failed" (by decide)
  · split
    · exact finish "completed" (by decide)
    · have going : (countedWorkflow r stepIdx result failed).state = "running" :=
        (countedWorkflow_state r stepIdx result failed).trans running
      apply follows_bind.mpr
      refine follows_putWorkflow (rules.writes g id r _ copy running (.inl ⟨chain, counted, ?_,
        fun j mem => .inl (listed ▸ mem)⟩)) ?_
      · exact ne_of_eq_of_ne going (by decide)
      · exact follows_enqueueChainStep rules rfl going kind (Nat.succ_ne_zero _)

theorem follows_fireIf {r : WorkflowState} (condition : Bool) (cb : Option WorkflowCallback)
    (copy : g.copy = some (id, r)) (closed : r.state ≠ "running") :
    (conduct lib call).Follows (fireIf lib condition cb) g fun _ g' => g'.copy = g.copy ∧
      g'.writes = g.writes ∧ ∃ fired, g'.output = g.output ++ fired ∧
        Fires (if condition then cb.toList else []) fired := by
  have none : Fires [] [] ∧ g.output = g.output ++ [] := ⟨Fires.nil, (List.append_nil _).symm⟩
  unfold fireIf
  split
  · rename_i cb
    cases condition with
    | false => exact ⟨rfl, rfl, [], none.2, none.1⟩
    | true =>
      apply follows_bind.mpr
      refine (follows_push rfl rfl rfl rfl (fun m v owned => .inr ⟨?_, id, r, copy, .inr
        ⟨owned, closed⟩⟩) (rules.tells g id r copy (.inr closed))).mono ?_
      · rw [rules.reportedJob]
        rfl
      · rintro created _ ⟨m, v, brought, -, rfl⟩
        refine ⟨rfl, rfl, brings v, ?_, [v], (List.append_nil _).symm, .cons ?_ .nil⟩
        · simp [Sight.tell, Sight.store, Sight.mint, brought.state, brings, brought.id,
            brought.queue]
        · exact ⟨brought.type, brought.args, brought.queue, brought.owner⟩
  · refine ⟨rfl, rfl, [], none.2, ?_⟩
    simpa using none.1

theorem follows_fireBatchCallbacks {r : WorkflowState} (copy : g.copy = some (id, r))
    (closed : r.state ≠ "running") (batch : r.type = "batch") :
    (conduct lib call).Follows (fireBatchCallbacks lib r (decide (0 < r.failed))) g
      fun _ g' => g'.copy = g.copy ∧ g'.writes = g.writes ∧
        ∃ fired, g'.output = g.output ++ fired ∧ Fires (due r) fired := by
  unfold fireBatchCallbacks due
  rw [if_pos batch]
  cases r.callbacks with
  | none => exact ⟨rfl, rfl, [], (List.append_nil _).symm, Fires.nil⟩
  | some callbacks =>
    apply follows_bind.mpr
    refine (follows_fireIf rules true callbacks.onComplete copy closed).mono ?_
    rintro _ g₁ ⟨copy₁, writes₁, first, output₁, fires₁⟩
    apply follows_bind.mpr
    refine (follows_fireIf rules (!decide (0 < r.failed)) callbacks.onSuccess
      (copy₁.trans copy) closed).mono ?_
    rintro _ g₂ ⟨copy₂, writes₂, second, output₂, fires₂⟩
    refine (follows_fireIf rules (decide (0 < r.failed)) callbacks.onFailure
      ((copy₂.trans copy₁).trans copy) closed).mono ?_
    rintro _ g₃ ⟨copy₃, writes₃, third, output₃, fires₃⟩
    refine ⟨(copy₃.trans copy₂).trans copy₁, (writes₃.trans writes₂).trans writes₁,
      first ++ (second ++ third), ?_, fires₁.append ?_⟩
    · rw [output₃, output₂, output₁]
      simp only [List.append_assoc]
    · by_cases failing : 0 < r.failed
      · simpa [failing] using fires₂.append fires₃
      · simpa [failing] using fires₂.append fires₃

theorem follows_advanceGroup {r : WorkflowState} {stepIdx : Int} {result : Option RawMessage}
    (copy : g.copy = some (id, r)) (running : r.state = "running") (first : g.writes = 0)
    (silent : g.output = []) : (conduct lib call).Follows
      (advanceGroup lib id (countedWorkflow r stepIdx result failed)) g
      (fun _ g' => HasCounted g') := by
  have going : (countedWorkflow r stepIdx result failed).state = "running" :=
    (countedWorkflow_state r stepIdx result failed).trans running
  apply follows_bind.mpr
  refine follows_putWorkflow (rules.writes g id r _ copy running
    (.inr (.inl ⟨first, silent, stepIdx, result, rfl⟩))) ?_
  generalize countedWorkflow r stepIdx result failed = v at going
  split
  · rename_i full
    apply follows_bind.mpr
    apply follows_timeNow
    intro now
    apply follows_bind.mpr
    refine follows_putWorkflow (rules.writes _ id v _ rfl going
      (.inr (.inr ⟨Nat.succ_ne_zero _, full, now, rfl⟩))) ?_
    have closed : (finishedWorkflow lib v (if 0 < v.failed then "failed" else "completed")
        now).state ≠ "running" := by
      show (if 0 < v.failed then "failed" else "completed") ≠ "running"
      split <;> decide
    generalize finishedWorkflow lib v (if 0 < v.failed then "failed" else "completed") now = u
      at closed
    split
    · rename_i batch
      apply follows_bind.mpr
      refine (follows_fireBatchCallbacks rules (r := u) rfl closed batch).mono ?_
      rintro _ g' ⟨copy', writes', fired, output', fires⟩
      refine .inr (.inr ⟨id, u, copy', ?_, .inr (.inr ⟨closed, ?_⟩)⟩)
      · rw [writes']
        exact Nat.succ_ne_zero _
      · rw [output']
        show Fires (due u) (g.output ++ fired)
        rw [silent]
        exact fires
    · rename_i group
      refine .inr (.inr ⟨id, u, rfl, Nat.succ_ne_zero _, .inr (.inr ⟨closed, ?_⟩)⟩)
      show Fires (due u) g.output
      rw [due, if_neg group, silent]
      exact Fires.nil
  · rename_i unfinished
    exact .inr (.inr ⟨id, v, rfl, Nat.succ_ne_zero _, .inr (.inl ⟨going, unfinished⟩)⟩)

theorem follows_advanceWorkflowState {rec : JobState} {result : Option RawMessage}
    (seen : g.seen = some (k, rec)) (owner : rec.workflowID = id) (first : g.writes = 0)
    (silent : g.output = []) : (conduct lib call).Follows
      (advanceWorkflowState lib id k result failed) g (fun _ g' => HasCounted g') := by
  apply follows_bind.mpr
  refine follows_ask.mpr ⟨rules.looks g id first ⟨rec, seen, owner⟩, fun stored _ => ?_⟩
  cases stored with
  | error e => exact .inr (.inl ⟨first, rfl⟩)
  | ok entry =>
    obtain ⟨r, rev⟩ := entry
    simp only
    split
    · rename_i stopped
      refine .inr (.inl ⟨first, ?_⟩)
      show (if r.state = "running" then g.refused else some id).isSome = true
      rw [if_neg stopped]
      rfl
    · rename_i running
      rw [ne_eq, not_not] at running
      apply follows_bind.mpr
      apply follows_bind.mpr
      have advance (stepIdx : Int) (g' : Sight) (copy : g'.copy = some (id, r))
          (first : g'.writes = 0) (silent : g'.output = []) : (conduct lib call).Follows
            (if (countedWorkflow r stepIdx result failed).type = "chain" then
              advanceChain lib id (countedWorkflow r stepIdx result failed) stepIdx failed
            else advanceGroup lib id (countedWorkflow r stepIdx result failed)) g'
            (fun _ g'' => HasCounted g'') := by
        split
        · rename_i chain
          rw [countedWorkflow_type] at chain
          exact (follows_advanceChain rules copy running chain).mono fun _ _ => Chained.counted
        · exact follows_advanceGroup rules copy running first silent
      apply follows_getJobState
      · exact rules.own
      · intro rec' _
        exact advance _ _ rfl first silent
      · intro _
        exact advance _ _ rfl first silent

theorem follows_advanceWorkflow {state : State} {result : Option RawMessage}
    (outcome : (state == .discarded || state == .cancelled) = failed) (first : g.writes = 0)
    (silent : g.output = []) (settled : g.settled = true) :
    (conduct lib call).Follows (advanceWorkflow lib k state result) g
      (fun _ g' => HasCounted g') := by
  apply follows_bind.mpr
  apply follows_getJobState
  · exact rules.own
  · rintro rec rfl
    simp only [outcome]
    split
    · rename_i unowned
      refine .inl ?_
      have owner : rec.workflowID = "" := unowned
      simp [Sight.find, owner, settled]
    · apply follows_bind.mpr
      refine (follows_advanceWorkflowState (g := g.find lib rec.id rec) rules rfl rfl first
        silent).mono ?_
      exact fun _ _ counted => counted
  · intro _
    exact .inl (by simp [Sight.miss, settled])

end Advance

/-! ## Reports -/

theorem own_ack {result : Option RawMessage} (j : String)
    (same : reportedJob (.ack k result) = some j) : k = j := Option.some.inj same

theorem own_nack {jobErr : Option JobError} {requeue : Bool} (j : String)
    (same : reportedJob (.nack k jobErr requeue) = some j) : k = j := Option.some.inj same

theorem follows_finishAck {result : Option RawMessage} {now : Int} {job : Job}
    (first : g.writes = 0) (silent : g.output = []) (settled : g.settled = true) :
    (conduct lib (.ack k result)).Follows (finishAck lib k result now job) g
      (fun reply g' => Reported (ends (.ack k result) (.acked reply)) g') := by
  apply follows_bind.mpr
  refine follows_onlyOn (onlyOn_incrementCompleted _) ⟨by decide, by decide⟩ fun _ => ?_
  apply follows_bind.mpr
  refine (follows_advanceWorkflow (Advances.ack k result) rfl first silent settled).mono ?_
  intro _ g' counted
  apply follows_bind.mpr
  apply follows_info own_ack
  · exact fun rec _ => counted.find lib k rec
  · exact counted.miss k

theorem follows_ack {result : Option RawMessage} : (conduct lib (.ack k result)).Follows
    (ack lib k result) {} (fun reply g' => Reported (ends (.ack k result) (.acked reply)) g') := by
  apply follows_bind.mpr
  apply follows_getJobState own_ack
  · rintro rec rfl
    simp only
    split
    · rfl
    · rename_i active
      rw [ne_eq, not_not] at active
      apply follows_bind.mpr
      apply follows_timeNow
      intro now
      apply follows_bind.mpr
      refine follows_putJobState ⟨rfl, .inl ⟨rec, rfl, ⟨rfl, rfl⟩,
        ⟨active, rfl⟩, ?_⟩⟩ fun _ => ?_
      · rintro j ⟨⟩
        exact ⟨rfl, rfl, rfl⟩
      · apply follows_bind.mpr
        refine follows_delete ⟨by decide, by decide⟩ ?_
        apply follows_bind.mpr
        refine follows_ackMessage ?_
        exact follows_finishAck rfl rfl rfl
  · exact fun _ => rfl

section Nack

variable {jobErr : Option JobError} {requeue : Bool} {rec : JobState} {job : Job} {now : Int}

/-- The job is a version of the record that the report has read. -/
structure Ready (g : Sight) (rec : JobState) (job : Job) : Prop where
  seen : g.seen = some (job.id, rec)
  active : rec.state = .active
  akin : job.workflowID = rec.workflowID ∧ job.expiresAt = rec.expiresAt
  unsettled : g.settled = false
  unwritten : g.writes = 0
  silent : g.output = []

theorem Ready.stores {v : JobState} (ready : Ready g rec job) (id : v.id = job.id)
    (akin : v.workflowID = job.workflowID ∧ v.expiresAt = job.expiresAt) :
    MayRecord (.nack job.id jobErr requeue) g job.id v := by
  refine ⟨id, .inl ⟨_, ready.seen, ?_, ready.active, ?_⟩⟩
  · exact ⟨akin.1.trans ready.akin.1, akin.2.trans ready.akin.2⟩
  · rintro j ⟨⟩
    exact ⟨rfl, ready.unsettled, ready.unwritten⟩

theorem follows_reply {α : Type} {f : Result Job → Result α} {Q : Result α → Sight → Prop}
    (own : ∀ j, reportedJob call = some j → k = j) (found : ∀ r rec, Q (f r) (g.find lib k rec))
    (missing : ∀ r, Q (f r) (g.miss k)) :
    (conduct lib call).Follows ((info k).bind fun r => .pure (f r)) g Q := by
  apply follows_bind.mpr
  apply follows_info own
  · exact fun rec _ => found _ rec
  · exact missing _

theorem follows_nackRequeue (ready : Ready g rec job) :
    (conduct lib (.nack job.id jobErr requeue)).Follows (nackRequeue lib job.id now job) g
      (fun reply g' => Reported (ends (.nack job.id jobErr requeue) (.nacked reply)) g') := by
  apply follows_bind.mpr
  refine follows_putJobState (ready.stores rfl ⟨rfl, rfl⟩) fun _ => ?_
  apply follows_bind.mpr
  refine follows_delete ⟨by decide, by decide⟩ ?_
  apply follows_bind.mpr
  refine follows_ackMessage ?_
  apply follows_bind.mpr
  refine follows_publishJob (.inl ready.unwritten) ?_
  exact follows_reply own_nack
    (fun _ _ => ready.unwritten) fun _ => ready.unwritten

theorem follows_nackDiscard {newAttempt : Int} {errJSON : Option RawMessage}
    (ready : Ready g rec job) : (conduct lib (.nack job.id jobErr requeue)).Follows
      (nackDiscard lib job.id now newAttempt errJSON job) g
      (fun reply g' => Reported (ends (.nack job.id jobErr requeue) (.nacked reply)) g') := by
  apply follows_bind.mpr
  refine follows_putJobState (ready.stores rfl ⟨rfl, rfl⟩) fun _ => ?_
  apply follows_bind.mpr
  refine follows_delete ⟨by decide, by decide⟩ ?_
  apply follows_bind.mpr
  refine follows_ackMessage ?_
  have announce : (conduct lib (.nack job.id jobErr requeue)).Follows
      ((advanceWorkflow lib job.id .discarded none).bind fun _ => (info job.id).bind fun retJob =>
        .pure (.ok {
          id := job.id
          state := .discarded
          attempt := newAttempt
          maxAttempts := maxAttemptsOf (discardedJob lib now newAttempt errJSON job)
          discardedAt := lib.formatTime now
          job := retJob.toOption } : Result NackResponse))
      (g.store job.id (marshalJobState (discardedJob lib now newAttempt errJSON job)))
      (fun reply g' => Reported (ends (.nack job.id jobErr requeue) (.nacked reply)) g') := by
    have outcome : (State.discarded == .discarded || State.discarded == .cancelled) = true := rfl
    have silent : (g.store job.id (marshalJobState
        (discardedJob lib now newAttempt errJSON job))).output = [] := by
      show g.output ++ [] = []
      rw [ready.silent]
      rfl
    have unwritten : (g.store job.id (marshalJobState
        (discardedJob lib now newAttempt errJSON job))).writes = 0 := ready.unwritten
    apply follows_bind.mpr
    refine (follows_advanceWorkflow (Advances.nack job.id jobErr requeue) outcome
      unwritten silent rfl).mono fun _ g' counted => ?_
    refine follows_reply own_nack ?_ ?_
    · exact fun _ rec => counted.find lib job.id rec
    · exact fun _ => counted.miss job.id
  apply follows_bind.mpr
  unfold deadLetter
  split
  · apply follows_bind.mpr
    exact follows_put ⟨by decide, by decide⟩ fun _ => announce
  · exact announce

theorem follows_nackRetry {newAttempt : Int} {errJSON : Option RawMessage}
    (ready : Ready g rec job) : (conduct lib (.nack job.id jobErr requeue)).Follows
      (nackRetry lib job.id now newAttempt errJSON job) g
      (fun reply g' => Reported (ends (.nack job.id jobErr requeue) (.nacked reply)) g') := by
  apply follows_bind.mpr
  refine follows_ask.mpr ⟨trivial, fun backoff _ => ?_⟩
  apply follows_bind.mpr
  refine follows_putJobState (ready.stores rfl ⟨rfl, rfl⟩) fun _ => ?_
  apply follows_bind.mpr
  refine follows_delete ⟨by decide, by decide⟩ ?_
  apply follows_bind.mpr
  refine follows_ackMessage ?_
  apply follows_bind.mpr
  refine follows_put ⟨by decide, by decide⟩ fun _ => ?_
  exact follows_reply own_nack
    (fun _ _ => ready.unwritten) fun _ => ready.unwritten

theorem follows_nack : (conduct lib (.nack k jobErr requeue)).Follows
    (nack lib k jobErr requeue) {}
    (fun reply g' => Reported (ends (.nack k jobErr requeue) (.nacked reply)) g') := by
  apply follows_bind.mpr
  apply follows_getJobState own_nack
  · rintro rec rfl
    simp only
    split
    · rfl
    · rename_i active
      rw [ne_eq, not_not] at active
      apply follows_bind.mpr
      apply follows_timeNow
      intro now
      have ready (job : Job) (id : job.id = rec.id)
          (akin : job.workflowID = rec.workflowID ∧ job.expiresAt = rec.expiresAt) :
          Ready (({} : Sight).find lib rec.id rec) rec job :=
        ⟨by rw [id]; rfl, active, akin, rfl, rfl, rfl⟩
      split
      · exact follows_nackRequeue (ready (unmarshalJobState rec) rfl ⟨rfl, rfl⟩)
      · apply follows_bind.mpr
        refine follows_aside ((Faults.infallible_isNonRetryable _ _).mono fun _ =>
          aside_infallible) fun nonRetryable => ?_
        have failing := ready (withError (jobErr.map (errorPayload (unmarshalJobState rec).attempt))
          (unmarshalJobState rec)) rfl ⟨rfl, rfl⟩
        split
        · exact follows_nackDiscard failing
        · exact follows_nackRetry failing
  · exact fun _ => rfl

end Nack

/-! ## Fetch -/

section Fetch

variable {queues : List String} {count : Int} {workerID : String} {visibilityTimeoutMs now : Int}

theorem follows_fetchJob (queue : String) (jobs : List Job) :
    (conduct lib (.fetch queues count workerID visibilityTimeoutMs)).Follows
      (fetchJob lib queue workerID visibilityTimeoutMs now k jobs) g (fun _ _ => True) := by
  have unreported (rec : JobState) (j : String) (same : reportedJob (.fetch queues count workerID
      visibilityTimeoutMs) = some j) : rec.id = j ∧ (g.find lib rec.id rec).settled = false ∧
        (g.find lib rec.id rec).writes = 0 := by
    cases same
  apply follows_bind.mpr
  apply follows_getJobState
  · rintro j ⟨⟩
  · rintro rec rfl
    simp only
    split
    · rename_i expired
      have expiring : rec.expiresAt ≠ "" := by
        rintro empty
        simp [isExpired, empty] at expired
      apply follows_bind.mpr
      refine follows_putJobState ⟨rfl, .inl ⟨rec, rfl, ⟨rfl, rfl⟩,
        .inr ⟨expiring, rfl⟩, unreported rec⟩⟩ fun _ => ?_
      exact follows_bind.mpr (follows_ackMessage trivial)
    · split
      · exact follows_bind.mpr (follows_ackMessage trivial)
      · rename_i available
        rw [ne_eq, not_not] at available
        apply follows_bind.mpr
        refine follows_put ⟨by decide, by decide⟩ fun _ => ?_
        apply follows_bind.mpr
        refine follows_putJobState ⟨rfl, .inl ⟨rec, rfl, ⟨rfl, rfl⟩,
          .inl ⟨available, rfl⟩, unreported rec⟩⟩ fun _ => ?_
        apply follows_bind.mpr
        exact follows_onlyOn (onlyOn_recordFetchTime _ _) ⟨by decide, by decide⟩ fun _ => trivial
  · exact fun _ => follows_bind.mpr (follows_ackMessage trivial)

theorem aside_fetchMessages (queue : String) (n : Nat) : (fetchMessages queue n).Uses Aside := by
  have tracks (msgs : List Msg) (ids : List String) :
      (Program.forEach msgs ids trackMessage).Uses Aside := by
    refine uses_forEach _ fun m _ ids => ?_
    unfold trackMessage
    split
    · exact ⟨trivial, fun _ => trivial⟩
    · exact ⟨trivial, fun _ => trivial⟩
  refine uses_bind ⟨trivial, fun cached => ?_⟩ fun ready => ?_
  · cases cached with
    | true => trivial
    | false =>
      refine ⟨trivial, fun ensured => ?_⟩
      cases ensured with
      | error e => trivial
      | ok _ => exact ⟨trivial, fun _ => trivial⟩
  · cases ready with
    | error e => trivial
    | ok _ =>
      refine uses_bind ⟨trivial, fun _ => trivial⟩ fun fetched => ?_
      cases fetched with
      | error e => trivial
      | ok msgs => exact uses_bind (tracks msgs []) fun _ => trivial

theorem follows_fetchQueue (queue : String) (jobs : List Job) :
    (conduct lib (.fetch queues count workerID visibilityTimeoutMs)).Follows
      (fetchQueue lib count workerID visibilityTimeoutMs now queue jobs) g (fun _ _ => True) := by
  unfold fetchQueue
  split
  · trivial
  · apply follows_bind.mpr
    refine follows_onlyOn (onlyOn_isQueuePaused queue) ⟨by decide, by decide⟩ fun paused => ?_
    cases paused with
    | true => trivial
    | false =>
      apply follows_bind.mpr
      refine follows_onlyOn (onlyOn_isRateLimited queue _) ⟨by decide, by decide⟩ fun limited => ?_
      cases limited with
      | true => trivial
      | false =>
        apply follows_bind.mpr
        refine follows_aside (aside_fetchMessages queue _) fun r => ?_
        cases r with
        | error e => trivial
        | ok ids =>
          refine follows_forEach (fun _ _ _ => True) trivial ?_ fun _ _ _ => trivial
          exact fun k _ jobs' g' _ => follows_fetchJob queue jobs'

theorem follows_fetch : (conduct lib (.fetch queues count workerID visibilityTimeoutMs)).Follows
    (fetch lib queues count workerID visibilityTimeoutMs) g (fun _ _ => True) := by
  apply follows_bind.mpr
  apply follows_timeNow
  intro now
  refine follows_forEach (fun _ _ _ => True) trivial ?_ fun _ _ _ => trivial
  exact fun queue _ jobs g' _ => follows_fetchQueue queue jobs

end Fetch

/-! ## Creating a workflow -/

section Create

variable {req : WorkflowRequest} {id : String} {r : WorkflowState}

/-- The workflow is stored, and its jobs are being pushed. -/
structure Founding (id : String) (r : WorkflowState) (ids : List String) (g : Sight) : Prop where
  named : g.named = some id
  copy : g.copy = some (id, r)
  writes : g.writes = 1
  running : r.state = "running"
  stored : ∀ j ∈ ids, j ∈ g.stored

theorem follows_pushMember (step : WorkflowJobRequest) (i : Int) {ids : List String}
    (h : Founding id r ids g) :
    (conduct lib (.createWorkflow req)).Follows (push lib (workflowStepToJob step id i)) g
      (fun created g' => ∃ job, created = .ok job ∧ Founding id r (ids ++ [job.id]) g') := by
  obtain ⟨unnamed, free⟩ := workflowStepToJob_unnamed step id i
  obtain ⟨owner, prompt, lasting⟩ := workflowStepToJob_plain step id i
  have named (m : String) : (g.mint m).named = some id := by
    rw [Sight.mint, h.named]
    rfl
  have tells : MayTell g (.createWorkflow req) := trivial
  refine (follows_push ?_ ?_ ?_ ?_ (fun m v owned => .inl ⟨rfl, ?_, h.writes, r, ?_,
    h.running⟩) tells).mono ?_
  · exact unnamed
  · exact free
  · exact prompt
  · exact lasting
  · rw [named, owned, owner]
  · rw [owned, owner]
    exact h.copy
  · rintro _ _ ⟨m, v, -, ⟨job, rfl, same⟩, rfl⟩
    refine ⟨job, rfl, named m, h.copy, h.writes, h.running, fun j mem => ?_⟩
    rcases List.mem_append.mp mem with old | new
    · exact List.mem_cons_of_mem _ (h.stored j old)
    · obtain rfl := List.mem_singleton.mp new
      rw [same]
      exact List.mem_cons_self

theorem follows_pushMembers {i : Nat} {steps : List WorkflowJobRequest} {ids : List String}
    (h : Founding id r ids g) : (conduct lib (.createWorkflow req)).Follows
      (pushMembers lib id i steps ids) g
      (fun pushed g' => ∃ ids', pushed = .ok ids' ∧ Founding id r ids' g') := by
  induction steps generalizing g i ids with
  | nil => exact ⟨ids, rfl, h⟩
  | cons step rest ih =>
    apply follows_bind.mpr
    refine (follows_pushMember step i h).mono ?_
    rintro _ g' ⟨job, rfl, h'⟩
    exact ih h'

theorem follows_createWorkflow : (conduct lib (.createWorkflow req)).Follows
    (createWorkflow lib req) {} (fun result g' => ∀ wf, result = .ok wf →
      g'.named = some wf.id ∧ g'.writes = 2) := by
  apply follows_bind.mpr
  apply follows_timeNow
  intro now
  apply follows_bind.mpr
  apply follows_newUUIDv7
  intro id
  have named (total : Int) : (newWorkflow lib id req total now).id = id := by
    unfold newWorkflow
    split <;> rfl
  apply follows_bind.mpr
  refine follows_putWorkflow ⟨rfl, .inl ⟨rfl, rfl, now, rfl⟩⟩ ?_
  have founding (jobs : List WorkflowJobRequest) : Founding id
      (newWorkflowState lib id req jobs now) []
      ((({} : Sight).mint id).write id (newWorkflowState lib id req jobs now)) :=
    ⟨rfl, rfl, rfl, rfl, fun j mem => by cases mem⟩
  have close {g : Sight} {jobs : List WorkflowJobRequest} {ids : List String} {wf : Workflow}
      (h : Founding id (newWorkflowState lib id req jobs now) ids g) (same : wf.id = id) :
      (conduct lib (.createWorkflow req)).Follows
        ((putWorkflow { newWorkflowState lib id req jobs now with jobIDs := ids } id).bind
          fun _ => .pure (.ok wf : Result Workflow)) g
        (fun result g' => ∀ wf', result = .ok wf' → g'.named = some wf'.id ∧ g'.writes = 2) := by
    apply follows_bind.mpr
    refine follows_putWorkflow ⟨h.named, .inr ⟨h.writes, _, ids, h.copy, rfl, h.stored⟩⟩ ?_
    rintro wf' ⟨⟩
    refine ⟨?_, congrArg (· + 1) h.writes⟩
    rw [same]
    exact h.named
  by_cases chain : req.type = "chain"
  · simp only [chain, ↓reduceIte]
    cases steps : req.steps with
    | nil =>
      rintro wf ⟨⟩
    | cons step rest =>
      simp only
      apply follows_bind.mpr
      refine (follows_pushMember step 0 (founding (step :: rest))).mono ?_
      rintro _ g' ⟨job, rfl, h⟩
      exact close h (named _)
  · simp only [chain, ↓reduceIte]
    apply follows_bind.mpr
    refine (follows_pushMembers (founding req.jobs)).mono ?_
    rintro _ g' ⟨ids, rfl, h⟩
    exact close h (named _)

end Create

/-! ## Cancelling a workflow -/

section CancelWorkflow

variable {id : String} {r : WorkflowState}

/-- The record is read for the second time, and some of its jobs are visited. -/
structure Sweeping (id : String) (r : WorkflowState) (rest : List String) (g : Sight) : Prop where
  copy : g.copy = some (id, r)
  reads : g.reads = 2
  writes : g.writes = 0
  visited : ∀ j ∈ r.jobIDs, j ∈ rest ∨ j ∈ g.visited

theorem follows_cancelIndexes {job : Job} {Q : Result Job → Sight → Prop} (h : Q (.ok job) g) :
    (conduct lib call).Follows (cancelIndexes k job) g Q := by
  apply follows_bind.mpr
  refine follows_delete ⟨by decide, by decide⟩ ?_
  apply follows_bind.mpr
  refine follows_delete ⟨by decide, by decide⟩ ?_
  apply follows_bind.mpr
  refine follows_delete ⟨by decide, by decide⟩ ?_
  apply follows_bind.mpr
  exact follows_ackMessage h

theorem Sweeping.visit {rest : List String} {g' : Sight} (h : Sweeping id r (k :: rest) g)
    (copy : g'.copy = g.copy) (reads : g'.reads = g.reads) (writes : g'.writes = g.writes)
    (more : ∀ j ∈ g.visited, j ∈ g'.visited) (here : k ∈ g'.visited) :
    Sweeping id r rest g' where
  copy := copy.trans h.copy
  reads := reads.trans h.reads
  writes := writes.trans h.writes
  visited j mem := by
    rcases h.visited j mem with ahead | behind
    · rcases List.mem_cons.mp ahead with rfl | later
      · exact .inr here
      · exact .inl later
    · exact .inr (more j behind)

theorem follows_cancelMember {rest : List String} (h : Sweeping id r (k :: rest) g) :
    (conduct lib (.cancelWorkflow id)).Follows (cancelMember lib k) g
      (fun _ g' => Sweeping id r rest g') := by
  have missed {g : Sight} (h : Sweeping id r (k :: rest) g) : Sweeping id r rest (g.miss k) :=
    h.visit rfl rfl rfl (fun _ => List.mem_cons_of_mem k) List.mem_cons_self
  have sees {g : Sight} {rec : JobState} (j : String) (mem : j ∈ g.visited) :
      j ∈ (g.find lib k rec).visited := by
    show j ∈ if lib.isTerminalState rec.state then k :: g.visited else g.visited
    split
    · exact List.mem_cons_of_mem k mem
    · exact mem
  have closed {g : Sight} {rec : JobState} (h : Sweeping id r (k :: rest) g)
      (terminal : lib.isTerminalState rec.state = true) :
      Sweeping id r rest (g.find lib k rec) := by
    refine h.visit rfl rfl rfl sees ?_
    show k ∈ if lib.isTerminalState rec.state then k :: g.visited else g.visited
    rw [if_pos terminal]
    exact List.mem_cons_self
  have live {g : Sight} {rec : JobState} (h : Sweeping id r (k :: rest) g) :
      Sweeping id r (k :: rest) (g.find lib k rec) :=
    ⟨h.copy, h.reads, h.writes, fun j mem =>
      (h.visited j mem).imp (fun ahead => ahead) (sees j)⟩
  apply follows_bind.mpr
  apply follows_getJobState
  · rintro j ⟨⟩
  · rintro rec rfl
    simp only
    split
    · rename_i terminal
      exact closed h terminal
    · apply follows_bind.mpr
      apply follows_bind.mpr
      apply follows_getJobState
      · rintro j ⟨⟩
      · rintro rec' same
        simp only
        split
        · rename_i terminal
          exact closed (live h) terminal
        · apply follows_bind.mpr
          apply follows_timeNow
          intro now
          apply follows_bind.mpr
          refine follows_putJobState ⟨rfl, .inl ⟨rec', ?_, ⟨rfl, rfl⟩, rfl, ?_⟩⟩ fun _ => ?_
          · show some (rec.id, rec') = some (rec'.id, rec')
            rw [same]
          · rintro j ⟨⟩
          · refine follows_cancelIndexes ?_
            refine (live (live h)).visit rfl rfl rfl (fun _ => List.mem_cons_of_mem _) ?_
            show rec.id ∈ rec'.id :: _
            rw [same]
            exact List.mem_cons_self
      · exact fun _ => missed (live h)
  · exact fun _ => missed h

theorem follows_cancelWorkflow : (conduct lib (.cancelWorkflow id)).Follows
    (cancelWorkflow lib id) {} (fun result g' => ∀ wf, result = .ok wf → g'.writes = 1) := by
  apply follows_bind.mpr
  apply follows_bind.mpr
  refine follows_ask.mpr ⟨⟨rfl, by decide, rfl, rfl⟩, fun stored _ => ?_⟩
  cases stored with
  | error e => rintro wf ⟨⟩
  | ok entry =>
    obtain ⟨first, rev⟩ := entry
    refine follows_pure.mpr ?_
    simp only
    split
    · rintro wf ⟨⟩
    · apply follows_bind.mpr
      refine follows_ask.mpr ⟨⟨rfl, Nat.lt_succ_self 1, rfl, rfl⟩, fun stored admitted => ?_⟩
      cases stored with
      | error e => exact absurd rfl (admitted first)
      | ok entry =>
        obtain ⟨r, rev⟩ := entry
        simp only
        apply follows_bind.mpr
        refine follows_forEach (fun rest _ g => Sweeping id r rest g)
          ⟨rfl, rfl, rfl, fun _ => .inl⟩ ?_ ?_
        · exact fun k rest _ g swept => follows_cancelMember swept
        · intro _ g swept
          apply follows_bind.mpr
          apply follows_timeNow
          intro now
          apply follows_bind.mpr
          refine follows_putWorkflow ⟨rfl, swept.reads, swept.writes, rfl, r, swept.copy, rfl,
            fun j mem => (swept.visited j mem).resolve_left List.not_mem_nil⟩ ?_
          rintro wf ⟨⟩
          exact congrArg (· + 1) swept.writes

end CancelWorkflow

end Conduct

/-- The operations that the rules are about. -/
def conducted : List Operation := [.createWorkflow, .cancelWorkflow, .ack, .nack, .fetch]

theorem follows_conduct {lib : Externals} {call : Call} (among : call.operation ∈ conducted) :
    (conduct lib call).Follows (call.program lib) {} (Conducted call) := by
  cases call with
  | createWorkflow req =>
    refine follows_bind.mpr (Conduct.follows_createWorkflow.mono fun result g' created => ?_)
    cases result with
    | ok wf => exact created wf rfl
    | error e => trivial
  | cancelWorkflow id =>
    refine follows_bind.mpr (Conduct.follows_cancelWorkflow.mono fun result g' cancelled => ?_)
    cases result with
    | ok wf => exact cancelled wf rfl
    | error e => trivial
  | ack k result =>
    exact follows_bind.mpr (Conduct.follows_ack.mono fun _ _ reportedJob => reportedJob)
  | nack k jobErr requeue =>
    exact follows_bind.mpr (Conduct.follows_nack.mono fun _ _ reportedJob => reportedJob)
  | fetch queues count workerID timeout =>
    exact follows_bind.mpr (Conduct.follows_fetch.mono fun _ _ _ => trivial)
  | _ => simp [conducted, Call.operation] at among

end OjsNats.Concurrent
