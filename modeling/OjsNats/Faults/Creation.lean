import OjsNats.Lifecycle.Groups

/-!
# Creating a workflow when calls fail

`CreateWorkflow` writes its record first, then pushes the jobs one by one and
lists them in the record at the end.  It undoes nothing, so what remains
depends on which calls fail.
-/

namespace OjsNats.Faults

open Core Nats Effect Semantics Program Lifecycle

variable {lib : Externals} {w m t : World} {log : List Op} {b : BucketName} {k id : String}

/-! ## Calls that may fail -/

/-- Calls are served or report an error; the calls that do are listed. -/
def faulty : Semantics Op Ans (World × List Op) := serves.failing fails

theorem wp_put {v : b.Value} {Q : Except CallError Nat → World × List Op → Prop} :
    faulty.wp (Store.put b k v) Q (w, log) ↔
      Q (.ok ((w.kv b).revision + 1)) (w.put b k v, log) ∧
        Q (.error .unavailable) (w, log ++ [.put b k v]) := by
  refine wp_ask_failing.trans (and_congr ?_ ?_)
  · exact ⟨fun h => h _ _ ⟨rfl, rfl⟩, by rintro h _ _ ⟨rfl, rfl⟩; exact h⟩
  · exact ⟨fun h => h _ _ ⟨rfl, rfl⟩, by rintro h _ _ ⟨rfl, rfl⟩; exact h⟩

@[simp] theorem wp_timeNow {Q : Int → World × List Op → Prop} :
    faulty.wp timeNow Q (w, log) ↔ Q w.clock (w, log) := by
  refine wp_ask_failing.trans ⟨fun h => h.1 _ _ ⟨rfl, rfl⟩, fun h => ⟨?_, fun _ _ step => step.elim⟩⟩
  rintro _ _ ⟨rfl, rfl⟩
  exact h

@[simp] theorem wp_newUUIDv7 {Q : String → World × List Op → Prop} :
    faulty.wp newUUIDv7 Q (w, log) ↔
      ∀ id, id ≠ "" → id ∉ w.used → Q id ({ w with used := id :: w.used }, log) := by
  refine wp_ask_failing.trans ⟨fun h id nonempty unused => h.1 _ _ ⟨nonempty, unused, rfl⟩,
    fun h => ⟨?_, fun _ _ step => step.elim⟩⟩
  rintro id _ ⟨nonempty, unused, rfl⟩
  exact h id nonempty unused

theorem wp_publishJob {queue : String} {Q : Result Unit → World × List Op → Prop}
    (served : Q (.ok ()) (w.publish (queueJobsSubject queue) k, log))
    (failed : ∀ e, Q (.error e) (w, log ++ [.publish (queueJobsSubject queue) k])) :
    faulty.wp (publishJob queue k) Q (w, log) := by
  simp only [publishJob, bind_eq, pure_eq]
  refine wp_bind.mpr (wp_ask_failing.mpr ⟨?_, ?_⟩)
  · rintro _ _ ⟨rfl, rfl⟩
    exact wp_pure.mpr served
  · rintro _ _ ⟨rfl, rfl⟩
    exact wp_pure.mpr (failed _)

theorem wp_putWorkflow {wfState : WorkflowState} {Q : Unit → World × List Op → Prop} :
    faulty.wp (putWorkflow wfState id) Q (w, log) ↔ Q () (w.put .workflows id wfState, log) ∧
      Q () (w, log ++ [.put .workflows id wfState]) := by
  simp only [putWorkflow, bind_eq, pure_eq, wp_bind, wp_put, wp_pure]

/-! ## Pushing a job -/

/-- The calls that fail in between are about queue records. -/
def Quiet (failed : List Op) : Prop := ∀ op ∈ failed, OnlyOn .queues op

/-- The jobs and the workflows are as before, and so are the ids that were handed out. -/
structure Keeps (w m : World) : Prop where
  jobs : m.kv .jobs = w.kv .jobs
  workflows : m.kv .workflows = w.kv .workflows
  used : m.used = w.used
  clock : m.clock = w.clock

theorem Keeps.step {op : Op} {r : Ans op} (keeps : Keeps w m) (only : OnlyOn .queues op)
    (step : m.Serves op r t) : Keeps w t := by
  have put {b : BucketName} (k : String) (v : b.Value) (queues : b = .queues) :
      Keeps w (m.put b k v) := by
    refine ⟨?_, ?_, keeps.used, keeps.clock⟩
    · exact (kv_put_of_ne k v (by simp [queues])).trans keeps.jobs
    · exact (kv_put_of_ne k v (by simp [queues])).trans keeps.workflows
  cases op with
  | get => exact step.2 ▸ keeps
  | put =>
    rw [step.2]
    exact put _ _ only
  | create =>
    simp only [World.Serves] at step
    split at step
    · exact step.2 ▸ keeps
    · rw [step.2]
      exact put _ _ only
  | update =>
    simp only [World.Serves] at step
    split at step
    · rw [step.2]
      exact put _ _ only
    · exact step.2 ▸ keeps
  | _ => exact only.elim

theorem wp_ensureQueue {queue : String} {Q : Unit → World × List Op → Prop}
    (h : ∀ m quiet, Keeps w m → Quiet quiet → Q () (m, log ++ quiet)) :
    faulty.wp (ensureQueue queue) Q (w, log) := by
  intro _ s run
  have kept := run.preserves (onlyOn_ensureQueue queue)
    (P := fun s => Keeps w s.1 ∧ ∃ quiet, s.2 = log ++ quiet ∧ Quiet quiet) ?_
    ⟨⟨rfl, rfl, rfl, rfl⟩, [], (List.append_nil _).symm, by simp [Quiet]⟩
  · obtain ⟨keeps, quiet, same, silent⟩ := kept
    rw [← Prod.mk.eta (p := s), same]
    exact h _ quiet keeps silent
  · rintro ⟨m, _⟩ op r ⟨t, _⟩ only step ⟨keeps, quiet, rfl, silent⟩
    rcases step with ⟨step, rfl⟩ | ⟨step, rfl⟩
    · exact ⟨keeps.step only step, quiet, rfl, silent⟩
    · refine ⟨?_, quiet ++ [op], List.append_assoc _ _ _, ?_⟩
      · cases op with
        | get | put | create | update => exact step.2 ▸ keeps
        | _ => exact only.elim
      · intro op' mem
        rcases List.mem_append.mp mem with earlier | last
        · exact silent op' earlier
        · exact List.mem_singleton.mp last ▸ only

/-- A job as `CreateWorkflow` stores it. -/
def memberRecord (lib : Externals) (now : Int) (id k : String) (i : Nat) (step : WorkflowJobRequest) :
    JobState :=
  marshalJobState (enqueuedJob lib .available now
    (freshJob lib k now (workflowStepToJob step id i)))

theorem memberRecord_terms (lib : Externals) (now : Int) (id k : String) (i : Nat)
    (step : WorkflowJobRequest) : (memberRecord lib now id k i step).workflowID = id ∧
      (memberRecord lib now id k i step).workflowStep = i ∧
      (memberRecord lib now id k i step).state = .available := by
  obtain ⟨owner, position, -⟩ := workflowStepToJob_terms step id i
  exact ⟨owner, position, rfl⟩

theorem workflowStepToJob_plain (step : WorkflowJobRequest) (id : String) (i : Int) :
    (workflowStepToJob step id i).rateLimit = none ∧
      (workflowStepToJob step id i).scheduledAt = "" := by
  unfold workflowStepToJob
  dsimp only
  split
  · exact ⟨rfl, rfl⟩
  · split
    · exact ⟨rfl, rfl⟩
    · split <;> exact ⟨rfl, rfl⟩

/-- A push brings the job, or fails at its record or at its message. -/
theorem wp_push {step : WorkflowJobRequest} {i : Nat} {Q : Result Job → World × List Op → Prop}
    (pushed : ∀ k quiet t job, k ∉ w.used → Quiet quiet → job.id = k →
      t.kv .jobs = (w.put .jobs k (memberRecord lib w.clock id k i step)).kv .jobs →
      t.kv .workflows = w.kv .workflows → t.used = k :: w.used → t.clock = w.clock →
      Q (.ok job) (t, log ++ quiet))
    (unstored : ∀ k quiet t e, Quiet quiet → t.kv .jobs = w.kv .jobs →
      t.kv .workflows = w.kv .workflows → t.used = k :: w.used →
      Q (.error e) (t, log ++ quiet ++ [.put .jobs k (memberRecord lib w.clock id k i step)]))
    (unpublished : ∀ k quiet t e subject, k ∉ w.used → Quiet quiet →
      t.kv .jobs = (w.put .jobs k (memberRecord lib w.clock id k i step)).kv .jobs →
      t.kv .workflows = w.kv .workflows → t.used = k :: w.used →
      Q (.error e) (t, log ++ quiet ++ [.publish subject k])) :
    faulty.wp (push lib (workflowStepToJob step id i)) Q (w, log) := by
  obtain ⟨unnamed, free, -⟩ := unclaimed_workflowStepToJob step id i
  simp only [push, bind_eq, unnamed, ↓reduceIte, wp_bind, wp_timeNow, wp_newUUIDv7]
  intro k nonempty unused
  have free' : (freshJob lib k w.clock (workflowStepToJob step id i)).unique = none := by
    rw [freshJob, free, Option.map_none]
  obtain ⟨unlimited, undated⟩ := workflowStepToJob_plain step id i
  have plain : storeRateLimit (freshJob lib k w.clock (workflowStepToJob step id i)) =
      .pure () := by
    simp only [storeRateLimit, freshJob, unlimited, pure_eq]
  have now : isScheduledLater lib (freshJob lib k w.clock (workflowStepToJob step id i)) w.clock =
      false := by
    simp [isScheduledLater, freshJob, undated]
  simp only [free', storeJob, now, plain, bind_eq, pure_eq, bind_pure_left, Bool.false_eq_true,
    ↓reduceIte]
  refine wp_bind.mpr (wp_ensureQueue fun m quiet keeps silent => ?_)
  simp only [putJobState, wp_bind, wp_put]
  have stored : (m.put .jobs k (memberRecord lib w.clock id k i step)).kv .jobs =
      (w.put .jobs k (memberRecord lib w.clock id k i step)).kv .jobs := by
    simp [World.put, keeps.jobs]
  refine ⟨wp_publishJob ?_ fun e => ?_, ?_⟩
  · refine wp_pure.mpr (pushed k quiet _ _ unused silent ?_ stored keeps.workflows keeps.used
      keeps.clock)
    rfl
  · exact wp_pure.mpr (unpublished k quiet _ _ _ unused silent stored keeps.workflows keeps.used)
  · exact wp_pure.mpr (unstored k quiet m _ silent keeps.jobs keeps.workflows keeps.used)

/-! ## Pushing the jobs -/

/-- The jobs of a new workflow that are stored so far. -/
structure Underway (w : World) (id : String) (ids : List String) (m : World) : Prop where
  origin : ∀ k stored, m.value .jobs k = some stored →
    w.value .jobs k = some stored ∨ k ∈ ids ∧ stored.workflowID = id
  live : ∀ k ∈ ids, ∃ stored, m.value .jobs k = some stored ∧ stored.workflowID = id ∧
    stored.state = .available
  used : ∀ k ∈ ids, k ∈ m.used
  workflows : m.kv .workflows = w.kv .workflows

theorem Underway.start : Underway w id [] w where
  origin := fun _ _ found => .inl found
  live := by simp
  used := by simp
  workflows := rfl

theorem Underway.keep {ids : List String} (h : Underway w id ids m)
    (jobs : t.kv .jobs = m.kv .jobs) (workflows : t.kv .workflows = m.kv .workflows)
    (used : ∀ k ∈ m.used, k ∈ t.used) : Underway w id ids t := by
  have value (j : String) : t.value .jobs j = m.value .jobs j :=
    congrArg (fun bucket => bucket.value j) jobs
  refine ⟨fun j stored found => h.origin j stored (value j ▸ found), fun j mem => ?_,
    fun j mem => used j (h.used j mem), workflows.trans h.workflows⟩
  rw [value]
  exact h.live j mem

/-- The push of one more job, as far as it goes. -/
theorem Underway.snoc {ids : List String} {stored : JobState} (h : Underway w id ids m)
    (unused : k ∉ m.used) (owner : stored.workflowID = id) (live : stored.state = .available)
    (jobs : t.kv .jobs = (m.put .jobs k stored).kv .jobs)
    (workflows : t.kv .workflows = m.kv .workflows) (used : t.used = k :: m.used) :
    Underway w id (ids ++ [k]) t := by
  have value (j : String) : t.value .jobs j = (m.put .jobs k stored).value .jobs j :=
    congrArg (fun bucket => bucket.value j) jobs
  refine ⟨fun j stored' found => ?_, fun j mem => ?_, fun j mem => ?_, workflows.trans h.workflows⟩
  · rw [value] at found
    by_cases same : j = k
    · subst same
      rw [value_put, dif_pos ⟨rfl, rfl⟩] at found
      cases found
      exact .inr ⟨by simp, owner⟩
    · rw [value_put_other (by simp [same])] at found
      exact (h.origin j stored' found).imp_right fun ⟨mem, mine⟩ => ⟨by simp [mem], mine⟩
  · rw [value]
    rcases List.mem_append.mp mem with earlier | last
    · rw [value_put_other (by rintro ⟨-, rfl⟩; exact unused (h.used j earlier))]
      exact h.live j earlier
    · rw [List.mem_singleton.mp last, value_put, dif_pos ⟨rfl, rfl⟩]
      exact ⟨stored, rfl, owner, live⟩
  · rw [used]
    rcases List.mem_append.mp mem with earlier | last
    · exact List.mem_cons_of_mem _ (h.used j earlier)
    · exact List.mem_singleton.mp last ▸ List.mem_cons_self

/-- How the pushes of the jobs of a workflow end. -/
inductive Ends (w : World) (id : String) (log : List Op) (total : Nat) :
    Result (List String) → World × List Op → Prop
  | pushed {ids : List String} {t : World} {quiet : List Op} : Underway w id ids t →
      ids.length = total → Quiet quiet → Ends w id log total (.ok ids) (t, log ++ quiet)
  | unstored {ids : List String} {t : World} {quiet : List Op} {e : BackendError} {k : String}
      {stored : JobState} : Underway w id ids t → ids.length < total → Quiet quiet →
      stored.workflowStep = ids.length →
      Ends w id log total (.error e) (t, log ++ quiet ++ [.put .jobs k stored])
  | unpublished {ids : List String} {t : World} {quiet : List Op} {e : BackendError}
      {k subject : String} : Underway w id ids t → ids ≠ [] → ids.length ≤ total → Quiet quiet →
      Ends w id log total (.error e) (t, log ++ quiet ++ [.publish subject k])

theorem wp_pushMembers {steps : List WorkflowJobRequest} {ids : List String} {quiet : List Op}
    (under : Underway w id ids m) (silent : Quiet quiet) :
    faulty.wp (pushMembers lib id ids.length steps ids)
      (Ends w id log (ids.length + steps.length)) (m, log ++ quiet) := by
  induction steps generalizing ids m quiet with
  | nil => exact wp_pure.mpr (.pushed under rfl silent)
  | cons step rest ih =>
    have further {more : List Op} (also : Quiet more) : Quiet (quiet ++ more) := by
      intro op mem
      exact (List.mem_append.mp mem).elim (silent op) (also op)
    simp only [pushMembers, bind_eq, pure_eq]
    refine wp_bind.mpr (wp_push ?_ ?_ ?_)
    · intro k more t job unused also named jobs workflows used _
      obtain ⟨owner, -, live⟩ := memberRecord_terms lib m.clock id k ids.length step
      have next := ih (under.snoc unused owner live jobs workflows used) (further also)
      simp only [List.length_append, List.length_singleton, List.append_assoc] at next ⊢
      rw [named, List.length_cons, show ids.length + (rest.length + 1) =
        ids.length + 1 + rest.length by omega]
      exact next
    · intro k more t e also jobs workflows used
      obtain ⟨-, position, -⟩ := memberRecord_terms lib m.clock id k ids.length step
      have same := under.keep jobs workflows fun j known => used ▸ List.mem_cons_of_mem _ known
      refine wp_pure.mpr ?_
      rw [List.append_assoc log]
      exact .unstored same (by simp) (further also) position
    · intro k more t e subject unused also jobs workflows used
      obtain ⟨owner, -, live⟩ := memberRecord_terms lib m.clock id k ids.length step
      have next := under.snoc unused owner live jobs workflows used
      refine wp_pure.mpr ?_
      rw [List.append_assoc log]
      exact .unpublished next (by simp) (by simp) (further also)

theorem wp_pushMembers_all (v : World) (steps : List WorkflowJobRequest) :
    faulty.wp (pushMembers lib id 0 steps []) (Ends v id log steps.length) (v, log) := by
  have all : faulty.wp (pushMembers lib id ([] : List String).length steps [])
      (Ends v id log (([] : List String).length + steps.length)) (v, log ++ []) :=
    wp_pushMembers .start (by simp [Quiet])
  simpa only [List.length_nil, Nat.zero_add, List.append_nil] using all

/-! ## Creating a workflow -/

/-- Every id the stores know has been handed out. -/
structure Recorded (w : World) : Prop where
  workflows : ∀ id, id ∉ w.used → w.value .workflows id = none
  owners : ∀ k stored, w.value .jobs k = some stored → stored.workflowID ≠ "" →
    stored.workflowID ∈ w.used

/-- Nothing of a new workflow is left: no job of it that can run, and no record that runs. -/
def Undone (w t : World) : Prop := ∀ id, id ≠ "" → id ∉ w.used →
  (∀ wfState, t.value .workflows id = some wfState → wfState.state ≠ "running") ∧
    ∀ k stored, t.value .jobs k = some stored → stored.workflowID = id →
      stored.state ≠ .available ∧ stored.state ≠ .scheduled

/-- The record of the workflow lists every job of it. -/
def Complete (t : World) (id : String) : Prop := ∃ wfState, t.value .workflows id = some wfState ∧
  ∀ k stored, t.value .jobs k = some stored → stored.workflowID = id → k ∈ wfState.jobIDs

/-- `CreateWorkflow` has done everything or left nothing behind. -/
def AllOrNothing (w : World) (r : Result Workflow) (t : World) : Prop :=
  match r with
  | .ok wf => Complete t wf.id
  | .error _ => Undone w t

/-- The call writes a workflow record that lists no job. -/
def opens : Op → Bool
  | .put .workflows _ wfState => (wfState : WorkflowState).jobIDs.isEmpty
  | _ => false

/-- The call writes a workflow record that lists jobs. -/
def closes : Op → Bool
  | .put .workflows _ wfState => !(wfState : WorkflowState).jobIDs.isEmpty
  | _ => false

/-- The call stores a job. -/
def stores : Op → Bool
  | .put .jobs _ _ => true
  | _ => false

/-- The call stores the first job of a workflow. -/
def storesFirst : Op → Bool
  | .put .jobs _ stored => (stored : JobState).workflowStep = 0
  | _ => false

def publishes : Op → Bool
  | .publish _ _ => true
  | _ => false

/-- The jobs that `CreateWorkflow` pushes. -/
def firstJobs (req : WorkflowRequest) : List WorkflowJobRequest :=
  if req.type = "chain" then req.steps.take 1 else req.jobs

/-- The failing calls do no harm: no job, message or closing record is lost, or the
record was never opened and the first job was not stored. -/
def Harmless (req : WorkflowRequest) (failed : List Op) : Prop :=
  if firstJobs req = [] then
    if req.type = "chain" then failed.any opens = true else failed.countP opens ≤ 1
  else
    (failed.any stores = false ∧ failed.any publishes = false ∧ failed.any closes = false) ∨
      (failed.any opens = true ∧ failed.any storesFirst = true)

theorem onlyOn_foreign {op : Op} (only : OnlyOn .queues op) : opens op = false ∧
    closes op = false ∧ stores op = false ∧ storesFirst op = false ∧ publishes op = false := by
  cases op with
  | put b =>
    cases b with
    | queues => exact ⟨rfl, rfl, rfl, rfl, rfl⟩
    | _ => cases only
  | get | create | update => exact ⟨rfl, rfl, rfl, rfl, rfl⟩
  | _ => exact only.elim

theorem Quiet.any {failed : List Op} {p : Op → Bool} (quiet : Quiet failed)
    (foreign : ∀ op, OnlyOn .queues op → p op = false) : failed.any p = false :=
  List.any_eq_false.mpr fun op mem => by simp [foreign op (quiet op mem)]

/-- The world and the failed calls after the first write of the record. -/
inductive Opened (w : World) (id : String) (wfState : WorkflowState) : World → List Op → Prop
  | written : Opened w id wfState
      (({ w with used := id :: w.used } : World).put .workflows id wfState) []
  | lost : Opened w id wfState { w with used := id :: w.used } [.put .workflows id wfState]

section Opened

variable {v u : World} {wfState : WorkflowState} {ids : List String}

theorem Opened.jobs (opened : Opened w id wfState v log) : v.kv .jobs = w.kv .jobs := by
  cases opened <;> rfl

theorem Opened.record (opened : Opened w id wfState v log) (recorded : Recorded w)
    (unused : id ∉ w.used) :
    v.value .workflows id = if log = [] then some wfState else none := by
  cases opened with
  | written => rw [value_put, dif_pos ⟨rfl, rfl⟩, if_pos rfl]
  | lost => exact recorded.workflows id unused

theorem Opened.opens_countP (opened : Opened w id wfState v log) (empty : wfState.jobIDs = []) :
    log.countP opens = if log = [] then 0 else 1 := by
  cases opened <;> simp [opens, empty]

theorem Opened.opens_any (opened : Opened w id wfState v log) (empty : wfState.jobIDs = []) :
    log.any opens = true ↔ log ≠ [] := by
  cases opened <;> simp [opens, empty]

/-- A job of the new workflow is one of those it pushed. -/
theorem Underway.pushed (under : Underway v id ids u) (jobs : v.kv .jobs = w.kv .jobs)
    (recorded : Recorded w) {id' : String} (nonempty : id' ≠ "") (unused : id' ∉ w.used)
    {stored : JobState} (found : u.value .jobs k = some stored) (owner : stored.workflowID = id') :
    k ∈ ids ∧ id' = id := by
  rcases under.origin k stored found with before | ⟨mem, mine⟩
  · have before' : w.value .jobs k = some stored := value_of_kv jobs k ▸ before
    exact absurd (owner ▸ recorded.owners k stored before' (owner ▸ nonempty)) unused
  · exact ⟨mem, owner.symm.trans mine⟩

theorem Underway.undone_iff (under : Underway v id ids u) (opened : Opened w id wfState v log)
    (recorded : Recorded w) (nonempty : id ≠ "") (unused : id ∉ w.used)
    (running : wfState.state = "running") : Undone w u ↔ log ≠ [] ∧ ids = [] := by
  have workflows (id' : String) : u.value .workflows id' = v.value .workflows id' :=
    value_of_kv under.workflows id'
  have jobs := opened.jobs
  constructor
  · intro undone
    obtain ⟨stopped, idle⟩ := undone id nonempty unused
    constructor
    · cases opened with
      | written =>
        refine absurd running (stopped wfState ?_)
        rw [workflows, value_put, dif_pos ⟨rfl, rfl⟩]
      | lost => simp
    · refine List.eq_nil_iff_forall_not_mem.mpr fun k mem => ?_
      obtain ⟨stored, found, owner, live⟩ := under.live k mem
      exact (idle k stored found owner).1 live
  · rintro ⟨lost, rfl⟩ id' nonempty' unused'
    cases opened with
    | written => exact absurd rfl lost
    | lost =>
      refine ⟨fun wfState' found => ?_, fun k stored found owner => ?_⟩
      · cases (recorded.workflows id' unused').symm.trans ((workflows id').symm.trans found)
      · exact absurd (under.pushed jobs recorded nonempty' unused' found owner).1 (by simp)

/-- What `CreateWorkflow` does once the jobs are pushed. -/
def closing (wf : Workflow) (wfState : WorkflowState) (id : String) :
    Result (List String) → Prog (Result Workflow)
  | .error e => .pure (.error e)
  | .ok ids => do
      putWorkflow { wfState with jobIDs := ids } id
      return .ok wf

theorem Opened.any_stores (opened : Opened w id wfState v log) : log.any stores = false ∧
    log.any storesFirst = false ∧ log.any publishes = false := by
  cases opened <;> exact ⟨rfl, rfl, rfl⟩

/-- The end of `CreateWorkflow` leaves everything or nothing just if the failed calls did no harm. -/
theorem Ends.closing {req : WorkflowRequest} {wf : Workflow} {r : Result (List String)}
    {s : World × List Op} (opened : Opened w id wfState v log) (recorded : Recorded w)
    (nonempty : id ≠ "") (unused : id ∉ w.used) (running : wfState.state = "running")
    (empty : wfState.jobIDs = []) (own : wf.id = id)
    (group : firstJobs req = [] → req.type ≠ "chain")
    (ends : Ends v id log (firstJobs req).length r s) :
    faulty.wp (Faults.closing wf wfState id r)
      (fun r s => AllOrNothing w r s.1 ↔ Harmless req s.2) s := by
  obtain ⟨stored, first, published⟩ := opened.any_stores
  have closes_log : log.any closes = false := by
    cases opened <;> simp [closes, empty]
  cases ends with
  | @pushed ids u quiet under length silent =>
    have none : ids = [] ↔ firstJobs req = [] := by
      rw [← List.length_eq_zero_iff, length, List.length_eq_zero_iff]
    have idle := silent.any fun _ only => (onlyOn_foreign only).1
    have unclosed := silent.any fun _ only => (onlyOn_foreign only).2.1
    have kept := silent.any fun _ only => (onlyOn_foreign only).2.2.1
    have late := silent.any fun _ only => (onlyOn_foreign only).2.2.2.1
    have sent := silent.any fun _ only => (onlyOn_foreign only).2.2.2.2
    have mine {k : String} {stored : JobState} (found : u.value .jobs k = some stored)
        (owner : stored.workflowID = id) : k ∈ ids :=
      (under.pushed opened.jobs recorded nonempty unused found owner).1
    have uncounted : quiet.countP opens = 0 :=
      List.countP_eq_zero.mpr fun op mem => by simp [(onlyOn_foreign (silent op mem)).1]
    have counted := opened.opens_countP empty
    have record : u.value .workflows id = if log = [] then some wfState else Option.none :=
      (value_of_kv under.workflows id).trans (opened.record recorded unused)
    simp only [Faults.closing, bind_eq, pure_eq]
    refine wp_bind.mpr (wp_putWorkflow.mpr ⟨wp_pure.mpr ?_, wp_pure.mpr ?_⟩)
    · refine iff_of_true ?_ ?_
      · show Complete _ wf.id
        rw [own]
        refine ⟨_, by rw [value_put, dif_pos ⟨rfl, rfl⟩], fun k stored found owner => ?_⟩
        rw [value_put_other (by simp)] at found
        exact mine found owner
      · unfold Harmless
        split
        · rename_i nobody
          rw [if_neg (group nobody), List.countP_append, uncounted, counted]
          split <;> simp
        · left
          simp only [List.any_append, stored, kept, published, sent, closes_log, unclosed,
            Bool.or_false, and_self]
    · show Complete u wf.id ↔ _
      rw [own]
      by_cases nobody : ids = []
      · have last : opens (.put .workflows id { wfState with jobIDs := ids }) = true := by
          simp [opens, nobody]
        rw [Harmless, if_pos (none.mp nobody), if_neg (group (none.mp nobody)), List.countP_append,
          List.countP_append, uncounted, counted, List.countP_singleton, if_pos last]
        by_cases written : log = []
        · refine iff_of_true ⟨wfState, by rw [record, if_pos written], ?_⟩ (by simp [written])
          intro k stored found owner
          exact absurd (mine found owner) (by simp [nobody])
        · refine iff_of_false ?_ (by simp [written])
          rintro ⟨wfState', found, -⟩
          rw [record, if_neg written] at found
          cases found
      · refine iff_of_false ?_ ?_
        · rintro ⟨wfState', found, listed⟩
          obtain ⟨k, mem⟩ := List.exists_mem_of_ne_nil ids nobody
          obtain ⟨stored, live, owner, -⟩ := under.live k mem
          have here := listed k stored live owner
          rw [record] at found
          split at found
          · cases found
            simp [empty] at here
          · cases found
        · have last : closes (.put .workflows id { wfState with jobIDs := ids }) = true := by
            simp [closes, nobody]
          rw [Harmless, if_neg fun all => nobody (none.mpr all)]
          simp only [List.any_append, List.any_cons, List.any_nil, late, first, last, storesFirst,
            Bool.or_false, Bool.or_true, Bool.true_eq_false, Bool.false_eq_true, and_false,
            or_self, not_false_eq_true]
  | @unstored ids u quiet e k stored under length silent position =>
    have some : firstJobs req ≠ [] := List.ne_nil_of_length_pos (by omega)
    refine wp_pure.mpr ((under.undone_iff opened recorded nonempty unused running).trans ?_)
    have idle := silent.any fun _ only => (onlyOn_foreign only).1
    have late := silent.any fun _ only => (onlyOn_foreign only).2.2.2.1
    have isFirst : stored.workflowStep = 0 ↔ ids = [] := by
      rw [position, Int.natCast_eq_zero, List.length_eq_zero_iff]
    rw [Harmless, if_neg some]
    simp only [List.any_append, List.any_cons, List.any_nil, idle, late, first, opens, stores,
      storesFirst, Bool.or_false, Bool.false_or, Bool.or_true, Bool.true_eq_false, false_and,
      false_or, opened.opens_any empty, decide_eq_true_eq, isFirst]
  | @unpublished ids u quiet e k subject under pushed length silent =>
    have some : firstJobs req ≠ [] :=
      List.ne_nil_of_length_pos (by have := List.length_pos_of_ne_nil pushed; omega)
    refine wp_pure.mpr ((under.undone_iff opened recorded nonempty unused running).trans ?_)
    have late := silent.any fun _ only => (onlyOn_foreign only).2.2.2.1
    rw [Harmless, if_neg some]
    simp only [List.any_append, List.any_cons, List.any_nil, late, first, storesFirst, publishes,
      Bool.or_false, Bool.or_true, Bool.true_eq_false, Bool.false_eq_true, false_and, and_false,
      pushed, or_false]

end Opened

/-- The jobs of a chain are pushed like those of a group that ends after the first one. -/
theorem push_first (step : WorkflowJobRequest) (wf : Workflow) (wfState : WorkflowState) :
    (pushMembers lib id 0 [step] []).bind (closing wf wfState id) =
      (push lib (workflowStepToJob step id 0)).bind fun r => match r with
        | .error e => .pure (.error e)
        | .ok created => (putWorkflow { wfState with jobIDs := [created.id] } id).bind fun _ =>
            .pure (.ok wf) := by
  simp only [pushMembers, bind_eq, pure_eq, Program.bind_assoc]
  congr 1
  funext r
  cases r <;> rfl

/-- Creating a workflow is all or nothing just if the failing calls do no harm. -/
theorem create_all_or_nothing_iff {req : WorkflowRequest} {r : Result Workflow}
    {failed : List Op} (recorded : Recorded w)
    (exec : faulty.Exec (createWorkflow lib req) (w, []) r (t, failed)) :
    AllOrNothing w r t ↔ Harmless req failed := by
  suffices holds : faulty.wp (createWorkflow lib req)
      (fun r s => AllOrNothing w r s.1 ↔ Harmless req s.2) (w, []) from holds r (t, failed) exec
  simp only [createWorkflow, bind_eq, pure_eq, wp_bind, wp_timeNow, wp_newUUIDv7]
  intro id nonempty unused
  generalize shape : newWorkflowState lib id req (if req.type = "chain" then req.steps else req.jobs)
    w.clock = wfState
  have running : wfState.state = "running" := by rw [← shape]; rfl
  have empty : wfState.jobIDs = [] := by rw [← shape]; rfl
  have pushing {v : World} {log : List Op} {wf : Workflow} (opened : Opened w id wfState v log)
      (own : wf.id = id) (group : firstJobs req = [] → req.type ≠ "chain") :
      faulty.wp ((pushMembers lib id 0 (firstJobs req) []).bind (closing wf wfState id))
        (fun r s => AllOrNothing w r s.1 ↔ Harmless req s.2) (v, log) := by
    refine wp_bind.mpr ((wp_pushMembers_all v (firstJobs req)).mono fun r s ends => ?_)
    exact ends.closing opened recorded nonempty unused running empty own group
  have own : (newWorkflow lib id req (if req.type = "chain" then req.steps else req.jobs).length
      w.clock).id = id := by
    unfold newWorkflow
    split <;> rfl
  rw [wp_putWorkflow]
  by_cases chain : req.type = "chain"
  · simp only [chain, ↓reduceIte] at own ⊢
    cases steps : req.steps with
    | nil =>
      have nobody : firstJobs req = [] := by rw [firstJobs, if_pos chain, steps, List.take_nil]
      have panics {v : World} {log : List Op} (opened : Opened w id wfState v log) :
          Undone w v ↔ Harmless req log := by
        rw [Underway.start.undone_iff opened recorded nonempty unused running, Harmless,
          if_pos nobody, if_pos chain, opened.opens_any empty]
        simp
      exact ⟨wp_pure.mpr (panics .written), wp_pure.mpr (panics .lost)⟩
    | cons step rest =>
      have jobs : firstJobs req = [step] := by rw [firstJobs, if_pos chain, steps, List.take_one]; rfl
      rw [jobs] at pushing
      simp only [push_first] at pushing
      rw [steps] at own
      exact ⟨pushing .written own (by simp), pushing .lost own (by simp)⟩
  · simp only [chain, ↓reduceIte] at own ⊢
    have jobs : firstJobs req = req.jobs := if_neg chain
    rw [jobs] at pushing
    exact ⟨pushing .written own fun _ => chain, pushing .lost own fun _ => chain⟩

/-- In every state that a run reaches the ids of the stores have been handed out. -/
theorem Recorded.of_linked (linked : Linked w) : Recorded w where
  workflows id unused := by
    cases found : w.value .workflows id with
    | none => rfl
    | some wfState => exact absurd (linked.known id wfState found).1 unused
  owners k stored found nonempty := by
    have listed := (linked.owned k stored found nonempty).2
    cases record : w.value .workflows stored.workflowID with
    | none =>
      rw [roster, record] at listed
      cases listed
    | some wfState => exact (linked.known _ wfState record).1

/-- What is left of the group of two jobs and whether its creation reported an error. -/
def leftover (r : Result Workflow × World × List Op) : Bool × Option String :=
  (match r.1 with | .ok _ => false | .error _ => true,
    (r.2.1.value .workflows (pairID 0)).map WorkflowState.state)

/-- The record of the second job of a workflow cannot be stored. -/
def secondLost : Op → Bool
  | .put .jobs _ stored => (stored : JobState).workflowStep = 1
  | _ => false

theorem create_all_or_nothing_unopened : ∃ r t failed, failed ≠ [] ∧
    faulty.Exec (createWorkflow sample pair) (World.start (Sample.instant 0), []) r (t, failed) ∧
    AllOrNothing (World.start (Sample.instant 0)) r t := by
  have runs : (executeFailing opens (createWorkflow sample pair)
      (World.start (Sample.instant 0), [])).isSome := by decide
  obtain ⟨⟨r, t, failed⟩, executed⟩ := Option.isSome_iff_exists.mp runs
  have facts : (executeFailing opens (createWorkflow sample pair)
      (World.start (Sample.instant 0), [])).map (fun r =>
        (r.2.2.any opens, r.2.2.any stores, r.2.2.any publishes, r.2.2.any closes)) =
      some (true, false, false, false) := by decide
  rw [executed, Option.map_some, Option.some_inj] at facts
  simp only [Prod.mk.injEq] at facts
  obtain ⟨opened, stored, published, closed⟩ := facts
  have exec := exec_of_executeFailing executed
  refine ⟨r, t, failed, ?_, exec, (create_all_or_nothing_iff (.of_linked (.start _)) exec).mpr ?_⟩
  · rintro rfl
    cases opened
  · rw [Harmless, if_neg (by decide)]
    exact .inl ⟨stored, published, closed⟩

/-- When its second job cannot be stored, a group is left running. -/
theorem not_create_all_or_nothing : ¬ ∀ (lib : Externals) (w : World) (req : WorkflowRequest)
    (r : Result Workflow) (t : World) (failed : List Op), Recorded w →
    faulty.Exec (createWorkflow lib req) (w, []) r (t, failed) → AllOrNothing w r t := by
  intro whole
  have runs : (executeFailing secondLost (createWorkflow sample pair)
      (World.start (Sample.instant 0), [])).isSome := by decide
  obtain ⟨⟨r, t, failed⟩, executed⟩ := Option.isSome_iff_exists.mp runs
  have facts : (executeFailing secondLost (createWorkflow sample pair)
      (World.start (Sample.instant 0), [])).map leftover = some (true, some "running") := by decide
  rw [executed, Option.map_some, Option.some_inj, leftover] at facts
  have undone := whole sample _ pair r t failed (.of_linked (.start _))
    (exec_of_executeFailing executed)
  cases r with
  | ok wf => simp at facts
  | error e =>
    obtain ⟨-, record⟩ := Prod.mk.inj facts
    obtain ⟨wfState, found, running⟩ := Option.map_eq_some_iff.mp record
    exact (undone (pairID 0) (by decide) (by simp [World.start])).1 wfState found running

end OjsNats.Faults
