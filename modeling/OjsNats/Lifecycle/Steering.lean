import OjsNats.Lifecycle.System

/-!
# What a report makes of a workflow

The exact effect of creating, advancing and cancelling a workflow: the record it
leaves, the jobs it pushes, and that no other workflow and no other job is
touched.
-/

namespace OjsNats.Lifecycle

open Core Nats Effect Semantics Program

variable {lib : Externals} {w t u : World}

/-! ## Pushes under generated ids -/

/-- The jobs have been pushed in turn under new ids; nothing else is touched. -/
structure Pushed (lib : Externals) (jobs : List Job) (ids : List String) (w t : World) : Prop where
  length : ids.length = jobs.length
  nodup : ids.Nodup
  fresh : ∀ id ∈ ids, id ≠ "" ∧ id ∉ w.used
  used : ∀ id, id ∈ t.used ↔ id ∈ ids ∨ id ∈ w.used
  clock : t.clock = w.clock
  slots : ∀ id job, (id, job) ∈ ids.zip jobs →
    t.slot id = storedSlot lib w.clock (freshJob lib id w.clock job) Slot.vacant
  others : ∀ j, j ∉ ids → t.slot j = w.slot j

theorem Pushed.nil (same : SameBoard w t) : Pushed lib [] [] w t where
  length := rfl
  nodup := List.nodup_nil
  fresh := fun _ mem => nomatch mem
  used := fun id => by simp [same.used]
  clock := same.clock
  slots := fun _ _ mem => nomatch mem
  others := fun j _ => same.slots j

theorem Pushed.trans {jobs jobs' : List Job} {ids ids' : List String}
    (h : Pushed lib jobs ids w t) (h' : Pushed lib jobs' ids' t u) :
    Pushed lib (jobs ++ jobs') (ids ++ ids') w u where
  length := by rw [List.length_append, List.length_append, h.length, h'.length]
  nodup := by
    refine List.nodup_append.mpr ⟨h.nodup, h'.nodup, ?_⟩
    rintro id mem _ mem' rfl
    exact (h'.fresh id mem').2 ((h.used id).mpr (.inl mem))
  fresh := by
    intro id mem
    rcases List.mem_append.mp mem with mem | mem
    · exact h.fresh id mem
    · exact ⟨(h'.fresh id mem).1, fun known => (h'.fresh id mem).2 ((h.used id).mpr (.inr known))⟩
  used := by
    intro id
    rw [h'.used, h.used, List.mem_append]
    tauto
  clock := h'.clock.trans h.clock
  slots := by
    intro id job mem
    rw [List.zip_append h.length] at mem
    rcases List.mem_append.mp mem with mem | mem
    · have known : id ∈ t.used := (h.used id).mpr (.inl (List.of_mem_zip mem).1)
      rw [h'.others id fun mem' => (h'.fresh id mem').2 known]
      exact h.slots id job mem
    · rw [← h.clock]
      exact h'.slots id job mem
  others := by
    intro j absent
    rw [List.mem_append, not_or] at absent
    rw [h'.others j absent.2, h.others j absent.1]

theorem Pushed.before (same : SameBoard w t) {jobs : List Job} {ids : List String}
    (h : Pushed lib jobs ids t u) : Pushed lib jobs ids w u := (Pushed.nil same).trans h

theorem Pushed.after {jobs : List Job} {ids : List String} (h : Pushed lib jobs ids w t)
    (same : SameBoard t u) : Pushed lib jobs ids w u := by
  simpa using h.trans (.nil same)

/-- A push that no client sent stores the job under a new id and leaves the shared buckets. -/
theorem wp_push_pushed {job : Job} {Q : Result Job → World → Prop} (new : Unclaimed job)
    (sound : Sound w) (pushed : ∀ id state t, Pushed lib [job] [id] w t → Sound t →
      (∀ b, Guarded b = true → t.kv b = w.kv b) →
      Q (.ok (enqueuedJob lib state w.clock (freshJob lib id w.clock job))) t) :
    serves.wp (push lib job) Q w := by
  have stores : serves.wp (push lib job) (fun r t => ∃ id state,
      r = .ok (enqueuedJob lib state w.clock (freshJob lib id w.clock job)) ∧
      Pushed lib [job] [id] w t ∧ ∀ b, Guarded b = true → t.kv b = w.kv b) w := by
    simp only [push, bind_eq, pure_eq, wp_bind, wp_timeNow, new.id, ↓reduceIte, wp_newUUIDv7]
    intro id nonempty unused
    have free : (freshJob lib id w.clock job).unique = none := by simp [freshJob, new.unique]
    have vacant : w.slot id = Slot.vacant := by
      refine (sound.placed id).eq_vacant ?_
      by_contra known
      exact unused (sound.known id known).1
    simp only [free]
    refine wp_storeJob_stores (w := { w with used := id :: w.used }) fun state t moved _ =>
      ⟨id, state, rfl, ⟨rfl, List.nodup_singleton id, ?_, ?_, moved.clock, ?_, ?_⟩, moved.kv⟩
    · simp [nonempty, unused]
    · intro other
      simp [moved.used]
    · intro other job' mem
      simp only [List.zip_cons_cons, List.zip_nil_right, List.mem_singleton, Prod.mk.injEq] at mem
      obtain ⟨rfl, rfl⟩ := mem
      exact moved.slot.trans (by rw [← vacant]; rfl)
    · intro j absent
      exact moved.others j fun same => absent (List.mem_singleton.mpr same)
  refine (stores.and (push_spawns new w sound)).mono fun r t ⟨⟨id, state, same, done, kv⟩, evolves⟩ => ?_
  subst same
  exact pushed id state t done (evolves.sound sound) kv

/-! ## The jobs of a workflow -/

def callbackJob (cb : WorkflowCallback) : Job :=
  { type := cb.type, args := cb.args, queue := optionsQueue cb.options }

/-- The jobs that `fireIf` pushes. -/
def firedJobs (condition : Bool) (cb : Option WorkflowCallback) : List Job :=
  if condition then cb.toList.map callbackJob else []

/-- The jobs pushed at the end of a batch. -/
def callbackJobs (wfState : WorkflowState) (hasFailure : Bool) : List Job :=
  match wfState.callbacks with
  | none => []
  | some callbacks => firedJobs true callbacks.onComplete ++
      firedJobs (!hasFailure) callbacks.onSuccess ++ firedJobs hasFailure callbacks.onFailure

/-- The job of a chain's step, with the results of the steps before it. -/
def chainJob (workflowID : String) (wfState : WorkflowState) (stepIdx : Int)
    (step : WorkflowJobRequest) : Job :=
  { workflowStepToJob step workflowID stepIdx with parentResults := parentResults wfState stepIdx }

/-- The jobs that `enqueueChainStep` pushes: one, or none past the end. -/
def chainJobs (workflowID : String) (wfState : WorkflowState) (stepIdx : Int) : List Job :=
  if stepIdx < 0 then [] else
    (wfState.jobDefs[stepIdx.toNat]?).toList.map (chainJob workflowID wfState stepIdx)

/-- The jobs that `pushMembers` pushes. -/
def memberJobs (workflowID : String) : Nat → List WorkflowJobRequest → List Job
  | _, [] => []
  | i, step :: rest => workflowStepToJob step workflowID i :: memberJobs workflowID (i + 1) rest

theorem unclaimed_chainJob (workflowID : String) (wfState : WorkflowState) (stepIdx : Int)
    (step : WorkflowJobRequest) : Unclaimed (chainJob workflowID wfState stepIdx step) :=
  have plain := unclaimed_workflowStepToJob step workflowID stepIdx
  ⟨plain.id, plain.unique, plain.errors⟩

/-- Pushes that leave the shared buckets alone. -/
structure PushedAside (lib : Externals) (jobs : List Job) (ids : List String) (w t : World) : Prop
    extends Pushed lib jobs ids w t where
  sound : Sound t
  kv : ∀ b, Guarded b = true → t.kv b = w.kv b

theorem PushedAside.nil (sound : Sound w) : PushedAside lib [] [] w w :=
  ⟨.nil (.refl w), sound, fun _ _ => rfl⟩

theorem PushedAside.trans {jobs jobs' : List Job} {ids ids' : List String}
    (h : PushedAside lib jobs ids w t) (h' : PushedAside lib jobs' ids' t u) :
    PushedAside lib (jobs ++ jobs') (ids ++ ids') w u :=
  ⟨h.toPushed.trans h'.toPushed, h'.sound, fun b guarded => (h'.kv b guarded).trans (h.kv b guarded)⟩

theorem wp_fireIf {condition : Bool} {cb : Option WorkflowCallback} (sound : Sound w) :
    serves.wp (fireIf lib condition cb)
      (fun _ t => ∃ ids, PushedAside lib (firedJobs condition cb) ids w t) w := by
  unfold fireIf firedJobs
  cases cb with
  | none => exact wp_pure.mpr ⟨[], by cases condition <;> exact .nil sound⟩
  | some cb =>
    cases condition with
    | false => exact wp_pure.mpr ⟨[], .nil sound⟩
    | true =>
      refine wp_bind.mpr (wp_push_pushed ⟨rfl, rfl, rfl⟩ sound fun id state t done sound' kv => ?_)
      exact wp_pure.mpr ⟨[id], done, sound', kv⟩

theorem wp_fireBatchCallbacks {wfState : WorkflowState} {hasFailure : Bool} (sound : Sound w) :
    serves.wp (fireBatchCallbacks lib wfState hasFailure)
      (fun _ t => ∃ ids, PushedAside lib (callbackJobs wfState hasFailure) ids w t) w := by
  unfold fireBatchCallbacks callbackJobs
  cases wfState.callbacks with
  | none => exact wp_pure.mpr ⟨[], .nil sound⟩
  | some callbacks =>
    refine wp_bind.mpr ((wp_fireIf sound).mono fun _ t ⟨ids, first⟩ => ?_)
    refine wp_bind.mpr ((wp_fireIf first.sound).mono fun _ u ⟨ids', second⟩ => ?_)
    refine (wp_fireIf second.sound).mono fun _ v ⟨ids'', third⟩ => ?_
    exact ⟨_, (first.trans second).trans third⟩

theorem wp_pushMembers {workflowID : String} {i : Nat} {steps : List WorkflowJobRequest}
    {ids : List String} (sound : Sound w) : serves.wp (pushMembers lib workflowID i steps ids)
      (fun r t => ∃ new, r = .ok (ids ++ new) ∧
        PushedAside lib (memberJobs workflowID i steps) new w t) w := by
  induction steps generalizing w i ids with
  | nil => exact wp_pure.mpr ⟨[], by simp, .nil sound⟩
  | cons step rest ih =>
    refine wp_bind.mpr (wp_push_pushed (unclaimed_workflowStepToJob _ _ _) sound
      fun id state t done sound' kv => ?_)
    refine (ih sound').mono fun r u ⟨new, same, more⟩ => ⟨id :: new, ?_, ?_⟩
    · rw [same, List.append_assoc]
      rfl
    · have first : PushedAside lib [workflowStepToJob step workflowID i] [id] w t :=
        ⟨done, sound', kv⟩
      exact first.trans more

/-! ## Advancing -/

/-- The record after a report, up to the id of the job it pushes. -/
def settledWorkflow (lib : Externals) (now : Int) (wfState : WorkflowState) (stepIdx : Int)
    (result : Option RawMessage) (failed : Bool) : WorkflowState :=
  let counted := countedWorkflow wfState stepIdx result failed
  if counted.type = "chain" then
    if failed then finishedWorkflow lib counted "failed" now
    else if counted.total ≤ counted.completed + counted.failed then
      finishedWorkflow lib counted "completed" now
    else counted
  else if counted.total ≤ counted.completed + counted.failed then
    finishedWorkflow lib counted (if 0 < counted.failed then "failed" else "completed") now
  else counted

/-- The jobs that a report pushes. -/
def successorJobs (workflowID : String) (wfState : WorkflowState) (stepIdx : Int)
    (result : Option RawMessage) (failed : Bool) : List Job :=
  let counted := countedWorkflow wfState stepIdx result failed
  if counted.type = "chain" then
    if failed ∨ counted.total ≤ counted.completed + counted.failed then []
    else chainJobs workflowID counted (stepIdx + 1)
  else if counted.total ≤ counted.completed + counted.failed ∧ counted.type = "batch" then
    callbackJobs counted (decide (0 < counted.failed))
  else []

section Settled

variable {now stepIdx : Int} {wfState : WorkflowState} {result : Option RawMessage} {failed : Bool}

@[simp] theorem countedWorkflow_type :
    (countedWorkflow wfState stepIdx result failed).type = wfState.type := by
  cases result <;> cases failed <;> rfl

theorem settledWorkflow_chain (chain : wfState.type = "chain") :
    settledWorkflow lib now wfState stepIdx result failed =
      if failed then
        finishedWorkflow lib (countedWorkflow wfState stepIdx result failed) "failed" now
      else if (countedWorkflow wfState stepIdx result failed).total ≤
          (countedWorkflow wfState stepIdx result failed).completed +
            (countedWorkflow wfState stepIdx result failed).failed then
        finishedWorkflow lib (countedWorkflow wfState stepIdx result failed) "completed" now
      else countedWorkflow wfState stepIdx result failed :=
  if_pos (countedWorkflow_type.trans chain)

theorem settledWorkflow_group (group : wfState.type ≠ "chain") :
    settledWorkflow lib now wfState stepIdx result failed =
      if (countedWorkflow wfState stepIdx result failed).total ≤
          (countedWorkflow wfState stepIdx result failed).completed +
            (countedWorkflow wfState stepIdx result failed).failed then
        finishedWorkflow lib (countedWorkflow wfState stepIdx result failed)
          (if 0 < (countedWorkflow wfState stepIdx result failed).failed then "failed"
            else "completed") now
      else countedWorkflow wfState stepIdx result failed :=
  if_neg fun chain => group (countedWorkflow_type.symm.trans chain)

theorem successorJobs_chain (workflowID : String) (chain : wfState.type = "chain") :
    successorJobs workflowID wfState stepIdx result failed =
      if failed ∨ (countedWorkflow wfState stepIdx result failed).total ≤
          (countedWorkflow wfState stepIdx result failed).completed +
            (countedWorkflow wfState stepIdx result failed).failed then []
      else chainJobs workflowID (countedWorkflow wfState stepIdx result failed) (stepIdx + 1) :=
  if_pos (countedWorkflow_type.trans chain)

theorem successorJobs_group (workflowID : String) (group : wfState.type ≠ "chain") :
    successorJobs workflowID wfState stepIdx result failed =
      if (countedWorkflow wfState stepIdx result failed).total ≤
          (countedWorkflow wfState stepIdx result failed).completed +
            (countedWorkflow wfState stepIdx result failed).failed ∧
          (countedWorkflow wfState stepIdx result failed).type = "batch" then
        callbackJobs (countedWorkflow wfState stepIdx result failed)
          (decide (0 < (countedWorkflow wfState stepIdx result failed).failed))
      else [] :=
  if_neg fun chain => group (countedWorkflow_type.symm.trans chain)

end Settled

/-- A workflow record is written and jobs are pushed; a chain notes their ids. -/
structure Steered (lib : Externals) (workflowID : String) (wfState : WorkflowState)
    (jobs : List Job) (ids : List String) (w t : World) : Prop
    extends Pushed lib jobs ids w t where
  sound : Sound t
  record : t.value .workflows workflowID = some wfState
  aside : ∀ id, id ≠ workflowID → t.value .workflows id = w.value .workflows id

/-- The step a job reports for. -/
def stepOf (w : World) (k : String) : Int :=
  match (w.slot k).record with
  | some stored => stored.workflowStep
  | none => 0

@[simp] theorem wp_putWorkflow {wfState : WorkflowState} {id : String} {Q : Unit → World → Prop} :
    serves.wp (putWorkflow wfState id) Q w ↔ Q () (w.put .workflows id wfState) := by
  simp only [putWorkflow, bind_eq, wp_bind, wp_put, pure_eq, wp_pure]

theorem PushedAside.steered {jobs : List Job} {ids : List String} {workflowID : String}
    {wfState : WorkflowState} (h : PushedAside lib jobs ids (w.put .workflows workflowID wfState) t) :
    Steered lib workflowID wfState jobs ids w t where
  toPushed := h.toPushed.before (sameBoard_put rfl)
  sound := h.sound
  record := by
    rw [value_of_kv (h.kv .workflows rfl)]
    simp [value_put]
  aside := by
    intro id other
    rw [value_of_kv (h.kv .workflows rfl)]
    simp [value_put, other]

theorem Steered.rewrite {jobs : List Job} {ids : List String} {workflowID : String}
    {wfState wfState' : WorkflowState} (h : Steered lib workflowID wfState jobs ids w t) :
    Steered lib workflowID wfState' jobs ids w (t.put .workflows workflowID wfState') where
  toPushed := h.toPushed.after (sameBoard_put rfl)
  sound := (sameBoard_put rfl).sound h.sound
  record := by simp [value_put]
  aside := by
    intro id other
    rw [← h.aside id other]
    simp [value_put, other]

theorem Steered.rebase {jobs : List Job} {ids : List String} {workflowID : String}
    {wfState wfState' : WorkflowState}
    (h : Steered lib workflowID wfState jobs ids (w.put .workflows workflowID wfState') t) :
    Steered lib workflowID wfState jobs ids w t where
  toPushed := h.toPushed.before (sameBoard_put rfl)
  sound := h.sound
  record := h.record
  aside := by
    intro id other
    rw [h.aside id other]
    simp [value_put, other]

theorem wp_enqueueChainStep {workflowID : String} {wfState : WorkflowState} {stepIdx : Int}
    (sound : Sound w) : serves.wp (enqueueChainStep lib workflowID wfState stepIdx)
      (fun _ t => ∃ ids, Steered lib workflowID { wfState with jobIDs := wfState.jobIDs ++ ids }
        (chainJobs workflowID wfState stepIdx) ids w t) (w.put .workflows workflowID wfState) := by
  have sound' : Sound (w.put .workflows workflowID wfState) := (sameBoard_put rfl).sound sound
  have silent (none : chainJobs workflowID wfState stepIdx = []) : ∃ ids, Steered lib workflowID
      { wfState with jobIDs := wfState.jobIDs ++ ids } (chainJobs workflowID wfState stepIdx) ids w
      (w.put .workflows workflowID wfState) := by
    refine ⟨[], ?_⟩
    rw [none, List.append_nil]
    exact (PushedAside.nil sound').steered
  unfold enqueueChainStep
  split
  · rename_i past
    refine wp_pure.mpr (silent ?_)
    unfold chainJobs
    split
    · rfl
    · rw [List.getElem?_eq_none (by omega)]
      rfl
  · split
    · rename_i negative
      exact wp_pure.mpr (silent (if_pos negative))
    · rename_i within nonneg
      split
      · rename_i missing
        refine wp_pure.mpr (silent ?_)
        simp [chainJobs, missing]
      · rename_i step found
        refine wp_bind.mpr (wp_push_pushed (unclaimed_chainJob workflowID wfState stepIdx step) sound'
          fun id state t done sound'' kv => ?_)
        have pushed : PushedAside lib (chainJobs workflowID wfState stepIdx) [id]
            (w.put .workflows workflowID wfState) t := by
          rw [chainJobs, if_neg nonneg, found]
          exact ⟨done, sound'', kv⟩
        simp only [bind_eq, wp_bind, wp_putWorkflow, pure_eq, wp_pure]
        exact ⟨[id], pushed.steered.rewrite⟩

/-- The record after a report, with the ids of the jobs it pushed if it is a chain's. -/
def notedWorkflow (wfState : WorkflowState) (ids : List String) : WorkflowState :=
  if wfState.type = "chain" then { wfState with jobIDs := wfState.jobIDs ++ ids } else wfState

theorem wp_advanceChain {workflowID : String} {counted : WorkflowState} {stepIdx : Int}
    {failed : Bool} (chain : counted.type = "chain") (sound : Sound w) :
    serves.wp (advanceChain lib workflowID counted stepIdx failed) (fun _ t => ∃ ids,
      Steered lib workflowID
        (notedWorkflow (if failed then finishedWorkflow lib counted "failed" w.clock
          else if counted.total ≤ counted.completed + counted.failed then
            finishedWorkflow lib counted "completed" w.clock
          else counted) ids)
        (if failed ∨ counted.total ≤ counted.completed + counted.failed then []
          else chainJobs workflowID counted (stepIdx + 1)) ids w t) w := by
  have finishes (state : String) : ∃ ids, Steered lib workflowID
      (notedWorkflow (finishedWorkflow lib counted state w.clock) ids) [] ids w
      (w.put .workflows workflowID (finishedWorkflow lib counted state w.clock)) := by
    refine ⟨[], ?_⟩
    have same : notedWorkflow (finishedWorkflow lib counted state w.clock) [] =
        finishedWorkflow lib counted state w.clock := by
      simp [notedWorkflow]
    rw [same]
    exact (PushedAside.nil ((sameBoard_put rfl).sound sound)).steered
  unfold advanceChain
  split
  · rename_i failure
    simp only [bind_eq, wp_bind, wp_timeNow, wp_putWorkflow, pure_eq, wp_pure, failure, true_or,
      ↓reduceIte]
    exact finishes "failed"
  · rename_i success
    split
    · rename_i full
      simp only [bind_eq, wp_bind, wp_timeNow, wp_putWorkflow, pure_eq, wp_pure, success, full,
        or_true, ↓reduceIte]
      exact finishes "completed"
    · rename_i more
      simp only [bind_eq, wp_bind, wp_putWorkflow, success, more, or_false]
      refine (wp_enqueueChainStep sound).mono ?_
      rintro _ t ⟨ids, steered⟩
      refine ⟨ids, ?_⟩
      rw [notedWorkflow, if_pos chain]
      exact steered

theorem wp_advanceGroup {workflowID : String} {counted : WorkflowState}
    (group : counted.type ≠ "chain") (sound : Sound w) :
    serves.wp (advanceGroup lib workflowID counted) (fun _ t => ∃ ids, Steered lib workflowID
      (notedWorkflow (if counted.total ≤ counted.completed + counted.failed then
          finishedWorkflow lib counted (if 0 < counted.failed then "failed" else "completed") w.clock
        else counted) ids)
      (if counted.total ≤ counted.completed + counted.failed ∧ counted.type = "batch" then
          callbackJobs counted (decide (0 < counted.failed)) else []) ids w t) w := by
  have noted (wfState : WorkflowState) (same : wfState.type = counted.type) (ids : List String) :
      notedWorkflow wfState ids = wfState := if_neg (same ▸ group)
  have counts : Steered lib workflowID counted [] [] w (w.put .workflows workflowID counted) :=
    (PushedAside.nil ((sameBoard_put rfl).sound sound)).steered
  simp only [advanceGroup, bind_eq, wp_bind, wp_putWorkflow]
  split
  · rename_i full
    simp only [wp_bind, wp_timeNow, wp_putWorkflow]
    generalize (if 0 < counted.failed then "failed" else "completed") = state
    have sound' : Sound ((w.put .workflows workflowID counted).put .workflows workflowID
        (finishedWorkflow lib counted state w.clock)) :=
      (sameBoard_put rfl).sound ((sameBoard_put rfl).sound sound)
    split
    · rename_i batch
      refine wp_bind.mpr ((wp_fireBatchCallbacks sound').mono ?_)
      rintro _ t ⟨ids, pushed⟩
      refine wp_pure.mpr ⟨ids, ?_⟩
      rw [noted (finishedWorkflow lib counted state w.clock) rfl, if_pos ⟨full, batch⟩]
      exact pushed.steered.rebase
    · rename_i single
      refine wp_pure.mpr ⟨[], ?_⟩
      rw [noted (finishedWorkflow lib counted state w.clock) rfl, if_neg fun h => single h.2]
      exact (PushedAside.nil sound').steered.rebase
  · rename_i more
    refine wp_pure.mpr ⟨[], ?_⟩
    rw [noted counted rfl, if_neg fun h => more h.1]
    exact counts

/-- A report on a workflow that runs writes its settled record and pushes the successors. -/
theorem wp_advanceWorkflowState {workflowID k : String} {result : Option RawMessage}
    {failed : Bool} {Q : Result Unit → World → Prop} (sound : Sound w)
    (idle : (∀ wfState, w.value .workflows workflowID = some wfState → wfState.state ≠ "running") →
      Q (.ok ()) w)
    (advanced : ∀ wfState, w.value .workflows workflowID = some wfState →
      wfState.state = "running" → ∀ reply ids t, Steered lib workflowID
        (notedWorkflow (settledWorkflow lib w.clock wfState (stepOf w k) result failed) ids)
        (successorJobs workflowID wfState (stepOf w k) result failed) ids w t → Q reply t) :
    serves.wp (advanceWorkflowState lib workflowID k result failed) Q w := by
  simp only [advanceWorkflowState, bind_eq, wp_bind, wp_get .workflows]
  cases found : w.lookup .workflows workflowID with
  | error e =>
    refine wp_pure.mpr (idle fun wfState stored => ?_)
    rw [World.lookup_error w found] at stored
    cases stored
  | ok entry =>
    obtain ⟨wfState, rev⟩ := entry
    have stored : w.value .workflows workflowID = some wfState := World.lookup_value w found
    by_cases running : wfState.state = "running"
    · simp only [running, ne_eq, not_true_eq_false, ↓reduceIte, wp_bind, wp_getJobState]
      have settles (stepIdx : Int) (same : stepIdx = stepOf w k) : serves.wp
          (if (countedWorkflow wfState stepIdx result failed).type = "chain" then
            advanceChain lib workflowID (countedWorkflow wfState stepIdx result failed) stepIdx failed
          else advanceGroup lib workflowID (countedWorkflow wfState stepIdx result failed)) Q w := by
        subst same
        have advanced' := advanced wfState stored running
        split
        · rename_i chain
          rw [countedWorkflow_type] at chain
          rw [settledWorkflow_chain chain, successorJobs_chain workflowID chain] at advanced'
          refine (wp_advanceChain (countedWorkflow_type.trans chain) sound).mono ?_
          rintro reply t ⟨ids, steered⟩
          exact advanced' reply ids t steered
        · rename_i group
          have counted := group
          rw [countedWorkflow_type] at group
          rw [settledWorkflow_group group, successorJobs_group workflowID group] at advanced'
          refine (wp_advanceGroup counted sound).mono ?_
          rintro reply t ⟨ids, steered⟩
          exact advanced' reply ids t steered
      unfold stepOf at settles
      cases record : (w.slot k).record with
      | none =>
        rw [record] at settles
        rw [World.job_of_none record]
        exact settles 0 rfl
      | some member =>
        rw [record] at settles
        rw [World.job_of_record record]
        exact settles _ rfl
    · simp only [ne_eq, running, not_false_eq_true, ↓reduceIte, pure_eq, wp_pure]
      refine idle fun wfState' stored' => ?_
      obtain rfl : wfState = wfState' := Option.some.inj (stored.symm.trans stored')
      exact running

/-! ## The workflow of a settled job -/

/-- The workflow a job reports to, if it runs. -/
def reportsTo (w : World) (k : String) : Option (String × WorkflowState) :=
  match (w.slot k).record with
  | none => none
  | some stored =>
      if stored.workflowID = "" then none else
      match w.value .workflows stored.workflowID with
      | none => none
      | some wfState => if wfState.state = "running" then some (stored.workflowID, wfState) else none

theorem wp_advanceWorkflow {k : String} {state : State} {result : Option RawMessage}
    {Q : Unit → World → Prop} (sound : Sound w) (idle : reportsTo w k = none → Q () w)
    (advanced : ∀ workflowID wfState, reportsTo w k = some (workflowID, wfState) → ∀ ids t,
      Steered lib workflowID (notedWorkflow (settledWorkflow lib w.clock wfState (stepOf w k) result
        (state == .discarded || state == .cancelled)) ids)
        (successorJobs workflowID wfState (stepOf w k) result
          (state == .discarded || state == .cancelled)) ids w t → Q () t) :
    serves.wp (advanceWorkflow lib k state result) Q w := by
  simp only [advanceWorkflow, bind_eq, wp_bind, wp_getJobState]
  cases record : (w.slot k).record with
  | none =>
    rw [World.job_of_none record]
    exact wp_pure.mpr (idle (by simp [reportsTo, record]))
  | some stored =>
    rw [World.job_of_record record]
    dsimp only
    rw [show (unmarshalJobState stored).workflowID = stored.workflowID from rfl]
    split
    · rename_i loose
      exact wp_pure.mpr (idle (by simp [reportsTo, record, loose]))
    · rename_i member
      refine wp_bind.mpr (wp_advanceWorkflowState sound (fun still => ?_)
        fun wfState found running reply ids t steered => ?_)
      · refine wp_pure.mpr (idle ?_)
        unfold reportsTo
        simp only [record, member, ↓reduceIte]
        cases found : w.value .workflows stored.workflowID with
        | none => rfl
        | some wfState => exact if_neg (still wfState found)
      · refine wp_pure.mpr (advanced stored.workflowID wfState ?_ ids t steered)
        simp [reportsTo, record, member, found, running]

/-! ## Creating and cancelling -/

/-- The steps or jobs of a request. -/
def requestedJobs (req : WorkflowRequest) : List WorkflowJobRequest :=
  if req.type = "chain" then req.steps else req.jobs

/-- The jobs that `CreateWorkflow` pushes: the first step of a chain, or all. -/
def initialJobs (workflowID : String) (req : WorkflowRequest) : List Job :=
  if req.type = "chain" then memberJobs workflowID 0 (req.steps.take 1)
  else memberJobs workflowID 0 req.jobs

/-- A new workflow has its record and its first jobs. -/
theorem wp_createWorkflow {req : WorkflowRequest} {Q : Result Workflow → World → Prop}
    (sound : Sound w) (created : ∀ workflowID reply ids t, workflowID ≠ "" →
      workflowID ∉ w.used → Steered lib workflowID
        { newWorkflowState lib workflowID req (requestedJobs req) w.clock with jobIDs := ids }
        (initialJobs workflowID req) ids { w with used := workflowID :: w.used } t →
      Q reply t) : serves.wp (createWorkflow lib req) Q w := by
  simp only [createWorkflow, bind_eq, wp_bind, wp_timeNow, wp_newUUIDv7]
  intro workflowID nonempty unused
  have created' := fun reply ids t => created workflowID reply ids t nonempty unused
  clear created
  rw [show (if req.type = "chain" then req.steps else req.jobs) = requestedJobs req from rfl]
  simp only [wp_putWorkflow]
  generalize record : newWorkflowState lib workflowID req (requestedJobs req) w.clock = wfState
    at created' ⊢
  have none : wfState.jobIDs = [] := by rw [← record]; rfl
  have sound₀ : Sound { w with used := workflowID :: w.used } :=
    ⟨sound.placed, fun j known => ⟨List.mem_cons_of_mem _ (sound.known j known).1,
      (sound.known j known).2⟩⟩
  have sound' : Sound (({ w with used := workflowID :: w.used } : World).put .workflows workflowID
      wfState) := (sameBoard_put rfl).sound sound₀
  unfold initialJobs at created'
  split
  · rename_i chain
    simp only [chain, ↓reduceIte] at created'
    split
    · rename_i empty
      have steps : req.steps = [] := by simpa [requestedJobs, chain] using empty
      refine wp_pure.mpr (created' _ [] _ ?_)
      have same : { wfState with jobIDs := [] } = wfState := by rw [← none]
      rw [steps, same]
      exact (PushedAside.nil sound').steered
    · rename_i step rest more
      have steps : req.steps = step :: rest := by simpa [requestedJobs, chain] using more
      rw [steps] at created'
      refine wp_bind.mpr (wp_push_pushed (unclaimed_workflowStepToJob _ _ _) sound'
        fun id state t done sound'' kv => ?_)
      simp only [wp_bind, wp_putWorkflow, pure_eq, wp_pure]
      have pushed : PushedAside lib (memberJobs workflowID 0 [step]) [id]
          (({ w with used := workflowID :: w.used } : World).put .workflows workflowID wfState) t :=
        ⟨done, sound'', kv⟩
      exact created' _ [id] _ pushed.steered.rewrite
  · rename_i group
    simp only [group, ↓reduceIte] at created'
    have jobs : requestedJobs req = req.jobs := if_neg group
    rw [jobs]
    refine wp_bind.mpr ((wp_pushMembers sound').mono ?_)
    rintro _ t ⟨ids, rfl, pushed⟩
    simp only [wp_bind, wp_putWorkflow, pure_eq, wp_pure]
    exact created' _ ids _ pushed.steered.rewrite

/-- The job is over, if there is one. -/
def Over (lib : Externals) (w : World) (k : String) : Prop :=
  ∀ stored, (w.slot k).record = some stored → lib.isTerminalState stored.state = true

/-- Cancelling the members of a list cancels jobs of it, until all of them are over. -/
theorem wp_cancelMembers {jobIDs : List String} (sound : Sound w) :
    serves.wp (Program.forEach jobIDs () fun jobID _ => cancelMember lib jobID)
      (fun _ t => Evolves lib (fun j m => j ∈ jobIDs ∧ m = .cancel) w t ∧
        (∀ b, Guarded b = true → t.kv b = w.kv b) ∧ ∀ k ∈ jobIDs, Over lib t k) w := by
  refine wp_forEach (fun rest _ v => (∀ k ∈ rest, k ∈ jobIDs) ∧
      Evolves lib (fun j m => j ∈ jobIDs ∧ m = .cancel) w v ∧
      (∀ b, Guarded b = true → v.kv b = w.kv b) ∧ ∀ k ∈ jobIDs, k ∈ rest ∨ Over lib v k)
    ⟨fun _ mem => mem, Evolves.refl w, fun _ _ => rfl, fun _ => .inl⟩ ?_ fun _ t h =>
      ⟨h.2.1, h.2.2.1, fun k mem => (h.2.2.2 k mem).resolve_left (by simp)⟩
  rintro k rest _ v ⟨mem, evolves, kv, closed⟩
  have later : ∀ k' ∈ rest, k' ∈ jobIDs := fun k' inside => mem k' (by simp [inside])
  -- a member that is over or missing is left as it is
  have stays (ended : Over lib v k) : (∀ k' ∈ rest, k' ∈ jobIDs) ∧
      Evolves lib (fun j m => j ∈ jobIDs ∧ m = .cancel) w v ∧
      (∀ b, Guarded b = true → v.kv b = w.kv b) ∧ ∀ k' ∈ jobIDs, k' ∈ rest ∨ Over lib v k' := by
    refine ⟨later, evolves, kv, fun k' inside => ?_⟩
    rcases closed k' inside with waiting | ended'
    · rcases List.mem_cons.mp waiting with rfl | waiting
      · exact .inr ended
      · exact .inl waiting
    · exact .inr ended'
  simp only [cancelMember, bind_eq, wp_bind, wp_getJobState]
  cases record : (v.slot k).record with
  | none =>
    rw [World.job_of_none record]
    exact wp_pure.mpr (stays (by simp [Over, record]))
  | some stored =>
    rw [World.job_of_record record]
    dsimp only
    split
    · rename_i terminal
      refine wp_pure.mpr (stays ?_)
      intro stored' same
      cases record.symm.trans same
      exact terminal
    · refine wp_bind.mpr (wp_cancel ((evolves.sound sound).placed k).keyed
        (fun terminal _ => wp_pure.mpr (stays terminal)) fun s u _ step moved => wp_pure.mpr ?_)
      have ended : Over lib u k := by
        intro stored' same
        rw [moved.slot] at same
        cases step with
        | cancel _ _ next =>
          cases same
          exact (lib.isTerminalState_iff _).mpr (by simp [next.state])
        | requeue kind => simp at kind
      refine ⟨later, evolves.trans (moved.evolves ⟨mem k (by simp), rfl⟩ step (by simp [record])),
        fun b guarded => (moved.kv b guarded).trans (kv b guarded), fun k' inside => ?_⟩
      by_cases same : k' = k
      · exact .inr (same ▸ ended)
      · refine (closed k' inside).imp (fun waiting => ?_) fun ended' => ?_
        · exact (List.mem_cons.mp waiting).resolve_left same
        · unfold Over
          rw [moved.others k' same]
          exact ended'

/-- Cancelling a workflow that is not over cancels the jobs of its list and ends it. -/
theorem wp_cancelWorkflow {workflowID : String} {Q : Result Workflow → World → Prop}
    (sound : Sound w) (refused : ∀ e, Q (.error e) w)
    (cancelled : ∀ wfState, w.value .workflows workflowID = some wfState →
      ¬ (wfState.state = "completed" ∨ wfState.state = "failed" ∨ wfState.state = "cancelled") →
      ∀ reply t, Evolves lib (fun j m => j ∈ wfState.jobIDs ∧ m = .cancel) w t →
      (∀ k ∈ wfState.jobIDs, Over lib t k) →
      t.value .workflows workflowID = some (finishedWorkflow lib wfState "cancelled" w.clock) →
      (∀ id, id ≠ workflowID → t.value .workflows id = w.value .workflows id) → Q reply t) :
    serves.wp (cancelWorkflow lib workflowID) Q w := by
  simp only [cancelWorkflow, getWorkflow, bind_eq, wp_bind, wp_get .workflows]
  cases found : w.lookup .workflows workflowID with
  | error e => exact wp_pure.mpr (wp_pure.mpr (refused _))
  | ok entry =>
    obtain ⟨wfState, rev⟩ := entry
    have stored : w.value .workflows workflowID = some wfState := World.lookup_value w found
    have state : (workflowOfState wfState).state = wfState.state := by
      unfold workflowOfState
      dsimp only
      split <;> rfl
    simp only [pure_eq, wp_pure, state]
    split
    · exact wp_pure.mpr (refused _)
    · rename_i live
      simp only [wp_bind, wp_get .workflows, found]
      refine (wp_cancelMembers sound).mono ?_
      rintro _ t ⟨evolves, kv, closed⟩
      simp only [wp_timeNow, wp_putWorkflow, wp_pure]
      have same : SameBoard t (t.put .workflows workflowID
          (finishedWorkflow lib wfState "cancelled" t.clock)) := sameBoard_put rfl
      refine cancelled wfState stored live _ _ (evolves.trans same.evolves) ?_ ?_ ?_
      · intro k mem
        unfold Over
        rw [same.slots]
        exact closed k mem
      · simp [value_put, evolves.clock]
      · intro id other
        rw [← value_of_kv (kv .workflows rfl)]
        simp [value_put, other]

end OjsNats.Lifecycle
