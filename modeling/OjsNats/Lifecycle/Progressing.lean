import OjsNats.Lifecycle.Chains

/-!
# Running workflows can progress

Neither `Cancel` nor the creation of a workflow without jobs advances a
workflow.  Without them a running workflow always has a job that is not over.
-/

namespace OjsNats.Lifecycle

open Core Nats Effect Semantics Relation

variable {lib : Externals} {w t : World} {id : String} {wfState : WorkflowState} {event : Event}

instance (s : Slot) : Decidable s.Terminal := inferInstanceAs (Decidable (_ ∨ _ ∨ _))

/-- Every running workflow has a job that is not over. -/
def Progressing (w : World) : Prop := ∀ id wfState, w.value .workflows id = some wfState →
  wfState.state = "running" → ∃ k, Member w id k ∧ ¬ (w.slot k).Terminal

/-- The step creates no workflow without jobs, and cancels no job of a running workflow on
its own. -/
structure Sustains (p : Passage) : Prop where
  peopled : ∀ req reply, p.event = .call (.createWorkflow req) reply → requestedJobs req ≠ []
  spared : ∀ k reply, p.event = .call (.cancel k) reply → ¬ (p.before.slot k).Terminal →
    reportsTo p.before k = none

/-- How many of the jobs are over. -/
def overCount (w : World) (jobIDs : List String) : Nat :=
  jobIDs.countP fun k => decide (w.slot k).Terminal

/-! ## Counting -/

theorem overCount_mono {jobIDs : List String}
    (sub : ∀ k ∈ jobIDs, (t.slot k).Terminal → (w.slot k).Terminal) :
    overCount t jobIDs ≤ overCount w jobIDs :=
  List.countP_mono_left fun k mem gone => by simpa using sub k mem (by simpa using gone)

theorem overCount_eq_zero {jobIDs : List String} (live : ∀ k ∈ jobIDs, ¬ (w.slot k).Terminal) :
    overCount w jobIDs = 0 :=
  List.countP_eq_zero.mpr fun k mem gone => live k mem (by simpa using gone)

/-- One more job is over. -/
theorem overCount_le_succ {jobIDs : List String} {k : String} (nodup : jobIDs.Nodup)
    (others : ∀ j ∈ jobIDs, j ≠ k → (t.slot j).Terminal → (w.slot j).Terminal) :
    overCount t jobIDs ≤ overCount w jobIDs + 1 := by
  induction jobIDs with
  | nil => exact Nat.zero_le _
  | cons j rest ih =>
    obtain ⟨absent, nodup⟩ := List.nodup_cons.mp nodup
    unfold overCount at ih ⊢
    rw [List.countP_cons, List.countP_cons]
    by_cases same : j = k
    · subst same
      have kept : overCount t rest ≤ overCount w rest := overCount_mono fun i mem =>
        others i (List.mem_cons_of_mem _ mem) fun here => absent (here ▸ mem)
      unfold overCount at kept
      split <;> split <;> omega
    · have bound := ih nodup fun i mem => others i (List.mem_cons_of_mem _ mem)
      have here := others j List.mem_cons_self same
      by_cases after : (t.slot j).Terminal
      · simp only [after, here after, decide_true, ↓reduceIte]
        omega
      · simp only [after, decide_false, Bool.false_eq_true, ↓reduceIte]
        omega

theorem exists_live {jobIDs : List String} (few : overCount w jobIDs < jobIDs.length) :
    ∃ k ∈ jobIDs, ¬ (w.slot k).Terminal := by
  by_contra none
  push Not at none
  have all : overCount w jobIDs = jobIDs.length :=
    List.countP_eq_length.mpr fun k mem => by simpa using none k mem
  omega

/-! ## Steps -/

theorem Slot.Step.alive {now : Int} {j : String} {m : Move} {s s' : Slot}
    (step : Slot.Step lib now j m s s') (expire : m ≠ .expire) (discard : m ≠ .discard)
    (complete : ∀ result, m ≠ .complete result) (cancel : m ≠ .cancel)
    (before : ¬ s.Terminal) : ¬ s'.Terminal := by
  cases step with
  | enqueue _ _ state | schedule _ _ state => simp [Slot.Terminal, Slot.state, state]
  | claim _ _ _ _ next | retryLater _ _ next | requeue _ _ _ next
  | promoteScheduled _ _ next | promoteRetry _ _ next | revive _ _ next =>
    simp [Slot.Terminal, Slot.state, next.state]
  | expire => exact absurd rfl expire
  | discard => exact absurd rfl discard
  | cancel => exact absurd rfl cancel
  | complete => exact absurd rfl (complete _)
  | skip | extend | forget => exact before

/-- While a workflow runs and rests, its live jobs stay alive. -/
theorem Rests.alive (rests : Rests lib id wfState w event t) (sound : Sound w) (linked : Linked w)
    (found : w.value .workflows id = some wfState) (running : wfState.state = "running")
    (sustains : Sustains ⟨w, event, t⟩) {k : String} (mem : k ∈ wfState.jobIDs)
    (before : ¬ (w.slot k).Terminal) : ¬ (t.slot k).Terminal := by
  have member := (linked.mem_jobIDs found).mp mem
  have nonempty := (linked.known id wfState found).2
  have reports := member.reportsTo nonempty found running
  obtain ⟨stored, record, owner⟩ := member
  have lasting := (linked.owned k stored record (owner ▸ nonempty)).1
  refine (rests.slots k mem).keeps (P := fun a => ¬ a.Terminal) (sound.placed k) record lasting
    before ?_
  intro m a b ok expire step _ live
  obtain ⟨discard, complete⟩ := ok.unsettled running
  refine step.alive expire discard complete (fun cancel => ?_) live
  obtain ⟨reply, call⟩ := ok.cancels cancel
  have unreported := sustains.spared k reply call before
  rw [reports] at unreported
  cases unreported

/-- The jobs that are over have been counted, and there is room for one more. -/
structure Roomy (w : World) (wfState : WorkflowState) : Prop where
  defs : wfState.jobDefs ≠ []
  counted : wfState.state = "running" →
    (overCount w wfState.jobIDs : Int) ≤ wfState.completed + wfState.failed
  size : wfState.type ≠ "chain" → wfState.total = wfState.jobIDs.length
  room : wfState.type ≠ "chain" → wfState.state = "running" →
    wfState.completed + wfState.failed < wfState.total

theorem storedSlot_live (lib : Externals) (now : Int) (job : Job) (s : Slot) :
    ¬ (storedSlot lib now job s).Terminal := by
  unfold storedSlot
  split <;> simp [Slot.Terminal, Slot.state, storedRecord, enqueuedJob]

theorem Born.roomy {req : WorkflowRequest} {ids : List String}
    (born : Born lib w event t id req ids) (peopled : requestedJobs req ≠ []) :
    Roomy t { newWorkflowState lib id req (requestedJobs req) w.clock with jobIDs := ids } := by
  have live (k : String) (mem : k ∈ ids) : ¬ (t.slot k).Terminal := by
    obtain ⟨job, -, pair⟩ := exists_zip_of_mem born.steered.length mem
    rw [born.steered.slots k job pair]
    exact storedSlot_live _ _ _ _
  have zero : overCount t ids = 0 := overCount_eq_zero live
  refine ⟨peopled, fun _ => ?_, fun group => ?_, fun _ _ => ?_⟩
  · show (overCount t ids : Int) ≤ 0 + 0
    omega
  · have kind : req.type ≠ "chain" := group
    have length : ids.length = (requestedJobs req).length := by
      rw [born.steered.length, initialJobs, if_neg kind, memberJobs_length, requestedJobs,
        if_neg kind]
    show ((requestedJobs req).length : Int) = ids.length
    rw [length]
  · show (0 : Int) + 0 < (requestedJobs req).length
    have := List.length_pos_of_ne_nil peopled
    omega

/-- A report ends one more job, and the record counts it. -/
theorem Roomy.advanced {k : String} {result : Option RawMessage} {failed : Bool}
    {ids : List String} (roomy : Roomy w wfState) (linked : Linked w)
    (found : w.value .workflows id = some wfState)
    (effects : Effects lib w t k id wfState result failed ids) :
    Roomy t (notedWorkflow (settledWorkflow lib w.clock wfState (stepOf w k) result failed) ids) := by
  obtain ⟨state, time, shape⟩ := settledWorkflow_eq lib w.clock wfState (stepOf w k) result failed
  have nodup : wfState.jobIDs.Nodup := roster_of_value found ▸ linked.nodup id
  have jobIDs := notedWorkflow_jobIDs (settledWorkflow lib w.clock wfState (stepOf w k) result failed) ids
  rw [settledWorkflow_jobIDs, settledWorkflow_type] at jobIDs
  have counters : (notedWorkflow (settledWorkflow lib w.clock wfState (stepOf w k) result failed)
      ids).completed + (notedWorkflow (settledWorkflow lib w.clock wfState (stepOf w k) result failed)
        ids).failed = wfState.completed + wfState.failed + 1 := by
    have same (wfState : WorkflowState) : (notedWorkflow wfState ids).completed +
        (notedWorkflow wfState ids).failed = wfState.completed + wfState.failed := by
      unfold notedWorkflow
      split <;> rfl
    rw [same, shape]
    simp only [countedWorkflow_completed, countedWorkflow_failed]
    cases failed <;> simp <;> omega
  have new (j : String) (mem : j ∈ if wfState.type = "chain" then ids else []) :
      ¬ (t.slot j).Terminal := by
    split at mem
    · obtain ⟨job, -, pair⟩ := exists_zip_of_mem effects.length mem
      rw [effects.slots j job pair]
      exact storedSlot_live _ _ _ _
    · cases mem
  have total (group : wfState.type ≠ "chain") :
      (notedWorkflow (settledWorkflow lib w.clock wfState (stepOf w k) result failed) ids).total =
        wfState.total := by
    rw [notedWorkflow, settledWorkflow_type, if_neg group, shape]
    exact countedWorkflow_total
  refine ⟨?_, fun _ => ?_, fun group => ?_, fun group running => ?_⟩
  · rw [notedWorkflow_jobDefs, settledWorkflow_jobDefs]
    exact roomy.defs
  · rw [counters, jobIDs, overCount, List.countP_append]
    have old : overCount t wfState.jobIDs ≤ overCount w wfState.jobIDs + 1 :=
      overCount_le_succ (k := k) nodup fun j mem other gone => effects.others j mem other ▸ gone
    have none := overCount_eq_zero new
    have counted := roomy.counted effects.running
    unfold overCount at old none counted
    omega
  · rw [notedWorkflow_type, settledWorkflow_type] at group
    rw [total group, jobIDs, if_neg group, List.append_nil, roomy.size group]
  · rw [notedWorkflow_type, settledWorkflow_type] at group
    rw [counters, total group]
    by_contra full
    have settled : (notedWorkflow (settledWorkflow lib w.clock wfState (stepOf w k) result failed)
        ids).state = if 0 < (countedWorkflow wfState (stepOf w k) result failed).failed then "failed"
          else "completed" := by
      have counted : wfState.total ≤ (countedWorkflow wfState (stepOf w k) result failed).completed +
          (countedWorkflow wfState (stepOf w k) result failed).failed := by
        simp only [countedWorkflow_completed, countedWorkflow_failed]
        cases failed <;> simp <;> omega
      rw [notedWorkflow, settledWorkflow_type, if_neg group, settledWorkflow_group group,
        countedWorkflow_total, if_pos counted]
      rfl
    rw [settled] at running
    split at running <;> simp at running

theorem Run.roomy {clock : Int} {trace : List Passage} (run : Run lib (World.start clock) trace w)
    (unforged : ∀ p ∈ trace, p.event.Meets Call.Unforged) (sustains : ∀ p ∈ trace, Sustains p)
    (found : w.value .workflows id = some wfState) : Roomy w wfState := by
  refine run.along_course (I := fun _ v wfState => Roomy v wfState) unforged found ?_ ?_
  · intro done p req ids here unborn born
    obtain ⟨reply, call⟩ := born.call
    exact born.roomy ((sustains p here.mem).peopled req reply call)
  · intro done p wfState wfState' here found found' course roomy
    cases course with
    | rests rests =>
      cases found'.symm.trans rests.record
      refine ⟨roomy.defs, fun running => ?_, roomy.size, roomy.room⟩
      have fewer : overCount p.after wfState.jobIDs ≤ overCount p.before wfState.jobIDs :=
        overCount_mono fun k mem gone => by
          by_contra live
          exact rests.alive here.sound here.linked found running (sustains p here.mem) mem live gone
      have counted := roomy.counted running
      omega
    | advances advanced =>
      have effects := advanced.effects here.sound here.linked
      cases found'.symm.trans effects.record
      exact roomy.advanced here.linked found effects
    | stops _ stopped =>
      cases found'.symm.trans stopped.after
      exact ⟨roomy.defs, fun running => by simp [finishedWorkflow] at running, roomy.size,
        fun _ running => by simp [finishedWorkflow] at running⟩

/-- Unless a workflow is created without jobs or a job of a running workflow is cancelled on
its own, every running workflow has a job that is not over. -/
theorem running_progressing {clock : Int} {trace : List Passage}
    (run : Run lib (World.start clock) trace w)
    (unforged : ∀ p ∈ trace, p.event.Meets Call.Unforged) (sustains : ∀ p ∈ trace, Sustains p) :
    Progressing w := by
  intro id wfState found running
  have linked := run.linked unforged
  have roomy := run.roomy unforged sustains found
  have counted := roomy.counted running
  have room : wfState.completed + wfState.failed < wfState.jobIDs.length := by
    by_cases chain : wfState.type = "chain"
    · have chained := run.chained unforged found chain roomy.defs
      cases chained.phase with
      | running underWay =>
        have completed := underWay.completed
        have failed := underWay.failed
        omega
      | completed state | failed state | cancelled state => simp [running] at state
    · rw [← roomy.size chain]
      exact roomy.room chain running
  have few : overCount w wfState.jobIDs < wfState.jobIDs.length := by omega
  obtain ⟨k, mem, live⟩ := exists_live few
  exact ⟨k, (linked.mem_jobIDs found).mp mem, live⟩

/-! ## A group of one job -/

def single : WorkflowRequest where
  name := "single"
  type := "group"
  jobs := [{ name := "only", type := "mail" }]

/-- The only job of a group is cancelled on its own. -/
def cancelledAlone : List Cue := [.call (.createWorkflow single), .call (.cancel (pairID 1))]

/-- The first step of a chain is acked. -/
def firstAcked : List Cue :=
  [.call (.createWorkflow twoSteps), .call (.fetch ["default"] 1 "worker-1" 0),
    .call (.ack (pairID 1) none)]

/-- What a played run says about a workflow and the job that was pushed last. -/
def standingOf (k : String) (r : List Passage × World) : Option (String × List String × Option State) :=
  (r.2.value .workflows (pairID 0)).map fun wfState =>
    (wfState.state, wfState.jobIDs, (r.2.slot k).state)

theorem running_progressing_firstAcked : ∃ trace w wfState,
    play (World.start (Sample.instant 0)) firstAcked = some (trace, w) ∧
    w.value .workflows (pairID 0) = some wfState ∧ wfState.state = "running" ∧ Progressing w := by
  have plays : (play (World.start (Sample.instant 0)) firstAcked).isSome := by decide
  obtain ⟨⟨trace, w⟩, played⟩ := Option.isSome_iff_exists.mp plays
  have facts : (play (World.start (Sample.instant 0)) firstAcked).bind (standingOf (pairID 2)) =
      some ("running", [pairID 1, pairID 2], some .available) := by decide
  rw [played, Option.bind_some] at facts
  obtain ⟨wfState, found, same⟩ := Option.map_eq_some_iff.mp facts
  obtain ⟨state, -, -⟩ := by simpa using same
  have unforged : ∀ cue ∈ firstAcked, cue.Meets Call.Unforged := by
    simp [firstAcked, Cue.Meets, Call.Unforged]
  have kind : ∀ cue ∈ firstAcked, cue.Meets fun call =>
      (∀ req, call = .createWorkflow req → requestedJobs req ≠ []) ∧ ∀ k, call ≠ .cancel k := by
    simp [firstAcked, Cue.Meets, twoSteps, requestedJobs]
  refine ⟨trace, w, wfState, played, found, state, running_progressing (run_of_play played)
    (meets_of_play played unforged) fun p mem => ?_⟩
  have meets := meets_of_play played kind p mem
  refine ⟨fun req reply call => ?_, fun k reply call => ?_⟩
  · rw [call] at meets
    exact meets.1 req rfl
  · rw [call] at meets
    exact absurd rfl (meets.2 k)

/-- A running workflow may have no job left that is not over. -/
theorem not_running_progressing : ¬ ∀ (lib : Externals) (clock : Int) (trace : List Passage)
    (w : World), Run lib (World.start clock) trace w →
    (∀ p ∈ trace, p.event.Meets Call.Unforged) →
    (∀ p ∈ trace, ∀ req reply, p.event = .call (.createWorkflow req) reply → req.type = "chain" →
      req.steps ≠ []) → Progressing w := by
  intro progressing
  have plays : (play (World.start (Sample.instant 0)) cancelledAlone).isSome := by decide
  obtain ⟨⟨trace, w⟩, played⟩ := Option.isSome_iff_exists.mp plays
  have facts : (play (World.start (Sample.instant 0)) cancelledAlone).bind (standingOf (pairID 1)) =
      some ("running", [pairID 1], some .cancelled) := by decide
  rw [played, Option.bind_some] at facts
  obtain ⟨wfState, found, same⟩ := Option.map_eq_some_iff.mp facts
  obtain ⟨state, jobIDs, cancelled⟩ := by simpa using same
  have unforged : ∀ cue ∈ cancelledAlone, cue.Meets Call.Unforged := by
    simp [cancelledAlone, Cue.Meets, Call.Unforged]
  have groups : ∀ cue ∈ cancelledAlone, cue.Meets fun call =>
      ∀ req, call = .createWorkflow req → req.type ≠ "chain" := by
    simp [cancelledAlone, Cue.Meets, single]
  have run := run_of_play played
  have genuine := meets_of_play played unforged
  obtain ⟨k, member, live⟩ := progressing sample _ trace w run genuine (fun p mem req reply call chain => by
    have meets := meets_of_play played groups p mem
    rw [call] at meets
    exact absurd chain (meets req rfl)) (pairID 0) wfState found state
  have mem := ((run.linked genuine).mem_jobIDs found).mpr member
  rw [jobIDs, List.mem_singleton] at mem
  subst mem
  exact live (.inr (.inl cancelled))

end OjsNats.Lifecycle
