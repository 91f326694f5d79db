import OjsNats.Lifecycle.Finality
import OjsNats.Lifecycle.Membership

/-!
# The course of one workflow

Between its creation and the end of a run, a step leaves a workflow as it is,
advances it on the report of one of its jobs, or cancels it.
-/

namespace OjsNats.Lifecycle

open Core Nats Effect Semantics Program Relation

variable {lib : Externals} {w t u : World} {id : String} {wfState : WorkflowState} {event : Event}

/-! ## Moves of jobs that do not expire -/

namespace Slot

variable {now : Int} {j : String} {m : Move} {s s' : Slot} {allowed : Move → Prop}
  {stored : JobState}

theorem Step.unexpired (step : Step lib now j m s s') (h : s.record = some stored)
    (lasting : stored.expiresAt = "") : m ≠ .expire := by
  rintro rfl
  cases step with
  | expire some _ expired =>
    cases h.symm.trans some
    simp [isExpired, lasting] at expired
  | requeue kind => simp at kind

/-- A property of a lasting job's slot is kept if every allowed move but an expiry keeps it. -/
theorem Evolves.keeps {P : Slot → Prop} (h : s.Evolves lib now j allowed s')
    (placed : s.Placed j) (found : s.record = some stored) (lasting : stored.expiresAt = "")
    (start : P s) (kept : ∀ m a b, allowed m → m ≠ .expire → Step lib now j m a b → a.Placed j →
      P a → P b) : P s' := by
  induction h with
  | refl => exact start
  | @tail b c before step ih =>
    obtain ⟨m, ok, step⟩ := step
    obtain ⟨middle, found', same⟩ := Evolves.terms before found
    have still : middle.terms.expiresAt = "" := by rw [same]; exact lasting
    exact kept m b c ok (step.unexpired found' still) step (Evolves.placed before placed) ih

end Slot

/-- The moves of a workflow's job in a step that is about other things. -/
structure MemberMoves (wfState : WorkflowState) (event : Event) (k : String) (m : Move) :
    Prop where
  unsettled : wfState.state = "running" → m ≠ .discard ∧ ∀ result, m ≠ .complete result
  cancels : m = .cancel → ∃ reply, event = .call (.cancel k) reply
  revives : m = .revive → ∃ reply, event = .call (.retryDeadLetter k) reply

/-- The workflow's record stays, and no job of it is settled while it runs. -/
structure Rests (lib : Externals) (id : String) (wfState : WorkflowState) (w : World)
    (event : Event) (t : World) : Prop where
  record : t.value .workflows id = some wfState
  slots : ∀ k ∈ wfState.jobIDs,
    (w.slot k).Evolves lib w.clock k (MemberMoves wfState event k) (t.slot k)
  acked : ∀ k result reply, event = .call (.ack k result) (.acked (.ok reply)) →
    (w.slot k).state = some .active ∧ (t.slot k).state = some .completed ∧
      (wfState.state = "running" → k ∉ wfState.jobIDs)

/-- What a step does to a workflow that is there. -/
inductive Course (lib : Externals) (id : String) (wfState : WorkflowState) (w : World)
    (event : Event) (t : World) : Prop
  | rests : Rests lib id wfState w event t → Course lib id wfState w event t
  | advances {k : String} {result : Option RawMessage} {failed : Bool} {ids : List String} :
      Advanced lib w event t k id wfState result failed ids → Course lib id wfState w event t
  | stops {reply : Reply} : event = .call (.cancelWorkflow id) reply →
      Stopped lib w t id wfState → Course lib id wfState w event t

theorem Linked.mem_jobIDs (linked : Linked w) (found : w.value .workflows id = some wfState)
    {k : String} : k ∈ wfState.jobIDs ↔ Member w id k := by
  rw [← roster_of_value found]
  refine ⟨linked.listed id k, fun ⟨stored, record, owner⟩ => ?_⟩
  have nonempty := (linked.known id wfState found).2
  exact owner ▸ (linked.owned k stored record (owner ▸ nonempty)).2

theorem Member.unique {id' k : String} (member : Member w id k) (member' : Member w id' k) :
    id' = id := by
  obtain ⟨stored, found, rfl⟩ := member
  obtain ⟨stored', found', rfl⟩ := member'
  cases found.symm.trans found'
  rfl

/-- A job of a running workflow reports to it. -/
theorem Member.reportsTo {k : String} (member : Member w id k) (nonempty : id ≠ "")
    (found : w.value .workflows id = some wfState) (running : wfState.state = "running") :
    reportsTo w k = some (id, wfState) := by
  obtain ⟨stored, record, rfl⟩ := member
  simp [Lifecycle.reportsTo, record, nonempty, found, running]

theorem Quiet.rests (quiet : Quiet lib w event t) (linked : Linked w)
    (found : w.value .workflows id = some wfState) : Rests lib id wfState w event t where
  record := (quiet.workflows id).trans found
  slots := by
    intro k mem
    have member := (linked.mem_jobIDs found).mp mem
    have nonempty := (linked.known id wfState found).2
    refine (quiet.slots k).mono fun m ok => ⟨fun running => ?_, fun cancels => ?_, ?_⟩
    · have reports := member.reportsTo nonempty found running
      constructor
      · intro discard
        simpa [reports] using ok.unreported (.inl discard)
      · intro result complete
        simpa [reports] using ok.unreported (.inr ⟨result, complete⟩)
    · refine (ok.cancels cancels).resolve_right fun named => ?_
      obtain ⟨stored, record, owner⟩ := member
      exact nonempty (owner.symm.trans ((linked.unlocked k named).2.2 stored record))
    · rintro rfl
      cases event with
      | tick => exact ok.ok.elim
      | call call reply =>
        obtain rfl := moves_revive ok.ok
        exact ⟨reply, rfl⟩
  acked := by
    intro k result reply ack
    obtain ⟨active, completed, unreported⟩ := quiet.acked k result reply ack
    refine ⟨active, completed, fun running mem => ?_⟩
    have reports := ((linked.mem_jobIDs found).mp mem).reportsTo
      (linked.known id wfState found).2 found running
    cases unreported.symm.trans reports

/-- The report of another workflow's job. -/
theorem Advanced.rests {k other : String} {wfState' : WorkflowState}
    {result : Option RawMessage} {failed : Bool} {ids : List String}
    (advanced : Advanced lib w event t k other wfState' result failed ids) (ne : id ≠ other)
    (linked : Linked w) (sound : Sound w) (found : w.value .workflows id = some wfState) :
    Rests lib id wfState w event t := by
  obtain ⟨member, -, -, -⟩ := reportsTo_eq_some advanced.reporting
  have foreign : k ∉ wfState.jobIDs := fun mem =>
    ne (((linked.mem_jobIDs found).mp mem).unique member).symm
  have record := (advanced.aside id ne).trans found
  have reported := advanced.reported
  obtain ⟨s, u, step, moved, steered⟩ := advanced.settled
  have fresh {j : String} (known : j ∈ w.used) : j ∉ ids := fun mem =>
    (steered.fresh j mem).2 (moved.used.symm ▸ known)
  have stays {j : String} (known : j ∈ w.used) : t.slot j = u.slot j :=
    steered.others j (fresh known)
  refine ⟨record, fun j mem => ?_, ?_⟩
  · have mine := (linked.mem_jobIDs found).mp mem
    obtain ⟨stored, here, -⟩ := mine
    have known := (sound.known j (by simp [here])).1
    rw [stays known, moved.others j fun same => foreign (same ▸ mem)]
    exact ReflTransGen.refl
  · rintro j result' reply rfl
    cases reported with
    | ack =>
      cases step with
      | complete some active next =>
        have known := (sound.known k (by simp [some])).1
        refine ⟨by simp [Slot.state, some, active], ?_, fun _ => foreign⟩
        rw [stays known, moved.slot]
        simp [Slot.state, next.state]
      | requeue kind => simp [settlement] at kind

theorem Stopped.rests {other : String} {wfState' : WorkflowState} {reply : Reply}
    (call : event = .call (.cancelWorkflow other) reply)
    (stopped : Stopped lib w t other wfState') (ne : id ≠ other) (linked : Linked w)
    (found : w.value .workflows id = some wfState) : Rests lib id wfState w event t := by
  refine ⟨(stopped.aside id ne).trans found, fun j mem => ?_, by simp [call]⟩
  have foreign : j ∉ wfState'.jobIDs := fun mem' =>
    ne (((linked.mem_jobIDs found).mp mem).unique ((linked.mem_jobIDs stopped.before).mp mem')).symm
  exact (stopped.evolves.slots j).mono fun m ok => absurd ok.1 foreign

theorem Steered.rests {other : String} {wfState' : WorkflowState} {req : WorkflowRequest}
    {reply : Reply} {jobs : List Job} {ids : List String}
    (call : event = .call (.createWorkflow req) reply)
    (steered : Steered lib other wfState' jobs ids { w with used := other :: w.used } t)
    (ne : id ≠ other) (linked : Linked w) (sound : Sound w)
    (found : w.value .workflows id = some wfState) : Rests lib id wfState w event t := by
  refine ⟨(steered.aside id ne).trans found, fun j mem => ?_, by simp [call]⟩
  obtain ⟨stored, here, -⟩ := (linked.mem_jobIDs found).mp mem
  have known := (sound.known j (by simp [here])).1
  rw [steered.others j fun new => (steered.fresh j new).2 (List.mem_cons_of_mem _ known)]
  exact ReflTransGen.refl

/-- A workflow that is there rests, advances or is cancelled. -/
theorem Step.course (step : Step lib w event t) (sound : Sound w) (linked : Linked w)
    (unforged : event.Meets Call.Unforged) (found : w.value .workflows id = some wfState) :
    Course lib id wfState w event t := by
  cases step.onWorkflows sound unforged with
  | quiet quiet => exact .rests (quiet.rests linked found)
  | @advanced k other wfState' result failed ids advanced =>
    by_cases same : id = other
    · subst same
      obtain ⟨-, -, before, -⟩ := reportsTo_eq_some advanced.reporting
      cases before.symm.trans found
      exact .advances advanced
    · exact .rests (advanced.rests same linked sound found)
  | @created req reply other ids call nonempty unused steered =>
    have same : id ≠ other := by
      rintro rfl
      exact unused (linked.known id wfState found).1
    exact .rests (steered.rests call same linked sound found)
  | @stopped other reply wfState' call stopped =>
    by_cases same : id = other
    · subst same
      cases stopped.before.symm.trans found
      exact .stops call stopped
    · exact .rests (stopped.rests call same linked found)

/-- The creation of a workflow. -/
structure Born (lib : Externals) (w : World) (event : Event) (t : World) (id : String)
    (req : WorkflowRequest) (ids : List String) : Prop where
  call : ∃ reply, event = .call (.createWorkflow req) reply
  unused : id ∉ w.used
  steered : Steered lib id
    { newWorkflowState lib id req (requestedJobs req) w.clock with jobIDs := ids }
    (initialJobs id req) ids { w with used := id :: w.used } t

/-- A workflow comes into being when it is created. -/
theorem Step.born (step : Step lib w event t) (sound : Sound w)
    (unforged : event.Meets Call.Unforged) (missing : w.value .workflows id = none)
    (found : t.value .workflows id = some wfState) : ∃ req ids, Born lib w event t id req ids := by
  cases step.onWorkflows sound unforged with
  | quiet quiet => cases (missing.symm.trans (quiet.workflows id).symm).trans found
  | @advanced k other wfState' result failed ids advanced =>
    by_cases same : id = other
    · subst same
      obtain ⟨-, -, before, -⟩ := reportsTo_eq_some advanced.reporting
      cases missing.symm.trans before
    · cases (missing.symm.trans (advanced.aside id same).symm).trans found
  | @created req reply other ids call nonempty unused steered =>
    by_cases same : id = other
    · subst same
      exact ⟨req, ids, ⟨reply, call⟩, unused, steered⟩
    · have aside : t.value .workflows id = w.value .workflows id := steered.aside id same
      cases (missing.symm.trans aside.symm).trans found
  | @stopped other reply wfState' call stopped =>
    by_cases same : id = other
    · subst same
      cases missing.symm.trans stopped.before
    · cases (missing.symm.trans (stopped.aside id same).symm).trans found

/-- No workflow record is ever removed. -/
theorem Course.stays (course : Course lib id wfState w event t) :
    ∃ wfState', t.value .workflows id = some wfState' := by
  cases course with
  | rests rests => exact ⟨_, rests.record⟩
  | advances advanced =>
    obtain ⟨s, u, -, -, steered⟩ := advanced.settled
    exact ⟨_, steered.record⟩
  | stops _ stopped => exact ⟨_, stopped.after⟩

/-! ## Runs -/

/-- A step of a run, with the run up to it. -/
structure Juncture (lib : Externals) (clock : Int) (trace done : List Passage) (p : Passage) :
    Prop where
  mem : p ∈ trace
  earlier : ∀ q ∈ done, q ∈ trace
  run : Run lib (World.start clock) done p.before
  step : Step lib p.before p.event p.after
  linked : Linked p.before
  linked' : Linked p.after

section Juncture

variable {clock : Int} {trace done : List Passage} {p : Passage}

theorem Juncture.sound (here : Juncture lib clock trace done p) : Sound p.before :=
  here.run.sound (.start clock)

theorem Juncture.sound' (here : Juncture lib clock trace done p) : Sound p.after :=
  here.step.sound here.sound

theorem Juncture.used (here : Juncture lib clock trace done p) {j : String}
    (known : j ∈ p.before.used) : j ∈ p.after.used :=
  here.step.used here.sound known

/-- What holds when a workflow is created and is kept on its course holds at the end of a run. -/
theorem Run.along_course {I : List Passage → World → WorkflowState → Prop}
    (run : Run lib (World.start clock) trace w)
    (unforged : ∀ p ∈ trace, p.event.Meets Call.Unforged)
    (found : w.value .workflows id = some wfState)
    (born : ∀ done p req ids, Juncture lib clock trace done p →
      (∀ q ∈ done, q.before.value .workflows id = none ∧ q.after.value .workflows id = none) →
      Born lib p.before p.event p.after id req ids →
      I (done ++ [p]) p.after
        { newWorkflowState lib id req (requestedJobs req) p.before.clock with jobIDs := ids })
    (kept : ∀ done p wfState wfState', Juncture lib clock trace done p →
      p.before.value .workflows id = some wfState → p.after.value .workflows id = some wfState' →
      Course lib id wfState p.before p.event p.after → I done p.before wfState →
      I (done ++ [p]) p.after wfState') : I trace w wfState := by
  suffices along : (w.value .workflows id = none → ∀ q ∈ trace,
      q.before.value .workflows id = none ∧ q.after.value .workflows id = none) ∧
      ∀ wfState, w.value .workflows id = some wfState → I trace w wfState from
    along.2 wfState found
  refine run.holds_along (I := fun done v => (v.value .workflows id = none → ∀ q ∈ done,
      q.before.value .workflows id = none ∧ q.after.value .workflows id = none) ∧
      ∀ wfState, v.value .workflows id = some wfState → I done v wfState)
    ⟨fun _ => by simp, fun _ h => by cases h⟩ ?_
  rintro done p rest whole before step ⟨unborn, holds⟩
  have earlier (q : Passage) (inside : q ∈ done) : q ∈ trace := by simp [whole, inside]
  have mem : p ∈ trace := by simp [whole]
  have linked : Linked p.before := before.linked fun q inside => unforged q (earlier q inside)
  have here : Juncture lib clock trace done p :=
    ⟨mem, earlier, before, step, linked,
      linked.step (before.sound (.start clock)) step (unforged p mem)⟩
  cases missing : p.before.value .workflows id with
  | none =>
    refine ⟨fun absent q inside => ?_, fun wfState' created => ?_⟩
    · rcases List.mem_append.mp inside with before | last
      · exact unborn missing q before
      · obtain rfl := List.mem_singleton.mp last
        exact ⟨missing, absent⟩
    · obtain ⟨req, ids, birth⟩ := step.born here.sound (unforged p mem) missing created
      cases created.symm.trans birth.steered.record
      exact born done p req ids here (unborn missing) birth
  | some wfState' =>
    have course := step.course here.sound linked (unforged p mem) missing
    refine ⟨fun absent => ?_, fun wfState'' after => ?_⟩
    · obtain ⟨wfState'', stays⟩ := course.stays
      cases absent.symm.trans stays
    · exact kept done p wfState' wfState'' here missing after course (holds wfState' missing)

end Juncture

/-! ## What a report does -/

section Advanced

variable {k : String} {result : Option RawMessage} {failed : Bool} {ids : List String}

theorem settlement_step {now : Int} {s s' : Slot}
    (step : Slot.Step lib now k (settlement result failed) s s') : s.state = some .active ∧
      s'.state = some (if failed then .discarded else .completed) := by
  cases failed with
  | true =>
    cases step with
    | discard some active next =>
      exact ⟨by simp [Slot.state, some, active], by simp [Slot.state, next.state]⟩
    | requeue kind => simp [settlement] at kind
  | false =>
    cases step with
    | complete some active next =>
      exact ⟨by simp [Slot.state, some, active], by simp [Slot.state, next.state]⟩
    | requeue kind => simp [settlement] at kind

/-- The jobs and the record of a workflow after the report of one of its jobs. -/
structure Effects (lib : Externals) (w t : World) (k id : String) (wfState : WorkflowState)
    (result : Option RawMessage) (failed : Bool) (ids : List String) : Prop where
  running : wfState.state = "running"
  listed : k ∈ wfState.jobIDs
  active : (w.slot k).state = some .active
  settled : (t.slot k).state = some (if failed then .discarded else .completed)
  others : ∀ j ∈ wfState.jobIDs, j ≠ k → t.slot j = w.slot j
  record : t.value .workflows id =
    some (notedWorkflow (settledWorkflow lib w.clock wfState (stepOf w k) result failed) ids)
  length : ids.length = (successorJobs id wfState (stepOf w k) result failed).length
  fresh : ∀ j ∈ ids, j ∉ w.used
  slots : ∀ j job, (j, job) ∈ ids.zip (successorJobs id wfState (stepOf w k) result failed) →
    t.slot j = storedSlot lib w.clock (freshJob lib j w.clock job) Slot.vacant

theorem Advanced.effects (advanced : Advanced lib w event t k id wfState result failed ids)
    (sound : Sound w) (linked : Linked w) : Effects lib w t k id wfState result failed ids := by
  obtain ⟨member, nonempty, found, running⟩ := reportsTo_eq_some advanced.reporting
  obtain ⟨s, u, step, moved, steered⟩ := advanced.settled
  obtain ⟨active, settled⟩ := settlement_step step
  have fresh (j : String) (new : j ∈ ids) : j ∉ w.used := fun known =>
    (steered.fresh j new).2 (moved.used.symm ▸ known)
  have stays {j : String} (member : Member w id j) : t.slot j = u.slot j := by
    obtain ⟨stored, here, -⟩ := member
    exact steered.others j fun new => fresh j new (sound.known j (by simp [here])).1
  refine ⟨running, (linked.mem_jobIDs found).mpr member, active, ?_, fun j mem other => ?_,
    steered.record, steered.length, fresh, ?_⟩
  · rw [stays member, moved.slot]
    exact settled
  · rw [stays ((linked.mem_jobIDs found).mp mem), moved.others j other]
  · rw [← moved.clock]
    exact steered.slots

end Advanced

end OjsNats.Lifecycle
