import OjsNats.Lifecycle.Groups

/-!
# The outcome of a group or a batch

The record of a group or a batch and the callbacks that were pushed for it are
read off the reports of its jobs, whatever their order.
-/

namespace OjsNats.Nats

open Core

/-- What a workflow asks for when it pushes a job. -/
structure Posting where
  type : String
  args : Option RawMessage
  queue : String

def JobState.posting (rec : JobState) : Posting := ⟨rec.type, rec.args, rec.queue⟩

def postingOf (job : Job) : Posting := ⟨job.type, job.args, job.queue⟩

def postingOfCallback (cb : WorkflowCallback) : Posting := ⟨cb.type, cb.args, optionsQueue cb.options⟩

/-- The callbacks to push at the end of a batch: `on_complete`, and one of the other two. -/
def callbacksDue (callbacks : Option WorkflowCallbacks) (failed : Bool) : List Posting :=
  match callbacks with
  | none => []
  | some callbacks => (callbacks.onComplete.toList ++
      (if failed then callbacks.onFailure else callbacks.onSuccess).toList).map postingOfCallback

end OjsNats.Nats

namespace OjsNats.Lifecycle

open Core Nats Effect Semantics Program Relation

variable {lib : Externals} {w t u : World} {id k : String} {wfState : WorkflowState} {event : Event}
  {done trace : List Passage}

/-! ## Reports and pushes of a run -/

/-- The job is stored as a job of the workflow. -/
def belongs (w : World) (id k : String) : Bool :=
  match w.value .jobs k with
  | some stored => stored.workflowID = id
  | none => false

theorem belongs_iff : belongs w id k = true ↔ Member w id k := by
  unfold belongs Member World.slot
  cases w.value .jobs k <;> simp

/-- The report that ends a job of the workflow, if the step is one: the job and
whether it was discarded. -/
def report? (id : String) (p : Passage) : Option (String × Bool) :=
  match p.event with
  | .call (.ack k _) (.acked (.ok _)) => if belongs p.before id k then some (k, false) else none
  | .call (.nack k _ _) (.nacked (.ok _)) =>
      if belongs p.before id k ∧ (p.after.slot k).state = some .discarded then some (k, true)
      else none
  | _ => none

/-- The reports that ended jobs of the workflow, in order. -/
def reports (id : String) (trace : List Passage) : List (String × Bool) :=
  trace.filterMap (report? id)

/-- The records of the jobs that a step brought. -/
def brought (p : Passage) : List JobState :=
  ((p.after.kv .jobs).keys.filter fun k => (p.before.value .jobs k).isNone).filterMap
    (p.after.value .jobs)

/-- The step is a call of `Ack` or `Nack` on a job of the workflow, accepted or not. -/
def reporting (id : String) (p : Passage) : Bool :=
  match p.event with
  | .call (.ack k _) _ | .call (.nack k _ _) _ => belongs p.before id k
  | _ => false

/-- What the calls of `Ack` and `Nack` on the workflow's jobs pushed. -/
def posted (id : String) (trace : List Passage) : List Posting :=
  (trace.filter (reporting id)).flatMap fun p => (brought p).map JobState.posting

theorem reports_snoc (p : Passage) :
    reports id (done ++ [p]) = reports id done ++ (report? id p).toList := by
  cases reported : report? id p <;> simp [reports, reported]

theorem reporting_of_report? {p : Passage} {report : String × Bool}
    (reported : report? id p = some report) : reporting id p = true := by
  unfold report? at reported
  unfold reporting
  split at reported
  · split at reported
    · rename_i event member
      rw [event]
      exact member
    · cases reported
  · split at reported
    · rename_i event member
      rw [event]
      exact member.1
    · cases reported
  · cases reported

theorem posted_none {p : Passage} (none : reporting id p = true → brought p = []) :
    posted id (done ++ [p]) = posted id done := by
  cases calls : reporting id p with
  | false => simp [posted, calls]
  | true => simp [posted, calls, none calls]

theorem posted_some {p : Passage} {report : String × Bool} (reported : report? id p = some report) :
    posted id (done ++ [p]) = posted id done ++ (brought p).map JobState.posting := by
  simp [posted, reporting_of_report? reported]

/-- The outcome of a group or a batch: each job reports at most once, and the
record and the callbacks follow from the reports. -/
structure Outcome (id : String) (trace : List Passage) (wfState : WorkflowState) : Prop where
  size : wfState.total = wfState.jobIDs.length
  once : ((reports id trace).map Prod.fst).Nodup
  members : (reports id trace).map Prod.fst ⊆ wfState.jobIDs
  completed : wfState.completed = (reports id trace).countP fun report => !report.2
  failed : wfState.failed = (reports id trace).countP fun report => report.2
  state : wfState.state =
    if (reports id trace).length < wfState.jobIDs.length then "running"
    else if (reports id trace).any Prod.snd then "failed" else "completed"
  posted : (posted id trace).Perm
    (if (reports id trace).length = wfState.jobIDs.length ∧ wfState.type = "batch" then
      callbacksDue wfState.callbacks ((reports id trace).any Prod.snd)
    else [])

/-- The step neither cancels the workflow nor revives a job of it. -/
def Straight (id : String) (p : Passage) : Prop :=
  (∀ reply, p.event ≠ .call (.cancelWorkflow id) reply) ∧
    ∀ k reply, Member p.before id k → p.event ≠ .call (.retryDeadLetter k) reply

namespace Outcome

theorem length_le (h : Outcome id trace wfState) :
    (reports id trace).length ≤ wfState.jobIDs.length := by
  simpa using (List.subperm_of_subset h.once h.members).length_le

/-- Once the workflow no longer runs, all its jobs have reported. -/
theorem all_reported (h : Outcome id trace wfState) (still : wfState.state ≠ "running") :
    ∀ k ∈ wfState.jobIDs, ∃ failed, (k, failed) ∈ reports id trace := by
  have full : wfState.jobIDs.length ≤ (reports id trace).length := by
    by_contra more
    exact still (by rw [h.state, if_pos (by omega)])
  have perm := (List.subperm_of_subset h.once h.members).perm_of_length_le (by simpa using full)
  intro k mem
  obtain ⟨⟨_, failed⟩, reported, rfl⟩ := List.mem_map.mp (perm.mem_iff.mpr mem)
  exact ⟨failed, reported⟩

/-- A workflow that runs has a report to come. -/
theorem unfinished (h : Outcome id trace wfState) (running : wfState.state = "running") :
    (reports id trace).length < wfState.jobIDs.length := by
  by_contra full
  have state := h.state
  rw [running, if_neg full] at state
  split at state <;> simp at state

end Outcome

/-! ## The jobs a report brings -/

theorem filterMap_zip {α β γ : Type} {f : α → Option γ} {g : γ → Posting} {h : β → Posting}
    {xs : List α} {ys : List β} (length : xs.length = ys.length)
    (each : ∀ x y, (x, y) ∈ xs.zip ys → ∃ z, f x = some z ∧ g z = h y) :
    (xs.filterMap f).map g = ys.map h := by
  induction xs generalizing ys with
  | nil => rw [List.eq_nil_of_length_eq_zero length.symm]; rfl
  | cons x xs ih =>
    cases ys with
    | nil => cases length
    | cons y ys =>
      obtain ⟨z, found, same⟩ := each x y (by simp)
      rw [List.filterMap_cons_some found, List.map_cons, List.map_cons, same]
      rw [ih (by simpa using length) fun x' y' mem => each x' y' (by simp [mem])]

/-- A step of a job's slot brings no job. -/
theorem Moved.absent {m : Move} {s : Slot} (moved : Moved k s w u)
    (step : Slot.Step lib w.clock k m (w.slot k) s) (known : (w.slot k).record ≠ none) (j : String) :
    (u.slot j).record = none ↔ (w.slot j).record = none := by
  by_cases same : j = k
  · subst same
    rw [moved.slot]
    exact ⟨fun none => absurd none (step.stored known), fun none => absurd none known⟩
  · rw [moved.others j same]

/-- No job is there that was not there before. -/
def Barren (w t : World) : Prop := ∀ j, (w.slot j).record = none → (t.slot j).record = none

theorem Barren.brought (barren : Barren w t) : brought ⟨w, event, t⟩ = [] := by
  refine List.filterMap_eq_nil_iff.mpr fun j mem => ?_
  exact barren j (Option.isNone_iff_eq_none.mp (List.mem_filter.mp mem).2)

theorem Moved.barren {m : Move} {s : Slot} (moved : Moved k s w u)
    (step : Slot.Step lib w.clock k m (w.slot k) s) (known : (w.slot k).record ≠ none) :
    Barren w u := fun j => (moved.absent step known j).mpr

/-- A report that pushes jobs brings these and no others. -/
theorem Pushed.brought {jobs : List Job} {ids : List String} {m : Move} {s : Slot}
    (pushed : Pushed lib jobs ids u t) (sound : Sound w)
    (step : Slot.Step lib w.clock k m (w.slot k) s) (known : (w.slot k).record ≠ none)
    (moved : Moved k s w u) :
    ((brought ⟨w, event, t⟩).map JobState.posting).Perm (jobs.map postingOf) := by
  have born : ∀ j, j ∈ ids ↔ (t.slot j).record ≠ none ∧ (w.slot j).record = none := by
    intro j
    constructor
    · intro mem
      obtain ⟨job, -, pair⟩ := exists_zip_of_mem pushed.length mem
      obtain ⟨state, record⟩ := pushed.record pair
      refine ⟨by simp [record], ?_⟩
      by_contra stored
      exact (pushed.fresh j mem).2 (moved.used ▸ (sound.known j stored).1)
    · rintro ⟨stored, none⟩
      by_contra other
      rw [pushed.others j other] at stored
      exact stored ((moved.absent step known j).mpr none)
  have listed : ((t.kv .jobs).keys.filter fun j => (w.value .jobs j).isNone).Perm ids := by
    refine (List.perm_ext_iff_of_nodup ((t.kv .jobs).keys_nodup.filter _) pushed.nodup).mpr
      fun j => ?_
    rw [List.mem_filter, (t.kv .jobs).mem_keys_iff, born, Option.isSome_iff_ne_none,
      Option.isNone_iff_eq_none]
    exact Iff.rfl
  refine ((listed.filterMap _).map _).trans (.of_eq ?_)
  refine filterMap_zip pushed.length fun j job pair => ?_
  obtain ⟨state, record⟩ := pushed.record pair
  exact ⟨_, record, rfl⟩

theorem callbackJobs_postings (wfState : WorkflowState) (failed : Bool) :
    (callbackJobs wfState failed).map postingOf = callbacksDue wfState.callbacks failed := by
  have fired (condition : Bool) (cb : Option WorkflowCallback) :
      (firedJobs condition cb).map postingOf =
        if condition then cb.toList.map postingOfCallback else [] := by
    cases condition <;> cases cb <;> rfl
  unfold callbackJobs callbacksDue
  cases wfState.callbacks with
  | none => rfl
  | some callbacks => cases failed <;> simp [fired]

/-! ## Steps -/

theorem Slot.Step.not_discarded {now : Int} {m : Move} {s s' : Slot}
    (step : Slot.Step lib now k m s s') (expire : m ≠ .expire) (discard : m ≠ .discard)
    (before : s.state ≠ some .discarded) : s'.state ≠ some .discarded := by
  cases step with
  | enqueue _ _ state | schedule _ _ state => simp [Slot.state, state]
  | claim _ _ _ _ next | complete _ _ next | retryLater _ _ next | requeue _ _ _ next
  | cancel _ _ next | promoteScheduled _ _ next | promoteRetry _ _ next | revive _ _ next =>
    simp [Slot.state, next.state]
  | expire => exact absurd rfl expire
  | discard => exact absurd rfl discard
  | skip | extend | forget => exact before

/-- A `Nack` is accepted only of an active job. -/
theorem nacked_active {jobErr : Option JobError} {requeue : Bool} {reply : NackResponse}
    (step : Step lib w (.call (.nack k jobErr requeue) (.nacked (.ok reply))) t)
    (sound : Sound w) : (w.slot k).state = some .active := by
  have accepted (v : World) (sound : Sound v) : serves.wp (nack lib k jobErr requeue)
      (fun r _ => ∀ reply, r = .ok reply → (v.slot k).state = some .active) v := by
    refine wp_nack sound (fun _ _ => by simp) (fun _ s u reply step _ _ _ => ?_)
      (fun _ s u reply step _ _ _ => ?_) fun _ s u step _ => ?_
    · cases step with
      | requeue _ some state => simp [Slot.state, some, state]
    · cases step with
      | retryLater some state => simp [Slot.state, some, state]
      | requeue kind => simp at kind
    · have active := (@settlement_step lib k none true _ _ _ step).1
      exact fun _ _ _ _ _ _ => active
  cases step with
  | call fresh exec =>
    obtain ⟨r, same, ends⟩ := exec_reply exec
    cases same
    exact accepted (w.accept (.nack k jobErr requeue)) (sound.accept _) _ _ ends reply rfl

/-- A call of `Ack` or `Nack` on a job that is there advances a workflow or pushes nothing. -/
theorem ack_barren (sound : Sound w) (result : Option RawMessage) : serves.wp (ack lib k result)
    (fun r t => Barren w t ∨ ∃ id wfState ids, Advanced lib w (.call (.ack k result) (.acked r)) t
      k id wfState result false ids) w := by
  refine wp_ack sound (fun _ _ => .inl fun _ => id) fun s u step moved => ?_
  obtain ⟨stored, before⟩ : ∃ stored, (w.slot k).record = some stored := by
    cases step with
    | complete some => exact ⟨_, some⟩
    | requeue kind => simp at kind
  obtain ⟨reports, steps⟩ := moved.reportsTo before step
  refine wp_advanceWorkflow (moved.sound step (by simp [before]) sound) (fun _ reply => .inl ?_)
    fun workflowID wfState found ids t steered reply => .inr ⟨workflowID, wfState, ids, ?_⟩
  · exact moved.barren step (by simp [before])
  · rw [steps, moved.clock] at steered
    exact ⟨.ack, reports ▸ found, s, u, step, moved, steered⟩

theorem nack_barren (sound : Sound w) (jobErr : Option JobError) (requeue : Bool) :
    serves.wp (nack lib k jobErr requeue) (fun r t => Barren w t ∨ ∃ id wfState ids,
      Advanced lib w (.call (.nack k jobErr requeue) (.nacked r)) t k id wfState none true ids) w := by
  refine wp_nack sound (fun _ _ => .inl fun _ => id) (fun _ s u reply step moved => .inl ?_)
    (fun _ s u reply step moved => .inl ?_) fun _ s u step moved => ?_
  · refine moved.barren step ?_
    cases step with
    | requeue _ some => simp [some]
  · refine moved.barren step ?_
    cases step with
    | retryLater some => simp [some]
    | requeue kind => simp at kind
  · obtain ⟨stored, before⟩ : ∃ stored, (w.slot k).record = some stored := by
      cases step with
      | discard some => exact ⟨_, some⟩
      | requeue kind => simp at kind
    obtain ⟨reports, steps⟩ := moved.reportsTo before step
    refine wp_advanceWorkflow (moved.sound step (by simp [before]) sound) (fun _ reply => .inl ?_)
      fun workflowID wfState found ids t steered reply => .inr ⟨workflowID, wfState, ids, ?_⟩
    · exact moved.barren step (by simp [before])
    · rw [steps, moved.clock] at steered
      exact ⟨.nack, reports ▸ found, s, u, step, moved, steered⟩

/-- A call on a job that brings jobs advances the workflow of the job. -/
theorem Step.reporting (step : Step lib w event t) (sound : Sound w)
    (calls : reporting id ⟨w, event, t⟩ = true) : Barren w t ∨
      ∃ k wfState result failed ids, Advanced lib w event t k id wfState result failed ids := by
  have mine {k other : String} {wfState : WorkflowState} (member : belongs w id k = true)
      (reports : reportsTo w k = some (other, wfState)) : other = id :=
    (belongs_iff.mp member).unique (reportsTo_eq_some reports).1
  cases step with
  | tick => cases calls
  | call fresh exec =>
    rename_i operation reply
    cases operation with
    | ack k result =>
      obtain ⟨r, rfl, ends⟩ := exec_reply exec
      refine (ack_barren (sound.accept _) result r t ends).imp (fun barren => barren) ?_
      rintro ⟨other, wfState, ids, advanced⟩
      obtain rfl := mine calls advanced.reporting
      exact ⟨k, wfState, _, _, ids, advanced⟩
    | nack k jobErr requeue =>
      obtain ⟨r, rfl, ends⟩ := exec_reply exec
      refine (nack_barren (sound.accept _) jobErr requeue r t ends).imp (fun barren => barren) ?_
      rintro ⟨other, wfState, ids, advanced⟩
      obtain rfl := mine calls advanced.reporting
      exact ⟨k, wfState, _, _, ids, advanced⟩
    | _ => cases calls

/-- What advances a workflow is the report of a job of it. -/
theorem Advanced.report {result : Option RawMessage} {failed : Bool} {ids : List String}
    (advanced : Advanced lib w event t k id wfState result failed ids)
    (effects : Effects lib w t k id wfState result failed ids) :
    report? id ⟨w, event, t⟩ = some (k, failed) := by
  have member := belongs_iff.mpr (reportsTo_eq_some advanced.reporting).1
  cases advanced.reported with
  | ack => exact if_pos member
  | nack => exact if_pos ⟨member, effects.settled⟩

/-- The outcome so far, and the jobs that have reported are over. -/
structure Settling (id : String) (done : List Passage) (w : World) (wfState : WorkflowState) :
    Prop extends Outcome id done wfState where
  spent : ∀ report ∈ reports id done, (w.slot report.1).Terminal

namespace Settling

/-- A job that can still report belongs to a workflow that runs. -/
theorem running (h : Settling id done w wfState) (active : (w.slot k).state = some .active)
    (mem : k ∈ wfState.jobIDs) : wfState.state = "running" := by
  by_contra still
  obtain ⟨failed, reported⟩ := h.all_reported still k mem
  have gone : (w.slot k).Terminal := h.spent _ reported
  simp [Slot.Terminal, active] at gone

/-- A step at which the workflow rests is no report of a job of it. -/
theorem unreported (h : Settling id done w wfState) (sound : Sound w) (linked : Linked w)
    (found : w.value .workflows id = some wfState) (step : Step lib w event t)
    (rests : Rests lib id wfState w event t) : report? id ⟨w, event, t⟩ = none := by
  have listed {k : String} (member : belongs w id k = true) : k ∈ wfState.jobIDs :=
    (linked.mem_jobIDs found).mpr (belongs_iff.mp member)
  cases event with
  | tick => rfl
  | call operation reply =>
    cases operation with
    | ack k result =>
      cases reply with
      | acked r =>
        cases r with
        | error e => rfl
        | ok reply =>
          refine if_neg fun member => ?_
          obtain ⟨active, -, apart⟩ := rests.acked k result reply rfl
          exact apart (h.running active (listed member)) (listed member)
      | _ => rfl
    | nack k jobErr requeue =>
      cases reply with
      | nacked r =>
        cases r with
        | error e => rfl
        | ok reply =>
          refine if_neg fun ⟨member, discarded⟩ => ?_
          have active := nacked_active step sound
          have running := h.running active (listed member)
          obtain ⟨stored, record, owner⟩ := belongs_iff.mp member
          have nonempty := (linked.known id wfState found).2
          have lasting := (linked.owned k stored record (owner ▸ nonempty)).1
          refine (rests.slots k (listed member)).keeps (P := fun a => a.state ≠ some .discarded)
            (sound.placed k) record lasting (by simp [active]) ?_ discarded
          intro m a b ok expire step _ before
          obtain ⟨discard, -⟩ := ok.unsettled running
          exact step.not_discarded expire discard before
      | _ => rfl
    | _ => rfl

/-- A step without a report keeps the outcome. -/
theorem rests (h : Settling id done w wfState) (sound : Sound w) (linked : Linked w)
    (found : w.value .workflows id = some wfState) (step : Step lib w event t)
    (rests : Rests lib id wfState w event t) (straight : Straight id ⟨w, event, t⟩) :
    Settling id (done ++ [⟨w, event, t⟩]) t wfState := by
  have silent := h.unreported sound linked found step rests
  have barren (calls : reporting id ⟨w, event, t⟩ = true) : brought ⟨w, event, t⟩ = [] := by
    rcases step.reporting sound calls with barren | ⟨k, wfState', result, failed, ids, advanced⟩
    · exact barren.brought
    · cases silent.symm.trans (advanced.report (advanced.effects sound linked))
  have same : reports id (done ++ [⟨w, event, t⟩]) = reports id done := by
    rw [reports_snoc, silent, Option.toList_none, List.append_nil]
  refine ⟨⟨h.size, ?_, ?_, ?_, ?_, ?_, ?_⟩, fun report mem => ?_⟩
  · rw [same]; exact h.once
  · rw [same]; exact h.members
  · rw [same]; exact h.completed
  · rw [same]; exact h.failed
  · rw [same]; exact h.state
  · rw [same, posted_none barren]; exact h.posted
  · rw [same] at mem
    have listed := h.members (List.mem_map_of_mem mem)
    have gone := h.spent report mem
    have kept := rests.terminal sound linked found listed gone fun reply retry =>
      absurd retry (straight.2 report.1 reply ((linked.mem_jobIDs found).mp listed))
    unfold Slot.Terminal
    rw [kept]
    exact gone

end Settling

@[simp] theorem countedWorkflow_callbacks {stepIdx : Int} {result : Option RawMessage}
    {failed : Bool} : (countedWorkflow wfState stepIdx result failed).callbacks =
      wfState.callbacks := by
  cases result <;> cases failed <;> rfl

/-- The report of a job counts it, and the last one ends the workflow and pushes its callbacks. -/
theorem Settling.advanced {result : Option RawMessage} {failed : Bool} {ids : List String}
    (h : Settling id done w wfState) (sound : Sound w) (linked : Linked w)
    (group : wfState.type ≠ "chain")
    (advanced : Advanced lib w event t k id wfState result failed ids) :
    Settling id (done ++ [⟨w, event, t⟩]) t
      (notedWorkflow (settledWorkflow lib w.clock wfState (stepOf w k) result failed) ids) := by
  have effects := advanced.effects sound linked
  have report := advanced.report effects
  have added : reports id (done ++ [⟨w, event, t⟩]) = reports id done ++ [(k, failed)] := by
    rw [reports_snoc, report, Option.toList_some]
  have noted : notedWorkflow (settledWorkflow lib w.clock wfState (stepOf w k) result failed) ids =
      settledWorkflow lib w.clock wfState (stepOf w k) result failed :=
    if_neg fun chain => group (settledWorkflow_type.symm.trans chain)
  have room := h.unfinished effects.running
  have new : k ∉ (reports id done).map Prod.fst := by
    intro mem
    obtain ⟨before, earlier, rfl⟩ := List.mem_map.mp mem
    have gone := h.spent before earlier
    simp [Slot.Terminal, effects.active] at gone
  have counted : wfState.completed + wfState.failed = (reports id done).length := by
    rw [h.completed, h.failed, List.length_eq_countP_add_countP fun report => report.2]
    simp [Int.add_comm]
  have failures : 0 < (countedWorkflow wfState (stepOf w k) result failed).failed ↔
      (reports id done ++ [(k, failed)]).any Prod.snd = true := by
    have earlier : 0 < (reports id done).countP (fun report => report.2) ↔
        (reports id done).any Prod.snd = true := by
      rw [List.countP_pos_iff, List.any_eq_true]
    rw [countedWorkflow_failed, h.failed, List.any_append, Bool.or_eq_true, ← earlier]
    cases failed <;> simp
  have full : (countedWorkflow wfState (stepOf w k) result failed).total ≤
        (countedWorkflow wfState (stepOf w k) result failed).completed +
          (countedWorkflow wfState (stepOf w k) result failed).failed ↔
      (reports id done ++ [(k, failed)]).length = wfState.jobIDs.length := by
    rw [countedWorkflow_total, countedWorkflow_completed, countedWorkflow_failed, h.size,
      List.length_append, List.length_singleton]
    cases failed <;> simp <;> omega
  obtain ⟨state, time, shape⟩ := settledWorkflow_eq lib w.clock wfState (stepOf w k) result failed
  rw [noted]
  have jobIDs : (settledWorkflow lib w.clock wfState (stepOf w k) result failed).jobIDs =
      wfState.jobIDs := settledWorkflow_jobIDs
  have kind : (settledWorkflow lib w.clock wfState (stepOf w k) result failed).type =
      wfState.type := settledWorkflow_type
  have callbacks : (settledWorkflow lib w.clock wfState (stepOf w k) result failed).callbacks =
      wfState.callbacks := by rw [shape]; exact countedWorkflow_callbacks
  refine ⟨⟨?_, ?_, ?_, ?_, ?_, ?_, ?_⟩, fun before mem => ?_⟩
  · rw [shape]
    simpa using h.size
  · rw [added, List.map_append]
    refine List.nodup_append.mpr ⟨h.once, List.nodup_singleton _, ?_⟩
    rintro j mem j' last rfl
    have same : j = k := List.mem_singleton.mp last
    exact new (same ▸ mem)
  · rw [added, jobIDs, List.map_append]
    exact List.append_subset.mpr ⟨h.members, by simpa using effects.listed⟩
  · rw [added, shape, List.countP_append, Nat.cast_add, ← h.completed]
    cases failed <;> simp
  · rw [added, shape, List.countP_append, Nat.cast_add, ← h.failed]
    cases failed <;> simp
  · rw [added, jobIDs, settledWorkflow_group group]
    by_cases last : (reports id done ++ [(k, failed)]).length = wfState.jobIDs.length
    · have done : ¬ (reports id done ++ [(k, failed)]).length < wfState.jobIDs.length := by omega
      rw [if_pos (full.mpr last), if_neg done]
      exact if_congr failures rfl rfl
    · rw [if_neg fun all => last (full.mp all), if_pos (by simp at last ⊢; omega)]
      have same : (countedWorkflow wfState (stepOf w k) result failed).state = wfState.state := by
        cases result <;> cases failed <;> rfl
      exact same.trans effects.running
  · obtain ⟨s, v, step, moved, steered⟩ := advanced.settled
    have known : (w.slot k).record ≠ none := by
      intro missing
      have active := effects.active
      simp [Slot.state, missing] at active
    have none : (posted id done) = [] := by
      have posted := h.posted
      rw [if_neg fun full => by omega] at posted
      exact posted.eq_nil
    rw [posted_some report, none, List.nil_append, added, jobIDs, kind, callbacks]
    refine (steered.brought sound step known moved).trans (.of_eq ?_)
    rw [successorJobs_group id group, countedWorkflow_type]
    by_cases last : (reports id done ++ [(k, failed)]).length = wfState.jobIDs.length ∧
        wfState.type = "batch"
    · rw [if_pos ⟨full.mpr last.1, last.2⟩, if_pos last, callbackJobs_postings,
        countedWorkflow_callbacks, Bool.eq_iff_iff.mpr (decide_eq_true_iff.trans failures)]
    · rw [if_neg fun ends => last ⟨full.mp ends.1, ends.2⟩, if_neg last]
      rfl
  · rw [added] at mem
    rcases List.mem_append.mp mem with earlier | last
    · have gone := h.spent before earlier
      have listed := h.members (List.mem_map_of_mem earlier)
      rwa [effects.others before.1 listed fun same => new (same ▸ List.mem_map_of_mem earlier)]
    · rw [List.mem_singleton.mp last, Slot.Terminal, effects.settled]
      cases failed <;> simp

/-! ## Runs -/

/-- No job of a workflow is reported on before the workflow is created. -/
theorem unborn_quiet {q : Passage} (nonempty : id ≠ "") (linked : Linked q.before)
    (unborn : q.before.value .workflows id = none) : reporting id q = false := by
  have foreign (k : String) : belongs q.before id k = false := by
    refine Bool.eq_false_iff.mpr fun member => ?_
    obtain ⟨stored, record, rfl⟩ := belongs_iff.mp member
    have listed := (linked.owned k stored record nonempty).2
    rw [roster, unborn] at listed
    cases listed
  unfold reporting
  split
  · exact foreign _
  · exact foreign _
  · rfl

theorem Born.settling {req : WorkflowRequest} {ids : List String}
    (born : Born lib w event t id req ids) (quiet : ∀ q ∈ done, reporting id q = false)
    (group : req.type ≠ "chain") (peopled : ids ≠ []) :
    Settling id (done ++ [⟨w, event, t⟩]) t
      { newWorkflowState lib id req (requestedJobs req) w.clock with jobIDs := ids } := by
  have all (q : Passage) (mem : q ∈ done ++ [⟨w, event, t⟩]) : reporting id q = false := by
    rcases List.mem_append.mp mem with earlier | last
    · exact quiet q earlier
    · obtain rfl := List.mem_singleton.mp last
      obtain ⟨reply, call⟩ := born.call
      rw [call]
      rfl
  have none : reports id (done ++ [⟨w, event, t⟩]) = [] := by
    refine List.filterMap_eq_nil_iff.mpr fun q mem => Option.eq_none_iff_forall_ne_some.mpr ?_
    intro report reported
    cases (all q mem).symm.trans (reporting_of_report? reported)
  have unposted : posted id (done ++ [⟨w, event, t⟩]) = [] := by
    rw [posted, List.filter_eq_nil_iff.mpr fun q mem => by simp [all q mem], List.flatMap_nil]
  have length : ids.length = (requestedJobs req).length := by
    rw [born.steered.length, initialJobs, if_neg group, memberJobs_length, requestedJobs,
      if_neg group]
  have more : 0 < ids.length := List.length_pos_of_ne_nil peopled
  refine ⟨⟨?_, ?_, ?_, ?_, ?_, ?_, ?_⟩, ?_⟩
  · exact congrArg Int.ofNat length.symm
  · simp [none]
  · simp [none]
  · simp [none, newWorkflowState]
  · simp [none, newWorkflowState]
  · simp [none, newWorkflowState, more]
  · rw [unposted, none, if_neg fun full => by simp at full; omega]
  · simp [none]

/-- In every run that neither cancels a group or batch nor revives a job of it, the
reports alone decide its outcome. -/
theorem batch_outcome {clock : Int} (run : Run lib (World.start clock) trace w)
    (unforged : ∀ p ∈ trace, p.event.Meets Call.Unforged)
    (found : w.value .workflows id = some wfState) (group : wfState.type ≠ "chain")
    (peopled : wfState.jobIDs ≠ []) (straight : ∀ p ∈ trace, Straight id p) :
    Outcome id trace wfState := by
  have settling : wfState.type ≠ "chain" → wfState.jobIDs ≠ [] →
      Settling id trace w wfState := by
    refine run.along_course (I := fun done v wfState => wfState.type ≠ "chain" →
      wfState.jobIDs ≠ [] → Settling id done v wfState) unforged found ?_ ?_
    · intro done p req ids here unborn born group peopled
      have nonempty := (here.linked'.known id _ born.steered.record).2
      have linked := here.run.linked_before fun q mem => unforged q (here.earlier q mem)
      exact born.settling (fun q mem => unborn_quiet nonempty (linked q mem) (unborn q mem).1)
        group peopled
    · intro done p wfState wfState' here found found' course settling group peopled
      cases course with
      | rests rests =>
        cases found'.symm.trans rests.record
        exact (settling group peopled).rests here.sound here.linked found here.step rests
          (straight p here.mem)
      | @advances k result failed ids advanced =>
        have effects := advanced.effects here.sound here.linked
        cases found'.symm.trans effects.record
        have kind : wfState.type ≠ "chain" := by
          rintro chain
          refine group ?_
          unfold notedWorkflow
          split
          · exact settledWorkflow_type.trans chain
          · exact settledWorkflow_type.trans chain
        exact (settling kind (List.ne_nil_of_mem effects.listed)).advanced here.sound here.linked
          kind advanced
      | stops cancelled _ => exact absurd cancelled ((straight p here.mem).1 _)
  exact (settling group peopled).toOutcome

/-- The group of two jobs as a batch that defines every callback. -/
def batch : WorkflowRequest :=
  { pair with
    type := "batch"
    callbacks := some
      { onComplete := some { type := "report" }
        onSuccess := some { type := "cheer" }
        onFailure := some { type := "alarm" } } }

/-- The second job ends, and then the first one is discarded. -/
def failingLast : List Cue :=
  [.call (.createWorkflow batch), .call (.fetch ["default"] 2 "worker-1" 0),
    .call (.ack (pairID 2) none), .call (.nack (pairID 1) none false)]

/-- What a played run says about the batch. -/
def finding (r : List Passage × World) : Option (String × String × List String × List String) :=
  (r.2.value .workflows (pairID 0)).map fun wfState =>
    (wfState.type, wfState.state, wfState.jobIDs, (posted (pairID 0) r.1).map Posting.type)

theorem batch_outcome_failing : ∃ trace w wfState,
    play (World.start (Sample.instant 0)) failingLast = some (trace, w) ∧
    w.value .workflows (pairID 0) = some wfState ∧ wfState.state = "failed" ∧
    (posted (pairID 0) trace).map Posting.type = ["alarm", "report"] ∧
    Outcome (pairID 0) trace wfState := by
  have plays : (play (World.start (Sample.instant 0)) failingLast).isSome := by decide
  obtain ⟨⟨trace, w⟩, played⟩ := Option.isSome_iff_exists.mp plays
  have facts : (play (World.start (Sample.instant 0)) failingLast).bind finding =
      some ("batch", "failed", [pairID 1, pairID 2], ["alarm", "report"]) := by decide
  rw [played, Option.bind_some] at facts
  obtain ⟨wfState, found, same⟩ := Option.map_eq_some_iff.mp facts
  obtain ⟨type, state, jobIDs, fired⟩ := by simpa only [Prod.mk.injEq] using same
  have unforged : ∀ cue ∈ failingLast, cue.Meets Call.Unforged := by
    simp [failingLast, Cue.Meets, Call.Unforged]
  have straight : ∀ cue ∈ failingLast, cue.Meets fun call =>
      (∀ id, call ≠ .cancelWorkflow id) ∧ ∀ k, call ≠ .retryDeadLetter k := by
    simp [failingLast, Cue.Meets]
  refine ⟨trace, w, wfState, played, found, state, fired, batch_outcome (run_of_play played)
    (meets_of_play played unforged) found (by simp [type]) (by simp [jobIDs]) ?_⟩
  intro p mem
  have kind := meets_of_play played straight p mem
  constructor
  · intro reply cancelled
    rw [cancelled] at kind
    exact kind.1 _ rfl
  · intro k reply _ retry
    rw [retry] at kind
    exact kind.2 _ rfl

end OjsNats.Lifecycle
