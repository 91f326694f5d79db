import OjsNats.Lifecycle.Chronicle
import OjsNats.Lifecycle.Counting
import OjsNats.Lifecycle.Membership

/-!
# The statistics of a queue

`QueueStats` takes its numbers from the backlog of the consumer, the active
entries and a counter.  They agree with the jobs until an available job is
cancelled, whose message stays behind.
-/

namespace OjsNats.Lifecycle

open Core Nats Effect Semantics Program Relation

variable {lib : Externals} {w t u : World} {k queue : String} {event : Event}

/-! ## The queue of an active entry -/

namespace Slot

variable {now : Int} {j : String} {m : Move} {s s' : Slot}

/-- The active entry names the queue of the job. -/
def Labelled (s : Slot) : Prop :=
  ∀ info rec, s.active = some info → s.record = some rec → info.queue = rec.queue

/-- Only claims and extended leases write active entries. -/
theorem Step.labelled (step : Step lib now j m s s') (placed : s.Placed j) (claim : m ≠ .claim)
    (extend : m ≠ .extend) (labelled : s.Labelled) : s'.Labelled := by
  have next {rec rec' : JobState} {active : Option ActiveJobInfo} (found : s.record = some rec)
      (same : rec'.queue = rec.queue) (kept : active = s.active ∨ active = none)
      {info : ActiveJobInfo} {stored : JobState} (here : active = some info)
      (after : some rec' = some stored) : info.queue = stored.queue := by
    cases after
    rcases kept with kept | none
    · rw [same]
      exact labelled info rec (kept.symm.trans here) found
    · cases none.symm.trans here
  intro info rec active record
  cases step with
  | enqueue none | schedule none =>
    have empty : s.active = Option.none := by rw [placed.eq_vacant none]; rfl
    cases empty.symm.trans active
  | claim => exact absurd rfl claim
  | extend => exact absurd rfl extend
  | skip | forget => exact labelled info rec active record
  | expire found _ _ become => exact next found become.queue (.inl rfl) active record
  | complete found _ become | discard found _ become | retryLater found _ become
  | cancel found _ become => exact next found become.queue (.inr rfl) active record
  | requeue _ found _ become => exact next found become.queue (.inr rfl) active record
  | promoteScheduled found _ become | promoteRetry found _ become | revive found _ become =>
    exact next found become.queue (.inl rfl) active record

theorem Evolves.labelled {allowed : Move → Prop} (h : s.Evolves lib now j allowed s')
    (placed : s.Placed j) (labelled : s.Labelled)
    (spared : ∀ m, allowed m → m ≠ .claim ∧ m ≠ .extend) : s'.Labelled := by
  induction h with
  | refl => exact labelled
  | tail before step ih =>
    obtain ⟨m, ok, step⟩ := step
    exact step.labelled (Evolves.placed before placed) (spared m ok).1 (spared m ok).2 ih

/-- A job stays in its queue. -/
theorem Evolves.same_queue {allowed : Move → Prop} (h : s.Evolves lib now j allowed s')
    {rec rec' : JobState} (found : s.record = some rec) (found' : s'.record = some rec') :
    rec.queue = rec'.queue := by
  obtain ⟨stored, same, terms⟩ := Evolves.terms h found
  cases found'.symm.trans same
  have queues : rec'.terms.queue = rec.terms.queue := by rw [terms]
  exact queues.symm

end Slot

/-- Records are stored under their ids, and each active entry names the queue of its job. -/
structure Labels (w : World) : Prop where
  keyed : ∀ k rec, (w.slot k).record = some rec → rec.id = k
  slots : ∀ k, (w.slot k).Labelled

/-- The labels are right, and the jobs were stored before in the same queue. -/
structure Relabelled (w t : World) : Prop extends Labels t where
  queues : ∀ k rec, (t.slot k).record = some rec →
    ∃ rec', (w.slot k).record = some rec' ∧ rec'.queue = rec.queue

theorem Labels.refl (labels : Labels w) : Relabelled w w :=
  ⟨labels, fun _ rec found => ⟨rec, found, rfl⟩⟩

namespace Relabelled

theorem trans (h : Relabelled w t) (h' : Relabelled t u) : Relabelled w u := by
  refine ⟨h'.toLabels, fun k rec found => ?_⟩
  obtain ⟨rec', found', same'⟩ := h'.queues k rec found
  obtain ⟨rec'', found'', same''⟩ := h.queues k rec' found'
  exact ⟨rec'', found'', same''.trans same'⟩

theorem same (h : Relabelled w t) (same : SameBoard t u) : Relabelled w u := by
  refine ⟨⟨fun k rec found => h.keyed k rec (same.slots k ▸ found), fun k => ?_⟩,
    fun k rec found => h.queues k rec (same.slots k ▸ found)⟩
  rw [same.slots]
  exact h.slots k

theorem track (h : Relabelled w t) (m : Option Msg) : Relabelled w (t.track k m) :=
  ⟨⟨h.keyed, h.slots⟩, h.queues⟩

/-- A later record of the same job. -/
theorem put_job {rec : JobState} (h : Relabelled w t) (new : JobState)
    (found : (t.slot k).record = some rec) (id : new.id = k) (same : new.queue = rec.queue) :
    Relabelled w (t.put .jobs k new) := by
  have slot (j : String) : (t.put .jobs k new).slot j =
      if j = k then { t.slot j with record := some new } else t.slot j := slot_put _ _ _ _ _
  refine ⟨⟨fun j stored here => ?_, fun j info stored active here => ?_⟩,
    fun j stored here => ?_⟩
  · rw [slot] at here
    split at here
    · rename_i eq
      cases here
      rw [id, eq]
    · exact h.keyed j stored here
  · rw [slot] at here active
    split at here
    · rename_i eq
      cases here
      rw [if_pos eq] at active
      rw [same]
      exact h.slots k info rec (eq ▸ active) found
    · rename_i ne
      rw [if_neg ne] at active
      exact h.slots j info stored active here
  · rw [slot] at here
    split at here
    · rename_i eq
      cases here
      rw [eq, same]
      exact h.queues k rec found
    · exact h.queues j stored here

theorem put_active (h : Relabelled w t) (info : ActiveJobInfo)
    (own : ∀ rec, (t.slot k).record = some rec → info.queue = rec.queue) :
    Relabelled w (t.put .active k info) := by
  have slot (j : String) : (t.put .active k info).slot j =
      if j = k then { t.slot j with active := some info } else t.slot j := slot_put _ _ _ _ _
  have record (j : String) : ((t.put .active k info).slot j).record = (t.slot j).record := by
    rw [slot]
    split <;> rfl
  refine ⟨⟨fun j stored here => h.keyed j stored (record j ▸ here),
    fun j info' stored active here => ?_⟩, fun j stored here => h.queues j stored (record j ▸ here)⟩
  rw [record] at here
  rw [slot] at active
  split at active
  · rename_i eq
    cases active
    exact own stored (eq ▸ here)
  · exact h.slots j info' stored active here

end Relabelled

theorem Handed.labels {ids : List String} (handed : Handed lib [] ids w t) (sound : Sound w)
    (labels : Labels w) : Relabelled w t := by
  have slot (j : String) : ((t.slot j).record = (w.slot j).record ∧
      (t.slot j).active = (w.slot j).active) ∨
      (w.slot j).Evolves lib w.clock j (Takes [] j) (t.slot j) := by
    by_cases mem : j ∈ ids
    · obtain ⟨msg, -, same⟩ := handed.waiting j mem
      exact .inl (by rw [same]; exact ⟨rfl, rfl⟩)
    · exact .inr (handed.moved j mem)
  refine ⟨⟨fun j rec found => ?_, fun j => ?_⟩, fun j rec found => ?_⟩
  · rcases slot j with ⟨same, -⟩ | evolves
    · exact labels.keyed j rec (same.symm.trans found)
    · exact (Slot.Evolves.placed evolves (sound.placed j)).keyed rec found
  · rcases slot j with ⟨same, same'⟩ | evolves
    · intro info rec active found
      exact labels.slots j info rec (same'.symm.trans active) (same.symm.trans found)
    · refine Slot.Evolves.labelled evolves (sound.placed j) (labels.slots j) fun m ok => ?_
      rcases ok with ⟨-, none⟩ | rfl | rfl
      · cases none
      · simp
      · simp
  · rcases slot j with ⟨same, -⟩ | evolves
    · exact ⟨rec, same.symm.trans found, rfl⟩
    · cases before : (w.slot j).record with
      | none => exact absurd before (handed.known j (by simp [found]))
      | some rec' => exact ⟨rec', rfl, Slot.Evolves.same_queue evolves before found⟩

theorem fetchJob_labels {jobs : List Job} {workerID : String} {timeout now : Int}
    (labels : Labels w) (own : ∀ rec, (w.slot k).record = some rec → rec.queue = queue) :
    serves.wp (fetchJob lib queue workerID timeout now k jobs) (fun _ t => Relabelled w t) w := by
  simp only [fetchJob, bind_eq, wp_bind, wp_getJobState]
  cases stored : (w.slot k).record with
  | none =>
    rw [World.job_of_none stored]
    simp only [wp_bind, wp_ackMessage, pure_eq, wp_pure]
    exact labels.refl.track none
  | some rec =>
    obtain rfl : rec.id = k := labels.keyed k rec stored
    rw [World.job_of_record stored]
    dsimp only
    split
    · simp only [wp_bind, wp_putJobState, wp_ackMessage, pure_eq, wp_pure]
      exact (labels.refl.put_job (marshalJobState { unmarshalJobState rec with state := .discarded })
        stored rfl rfl).track none
    · split
      · simp only [wp_bind, wp_ackMessage, pure_eq, wp_pure]
        exact labels.refl.track none
      · simp only [wp_bind, wp_put, wp_putJobState]
        refine wp_sideline (sideline_recordFetchTime queue _) fun _ t same => wp_pure.mpr ?_
        generalize lease : activeInfo lib queue workerID now _ = info at same
        have leased : Relabelled w (w.put .active rec.id info) :=
          labels.refl.put_active info fun rec' found => lease ▸ (own rec' found).symm
        have stored' : ((w.put .active rec.id info).slot rec.id).record = some rec := by
          rw [slot_put, if_pos rfl]
          exact stored
        exact (leased.put_job (marshalJobState (claimedJob lib now (unmarshalJobState rec))) stored'
          rfl rfl).same same

theorem fetchQueue_labels {jobs : List Job} {workerID : String} {count timeout : Int}
    (sound : Sound w) (labels : Labels w) :
    serves.wp (fetchQueue lib count workerID timeout w.clock queue jobs)
      (fun _ t => Relabelled w t) w := by
  unfold fetchQueue
  split
  · exact wp_pure.mpr labels.refl
  · refine wp_bind.mpr (wp_sideline (sideline_isQueuePaused queue) fun paused a same => ?_)
    cases paused with
    | true => exact wp_pure.mpr (labels.refl.same same)
    | false =>
      refine wp_bind.mpr (wp_sideline (sideline_isRateLimited queue _) fun limited b same' => ?_)
      have same := same.trans same'
      cases limited with
      | true => exact wp_pure.mpr (labels.refl.same same)
      | false =>
        refine wp_bind.mpr (wp_fetchMessages lib (same.sound sound) (fun e t same' => ?_)
          fun ids v t same' handed own => ?_)
        · exact wp_pure.mpr (labels.refl.same (same.trans same'))
        · have known := labels.refl.same (same.trans same')
          have sound' : Sound v := (same.trans same').sound sound
          have start := known.trans (handed.labels sound' known.toLabels)
          refine wp_forEach (fun rest _ m => Relabelled w m ∧ ∀ j ∈ rest, ∀ rec,
            (m.slot j).record = some rec → rec.queue = queue) ⟨start, fun j mem rec found => ?_⟩ ?_
            fun _ _ h => h.1
          · obtain ⟨rec', found', queue'⟩ :=
              (handed.labels sound' known.toLabels).queues j rec found
            exact queue'.symm.trans (own j mem rec' found')
          · rintro j rest _ m ⟨relabelled, mine⟩
            refine (fetchJob_labels relabelled.toLabels (mine j (by simp))).mono fun _ t turn => ?_
            refine ⟨relabelled.trans turn, fun i mem rec found => ?_⟩
            obtain ⟨rec', found', queue'⟩ := turn.queues i rec found
            exact queue'.symm.trans (mine i (by simp [mem]) rec' found')

theorem fetch_labels {queues : List String} {workerID : String} {count timeout : Int}
    (sound : Sound w) (labels : Labels w) :
    serves.wp (fetch lib queues count workerID timeout) (fun _ t => Labels t) w := by
  simp only [fetch, bind_eq, wp_bind, wp_timeNow]
  refine wp_forEach (fun _ jobs t => Fetched lib jobs w t ∧ Labels t)
    ⟨.of_same (SameBoard.refl w), labels⟩ ?_ fun _ _ h => h.2
  rintro queue _ jobs v ⟨fetched, labels'⟩
  have sound' : Sound v := fetched.evolves.sound sound
  rw [← fetched.evolves.clock]
  refine ((fetchQueue_fetched count workerID timeout queue jobs sound').and
    (fetchQueue_labels sound' labels')).mono ?_
  rintro _ t ⟨⟨more, rfl, here⟩, turn⟩
  exact ⟨fetched.append sound' here, turn.toLabels⟩

theorem extendLease_labels {workerID : String} {timeout now : Int} {extended : List String}
    (labels : Labels w) : serves.wp (extendLease lib workerID timeout now k extended)
      (fun _ t => Labels t) w := by
  simp only [extendLease, bind_eq, wp_bind, wp_getJobState]
  cases stored : (w.slot k).record with
  | none =>
    rw [World.job_of_none stored]
    exact wp_pure.mpr labels
  | some rec =>
    rw [World.job_of_record stored]
    dsimp only
    split
    · exact wp_pure.mpr labels
    · simp only [wp_bind, wp_put]
      have leased := labels.refl.put_active (activeInfo lib rec.queue workerID now timeout)
        fun rec' found => by cases stored.symm.trans found; rfl
      refine wp_sideline (sideline_inProgress k) fun _ t same => wp_pure.mpr ?_
      exact (leased.same same).toLabels

theorem heartbeat_labels {workerID : String} {ids : List String} {timeout : Int}
    (labels : Labels w) : serves.wp (heartbeat lib workerID ids timeout)
      (fun _ t => Labels t) w := by
  have seeking (v : World) (labels : Labels v) :
      serves.wp (Program.forEach ids none findDirective) (fun _ t => Labels t) v := by
    refine wp_forEach (fun _ _ t => Labels t) labels (fun k _ found m labels' => ?_) fun _ _ h => h
    unfold findDirective
    split
    · exact wp_pure.mpr labels'
    · simp only [bind_eq, wp_bind, wp_getJobState]
      split <;> exact wp_pure.mpr labels'
  simp only [heartbeat, bind_eq, wp_bind, wp_timeNow, wp_get .workers]
  refine wp_sideline (sideline_put rfl _ _) fun _ v same => ?_
  refine (wp_forEach (fun _ _ t => Labels t) (labels.refl.same same).toLabels ?_
    fun _ _ h => h).mono fun extended t labels' => ?_
  · exact fun k _ extended m labels' => extendLease_labels labels'
  · refine iteInduction (motive := fun p => serves.wp p (fun _ t => Labels t) t) (fun _ => ?_)
      fun _ => ?_
    · refine wp_bind.mpr ((seeking t labels').mono fun _ _ h => ?_)
      exact wp_bind.mpr (wp_pure.mpr (wp_pure.mpr h))
    · exact wp_bind.mpr (wp_pure.mpr (wp_pure.mpr labels'))

/-- Apart from a fetch and a heartbeat no operation writes active entries. -/
theorem moves_unleased {call : Call} (fetch : ∀ queues count workerID timeout,
      call ≠ .fetch queues count workerID timeout)
    (heartbeat : ∀ workerID ids timeout, call ≠ .heartbeat workerID ids timeout) {m : Move}
    (ok : moves lib call k m) : m ≠ .claim ∧ m ≠ .extend := by
  have brings {new : String → JobState → Prop} (ok : Brings new k m) :
      m ≠ .claim ∧ m ≠ .extend := by
    obtain ⟨rec, rfl | rfl, -⟩ := ok <;> simp
  cases call with
  | fetch => exact absurd rfl (fetch _ _ _ _)
  | heartbeat => exact absurd rfl (heartbeat _ _ _)
  | push => exact ok.elim brings (by rintro rfl; simp)
  | pushBatch => exact brings ok
  | fireCronJobs => exact (fun h : SpawnsLoose k m => brings h) ok
  | createWorkflow | advanceWorkflow => exact (fun h : Spawns k m => brings h) ok
  | ack => exact ok.elim (by rintro ⟨-, rfl⟩; simp) brings
  | nack => exact ok.elim (by rintro ⟨-, ⟨rfl, -⟩ | ⟨rfl | rfl, -⟩⟩ <;> simp) brings
  | cancel | retryDeadLetter | deleteDeadLetter =>
    obtain ⟨-, rfl⟩ := ok
    simp
  | promoteScheduled | promoteRetries | requeueStalled | cancelWorkflow =>
    cases ok
    simp
  | registerCron | deleteCron | pauseQueue | resumeQueue | setWorkerState => exact ok.elim

theorem Step.labels (step : Step lib w event t) (sound : Sound w) (labels : Labels w) :
    Labels t := by
  cases step with
  | tick => exact ⟨labels.keyed, labels.slots⟩
  | call fresh exec =>
    rename_i operation reply
    have others (spared : ∀ k m, moves lib operation k m → m ≠ .claim ∧ m ≠ .extend) :
        Labels t := by
      have evolves := call_evolves sound fresh _ _ exec
      have sound' : Sound t := evolves.sound (sound.accept _)
      exact ⟨fun k => (sound'.placed k).keyed, fun k =>
        Slot.Evolves.labelled (evolves.slots k) (sound.placed k) (labels.slots k) (spared k)⟩
    have accepted : Labels (w.accept operation) := ⟨labels.keyed, labels.slots⟩
    cases operation with
    | fetch queues count workerID timeout =>
      obtain ⟨r, rfl, ends⟩ := exec_reply exec
      exact fetch_labels (sound.accept _) accepted r t ends
    | heartbeat workerID ids timeout =>
      obtain ⟨r, rfl, ends⟩ := exec_reply exec
      exact heartbeat_labels accepted r t ends
    | _ => exact others fun k m ok => moves_unleased (by simp) (by simp) ok

theorem Labels.start (clock : Int) : Labels (World.start clock) where
  keyed := fun _ _ found => by cases found
  slots := fun _ _ _ active => by cases active

theorem Run.labels {clock : Int} {trace : List Passage}
    (run : Run lib (World.start clock) trace w) : Labels w :=
  run.holds (I := fun _ v => Labels v) (.start clock) (.start clock)
    fun _ _ _ sound step labels => step.labels sound labels

end OjsNats.Lifecycle
