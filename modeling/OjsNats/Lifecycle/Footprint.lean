import OjsNats.Lifecycle.Sideline
import OjsNats.Nats.Calls

/-!
# What each operation writes

The buckets that a program writes are a list.  In particular only the
unique-policy block of a push writes the locks, and only the workflow programs
write the workflow records: these two buckets are shared by jobs.
-/

namespace OjsNats.Lifecycle

open Core Nats Effect Semantics Program

/-- A job's record lies under the job's own id, a cron entry under its name. -/
def Filed : (b : BucketName) → String → b.Value → Prop
  | .jobs, k, stored => stored.id = k
  | .cron, k, stored => stored.name = k
  | _, _, _ => True

/-- The calls that write to other buckets only, and file what they write. -/
def Spares (b : BucketName) : Op → Prop
  | .put b' k v | .create b' k v | .update b' k v _ => b' ≠ b ∧ Filed b' k v
  | .delete b' _ => b' ≠ b
  | _ => True

/-- The calls that write to these buckets only, and file what they write. -/
def Confined (S : List BucketName) : Op → Prop
  | .put b k v | .create b k v | .update b k v _ => b ∈ S ∧ Filed b k v
  | .delete b _ => b ∈ S
  | _ => True

theorem Confined.mono {S T : List BucketName} (sub : S ⊆ T) {op : Op} (h : Confined S op) :
    Confined T op := by
  cases op with
  | put | create | update => exact ⟨sub h.1, h.2⟩
  | delete => exact sub h
  | _ => trivial

theorem Confined.spares {S : List BucketName} {b : BucketName} (out : b ∉ S) {op : Op}
    (h : Confined S op) : Spares b op := by
  have other {b' : BucketName} (mem : b' ∈ S) : b' ≠ b := by
    rintro rfl
    exact out mem
  cases op with
  | put | create | update => exact ⟨other h.1, h.2⟩
  | delete => exact other h
  | _ => trivial

/-- The buckets of one list are in the other. -/
def AllIn (S T : List BucketName) : Bool := S.all fun b => decide (b ∈ T)

theorem subset_of_allIn {S T : List BucketName} (h : AllIn S T = true) : S ⊆ T := by
  intro b mem
  exact of_decide_eq_true (List.all_eq_true.mp h b mem)

theorem widen {α : Type} {p : Prog α} {S T : List BucketName} (uses : p.Uses (Confined S))
    (within : AllIn S T = true) : p.Uses (Confined T) :=
  uses.mono fun _ => Confined.mono (subset_of_allIn within)

theorem confined_bind {α β : Type} {p : Prog α} {f : α → Prog β} {S T : List BucketName}
    (first : p.Uses (Confined S)) (within : AllIn S T = true)
    (rest : ∀ a, (f a).Uses (Confined T)) : (p.bind f).Uses (Confined T) :=
  uses_bind (widen first within) rest

theorem spares_of {α : Type} {p : Prog α} {S : List BucketName} {b : BucketName}
    (uses : p.Uses (Confined S)) (out : b ∉ S) : p.Uses (Spares b) :=
  uses.mono fun _ => Confined.spares out

/-- The buckets shared by jobs. -/
def Guarded : BucketName → Bool
  | .unique | .workflows => true
  | _ => false

theorem ne_of_guarded {b b' : BucketName} (guarded : Guarded b = true)
    (other : Guarded b' = false) : b' ≠ b := by
  rintro rfl
  rw [guarded] at other
  cases other

theorem spares_guarded {α : Type} {p : Prog α} {S : List BucketName} (uses : p.Uses (Confined S))
    (free : ∀ b ∈ S, Guarded b = false) (b : BucketName) (guarded : Guarded b = true) :
    p.Uses (Spares b) := by
  refine spares_of uses fun mem => ?_
  rw [free b mem] at guarded
  cases guarded

theorem kv_put_of_ne {w : World} {b b' : BucketName} (k : String) (v : b'.Value) (h : b' ≠ b) :
    (w.put b' k v).kv b = w.kv b :=
  Function.update_of_ne (Ne.symm h) _ _

theorem kv_delete_of_ne {w : World} {b b' : BucketName} (k : String) (h : b' ≠ b) :
    (w.delete b' k).kv b = w.kv b :=
  Function.update_of_ne (Ne.symm h) _ _

/-- The calls that do not write to the bucket. -/
def Leaves (b : BucketName) : Op → Prop
  | .put b' _ _ | .create b' _ _ | .update b' _ _ _ | .delete b' _ => b' ≠ b
  | _ => True

theorem Spares.leaves {b : BucketName} {op : Op} (spares : Spares b op) : Leaves b op := by
  cases op with
  | put | create | update => exact spares.1
  | delete => exact spares
  | _ => trivial

theorem Leaves.kv {b : BucketName} {w w' : World} {op : Op} {r : Ans op} (leaves : Leaves b op)
    (step : w.Serves op r w') : w'.kv b = w.kv b := by
  cases op with
  | put b' k v => exact step.2 ▸ kv_put_of_ne k v leaves
  | delete b' k => exact step.2 ▸ kv_delete_of_ne k leaves
  | create b' k v =>
    simp only [World.Serves] at step
    split at step
    · rw [step.2]
    · exact step.2 ▸ kv_put_of_ne k v leaves
  | update b' k v rev =>
    simp only [World.Serves] at step
    split at step
    · exact step.2 ▸ kv_put_of_ne k v leaves
    · rw [step.2]
  | keys => rw [step.1]
  | newUUIDv7 => rw [step.2.2]
  | consumerFetch =>
    obtain ⟨n, -, -, rfl⟩ := step
    rfl
  | consumerStore | inflightStore | regexStore =>
    cases step
    rfl
  | now | calculateBackoff | get | consumerLoad | ensureConsumer | inflightLoad
  | inflightLoadAndDelete | msgAck | msgInProgress | publish | regexLoad =>
    exact step.2 ▸ rfl

/-- A program that spares a bucket leaves it as it is. -/
theorem kv_of_spares {α : Type} {b : BucketName} {p : Prog α} (uses : p.Uses (Spares b))
    {w t : World} {a : α} (run : serves.Exec p w a t) : t.kv b = w.kv b :=
  run.frame uses (fun w => w.kv b) fun _ _ _ _ spares step => spares.leaves.kv step

/-- Everything that is stored is filed. -/
def AllFiled (w : World) : Prop := ∀ b k v, w.value b k = some v → Filed b k v

theorem AllFiled.of_kv {w w' : World} (filed : AllFiled w) (same : w'.kv = w.kv) :
    AllFiled w' := by
  intro b k v stored
  exact filed b k v (by rwa [World.value, same] at stored)

theorem AllFiled.put {w : World} {b : BucketName} {k : String} {v : b.Value} (filed : AllFiled w)
    (new : Filed b k v) : AllFiled (w.put b k v) := by
  intro b' j v' stored
  rw [value_put] at stored
  split at stored
  · rename_i here
    obtain ⟨rfl, rfl⟩ := here
    cases stored
    exact new
  · exact filed b' j v' stored

theorem AllFiled.delete {w : World} {b : BucketName} {k : String} (filed : AllFiled w) :
    AllFiled (w.delete b k) := by
  intro b' j v stored
  rw [value_delete] at stored
  split at stored
  · cases stored
  · exact filed b' j v stored

theorem Spares.filed {b : BucketName} {w w' : World} {op : Op} {r : Ans op} (spares : Spares b op)
    (step : w.Serves op r w') (filed : AllFiled w) : AllFiled w' := by
  cases op with
  | put b' k v => exact step.2 ▸ filed.put spares.2
  | delete b' k => exact step.2 ▸ filed.delete
  | create b' k v =>
    simp only [World.Serves] at step
    split at step
    · exact step.2 ▸ filed
    · exact step.2 ▸ filed.put spares.2
  | update b' k v rev =>
    simp only [World.Serves] at step
    split at step
    · exact step.2 ▸ filed.put spares.2
    · exact step.2 ▸ filed
  | keys => exact step.1 ▸ filed
  | newUUIDv7 => exact step.2.2 ▸ filed.of_kv rfl
  | consumerFetch =>
    obtain ⟨n, -, -, rfl⟩ := step
    exact filed.of_kv rfl
  | consumerStore | inflightStore | regexStore =>
    cases step
    exact filed.of_kv rfl
  | inflightLoadAndDelete | publish => exact step.2 ▸ filed.of_kv rfl
  | now | calculateBackoff | get | consumerLoad | ensureConsumer | inflightLoad | msgAck
  | msgInProgress | regexLoad => exact step.2 ▸ filed

theorem filed_of_spares {α : Type} {b : BucketName} {p : Prog α} (uses : p.Uses (Spares b))
    {w t : World} {a : α} (run : serves.Exec p w a t) (filed : AllFiled w) : AllFiled t :=
  run.preserves uses (P := AllFiled) (fun _ _ _ _ spares step => spares.filed step) filed

section Calls

variable {S : List BucketName}

theorem confined_get (b' : BucketName) (k : String) : (Store.get b' k).Uses (Confined S) :=
  ⟨trivial, fun _ => trivial⟩

theorem confined_put {b' : BucketName} (mem : b' ∈ S) (k : String) (v : b'.Value)
    (filed : Filed b' k v) : (Store.put b' k v).Uses (Confined S) :=
  ⟨⟨mem, filed⟩, fun _ => trivial⟩

theorem confined_delete {b' : BucketName} (mem : b' ∈ S) (k : String) :
    (Store.delete b' k).Uses (Confined S) :=
  ⟨mem, fun _ => trivial⟩

theorem confined_keys (b' : BucketName) : (Store.keys b').Uses (Confined S) := by
  refine ⟨trivial, fun r => ?_⟩
  match r with
  | .ok _ => trivial
  | .error .noKeysFound => trivial
  | .error .keyNotFound | .error .keyExists | .error .wrongRevision | .error .unavailable =>
    trivial

theorem confined_timeNow : timeNow.Uses (Confined S) := ⟨trivial, fun _ => trivial⟩

theorem confined_newUUIDv7 : newUUIDv7.Uses (Confined S) := ⟨trivial, fun _ => trivial⟩

theorem uses_newID {α : Type} {given : String} {rest : String → Prog α}
    (h : ∀ id, (rest id).Uses (Confined S)) :
    (if given = "" then newUUIDv7.bind rest else rest given).Uses (Confined S) := by
  split
  · exact uses_bind confined_newUUIDv7 h
  · exact h given

theorem confined_getJobState (k : String) : (getJobState k).Uses (Confined S) := by
  refine uses_bind (confined_get .jobs k) fun r => ?_
  cases r <;> trivial

theorem confined_info (k : String) : (info k).Uses (Confined S) := by
  refine uses_bind (confined_getJobState k) fun r => ?_
  cases r <;> trivial

theorem confined_ackMessage (k : String) : (ackMessage k).Uses (Confined S) := by
  refine ⟨trivial, fun tracked => ?_⟩
  cases tracked with
  | none => trivial
  | some msg => exact ⟨trivial, fun _ => trivial⟩

theorem confined_publishJob (queue k : String) : (publishJob queue k).Uses (Confined S) := by
  refine ⟨trivial, fun r => ?_⟩
  cases r <;> trivial

end Calls

theorem confined_putJobState (job : Job) : (putJobState job).Uses (Confined [.jobs]) :=
  confined_put (by simp) _ _ rfl

theorem OnlyOn.confined {b : BucketName} (filed : ∀ k v, Filed b k v) {op : Op}
    (h : OnlyOn b op) : Confined [b] op := by
  cases op with
  | put | create | update =>
    obtain rfl := h
    exact ⟨by simp, filed _ _⟩
  | get => trivial
  | _ => exact h.elim

theorem confined_updateQueueMeta (name : String) (mutate : QueueMeta → QueueMeta) :
    (updateQueueMeta name mutate).Uses (Confined [.queues]) :=
  (onlyOn_updateQueueMeta name mutate).mono fun _ => OnlyOn.confined (b := .queues) fun _ _ => trivial

theorem confined_ensureQueue (name : String) : (ensureQueue name).Uses (Confined [.queues]) :=
  (onlyOn_ensureQueue name).mono fun _ => OnlyOn.confined (b := .queues) fun _ _ => trivial

theorem confined_storeRateLimit (job : Job) : (storeRateLimit job).Uses (Confined [.queues]) :=
  (onlyOn_storeRateLimit job).mono fun _ => OnlyOn.confined (b := .queues) fun _ _ => trivial

theorem confined_incrementCompleted (queue : String) :
    (incrementCompleted queue).Uses (Confined [.stats]) :=
  (onlyOn_incrementCompleted queue).mono fun _ => OnlyOn.confined (b := .stats) fun _ _ => trivial

/-! ## Enqueuing and cancelling -/

/-- What a push without a unique policy writes. -/
abbrev enqueueBuckets : List BucketName := [.queues, .jobs, .scheduled]

abbrev cancelBuckets : List BucketName := [.jobs, .active, .scheduled, .retry]

/-- What a push under a unique policy writes. -/
abbrev lockBuckets : List BucketName := .queues :: .unique :: cancelBuckets

/-- What moving a workflow on writes. -/
abbrev stepBuckets : List BucketName := [.queues, .jobs, .scheduled, .workflows]

abbrev ackBuckets : List BucketName := .active :: .stats :: stepBuckets

abbrev nackBuckets : List BucketName := .active :: .dead :: .retry :: stepBuckets

/-- What firing the cron entries writes. -/
abbrev cronBuckets : List BucketName := .stats :: .cron :: enqueueBuckets

theorem confined_storeJob (lib : Externals) (now : Int) (job : Job) :
    (storeJob lib now job).Uses (Confined enqueueBuckets) := by
  refine confined_bind (confined_ensureQueue _) rfl fun _ =>
    confined_bind (confined_storeRateLimit _) rfl fun _ => ?_
  split
  · refine confined_bind (confined_putJobState _) rfl fun r => ?_
    cases r with
    | error e => trivial
    | ok _ => exact uses_bind (confined_put (by simp) _ _ trivial) fun _ => trivial
  · refine confined_bind (confined_putJobState _) rfl fun r => ?_
    cases r with
    | error e => trivial
    | ok _ =>
      refine uses_bind (confined_publishJob _ _) fun r => ?_
      cases r <;> trivial

theorem confined_cancel (lib : Externals) (k : String) :
    (cancel lib k).Uses (Confined cancelBuckets) := by
  refine uses_bind (confined_getJobState k) fun r => ?_
  cases r with
  | error e => trivial
  | ok job =>
    dsimp only
    split
    · trivial
    · refine uses_bind confined_timeNow fun _ =>
        confined_bind (confined_putJobState _) rfl fun r => ?_
      cases r with
      | error e => trivial
      | ok _ =>
        refine uses_bind (confined_delete (by simp) _) fun r => ?_
        cases r with
        | error e => trivial
        | ok _ =>
          refine uses_bind (confined_delete (by simp) _) fun r => ?_
          cases r with
          | error e => trivial
          | ok _ =>
            refine uses_bind (confined_delete (by simp) _) fun r => ?_
            cases r with
            | error e => trivial
            | ok _ =>
              refine uses_bind (confined_ackMessage _) fun r => ?_
              cases r <;> trivial

/-- A push of a job without a unique policy takes no lock. -/
theorem confined_push_free (lib : Externals) {job : Job} (free : job.unique = none) :
    (push lib job).Uses (Confined enqueueBuckets) := by
  refine uses_bind confined_timeNow fun now => ?_
  simp only [bind_eq, pure_eq, bind_pure_left]
  refine uses_newID fun id => ?_
  have none : (freshJob lib id now job).unique = none := by simp [freshJob, free]
  simp only [none]
  exact confined_storeJob lib now _

theorem confined_pushBatch (lib : Externals) (jobs : List Job) :
    (pushBatch lib jobs).Uses (Confined [.jobs, .queues]) := by
  have loop (now : Int) (jobs done : List Job) :
      (pushBatchLoop lib now jobs done).Uses (Confined [.jobs, .queues]) := by
    induction jobs generalizing done with
    | nil => trivial
    | cons job rest ih =>
      simp only [pushBatchLoop, bind_eq, pure_eq, bind_pure_left]
      refine uses_newID fun id => ?_
      refine confined_bind (confined_putJobState _) rfl fun r => ?_
      cases r with
      | error e => trivial
      | ok _ =>
        refine confined_bind (confined_ensureQueue _) rfl fun _ =>
          uses_bind (confined_publishJob _ _) fun r => ?_
        cases r with
        | error e => trivial
        | ok _ => exact ih _
  unfold pushBatch
  split
  · trivial
  · exact uses_bind confined_timeNow fun now => loop now jobs []

/-! ## Claiming and the passes -/

theorem confined_recordFetchTime (queue : String) (now : Int) :
    (recordFetchTime queue now).Uses (Confined [.queues]) :=
  (onlyOn_recordFetchTime queue now).mono fun _ => OnlyOn.confined (b := .queues) fun _ _ => trivial

/-- What a fetch writes. -/
abbrev fetchBuckets : List BucketName := [.jobs, .active, .queues]

theorem confined_fetchJob (lib : Externals) (queue workerID : String) (timeout now : Int)
    (k : String) (jobs : List Job) :
    (fetchJob lib queue workerID timeout now k jobs).Uses (Confined fetchBuckets) := by
  have drop (jobs : List Job) : ((ackMessage k).bind fun _ =>
      (Program.pure jobs : Prog (List Job))).Uses (Confined fetchBuckets) :=
    uses_bind (confined_ackMessage k) fun _ => trivial
  refine uses_bind (confined_getJobState k) fun r => ?_
  cases r with
  | error e => exact drop jobs
  | ok job =>
    dsimp only
    split
    · exact confined_bind (confined_putJobState _) rfl fun _ => drop jobs
    · split
      · exact drop jobs
      · refine uses_bind (confined_put (by simp) _ _ trivial) fun r => ?_
        cases r with
        | error e => exact drop jobs
        | ok _ =>
          refine confined_bind (confined_putJobState _) rfl fun r => ?_
          cases r with
          | error e =>
            exact uses_bind (confined_delete (by simp) _) fun _ => drop jobs
          | ok _ => exact confined_bind (confined_recordFetchTime _ _) rfl fun _ => trivial

theorem confined_trackMessage (msg : Msg) (ids : List String) :
    (trackMessage msg ids).Uses (Confined S) := by
  unfold trackMessage
  split
  · exact ⟨trivial, fun _ => trivial⟩
  · exact ⟨trivial, fun _ => trivial⟩

theorem confined_fetchMessages (queue : String) (count : Nat) :
    (fetchMessages queue count).Uses (Confined S) := by
  refine uses_bind ⟨trivial, fun cached => ?_⟩ fun r => ?_
  · cases cached with
    | true => trivial
    | false =>
      refine ⟨trivial, fun ensured => ?_⟩
      cases ensured with
      | error e => trivial
      | ok _ => exact ⟨trivial, fun _ => trivial⟩
  · cases r with
    | error e => trivial
    | ok _ =>
      refine uses_bind (p := Program.ask (Op.consumerFetch queue count))
        ⟨trivial, fun _ => trivial⟩ fun fetched => ?_
      cases fetched with
      | error e => trivial
      | ok msgs =>
        exact uses_bind (uses_forEach _ fun msg _ ids => confined_trackMessage msg ids)
          fun _ => trivial

theorem confined_fetch (lib : Externals) (queues : List String) (count : Int) (workerID : String)
    (timeout : Int) :
    (fetch lib queues count workerID timeout).Uses (Confined fetchBuckets) := by
  refine uses_bind confined_timeNow fun now => uses_forEach _ fun queue _ jobs => ?_
  unfold fetchQueue
  split
  · trivial
  · refine uses_bind (uses_bind (confined_get .queues queue) fun r => ?_) fun paused => ?_
    · cases r <;> trivial
    · split
      · trivial
      · refine uses_bind (uses_bind (confined_get .queues queue) fun r => ?_) fun limited => ?_
        · cases r with
          | error e => trivial
          | ok entry =>
            dsimp only
            split <;> trivial
        · split
          · trivial
          · refine uses_bind (confined_fetchMessages _ _) fun r => ?_
            cases r with
            | error e => trivial
            | ok ids => exact uses_forEach _ fun k _ jobs => confined_fetchJob lib _ _ _ _ k jobs

theorem confined_heartbeat (lib : Externals) (workerID : String) (ids : List String)
    (timeout : Int) :
    (heartbeat lib workerID ids timeout).Uses (Confined [.workers, .active]) := by
  refine uses_bind confined_timeNow fun now => uses_bind (confined_get .workers _) fun existing =>
    uses_bind (confined_put (by simp) _ _ trivial) fun _ =>
      uses_bind (uses_forEach _ fun k _ extended => ?_) fun extended => ?_
  · refine uses_bind (confined_getJobState k) fun r => ?_
    cases r with
    | error e => trivial
    | ok job =>
      dsimp only
      split
      · trivial
      · refine uses_bind (confined_put (by simp) _ _ trivial) fun _ =>
          uses_bind ?_ fun _ => trivial
        refine ⟨trivial, fun tracked => ?_⟩
        cases tracked with
        | none => trivial
        | some msg => exact ⟨trivial, fun _ => trivial⟩
  · have find (k : String) (found : Option String) :
        (findDirective k found).Uses (Confined [.workers, .active]) := by
      cases found with
      | some directive => trivial
      | none =>
        refine uses_bind (confined_getJobState k) fun r => ?_
        cases r <;> trivial
    refine uses_ite ?_ trivial
    exact uses_bind (uses_forEach _ fun k _ found => find k found) fun _ => trivial

theorem confined_promoteJob (lib : Externals) (b' : BucketName)
    (what : String) (now : Int) (k : String) (firstErr : FirstErr) :
    (promoteJob lib b' what now k firstErr).Uses (Confined [.jobs, b']) := by
  refine uses_bind (confined_getJobState k) fun r => ?_
  cases r with
  | error e => exact uses_bind (confined_delete (by simp) _) fun _ => trivial
  | ok job =>
    refine uses_bind (widen (confined_putJobState _) (by simp [AllIn])) fun r => ?_
    cases r with
    | error e => trivial
    | ok _ =>
      refine uses_bind (confined_delete (by simp) _) fun r => ?_
      cases r with
      | error e => trivial
      | ok _ =>
        refine uses_bind (confined_publishJob _ _) fun r => ?_
        cases r <;> trivial

theorem confined_pass {b' : BucketName} {body : Int → String → FirstErr → Prog FirstErr}
    (turn : ∀ now k firstErr, (body now k firstErr).Uses (Confined S)) :
    Program.Uses (Confined S) (do
      match ← Store.keys b' with
      | .error e => return (.error (.call e) : Result Unit)
      | .ok keys =>
          let now ← timeNow
          let firstErr ← Program.forEach keys none (body now)
          return passResult firstErr) := by
  refine uses_bind (confined_keys b') fun r => ?_
  cases r with
  | error e => trivial
  | ok keys =>
    exact uses_bind confined_timeNow fun now =>
      uses_bind (uses_forEach _ fun k _ firstErr => turn now k firstErr) fun _ => trivial

theorem confined_promoteScheduled (lib : Externals) :
    (promoteScheduled lib).Uses (Confined [.jobs, .scheduled]) := by
  refine confined_pass fun now k firstErr => uses_bind (confined_get .scheduled k) fun r => ?_
  cases r with
  | error e => trivial
  | ok entry =>
    dsimp only
    split
    · trivial
    · split
      · trivial
      · exact widen (confined_promoteJob lib _ _ _ _ _) rfl

theorem confined_promoteRetries (lib : Externals) :
    (promoteRetries lib).Uses (Confined [.jobs, .retry]) := by
  refine confined_pass fun now k firstErr => uses_bind (confined_get .retry k) fun r => ?_
  cases r with
  | error e => trivial
  | ok entry =>
    dsimp only
    split
    · trivial
    · split
      · trivial
      · exact widen (confined_promoteJob lib _ _ _ _ _) rfl

theorem confined_requeueJob (lib : Externals) (now : Int) (k : String) (firstErr : FirstErr) :
    (requeueJob lib now k firstErr).Uses (Confined [.jobs, .active]) := by
  refine uses_bind (confined_getJobState k) fun r => ?_
  cases r with
  | error e => exact uses_bind (confined_delete (by simp) _) fun _ => trivial
  | ok job =>
    dsimp only
    split
    · exact uses_bind (confined_delete (by simp) _) fun _ => trivial
    · refine confined_bind (confined_putJobState _) rfl fun r => ?_
      cases r with
      | error e => trivial
      | ok _ =>
        refine uses_bind (confined_delete (by simp) _) fun r => ?_
        cases r with
        | error e => trivial
        | ok _ =>
          refine uses_bind (confined_ackMessage _) fun r => ?_
          cases r with
          | error e => trivial
          | ok _ =>
            refine uses_bind (confined_publishJob _ _) fun r => ?_
            cases r <;> trivial

theorem confined_requeueStalled (lib : Externals) :
    (requeueStalled lib).Uses (Confined [.jobs, .active]) := by
  refine confined_pass fun now k firstErr => uses_bind (confined_get .active k) fun r => ?_
  cases r with
  | error e => trivial
  | ok entry =>
    dsimp only
    split
    · trivial
    · split
      · exact confined_requeueJob lib _ _ _
      · trivial

theorem confined_exists? (b' : BucketName) (k : String) :
    (Store.exists? b' k).Uses (Confined S) := by
  refine uses_bind (confined_get b' k) fun r => ?_
  cases r <;> trivial

theorem confined_retryDeadLetter (lib : Externals) (k : String) :
    (retryDeadLetter lib k).Uses (Confined [.jobs, .dead]) := by
  refine uses_bind (confined_exists? .dead k) fun found => ?_
  split
  · refine uses_bind confined_timeNow fun now => uses_bind (confined_getJobState k) fun r => ?_
    cases r with
    | error e => trivial
    | ok job =>
      exact confined_bind (confined_putJobState _) rfl fun _ =>
        uses_bind (confined_delete (by simp) _) fun _ =>
          uses_bind (confined_publishJob _ _) fun _ => confined_info k
  · trivial

theorem confined_deleteDeadLetter (k : String) : (deleteDeadLetter k).Uses (Confined [.dead]) := by
  refine uses_bind (confined_exists? .dead k) fun found => ?_
  split
  · refine uses_bind (confined_delete (by simp) _) fun r => ?_
    cases r <;> trivial
  · trivial

/-! ## Cron -/

theorem confined_updateCronNextRun (lib : Externals) (cronJob : CronJob) (now : Int) :
    (updateCronNextRun lib cronJob now).Uses (Confined [.cron]) := by
  unfold updateCronNextRun
  split
  · trivial
  · exact uses_bind (confined_put (by simp) _ _ rfl) fun _ => trivial

theorem confined_fireDue (lib : Externals) (cronJob : CronJob) (now : Int) :
    (fireDue lib cronJob now).Uses (Confined cronBuckets) := by
  refine confined_bind (confined_push_free lib rfl) rfl fun r => ?_
  cases r with
  | error e => trivial
  | ok created =>
    refine uses_ite (uses_bind ?_ fun _ => widen (confined_updateCronNextRun _ _ _) rfl)
      (widen (confined_updateCronNextRun _ _ _) rfl)
    exact uses_bind (confined_put (by simp) _ _ trivial) fun _ => trivial

theorem confined_fireCron (lib : Externals) (now : Int) (cronJob : CronJob) :
    (fireCron lib now cronJob).Uses (Confined cronBuckets) := by
  have running (name : String) : (isCronInstanceRunning lib name).Uses (Confined cronBuckets) := by
    refine uses_bind (confined_get .stats _) fun r => ?_
    cases r with
    | error e => trivial
    | ok entry =>
      refine uses_bind (confined_getJobState _) fun r => ?_
      cases r <;> trivial
  refine uses_ite trivial ?_
  split
  · trivial
  · refine uses_ite trivial (uses_ite ?_ (confined_fireDue lib _ _))
    exact uses_bind (running _) fun _ =>
      uses_ite (widen (confined_updateCronNextRun _ _ _) rfl) (confined_fireDue lib _ _)

theorem confined_cronGet (name : String) : (CronStore.get name).Uses (Confined S) := by
  refine uses_bind (confined_get .cron name) fun r => ?_
  cases r <;> trivial

theorem confined_fireCronJobs (lib : Externals) :
    (fireCronJobs lib).Uses (Confined cronBuckets) := by
  refine uses_bind (uses_bind (confined_keys .cron) fun r => ?_) fun r => ?_
  · cases r with
    | error e => trivial
    | ok keys =>
      refine uses_bind (uses_forEach _ fun key _ crons => ?_) fun _ => trivial
      refine uses_bind (confined_cronGet key) fun r => ?_
      cases r <;> trivial
  · cases r with
    | error e => trivial
    | ok crons =>
      exact uses_bind confined_timeNow fun now =>
        uses_bind (uses_forEach _ fun cronJob _ _ => confined_fireCron lib now cronJob)
          fun _ => trivial

theorem confined_registerCron (lib : Externals) (cronJob : CronJob) :
    (registerCron lib cronJob).Uses (Confined [.cron]) := by
  unfold registerCron
  split
  · trivial
  · refine uses_bind confined_timeNow fun _ =>
      uses_bind (confined_put (by simp) _ _ rfl) fun r => ?_
    cases r <;> trivial

theorem confined_deleteCron (name : String) : (deleteCron name).Uses (Confined [.cron]) := by
  refine uses_bind (confined_cronGet name) fun r => ?_
  cases r with
  | error e => trivial
  | ok cronJob =>
    refine uses_bind (confined_delete (by simp) _) fun r => ?_
    cases r <;> trivial

/-! ## Locks -/

theorem confined_checkAndSet (fingerprint k : String) :
    (UniqueStore.checkAndSet fingerprint k).Uses (Confined [.unique]) := by
  refine ⟨⟨by simp, trivial⟩, fun r => ?_⟩
  match r with
  | .ok _ => trivial
  | .error .keyExists =>
    refine ⟨trivial, fun r => ?_⟩
    cases r <;> trivial
  | .error .keyNotFound | .error .wrongRevision | .error .noKeysFound | .error .unavailable =>
    trivial

theorem confined_overwriteUnique (fingerprint k : String) :
    (overwriteUnique fingerprint k).Uses (Confined [.unique]) :=
  uses_bind (confined_delete (by simp) _) fun _ =>
    confined_bind (confined_checkAndSet _ _) rfl fun _ => trivial

theorem confined_handleUnique (lib : Externals) (job : Job) (unique : UniquePolicy) :
    (handleUnique lib job unique).Uses (Confined (.unique :: cancelBuckets)) := by
  have overwrite (fingerprint : String) : ((overwriteUnique fingerprint job.id).bind fun _ =>
      Program.pure (none : Option (Result Job))).Uses (Confined (.unique :: cancelBuckets)) :=
    confined_bind (confined_overwriteUnique _ _) rfl fun _ => trivial
  refine confined_bind (confined_checkAndSet _ _) rfl fun r => ?_
  cases r with
  | error e => trivial
  | ok existingID =>
    refine uses_ite trivial (uses_bind (confined_info _) fun r => ?_)
    cases r with
    | error e => exact overwrite _
    | ok existing =>
      refine uses_ite (uses_ite trivial (uses_ite trivial (uses_ite ?_ (overwrite _))))
        (overwrite _)
      exact confined_bind (confined_cancel lib _) rfl fun _ => overwrite _

theorem confined_push (lib : Externals) (job : Job) :
    (push lib job).Uses (Confined lockBuckets) := by
  refine uses_bind confined_timeNow fun now => ?_
  simp only [bind_eq, pure_eq, bind_pure_left]
  refine uses_newID fun id => ?_
  split
  · exact widen (confined_storeJob lib now _) rfl
  · refine confined_bind (confined_handleUnique lib _ _) rfl fun early => ?_
    cases early with
    | some reply => trivial
    | none => exact widen (confined_storeJob lib now _) rfl

/-! ## Workflows -/

theorem confined_putWorkflow (wfState : WorkflowState) (id : String) :
    (putWorkflow wfState id).Uses (Confined [.workflows]) :=
  uses_bind (confined_put (by simp) _ _ trivial) fun _ => trivial

theorem unique_workflowStepToJob (step : WorkflowJobRequest) (workflowID : String)
    (stepIdx : Int) : (workflowStepToJob step workflowID stepIdx).unique = none := by
  unfold workflowStepToJob
  dsimp only
  split
  · rfl
  · split
    · rfl
    · split <;> rfl

theorem confined_fireIf (lib : Externals) (condition : Bool) (cb : Option WorkflowCallback) :
    (fireIf lib condition cb).Uses (Confined enqueueBuckets) := by
  unfold fireIf
  split
  · exact uses_ite (confined_bind (confined_push_free lib rfl) rfl fun _ => trivial) trivial
  · trivial

theorem confined_fireBatchCallbacks (lib : Externals) (wfState : WorkflowState)
    (hasFailure : Bool) :
    (fireBatchCallbacks lib wfState hasFailure).Uses (Confined enqueueBuckets) := by
  unfold fireBatchCallbacks
  split
  · trivial
  · exact uses_bind (confined_fireIf lib _ _) fun _ =>
      uses_bind (confined_fireIf lib _ _) fun _ => confined_fireIf lib _ _

theorem confined_enqueueChainStep (lib : Externals) (workflowID : String) (wfState : WorkflowState)
    (stepIdx : Int) :
    (enqueueChainStep lib workflowID wfState stepIdx).Uses (Confined stepBuckets) := by
  refine uses_ite trivial (uses_ite trivial ?_)
  split
  · trivial
  · rename_i step _
    have free : ({ workflowStepToJob step workflowID stepIdx with
        parentResults := parentResults wfState stepIdx } : Job).unique = none :=
      unique_workflowStepToJob step workflowID stepIdx
    refine confined_bind (confined_push_free lib free) rfl fun r => ?_
    cases r with
    | error e => trivial
    | ok created => exact confined_bind (confined_putWorkflow _ _) rfl fun _ => trivial

theorem confined_advanceWorkflowState (lib : Externals) (workflowID k : String)
    (result : Option RawMessage) (failed : Bool) :
    (advanceWorkflowState lib workflowID k result failed).Uses (Confined stepBuckets) := by
  have chain (wfState : WorkflowState) (stepIdx : Int) :
      (advanceChain lib workflowID wfState stepIdx failed).Uses (Confined stepBuckets) := by
    have finish (state : String) : (timeNow.bind fun now =>
        (putWorkflow (finishedWorkflow lib wfState state now) workflowID).bind fun _ =>
          (Program.pure (.ok ()) : Prog (Result Unit))).Uses (Confined stepBuckets) :=
      uses_bind confined_timeNow fun _ =>
        confined_bind (confined_putWorkflow _ _) rfl fun _ => trivial
    refine uses_ite (finish _) (uses_ite (finish _) ?_)
    exact confined_bind (confined_putWorkflow _ _) rfl fun _ => confined_enqueueChainStep lib _ _ _
  have group (wfState : WorkflowState) :
      (advanceGroup lib workflowID wfState).Uses (Confined stepBuckets) := by
    refine confined_bind (confined_putWorkflow _ _) rfl fun _ => uses_ite ?_ trivial
    refine uses_bind confined_timeNow fun _ => confined_bind (confined_putWorkflow _ _) rfl fun _ =>
      uses_ite ?_ trivial
    exact confined_bind (confined_fireBatchCallbacks lib _ _) rfl fun _ => trivial
  refine uses_bind (p := Program.ask (Op.get .workflows workflowID))
    (confined_get .workflows workflowID) fun stored => ?_
  cases stored with
  | error e => trivial
  | ok entry =>
    refine uses_ite trivial (uses_bind (confined_getJobState _) fun r => ?_)
    cases r with
    | ok job => exact uses_ite (chain _ _) (group _)
    | error e => exact uses_ite (chain _ _) (group _)

theorem confined_advanceWorkflow (lib : Externals) (k : String) (state : State)
    (result : Option RawMessage) :
    (advanceWorkflow lib k state result).Uses (Confined stepBuckets) := by
  refine uses_bind (confined_getJobState k) fun r => ?_
  cases r with
  | error e => trivial
  | ok job =>
    exact uses_ite trivial
      (confined_bind (confined_advanceWorkflowState lib _ _ _ _) rfl fun _ => trivial)

theorem confined_createWorkflow (lib : Externals) (req : WorkflowRequest) :
    (createWorkflow lib req).Uses (Confined stepBuckets) := by
  have members (wfID : String) (i : Nat) (steps : List WorkflowJobRequest) (ids : List String) :
      (pushMembers lib wfID i steps ids).Uses (Confined stepBuckets) := by
    induction steps generalizing i ids with
    | nil => trivial
    | cons step rest ih =>
      refine confined_bind (confined_push_free lib (unique_workflowStepToJob _ _ _)) rfl fun r => ?_
      cases r with
      | error e => trivial
      | ok created => exact ih _ _
  refine uses_bind confined_timeNow fun _ => uses_bind confined_newUUIDv7 fun wfID =>
    confined_bind (confined_putWorkflow _ _) rfl fun _ => uses_ite ?_ ?_
  · split
    · trivial
    · refine confined_bind (confined_push_free lib (unique_workflowStepToJob _ _ _)) rfl
        fun r => ?_
      cases r with
      | error e => trivial
      | ok created => exact confined_bind (confined_putWorkflow _ _) rfl fun _ => trivial
  · refine confined_bind (members _ _ _ _) rfl fun r => ?_
    cases r with
    | error e => trivial
    | ok ids => exact confined_bind (confined_putWorkflow _ _) rfl fun _ => trivial

theorem confined_cancelWorkflow (lib : Externals) (id : String) :
    (cancelWorkflow lib id).Uses (Confined (.workflows :: cancelBuckets)) := by
  refine uses_bind (uses_bind (confined_get .workflows id) fun r => ?_) fun r => ?_
  · cases r <;> trivial
  · cases r with
    | error e => trivial
    | ok wf =>
      refine uses_ite trivial ?_
      refine uses_bind (p := Program.ask (Op.get .workflows id)) (confined_get .workflows id)
        fun stored => uses_bind (uses_forEach _ fun k _ _ => ?_) fun _ => ?_
      · refine uses_bind (confined_getJobState k) fun r => ?_
        cases r with
        | error e => trivial
        | ok job =>
          exact uses_ite trivial (confined_bind (confined_cancel lib _) rfl fun _ => trivial)
      · exact uses_bind confined_timeNow fun _ =>
          confined_bind (confined_putWorkflow _ _) rfl fun _ => trivial

/-! ## Reports -/

theorem confined_ack (lib : Externals) (k : String) (result : Option RawMessage) :
    (ack lib k result).Uses (Confined ackBuckets) := by
  refine uses_bind (confined_getJobState k) fun r => ?_
  cases r with
  | error e => trivial
  | ok job =>
    refine uses_ite trivial (uses_bind confined_timeNow fun _ =>
      confined_bind (confined_putJobState _) rfl fun r => ?_)
    cases r with
    | error e => trivial
    | ok _ =>
      refine uses_bind (confined_delete (by simp) _) fun r => ?_
      cases r with
      | error e => trivial
      | ok _ =>
        refine uses_bind (confined_ackMessage _) fun r => ?_
        cases r with
        | error e => trivial
        | ok _ =>
          exact confined_bind (confined_incrementCompleted _) rfl fun _ =>
            confined_bind (confined_advanceWorkflow lib _ _ _) rfl fun _ =>
              uses_bind (confined_info _) fun _ => trivial

theorem confined_nackRequeue (lib : Externals) (k : String) (now : Int) (job : Job) :
    (nackRequeue lib k now job).Uses (Confined nackBuckets) := by
  refine confined_bind (confined_putJobState _) rfl fun r => ?_
  cases r with
  | error e => trivial
  | ok _ =>
    refine uses_bind (confined_delete (by simp) _) fun r => ?_
    cases r with
    | error e => trivial
    | ok _ =>
      refine uses_bind (confined_ackMessage _) fun r => ?_
      cases r with
      | error e => trivial
      | ok _ =>
        refine uses_bind (confined_publishJob _ _) fun r => ?_
        cases r with
        | error e => trivial
        | ok _ => exact uses_bind (confined_info _) fun _ => trivial

theorem confined_deadLetter (lib : Externals) (k : String) (now : Int) (job : Job) :
    (deadLetter lib k now job).Uses (Confined [.dead]) := by
  refine uses_ite (uses_bind (confined_put (by simp) _ _ trivial) fun r => ?_) trivial
  cases r <;> trivial

theorem confined_nackDiscard (lib : Externals) (k : String) (now newAttempt : Int)
    (errJSON : Option RawMessage) (job : Job) :
    (nackDiscard lib k now newAttempt errJSON job).Uses (Confined nackBuckets) := by
  refine confined_bind (confined_putJobState _) rfl fun r => ?_
  cases r with
  | error e => trivial
  | ok _ =>
    refine uses_bind (confined_delete (by simp) _) fun r => ?_
    cases r with
    | error e => trivial
    | ok _ =>
      refine uses_bind (confined_ackMessage _) fun r => ?_
      cases r with
      | error e => trivial
      | ok _ =>
        refine confined_bind (confined_deadLetter lib _ _ _) rfl fun r => ?_
        cases r with
        | error e => trivial
        | ok _ =>
          exact confined_bind (confined_advanceWorkflow lib _ _ _) rfl fun _ =>
            uses_bind (confined_info _) fun _ => trivial

theorem confined_nackRetry (lib : Externals) (k : String) (now newAttempt : Int)
    (errJSON : Option RawMessage) (job : Job) :
    (nackRetry lib k now newAttempt errJSON job).Uses (Confined nackBuckets) := by
  refine uses_bind (p := calculateBackoff job.retry newAttempt) ⟨trivial, fun _ => trivial⟩
    fun backoff => confined_bind (confined_putJobState _) rfl fun r => ?_
  cases r with
  | error e => trivial
  | ok _ =>
    refine uses_bind (confined_delete (by simp) _) fun r => ?_
    cases r with
    | error e => trivial
    | ok _ =>
      refine uses_bind (confined_ackMessage _) fun r => ?_
      cases r with
      | error e => trivial
      | ok _ =>
        refine uses_bind (confined_put (by simp) _ _ trivial) fun r => ?_
        cases r with
        | error e => trivial
        | ok _ => exact uses_bind (confined_info _) fun _ => trivial

theorem confined_isNonRetryable (lib : Externals) (job : Job) (jobErr : Option JobError)
    {S : List BucketName} : (isNonRetryable lib job jobErr).Uses (Confined S) := by
  have pattern (s pattern : String) : (matchesPattern lib s pattern).Uses (Confined S) := by
    refine ⟨trivial, fun cached => ?_⟩
    cases cached with
    | some re => trivial
    | none =>
      simp only [bind_pure_left]
      split
      · trivial
      · exact ⟨trivial, fun _ => trivial⟩
  have anyPattern (jobErr : JobError) (patterns : List String) :
      (matchesAny lib jobErr patterns).Uses (Confined S) := by
    induction patterns with
    | nil => trivial
    | cons first rest ih =>
      exact uses_bind (pattern _ first) fun _ => uses_ite trivial
        (uses_bind (pattern _ first) fun _ => uses_ite trivial ih)
  unfold isNonRetryable
  split
  · trivial
  · refine uses_ite trivial ?_
    split
    · trivial
    · exact anyPattern _ _

theorem confined_nack (lib : Externals) (k : String) (jobErr : Option JobError) (requeue : Bool) :
    (nack lib k jobErr requeue).Uses (Confined nackBuckets) := by
  refine uses_bind (confined_getJobState k) fun r => ?_
  cases r with
  | error e => trivial
  | ok job =>
    refine uses_ite trivial (uses_bind confined_timeNow fun _ =>
      uses_ite (confined_nackRequeue lib _ _ _) ?_)
    exact uses_bind (confined_isNonRetryable lib _ _) fun _ =>
      uses_ite (confined_nackDiscard lib _ _ _ _ _) (confined_nackRetry lib _ _ _ _ _)

/-! ## The operations -/

end OjsNats.Lifecycle

namespace OjsNats.Nats

open Lifecycle

/-- The operations that may take a lock: pushes under a unique policy. -/
def Call.Locks : Call → Prop
  | .push job => job.unique ≠ none
  | _ => False

/-- The operations that may write a workflow record. -/
def Call.Steers : Call → Prop
  | .ack _ _ | .nack _ _ _ | .createWorkflow _ | .advanceWorkflow _ _ _ _ | .cancelWorkflow _ => True
  | _ => False

/-- The buckets that an operation may write. -/
def Call.buckets : Call → List BucketName
  | .push job => if job.unique.isSome then lockBuckets else enqueueBuckets
  | .pushBatch _ => [.jobs, .queues]
  | .fetch _ _ _ _ => fetchBuckets
  | .ack _ _ => ackBuckets
  | .nack _ _ _ => nackBuckets
  | .cancel _ => cancelBuckets
  | .heartbeat _ _ _ => [.workers, .active]
  | .promoteScheduled => [.jobs, .scheduled]
  | .promoteRetries => [.jobs, .retry]
  | .requeueStalled => [.jobs, .active]
  | .fireCronJobs => cronBuckets
  | .retryDeadLetter _ => [.jobs, .dead]
  | .deleteDeadLetter _ => [.dead]
  | .createWorkflow _ | .advanceWorkflow _ _ _ _ => stepBuckets
  | .cancelWorkflow _ => .workflows :: cancelBuckets
  | .registerCron _ | .deleteCron _ => [.cron]
  | .pauseQueue _ | .resumeQueue _ => [.queues]
  | .setWorkerState _ _ => [.workers]

end OjsNats.Nats

namespace OjsNats.Lifecycle

open Core Nats Effect Semantics Program

section Operations

variable (lib : Externals)

theorem confined_reply {α : Type} {S : List BucketName} {p : Prog α} (f : α → Reply)
    (h : p.Uses (Confined S)) : (p.bind fun a => .pure (f a)).Uses (Confined S) :=
  uses_bind h fun _ => trivial

/-- Every operation keeps to its buckets. -/
theorem confined_program (call : Call) : (call.program lib).Uses (Confined call.buckets) := by
  cases call with
  | push job =>
    apply confined_reply
    cases policy : job.unique with
    | none =>
      rw [show (Call.push job).buckets = enqueueBuckets by simp [Call.buckets, policy]]
      exact confined_push_free lib policy
    | some unique =>
      rw [show (Call.push job).buckets = lockBuckets by simp [Call.buckets, policy]]
      exact confined_push lib job
  | pushBatch jobs => exact confined_reply _ (confined_pushBatch lib jobs)
  | fetch queues count workerID timeout => exact confined_reply _ (confined_fetch lib _ _ _ _)
  | ack k result => exact confined_reply _ (confined_ack lib k result)
  | nack k jobErr requeue => exact confined_reply _ (confined_nack lib k jobErr requeue)
  | cancel k => exact confined_reply _ (confined_cancel lib k)
  | heartbeat workerID ids timeout => exact confined_reply _ (confined_heartbeat lib _ _ _)
  | promoteScheduled => exact confined_reply _ (confined_promoteScheduled lib)
  | promoteRetries => exact confined_reply _ (confined_promoteRetries lib)
  | requeueStalled => exact confined_reply _ (confined_requeueStalled lib)
  | fireCronJobs => exact confined_reply _ (confined_fireCronJobs lib)
  | retryDeadLetter k => exact confined_reply _ (confined_retryDeadLetter lib k)
  | deleteDeadLetter k => exact confined_reply _ (confined_deleteDeadLetter k)
  | createWorkflow req => exact confined_reply _ (confined_createWorkflow lib req)
  | advanceWorkflow id k result failed =>
    exact confined_reply _ (confined_advanceWorkflowState lib id k result failed)
  | cancelWorkflow id => exact confined_reply _ (confined_cancelWorkflow lib id)
  | registerCron cronJob => exact confined_reply _ (confined_registerCron lib cronJob)
  | deleteCron name => exact confined_reply _ (confined_deleteCron name)
  | pauseQueue name => exact confined_reply _ (confined_updateQueueMeta name _)
  | resumeQueue name => exact confined_reply _ (confined_updateQueueMeta name _)
  | setWorkerState workerID state =>
    refine confined_reply _ (uses_bind (confined_put (by simp [Call.buckets]) _ _ trivial) fun r => ?_)
    cases r <;> trivial

/-- An operation leaves the other buckets alone. -/
theorem kv_program {call : Call} {b : BucketName} (out : b ∉ call.buckets) {w t : World}
    {reply : Reply} (run : serves.Exec (call.program lib) w reply t) : t.kv b = w.kv b :=
  kv_of_spares (spares_of (confined_program lib call) out) run

/-- An operation that takes no lock leaves the locks alone. -/
theorem spares_locks {call : Call} (locks : ¬ call.Locks) :
    (call.program lib).Uses (Spares .unique) := by
  refine spares_of (confined_program lib call) ?_
  cases call with
  | push job =>
    have free : job.unique = none := by simpa [Call.Locks] using locks
    simp [Call.buckets, free]
  | _ => simp [Call.buckets]

/-- An operation that steers no workflow leaves the workflow records alone. -/
theorem spares_workflows {call : Call} (steers : ¬ call.Steers) :
    (call.program lib).Uses (Spares .workflows) := by
  refine spares_of (confined_program lib call) ?_
  cases call with
  | push job => cases policy : job.unique <;> simp [Call.buckets, policy]
  | ack | nack | createWorkflow | advanceWorkflow | cancelWorkflow => exact absurd trivial steers
  | _ => simp [Call.buckets]

theorem exists_spared (call : Call) : ∃ b, b ∉ call.buckets := by
  cases call with
  | push job =>
    refine ⟨.dead, ?_⟩
    cases policy : job.unique <;> simp [Call.buckets, policy]
  | heartbeat | setWorkerState => exact ⟨.dead, by simp [Call.buckets]⟩
  | _ => exact ⟨.workers, by simp [Call.buckets]⟩

/-- Every operation files the records it writes. -/
theorem filed_program {call : Call} {w t : World} {reply : Reply}
    (run : serves.Exec (call.program lib) w reply t) (filed : AllFiled w) : AllFiled t := by
  obtain ⟨b, out⟩ := exists_spared call
  exact filed_of_spares (spares_of (confined_program lib call) out) run filed

end Operations

end OjsNats.Lifecycle
