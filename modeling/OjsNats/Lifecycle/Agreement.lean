import OjsNats.Lifecycle.Absence
import OjsNats.Lifecycle.Handouts
import OjsNats.Lifecycle.Resubmission

/-!
# Pushing one by one, or as a batch

`PushBatch` stores and publishes its jobs as `Push` does with a job that has no
options.  It never looks at `scheduled_at`, at the unique policy or at the rate
limit.
-/

namespace OjsNats.Lifecycle

open Core Nats Effect Semantics Program

variable {lib : Externals} {w u v m t b : World} {job : Job} {jobs rest done : List Job}
  {unique : UniquePolicy} {befores : List World} {rate rate' : Option Int} {q k : String}

/-! ## What the two leave behind -/

/-- A record without the times at which things happened to its job. -/
def untimed (rec : JobState) : JobState :=
  { rec with createdAt := "", enqueuedAt := "", startedAt := "", completedAt := "",
             cancelledAt := "" }

@[simp] theorem untimed_state (rec : JobState) : (untimed rec).state = rec.state := rfl

@[simp] theorem untimed_unique (rec : JobState) : (untimed rec).unique = rec.unique := rfl

/-- What the indexes hold of the job. -/
def Slot.entries (s : Slot) :
    Option String × Option String × Option ActiveJobInfo × Option String :=
  (s.scheduled, s.retry, s.active, s.dead)

def content (msg : Msg) : String × String := (msg.subject, msg.data)

/-- Two worlds hold the same jobs, queues and messages, up to the times. -/
structure Alike (t b : World) : Prop where
  records : ∀ k, (t.slot k).record.map untimed = (b.slot k).record.map untimed
  entries : ∀ k, (t.slot k).entries = (b.slot k).entries
  queues : ∀ q, t.value .queues q = b.value .queues q
  messages : t.stream.map content = b.stream.map content

/-- The jobs are pushed in order and each push is accepted; time may pass before each. -/
inductive PushedEach (lib : Externals) : World → List Job → List World → World → Prop
  | nil {w : World} : PushedEach lib w [] [] w
  | cons {w m t : World} {now : Int} {job new : Job} {rest : List Job} {befores : List World} :
      w.clock ≤ now → serves.Exec (push lib job) { w with clock := now } (.ok new) m →
      PushedEach lib m rest befores t →
      PushedEach lib w (job :: rest) ({ w with clock := now } :: befores) t

/-! ## The options of a job -/

/-- The push stores its job at once and as it is, and touches no other job. -/
structure Plain (lib : Externals) (w : World) (job : Job) : Prop where
  prompt : isScheduledLater lib job w.clock = false
  sorted : job.unique.map sortedKeys = job.unique
  goes : ¬ PushStops lib w job
  sparing : ∀ k, ¬ PushCancels lib w job k

/-- The rate limit that a push of the job gives to its queue. -/
def setRate (job : Job) : Option Int :=
  match job.rateLimit with
  | some limit => if 0 < limit.maxPerSecond then some limit.maxPerSecond else none
  | none => none

/-- The last rate limit that pushes of the jobs give to the queue. -/
def lastRate : List Job → String → Option Int
  | [], _ => none
  | job :: rest, q => (lastRate rest q).or (if q = job.queue then setRate job else none)

/-- The record of a queue, or the one it is registered with. -/
def queueRecord (w : World) (q : String) : QueueMeta :=
  (w.value .queues q).getD { name := q, paused := false }

/-- The pushes set no other rate limits than the queues have already. -/
def RatesStay (w : World) (jobs : List Job) : Prop := ∀ q r, lastRate jobs q = some r →
  (queueRecord w q).name = q ∧ (queueRecord w q).rateLimitPerSec = r

/-- The record of a queue with a rate limit, if one is given. -/
def withRate (rate : Option Int) (q : String) (meta' : QueueMeta) : QueueMeta :=
  match rate with
  | none => meta'
  | some r => { meta' with name := q, rateLimitPerSec := r }

theorem withRate_withRate (rate rate' : Option Int) (q : String) (meta' : QueueMeta) :
    withRate rate q (withRate rate' q meta') = withRate (rate.or rate') q meta' := by
  cases rate <;> cases rate' <;> rfl

theorem withRate_eq_iff {meta' : QueueMeta} : withRate rate q meta' = meta' ↔
    ∀ r, rate = some r → meta'.name = q ∧ meta'.rateLimitPerSec = r := by
  cases rate with
  | none => simp [withRate]
  | some r =>
    cases meta'
    simp [withRate, eq_comm]

/-! ## Registering the queue -/

/-- The queue is registered, with the rate limit if there is one. -/
structure Enrolls (q : String) (rate : Option Int) (w m : World) : Prop where
  slots : ∀ k, m.slot k = w.slot k
  clock : m.clock = w.clock
  stream : m.stream = w.stream
  queues : ∀ p, m.value .queues p =
    if p = q then some (withRate rate p (queueRecord w p)) else w.value .queues p

theorem wp_ensureQueue_enrolls {Q : Unit → World → Prop} (h : ∀ m, Enrolls q none w m → Q () m) :
    serves.wp (ensureQueue q) Q w := by
  simp only [ensureQueue, bind_eq, wp_bind, wp_exists?]
  cases found : w.value .queues q with
  | some stored =>
    refine wp_pure.mpr (h w ⟨fun _ => rfl, rfl, rfl, fun p => ?_⟩)
    by_cases same : p = q
    · simp [same, found, queueRecord, withRate]
    · simp [same]
  | none =>
    simp only [Option.isSome_none, Bool.false_eq_true, ↓reduceIte, wp_bind, wp_put, pure_eq,
      wp_pure]
    refine h _ ⟨fun k => by simp [Slot.write], rfl, rfl, fun p => ?_⟩
    by_cases same : p = q
    · simp [same, value_put, found, queueRecord, withRate]
    · simp [same, value_put]

theorem wp_storeRateLimit_enrolls {Q : Unit → World → Prop} (enrolled : Enrolls job.queue none w u)
    (h : ∀ m, Enrolls job.queue (setRate job) w m → Q () m) :
    serves.wp (storeRateLimit job) Q u := by
  unfold storeRateLimit
  unfold setRate at h
  cases limit : job.rateLimit with
  | none =>
    simp only [limit] at h
    exact wp_pure.mpr (h u enrolled)
  | some policy =>
    simp only [limit] at h
    dsimp only
    split
    · rename_i positive
      rw [if_pos positive] at h
      simp only [updateQueueRateLimit, bind_eq, wp_bind, wp_updateQueueMeta, pure_eq, wp_pure]
      refine h _ ⟨fun k => ?_, enrolled.clock, enrolled.stream, fun p => ?_⟩
      · rw [← enrolled.slots k]
        simp [Slot.write]
      · by_cases same : p = job.queue
        · simp [same, value_put, enrolled.queues, withRate]
        · simp [same, value_put, enrolled.queues]
    · rename_i unset
      rw [if_neg unset] at h
      exact wp_pure.mpr (h u enrolled)

/-! ## One job -/

/-- A job is stored and published, and its queue registered. -/
structure Enqueues (id queue : String) (rec : JobState) (rate : Option Int) (w m : World) :
    Prop where
  records : ∀ k, (m.slot k).record = if k = id then some rec else (w.slot k).record
  entries : ∀ k, (m.slot k).entries = (w.slot k).entries
  queues : ∀ p, m.value .queues p =
    if p = queue then some (withRate rate p (queueRecord w p)) else w.value .queues p
  messages : m.stream.map content = w.stream.map content ++ [(queueJobsSubject queue, id)]

/-- A job whose record is there is published. -/
theorem Enqueues.publish {rec : JobState}
    (slots : ∀ k, u.slot k = if k = job.id then { w.slot k with record := some rec } else w.slot k)
    (stream : u.stream = w.stream) (queues : ∀ p, u.value .queues p =
      if p = job.queue then some (withRate rate p (queueRecord w p)) else w.value .queues p) :
    Enqueues job.id job.queue rec rate w (u.publish (queueJobsSubject job.queue) job.id) where
  records := by
    intro k
    rw [slot_publish, slots]
    split <;> rfl
  entries := by
    intro k
    rw [slot_publish, slots]
    split <;> rfl
  queues := queues
  messages := by simp [World.publish, stream, content]

theorem wp_pushBatchLoop_cons {now : Int} {Q : List Job × Option BackendError → World → Prop}
    (given : job.id ≠ "") (h : ∀ m more, Enqueues job.id job.queue
      (marshalJobState (batchJob lib job.id now job)) none w m →
      serves.wp (pushBatchLoop lib now rest more) Q m) :
    serves.wp (pushBatchLoop lib now (job :: rest) done) Q w := by
  simp only [pushBatchLoop, bind_eq, pure_eq, bind_pure_left, given, ↓reduceIte, wp_bind,
    wp_putJobState]
  refine wp_ensureQueue_enrolls fun u enrolled => ?_
  rw [wp_publishJob]
  refine h _ _ (.publish (fun k => ?_) enrolled.stream fun p => ?_)
  · rw [enrolled.slots, slot_put]
    rfl
  · have other (rec : JobState) (p : String) :
        (w.put .jobs job.id rec).value .queues p = w.value .queues p := value_put_other (by simp)
    rw [enrolled.queues, queueRecord, batchJob_queue, batchJob_id, other]
    rfl

/-- The policy block leaves the queues and the stream alone. -/
theorem wp_handleUnique_aside : serves.wp (handleUnique lib job unique)
    (fun _ u => u.kv .queues = w.kv .queues ∧ u.stream = w.stream) w := by
  intro early u run
  have byPolicy := byPolicy_handleUnique lib job unique
  refine ⟨?_, ?_⟩
  · exact run.frame byPolicy (fun w => w.kv .queues) fun _ _ _ _ by' step =>
      (by'.off rfl).leaves.kv step
  · exact run.frame byPolicy World.stream fun _ _ _ _ by' step => (by'.keeps step).1

/-- From the lock on, a push that is plain does what the batch does, and sets the rate limit. -/
theorem wp_storeJob_enqueues (prompt : isScheduledLater lib job u.clock = false)
    (slots : ∀ k, u.slot k = w.slot k) (queues : u.kv .queues = w.kv .queues)
    (stream : u.stream = w.stream) : serves.wp (storeJob lib u.clock job) (fun _ m =>
      Enqueues job.id job.queue (storedRecord lib .available u.clock job) (setRate job) w m) u := by
  simp only [storeJob, bind_eq, wp_bind]
  refine wp_ensureQueue_enrolls fun v registered => wp_storeRateLimit_enrolls registered
    fun x enrolled => ?_
  have record (p : String) : queueRecord u p = queueRecord w p := by
    rw [queueRecord, value_of_kv queues, queueRecord]
  simp only [prompt, Bool.false_eq_true, ↓reduceIte, wp_bind, wp_putJobState, wp_publishJob,
    pure_eq, wp_pure]
  refine .publish (fun k => ?_) (enrolled.stream.trans stream) fun p => ?_
  · rw [slot_put, enrolled.slots, slots]
    rfl
  · rw [value_put_other (by simp), enrolled.queues, value_of_kv queues, record]

theorem wp_push_enqueues (keyed : ∀ k rec, (w.slot k).record = some rec → rec.id = k)
    (given : job.id ≠ "") (plain : Plain lib w job) : serves.wp (push lib job) (fun _ m =>
      Enqueues job.id job.queue
        (storedRecord lib .available w.clock (freshJob lib job.id w.clock job)) (setRate job) w m)
      w := by
  rw [push_eq, wp_bind, wp_timeNow, if_neg given]
  have prompt : isScheduledLater lib (freshJob lib job.id w.clock job) w.clock = false :=
    plain.prompt
  cases policy : job.unique with
  | none =>
    have free : (freshJob lib job.id w.clock job).unique = none := by simp [freshJob, policy]
    rw [pushFresh_free free]
    exact wp_storeJob_enqueues prompt (fun _ => rfl) rfl rfl
  | some unique =>
    have policy' : (freshJob lib job.id w.clock job).unique = some (sortedKeys unique) := by
      simp [freshJob, policy]
    rw [pushFresh_policy policy']
    have taken : serves.wp (handleUnique lib (freshJob lib job.id w.clock job) (sortedKeys unique))
        (fun early u => early = none ∧ u.clock = w.clock ∧ ∀ k, u.slot k = w.slot k) w := by
      refine wp_handleUnique keyed (fun stops _ => ?_) fun _ u granted => ⟨rfl, granted.clock, ?_⟩
      · exact absurd ⟨unique, policy, stopsAtLock_freshJob.mp stops⟩ plain.goes
      · exact fun k => granted.unreplaced k fun replaces =>
          plain.sparing k ⟨unique, policy, replaces_freshJob.mp replaces⟩
    refine wp_bind.mpr ((taken.and wp_handleUnique_aside).mono ?_)
    rintro _ u ⟨⟨rfl, clock, slots⟩, queues, stream⟩
    rw [← clock] at prompt ⊢
    exact wp_storeJob_enqueues prompt slots queues stream

/-! ## The jobs of a run without options -/

/-- The one world holds what the other holds, but for the rate limits given so far. -/
structure Mirrors (rates : String → Option Int) (t b : World) : Prop where
  records : ∀ k, (t.slot k).record.map untimed = (b.slot k).record.map untimed
  entries : ∀ k, (t.slot k).entries = (b.slot k).entries
  queues : ∀ q, t.value .queues q = (b.value .queues q).map (withRate (rates q) q)
  rated : ∀ q, b.value .queues q = none → rates q = none
  messages : t.stream.map content = b.stream.map content

theorem Mirrors.queueRecord {rates : String → Option Int} (mirrors : Mirrors rates t b)
    (q : String) : queueRecord t q = withRate (rates q) q (queueRecord b q) := by
  unfold Lifecycle.queueRecord
  rw [mirrors.queues]
  cases found : b.value .queues q with
  | none =>
    rw [mirrors.rated q found]
    rfl
  | some stored => rfl

/-- Both take one more job. -/
theorem Mirrors.step {id queue : String} {rates : String → Option Int} {rec rec' : JobState}
    (mirrors : Mirrors rates v b) (pushed : Enqueues id queue rec rate v m)
    (batched : Enqueues id queue rec' none b u) (same : untimed rec = untimed rec') :
    Mirrors (fun q => (if q = queue then rate else none).or (rates q)) m u where
  records := by
    intro k
    rw [pushed.records, batched.records]
    split
    · exact congrArg some same
    · exact mirrors.records k
  entries := fun k => by rw [pushed.entries, batched.entries, mirrors.entries]
  queues := by
    intro q
    rw [pushed.queues, batched.queues]
    split
    · rw [mirrors.queueRecord, withRate_withRate]
      rfl
    · exact mirrors.queues q
  rated := by
    intro q unregistered
    rw [batched.queues] at unregistered
    split at unregistered
    · cases unregistered
    · rename_i other
      rw [if_neg other]
      exact mirrors.rated q unregistered
  messages := by rw [pushed.messages, batched.messages, mirrors.messages]

/-- A plain push stores the record that the batch stores. -/
theorem untimed_storedRecord {now now' : Int} (sorted : job.unique.map sortedKeys = job.unique) :
    untimed (storedRecord lib .available now (freshJob lib job.id now job)) =
      untimed (marshalJobState (batchJob lib job.id now' job)) := by
  unfold storedRecord freshJob
  rw [sorted]
  rfl

/-! ## What later pushes leave of a job -/

theorem record_storedSlot (lib : Externals) (now : Int) (job : Job) (s : Slot) : ∃ state,
    (storedSlot lib now job s).record = some (storedRecord lib state now job) ∧
      (isScheduledLater lib job now = true → state = .scheduled) := by
  unfold storedSlot
  split
  · exact ⟨.scheduled, rfl, fun _ => rfl⟩
  · rename_i prompt
    exact ⟨.available, rfl, fun later => absurd later prompt⟩

theorem Submitted.keyed (submitted : Submitted lib job w t)
    (keyed : ∀ k rec, (w.slot k).record = some rec → rec.id = k) :
    ∀ k rec, (t.slot k).record = some rec → rec.id = k := by
  intro k rec found
  cases submitted with
  | stopped _ same => exact keyed k rec (same k ▸ found)
  | @stored u _ spared cancelled moved =>
    by_cases own : k = job.id
    · subst own
      obtain ⟨state, stored, -⟩ := record_storedSlot lib w.clock (freshJob lib job.id w.clock job)
        (u.slot job.id)
      rw [moved.slot, stored] at found
      cases found
      rfl
    · rw [moved.others k own] at found
      by_cases cancels : PushCancels lib w job k
      · obtain ⟨old, new, before, -, after, becomes⟩ := (cancelled k cancels).of_cancel
        obtain rfl : new = rec := Option.some.inj (after.symm.trans found)
        exact becomes.id.trans (keyed k old before)
      · exact keyed k rec (spared k cancels ▸ found)

/-- The job is as before, or it has been cancelled. -/
def Remains (s s' : Slot) : Prop :=
  s'.record = s.record ∨ s.record.isSome ∧ s'.state = some .cancelled

theorem Remains.trans {a c d : Slot} (first : Remains a c) (last : Remains c d) : Remains a d := by
  rcases last with same | ⟨known, cancelled⟩
  · rcases first with same' | ⟨known, cancelled⟩
    · exact .inl (same.trans same')
    · exact .inr ⟨known, by rw [Slot.state, same]; exact cancelled⟩
  · rcases first with same | ⟨known', -⟩
    · exact .inr ⟨same ▸ known, cancelled⟩
    · exact .inr ⟨known', cancelled⟩

theorem Submitted.remains (submitted : Submitted lib job w t) (other : k ≠ job.id) :
    Remains (w.slot k) (t.slot k) := by
  cases submitted with
  | stopped _ same => exact .inl (congrArg Slot.record (same k))
  | @stored u _ spared cancelled moved =>
    rw [moved.others k other]
    by_cases cancels : PushCancels lib w job k
    · obtain ⟨old, new, before, -, after, becomes⟩ := (cancelled k cancels).of_cancel
      exact .inr ⟨by simp [before], by rw [Slot.state, after, Option.map_some, becomes.state]⟩
    · exact .inl (congrArg Slot.record (spared k cancels))

theorem PushedEach.remains (each : PushedEach lib w jobs befores t)
    (keyed : ∀ k rec, (w.slot k).record = some rec → rec.id = k)
    (given : ∀ job ∈ jobs, job.id ≠ "") (other : k ∉ jobs.map Job.id) :
    Remains (w.slot k) (t.slot k) := by
  induction each with
  | nil => exact .inl rfl
  | @cons w m t now job new rest befores _ pushed _ ih =>
    obtain ⟨ne, later⟩ := not_or.mp (List.mem_cons.not.mp other)
    have submitted :=
      push_submits (w := { w with clock := now }) keyed (given job List.mem_cons_self) _ _ pushed
    have kept := ih (submitted.keyed keyed)
      (fun job mem => given job (List.mem_cons_of_mem _ mem)) later
    exact (submitted.remains ne).trans kept

/-! ## Both at once -/

/-- The world holds the records of the batch. -/
structure Filled (lib : Externals) (jobs : List Job) (w b : World) : Prop where
  own : ∀ job ∈ jobs, ∃ now, (b.slot job.id).record.map untimed =
    some (untimed (marshalJobState (batchJob lib job.id now job)))
  others : ∀ k, k ∉ jobs.map Job.id → (b.slot k).record.map untimed = (w.slot k).record.map untimed

theorem wp_pushBatchLoop_filled {now : Int} (given : ∀ job ∈ jobs, job.id ≠ "")
    (distinct : (jobs.map Job.id).Nodup) : serves.wp (pushBatchLoop lib now jobs done)
      (fun _ t => Filled lib jobs w t ∧ ∀ q, queueRecord t q = queueRecord w q) w := by
  induction jobs generalizing w done with
  | nil => exact wp_pure.mpr ⟨⟨by simp, fun _ _ => rfl⟩, fun _ => rfl⟩
  | cons job rest ih =>
    obtain ⟨once, distinct⟩ := List.nodup_cons.mp distinct
    refine wp_pushBatchLoop_cons (given job List.mem_cons_self) fun m more taken => ?_
    refine (ih (fun job mem => given job (List.mem_cons_of_mem _ mem)) distinct).mono ?_
    rintro _ t ⟨filled, records⟩
    refine ⟨⟨List.forall_mem_cons.mpr ⟨⟨now, ?_⟩, filled.own⟩, fun k out => ?_⟩, fun q => ?_⟩
    · rw [filled.others job.id once, taken.records, if_pos rfl]
      rfl
    · obtain ⟨ne, out⟩ := not_or.mp (List.mem_cons.not.mp out)
      rw [filled.others k out, taken.records, if_neg ne]
    · rw [records, queueRecord, taken.queues]
      split <;> rfl

/-- What the push did not store as the batch does would show in the end. -/
theorem Submitted.plain (submitted : Submitted lib job w m)
    (fresh : ∀ other ∈ job :: rest, (w.slot other.id).record = none)
    (distinct : job.id ∉ rest.map Job.id) (filled : Filled lib (job :: rest) w b)
    (remains : ∀ k, k ∉ rest.map Job.id → Remains (m.slot k) (t.slot k))
    (same : ∀ k, (t.slot k).record.map untimed = (b.slot k).record.map untimed) :
    Plain lib w job := by
  obtain ⟨now, own⟩ := filled.own job List.mem_cons_self
  have vacant : (w.slot job.id).record = none := fresh job List.mem_cons_self
  have final : (t.slot job.id).record.map untimed =
      some (untimed (marshalJobState (batchJob lib job.id now job))) := (same job.id).trans own
  have kept : (t.slot job.id).record = (m.slot job.id).record := by
    rcases remains job.id distinct with eq | ⟨-, cancelled⟩
    · exact eq
    · obtain ⟨rec, found, state⟩ := Option.map_eq_some_iff.mp cancelled
      rw [found, Option.map_some, Option.some_inj] at final
      have available : (untimed rec).state = .available := congrArg JobState.state final
      cases state.symm.trans available
  cases submitted with
  | stopped _ unchanged =>
    rw [kept, unchanged, vacant] at final
    cases final
  | @stored u goes spared cancelled moved =>
    obtain ⟨state, stored, later⟩ := record_storedSlot lib w.clock
      (freshJob lib job.id w.clock job) (u.slot job.id)
    rw [kept, moved.slot, stored, Option.map_some] at final
    have record := Option.some.inj final
    refine ⟨?_, congrArg JobState.unique record, goes, fun k cancels => ?_⟩
    · refine Bool.eq_false_iff.mpr fun held => ?_
      obtain rfl := later held
      cases congrArg JobState.state record
    · obtain ⟨old, new, before, live, after, becomes⟩ := (cancelled k cancels).of_cancel
      have out : k ∉ (job :: rest).map Job.id := by
        intro mem
        obtain ⟨other, listed, rfl⟩ := List.mem_map.mp mem
        rw [fresh other listed] at before
        cases before
      obtain ⟨ne, out'⟩ := not_or.mp (List.mem_cons.not.mp out)
      have gone : (m.slot k).state = some .cancelled := by
        rw [moved.others k ne, Slot.state, after, Option.map_some, becomes.state]
      have gone' : (t.slot k).state = some .cancelled := by
        rcases remains k out' with eq | ⟨-, cancelled⟩
        · rw [Slot.state, eq]
          exact gone
        · exact cancelled
      obtain ⟨rec, found, state⟩ := Option.map_eq_some_iff.mp gone'
      have old_eq := (same k).trans (filled.others k out)
      rw [found, before, Option.map_some, Option.map_some, Option.some_inj] at old_eq
      have states : (untimed rec).state = (untimed old).state := congrArg JobState.state old_eq
      rw [untimed_state, untimed_state] at states
      rw [← states, state, isTerminalState_of (.inr (.inl rfl))] at live
      cases live

/-- Pushes that end with the records of the batch are plain. -/
theorem PushedEach.plain (each : PushedEach lib w jobs befores t)
    (keyed : ∀ k rec, (w.slot k).record = some rec → rec.id = k)
    (given : ∀ job ∈ jobs, job.id ≠ "") (distinct : (jobs.map Job.id).Nodup)
    (fresh : ∀ job ∈ jobs, (w.slot job.id).record = none) (filled : Filled lib jobs w b)
    (same : ∀ k, (t.slot k).record.map untimed = (b.slot k).record.map untimed) :
    List.Forall₂ (Plain lib) befores jobs := by
  induction each with
  | nil => exact .nil
  | @cons w m t now job new rest befores _ pushed later ih =>
    obtain ⟨once, distinct⟩ := List.nodup_cons.mp distinct
    have given' : ∀ job ∈ rest, job.id ≠ "" := fun job mem => given job (List.mem_cons_of_mem _ mem)
    have submitted :=
      push_submits (w := { w with clock := now }) keyed (given job List.mem_cons_self) _ _ pushed
    have keyed' := submitted.keyed keyed
    have plain : Plain lib { w with clock := now } job :=
      submitted.plain fresh once ⟨filled.own, filled.others⟩
        (fun k out => later.remains keyed' given' out) same
    have taken := wp_push_enqueues (w := { w with clock := now }) keyed
      (given job List.mem_cons_self) plain _ _ pushed
    refine .cons plain (ih keyed' given' distinct (fun other mem => ?_) ⟨?_, fun k out => ?_⟩ same)
    · have ne : other.id ≠ job.id := fun eq => once (eq ▸ List.mem_map_of_mem mem)
      rw [taken.records, if_neg ne]
      exact fresh other (List.mem_cons_of_mem _ mem)
    · exact fun other mem => filled.own other (List.mem_cons_of_mem _ mem)
    · rw [taken.records]
      split
      · rename_i own
        obtain ⟨now', stored⟩ := filled.own job List.mem_cons_self
        rw [own, stored, Option.map_some, untimed_storedRecord plain.sorted]
      · rename_i ne
        exact filled.others k fun mem => (List.mem_cons.mp mem).elim ne out

/-- Plain pushes mirror the batch. -/
theorem PushedEach.mirrors {now : Int} {rates : String → Option Int}
    (each : PushedEach lib w jobs befores t)
    (keyed : ∀ k rec, (w.slot k).record = some rec → rec.id = k)
    (given : ∀ job ∈ jobs, job.id ≠ "") (plain : List.Forall₂ (Plain lib) befores jobs)
    (mirrors : Mirrors rates w v) : serves.wp (pushBatchLoop lib now jobs done)
      (fun _ b => Mirrors (fun q => (lastRate jobs q).or (rates q)) t b) v := by
  induction each generalizing v rates done with
  | nil => exact wp_pure.mpr mirrors
  | @cons w m t clock job new rest befores _ pushed _ ih =>
    obtain ⟨plain, later⟩ := List.forall₂_cons.mp plain
    have nonempty : job.id ≠ "" := given job List.mem_cons_self
    have taken :=
      wp_push_enqueues (w := { w with clock := clock }) keyed nonempty plain _ _ pushed
    have submitted := push_submits (w := { w with clock := clock }) keyed nonempty _ _ pushed
    refine wp_pushBatchLoop_cons nonempty fun u more batched => ?_
    have mirrors' : Mirrors rates { w with clock := clock } v :=
      ⟨mirrors.records, mirrors.entries, mirrors.queues, mirrors.rated, mirrors.messages⟩
    refine (ih (submitted.keyed keyed) (fun job mem => given job (List.mem_cons_of_mem _ mem)) later
      (mirrors'.step taken batched (untimed_storedRecord plain.sorted))).mono fun _ b final => ?_
    simpa only [lastRate, Option.or_assoc] using final

/-! ## Agreement -/

/-- Pushing jobs one by one and as a batch leaves the same behind exactly if every push stores its
job at once and unchanged, cancels no other, and sets no new rate limit. -/
theorem pushBatch_alike_iff {reply : List Job × Option BackendError}
    (keyed : ∀ k rec, w.value .jobs k = some rec → rec.id = k)
    (given : ∀ job ∈ jobs, job.id ≠ "") (distinct : (jobs.map Job.id).Nodup)
    (fresh : ∀ job ∈ jobs, w.value .jobs job.id = none) (valid : validateBatch lib jobs = none)
    (each : PushedEach lib w jobs befores t) (batch : serves.Exec (pushBatch lib jobs) w reply b) :
    Alike t b ↔ List.Forall₂ (Plain lib) befores jobs ∧ RatesStay w jobs := by
  have loop : serves.Exec (pushBatchLoop lib w.clock jobs []) w reply b := by
    suffices only : serves.wp (pushBatch lib jobs)
        (serves.Exec (pushBatchLoop lib w.clock jobs []) w) w from only reply b batch
    simp only [pushBatch, valid, bind_eq, wp_bind, wp_timeNow]
    exact fun _ _ run => run
  obtain ⟨filled, records⟩ := wp_pushBatchLoop_filled given distinct reply b loop
  have mirrored (plain : List.Forall₂ (Plain lib) befores jobs) : Mirrors (lastRate jobs) t b := by
    have start : Mirrors (fun _ => none) w w :=
      ⟨fun _ => rfl, fun _ => rfl, fun q => Option.map_id'.symm, fun _ _ => rfl, rfl⟩
    simpa only [Option.or_none] using each.mirrors keyed given plain start reply b loop
  have held {q : String} {stored : QueueMeta} (found : b.value .queues q = some stored) :
      queueRecord w q = stored := by
    rw [← records, queueRecord, found, Option.getD_some]
  constructor
  · intro alike
    have plain := each.plain keyed given distinct fresh filled alike.records
    refine ⟨plain, fun q r last => ?_⟩
    have mirrors := mirrored plain
    have queues := (mirrors.queues q).symm.trans (alike.queues q)
    cases found : b.value .queues q with
    | none => cases last.symm.trans (mirrors.rated q found)
    | some stored =>
      rw [found, Option.map_some, Option.some_inj] at queues
      rw [held found]
      exact withRate_eq_iff.mp queues r last
  · rintro ⟨plain, stay⟩
    have mirrors := mirrored plain
    refine ⟨mirrors.records, mirrors.entries, fun q => ?_, mirrors.messages⟩
    rw [mirrors.queues]
    cases found : b.value .queues q with
    | none => rfl
    | some stored =>
      refine congrArg some (withRate_eq_iff.mpr fun r last => ?_)
      rw [← held found]
      exact stay q r last

/-- Push the jobs one after the other, without time passing, as long as they are accepted. -/
def pushEach : List Job → World → Option (List World × World)
  | [], w => some ([], w)
  | job :: rest, w =>
      match execute (push sample job) w with
      | some (.ok _, m) => (pushEach rest m).map fun r => (w :: r.1, r.2)
      | _ => none

theorem pushedEach_of_pushEach (pushed : pushEach jobs w = some (befores, t)) :
    PushedEach sample w jobs befores t := by
  induction jobs generalizing w befores with
  | nil =>
    cases pushed
    exact .nil
  | cons job rest ih =>
    simp only [pushEach] at pushed
    split at pushed
    · rename_i new m executed
      obtain ⟨⟨befores, t⟩, later, same⟩ := Option.map_eq_some_iff.mp pushed
      cases same
      exact .cons le_rfl (exec_of_execute executed) (ih later)
    · cases pushed

def plainMail : Job := { id := "job-1", type := "mail", queue := "mails" }

def soleMail : Job := { id := "job-2", type := "mail", queue := "mails", unique := some {} }

/-- What comes of the jobs in an empty store, one by one and as a batch. -/
def bothWays (jobs : List Job) :
    Option ((List World × World) × (List Job × Option BackendError) × World) :=
  match pushEach jobs (World.start (Sample.instant 0)),
    execute (pushBatch sample jobs) (World.start (Sample.instant 0)) with
  | some each, some batch => some (each, batch)
  | _, _ => none

theorem runs_of_bothWays {reply : List Job × Option BackendError}
    (ran : bothWays jobs = some ((befores, t), reply, b)) :
    PushedEach sample (World.start (Sample.instant 0)) jobs befores t ∧
      serves.Exec (pushBatch sample jobs) (World.start (Sample.instant 0)) reply b := by
  unfold bothWays at ran
  split at ran
  · rename_i each batch
    cases ran
    exact ⟨pushedEach_of_pushEach each, exec_of_execute batch⟩
  · cases ran

/-- A job that is due, with its keys in order and its lock free. -/
theorem plain_of_unlocked (prompt : isScheduledLater lib job w.clock = false)
    (sorted : job.unique.map sortedKeys = job.unique)
    (free : ∀ unique, job.unique = some unique →
      w.value .unique (UniqueStore.computeFingerprint lib job (sortedKeys unique)) = none) :
    Plain lib w job := by
  refine ⟨prompt, sorted, ?_, ?_⟩
  · rintro ⟨unique, policy, holder, rec, obstructs, -⟩
    cases (free unique policy).symm.trans obstructs.lock
  · rintro k ⟨unique, policy, rec, obstructs, -⟩
    cases (free unique policy).symm.trans obstructs.lock

/-- A policy makes no difference to a batch while its lock is free. -/
theorem pushBatch_alike_iff_sole : ∃ befores t reply b,
    bothWays [plainMail, soleMail] = some ((befores, t), reply, b) ∧ Alike t b := by
  have runs : (bothWays [plainMail, soleMail]).isSome := by decide
  obtain ⟨⟨⟨befores, t⟩, reply, b⟩, ran⟩ := Option.isSome_iff_exists.mp runs
  have facts : (bothWays [plainMail, soleMail]).map (fun r => r.1.1.map fun w =>
      w.value .unique (UniqueStore.computeFingerprint sample soleMail (sortedKeys {}))) =
      some [none, none] := by decide
  rw [ran] at facts
  obtain ⟨w, later, rfl, -, facts⟩ := List.map_eq_cons_iff.mp (Option.some.inj facts)
  obtain ⟨m, rfl, free⟩ := List.map_eq_singleton_iff.mp facts
  obtain ⟨each, batch⟩ := runs_of_bothWays ran
  refine ⟨_, t, reply, b, ran, (pushBatch_alike_iff (fun _ _ found => by cases found) (by decide)
    (by decide) (fun _ _ => rfl) (by decide) each batch).mpr ⟨.cons ?_ (.cons ?_ .nil), ?_⟩⟩
  · exact plain_of_unlocked rfl rfl fun unique policy => by cases policy
  · refine plain_of_unlocked rfl (by simp [soleMail, sortedKeys]) fun unique policy => ?_
    cases policy
    exact free
  · intro q r last
    have unset : lastRate [plainMail, soleMail] q = none := by
      by_cases same : q = "mails" <;> simp [lastRate, setRate, plainMail, soleMail, same]
    cases unset.symm.trans last

/-- A batch does not hold back a job that is scheduled for later. -/
theorem not_pushBatch_alike : ¬ ∀ (lib : Externals) (w t b : World) (jobs : List Job)
    (befores : List World) (reply : List Job × Option BackendError),
    (∀ k rec, w.value .jobs k = some rec → rec.id = k) → (∀ job ∈ jobs, job.id ≠ "") →
    (jobs.map Job.id).Nodup → (∀ job ∈ jobs, w.value .jobs job.id = none) →
    validateBatch lib jobs = none → PushedEach lib w jobs befores t →
    serves.Exec (pushBatch lib jobs) w reply b → Alike t b := by
  intro alike
  let later : Job := { plainMail with scheduledAt := "2026-01-01T00:01:00.000Z" }
  have runs : (bothWays [later]).isSome := by decide
  obtain ⟨⟨⟨befores, t⟩, reply, b⟩, ran⟩ := Option.isSome_iff_exists.mp runs
  have facts : (bothWays [later]).map (fun r =>
      ((r.1.2.value .jobs "job-1").map JobState.state,
        (r.2.2.value .jobs "job-1").map JobState.state)) =
      some (some .scheduled, some .available) := by decide
  rw [ran] at facts
  obtain ⟨scheduled, available⟩ := Prod.mk.inj (Option.some.inj facts)
  obtain ⟨each, batch⟩ := runs_of_bothWays ran
  have same := (alike sample _ t b [later] befores reply (fun _ _ found => by cases found)
    (by decide) (by decide) (fun _ _ => rfl) (by decide) each batch).records "job-1"
  have states := congrArg (Option.map JobState.state) same
  simp only [Option.map_map] at states
  cases scheduled.symm.trans (states.trans available)

end OjsNats.Lifecycle
