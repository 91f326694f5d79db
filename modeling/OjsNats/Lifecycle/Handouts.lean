import OjsNats.Lifecycle.System

/-!
# What a fetch hands out

The exact outcome of `Fetch`, queue by queue: which messages it takes off the
stream, which of their jobs it returns, and what becomes of each of them.
-/

namespace OjsNats.Lifecycle

open Core Nats Effect Semantics Program

variable {lib : Externals} {w v t : World} {queue workerID : String} {j : String}

/-! ## Fetches that hand out a certain number -/

/-- Calls are served, and a fetch from a consumer hands out a number of messages allowed
for the queue and the number asked for. -/
def rationed (allowed : String → Nat → Nat → Prop) : Semantics Op Ans World where
  step w op r w' :=
    match op, r with
    | .consumerFetch queue count, r => ∃ n ≤ count, allowed queue n count ∧
        r = .ok (deliver (queueJobsSubject queue) n w.stream).1 ∧
        w' = { w with stream := (deliver (queueJobsSubject queue) n w.stream).2 }
    | op, r => w.Serves op r w'

theorem rationed_refines (allowed : String → Nat → Nat → Prop) :
    Refines (rationed allowed) serves := by
  intro w op r t step
  cases op with
  | consumerFetch queue count =>
    obtain ⟨n, le, -, answer⟩ := step
    exact ⟨n, le, answer⟩
  | _ => exact step

theorem refines_rationed : Refines serves (rationed fun _ _ _ => True) := by
  intro w op r t step
  cases op with
  | consumerFetch queue count =>
    obtain ⟨n, le, answer⟩ := step
    exact ⟨n, le, trivial, answer⟩
  | _ => exact step

/-- Where some number is allowed, every call is answered. -/
theorem rationed_answers {allowed : String → Nat → Nat → Prop}
    (some : ∀ queue count, ∃ n ≤ count, allowed queue n count) (w : World) (op : Op) :
    ∃ r t, (rationed allowed).step w op r t := by
  cases op with
  | consumerFetch queue count =>
    obtain ⟨n, le, ok⟩ := some queue count
    exact ⟨_, _, n, le, ok, rfl, rfl⟩
  | _ => exact serves_answers w _

/-! ## The record of a queue -/

/-- The answer of `isQueuePaused`. -/
def pausedIn (w : World) (queue : String) : Bool :=
  match w.value .queues queue with
  | some stored => QueueMeta.paused stored
  | none => false

/-- The answer of `isRateLimited`. -/
def limitedIn (w : World) (queue : String) (now : Int) : Bool :=
  match w.value .queues queue with
  | some stored =>
      if QueueMeta.rateLimitPerSec stored ≤ 0 then false
      else decide (unixMilli now - QueueMeta.lastFetchMs stored <
        Int.tdiv 1000 (QueueMeta.rateLimitPerSec stored))
  | none => false

/-- The record of a queue once `recordFetchTime` has noted a fetch. -/
def fetchedMeta (now : Int) (stored : Option QueueMeta) : QueueMeta :=
  { stored.getD {} with lastFetchMs := unixMilli now }

theorem fetchedMeta_fetchedMeta (now : Int) (stored : Option QueueMeta) :
    fetchedMeta now (some (fetchedMeta now stored)) = fetchedMeta now stored := rfl

@[simp] theorem wp_isQueuePaused {Q : Bool → World → Prop} :
    serves.wp (isQueuePaused queue) Q w ↔ Q (pausedIn w queue) w := by
  simp only [isQueuePaused, bind_eq, wp_bind, wp_get .queues, pausedIn]
  cases found : w.lookup .queues queue with
  | error e => simp [World.lookup_error w found]
  | ok entry =>
    obtain ⟨stored, rev⟩ := entry
    simp [World.lookup_value w found]

@[simp] theorem wp_isRateLimited {now : Int} {Q : Bool → World → Prop} :
    serves.wp (isRateLimited queue now) Q w ↔ Q (limitedIn w queue now) w := by
  simp only [isRateLimited, bind_eq, wp_bind, wp_get .queues, limitedIn]
  cases found : w.lookup .queues queue with
  | error e => simp [World.lookup_error w found]
  | ok entry =>
    obtain ⟨stored, rev⟩ := entry
    rw [World.lookup_value w found]
    dsimp only
    split
    · exact wp_pure
    · exact wp_pure

theorem unmarshalQueueMeta_default (data : QueueMeta) : unmarshalQueueMeta data {} = data := by
  unfold unmarshalQueueMeta
  cases data
  simp only [QueueMeta.mk.injEq, true_and, and_true]
  constructor
  · split <;> simp_all
  · split <;> simp_all

/-- A write at the revision that was read. -/
theorem wp_update_found {b : BucketName} {k : String} {data value : b.Value} {rev : Nat}
    {Q : Except CallError Nat → World → Prop} (found : w.lookup b k = .ok (data, rev)) :
    serves.wp (Store.update b k value rev) Q w ↔
      Q (.ok ((w.kv b).revision + 1)) (w.put b k value) := by
  have current : ((w.kv b).get k).map Prod.snd = some rev := by
    unfold World.lookup at found
    cases stored : (w.kv b).get k with
    | none => simp [stored] at found
    | some entry =>
      rw [stored] at found
      cases found
      rfl
  exact wp_ask_of fun r t => by simp only [World.Serves, current, if_true]

/-- `UpdateJSON` succeeds at once when nothing else writes the record. -/
@[simp] theorem wp_updateQueueMeta {mutate : QueueMeta → QueueMeta}
    {Q : Except CallError Unit → World → Prop} :
    serves.wp (updateQueueMeta queue mutate) Q w ↔ Q (.ok ())
      (w.put .queues queue (mutate ((w.value .queues queue).getD ({} : QueueMeta)))) := by
  simp only [updateQueueMeta, Store.updateJSON, Store.updateJSONLoop, bind_eq, wp_bind,
    wp_get .queues]
  cases found : w.lookup .queues queue with
  | error e =>
    have none := World.lookup_error w found
    simp [wp_bind, wp_create, none]
  | ok entry =>
    obtain ⟨stored, rev⟩ := entry
    simp only [wp_bind, wp_update_found found, World.lookup_value w found, pure_eq, wp_pure,
      unmarshalQueueMeta_default, Option.getD_some]

@[simp] theorem wp_recordFetchTime {now : Int} {Q : Unit → World → Prop} :
    serves.wp (recordFetchTime queue now) Q w ↔
      Q () (w.put .queues queue (fetchedMeta now (w.value .queues queue))) := by
  simp only [recordFetchTime, bind_eq, wp_bind, wp_updateQueueMeta, pure_eq, wp_pure]
  exact Iff.rfl

/-! ## One message -/

/-- What a fetch returns for a job whose message it has taken. -/
def claimOf (lib : Externals) (now : Int) (s : Slot) : Option Job :=
  match s.record with
  | none => none
  | some stored =>
      if isExpired lib (unmarshalJobState stored) now = true then none
      else if stored.state = .available then some (claimedJob lib now (unmarshalJobState stored))
      else none

theorem claimOf_eq_some {now : Int} {s : Slot} {job : Job} : claimOf lib now s = some job ↔
    ∃ rec, s.record = some rec ∧ isExpired lib (unmarshalJobState rec) now = false ∧
      rec.state = .available ∧ job = claimedJob lib now (unmarshalJobState rec) := by
  unfold claimOf
  cases s.record with
  | none => simp
  | some stored =>
    have only {p : JobState → Prop} : (∃ rec, some stored = some rec ∧ p rec) ↔ p stored := by simp
    rw [only]
    by_cases expired : isExpired lib (unmarshalJobState stored) now = true
    · simp [expired]
    · by_cases available : stored.state = .available
      · simp only [expired, available, Bool.false_eq_true, ↓reduceIte, Option.some.injEq, true_and]
        exact eq_comm
      · simp [expired, available]

/-- What a fetch makes of a job whose message it has taken. -/
def fetchedSlot (lib : Externals) (queue workerID : String) (visibilityTimeoutMs now : Int)
    (msg : Msg) (s : Slot) : Slot :=
  match s.record with
  | none => { s with inflight := none, messages := [] }
  | some stored =>
      if isExpired lib (unmarshalJobState stored) now = true then
        { s with
          record := some (marshalJobState { unmarshalJobState stored with state := .discarded })
          inflight := none
          messages := [] }
      else if stored.state = .available then
        { s with
          record := some (marshalJobState (claimedJob lib now (unmarshalJobState stored)))
          active := some (activeInfo lib queue workerID now
            (effectiveVisTimeout lib visibilityTimeoutMs (unmarshalJobState stored)))
          inflight := some msg
          messages := [] }
      else { s with inflight := none, messages := [] }

theorem fetchedSlot_claimed {visibilityTimeoutMs now : Int} {msg : Msg} {s : Slot}
    {rec : JobState} (stored : s.record = some rec)
    (fresh : isExpired lib (unmarshalJobState rec) now = false) (available : rec.state = .available) :
    fetchedSlot lib queue workerID visibilityTimeoutMs now msg s =
      { s with
        record := some (marshalJobState (claimedJob lib now (unmarshalJobState rec)))
        active := some (activeInfo lib queue workerID now
          (effectiveVisTimeout lib visibilityTimeoutMs (unmarshalJobState rec)))
        inflight := some msg
        messages := [] } := by
  simp [fetchedSlot, stored, fresh, available]

/-- A job that is not claimed keeps its record, unless it has expired. -/
theorem fetchedSlot_unclaimed {visibilityTimeoutMs now : Int} {msg : Msg} {s : Slot}
    (unclaimed : claimOf lib now s = none) :
    (fetchedSlot lib queue workerID visibilityTimeoutMs now msg s).record = s.record ∨
      ∃ rec, s.record = some rec ∧ isExpired lib (unmarshalJobState rec) now = true ∧
        (fetchedSlot lib queue workerID visibilityTimeoutMs now msg s).record =
          some (marshalJobState { unmarshalJobState rec with state := .discarded }) := by
  unfold fetchedSlot
  cases stored : s.record with
  | none => exact .inl rfl
  | some rec =>
    dsimp only
    split
    · rename_i expired
      exact .inr ⟨rec, rfl, expired, rfl⟩
    · rename_i fresh
      split
      · rename_i available
        simp [claimOf, stored, fresh, available] at unclaimed
      · exact .inl rfl

/-- One message has been dealt with; the record of the queue is touched if its job is claimed. -/
structure Dealt (lib : Externals) (queue workerID : String) (visibilityTimeoutMs : Int)
    (msg : Msg) (s : Slot) (j : String) (v t : World) : Prop where
  slot : t.slot j = fetchedSlot lib queue workerID visibilityTimeoutMs v.clock msg s
  others : ∀ k, k ≠ j → t.slot k = v.slot k
  clock : t.clock = v.clock
  used : t.used = v.used
  stream : t.stream = v.stream
  queues : ∀ q, t.value .queues q = if q = queue ∧ (claimOf lib v.clock s).isSome
    then some (fetchedMeta v.clock (v.value .queues q)) else v.value .queues q

theorem wp_fetchJob {visibilityTimeoutMs : Int} {msg : Msg} {s : Slot} {jobs : List Job}
    (keyed : ∀ rec, s.record = some rec → rec.id = j)
    (slot : v.slot j = { s with messages := [], inflight := some msg }) :
    serves.wp (fetchJob lib queue workerID visibilityTimeoutMs v.clock j jobs)
      (fun jobs' t => jobs' = jobs ++ (claimOf lib v.clock s).toList ∧
        Dealt lib queue workerID visibilityTimeoutMs msg s j v t) v := by
  have record : (v.slot j).record = s.record := by rw [slot]
  have acked : (v.track j none).slot j = { s with messages := [], inflight := none } := by
    simp [slot]
  cases stored : s.record with
  | none =>
    have unclaimed : claimOf lib v.clock s = none := by simp [claimOf, stored]
    simp only [fetchJob, bind_eq, wp_bind, wp_getJobState, World.job_of_none (record.trans stored),
      wp_ackMessage, pure_eq, wp_pure]
    refine ⟨by simp [unclaimed], ?_, fun k ne => by simp [ne], rfl, rfl, rfl, fun q => ?_⟩
    · rw [acked]
      simp [fetchedSlot, stored]
    · simp [unclaimed, World.track, World.value]
  | some rec =>
    obtain rfl : rec.id = j := keyed rec stored
    simp only [fetchJob, bind_eq, wp_bind, wp_getJobState,
      World.job_of_record (record.trans stored)]
    by_cases expired : isExpired lib (unmarshalJobState rec) v.clock = true
    · have unclaimed : claimOf lib v.clock s = none := by simp [claimOf, stored, expired]
      simp only [expired, ↓reduceIte, wp_bind, wp_putJobState, wp_ackMessage, pure_eq, wp_pure]
      refine ⟨by simp [unclaimed], ?_, fun k ne => by simp [ne], rfl, rfl, rfl, fun q => ?_⟩
      · simp [slot, fetchedSlot, stored, expired, Slot.write]
      · rw [if_neg (by simp [unclaimed])]
        exact value_put_other (by simp)
    · by_cases available : rec.state = .available
      · have claimed : claimOf lib v.clock s =
            some (claimedJob lib v.clock (unmarshalJobState rec)) := by
          simp [claimOf, stored, expired, available]
        simp only [expired, unmarshalJobState_state, available, ne_eq, not_true_eq_false,
          Bool.false_eq_true, ↓reduceIte, wp_bind, wp_put, wp_putJobState, wp_recordFetchTime,
          pure_eq, wp_pure]
        have board (u : World) (value : QueueMeta) :
            SameBoard u (u.put .queues queue value) := sameBoard_put rfl
        refine ⟨by simp [claimed], ?_, fun k ne => ?_, rfl, rfl, rfl, fun q => ?_⟩
        · rw [(board _ _).slots]
          simp [slot, fetchedSlot, stored, expired, available, Slot.write]
        · rw [(board _ _).slots]
          simp [ne]
        · have before (q : String) (info : ActiveJobInfo) (rec' : JobState) :
              ((v.put .active rec.id info).put .jobs rec.id rec').value .queues q =
                v.value .queues q :=
            (value_put_other (by simp)).trans (value_put_other (by simp))
          by_cases own : q = queue
          · simp [own, claimed, value_put, before]
          · rw [if_neg (fun h => own h.1), value_put_other (fun h => own h.2)]
            exact before q _ _
      · have unclaimed : claimOf lib v.clock s = none := by
          simp [claimOf, stored, expired, available]
        simp only [expired, unmarshalJobState_state, ne_eq, available, not_false_eq_true,
          Bool.false_eq_true, ↓reduceIte, wp_bind, wp_ackMessage, pure_eq, wp_pure]
        refine ⟨by simp [unclaimed], ?_, fun k ne => by simp [ne], rfl, rfl, rfl, fun q => ?_⟩
        · rw [acked]
          simp [fetchedSlot, stored, expired, available]
        · simp [unclaimed, World.track, World.value]

/-! ## One queue -/

theorem deliver_length_le (subject : String) (n : Nat) (stream : List Msg) :
    (deliver subject n stream).1.length ≤ n := by
  induction stream generalizing n with
  | nil => cases n <;> simp [deliver]
  | cons m rest ih =>
    cases n with
    | zero => simp [deliver]
    | succ n =>
      by_cases same : m.subject = subject
      · simpa [deliver, same] using ih n
      · simpa [deliver, same] using ih (n + 1)

/-- The job that a fetch would return for an id. -/
def claimIn (lib : Externals) (w : World) (j : String) : Option Job :=
  claimOf lib w.clock (w.slot j)

/-- The ids on the first messages of the queue. -/
def handedIDs (w : World) (queue : String) (n : Nat) : List String :=
  (deliver (queueJobsSubject queue) n w.stream).1.map Msg.data

/-- In the middle of a turn: messages have been taken since `w`, and the jobs of some of them
have been dealt with. -/
structure Turn (lib : Externals) (queue workerID : String) (visibilityTimeoutMs : Int)
    (done rest : List String) (w v : World) : Prop where
  dealt : ∀ j ∈ done, ∃ msg, (w.slot j).messages = [msg] ∧
    v.slot j = fetchedSlot lib queue workerID visibilityTimeoutMs w.clock msg (w.slot j)
  inHand : ∀ j ∈ rest, ∃ msg, (w.slot j).messages = [msg] ∧
    v.slot j = { w.slot j with messages := [], inflight := some msg }
  others : ∀ j, j ∉ done → j ∉ rest → v.slot j = w.slot j
  clock : v.clock = w.clock
  used : v.used = w.used
  queues : ∀ q, v.value .queues q = if q = queue ∧ done.any fun j => (claimIn lib w j).isSome
    then some (fetchedMeta w.clock (w.value .queues q)) else w.value .queues q

/-- One more message dealt with. -/
theorem Turn.next {visibilityTimeoutMs : Int} {done rest : List String} {msg : Msg}
    (turn : Turn lib queue workerID visibilityTimeoutMs done (j :: rest) w v)
    (fresh : j ∉ done) (once : j ∉ rest) (one : (w.slot j).messages = [msg])
    (dealt : Dealt lib queue workerID visibilityTimeoutMs msg (w.slot j) j v t) :
    Turn lib queue workerID visibilityTimeoutMs (done ++ [j]) rest w t where
  dealt := by
    intro k mem
    rcases List.mem_append.mp mem with old | new
    · have ne : k ≠ j := fun same => fresh (same ▸ old)
      rw [dealt.others k ne]
      exact turn.dealt k old
    · obtain rfl := List.mem_singleton.mp new
      exact ⟨msg, one, turn.clock ▸ dealt.slot⟩
  inHand := by
    intro k mem
    have ne : k ≠ j := fun same => once (same ▸ mem)
    rw [dealt.others k ne]
    exact turn.inHand k (List.mem_cons_of_mem _ mem)
  others := by
    intro k out absent
    have ne : k ≠ j := fun same => out (same ▸ by simp)
    rw [dealt.others k ne]
    exact turn.others k (fun mem => out (List.mem_append_left _ mem)) (by simp [ne, absent])
  clock := dealt.clock.trans turn.clock
  used := dealt.used.trans turn.used
  queues := by
    intro q
    rw [dealt.queues q, turn.queues q, turn.clock, List.any_append]
    rw [show claimOf lib w.clock (w.slot j) = claimIn lib w j from rfl]
    by_cases own : q = queue
    · cases before : done.any fun j => (claimIn lib w j).isSome with
      | true => simp [own, fetchedMeta_fetchedMeta]
      | false => simp [own]
    · simp [own]

theorem wp_fetchJobs {visibilityTimeoutMs : Int} {ids : List String} {jobs : List Job}
    (sound : Sound w) (nodup : ids.Nodup)
    (start : Turn lib queue workerID visibilityTimeoutMs [] ids w v) :
    serves.wp (Program.forEach ids jobs
        (fetchJob lib queue workerID visibilityTimeoutMs w.clock))
      (fun jobs' t => jobs' = jobs ++ ids.filterMap (claimIn lib w) ∧
        Turn lib queue workerID visibilityTimeoutMs ids [] w t ∧ t.stream = v.stream) v := by
  refine wp_forEach (fun rest jobs' m => ∃ done, done ++ rest = ids ∧
    jobs' = jobs ++ done.filterMap (claimIn lib w) ∧
    Turn lib queue workerID visibilityTimeoutMs done rest w m ∧ m.stream = v.stream)
    ⟨[], rfl, by simp, start, rfl⟩ ?_ ?_
  · rintro j rest _ m ⟨done, rfl, rfl, turn, stream⟩
    obtain ⟨msg, one, slot⟩ := turn.inHand j List.mem_cons_self
    have distinct := List.nodup_append.mp nodup
    have fresh : j ∉ done := fun mem => distinct.2.2 j mem j List.mem_cons_self rfl
    have once : j ∉ rest := (List.nodup_cons.mp distinct.2.1).1
    rw [← turn.clock]
    refine (wp_fetchJob (sound.placed j).keyed slot).mono ?_
    rintro _ t ⟨rfl, dealt⟩
    refine ⟨done ++ [j], by simp, ?_, turn.next fresh once one dealt, dealt.stream.trans stream⟩
    have new : [j].filterMap (claimIn lib w) = (claimOf lib m.clock (w.slot j)).toList := by
      rw [turn.clock, List.filterMap_cons, List.filterMap_nil, claimIn]
      cases claimOf lib w.clock (w.slot j) <;> rfl
    rw [List.filterMap_append, new, List.append_assoc]
  · rintro _ t ⟨done, whole, rfl, turn, stream⟩
    obtain rfl : done = ids := by simpa using whole
    exact ⟨rfl, turn, stream⟩

@[simp] theorem trackAll_kv (w : World) (msgs : List Msg) : (trackAll w msgs).kv = w.kv := by
  induction msgs generalizing w with
  | nil => rfl
  | cons m rest ih => exact ih _

@[simp] theorem trackAll_stream (w : World) (msgs : List Msg) :
    (trackAll w msgs).stream = w.stream := by
  induction msgs generalizing w with
  | nil => rfl
  | cons m rest ih => exact ih _

/-- A served consumer is always there. -/
theorem wp_getConsumer {Q : Except CallError Unit → World → Prop}
    (there : ∀ consumers, Q (.ok ()) { w with consumers := consumers }) :
    serves.wp (getConsumer queue) Q w := by
  simp only [getConsumer, bind_eq, wp_bind]
  rw [wp_ask_of fun _ _ => Iff.rfl]
  split
  · exact wp_pure.mpr (there w.consumers)
  · simp only [wp_bind]
    rw [wp_ask_of fun _ _ => Iff.rfl]
    simp only [wp_bind, wp_ask]
    rintro _ _ rfl
    exact wp_pure.mpr (there _)

theorem wp_fetchMessages_rationed {allowed : String → Nat → Nat → Prop} (lib : Externals)
    (workerID : String) (visibilityTimeoutMs : Int) (count : Nat) (sound : Sound w) :
    (rationed allowed).wp (fetchMessages queue count) (fun r t => ∃ n ≤ count,
      allowed queue n count ∧ r = .ok (handedIDs w queue n) ∧
      Turn lib queue workerID visibilityTimeoutMs [] (handedIDs w queue n) w t ∧
      t.stream = (deliver (queueJobsSubject queue) n w.stream).2) w := by
  refine wp_bind.mpr (wp.refine (rationed_refines allowed) (wp_getConsumer fun consumers => ?_))
  refine wp_bind.mpr (wp_ask.mpr ?_)
  rintro r t ⟨n, le, ok, rfl, rfl⟩
  have same : SameBoard w { w with consumers := consumers } := ⟨fun _ => rfl, rfl, rfl⟩
  have sound' := same.sound sound
  have slots (j : String) := slot_pulled (queueJobsSubject queue) n j sound'.single
  refine wp_bind.mpr (wp.refine (rationed_refines allowed) (wp_trackAll (fun m mem => ?_) ?_))
  · rcases slots m.data with ⟨msg, -, one, -⟩ | ⟨absent, -⟩
    · rcases (sound'.placed m.data).announced with silent | ⟨-, rec, -, stored, -⟩
      · simp [silent] at one
      · exact (sound'.known m.data (by simp [stored])).2
    · exact absurd (List.mem_map_of_mem mem) absent
  · refine wp_pure.mpr ⟨n, le, ok, rfl, ?_, by simp⟩
    refine ⟨by simp, fun j mem => ?_, fun j _ out => ?_, by simp, by simp, fun q => ?_⟩
    · rcases slots j with ⟨msg, -, one, slot⟩ | ⟨absent, -⟩
      · exact ⟨msg, one, slot⟩
      · exact absurd mem absent
    · rcases slots j with ⟨msg, mem, -⟩ | ⟨-, slot⟩
      · exact absurd mem out
      · exact slot
    · simp [World.value]

/-- The queue is looked at: jobs are still wanted, and it is neither paused nor limited. -/
def LooksAt (w : World) (queue : String) (wanted : Int) : Prop :=
  0 < wanted ∧ pausedIn w queue = false ∧ limitedIn w queue w.clock = false

/-- A fetch passes over a queue, or takes some messages and returns what they are worth. -/
theorem wp_fetchQueue {allowed : String → Nat → Nat → Prop}
    {count visibilityTimeoutMs now : Int} {jobs : List Job} {Q : List Job → World → Prop}
    (sound : Sound w) (clock : w.clock = now)
    (passes : ¬ LooksAt w queue (count - jobs.length) → Q jobs w)
    (takes : LooksAt w queue (count - jobs.length) → ∀ n ≤ (count - jobs.length).toNat,
      allowed queue n (count - jobs.length).toNat → ∀ t,
      Turn lib queue workerID visibilityTimeoutMs (handedIDs w queue n) [] w t →
      t.stream = (deliver (queueJobsSubject queue) n w.stream).2 → Sound t →
      Q (jobs ++ (handedIDs w queue n).filterMap (claimIn lib w)) t) :
    (rationed allowed).wp (fetchQueue lib count workerID visibilityTimeoutMs now queue jobs)
      Q w := by
  subst clock
  have refines := rationed_refines allowed
  have fetched : (rationed allowed).wp (fetchQueue lib count workerID visibilityTimeoutMs w.clock
      queue jobs) (fun jobs' t => ∃ more, jobs' = jobs ++ more ∧ Fetched lib more w t) w :=
    wp.refine refines (fetchQueue_fetched count workerID visibilityTimeoutMs queue jobs sound)
  suffices outcome : (rationed allowed).wp (fetchQueue lib count workerID visibilityTimeoutMs
      w.clock queue jobs) (fun jobs' t => Sound t → Q jobs' t) w from
    (outcome.and fetched).mono fun _ _ ⟨ends, _, _, moved⟩ => ends (moved.evolves.sound sound)
  unfold fetchQueue
  split
  · rename_i full
    exact wp_pure.mpr fun _ => passes fun looks => by
      have wanted := looks.1
      omega
  rename_i wanted
  refine wp_bind.mpr (wp.refine refines (wp_isQueuePaused.mpr ?_))
  cases paused : pausedIn w queue with
  | true => exact wp_pure.mpr fun _ => passes fun looks => by simp [LooksAt, paused] at looks
  | false =>
    refine wp_bind.mpr (wp.refine refines (wp_isRateLimited.mpr ?_))
    cases limited : limitedIn w queue w.clock with
    | true => exact wp_pure.mpr fun _ => passes fun looks => by simp [LooksAt, limited] at looks
    | false =>
      have looks : LooksAt w queue (count - jobs.length) := ⟨by omega, paused, limited⟩
      refine wp_bind.mpr ((wp_fetchMessages_rationed lib workerID visibilityTimeoutMs
        _ sound).mono ?_)
      rintro _ v ⟨n, le, ok, rfl, start, stream⟩
      have nodup : (handedIDs w queue n).Nodup := nodup_delivered _ n sound.single
      refine wp.refine refines ((wp_fetchJobs sound nodup start).mono ?_)
      rintro _ t ⟨rfl, turn, same⟩
      exact takes looks n le ok t turn (same.trans stream)

/-! ## The whole fetch -/

/-- What a fetch has handed out since `w`, and what it has left alone. -/
structure HandsOut (lib : Externals) (queues : List String) (workerID : String)
    (jobs : List Job) (w t : World) : Prop where
  distinct : (jobs.map Job.id).Nodup
  before : ∀ job ∈ jobs, ∃ rec, (w.slot job.id).record = some rec ∧ rec.state = .available ∧
    isExpired lib (unmarshalJobState rec) w.clock = false ∧ rec.queue ∈ queues ∧
    pausedIn w rec.queue = false ∧ job = claimedJob lib w.clock (unmarshalJobState rec)
  after : ∀ job ∈ jobs, job.state = .active ∧
    (t.slot job.id).record = some (marshalJobState job) ∧
    ∃ info, (t.slot job.id).active = some info ∧ info.workerID = workerID
  others : ∀ j, j ∉ jobs.map Job.id → (t.slot j).record = (w.slot j).record ∨
    ∃ rec, (w.slot j).record = some rec ∧ isExpired lib (unmarshalJobState rec) w.clock = true ∧
      (t.slot j).record = some (marshalJobState { unmarshalJobState rec with state := .discarded })

theorem HandsOut.nothing {queues : List String} : HandsOut lib queues workerID [] w w :=
  ⟨List.nodup_nil, by simp, by simp, fun _ _ => .inl rfl⟩

theorem claimIn_eq_some (sound : Sound w) {job : Job} (claims : claimIn lib w j = some job) :
    job.id = j ∧ ∃ rec, (w.slot j).record = some rec ∧
      isExpired lib (unmarshalJobState rec) w.clock = false ∧ rec.state = .available ∧
      job = claimedJob lib w.clock (unmarshalJobState rec) := by
  obtain ⟨rec, stored, fresh, available, rfl⟩ := claimOf_eq_some.mp claims
  exact ⟨(sound.placed j).keyed rec stored, rec, stored, fresh, available, rfl⟩

theorem ids_claims (lib : Externals) (sound : Sound w) (ids : List String) :
    ((ids.filterMap (claimIn lib w)).map Job.id).Sublist ids := by
  induction ids with
  | nil => exact .slnil
  | cons j rest ih =>
    cases claims : claimIn lib w j with
    | none =>
      rw [List.filterMap_cons_none claims]
      exact ih.cons j
    | some job =>
      rw [List.filterMap_cons_some claims, List.map_cons, (claimIn_eq_some sound claims).1]
      exact ih.cons_cons j

theorem pausedIn_turn {visibilityTimeoutMs : Int} {ids : List String}
    (turn : Turn lib queue workerID visibilityTimeoutMs ids [] v t) (q : String) :
    pausedIn t q = pausedIn v q := by
  unfold pausedIn
  rw [turn.queues q]
  by_cases touched : q = queue ∧ (ids.any fun j => (claimIn lib v j).isSome) = true
  · rw [if_pos touched]
    cases v.value .queues q <;> rfl
  · rw [if_neg touched]

theorem HandsOut.turn {queues : List String} {jobs : List Job} {visibilityTimeoutMs : Int}
    {n : Nat} (handsOut : HandsOut lib queues workerID jobs w v) (sound : Sound v)
    (clock : v.clock = w.clock) (requested : queue ∈ queues) (open' : pausedIn w queue = false)
    (turn : Turn lib queue workerID visibilityTimeoutMs (handedIDs v queue n) [] v t) :
    HandsOut lib queues workerID
      (jobs ++ (handedIDs v queue n).filterMap (claimIn lib v)) w t := by
  -- a job returned earlier is active and has no message left
  have apart : ∀ job ∈ jobs, job.id ∉ handedIDs v queue n := by
    intro job mem handed
    obtain ⟨active, stored, -⟩ := handsOut.after job mem
    obtain ⟨msg, one, -⟩ := turn.dealt job.id handed
    have silent := ((sound.placed job.id).entries_active stored active).2.2.2
    simp [silent] at one
  have claimed {job : Job} (mem : job ∈ (handedIDs v queue n).filterMap (claimIn lib v)) :
      job.id ∈ handedIDs v queue n ∧ ∃ rec, (v.slot job.id).record = some rec ∧
        isExpired lib (unmarshalJobState rec) v.clock = false ∧ rec.state = .available ∧
        job = claimedJob lib v.clock (unmarshalJobState rec) := by
    obtain ⟨j, handed, claims⟩ := List.mem_filterMap.mp mem
    obtain ⟨rfl, found⟩ := claimIn_eq_some sound claims
    exact ⟨handed, found⟩
  refine ⟨?_, fun job mem => ?_, fun job mem => ?_, fun j out => ?_⟩
  · rw [List.map_append]
    have sub := ids_claims lib sound (handedIDs v queue n)
    refine List.nodup_append.mpr ⟨handsOut.distinct, sub.nodup (nodup_delivered _ n sound.single), ?_⟩
    rintro k earlier k' later rfl
    obtain ⟨job, mem, rfl⟩ := List.mem_map.mp earlier
    exact apart job mem (sub.subset later)
  · rcases List.mem_append.mp mem with earlier | later
    · exact handsOut.before job earlier
    · obtain ⟨handed, rec, stored, fresh, available, same⟩ := claimed later
      have queue_eq : rec.queue = queue := queue_of_delivered sound stored handed
      have unreturned : job.id ∉ jobs.map Job.id := by
        intro earlier
        obtain ⟨job', mem', ids⟩ := List.mem_map.mp earlier
        exact apart job' mem' (ids ▸ handed)
      rcases handsOut.others job.id unreturned with kept | ⟨rec', -, -, discarded⟩
      · refine ⟨rec, kept.symm.trans stored, available, clock ▸ fresh, queue_eq ▸ requested,
          queue_eq ▸ open', clock ▸ same⟩
      · rw [stored, Option.some.injEq] at discarded
        simp [discarded] at available
  · rcases List.mem_append.mp mem with earlier | later
    · rw [turn.others job.id (apart job earlier) (by simp)]
      exact handsOut.after job earlier
    · obtain ⟨handed, rec, stored, fresh, available, same⟩ := claimed later
      obtain ⟨msg, one, slot⟩ := turn.dealt job.id handed
      rw [slot, fetchedSlot_claimed stored fresh available, same]
      exact ⟨rfl, rfl, _, rfl, rfl⟩
  · rw [List.map_append, List.mem_append, not_or] at out
    by_cases handed : j ∈ handedIDs v queue n
    · obtain ⟨msg, one, slot⟩ := turn.dealt j handed
      have unclaimed : claimIn lib v j = none := by
        by_contra claims
        obtain ⟨job, claims⟩ := Option.ne_none_iff_exists'.mp claims
        have id := (claimIn_eq_some sound claims).1
        exact out.2 (List.mem_map.mpr ⟨job, List.mem_filterMap.mpr ⟨j, handed, claims⟩, id⟩)
      have kept : (v.slot j).record = (w.slot j).record := by
        rcases handsOut.others j out.1 with kept | ⟨rec, -, -, discarded⟩
        · exact kept
        · have silent := (sound.placed j).messages_nil discarded (by simp) (by simp)
          simp [silent] at one
      rw [slot, ← kept, ← clock]
      exact fetchedSlot_unclaimed unclaimed
    · rw [turn.others j handed (by simp)]
      exact handsOut.others j out.1

theorem wp_fetch_handsOut {queues : List String} {count visibilityTimeoutMs : Int}
    (sound : Sound w) : serves.wp (fetch lib queues count workerID visibilityTimeoutMs)
      (fun jobs t => jobs.length ≤ count.toNat ∧ HandsOut lib queues workerID jobs w t) w := by
  simp only [fetch, bind_eq, wp_bind, wp_timeNow]
  refine wp_forEach (fun rest jobs v => (∀ q ∈ rest, q ∈ queues) ∧ jobs.length ≤ count.toNat ∧
    (Sound v ∧ v.clock = w.clock ∧ ∀ q, pausedIn v q = pausedIn w q) ∧
    HandsOut lib queues workerID jobs w v)
    ⟨fun _ mem => mem, by simp, ⟨sound, rfl, fun _ => rfl⟩, .nothing⟩ ?_
    fun jobs t h => ⟨h.2.1, h.2.2.2⟩
  rintro queue rest jobs v ⟨requested, few, ⟨sound, clock, paused⟩, handsOut⟩
  have later : ∀ q ∈ rest, q ∈ queues := fun q mem => requested q (List.mem_cons_of_mem _ mem)
  refine wp.refine refines_rationed (wp_fetchQueue sound clock (fun _ => ?_) ?_)
  · exact ⟨later, few, ⟨sound, clock, paused⟩, handsOut⟩
  · intro looks n le _ t turn _ sound'
    have open' : pausedIn w queue = false := (paused queue).symm.trans looks.2.1
    refine ⟨later, ?_, ⟨sound', turn.clock.trans clock, fun q =>
      (pausedIn_turn turn q).trans (paused q)⟩,
      handsOut.turn sound clock (requested queue List.mem_cons_self) open' turn⟩
    have wanted := looks.1
    have sub := (ids_claims lib sound (handedIDs v queue n)).length_le
    have taken : (handedIDs v queue n).length ≤ n := by
      rw [handedIDs, List.length_map]
      exact deliver_length_le _ n v.stream
    rw [List.length_map] at sub
    rw [List.length_append]
    omega

/-- A fetch hands out available jobs of the open queues it was asked for, each once. -/
theorem fetch_handsOut {queues : List String} {count visibilityTimeoutMs : Int} {jobs : List Job}
    (reachable : Reachable lib w)
    (run : serves.Exec (fetch lib queues count workerID visibilityTimeoutMs) w jobs t) :
    jobs.length ≤ count.toNat ∧ HandsOut lib queues workerID jobs w t :=
  wp_fetch_handsOut reachable.sound jobs t run

theorem Run.reachable {trace : List Passage} (run : Run lib w trace t)
    (reachable : Reachable lib w) : Reachable lib t := by
  induction run with
  | nil => exact reachable
  | cons step _ ih => exact ih (reachable.step step)

/-- Play a run and fetch at its end. -/
def playFetch (cues : List Cue) (queues : List String) (count : Int) :
    Option (World × List Job × World) :=
  (play (World.start (Sample.instant 0)) cues).bind fun played =>
    (execute (fetch sample queues count "worker-1" 0) played.2).map fun ended => (played.2, ended)

theorem execute_of_playFetch {cues : List Cue} {queues : List String} {count : Int}
    {jobs : List Job} (plays : playFetch cues queues count = some (w, jobs, t)) :
    Reachable sample w ∧ execute (fetch sample queues count "worker-1" 0) w = some (jobs, t) := by
  obtain ⟨⟨trace, v⟩, played, ended⟩ := Option.bind_eq_some_iff.mp plays
  obtain ⟨⟨jobs', v'⟩, run, same⟩ := Option.map_eq_some_iff.mp ended
  cases same
  exact ⟨(run_of_play played).reachable (.start (by decide)), run⟩

def twoMails : List Cue :=
  [.call (.push { id := "job-1", queue := "mails" }),
    .call (.push { id := "job-2", queue := "mails" })]

theorem fetch_handsOut_twoMails : ∃ w jobs t,
    playFetch twoMails ["mails", "mails"] 1 = some (w, jobs, t) ∧
    jobs.map Job.id = ["job-1"] ∧ HandsOut sample ["mails", "mails"] "worker-1" jobs w t := by
  have plays : (playFetch twoMails ["mails", "mails"] 1).isSome := by decide
  obtain ⟨⟨w, jobs, t⟩, plays⟩ := Option.isSome_iff_exists.mp plays
  have ids : (playFetch twoMails ["mails", "mails"] 1).map (fun r => r.2.1.map Job.id) =
      some ["job-1"] := by decide
  rw [plays, Option.map_some, Option.some_inj] at ids
  obtain ⟨reachable, run⟩ := execute_of_playFetch plays
  exact ⟨w, jobs, t, plays, ids, (fetch_handsOut reachable (exec_of_execute run)).2⟩

end OjsNats.Lifecycle
