import OjsNats.Lifecycle.Evolution

/-!
# Fetch moves jobs

A fetch takes messages off the stream before it looks at their jobs.  In
between, the jobs in hand have left their place; each turn of the loop brings
one of them back by a claim, an expiry or a skip.
-/

namespace OjsNats.Lifecycle

open Core Nats Effect Semantics Program

variable {lib : Externals}

/-- The moves of a fetch. -/
def Claims : String → Move → Prop := fun _ m => m = .claim ∨ m = .expire ∨ m = .skip

/-- The moves of a fetch that returns the given jobs. -/
def Takes (returned : List String) : String → Move → Prop := fun j m =>
  (m = .claim ∧ j ∈ returned) ∨ m = .expire ∨ m = .skip

theorem Takes.claims {returned : List String} (j : String) (m : Move) (h : Takes returned j m) :
    Claims j m := h.imp And.left id

theorem Takes.mono {returned more : List String} (sub : ∀ j ∈ returned, j ∈ more) (j : String)
    (m : Move) (h : Takes returned j m) : Takes more j m :=
  h.imp (fun claim => ⟨claim.1, sub j claim.2⟩) id

/-- Each of the jobs was available and is active now. -/
structure Returned (returned : List String) (w v : World) : Prop where
  nodup : returned.Nodup
  claimed : ∀ j ∈ returned,
    (w.slot j).state = some .available ∧ (v.slot j).state = some .active

/-- Between two turns: `ids` are in hand since `w`, the other jobs have moved,
and those claimed are to be returned. -/
structure Handed (lib : Externals) (returned ids : List String) (w v : World) : Prop
    extends Returned returned w v where
  clock : v.clock = w.clock
  used : v.used = w.used
  apart : ∀ j ∈ ids, j ∉ returned
  inHand : ids.Nodup
  waiting : ∀ j ∈ ids, ∃ msg, (w.slot j).messages = [msg] ∧
    v.slot j = { w.slot j with messages := [], inflight := some msg }
  moved : ∀ j, j ∉ ids → (w.slot j).Evolves lib w.clock j (Takes returned j) (v.slot j)
  known : ∀ j, (v.slot j).record ≠ none → (w.slot j).record ≠ none

theorem Handed.evolves {returned : List String} {w v : World} (h : Handed lib returned [] w v) :
    Evolves lib (Takes returned) w v where
  clock := h.clock
  used := fun _ mem => h.used ▸ mem
  slots := fun j => h.moved j (by simp)
  known := fun j born => .inl (h.known j born)

section Unannounced

variable {now : Int} {j : String} {s t : Slot}

/-- A fetch leaves a job without a message alone. -/
theorem Slot.Evolves.unannounced (h : s.Evolves lib now j (Claims j) t) (silent : s.messages = []) :
    t = s := by
  induction h with
  | refl => rfl
  | tail _ step ih =>
    subst ih
    obtain ⟨m, ok, step⟩ := step
    cases step with
    | claim _ one | expire _ one | skip _ one => simp [silent] at one
    | requeue kind => rcases kind with rfl | rfl <;> simp [Claims] at ok
    | enqueue | schedule | extend | complete | discard | retryLater | cancel | promoteScheduled
    | promoteRetry | revive | forget => simp [Claims] at ok

/-- A job that is available after a fetch has been available before it. -/
theorem Slot.Evolves.still_available (h : s.Evolves lib now j (Claims j) t)
    (available : t.state = some .available) : s.state = some .available := by
  induction h with
  | refl => exact available
  | tail _ step ih =>
    obtain ⟨m, ok, step⟩ := step
    cases step with
    | claim some one fresh state next => simp [Slot.state, next.state] at available
    | expire some one expired next => simp [Slot.state, next.state] at available
    | skip => exact ih available
    | requeue kind => rcases kind with rfl | rfl <;> simp [Claims] at ok
    | enqueue | schedule | extend | complete | discard | retryLater | cancel | promoteScheduled
    | promoteRetry | revive | forget => simp [Claims] at ok

end Unannounced

/-- A fetch from several queues returns what it claimed from each. -/
theorem Returned.append {first second : List String} {u w v : World} (sound : Sound w)
    (before : Returned first u w) (evolved : Evolves lib (Takes first) u w)
    (after : Returned second w v) (evolves : Evolves lib (Takes second) w v) :
    Returned (first ++ second) u v where
  nodup := by
    refine List.nodup_append.mpr ⟨before.nodup, after.nodup, ?_⟩
    rintro j mem k mem' rfl
    have active := (before.claimed j mem).2
    rw [(after.claimed j mem').1] at active
    cases active
  claimed := by
    intro j mem
    rcases List.mem_append.mp mem with early | late
    · obtain ⟨available, active⟩ := before.claimed j early
      obtain ⟨rec, stored, state⟩ : ∃ rec, (w.slot j).record = some rec ∧ rec.state = .active := by
        simpa [Slot.state] using active
      have silent := ((sound.placed j).entries_active stored state).2.2.2
      have same : v.slot j = w.slot j :=
        ((evolves.slots j).mono (Takes.claims j)).unannounced silent
      exact ⟨available, same ▸ active⟩
    · obtain ⟨available, active⟩ := after.claimed j late
      exact ⟨((evolved.slots j).mono (Takes.claims j)).still_available available, active⟩

/-! ## Pulling messages -/

/-- Note each message in the in-flight map. -/
def trackAll (w : World) : List Msg → World
  | [] => w
  | m :: rest => trackAll (w.track m.data (some m)) rest

@[simp] theorem trackAll_clock (w : World) (msgs : List Msg) :
    (trackAll w msgs).clock = w.clock := by
  induction msgs generalizing w with
  | nil => rfl
  | cons m rest ih => exact ih _

@[simp] theorem trackAll_used (w : World) (msgs : List Msg) :
    (trackAll w msgs).used = w.used := by
  induction msgs generalizing w with
  | nil => rfl
  | cons m rest ih => exact ih _

theorem slot_trackAll_of_not_mem {w : World} {msgs : List Msg} {j : String}
    (h : j ∉ msgs.map Msg.data) : (trackAll w msgs).slot j = w.slot j := by
  induction msgs generalizing w with
  | nil => rfl
  | cons m rest ih =>
    simp only [List.map_cons, List.mem_cons, not_or] at h
    rw [trackAll, ih h.2]
    simp [h.1]

theorem slot_trackAll_of_mem {w : World} {msgs : List Msg} {m : Msg} (mem : m ∈ msgs)
    (nodup : (msgs.map Msg.data).Nodup) :
    (trackAll w msgs).slot m.data = { w.slot m.data with inflight := some m } := by
  induction msgs generalizing w with
  | nil => cases mem
  | cons first rest ih =>
    rw [List.map_cons, List.nodup_cons] at nodup
    rw [trackAll]
    rcases List.mem_cons.mp mem with rfl | later
    · rw [slot_trackAll_of_not_mem nodup.1]
      simp
    · have ne : m.data ≠ first.data := by
        intro same
        exact nodup.1 (same ▸ List.mem_map_of_mem later)
      rw [ih later nodup.2]
      simp [ne]

theorem wp_trackAll {w : World} {msgs : List Msg} {acc : List String}
    {Q : List String → World → Prop} (named : ∀ m ∈ msgs, m.data ≠ "")
    (h : Q (acc ++ msgs.map Msg.data) (trackAll w msgs)) :
    serves.wp (Program.forEach msgs acc trackMessage) Q w := by
  induction msgs generalizing w acc with
  | nil => exact wp_pure.mpr (by simpa [trackAll] using h)
  | cons m rest ih =>
    refine wp_bind.mpr ?_
    rw [trackMessage, if_neg (named m (by simp))]
    refine wp_bind.mpr (wp_ask.mpr ?_)
    rintro r t rfl
    refine wp_pure.mpr (ih (fun m' mem => named m' (by simp [mem])) ?_)
    simpa [trackAll, World.track] using h

theorem deliver_split (w : World) (subject : String) (n : Nat) (j : String) :
    ((deliver subject n w.stream).1.filter (fun m => m.data = j) ++
      (deliver subject n w.stream).2.filter (fun m => m.data = j)).Perm (w.slot j).messages := by
  rw [← List.filter_append]
  exact (deliver_perm subject n w.stream).filter _

/-- No job has more than one undelivered message. -/
def Single (w : World) : Prop := ∀ j, (w.slot j).messages = [] ∨ ∃ m, (w.slot j).messages = [m]

theorem Sound.single {w : World} (sound : Sound w) : Single w := by
  intro j
  rcases (sound.placed j).announced with silent | ⟨m, rec, one, -⟩
  · exact .inl silent
  · exact .inr ⟨m, one⟩

/-- A job's only message is handed out or stays. -/
theorem deliver_messages {w : World} (subject : String) (n : Nat) (j : String)
    (single : Single w) :
    (∃ m ∈ (deliver subject n w.stream).1, m.data = j ∧ (w.slot j).messages = [m] ∧
      (deliver subject n w.stream).2.filter (fun m => m.data = j) = []) ∨
    (j ∉ (deliver subject n w.stream).1.map Msg.data ∧
      (deliver subject n w.stream).2.filter (fun m => m.data = j) = (w.slot j).messages) := by
  have split := deliver_split w subject n j
  have absent (none : (deliver subject n w.stream).1.filter (fun m => m.data = j) = []) :
      j ∉ (deliver subject n w.stream).1.map Msg.data := by
    rintro mem
    obtain ⟨m, taken, rfl⟩ := List.mem_map.mp mem
    simpa using List.filter_eq_nil_iff.mp none m taken
  rcases single j with silent | ⟨m, one⟩
  · have nil := List.append_eq_nil_iff.mp (List.perm_nil.mp (silent ▸ split))
    exact .inr ⟨absent nil.1, nil.2.trans silent.symm⟩
  · have only := List.perm_singleton.mp (one ▸ split)
    rcases List.append_eq_singleton_iff.mp only with ⟨none, left⟩ | ⟨taken, none⟩
    · exact .inr ⟨absent none, left.trans one.symm⟩
    · have mem : m ∈ (deliver subject n w.stream).1.filter (fun m => m.data = j) := by
        simp [taken]
      rw [List.mem_filter, decide_eq_true_iff] at mem
      exact .inl ⟨m, mem.1, mem.2, one, none⟩

theorem nodup_of_filter_length {msgs : List Msg}
    (h : ∀ j, (msgs.filter fun m => m.data = j).length ≤ 1) : (msgs.map Msg.data).Nodup := by
  induction msgs with
  | nil => exact List.nodup_nil
  | cons m rest ih =>
    rw [List.map_cons, List.nodup_cons]
    refine ⟨fun mem => ?_, ih fun j => ?_⟩
    · obtain ⟨m', mem', same⟩ := List.mem_map.mp mem
      have twice : m' ∈ rest.filter fun x => x.data = m.data :=
        List.mem_filter.mpr ⟨mem', by simpa using same⟩
      have := h m.data
      rw [List.filter_cons_of_pos (by simp), List.length_cons] at this
      have := List.length_pos_of_mem twice
      omega
    · have := h j
      rw [List.filter_cons] at this
      split at this
      · rw [List.length_cons] at this
        omega
      · exact this

/-- The world after `n` messages of a subject were handed out and tracked. -/
def pulled (w : World) (subject : String) (n : Nat) : World :=
  trackAll { w with stream := (deliver subject n w.stream).2 } (deliver subject n w.stream).1

/-- Each job's message is handed out once. -/
theorem nodup_delivered {w : World} (subject : String) (n : Nat) (single : Single w) :
    ((deliver subject n w.stream).1.map Msg.data).Nodup := by
  refine nodup_of_filter_length fun j => ?_
  have total := (deliver_split w subject n j).length_eq
  rw [List.length_append] at total
  rcases single j with silent | ⟨m, one⟩
  · rw [silent, List.length_nil] at total
    omega
  · rw [one, List.length_singleton] at total
    omega

/-- A job whose message is handed out is in hand, the others are as before. -/
theorem slot_pulled {w : World} (subject : String) (n : Nat) (j : String) (single : Single w) :
    (∃ msg, j ∈ (deliver subject n w.stream).1.map Msg.data ∧ (w.slot j).messages = [msg] ∧
      (pulled w subject n).slot j = { w.slot j with messages := [], inflight := some msg }) ∨
    (j ∉ (deliver subject n w.stream).1.map Msg.data ∧
      (pulled w subject n).slot j = w.slot j) := by
  rcases deliver_messages subject n j single with ⟨m, mem, rfl, one, none⟩ | ⟨absent, left⟩
  · refine .inl ⟨m, List.mem_map_of_mem mem, one, ?_⟩
    rw [pulled, slot_trackAll_of_mem mem (nodup_delivered subject n single)]
    simp [World.slot, World.value, none]
  · refine .inr ⟨absent, ?_⟩
    rw [pulled, slot_trackAll_of_not_mem absent]
    exact Slot.ext rfl rfl rfl rfl rfl rfl left

theorem handed_pulled {w : World} (subject : String) (n : Nat) (sound : Sound w) :
    Handed lib [] ((deliver subject n w.stream).1.map Msg.data) w (pulled w subject n) := by
  refine ⟨⟨List.nodup_nil, by simp⟩, by simp [pulled], by simp [pulled], by simp,
    nodup_delivered subject n sound.single, fun j mem => ?_, fun j absent => ?_, fun j born => ?_⟩
  · rcases slot_pulled subject n j sound.single with ⟨msg, -, one, slot⟩ | ⟨absent, -⟩
    · exact ⟨msg, one, slot⟩
    · exact absurd mem absent
  · rcases slot_pulled subject n j sound.single with ⟨msg, mem, -⟩ | ⟨-, slot⟩
    · exact absurd mem absent
    · exact slot ▸ Relation.ReflTransGen.refl
  · rcases slot_pulled subject n j sound.single with ⟨msg, -, -, slot⟩ | ⟨-, slot⟩
    · simpa [slot] using born
    · exact slot ▸ born

/-- A message that is handed out carries the id of a job of the queue. -/
theorem queue_of_delivered {w : World} {queue : String} {n : Nat} {j : String} {rec : JobState}
    (sound : Sound w) (stored : (w.slot j).record = some rec)
    (mem : j ∈ (deliver (queueJobsSubject queue) n w.stream).1.map Msg.data) : rec.queue = queue := by
  obtain ⟨m, taken, rfl⟩ := List.mem_map.mp mem
  have waiting : m ∈ (w.slot m.data).messages :=
    (deliver_split w (queueJobsSubject queue) n m.data).subset
      (List.mem_append_left _ (by simpa using taken))
  rcases (sound.placed m.data).announced with silent | ⟨m', rec', one, stored', subject, -⟩
  · simp [silent] at waiting
  · cases stored.symm.trans stored'
    rw [one, List.mem_singleton] at waiting
    rw [← waiting, deliver_subject taken] at subject
    exact (queueJobsSubject_injective subject).symm

/-- `FetchMessages` takes messages of the queue in hand, or nothing happens. -/
theorem wp_fetchMessages (lib : Externals) {w : World} {queue : String} {count : Nat} (sound : Sound w)
    {Q : Except CallError (List String) → World → Prop}
    (failed : ∀ e t, SameBoard w t → Q (.error e) t)
    (ok : ∀ ids v t, SameBoard w v → Handed lib [] ids v t →
      (∀ j ∈ ids, ∀ rec, (v.slot j).record = some rec → rec.queue = queue) → Q (.ok ids) t) :
    serves.wp (fetchMessages queue count) Q w := by
  refine wp_bind.mpr (wp_sideline (sideline_getConsumer queue) fun r v same => ?_)
  cases r with
  | error e => exact wp_pure.mpr (failed e v same)
  | ok _ =>
    have sound' : Sound v := same.sound sound
    refine wp_bind.mpr (wp_ask.mpr ?_)
    rintro r t ⟨n, -, rfl, rfl⟩
    have handed : Handed lib [] _ v (pulled v (queueJobsSubject queue) n) :=
      handed_pulled (queueJobsSubject queue) n sound'
    refine wp_bind.mpr (wp_trackAll (fun m mem => ?_) ?_)
    · obtain ⟨msg, one, -⟩ := handed.waiting m.data (List.mem_map_of_mem mem)
      rcases (sound'.placed m.data).announced with silent | ⟨-, rec, -, h, -⟩
      · simp [silent] at one
      · exact (sound'.known m.data (by simp [h])).2
    · exact wp_pure.mpr (ok _ v _ same handed fun j mem rec stored =>
        queue_of_delivered sound' stored mem)

/-! ## Deciding on a job in hand -/

/-- A turn that moves the job in hand and leaves the others alone; a claimed job
is one more to return. -/
theorem Handed.turn {w v t : World} {j : String} {returned more ids : List String} {m : Move}
    (h : Handed lib returned (j :: ids) w v) (ok : Takes (returned ++ more) j m)
    (claimed : ∀ k ∈ more, k = j ∧
      (w.slot j).state = some .available ∧ (t.slot j).state = some .active)
    (once : more.Nodup) (step : Slot.Step lib w.clock j m (w.slot j) (t.slot j))
    (others : ∀ k, k ≠ j → t.slot k = v.slot k) (clock : t.clock = v.clock)
    (used : t.used = v.used) : Handed lib (returned ++ more) ids w t where
  nodup := by
    refine List.nodup_append.mpr ⟨h.nodup, once, ?_⟩
    rintro k mem k' mem' rfl
    obtain ⟨rfl, -⟩ := claimed k mem'
    exact h.apart k (by simp) mem
  claimed := by
    intro k mem
    rcases List.mem_append.mp mem with old | new
    · have ne : k ≠ j := by
        rintro rfl
        exact h.apart k (by simp) old
      rw [others k ne]
      exact h.claimed k old
    · obtain ⟨rfl, states⟩ := claimed k new
      exact states
  clock := clock.trans h.clock
  used := used.trans h.used
  apart := by
    intro k mem returned
    rcases List.mem_append.mp returned with old | new
    · exact h.apart k (by simp [mem]) old
    · obtain ⟨rfl, -⟩ := claimed k new
      exact (List.nodup_cons.mp h.inHand).1 mem
  inHand := (List.nodup_cons.mp h.inHand).2
  waiting := by
    intro k mem
    have ne : k ≠ j := by
      rintro rfl
      exact (List.nodup_cons.mp h.inHand).1 mem
    rw [others k ne]
    exact h.waiting k (by simp [mem])
  moved := by
    intro k absent
    by_cases same : k = j
    · subst same
      exact Relation.ReflTransGen.single ⟨m, ok, step⟩
    · rw [others k same]
      exact (h.moved k (by simp [same, absent])).mono (Takes.mono (fun _ => by simp +contextual) k)
  known := by
    intro k born
    by_cases same : k = j
    · subst same
      rcases step.born born with before | ⟨rec, rfl | rfl⟩
      · exact before
      · simp [Takes] at ok
      · simp [Takes] at ok
    · exact h.known k (others k same ▸ born)

/-- The ids of jobs. -/
def idsOf (jobs : List Job) : List String := jobs.map Job.id

theorem fetchJob_handed {w v : World} {j : String} {returned ids : List String}
    (queue workerID : String) (visibilityTimeoutMs : Int) (jobs : List Job) (sound : Sound w)
    (h : Handed lib returned (j :: ids) w v) :
    serves.wp (fetchJob lib queue workerID visibilityTimeoutMs w.clock j jobs)
      (fun jobs' t => ∃ more, jobs' = jobs ++ more ∧ Handed lib (returned ++ idsOf more) ids w t)
      v := by
  obtain ⟨msg, one, slot⟩ := h.waiting j (by simp)
  obtain ⟨rec, stored⟩ : ∃ rec, (w.slot j).record = some rec := by
    rcases (sound.placed j).announced with silent | ⟨-, rec, -, stored, -⟩
    · simp [silent] at one
    · exact ⟨rec, stored⟩
  have id : rec.id = j := (sound.placed j).keyed rec stored
  have stored' : (v.slot j).record = some rec := by rw [slot]; exact stored
  simp only [fetchJob, bind_eq, wp_bind, wp_getJobState, World.job_of_record stored']
  cases expired : isExpired lib (unmarshalJobState rec) w.clock with
  | true =>
    simp only [↓reduceIte, wp_bind, wp_putJobState, wp_ackMessage, pure_eq, wp_pure]
    refine ⟨[], (List.append_nil jobs).symm, h.turn (.inr (.inl rfl)) (by simp [idsOf])
      List.nodup_nil ?_ (fun k ne => ?_) rfl rfl⟩
    · have next : Becomes .discarded rec
          (marshalJobState { unmarshalJobState rec with state := .discarded }) :=
        ⟨rfl, rfl, rfl, rfl⟩
      simpa [id, Slot.write, slot] using Slot.Step.expire stored one expired next ⟨rfl, rfl, rfl⟩
    · simp [id, ne]
  | false =>
    by_cases available : rec.state = .available
    · simp only [Bool.false_eq_true, unmarshalJobState_state, available, ne_eq, not_true_eq_false,
        ↓reduceIte, wp_bind, wp_put, wp_putJobState]
      refine wp_sideline (sideline_recordFetchTime queue _) fun _ t same => wp_pure.mpr ?_
      have step : Slot.Step lib w.clock j .claim (w.slot j) (t.slot j) := by
        have next : Becomes .active rec
            (marshalJobState (claimedJob lib w.clock (unmarshalJobState rec))) :=
          ⟨rfl, rfl, rfl, rfl⟩
        have deadline (era : InEra w.clock) : (lib.parseTime (activeInfo lib queue workerID w.clock
            (effectiveVisTimeout lib visibilityTimeoutMs
              (unmarshalJobState rec))).visibilityDeadline).isSome :=
          lib.parseTime_isSome era (isDuration_millisToDuration _)
        rw [same.slots]
        simpa [id, Slot.write, slot] using
          Slot.Step.claim stored one expired available next deadline ⟨rfl, rfl, rfl⟩
      have active : (t.slot j).state = some .active := by
        rw [same.slots]
        simp [id, Slot.write, Slot.state, claimedJob]
      refine ⟨[claimedJob lib w.clock (unmarshalJobState rec)], rfl,
        h.turn (.inl ⟨rfl, by simp [idsOf, id]⟩) ?_ (by simp [idsOf]) step (fun k ne => ?_)
          same.clock same.used⟩
      · intro k mem
        obtain rfl : k = j := by simpa [idsOf, id] using mem
        exact ⟨rfl, by rw [Slot.state_of_record stored, available], active⟩
      · simp [same.slots, id, ne]
    · simp only [Bool.false_eq_true, unmarshalJobState_state, ne_eq, available, not_false_eq_true,
        ↓reduceIte, wp_bind, wp_ackMessage, pure_eq, wp_pure]
      refine ⟨[], (List.append_nil jobs).symm, h.turn (.inr (.inr rfl)) (by simp [idsOf])
        List.nodup_nil ?_ (fun k ne => ?_) rfl rfl⟩
      · simpa [slot] using Slot.Step.skip stored one expired available
      · simp [ne]

/-- The jobs returned so far were claimed since `w`. -/
structure Fetched (lib : Externals) (jobs : List Job) (w v : World) : Prop
    extends Returned (idsOf jobs) w v where
  evolves : Evolves lib (Takes (idsOf jobs)) w v

theorem Fetched.append {jobs more : List Job} {u w v : World} (sound : Sound w)
    (before : Fetched lib jobs u w) (after : Fetched lib more w v) :
    Fetched lib (jobs ++ more) u v := by
  have ids : idsOf (jobs ++ more) = idsOf jobs ++ idsOf more := List.map_append
  refine ⟨?_, ?_⟩
  · rw [ids]
    exact before.toReturned.append sound before.evolves after.toReturned after.evolves
  · rw [ids]
    exact (before.evolves.mono (Takes.mono fun _ => by simp +contextual)).trans
      (after.evolves.mono (Takes.mono fun _ => by simp +contextual))

theorem Fetched.of_same {w v : World} (same : SameBoard w v) : Fetched lib [] w v where
  nodup := List.nodup_nil
  claimed := by simp [idsOf]
  evolves := same.evolves

theorem fetchQueue_fetched {w : World} (count : Int) (workerID : String)
    (visibilityTimeoutMs : Int) (queue : String) (jobs : List Job) (sound : Sound w) :
    serves.wp (fetchQueue lib count workerID visibilityTimeoutMs w.clock queue jobs)
      (fun jobs' t => ∃ more, jobs' = jobs ++ more ∧ Fetched lib more w t) w := by
  have nothing {v : World} (same : SameBoard w v) :
      ∃ more, jobs = jobs ++ more ∧ Fetched lib more w v :=
    ⟨[], (List.append_nil jobs).symm, .of_same same⟩
  unfold fetchQueue
  split
  · exact wp_pure.mpr (nothing (SameBoard.refl w))
  · refine wp_bind.mpr (wp_sideline (sideline_isQueuePaused queue) fun paused a same => ?_)
    cases paused with
    | true => exact wp_pure.mpr (nothing same)
    | false =>
      refine wp_bind.mpr (wp_sideline (sideline_isRateLimited queue _) fun limited b same' => ?_)
      cases limited with
      | true => exact wp_pure.mpr (nothing (same.trans same'))
      | false =>
        have same := same.trans same'
        refine wp_bind.mpr (wp_fetchMessages lib (same.sound sound) (fun e t same' => ?_)
          fun ids v t same' handed _ => ?_)
        · exact wp_pure.mpr (nothing (same.trans same'))
        · have same := same.trans same'
          have sound' : Sound v := same.sound sound
          rw [← same.clock]
          refine wp_forEach (fun ids jobs' t => ∃ more, jobs' = jobs ++ more ∧
            Handed lib (idsOf more) ids v t) ⟨[], (List.append_nil jobs).symm, handed⟩ ?_ ?_
          · rintro j rest _ m ⟨more, rfl, h⟩
            refine (fetchJob_handed queue workerID visibilityTimeoutMs _ sound' h).mono ?_
            rintro _ t ⟨new, rfl, h'⟩
            refine ⟨more ++ new, List.append_assoc _ _ _, ?_⟩
            simpa [idsOf] using h'
          · rintro _ t ⟨more, rfl, h⟩
            refine ⟨more, rfl, ?_⟩
            have here : Fetched lib more v t := ⟨h.toReturned, h.evolves⟩
            simpa using (Fetched.of_same same).append sound' here

/-- A fetch returns the jobs it claimed, each once. -/
theorem fetch_fetched {w : World} (queues : List String) (count : Int) (workerID : String)
    (visibilityTimeoutMs : Int) (sound : Sound w) :
    serves.wp (fetch lib queues count workerID visibilityTimeoutMs)
      (fun jobs t => Fetched lib jobs w t) w := by
  simp only [fetch, bind_eq, wp_bind, wp_timeNow]
  refine wp_forEach (fun _ jobs t => Fetched lib jobs w t) (.of_same (SameBoard.refl w)) ?_
    fun _ _ h => h
  intro queue _ jobs v h
  have sound' : Sound v := h.evolves.sound sound
  rw [← h.evolves.clock]
  refine (fetchQueue_fetched count workerID visibilityTimeoutMs queue jobs sound').mono ?_
  rintro _ t ⟨more, rfl, here⟩
  exact h.append sound' here

theorem fetch_advances (queues : List String) (count : Int) (workerID : String)
    (visibilityTimeoutMs : Int) :
    Advances lib Claims (fetch lib queues count workerID visibilityTimeoutMs) :=
  fun _ sound => (fetch_fetched queues count workerID visibilityTimeoutMs sound).mono
    fun _ _ h => h.evolves.mono Takes.claims

end OjsNats.Lifecycle
