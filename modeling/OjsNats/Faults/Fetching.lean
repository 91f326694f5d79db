import OjsNats.Faults.Recovery

/-!
# Fetching when calls fail

`Fetch` takes messages first and looks at their jobs afterwards.  A message that
was taken is never delivered again, so the job depends on what becomes of the
reading of its record and of the two writes that follow.
-/

namespace OjsNats.Faults

open Core Nats Effect Semantics Program Lifecycle

variable {lib : Externals} {w m t : World} {log failed : List Op} {j k : String} {s s' : Slot}

/-- When this call fails, a fetch loses the job. -/
def Drops (j : String) : Op → Prop
  | .get .jobs k => k = j
  | .put .active k _ => k = j
  | .put .jobs k _ => k = j
  | _ => False

/-- Some call failed that loses the job. -/
def Dropped (j : String) (failed : List Op) : Prop := ∃ op ∈ failed, Drops j op

theorem dropped_append {more : List Op} :
    Dropped j (failed ++ more) ↔ Dropped j failed ∨ Dropped j more := by
  simp only [Dropped, List.mem_append, or_and_right, exists_or]

theorem not_dropped_nil : ¬ Dropped j [] := by
  rintro ⟨op, mem, -⟩
  cases mem

theorem harmless_single {op : Op} (h : ∀ i, ¬ Drops i op) (i : String) : ¬ Dropped i [op] := by
  rintro ⟨op', mem, drops⟩
  rw [List.mem_singleton.mp mem] at drops
  exact h i drops

/-- What is kept beside the jobs may fail without losing one. -/
theorem wp_sideline {α : Type} {p : Prog α} (uses : p.Uses Sideline)
    {Q : α → World × List Op → Prop}
    (h : ∀ a u quiet, SameBoard w u → (∀ i, ¬ Dropped i quiet) → Q a (u, log ++ quiet)) :
    faulty.wp p Q (w, log) := by
  refine wp_auxiliary uses (fun _ => Sideline.auxiliary) fun a u quiet same all =>
    h a u quiet same ?_
  rintro i ⟨op, mem, drops⟩
  have aside := all op mem
  cases op with
  | get b | put b =>
    cases b with
    | jobs | active => cases aside
    | _ => exact drops
  | _ => exact drops

/-! ## A job in hand -/

/-- What one turn of the loop has made of a job: the calls that failed, the jobs
it returns, and the slot. -/
structure Treated (k : String) (s : Slot) (failed : List Op) (more : List Job) (s' : Slot) :
    Prop where
  messages : s'.messages = s.messages
  own : ∀ job ∈ more, job.id = k
  ids : ∀ rec, s'.record = some rec → rec.id = k
  others : ∀ i, i ≠ k → ¬ Dropped i failed
  fate : s.state = some .available →
    (Dropped k failed ∧ more = [] ∧ s'.state = some .available) ∨
      (¬ Dropped k failed ∧ (more ≠ [] ∨ s'.state = some .discarded))

/-- A turn that leaves the other slots alone. -/
def TurnOf (k : String) (m : World) (log : List Op) (jobs jobs' : List Job)
    (u : World × List Op) : Prop :=
  ∃ failed more, u.2 = log ++ failed ∧ jobs' = jobs ++ more ∧
    Treated k (m.slot k) failed more (u.1.slot k) ∧
    (∀ i, i ≠ k → u.1.slot i = m.slot i) ∧ u.1.clock = m.clock

theorem Treated.settled {more : List Job} (treated : Treated k s failed more s')
    (inflight : Option Msg) : Treated k s failed more { s' with inflight := inflight } :=
  ⟨treated.messages, treated.own, treated.ids, treated.others, treated.fate⟩

/-- A call that loses no job may fail as well. -/
theorem Treated.beside {more : List Job} {quiet : List Op} (treated : Treated k s failed more s')
    (harmless : ∀ i, ¬ Dropped i quiet) : Treated k s (failed ++ quiet) more s' where
  messages := treated.messages
  own := treated.own
  ids := treated.ids
  others := fun i other dropped =>
    (dropped_append.mp dropped).elim (treated.others i other) (harmless i)
  fate := fun available => (treated.fate available).imp
    (And.imp_left fun dropped => dropped_append.mpr (.inl dropped))
    (And.imp_left fun kept dropped => (dropped_append.mp dropped).elim kept (harmless k))

theorem TurnOf.of_moved {more : List Job} {u : World} {jobs jobs' : List Job} {log' : List Op}
    (moved : Moved k s m u) (treated : Treated k (m.slot k) failed more s)
    (whole : log' = log ++ failed) (returns : jobs' = jobs ++ more) :
    TurnOf k m log jobs jobs' (u, log') :=
  ⟨failed, more, whole, returns, moved.slot ▸ treated, moved.others, moved.clock⟩

/-- Calls that lose no job and leave the board alone may follow, and may fail. -/
theorem TurnOf.beside {u v : World} {jobs jobs' : List Job} {log' quiet : List Op}
    (turn : TurnOf k m log jobs jobs' (u, log')) (same : SameBoard u v)
    (harmless : ∀ i, ¬ Dropped i quiet) : TurnOf k m log jobs jobs' (v, log' ++ quiet) := by
  obtain ⟨failed, more, whole, returns, treated, others, clock⟩ := turn
  refine ⟨failed ++ quiet, more, ?_, returns, ?_, fun i other => ?_, same.clock.trans clock⟩
  · dsimp only at whole ⊢
    rw [whole, List.append_assoc]
  · rw [same.slots]
    exact treated.beside harmless
  · exact (same.slots i).trans (others i other)

/-- The turn ends with the acknowledgement of the message. -/
theorem turnOf_ack {u : World} {jobs : List Job} {log' : List Op} (moved : Moved k s m u)
    (treated : Treated k (m.slot k) failed [] s) (whole : log' = log ++ failed) :
    faulty.wp ((ackMessage k).bind fun _ => .pure jobs)
      (fun jobs' u => TurnOf k m log jobs jobs' u) (u, log') := by
  have released := moved.track none
  have none : jobs = jobs ++ [] := (List.append_nil jobs).symm
  refine wp_bind.mpr (wp_ackMessage (wp_pure.mpr ?_) fun msg held => wp_pure.mpr ?_)
  · exact .of_moved released (treated.settled _) whole none
  · have whole' : log' ++ [.msgAck msg] = log ++ (failed ++ [.msgAck msg]) := by
      rw [whole, List.append_assoc]
    exact .of_moved released ((treated.settled _).beside (harmless_single fun _ => id)) whole' none

/-- A call about the job has failed that loses it, and its record is as before. -/
theorem Treated.lost {op : Op} (own : ∀ rec, s.record = some rec → rec.id = k)
    (about : ∀ i, Drops i op ↔ i = k) (messages : s'.messages = s.messages)
    (record : s'.record = s.record) : Treated k s [op] [] s' where
  messages := messages
  own := by simp
  ids := fun rec stored => own rec (record.symm.trans stored)
  others := by
    rintro i other ⟨op', mem, drops⟩
    rw [List.mem_singleton.mp mem] at drops
    exact other ((about i).mp drops)
  fate := fun available => by
    refine .inl ⟨⟨op, List.mem_singleton_self op, (about k).mpr rfl⟩, rfl, ?_⟩
    rwa [Slot.state, record]

/-- Nothing has failed, and the job is returned, discarded, or was not available. -/
theorem Treated.served {more : List Job} (own : ∀ rec, s'.record = some rec → rec.id = k)
    (named : ∀ job ∈ more, job.id = k) (messages : s'.messages = s.messages)
    (fate : s.state = some .available → more ≠ [] ∨ s'.state = some .discarded) :
    Treated k s [] more s' where
  messages := messages
  own := named
  ids := own
  others := fun _ _ => not_dropped_nil
  fate := fun available => .inr ⟨not_dropped_nil, fate available⟩

theorem turnOf_fetchJob (own : UnderOwnIDs m) (queue workerID : String)
    (visibilityTimeoutMs now : Int) (jobs : List Job) :
    faulty.wp (fetchJob lib queue workerID visibilityTimeoutMs now k jobs)
      (fun jobs' u => TurnOf k m log jobs jobs' u) (m, log) := by
  have moved := Moved.refl k m
  have same : log = log ++ [] := (List.append_nil log).symm
  have idle (away : (m.slot k).state ≠ some .available) :
      Treated k (m.slot k) [] [] (m.slot k) :=
    .served (own k) (by simp) rfl fun available => absurd available away
  refine wp_bind.mpr (wp_getJobState ?_ (turnOf_ack moved ?_ rfl))
  · cases stored : (m.slot k).record with
    | none =>
      rw [World.job_of_none stored]
      exact turnOf_ack moved (idle (by simp [Slot.state, stored])) same
    | some rec =>
      obtain rfl : rec.id = k := own k rec stored
      rw [World.job_of_record stored]
      dsimp only
      split
      · have discarded := moved.put (b := .jobs) rfl
          (marshalJobState { unmarshalJobState rec with state := .discarded })
        refine wp_bind.mpr (wp_put.mpr ⟨turnOf_ack discarded ?_ same, turnOf_ack moved ?_ rfl⟩)
        · refine .served ?_ (by simp) rfl fun _ => .inr rfl
          rintro _ ⟨rfl⟩
          rfl
        · exact .lost (own rec.id) (fun i => eq_comm) rfl rfl
      · split
        · rename_i away
          exact turnOf_ack moved (idle (by simpa [Slot.state, stored] using away)) same
        · have leased := moved.put (b := .active) rfl (activeInfo lib queue workerID now
            (effectiveVisTimeout lib visibilityTimeoutMs (unmarshalJobState rec)))
          refine wp_bind.mpr (wp_put.mpr ⟨?_, turnOf_ack moved ?_ rfl⟩)
          · refine wp_bind.mpr (wp_put.mpr ⟨?_, ?_⟩)
            · have claimed := leased.put (b := .jobs) rfl
                (marshalJobState (claimedJob lib now (unmarshalJobState rec)))
              refine wp_bind.mpr (wp_sideline (sideline_recordFetchTime queue now)
                fun _ u quiet beside harmless => wp_pure.mpr ?_)
              refine .beside (.of_moved claimed (.served ?_ ?_ rfl fun _ => .inl ?_) same rfl)
                beside harmless
              · rintro _ ⟨rfl⟩
                rfl
              · simp
              · simp
            · -- the lease is taken back, if that succeeds
              have lost {s : Slot} (messages : s.messages = (m.slot rec.id).messages)
                  (record : s.record = (m.slot rec.id).record) :
                  Treated rec.id (m.slot rec.id) [.put .jobs rec.id (marshalJobState
                    (claimedJob lib now (unmarshalJobState rec)))] [] s :=
                .lost (own rec.id) (fun i => eq_comm) messages record
              have kept : ∀ i, ¬ Dropped i [.delete .active rec.id] := harmless_single fun _ => id
              refine wp_bind.mpr (wp_delete.mpr ⟨?_, ?_⟩)
              · exact turnOf_ack (leased.delete (b := .active) rfl) (lost rfl rfl) rfl
              · exact turnOf_ack leased (.beside (lost rfl rfl) kept) (List.append_assoc _ _ _)
          · exact .lost (own rec.id) (fun i => eq_comm) rfl rfl
  · exact .lost (own k) (fun i => eq_comm) rfl rfl

/-! ## Taking messages -/

/-- The jobs whose messages have just been taken, each once, and the others as before. -/
structure InHand (ids : List String) (w u : World) : Prop where
  distinct : ids.Nodup
  clock : u.clock = w.clock
  taken : ∀ i ∈ ids, ∃ msg, (w.slot i).messages = [msg] ∧
    u.slot i = { w.slot i with messages := [], inflight := some msg }
  left : ∀ i, i ∉ ids → u.slot i = w.slot i

theorem InHand.nothing {u : World} (same : SameBoard w u) : InHand [] w u :=
  ⟨List.nodup_nil, same.clock, by simp, fun i _ => same.slots i⟩

theorem InHand.after {ids : List String} {v u : World} (same : SameBoard w v)
    (hand : InHand ids v u) : InHand ids w u where
  distinct := hand.distinct
  clock := hand.clock.trans same.clock
  taken := fun i mem => by
    rw [← same.slots]
    exact hand.taken i mem
  left := fun i absent => (hand.left i absent).trans (same.slots i)

theorem InHand.pulled (subject : String) (n : Nat) (single : Single w) :
    InHand ((deliver subject n w.stream).1.map Msg.data) w (pulled w subject n) where
  distinct := nodup_delivered subject n single
  clock := by simp [Lifecycle.pulled]
  taken := by
    intro i mem
    rcases slot_pulled subject n i single with ⟨msg, -, one, slot⟩ | ⟨absent, -⟩
    · exact ⟨msg, one, slot⟩
    · exact absurd mem absent
  left := by
    intro i absent
    rcases slot_pulled subject n i single with ⟨msg, mem, -⟩ | ⟨-, slot⟩
    · exact absurd mem absent
    · exact slot

theorem wp_trackAll {msgs : List Msg} {acc : List String}
    {Q : List String → World × List Op → Prop} (named : ∀ msg ∈ msgs, msg.data ≠ "")
    (h : Q (acc ++ msgs.map Msg.data) (trackAll w msgs, log)) :
    faulty.wp (Program.forEach msgs acc trackMessage) Q (w, log) := by
  induction msgs generalizing w acc with
  | nil => exact wp_pure.mpr (by simpa [trackAll] using h)
  | cons msg rest ih =>
    refine wp_bind.mpr ?_
    rw [trackMessage, if_neg (named msg (by simp))]
    refine wp_bind.mpr (wp_ask_faulty.mpr ⟨wp_ask.mpr ?_, fun _ step => step.elim⟩)
    rintro r t rfl
    refine wp_pure.mpr (ih (fun msg' mem => named msg' (by simp [mem])) ?_)
    simpa [trackAll, World.track] using h

/-- `FetchMessages` takes messages in hand, and loses none of them itself. -/
theorem wp_fetchMessages {queue : String} {count : Nat}
    {Q : Except CallError (List String) → World × List Op → Prop} (single : Single w)
    (named : ∀ i, (w.slot i).messages ≠ [] → i ≠ "")
    (refused : ∀ e u quiet, SameBoard w u → (∀ i, ¬ Dropped i quiet) →
      Q (.error e) (u, log ++ quiet))
    (handed : ∀ ids u quiet, InHand ids w u → (∀ i, ¬ Dropped i quiet) →
      Q (.ok ids) (u, log ++ quiet)) :
    faulty.wp (fetchMessages queue count) Q (w, log) := by
  refine wp_bind.mpr (wp_sideline (sideline_getConsumer queue) fun r v quiet same harmless => ?_)
  cases r with
  | error e => exact wp_pure.mpr (refused e v quiet same harmless)
  | ok _ =>
    refine wp_bind.mpr (wp_ask_faulty.mpr ⟨wp_ask.mpr ?_, fun r failed => ?_⟩)
    · rintro r t ⟨n, -, rfl, rfl⟩
      have single' : Single v := fun i => by
        rw [same.slots]
        exact single i
      have hand := InHand.pulled (queueJobsSubject queue) n single'
      refine wp_bind.mpr (wp_trackAll (fun msg mem => ?_) ?_)
      · obtain ⟨msg', one, -⟩ := hand.taken msg.data (List.mem_map_of_mem mem)
        exact named msg.data (by simp [← same.slots, one])
      · exact wp_pure.mpr (handed _ _ quiet (hand.after same) harmless)
    · obtain ⟨rfl, -⟩ := failed
      refine wp_pure.mpr ?_
      rw [List.append_assoc]
      refine handed [] v _ (.nothing same) fun i dropped => ?_
      exact (dropped_append.mp dropped).elim (harmless i) (harmless_single (fun _ => id) i)

/-! ## The loop -/

/-- The job is among those returned. -/
def Returned (j : String) (jobs : List Job) : Prop := ∃ job ∈ jobs, job.id = j

/-- What has become of a job that was available when the fetch began: its message is still there,
or it is in hand, or it has been treated well, or a call has failed that loses it. -/
inductive Fate (j : String) (rest : List String) (jobs : List Job) (s : Slot) (log : List Op) :
    Prop
  | waiting : j ∉ rest → s.Back → ¬ Returned j jobs → ¬ Dropped j log → Fate j rest jobs s log
  | held : j ∈ rest → s.state = some .available → s.messages = [] → ¬ Returned j jobs →
      ¬ Dropped j log → Fate j rest jobs s log
  | kept : j ∉ rest → s.messages = [] → Returned j jobs ∨ s.state = some .discarded →
      ¬ Dropped j log → Fate j rest jobs s log
  | lost : j ∉ rest → s.state = some .available → s.messages = [] → ¬ Returned j jobs →
      Dropped j log → Fate j rest jobs s log

/-- Between two turns of a fetch, with the jobs of `rest` in hand. -/
structure Between (j : String) (rest : List String) (jobs : List Job) (v : World) (log : List Op) :
    Prop where
  own : UnderOwnIDs v
  single : Single v
  named : ∀ i, (v.slot i).messages ≠ [] → i ≠ ""
  distinct : rest.Nodup
  fate : Fate j rest jobs (v.slot j) log

theorem returned_append {jobs more : List Job} :
    Returned j (jobs ++ more) ↔ Returned j jobs ∨ Returned j more := by
  simp only [Returned, List.mem_append, or_and_right, exists_or]

/-- Where nothing has happened to the job its fate is the same. -/
theorem Fate.unchanged {rest rest' : List String} {jobs jobs' : List Job} {log' : List Op}
    (fate : Fate j rest jobs s log) (slot : s' = s) (hand : j ∈ rest' ↔ j ∈ rest)
    (among : Returned j jobs' ↔ Returned j jobs) (dropped : Dropped j log' ↔ Dropped j log) :
    Fate j rest' jobs' s' log' := by
  subst slot
  cases fate with
  | waiting out back apart fine =>
    exact .waiting (mt hand.mp out) back (mt among.mp apart) (mt dropped.mp fine)
  | held mem available none apart fine =>
    exact .held (hand.mpr mem) available none (mt among.mp apart) (mt dropped.mp fine)
  | kept out none good fine =>
    exact .kept (mt hand.mp out) none (good.imp_left among.mpr) (mt dropped.mp fine)
  | lost out available none apart bad =>
    exact .lost (mt hand.mp out) available none (mt among.mp apart) (dropped.mpr bad)

theorem Between.taken {ids : List String} {jobs : List Job} {v u : World} {quiet : List Op}
    (between : Between j [] jobs v log) (hand : InHand ids v u)
    (harmless : ∀ i, ¬ Dropped i quiet) : Between j ids jobs u (log ++ quiet) := by
  have slots (i : String) : (u.slot i).record = (v.slot i).record ∧
      ((u.slot i).messages = (v.slot i).messages ∨ (u.slot i).messages = []) := by
    by_cases mem : i ∈ ids
    · obtain ⟨msg, -, slot⟩ := hand.taken i mem
      rw [slot]
      exact ⟨rfl, .inr rfl⟩
    · rw [hand.left i mem]
      exact ⟨rfl, .inl rfl⟩
  have dropped : Dropped j (log ++ quiet) ↔ Dropped j log := by
    rw [dropped_append]
    exact or_iff_left (harmless j)
  constructor
  · intro i rec stored
    exact between.own i rec ((slots i).1.symm.trans stored)
  · intro i
    rcases (slots i).2 with same | none
    · rw [same]
      exact between.single i
    · exact .inl none
  · intro i some
    rcases (slots i).2 with same | none
    · exact between.named i (same ▸ some)
    · exact absurd none some
  · exact hand.distinct
  · by_cases mem : j ∈ ids
    · obtain ⟨msg, one, slot⟩ := hand.taken j mem
      have silent (none : (v.slot j).messages = []) : False := by
        rw [none] at one
        cases one
      cases between.fate with
      | waiting _ back apart fine =>
        refine .held mem ?_ ?_ apart (mt dropped.mp fine)
        · rw [slot]
          exact back.1
        · rw [slot]
      | held mem => cases mem
      | kept _ none => exact (silent none).elim
      | lost _ _ none => exact (silent none).elim
    · exact between.fate.unchanged (hand.left j mem) (by simp [mem]) Iff.rfl dropped

theorem Between.turn {rest : List String} {jobs jobs' : List Job} {v u : World} {log' : List Op}
    (between : Between j (k :: rest) jobs v log) (turn : TurnOf k v log jobs jobs' (u, log')) :
    Between j rest jobs' u log' := by
  obtain ⟨failed, more, whole, rfl, treated, others, -⟩ := turn
  dsimp only at whole treated others
  subst whole
  obtain ⟨absent, distinct⟩ := List.nodup_cons.mp between.distinct
  have messages (i : String) : (u.slot i).messages = (v.slot i).messages := by
    by_cases here : i = k
    · rw [here]
      exact treated.messages
    · rw [others i here]
  constructor
  · intro i rec stored
    by_cases here : i = k
    · subst here
      exact treated.ids rec stored
    · rw [others i here] at stored
      exact between.own i rec stored
  · intro i
    rw [messages]
    exact between.single i
  · intro i some
    exact between.named i (messages i ▸ some)
  · exact distinct
  · by_cases here : j = k
    · subst here
      cases between.fate with
      | waiting out | kept out | lost out => exact absurd List.mem_cons_self out
      | held _ available none apart fine =>
        have silent : (u.slot j).messages = [] := (messages j).trans none
        rcases treated.fate available with ⟨bad, rfl, still⟩ | ⟨well, good⟩
        · refine .lost absent still silent ?_ (dropped_append.mpr (.inr bad))
          rwa [List.append_nil]
        · refine .kept absent silent (good.imp_left fun returned => ?_) fun bad => ?_
          · obtain ⟨job, mem⟩ := List.exists_mem_of_ne_nil more returned
            exact returned_append.mpr (.inr ⟨job, mem, treated.own job mem⟩)
          · exact (dropped_append.mp bad).elim fine well
    · refine between.fate.unchanged (others j here) (by simp [here]) ?_ ?_
      · rw [returned_append]
        refine or_iff_left ?_
        rintro ⟨job, mem, rfl⟩
        exact here (treated.own job mem)
      · rw [dropped_append]
        exact or_iff_left (treated.others j here)

theorem between_fetchQueue {jobs : List Job} {v : World} (between : Between j [] jobs v log)
    (count : Int) (workerID : String) (visibilityTimeoutMs now : Int) (queue : String) :
    faulty.wp (fetchQueue lib count workerID visibilityTimeoutMs now queue jobs)
      (fun jobs' u => Between j [] jobs' u.1 u.2) (v, log) := by
  have beside {v u : World} {log quiet : List Op} (between : Between j [] jobs v log)
      (same : SameBoard v u) (harmless : ∀ i, ¬ Dropped i quiet) :
      Between j [] jobs u (log ++ quiet) := between.taken (.nothing same) harmless
  unfold fetchQueue
  split
  · exact wp_pure.mpr between
  · refine wp_bind.mpr
      (wp_sideline (sideline_isQueuePaused queue) fun paused a quiet same fine => ?_)
    have between := beside between same fine
    cases paused with
    | true => exact wp_pure.mpr between
    | false =>
      refine wp_bind.mpr (wp_sideline (sideline_isRateLimited queue now)
        fun limited b quiet same fine => ?_)
      have between := beside between same fine
      cases limited with
      | true => exact wp_pure.mpr between
      | false =>
        refine wp_bind.mpr (wp_fetchMessages between.single between.named
          (fun e u quiet same fine => wp_pure.mpr (beside between same fine))
          fun ids u quiet hand fine => ?_)
        refine wp_forEach (fun rest jobs' u => Between j rest jobs' u.1 u.2)
          (between.taken hand fine) ?_ fun _ _ between => between
        rintro k rest jobs' ⟨u, log'⟩ between
        exact (turnOf_fetchJob between.own queue workerID visibilityTimeoutMs now jobs').mono
          fun _ _ turn => between.turn turn

theorem between_fetch (sound : Sound w) (available : (w.slot j).Back) (queues : List String)
    (count : Int) (workerID : String) (visibilityTimeoutMs : Int) :
    faulty.wp (fetch lib queues count workerID visibilityTimeoutMs)
      (fun jobs u => Between j [] jobs u.1 u.2) (w, []) := by
  refine wp_bind.mpr (wp_timeNow.mpr ?_)
  refine wp_forEach (fun _ jobs u => Between j [] jobs u.1 u.2) ?_ ?_ fun _ _ between => between
  · refine ⟨fun i => (sound.placed i).keyed, sound.single, fun i some => ?_, List.nodup_nil, ?_⟩
    · rcases (sound.placed i).announced with silent | ⟨_, rec, _, stored, _⟩
      · exact absurd silent some
      · exact (sound.known i (by simp [stored])).2
    · exact .waiting (by simp) available (by simp [Returned]) not_dropped_nil
  · rintro queue rest jobs ⟨u, log⟩ between
    exact between_fetchQueue between count workerID visibilityTimeoutMs w.clock queue

/-! ## What a fetch keeps -/

/-- A later fetch can have the job: its message is still there, or its lease is one that the
reaper takes back some time. -/
def Obtainable (lib : Externals) (j : String) (t : World) : Prop :=
  (t.slot j).Back ∨ (t.slot j).state = some .active ∧
    ∃ later, t.clock ≤ later ∧ Recoverable lib (.pass .requeueStalled) j { t with clock := later }

/-- A fetch that has returned these jobs has not lost this one. -/
def Retained (lib : Externals) (j : String) (jobs : List Job) (t : World) : Prop :=
  Returned j jobs ∨ (t.slot j).state = some .discarded ∨ Obtainable lib j t

/-- A job that is available without a message is lost. -/
theorem not_obtainable (available : (t.slot j).state = some .available)
    (silent : (t.slot j).messages = []) : ¬ Obtainable lib j t := by
  intro obtainable
  rcases obtainable with back | ⟨active, -⟩
  · exact not_back_of_silent silent back
  · rw [available] at active
    cases active

theorem Between.kept_iff {jobs : List Job} (between : Between j [] jobs t failed) :
    Retained lib j jobs t ↔ ¬ Dropped j failed := by
  cases between.fate with
  | waiting _ back _ fine => exact iff_of_true (.inr (.inr (.inl back))) fine
  | held mem => cases mem
  | kept _ _ good fine => exact iff_of_true (good.imp_right .inl) fine
  | lost _ available silent apart bad =>
    refine iff_of_false (fun kept => ?_) (not_not.mpr bad)
    rcases kept with returned | discarded | obtainable
    · exact apart returned
    · rw [available] at discarded
      cases discarded
    · exact not_obtainable available silent obtainable

/-- Calls are served until the context is cancelled; the calls that this makes fail are listed. -/
def cancelling : Semantics Op Ans ((World × List Op) × Bool) :=
  (serves.listing fun _ => false).switchingTo (cancelled.listing Op.takesContext)

/-- A cancelled context makes calls fail. -/
theorem faulty_of_cancelling {α : Type} {p : Prog α} {a : α} {u v : (World × List Op) × Bool}
    (run : cancelling.Exec p u a v) : faulty.Exec p u.1 a v.1 := by
  refine run.project Prod.fst ?_
  rintro ⟨⟨w, log⟩, _⟩ op r ⟨⟨t, log'⟩, _⟩ (⟨-, ⟨step, same⟩, -⟩ | ⟨⟨step, same⟩, -⟩)
  · exact .inl ⟨step, same⟩
  · unfold cancelled at step
    dsimp only at step same
    split at step
    · rename_i takes
      exact .inr ⟨step, by simpa [takes] using same⟩
    · rename_i takes
      exact .inl ⟨step, by simpa [takes] using same⟩

end OjsNats.Faults
