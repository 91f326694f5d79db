import OjsNats.Lifecycle.Handouts
import OjsNats.Lifecycle.Placement

/-!
# The backlog of a queue

A fetch takes the oldest messages of a queue, whatever has become of their
jobs and whatever their priority.  The messages of jobs that were cancelled or
have expired use up what it asks for, and the jobs come in the order of their
messages.
-/

namespace OjsNats.Lifecycle

open Core Nats Effect Semantics Program

variable {lib : Externals} {w v t : World} {queue workerID : String} {j : String}

/-! ## Deliveries -/

theorem deliver_fst (subject : String) (n : Nat) (stream : List Msg) :
    (deliver subject n stream).1 = (stream.filter fun m => m.subject = subject).take n := by
  induction stream generalizing n with
  | nil => cases n <;> simp [deliver]
  | cons m rest ih =>
    cases n with
    | zero => simp [deliver]
    | succ n =>
      by_cases same : m.subject = subject
      · simp [deliver, same, ih n]
      · simp [deliver, same, ih (n + 1)]

theorem deliver_snd (subject : String) (n : Nat) (stream : List Msg) :
    (deliver subject n stream).2.filter (fun m => m.subject = subject) =
      (stream.filter fun m => m.subject = subject).drop n := by
  induction stream generalizing n with
  | nil => cases n <;> simp [deliver]
  | cons m rest ih =>
    cases n with
    | zero => simp [deliver]
    | succ n =>
      by_cases same : m.subject = subject
      · simp [deliver, same, ih n]
      · simp [deliver, same, ih (n + 1)]

theorem deliver_snd_other {subject other : String} (ne : other ≠ subject) (n : Nat)
    (stream : List Msg) : (deliver subject n stream).2.filter (fun m => m.subject = other) =
      stream.filter fun m => m.subject = other := by
  induction stream generalizing n with
  | nil => cases n <;> simp [deliver]
  | cons m rest ih =>
    cases n with
    | zero => simp [deliver]
    | succ n =>
      by_cases same : m.subject = subject
      · simp [deliver, same, Ne.symm ne, ih n]
      · simp [deliver, same, List.filter_cons, ih (n + 1)]

/-- The ids on the undelivered messages of a queue, the oldest first. -/
def backlog (w : World) (queue : String) : List String :=
  (w.stream.filter fun m => m.subject = queueJobsSubject queue).map Msg.data

theorem handedIDs_eq (w : World) (queue : String) (n : Nat) :
    handedIDs w queue n = (backlog w queue).take n := by
  rw [handedIDs, deliver_fst, backlog, List.map_take]

theorem backlog_taken {n : Nat} (q : String)
    (stream : t.stream = (deliver (queueJobsSubject queue) n v.stream).2) :
    backlog t q = if q = queue then (backlog v q).drop n else backlog v q := by
  rw [backlog, stream]
  split
  · rename_i same
    rw [same, deliver_snd, backlog, List.map_drop]
  · rename_i ne
    rw [deliver_snd_other (fun same => ne (queueJobsSubject_injective same)), backlog]

theorem backlog_subset {n : Nat} {q : String}
    (stream : t.stream = (deliver (queueJobsSubject queue) n v.stream).2) :
    backlog t q ⊆ backlog v q := by
  rw [backlog_taken q stream]
  split
  · exact List.drop_subset _ _
  · exact List.Subset.refl _

theorem messages_of_backlog (waiting : j ∈ backlog w queue) : (w.slot j).messages ≠ [] := by
  obtain ⟨m, mem, rfl⟩ := List.mem_map.mp waiting
  have own : m ∈ (w.slot m.data).messages :=
    List.mem_filter.mpr ⟨(List.mem_filter.mp mem).1, by simp⟩
  exact List.ne_nil_of_mem own

/-- A turn does not touch the jobs that still have a message. -/
theorem Turn.waiting {visibilityTimeoutMs : Int} {ids : List String} {other : String}
    (turn : Turn lib queue workerID visibilityTimeoutMs ids [] v t)
    (waiting : j ∈ backlog t other) : claimIn lib t j = claimIn lib v j := by
  have untouched : j ∉ ids := by
    intro mem
    obtain ⟨msg, -, slot⟩ := turn.dealt j mem
    refine messages_of_backlog waiting ?_
    rw [slot]
    unfold fetchedSlot
    split
    · rfl
    · split
      · rfl
      · split <;> rfl
  rw [claimIn, turn.others j untouched (by simp), turn.clock, claimIn]

/-- A turn that claims nothing leaves the records of the queues alone. -/
theorem Turn.idle {visibilityTimeoutMs : Int} {ids : List String}
    (turn : Turn lib queue workerID visibilityTimeoutMs ids [] v t)
    (nothing : ∀ j ∈ ids, claimIn lib v j = none) (q : String) :
    t.value .queues q = v.value .queues q := by
  rw [turn.queues q, if_neg]
  rintro ⟨-, any⟩
  obtain ⟨j, mem, claims⟩ := List.any_eq_true.mp any
  simp [nothing j mem] at claims

/-- The message of an available job waits in its queue. -/
theorem mem_backlog {rec : JobState} (reachable : Reachable lib w)
    (stored : w.value .jobs j = some rec) (available : rec.state = .available) :
    j ∈ backlog w rec.queue := by
  obtain ⟨m, one, subject⟩ :=
    (reachable.sound.placed j).one_message (reachable.present j) stored available
  have own : m ∈ (w.slot j).messages := by simp [one]
  obtain ⟨mem, data⟩ := List.mem_filter.mp own
  exact List.mem_map.mpr ⟨m, List.mem_filter.mpr ⟨mem, by simp [subject]⟩, by simpa using data⟩

/-! ## An empty fetch -/

/-- The consumers hand out all that is asked for, as far as there are messages. -/
def prompt : Semantics Op Ans World := rationed fun _ n count => n = count

theorem prompt_of_execute {α : Type} {p : Prog α} {a : α} (run : execute p w = some (a, t)) :
    prompt.Exec p w a t := by
  induction p generalizing w with
  | pure b =>
    cases run
    exact ⟨rfl, rfl⟩
  | call op next ih =>
    simp only [execute] at run
    split at run
    · cases run
    · rename_i r m served
      refine ⟨r, m, ?_, ih r run⟩
      cases op with
      | consumerFetch queue count =>
        cases served
        exact ⟨count, Nat.le_refl count, rfl, rfl, rfl⟩
      | _ => exact serve_serves served

/-- There is a job that a fetch of the queues could claim. -/
def WorkIn (lib : Externals) (w : World) (queues : List String) : Prop :=
  ∃ j rec, w.value .jobs j = some rec ∧ rec.queue ∈ queues ∧ rec.state = .available ∧
    isExpired lib (unmarshalJobState rec) w.clock = false

/-- Such a job is among the first messages of its queue: as many as one fetch asks
for, for every time that the queue is listed. -/
def WithinReach (lib : Externals) (w : World) (queues : List String) (count : Int) : Prop :=
  ∃ queue ∈ queues, ∃ j ∈ (backlog w queue).take (count.toNat * queues.count queue),
    (claimIn lib w j).isSome

theorem workIn_of_withinReach {queues : List String} {count : Int} (sound : Sound w)
    (reach : WithinReach lib w queues count) : WorkIn lib w queues := by
  obtain ⟨queue, requested, j, mem, claims⟩ := reach
  obtain ⟨job, claims⟩ := Option.isSome_iff_exists.mp claims
  obtain ⟨rfl, rec, stored, fresh, available, -⟩ := claimIn_eq_some sound claims
  rw [← handedIDs_eq] at mem
  have own : rec.queue = queue := queue_of_delivered sound stored mem
  exact ⟨job.id, rec, stored, own ▸ requested, available, fresh⟩

/-- A fetch that returns no job leaves the work there was. -/
theorem workIn_of_idle {queues queues' : List String} {count visibilityTimeoutMs : Int}
    {jobs : List Job} (reachable : Reachable lib w)
    (run : serves.Exec (fetch lib queues count workerID visibilityTimeoutMs) w jobs t)
    (none : jobs = []) : WorkIn lib t queues' ↔ WorkIn lib w queues' := by
  have kept (j : String) := (wp_fetch_handsOut reachable.sound jobs t run).2.others j (by simp [none])
  have clock : t.clock = w.clock :=
    (fetch_advances queues count workerID visibilityTimeoutMs w reachable.sound jobs t run).clock
  constructor
  · rintro ⟨j, rec, stored, requested, available, fresh⟩
    rcases kept j with same | ⟨old, -, -, discarded⟩
    · exact ⟨j, rec, same.symm.trans stored, requested, available, clock ▸ fresh⟩
    · cases discarded.symm.trans stored
      cases available
  · rintro ⟨j, rec, stored, requested, available, fresh⟩
    rcases kept j with same | ⟨old, stored', expired, -⟩
    · exact ⟨j, rec, same.trans stored, requested, available, clock.symm ▸ fresh⟩
    · cases stored.symm.trans stored'
      simp [fresh] at expired

/-- Nothing has come of the queues that were looked at. -/
structure EmptyHanded (lib : Externals) (count : Nat) (done : List String) (w v : World) :
    Prop where
  queues : ∀ q, v.value .queues q = w.value .queues q
  left : ∀ q, backlog v q = (backlog w q).drop (count * done.count q)
  waiting : ∀ q, ∀ j ∈ backlog v q, claimIn lib v j = claimIn lib w j
  nothing : ∀ q, ∀ j ∈ (backlog w q).take (count * done.count q), claimIn lib w j = none

theorem EmptyHanded.refl (count : Nat) : EmptyHanded lib count [] w w :=
  ⟨fun _ => rfl, by simp, fun _ _ _ => rfl, by simp⟩

/-- What a queue hands out next is what lies behind the messages already taken. -/
theorem EmptyHanded.handed {count : Nat} {done : List String}
    (empty : EmptyHanded lib count done w v) (mem : j ∈ handedIDs v queue count) :
    j ∈ (backlog w queue).take (count * (done ++ [queue]).count queue) ∧
      claimIn lib v j = claimIn lib w j := by
  rw [handedIDs_eq] at mem
  refine ⟨?_, empty.waiting queue j (List.mem_of_mem_take mem)⟩
  rw [empty.left queue, List.take_drop] at mem
  have more : count * (done ++ [queue]).count queue = count * done.count queue + count := by
    simp [Nat.mul_add]
  rw [more]
  exact List.mem_of_mem_drop mem

theorem EmptyHanded.turn {count : Nat} {done : List String} {visibilityTimeoutMs : Int}
    (empty : EmptyHanded lib count done w v)
    (turn : Turn lib queue workerID visibilityTimeoutMs (handedIDs v queue count) [] v t)
    (stream : t.stream = (deliver (queueJobsSubject queue) count v.stream).2)
    (nothing : ∀ j ∈ handedIDs v queue count, claimIn lib v j = none) :
    EmptyHanded lib count (done ++ [queue]) w t where
  queues := fun q => (turn.idle nothing q).trans (empty.queues q)
  left := by
    intro q
    rw [backlog_taken q stream, empty.left q, List.count_append]
    split
    · rename_i same
      simp [same, List.drop_drop, Nat.mul_add]
    · rename_i ne
      simp [Ne.symm ne]
  waiting := by
    intro q j mem
    exact (turn.waiting mem).trans (empty.waiting q j (backlog_subset stream mem))
  nothing := by
    intro q j mem
    by_cases same : q = queue
    · subst same
      rw [List.count_append, List.count_singleton_self, Nat.mul_add, Nat.mul_one,
        List.take_add] at mem
      rcases List.mem_append.mp mem with old | new
      · exact empty.nothing q j old
      · rw [← empty.left q, ← handedIDs_eq] at new
        rw [← (empty.handed new).2]
        exact nothing j new
    · rw [List.count_append, List.count_singleton, if_neg (by simpa using Ne.symm same)] at mem
      exact empty.nothing q j mem

theorem wp_fetch_prompt {queues : List String} {count visibilityTimeoutMs : Int} (sound : Sound w)
    (some : 1 ≤ count)
    (attended : ∀ queue ∈ queues, pausedIn w queue = false ∧ limitedIn w queue w.clock = false) :
    prompt.wp (fetch lib queues count workerID visibilityTimeoutMs)
      (fun jobs _ => jobs = [] ↔ ¬ WithinReach lib w queues count) w := by
  have refines : Refines prompt serves := rationed_refines _
  refine wp_bind.mpr (wp.refine refines (wp_timeNow.mpr ?_))
  refine wp_forEach (fun rest jobs v => Sound v ∧ v.clock = w.clock ∧ ∃ done,
    done ++ rest = queues ∧ (jobs ≠ [] → WithinReach lib w queues count) ∧
    (jobs = [] → EmptyHanded lib count.toNat done w v))
    ⟨sound, rfl, [], rfl, by simp, fun _ => .refl _⟩ ?_ ?_
  · rintro queue rest jobs v ⟨sound', clock, done, whole, found, empty⟩
    have whole' : done ++ [queue] ++ rest = queues := by simpa using whole
    have requested : queue ∈ queues := whole ▸ by simp
    refine wp_fetchQueue sound' clock (fun passed => ?_) ?_
    · refine ⟨sound', clock, done ++ [queue], whole', found, fun none => absurd ?_ passed⟩
      have stored := (empty none).queues queue
      refine ⟨by simp [none]; omega, ?_, ?_⟩
      · rw [pausedIn, stored]
        exact (attended queue requested).1
      · rw [limitedIn, stored, clock]
        exact (attended queue requested).2
    · rintro - n - rfl t turn stream sound''
      refine ⟨sound'', turn.clock.trans clock, done ++ [queue], whole', fun more => ?_,
        fun none => ?_⟩
      · by_cases before : jobs = []
        · subst before
          obtain ⟨job, mem⟩ := List.exists_mem_of_ne_nil _ more
          obtain ⟨j, handed, claims⟩ := List.mem_filterMap.mp mem
          simp only [List.length_nil, Nat.cast_zero, sub_zero] at handed
          obtain ⟨mem, same⟩ := (empty rfl).handed handed
          have counts : (done ++ [queue]).count queue ≤ queues.count queue :=
            whole' ▸ (List.sublist_append_left _ rest).count_le queue
          exact ⟨queue, requested, j,
            List.take_subset_take_left _ (Nat.mul_le_mul_left _ counts) mem,
            by rw [← same, claims]; rfl⟩
        · exact found before
      · obtain ⟨rfl, nothing⟩ := List.append_eq_nil_iff.mp none
        simp only [List.length_nil, Nat.cast_zero, sub_zero] at turn stream nothing
        exact (empty rfl).turn turn stream (List.filterMap_eq_nil_iff.mp nothing)
  · rintro jobs t ⟨-, -, done, whole, found, empty⟩
    obtain rfl : done = queues := by simpa using whole
    constructor
    · rintro none ⟨queue, -, j, mem, claims⟩
      rw [(empty none).nothing queue j mem] at claims
      cases claims
    · intro out
      by_contra more
      exact out (found more)

/-- An empty fetch means that there is no work, exactly if a fetch that has work to find
finds some of it within the messages it takes. -/
theorem fetch_empty_iff {queues : List String} {count visibilityTimeoutMs : Int}
    (reachable : Reachable lib w) (some : 1 ≤ count)
    (attended : ∀ queue ∈ queues, pausedIn w queue = false ∧ limitedIn w queue w.clock = false) :
    prompt.wp (fetch lib queues count workerID visibilityTimeoutMs)
      (fun jobs t => jobs = [] → ¬ WorkIn lib t queues) w ↔
    (WorkIn lib w queues → WithinReach lib w queues count) := by
  have refines : Refines prompt serves := rationed_refines _
  have empty : prompt.wp (fetch lib queues count workerID visibilityTimeoutMs)
      (fun jobs _ => jobs = [] ↔ ¬ WithinReach lib w queues count) w :=
    wp_fetch_prompt reachable.sound some attended
  constructor
  · intro truthful work
    by_contra out
    obtain ⟨jobs, t, run⟩ := exists_exec (rationed_answers fun _ count => ⟨count, le_rfl, rfl⟩)
      (fetch lib queues count workerID visibilityTimeoutMs) w
    have none : jobs = [] := (empty jobs t run).mpr out
    refine truthful jobs t run none ?_
    exact (workIn_of_idle reachable (run.refine refines) none).mpr work
  · intro reach jobs t run none work
    have before := (workIn_of_idle reachable (run.refine refines) none).mp work
    exact (empty jobs t run).mp none (reach before)

/-- The fetch of one job from a queue whose first message is that of a waiting job. -/
theorem fetch_empty_iff_twoMails : ∃ w jobs t, playFetch twoMails ["mails"] 1 = some (w, jobs, t) ∧
    prompt.wp (fetch sample ["mails"] 1 "worker-1" 0)
      (fun jobs t => jobs = [] → ¬ WorkIn sample t ["mails"]) w := by
  have plays : (playFetch twoMails ["mails"] 1).isSome := by decide
  obtain ⟨⟨w, jobs, t⟩, plays⟩ := Option.isSome_iff_exists.mp plays
  have facts : (playFetch twoMails ["mails"] 1).map (fun r => (pausedIn r.1 "mails",
      limitedIn r.1 "mails" r.1.clock, backlog r.1 "mails", (claimIn sample r.1 "job-1").isSome)) =
      some (false, false, ["job-1", "job-2"], true) := by decide
  rw [plays] at facts
  obtain ⟨open', facts⟩ := Prod.mk.inj (Option.some.inj facts)
  obtain ⟨unlimited, facts⟩ := Prod.mk.inj facts
  obtain ⟨waiting, live⟩ := Prod.mk.inj facts
  refine ⟨w, jobs, t, plays, ?_⟩
  refine (fetch_empty_iff (execute_of_playFetch plays).1 le_rfl ?_).mpr fun _ => ?_
  · simp [open', unlimited]
  · exact ⟨"mails", by simp, "job-1", by simp [waiting], live⟩

/-- A cancelled job leaves its message in front of the next job's. -/
def cancelledAhead : List Cue :=
  [.call (.push { id := "job-1", queue := "mails" }), .call (.cancel "job-1"),
    .call (.push { id := "job-2", queue := "mails" })]

theorem not_fetch_empty : ¬ ∀ (lib : Externals) (w t : World) (queues : List String) (count : Int)
    (workerID : String) (visibilityTimeoutMs : Int) (jobs : List Job), Reachable lib w → 1 ≤ count →
    (∀ queue ∈ queues, pausedIn w queue = false ∧ limitedIn w queue w.clock = false) →
    prompt.Exec (fetch lib queues count workerID visibilityTimeoutMs) w jobs t → jobs = [] →
    ¬ WorkIn lib t queues := by
  intro truthful
  have plays : (playFetch cancelledAhead ["mails"] 1).isSome := by decide
  obtain ⟨⟨w, jobs, t⟩, plays⟩ := Option.isSome_iff_exists.mp plays
  have facts : (playFetch cancelledAhead ["mails"] 1).map (fun r => (pausedIn r.1 "mails",
      limitedIn r.1 "mails" r.1.clock, r.2.1.length, (claimIn sample r.1 "job-2").map Job.queue)) =
      some (false, false, 0, some "mails") := by decide
  rw [plays] at facts
  obtain ⟨open', facts⟩ := Prod.mk.inj (Option.some.inj facts)
  obtain ⟨unlimited, facts⟩ := Prod.mk.inj facts
  obtain ⟨few, live⟩ := Prod.mk.inj facts
  have none : jobs = [] := List.length_eq_zero_iff.mp few
  obtain ⟨reachable, run⟩ := execute_of_playFetch plays
  refine truthful sample w t ["mails"] 1 "worker-1" 0 jobs reachable le_rfl ?_
    (prompt_of_execute run) none ((workIn_of_idle reachable (exec_of_execute run) none).mpr ?_)
  · simp [open', unlimited]
  · obtain ⟨job, claims, queue⟩ := Option.map_eq_some_iff.mp live
    obtain ⟨-, rec, stored, fresh, available, rfl⟩ := claimIn_eq_some reachable.sound claims
    exact ⟨"job-2", rec, stored, by simpa using queue, available, fresh⟩

end OjsNats.Lifecycle
