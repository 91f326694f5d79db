import OjsNats.Lifecycle.Backlog

/-!
# The order of the jobs of a fetch

The jobs of a queue come in the order of their messages; their priorities play
no part in it.
-/

namespace OjsNats.Lifecycle

open Core Nats Effect Semantics Program

variable {lib : Externals} {w v t : World} {queue workerID : String} {j : String}

/-- Higher priorities come first; a missing one counts as 0. -/
def ByPriority (jobs : List Job) : Prop :=
  jobs.Pairwise fun a b => b.priority.getD 0 ≤ a.priority.getD 0

theorem byPriority_iff {jobs : List Job} : ByPriority jobs ↔
    (jobs.map Job.priority).Pairwise fun a b => b.getD 0 ≤ a.getD 0 := by
  rw [List.pairwise_map, ByPriority]

/-! ## What a queue has to offer -/

/-- The jobs that a fetch could claim in a queue, in the order of their messages. -/
def liveIn (lib : Externals) (w : World) (queue : String) : List Job :=
  (backlog w queue).filterMap (claimIn lib w)

/-- A fetch that claims a job of the queue finds it limited from then on. -/
def throttledIn (w : World) (queue : String) : Bool :=
  match w.value .queues queue with
  | some stored => decide (0 < QueueMeta.rateLimitPerSec stored ∧
      0 < Int.tdiv 1000 (QueueMeta.rateLimitPerSec stored))
  | none => false

/-- The most that one fetch can get out of a queue, however often it lists it: the first
`count` live jobs, and in a queue with a rate limit those of the `count` messages from the
first live job on. -/
def offered (lib : Externals) (w : World) (queue : String) (count : Nat) : List Job :=
  if throttledIn w queue then
    (((backlog w queue).dropWhile fun j => (claimIn lib w j).isNone).take count).filterMap
      (claimIn lib w)
  else
    (liveIn lib w queue).take count

/-- The part of a fetch's jobs that comes from one queue. -/
def jobsOf (queue : String) (jobs : List Job) : List Job := jobs.filter fun job => job.queue = queue

theorem queue_of_claims {n : Nat} {job : Job} (sound : Sound v)
    (mem : job ∈ (handedIDs v queue n).filterMap (claimIn lib v)) : job.queue = queue := by
  obtain ⟨j, handed, claims⟩ := List.mem_filterMap.mp mem
  obtain ⟨rfl, rec, stored, -, -, same⟩ := claimIn_eq_some sound claims
  rw [same]
  exact queue_of_delivered sound stored handed

theorem jobsOf_own {n : Nat} (sound : Sound v) (jobs : List Job) :
    jobsOf queue (jobs ++ (handedIDs v queue n).filterMap (claimIn lib v)) =
      jobsOf queue jobs ++ (handedIDs v queue n).filterMap (claimIn lib v) := by
  rw [jobsOf, List.filter_append, ← jobsOf]
  congr 1
  exact List.filter_eq_self.mpr fun job mem => by simpa using queue_of_claims sound mem

theorem jobsOf_other {other : String} {n : Nat} (ne : other ≠ queue) (sound : Sound v)
    (jobs : List Job) :
    jobsOf queue (jobs ++ (handedIDs v other n).filterMap (claimIn lib v)) = jobsOf queue jobs := by
  rw [jobsOf, List.filter_append, ← jobsOf]
  have none : ((handedIDs v other n).filterMap (claimIn lib v)).filter
      (fun job => job.queue = queue) = [] :=
    List.filter_eq_nil_iff.mpr fun job mem => by simpa [queue_of_claims sound mem] using ne
  rw [none, List.append_nil]

/-- What a turn takes and what it leaves is what there was. -/
theorem Turn.live {visibilityTimeoutMs : Int} {n : Nat}
    (turn : Turn lib queue workerID visibilityTimeoutMs (handedIDs v queue n) [] v t)
    (stream : t.stream = (deliver (queueJobsSubject queue) n v.stream).2) :
    (handedIDs v queue n).filterMap (claimIn lib v) ++ liveIn lib t queue = liveIn lib v queue := by
  have left : liveIn lib t queue = ((backlog v queue).drop n).filterMap (claimIn lib v) := by
    rw [liveIn, List.filterMap_congr fun j mem => turn.waiting mem, backlog_taken queue stream,
      if_pos rfl]
  rw [left, handedIDs_eq, ← List.filterMap_append, List.take_append_drop, liveIn]

theorem Turn.live_other {visibilityTimeoutMs : Int} {other : String} {n : Nat} (ne : queue ≠ other)
    (turn : Turn lib other workerID visibilityTimeoutMs (handedIDs v other n) [] v t)
    (stream : t.stream = (deliver (queueJobsSubject other) n v.stream).2) :
    liveIn lib t queue = liveIn lib v queue := by
  rw [liveIn, List.filterMap_congr fun j mem => turn.waiting mem, backlog_taken queue stream,
    if_neg ne, liveIn]

theorem throttledIn_turn {visibilityTimeoutMs : Int} {other : String} {ids : List String}
    (turn : Turn lib other workerID visibilityTimeoutMs ids [] v t) (q : String) :
    throttledIn t q = throttledIn v q := by
  unfold throttledIn
  rw [turn.queues q]
  split_ifs with touched
  · cases v.value .queues q <;> rfl
  · rfl

/-- After a turn that claimed a job the limit is in force. -/
theorem limitedIn_turn {visibilityTimeoutMs : Int} {ids : List String}
    (turn : Turn lib queue workerID visibilityTimeoutMs ids [] v t)
    (some : ids.filterMap (claimIn lib v) ≠ []) :
    limitedIn t queue t.clock = throttledIn v queue := by
  have any : (ids.any fun j => (claimIn lib v j).isSome) = true := by
    obtain ⟨job, mem⟩ := List.exists_mem_of_ne_nil _ some
    obtain ⟨j, mem, claims⟩ := List.mem_filterMap.mp mem
    exact List.any_eq_true.mpr ⟨j, mem, by simp [claims]⟩
  rw [limitedIn, throttledIn, turn.queues queue, if_pos ⟨rfl, any⟩, turn.clock]
  cases v.value .queues queue with
  | none => rfl
  | some stored =>
    have now : (fetchedMeta v.clock (Option.some stored)).lastFetchMs = unixMilli v.clock := rfl
    have rate : (fetchedMeta v.clock (Option.some stored)).rateLimitPerSec =
        QueueMeta.rateLimitPerSec stored := rfl
    dsimp only
    rw [now, rate]
    by_cases positive : QueueMeta.rateLimitPerSec stored ≤ 0
    · simp [positive]
    · simp [positive, Int.not_le.mp positive]

/-! ## Skipping what is of no worth -/

/-- The messages taken from the queue so far were of no worth. -/
structure Skimmed (lib : Externals) (queue : String) (w v : World) : Prop where
  record : v.value .queues queue = w.value .queues queue
  skipped : ∃ dead, backlog w queue = dead ++ backlog v queue ∧ ∀ j ∈ dead, claimIn lib w j = none
  waiting : ∀ j ∈ backlog v queue, claimIn lib v j = claimIn lib w j

theorem Skimmed.refl : Skimmed lib queue w w := ⟨rfl, ⟨[], rfl, by simp⟩, fun _ _ => rfl⟩

theorem Skimmed.turn {visibilityTimeoutMs : Int} {n : Nat} (skimmed : Skimmed lib queue w v)
    (turn : Turn lib queue workerID visibilityTimeoutMs (handedIDs v queue n) [] v t)
    (stream : t.stream = (deliver (queueJobsSubject queue) n v.stream).2)
    (nothing : (handedIDs v queue n).filterMap (claimIn lib v) = []) : Skimmed lib queue w t where
  record := by
    rw [turn.idle (List.filterMap_eq_nil_iff.mp nothing), skimmed.record]
  skipped := by
    obtain ⟨dead, split, unclaimed⟩ := skimmed.skipped
    refine ⟨dead ++ handedIDs v queue n, ?_, fun j mem => ?_⟩
    · rw [split, backlog_taken queue stream, if_pos rfl, handedIDs_eq, List.append_assoc,
        List.take_append_drop]
    · rcases List.mem_append.mp mem with old | new
      · exact unclaimed j old
      · have waits : j ∈ backlog v queue := by
          rw [handedIDs_eq] at new
          exact List.mem_of_mem_take new
        rw [← skimmed.waiting j waits]
        exact List.filterMap_eq_nil_iff.mp nothing j new
  waiting := fun j mem => (turn.waiting mem).trans (skimmed.waiting j (backlog_subset stream mem))

theorem Skimmed.turn_other {visibilityTimeoutMs : Int} {other : String} {n : Nat}
    (skimmed : Skimmed lib queue w v) (ne : queue ≠ other)
    (turn : Turn lib other workerID visibilityTimeoutMs (handedIDs v other n) [] v t)
    (stream : t.stream = (deliver (queueJobsSubject other) n v.stream).2) :
    Skimmed lib queue w t where
  record := by rw [turn.queues queue, if_neg fun h => ne h.1, skimmed.record]
  skipped := by
    rw [backlog_taken queue stream, if_neg ne]
    exact skimmed.skipped
  waiting := fun j mem => (turn.waiting mem).trans (skimmed.waiting j (backlog_subset stream mem))

theorem dropWhile_of_dead {α : Type} {p : α → Bool} {dead rest : List α}
    (all : ∀ x ∈ dead, p x = true) : (dead ++ rest).dropWhile p = rest.dropWhile p := by
  induction dead with
  | nil => rfl
  | cons x dead ih =>
    rw [List.cons_append, List.dropWhile_cons_of_pos (all x List.mem_cons_self)]
    exact ih fun y mem => all y (List.mem_cons_of_mem _ mem)

/-- What the first elements are worth is a beginning of what as many are worth from the first
one of any worth on. -/
theorem filterMap_take_prefix {α β : Type} (f : α → Option β) {n count : Nat} (le : n ≤ count)
    (xs : List α) : (xs.take n).filterMap f <+:
      ((xs.dropWhile fun x => (f x).isNone).take count).filterMap f := by
  induction xs generalizing n with
  | nil => simp
  | cons x rest ih =>
    cases worth : f x with
    | some y =>
      rw [List.dropWhile_cons_of_neg (by simp [worth])]
      exact ((List.take_prefix_take_left le).filterMap f)
    | none =>
      rw [List.dropWhile_cons_of_pos (by simp [worth])]
      cases n with
      | zero => exact List.nil_prefix
      | succ n =>
        rw [List.take_succ_cons, List.filterMap_cons_none worth]
        exact ih (by omega)

/-- What the next turn claims is a beginning of what is offered. -/
theorem Skimmed.offer {n count : Nat} (skimmed : Skimmed lib queue w v)
    (throttled : throttledIn w queue = true) (le : n ≤ count) :
    (handedIDs v queue n).filterMap (claimIn lib v) <+: offered lib w queue count := by
  obtain ⟨dead, split, unclaimed⟩ := skimmed.skipped
  have same : (handedIDs v queue n).filterMap (claimIn lib v) =
      ((backlog v queue).take n).filterMap (claimIn lib w) := by
    rw [handedIDs_eq]
    exact List.filterMap_congr fun j mem => skimmed.waiting j (List.mem_of_mem_take mem)
  rw [same, offered, if_pos throttled, split,
    dropWhile_of_dead fun j mem => by simp [unclaimed j mem]]
  exact filterMap_take_prefix (claimIn lib w) le _

/-- From a first message of some worth on, it is all that is offered. -/
theorem Skimmed.offer_all {count : Nat} {rest : List String} (skimmed : Skimmed lib queue w v)
    (throttled : throttledIn w queue = true) (first : backlog v queue = j :: rest)
    (live : claimIn lib v j ≠ none) :
    (handedIDs v queue count).filterMap (claimIn lib v) = offered lib w queue count := by
  obtain ⟨dead, split, unclaimed⟩ := skimmed.skipped
  have same := skimmed.waiting j (by simp [first])
  rw [offered, if_pos throttled, split,
    dropWhile_of_dead fun j mem => by simp [unclaimed j mem], first,
    List.dropWhile_cons_of_neg (by simpa [← same, Option.isNone_iff_eq_none] using live), ← first,
    handedIDs_eq]
  exact List.filterMap_congr fun j mem => skimmed.waiting j (List.mem_of_mem_take mem)

/-! ## The jobs of one queue in a fetch -/

section OneQueue

variable {queues : List String} {count visibilityTimeoutMs : Int}

/-- What the turns of a queue and those of the other queues keep, a fetch keeps. -/
theorem wp_fetch_turns (queue : String) (I : List Job → World → Prop) (sound : Sound w) (start : I [] w)
    (own : ∀ jobs v n t, I jobs v → Sound v → v.clock = w.clock →
      LooksAt v queue (count - jobs.length) → n ≤ (count - jobs.length).toNat →
      Turn lib queue workerID visibilityTimeoutMs (handedIDs v queue n) [] v t →
      t.stream = (deliver (queueJobsSubject queue) n v.stream).2 →
      I (jobs ++ (handedIDs v queue n).filterMap (claimIn lib v)) t)
    (others : ∀ jobs v other n t, I jobs v → Sound v → v.clock = w.clock → queue ≠ other →
      Turn lib other workerID visibilityTimeoutMs (handedIDs v other n) [] v t →
      t.stream = (deliver (queueJobsSubject other) n v.stream).2 →
      I (jobs ++ (handedIDs v other n).filterMap (claimIn lib v)) t) :
    serves.wp (fetch lib queues count workerID visibilityTimeoutMs) I w := by
  refine wp_bind.mpr (wp_timeNow.mpr ?_)
  refine wp_forEach (fun _ jobs v => Sound v ∧ v.clock = w.clock ∧ I jobs v)
    ⟨sound, rfl, start⟩ ?_ fun _ _ h => h.2.2
  rintro other _ jobs v ⟨sound', clock, kept⟩
  refine wp.refine refines_rationed (wp_fetchQueue sound' clock (fun _ => ⟨sound', clock, kept⟩) ?_)
  intro looks n le _ t turn stream sound''
  refine ⟨sound'', turn.clock.trans clock, ?_⟩
  by_cases same : queue = other
  · subst same
    exact own jobs v n t kept sound' clock looks le turn stream
  · exact others jobs v other n t kept sound' clock same turn stream

/-- A fetch takes nothing from a queue that is paused or limited. -/
theorem wp_fetch_closed (sound : Sound w)
    (closed : pausedIn w queue = true ∨ limitedIn w queue w.clock = true) :
    serves.wp (fetch lib queues count workerID visibilityTimeoutMs)
      (fun jobs _ => jobsOf queue jobs = []) w := by
  refine (wp_fetch_turns queue (fun jobs v => jobsOf queue jobs = [] ∧
    v.value .queues queue = w.value .queues queue) sound ⟨rfl, rfl⟩ ?_ ?_).mono fun _ _ h => h.1
  · rintro jobs v n t ⟨-, record⟩ - clock looks
    have paused : pausedIn v queue = pausedIn w queue := by rw [pausedIn, record, pausedIn]
    have limited : limitedIn v queue v.clock = limitedIn w queue w.clock := by
      rw [limitedIn, record, clock, limitedIn]
    rcases closed with closed | closed
    · simp [LooksAt, paused, closed] at looks
    · simp [LooksAt, limited, closed] at looks
  · rintro jobs v other n t ⟨none, record⟩ sound' - ne turn stream
    refine ⟨(jobsOf_other (Ne.symm ne) sound' jobs).trans none, ?_⟩
    rw [turn.queues queue, if_neg fun h => ne h.1, record]

/-- A fetch takes the live jobs of a queue in the order of their messages. -/
theorem wp_fetch_live (queue : String) (sound : Sound w) :
    serves.wp (fetch lib queues count workerID visibilityTimeoutMs)
      (fun jobs t => jobsOf queue jobs ++ liveIn lib t queue = liveIn lib w queue) w := by
  refine wp_fetch_turns queue _ sound rfl ?_ ?_
  · intro jobs v n t split sound' _ _ _ turn stream
    rw [jobsOf_own sound', List.append_assoc, turn.live stream, split]
  · intro jobs v other n t split sound' _ ne turn stream
    rw [jobsOf_other (Ne.symm ne) sound', turn.live_other ne stream, split]

theorem wp_fetch_throttled (sound : Sound w) (throttled : throttledIn w queue = true) :
    serves.wp (fetch lib queues count workerID visibilityTimeoutMs)
      (fun jobs _ => jobsOf queue jobs <+: offered lib w queue count.toNat) w := by
  refine (wp_fetch_turns queue (fun jobs v => throttledIn v queue = true ∧
    (jobsOf queue jobs = [] ∧ Skimmed lib queue w v ∨ limitedIn v queue v.clock = true ∧
      jobsOf queue jobs <+: offered lib w queue count.toNat)) sound
    ⟨throttled, .inl ⟨rfl, .refl⟩⟩ ?_ ?_).mono ?_
  · rintro jobs v n t ⟨throttled', before⟩ sound' - looks le turn stream
    refine ⟨(throttledIn_turn turn queue).trans throttled', ?_⟩
    rcases before with ⟨none, skimmed⟩ | ⟨limited, -⟩
    · rw [jobsOf_own sound', none, List.nil_append]
      by_cases nothing : (handedIDs v queue n).filterMap (claimIn lib v) = []
      · exact .inl ⟨nothing, skimmed.turn turn stream nothing⟩
      · exact .inr ⟨(limitedIn_turn turn nothing).trans throttled',
          skimmed.offer throttled (by omega)⟩
    · exact absurd looks.2.2 (by simp [limited])
  · rintro jobs v other n t ⟨throttled', before⟩ sound' - ne turn stream
    refine ⟨(throttledIn_turn turn queue).trans throttled', ?_⟩
    rw [jobsOf_other (Ne.symm ne) sound']
    rcases before with ⟨none, skimmed⟩ | ⟨limited, some⟩
    · exact .inl ⟨none, skimmed.turn_other ne turn stream⟩
    · refine .inr ⟨?_, some⟩
      rw [← limited, limitedIn, turn.queues queue, if_neg fun h => ne h.1, turn.clock, limitedIn]
  · rintro jobs t ⟨-, ⟨none, -⟩ | ⟨-, some⟩⟩
    · exact none ▸ List.nil_prefix
    · exact some

/-- A fetch returns a beginning of what the queue offers. -/
theorem wp_fetch_offered (sound : Sound w) :
    serves.wp (fetch lib queues count workerID visibilityTimeoutMs)
      (fun jobs _ => jobsOf queue jobs <+: offered lib w queue count.toNat) w := by
  cases throttled : throttledIn w queue with
  | true => exact wp_fetch_throttled sound throttled
  | false =>
    refine ((wp_fetch_live queue sound).and (wp_fetch_handsOut sound)).mono ?_
    rintro jobs t ⟨split, few, -⟩
    rw [offered, if_neg (by simp [throttled])]
    have few' : (jobsOf queue jobs).length ≤ count.toNat :=
      (List.length_filter_le _ jobs).trans few
    exact List.prefix_take_iff.mpr ⟨⟨_, split⟩, few'⟩

/-! ## A fetch that takes all that is offered -/

theorem exists_turn {now : Int} {jobs : List Job} (lib : Externals) (workerID : String)
    (visibilityTimeoutMs : Int) (n : Nat) (sound : Sound v) (clock : v.clock = now)
    (looks : LooksAt v queue (count - jobs.length)) (le : n ≤ (count - jobs.length).toNat) :
    ∃ t, serves.Exec (fetchQueue lib count workerID visibilityTimeoutMs now queue jobs) v
        (jobs ++ (handedIDs v queue n).filterMap (claimIn lib v)) t ∧
      Turn lib queue workerID visibilityTimeoutMs (handedIDs v queue n) [] v t ∧
      t.stream = (deliver (queueJobsSubject queue) n v.stream).2 ∧ Sound t := by
  let upTo : String → Nat → Nat → Prop := fun _ m asked => m = min n asked
  have outcome : (rationed upTo).wp (fetchQueue lib count workerID visibilityTimeoutMs now queue
      jobs) (fun jobs' t => jobs' = jobs ++ (handedIDs v queue n).filterMap (claimIn lib v) ∧
        Turn lib queue workerID visibilityTimeoutMs (handedIDs v queue n) [] v t ∧
        t.stream = (deliver (queueJobsSubject queue) n v.stream).2 ∧ Sound t) v := by
    refine wp_fetchQueue sound clock (fun passed => absurd looks passed) ?_
    intro _ m _ ok t turn stream sound'
    obtain rfl : m = n := ok.trans (min_eq_left le)
    exact ⟨rfl, turn, stream, sound'⟩
  have answers : ∀ w op, ∃ r t, (rationed upTo).step w op r t :=
    rationed_answers fun _ asked => ⟨_, min_le_right n asked, rfl⟩
  obtain ⟨jobs', t, run⟩ := exists_exec answers
    (fetchQueue lib count workerID visibilityTimeoutMs now queue jobs) v
  obtain ⟨rfl, more⟩ := outcome jobs' t run
  exact ⟨t, run.refine (rationed_refines _), more⟩

theorem exists_pass {now : Int} {jobs : List Job} (sound : Sound v) (clock : v.clock = now)
    (passed : ¬ LooksAt v queue (count - jobs.length)) :
    serves.Exec (fetchQueue lib count workerID visibilityTimeoutMs now queue jobs) v jobs v := by
  have outcome : serves.wp (fetchQueue lib count workerID visibilityTimeoutMs now queue jobs)
      (fun jobs' t => jobs' = jobs ∧ t = v) v :=
    wp.refine refines_rationed
      (wp_fetchQueue sound clock (fun _ => ⟨rfl, rfl⟩) fun looks => absurd looks passed)
  obtain ⟨jobs', t, run⟩ := exists_exec serves_answers
    (fetchQueue lib count workerID visibilityTimeoutMs now queue jobs) v
  obtain ⟨rfl, rfl⟩ := outcome jobs' t run
  exact run

theorem exists_fetch_turns (I : List String → List Job → World → Prop) (start : I queues [] w)
    (turn : ∀ q rest jobs v, I (q :: rest) jobs v → ∃ jobs' t,
      serves.Exec (fetchQueue lib count workerID visibilityTimeoutMs w.clock q jobs) v jobs' t ∧
      I rest jobs' t) :
    ∃ jobs t, serves.Exec (fetch lib queues count workerID visibilityTimeoutMs) w jobs t ∧
      I [] jobs t := by
  obtain ⟨jobs, t, run, ends⟩ := exists_exec_forEach I start turn
  exact ⟨jobs, t, exec_bind.mpr ⟨w.clock, w, ⟨_, _, ⟨rfl, rfl⟩, rfl, rfl⟩, run⟩, ends⟩

/-- A fetch that lists one queue for each of its messages is at work. -/
structure Lists (queue : String) (now : Int) (rest : List String) (v : World) : Prop where
  same : ∀ q ∈ rest, q = queue
  sound : Sound v
  clock : v.clock = now
  attended : pausedIn v queue = false

theorem Lists.start (sound : Sound w) (attended : pausedIn w queue = false) :
    Lists queue w.clock (List.replicate (backlog w queue).length queue) w :=
  ⟨fun _ mem => List.eq_of_mem_replicate mem, sound, rfl, attended⟩

theorem Lists.pass {now : Int} {q : String} {rest : List String}
    (lists : Lists queue now (q :: rest) v) : Lists queue now rest v :=
  ⟨fun q mem => lists.same q (List.mem_cons_of_mem _ mem), lists.sound, lists.clock,
    lists.attended⟩

theorem Lists.turn {now : Int} {q : String} {rest ids : List String}
    (lists : Lists queue now (q :: rest) v) (sound : Sound t)
    (turn : Turn lib queue workerID visibilityTimeoutMs ids [] v t) : Lists queue now rest t :=
  ⟨lists.pass.same, sound, turn.clock.trans lists.clock,
    (pausedIn_turn turn queue).trans lists.attended⟩

theorem length_backlog_turn {rest : List String} {q : String}
    (length : (backlog v queue).length = (q :: rest).length)
    (stream : t.stream = (deliver (queueJobsSubject queue) 1 v.stream).2) :
    (backlog t queue).length = rest.length := by
  rw [backlog_taken queue stream, if_pos rfl, List.length_drop, length, List.length_cons,
    Nat.add_sub_cancel]

/-- Every turn takes one message, until there are enough jobs or no messages. -/
theorem exists_fetch_live (lib : Externals) (count : Int) (workerID : String)
    (visibilityTimeoutMs : Int) (sound : Sound w) (attended : pausedIn w queue = false)
    (unlimited : limitedIn w queue w.clock = false) (unthrottled : throttledIn w queue = false) :
    ∃ jobs t, serves.Exec (fetch lib (List.replicate (backlog w queue).length queue) count workerID
      visibilityTimeoutMs) w jobs t ∧ jobsOf queue jobs = jobs ∧
      (count ≤ jobs.length ∨ (backlog t queue).length = 0) := by
  obtain ⟨jobs, t, run, -, -, -, own, ends⟩ : ∃ jobs t, serves.Exec (fetch lib
      (List.replicate (backlog w queue).length queue) count workerID visibilityTimeoutMs) w jobs t ∧
      Lists queue w.clock [] t ∧ limitedIn t queue t.clock = false ∧
      throttledIn t queue = false ∧ jobsOf queue jobs = jobs ∧
      (count ≤ jobs.length ∨ (backlog t queue).length = ([] : List String).length) := by
    refine exists_fetch_turns (fun rest jobs v => Lists queue w.clock rest v ∧
      limitedIn v queue v.clock = false ∧ throttledIn v queue = false ∧ jobsOf queue jobs = jobs ∧
      (count ≤ jobs.length ∨ (backlog v queue).length = rest.length))
      ⟨.start sound attended, unlimited, unthrottled, rfl, .inr (by simp)⟩ ?_
    rintro q rest jobs v ⟨lists, unlimited, unthrottled, own, before⟩
    obtain rfl := lists.same q List.mem_cons_self
    by_cases enough : count ≤ jobs.length
    · exact ⟨jobs, v, exists_pass lists.sound lists.clock fun looks => by have := looks.1; omega,
        lists.pass, unlimited, unthrottled, own, .inl enough⟩
    · obtain ⟨t, run, turn, stream, sound'⟩ := exists_turn lib workerID visibilityTimeoutMs 1
        lists.sound lists.clock ⟨Int.sub_pos.mpr (Int.not_le.mp enough), lists.attended, unlimited⟩
        (by omega)
      have still : throttledIn t q = false := (throttledIn_turn turn q).trans unthrottled
      refine ⟨_, t, run, lists.turn sound' turn, ?_, still, ?_, .inr ?_⟩
      · by_cases nothing : (handedIDs v q 1).filterMap (claimIn lib v) = []
        · rw [limitedIn, turn.idle (List.filterMap_eq_nil_iff.mp nothing), turn.clock, ← limitedIn,
            unlimited]
        · rw [limitedIn_turn turn nothing, unthrottled]
      · rw [jobsOf_own lists.sound, own]
      · exact length_backlog_turn (before.resolve_left enough) stream
  exact ⟨jobs, t, run, own, ends⟩

/-- Messages of no worth are taken one at a time; the first one of some worth is taken with
all that may come with it. -/
theorem exists_fetch_throttled (lib : Externals) (workerID : String) (visibilityTimeoutMs : Int)
    (sound : Sound w) (some : 1 ≤ count) (attended : pausedIn w queue = false)
    (unlimited : limitedIn w queue w.clock = false) (throttled : throttledIn w queue = true) :
    ∃ jobs t, serves.Exec (fetch lib (List.replicate (backlog w queue).length queue) count workerID
      visibilityTimeoutMs) w jobs t ∧ jobsOf queue jobs = offered lib w queue count.toNat := by
  obtain ⟨jobs, t, run, -, ⟨rfl, skimmed, ends⟩ | ⟨-, all⟩⟩ : ∃ jobs t, serves.Exec (fetch lib
      (List.replicate (backlog w queue).length queue) count workerID visibilityTimeoutMs) w jobs t ∧
      Lists queue w.clock [] t ∧ (jobs = [] ∧ Skimmed lib queue w t ∧
        (backlog t queue).length = ([] : List String).length ∨
        limitedIn t queue t.clock = true ∧ jobsOf queue jobs = offered lib w queue count.toNat) := by
    refine exists_fetch_turns (fun rest jobs v => Lists queue w.clock rest v ∧
      (jobs = [] ∧ Skimmed lib queue w v ∧ (backlog v queue).length = rest.length ∨
        limitedIn v queue v.clock = true ∧ jobsOf queue jobs = offered lib w queue count.toNat))
      ⟨.start sound attended, .inl ⟨rfl, .refl, by simp⟩⟩ ?_
    rintro q rest jobs v ⟨lists, ⟨rfl, skimmed, length⟩ | ⟨limited, all⟩⟩
    · obtain rfl := lists.same q List.mem_cons_self
      have looks : LooksAt v q (count - ([] : List Job).length) := by
        refine ⟨by simpa using Int.lt_of_add_one_le some, lists.attended, ?_⟩
        rw [limitedIn, skimmed.record, lists.clock, ← limitedIn, unlimited]
      have throttled' : throttledIn v q = true := by
        rw [throttledIn, skimmed.record, ← throttledIn, throttled]
      obtain ⟨j, ids, first⟩ := List.exists_cons_of_length_eq_add_one length
      by_cases worth : claimIn lib v j = none
      · obtain ⟨t, run, turn, stream, sound'⟩ := exists_turn lib workerID visibilityTimeoutMs 1
          lists.sound lists.clock looks (Nat.succ_le_of_lt (Int.lt_toNat.mpr looks.1))
        have nothing : (handedIDs v q 1).filterMap (claimIn lib v) = [] := by
          simp [handedIDs_eq, first, worth]
        refine ⟨_, t, run, lists.turn sound' turn, .inl ⟨nothing, skimmed.turn turn stream nothing,
          length_backlog_turn length stream⟩⟩
      · obtain ⟨t, run, turn, stream, sound'⟩ := exists_turn lib workerID visibilityTimeoutMs
          count.toNat lists.sound lists.clock looks (by simp)
        have more : (handedIDs v q count.toNat).filterMap (claimIn lib v) ≠ [] := by
          obtain ⟨n, asked⟩ := Nat.exists_eq_add_of_lt (Int.lt_toNat.mpr (Int.lt_of_add_one_le some))
          intro nothing
          exact worth (List.filterMap_eq_nil_iff.mp nothing j (by simp [handedIDs_eq, first, asked]))
        refine ⟨_, t, run, lists.turn sound' turn,
          .inr ⟨(limitedIn_turn turn more).trans throttled', ?_⟩⟩
        rw [jobsOf_own lists.sound]
        exact skimmed.offer_all throttled first worth
    · exact ⟨jobs, v, exists_pass lists.sound lists.clock fun looks => by
        simp [LooksAt, lists.same q List.mem_cons_self, limited] at looks, lists.pass,
        .inr ⟨limited, all⟩⟩
  · refine ⟨_, t, run, ?_⟩
    obtain ⟨dead, split, unclaimed⟩ := skimmed.skipped
    rw [offered, if_pos throttled, split, List.length_eq_zero_iff.mp ends,
      dropWhile_of_dead fun j mem => by simp [unclaimed j mem]]
    simp [jobsOf]
  · exact ⟨jobs, t, run, all⟩

theorem exists_fetch_offered (lib : Externals) (workerID : String) (visibilityTimeoutMs : Int)
    (sound : Sound w) (some : 1 ≤ count) (attended : pausedIn w queue = false)
    (unlimited : limitedIn w queue w.clock = false) :
    ∃ jobs t, serves.Exec (fetch lib (List.replicate (backlog w queue).length queue) count workerID
      visibilityTimeoutMs) w jobs t ∧ jobsOf queue jobs = offered lib w queue count.toNat := by
  cases throttled : throttledIn w queue with
  | true =>
    exact exists_fetch_throttled lib workerID visibilityTimeoutMs sound some attended unlimited
      throttled
  | false =>
    obtain ⟨jobs, t, run, own, ends⟩ := exists_fetch_live lib count workerID visibilityTimeoutMs
      sound attended unlimited throttled
    have split := wp_fetch_live queue sound jobs t run
    have few := (wp_fetch_handsOut sound jobs t run).1
    refine ⟨jobs, t, run, ?_⟩
    rw [offered, if_neg (by simp [throttled]), ← split]
    rcases ends with enough | empty
    · have length : (jobsOf queue jobs).length = count.toNat := by
        rw [own]
        omega
      rw [← length, List.take_left]
    · have nothing : liveIn lib t queue = [] := by
        rw [liveIn, List.length_eq_zero_iff.mp empty, List.filterMap_nil]
      rw [nothing, List.append_nil, List.take_of_length_le (own.symm ▸ few)]

end OneQueue

/-- The fetches return the jobs of a queue by priority exactly if the queue is closed to them
or what it offers happens to lie in its stream by priority. -/
theorem fetch_byPriority_iff {count : Int} (reachable : Reachable lib w) (queue : String) :
    (∀ queues workerID visibilityTimeoutMs,
      serves.wp (fetch lib queues count workerID visibilityTimeoutMs)
        (fun jobs _ => ByPriority (jobs.filter fun job => job.queue = queue)) w) ↔
    pausedIn w queue = true ∨ limitedIn w queue w.clock = true ∨
      ByPriority (offered lib w queue count.toNat) := by
  have sound := reachable.sound
  constructor
  · intro ordered
    by_contra disordered
    obtain ⟨attended, unlimited, disordered⟩ : pausedIn w queue = false ∧
        limitedIn w queue w.clock = false ∧ ¬ ByPriority (offered lib w queue count.toNat) := by
      simpa using disordered
    have some : 1 ≤ count := by
      by_contra none
      refine disordered ?_
      have nothing : offered lib w queue count.toNat = [] := by
        rw [Int.toNat_of_nonpos (by omega), offered]
        split <;> rfl
      rw [nothing]
      exact List.Pairwise.nil
    obtain ⟨jobs, t, run, all⟩ := exists_fetch_offered lib "" 0 sound some attended unlimited
    exact disordered (all ▸ ordered _ _ _ jobs t run)
  · rintro closed queues workerID visibilityTimeoutMs jobs t run
    rcases or_assoc.mpr closed with closed | ordered
    · have none : jobsOf queue jobs = [] := wp_fetch_closed sound closed jobs t run
      rw [← jobsOf, none]
      exact List.Pairwise.nil
    · have part : jobsOf queue jobs <+: offered lib w queue count.toNat :=
        wp_fetch_offered sound jobs t run
      exact ordered.sublist part.sublist

/-- A queue whose first message is that of its only urgent job. -/
def urgentFirst : List Cue :=
  [.call (.push { id := "job-1", queue := "mails", priority := some 5 }),
    .call (.push { id := "job-2", queue := "mails", priority := some 1 })]

theorem fetch_byPriority_iff_urgentFirst : ∃ w jobs t,
    playFetch urgentFirst ["mails"] 2 = some (w, jobs, t) ∧
    ByPriority (jobs.filter fun job => job.queue = "mails") ∧ jobs.length = 2 := by
  have plays : (playFetch urgentFirst ["mails"] 2).isSome := by decide
  obtain ⟨⟨w, jobs, t⟩, plays⟩ := Option.isSome_iff_exists.mp plays
  have facts : (playFetch urgentFirst ["mails"] 2).map (fun r =>
      ((offered sample r.1 "mails" 2).map Job.priority, r.2.1.length)) =
      some ([some 5, some 1], 2) := by decide
  rw [plays] at facts
  obtain ⟨offer, length⟩ := Prod.mk.inj (Option.some.inj facts)
  obtain ⟨reachable, run⟩ := execute_of_playFetch plays
  have ordered : ByPriority (offered sample w "mails" (2 : Int).toNat) := by
    rw [byPriority_iff, show (2 : Int).toNat = 2 from rfl, offer]
    decide
  exact ⟨w, jobs, t, plays, (fetch_byPriority_iff reachable "mails").mpr (.inr (.inr ordered)) _ _ _
    jobs t (exec_of_execute run), length⟩

/-- The urgent job comes second. -/
def urgentLast : List Cue :=
  [.call (.push { id := "job-1", queue := "mails", priority := some 1 }),
    .call (.push { id := "job-2", queue := "mails", priority := some 5 })]

theorem not_fetch_byPriority : ¬ ∀ (lib : Externals) (w t : World) (queues : List String)
    (count : Int) (workerID : String) (visibilityTimeoutMs : Int) (jobs : List Job) (queue : String),
    Reachable lib w →
    serves.Exec (fetch lib queues count workerID visibilityTimeoutMs) w jobs t →
    ByPriority (jobs.filter fun job => job.queue = queue) := by
  intro ordered
  have plays : (playFetch urgentLast ["mails"] 2).isSome := by decide
  obtain ⟨⟨w, jobs, t⟩, plays⟩ := Option.isSome_iff_exists.mp plays
  have returned : (playFetch urgentLast ["mails"] 2).map (fun r =>
      (r.2.1.filter fun job => job.queue = "mails").map Job.priority) =
      some [some 1, some 5] := by decide
  rw [plays, Option.map_some, Option.some_inj] at returned
  obtain ⟨reachable, run⟩ := execute_of_playFetch plays
  have wrong := ordered sample w t _ _ _ _ jobs "mails" reachable (exec_of_execute run)
  rw [byPriority_iff, returned] at wrong
  revert wrong
  decide

end OjsNats.Lifecycle
