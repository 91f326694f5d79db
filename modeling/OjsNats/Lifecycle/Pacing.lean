import OjsNats.Lifecycle.Precedence

/-!
# The pace of the fetches

A rate limit of `r` keeps the fetches that return jobs of the queue `1000 / r`
milliseconds apart.  How many jobs each of them returns is up to its count.
-/

namespace OjsNats.Lifecycle

open Core Nats Effect Semantics Program

variable {lib : Externals} {w v t : World} {queue workerID : String}

/-! ## The limiter -/

/-- The rate limit and the last fetch that the record of a queue holds. -/
def paceOf (w : World) (queue : String) : Int × Int :=
  match w.value .queues queue with
  | some stored => (QueueMeta.rateLimitPerSec stored, QueueMeta.lastFetchMs stored)
  | none => (0, 0)

theorem limitedIn_eq (w : World) (queue : String) (now : Int) : limitedIn w queue now =
    if (paceOf w queue).1 ≤ 0 then false
    else decide (unixMilli now - (paceOf w queue).2 < Int.tdiv 1000 (paceOf w queue).1) := by
  rw [limitedIn, paceOf]
  cases w.value .queues queue <;> rfl

theorem paceOf_turn {visibilityTimeoutMs : Int} {ids : List String}
    (turn : Turn lib queue workerID visibilityTimeoutMs ids [] v t)
    (some : ids.filterMap (claimIn lib v) ≠ []) :
    paceOf t queue = ((paceOf v queue).1, unixMilli v.clock) := by
  have any : (ids.any fun j => (claimIn lib v j).isSome) = true := by
    obtain ⟨job, mem⟩ := List.exists_mem_of_ne_nil _ some
    obtain ⟨j, mem, claims⟩ := List.mem_filterMap.mp mem
    exact List.any_eq_true.mpr ⟨j, mem, by simp [claims]⟩
  rw [paceOf, turn.queues queue, if_pos ⟨rfl, any⟩, paceOf]
  cases v.value .queues queue <;> rfl

/-- A fetch that returns jobs of a queue was let through by the limiter, and notes its time. -/
theorem wp_fetch_pace {queues : List String} {count visibilityTimeoutMs : Int} (queue : String)
    (sound : Sound w) : serves.wp (fetch lib queues count workerID visibilityTimeoutMs)
      (fun jobs t => jobsOf queue jobs = [] ∧ paceOf t queue = paceOf w queue ∨
        limitedIn w queue w.clock = false ∧
          paceOf t queue = ((paceOf w queue).1, unixMilli w.clock)) w := by
  refine wp_fetch_turns queue _ sound (.inl ⟨rfl, rfl⟩) ?_ ?_
  · intro jobs v n t before sound' clock looks _ turn _
    rw [jobsOf_own sound']
    by_cases nothing : (handedIDs v queue n).filterMap (claimIn lib v) = []
    · have same : paceOf t queue = paceOf v queue := by
        rw [paceOf, turn.idle (List.filterMap_eq_nil_iff.mp nothing), ← paceOf]
      rw [nothing, List.append_nil, same]
      exact before
    · refine .inr ?_
      rw [paceOf_turn turn nothing, clock]
      rcases before with ⟨-, same⟩ | ⟨unlimited, noted⟩
      · have unlimited := looks.2.2
        rw [limitedIn_eq, same, clock, ← limitedIn_eq] at unlimited
        exact ⟨unlimited, by rw [same]⟩
      · exact ⟨unlimited, by rw [noted]⟩
  · intro jobs v other n t before sound' _ ne turn _
    have same : paceOf t queue = paceOf v queue := by
      rw [paceOf, turn.queues queue, if_neg fun h => ne h.1, ← paceOf]
    rw [jobsOf_other (Ne.symm ne) sound', same]
    exact before

/-! ## The fetches of a run -/

/-- The time and the count of a step that fetches from the queue. -/
def askedFor (queue : String) (p : Passage) : Option (Int × Nat) :=
  match p.event with
  | .call (.fetch queues count _ _) _ =>
      if queue ∈ queues then some (p.before.clock, count.toNat) else none
  | _ => none

/-- The number of jobs of the queue that a step returns to its caller as fetched. -/
def handedOut (queue : String) (p : Passage) : Nat :=
  match p.event with
  | .call (.fetch _ _ _ _) (.jobs jobs) => (jobsOf queue jobs).length
  | _ => 0

/-- A step hands out jobs of a queue only if it asks for as many. -/
theorem Step.handedOut_le {event : Event} (step : Step lib w event t) (sound : Sound w)
    (some : 0 < handedOut queue ⟨w, event, t⟩) :
    ∃ n, askedFor queue ⟨w, event, t⟩ = Option.some (w.clock, n) ∧
      handedOut queue ⟨w, event, t⟩ ≤ n := by
  cases step with
  | tick => simp [handedOut] at some
  | @call _ call reply fresh run =>
    cases call with
    | fetch queues count workerID visibilityTimeoutMs =>
      obtain ⟨jobs, rfl, ran⟩ := exec_reply run
      obtain ⟨few, handsOut⟩ := wp_fetch_handsOut (sound.accept _) jobs t ran
      obtain ⟨job, mem⟩ := List.exists_mem_of_length_pos some
      obtain ⟨mem, own⟩ := List.mem_filter.mp mem
      obtain ⟨rec, -, -, -, requested, -, same⟩ := handsOut.before job mem
      have queue_eq : rec.queue = queue := by simpa [same] using own
      exact ⟨count.toNat, if_pos (queue_eq ▸ requested),
        (List.length_filter_le _ jobs).trans few⟩
    | _ => simp [handedOut] at some

/-- Apart from the fetches, nothing changes the limit of the queue or its last fetch. -/
def KeepsPace (queue : String) (trace : List Passage) : Prop :=
  ∀ p ∈ trace, p.event.Meets (fun call => call.operation ≠ .fetch) →
    paceOf p.after queue = paceOf p.before queue

theorem Step.pace {event : Event} (step : Step lib w event t) (sound : Sound w)
    (steady : event.Meets (fun call => call.operation ≠ .fetch) →
      paceOf t queue = paceOf w queue) :
    handedOut queue ⟨w, event, t⟩ = 0 ∧ paceOf t queue = paceOf w queue ∨
      limitedIn w queue w.clock = false ∧
        paceOf t queue = ((paceOf w queue).1, unixMilli w.clock) := by
  cases step with
  | tick => exact .inl ⟨rfl, steady trivial⟩
  | @call _ call reply fresh run =>
    cases call with
    | fetch queues count workerID visibilityTimeoutMs =>
      obtain ⟨jobs, rfl, ran⟩ := exec_reply run
      refine (wp_fetch_pace queue (sound.accept _) jobs t ran).imp_left fun ⟨nothing, same⟩ => ?_
      exact ⟨by simp [handedOut, nothing], same⟩
    | _ => exact .inl ⟨rfl, steady (by simp [Event.Meets, Call.operation])⟩

/-- The steps that hand out jobs of a queue are as far apart as its limiter wants. -/
theorem Run.spaced {trace : List Passage} {rate : Int} (run : Run lib w trace t) (sound : Sound w)
    (positive : 1 ≤ rate) (limit : (paceOf w queue).1 = rate) (steady : KeepsPace queue trace) :
    (∀ p ∈ trace.filter (0 < handedOut queue ·),
      Int.tdiv 1000 rate ≤ unixMilli p.before.clock - (paceOf w queue).2) ∧
    (trace.filter (0 < handedOut queue ·)).Pairwise fun p q =>
      Int.tdiv 1000 rate ≤ unixMilli q.before.clock - unixMilli p.before.clock := by
  have gap : 0 ≤ Int.tdiv 1000 rate := Int.tdiv_nonneg (by decide) (by omega)
  induction run with
  | nil => simp
  | @cons w m t event rest step _ ih =>
    have steady' : KeepsPace queue rest := fun p mem => steady p (List.mem_cons_of_mem _ mem)
    rcases step.pace sound (steady _ List.mem_cons_self) with
      ⟨none, same⟩ | ⟨unlimited, noted⟩
    · rw [List.filter_cons_of_neg (by simp [none])]
      rw [← same] at limit ⊢
      exact ih (step.sound sound) limit steady'
    · obtain ⟨later, pairwise⟩ := ih (step.sound sound) (by rw [noted]; exact limit) steady'
      rw [noted] at later
      rw [limitedIn_eq, limit, if_neg (by omega)] at unlimited
      have far : Int.tdiv 1000 rate ≤ unixMilli w.clock - (paceOf w queue).2 := by
        simpa using unlimited
      have far' : ∀ p ∈ rest.filter (0 < handedOut queue ·),
          Int.tdiv 1000 rate ≤ unixMilli p.before.clock - (paceOf w queue).2 := by
        intro p mem
        have := later p mem
        dsimp only at this
        omega
      by_cases some : 0 < handedOut queue ⟨w, event, m⟩
      · rw [List.filter_cons_of_pos (by simpa using some)]
        exact ⟨List.forall_mem_cons.mpr ⟨far, far'⟩, List.pairwise_cons.mpr ⟨later, pairwise⟩⟩
      · rw [List.filter_cons_of_neg (by simpa using some)]
        exact ⟨far', pairwise⟩

/-! ## Windows -/

/-- Half-open windows of a second, in nanoseconds. -/
def InWindow (x : Int) (time : Int) : Prop := x ≤ time ∧ time < x + 1000 * 1000000

instance (x time : Int) : Decidable (InWindow x time) := inferInstanceAs (Decidable (_ ∧ _))

/-- Whichever fetches of a window are as far apart as the limiter wants, they ask for no more
jobs than the limit. -/
def Paced (rate : Int) (fetches : List (Int × Nat)) : Prop :=
  ∀ x (chosen : List (Int × Nat)), chosen.Sublist fetches → (∀ c ∈ chosen, InWindow x c.1) →
    chosen.Pairwise (fun a b => Int.tdiv 1000 rate ≤ unixMilli b.1 - unixMilli a.1) →
    ((chosen.map Prod.snd).sum : Int) ≤ rate

/-- The number of jobs of the queue that the fetches of a window return. -/
def handedOutWithin (queue : String) (trace : List Passage) (x : Int) : Nat :=
  ((trace.filter fun p => InWindow x p.before.clock).map (handedOut queue)).sum

theorem sum_filter_pos {α : Type} (f : α → Nat) (xs : List α) :
    ((xs.filter (0 < f ·)).map f).sum = (xs.map f).sum := by
  induction xs with
  | nil => rfl
  | cons x rest ih =>
    by_cases some : 0 < f x
    · rw [List.filter_cons_of_pos (by simpa using some), List.map_cons, List.map_cons,
        List.sum_cons, List.sum_cons, ih]
    · rw [List.filter_cons_of_neg (by simpa using some), List.map_cons, List.sum_cons, ih]
      omega

theorem sum_asked_le {trace : List Passage}
    (asked : ∀ p ∈ trace, ∃ n, askedFor queue p = some (p.before.clock, n) ∧ handedOut queue p ≤ n) :
    (trace.map (handedOut queue)).sum ≤ ((trace.filterMap (askedFor queue)).map Prod.snd).sum := by
  induction trace with
  | nil => exact le_rfl
  | cons p rest ih =>
    obtain ⟨n, calls, le⟩ := asked p List.mem_cons_self
    rw [List.filterMap_cons_some calls, List.map_cons, List.map_cons, List.sum_cons, List.sum_cons]
    exact Nat.add_le_add le (ih fun p mem => asked p (List.mem_cons_of_mem _ mem))

/-- In a run whose fetches from a queue are paced, no window has more jobs of the queue
fetched than its rate limit allows. -/
theorem handedOut_le_rate {trace : List Passage} {rate : Int} (reachable : Reachable lib w)
    (run : Run lib w trace t) (positive : 1 ≤ rate) (limit : (paceOf w queue).1 = rate)
    (steady : KeepsPace queue trace) (paced : Paced rate (trace.filterMap (askedFor queue))) (x : Int) :
    (handedOutWithin queue trace x : Int) ≤ rate := by
  have sound := reachable.sound
  have spaced := (run.spaced sound positive limit steady).2
  let within := (trace.filter fun p => InWindow x p.before.clock).filter (0 < handedOut queue ·)
  have asked : ∀ p ∈ within, InWindow x p.before.clock ∧ ∃ n,
      askedFor queue p = some (p.before.clock, n) ∧ handedOut queue p ≤ n := by
    intro p mem
    obtain ⟨mem, some⟩ := List.mem_filter.mp mem
    obtain ⟨mem, inside⟩ := List.mem_filter.mp mem
    obtain ⟨sound', step⟩ := run.step_of_mem sound mem
    exact ⟨by simpa using inside, step.handedOut_le sound' (by simpa using some)⟩
  have sublist : (within.filterMap (askedFor queue)).Sublist (trace.filterMap (askedFor queue)) :=
    (List.filter_sublist.trans List.filter_sublist).filterMap _
  have apart : within.Pairwise fun p q =>
      Int.tdiv 1000 rate ≤ unixMilli q.before.clock - unixMilli p.before.clock := by
    refine spaced.sublist ?_
    rw [show within = _ from List.filter_comm ..]
    exact List.filter_sublist
  have few := paced x _ sublist ?_ ?_
  · have total := sum_asked_le fun p mem => (asked p mem).2
    rw [sum_filter_pos] at total
    rw [handedOutWithin]
    omega
  · intro c mem
    obtain ⟨p, mem, calls⟩ := List.mem_filterMap.mp mem
    obtain ⟨inside, n, calls', -⟩ := asked p mem
    cases calls.symm.trans calls'
    exact inside
  · refine List.pairwise_filterMap.mpr ((List.Pairwise.and_mem.mp apart).imp ?_)
    rintro p q ⟨memp, memq, far⟩ a callsa b callsb
    obtain ⟨-, n, calls, -⟩ := asked p memp
    obtain ⟨-, n', calls', -⟩ := asked q memq
    cases calls.symm.trans callsa
    cases calls'.symm.trans callsb
    exact far

theorem Step.steady {event : Event} (step : Step lib w event t)
    (only : event.Meets fun call => call.operation = .fetch)
    (quiet : event.Meets fun call => call.operation ≠ .fetch) : paceOf t queue = paceOf w queue := by
  cases step with
  | call => exact absurd only quiet
  | tick => rfl

theorem Run.steady {trace : List Passage} (run : Run lib w trace t) (sound : Sound w)
    (only : ∀ p ∈ trace, p.event.Meets fun call => call.operation = .fetch) :
    KeepsPace queue trace :=
  fun p mem quiet => (run.step_of_mem sound mem).2.steady (only p mem) quiet

/-- Play a run, and another one from where it ends. -/
def playOn (cues cues' : List Cue) : Option (World × List Passage × World) :=
  (play (World.start (Sample.instant 0)) cues).bind fun played =>
    (play played.2 cues').map fun ended => (played.2, ended)

theorem run_of_playOn {cues cues' : List Cue} {trace : List Passage}
    (plays : playOn cues cues' = some (w, trace, t)) :
    Reachable sample w ∧ play w cues' = some (trace, t) := by
  obtain ⟨⟨trace', v⟩, played, ended⟩ := Option.bind_eq_some_iff.mp plays
  obtain ⟨⟨trace'', v'⟩, run, same⟩ := Option.map_eq_some_iff.mp ended
  cases same
  exact ⟨(run_of_play played).reachable (.start (by decide)), run⟩

/-- Two jobs wait in a queue that may be served once a second. -/
def limitedMails : List Cue :=
  [.call (.push { id := "job-1", queue := "mails", rateLimit := some { maxPerSecond := 1 } }),
    .call (.push { id := "job-2", queue := "mails" })]

def onceASecond : List Cue :=
  [.call (.fetch ["mails"] 1 "worker-1" 0), .wait 1, .call (.fetch ["mails"] 1 "worker-1" 0)]

/-- Two fetches of one job, a second apart. -/
theorem paced_onceASecond : Paced 1 [(Sample.instant 0, 1), (Sample.instant 1, 1)] := by
  intro x chosen sublist inside _
  rcases List.sublist_cons_iff.mp sublist with within | ⟨rest, rfl, within⟩
  · have few := within.length_le
    rcases List.sublist_singleton.mp within with rfl | rfl <;> simp
  · rcases List.sublist_singleton.mp within with rfl | rfl
    · simp
    · have first := inside (Sample.instant 0, 1) (by simp)
      have second := inside (Sample.instant 1, 1) (by simp)
      simp only [InWindow, Sample.instant] at first second
      omega

theorem handedOut_le_rate_onceASecond : ∃ w trace t,
    playOn limitedMails onceASecond = some (w, trace, t) ∧
    (trace.map (handedOut "mails")).sum = 2 ∧ ∀ x, handedOutWithin "mails" trace x ≤ 1 := by
  have plays : (playOn limitedMails onceASecond).isSome := by decide
  obtain ⟨⟨w, trace, t⟩, plays⟩ := Option.isSome_iff_exists.mp plays
  have facts : (playOn limitedMails onceASecond).map (fun r => ((paceOf r.1 "mails").1,
      r.2.1.filterMap (askedFor "mails"), (r.2.1.map (handedOut "mails")).sum)) =
      some (1, [(Sample.instant 0, 1), (Sample.instant 1, 1)], 2) := by decide
  rw [plays] at facts
  obtain ⟨limit, facts⟩ := Prod.mk.inj (Option.some.inj facts)
  obtain ⟨asked, all⟩ := Prod.mk.inj facts
  obtain ⟨reachable, played⟩ := run_of_playOn plays
  have run := run_of_play played
  have only : ∀ p ∈ trace, p.event.Meets fun call => call.operation = .fetch :=
    meets_of_play played (by simp [onceASecond, Cue.Meets, Call.operation])
  refine ⟨w, trace, t, plays, all, fun x => ?_⟩
  have few := handedOut_le_rate reachable run le_rfl limit (run.steady reachable.sound only)
    (asked ▸ paced_onceASecond) x
  exact_mod_cast few

theorem not_handedOut_le_rate : ¬ ∀ (lib : Externals) (w t : World) (trace : List Passage)
    (queue : String) (rate x : Int), Reachable lib w → Run lib w trace t → 1 ≤ rate →
    (paceOf w queue).1 = rate → (∀ p ∈ trace, p.event.Meets fun call => call.operation = .fetch) →
    (handedOutWithin queue trace x : Int) ≤ rate := by
  intro limits
  let fetches : List Cue := [.call (.fetch ["mails"] 2 "worker-1" 0)]
  have plays : (playOn limitedMails fetches).isSome := by decide
  obtain ⟨⟨w, trace, t⟩, plays⟩ := Option.isSome_iff_exists.mp plays
  have facts : (playOn limitedMails fetches).map (fun r => ((paceOf r.1 "mails").1,
      handedOutWithin "mails" r.2.1 (Sample.instant 0))) = some (1, 2) := by decide
  rw [plays] at facts
  obtain ⟨limit, both⟩ := Prod.mk.inj (Option.some.inj facts)
  obtain ⟨reachable, played⟩ := run_of_playOn plays
  have only : ∀ p ∈ trace, p.event.Meets fun call => call.operation = .fetch :=
    meets_of_play played (by simp [fetches, Cue.Meets, Call.operation])
  have few := limits sample w t trace "mails" 1 (Sample.instant 0) reachable (run_of_play played)
    le_rfl limit only
  rw [both] at few
  exact absurd few (by decide)

end OjsNats.Lifecycle
