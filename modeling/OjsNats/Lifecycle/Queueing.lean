import OjsNats.Lifecycle.Delivering
import OjsNats.Lifecycle.Failures
import OjsNats.Lifecycle.Pacing

/-!
# First come, first served

The messages of a queue leave its backlog in the order in which they came.  Only a fetch takes
them, and it hands out the jobs of all the messages it takes that are still worth it, so no job
is overtaken by one that came to its queue later.
-/

namespace OjsNats.Lifecycle

open Core Nats Effect Semantics Program

variable {lib : Externals} {w v t : World} {queue workerID : String} {j : String}
  {trace : List Passage}

/-- The jobs of the queue that a step hands out. -/
def handouts (queue : String) (p : Passage) : List Job :=
  match p.event with
  | .call (.fetch _ _ _ _) (.jobs jobs) => jobsOf queue jobs
  | _ => []

def Event.fetches : Event → Bool
  | .call served _ => served.operation = .fetch
  | .tick => false

/-- What a step adds to the backlog of a queue. -/
def arrivals (queue : String) (p : Passage) : List String :=
  if p.event.fetches then [] else (backlog p.after queue).drop (backlog p.before queue).length

/-- What a step takes from it. -/
def departures (queue : String) (p : Passage) : List String :=
  if p.event.fetches then
    (backlog p.before queue).take ((backlog p.before queue).length - (backlog p.after queue).length)
  else []

/-! ## One step -/

/-- A fetch takes the first messages of the queue, and hands out what can be claimed of them. -/
theorem wp_fetch_departures {queues : List String} {count visibilityTimeoutMs : Int}
    (sound : Sound w) : serves.wp (fetch lib queues count workerID visibilityTimeoutMs)
      (fun jobs t => ∃ out, backlog w queue = out ++ backlog t queue ∧
        jobsOf queue jobs = out.filterMap (claimIn lib w)) w := by
  refine (wp_fetch_turns queue (fun jobs v => ∃ out, backlog w queue = out ++ backlog v queue ∧
    jobsOf queue jobs = out.filterMap (claimIn lib w) ∧
    ∀ j ∈ backlog v queue, claimIn lib v j = claimIn lib w j) sound
      ⟨[], rfl, rfl, fun _ _ => rfl⟩ ?_ ?_).mono ?_
  · rintro jobs v n t ⟨out, split, claimed, waiting⟩ sound' - - - turn stream
    refine ⟨out ++ handedIDs v queue n, ?_, ?_, fun j mem => ?_⟩
    · rw [split, backlog_taken queue stream, if_pos rfl, handedIDs_eq, List.append_assoc,
        List.take_append_drop]
    · have same : (handedIDs v queue n).filterMap (claimIn lib v) =
          (handedIDs v queue n).filterMap (claimIn lib w) := by
        refine List.filterMap_congr fun j mem => waiting j ?_
        rw [handedIDs_eq] at mem
        exact List.mem_of_mem_take mem
      rw [jobsOf_own sound', claimed, same, List.filterMap_append]
    · exact (turn.waiting mem).trans (waiting j (backlog_subset stream mem))
  · rintro jobs v other n t ⟨out, split, claimed, waiting⟩ sound' - ne turn stream
    refine ⟨out, ?_, ?_, fun j mem => ?_⟩
    · rw [backlog_taken queue stream, if_neg ne, split]
    · rw [jobsOf_other (Ne.symm ne) sound', claimed]
    · exact (turn.waiting mem).trans (waiting j (backlog_subset stream mem))
  · rintro jobs t ⟨out, split, claimed, -⟩
    exact ⟨out, split, claimed⟩

/-- More messages in the stream are more messages at the end of each backlog. -/
theorem backlog_prefix (more : w.stream <+: t.stream) (queue : String) :
    backlog w queue <+: backlog t queue :=
  (more.filter fun m : Msg => decide (m.subject = queueJobsSubject queue)).map Msg.data

theorem Step.backlog {event : Event} (step : Step lib w event t) (sound : Sound w)
    (queue : String) : backlog w queue ++ arrivals queue ⟨w, event, t⟩ =
        departures queue ⟨w, event, t⟩ ++ backlog t queue ∧
      handouts queue ⟨w, event, t⟩ =
        (departures queue ⟨w, event, t⟩).filterMap (claimIn lib w) := by
  have grows (quiet : event.fetches = false) (more : w.stream <+: t.stream)
      (none : handouts queue ⟨w, event, t⟩ = []) :
      Lifecycle.backlog w queue ++ arrivals queue ⟨w, event, t⟩ =
        departures queue ⟨w, event, t⟩ ++ Lifecycle.backlog t queue ∧
      handouts queue ⟨w, event, t⟩ =
        (departures queue ⟨w, event, t⟩).filterMap (claimIn lib w) := by
    obtain ⟨new, whole⟩ := backlog_prefix more queue
    simp [arrivals, departures, quiet, none, ← whole]
  cases step with
  | tick => exact grows rfl List.prefix_rfl rfl
  | call fresh run =>
    rename_i call reply
    by_cases fetches : call.operation = .fetch
    · cases call with
      | fetch queues count workerID visibilityTimeoutMs =>
        obtain ⟨jobs, rfl, ends⟩ := exec_reply run
        obtain ⟨out, split, claimed⟩ : ∃ out, Lifecycle.backlog w queue =
            out ++ Lifecycle.backlog t queue ∧ jobsOf queue jobs = out.filterMap (claimIn lib w) :=
          wp_fetch_departures (sound.accept _) jobs t ends
        have out_eq : departures queue ⟨w, .call (.fetch queues count workerID visibilityTimeoutMs)
            (.jobs jobs), t⟩ = out := by
          simp [departures, Event.fetches, Call.operation, split]
        rw [out_eq]
        exact ⟨by simpa [arrivals, Event.fetches, Call.operation] using split, claimed⟩
      | _ => cases fetches
    · have more : w.stream <+: t.stream := stream_prefix (w := w.accept call) fetches run
      refine grows (by simpa [Event.fetches] using fetches) more ?_
      cases call with
      | fetch => exact absurd rfl fetches
      | _ => rfl

/-! ## Runs -/

theorem nodup_backlog (sound : Sound w) (queue : String) : (backlog w queue).Nodup := by
  have all := nodup_delivered (queueJobsSubject queue) (backlog w queue).length sound.single
  rwa [← handedIDs, handedIDs_eq, List.take_length] at all

/-- The messages come out in the order in which they came in, and what is handed out is what
they are worth. -/
theorem Run.fifo (run : Run lib w trace t) (sound : Sound w) (queue : String) :
    backlog w queue ++ trace.flatMap (arrivals queue) =
        trace.flatMap (departures queue) ++ backlog t queue ∧
      trace.flatMap (handouts queue) =
        trace.flatMap fun p => (departures queue p).filterMap (claimIn lib p.before) := by
  refine run.holds (I := fun trace t =>
    backlog w queue ++ trace.flatMap (arrivals queue) =
        trace.flatMap (departures queue) ++ backlog t queue ∧
      trace.flatMap (handouts queue) =
        trace.flatMap fun p => (departures queue p).filterMap (claimIn lib p.before))
    sound ⟨by simp, rfl⟩ ?_
  rintro done p - sound step ⟨before, handouts'⟩
  obtain ⟨split, claimed⟩ := step.backlog sound queue
  constructor
  · rw [List.flatMap_append, List.flatMap_append, List.flatMap_singleton, List.flatMap_singleton,
      ← List.append_assoc, before, List.append_assoc, split, List.append_assoc]
  · rw [List.flatMap_append, List.flatMap_append, List.flatMap_singleton, List.flatMap_singleton,
      handouts', claimed]

/-- Where the second of two elements has gone from the front, so has the first. -/
theorem mem_of_ahead {α : Type} {a b : α} {xs later out rest : List α} (single : xs.Nodup)
    (ahead : [a, b].Sublist xs) (split : xs ++ later = out ++ rest) (gone : b ∈ out) : a ∈ out := by
  obtain ⟨front, back, rfl, first, second⟩ := List.cons_sublist_iff.mp ahead
  obtain ⟨pre, mid, rfl⟩ := List.append_of_mem first
  have after : b ∈ back := List.singleton_sublist.mp second
  by_contra stays
  have same : pre ++ a :: (mid ++ back ++ later) = out ++ rest := by
    rw [← split]
    simp
  -- what is out ends before the first element
  have ends : out <+: pre := by
    rcases List.prefix_or_prefix_of_prefix (List.prefix_append pre (a :: (mid ++ back ++ later)))
      (same ▸ List.prefix_append out rest) with ⟨more, rfl⟩ | short
    · rw [List.append_assoc pre more rest, List.append_cancel_left_eq] at same
      cases more with
      | nil => simp
      | cons c more =>
        obtain ⟨rfl, -⟩ := List.cons.inj same
        exact absurd (List.mem_append_right pre List.mem_cons_self) stays
    · exact short
  have twice : b ∈ pre := ends.subset gone
  exact (List.nodup_append.mp single).2.2 b (List.mem_append_left _ twice) b after rfl

/-- A job of which a message has been taken was handed out, if it could be claimed. -/
theorem Run.taken (run : Run lib w trace t) (sound : Sound w)
    (gone : j ∈ trace.flatMap (departures queue)) : ∃ p ∈ trace, j ∈ departures queue p ∧
      (claimIn lib p.before j = none ∨ j ∈ (handouts queue p).map Job.id) := by
  obtain ⟨p, mem, takes⟩ := List.mem_flatMap.mp gone
  refine ⟨p, mem, takes, ?_⟩
  obtain ⟨sound', step⟩ := run.step_of_mem sound mem
  have claimed : handouts queue p = (departures queue p).filterMap (claimIn lib p.before) :=
    (step.backlog sound' queue).2
  cases claims : claimIn lib p.before j with
  | none => exact .inl rfl
  | some job =>
    rw [claimed]
    have same := (claimIn_eq_some sound' claims).1
    exact .inr (List.mem_map.mpr ⟨job, List.mem_filterMap.mpr ⟨j, takes, claims⟩, same⟩)

theorem departed_of_handed {p : Passage} (sound : Sound p.before)
    (step : Step lib p.before p.event p.after) (served : j ∈ (handouts queue p).map Job.id) :
    j ∈ departures queue p := by
  obtain ⟨job, mem, rfl⟩ := List.mem_map.mp served
  have claimed : handouts queue p = (departures queue p).filterMap (claimIn lib p.before) :=
    (step.backlog sound queue).2
  rw [claimed] at mem
  obtain ⟨k, takes, claims⟩ := List.mem_filterMap.mp mem
  rwa [(claimIn_eq_some sound claims).1]

/-- A run takes the messages of each queue in the order in which they came, and hands out the
jobs of all of them that can be claimed at that moment.  So when a job is handed out, those that
were ahead of it have been handed out before, or could not be claimed when their turn came. -/
theorem first_come_first_served (reachable : Reachable lib w) (run : Run lib w trace t)
    (queue : String) :
    (backlog w queue ++ trace.flatMap (arrivals queue) =
        trace.flatMap (departures queue) ++ backlog t queue ∧
      trace.flatMap (handouts queue) =
        trace.flatMap fun p => (departures queue p).filterMap (claimIn lib p.before)) ∧
    ∀ a b, [a, b].Sublist (backlog w queue) → ∀ done p rest, trace = done ++ p :: rest →
      b ∈ (handouts queue p).map Job.id → ∃ p' ∈ done ++ [p], a ∈ departures queue p' ∧
        (claimIn lib p'.before a = none ∨ a ∈ (handouts queue p').map Job.id) := by
  refine ⟨run.fifo reachable.sound queue, ?_⟩
  rintro a b ahead done p rest rfl served
  have sound := reachable.sound
  obtain ⟨before, step⟩ := run.split
  have first : Run lib w (done ++ [p]) p.after := before.snoc step
  have gone : b ∈ (done ++ [p]).flatMap (departures queue) :=
    List.mem_flatMap.mpr ⟨p, by simp, departed_of_handed (before.sound sound) step served⟩
  exact first.taken sound
    (mem_of_ahead (nodup_backlog sound queue) ahead (first.fifo sound queue).1 gone)

/-- The first of two jobs is cancelled and only the second one is worth it. -/
def firstWithdrawn : List Cue :=
  [.call (.cancel "job-1"), .call (.push { id := "job-3", queue := "mails" }),
    .call (.fetch ["mails"] 2 "worker-1" 0)]

theorem first_come_first_served_firstWithdrawn : ∃ w trace t,
    playOn twoMails firstWithdrawn = some (w, trace, t) ∧
    ((trace.flatMap (handouts "mails")).map Job.id = ["job-2"] ∧ backlog t "mails" = ["job-3"]) ∧
    backlog w "mails" ++ trace.flatMap (arrivals "mails") =
      trace.flatMap (departures "mails") ++ backlog t "mails" := by
  have plays : (playOn twoMails firstWithdrawn).isSome := by decide
  obtain ⟨⟨w, trace, t⟩, plays⟩ := Option.isSome_iff_exists.mp plays
  have facts : (playOn twoMails firstWithdrawn).map (fun r =>
      ((r.2.1.flatMap (handouts "mails")).map Job.id, backlog r.2.2 "mails")) =
      some (["job-2"], ["job-3"]) := by decide
  rw [plays, Option.map_some, Option.some_inj] at facts
  obtain ⟨reachable, played⟩ := run_of_playOn plays
  exact ⟨w, trace, t, plays, Prod.mk.inj facts,
    (first_come_first_served reachable (run_of_play played) "mails").1.1⟩

end OjsNats.Lifecycle
