import OjsNats.Lifecycle.System

/-!
# The passes in any order

A pass treats each job of its index on its own, whatever the storage holds.
The order of the listing therefore does not matter, and a second pass at the
same time finds nothing to do.
-/

namespace OjsNats.Lifecycle

open Core Nats Effect Semantics Program

variable {lib : Externals} {w t : World} {k : String} {now : Int} {s : Slot}

/-- The passes of the scheduler and of the reaper. -/
inductive Pass where
  | promoteScheduled
  | promoteRetries
  | requeueStalled

namespace Pass

def program (lib : Externals) : Pass → Prog (Result Unit)
  | .promoteScheduled => Nats.promoteScheduled lib
  | .promoteRetries => Nats.promoteRetries lib
  | .requeueStalled => Nats.requeueStalled lib

/-- The job has an index entry whose time has come. -/
def Due (lib : Externals) (now : Int) (s : Slot) : Pass → Prop
  | .promoteScheduled => Lifecycle.Due (parseEither lib.parseRFC3339 lib.parseTime) now s.scheduled
  | .promoteRetries => Lifecycle.Due (parseEither lib.parseTime lib.parseRFC3339) now s.retry
  | .requeueStalled => Lifecycle.Stalled lib now s.active

/-- The index that a pass lists. -/
def index : Pass → BucketName
  | .promoteScheduled => .scheduled
  | .promoteRetries => .retry
  | .requeueStalled => .active

/-- What a promoting pass makes of a job with an entry in the index. -/
def promoted (lib : Externals) (b : BucketName) (now : Int) (s : Slot) : Slot :=
  match s.record with
  | none => s.write b none
  | some rec =>
      let rec' := marshalJobState (enqueuedJob lib .available now (unmarshalJobState rec))
      { (s.write .jobs (some rec')).write b none with
        messages := s.messages ++ [announcement now rec'] }

/-- What the reaper makes of a job with a lease that has run out. -/
def reaped (lib : Externals) (now : Int) (s : Slot) : Slot :=
  match s.record with
  | none => { s with active := none }
  | some rec =>
      if rec.state = .active then
        let rec' := marshalJobState (requeuedJob lib now (unmarshalJobState rec))
        { s with
          record := some rec'
          active := none
          inflight := none
          messages := s.messages ++ [announcement now rec'] }
      else { s with active := none }

/-- Only an active job goes back to its queue. -/
theorem reaped_of_inactive (inactive : ∀ rec, s.record = some rec → rec.state ≠ .active) :
    reaped lib now s = { s with active := none } := by
  unfold reaped
  split
  · rfl
  · rename_i rec stored
    exact if_neg (inactive rec stored)

/-- What a pass makes of a due job. -/
def treated (lib : Externals) (now : Int) (s : Slot) : Pass → Slot
  | .promoteScheduled => promoted lib .scheduled now s
  | .promoteRetries => promoted lib .retry now s
  | .requeueStalled => reaped lib now s

end Pass

/-! ## One turn -/

/-- Every record lies under its own id. -/
def UnderOwnIDs (w : World) : Prop := ∀ k rec, (w.slot k).record = some rec → rec.id = k

/-- A due job has been treated, and nothing else has happened. -/
structure Visited (lib : Externals) (pass : Pass) (k : String) (w t : World) : Prop where
  due : pass.Due lib w.clock (w.slot k) → Moved k (pass.treated lib w.clock (w.slot k)) w t
  idle : ¬ pass.Due lib w.clock (w.slot k) → t = w

theorem Visited.still {pass : Pass} (idle : ¬ pass.Due lib w.clock (w.slot k)) :
    Visited lib pass k w w :=
  ⟨fun due => absurd due idle, fun _ => rfl⟩

theorem Visited.move {pass : Pass} (due : pass.Due lib w.clock (w.slot k))
    (moved : Moved k (pass.treated lib w.clock (w.slot k)) w t) : Visited lib pass k w t :=
  ⟨fun _ => moved, fun idle => absurd due idle⟩

theorem wp_promoteJob {b : BucketName} {Q : FirstErr → World → Prop} (own : UnderOwnIDs w)
    (other : Guarded b = false) (what : String) (firstErr : FirstErr)
    (promoted : ∀ t, Moved k (Pass.promoted lib b w.clock (w.slot k)) w t → Q firstErr t) :
    serves.wp (promoteJob lib b what w.clock k firstErr) Q w := by
  cases stored : (w.slot k).record with
  | none =>
    simp only [promoteJob, bind_eq, wp_bind, wp_getJobState, World.job_of_none stored, wp_delete,
      pure_eq, wp_pure]
    apply promoted
    rw [Pass.promoted, stored]
    exact (Moved.refl k w).delete other
  | some rec =>
    obtain rfl : rec.id = k := own k rec stored
    simp only [promoteJob, bind_eq, wp_bind, wp_getJobState, World.job_of_record stored,
      wp_putJobState, wp_delete, wp_publishJob, pure_eq, wp_pure]
    apply promoted
    have settled := (((Moved.refl rec.id w).put (b := .jobs) rfl (marshalJobState
      (enqueuedJob lib .available w.clock (unmarshalJobState rec)))).delete other).publish
        (queueJobsSubject rec.queue)
    rw [Pass.promoted, stored]
    simpa using settled

theorem wp_requeueJob {Q : FirstErr → World → Prop} (own : UnderOwnIDs w) (firstErr : FirstErr)
    (reaped : ∀ t, Moved k (Pass.reaped lib w.clock (w.slot k)) w t → Q firstErr t) :
    serves.wp (requeueJob lib w.clock k firstErr) Q w := by
  have dropped : Moved k { w.slot k with active := none } w (w.delete .active k) :=
    (Moved.refl k w).delete (b := .active) rfl
  cases stored : (w.slot k).record with
  | none =>
    simp only [requeueJob, bind_eq, wp_bind, wp_getJobState, World.job_of_none stored, wp_delete,
      pure_eq, wp_pure]
    apply reaped
    rw [Pass.reaped_of_inactive (by simp [stored])]
    exact dropped
  | some rec =>
    obtain rfl : rec.id = k := own k rec stored
    simp only [requeueJob, bind_eq, wp_bind, wp_getJobState, World.job_of_record stored]
    by_cases active : rec.state = .active
    · simp only [unmarshalJobState_state, active, ne_eq, not_true_eq_false, ↓reduceIte, wp_bind,
        wp_putJobState, wp_delete, wp_ackMessage, wp_publishJob, pure_eq, wp_pure]
      apply reaped
      have settled := ((((Moved.refl rec.id w).put (b := .jobs) rfl (marshalJobState
        (requeuedJob lib w.clock (unmarshalJobState rec)))).delete (b := .active) rfl).track
          none).publish (queueJobsSubject rec.queue)
      simp only [Pass.reaped, stored, active, ↓reduceIte]
      exact settled
    · simp only [unmarshalJobState_state, active, ne_eq, not_false_eq_true, ↓reduceIte, wp_bind,
        wp_delete, pure_eq, wp_pure]
      apply reaped
      rw [Pass.reaped_of_inactive (by simp [stored, active])]
      exact dropped

/-- A promoting pass goes on with a job just if its entry can be read and is due. -/
theorem wp_entry {S : Type} {H : Semantics Op Ans S} {state : S}
    {found : Except CallError (String × Nat)} {parse : String → Option Int}
    {entry : Option String} {firstErr : FirstErr} {promote : Prog FirstErr}
    {Q : FirstErr → S → Prop} (reads : entry = found.toOption.map Prod.fst)
    (still : ¬ Due parse now entry → Q firstErr state)
    (promotes : Due parse now entry → H.wp promote Q state) :
    H.wp (match found with
      | .error _ => .pure firstErr
      | .ok (data, _) =>
          match parse data with
          | none => .pure firstErr
          | some due => if now < due then .pure firstErr else promote) Q state := by
  subst reads
  cases found with
  | error e => exact wp_pure.mpr (still (by simp [Due, Except.toOption]))
  | ok found =>
    obtain ⟨text, rev⟩ := found
    dsimp only
    split
    · rename_i illegible
      exact wp_pure.mpr (still (by simp [Due, Except.toOption, illegible]))
    · rename_i due legible
      split
      · rename_i early
        exact wp_pure.mpr (still (by simpa [Due, Except.toOption, legible] using early))
      · rename_i passed
        exact promotes ⟨text, due, rfl, legible, Int.not_lt.mp passed⟩

/-- The reaper goes on with a job just if its lease can be read and has run out. -/
theorem wp_lease {S : Type} {H : Semantics Op Ans S} {state : S}
    {found : Except CallError (ActiveJobInfo × Nat)} {entry : Option ActiveJobInfo}
    {firstErr : FirstErr} {requeue : Prog FirstErr} {Q : FirstErr → S → Prop}
    (reads : entry = found.toOption.map Prod.fst)
    (still : ¬ Stalled lib now entry → Q firstErr state)
    (requeues : Stalled lib now entry → H.wp requeue Q state) :
    H.wp (match found with
      | .error _ => .pure firstErr
      | .ok (info, _) =>
          match lib.parseTime info.visibilityDeadline with
          | none => .pure firstErr
          | some deadline => if deadline < now then requeue else .pure firstErr) Q state := by
  subst reads
  cases found with
  | error e => exact wp_pure.mpr (still (by simp [Stalled, Except.toOption]))
  | ok found =>
    obtain ⟨info, rev⟩ := found
    dsimp only
    split
    · rename_i illegible
      exact wp_pure.mpr (still (by simp [Stalled, Except.toOption, illegible]))
    · rename_i deadline legible
      split
      · rename_i passed
        exact requeues ⟨info, deadline, rfl, legible, passed⟩
      · rename_i live
        exact wp_pure.mpr (still (by simpa [Stalled, Except.toOption, legible] using live))

theorem lookup_toOption (w : World) (b : BucketName) (k : String) :
    w.value b k = (w.lookup b k).toOption.map Prod.fst := by
  unfold World.value World.lookup Store.Bucket.value
  cases (w.kv b).get k <;> rfl

theorem visited_promoteScheduledJob (own : UnderOwnIDs w) (firstErr : FirstErr) :
    serves.wp (promoteScheduledJob lib w.clock k firstErr)
      (fun _ t => Visited lib .promoteScheduled k w t) w := by
  simp only [promoteScheduledJob, bind_eq, pure_eq, wp_bind, wp_get .scheduled]
  refine wp_entry (lookup_toOption w .scheduled k) ?_ ?_
  · exact fun idle => .still idle
  · intro due
    exact wp_promoteJob own rfl _ _ fun t moved => .move due moved

theorem visited_promoteRetriesJob (own : UnderOwnIDs w) (firstErr : FirstErr) :
    serves.wp (promoteRetriesJob lib w.clock k firstErr)
      (fun _ t => Visited lib .promoteRetries k w t) w := by
  simp only [promoteRetriesJob, bind_eq, pure_eq, wp_bind, wp_get .retry]
  refine wp_entry (lookup_toOption w .retry k) ?_ ?_
  · exact fun idle => .still idle
  · intro due
    exact wp_promoteJob own rfl _ _ fun t moved => .move due moved

theorem visited_requeueStalledJob (own : UnderOwnIDs w) (firstErr : FirstErr) :
    serves.wp (requeueStalledJob lib w.clock k firstErr)
      (fun _ t => Visited lib .requeueStalled k w t) w := by
  simp only [requeueStalledJob, bind_eq, pure_eq, wp_bind, wp_get .active]
  refine wp_lease (lookup_toOption w .active k) ?_ ?_
  · exact fun idle => .still idle
  · intro due
    exact wp_requeueJob own _ fun t moved => .move due moved

/-! ## The whole pass -/

namespace Pass

theorem isSome_of_due {pass : Pass} {j : String} (due : pass.Due lib now (w.slot j)) :
    (w.value pass.index j).isSome := by
  cases pass with
  | promoteScheduled | promoteRetries =>
    obtain ⟨text, due, entry, -⟩ := due
    exact Option.isSome_iff_exists.mpr ⟨text, entry⟩
  | requeueStalled =>
    obtain ⟨info, deadline, entry, -⟩ := due
    exact Option.isSome_iff_exists.mpr ⟨info, entry⟩

/-- A treated job has lost its entry. -/
theorem not_due_treated (pass : Pass) (later : Int) :
    ¬ pass.Due lib later (pass.treated lib now s) := by
  have gone : (promoted lib .scheduled now s).scheduled = none ∧
      (promoted lib .retry now s).retry = none ∧ (reaped lib now s).active = none := by
    unfold promoted reaped
    cases s.record with
    | none => exact ⟨rfl, rfl, rfl⟩
    | some rec =>
      refine ⟨rfl, rfl, ?_⟩
      dsimp only
      split <;> rfl
  cases pass with
  | promoteScheduled => simp [Due, Lifecycle.Due, treated, gone]
  | promoteRetries => simp [Due, Lifecycle.Due, treated, gone]
  | requeueStalled => simp [Due, Stalled, treated, gone]

theorem id_treated {pass : Pass} (own : ∀ rec, s.record = some rec → rec.id = k) :
    ∀ rec, (pass.treated lib now s).record = some rec → rec.id = k := by
  have promoted (b : BucketName) (other : b = .scheduled ∨ b = .retry) (rec : JobState)
      (after : (promoted lib b now s).record = some rec) : rec.id = k := by
    unfold Pass.promoted at after
    cases stored : s.record with
    | none => rcases other with rfl | rfl <;> simp [stored, Slot.write] at after
    | some old =>
      have same : rec.id = old.id := by
        rcases other with rfl | rfl <;> simp only [stored, Slot.write, Option.some.injEq] at after <;>
          rw [← after] <;> rfl
      exact same.trans (own old stored)
  intro rec after
  cases pass with
  | promoteScheduled => exact promoted .scheduled (.inl rfl) rec after
  | promoteRetries => exact promoted .retry (.inr rfl) rec after
  | requeueStalled =>
    simp only [treated, reaped] at after
    split at after
    · rename_i vacant
      exact own rec after
    · rename_i old stored
      split at after
      · cases after
        exact own old stored
      · exact own rec after

end Pass

/-- What a pass leaves: every due job has been treated, nothing else has happened. -/
structure Swept (lib : Externals) (pass : Pass) (w t : World) : Prop where
  clock : t.clock = w.clock
  ids : UnderOwnIDs t
  due : ∀ j, pass.Due lib w.clock (w.slot j) → t.slot j = pass.treated lib w.clock (w.slot j)
  idle : ∀ j, ¬ pass.Due lib w.clock (w.slot j) → t.slot j = w.slot j

open Classical in
theorem wp_sweep {pass : Pass} {body : Int → String → FirstErr → Prog FirstErr}
    (own : UnderOwnIDs w)
    (turn : ∀ k firstErr v, UnderOwnIDs v →
      serves.wp (body v.clock k firstErr) (fun _ t => Visited lib pass k v t) v) :
    serves.wp (do
      match ← Store.keys pass.index with
      | .error e => return .error (.call e)
      | .ok keys =>
          let now ← timeNow
          let firstErr ← Program.forEach keys none (body now)
          return (passResult firstErr : Result Unit))
      (fun _ t => Swept lib pass w t) w := by
  refine wp_bind.mpr (wp_keys fun keys distinct listed => ?_)
  simp only [bind_eq, wp_bind, wp_timeNow]
  refine (wp_forEach_cells (fun v => v.clock = w.clock ∧ UnderOwnIDs v) World.slot
    (fun _ s => if pass.Due lib w.clock s then pass.treated lib w.clock s else s) distinct
    ⟨rfl, own⟩ ?_).mono ?_
  · rintro k firstErr v ⟨clock, own⟩
    have visits := turn k firstErr v own
    rw [clock] at visits
    refine visits.mono fun _ t visited => ?_
    rw [← clock]
    by_cases due : pass.Due lib v.clock (v.slot k)
    · have moved := visited.due due
      refine ⟨⟨moved.clock, fun j rec stored => ?_⟩, ?_, moved.others⟩
      · by_cases same : j = k
        · subst same
          rw [moved.slot] at stored
          exact Pass.id_treated (own j) rec stored
        · rw [moved.others j same] at stored
          exact own j rec stored
      · rw [moved.slot, if_pos due]
    · obtain rfl := visited.idle due
      exact ⟨⟨rfl, own⟩, by rw [if_neg due], fun _ _ => rfl⟩
  · rintro firstErr t ⟨⟨clock, own⟩, cells⟩
    refine wp_pure.mpr ⟨clock, own, fun j due => ?_, fun j idle => ?_⟩
    · rw [cells, if_pos ((listed j).mpr (Pass.isSome_of_due due)), if_pos due]
    · rw [cells, if_neg idle, ite_self]

/-- A pass that finds no job due changes nothing. -/
theorem wp_idle {pass : Pass} {body : Int → String → FirstErr → Prog FirstErr}
    (own : UnderOwnIDs w) (idle : ∀ j, ¬ pass.Due lib w.clock (w.slot j))
    (turn : ∀ k firstErr v, UnderOwnIDs v →
      serves.wp (body v.clock k firstErr) (fun _ t => Visited lib pass k v t) v) :
    serves.wp (do
      match ← Store.keys pass.index with
      | .error e => return .error (.call e)
      | .ok keys =>
          let now ← timeNow
          let firstErr ← Program.forEach keys none (body now)
          return (passResult firstErr : Result Unit))
      (fun _ t => t = w) w := by
  refine wp_bind.mpr (wp_keys fun keys _ _ => ?_)
  simp only [bind_eq, wp_bind, wp_timeNow]
  refine wp_forEach (fun _ _ v => v = w) rfl ?_ fun _ _ same => wp_pure.mpr same
  rintro k _ firstErr _ rfl
  exact (turn k firstErr _ own).mono fun _ t visited => visited.idle (idle k)

theorem program_swept (pass : Pass) (own : UnderOwnIDs w) :
    serves.wp (pass.program lib) (fun _ t => Swept lib pass w t) w := by
  cases pass with
  | promoteScheduled => exact wp_sweep own fun k e _ own => visited_promoteScheduledJob own e
  | promoteRetries => exact wp_sweep own fun k e _ own => visited_promoteRetriesJob own e
  | requeueStalled => exact wp_sweep own fun k e _ own => visited_requeueStalledJob own e

theorem program_idle {pass : Pass} (own : UnderOwnIDs w)
    (idle : ∀ j, ¬ pass.Due lib w.clock (w.slot j)) :
    serves.wp (pass.program lib) (fun _ t => t = w) w := by
  cases pass with
  | promoteScheduled => exact wp_idle own idle fun k e _ own => visited_promoteScheduledJob own e
  | promoteRetries => exact wp_idle own idle fun k e _ own => visited_promoteRetriesJob own e
  | requeueStalled => exact wp_idle own idle fun k e _ own => visited_requeueStalledJob own e

theorem spares_pass (pass : Pass) {b : BucketName} (foreign : Foreign b = true) :
    (pass.program lib).Uses (Spares b) := by
  have absent {S : List BucketName} (own : ∀ b' ∈ S, Foreign b' = false) : b ∉ S := by
    intro mem
    rw [own b mem] at foreign
    cases foreign
  cases pass with
  | promoteScheduled =>
    exact spares_of (confined_promoteScheduled lib) (absent (by simp [Foreign]))
  | promoteRetries => exact spares_of (confined_promoteRetries lib) (absent (by simp [Foreign]))
  | requeueStalled => exact spares_of (confined_requeueStalled lib) (absent (by simp [Foreign]))

/-! ## The law -/

/-- The buckets hold the same values, and the same messages are undelivered. -/
structure SameContents (w w' : World) : Prop where
  values : ∀ b k, w'.value b k = w.value b k
  messages : w'.stream.Perm w.stream

/-- Each job's messages determine the stream up to its order. -/
theorem stream_perm (same : ∀ j, (t.slot j).messages = (w.slot j).messages) :
    t.stream.Perm w.stream := by
  apply List.perm_iff_count.mpr
  intro m
  have counted (v : World) : v.stream.count m = ((v.slot m.data).messages).count m := by
    rw [World.slot, List.count_filter (by simp)]
  rw [counted, counted, same]

theorem sameContents_of_slots (slots : ∀ j, t.slot j = w.slot j)
    (others : ∀ b, Foreign b = true → t.kv b = w.kv b) : SameContents w t where
  values := by
    intro b k
    have here := slots k
    cases b with
    | jobs => exact congrArg Slot.record here
    | scheduled => exact congrArg Slot.scheduled here
    | retry => exact congrArg Slot.retry here
    | dead => exact congrArg Slot.dead here
    | active => exact congrArg Slot.active here
    | unique | cron | workers | workflows | queues | stats => exact value_of_kv (others _ rfl) k
  messages := stream_perm fun j => by rw [slots]

theorem Swept.slots_eq {pass : Pass} {t' : World} (swept : Swept lib pass w t)
    (swept' : Swept lib pass w t') (j : String) : t'.slot j = t.slot j := by
  by_cases due : pass.Due lib w.clock (w.slot j)
  · rw [swept.due j due, swept'.due j due]
  · rw [swept.idle j due, swept'.idle j due]

theorem Swept.settled {pass : Pass} (swept : Swept lib pass w t) (j : String) :
    ¬ pass.Due lib t.clock (t.slot j) := by
  rw [swept.clock]
  by_cases due : pass.Due lib w.clock (w.slot j)
  · rw [swept.due j due]
    exact pass.not_due_treated w.clock
  · rw [swept.idle j due]
    exact due

/-- Two runs of a pass, whatever order they list the index in, leave the same, and a
second pass at the same time changes nothing. -/
theorem passes_agree {pass : Pass} {r r' : Result Unit} {t' : World} (own : UnderOwnIDs w)
    (run : serves.Exec (pass.program lib) w r t) (run' : serves.Exec (pass.program lib) w r' t') :
    SameContents t t' ∧ ∀ r'' u, serves.Exec (pass.program lib) t r'' u → u = t := by
  have swept : Swept lib pass w t := program_swept pass own r t run
  have swept' : Swept lib pass w t' := program_swept pass own r' t' run'
  constructor
  · apply sameContents_of_slots (swept.slots_eq swept')
    intro b foreign
    rw [kv_of_spares (spares_pass pass foreign) run, kv_of_spares (spares_pass pass foreign) run']
  · intro r'' u again
    exact program_idle swept.ids swept.settled r'' u again

/-- Two jobs of which one is due, and an entry without a job. -/
def scheduledMails : World :=
  let record (id due : String) : JobState := marshalJobState
    { id := id, type := "mail", state := .scheduled, queue := "mails", scheduledAt := due }
  let stored := ((World.start (Sample.instant 60)).put .jobs "job-1"
    (record "job-1" "2026-01-01T00:00:30.000Z")).put .jobs "job-2"
      (record "job-2" "2026-01-01T00:02:00.000Z")
  ((stored.put .scheduled "job-1" "2026-01-01T00:00:30.000Z").put .scheduled "job-2"
    "2026-01-01T00:02:00.000Z").put .scheduled "job-3" "2026-01-01T00:00:31.000Z"

theorem underOwnIDs_scheduledMails : UnderOwnIDs scheduledMails := by
  have empty : AllFiled (World.start (Sample.instant 60)) := by
    intro b k v stored
    cases stored
  have filed : AllFiled scheduledMails := by
    refine AllFiled.put (AllFiled.put (AllFiled.put (AllFiled.put (AllFiled.put empty ?_) ?_) ?_) ?_) ?_
    · rfl
    · rfl
    · trivial
    · trivial
    · trivial
  exact filed .jobs

theorem passes_agree_scheduledMails : ∃ r t,
    serves.Exec (Pass.promoteScheduled.program sample) scheduledMails r t ∧
    t.stream.map Msg.data = ["job-1"] ∧
    (∀ r' t', serves.Exec (Pass.promoteScheduled.program sample) scheduledMails r' t' →
      SameContents t t') ∧
    ∀ r' t', serves.Exec (Pass.promoteScheduled.program sample) t r' t' → t' = t := by
  have runs : (execute (Pass.promoteScheduled.program sample) scheduledMails).isSome := by decide
  obtain ⟨⟨r, t⟩, executed⟩ := Option.isSome_iff_exists.mp runs
  have facts : (execute (Pass.promoteScheduled.program sample) scheduledMails).map
      (fun ended => ended.2.stream.map Msg.data) = some ["job-1"] := by decide
  rw [executed, Option.map_some, Option.some_inj] at facts
  have run := exec_of_execute executed
  refine ⟨r, t, run, facts, fun r' t' run' => ?_, ?_⟩
  · exact (passes_agree underOwnIDs_scheduledMails run run').1
  · exact (passes_agree underOwnIDs_scheduledMails run run).2

end OjsNats.Lifecycle
