import OjsNats.Lifecycle.Chronicle
import OjsNats.Lifecycle.Counting
import OjsNats.Lifecycle.Finality

/-!
# The policy against overlap

Under the policy `skip` an entry fires only when the job it remembers is over.
It remembers only the last of them; the earlier ones were over when it was
fired, and stay so.
-/

namespace OjsNats.Nats

open Core

/-- The job, if the entry of this name fired it under the policy `skip`. -/
def CronEvent.skipFired? (name : String) : CronEvent → Option String
  | .fired cronJob _ jobID =>
      if cronJob.name = name ∧ cronJob.overlapPolicy = "skip" then some jobID else none
  | _ => none

def skipFired (name : String) (es : List CronEvent) : List String :=
  es.filterMap (CronEvent.skipFired? name)

/-- The job has not ended. -/
def runsOn (lib : Externals) (w : World) (jobID : String) : Bool :=
  match w.value .jobs jobID with
  | some rec => !lib.isTerminalState rec.state
  | none => false

theorem cronInstanceKey_injective {name other : String}
    (same : cronInstanceKey name = cronInstanceKey other) : name = other := by
  unfold cronInstanceKey at same
  rwa [String.append_right_inj] at same

end OjsNats.Nats

namespace OjsNats.Lifecycle

open Core Nats Effect Semantics

variable {lib : Externals} {w t m : World} {name : String} {es more : List CronEvent}
  {cronJob : CronJob}

@[simp] theorem skipFired_append :
    skipFired name (es ++ more) = skipFired name es ++ skipFired name more := by
  simp [skipFired]

@[simp] theorem skipFired_cronEvents (now : Int) (call : Call) (reply : Reply) :
    skipFired name (cronEvents now call reply) = [] := by
  unfold cronEvents
  split <;> rfl

@[simp] theorem skipFired_moveEvents (lib : Externals) (name : String) (now : Int)
    (cronJob : CronJob) :
    skipFired name (moveEvents lib now cronJob) = [] := by
  unfold moveEvents
  split <;> rfl

/-- Of the jobs fired under `skip` all are over, except perhaps the one that is remembered. -/
structure Exclusive (name : String) (ids : List String) (m : World) : Prop where
  nodup : ids.Nodup
  stored : ∀ id ∈ ids, (m.slot id).record ≠ none
  last : ∀ id ∈ ids, m.value .stats (cronInstanceKey name) = some id ∨ (m.slot id).Terminal

namespace Exclusive

variable {ids : List String}

/-- At most one of them runs on. -/
theorem length_le (h : Exclusive name ids m) : (ids.filter (runsOn lib m)).length ≤ 1 := by
  have only : ids.filter (runsOn lib m) ⊆ (m.value .stats (cronInstanceKey name)).toList := by
    intro id mem
    obtain ⟨mem, running⟩ := List.mem_filter.mp mem
    rcases h.last id mem with last | ended
    · exact Option.mem_toList.mpr last
    · unfold runsOn at running
      split at running
      · rename_i rec stored
        rw [ended.not_live stored] at running
        cases running
      · cases running
  exact (List.subperm_of_subset (h.nodup.filter _) only).length_le.trans Option.length_toList_le

theorem kept (h : Exclusive name ids m)
    (stored : ∀ id ∈ ids, (m.slot id).record ≠ none → (t.slot id).record ≠ none)
    (ended : ∀ id ∈ ids, (m.slot id).Terminal → (t.slot id).Terminal)
    (stats : t.value .stats (cronInstanceKey name) = m.value .stats (cronInstanceKey name)) :
    Exclusive name ids t where
  nodup := h.nodup
  stored := fun id mem => stored id mem (h.stored id mem)
  last := fun id mem => (h.last id mem).imp (fun last => stats.trans last) (ended id mem)

/-- The entry is fired while none of the earlier jobs runs, and remembers the new one. -/
theorem snoc {jobID : String} (h : Exclusive name ids m)
    (idle : ∀ id ∈ ids, m.value .stats (cronInstanceKey name) = some id → (m.slot id).Terminal)
    (new : (m.slot jobID).record = none) (born : (t.slot jobID).record ≠ none)
    (others : ∀ id ≠ jobID, t.slot id = m.slot id)
    (remembers : t.value .stats (cronInstanceKey name) = some jobID) :
    Exclusive name (ids ++ [jobID]) t := by
  have absent : jobID ∉ ids := fun mem => h.stored jobID mem new
  have other {id : String} (mem : id ∈ ids) : t.slot id = m.slot id :=
    others id fun same => absent (same ▸ mem)
  constructor
  · refine List.nodup_append.mpr ⟨h.nodup, List.nodup_singleton jobID, ?_⟩
    rintro id mem _ last rfl
    exact absent (List.mem_singleton.mp last ▸ mem)
  · intro id mem
    rcases List.mem_append.mp mem with old | last
    · rw [other old]
      exact h.stored id old
    · rwa [List.mem_singleton.mp last]
  · intro id mem
    rcases List.mem_append.mp mem with old | last
    · rw [other old]
      exact .inr ((h.last id old).elim (idle id old) fun ended => ended)
    · exact .inl (List.mem_singleton.mp last ▸ remembers)

end Exclusive

/-- What a pass does with an entry keeps the jobs of a name apart. -/
theorem exclusive_turn {ids : List String} (sound : Sound m)
    (h : Exclusive name ids m) : serves.wp (notedCron lib m.clock cronJob)
      (fun more t => Exclusive name (ids ++ skipFired name more) t) m := by
  have same {v : World} (board : SameBoard m v)
      (stats : v.value .stats (cronInstanceKey name) = m.value .stats (cronInstanceKey name)) :
      Exclusive name ids v :=
    h.kept (fun id _ => by simp [board.slots]) (fun id _ => by simp [board.slots]) stats
  have moved (v : World) (now : Int) (key : String) :
      (v.moveOn lib now cronJob).value .stats key = v.value .stats key := by
    unfold World.moveOn
    split
    · exact value_put_other (by simp)
    · rfl
  refine wp_notedCron sound (by simpa [skipFired] using h) (fun _ _ _ => ?_)
    fun _ idle jobID v pushed => ?_
  · simpa using same (sameBoard_moveOn lib m m.clock cronJob) (moved _ _ _)
  · have board := (sameBoard_remember v cronJob jobID).trans
      (sameBoard_moveOn lib (v.remember cronJob jobID) m.clock cronJob)
    have others (id : String) (other : id ≠ jobID) :
        ((v.remember cronJob jobID).moveOn lib m.clock cronJob).slot id = m.slot id :=
      (board.slots id).trans (pushed.pushed.others id (by simp [other]))
    have new : (m.slot jobID).record = none := by
      by_contra known
      exact (pushed.pushed.fresh jobID (by simp)).2 (sound.known jobID known).1
    have before (key : String) : v.value .stats key = m.value .stats key := by
      rw [World.value, pushed.stats, World.value]
    by_cases ours : cronJob.name = name ∧ cronJob.overlapPolicy = "skip"
    · obtain ⟨rfl, skip⟩ := ours
      have fired : skipFired cronJob.name
          (.fired cronJob m.clock jobID :: moveEvents lib m.clock cronJob) = [jobID] := by
        simpa [skipFired, CronEvent.skipFired?, skip] using
          skipFired_moveEvents lib cronJob.name m.clock cronJob
      rw [fired]
      refine h.snoc (fun id mem remembered => ?_) new ?_ others ?_
      · obtain ⟨rec, stored⟩ := Option.ne_none_iff_exists'.mp (h.stored id mem)
        have ended : lib.isTerminalState rec.state = true := by
          by_contra live
          exact idle skip ⟨id, rec, remembered, stored, by simpa using live⟩
        simpa [Slot.Terminal, Slot.state_of_record stored] using
          (lib.isTerminalState_iff rec.state).mp ended
      · rw [board.slots, pushed.pushed.slots jobID (cronFiredJob cronJob) (by simp)]
        unfold storedSlot
        split <;> simp
      · rw [moved, World.remember, if_pos skip, value_put, dif_pos ⟨rfl, rfl⟩]
    · have fired : skipFired name
          (.fired cronJob m.clock jobID :: moveEvents lib m.clock cronJob) = [] := by
        simpa [skipFired, CronEvent.skipFired?, ours] using
          skipFired_moveEvents lib name m.clock cronJob
      rw [fired, List.append_nil]
      have absent (id : String) (mem : id ∈ ids) : id ≠ jobID :=
        fun same => h.stored id mem (same ▸ new)
      refine h.kept (fun id mem => by simp [others id (absent id mem)])
        (fun id mem => by simp [others id (absent id mem)]) ?_
      rw [moved, World.remember]
      split
      · rename_i skip
        rw [value_put_other, before]
        rintro ⟨-, same⟩
        exact ours ⟨(cronInstanceKey_injective same).symm, skip⟩
      · exact before _

theorem exclusive_call {ids : List String} {call : Call} {reply : Reply}
    (apart : ∀ queue, kvStatsKey queue "completed" ≠ cronInstanceKey name) (sound : Sound m)
    (retires : ∀ id ∈ ids, call ≠ .retryDeadLetter id) (other : call ≠ .fireCronJobs)
    (fresh : call.Fresh m) (exec : serves.Exec (call.program lib) (m.accept call) reply t)
    (h : Exclusive name ids m) : Exclusive name ids t := by
  have evolves := call_evolves sound fresh _ _ exec
  refine h.kept (fun id _ known => (evolves.slots id).stored known) (fun id mem ended => ?_) ?_
  · refine (evolves.slots id).still_terminal (sound.placed id) ended fun move ok revive => ?_
    exact retires id mem (moves_revive (revive ▸ ok))
  · rcases stats_call other exec with ⟨same, -⟩ | ⟨queue, -, counted⟩
    · rw [World.value, same, World.value]
    · rw [World.value, counted]
      exact value_counted_other (apart queue).symm

/-- Of the jobs that an entry fired under the policy `skip` at most one has not
ended, whatever else is done, except bringing one of them back from the dead letters. -/
theorem skip_excludes (reachable : Reachable lib w)
    (apart : ∀ queue, kvStatsKey queue "completed" ≠ cronInstanceKey name)
    (chronicle : Chronicle lib (fun call => ∀ id ∈ skipFired name es, call ≠ .retryDeadLetter id)
      w es t) : ((skipFired name es).filter (runsOn lib t)).length ≤ 1 := by
  suffices exclusive : skipFired name es ⊆ skipFired name es → Exclusive name (skipFired name es) t
    from (exclusive (List.Subset.refl _)).length_le
  refine chronicle.holds reachable
    (I := fun front m => skipFired name front ⊆ skipFired name es →
      Exclusive name (skipFired name front) m)
    (fun _ => ⟨List.nodup_nil, nofun, nofun⟩)
    (fun front m now _ h within => (h within).kept (fun _ _ => id) (fun _ _ => id) rfl) ?_ ?_
  · intro front m v call reply reachable kind other fresh exec h within
    rw [skipFired_append, skipFired_cronEvents, List.append_nil] at within ⊢
    exact exclusive_call apart reachable.sound (fun id mem => kind id (within mem)) other fresh exec
      (h within)
  · intro cronJob front m sound _ h
    refine fun more v run within => ?_
    rw [skipFired_append] at within ⊢
    exact exclusive_turn sound (h fun id mem => within (List.mem_append_left _ mem)) more v run

/-! ## Two firings -/

/-- A report every minute, unless the last one is still going on. -/
def unhurried : CronJob := { minutely with overlapPolicy := "skip" }

/-- The second minute's report is fired once the first one's is done. -/
def twice : List CronEvent × World :=
  noted (World.start (Sample.instant 0))
    [.call (.registerCron unhurried), .wait 60, .call .fireCronJobs,
      .call (.fetch ["default"] 1 "worker-1" 0),
      .call (.ack "00000000-0000-7000-8000-000000000000" none), .wait 120, .call .fireCronJobs]

example : (skipFired "report" twice.1).map (runsOn sample twice.2) = [false, true] := rfl

theorem skip_excludes_twice :
    ((skipFired "report" twice.1).filter (runsOn sample twice.2)).length ≤ 1 := by
  refine skip_excludes (.start (by decide)) (fun queue same => ?_)
    (chronicle_noted _ _ fun cue mem => ?_)
  · have ends := congrArg (fun text => text.toList.getLast?) same
    simp [kvStatsKey, cronInstanceKey] at ends
  · simp only [List.mem_cons, List.not_mem_nil, or_false] at mem
    rcases mem with rfl | rfl | rfl | rfl | rfl | rfl | rfl
    all_goals simp [Cue.Meets]

end OjsNats.Lifecycle
