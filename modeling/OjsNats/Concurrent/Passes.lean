import OjsNats.Concurrent.Reporting

/-!
# Heartbeats and passes keep the discipline

A heartbeat writes leases only.  A pass makes a job available after reading
its record; the reaper also read a lease that had run out.
-/

namespace OjsNats.Concurrent

open Core Nats Lifecycle Effect Protocol Program

variable {lib : Externals} {j k : String} {call : Call} {g : View}

/-! ## Heartbeat -/

section Heartbeat

variable {workerID : String} {ids : List String} {visibilityTimeoutMs now : Int}

theorem follows_extendLease (extended : List String) (time : g.now = now) :
    (discipline lib j (.heartbeat workerID ids visibilityTimeoutMs)).Follows
      (extendLease lib workerID visibilityTimeoutMs now k extended) g (fun _ g' => g'.now = now) := by
  apply follows_bind.mpr
  apply follows_getJobState
  · intro rec _
    have read : (g.see j k (some rec)).now = now := by
      rw [View.now_see, time]
    simp only
    split
    · exact read
    · apply follows_bind.mpr
      apply follows_putActive ⟨_, isDuration_millisToDuration visibilityTimeoutMs, by rw [read]; rfl⟩
      · intro _
        apply follows_bind.mpr
        apply follows_sideline (sideline_inProgress k)
        intro _
        exact (View.now_lease _ _ _ _).trans read
      · intro _
        apply follows_bind.mpr
        apply follows_sideline (sideline_inProgress k)
        exact fun _ => read
  · intro _
    exact (View.now_see _ _ _ _).trans time

theorem follows_findDirective (found : Option String) :
    (discipline lib j call).Follows (findDirective k found) g (fun _ _ => True) := by
  unfold findDirective
  split
  · trivial
  · apply follows_bind.mpr
    apply follows_getJobState <;> intros <;> trivial

theorem follows_heartbeat : (discipline lib j (.heartbeat workerID ids visibilityTimeoutMs)).Follows
    (heartbeat lib workerID ids visibilityTimeoutMs) g (fun _ _ => True) := by
  apply follows_bind.mpr
  apply follows_timeNow
  intro now
  apply follows_bind.mpr
  apply follows_sideline (sideline_get rfl _)
  intro existing
  apply follows_bind.mpr
  apply follows_sideline (sideline_put rfl _ _)
  intro _
  apply follows_bind.mpr
  apply follows_forEach fun _ _ g' => g'.now = now
  · rfl
  · intro k _ extended g' time
    exact follows_extendLease extended time
  · intro extended g' _
    apply follows_ite
    · apply follows_bind.mpr
      apply follows_forEach fun _ _ _ => True
      · trivial
      · exact fun k _ found g'' _ => follows_findDirective found
      · exact fun _ _ _ => trivial
    · trivial

end Heartbeat

/-! ## Promotion -/

/-- The calls that may make a job available on the strength of its record alone. -/
def Promotes (call : Call) : Prop := call = .promoteScheduled ∨ call = .promoteRetries

theorem permits_promotes (promotes : Promotes call) {v : JobState} (seen : g.seen.isSome)
    (state : v.state = .available) : Permits lib j g v call := by
  rcases promotes with rfl | rfl <;> exact ⟨seen, state⟩

theorem follows_promoteJob (promotes : Promotes call) {b : BucketName} (beside : b ≠ .jobs ∧ b ≠ .active)
    (what : String) (now : Int) (firstErr : FirstErr) :
    (discipline lib j call).Follows (promoteJob lib b what now k firstErr) g (fun _ _ => True) := by
  have remove : (Store.delete b k).Uses Unnoticed := ⟨beside, fun _ => trivial⟩
  apply follows_bind.mpr
  apply follows_getJobState
  · rintro rec rfl
    apply follows_bind.mpr
    apply follows_putJobState
    · intro same
      have same : rec.id = j := same
      refine permits_promotes promotes ?_ rfl
      rw [View.see_at same]
      rfl
    · intro _
      apply follows_bind.mpr
      apply follows_unnoticed remove
      intro removed
      cases removed with
      | error e => trivial
      | ok _ =>
        apply follows_bind.mpr
        apply follows_publishJob
        · exact View.tokens_writeAt rfl
        · trivial
        · exact fun _ => trivial
    · exact fun _ => trivial
  · intro _
    apply follows_bind.mpr
    exact follows_unnoticed remove fun _ => trivial

theorem unnoticed_keys (b : BucketName) : (Store.keys b).Uses Unnoticed := by
  refine ⟨trivial, fun r => ?_⟩
  match r with
  | .ok _ => trivial
  | .error .noKeysFound => trivial
  | .error .keyNotFound | .error .keyExists | .error .wrongRevision | .error .unavailable =>
    trivial

theorem follows_promoteScheduled : (discipline lib j .promoteScheduled).Follows
    (promoteScheduled lib) g (fun _ _ => True) := by
  apply follows_bind.mpr
  apply follows_unnoticed (unnoticed_keys _)
  intro listed
  cases listed with
  | error e => trivial
  | ok keys =>
    apply follows_bind.mpr
    apply follows_timeNow
    intro now
    apply follows_bind.mpr
    apply follows_forEach fun _ _ _ => True
    · trivial
    · intro k _ firstErr g' _
      apply follows_bind.mpr
      refine follows_ask.mpr ⟨trivial, fun entry _ => ?_⟩
      cases entry with
      | error e => trivial
      | ok due =>
        simp only
        split
        · trivial
        · exact follows_ite trivial (follows_promoteJob (.inl rfl) ⟨by simp, by simp⟩ _ _ _)
    · exact fun _ _ _ => trivial

theorem follows_promoteRetries : (discipline lib j .promoteRetries).Follows
    (promoteRetries lib) g (fun _ _ => True) := by
  apply follows_bind.mpr
  apply follows_unnoticed (unnoticed_keys _)
  intro listed
  cases listed with
  | error e => trivial
  | ok keys =>
    apply follows_bind.mpr
    apply follows_timeNow
    intro now
    apply follows_bind.mpr
    apply follows_forEach fun _ _ _ => True
    · trivial
    · intro k _ firstErr g' _
      apply follows_bind.mpr
      refine follows_ask.mpr ⟨trivial, fun entry _ => ?_⟩
      cases entry with
      | error e => trivial
      | ok due =>
        simp only
        split
        · trivial
        · exact follows_ite trivial (follows_promoteJob (.inr rfl) ⟨by simp, by simp⟩ _ _ _)
    · exact fun _ _ _ => trivial

/-! ## The reaper -/

theorem follows_requeueJob {now : Int} (firstErr : FirstErr) (time : g.now = now)
    (armed : k = j → g.armed = true) :
    (discipline lib j .requeueStalled).Follows (requeueJob lib now k firstErr) g
      (fun _ g' => g'.now = now) := by
  apply follows_bind.mpr
  apply follows_getJobState
  · rintro rec rfl
    simp only
    split
    · apply follows_bind.mpr
      apply follows_deleteActive
      · exact fun _ _ _ _ _ eq => nomatch eq
      · simpa using time
      · exact fun _ => by simpa using time
    · rename_i active
      rw [not_not] at active
      apply follows_bind.mpr
      apply follows_putJobState
      · intro same
        have same : rec.id = j := same
        refine ⟨?_, ⟨rec, ?_, active⟩, rfl⟩
        · rw [View.see_at same]
          exact armed same
        · rw [View.see_at same]
      · intro _
        apply follows_bind.mpr
        apply follows_deleteActive
        · exact fun _ _ _ _ _ eq => nomatch eq
        · apply follows_bind.mpr
          apply follows_unnoticed (unnoticed_ackMessage _)
          intro acked
          cases acked with
          | error e => simpa using time
          | ok _ =>
            apply follows_bind.mpr
            apply follows_publishJob
            · intro same
              rw [View.tokens_lease]
              exact View.tokens_writeAt rfl same
            · simpa using time
            · exact fun _ => by simpa using time
        · exact fun _ => by simpa using time
      · exact fun _ => by simpa using time
  · intro _
    apply follows_bind.mpr
    apply follows_deleteActive
    · exact fun _ _ _ _ _ eq => nomatch eq
    · simpa using time
    · exact fun _ => by simpa using time

theorem follows_requeueStalledJob {now : Int} (firstErr : FirstErr) (time : g.now = now) :
    (discipline lib j .requeueStalled).Follows (requeueStalledJob lib now k firstErr) g
      (fun _ g' => g'.now = now) := by
  apply follows_bind.mpr
  apply follows_getActive
  · intro lease _
    have read : (g.arm j k (leaseOver lib g.now lease)).now = now := (View.now_arm _ _ _ _).trans time
    simp only
    split
    · exact read
    · rename_i deadline parsed
      split
      · rename_i ended
        apply follows_requeueJob firstErr read
        intro same
        rw [View.arm, if_pos same, leaseOver, parsed, time]
        exact decide_eq_true ended
      · exact read
  · intro _
    exact (View.now_arm _ _ _ _).trans time

theorem follows_requeueStalled : (discipline lib j .requeueStalled).Follows
    (requeueStalled lib) g (fun _ _ => True) := by
  apply follows_bind.mpr
  apply follows_unnoticed (unnoticed_keys _)
  intro listed
  cases listed with
  | error e => trivial
  | ok keys =>
    apply follows_bind.mpr
    apply follows_timeNow
    intro now
    apply follows_bind.mpr
    apply follows_forEach fun _ _ g' => g'.now = now
    · rfl
    · intro k _ firstErr g' time
      exact follows_requeueStalledJob firstErr time
    · exact fun _ _ _ => trivial

/-! ## All of them -/

/-- The operations that may run beside each other here. -/
def concurrent : List Operation :=
  [.fetch, .ack, .nack, .cancel, .heartbeat, .promoteScheduled, .promoteRetries, .requeueStalled]

/-- An operation keeps the discipline, and its reply is as its view says. -/
theorem follows_call (concurrently : call.operation ∈ concurrent) :
    (discipline lib j call).Follows (call.program lib) {} (Replies j call) := by
  cases call with
  | fetch queues count workerID timeout =>
    apply follows_bind.mpr
    apply follows_fetch.mono
    exact fun _ _ claimed => claimed
  | ack k result =>
    apply follows_bind.mpr
    apply (follows_ack result rfl).mono
    intro r g' wrote
    cases r with
    | ok _ => exact wrote
    | error _ => trivial
  | nack k jobErr requeue =>
    apply follows_bind.mpr
    apply (follows_nack rfl).mono
    intro r g' wrote
    cases r with
    | ok _ => exact wrote
    | error _ => trivial
  | cancel k =>
    apply follows_bind.mpr
    apply (follows_cancel rfl).mono
    intro r g' wrote
    cases r with
    | ok _ => exact wrote
    | error _ => trivial
  | heartbeat workerID ids timeout =>
    apply follows_bind.mpr
    apply follows_heartbeat.mono
    exact fun _ _ _ => trivial
  | promoteScheduled =>
    apply follows_bind.mpr
    apply follows_promoteScheduled.mono
    exact fun _ _ _ => trivial
  | promoteRetries =>
    apply follows_bind.mpr
    apply follows_promoteRetries.mono
    exact fun _ _ _ => trivial
  | requeueStalled =>
    apply follows_bind.mpr
    apply follows_requeueStalled.mono
    exact fun _ _ _ => trivial
  | _ => simp [Call.operation, concurrent] at concurrently

end OjsNats.Concurrent
