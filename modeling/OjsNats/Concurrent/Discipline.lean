import OjsNats.Concurrent.View

/-!
# Operations keep the discipline

Each operation that may run beside others makes only the calls its view of a
job allows, whatever the calls are answered.
-/

namespace OjsNats.Concurrent

open Core Nats Lifecycle Effect Protocol Program

variable {lib : Externals} {j k : String} {call : Call} {g : View}

/-- What the view says when the operation replies. -/
def Replies (j : String) : Call → Reply → View → Prop
  | .fetch _ _ _ _, .jobs jobs, g => ∀ job ∈ jobs, job.id = j → g.claimed = true
  | .ack k _, .acked (.ok _), g => k = j → g.wrote.isSome
  | .nack k _ _, .nacked (.ok _), g => k = j → g.wrote.isSome
  | .cancel k, .job (.ok _), g => k = j → g.wrote.isSome
  | _, _, _ => True

/-! ## Fetch -/

/-- The ids in hand are covered by tokens, and the jobs to return are claimed. -/
structure Holding (j : String) (now : Int) (ids : List String) (jobs : List Job) (g : View) :
    Prop where
  now : g.now = now
  owed : ids.count j ≤ g.tokens
  told : ∀ job ∈ jobs, job.id = j → g.claimed = true

section Holding

variable {now : Int} {ids : List String} {jobs : List Job}

theorem Holding.positive (h : Holding j now (k :: ids) jobs g) (same : k = j) : 0 < g.tokens := by
  subst same
  have owed := h.owed
  rw [List.count_cons_self] at owed
  omega

/-- A job in hand is let go without a word. -/
theorem Holding.skip (h : Holding j now (k :: ids) jobs g) : Holding j now ids jobs g where
  now := h.now
  owed := Nat.le_trans (List.count_le_count_cons) h.owed
  told := h.told

/-- A job in hand is written off. -/
theorem Holding.spend (h : Holding j now (k :: ids) jobs g) {v : JobState}
    (state : v.state ≠ .available) : Holding j now ids jobs (g.writeAt j k v) := by
  unfold View.writeAt
  split
  · rename_i same
    subst same
    have owed := h.owed
    rw [List.count_cons_self] at owed
    refine ⟨h.now, ?_, fun job mem id => ?_⟩
    · simp only [View.write, state, ↓reduceIte]
      omega
    · simp [View.write, h.told job mem id]
  · exact h.skip

theorem Holding.see (h : Holding j now ids jobs g) (rec : Option JobState) :
    Holding j now ids jobs (g.see j k rec) := by
  unfold View.see
  split
  · exact ⟨h.now, h.owed, h.told⟩
  · exact h

theorem Holding.lease (h : Holding j now ids jobs g) (leased : Bool) :
    Holding j now ids jobs (g.lease j k leased) := by
  unfold View.lease
  split
  · exact ⟨h.now, h.owed, h.told⟩
  · exact h

end Holding

section Fetch

variable {queues : List String} {count : Int} {workerID : String} {visibilityTimeoutMs now : Int}

theorem follows_fetchJob (queue : String) (jobs : List Job) {ids : List String}
    (h : Holding j now (k :: ids) jobs g) :
    (discipline lib j (.fetch queues count workerID visibilityTimeoutMs)).Follows
      (fetchJob lib queue workerID visibilityTimeoutMs now k jobs) g
      (fun jobs' g' => Holding j now ids jobs' g') := by
  obtain rfl := h.now
  apply follows_bind.mpr
  apply follows_getJobState
  · rintro rec rfl
    have read := h.see (k := rec.id) (some rec)
    have seen (same : rec.id = j) : (g.see j rec.id (some rec)).seen = some rec := by
      rw [View.see_at same]
    cases expired : isExpired lib (unmarshalJobState rec) g.now with
    | true =>
      simp only [expired, ↓reduceIte]
      apply follows_bind.mpr
      apply follows_putJobState
      · intro same
        exact ⟨read.positive same, rec, seen same, .inl ⟨read.now ▸ expired, rfl⟩⟩
      · intro _
        exact follows_bind.mpr (follows_unnoticed (unnoticed_ackMessage _) fun _ =>
          read.spend (by simp))
      · intro _
        exact follows_bind.mpr (follows_unnoticed (unnoticed_ackMessage _) fun _ => read.skip)
    | false =>
      simp only [expired, Bool.false_eq_true, ↓reduceIte]
      split
      · exact follows_bind.mpr (follows_unnoticed (unnoticed_ackMessage _) fun _ => read.skip)
      · rename_i available
        rw [not_not] at available
        apply follows_bind.mpr
        apply follows_putActive ⟨_, isDuration_millisToDuration _, by rw [read.now]; rfl⟩
        · intro _
          have leased := read.lease (k := rec.id) true
          apply follows_bind.mpr
          apply follows_putJobState
          · intro same
            have same : rec.id = j := same
            refine ⟨leased.positive same, rec, ?_, .inr ⟨?_, available, ?_, rfl⟩⟩
            · rw [View.lease_at same]
              exact seen same
            · rw [leased.now]
              exact expired
            · rw [View.lease_at same]
          · intro _
            apply follows_bind.mpr
            apply follows_sideline (sideline_recordFetchTime queue _)
            intro _
            have spent := leased.spend (v := marshalJobState (claimedJob lib g.now
              (unmarshalJobState rec))) (by simp [claimedJob])
            refine ⟨spent.now, spent.owed, ?_⟩
            intro job mem id
            rcases List.mem_append.mp mem with old | new
            · exact spent.told job old id
            · obtain rfl := List.mem_singleton.mp new
              have active : (marshalJobState (claimedJob lib g.now (unmarshalJobState rec))).state =
                .active := rfl
              rw [View.writeAt_at id, View.write, active]
              simp
          · intro _
            apply follows_bind.mpr
            apply follows_deleteActive
            · intro same _ _ _ _ _
              exact leased.positive same
            · exact follows_bind.mpr (follows_unnoticed (unnoticed_ackMessage _) fun _ =>
                (leased.lease false).skip)
            · intro _
              exact follows_bind.mpr (follows_unnoticed (unnoticed_ackMessage _) fun _ => leased.skip)
        · intro _
          exact follows_bind.mpr (follows_unnoticed (unnoticed_ackMessage _) fun _ => read.skip)
  · intro _
    exact follows_bind.mpr (follows_unnoticed (unnoticed_ackMessage _) fun _ => (h.see none).skip)

theorem countOf_cons (m : Msg) (msgs : List Msg) :
    View.countOf j (m :: msgs) = View.countOf j msgs + if m.data = j then 1 else 0 := by
  unfold View.countOf
  rw [List.filter_cons]
  by_cases same : m.data = j <;> simp [same]

/-- Each message puts at most its own id in hand. -/
theorem follows_trackMessages {msgs : List Msg} {acc : List String}
    (owed : acc.count j + View.countOf j msgs ≤ g.tokens) :
    (discipline lib j call).Follows (Program.forEach msgs acc trackMessage) g
      (fun ids g' => g' = g ∧ ids.count j ≤ g.tokens) := by
  apply follows_forEach fun rest ids g' => g' = g ∧ ids.count j + View.countOf j rest ≤ g.tokens
  · exact ⟨rfl, owed⟩
  · rintro m rest ids _ ⟨rfl, owed⟩
    rw [countOf_cons] at owed
    unfold trackMessage
    split
    · exact ⟨trivial, fun _ _ => ⟨rfl, by omega⟩⟩
    · refine ⟨trivial, fun _ _ => ⟨rfl, ?_⟩⟩
      rw [List.count_append, List.count_singleton]
      simp only [beq_iff_eq] at *
      omega
  · rintro ids _ ⟨rfl, owed⟩
    exact ⟨rfl, by omega⟩

theorem follows_fetchMessages (queue : String) (n : Nat) {jobs : List Job}
    (h : Holding j now [] jobs g) :
    (discipline lib j (.fetch queues count workerID visibilityTimeoutMs)).Follows
      (fetchMessages queue n) g
      (fun r g' => match r with
        | .ok ids => Holding j now ids jobs g'
        | .error _ => Holding j now [] jobs g') := by
  apply follows_bind.mpr
  apply follows_sideline (sideline_getConsumer queue)
  intro ready
  cases ready with
  | error e => exact h
  | ok _ =>
    apply follows_bind.mpr
    refine follows_ask.mpr ⟨⟨queues, count, workerID, visibilityTimeoutMs, rfl⟩, fun fetched _ => ?_⟩
    cases fetched with
    | error e => exact h
    | ok msgs =>
      apply follows_bind.mpr
      have owed : ([] : List String).count j + View.countOf j msgs
          ≤ (g.hand (View.countOf j msgs)).tokens := by
        simp only [View.hand, List.count_nil]
        omega
      apply (follows_trackMessages owed).mono
      rintro ids _ ⟨rfl, owed⟩
      exact ⟨h.now, owed, h.told⟩

theorem follows_fetchQueue (queue : String) (jobs : List Job) (h : Holding j now [] jobs g) :
    (discipline lib j (.fetch queues count workerID visibilityTimeoutMs)).Follows
      (fetchQueue lib count workerID visibilityTimeoutMs now queue jobs) g
      (fun jobs' g' => Holding j now [] jobs' g') := by
  unfold fetchQueue
  split
  · exact h
  · apply follows_bind.mpr
    apply follows_sideline (sideline_isQueuePaused queue)
    intro paused
    cases paused with
    | true => exact h
    | false =>
      apply follows_bind.mpr
      apply follows_sideline (sideline_isRateLimited queue now)
      intro limited
      cases limited with
      | true => exact h
      | false =>
        apply follows_bind.mpr
        apply (follows_fetchMessages queue _ h).mono
        intro r g' holds
        cases r with
        | error e => exact holds
        | ok ids =>
          apply follows_forEach fun rest jobs' g'' => Holding j now rest jobs' g''
          · exact holds
          · intro k rest jobs' g'' held
            exact follows_fetchJob queue jobs' held
          · exact fun _ _ held => held

theorem follows_fetch : (discipline lib j (.fetch queues count workerID visibilityTimeoutMs)).Follows
    (fetch lib queues count workerID visibilityTimeoutMs) g
    (fun jobs g' => ∀ job ∈ jobs, job.id = j → g'.claimed = true) := by
  apply follows_bind.mpr
  apply follows_timeNow
  intro now
  apply follows_forEach fun _ jobs g' => Holding j now [] jobs g'
  · exact ⟨rfl, by simp, by simp⟩
  · intro queue _ jobs g' held
    exact follows_fetchQueue queue jobs held
  · exact fun _ _ held => held.told

end Fetch

/-! ## Jobs of workflows -/

/-- Pushing new jobs forgets no write. -/
def Kept (g g' : View) : Prop := g.wrote.isSome → g'.wrote.isSome

theorem Kept.trans {g' g'' : View} (h : Kept g g') (h' : Kept g' g'') : Kept g g'' :=
  fun wrote => h' (h wrote)

theorem Kept.see (g : View) (rec : Option JobState) : Kept g (g.see j k rec) := by
  intro wrote
  unfold View.see
  split <;> exact wrote

theorem Kept.writeAt (g : View) (v : JobState) : Kept g (g.writeAt j k v) := by
  intro wrote
  unfold View.writeAt
  split
  · rfl
  · exact wrote

theorem Kept.announce (g : View) : Kept g (g.announce j k) := by
  intro wrote
  unfold View.announce
  split <;> exact wrote

/-- The operation may store new jobs. -/
def MayMint (lib : Externals) (j : String) (call : Call) : Prop :=
  ∀ g v, Mints g v → Permits lib j g v call

section Minting

variable (mints : MayMint lib j call)

include mints

theorem follows_storeJob {now : Int} {job : Job} (given : job.id = j → 0 < g.minted) :
    (discipline lib j call).Follows (storeJob lib now job) g (fun _ g' => Kept g g') := by
  apply follows_bind.mpr
  apply follows_sideline (sideline_ensureQueue _)
  intro _
  apply follows_bind.mpr
  apply follows_sideline (sideline_storeRateLimit _)
  intro _
  split
  · apply follows_bind.mpr
    apply follows_putJobState
    · intro same
      exact mints _ _ ⟨given same, .inr rfl⟩
    · intro _
      exact ⟨trivial, fun _ _ => Kept.writeAt g _⟩
    · exact fun _ wrote => wrote
  · apply follows_bind.mpr
    apply follows_putJobState
    · intro same
      exact mints _ _ ⟨given same, .inl rfl⟩
    · intro _
      apply follows_bind.mpr
      apply follows_publishJob
      · exact View.tokens_writeAt rfl
      · exact (Kept.writeAt g _).trans (Kept.announce _)
      · exact fun _ => Kept.writeAt g _
    · exact fun _ wrote => wrote

/-- A push of a job without an id or a unique policy. -/
theorem follows_push {job : Job} (unnamed : job.id = "") (free : job.unique = none) :
    (discipline lib j call).Follows (push lib job) g (fun _ g' => Kept g g') := by
  apply follows_bind.mpr
  apply follows_timeNow
  intro now
  rw [if_pos unnamed]
  apply follows_bind.mpr
  apply follows_newUUIDv7
  intro id
  simp only [freshJob, free, Option.map_none]
  have given (same : id = j) : 0 < (View.mint { g with now := now } j id).minted := by
    simp [View.mint, same]
  apply (follows_storeJob mints given).mono
  intro _ g' kept wrote
  apply kept
  unfold View.mint
  split <;> exact wrote

end Minting

end OjsNats.Concurrent
