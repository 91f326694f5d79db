import OjsNats.Concurrent.Schedule
import OjsNats.Concurrent.Updates
import OjsNats.Lifecycle.Absence

/-!
# Pausing a queue while jobs arrive

`PauseQueue` and the rate limit of a push update the queue record; `ensureQueue`
replaces it by a new one if its read did not find any.  In a run in which each
write goes by what the record still says, a pause lasts and so does the last
rate limit.  Reads may fail here.
-/

namespace OjsNats.Nats

open Core Effect

def Op.reads : Op → Bool
  | .get _ _ => true
  | _ => false

/-- Calls are served, but a read may report an error. -/
def hiccups : Semantics Op Ans World where
  step w op r w' := w.Serves op r w' ∨ op.reads = true ∧ w.Fails op r w'

/-- The rate limit that a job brings along. -/
def Job.limit (job : Job) : Int := (job.rateLimit.map RateLimitPolicy.maxPerSecond).getD 0

/-- What a call goes by when it writes a queue record, given its reads of it.
The first read of a push is that of `ensureQueue`, which writes a new record. -/
def Call.goesBy (looks : List Look) : Call → QueueMeta
  | .pauseQueue _ => recalled looks
  | .push _ => recalled (looks.drop 1)
  | _ => {}

/-- What a call assigns when it writes a queue record. -/
def Call.assigns (q : String) (looks : List Look) : Call → Assignment
  | .pauseQueue _ => .pause q
  | .push job =>
      if looks.length ≤ 1 then { name := some q } else .rateLimit q (Job.limit job)
  | _ => { name := some q }

end OjsNats.Nats

namespace OjsNats.Concurrent

open Core Nats Lifecycle Effect

/-! ## Writes of a queue record -/

structure QueueWrite where
  thread : Nat
  call : Call
  record : QueueMeta

/-- What a call stores as the queue's record. -/
def stores? (q : String) : (op : Op) → Ans op → Option QueueMeta
  | .put .queues k v, .ok _ => if k = q then some v else none
  | .create .queues k v, .ok _ => if k = q then some v else none
  | .update .queues k v _, .ok _ => if k = q then some v else none
  | _, _ => none

/-- The write of the queue's record that an action is. -/
def queueWrite? (q : String) : Action Call Op Ans → Option QueueWrite
  | .call i call op r => (stores? q op r).map (⟨i, call, ·⟩)
  | _ => none

/-- The rate limit that a push sets by a write: `ensureQueue` sets none. -/
def QueueWrite.limit? (m : QueueWrite) : Option Int :=
  match m.call with
  | .push _ => if m.record.rateLimitPerSec = 0 then none else some m.record.rateLimitPerSec
  | _ => none

def queueWrites (q : String) (log : List (Action Call Op Ans)) : List QueueWrite :=
  log.filterMap (queueWrite? q)

theorem queueWrites_snoc (q : String) (log : List (Action Call Op Ans))
    (act : Action Call Op Ans) :
    queueWrites q (log ++ [act]) = queueWrites q log ++ (queueWrite? q act).toList := by
  unfold queueWrites
  rw [List.filterMap_append]
  cases h : queueWrite? q act <;> simp [h]

/-- The last rate limit that a push has set. -/
def lastLimit (q : String) (log : List (Action Call Op Ans)) : Option Int :=
  ((queueWrites q log).filterMap QueueWrite.limit?).getLast?

/-- A write goes by a record that is still right about pausing and about the
rate limit, unless it assigns them itself. -/
def Heeds (q : String) (c : Server) (act : Action Call Op Ans) : Prop :=
  ∀ m ∈ queueWrite? q act,
    ((m.call.assigns q (looks q m.thread c.log)).paused = none →
      (m.call.goesBy (looks q m.thread c.log)).paused = (stored c.state q).paused) ∧
    ((m.call.assigns q (looks q m.thread c.log)).rateLimitPerSec = none →
      (m.call.goesBy (looks q m.thread c.log)).rateLimitPerSec =
        (stored c.state q).rateLimitPerSec)

/-- `PauseQueue` has returned nil. -/
def PauseReturned (q : String) (c : Server) : Prop :=
  ∃ i : Nat, c.threads[i]? = some (Call.pauseQueue q, Program.pure (Reply.stored (.ok ())))

/-- The record says paused and has the last rate limit. -/
structure StaysPaused (q : String) (start : World) (c : Server) : Prop where
  paused : (stored c.state q).paused = true
  rate : (stored c.state q).rateLimitPerSec =
    (lastLimit q c.log).getD (stored start q).rateLimitPerSec

/-! ## What enqueuing and pausing may call -/

/-- A call writes the queue's record as it goes by it, and remembers its reads. -/
def queueing (q : String) (call : Call) : Protocol Op Ans Draft where
  allows g
    | .create .queues k v | .put .queues k v | .update .queues k v _ =>
        k = q → v = (call.assigns q g.looks).apply (call.goesBy g.looks) ∧
          ((call.assigns q g.looks).rateLimitPerSec = none ∨ v.rateLimitPerSec ≠ 0)
    | .delete .queues _ => False
    | _ => True
  admits _ _ _ := True
  next g op r :=
    { looks := g.looks ++ (sees q op r).toList, wrote := g.wrote || (stores? q op r).isSome }

section Rules

open Protocol Program

variable {lib : Externals} {q : String} {call : Call} {g : Draft}

theorem unseen_of_off {op : Op} (off : Off .queues op) (r : Ans op) :
    sees q op r = none ∧ stores? q op r = none := by
  cases op with
  | get b =>
    cases b with
    | queues => exact absurd rfl off
    | _ => exact ⟨rfl, rfl⟩
  | put b | create b | update b =>
    cases b with
    | queues => exact absurd rfl off
    | _ => exact ⟨rfl, rfl⟩
  | _ => exact ⟨rfl, rfl⟩

theorem off_silent {op : Op} (off : Off .queues op) : (queueing q call).Silent op := by
  intro g
  constructor
  · cases op with
    | put b | create b | update b | delete b =>
      cases b with
      | queues => exact absurd rfl off
      | _ => trivial
    | _ => trivial
  · intro r
    obtain ⟨blind, unwritten⟩ := unseen_of_off (q := q) off r
    simp [queueing, blind, unwritten]

theorem queueing_off {α : Type} {p : Prog α} {Q : α → Draft → Prop}
    (uses : p.Uses (Off .queues)) (h : ∀ a, Q a g) : (queueing q call).Follows p g Q :=
  follows_silent (uses.mono fun _ => off_silent) h

/-- `ensureQueue` reads the record and may write a new one. -/
theorem queueing_ensureQueue {name : String} {Q : Unit → Draft → Prop}
    (anew : name = q → ∀ r, call.assigns q (g.looks ++ [r]) = { name := some q } ∧
      call.goesBy (g.looks ++ [r]) = {})
    (h : ∀ r g', g'.looks = g.looks ++ (if name = q then [r] else []) → Q () g') :
    (queueing q call).Follows (ensureQueue name) g Q := by
  refine follows_bind.mpr (follows_bind.mpr (follows_ask.mpr ⟨trivial, fun r _ => ?_⟩))
  have saw : ((queueing q call).next g (.get .queues name) r).looks =
      g.looks ++ (if name = q then [r] else []) := by
    simp only [queueing, sees]
    split <;> rfl
  cases r with
  | ok entry => exact h _ _ saw
  | error e =>
    refine follows_bind.mpr (follows_ask.mpr ⟨?_, fun r _ => h (.error e) _ ?_⟩)
    · rintro rfl
      rw [if_pos rfl] at saw
      rw [saw, (anew rfl _).1, (anew rfl _).2]
      exact ⟨rfl, .inl rfl⟩
    · simpa [queueing, sees] using saw

/-- An update of the record of one queue. -/
theorem queueing_update {name : String} {a : Assignment} (before : List Look)
    {Q : Except CallError Unit → Draft → Prop}
    (known : name = q → g.looks = before ∧ ∀ looks ≠ [],
      call.assigns q (before ++ looks) = a ∧ call.goesBy (before ++ looks) = recalled looks)
    (sets : ∀ v, a.rateLimitPerSec = none ∨ (a.apply v).rateLimitPerSec ≠ 0)
    (ok : ∀ g', (name = q → g'.wrote = true) → Q (.ok ()) g') (error : ∀ e g', Q (.error e) g') :
    (queueing q call).Follows (updateQueueMeta name a.apply) g Q := by
  have writes {looks : List Look} {g' : Draft} (looked : looks ≠ [])
      (knows : name = q → g'.looks = before ++ looks) : name = q →
      a.apply (recalled looks) = (call.assigns q g'.looks).apply (call.goesBy g'.looks) ∧
        ((call.assigns q g'.looks).rateLimitPerSec = none ∨
          (a.apply (recalled looks)).rateLimitPerSec ≠ 0) := by
    intro same
    obtain ⟨assigns, goes⟩ := (known same).2 looks looked
    rw [knows same, assigns, goes]
    exact ⟨rfl, sets _⟩
  refine follows_updateQueueMeta (R := fun looks g' => name = q → g'.looks = before ++ looks)
    { get := ?_, create := ?_, update := ?_, put := ?_ } fun same => by simp [(known same).1]
  · intro looks g' knows
    refine ⟨trivial, fun r _ same => ?_⟩
    simp [queueing, sees, same, knows same]
  · intro looks g' knows looked
    refine ⟨writes looked knows, fun n => ok _ fun same => ?_, fun e same => ?_⟩
    · simp [queueing, stores?, same]
    · simpa [queueing, sees] using knows same
  · intro looks g' rev knows looked
    refine ⟨writes looked knows, fun n => ok _ fun same => ?_, fun e same => ?_⟩
    · simp [queueing, stores?, same]
    · simpa [queueing, sees] using knows same
  · intro looks g' knows looked
    exact ⟨writes looked knows, fun n => ok _ fun same => by simp [queueing, stores?, same],
      fun e => error e _⟩

theorem queueing_storeRateLimit {job job' : Job} (first : Look) {Q : Unit → Draft → Prop}
    (looked : job'.queue = q → g.looks = [first]) (limit : Job.limit job' = Job.limit job)
    (h : ∀ g', Q () g') : (queueing q (.push job)).Follows (storeRateLimit job') g Q := by
  unfold storeRateLimit
  split
  · rename_i policy brings
    split
    · rename_i positive
      rw [updateQueueRateLimit_eq]
      apply follows_bind.mpr
      apply queueing_update [first]
      · intro same
        refine ⟨looked same, fun looks nonempty => ?_⟩
        have more : ¬ ([first] ++ looks).length ≤ 1 := by
          simpa [List.length_eq_zero_iff] using nonempty
        have own : Job.limit job = policy.maxPerSecond := by
          rw [← limit]
          simp [Job.limit, brings]
        exact ⟨by simp only [Call.assigns, if_neg more, own, same], rfl⟩
      · exact fun _ => .inr (Int.ne_of_gt positive)
      · exact fun _ _ => h _
      · exact fun _ _ => h _
    · exact h g
  · exact h g

/-- A push that has not looked at the queue's record yet. -/
theorem queueing_storeJob {job job' : Job} {now : Int} (fresh : g.looks = [])
    (limit : Job.limit job' = Job.limit job) :
    (queueing q (.push job)).Follows (storeJob lib now job') g fun _ _ => True := by
  apply follows_bind.mpr
  apply queueing_ensureQueue
  · intro _ r
    simp [Call.assigns, Call.goesBy, fresh, recalled]
  intro first g' looked
  apply follows_bind.mpr
  apply queueing_storeRateLimit first _ limit
  · intro g''
    refine queueing_off ?_ fun _ => trivial
    split
    · refine uses_bind (off_putJobState rfl _) fun r => ?_
      cases r with
      | error e => trivial
      | ok _ => exact ⟨(by decide : BucketName.scheduled ≠ .queues), fun _ => trivial⟩
    · refine uses_bind (off_putJobState rfl _) fun r => ?_
      cases r with
      | error e => trivial
      | ok _ =>
        refine uses_bind (off_publishJob _ _) fun r => ?_
        cases r <;> trivial
  · intro same
    rw [looked, fresh, if_pos same, List.nil_append]

theorem queueing_newID {α : Type} {given : String} {rest : String → Prog α}
    {Q : α → Draft → Prop} (h : ∀ id, (queueing q call).Follows (rest id) g Q) :
    (queueing q call).Follows (if given = "" then newUUIDv7.bind rest else rest given) g Q := by
  split
  · exact follows_bind.mpr (queueing_off ⟨trivial, fun _ => trivial⟩ h)
  · exact h given

theorem queueing_push (job : Job) :
    (queueing q (.push job)).Follows (push lib job) {} fun _ _ => True := by
  refine follows_bind.mpr (queueing_off ⟨trivial, fun _ => trivial⟩ fun now => ?_)
  simp only [bind_eq, pure_eq, bind_pure_left]
  refine queueing_newID fun id => ?_
  split
  · exact queueing_storeJob rfl rfl
  · apply follows_bind.mpr
    refine queueing_off (off_handleUnique rfl lib _ _) fun early => ?_
    cases early with
    | some reply => trivial
    | none => exact queueing_storeJob rfl rfl

theorem queueing_pushBatch (jobs given : List Job) :
    (queueing q (.pushBatch given)).Follows (pushBatch lib jobs) {} fun _ _ => True := by
  have loop (now : Int) (rest done : List Job) {g : Draft} :
      (queueing q (.pushBatch given)).Follows (pushBatchLoop lib now rest done) g
        fun _ _ => True := by
    induction rest generalizing done g with
    | nil => trivial
    | cons job rest ih =>
      simp only [pushBatchLoop, bind_eq, pure_eq, bind_pure_left]
      refine queueing_newID fun id => follows_bind.mpr ?_
      refine queueing_off (off_putJobState rfl _) fun r => ?_
      cases r with
      | error e => trivial
      | ok _ =>
        apply follows_bind.mpr
        refine queueing_ensureQueue (fun _ _ => ⟨rfl, rfl⟩) fun _ g' _ => ?_
        apply follows_bind.mpr
        refine queueing_off (off_publishJob _ _) fun r => ?_
        cases r with
        | error e => trivial
        | ok _ => exact ih _
  unfold pushBatch
  split
  · trivial
  · exact follows_bind.mpr (queueing_off ⟨trivial, fun _ => trivial⟩ fun now => loop now _ _)

theorem queueing_pauseQueue (name : String) :
    (queueing q (.pauseQueue name)).Follows (pauseQueue name) {}
      fun r g => name = q → r = .ok () → g.wrote = true := by
  rw [pauseQueue_eq]
  apply queueing_update []
  · rintro rfl
    exact ⟨rfl, fun looks _ => ⟨rfl, rfl⟩⟩
  · exact fun _ => .inl rfl
  · exact fun g' wrote same _ => wrote same
  · intro e g' _ none
    cases none

/-- The operations that enqueue, and `PauseQueue`. -/
def enqueuing : List Operation := [.push, .pushBatch, .pauseQueue]

/-- A pause that has returned nil has written the record. -/
def HasPaused (q : String) (call : Call) (reply : Reply) (g : Draft) : Prop :=
  call = .pauseQueue q → reply = .stored (.ok ()) → g.wrote = true

theorem queueing_program (among : call.operation ∈ enqueuing) :
    (queueing q call).Follows (call.program lib) {} (HasPaused q call) := by
  cases call with
  | push job =>
    refine follows_bind.mpr ((queueing_push job).mono fun r g _ => ?_)
    intro same
    cases same
  | pushBatch jobs =>
    refine follows_bind.mpr ((queueing_pushBatch jobs jobs).mono fun r g _ => ?_)
    intro same
    cases same
  | pauseQueue name =>
    refine follows_bind.mpr ((queueing_pauseQueue name).mono fun r g wrote => ?_)
    intro same nil
    cases same
    cases nil
    exact wrote rfl rfl
  | _ => simp [enqueuing, Call.operation] at among

end Rules

/-! ## The record -/

/-- The views remember the reads and the pauses, and the record is right. -/
structure Registered (q : String) (start : World) (w : World)
    (log : List (Action Call Op Ans)) (views : List (Call × Draft)) : Prop where
  looked : Remembered (sees q) Draft.looks log views
  wrote : ∀ (i : Nat) (g : Draft), views[i]? = some (.pauseQueue q, g) → g.wrote = true →
    ∃ m ∈ queueWrites q log, m.call = .pauseQueue q
  paused : (∃ m ∈ queueWrites q log, m.call = .pauseQueue q) → (stored w q).paused = true
  rate : (stored w q).rateLimitPerSec =
    (lastLimit q log).getD (stored start q).rateLimitPerSec

theorem assigns_paused (q : String) (looks : List Look) (call : Call) :
    ((∀ name, call ≠ .pauseQueue name) ∧ (call.assigns q looks).paused = none) ∨
      (call.assigns q looks).paused = some true := by
  cases call with
  | pauseQueue name => exact .inr rfl
  | push job =>
    refine .inl ⟨by simp, ?_⟩
    simp only [Call.assigns]
    split <;> rfl
  | _ => exact .inl ⟨by simp, rfl⟩

theorem push_of_assigns {q : String} {looks : List Look} {call : Call}
    (assigned : (call.assigns q looks).rateLimitPerSec ≠ none) : ∃ job, call = .push job := by
  cases call with
  | push job => exact ⟨job, rfl⟩
  | _ => exact absurd rfl assigned

section Registered

variable {q : String} {start w w' : World} {log : List (Action Call Op Ans)}
  {views : List (Call × Draft)}

theorem stored_of_value (same : w'.value .queues q = w.value .queues q) :
    stored w' q = stored w q := by
  rw [stored, same, stored]

/-- An action that does not write the record. -/
theorem Registered.idle (h : Registered q start w log views) {act : Action Call Op Ans}
    {views' : List (Call × Draft)} (silent : queueWrite? q act = none)
    (looked : Remembered (sees q) Draft.looks (log ++ [act]) views')
    (wrote : ∀ (i : Nat) (g : Draft), views'[i]? = some (.pauseQueue q, g) → g.wrote = true →
      ∃ f : Draft, views[i]? = some (.pauseQueue q, f) ∧ f.wrote = true)
    (same : w'.value .queues q = w.value .queues q) :
    Registered q start w' (log ++ [act]) views' := by
  have unwritten : queueWrites q (log ++ [act]) = queueWrites q log := by
    simp [queueWrites_snoc, silent]
  have limit : lastLimit q (log ++ [act]) = lastLimit q log := by
    rw [lastLimit, unwritten, lastLimit]
  refine ⟨looked, fun i g at_i done => ?_, ?_, ?_⟩
  · obtain ⟨f, at_i', done'⟩ := wrote i g at_i done
    rw [unwritten]
    exact h.wrote i f at_i' done'
  · rw [unwritten, stored_of_value same]
    exact h.paused
  · rw [limit, stored_of_value same]
    exact h.rate

/-- A write that goes by what the record says. -/
theorem Registered.write (h : Registered q start w log views) {i : Nat} {call : Call}
    {g g' : Draft} {op : Op} {r : Ans op} {v : QueueMeta} (view : views[i]? = some (call, g))
    (writes : stores? q op r = some v) (saw : g'.looks = g.looks ++ (sees q op r).toList)
    (composed : v = (call.assigns q g.looks).apply (call.goesBy g.looks))
    (sets : (call.assigns q g.looks).rateLimitPerSec = none ∨ v.rateLimitPerSec ≠ 0)
    (heeds : ((call.assigns q g.looks).paused = none →
        (call.goesBy g.looks).paused = (stored w q).paused) ∧
      ((call.assigns q g.looks).rateLimitPerSec = none →
        (call.goesBy g.looks).rateLimitPerSec = (stored w q).rateLimitPerSec))
    (value : w'.value .queues q = some v) :
    Registered q start w' (log ++ [.call i call op r]) (views.set i (call, g')) := by
  have written : queueWrites q (log ++ [.call i call op r]) =
      queueWrites q log ++ [⟨i, call, v⟩] := by
    simp [queueWrites_snoc, queueWrite?, writes]
  have now : stored w' q = v := by rw [stored, value, Option.getD_some]
  refine ⟨h.looked.call view saw, fun k f at_k done => ?_, ?_, ?_⟩
  · rw [written]
    rcases getElem?_set_cases at_k with ⟨rfl, eq⟩ | ⟨ne, old⟩
    · cases eq
      exact ⟨⟨k, .pauseQueue q, v⟩, by simp, rfl⟩
    · obtain ⟨m, mem, pauses⟩ := h.wrote k f old done
      exact ⟨m, by simp [mem], pauses⟩
  · rintro ⟨m, mem, pauses⟩
    rw [now, composed]
    rcases assigns_paused q g.looks call with ⟨other, free⟩ | assigned
    · rw [written, List.mem_append, List.mem_singleton] at mem
      rcases mem with mem | rfl
      · simpa [Assignment.apply, free, heeds.1 free] using h.paused ⟨m, mem, pauses⟩
      · exact absurd pauses (other q)
    · simp [Assignment.apply, assigned]
  · rw [now, lastLimit, written, List.filterMap_append]
    cases sets' : QueueWrite.limit? ⟨i, call, v⟩ with
    | some n =>
      have own : n = v.rateLimitPerSec := by
        unfold QueueWrite.limit? at sets'
        split at sets'
        · split at sets'
          · cases sets'
          · exact (Option.some.inj sets').symm
        · cases sets'
      simp [sets', own]
    | none =>
      have free : (call.assigns q g.looks).rateLimitPerSec = none := by
        by_contra assigned
        obtain ⟨job, rfl⟩ := push_of_assigns assigned
        simp [QueueWrite.limit?, sets.resolve_left assigned] at sets'
      have kept : v.rateLimitPerSec = (stored w q).rateLimitPerSec := by
        rw [composed, ← heeds.2 free]
        simp [Assignment.apply, free]
      simpa [sets', kept, lastLimit] using h.rate

end Registered

/-- A call that does not store the record leaves it alone. -/
theorem value_of_unstored {q : String} {w w' : World} {call : Call} {g : Draft} {op : Op}
    {r : Ans op} (allowed : (queueing q call).allows g op) (step : hiccups.step w op r w')
    (silent : stores? q op r = none) : w'.value .queues q = w.value .queues q := by
  have other {k : String} {v : QueueMeta} (h : (if k = q then some v else none) = none) :
      k ≠ q := by
    rintro rfl
    simp at h
  rcases step with step | ⟨reads, step⟩
  · cases op with
    | put b k v =>
      obtain ⟨rfl, rfl⟩ := step
      refine value_put_other ?_
      rintro ⟨rfl, rfl⟩
      exact other silent rfl
    | create b k v =>
      simp only [World.Serves] at step
      split at step <;> obtain ⟨rfl, rfl⟩ := step
      · rfl
      · refine value_put_other ?_
        rintro ⟨rfl, rfl⟩
        exact other silent rfl
    | update b k v rev =>
      simp only [World.Serves] at step
      split at step <;> obtain ⟨rfl, rfl⟩ := step
      · refine value_put_other ?_
        rintro ⟨rfl, rfl⟩
        exact other silent rfl
      · rfl
    | delete b k =>
      obtain ⟨rfl, rfl⟩ := step
      rw [value_delete, if_neg]
      rintro ⟨rfl, -⟩
      exact allowed
    | newUUIDv7 =>
      obtain ⟨-, -, rfl⟩ := step
      rfl
    | keys => rw [step.1]
    | consumerFetch =>
      obtain ⟨n, -, -, rfl⟩ := step
      rfl
    | consumerStore | inflightStore | regexStore =>
      cases step
      rfl
    | _ => exact step.2 ▸ rfl
  · cases op with
    | get => exact step.2 ▸ rfl
    | _ => cases reads

/-- What a call stores is what it composed. -/
theorem value_of_stored {q : String} {w w' : World} {call : Call} {g : Draft} {op : Op}
    {r : Ans op} {v : QueueMeta} (allowed : (queueing q call).allows g op)
    (step : hiccups.step w op r w') (stores : stores? q op r = some v) :
    v = (call.assigns q g.looks).apply (call.goesBy g.looks) ∧
      ((call.assigns q g.looks).rateLimitPerSec = none ∨ v.rateLimitPerSec ≠ 0) ∧
      w'.value .queues q = some v := by
  have own {k : String} {v' : QueueMeta} (h : (if k = q then some v' else none) = some v) :
      k = q ∧ v' = v := by
    split at h
    · rename_i same
      exact ⟨same, Option.some.inj h⟩
    · cases h
  rcases step with step | ⟨reads, step⟩
  · cases op with
    | put b k v' =>
      cases b <;> try cases stores
      obtain ⟨rfl, rfl⟩ := step
      obtain ⟨rfl, rfl⟩ := own stores
      exact ⟨(allowed rfl).1, (allowed rfl).2, by simp [value_put]⟩
    | create b k v' =>
      cases b <;> try cases stores
      simp only [World.Serves] at step
      split at step <;> obtain ⟨rfl, rfl⟩ := step
      · cases stores
      · obtain ⟨rfl, rfl⟩ := own stores
        exact ⟨(allowed rfl).1, (allowed rfl).2, by simp [value_put]⟩
    | update b k v' rev =>
      cases b <;> try cases stores
      simp only [World.Serves] at step
      split at step <;> obtain ⟨rfl, rfl⟩ := step
      · obtain ⟨rfl, rfl⟩ := own stores
        exact ⟨(allowed rfl).1, (allowed rfl).2, by simp [value_put]⟩
      · cases stores
    | _ => cases stores
  · cases op with
    | get => cases stores
    | _ => cases reads

/-- Only enqueuing and pausing run, and each write heeds the record. -/
def Heedful (q : String) (c : Server) (act : Action Call Op Ans) : Prop :=
  Among enqueuing act ∧ Heeds q c act

theorem registered_invariant (q : String) (start : World) :
    Invariant (α := Reply) hiccups TimePasses (queueing q) {} (Heedful q)
      (Registered q start) where
  start := by
    intro c views call _ h
    refine h.idle rfl (h.looked.begin call rfl) (fun i g at_i wrote => ?_) rfl
    rcases getElem?_snoc_cases at_i with eq | old
    · cases eq
      cases wrote
    · exact ⟨g, old, wrote⟩
  outside := by
    rintro c views t _ ⟨now, _, rfl⟩ h
    exact h.idle rfl h.looked.rest (fun i g at_i wrote => ⟨g, at_i, wrote⟩) rfl
  call := by
    intro c views i call op r t g heedful h view allowed step
    refine ⟨trivial, ?_⟩
    cases stores : stores? q op r with
    | some v =>
      obtain ⟨composed, sets, value⟩ := value_of_stored allowed step stores
      have heeds := heedful.2 ⟨i, call, v⟩ (by simp [queueWrite?, stores])
      rw [looks_eq, h.looked.known i call g view] at heeds
      exact h.write view stores rfl composed sets heeds value
    | none =>
      have silent : queueWrite? q (Action.call i call op r) = none := by
        simp [queueWrite?, stores]
      refine h.idle silent (h.looked.call view rfl) (fun k f at_k wrote => ?_)
        (value_of_unstored allowed step stores)
      rcases getElem?_set_cases at_k with ⟨rfl, eq⟩ | ⟨ne, old⟩
      · cases eq
        refine ⟨g, view, ?_⟩
        simpa [queueing, stores] using wrote
      · exact ⟨f, old, wrote⟩

/-- Once `PauseQueue` has returned nil, the queue is paused in every later state
of a run whose writes heed the record, with the last rate limit that was set. -/
theorem staysPaused_of_heedful {lib : Externals} {q : String} {w : World} {c : Server}
    (run : Interleaves hiccups (Call.program lib) TimePasses (Heedful q) (idle w) c)
    (returned : PauseReturned q c) : StaysPaused q w c := by
  have start : Registered q w w [] [] := {
    looked := .nil
    wrote := fun i g at_i => by simp at at_i
    paused := fun ⟨m, mem, _⟩ => by cases mem
    rate := rfl }
  obtain ⟨views, behaved, registered⟩ := (registered_invariant q w).holds
    (fun _ _ meets => queueing_program meets.1) run .nil start
  obtain ⟨i, at_i⟩ := returned
  obtain ⟨g, view, wrote⟩ := behaved.getElem? at_i
  exact ⟨registered.paused (registered.wrote i g view (wrote rfl rfl)), registered.rate⟩

/-! ## Runs -/

instance (q : String) (c : Server) (act : Action Call Op Ans) : Decidable (Heedful q c act) :=
  inferInstanceAs (Decidable (Among enqueuing act ∧ ∀ m ∈ queueWrite? q act,
    ((m.call.assigns q (looks q m.thread c.log)).paused = none →
      (m.call.goesBy (looks q m.thread c.log)).paused = (stored c.state q).paused) ∧
    ((m.call.assigns q (looks q m.thread c.log)).rateLimitPerSec = none →
      (m.call.goesBy (looks q m.thread c.log)).rateLimitPerSec =
        (stored c.state q).rateLimitPerSec)))

/-- The operation whose read fails. -/
def missed? : Action Call Op Ans → Option Call
  | .call _ call (.get _ _) (.error .unavailable) => some call
  | _ => none

/-- The action enqueues or pauses, and a read that fails is one of a push. -/
def Flickers (act : Action Call Op Ans) : Prop :=
  (∀ call ∈ missed? act, call.operation = .push) ∧ (missed? act = none → Among enqueuing act)

instance (act : Action Call Op Ans) : Decidable (Flickers act) :=
  inferInstanceAs (Decidable (_ ∧ (_ → _)))

theorem serves_hiccups (w : World) (op : Op) (r : Ans op) (t : World) (step : serves.step w op r t) :
    hiccups.step w op r t := .inl step

/-- A mail whose queue may hand out so many mails a second. -/
def limited (id : String) (perSecond : Int) : Job :=
  { id := id, type := "mail", queue := "mails", rateLimit := some { maxPerSecond := perSecond } }

/-- A push changes the rate limit while the queue is being paused. -/
def slowing : Server := played (Heedful "mails")
  [.start (.push (limited "job-1" 5)), .start (.pauseQueue "mails"),
    .start (.push (limited "job-2" 7)), .calls 0 20, .calls 1 1, .calls 2 20, .calls 1 5]
  (idle (World.start (Sample.instant 0)))

/-- A push looks for the record, finds none, and writes one after the queue was paused. -/
def unpaused : Server := played (fun _ act => Flickers act)
  [.start (.push (limited "job-1" 5)), .start (.pauseQueue "mails"), .calls 0 2, .calls 1 5,
    .calls 0 20]
  (idle (World.start (Sample.instant 0)))

theorem staysPaused_slowing : StaysPaused "mails" (World.start (Sample.instant 0)) slowing :=
  staysPaused_of_heedful ((runs_played (by decide)).weaken serves_hiccups) ⟨1, rfl⟩

/-- Enqueuing a job can undo a pause. -/
theorem not_staysPaused : ¬ ∀ (lib : Externals) (q : String) (w : World) (c : Server),
    Reachable lib w →
    Interleaves hiccups (Call.program lib) TimePasses (fun _ act => Flickers act) (idle w) c →
    PauseReturned q c → StaysPaused q w c := by
  intro stays
  have still := stays sample "mails" (World.start (Sample.instant 0)) unpaused (.start (by decide))
    ((runs_played (by decide)).weaken serves_hiccups) ⟨1, rfl⟩
  exact absurd still.paused (by decide)

end OjsNats.Concurrent
