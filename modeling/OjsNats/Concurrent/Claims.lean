import OjsNats.Concurrent.Schedule

/-!
# At most one worker holds a job

An announced job is worth one token: a message in the stream, a message in a
fetch's hands, or a message an operation still owes.  While every requeuing
write lands on the record it was meant for there is at most one token of a job
and none while a worker holds it.
-/

namespace OjsNats.Concurrent

open Core Nats Lifecycle Effect

/-- The operations that hand jobs to workers, keep them there or take them back. -/
def working : List Operation := [.fetch, .nack, .heartbeat, .promoteRetries, .requeueStalled]

/-- A Nack or the reaper puts the job back in its queue or up for a retry. -/
def Write.GivesBack (m : Write) : Prop :=
  m.call.operation ∈ [.nack, .requeueStalled] ∧ m.record.state ∈ [.available, .retryable]

/-- The state that an operation has read when it puts a job back. -/
def putsBack (m : Write) : Option State :=
  match m.call.operation with
  | .nack | .requeueStalled => some .active
  | .promoteRetries => some .retryable
  | _ => none

/-- Between any two claims the first was given back. -/
def Separated (ms : List Write) : Prop :=
  ∀ before a between b after, ms = before ++ a :: (between ++ b :: after) → a.Claims → b.Claims →
    ∃ m ∈ between, m.GivesBack

/-- A claim that was not given back. -/
def Outstanding (ms : List Write) : Prop :=
  ∃ before a after, ms = before ++ a :: after ∧ a.Claims ∧ ∀ m ∈ after, ¬ m.GivesBack

theorem Separated.snoc {ms : List Write} {m : Write} (separated : Separated ms)
    (first : m.Claims → ¬ Outstanding ms) : Separated (ms ++ [m]) := by
  intro before a between b after eq claimsA claimsB
  rcases List.eq_nil_or_concat after with rfl | ⟨after', last, rfl⟩
  · have split : ms ++ [m] = (before ++ a :: between) ++ [b] := by simpa using eq
    obtain ⟨rfl, same⟩ := List.append_inj' split rfl
    obtain rfl : m = b := by simpa using same
    by_contra none
    refine first claimsB ⟨before, a, between, rfl, claimsA, ?_⟩
    intro x mem gives
    exact none ⟨x, mem, gives⟩
  · have split : ms ++ [m] = (before ++ a :: (between ++ b :: after')) ++ [last] := by
      simpa using eq
    obtain ⟨rfl, -⟩ := List.append_inj' split rfl
    exact separated before a between b after' rfl claimsA claimsB

theorem Outstanding.of_snoc {ms : List Write} {m : Write} (h : Outstanding (ms ++ [m])) :
    m.Claims ∨ (Outstanding ms ∧ ¬ m.GivesBack) := by
  obtain ⟨before, a, after, eq, claims, kept⟩ := h
  rcases List.eq_nil_or_concat after with rfl | ⟨after', last, rfl⟩
  · obtain ⟨-, same⟩ := List.append_inj' eq rfl
    obtain rfl : m = a := by simpa using same
    exact .inl claims
  · have split : ms ++ [m] = (before ++ a :: after') ++ [last] := by simpa using eq
    obtain ⟨rfl, same⟩ := List.append_inj' split rfl
    obtain rfl : m = last := by simpa using same
    refine .inr ⟨⟨before, a, after', rfl, claims, ?_⟩, kept m (by simp)⟩
    intro x mem
    exact kept x (by simp [mem])

/-! ## Tokens -/

/-- The tokens of the job, in the stream and with the operations. -/
def tokens (j : String) (w : World) (views : List (Call × View)) : Nat :=
  View.countOf j w.stream + (views.map fun v => v.2.tokens + v.2.minted).sum

theorem sum_set {views : List (Call × View)} {i : Nat} {call : Call} {g : View} (g' : View)
    (view : views[i]? = some (call, g)) :
    ((views.set i (call, g')).map fun v => v.2.tokens + v.2.minted).sum + (g.tokens + g.minted) =
      (views.map fun v => v.2.tokens + v.2.minted).sum + (g'.tokens + g'.minted) := by
  induction views generalizing i with
  | nil => simp at view
  | cons v rest ih =>
    cases i with
    | zero =>
      simp only [List.getElem?_cons_zero, Option.some.injEq] at view
      subst view
      simp only [List.set_cons_zero, List.map_cons, List.sum_cons]
      omega
    | succ i =>
      have tail := ih (i := i) view
      simp only [List.set_cons_succ, List.map_cons, List.sum_cons]
      omega

theorem le_tokens {j : String} {w : World} {views : List (Call × View)} {i : Nat} {call : Call}
    {g : View} (view : views[i]? = some (call, g)) : g.tokens + g.minted ≤ tokens j w views := by
  have without := sum_set {} view
  unfold tokens
  simp only at without
  omega

/-- At most one token, and none while a claim is outstanding. -/
structure Exclusive (j : String) (w : World) (log : List (Action Call Op Ans))
    (views : List (Call × View)) : Prop where
  single : tokens j w views ≤ 1
  announced : 0 < tokens j w views → ∀ rec, w.value .jobs j = some rec →
    rec.state = .available ∨ rec.state = .cancelled
  unknown : j ∉ w.used → w.value .jobs j = none ∧ tokens j w views = 0
  outstanding : Outstanding (history j log) → tokens j w views = 0 ∧
    ∃ rec, w.value .jobs j = some rec ∧ (rec.state = .active ∨ rec.state = .discarded)
  separated : Separated (history j log)

section Exclusive

variable {lib : Externals} {j : String} {first : Option JobState} {w t : World}
  {log : List (Action Call Op Ans)} {views : List (Call × View)} {i : Nat} {call : Call} {g g' : View}
  {a : Action Call Op Ans}

theorem Exclusive.still (h : Exclusive j w log views) (view : views[i]? = some (call, g))
    (silent : write? j a = none) (same : Still j w t g g') :
    Exclusive j t (log ++ [a]) (views.set i (call, g')) := by
  have unchanged := history_silent silent log
  have total : tokens j t (views.set i (call, g')) = tokens j w views := by
    have sum := sum_set g' view
    have total := same.total
    unfold tokens
    omega
  constructor
  · rw [total]
    exact h.single
  · rw [total, same.record]
    exact h.announced
  · rw [total, same.record, same.known]
    exact h.unknown
  · rw [total, same.record, unchanged]
    exact h.outstanding
  · rw [unchanged]
    exact h.separated

/-- The first token of a job comes with its id. -/
theorem Exclusive.mint (h : Exclusive j w log views) (view : views[i]? = some (call, g))
    (silent : write? j a = none) (new : j ∉ w.used) :
    Exclusive j { w with used := j :: w.used } (log ++ [a])
      (views.set i (call, { g with minted := g.minted + 1 })) := by
  obtain ⟨absent, none⟩ := h.unknown new
  have unchanged := history_silent silent log
  have total : tokens j { w with used := j :: w.used }
      (views.set i (call, { g with minted := g.minted + 1 })) = 1 := by
    have sum := sum_set { g with minted := g.minted + 1 } view
    unfold tokens at none
    change View.countOf j w.stream + _ = 1
    simp only at sum
    omega
  have missing : ({ w with used := j :: w.used } : World).value .jobs j = Option.none := absent
  constructor
  · omega
  · intro _ rec stored
    rw [missing] at stored
    cases stored
  · simp
  · rw [unchanged]
    intro outstanding
    obtain ⟨rec, stored, -⟩ := (h.outstanding outstanding).2
    rw [absent] at stored
    cases stored
  · rw [unchanged]
    exact h.separated

/-- A write of the job's record, from what it makes of tokens and claims. -/
theorem Exclusive.write (h : Exclusive j w log views) (view : views[i]? = some (call, g))
    {v : JobState} {m : Write} (entry : write? j a = some m) (stored : t.value .jobs j = some v)
    (stream : t.stream = w.stream) (used : t.used = w.used) (known : j ∈ w.used)
    (kept : m.Claims ∨ (Outstanding (history j log) ∧ ¬ m.GivesBack) →
      (g.write v).tokens + (g.write v).minted + tokens j w views = g.tokens + g.minted ∧
        (v.state = .active ∨ v.state = .discarded))
    (single : (g.write v).tokens + (g.write v).minted + tokens j w views ≤ 1 + (g.tokens + g.minted))
    (announced : g.tokens + g.minted <
      (g.write v).tokens + (g.write v).minted + tokens j w views →
        v.state = .available ∨ v.state = .cancelled)
    (first : m.Claims → ¬ Outstanding (history j log)) :
    Exclusive j t (log ++ [a]) (views.set i (call, g.write v)) := by
  have longer := history_write entry log
  have total : tokens j t (views.set i (call, g.write v)) + (g.tokens + g.minted) =
      tokens j w views + ((g.write v).tokens + (g.write v).minted) := by
    have sum := sum_set (g.write v) view
    unfold tokens
    rw [stream]
    omega
  constructor
  · omega
  · intro some rec stored'
    obtain rfl : v = rec := Option.some.inj (stored.symm.trans stored')
    exact announced (by omega)
  · rw [used]
    exact fun unknown => absurd known unknown
  · rw [longer]
    intro outstanding
    obtain ⟨none, state⟩ := kept outstanding.of_snoc
    exact ⟨by omega, v, stored, state⟩
  · rw [longer]
    exact h.separated.snoc first

theorem write_tokens (g : View) (v : JobState) : (g.write v).tokens =
    if v.state = .available then g.tokens + 1 else g.tokens - 1 := rfl

theorem write_minted (g : View) (v : JobState) : (g.write v).minted = g.minted - 1 := rfl

/-- Every write that is permitted and timely keeps the tokens in order. -/
theorem Exclusive.written (h : Exclusive j w log views) (ledger : Ledger j first w log views)
    (view : views[i]? = some (call, g)) (works : call.operation ∈ working) {v : JobState}
    (permits : Permits lib j g v call) (timely : Timely putsBack w j ⟨i, call, v⟩)
    (entry : write? j a = some ⟨i, call, v⟩) (stored : t.value .jobs j = some v)
    (stream : t.stream = w.stream) (used : t.used = w.used) :
    Exclusive j t (log ++ [a]) (views.set i (call, g.write v)) := by
  have bounded := le_tokens (j := j) (w := w) view
  have single := h.single
  have held (some : 0 < tokens j w views) : ¬ Outstanding (history j log) := by
    intro outstanding
    have := (h.outstanding outstanding).1
    omega
  have known (h' : 0 < tokens j w views ∨ w.value .jobs j ≠ none) : j ∈ w.used := by
    by_contra unknown
    obtain ⟨absent, none⟩ := h.unknown unknown
    rcases h' with some | present
    · omega
    · exact present absent
  have notClaims (ne : v.state ≠ .active) : ¬ Write.Claims ⟨i, call, v⟩ := fun claims => ne claims.2
  -- a job that an operation has read and found standing in no queue has no token
  have idle {state : State} (seen : g.seen.isSome) (stands : Stands w j state)
      (available : state ≠ .available) (cancelled : state ≠ .cancelled) :
      tokens j w views = 0 ∧ ∃ rec, w.value .jobs j = some rec ∧ rec.state = state := by
    obtain ⟨rec, present⟩ := Option.ne_none_iff_exists'.mp (ledger.seen i call g view seen)
    have state := stands rec present
    refine ⟨?_, rec, present, state⟩
    by_contra some
    rcases h.announced (by omega) rec present with eq | eq
    · exact available (state.symm.trans eq)
    · exact cancelled (state.symm.trans eq)
  -- an operation that was given the id stores the job for the first time
  have minted (mints : Mints g v) : Exclusive j t (log ++ [a]) (views.set i (call, g.write v)) := by
    obtain ⟨given, state⟩ := mints
    have inactive : v.state ≠ .active := by
      rcases state with eq | eq <;> simp [eq]
    refine h.write view entry stored stream used (known (.inl (by omega))) ?_ ?_ ?_ ?_
    · rintro (claims | ⟨outstanding, -⟩)
      · exact absurd claims (notClaims inactive)
      · exact absurd outstanding (held (by omega))
    · rw [write_tokens, write_minted]
      split <;> omega
    · rw [write_tokens, write_minted]
      split
      · rename_i available
        exact fun _ => .inl available
      · omega
    · exact fun claims => absurd claims (notClaims inactive)
  cases call with
  | fetch queues count workerID timeout =>
    obtain ⟨some, rec, -, state⟩ := permits
    have state : v.state = .active ∨ v.state = .discarded := by
      rcases state with ⟨-, eq⟩ | ⟨-, -, -, eq⟩
      · exact .inr eq
      · exact .inl eq
    have unavailable : v.state ≠ .available := by
      rcases state with eq | eq <;> simp [eq]
    refine h.write view entry stored stream used (known (.inl (by omega))) ?_ ?_ ?_ ?_
    · intro _
      rw [write_tokens, write_minted, if_neg unavailable]
      exact ⟨by omega, state⟩
    · rw [write_tokens, write_minted, if_neg unavailable]
      omega
    · rw [write_tokens, write_minted, if_neg unavailable]
      omega
    · exact fun _ => held (by omega)
  | nack k jobErr requeue =>
    rcases permits with mints | ⟨-, -, ⟨rec, seen, -⟩, state⟩
    · exact minted mints
    · obtain ⟨none, rec', present, -⟩ := idle (by simp [seen]) (timely _ rfl) (by simp) (by simp)
      have inactive : v.state ≠ .active := by
        rcases state with eq | eq | eq <;> simp [eq]
      refine h.write view entry stored stream used (known (.inr (by simp [present]))) ?_ ?_ ?_ ?_
      · rintro (claims | ⟨-, keeps⟩)
        · exact absurd claims (notClaims inactive)
        · have discarded : v.state = .discarded := by
            rcases state with eq | eq | eq
            · exact absurd ⟨by simp [Call.operation], by simp [eq]⟩ keeps
            · exact eq
            · exact absurd ⟨by simp [Call.operation], by simp [eq]⟩ keeps
          rw [write_tokens, write_minted, if_neg (by simp [discarded])]
          exact ⟨by omega, .inr discarded⟩
      · rw [write_tokens, write_minted]
        split <;> omega
      · rw [write_tokens, write_minted]
        split
        · rename_i available
          exact fun _ => .inl available
        · omega
      · exact fun claims => absurd claims (notClaims inactive)
  | promoteRetries =>
    obtain ⟨seen, available⟩ := permits
    obtain ⟨none, rec, present, state⟩ := idle seen (timely _ rfl) (by simp) (by simp)
    refine h.write view entry stored stream used (known (.inr (by simp [present]))) ?_ ?_ ?_ ?_
    · rintro (claims | ⟨outstanding, -⟩)
      · exact absurd claims (notClaims (by simp [available]))
      · obtain ⟨-, rec', present', active⟩ := h.outstanding outstanding
        cases present.symm.trans present'
        simp [state] at active
    · rw [write_tokens, write_minted, if_pos available]
      omega
    · exact fun _ => .inl available
    · exact fun claims => absurd claims (notClaims (by simp [available]))
  | requeueStalled =>
    obtain ⟨-, ⟨rec, seen, -⟩, available⟩ := permits
    obtain ⟨none, rec', present, -⟩ := idle (by simp [seen]) (timely _ rfl) (by simp) (by simp)
    refine h.write view entry stored stream used (known (.inr (by simp [present]))) ?_ ?_ ?_ ?_
    · rintro (claims | ⟨-, keeps⟩)
      · exact absurd claims (notClaims (by simp [available]))
      · exact absurd ⟨by simp [Call.operation], by simp [available]⟩ keeps
    · rw [write_tokens, write_minted, if_pos available]
      omega
    · exact fun _ => .inl available
    · exact fun claims => absurd claims (notClaims (by simp [available]))
  | heartbeat => exact permits.elim
  | _ => simp [Call.operation, working] at works

end Exclusive

theorem exclusive_invariant (lib : Externals) (j : String) (first : Option JobState) :
    Invariant (α := Reply) serves TimePasses (discipline lib j) {} (Orderly working putsBack j)
      (fun w log views => Ledger j first w log views ∧ Exclusive j w log views) := by
  refine (ledger_invariant lib j first).extend (fun _ _ _ => trivial) ?_ ?_ ?_
  · intro c views call _ _ h
    have unchanged := history_start j c.log call
    have total : tokens j c.state (views ++ [(call, ({} : View))]) = tokens j c.state views := by
      simp [tokens]
    constructor <;> simp only [total, unchanged]
    · exact h.single
    · exact h.announced
    · exact h.unknown
    · exact h.outstanding
    · exact h.separated
  · rintro c views _ _ ⟨now, -, rfl⟩ _ h
    have unchanged := history_outside j c.log
    refine ⟨h.single, h.announced, h.unknown, ?_, ?_⟩ <;> rw [unchanged]
    · exact h.outstanding
    · exact h.separated
  · intro c views i call op r t g orderly ledger h view allowed step
    refine served_cases (motive := fun op r t g' =>
      Orderly working putsBack j c (.call i call op r) →
        Exclusive j t (c.log ++ [.call i call op r]) (views.set i (call, g')))
      ?_ ?_ ?_ allowed step orderly
    · intro v rev _ permits orderly
      have entry : write? j (.call i call (.put .jobs j v) (.ok rev)) = some ⟨i, call, v⟩ := by
        simp [write?]
      refine h.written ledger view orderly.1 permits (orderly.2 _ entry) entry ?_ rfl rfl
      rw [value_put, dif_pos ⟨rfl, rfl⟩]
    · intro new _
      exact h.mint view rfl new
    · intro op r t silent same _
      exact h.still view (silent i) same

theorem Exclusive.idle {w : World} (sound : Sound w) (j : String) : Exclusive j w [] [] := by
  have total : tokens j w [] = (w.slot j).messages.length := by
    simp [tokens, View.countOf, World.slot]
  have silent : ¬ Outstanding (history j []) := by
    rintro ⟨before, a, after, eq, -⟩
    simp [history] at eq
  constructor
  · rw [total]
    rcases (sound.placed j).announced with none | ⟨m, -, one, -⟩
    · simp [none]
    · simp [one]
  · rw [total]
    intro some rec stored
    rcases (sound.placed j).announced with none | ⟨m, rec', -, same, -, state⟩
    · simp [none] at some
    · cases stored.symm.trans same
      exact state
  · intro unknown
    have absent : (w.slot j).record = none := by
      by_contra present
      exact unknown (sound.known j present).1
    refine ⟨absent, ?_⟩
    rw [total, (sound.placed j).eq_vacant absent]
    rfl
  · exact fun outstanding => absurd outstanding silent
  · intro before a between b after eq
    simp [history] at eq

/-- The ids of the jobs that a fetch has returned. -/
def returned (c : Server) (i : Nat) : List String :=
  match c.threads[i]? with
  | some (.fetch _ _ _ _, .pure (.jobs jobs)) => jobs.map Job.id
  | _ => []

/-- Between the claims of two fetches that both returned the job, a Nack or the
reaper gave the job back. -/
def HeldOnce (j : String) (c : Server) : Prop :=
  ∀ i k, i ≠ k → j ∈ returned c i → j ∈ returned c k →
    ∃ before a between b after, history j c.log = before ++ a :: (between ++ b :: after) ∧
      ((a.thread = i ∧ b.thread = k) ∨ (a.thread = k ∧ b.thread = i)) ∧
      a.Claims ∧ b.Claims ∧ ∃ m ∈ between, m.GivesBack

theorem split_of_mem {ms : List Write} {a b : Write} (first : a ∈ ms) (second : b ∈ ms)
    (ne : a ≠ b) : ∃ before between after, ms = before ++ a :: (between ++ b :: after) ∨
      ms = before ++ b :: (between ++ a :: after) := by
  obtain ⟨before, rest, rfl⟩ := List.append_of_mem first
  rcases List.mem_append.mp second with early | late
  · obtain ⟨before', between, rfl⟩ := List.append_of_mem early
    exact ⟨before', between, rest, .inr (by simp)⟩
  · rcases List.mem_cons.mp late with same | late
    · exact absurd same.symm ne
    · obtain ⟨between, after, rfl⟩ := List.append_of_mem late
      exact ⟨before, between, after, .inl rfl⟩

/-- While requeuing writes are timely, no two fetches hold the same claim of a job. -/
theorem heldOnce_of_orderly {lib : Externals} {j : String} {w : World} {c : Server}
    (reachable : Reachable lib w) (run : Runs lib (Orderly working putsBack j) (idle w) c) :
    Separated (history j c.log) ∧ HeldOnce j c := by
  have sound := reachable.sound
  have concurrently (c : Server) (call : Call)
      (h : Orderly working putsBack j c (.start call)) : call.operation ∈ concurrent :=
    (by decide : working ⊆ concurrent) h.1
  obtain ⟨views, behaved, ledger, exclusive⟩ :=
    Invariant.runs (exclusive_invariant lib j _) concurrently run ⟨.idle sound, .idle sound j⟩
  refine ⟨exclusive.separated, ?_⟩
  have claim (i : Nat) (replied : j ∈ returned c i) :
      ∃ m ∈ history j c.log, m.thread = i ∧ m.Claims := by
    unfold returned at replied
    split at replied
    · rename_i running
      obtain ⟨job, mem, id⟩ := List.mem_map.mp replied
      obtain ⟨v, claimed, active⟩ := ledger.claimed_of_reply behaved running mem id
      exact ⟨_, claimed, rfl, rfl, active⟩
    · cases replied
  intro i k ne first second
  obtain ⟨a, memA, rfl, claimsA⟩ := claim i first
  obtain ⟨b, memB, rfl, claimsB⟩ := claim k second
  have different : a ≠ b := fun same => ne (congrArg Write.thread same)
  obtain ⟨before, between, after, eq | eq⟩ := split_of_mem memA memB different
  · exact ⟨before, a, between, b, after, eq, .inl ⟨rfl, rfl⟩, claimsA, claimsB,
      exclusive.separated before a between b after eq claimsA claimsB⟩
  · exact ⟨before, b, between, a, after, eq, .inr ⟨rfl, rfl⟩, claimsB, claimsA,
      exclusive.separated before b between a after eq claimsB claimsA⟩

/-! ## Runs -/

def mail : Job := { id := "job-1", type := "mail", queue := "mails" }

def mailFetch : Call := .fetch ["mails"] 1 "worker-1" 0

/-- One job is waiting in its queue. -/
def mailed : World := after (World.start (Sample.instant 0)) (.push mail)

theorem reachable_mailed : Reachable sample mailed :=
  (Reachable.start (by decide)).after ⟨by decide, fun _ _ => rfl⟩

/-- A fetch, a Nack that requeues and another fetch. -/
def handover : List Pick :=
  [.start mailFetch, .calls 0 20, .start (.nack "job-1" none true), .calls 1 20,
    .start mailFetch, .calls 2 20]

def handedOver : Server := played (Orderly working putsBack "job-1") handover (idle mailed)

theorem runs_handedOver :
    Runs sample (Orderly working putsBack "job-1") (idle mailed) handedOver :=
  runs_played (by decide)

theorem heldOnce_handedOver : ∃ m ∈ history "job-1" handedOver.log, m.GivesBack := by
  obtain ⟨before, a, between, b, after, eq, -, -, -, m, mem, gives⟩ :=
    (heldOnce_of_orderly reachable_mailed runs_handedOver).2 0 2 (by decide) (by decide)
      (by decide)
  refine ⟨m, ?_, gives⟩
  rw [eq]
  simp [mem]

/-- The lease of the job has run out. -/
def stalled : World := later (after mailed mailFetch) 31

theorem reachable_stalled : Reachable sample stalled :=
  (reachable_mailed.after (fresh_of_no_ids rfl)).later (by decide)

/-- The reaper and a late Nack both read the claimed job and both requeue it;
two fetches are handed a message each and read the job before either claims it. -/
def collision : List Pick :=
  [.start .requeueStalled, .start (.nack "job-1" none true), .calls 0 4, .calls 1 1, .calls 0 20,
    .calls 1 20, .start mailFetch, .start mailFetch, .calls 2 7, .calls 3 7, .calls 2 20,
    .calls 3 20]

def collided : Server := played (fun _ a => Among working a) collision (idle stalled)

theorem runs_collided : Runs sample (fun _ a => Among working a) (idle stalled) collided :=
  runs_played (by decide)

/-- Where the threads wrote in turn, nothing comes between neighbours. -/
theorem between_nil {ms before between after : List Write} {a b : Write} {n : Nat}
    (turns : ms.map Write.thread = List.range n) (eq : ms = before ++ a :: (between ++ b :: after)) :
    b.thread = a.thread + 1 + between.length := by
  have first : (ms.map Write.thread)[before.length]? = some a.thread := by simp [eq]
  have second : (ms.map Write.thread)[before.length + 1 + between.length]? = some b.thread := by
    rw [eq, Nat.add_assoc, List.map_append, List.getElem?_append_right (by simp)]
    simp [Nat.add_comm 1]
  rw [turns] at first second
  have := List.getElem?_eq_some_iff.mp first
  have := List.getElem?_eq_some_iff.mp second
  simp only [List.getElem_range] at *
  omega

/-- Two workers can hold the same claim of a job. -/
theorem not_heldOnce : ¬ ∀ (lib : Externals) (w : World) (j : String) (c : Server),
    Reachable lib w → Runs lib (fun _ a => Among working a) (idle w) c → HeldOnce j c := by
  intro held
  obtain ⟨before, a, between, b, after, eq, threads, -, -, m, mem, -⟩ :=
    held sample stalled "job-1" collided reachable_stalled runs_collided 2 3 (by decide)
      (by decide) (by decide)
  have turns : (history "job-1" collided.log).map Write.thread = List.range 4 := by decide
  have apart := between_nil turns eq
  have some := List.length_pos_of_mem mem
  omega

end OjsNats.Concurrent
