import OjsNats.Concurrent.Cancellation

/-!
# The reaper and live leases

The reaper reads a lease and later the job's state.  If no worker claims the
job in between, the lease that had run out is the lease of the claim that the
reaper revokes.
-/

namespace OjsNats.Concurrent

open Core Nats Lifecycle Effect

/-- The job has a lease that has not run out. -/
def Live (lib : Externals) (j : String) (w : World) : Prop :=
  ∃ info ∈ w.value .active j, ∃ deadline ∈ lib.parseTime info.visibilityDeadline, w.clock < deadline

instance (lib : Externals) (j : String) (w : World) : Decidable (Live lib j w) :=
  inferInstanceAs (Decidable (∃ info ∈ w.value .active j,
    ∃ deadline ∈ lib.parseTime info.visibilityDeadline, w.clock < deadline))

/-- The lease is live and its worker does not report. -/
def Held (lib : Externals) (j : String) (c : Server) (a : Action Call Op Ans) : Prop :=
  Live lib j c.state ∧ ∀ m ∈ write? j a, m.call.operation ≠ .nack

instance (lib : Externals) (j : String) (c : Server) (a : Action Call Op Ans) :
    Decidable (Held lib j c a) :=
  inferInstanceAs (Decidable (_ ∧ ∀ m ∈ write? j a, m.call.operation ≠ .nack))

/-- The action claims the job for a worker. -/
def Claims (j : String) (a : Action Call Op Ans) : Prop := ∃ m ∈ write? j a, m.Claims

instance (j : String) (a : Action Call Op Ans) : Decidable (Claims j a) :=
  inferInstanceAs (Decidable (∃ m ∈ write? j a, m.Claims))

/-- The action is the reaper's write of the job. -/
def Revokes (j : String) (a : Action Call Op Ans) : Prop :=
  ∃ m ∈ write? j a, m.call.operation = .requeueStalled

instance (j : String) (a : Action Call Op Ans) : Decidable (Revokes j a) :=
  inferInstanceAs (Decidable (∃ m ∈ write? j a, m.call.operation = .requeueStalled))

/-- The operation reads the job's lease. -/
def readsLease (j : String) (i : Nat) : Action Call Op Ans → Bool
  | .call i' _ (.get .active k) _ => i' = i && k = j
  | _ => false

/-- The job was claimed after the operation had read its lease. -/
def claimedSince (j : String) (i : Nat) : List (Action Call Op Ans) → Bool
  | [] => false
  | a :: rest => (readsLease j i a && rest.any fun b => Claims j b) || claimedSince j i rest

theorem claimedSince_append {j : String} {i : Nat} {log : List (Action Call Op Ans)}
    (later : List (Action Call Op Ans)) {a b : Action Call Op Ans} (read : a ∈ log) (reads : readsLease j i a = true)
    (claim : b ∈ later) (claims : Claims j b) : claimedSince j i (log ++ later) = true := by
  induction log with
  | nil => cases read
  | cons c rest ih =>
    rw [List.cons_append, claimedSince, Bool.or_eq_true]
    rcases List.mem_cons.mp read with rfl | inside
    · left
      rw [reads, Bool.true_and, List.any_eq_true]
      exact ⟨b, List.mem_append_right _ claim, decide_eq_true claims⟩
    · right
      exact ih inside

/-- Only these operations run, and the reaper revokes a claim only if the job
was not claimed since it read the lease. -/
def Current (j : String) (c : Server) (a : Action Call Op Ans) : Prop :=
  Among working a ∧ ∀ m ∈ write? j a, m.call.operation = .requeueStalled →
    claimedSince j m.thread c.log = false

instance (j : String) (c : Server) (a : Action Call Op Ans) : Decidable (Current j c a) :=
  inferInstanceAs (Decidable (_ ∧ ∀ m ∈ write? j a, _ → _ = false))

/-! ## What the reaper knows -/

/-- The views are not ahead of the clock, and who knows of a lease that had run
out has learnt it as `learnt` says. -/
def Watched (learnt : Nat → Prop) (w : World) (views : List (Call × View)) : Prop :=
  ∀ (i : Nat) (call : Call) (g : View), views[i]? = some (call, g) →
    g.now ≤ w.clock ∧ (g.armed = true → learnt i)

section Watched

variable {lib : Externals} {j : String} {call : Call} {w w' : World} {g : View}

theorem clock_of_serves {op : Op} {r : Ans op} (step : w.Serves op r w') : w'.clock = w.clock := by
  cases op with
  | create b k v | update b k v rev =>
    simp only [World.Serves] at step
    split at step <;> obtain ⟨-, rfl⟩ := step <;> rfl
  | newUUIDv7 =>
    obtain ⟨-, -, rfl⟩ := step
    rfl
  | consumerFetch queue count =>
    obtain ⟨n, -, -, rfl⟩ := step
    rfl
  | keys b =>
    obtain ⟨rfl, -⟩ := step
    rfl
  | consumerStore | inflightStore | regexStore =>
    obtain rfl := step
    rfl
  | now | get | put | delete | inflightLoadAndDelete | publish | calculateBackoff | consumerLoad
  | ensureConsumer | inflightLoad | msgAck | msgInProgress | regexLoad =>
    obtain ⟨-, rfl⟩ := step
    rfl

/-- The views agree on the time and on the lease that was read last. -/
def SameWatch (g g' : View) : Prop := g'.now = g.now ∧ g'.armed = g.armed

theorem sameWatch_next {op : Op} (r : Ans op) (time : op ≠ .now)
    (lease : ∀ k, op ≠ .get .active k) : SameWatch g (View.next lib j g op r) := by
  cases op with
  | now => exact absurd rfl time
  | newUUIDv7 =>
    simp only [View.next, View.mint]
    split <;> exact ⟨rfl, rfl⟩
  | get b k =>
    cases b with
    | active => exact absurd rfl (lease k)
    | jobs =>
      cases r <;> simp only [View.next, View.see] <;> split <;> exact ⟨rfl, rfl⟩
    | _ => exact ⟨rfl, rfl⟩
  | put b k v =>
    cases b with
    | jobs =>
      cases r with
      | ok rev =>
        simp only [View.next, View.writeAt]
        split <;> exact ⟨rfl, rfl⟩
      | error e => exact ⟨rfl, rfl⟩
    | active =>
      cases r with
      | ok rev =>
        simp only [View.next, View.lease]
        split <;> exact ⟨rfl, rfl⟩
      | error e => exact ⟨rfl, rfl⟩
    | _ => exact ⟨rfl, rfl⟩
  | delete b k =>
    cases b with
    | active =>
      cases r with
      | ok u =>
        simp only [View.next, View.lease]
        split <;> exact ⟨rfl, rfl⟩
      | error e => exact ⟨rfl, rfl⟩
    | _ => exact ⟨rfl, rfl⟩
  | consumerFetch queue count => cases r <;> exact ⟨rfl, rfl⟩
  | publish subject k =>
    cases r with
    | ok u =>
      simp only [View.next, View.announce]
      split <;> exact ⟨rfl, rfl⟩
    | error e => exact ⟨rfl, rfl⟩
  | _ => exact ⟨rfl, rfl⟩

/-- A call that learns of a lease that had run out has just read that lease. -/
theorem armed_of_serves (lib : Externals) (j : String) (call : Call) {op : Op} {r : Ans op}
    (step : w.Serves op r w') (time : g.now ≤ w.clock) :
    (View.next lib j g op r).now ≤ w.clock ∧ ((View.next lib j g op r).armed = true →
      g.armed = true ∨ (∀ i, readsLease j i (.call i call op r) = true) ∧
        ∃ info, w.value .active j = some info ∧ leaseOver lib g.now info = true) := by
  by_cases now : op = .now
  · subst now
    obtain ⟨rfl, rfl⟩ := step
    exact ⟨Int.le_refl _, .inl⟩
  by_cases lease : ∃ k, op = .get .active k
  · obtain ⟨k, rfl⟩ := lease
    obtain ⟨rfl, rfl⟩ := step
    by_cases same : k = j
    · subst same
      cases found : w'.lookup .active k with
      | ok entry =>
        refine ⟨by simpa [View.next] using time, fun armed => .inr ⟨by simp [readsLease], ?_⟩⟩
        simp only [View.next, View.arm, if_true] at armed
        exact ⟨entry.1, World.lookup_value w' found, armed⟩
      | error e =>
        refine ⟨by simpa [View.next] using time, fun armed => ?_⟩
        simp [View.next, View.arm] at armed
    · have kept : View.next lib j g (.get .active k) (w'.lookup .active k) = g := by
        cases w'.lookup .active k <;> exact if_neg same
      rw [kept]
      exact ⟨time, .inl⟩
  · obtain ⟨sameNow, sameArmed⟩ : SameWatch g (View.next lib j g op r) :=
      sameWatch_next r now fun k eq => lease ⟨k, eq⟩
    rw [sameNow, sameArmed]
    exact ⟨time, .inl⟩

/-- One step keeps the watch, if who learns now has learnt. -/
theorem Watched.step {learnt learnt' : Nat → Prop} {views : List (Call × View)} {i : Nat} {op : Op}
    {r : Ans op} (h : Watched learnt w views) (view : views[i]? = some (call, g))
    (step : w.Serves op r w') (grows : ∀ k, learnt k → learnt' k)
    (learns : readsLease j i (.call i call op r) = true → ∀ info, w.value .active j = some info →
      leaseOver lib g.now info = true → learnt' i) :
    Watched learnt' w' (views.set i (call, View.next lib j g op r)) := by
  obtain ⟨time, armed⟩ := h i call g view
  obtain ⟨time', armed'⟩ := armed_of_serves lib j call step time
  have clock := clock_of_serves step
  intro k call' f at_k
  rw [clock]
  rcases getElem?_set_cases at_k with ⟨rfl, eq⟩ | ⟨-, old⟩
  · cases eq
    refine ⟨time', fun now => ?_⟩
    rcases armed' now with before | ⟨reads, info, stored, ended⟩
    · exact grows k (armed before)
    · exact learns (reads k) info stored ended
  · obtain ⟨time, armed⟩ := h k call' f old
    exact ⟨time, fun now => grows k (armed now)⟩

theorem Watched.start {learnt learnt' : Nat → Prop} {views : List (Call × View)}
    (h : Watched learnt w views) (grows : ∀ k, learnt k → learnt' k) (nonneg : 0 ≤ w.clock) :
    Watched learnt' w (views ++ [(call, ({} : View))]) := by
  intro k call' f at_k
  rcases getElem?_snoc_cases at_k with eq | old
  · cases eq
    exact ⟨nonneg, fun armed => nomatch armed⟩
  · obtain ⟨time, armed⟩ := h k call' f old
    exact ⟨time, fun now => grows k (armed now)⟩

/-- While its lease is live nobody finds that it has run out. -/
theorem Live.not_over (live : Live lib j w) (time : g.now ≤ w.clock) {info : ActiveJobInfo}
    (stored : w.value .active j = some info) : leaseOver lib g.now info = false := by
  obtain ⟨info', stored', deadline, parsed, later⟩ := live
  obtain rfl : info = info' := Option.some.inj (stored.symm.trans stored')
  have parsed : lib.parseTime info.visibilityDeadline = some deadline := parsed
  rw [leaseOver, parsed]
  simp only [decide_eq_false_iff_not]
  omega

end Watched

/-- The operation read the lease at some point of the log. -/
def HasRead (j : String) (log : List (Action Call Op Ans)) (i : Nat) : Prop :=
  ∃ a ∈ log, readsLease j i a = true

theorem HasRead.snoc {j : String} {log : List (Action Call Op Ans)} (a : Action Call Op Ans)
    (i : Nat) (h : HasRead j log i) : HasRead j (log ++ [a]) i := by
  obtain ⟨b, mem, reads⟩ := h
  exact ⟨b, List.mem_append_left _ mem, reads⟩

/-- Who knows of a lease that had run out has read the lease. -/
theorem watched_invariant (lib : Externals) (j : String) (first : Option JobState) :
    Invariant (α := Reply) serves TimePasses (discipline lib j) {} (Current j)
      (fun w log views => Ledger j first w log views ∧
        (0 ≤ w.clock ∧ Watched (HasRead j log) w views)) := by
  refine (ledger_invariant lib j first).extend (fun _ _ _ => trivial) ?_ ?_ ?_
  · rintro c views call _ _ ⟨nonneg, h⟩
    exact ⟨nonneg, h.start (HasRead.snoc _) nonneg⟩
  · rintro c views _ _ ⟨now, later, rfl⟩ _ ⟨nonneg, h⟩
    refine ⟨Int.le_trans nonneg later, ?_⟩
    intro i call g view
    obtain ⟨time, armed⟩ := h i call g view
    exact ⟨Int.le_trans time later, fun ended => (armed ended).snoc _⟩
  · rintro c views i call op r t g _ _ ⟨nonneg, h⟩ view _ step
    refine ⟨clock_of_serves step ▸ nonneg, h.step view step (HasRead.snoc _) ?_⟩
    intro reads _ _ _
    exact ⟨_, by simp, reads⟩

/-- While the lease stays live, who knows of one that had run out has read it before. -/
theorem held_invariant (lib : Externals) (j : String) (first : Option JobState)
    (known : List (Action Call Op Ans)) :
    Invariant (α := Reply) serves TimePasses (discipline lib j) {}
      (fun c a => Current j c a ∧ Held lib j c a)
      (fun w log views => Ledger j first w log views ∧
        (0 ≤ w.clock ∧ Watched (HasRead j known) w views)) := by
  refine (ledger_invariant lib j first).extend (fun _ _ _ => trivial) ?_ ?_ ?_
  · rintro c views call _ _ ⟨nonneg, h⟩
    exact ⟨nonneg, h.start (fun _ => id) nonneg⟩
  · rintro c views _ _ ⟨now, later, rfl⟩ _ ⟨nonneg, h⟩
    refine ⟨Int.le_trans nonneg later, ?_⟩
    intro i call g view
    obtain ⟨time, armed⟩ := h i call g view
    exact ⟨Int.le_trans time later, armed⟩
  · rintro c views i call op r t g ⟨-, live, -⟩ _ ⟨nonneg, h⟩ view _ step
    refine ⟨clock_of_serves step ▸ nonneg, h.step view step (fun _ => id) ?_⟩
    intro _ info stored ended
    rw [live.not_over (h i call g view).1 stored] at ended
    cases ended

/-- The reaper revokes no claim whose lease has stayed live since the claim. -/
def LeaseHonoured (lib : Externals) (ok : Server → Action Call Op Ans → Prop) (j : String)
    (w : World) : Prop :=
  ∀ c a c₁ c₂ b c₃, Runs lib ok (idle w) c →
    ok c a → Turn serves (Call.program lib) TimePasses c a c₁ → Claims j a →
    Runs lib (fun c a => ok c a ∧ Held lib j c a) c₁ c₂ → Live lib j c₂.state →
    ok c₂ b → Turn serves (Call.program lib) TimePasses c₂ b c₃ → ¬ Revokes j b

/-- Leases are honoured as long as the reaper does not act on a lease that it
read before the job was claimed. -/
theorem leaseHonoured_of_current {lib : Externals} {j : String} {w : World}
    (reachable : Reachable lib w) : LeaseHonoured lib (Current j) j w := by
  rintro c a c₁ c₂ b c₃ first current claim ⟨m, entry, claims⟩ held live current' turn
    ⟨m', entry', reaps⟩
  obtain ⟨rev, rfl⟩ := eq_of_write? entry
  obtain ⟨rev', rfl⟩ := eq_of_write? entry'
  have concurrently (c : Server) (call : Call) (h : Among working (.start call)) :
      call.operation ∈ concurrent := (by decide : working ⊆ concurrent) h
  have start : 0 ≤ w.clock ∧ Watched (HasRead j []) w [] :=
    ⟨reachable.clock_nonneg, by simp [Watched]⟩
  obtain ⟨views, behaved, ledger, watched⟩ :=
    Invariant.runs (watched_invariant lib j _) (fun c call h => concurrently c call h.1)
      (first.tail current claim) ⟨.idle reachable.sound, start⟩
  obtain ⟨views', behaved', -, -, watched'⟩ :=
    (held_invariant lib j _ c₁.log).holds
      (fun c call h => follows_call (concurrently c call h.1.1)) held behaved ⟨ledger, watched⟩
  cases turn with
  | call running _ =>
    obtain ⟨g, view, follows⟩ := behaved'.getElem? running
    -- the reaper has found that a lease had run out, before the claim
    have permits : Permits lib j g m'.record m'.call := follows.1.2 rfl
    have armed : g.armed = true := by
      cases call : m'.call with
      | requeueStalled =>
        rw [call] at permits
        exact permits.1
      | _ => simp [call, Call.operation] at reaps
    obtain ⟨read, mem, reads⟩ := (watched' _ _ g view).2 armed
    have log : c₁.log = c.log ++ [.call m.thread m.call (.put .jobs j m.record) (.ok rev)] := by
      cases claim
      rfl
    obtain ⟨later, grown⟩ := held.log_extends
    have early : read ∈ c.log := by
      rw [log, List.mem_append, List.mem_singleton] at mem
      rcases mem with early | rfl
      · exact early
      · cases reads
    have since := claimedSince_append ([.call m.thread m.call (.put .jobs j m.record)
      (.ok rev)] ++ later) early reads (by simp) ⟨m, entry, claims⟩
    rw [← List.append_assoc, ← log, ← grown] at since
    have none := current'.2 m' entry' reaps
    rw [since] at none
    cases none

theorem leaseHonoured_stalled : LeaseHonoured sample (Current "job-1") "job-1" stalled :=
  leaseHonoured_of_current reachable_stalled

/-! ## A lease that belonged to an earlier claim -/

/-- The reaper has read a lease that ran out; the job is given back, and a
fetch is about to claim it again. -/
def reclaiming : Server := played (fun _ a => Among working a)
  [.start .requeueStalled, .start (.nack "job-1" none true), .start mailFetch, .calls 0 3,
    .calls 1 20, .calls 2 8] (idle stalled)

/-- The new claim, and then all of its fetch and the reaper's read of the record. -/
def reclaimed : Server := played (fun c a => Among working a ∧ Held sample "job-1" c a)
  [.calls 2 20, .calls 0 1] (called reclaiming 2).2

/-- The reaper can revoke a claim whose lease is live. -/
theorem not_leaseHonoured : ¬ ∀ (lib : Externals) (j : String) (w : World), Reachable lib w →
    LeaseHonoured lib (fun _ a => Among working a) j w := by
  intro honoured
  exact honoured sample "job-1" stalled reachable_stalled reclaiming (called reclaiming 2).1
    (called reclaiming 2).2 reclaimed (called reclaimed 0).1 (called reclaimed 0).2
    (runs_played (by decide)) (by decide) (turn_called (by decide)) (by decide)
    (runs_played (by decide)) (by decide) (by decide) (turn_called (by decide)) (by decide)

end OjsNats.Concurrent
