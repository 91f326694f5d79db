import OjsNats.Concurrent.Schedule
import OjsNats.Lifecycle.Footprint
import OjsNats.Lifecycle.Uniqueness

/-!
# Pushes that compete for one lock

A push under a unique policy creates the lock of its fingerprint.  If there is
one, it reads the lock and the record of the job it names, and if that job is
missing or over it deletes the lock and creates it anew.  Nothing ties these
calls together.  A run in which each lands before another push has moved lets
one push through; the trail of a run says who wrote the lock last.
-/

namespace OjsNats.Nats

open Core

/-- A push under the fingerprint, whose policy lets any live job of it stand. -/
def Call.Rejecting (lib : Externals) (f : String) : Call → Prop
  | .push job => ∃ unique ∈ job.unique, unique.states = [] ∧
      (unique.onConflict = "" ∨ unique.onConflict = "reject") ∧
      UniqueStore.computeFingerprint lib job unique = f
  | _ => False

/-- The id that the client gave the job. -/
def Call.clientID : Call → String
  | .push job => job.id
  | _ => ""

end OjsNats.Nats

namespace OjsNats.Concurrent

open Core Nats Lifecycle Effect

/-! ## The trail -/

/-- The last write of the lock: a push took it, or deleted it to take it. -/
inductive Mark where
  | taken (thread : Nat)
  | freed (thread : Nat)
  deriving DecidableEq

structure Trail where
  mark : Option Mark := none
  /-- The pushes that read the lock as it still is. -/
  current : List Nat := []
  /-- The pushes that stored their job. -/
  stored : List Nat := []

def Trail.note (f : String) (trail : Trail) : Action Call Op Ans → Trail
  | .call i _ (.create .unique k _) (.ok _) =>
      if k = f then { trail with mark := some (.taken i), current := [] } else trail
  | .call i _ (.delete .unique k) (.ok _) =>
      if k = f then { trail with mark := some (.freed i), current := [] } else trail
  | .call i _ (.get .unique k) (.ok _) =>
      if k = f then { trail with current := i :: trail.current } else trail
  | .call i _ (.put .jobs _ _) (.ok _) => { trail with stored := i :: trail.stored }
  | _ => trail

/-- The push that is between deleting the lock and creating it. -/
def Trail.freedBy (trail : Trail) : Option Nat :=
  match trail.mark with
  | some (.freed i) => some i
  | _ => none

/-- The push that has the lock. -/
def Trail.takenBy (trail : Trail) : Option Nat :=
  match trail.mark with
  | some (.taken i) => some i
  | _ => none

theorem Trail.mark_of_freedBy {trail : Trail} {i : Nat} (freed : trail.freedBy = some i) :
    trail.mark = some (.freed i) := by
  unfold freedBy at freed
  split at freed
  · rename_i mark
    cases freed
    exact mark
  · cases freed

def trailOf (f : String) (log : List (Action Call Op Ans)) : Trail := log.foldl (Trail.note f) {}

@[simp] theorem trailOf_snoc (f : String) (log : List (Action Call Op Ans))
    (a : Action Call Op Ans) : trailOf f (log ++ [a]) = (trailOf f log).note f a := by
  simp [trailOf]

/-! ## The condition -/

/-- The job that a record answers for is over or missing. -/
def lapsed (lib : Externals) : Except CallError (JobState × Nat) → Bool
  | .ok (rec, _) => lib.isTerminalState rec.state
  | .error _ => true

/-- No live job of the fingerprint stands in the way of one with this id. -/
def Unopposed (lib : Externals) (f : String) (w : World) (id : String) : Prop :=
  ∀ k ∈ (w.kv .jobs).keys, ∀ rec ∈ w.value .jobs k, fingerprintOf lib rec = some f →
    lib.isTerminalState rec.state = false → k = id

/-- Each call about the lock lands where no other push is halfway: the lock is
created where no live job of the fingerprint is in the way and not between
another push's delete and create; it is found when it is read; its holder is
taken for over only when the push that took the lock has stored its job; and it
is deleted as it was read. -/
def Undivided (lib : Externals) (f : String) (c : Server) : Action Call Op Ans → Prop
  | .call i call (.create .unique _ _) (.ok _) => (trailOf f c.log).freedBy = some i ∨
      (trailOf f c.log).freedBy = none ∧ Unopposed lib f c.state call.clientID
  | .call _ _ (.get .unique k) _ => c.state.value .unique k ≠ none
  | .call _ call (.get .jobs _) r => lapsed lib r = true →
      (∀ j ∈ (trailOf f c.log).takenBy, j ∈ (trailOf f c.log).stored) ∧
        Unopposed lib f c.state call.clientID
  | .call i _ (.delete .unique _) _ => i ∈ (trailOf f c.log).current
  | _ => True

/-- The action belongs to a push under the fingerprint. -/
def Competes (lib : Externals) (f : String) : Action Call Op Ans → Prop
  | .start call => call.Rejecting lib f
  | .call _ call _ _ => call.Rejecting lib f
  | .outside => True

/-- The push has returned the job as accepted. -/
def accepted (c : Server) (i : Nat) : Bool :=
  match c.threads[i]? with
  | some (_, .pure (.job (.ok _))) => true
  | _ => false

/-- The push has returned the duplicate error. -/
def refused (c : Server) (i : Nat) : Bool :=
  match c.threads[i]? with
  | some (_, .pure (.job (.error (.duplicate _ _)))) => true
  | _ => false

/-- The operation has returned. -/
def replied (c : Server) (i : Nat) : Bool :=
  match c.threads[i]? with
  | some (_, .pure _) => true
  | _ => false

/-- At most one push is accepted, the others are refused as duplicates, and at
most one job with the fingerprint is live. -/
structure OneAccepted (lib : Externals) (f : String) (c : Server) : Prop where
  accepted : ∀ i k, accepted c i = true → accepted c k = true → i = k
  refused : ∀ i, replied c i = true → Concurrent.accepted c i = true ∨ refused c i = true
  live : ∀ j k, (c.state.slot j).Holds lib f → (c.state.slot k).Holds lib f → j = k

/-! ## What a push knows -/

inductive Stage where
  | asking
  | told
  | reading (holder : String)
  | ousting
  | freed
  | winner
  | stored
  | loser

/-- The id a push was given and how far it is with the lock. -/
structure Bid where
  minted : String := ""
  stage : Stage := .asking

/-- The id under which the push stores its job. -/
def Bid.jobID (g : Bid) (call : Call) : String :=
  if call.clientID = "" then g.minted else call.clientID

def Bid.next (lib : Externals) (g : Bid) : (op : Op) → Ans op → Bid
  | .newUUIDv7, id => { g with minted := id }
  | .create .unique _ _, .ok _ => { g with stage := .winner }
  | .create .unique _ _, .error _ => { g with stage := .told }
  | .get .unique _, .ok (holder, _) => { g with stage := .reading holder }
  | .get .jobs _, r => { g with stage := if lapsed lib r then .ousting else .loser }
  | .delete .unique _, _ => { g with stage := .freed }
  | .put .jobs _ _, .ok _ => { g with stage := .stored }
  | _, _ => g

/-- The calls a push may make. -/
def Bids (lib : Externals) (f : String) (call : Call) (g : Bid) : Op → Prop
  | .newUUIDv7 => g.stage = .asking
  | .create .unique k id => k = f ∧ id = g.jobID call ∧ id ≠ "" ∧
      (g.stage = .asking ∨ g.stage = .freed)
  | .get .unique k => k = f ∧ g.stage = .told
  | .get .jobs k => g.stage = .reading k
  | .delete .unique k => k = f ∧ g.stage = .ousting
  | .put .jobs k v => g.stage = .winner ∧ k = g.jobID call ∧ k ≠ "" ∧
      fingerprintOf lib v = some f ∧ lib.isTerminalState v.state = false
  | .put .unique _ _ | .update .unique _ _ _ => False
  | .create .jobs _ _ | .update .jobs _ _ _ | .delete .jobs _ => False
  | _ => True

/-- The answers a push counts on: a lock that was deleted can be created, one
that is there can be read, and no call fails. -/
def Bid.Admits (g : Bid) : (op : Op) → Ans op → Prop
  | .newUUIDv7, id => id ≠ ""
  | .create .unique _ _, r => (∃ n, r = .ok n) ∨ r = .error .keyExists ∧ g.stage = .asking
  | .get .unique _, r => ∃ holder rev, r = .ok (holder, rev) ∧ holder ≠ ""
  | .delete .unique _, r => r = .ok ()
  | .put _ _ _, r => ∃ n, r = .ok n
  | .publish _ _, r => r = .ok ()
  | _, _ => True

/-- What one push does about the lock. -/
def contest (lib : Externals) (f : String) (call : Call) : Protocol Op Ans Bid where
  allows := Bids lib f call
  admits := Bid.Admits
  next := Bid.next lib

/-- What the bid says when the push replies. -/
def Concludes (_ : Call) (reply : Reply) (g : Bid) : Prop :=
  (∃ job, reply = .job (.ok job) ∧ g.stage = .stored) ∨
    ∃ message details, reply = .job (.error (.duplicate message details))

/-! ## Pushes keep to it -/

section Rules

open Protocol Program

variable {lib : Externals} {f : String} {call : Call} {g : Bid}

/-- The queue records have nothing to do with the lock. -/
theorem onlyOn_silent {op : Op} (h : OnlyOn .queues op) : (contest lib f call).Silent op := by
  intro g
  cases op with
  | get | put | create | update =>
    cases h
    exact ⟨trivial, fun _ => rfl⟩
  | _ => exact h.elim

theorem bids_queues {α : Type} {p : Prog α} {Q : α → Bid → Prop}
    (uses : p.Uses (OnlyOn .queues)) (h : ∀ a, Q a g) : (contest lib f call).Follows p g Q :=
  follows_silent (uses.mono fun _ => onlyOn_silent) h

theorem bids_putJobState {job : Job} {Q : Except CallError Nat → Bid → Prop}
    (wins : g.stage = .winner) (own : job.id = g.jobID call) (nonempty : job.id ≠ "")
    (fingerprint : fingerprintOf lib (marshalJobState job) = some f)
    (live : lib.isTerminalState job.state = false)
    (ok : ∀ n, Q (.ok n) { g with stage := .stored }) :
    (contest lib f call).Follows (putJobState job) g Q := by
  refine ⟨⟨wins, own, nonempty, fingerprint, live⟩, fun r admitted => ?_⟩
  obtain ⟨n, rfl⟩ := admitted
  exact ok n

theorem bids_publishJob {queue k : String} {Q : Result Unit → Bid → Prop} (ok : Q (.ok ()) g) :
    (contest lib f call).Follows (publishJob queue k) g Q := by
  refine follows_bind.mpr ⟨trivial, fun r admitted => ?_⟩
  obtain rfl : r = .ok () := admitted
  exact ok

/-- A push that has the lock stores its job and returns it. -/
theorem bids_storeJob {now : Int} {job : Job} {unique : UniquePolicy} (wins : g.stage = .winner)
    (own : job.id = g.jobID call) (nonempty : job.id ≠ "") (policy : job.unique = some unique)
    (fingerprint : UniqueStore.computeFingerprint lib job unique = f) :
    (contest lib f call).Follows (storeJob lib now job) g
      (fun r g' => ∃ job, r = .ok job ∧ g'.stage = .stored) := by
  have stores {state : State} (live : lib.isTerminalState state = false)
      {Q : Except CallError Nat → Bid → Prop}
      (ok : ∀ n, Q (.ok n) { g with stage := .stored }) :
      (contest lib f call).Follows (putJobState (enqueuedJob lib state now job)) g Q := by
    subst fingerprint
    exact bids_putJobState wins own nonempty (fingerprintOf_storedRecord policy) live ok
  apply follows_bind.mpr
  apply bids_queues (onlyOn_ensureQueue _)
  intro _
  apply follows_bind.mpr
  apply bids_queues (onlyOn_storeRateLimit _)
  intro _
  split
  · apply follows_bind.mpr
    apply stores (isTerminalState_of_not (by simp))
    intro n
    exact ⟨trivial, fun _ _ => ⟨_, rfl, rfl⟩⟩
  · apply follows_bind.mpr
    apply stores (isTerminalState_of_not (by simp))
    intro n
    apply follows_bind.mpr
    apply bids_publishJob
    exact ⟨_, rfl, rfl⟩

theorem bids_checkAndSet {k : String} {Q : Except CallError String → Bid → Prop}
    (asks : g.stage = .asking) (own : k = g.jobID call) (nonempty : k ≠ "")
    (taken : Q (.ok "") { g with stage := .winner })
    (held : ∀ holder, holder ≠ "" → Q (.ok holder) { g with stage := .reading holder }) :
    (contest lib f call).Follows (UniqueStore.checkAndSet f k) g Q := by
  apply follows_bind.mpr
  refine follows_ask.mpr ⟨⟨rfl, own, nonempty, .inl asks⟩, fun r admitted => ?_⟩
  rcases admitted with ⟨n, rfl⟩ | ⟨rfl, -⟩
  · exact taken
  · apply follows_bind.mpr
    refine follows_ask.mpr ⟨⟨rfl, rfl⟩, fun r admitted => ?_⟩
    obtain ⟨holder, rev, rfl, nonempty⟩ := admitted
    exact held holder nonempty

/-- A push whose lock is out of date deletes it and takes it. -/
theorem bids_overwriteUnique {k : String} {Q : Unit → Bid → Prop} (ousts : g.stage = .ousting)
    (own : k = g.jobID call) (nonempty : k ≠ "") (taken : Q () { g with stage := .winner }) :
    (contest lib f call).Follows (overwriteUnique f k) g Q := by
  apply follows_bind.mpr
  refine follows_ask.mpr ⟨⟨rfl, ousts⟩, fun r _ => ?_⟩
  apply follows_bind.mpr
  apply follows_bind.mpr
  refine follows_ask.mpr ⟨⟨rfl, own, nonempty, .inr rfl⟩, fun r admitted => ?_⟩
  rcases admitted with ⟨n, rfl⟩ | ⟨-, asking⟩
  · exact taken
  · cases asking

theorem bids_info {k : String} {Q : Result Job → Bid → Prop} (reads : g.stage = .reading k)
    (live : ∀ rec, lib.isTerminalState rec.state = false →
      Q (.ok (unmarshalJobState rec)) { g with stage := .loser })
    (finished : ∀ rec, lib.isTerminalState rec.state = true →
      Q (.ok (unmarshalJobState rec)) { g with stage := .ousting })
    (missing : Q (.error (.notFound "Job" k)) { g with stage := .ousting }) :
    (contest lib f call).Follows (info k) g Q := by
  apply follows_bind.mpr
  apply follows_bind.mpr
  refine follows_ask.mpr ⟨reads, fun r _ => ?_⟩
  cases r with
  | error e => exact missing
  | ok entry =>
    obtain ⟨stored, rev⟩ := entry
    cases ended : lib.isTerminalState stored.state with
    | true => simpa [contest, Bid.next, lapsed, ended] using finished stored ended
    | false => simpa [contest, Bid.next, lapsed, ended] using live stored ended

/-- The unique block of a push ends in the duplicate error or with the lock. -/
theorem bids_handleUnique {job : Job} {unique : UniquePolicy} (asks : g.stage = .asking)
    (own : job.id = g.jobID call) (nonempty : job.id ≠ "") (states : unique.states = [])
    (rejects : unique.onConflict = "" ∨ unique.onConflict = "reject")
    (fingerprint : UniqueStore.computeFingerprint lib job unique = f) :
    (contest lib f call).Follows (handleUnique lib job unique) g (fun r g' =>
      (r = none ∧ g' = { g with stage := .winner }) ∨
        ∃ message details, r = some (.error (.duplicate message details))) := by
  have conflict : (if unique.onConflict = "" then "reject" else unique.onConflict) = "reject" := by
    rcases rejects with empty | reject
    · rw [if_pos empty]
    · simp [reject]
  have takes (g' : Bid) (ousts : g'.stage = .ousting) (same : g'.minted = g.minted) :
      (contest lib f call).Follows
        ((overwriteUnique f job.id).bind
          fun _ => (Program.pure none : Prog (Option (Result Job)))) g'
        (fun r g' => (r = none ∧ g' = { g with stage := .winner }) ∨
          ∃ message details, r = some (.error (.duplicate message details))) := by
    apply follows_bind.mpr
    apply bids_overwriteUnique ousts (by rw [own, Bid.jobID, Bid.jobID, same]) nonempty
    exact .inl ⟨rfl, by rw [← same]⟩
  subst fingerprint
  simp only [handleUnique, conflict, Program.bind_eq, Program.pure_eq]
  apply follows_bind.mpr
  apply bids_checkAndSet asks own nonempty
  · exact .inl ⟨rfl, rfl⟩
  · intro holder named
    simp only [if_neg named]
    apply follows_bind.mpr
    apply bids_info rfl
    · intro rec live
      have relevant : isRelevant lib unique (unmarshalJobState rec) = true := by
        simp [isRelevant, states, live]
      simp only [relevant, if_true]
      exact .inr ⟨_, _, rfl⟩
    · intro rec ended
      have irrelevant : isRelevant lib unique (unmarshalJobState rec) = false := by
        simp [isRelevant, states, ended]
      simp only [irrelevant, Bool.false_eq_true, if_false]
      exact takes _ rfl rfl
    · exact takes _ rfl rfl

theorem mergeSort_mergeSort (keys : List String) : keys.mergeSort.mergeSort = keys.mergeSort := by
  apply List.mergeSort_of_pairwise
  apply List.pairwise_mergeSort
  · intro a b c first second
    simp only [decide_eq_true_eq] at *
    exact String.le_trans first second
  · intro a b
    simpa using String.le_total a b

/-- The fingerprint depends neither on the id nor on the order of the policy's keys. -/
theorem computeFingerprint_fresh (lib : Externals) (id : String) (now : Int) (job : Job)
    (unique : UniquePolicy) :
    UniqueStore.computeFingerprint lib (freshJob lib id now job) (sortedKeys unique) =
      UniqueStore.computeFingerprint lib job unique := by
  have parts : UniqueStore.fingerprintPart lib (freshJob lib id now job) =
      UniqueStore.fingerprintPart lib job := rfl
  unfold UniqueStore.computeFingerprint
  rw [parts]
  by_cases empty : unique.keys = []
  · simp [sortedKeys, empty]
  · have nonempty : unique.keys.mergeSort ≠ [] := by
      intro none
      have perm := List.mergeSort_perm unique.keys fun a b => decide (a ≤ b)
      rw [none] at perm
      exact empty (List.nil_perm.mp perm)
    have keys : (sortedKeys unique).keys ≠ [] := nonempty
    have sorted : (sortedKeys unique).keys.mergeSort = unique.keys.mergeSort :=
      mergeSort_mergeSort unique.keys
    simp only [if_neg empty, if_neg keys, sorted]

/-- A push under the fingerprint keeps to the protocol. -/
theorem bids_push {call : Call} (rejecting : call.Rejecting lib f) :
    (contest lib f call).Follows (call.program lib) {} (Concludes call) := by
  cases call with
  | push job =>
    obtain ⟨unique, policy, states, rejects, fingerprint⟩ := rejecting
    have policy : job.unique = some unique := policy
    have enters (id : String) (now : Int) {g : Bid} {rest : Option (Result Job) → Prog (Result Job)}
        (refuses : ∀ early, rest (some early) = .pure early)
        (goesOn : rest none = storeJob lib now (freshJob lib id now job))
        (asks : g.stage = .asking) (own : id = g.jobID (.push job)) (nonempty : id ≠ "") :
        (contest lib f (.push job)).Follows
          ((handleUnique lib (freshJob lib id now job) (sortedKeys unique)).bind rest) g
          (fun r g' => Concludes (.push job) (.job r) g') := by
      have same := (computeFingerprint_fresh lib id now job unique).trans fingerprint
      have policy' : (freshJob lib id now job).unique = some (sortedKeys unique) := by
        simp [freshJob, policy]
      have states' : (sortedKeys unique).states = [] := states
      apply follows_bind.mpr
      apply (bids_handleUnique asks own nonempty states' rejects same).mono
      rintro r g' (⟨rfl, rfl⟩ | ⟨message, details, rfl⟩)
      · have stores : (contest lib f (.push job)).Follows
            (storeJob lib now (freshJob lib id now job)) { g with stage := .winner }
            (fun r g' => ∃ job, r = .ok job ∧ g'.stage = .stored) :=
          bids_storeJob rfl own nonempty policy' same
        rw [goesOn]
        apply stores.mono
        rintro r g' ⟨stored, rfl, wins⟩
        exact .inl ⟨stored, rfl, wins⟩
      · rw [refuses]
        exact .inr ⟨message, details, rfl⟩
    apply follows_bind.mpr
    apply follows_bind.mpr
    refine follows_ask.mpr ⟨trivial, fun now _ => ?_⟩
    have policy' (id : String) : (freshJob lib id now job).unique = some (sortedKeys unique) := by
      simp [freshJob, policy]
    simp only [Program.bind_eq, Program.pure_eq, policy']
    split
    · rename_i unnamed
      apply follows_bind.mpr
      refine follows_ask.mpr ⟨rfl, fun id nonempty => ?_⟩
      have own : (freshJob lib id now job).id =
          Bid.jobID { minted := id } (.push job) := by
        simp only [Bid.jobID, Call.clientID, unnamed, ↓reduceIte]
        rfl
      exact enters id now (fun _ => rfl) rfl rfl own nonempty
    · rename_i named
      exact enters job.id now (fun _ => rfl) rfl rfl
        (by simp [Bid.jobID, Call.clientID, named]) named
  | _ => exact rejecting.elim

end Rules

/-! ## One call of one push -/

section Served

variable {lib : Externals} {f : String} {call : Call} {w t : World} {g : Bid}

theorem holds_of_kv (same : t.kv .jobs = w.kv .jobs) {k : String}
    (holds : (t.slot k).Holds lib f) : (w.slot k).Holds lib f := by
  obtain ⟨rec, stored, fingerprint, live⟩ := holds
  exact ⟨rec, (value_of_kv same k).symm.trans stored, fingerprint, live⟩

/-- A served call takes, reads or deletes the lock, reads or stores a job, names
the job, or has nothing to do with them. -/
theorem bid_cases {motive : (op : Op) → Ans op → World → Bid → Prop}
    (take : ∀ n, g.stage = .asking ∨ g.stage = .freed → g.jobID call ≠ "" →
      w.value .unique f = none → motive (.create .unique f (g.jobID call)) (.ok n)
        (w.put .unique f (g.jobID call)) { g with stage := .winner })
    (fail : g.stage = .asking ∨ g.stage = .freed → w.value .unique f ≠ none →
      motive (.create .unique f (g.jobID call)) (.error .keyExists) w { g with stage := .told })
    (read : ∀ holder rev, g.stage = .told → w.value .unique f = some holder →
      motive (.get .unique f) (.ok (holder, rev)) w { g with stage := .reading holder })
    (miss : ∀ e, w.value .unique f = none → motive (.get .unique f) (.error e) w g)
    (find : ∀ k, g.stage = .reading k → motive (.get .jobs k) (w.lookup .jobs k) w
      { g with stage := if lapsed lib (w.lookup .jobs k) then .ousting else .loser })
    (free : g.stage = .ousting →
      motive (.delete .unique f) (.ok ()) (w.delete .unique f) { g with stage := .freed })
    (store : ∀ v n, g.stage = .winner → g.jobID call ≠ "" → fingerprintOf lib v = some f →
      lib.isTerminalState v.state = false →
      motive (.put .jobs (g.jobID call) v) (.ok n) (w.put .jobs (g.jobID call) v)
        { g with stage := .stored })
    (mint : ∀ id, g.stage = .asking →
      motive .newUUIDv7 id { w with used := id :: w.used } { g with minted := id })
    (rest : ∀ op r t, (∀ b, b = .unique ∨ b = .jobs → t.kv b = w.kv b) →
      (∀ (trail : Trail) (i : Nat), trail.note f (.call i call op r) = trail) → motive op r t g)
    {op : Op} {r : Ans op} (allowed : Bids lib f call g op) (step : w.Serves op r t) :
    motive op r t (g.next lib op r) := by
  have other {b b' : BucketName} (ne : b ≠ .unique ∧ b ≠ .jobs)
      (which : b' = .unique ∨ b' = .jobs) : b' ≠ b := by
    rintro rfl
    exact which.elim ne.1 ne.2
  cases op with
  | create b k v =>
    cases b with
    | unique =>
      obtain ⟨rfl, rfl, nonempty, stage⟩ := allowed
      simp only [World.Serves] at step
      split at step
      · rename_i held
        obtain ⟨rfl, rfl⟩ := step
        exact fail stage (Option.isSome_iff_ne_none.mp held)
      · rename_i vacant
        obtain ⟨rfl, rfl⟩ := step
        exact take _ stage nonempty (by simpa using vacant)
    | jobs => exact allowed.elim
    | _ =>
      simp only [World.Serves] at step
      split at step <;> obtain ⟨rfl, rfl⟩ := step
      · exact rest _ _ _ (fun _ _ => rfl) fun _ _ => rfl
      · exact rest _ _ _ (fun _ which => Function.update_of_ne (other (by simp) which) _ _)
          fun _ _ => rfl
  | update b k v rev =>
    cases b with
    | unique | jobs => exact allowed.elim
    | _ =>
      simp only [World.Serves] at step
      split at step <;> obtain ⟨rfl, rfl⟩ := step
      · exact rest _ _ _ (fun _ which => Function.update_of_ne (other (by simp) which) _ _)
          fun _ _ => rfl
      · exact rest _ _ _ (fun _ _ => rfl) fun _ _ => rfl
  | put b k v =>
    obtain ⟨rfl, rfl⟩ := step
    cases b with
    | unique => exact allowed.elim
    | jobs =>
      obtain ⟨stage, rfl, nonempty, fingerprint, live⟩ := allowed
      exact store v _ stage nonempty fingerprint live
    | _ =>
      exact rest _ _ _ (fun _ which => Function.update_of_ne (other (by simp) which) _ _)
        fun _ _ => rfl
  | delete b k =>
    obtain ⟨rfl, rfl⟩ := step
    cases b with
    | unique =>
      obtain ⟨rfl, stage⟩ := allowed
      exact free stage
    | jobs => exact allowed.elim
    | _ =>
      exact rest _ _ _ (fun _ which => Function.update_of_ne (other (by simp) which) _ _)
        fun _ _ => rfl
  | get b k =>
    obtain ⟨rfl, rfl⟩ := step
    cases b with
    | unique =>
      obtain ⟨rfl, stage⟩ := allowed
      cases found : t.lookup .unique k with
      | ok entry => exact read entry.1 entry.2 stage (World.lookup_value t found)
      | error e => exact miss e (World.lookup_error t found)
    | jobs => exact find k allowed
    | _ => exact rest _ _ _ (fun _ _ => rfl) fun _ _ => rfl
  | newUUIDv7 =>
    obtain ⟨-, -, rfl⟩ := step
    exact mint r allowed
  | consumerFetch =>
    obtain ⟨n, -, -, rfl⟩ := step
    exact rest _ _ _ (fun _ _ => rfl) fun _ _ => rfl
  | keys =>
    obtain ⟨rfl, -⟩ := step
    exact rest _ _ _ (fun _ _ => rfl) fun _ _ => rfl
  | consumerStore | inflightStore | regexStore =>
    obtain rfl := step
    exact rest _ _ _ (fun _ _ => rfl) fun _ _ => rfl
  | inflightLoadAndDelete | publish =>
    obtain ⟨-, rfl⟩ := step
    exact rest _ _ _ (fun _ _ => rfl) fun _ _ => rfl
  | now | calculateBackoff | consumerLoad | ensureConsumer | inflightLoad | msgAck | msgInProgress
  | regexLoad =>
    obtain ⟨-, rfl⟩ := step
    exact rest _ _ _ (fun _ _ => rfl) fun _ _ => rfl

/-- Where the lock is found and a deleted lock stays away, the answers are the ones
a push counts on. -/
theorem bid_admits {op : Op} {r : Ans op} (unlocked : w.value .unique f ≠ some "")
    (vacant : g.stage = .freed → w.value .unique f = none)
    (found : ∀ k, op = .get .unique k → w.value .unique k ≠ none)
    (allowed : Bids lib f call g op) (step : w.Serves op r t) : g.Admits op r := by
  cases op with
  | create b k v =>
    cases b with
    | unique =>
      obtain ⟨rfl, -, -, stage⟩ := allowed
      simp only [World.Serves] at step
      split at step
      · rename_i held
        refine .inr ⟨step.1, stage.resolve_right fun freed => ?_⟩
        simp [vacant freed] at held
      · exact .inl ⟨_, step.1⟩
    | _ => trivial
  | get b k =>
    cases b with
    | unique =>
      obtain ⟨rfl, -⟩ := allowed
      obtain ⟨rfl, rfl⟩ := step
      cases look : t.lookup .unique k with
      | ok entry =>
        refine ⟨entry.1, entry.2, rfl, fun empty => unlocked ?_⟩
        rw [World.lookup_value t look, empty]
      | error e => exact absurd (World.lookup_error t look) (found k rfl)
    | _ => trivial
  | put b k v => exact ⟨_, step.1⟩
  | delete b k => cases b <;> first | exact step.1 | trivial
  | newUUIDv7 => exact step.1
  | publish => exact step.1
  | _ => trivial

end Served

/-! ## At most one push is through -/

/-- No job of the fingerprint is live, but perhaps the one with this id. -/
def Alone (lib : Externals) (f : String) (w : World) (id : String) : Prop :=
  ∀ k, (w.slot k).Holds lib f → k = id

/-- What the stage of a push says about the lock and the live jobs.  A push that
is to delete the lock and has read it as it is comes before every other. -/
structure Poised (lib : Externals) (f : String) (w : World) (trail : Trail) (i : Nat) (call : Call)
    (g : Bid) : Prop where
  freed : g.stage = .freed → trail.mark = some (.freed i)
  taken : g.stage = .winner ∨ g.stage = .stored → trail.mark = some (.taken i)
  alone : g.stage = .freed ∨ g.stage = .winner → Alone lib f w (g.jobID call)
  reading : ∀ holder, g.stage = .reading holder → i ∈ trail.current →
    w.value .unique f = some holder
  ousting : g.stage = .ousting → i ∈ trail.current →
    trail.mark = none ∧ Alone lib f w (g.jobID call)

/-- The lock belongs to the push that wrote it last, and only that push may store a job. -/
structure Contested (lib : Externals) (f : String) (w : World) (trail : Trail)
    (views : List (Call × Bid)) : Prop where
  single : ∀ j k, (w.slot j).Holds lib f → (w.slot k).Holds lib f → j = k
  named : ∀ k, (w.slot k).Holds lib f → k ≠ ""
  unlocked : w.value .unique f ≠ some ""
  freed : ∀ i, trail.mark = some (.freed i) → w.value .unique f = none ∧
    ∃ call g, views[i]? = some (call, g) ∧ g.stage = .freed
  taken : ∀ i, trail.mark = some (.taken i) → ∃ call g, views[i]? = some (call, g) ∧
    w.value .unique f = some (g.jobID call) ∧
    (g.stage = .winner ∨ g.stage = .stored ∧ (w.slot (g.jobID call)).Holds lib f)
  listed : ∀ i ∈ trail.stored, ∃ call g, views[i]? = some (call, g) ∧ g.stage = .stored
  poised : ∀ (i : Nat) (call : Call) (g : Bid), views[i]? = some (call, g) →
    Poised lib f w trail i call g

section Contested

variable {lib : Externals} {f : String} {call : Call} {w t : World} {g g' : Bid}
  {trail trail' : Trail} {views : List (Call × Bid)} {i : Nat}

theorem Poised.idle (idle : g.stage = .asking ∨ g.stage = .told ∨ g.stage = .loser) :
    Poised lib f w trail i call g := by
  constructor <;> rcases idle with stage | stage | stage <;> simp [stage]

theorem Poised.still (h : Poised lib f w trail i call g) (mark : trail'.mark = trail.mark)
    (current : i ∈ trail'.current → i ∈ trail.current)
    (lock : t.value .unique f = w.value .unique f)
    (live : ∀ k, (t.slot k).Holds lib f → (w.slot k).Holds lib f) :
    Poised lib f t trail' i call g where
  freed := mark ▸ h.freed
  taken := mark ▸ h.taken
  alone := fun stage k holds => h.alone stage k (live k holds)
  reading := fun holder stage here => lock ▸ h.reading holder stage (current here)
  ousting := fun stage here => ⟨mark ▸ (h.ousting stage (current here)).1,
    fun k holds => (h.ousting stage (current here)).2 k (live k holds)⟩

/-- A push whose view is not changed is still in the list. -/
theorem getElem?_set_kept {call' : Call} {g₀ : Bid} {k : Nat} (view : views[i]? = some (call, g))
    (at_k : views[k]? = some (call', g₀)) (kept : g₀ = g → g' = g) :
    (views.set i (call, g'))[k]? = some (call', g₀) := by
  by_cases same : k = i
  · subst same
    obtain ⟨rfl, rfl⟩ := Prod.mk.inj (Option.some.inj (at_k.symm.trans view))
    rw [kept rfl]
    simp [(List.getElem?_eq_some_iff.mp view).1]
  · rw [List.getElem?_set_ne (Ne.symm same), at_k]

/-- Neither the lock nor a job is written. -/
theorem Contested.still (h : Contested lib f w trail views) (view : views[i]? = some (call, g))
    (mark : trail'.mark = trail.mark) (stored : trail'.stored = trail.stored)
    (current : ∀ k, k ≠ i → k ∈ trail'.current → k ∈ trail.current)
    (lock : t.value .unique f = w.value .unique f)
    (live : ∀ k, (t.slot k).Holds lib f ↔ (w.slot k).Holds lib f)
    (kept : g.stage = .freed ∨ g.stage = .winner ∨ g.stage = .stored → g' = g)
    (own : Poised lib f t trail' i call g') :
    Contested lib f t trail' (views.set i (call, g')) where
  single := fun j k first second => h.single j k ((live j).mp first) ((live k).mp second)
  named := fun k holds => h.named k ((live k).mp holds)
  unlocked := lock ▸ h.unlocked
  freed := by
    intro k freed
    obtain ⟨vacant, call', g₀, at_k, stage⟩ := h.freed k (mark ▸ freed)
    have at_k' := getElem?_set_kept view at_k fun same => kept (same ▸ .inl stage)
    exact ⟨lock.trans vacant, call', g₀, at_k', stage⟩
  taken := by
    intro k taken
    obtain ⟨call', g₀, at_k, held, stage⟩ := h.taken k (mark ▸ taken)
    refine ⟨call', g₀, getElem?_set_kept view at_k fun same => kept ?_, lock.trans held, ?_⟩
    · exact same ▸ .inr (stage.imp id And.left)
    · exact stage.imp id fun done => ⟨done.1, (live _).mpr done.2⟩
  listed := by
    intro k mem
    obtain ⟨call', g₀, at_k, done⟩ := h.listed k (stored ▸ mem)
    have at_k' := getElem?_set_kept view at_k fun same => kept (same ▸ .inr (.inr done))
    exact ⟨call', g₀, at_k', done⟩
  poised := by
    intro k call' f' at_k
    rcases getElem?_set_cases at_k with ⟨rfl, eq⟩ | ⟨other, old⟩
    · cases eq
      exact own
    · exact (h.poised k call' f' old).still mark (current k other) lock fun k holds =>
        (live k).mp holds

theorem alone_of_unopposed (h : Contested lib f w trail views)
    (unopposed : Unopposed lib f w call.clientID) : Alone lib f w (g.jobID call) := by
  rintro k ⟨rec, stored, fingerprint, live⟩
  have nonempty := h.named k ⟨rec, stored, fingerprint, live⟩
  have present : k ∈ (w.kv .jobs).keys :=
    (Store.Bucket.mem_keys_iff _ _).mpr (Option.isSome_iff_exists.mpr ⟨rec, stored⟩)
  have same : k = call.clientID := unopposed k present rec stored fingerprint live
  rw [Bid.jobID, if_neg (same ▸ nonempty), same]

/-- A push that has not got the lock, once the lock was written. -/
theorem Poised.barred (freed : g.stage ≠ .freed)
    (through : ¬ (g.stage = .winner ∨ g.stage = .stored)) (current : i ∉ trail.current) :
    Poised lib f w trail i call g where
  freed := fun stage => absurd stage freed
  taken := fun stage => absurd stage through
  alone := fun stage => stage.elim (absurd · freed) fun wins => absurd (.inl wins) through
  reading := fun _ _ here => absurd here current
  ousting := fun _ here => absurd here current

/-- The lock is created. -/
theorem Contested.take (h : Contested lib f w trail views) (view : views[i]? = some (call, g))
    (stage : g.stage = .asking ∨ g.stage = .freed) (vacant : w.value .unique f = none)
    (undivided : trail.freedBy = some i ∨
      trail.freedBy = none ∧ Unopposed lib f w call.clientID)
    (nonempty : g.jobID call ≠ "") :
    Contested lib f (w.put .unique f (g.jobID call))
      { trail with mark := some (.taken i), current := [] }
      (views.set i (call, { g with stage := .winner })) := by
  have untaken (j : Nat) : trail.mark ≠ some (.taken j) := by
    intro taken
    obtain ⟨_, _, _, held, _⟩ := h.taken j taken
    rw [vacant] at held
    cases held
  have alone : Alone lib f w (g.jobID call) := by
    rcases undivided with freed | ⟨-, unopposed⟩
    · obtain ⟨-, call', g', at_i, waits⟩ := h.freed i (Trail.mark_of_freedBy freed)
      obtain ⟨rfl, rfl⟩ := Prod.mk.inj (Option.some.inj (at_i.symm.trans view))
      exact (h.poised i call' g' view).alone (.inl waits)
    · exact alone_of_unopposed h unopposed
  have live {k : String} (holds : ((w.put .unique f (g.jobID call)).slot k).Holds lib f) :
      (w.slot k).Holds lib f := holds_of_kv (kv_put_of_ne _ _ (by simp)) holds
  have inside : i < views.length := (List.getElem?_eq_some_iff.mp view).1
  have held : (w.put .unique f (g.jobID call)).value .unique f = some (g.jobID call) := by
    simp [value_put]
  exact {
    single := fun j k first second => h.single j k (live first) (live second)
    named := fun k holds => h.named k (live holds)
    unlocked := by
      rw [held]
      exact fun same => nonempty (Option.some.inj same)
    freed := fun _ mark => by cases mark
    taken := by
      rintro _ ⟨⟩
      exact ⟨call, { g with stage := .winner }, by simp [inside], held, .inl rfl⟩
    listed := by
      intro k mem
      obtain ⟨call', g', at_k, done⟩ := h.listed k mem
      exact absurd ((h.poised k call' g' at_k).taken (.inr done)) (untaken k)
    poised := by
      intro k call' g' at_k
      rcases getElem?_set_cases at_k with ⟨rfl, eq⟩ | ⟨other, old⟩
      · cases eq
        exact ⟨by simp, fun _ => rfl, fun _ j holds => alone j (live holds), by simp, by simp⟩
      · refine Poised.barred (fun freed => ?_) (fun through => ?_) (by simp)
        · have mark := (h.poised k call' g' old).freed freed
          rcases undivided with mine | ⟨none, -⟩
          · rw [Trail.mark_of_freedBy mine] at mark
            cases mark
            exact other rfl
          · simp [Trail.freedBy, mark] at none
        · exact untaken k ((h.poised k call' g' old).taken through) }

/-- The lock is deleted as it was read. -/
theorem Contested.free (h : Contested lib f w trail views) (view : views[i]? = some (call, g))
    (stage : g.stage = .ousting) (current : i ∈ trail.current) :
    Contested lib f (w.delete .unique f) { trail with mark := some (.freed i), current := [] }
      (views.set i (call, { g with stage := .freed })) := by
  obtain ⟨unmarked, alone⟩ := (h.poised i call g view).ousting stage current
  have live {k : String} (holds : ((w.delete .unique f).slot k).Holds lib f) :
      (w.slot k).Holds lib f := holds_of_kv (kv_delete_of_ne _ (by simp)) holds
  have inside : i < views.length := (List.getElem?_eq_some_iff.mp view).1
  have vacant : (w.delete .unique f).value .unique f = none := by simp [value_delete]
  have untaken (j : Nat) : trail.mark ≠ some (.taken j) := by simp [unmarked]
  exact {
    single := fun j k first second => h.single j k (live first) (live second)
    named := fun k holds => h.named k (live holds)
    unlocked := by simp [vacant]
    freed := by
      rintro _ ⟨⟩
      exact ⟨vacant, call, { g with stage := .freed }, by simp [inside], rfl⟩
    taken := fun _ mark => by cases mark
    listed := by
      intro k mem
      obtain ⟨call', g', at_k, done⟩ := h.listed k mem
      exact absurd ((h.poised k call' g' at_k).taken (.inr done)) (untaken k)
    poised := by
      intro k call' g' at_k
      rcases getElem?_set_cases at_k with ⟨rfl, eq⟩ | ⟨other, old⟩
      · cases eq
        exact ⟨fun _ => rfl, by simp, fun _ j holds => alone j (live holds), by simp, by simp⟩
      · refine Poised.barred (fun freed => ?_) (fun through => ?_) (by simp)
        · have mark := (h.poised k call' g' old).freed freed
          rw [unmarked] at mark
          cases mark
        · exact untaken k ((h.poised k call' g' old).taken through) }

/-- The push that has the lock stores its job. -/
theorem Contested.store (h : Contested lib f w trail views) (view : views[i]? = some (call, g))
    (stage : g.stage = .winner) (nonempty : g.jobID call ≠ "") {v : JobState}
    (fingerprint : fingerprintOf lib v = some f) (alive : lib.isTerminalState v.state = false) :
    Contested lib f (w.put .jobs (g.jobID call) v) { trail with stored := i :: trail.stored }
      (views.set i (call, { g with stage := .stored })) := by
  have mark := (h.poised i call g view).taken (.inl stage)
  have alone := (h.poised i call g view).alone (.inr stage)
  obtain ⟨call', g', at_i, lock, -⟩ := h.taken i mark
  obtain ⟨rfl, rfl⟩ := Prod.mk.inj (Option.some.inj (at_i.symm.trans view))
  have inside : i < views.length := (List.getElem?_eq_some_iff.mp view).1
  have held : (w.put .jobs (g'.jobID call') v).value .unique f = some (g'.jobID call') :=
    (value_of_kv (kv_put_of_ne _ _ (by simp)) f).trans lock
  have holds : ((w.put .jobs (g'.jobID call') v).slot (g'.jobID call')).Holds lib f :=
    ⟨v, by simp [Slot.write], fingerprint, alive⟩
  have only : Alone lib f (w.put .jobs (g'.jobID call') v) (g'.jobID call') := by
    intro k live
    by_contra other
    obtain ⟨rec, stored, kind⟩ := live
    exact other (alone k ⟨rec, by simpa [other] using stored, kind⟩)
  exact {
    single := fun j k first second => (only j first).trans (only k second).symm
    named := fun k live => only k live ▸ nonempty
    unlocked := by
      rw [held]
      exact fun same => nonempty (Option.some.inj same)
    freed := by
      intro k freed
      rw [show trail.mark = _ from mark] at freed
      cases freed
    taken := by
      intro k taken
      obtain rfl : k = i := by
        rw [show trail.mark = _ from mark] at taken
        cases taken
        rfl
      exact ⟨call', { g' with stage := .stored }, by simp [inside], held, .inr ⟨rfl, holds⟩⟩
    listed := by
      intro k mem
      rcases List.mem_cons.mp mem with rfl | before
      · exact ⟨call', { g' with stage := .stored }, by simp [inside], rfl⟩
      · obtain ⟨call'', g'', at_k, done⟩ := h.listed k before
        have same := ((h.poised k call'' g'' at_k).taken (.inr done)).symm.trans mark
        cases same
        exact ⟨call', { g' with stage := .stored }, by simp [inside], rfl⟩
    poised := by
      intro k call'' g'' at_k
      rcases getElem?_set_cases at_k with ⟨rfl, eq⟩ | ⟨other, old⟩
      · cases eq
        exact ⟨by simp, fun _ => mark, by simp, by simp, by simp⟩
      · have before := h.poised k call'' g'' old
        have through : ¬ (g''.stage = .winner ∨ g''.stage = .stored) := by
          intro through
          cases (before.taken through).symm.trans mark
          exact other rfl
        have unfreed : g''.stage ≠ .freed := by
          intro freed
          cases (before.freed freed).symm.trans mark
        refine ⟨fun freed => absurd freed unfreed, fun stage => absurd stage through,
          ?_, ?_, ?_⟩
        · exact fun stage => stage.elim (absurd · unfreed) fun wins => absurd (.inl wins) through
        · intro holder reads here
          have lock := before.reading holder reads here
          exact (value_of_kv (kv_put_of_ne _ _ (by simp)) f).trans lock
        · intro ousts here
          cases (before.ousting ousts here).1.symm.trans mark }

theorem Contested.vacant (h : Contested lib f w trail views) (view : views[i]? = some (call, g))
    (stage : g.stage = .freed) : w.value .unique f = none :=
  (h.freed i ((h.poised i call g view).freed stage)).1

/-- A push that finds the lock's holder over or missing is the first to do so. -/
theorem Contested.find (h : Contested lib f w trail views) (view : views[i]? = some (call, g))
    {k : String} (reads : g.stage = .reading k)
    (undivided : lapsed lib (w.lookup .jobs k) = true →
      (∀ j ∈ trail.takenBy, j ∈ trail.stored) ∧ Unopposed lib f w call.clientID) :
    Poised lib f w trail i call
      { g with stage := if lapsed lib (w.lookup .jobs k) then .ousting else .loser } := by
  cases ended : lapsed lib (w.lookup .jobs k) with
  | false => exact .idle (by simp)
  | true =>
    obtain ⟨stored, unopposed⟩ := undivided ended
    refine ⟨by simp, by simp, by simp, by simp, fun _ here => ?_⟩
    have lock := (h.poised i call g view).reading k reads here
    refine ⟨?_, alone_of_unopposed h unopposed⟩
    cases mark : trail.mark with
    | none => rfl
    | some last =>
      cases last with
      | freed j =>
        rw [(h.freed j mark).1] at lock
        cases lock
      | taken j =>
        obtain ⟨call', g', at_j, held, stage⟩ := h.taken j mark
        obtain ⟨call'', g'', at_j', done⟩ :=
          h.listed j (stored j (by simp [Trail.takenBy, mark]))
        obtain ⟨rfl, rfl⟩ := Prod.mk.inj (Option.some.inj (at_j.symm.trans at_j'))
        obtain ⟨-, rec, record, -, live⟩ :
            g'.stage = .stored ∧ (w.slot (g'.jobID call')).Holds lib f :=
          stage.resolve_left (by simp [done])
        obtain rfl : k = g'.jobID call' := Option.some.inj (lock.symm.trans held)
        obtain ⟨rev, look⟩ := World.lookup_of_value w record
        rw [look] at ended
        simp [lapsed, live] at ended

/-- Only pushes under the fingerprint run, and none of their calls is divided. -/
def Undisputed (lib : Externals) (f : String) (c : Server) (a : Action Call Op Ans) : Prop :=
  Competes lib f a ∧ Undivided lib f c a

theorem contested_invariant (lib : Externals) (f : String) :
    Invariant (α := Reply) serves TimePasses (contest lib f) {} (Undisputed lib f)
      (fun w log views => Contested lib f w (trailOf f log) views) where
  start := by
    intro c views label _ h
    have same : trailOf f (c.log ++ [.start label]) = trailOf f c.log := by simp [Trail.note]
    rw [same]
    have grows {k : Nat} {entry : Call × Bid} (at_k : views[k]? = some entry) :
        (views ++ [(label, ({} : Bid))])[k]? = some entry := by
      rw [List.getElem?_append_left (List.getElem?_eq_some_iff.mp at_k).1, at_k]
    refine ⟨h.single, h.named, h.unlocked, ?_, ?_, ?_, ?_⟩
    · intro i freed
      obtain ⟨vacant, call, g, at_i, stage⟩ := h.freed i freed
      exact ⟨vacant, call, g, grows at_i, stage⟩
    · intro i taken
      obtain ⟨call, g, at_i, rest⟩ := h.taken i taken
      exact ⟨call, g, grows at_i, rest⟩
    · intro i mem
      obtain ⟨call, g, at_i, rest⟩ := h.listed i mem
      exact ⟨call, g, grows at_i, rest⟩
    · intro i call g at_i
      rcases getElem?_snoc_cases at_i with eq | old
      · cases eq
        exact .idle (.inl rfl)
      · exact h.poised i call g old
  outside := by
    rintro c views _ _ ⟨now, -, rfl⟩ h
    have same : trailOf f (c.log ++ [.outside]) = trailOf f c.log := by simp [Trail.note]
    rw [same]
    exact ⟨h.single, h.named, h.unlocked, h.freed, h.taken, h.listed, fun i call g at_i =>
      (h.poised i call g at_i).still rfl id rfl fun _ => id⟩
  call := by
    intro c views i call op r t g undisputed h view allowed step
    refine ⟨bid_admits h.unlocked (h.vacant view) ?_ allowed step, ?_⟩
    · rintro k rfl
      exact undisputed.2
    · rw [trailOf_snoc]
      refine bid_cases (motive := fun op r t g' => Undivided lib f c (.call i call op r) →
        Contested lib f t ((trailOf f c.log).note f (.call i call op r)) (views.set i (call, g')))
        ?_ ?_ ?_ ?_ ?_ ?_ ?_ ?_ ?_ allowed step undisputed.2
      · intro n stage nonempty vacant undivided
        simpa [Trail.note] using h.take view stage vacant undivided nonempty
      · intro stage held _
        have asks : g.stage = .asking := stage.resolve_right fun freed => held (h.vacant view freed)
        refine h.still view rfl rfl (fun _ _ => id) rfl (fun _ => Iff.rfl) ?_ (.idle (by simp))
        simp [asks]
      · intro holder rev told held _
        have others (k : Nat) (other : k ≠ i) (here : k ∈ i :: (trailOf f c.log).current) :
            k ∈ (trailOf f c.log).current := (List.mem_cons.mp here).resolve_left other
        rw [Trail.note, if_pos rfl]
        refine h.still view rfl rfl others rfl (fun _ => Iff.rfl) (by simp [told]) ?_
        refine ⟨by simp, by simp, by simp, ?_, by simp⟩
        rintro _ ⟨⟩ -
        exact held
      · exact fun e missing found => absurd missing found
      · intro k reads undivided
        have found := h.find view reads undivided
        refine h.still view rfl rfl (fun _ _ => id) rfl (fun _ => Iff.rfl) ?_ found
        simp [reads]
      · intro stage undivided
        simpa [Trail.note] using h.free view stage undivided
      · intro v n stage nonempty fingerprint alive _
        exact h.store view stage nonempty fingerprint alive
      · intro id asks _
        refine h.still view rfl rfl (fun _ _ here => here) rfl (fun _ => Iff.rfl) ?_
          (.idle (.inl asks))
        simp [asks]
      · intro op r t same silent _
        rw [silent]
        have lock := value_of_kv (same .unique (.inl rfl)) f
        have live (k : String) : (t.slot k).Holds lib f ↔ (c.state.slot k).Holds lib f :=
          ⟨holds_of_kv (same .jobs (.inr rfl)), holds_of_kv (same .jobs (.inr rfl)).symm⟩
        exact h.still view rfl rfl (fun _ _ => id) lock live (fun _ => rfl)
          ((h.poised i call g view).still rfl id lock fun k => (live k).mp)

end Contested

/-- Where at most one job of the fingerprint is live and no call is divided, one push
is accepted and one job live. -/
theorem oneAccepted_of_undisputed {lib : Externals} {f : String} {w : World} {c : Server}
    (reachable : Reachable lib w)
    (single : ∀ j k, (w.slot j).Holds lib f → (w.slot k).Holds lib f → j = k)
    (run : Runs lib (Undisputed lib f) (idle w) c) : OneAccepted lib f c := by
  have start : Contested lib f w (trailOf f []) [] := {
    single := single
    named := fun k holds => by
      obtain ⟨rec, stored, -⟩ := holds
      exact (reachable.sound.known k (by simp [stored])).2
    unlocked := fun held => reachable.unlocked ⟨f, held⟩
    freed := fun i mark => by cases mark
    taken := fun i mark => by cases mark
    listed := fun i mem => by cases mem
    poised := by simp }
  obtain ⟨views, behaved, contested⟩ := (contested_invariant lib f).holds
    (fun c call started => bids_push started.1) run .nil start
  have through (i : Nat) (done : accepted c i = true) :
      (trailOf f c.log).mark = some (.taken i) := by
    unfold accepted at done
    split at done
    · rename_i at_i
      obtain ⟨g, view, concludes⟩ := behaved.getElem? at_i
      rcases concludes with ⟨job, same, stored⟩ | ⟨message, details, same⟩
      · exact (contested.poised i _ g view).taken (.inr stored)
      · cases same
    · cases done
  refine ⟨fun i k first second => ?_, fun i done => ?_, contested.single⟩
  · have marks := (through i first).symm.trans (through k second)
    cases marks
    rfl
  · unfold replied at done
    split at done
    · rename_i call reply at_i
      obtain ⟨g, view, concludes⟩ := behaved.getElem? at_i
      rcases concludes with ⟨job, rfl, -⟩ | ⟨message, details, rfl⟩
      · exact .inl (by simp [accepted, at_i])
      · exact .inr (by simp [refused, at_i])
    · cases done

/-! ## Runs -/

instance (lib : Externals) (f : String) (call : Call) : Decidable (call.Rejecting lib f) :=
  match call with
  | .push job => inferInstanceAs (Decidable (∃ unique ∈ job.unique, unique.states = [] ∧
      (unique.onConflict = "" ∨ unique.onConflict = "reject") ∧
      UniqueStore.computeFingerprint lib job unique = f))
  | .pushBatch _ | .fetch _ _ _ _ | .ack _ _ | .nack _ _ _ | .cancel _ | .heartbeat _ _ _
  | .promoteScheduled | .promoteRetries | .requeueStalled | .fireCronJobs | .retryDeadLetter _
  | .deleteDeadLetter _ | .createWorkflow _ | .advanceWorkflow _ _ _ _ | .cancelWorkflow _
  | .registerCron _ | .deleteCron _ | .pauseQueue _ | .resumeQueue _ | .setWorkerState _ _ =>
    isFalse id

instance (lib : Externals) (f : String) (w : World) (id : String) :
    Decidable (Unopposed lib f w id) :=
  inferInstanceAs (Decidable (∀ k ∈ (w.kv .jobs).keys, ∀ rec ∈ w.value .jobs k,
    fingerprintOf lib rec = some f → lib.isTerminalState rec.state = false → k = id))

instance (lib : Externals) (f : String) (a : Action Call Op Ans) : Decidable (Competes lib f a) :=
  match a with
  | .start call => inferInstanceAs (Decidable (call.Rejecting lib f))
  | .call _ call _ _ => inferInstanceAs (Decidable (call.Rejecting lib f))
  | .outside => isTrue trivial

instance (lib : Externals) (f : String) (c : Server) (a : Action Call Op Ans) :
    Decidable (Undivided lib f c a) := by
  unfold Undivided
  split <;> infer_instance

instance (lib : Externals) (f : String) (c : Server) (a : Action Call Op Ans) :
    Decidable (Undisputed lib f c a) :=
  inferInstanceAs (Decidable (Competes lib f a ∧ Undivided lib f c a))

/-- Two pushes, the second after the first has returned. -/
def inTurn : List Pick :=
  [.start (.push (letter "job-1" "reject")), .calls 0 20,
    .start (.push (letter "job-2" "reject")), .calls 1 20]

/-- Both pushes create the lock before one of them has stored its job. -/
def atOnce : List Pick :=
  [.start (.push (letter "job-1" "reject")), .start (.push (letter "job-2" "reject")),
    .calls 0 2, .calls 1 20, .calls 0 20]

/-- No job, no message, no operation running. -/
def fresh : Server := idle (World.start (Sample.instant 0))

theorem not_holds_start {lib : Externals} {f j : String} {t : Int} :
    ¬ ((World.start t).slot j).Holds lib f := by
  rintro ⟨rec, stored, -⟩
  cases stored

theorem oneAccepted_inTurn :
    OneAccepted sample Sample.digest (played (Undisputed sample Sample.digest) inTurn fresh) ∧
      accepted (played (Undisputed sample Sample.digest) inTurn fresh) 0 = true ∧
      refused (played (Undisputed sample Sample.digest) inTurn fresh) 1 = true := by
  refine ⟨oneAccepted_of_undisputed (.start (by decide)) ?_ (runs_played (by decide)),
    by decide, by decide⟩
  intro j k holds
  exact (not_holds_start holds).elim

/-- Two pushes at once can both be accepted. -/
theorem not_oneAccepted : ¬ ∀ (lib : Externals) (f : String) (w : World) (c : Server),
    Reachable lib w → Runs lib (fun _ a => Competes lib f a) (idle w) c →
      (∀ i < c.threads.length, replied c i = true) → OneAccepted lib f c := by
  intro once
  have both := once sample Sample.digest (World.start (Sample.instant 0))
    (played (fun _ a => Competes sample Sample.digest a) atOnce fresh) (.start (by decide))
    (runs_played (by decide)) (by decide)
  cases both.accepted 0 1 (by decide) (by decide)


end OjsNats.Concurrent
