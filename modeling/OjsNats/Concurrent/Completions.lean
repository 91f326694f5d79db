import OjsNats.Concurrent.Server
import OjsNats.Lifecycle.Tallies

/-!
# Counting completions at once

`incrementCompleted` creates the counter where its read finds none, and
otherwise updates it at the revision it read, up to three times.  A call whose
writes are all refused counts nothing.
-/

namespace OjsNats.Nats

open Core Effect

/-! ## The text of the counter -/

/-- The text that one more completion leaves. -/
def incremented : Option String → String
  | none => "1"
  | some data => nextCount data

/-- What a number of completions, one after the other, makes of the counter. -/
def counterAfter (start : Option String) : Nat → Option String
  | 0 => start
  | m + 1 => some (incremented (counterAfter start m))

/-- A missing counter stands for zero. -/
def Shows (counter : Option String) (k : Nat) : Prop :=
  counter = none ∧ k = 0 ∨ ∃ data, counter = some data ∧ data.toInt? = some (k : Int)

variable {start : Option String} {c : Nat}

theorem incremented_of_shows (counts : Shows start c) :
    incremented start = intToStr ((min (c : Int) (2 ^ 63 - 1) + 1).bmod (2 ^ 64)) := by
  rcases counts with ⟨rfl, rfl⟩ | ⟨data, rfl, read⟩
  · rfl
  · have same : atoi data = min (c : Int) (2 ^ 63 - 1) := by
      rw [atoi, read]
      dsimp only
      omega
    rw [incremented, nextCount, same]

theorem atoi_bmod (n : Int) : atoi (intToStr (n.bmod (2 ^ 64))) = n.bmod (2 ^ 64) := by
  have low := Int.le_bmod (x := n) (m := 2 ^ 64) (by decide)
  have high := Int.bmod_lt (x := n) (m := 2 ^ 64) (by decide)
  exact atoi_intToStr (by omega) (by omega)

/-- The counter is a 64-bit number that wraps round. -/
theorem counterAfter_succ (counts : Shows start c) (m : Nat) : counterAfter start (m + 1) =
    some (intToStr ((min (c : Int) (2 ^ 63 - 1) + (m + 1 : Nat)).bmod (2 ^ 64))) := by
  induction m with
  | zero => exact congrArg some (incremented_of_shows counts)
  | succ m ih =>
    rw [counterAfter, ih, incremented, nextCount, atoi_bmod, Int.bmod_add_bmod]
    push_cast
    rw [add_assoc _ _ (1 : Int)]

theorem Shows.eq {k : Nat} (counts : Shows start c) (counts' : Shows start k) : c = k := by
  rcases counts with ⟨none, rfl⟩ | ⟨data, some, read⟩ <;>
    rcases counts' with ⟨none', rfl⟩ | ⟨data', some', read'⟩
  · rfl
  · cases none.symm.trans some'
  · cases none'.symm.trans some
  · cases some.symm.trans some'
    exact Int.ofNat_inj.mp (Option.some.inj (read.symm.trans read'))

/-- Of so many completions all are in the counter if each was written and there is room. -/
theorem shows_counterAfter_iff {m n : Nat} (counts : Shows start c) (le : m ≤ n) :
    Shows (counterAfter start m) (c + n) ↔ m = n ∧ (n = 0 ∨ c + n < 2 ^ 63) := by
  cases m with
  | zero =>
    constructor
    · intro counts'
      have none : n = 0 := by
        have := counts.eq counts'
        omega
      exact ⟨none.symm, .inl none⟩
    · rintro ⟨rfl, -⟩
      exact counts
  | succ m =>
    have low := Int.le_bmod (x := min (c : Int) (2 ^ 63 - 1) + (m + 1 : Nat)) (m := 2 ^ 64)
      (by decide)
    have high := Int.bmod_lt (x := min (c : Int) (2 ^ 63 - 1) + (m + 1 : Nat)) (m := 2 ^ 64)
      (by decide)
    have reads : Shows (counterAfter start (m + 1)) (c + n) ↔
        (min (c : Int) (2 ^ 63 - 1) + (m + 1 : Nat)).bmod (2 ^ 64) = (c + n : Nat) := by
      rw [counterAfter_succ counts]
      simp only [Shows, reduceCtorEq, false_and, Option.some.injEq, false_or, exists_eq_left']
      have read (n : Int) : (intToStr n).toInt? = some n := Int.toInt?_repr n
      rw [read, Option.some.injEq]
    rw [reads]
    constructor
    · intro same
      rw [same] at high
      have room : c + n < 2 ^ 63 := by omega
      rw [Int.bmod_eq_of_le (by omega) (by omega)] at same
      omega
    · rintro ⟨rfl, none | room⟩
      · omega
      · rw [Int.bmod_eq_of_le (by omega) (by omega)]
        omega

end OjsNats.Nats

namespace OjsNats.Concurrent

open Core Nats Lifecycle Effect Store

/-! ## What becomes of a call -/

/-- How a write of the counter was answered. -/
inductive Verdict where
  | written
  /-- A `Create` found a counter. -/
  | taken
  /-- An `Update` found a later revision. -/
  | outdated
  deriving DecidableEq

def verdict? (key : String) : (op : Op) → Ans op → Option Verdict
  | .create .stats k _, .ok _ => if k = key then some .written else none
  | .create .stats k _, .error _ => if k = key then some .taken else none
  | .update .stats k _ _, .ok _ => if k = key then some .written else none
  | .update .stats k _ _, .error _ => if k = key then some .outdated else none
  | _, _ => none

/-- A call gives up when a counter is there that it did not find, or when the counter
has changed between its reads and its updates for the third time. -/
def GivesUp (verdicts : List Verdict) : Prop :=
  .taken ∈ verdicts ∨ 3 ≤ verdicts.count .outdated

/-- A call that can still write. -/
def Trying (verdicts : List Verdict) : Prop := ∃ k < 3, verdicts = List.replicate k .outdated

/-- A call that has returned. -/
def HasReturned (verdicts : List Verdict) : Prop :=
  verdicts = List.replicate 3 .outdated ∨
    ∃ before last, Trying before ∧ (last = .written ∨ last = .taken) ∧ verdicts = before ++ [last]

section Verdicts

variable {verdicts : List Verdict}

theorem Trying.not_written (trying : Trying verdicts) : .written ∉ verdicts := by
  obtain ⟨k, -, rfl⟩ := trying
  simp

theorem Trying.not_taken (trying : Trying verdicts) : .taken ∉ verdicts := by
  obtain ⟨k, -, rfl⟩ := trying
  simp

theorem Trying.count_lt (trying : Trying verdicts) : verdicts.count .outdated < 3 := by
  obtain ⟨k, few, rfl⟩ := trying
  simpa using few

/-- A call that has returned has written, or has given up. -/
theorem HasReturned.written_iff (returned : HasReturned verdicts) :
    .written ∈ verdicts ↔ ¬ GivesUp verdicts := by
  rcases returned with rfl | ⟨before, last, trying, rfl | rfl, rfl⟩
  · simp [GivesUp]
  · have untaken := trying.not_taken
    have few := trying.count_lt
    simp [GivesUp, untaken, List.count_append]
    omega
  · have unwritten := trying.not_written
    simp [GivesUp, unwritten]

end Verdicts

/-! ## What a call may do -/

/-- The last read of a call, and what it heard of its writes. -/
structure Increment where
  seen : Option (Except CallError (String × Nat)) := none
  verdicts : List Verdict := []

/-- A call writes what its read makes of the counter, until a write is taken or it gives up. -/
def completer (key : String) : Protocol Op Ans Increment where
  allows g
    | .get .stats k => k = key ∧ Trying g.verdicts
    | .create .stats k v => k = key ∧ v = "1" ∧ (∃ e, g.seen = some (.error e)) ∧ Trying g.verdicts
    | .update .stats k v rev =>
        k = key ∧ (∃ data, g.seen = some (.ok (data, rev)) ∧ v = nextCount data) ∧ Trying g.verdicts
    | _ => False
  admits _ _ _ := True
  next g
    | .get .stats _, r => { g with seen := some r }
    | op, r => { g with verdicts := g.verdicts ++ (verdict? key op r).toList }

section Follows

open Protocol Program

variable {key : String}

theorem follows_incrementCompletedLoop (n : Nat) (g : Increment) (left : n ≤ 3)
    (refused : g.verdicts = List.replicate (3 - n) .outdated) :
    (completer key).Follows (incrementCompletedLoop key n) g
      (fun _ g' => HasReturned g'.verdicts) := by
  induction n generalizing g with
  | zero => exact .inl refused
  | succ n ih =>
    have trying : Trying g.verdicts := ⟨3 - (n + 1), by omega, refused⟩
    refine follows_bind.mpr (follows_ask.mpr ⟨⟨rfl, trying⟩, fun r _ => ?_⟩)
    cases r with
    | error e =>
      refine follows_bind.mpr (follows_ask.mpr ⟨⟨rfl, rfl, ⟨e, rfl⟩, trying⟩, fun r _ => ?_⟩)
      cases r with
      | ok rev => exact .inr ⟨_, .written, trying, .inl rfl, by simp [completer, verdict?]⟩
      | error e => exact .inr ⟨_, .taken, trying, .inr rfl, by simp [completer, verdict?]⟩
    | ok entry =>
      obtain ⟨data, rev⟩ := entry
      refine follows_bind.mpr (follows_ask.mpr
        ⟨⟨rfl, ⟨data, rfl, rfl⟩, trying⟩, fun r _ => ?_⟩)
      cases r with
      | ok rev => exact .inr ⟨_, .written, trying, .inl rfl, by simp [completer, verdict?]⟩
      | error e =>
        refine ih _ (by omega) ?_
        have more : 3 - n = 3 - (n + 1) + 1 := by omega
        simp [completer, verdict?, refused, more, List.replicate_succ']

end Follows

/-! ## Many calls at once -/

/-- Concurrent calls of `incrementCompleted` for one queue. -/
abbrev Completers := Config World Unit Op Ans Unit

abbrev Completing (queue : String) : Completers → Completers → Prop :=
  Interleaves serves (fun _ => incrementCompleted queue) TimePasses fun _ _ => True

/-- The number of calls that have written. -/
def completions (views : List (Unit × Increment)) : Nat :=
  views.countP fun v => .written ∈ v.2.verdicts

/-- The counter is what the completions made of it, and who has seen the present
revision has seen the present text. -/
structure CountsUp (key : String) (start : Option String) (w : World)
    (log : List (Action Unit Op Ans)) (views : List (Unit × Increment)) : Prop where
  heard : Remembered (verdict? key) Increment.verdicts log views
  value : w.value .stats key = counterAfter start (completions views)
  numbered : (w.kv .stats).Numbered
  past : ∀ v ∈ views, ∀ data rev, v.2.seen = some (.ok (data, rev)) → rev ≤ (w.kv .stats).revision
  current : ∀ v ∈ views, ∀ data rev, v.2.seen = some (.ok (data, rev)) →
    ∀ data', (w.kv .stats).get key = some (data', rev) → data' = data

section CountsUp

variable {key : String} {start : Option String} {w w' : World}
  {log : List (Action Unit Op Ans)} {views : List (Unit × Increment)} {i : Nat} {l : Unit}
  {g : Increment}

theorem completions_snoc (views : List (Unit × Increment)) (l : Unit) :
    completions (views ++ [(l, ({} : Increment))]) = completions views := by
  simp [completions]

theorem completions_set (g' : Increment) (view : views[i]? = some (l, g)) :
    completions (views.set i (l, g')) + (if .written ∈ g.verdicts then 1 else 0) =
      completions views + if .written ∈ g'.verdicts then 1 else 0 := by
  obtain ⟨inside, at_i⟩ := List.getElem?_eq_some_iff.mp view
  have one := List.boole_getElem_le_countP (p := fun v : Unit × Increment =>
    decide (.written ∈ v.2.verdicts)) inside
  rw [completions, List.countP_set inside, at_i, ← completions]
  rw [at_i, ← completions] at one
  simp only [decide_eq_true_eq] at one ⊢
  omega

theorem CountsUp.begin (h : CountsUp key start w log views) (l : Unit) :
    CountsUp key start w (log ++ [.start l]) (views ++ [(l, ({} : Increment))]) where
  heard := h.heard.begin l rfl
  value := by
    rw [completions_snoc]
    exact h.value
  numbered := h.numbered
  past := fun v mem => by
    rcases List.mem_append.mp mem with mem | mem
    · exact h.past v mem
    · rw [List.mem_singleton.mp mem]
      rintro data rev ⟨⟩
  current := fun v mem => by
    rcases List.mem_append.mp mem with mem | mem
    · exact h.current v mem
    · rw [List.mem_singleton.mp mem]
      rintro data rev ⟨⟩

theorem CountsUp.rest (h : CountsUp key start w log views) (same : w'.kv = w.kv) :
    CountsUp key start w' (log ++ [.outside]) views where
  heard := h.heard.rest
  value := by
    rw [World.value, same]
    exact h.value
  numbered := same ▸ h.numbered
  past := same ▸ h.past
  current := same ▸ h.current

/-- A call that writes nothing. -/
theorem CountsUp.read (h : CountsUp key start w log views) {g' : Increment} {op : Op} {r : Ans op}
    (view : views[i]? = some (l, g)) (same : w' = w)
    (saw : g'.verdicts = g.verdicts ++ (verdict? key op r).toList)
    (silent : verdict? key op r ≠ some .written)
    (seen : g'.seen = g.seen ∨ g'.seen = some (w.lookup .stats key)) :
    CountsUp key start w' (log ++ [.call i l op r]) (views.set i (l, g')) := by
  subst same
  have old : (l, g) ∈ views := List.mem_of_getElem? view
  have unwritten : completions (views.set i (l, g')) = completions views := by
    have counts := completions_set g' view
    have mem : .written ∈ g'.verdicts ↔ .written ∈ g.verdicts := by
      rw [saw, List.mem_append, Option.mem_toList]
      exact or_iff_left silent
    simp only [mem] at counts
    omega
  have entry {data : String} {rev : Nat} (here : g'.seen = some (.ok (data, rev))) :
      g.seen = some (.ok (data, rev)) ∨ (w'.kv .stats).get key = some (data, rev) := by
    rcases seen with same | fresh
    · exact .inl (same ▸ here)
    · right
      have looked := Option.some.inj (fresh.symm.trans here)
      unfold World.lookup at looked
      split at looked
      · rename_i e stored
        cases looked
        exact stored
      · cases looked
  constructor
  · exact h.heard.call view saw
  · rw [unwritten]
    exact h.value
  · exact h.numbered
  · intro v mem data rev here
    rcases List.mem_or_eq_of_mem_set mem with mem | rfl
    · exact h.past v mem data rev here
    · rcases entry here with before | stored
      · exact h.past _ old data rev before
      · exact h.numbered key _ stored
  · intro v mem data rev here data' stored
    rcases List.mem_or_eq_of_mem_set mem with mem | rfl
    · exact h.current v mem data rev here data' stored
    · rcases entry here with before | stored'
      · exact h.current _ old data rev before data' stored
      · cases stored.symm.trans stored'
        rfl

/-- A write of the next text. -/
theorem CountsUp.write (h : CountsUp key start w log views) (op : Op) (r : Ans op)
    (view : views[i]? = some (l, g)) (unwritten : .written ∉ g.verdicts)
    (writes : verdict? key op r = some .written) :
    CountsUp key start (w.put .stats key (incremented (w.value .stats key)))
      (log ++ [.call i l op r])
      (views.set i (l, { g with verdicts := g.verdicts ++ [.written] })) := by
  have old : (l, g) ∈ views := List.mem_of_getElem? view
  have bucket : (w.put .stats key (incremented (w.value .stats key))).kv .stats =
      (w.kv .stats).put key (incremented (w.value .stats key)) := by
    simp [World.put]
  have one : completions (views.set i (l, { g with verdicts := g.verdicts ++ [.written] })) =
      completions views + 1 := by
    have counts := completions_set { g with verdicts := g.verdicts ++ [.written] } view
    simpa [unwritten] using counts
  have before (v : Unit × Increment)
      (mem : v ∈ views.set i (l, { g with verdicts := g.verdicts ++ [.written] })) {data : String}
      {rev : Nat} (here : v.2.seen = some (.ok (data, rev))) : rev ≤ (w.kv .stats).revision := by
    rcases List.mem_or_eq_of_mem_set mem with mem | rfl
    · exact h.past v mem data rev here
    · exact h.past _ old data rev here
  constructor
  · exact h.heard.call view (by simp [writes])
  · rw [one, counterAfter, ← h.value, World.value, bucket, Bucket.value_put, if_pos rfl]
  · rw [bucket]
    exact h.numbered.put key _
  · intro v mem data rev here
    rw [bucket]
    exact Nat.le_succ_of_le (before v mem here)
  · intro v mem data rev here data' stored
    rw [bucket, Bucket.get_put_self] at stored
    have past := before v mem here
    cases stored
    exact absurd past (Nat.not_succ_le_self _)

end CountsUp

theorem countsUp_invariant (key : String) (start : Option String) :
    Invariant (α := Unit) serves TimePasses (fun _ : Unit => completer key) {} (fun _ _ => True)
      (CountsUp key start) where
  start _ _ l _ h := h.begin l
  outside := by
    rintro c views t _ ⟨now, _, rfl⟩ h
    exact h.rest rfl
  call := by
    intro c views i l op r t g _ h view allowed step
    refine ⟨trivial, ?_⟩
    cases op with
    | get b k =>
      cases b <;> try exact allowed.elim
      obtain ⟨rfl, -⟩ := allowed
      obtain ⟨rfl, rfl⟩ := step
      exact h.read view rfl (by simp [completer, verdict?]) (by simp [verdict?]) (.inr rfl)
    | create b k v =>
      cases b <;> try exact allowed.elim
      obtain ⟨rfl, rfl, -, trying⟩ := allowed
      simp only [serves, World.Serves] at step
      split at step <;> obtain ⟨rfl, rfl⟩ := step
      · exact h.read view rfl rfl (by simp [verdict?]) (.inl rfl)
      · rename_i missing
        have none : c.state.value .stats k = none := by simpa using missing
        have writes := h.write (.create .stats k "1")
          (.ok ((c.state.kv .stats).revision + 1)) view trying.not_written (by simp [verdict?])
        rw [none] at writes
        simpa [completer, verdict?, incremented] using writes
    | update b k v rev =>
      cases b <;> try exact allowed.elim
      obtain ⟨rfl, ⟨data, seen, rfl⟩, trying⟩ := allowed
      simp only [serves, World.Serves] at step
      split at step <;> obtain ⟨rfl, rfl⟩ := step
      · rename_i matching
        obtain ⟨⟨data', rev'⟩, stored, same⟩ := Option.map_eq_some_iff.mp matching
        obtain rfl : rev' = rev := same
        have same := h.current _ (List.mem_of_getElem? view) data rev' seen data' stored
        have value : c.state.value .stats k = some data := by
          rw [World.value, Bucket.value, stored, ← same]
          rfl
        have writes := h.write (.update .stats k (nextCount data) rev')
          (.ok ((c.state.kv .stats).revision + 1)) view trying.not_written (by simp [verdict?])
        rw [value] at writes
        simpa [completer, verdict?, incremented] using writes
      · exact h.read view rfl rfl (by simp [verdict?]) (.inl rfl)
    | _ => exact allowed.elim

/-- The number of calls that have written, once all have returned. -/
theorem completions_eq_iff {views : List (Unit × Increment)}
    (returned : ∀ v ∈ views, HasReturned v.2.verdicts) :
    completions views = views.length ↔ ∀ v ∈ views, ¬ GivesUp v.2.verdicts := by
  rw [completions, List.countP_eq_length]
  constructor
  · intro all v mem
    exact (returned v mem).written_iff.mp (of_decide_eq_true (all v mem))
  · intro none v mem
    exact decide_eq_true ((returned v mem).written_iff.mpr (none v mem))

/-- After calls that all have returned the counter has counted each of them exactly if
none has given up and the count is a 64-bit number. -/
theorem counted_iff {queue : String} {w : World} {c : Nat} {d : Completers}
    (numbered : (w.kv .stats).Numbered)
    (start : Shows (w.value .stats (kvStatsKey queue "completed")) c)
    (run : Completing queue ⟨w, [], []⟩ d) (returned : ∀ t ∈ d.threads, t.2 = .pure ()) :
    Shows (d.state.value .stats (kvStatsKey queue "completed")) (c + d.threads.length) ↔
      (∀ i < d.threads.length,
        ¬ GivesUp (noted (verdict? (kvStatsKey queue "completed")) i d.log)) ∧
      (d.threads.length = 0 ∨ c + d.threads.length < 2 ^ 63) := by
  have begins : CountsUp (kvStatsKey queue "completed")
      (w.value .stats (kvStatsKey queue "completed")) w [] [] := {
    heard := .nil
    value := rfl
    numbered := numbered
    past := by simp
    current := by simp }
  obtain ⟨views, behaved, counts⟩ := (countsUp_invariant _ _).holds
    (fun _ _ _ => follows_incrementCompletedLoop 3 {} (Nat.le_refl 3) rfl) run .nil begins
  have length : d.threads.length = views.length := behaved.length_eq
  have settled (v : Unit × Increment) (mem : v ∈ views) : HasReturned v.2.verdicts := by
    obtain ⟨i, inside, rfl⟩ := List.getElem_of_mem mem
    have running : i < d.threads.length := length ▸ inside
    obtain ⟨g, view, follows⟩ := behaved.getElem? (List.getElem?_eq_getElem running)
    have ended : (d.threads.get ⟨i, running⟩).2 = .pure () := returned _ (List.get_mem _ _)
    rw [ended] at follows
    rw [Option.some.inj ((List.getElem?_eq_getElem inside).symm.trans view)]
    exact follows
  rw [counts.value, shows_counterAfter_iff start (length ▸ List.countP_le_length), length,
    completions_eq_iff settled]
  refine and_congr_left fun _ => ⟨fun none i inside => ?_, fun none v mem => ?_⟩
  · rw [counts.heard.known i _ _ (List.getElem?_eq_getElem inside)]
    exact none _ (List.getElem_mem inside)
  · obtain ⟨i, inside, rfl⟩ := List.getElem_of_mem mem
    have := none i inside
    rwa [counts.heard.known i _ _ (List.getElem?_eq_getElem inside)] at this

/-! ## Revisions of a server's buckets -/

/-- No bucket has an entry of a revision that is still to come. -/
def AllNumbered (w : World) : Prop := ∀ b, (w.kv b).Numbered

theorem AllNumbered.put {w : World} (numbered : AllNumbered w) (b : BucketName) (k : String)
    (v : b.Value) : AllNumbered (w.put b k v) := by
  intro b'
  by_cases same : b' = b
  · subst same
    simpa [World.put] using (numbered b').put k v
  · simpa [World.put, same] using numbered b'

theorem AllNumbered.delete {w : World} (numbered : AllNumbered w) (b : BucketName) (k : String) :
    AllNumbered (w.delete b k) := by
  intro b'
  by_cases same : b' = b
  · subst same
    simpa [World.delete] using (numbered b').delete k
  · simpa [World.delete, same] using numbered b'

theorem AllNumbered.served {w w' : World} {op : Op} {r : Ans op} (numbered : AllNumbered w)
    (step : w.Serves op r w') : AllNumbered w' := by
  cases op with
  | put b k v => exact step.2 ▸ numbered.put b k v
  | delete b k => exact step.2 ▸ numbered.delete b k
  | create b k v =>
    simp only [World.Serves] at step
    split at step
    · exact step.2 ▸ numbered
    · exact step.2 ▸ numbered.put b k v
  | update b k v rev =>
    simp only [World.Serves] at step
    split at step
    · exact step.2 ▸ numbered.put b k v
    · exact step.2 ▸ numbered
  | keys => exact step.1 ▸ numbered
  | newUUIDv7 => exact step.2.2 ▸ numbered
  | consumerFetch =>
    obtain ⟨n, -, -, rfl⟩ := step
    exact numbered
  | consumerStore | inflightStore | regexStore =>
    cases step
    exact numbered
  | inflightLoadAndDelete | publish => exact step.2 ▸ numbered
  | now | calculateBackoff | get | consumerLoad | ensureConsumer | inflightLoad | msgAck
  | msgInProgress | regexLoad => exact step.2 ▸ numbered

/-- So it is in every state of a server. -/
theorem Reachable.numbered {lib : Externals} {w : World} (reachable : Reachable lib w) :
    AllNumbered w := by
  induction reachable with
  | start => exact fun _ => Bucket.numbered_empty
  | step _ step ih =>
    cases step with
    | call _ run =>
      exact run.preserves (Program.uses_true _) (P := AllNumbered)
        (fun _ _ _ _ _ served numbered => numbered.served served) ih
    | tick => exact ih

/-! ## Two completions -/

/-- One call of a running operation. -/
def completerTurn (c : Completers) (i : Nat) : Option Completers :=
  match c.threads[i]? with
  | some (l, .call op next) =>
      match serve c.state op with
      | some (r, t) => some ⟨t, c.threads.set i (l, next r), c.log ++ [.call i l op r]⟩
      | none => none
  | _ => none

def completerTurns : List Nat → Completers → Option Completers
  | [], c => some c
  | i :: rest, c => (completerTurn c i).bind (completerTurns rest)

theorem completing_of_turns {queue : String} {turns : List Nat} {c d : Completers}
    (h : completerTurns turns c = some d) : Completing queue c d := by
  induction turns generalizing c with
  | nil =>
    cases h
    exact .refl
  | cons i rest ih =>
    obtain ⟨m, turn, later⟩ := Option.bind_eq_some_iff.mp h
    unfold completerTurn at turn
    split at turn
    · rename_i l op next running
      split at turn
      · rename_i r t served
        cases turn
        exact (Interleaves.refl.tail trivial (.call running (serve_serves served))).trans (ih later)
      · cases turn
    · cases turn

/-- Two jobs of the queue are acked at the same time, and nothing was counted before. -/
def twoAcks : Completers where
  state := World.start 0
  threads := [((), incrementCompleted "mails"), ((), incrementCompleted "mails")]
  log := [.start (), .start ()]

theorem completing_twoAcks : Completing "mails" ⟨World.start 0, [], []⟩ twoAcks :=
  (Interleaves.refl.tail trivial (.start ())).tail trivial (.start ())

def hasEnded : Prog Unit → Bool
  | .pure _ => true
  | .call _ _ => false

theorem eq_of_hasEnded {p : Prog Unit} (ended : hasEnded p = true) : p = .pure () := by
  cases p with
  | pure => rfl
  | call => cases ended

theorem returned_of_check {d : Completers}
    (checked : d.threads.all (fun t => hasEnded t.2) = true) : ∀ t ∈ d.threads, t.2 = .pure () :=
  fun t mem => eq_of_hasEnded (List.all_eq_true.mp checked t mem)

/-- What the two calls heard. -/
def heard (d : Completers) : List (List Verdict) :=
  [0, 1].map fun i => noted (verdict? (kvStatsKey "mails" "completed")) i d.log

/-- The acks come one after the other. -/
theorem counted_iff_twoAcks : ∃ d, Completing "mails" ⟨World.start 0, [], []⟩ d ∧
    d.threads.length = 2 ∧
    Shows (d.state.value .stats (kvStatsKey "mails" "completed")) (0 + d.threads.length) := by
  have checked : (completerTurns [0, 0, 1, 1] twoAcks).map (fun d =>
      (d.threads.all fun t => hasEnded t.2, d.threads.length, heard d)) =
      some (true, 2, [[.written], [.written]]) := by decide
  obtain ⟨d, followed, facts⟩ := Option.map_eq_some_iff.mp checked
  obtain ⟨ended, rest⟩ := Prod.mk.inj facts
  obtain ⟨two, verdicts⟩ := Prod.mk.inj rest
  simp only [heard, List.map_cons, List.map_nil, List.cons.injEq, and_true] at verdicts
  have run := completing_twoAcks.trans (completing_of_turns followed)
  refine ⟨d, run, two, (counted_iff Bucket.numbered_empty (.inl ⟨rfl, rfl⟩) run
    (returned_of_check ended)).mpr ⟨fun i inside => ?_, .inr (by rw [two]; decide)⟩⟩
  rw [two] at inside
  have first_or_second : i = 0 ∨ i = 1 := by omega
  rcases first_or_second with rfl | rfl
  · rw [verdicts.1]
    simp [GivesUp]
  · rw [verdicts.2]
    simp [GivesUp]

/-- Both acks find no counter. -/
theorem not_counted : ¬ ∀ (queue : String) (w : World) (c : Nat) (d : Completers),
    (w.kv .stats).Numbered → Shows (w.value .stats (kvStatsKey queue "completed")) c →
    Completing queue ⟨w, [], []⟩ d → (∀ t ∈ d.threads, t.2 = .pure ()) →
    c + d.threads.length < 2 ^ 63 →
    Shows (d.state.value .stats (kvStatsKey queue "completed")) (c + d.threads.length) := by
  intro counted
  have checked : (completerTurns [0, 1, 0, 1] twoAcks).map (fun d =>
      (d.threads.all fun t => hasEnded t.2, d.threads.length,
        d.state.value .stats (kvStatsKey "mails" "completed"))) =
      some (true, 2, some "1") := by decide
  obtain ⟨d, followed, facts⟩ := Option.map_eq_some_iff.mp checked
  obtain ⟨ended, rest⟩ := Prod.mk.inj facts
  obtain ⟨two, one⟩ := Prod.mk.inj rest
  have all := counted "mails" (World.start 0) 0 d Bucket.numbered_empty (.inl ⟨rfl, rfl⟩)
    (completing_twoAcks.trans (completing_of_turns followed)) (returned_of_check ended)
    (by rw [two]; decide)
  rw [one, two] at all
  have shown : Shows (some "1") 1 := .inr ⟨"1", rfl, Int.toInt?_repr 1⟩
  exact absurd (shown.eq all) (by decide)

end OjsNats.Concurrent
