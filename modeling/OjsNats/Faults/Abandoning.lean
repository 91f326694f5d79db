import OjsNats.Concurrent.Leases
import OjsNats.Faults.Fetching
import OjsNats.Faults.Stopping
import OjsNats.Lifecycle.Deadlines

/-!
# Fetches that do not get to their end

Where the server ends in the middle of a fetch, a job whose message was taken is
lost until its record has been written.  What the fetch has done so far is read
off its calls and their answers.
-/

namespace OjsNats.Faults

open Core Nats Effect Semantics Program Lifecycle Concurrent

variable {lib : Externals} {w t : World} {j : String} {op : Op} {g : View}

/-- Calls with their answers. -/
abbrev Calls := List (Σ op : Op, Ans op)

/-- The call hands a message of the job to the fetch. -/
def Takes (j : String) : (op : Op) → Ans op → Prop
  | .consumerFetch _ _, .ok msgs => ∃ msg ∈ msgs, msg.data = j
  | _, _ => False

def Taken (j : String) (calls : Calls) : Prop := ∃ call ∈ calls, Takes j call.1 call.2

/-- The call writes the job's record. -/
def Rewrites (j : String) : Op → Prop
  | .put .jobs k _ => k = j
  | _ => False

def Rewritten (j : String) (calls : Calls) : Prop := ∃ call ∈ calls, Rewrites j call.1

section Calls

variable {calls : Calls} {r : Ans op}

theorem taken_snoc : Taken j (calls ++ [⟨op, r⟩]) ↔ Taken j calls ∨ Takes j op r := by
  simp [Taken, or_and_right, exists_or]

theorem rewritten_snoc : Rewritten j (calls ++ [⟨op, r⟩]) ↔ Rewritten j calls ∨ Rewrites j op := by
  simp [Rewritten, or_and_right, exists_or]

/-- How many messages of the job the call hands out. -/
def handed (j : String) : (op : Op) → Ans op → Nat
  | .consumerFetch _ _, .ok msgs => View.countOf j msgs
  | _, _ => 0

theorem takes_iff : Takes j op r ↔ 0 < handed j op r := by
  unfold Takes handed
  split
  · simp [View.countOf, List.length_pos_iff, List.filter_eq_nil_iff]
  · simp

end Calls

/-! ## The calls of a fetch -/

/-- Calls other than those that bring up a job. -/
def Unannounced : Op → Prop
  | .publish _ _ | .newUUIDv7 => False
  | _ => True

theorem Unnoticed.unannounced {op : Op} (h : Unnoticed op) : Unannounced op := by
  cases op with
  | publish | newUUIDv7 => exact h
  | _ => trivial

theorem unannounced_sideline {α : Type} {p : Prog α} (uses : p.Uses Sideline) :
    p.Uses Unannounced :=
  uses.mono fun _ => Unnoticed.unannounced ∘ Sideline.unnoticed

theorem unannounced_fetchJob (queue workerID : String) (timeout now : Int) (k : String)
    (jobs : List Job) : (fetchJob lib queue workerID timeout now k jobs).Uses Unannounced := by
  have drop (jobs : List Job) : ((ackMessage k).bind fun _ =>
      (Program.pure jobs : Prog (List Job))).Uses Unannounced :=
    uses_bind ((unnoticed_ackMessage k).mono fun _ => Unnoticed.unannounced) fun _ => trivial
  refine uses_bind (uses_bind ⟨trivial, fun _ => trivial⟩ fun r => ?_) fun r => ?_
  · cases r <;> trivial
  cases r with
  | error e => exact drop jobs
  | ok job =>
    dsimp only
    split
    · exact uses_bind ⟨trivial, fun _ => trivial⟩ fun _ => drop jobs
    · split
      · exact drop jobs
      · refine uses_bind ⟨trivial, fun _ => trivial⟩ fun r => ?_
        cases r with
        | error e => exact drop jobs
        | ok _ =>
          refine uses_bind ⟨trivial, fun _ => trivial⟩ fun r => ?_
          cases r with
          | error e => exact uses_bind ⟨trivial, fun _ => trivial⟩ fun _ => drop jobs
          | ok _ =>
            exact uses_bind (unannounced_sideline (sideline_recordFetchTime queue now))
              fun _ => trivial

theorem unannounced_fetchMessages (queue : String) (count : Nat) :
    (fetchMessages queue count).Uses Unannounced := by
  refine uses_bind (unannounced_sideline (sideline_getConsumer queue)) fun r => ?_
  cases r with
  | error e => trivial
  | ok _ =>
    refine uses_bind (p := Program.ask (Op.consumerFetch queue count))
      ⟨trivial, fun _ => trivial⟩ fun fetched => ?_
    cases fetched with
    | error e => trivial
    | ok msgs =>
      refine uses_bind (uses_forEach _ fun msg _ ids => ?_) fun _ => trivial
      unfold trackMessage
      split <;> exact ⟨trivial, fun _ => trivial⟩

theorem unannounced_fetch (queues : List String) (count : Int) (workerID : String)
    (timeout : Int) : (fetch lib queues count workerID timeout).Uses Unannounced := by
  refine uses_bind ⟨trivial, fun _ => trivial⟩ fun now => uses_forEach _ fun queue _ jobs => ?_
  unfold fetchQueue
  split
  · trivial
  · refine uses_bind (unannounced_sideline (sideline_isQueuePaused queue)) fun paused => ?_
    split
    · trivial
    · refine uses_bind (unannounced_sideline (sideline_isRateLimited queue now)) fun limited => ?_
      split
      · trivial
      · refine uses_bind (unannounced_fetchMessages _ _) fun r => ?_
        cases r with
        | error e => trivial
        | ok ids =>
          exact uses_forEach _ fun k _ jobs =>
            unannounced_fetchJob queue workerID timeout now k jobs

/-! ## How far a fetch has got -/

section Views

variable {v u : World} {r : Ans op} {call : Call}

theorem leased_next (leaves : Leaves .active op) :
    (View.next lib j g op r).leased = g.leased := by
  cases op with
  | newUUIDv7 =>
    simp only [View.next, View.mint]
    split <;> rfl
  | put b | delete b =>
    cases b with
    | active => exact absurd rfl leaves
    | jobs => cases r <;> simp only [View.next, View.writeAt] <;> (try split) <;> rfl
    | _ => rfl
  | get b =>
    cases b with
    | jobs | active => cases r <;> (simp only [View.next, View.see, View.arm]; split) <;> rfl
    | _ => rfl
  | consumerFetch => cases r <;> rfl
  | publish =>
    cases r with
    | ok u =>
      simp only [View.next, View.announce]
      split <;> rfl
    | error e => rfl
  | _ => rfl

/-- What a served call does to the active entry of the job. -/
theorem lease_served (allowed : Allows lib j call g op) (step : v.Serves op r u) :
    (∃ info, op = .put .active j info ∧ u.value .active j = some info) ∨ op = .delete .active j ∨
      (u.value .active j = v.value .active j ∧
        (View.next lib j g op r).leased = g.leased) := by
  by_cases leaves : Leaves .active op
  · have same : u.value .active j = v.value .active j := by
      rw [World.value, World.value, leaves.kv step]
    exact .inr (.inr ⟨same, leased_next leaves⟩)
  · cases op with
    | put b k info =>
      obtain rfl : b = .active := not_not.mp leaves
      obtain ⟨rfl, rfl⟩ := step
      by_cases same : k = j
      · subst same
        exact .inl ⟨info, rfl, by rw [value_put, dif_pos ⟨rfl, rfl⟩]⟩
      · refine .inr (.inr ⟨value_put_other fun here => same here.2.symm, ?_⟩)
        exact congrArg View.leased (if_neg same)
    | delete b k =>
      obtain rfl : b = .active := not_not.mp leaves
      obtain ⟨rfl, rfl⟩ := step
      by_cases same : k = j
      · exact .inr (.inl (by rw [same]))
      · refine .inr (.inr ⟨value_delete_other fun here => same here.2.symm, ?_⟩)
        exact congrArg View.leased (if_neg same)
    | create b | update b =>
      obtain rfl : b = .active := not_not.mp leaves
      exact allowed.elim
    | _ => exact absurd trivial leaves

theorem now_next (other : op ≠ .now) : (View.next lib j g op r).now = g.now := by
  cases op with
  | now => exact absurd rfl other
  | newUUIDv7 =>
    simp only [View.next, View.mint]
    split <;> rfl
  | get b | put b | delete b => cases b <;> cases r <;> simp [View.next]
  | consumerFetch | publish => cases r <;> simp [View.next, View.hand]
  | _ => rfl

theorem tokens_next (unannounced : Unannounced op) (other : ¬ Rewrites j op) :
    (View.next lib j g op r).tokens = g.tokens + handed j op r := by
  cases op with
  | newUUIDv7 | publish => exact unannounced.elim
  | consumerFetch => cases r <;> rfl
  | put b k v =>
    cases b with
    | jobs =>
      cases r with
      | ok rev => exact congrArg View.tokens (if_neg other)
      | error e => rfl
    | active => cases r <;> simp [View.next, View.tokens_lease, handed]
    | _ => rfl
  | get b | delete b =>
    cases b with
    | jobs | active =>
      cases r <;> simp only [View.next, View.see, View.arm, View.lease] <;> (try split) <;> rfl
    | _ => rfl
  | _ => rfl

end Views

/-- What has become of a job that was available: its message is there, or in hand, or the job
has been claimed or discarded. -/
inductive Stage (j : String) (g : View) (v : World) (calls : Calls) : Prop
  | ahead : ¬ Taken j calls → ¬ Rewritten j calls → g.tokens = 0 →
      View.countOf j v.stream = 1 → (v.slot j).state = some .available → Stage j g v calls
  | inHand : Taken j calls → ¬ Rewritten j calls → g.tokens = 1 →
      View.countOf j v.stream = 0 → (v.slot j).state = some .available → Stage j g v calls
  | treated : Rewritten j calls → g.tokens = 0 → View.countOf j v.stream = 0 →
      (v.slot j).state = some .discarded ∨
        (v.slot j).state = some .active ∧ g.leased = true → Stage j g v calls

/-- In the middle of a fetch. -/
structure Midway (lib : Externals) (j : String) (now : Int) (g : View) (s : World × Calls) :
    Prop where
  keyed : Keyed s.1
  clock : s.1.clock = now
  era : InEra g.now
  unminted : g.minted = 0
  lease : g.leased = true → ∃ d, Deadline lib s.1 j d
  stage : Stage j g s.1 s.2

section Midway

variable {now : Int} {v u : World} {calls : Calls} {r : Ans op} {queues : List String}
  {count : Int} {workerID : String} {timeout : Int} {call : Call}

/-- A call that neither hands out the job's message nor writes its record. -/
theorem Stage.beside {g' : View} (stage : Stage j g v calls)
    (record : u.value .jobs j = v.value .jobs j)
    (total : View.countOf j u.stream + g'.tokens = View.countOf j v.stream + g.tokens)
    (tokens : g'.tokens = g.tokens + handed j op r) (other : ¬ Rewrites j op)
    (leased : g.tokens = 0 → g.leased = true → g'.leased = true) :
    Stage j g' u (calls ++ [⟨op, r⟩]) := by
  have state : (u.slot j).state = (v.slot j).state := congrArg (Option.map JobState.state) record
  have rewritten : Rewritten j (calls ++ [⟨op, r⟩]) ↔ Rewritten j calls := by
    rw [rewritten_snoc]
    exact or_iff_left other
  have taken : Taken j (calls ++ [⟨op, r⟩]) ↔ Taken j calls ∨ 0 < handed j op r := by
    rw [taken_snoc, takes_iff]
  cases stage with
  | ahead untaken unwritten none one available =>
    by_cases takes : 0 < handed j op r
    · exact .inHand (taken.mpr (.inr takes)) (mt rewritten.mp unwritten) (by omega) (by omega)
        (state.trans available)
    · exact .ahead (mt taken.mp (not_or.mpr ⟨untaken, takes⟩)) (mt rewritten.mp unwritten)
        (by omega) (by omega) (state.trans available)
  | inHand before unwritten one none available =>
    exact .inHand (taken.mpr (.inl before)) (mt rewritten.mp unwritten) (by omega) (by omega)
      (state.trans available)
  | treated written none silent good =>
    refine .treated (rewritten.mpr written) (by omega) (by omega) ?_
    rw [state]
    exact good.imp_right (And.imp_right (leased none))

/-- The fetch claims or discards the job it has in hand. -/
theorem Stage.write {rec : JobState} {rev : Ans (.put .jobs j rec)} (stage : Stage j g v calls)
    (permits : Permits lib j g rec (.fetch queues count workerID timeout)) :
    Stage j (g.write rec) (v.put .jobs j rec) (calls ++ [⟨.put .jobs j rec, rev⟩]) := by
  obtain ⟨owed, _, _, result⟩ := permits
  have written : Rewritten j (calls ++ [⟨.put .jobs j rec, rev⟩]) := rewritten_snoc.mpr (.inr rfl)
  have state : ((v.put .jobs j rec).slot j).state = some rec.state := by
    simp [Slot.state, World.slot, value_put]
  cases stage with
  | ahead _ _ none => omega
  | treated _ none => omega
  | inHand _ _ one silent =>
    have away : rec.state ≠ .available := by
      rcases result with ⟨-, next⟩ | ⟨-, -, -, next⟩ <;> simp [next]
    refine .treated written ?_ silent ?_
    · simp only [View.write, if_neg away]
      omega
    · rw [state]
      rcases result with ⟨-, next⟩ | ⟨-, -, leased, next⟩
      · exact .inl (congrArg some next)
      · exact .inr ⟨congrArg some next, leased⟩

theorem not_rewrites (silent : ∀ i, write? j (.call i call op r) = none) (step : v.Serves op r u) :
    ¬ Rewrites j op := by
  intro rewrites
  cases op with
  | put b k rec =>
    cases b with
    | jobs =>
      obtain ⟨rfl, -⟩ := step
      obtain rfl : k = j := rewrites
      simpa [write?] using silent 0
    | _ => exact rewrites
  | _ => exact rewrites

theorem Midway.lease_step (midway : Midway lib j now g (v, calls))
    (allowed : Allows lib j (.fetch queues count workerID timeout) g op)
    (step : v.Serves op r u) (leased : (View.next lib j g op r).leased = true) :
    ∃ d, Deadline lib u j d := by
  rcases lease_served allowed step with ⟨info, rfl, stored⟩ | rfl | ⟨same, kept⟩
  · obtain ⟨d, duration, text⟩ := allowed rfl
    refine ⟨truncateToMillis (g.now + d), info, stored, ?_⟩
    rw [text]
    exact parseTime_later midway.era duration
  · obtain ⟨rfl, rfl⟩ := step
    simp [View.next, View.lease] at leased
  · obtain ⟨d, info, stored, parsed⟩ := midway.lease (kept ▸ leased)
    exact ⟨d, info, same.trans stored, parsed⟩

theorem Midway.step (midway : Midway lib j now g (v, calls)) (era : InEra now)
    (unannounced : Unannounced op)
    (allowed : Allows lib j (.fetch queues count workerID timeout) g op)
    (step : v.Serves op r u) :
    Midway lib j now (View.next lib j g op r) (u, calls ++ [⟨op, r⟩]) := by
  have unleased (none : g.tokens = 0) (leased : g.leased = true) :
      (View.next lib j g op r).leased = true := by
    rcases lease_served allowed step with ⟨info, rfl, -⟩ | rfl | ⟨-, kept⟩
    · obtain ⟨rfl, rfl⟩ := step
      simp [View.next, View.lease]
    · have owed := allowed rfl _ _ _ _ rfl
      omega
    · exact kept.trans leased
  have stage : Stage j g v calls := midway.stage
  have next : (View.next lib j g op r).minted = 0 ∧
      Stage j (View.next lib j g op r) u (calls ++ [⟨op, r⟩]) := by
    refine served_cases (motive := fun op r u g' => v.Serves op r u → Unannounced op →
      (g.tokens = 0 → g.leased = true → g'.leased = true) →
        g'.minted = 0 ∧ Stage j g' u (calls ++ [⟨op, r⟩])) ?_ ?_ ?_ allowed step step
          unannounced unleased
    · intro rec rev own permits _ _ _
      exact ⟨by simp [View.write, midway.unminted], stage.write permits⟩
    · exact fun _ _ no => no.elim
    · intro op r u silent still step unannounced unleased
      have minted := still.minted
      have total := still.total
      rw [minted] at total
      exact ⟨minted.trans midway.unminted, stage.beside still.record (by omega)
        (tokens_next unannounced (not_rewrites silent step))
        (not_rewrites silent step) unleased⟩
  constructor
  · exact midway.keyed.served allowed step
  · exact (clock_of_serves step).trans midway.clock
  · by_cases reads : op = .now
    · subst reads
      obtain ⟨rfl, rfl⟩ := step
      exact midway.clock ▸ era
    · rw [now_next reads]
      exact midway.era
  · exact next.1
  · exact midway.lease_step allowed step
  · exact next.2

theorem Midway.start (reachable : Reachable lib w)
    (available : (w.slot j).state = some .available) :
    Midway lib j w.clock {} (w, []) where
  keyed := fun k => (reachable.sound.placed k).keyed
  clock := rfl
  era := by
    unfold InEra
    decide
  unminted := rfl
  lease := nofun
  stage := by
    have one : View.countOf j w.stream = 1 := by
      rcases reachable.sound.single j with none | ⟨msg, one⟩
      · exact absurd none (reachable.present j available)
      · exact congrArg List.length one
    exact .ahead (by simp [Taken]) (by simp [Rewritten]) rfl one available

theorem exists_midway {calls : Calls} (reachable : Reachable lib w) (era : InEra w.clock)
    (available : (w.slot j).state = some .available)
    (stops : serves.recording.StopsAfter (fetch lib queues count workerID timeout) (w, []) op
      (t, calls)) : ∃ g, Midway lib j w.clock g (t, calls) := by
  have follows : (discipline lib j (.fetch queues count workerID timeout)).Follows
      (fetch lib queues count workerID timeout) {} _ := follows_fetch
  refine StopsAfter.follows (Midway lib j w.clock) ?_
    (unannounced_fetch queues count workerID timeout) follows (.start reachable available) stops
  rintro g ⟨v, calls⟩ op r ⟨u, calls'⟩ unannounced allowed ⟨step, whole⟩ midway
  dsimp only at step whole
  subst whole
  exact ⟨midway.keyed.admits step, midway.step era unannounced allowed step⟩

/-- A job under a lease can be had when the lease is over. -/
theorem obtainable_of_leased {d : Int} (own : UnderOwnIDs t)
    (active : (t.slot j).state = some .active) (deadline : Deadline lib t j d) :
    Obtainable lib j t.restarted := by
  obtain ⟨rec, stored, state⟩ := record_of_isSome active
  obtain ⟨info, entry, parsed⟩ := deadline
  refine .inr ⟨active, max t.clock (d + 1), le_max_left _ _, ?_⟩
  refine recoverable_of_due own ⟨info, d, entry, parsed, ?_⟩ stored fun _ => state
  exact (Int.lt_succ d).trans_le (le_max_right _ _)

/-- When the server has ended, a job can be had or is discarded exactly if its message was not
taken or its record was written. -/
theorem Midway.kept_iff {calls : Calls} (midway : Midway lib j now g (t, calls)) :
    Retained lib j [] t.restarted ↔ (Taken j calls → Rewritten j calls) := by
  have silent (none : View.countOf j t.stream = 0) : (t.slot j).messages = [] :=
    List.length_eq_zero_iff.mp none
  cases midway.stage with
  | ahead untaken _ _ one available =>
    refine iff_of_true (.inr (.inr (.inl ⟨available, fun none => ?_⟩))) fun taken =>
      absurd taken untaken
    have zero : View.countOf j t.stream = 0 := congrArg List.length none
    simp [zero] at one
  | inHand taken unwritten _ none available =>
    refine iff_of_false ?_ fun writes => unwritten (writes taken)
    rintro (⟨_, mem, -⟩ | discarded | obtainable)
    · cases mem
    · have discarded : (t.slot j).state = some .discarded := discarded
      simp [available] at discarded
    · exact not_obtainable (t := t.restarted) available (silent none) obtainable
  | treated written _ _ good =>
    refine iff_of_true (.inr ?_) fun _ => written
    rcases good with discarded | ⟨active, leased⟩
    · exact .inl discarded
    · obtain ⟨d, deadline⟩ := midway.lease leased
      exact .inr (obtainable_of_leased midway.keyed active deadline)

end Midway

/-! ## Faults of all kinds -/

/-- A fetch keeps a job that was available exactly if no call that loses it is the one that fails,
none is among those that fail when the context is cancelled, and the server does not end between
the taking of the message and the writing of the record. -/
theorem fetch_retains_iff (reachable : Reachable lib w) (era : InEra w.clock)
    (available : (w.slot j).state = some .available) (queues : List String) (count : Int)
    (workerID : String) (timeout : Int) :
    (∀ jobs t op, faulty.Exec (fetch lib queues count workerID timeout) (w, []) jobs (t, [op]) →
      (Retained lib j jobs t ↔ ¬ Drops j op)) ∧
    (∀ jobs t failed late, cancelling.Exec (fetch lib queues count workerID timeout)
      ((w, []), false) jobs ((t, failed), late) → (Retained lib j jobs t ↔ ¬ Dropped j failed)) ∧
    ∀ op t calls, serves.recording.StopsAfter (fetch lib queues count workerID timeout) (w, []) op
      (t, calls) → (Retained lib j [] t.restarted ↔ (Taken j calls → Rewritten j calls)) := by
  have between : faulty.wp (fetch lib queues count workerID timeout)
      (fun jobs u => Between j [] jobs u.1 u.2) (w, []) :=
    between_fetch reachable.sound ⟨available, reachable.present j available⟩ queues count workerID
      timeout
  refine ⟨fun jobs t op run => ?_, fun jobs t failed late run => ?_, fun op t calls stops => ?_⟩
  · rw [(between jobs _ run).kept_iff]
    simp [Dropped]
  · exact (between jobs _ (faulty_of_cancelling run)).kept_iff
  · obtain ⟨g, midway⟩ := exists_midway reachable era available stops
    exact midway.kept_iff

/-- Fetch the one waiting job while certain calls fail. -/
def fetchFailing (failing : Op → Bool) : Option (List Job × World × List Op) :=
  executeFailing failing (fetch sample ["mails"] 1 "worker-1" 0) (mailed, [])

def opensConsumer : Op → Bool
  | .ensureConsumer _ => true
  | _ => false

def readsRecord : Op → Bool
  | .get .jobs _ => true
  | _ => false

/-- Without a consumer no message is taken. -/
theorem fetch_retains_iff_mailed : ∃ jobs t op, fetchFailing opensConsumer = some (jobs, t, [op]) ∧
    Retained sample "job-1" jobs t := by
  have runs : (fetchFailing opensConsumer).isSome := by decide
  obtain ⟨⟨jobs, t, failed⟩, executed⟩ := Option.isSome_iff_exists.mp runs
  have facts : (fetchFailing opensConsumer).map (fun r => r.2.2.map opensConsumer) =
      some [true] := by decide
  rw [executed, Option.map_some, Option.some_inj] at facts
  obtain ⟨op, rfl, opens⟩ := List.map_eq_singleton_iff.mp facts
  have era : InEra mailed.clock := by
    unfold InEra
    decide
  have retained := (fetch_retains_iff reachable_mailed era (j := "job-1") (by decide) ["mails"] 1
    "worker-1" 0).1 jobs t op (exec_of_executeFailing executed)
  refine ⟨jobs, t, op, executed, retained.mpr ?_⟩
  cases op with
  | ensureConsumer => exact id
  | _ => cases opens

/-- A job whose record cannot be read is available and has no message. -/
theorem not_fetch_retains : ¬ ∀ (lib : Externals) (w : World) (j : String), Reachable lib w →
    (w.slot j).state = some .available → ∀ queues count workerID timeout jobs t op,
      faulty.Exec (fetch lib queues count workerID timeout) (w, []) jobs (t, [op]) →
        Retained lib j jobs t := by
  intro retains
  have runs : (fetchFailing readsRecord).isSome := by decide
  obtain ⟨⟨jobs, t, failed⟩, executed⟩ := Option.isSome_iff_exists.mp runs
  have facts : (fetchFailing readsRecord).map (fun r => (r.1.map Job.id, r.2.2.map readsRecord,
      (r.2.1.slot "job-1").state, (r.2.1.slot "job-1").messages)) =
      some ([], [true], some .available, []) := by decide
  rw [executed, Option.map_some, Option.some_inj] at facts
  simp only [Prod.mk.injEq] at facts
  obtain ⟨none, single, available, silent⟩ := facts
  obtain ⟨op, rfl, -⟩ := List.map_eq_singleton_iff.mp single
  obtain rfl := List.map_eq_nil_iff.mp none
  rcases retains sample mailed "job-1" reachable_mailed (by decide) ["mails"] 1 "worker-1" 0 [] t op
    (exec_of_executeFailing executed) with ⟨_, mem, -⟩ | discarded | obtainable
  · cases mem
  · simp [available] at discarded
  · exact not_obtainable available silent obtainable

end OjsNats.Faults
