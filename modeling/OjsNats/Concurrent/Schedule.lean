import OjsNats.Concurrent.Server

/-!
# Schedules

A schedule picks which operation makes its next calls.  Playing one yields an
interleaved run, so that runs with a given outcome can be computed.
-/

namespace OjsNats.Concurrent

open Core Nats Lifecycle Effect

/-- What to do next: start an operation, let one make some calls, or let time pass. -/
inductive Pick where
  | start (call : Call)
  | calls (thread count : Nat)
  | wait (seconds : Int)

/-- The next call of a running operation. -/
def nextCall (c : Server) (i : Nat) : Option (Action Call Op Ans × Server) :=
  match c.threads[i]? with
  | some (call, .call op next) =>
      match serve c.state op with
      | some (r, t) => some (.call i call op r,
          ⟨t, c.threads.set i (call, next r), c.log ++ [.call i call op r]⟩)
      | none => none
  | _ => none

theorem turn_of_nextCall {c d : Server} {i : Nat} {a : Action Call Op Ans}
    (h : nextCall c i = some (a, d)) :
    Turn serves (Call.program sample) TimePasses c a d := by
  unfold nextCall at h
  split at h
  · rename_i call op next running
    split at h
    · rename_i r t served
      cases h
      exact .call running (serve_serves served)
    · cases h
  · cases h

/-- One call of a running operation. -/
def called (c : Server) (i : Nat) : Action Call Op Ans × Server := (nextCall c i).getD (.outside, c)

theorem turn_called {c : Server} {i : Nat} (runs : nextCall c i ≠ none) :
    Turn serves (Call.program sample) TimePasses c (called c i).1 (called c i).2 :=
  turn_of_nextCall (Option.getD_of_ne_none runs _).symm

section Play

variable (ok : Server → Action Call Op Ans → Prop) [∀ c a, Decidable (ok c a)]

/-- Up to `n` calls of one operation, fewer if it replies before. -/
def playCalls (i : Nat) : Nat → Server → Option Server
  | 0, c => some c
  | n + 1, c =>
      match nextCall c i with
      | some (a, d) => if ok c a then playCalls i n d else none
      | none => some c

def playPick (c : Server) : Pick → Option Server
  | .start call =>
      if ok c (.start call) then
        some ⟨c.state, c.threads ++ [(call, call.program sample)], c.log ++ [.start call]⟩
      else none
  | .calls i n => playCalls ok i n c
  | .wait seconds =>
      if c.state.clock ≤ Sample.instant seconds ∧ ok c .outside then
        some ⟨later c.state seconds, c.threads, c.log ++ [.outside]⟩
      else none

/-- Follow a schedule as long as its actions meet the condition. -/
def play : List Pick → Server → Option Server
  | [], c => some c
  | p :: rest, c =>
      match playPick ok c p with
      | some d => play rest d
      | none => none

variable {ok}

theorem runs_of_playCalls {i n : Nat} {c d : Server} (h : playCalls ok i n c = some d) :
    Runs sample ok c d := by
  induction n generalizing c with
  | zero =>
    cases h
    exact .refl
  | succ n ih =>
    unfold playCalls at h
    split at h
    · rename_i a m next
      split at h
      · rename_i meets
        exact (Interleaves.refl.tail meets (turn_of_nextCall next)).trans (ih h)
      · cases h
    · cases h
      exact .refl

theorem runs_of_play {picks : List Pick} {c d : Server} (h : play ok picks c = some d) :
    Runs sample ok c d := by
  induction picks generalizing c with
  | nil =>
    cases h
    exact .refl
  | cons p rest ih =>
    unfold play at h
    split at h
    · rename_i m picked
      refine Interleaves.trans ?_ (ih h)
      cases p with
      | start call =>
        simp only [playPick] at picked
        split at picked
        · rename_i meets
          cases picked
          exact Interleaves.refl.tail meets (.start call)
        · cases picked
      | calls i n => exact runs_of_playCalls picked
      | wait seconds =>
        simp only [playPick] at picked
        split at picked
        · rename_i meets
          cases picked
          exact Interleaves.refl.tail meets.2 (.outside ⟨_, meets.1, rfl⟩)
        · cases picked
    · cases h

variable (ok)

/-- The server after a schedule, if the schedule can be followed. -/
def played (picks : List Pick) (c : Server) : Server := (play ok picks c).getD c

variable {ok}

theorem runs_played {picks : List Pick} {c : Server} (followed : play ok picks c ≠ none) :
    Runs sample ok c (played ok picks c) :=
  runs_of_play (Option.getD_of_ne_none followed c).symm

end Play

end OjsNats.Concurrent
