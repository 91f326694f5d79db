import OjsNats.Concurrent.Schedule

/-!
# The loops of the scheduler

`scheduler.go`: four goroutines call the passes when their tickers tick, until `Stop`
closes a channel.  `Stop` may be called any number of times, and waits for the goroutines.
-/

namespace OjsNats.Concurrent

open Core Nats Lifecycle Effect Relation

/-- Where a goroutine in `runLoop` is. -/
inductive LoopPhase where
  /-- at the `select` -/
  | selecting
  /-- in `fn`, which is this thread of the server -/
  | passing (thread : Nat)
  | returned
  deriving DecidableEq

structure Loop where
  fn : Call
  phase : LoopPhase := .selecting
  /-- a tick waits in `ticker.C` -/
  ticked : Bool := false

/-- Where a call of `Stop` is. -/
inductive StopPhase where
  /-- at `stopOnce.Do` -/
  | entering
  /-- at `close(s.stop)` -/
  | closing
  /-- at `wg.Wait` -/
  | waiting
  | returned
  deriving DecidableEq

/-- `sync.Once`: other calls wait while the first one runs the function. -/
inductive Once where
  | fresh
  | running
  | done
  deriving DecidableEq

structure Scheduler where
  /-- the channel `stop` is closed -/
  stop : Bool := false
  wg : Nat := 0
  stopOnce : Once := .fresh
  loops : List Loop := []
  /-- the calls of `Stop` -/
  calls : List StopPhase := []
  panicked : Bool := false

inductive SchedulerAction where
  | tick (i : Nat)
  /-- loop `i` takes its tick and calls its pass -/
  | pass (i : Nat)
  /-- the pass of loop `i` has returned -/
  | passed (i : Nat)
  /-- loop `i` sees that the channel is closed -/
  | quit (i : Nat)
  | callStop
  /-- call `k` of `Stop` enters `stopOnce.Do` or goes past it -/
  | enter (k : Nat)
  | close (k : Nat)
  /-- `wg.Wait` returns -/
  | leave (k : Nat)

/-- The thread has replied. -/
def Server.replied (c : Server) (n : Nat) : Bool :=
  match c.threads[n]? with
  | some (_, .pure _) => true
  | _ => false

namespace Scheduler

/-- `Start` -/
def start (s : Scheduler) : Scheduler :=
  { s with
    wg := s.wg + 4
    loops := s.loops ++ [{ fn := .promoteScheduled }, { fn := .promoteRetries },
      { fn := .requeueStalled }, { fn := .fireCronJobs }] }

/-- A step of a loop, as far as it can be taken. -/
def on (s : Scheduler) (i : Nat) (f : Loop → Option Loop) : Option Scheduler :=
  (s.loops[i]?).bind fun loop => (f loop).map fun loop' => { s with loops := s.loops.set i loop' }

def setCall (s : Scheduler) (k : Nat) (phase : StopPhase) : Scheduler :=
  { s with calls := s.calls.set k phase }

end Scheduler

namespace Loop

def tick (l : Loop) : Option Loop :=
  if l.phase = .returned then none else some { l with ticked := true }

def pass (thread : Nat) (l : Loop) : Option Loop :=
  if l.phase = .selecting ∧ l.ticked then
    some { l with phase := .passing thread, ticked := false }
  else none

def passed (replied : Nat → Bool) (l : Loop) : Option Loop :=
  match l.phase with
  | .passing n => if replied n then some { l with phase := .selecting } else none
  | .selecting | .returned => none

def quit (stop : Bool) (l : Loop) : Option Loop :=
  if l.phase = .selecting ∧ stop then some { l with phase := .returned } else none

/-- The goroutine has not ended. -/
def live (l : Loop) : Bool := l.phase ≠ .returned

end Loop

namespace Scheduler

/-- The scheduler of a server after an action, if it can be taken.  To close the channel twice
panics, and so does `wg.Done` without a goroutine. -/
def step (c : Server) (s : Scheduler) : SchedulerAction → Option Scheduler
  | .tick i => s.on i Loop.tick
  | .pass i => s.on i (Loop.pass c.threads.length)
  | .passed i => s.on i (Loop.passed c.replied)
  | .quit i =>
      (s.on i (Loop.quit s.stop)).map fun s' =>
        { s' with wg := s.wg - 1, panicked := s.panicked || s.wg = 0 }
  | .callStop => some { s with calls := s.calls ++ [.entering] }
  | .enter k =>
      if s.calls[k]? = some .entering then
        match s.stopOnce with
        | .fresh => some { s.setCall k .closing with stopOnce := .running }
        | .running => none
        | .done => some (s.setCall k .waiting)
      else none
  | .close k =>
      if s.calls[k]? = some .closing then
        some { s.setCall k .waiting with
          stop := true, stopOnce := .done, panicked := s.panicked || s.stop }
      else none
  | .leave k =>
      if s.calls[k]? = some .waiting ∧ s.wg = 0 then some (s.setCall k .returned) else none

/-- The pass that an action starts. -/
def starts (s : Scheduler) : SchedulerAction → Option Call
  | .pass i => (s.loops[i]?).map Loop.fn
  | _ => none

end Scheduler

/-- The server starts an operation, if there is one to start. -/
def Server.starting (lib : Externals) (c : Server) : Option Call → Server
  | some call => ⟨c.state, c.threads ++ [(call, call.program lib)], c.log ++ [.start call]⟩
  | none => c

/-- A server with its scheduler. -/
structure Process where
  server : Server
  scheduler : Scheduler

/-- The operations that the scheduler calls, and nobody else. -/
def passes : List Operation := [.promoteScheduled, .promoteRetries, .requeueStalled, .fireCronJobs]

/-- The action starts a pass. -/
def StartsPass : Action Call Op Ans → Prop
  | .start call => call.operation ∈ passes
  | _ => False

/-- The action is one of a pass. -/
def OfPass : Action Call Op Ans → Prop
  | .start call => call.operation ∈ passes
  | .call _ call _ _ => call.operation ∈ passes
  | .outside => False

namespace Process

/-- A server and a scheduler after `Start`. -/
def begin (w : World) : Process := ⟨idle w, Scheduler.start {}⟩

/-- The server takes a turn, other than to start a pass, or the scheduler does. -/
inductive Turns (lib : Externals) (H : Semantics Op Ans World) (outside : World → World → Prop) :
    Process → Process → Prop
  | serve {p : Process} {a : Action Call Op Ans} {c : Server} :
      Turn H (Call.program lib) outside p.server a c → ¬ StartsPass a →
      Turns lib H outside p { p with server := c }
  | schedule {p : Process} {act : SchedulerAction} {s : Scheduler} :
      p.scheduler.step p.server act = some s →
      Turns lib H outside p ⟨p.server.starting lib (p.scheduler.starts act), s⟩

abbrev Runs (lib : Externals) (H : Semantics Op Ans World) (outside : World → World → Prop) :
    Process → Process → Prop := ReflTransGen (Turns lib H outside)

end Process

/-! ## What a step changes -/

namespace Scheduler

variable {c : Server} {s s' : Scheduler} {act : SchedulerAction}

/-- The steps of the scheduler, one by one. -/
inductive Moves (c : Server) (s : Scheduler) : SchedulerAction → Scheduler → Prop
  | tick {i : Nat} {l : Loop} : s.loops[i]? = some l → l.phase ≠ .returned →
      Moves c s (.tick i) { s with loops := s.loops.set i { l with ticked := true } }
  | pass {i : Nat} {l : Loop} : s.loops[i]? = some l → l.phase = .selecting → l.ticked = true →
      Moves c s (.pass i) { s with
        loops := s.loops.set i { l with phase := .passing c.threads.length, ticked := false } }
  | passed {i n : Nat} {l : Loop} : s.loops[i]? = some l → l.phase = .passing n →
      c.replied n = true →
      Moves c s (.passed i) { s with loops := s.loops.set i { l with phase := .selecting } }
  | quit {i : Nat} {l : Loop} : s.loops[i]? = some l → l.phase = .selecting → s.stop = true →
      Moves c s (.quit i) { s with
        loops := s.loops.set i { l with phase := .returned }
        wg := s.wg - 1
        panicked := s.panicked || s.wg = 0 }
  | callStop : Moves c s .callStop { s with calls := s.calls ++ [.entering] }
  | first {k : Nat} : s.calls[k]? = some .entering → s.stopOnce = .fresh →
      Moves c s (.enter k) { s.setCall k .closing with stopOnce := .running }
  | later {k : Nat} : s.calls[k]? = some .entering → s.stopOnce = .done →
      Moves c s (.enter k) (s.setCall k .waiting)
  | close {k : Nat} : s.calls[k]? = some .closing →
      Moves c s (.close k) { s.setCall k .waiting with
        stop := true, stopOnce := .done, panicked := s.panicked || s.stop }
  | leave {k : Nat} : s.calls[k]? = some .waiting → s.wg = 0 →
      Moves c s (.leave k) (s.setCall k .returned)

theorem mem_set_or_eq {α : Type} {xs : List α} {i : Nat} {x y : α} (x' : α)
    (here : xs[i]? = some x) (mem : y ∈ xs) : y ∈ xs.set i x' ∨ y = x := by
  obtain ⟨j, there⟩ := List.mem_iff_getElem?.mp mem
  by_cases same : i = j
  · subst same
    exact .inr (Option.some.inj (there.symm.trans here))
  · exact .inl (List.mem_of_getElem? ((List.getElem?_set_ne same).trans there))

theorem on_eq_some {i : Nat} {f : Loop → Option Loop} : s.on i f = some s' ↔
    ∃ l l', s.loops[i]? = some l ∧ f l = some l' ∧ { s with loops := s.loops.set i l' } = s' := by
  simp [on, Option.bind_eq_some_iff, Option.map_eq_some_iff]

theorem moves_of_step (taken : s.step c act = some s') : s.Moves c act s' := by
  cases act with
  | tick i =>
    obtain ⟨l, l', here, moved, rfl⟩ := on_eq_some.mp taken
    unfold Loop.tick at moved
    split at moved
    · cases moved
    · cases moved
      exact .tick here ‹_›
  | pass i =>
    obtain ⟨l, l', here, moved, rfl⟩ := on_eq_some.mp taken
    unfold Loop.pass at moved
    split at moved
    next free =>
      cases moved
      exact .pass here free.1 free.2
    · cases moved
  | passed i =>
    obtain ⟨l, l', here, moved, rfl⟩ := on_eq_some.mp taken
    unfold Loop.passed at moved
    split at moved
    next n busy =>
      split at moved
      · cases moved
        exact .passed here busy ‹_›
      · cases moved
    · cases moved
    · cases moved
  | quit i =>
    obtain ⟨s', quits, rfl⟩ := Option.map_eq_some_iff.mp taken
    obtain ⟨l, l', here, moved, rfl⟩ := on_eq_some.mp quits
    unfold Loop.quit at moved
    split at moved
    next free =>
      cases moved
      exact .quit here free.1 free.2
    · cases moved
  | callStop =>
    cases taken
    exact .callStop
  | enter k =>
    simp only [step] at taken
    split at taken
    next entering =>
      split at taken
      next fresh =>
        cases taken
        exact .first entering fresh
      · cases taken
      next done =>
        cases taken
        exact .later entering done
    · cases taken
  | close k =>
    simp only [step] at taken
    split at taken
    next closing =>
      cases taken
      exact .close closing
    · cases taken
  | leave k =>
    simp only [step] at taken
    split at taken
    next waiting =>
      cases taken
      exact .leave waiting.1 waiting.2
    · cases taken

/-! ## The scheduler by itself -/

/-- The group counts the goroutines, and one call at most closes the channel, before any other
gets past the `Once`. -/
structure Sound (s : Scheduler) : Prop where
  calm : s.panicked = false
  fns : s.loops.map (fun l => l.fn.operation) = passes
  count : s.wg = s.loops.countP Loop.live
  closed : s.stop = true ↔ s.stopOnce = .done
  closing : s.calls.count .closing = if s.stopOnce = .running then 1 else 0
  past : ∀ phase ∈ s.calls, phase = .waiting ∨ phase = .returned → s.stop = true
  quit : ∀ l ∈ s.loops, l.phase = .returned → s.stop = true
  finished : .returned ∈ s.calls → s.wg = 0

theorem Sound.start : (start {}).Sound where
  calm := rfl
  fns := rfl
  count := rfl
  closed := by decide
  closing := rfl
  past := by simp [Scheduler.start]
  quit := by simp [Scheduler.start]
  finished := by simp [Scheduler.start]

section Loops

variable {loops : List Loop} {i : Nat} {l l' : Loop}

theorem countP_live_set (l' : Loop) (here : loops[i]? = some l) :
    (loops.set i l').countP Loop.live + (if l.live then 1 else 0) =
      loops.countP Loop.live + if l'.live then 1 else 0 := by
  obtain ⟨bound, rfl⟩ := List.getElem?_eq_some_iff.mp here
  have counted : (if loops[i].live then 1 else 0) ≤ loops.countP Loop.live :=
    List.boole_getElem_le_countP bound
  rw [List.countP_set bound]
  omega

theorem map_operation_set (here : loops[i]? = some l) (fn : l'.fn = l.fn) :
    (loops.set i l').map (fun l => l.fn.operation) = loops.map fun l => l.fn.operation := by
  obtain ⟨bound, rfl⟩ := List.getElem?_eq_some_iff.mp here
  rw [List.map_set, fn]
  refine List.ext_getElem (by simp) fun j bound bound' => ?_
  rw [List.getElem_set]
  split
  next same =>
    subst same
    simp
  · rfl

end Loops

/-- A loop goes on, as alive as it was. -/
theorem Sound.loop (sound : s.Sound) {i : Nat} {l l' : Loop} (here : s.loops[i]? = some l)
    (fn : l'.fn = l.fn) (live : l.live = true) (live' : l'.live = true) :
    { s with loops := s.loops.set i l' }.Sound where
  calm := sound.calm
  fns := (map_operation_set here fn).trans sound.fns
  count := by
    have counted := countP_live_set l' here
    rw [live, live'] at counted
    exact sound.count.trans (Nat.add_right_cancel counted).symm
  closed := sound.closed
  closing := sound.closing
  past := sound.past
  quit := by
    intro m mem returned
    rcases List.mem_or_eq_of_mem_set mem with mem | rfl
    · exact sound.quit m mem returned
    · simp [Loop.live, returned] at live'
  finished := sound.finished

theorem Sound.quits (sound : s.Sound) {i : Nat} {l l' : Loop} (here : s.loops[i]? = some l)
    (fn : l'.fn = l.fn) (live : l.live = true) (ended : l'.live = false)
    (stopped : s.stop = true) :
    { s with
      loops := s.loops.set i l'
      wg := s.wg - 1
      panicked := s.panicked || s.wg = 0 }.Sound := by
  have counted : (s.loops.set i l').countP Loop.live + 1 = s.wg := by
    have counted := countP_live_set l' here
    simpa [live, ended, sound.count] using counted
  exact
    { calm := by
        have left : s.wg ≠ 0 := by omega
        simp [sound.calm, left]
      fns := (map_operation_set here fn).trans sound.fns
      count := by
        show s.wg - 1 = (s.loops.set i l').countP Loop.live
        omega
      closed := sound.closed
      closing := sound.closing
      past := sound.past
      quit := fun _ _ _ => stopped
      finished := fun returned => by
        have done := sound.finished returned
        omega }

section Calls

variable {k : Nat} {phase phase' : StopPhase}

theorem count_closing_set (phase' : StopPhase) (here : s.calls[k]? = some phase) :
    (s.setCall k phase').calls.count .closing + (if phase = .closing then 1 else 0) =
      s.calls.count .closing + if phase' = .closing then 1 else 0 := by
  obtain ⟨bound, rfl⟩ := List.getElem?_eq_some_iff.mp here
  have counted : (if s.calls[k] == StopPhase.closing then 1 else 0) ≤ s.calls.count .closing :=
    List.boole_getElem_le_countP (p := (· == StopPhase.closing)) bound
  rw [setCall, List.count_set bound]
  simp only [beq_iff_eq] at counted ⊢
  omega

theorem mem_setCall (mem : phase ∈ (s.setCall k phase').calls) : phase ∈ s.calls ∨ phase = phase' :=
  List.mem_or_eq_of_mem_set mem

/-- A call of `Stop` is past the `Once`, or all goroutines have ended. -/
theorem Sound.setCall (sound : s.Sound) (here : s.calls[k]? = some phase)
    (unclosing : phase ≠ .closing) (unclosing' : phase' ≠ .closing)
    (past : phase' = .waiting ∨ phase' = .returned → s.stop = true)
    (finished : phase' = .returned → s.wg = 0) : (s.setCall k phase').Sound where
  calm := sound.calm
  fns := sound.fns
  count := sound.count
  closed := sound.closed
  closing := by
    have counted := count_closing_set phase' here
    rw [if_neg unclosing, if_neg unclosing'] at counted
    exact (Nat.add_right_cancel counted).trans sound.closing
  past := by
    rintro phase mem waits
    rcases mem_setCall mem with mem | rfl
    · exact sound.past phase mem waits
    · exact past waits
  quit := sound.quit
  finished := by
    intro mem
    rcases mem_setCall mem with mem | same
    · exact sound.finished mem
    · exact finished same.symm

end Calls

/-- Every step leaves the scheduler sound. -/
theorem Moves.sound (moves : s.Moves c act s') (sound : s.Sound) : s'.Sound := by
  cases moves with
  | tick here live => exact sound.loop here (by rfl) (decide_eq_true live) (decide_eq_true live)
  | pass here free =>
    exact sound.loop here (by rfl) (by simp [Loop.live, free]) (by simp [Loop.live])
  | passed here busy =>
    exact sound.loop here (by rfl) (by simp [Loop.live, busy]) (by simp [Loop.live])
  | quit here free stopped =>
    exact sound.quits here (by rfl) (by simp [Loop.live, free]) (by simp [Loop.live]) stopped
  | callStop =>
    exact
      { sound with
        closing := by simpa using sound.closing
        past := by
          intro phase mem waits
          rcases List.mem_append.mp mem with mem | mem
          · exact sound.past phase mem waits
          · obtain rfl := List.mem_singleton.mp mem
            simp at waits
        finished := fun mem => sound.finished (by simpa using mem) }
  | @first k here fresh =>
    have unclosed : s.stop ≠ true := by simp [sound.closed, fresh]
    have none : s.calls.count .closing = 0 := by simp [sound.closing, fresh]
    exact
      { sound with
        closed := by simp [unclosed, setCall]
        closing := by simpa [none] using count_closing_set .closing here
        past := by
          intro phase mem waits
          rcases mem_setCall mem with mem | rfl
          · exact sound.past phase mem waits
          · simp at waits
        finished := fun mem => sound.finished ((mem_setCall mem).resolve_right (by simp)) }
  | @later k here done =>
    exact sound.setCall here (by simp) (by simp) (fun _ => sound.closed.mpr done) (by simp)
  | @close k here =>
    have running : s.stopOnce = .running := by
      by_contra other
      have none : s.calls.count .closing = 0 := by simp [sound.closing, other]
      exact List.count_eq_zero.mp none (List.mem_of_getElem? here)
    have unclosed : s.stop = false := by simpa [running] using sound.closed
    exact
      { calm := by simp [sound.calm, unclosed]
        fns := sound.fns
        count := sound.count
        closed := by simp
        closing := by
          have counted := count_closing_set .waiting here
          simpa [sound.closing, running] using counted
        past := fun _ _ _ => rfl
        quit := fun _ _ _ => rfl
        finished := fun mem => sound.finished ((mem_setCall mem).resolve_right (by simp)) }
  | @leave k here done =>
    exact sound.setCall here (by simp) (by simp)
      (fun _ => sound.past .waiting (List.mem_of_getElem? here) (.inl rfl)) fun _ => done

end Scheduler

/-! ## The scheduler and its server -/

/-- The thread is in the operation, with calls still to make. -/
def Server.Busy (c : Server) (n : Nat) (op : Operation) : Prop :=
  ∃ call o next, c.threads[n]? = some (call, .call o next) ∧ call.operation = op

namespace Process

variable {lib : Externals} {H : Semantics Op Ans World} {outside : World → World → Prop}
variable {p q : Process} {c d : Server} {n : Nat} {op : Operation}

/-- Each pass that runs is the pass of a loop that waits for it. -/
structure Sound (p : Process) : Prop where
  scheduler : p.scheduler.Sound
  known : ∀ l ∈ p.scheduler.loops, ∀ n, l.phase = .passing n → n < p.server.threads.length
  busy : ∀ n, ∀ op ∈ passes, p.server.Busy n op →
    ∃ l ∈ p.scheduler.loops, l.fn.operation = op ∧ l.phase = .passing n

theorem not_busy_of_replied (replied : c.replied n = true) : ¬ c.Busy n op := by
  rintro ⟨call, o, next, here, -⟩
  simp [Server.replied, here] at replied

/-- A thread that is busy after an operation has started was so before, or is the new one. -/
theorem busy_of_started {call : Call} {prog : Prog Reply} {log : List (Action Call Op Ans)}
    (busy : Server.Busy ⟨c.state, c.threads ++ [(call, prog)], log⟩ n op) :
    c.Busy n op ∨ n = c.threads.length ∧ call.operation = op := by
  obtain ⟨label, o, next, here, rfl⟩ := busy
  rcases Nat.lt_trichotomy n c.threads.length with old | rfl | beyond
  · exact .inl ⟨label, o, next, (List.getElem?_append_left old).symm.trans here, rfl⟩
  · have same : call = label := (by simpa using here : _ ∧ _).1
    exact .inr ⟨rfl, congrArg Call.operation same⟩
  · have outside : (c.threads ++ [(call, prog)]).length ≤ n := by simp; omega
    cases (List.getElem?_eq_none outside).symm.trans here

/-- A turn of the server starts no pass by itself. -/
theorem busy_of_turn {a : Action Call Op Ans} (turn : Turn H (Call.program lib) outside c a d)
    (unstarted : ¬ StartsPass a) (pass : op ∈ passes) (busy : d.Busy n op) : c.Busy n op := by
  cases turn with
  | start label =>
    refine (busy_of_started busy).resolve_right ?_
    rintro ⟨-, rfl⟩
    exact unstarted pass
  | @call i label o' next' r t running step =>
    obtain ⟨call, o, next, here, rfl⟩ := busy
    by_cases same : i = n
    · subst same
      obtain ⟨bound, -⟩ := List.getElem?_eq_some_iff.mp running
      have kept : label = call := by
        simp only [List.getElem?_set_self bound, Option.some.injEq, Prod.mk.injEq] at here
        exact here.1
      exact ⟨label, o', next', running, congrArg Call.operation kept⟩
    · exact ⟨call, o, next, (List.getElem?_set_ne same).symm.trans here, rfl⟩
  | outside => exact busy

theorem length_of_turn {a : Action Call Op Ans} (turn : Turn H (Call.program lib) outside c a d) :
    c.threads.length ≤ d.threads.length := by
  cases turn <;> simp

theorem length_starting (call : Option Call) :
    c.threads.length ≤ (c.starting lib call).threads.length := by
  cases call <;> simp [Server.starting]

/-- A loop waits for a thread that is there. -/
theorem known_of_moves {act : SchedulerAction} {s s' : Scheduler} (moves : s.Moves c act s')
    (known : ∀ l ∈ s.loops, ∀ n, l.phase = .passing n → n < c.threads.length) :
    ∀ l ∈ s'.loops, ∀ n, l.phase = .passing n →
      n < (c.starting lib (s.starts act)).threads.length := by
  have kept {l : Loop} (mem : l ∈ s.loops) {n : Nat} (passing : l.phase = .passing n) :
      n < (c.starting lib (s.starts act)).threads.length :=
    (known l mem n passing).trans_le (length_starting _)
  intro l mem n passing
  cases moves with
  | callStop | first | later | close | leave => exact kept mem passing
  | tick here =>
    rcases List.mem_or_eq_of_mem_set mem with mem | rfl
    · exact kept mem passing
    · exact kept (List.mem_of_getElem? here) passing
  | pass here =>
    rcases List.mem_or_eq_of_mem_set mem with mem | rfl
    · exact kept mem passing
    · cases passing
      simp [Server.starting, Scheduler.starts, here]
  | passed | quit =>
    rcases List.mem_or_eq_of_mem_set mem with mem | rfl
    · exact kept mem passing
    · cases passing

theorem Turns.sound (turns : Turns lib H outside p q) (sound : p.Sound) : q.Sound := by
  cases turns with
  | serve turn unstarted =>
    exact ⟨sound.scheduler,
      fun l mem n passing => (sound.known l mem n passing).trans_le (length_of_turn turn),
      fun n op pass busy => sound.busy n op pass (busy_of_turn turn unstarted pass busy)⟩
  | @schedule act s taken =>
    have moves := Scheduler.moves_of_step taken
    refine ⟨moves.sound sound.scheduler, known_of_moves moves sound.known,
      fun n op pass busy => ?_⟩
    -- the loop that waits for a pass that was running before waits for it still
    have waits {i : Nat} {l l' : Loop} (here : p.scheduler.loops[i]? = some l)
        (same : l.phase = .passing n → l'.fn = l.fn ∧ l'.phase = l.phase)
        (before : p.server.Busy n op) :
        ∃ m ∈ p.scheduler.loops.set i l', m.fn.operation = op ∧ m.phase = .passing n := by
      obtain ⟨m, mem, fn, passing⟩ := sound.busy n op pass before
      rcases Scheduler.mem_set_or_eq l' here mem with kept | rfl
      · exact ⟨m, kept, fn, passing⟩
      · obtain ⟨fn', phase⟩ := same passing
        obtain ⟨bound, -⟩ := List.getElem?_eq_some_iff.mp here
        exact ⟨l', List.mem_set bound l', fn' ▸ fn, phase.trans passing⟩
    cases moves with
    | tick here live => exact waits here (fun _ => ⟨rfl, rfl⟩) busy
    | @pass i l here free ticked =>
      simp only [Server.starting, Scheduler.starts, here, Option.map_some] at busy
      rcases busy_of_started busy with before | ⟨rfl, fn⟩
      · exact waits here (fun passing => absurd (free.symm.trans passing) (by simp)) before
      · obtain ⟨bound, -⟩ := List.getElem?_eq_some_iff.mp here
        exact ⟨_, List.mem_set bound _, fn, rfl⟩
    | @passed i m l here passing replied =>
      refine waits here (fun passing' => ?_) busy
      obtain rfl : m = n := by simpa [passing] using passing'
      exact absurd busy (not_busy_of_replied replied)
    | quit here free =>
      exact waits here (fun passing => absurd (free.symm.trans passing) (by simp)) busy
    | callStop | first | later | close | leave => exact sound.busy n op pass busy

theorem Runs.sound (run : Runs lib H outside p q) (sound : p.Sound) : q.Sound := by
  induction run with
  | refl => exact sound
  | tail _ turns ih => exact turns.sound ih

theorem Sound.begin (w : World) : (begin w).Sound where
  scheduler := .start
  known := by simp [Process.begin, Scheduler.start]
  busy := by
    rintro n op - ⟨call, o, next, here, -⟩
    cases here

/-- At most one pass of a kind runs. -/
theorem Sound.one_pass (sound : p.Sound) (pass : op ∈ passes) {m : Nat}
    (busy : p.server.Busy n op) (busy' : p.server.Busy m op) : n = m := by
  obtain ⟨l, mem, fn, passing⟩ := sound.busy n op pass busy
  obtain ⟨l', mem', fn', passing'⟩ := sound.busy m op pass busy'
  have distinct : (p.scheduler.loops.map fun l => l.fn.operation).Nodup := by
    rw [sound.scheduler.fns]
    decide
  obtain rfl := List.inj_on_of_nodup_map distinct mem mem' (fn.trans fn'.symm)
  simpa [passing] using passing'

/-! ## After `Stop` -/

/-- Once a call of `Stop` has returned no goroutine is left. -/
theorem Sound.ended (sound : p.Sound) (returned : .returned ∈ p.scheduler.calls) {l : Loop}
    (mem : l ∈ p.scheduler.loops) : l.phase = .returned := by
  have none : p.scheduler.loops.countP Loop.live = 0 :=
    sound.scheduler.count.symm.trans (sound.scheduler.finished returned)
  simpa [Loop.live] using List.countP_eq_zero.mp none l mem

theorem Sound.silent (sound : p.Sound) (returned : .returned ∈ p.scheduler.calls)
    (pass : op ∈ passes) : ¬ p.server.Busy n op := by
  intro busy
  obtain ⟨l, mem, -, passing⟩ := sound.busy n op pass busy
  cases (sound.ended returned mem).symm.trans passing

theorem returned_of_moves {act : SchedulerAction} {s s' : Scheduler} (moves : s.Moves c act s')
    (returned : .returned ∈ s.calls) : .returned ∈ s'.calls := by
  have stays {k : Nat} {phase phase' : StopPhase} (here : s.calls[k]? = some phase)
      (other : phase ≠ .returned) : .returned ∈ (s.setCall k phase').calls :=
    (Scheduler.mem_set_or_eq _ here returned).resolve_right (Ne.symm other)
  cases moves with
  | tick | pass | passed | quit => exact returned
  | callStop => exact List.mem_append_left _ returned
  | first here | later here | close here | leave here => exact stays here (by simp)

/-- After a call of `Stop` has returned no turn is one of a pass. -/
theorem Turns.after_stop (turns : Turns lib H outside p q) (sound : p.Sound)
    (returned : .returned ∈ p.scheduler.calls) : .returned ∈ q.scheduler.calls ∧
      ∃ more, q.server.log = p.server.log ++ more ∧ ∀ a ∈ more, ¬ OfPass a := by
  cases turns with
  | @serve a c turn unstarted =>
    refine ⟨returned, [a], ?_, List.forall_mem_singleton.mpr fun ofPass => ?_⟩
    · cases turn <;> rfl
    · cases turn with
      | start => exact unstarted ofPass
      | call running => exact sound.silent returned ofPass ⟨_, _, _, running, rfl⟩
      | outside => exact ofPass
  | @schedule act s taken =>
    have moves := Scheduler.moves_of_step taken
    refine ⟨returned_of_moves moves returned, [], ?_, by simp⟩
    cases moves with
    | pass here free =>
      cases free.symm.trans (sound.ended returned (List.mem_of_getElem? here))
    | tick | passed | quit | callStop | first | later | close | leave =>
      simp [Server.starting, Scheduler.starts]

theorem Runs.after_stop (run : Runs lib H outside p q) (sound : p.Sound)
    (returned : .returned ∈ p.scheduler.calls) :
    ∃ more, q.server.log = p.server.log ++ more ∧ ∀ a ∈ more, ¬ OfPass a := by
  suffices both : .returned ∈ q.scheduler.calls ∧
      ∃ more, q.server.log = p.server.log ++ more ∧ ∀ a ∈ more, ¬ OfPass a from both.2
  induction run with
  | refl => exact ⟨returned, [], by simp, by simp⟩
  | @tail q r before turns ih =>
    obtain ⟨returned', more, logged, quiet⟩ := ih
    obtain ⟨returned'', more', logged', quiet'⟩ :=
      turns.after_stop (Runs.sound before sound) returned'
    refine ⟨returned'', more ++ more', by rw [logged', logged, List.append_assoc], ?_⟩
    exact fun a mem => (List.mem_append.mp mem).elim (quiet a) (quiet' a)

/-- The server by itself runs as it does when its passes may start at any time. -/
theorem Turns.interleaves (turns : Turns lib H outside p q) :
    Interleaves H (Call.program lib) outside (fun _ _ => True) p.server q.server := by
  cases turns with
  | serve turn => exact Interleaves.refl.tail trivial turn
  | schedule =>
    unfold Server.starting
    split
    · exact Interleaves.refl.tail trivial (.start _)
    · exact .refl

theorem Runs.interleaves (run : Runs lib H outside p q) :
    Interleaves H (Call.program lib) outside (fun _ _ => True) p.server q.server := by
  induction run with
  | refl => exact .refl
  | tail _ turns ih => exact ih.trans turns.interleaves

/-- However the passes, the requests and the calls of `Stop` interleave, the server runs as one
that starts its operations freely, but no pass runs twice at a time, nothing panics, and once a
call of `Stop` has returned no pass makes a call any more. -/
theorem passes_until_stop {w : World} (run : Runs lib H outside (begin w) p) :
    Interleaves H (Call.program lib) outside (fun _ _ => True) (idle w) p.server ∧
    p.scheduler.panicked = false ∧
    (∀ op ∈ passes, ∀ n m, p.server.Busy n op → p.server.Busy m op → n = m) ∧
    (.returned ∈ p.scheduler.calls → (∀ op ∈ passes, ∀ n, ¬ p.server.Busy n op) ∧
      ∀ q, Runs lib H outside p q → ∃ more, q.server.log = p.server.log ++ more ∧
        ∀ a ∈ more, ¬ OfPass a) := by
  have sound : p.Sound := Runs.sound run (.begin w)
  refine ⟨Runs.interleaves run, sound.scheduler.calm, fun op pass n m => sound.one_pass pass,
    fun returned => ⟨?_, ?_⟩⟩
  · exact fun op pass n => sound.silent returned pass
  · exact fun q later => Runs.after_stop later sound returned

/-! ## Schedules -/

instance : (a : Action Call Op Ans) → Decidable (StartsPass a)
  | .start call => inferInstanceAs (Decidable (call.operation ∈ passes))
  | .call _ _ _ _ => isFalse id
  | .outside => isFalse id

/-- What to do next: the server does something, or the scheduler. -/
inductive Cue where
  | server (pick : Pick)
  | scheduler (act : SchedulerAction)

/-- Follow the cues, as long as they can be followed. -/
def play (p : Process) : List Cue → Option Process
  | [] => some p
  | .server pick :: rest =>
      (playPick (fun _ a => ¬ StartsPass a) p.server pick).bind fun c =>
        play { p with server := c } rest
  | .scheduler act :: rest =>
      (p.scheduler.step p.server act).bind fun s =>
        play ⟨p.server.starting sample (p.scheduler.starts act), s⟩ rest

theorem runs_of_server (run : Concurrent.Runs sample (fun _ a => ¬ StartsPass a) c d)
    (s : Scheduler) : Runs sample serves TimePasses ⟨c, s⟩ ⟨d, s⟩ := by
  induction run with
  | refl => exact .refl
  | tail _ unstarted turn ih => exact ih.tail (.serve turn unstarted)

theorem runs_of_play {cues : List Cue} (h : play p cues = some q) :
    Runs sample serves TimePasses p q := by
  induction cues generalizing p with
  | nil =>
    cases h
    exact .refl
  | cons cue rest ih =>
    cases cue with
    | server pick =>
      obtain ⟨c, picked, h⟩ := Option.bind_eq_some_iff.mp h
      have played : Concurrent.play (fun _ a => ¬ StartsPass a) [pick] p.server = some c := by
        simp [Concurrent.play, picked]
      exact (runs_of_server (Concurrent.runs_of_play played) p.scheduler).trans (ih h)
    | scheduler act =>
      obtain ⟨s, taken, h⟩ := Option.bind_eq_some_iff.mp h
      exact .head (.schedule taken) (ih h)

def postponedMail : Job :=
  { id := "job-1", queue := "mails", scheduledAt := "2026-01-01T00:00:30.000Z" }

/-- `Stop` is called twice while `PromoteScheduled` promotes a job. -/
def stoppedTwice : List Cue :=
  [.server (.start (.push postponedMail)), .server (.calls 0 20), .server (.wait 31),
    .scheduler (.tick 0), .scheduler (.pass 0), .server (.calls 1 3), .scheduler .callStop,
    .scheduler (.enter 0), .scheduler .callStop, .scheduler (.close 0), .scheduler (.enter 1),
    .scheduler (.quit 3), .scheduler (.quit 2), .scheduler (.quit 1), .server (.calls 1 20),
    .scheduler (.passed 0), .scheduler (.quit 0), .scheduler (.leave 1), .scheduler (.leave 0)]

/-- A job is fetched after that. -/
def fetchedLast : List Cue :=
  [.server (.start (.fetch ["mails"] 1 "worker-1" 0)), .server (.calls 2 20)]

theorem passes_until_stop_stoppedTwice : ∃ p q,
    Runs sample serves TimePasses (begin (World.start (Sample.instant 0))) p ∧
    Runs sample serves TimePasses p q ∧ p.scheduler.calls = [.returned, .returned] ∧
    ∃ more, q.server.log = p.server.log ++ more ∧ more.length = 14 ∧ ∀ a ∈ more, ¬ OfPass a := by
  have facts : ((play (begin (World.start (Sample.instant 0))) stoppedTwice).bind fun p =>
      (play p fetchedLast).map fun q =>
        (p.scheduler.calls, q.server.log.length - p.server.log.length)) =
      some ([.returned, .returned], 14) := by decide
  obtain ⟨p, plays, facts⟩ := Option.bind_eq_some_iff.mp facts
  obtain ⟨q, plays', facts⟩ := Option.map_eq_some_iff.mp facts
  obtain ⟨returned, length⟩ := Prod.mk.inj facts
  have run := runs_of_play plays
  have later := runs_of_play plays'
  obtain ⟨-, -, -, quiet⟩ := passes_until_stop run
  obtain ⟨more, logged, unpassed⟩ := (quiet (returned ▸ by simp)).2 q later
  refine ⟨p, q, run, later, returned, more, logged, ?_, unpassed⟩
  rwa [logged, List.length_append, Nat.add_sub_cancel_left] at length

/-! ## `Stop` gets through -/

section Progress

variable (lib outside) (answers : ∀ w op, ∃ r t, H.step w op r t)

include answers in
/-- A thread can run to its end. -/
theorem exists_replied {label : Call} {prog : Prog Reply}
    (here : p.server.threads[n]? = some (label, prog)) : ∃ q, Runs lib H outside p q ∧
      q.scheduler = p.scheduler ∧ q.server.replied n = true := by
  induction prog generalizing p with
  | pure reply => exact ⟨p, .refl, rfl, by simp [Server.replied, here]⟩
  | call o next ih =>
    obtain ⟨r, t, step⟩ := answers p.server.state o
    obtain ⟨bound, -⟩ := List.getElem?_eq_some_iff.mp here
    obtain ⟨q, run, same, replied⟩ := ih r
      (p := { p with server := ⟨t, p.server.threads.set n (label, next r),
        p.server.log ++ [.call n label o r]⟩ })
      (List.getElem?_set_self bound)
    exact ⟨q, .head (.serve (.call here step) id) run, same, replied⟩

theorem exists_quit_of_selecting {i : Nat} {l : Loop} (here : p.scheduler.loops[i]? = some l)
    (free : l.phase = .selecting) (stopped : p.scheduler.stop = true) :
    ∃ q, Runs lib H outside p q ∧ q.scheduler.stop = true ∧
      q.scheduler.calls = p.scheduler.calls ∧ q.scheduler.wg = p.scheduler.wg - 1 := by
  have quits : p.scheduler.step p.server (.quit i) = some { p.scheduler with
      loops := p.scheduler.loops.set i { l with phase := .returned }
      wg := p.scheduler.wg - 1
      panicked := p.scheduler.panicked || p.scheduler.wg = 0 } := by
    simp only [Scheduler.step, Scheduler.on, here, Option.bind_some, Loop.quit, free, stopped,
      and_self, ↓reduceIte, Option.map_some]
  exact ⟨_, .single (.schedule quits), stopped, rfl, rfl⟩

include answers in
/-- A goroutine ends when its pass has: it may always see the closed channel next. -/
theorem exists_quit (sound : p.Sound) (stopped : p.scheduler.stop = true) {i : Nat} {l : Loop}
    (here : p.scheduler.loops[i]? = some l) (live : l.phase ≠ .returned) :
    ∃ q, Runs lib H outside p q ∧ q.scheduler.stop = true ∧
      q.scheduler.calls = p.scheduler.calls ∧ q.scheduler.wg = p.scheduler.wg - 1 := by
  cases phase : l.phase with
  | returned => exact absurd phase live
  | selecting => exact exists_quit_of_selecting lib outside here phase stopped
  | passing n =>
    have bound := sound.known l (List.mem_of_getElem? here) n phase
    obtain ⟨m, run, same, replied⟩ := exists_replied lib outside answers
      (List.getElem?_eq_getElem bound)
    have back : m.scheduler.step m.server (.passed i) = some { m.scheduler with
        loops := m.scheduler.loops.set i { l with phase := .selecting } } := by
      simp only [Scheduler.step, Scheduler.on, same, here, Option.bind_some, Loop.passed, phase,
        replied, ↓reduceIte, Option.map_some]
    obtain ⟨bound', -⟩ := List.getElem?_eq_some_iff.mp here
    obtain ⟨q, run', stopped', calls, left⟩ := exists_quit_of_selecting lib outside (H := H)
      (i := i) (l := { l with phase := .selecting })
      (p := ⟨m.server.starting lib none, { m.scheduler with
        loops := m.scheduler.loops.set i { l with phase := .selecting } }⟩)
      (by rw [same]; exact List.getElem?_set_self bound') rfl (by rw [same]; exact stopped)
    refine ⟨q, (run.tail (.schedule back)).trans run', stopped', calls.trans ?_, left.trans ?_⟩
    · rw [same]
    · rw [same]

include answers in
/-- All goroutines can end once the channel is closed. -/
theorem exists_ended (sound : p.Sound) (stopped : p.scheduler.stop = true) :
    ∃ q, Runs lib H outside p q ∧ q.scheduler.stop = true ∧
      q.scheduler.calls = p.scheduler.calls ∧ q.scheduler.wg = 0 := by
  induction left : p.scheduler.wg generalizing p with
  | zero => exact ⟨p, .refl, stopped, rfl, left⟩
  | succ n ih =>
    obtain ⟨l, mem, live⟩ : ∃ l ∈ p.scheduler.loops, l.live = true :=
      List.countP_pos_iff.mp (by rw [← sound.scheduler.count, left]; exact n.succ_pos)
    obtain ⟨i, here⟩ := List.mem_iff_getElem?.mp mem
    obtain ⟨m, run, stopped', calls, fewer⟩ := exists_quit lib outside answers sound stopped
      here (of_decide_eq_true live)
    obtain ⟨q, run', stopped'', calls', done⟩ := ih (Runs.sound run sound) stopped'
      (by rw [fewer, left, Nat.add_sub_cancel])
    exact ⟨q, run.trans run', stopped'', calls'.trans calls, done⟩

/-- The first call of `Stop` can close the channel. -/
theorem exists_closed (sound : p.Sound) {k : Nat} (called : k < p.scheduler.calls.length) :
    ∃ q, Runs lib H outside p q ∧ q.scheduler.stop = true ∧
      k < q.scheduler.calls.length := by
  have closes {p : Process} {j : Nat} (here : p.scheduler.calls[j]? = some .closing)
      (called : k < p.scheduler.calls.length) : ∃ q, Runs lib H outside p q ∧
        q.scheduler.stop = true ∧ k < q.scheduler.calls.length :=
    have taken : p.scheduler.step p.server (.close j) = some { p.scheduler.setCall j .waiting with
        stop := true
        stopOnce := .done
        panicked := p.scheduler.panicked || p.scheduler.stop } := by
      simp only [Scheduler.step, here, ↓reduceIte]
    ⟨_, .single (.schedule taken), rfl, by simpa [Scheduler.setCall] using called⟩
  cases once : p.scheduler.stopOnce with
  | done => exact ⟨p, .refl, sound.scheduler.closed.mpr once, called⟩
  | running =>
    have one : 0 < p.scheduler.calls.count .closing := by simp [sound.scheduler.closing, once]
    obtain ⟨j, here⟩ := List.mem_iff_getElem?.mp (List.count_pos_iff.mp one)
    exact closes here called
  | fresh =>
    have unclosed : p.scheduler.stop ≠ true := by simp [sound.scheduler.closed, once]
    have entering : p.scheduler.calls[k] = .entering := by
      have mem := List.getElem_mem called
      cases phase : p.scheduler.calls[k] with
      | entering => rfl
      | closing =>
        have none : p.scheduler.calls.count .closing = 0 := by simp [sound.scheduler.closing, once]
        exact absurd (phase ▸ mem) (List.count_eq_zero.mp none)
      | waiting => exact absurd (sound.scheduler.past _ mem (.inl phase)) unclosed
      | returned => exact absurd (sound.scheduler.past _ mem (.inr phase)) unclosed
    have enters : p.scheduler.step p.server (.enter k) =
        some { p.scheduler.setCall k .closing with stopOnce := .running } := by
      simp only [Scheduler.step, List.getElem?_eq_getElem called, entering, ↓reduceIte, once]
    obtain ⟨q, run, closed, called'⟩ := closes
      (p := ⟨p.server, { p.scheduler.setCall k .closing with stopOnce := .running }⟩)
      (j := k) (List.getElem?_set_self called) (by simpa [Scheduler.setCall] using called)
    exact ⟨q, .head (.schedule enters) run, closed, called'⟩

variable {lib outside}

include answers in
/-- No call of `Stop` is ever stuck: it can return, whatever is under way, as long as the calls
that the passes make are answered. -/
theorem stop_returns {w : World} (run : Runs lib H outside (begin w) p) {k : Nat}
    (called : k < p.scheduler.calls.length) :
    ∃ q, Runs lib H outside p q ∧ q.scheduler.calls[k]? = some .returned := by
  have sound : p.Sound := Runs.sound run (.begin w)
  obtain ⟨m, run₁, stopped, called⟩ := exists_closed lib outside (H := H) sound called
  have sound₁ : m.Sound := Runs.sound run₁ sound
  obtain ⟨q, run₂, stopped, calls, ended⟩ := exists_ended lib outside answers sound₁ stopped
  have sound₂ : q.Sound := Runs.sound run₂ sound₁
  rw [← calls] at called
  have leaves {q : Process} (waiting : q.scheduler.calls[k]? = some .waiting)
      (ended : q.scheduler.wg = 0) : ∃ q', Runs lib H outside q q' ∧
        q'.scheduler.calls[k]? = some .returned := by
    obtain ⟨bound, -⟩ := List.getElem?_eq_some_iff.mp waiting
    have taken : q.scheduler.step q.server (.leave k) = some (q.scheduler.setCall k .returned) := by
      simp only [Scheduler.step, waiting, ended, and_self, ↓reduceIte]
    exact ⟨_, .single (.schedule taken), List.getElem?_set_self bound⟩
  suffices rest : ∃ q', Runs lib H outside q q' ∧ q'.scheduler.calls[k]? = some .returned by
    obtain ⟨q', run₃, returned⟩ := rest
    exact ⟨q', (run₁.trans run₂).trans run₃, returned⟩
  have done : q.scheduler.stopOnce = .done := sound₂.scheduler.closed.mp stopped
  have here := List.getElem?_eq_getElem called
  cases phase : q.scheduler.calls[k] with
  | returned => exact ⟨q, .refl, phase ▸ here⟩
  | waiting => exact leaves (phase ▸ here) ended
  | closing =>
    have none : q.scheduler.calls.count .closing = 0 := by simp [sound₂.scheduler.closing, done]
    exact absurd (phase ▸ List.getElem_mem called) (List.count_eq_zero.mp none)
  | entering =>
    have enters : q.scheduler.step q.server (.enter k) = some (q.scheduler.setCall k .waiting) := by
      simp only [Scheduler.step, here, phase, ↓reduceIte, done]
    obtain ⟨q', run, returned⟩ := leaves (q := ⟨q.server, q.scheduler.setCall k .waiting⟩)
      (List.getElem?_set_self called) ended
    exact ⟨q', .head (.schedule enters) run, returned⟩

end Progress

/-- The second call of `Stop` waits while the first one closes the channel. -/
theorem stop_returns_blocked : ∃ p q,
    Runs sample serves TimePasses (begin (World.start (Sample.instant 0))) p ∧
    p.scheduler.calls = [.closing, .entering] ∧ p.scheduler.stopOnce = .running ∧
    Runs sample serves TimePasses p q ∧ q.scheduler.calls[1]? = some .returned := by
  have facts : (play (begin (World.start (Sample.instant 0))) (stoppedTwice.take 9)).map (fun p =>
      (p.scheduler.calls, p.scheduler.stopOnce)) = some ([.closing, .entering], .running) := by
    decide
  obtain ⟨p, plays, facts⟩ := Option.map_eq_some_iff.mp facts
  obtain ⟨calls, running⟩ := Prod.mk.inj facts
  have run := runs_of_play plays
  obtain ⟨q, later, returned⟩ := stop_returns serves_answers run (k := 1) (by simp [calls])
  exact ⟨p, q, run, calls, running, later, returned⟩

end Process

end OjsNats.Concurrent
