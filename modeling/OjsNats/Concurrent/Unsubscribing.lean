import Mathlib.Data.Option.Basic
import Mathlib.Logic.Function.Basic

/-!
# Unsubscribing amid callbacks

`pubsub.go`: the callback of a subscription sends to a channel that the
unsubscribe function closes.  Nothing makes the one wait for the other.
-/

namespace OjsNats.Concurrent.PubSub

/-- Where the callback of a subscription is; NATS runs one at a time. -/
inductive Callback where
  | idle
  /-- at `json.Unmarshal`, on a message that is an event or not -/
  | decoding (event : Bool)
  /-- at the `select` -/
  | sending
  deriving DecidableEq

/-- Where the unsubscribe function is. -/
inductive Unsubscribe where
  | uncalled
  | unsubscribed
  | closed
  deriving DecidableEq

structure Subscription where
  subscribed : Bool := true
  callback : Callback := .idle
  unsubscribe : Unsubscribe := .uncalled
  deriving DecidableEq

/-- A broker; `closing` has the subscriptions that `Close` has yet to unsubscribe. -/
structure Broker (ι : Type*) where
  subscription : ι → Option Subscription := fun _ => none
  subs : List ι := []
  closing : Option (List ι) := none
  panicked : Bool := false

inductive Action (ι : Type*) where
  /-- `nc.Subscribe` -/
  | subscribe (i : ι)
  /-- the entry in `subs` -/
  | enter (i : ι)
  /-- NATS starts the callback on a message -/
  | message (i : ι) (event : Bool)
  | decode (i : ι)
  | send (i : ι)
  /-- `sub.Unsubscribe` of the unsubscribe function -/
  | unsubscribe (i : ι)
  /-- `close(ch)` -/
  | close (i : ι)
  /-- `Close`, up to its loop -/
  | closeBroker
  /-- one round of the loop -/
  | drop

section Steps

variable {ι : Type*} [DecidableEq ι]

namespace Broker

/-- The broker with another state of a subscription. -/
def set (b : Broker ι) (i : ι) (s : Subscription) : Broker ι :=
  { b with subscription := Function.update b.subscription i (some s) }

/-- A step on a subscription, as far as it can be taken. -/
def on (b : Broker ι) (i : ι) (f : Subscription → Option Subscription) : Option (Broker ι) :=
  (b.subscription i).bind fun s => (f s).map (b.set i)

end Broker

namespace Subscription

def message (event : Bool) (s : Subscription) : Option Subscription :=
  if s.subscribed ∧ s.callback = .idle then some { s with callback := .decoding event } else none

def decode (s : Subscription) : Option Subscription :=
  match s.callback with
  | .decoding true => some { s with callback := .sending }
  | .decoding false => some { s with callback := .idle }
  | .idle | .sending => none

def send (s : Subscription) : Option Subscription :=
  if s.callback = .sending then some { s with callback := .idle } else none

def doUnsubscribe (s : Subscription) : Option Subscription :=
  if s.unsubscribe = .uncalled then
    some { s with subscribed := false, unsubscribe := .unsubscribed }
  else none

def close (s : Subscription) : Option Subscription :=
  if s.unsubscribe = .unsubscribed then some { s with unsubscribe := .closed } else none

/-- `Unsubscribe` by the broker; on a subscription that has ended it does nothing. -/
def drop (s : Subscription) : Option Subscription := some { s with subscribed := false }

/-- The channel of the subscription is closed. -/
def Closed (s : Subscription) : Prop := s.unsubscribe = .closed

instance : DecidablePred Closed := fun s => inferInstanceAs (Decidable (s.unsubscribe = .closed))

/-- The callback is about to send, now or when it has decoded. -/
def Pending (s : Subscription) : Prop := s.callback = .decoding true ∨ s.callback = .sending

end Subscription

/-- The broker after an action, if it can be taken.  A send on a closed channel panics. -/
def step (b : Broker ι) : Action ι → Option (Broker ι)
  | .subscribe i => if (b.subscription i).isNone then some (b.set i {}) else none
  | .enter i =>
      -- `Close` holds the lock until its loop has ended
      if (b.subscription i).isSome ∧ b.closing.all List.isEmpty then
        some { b with subs := b.subs ++ [i] }
      else none
  | .message i event => b.on i (Subscription.message event)
  | .decode i => b.on i Subscription.decode
  | .send i =>
      (b.on i Subscription.send).map fun b' =>
        { b' with panicked := b.panicked || (b.subscription i).any fun s => decide s.Closed }
  | .unsubscribe i => b.on i Subscription.doUnsubscribe
  | .close i => b.on i Subscription.close
  | .closeBroker =>
      if b.closing.isNone then some { b with subs := [], closing := some b.subs } else none
  | .drop =>
      match b.closing with
      | some (i :: rest) =>
          (b.on i Subscription.drop).map fun b' => { b' with closing := some rest }
      | _ => none

/-- The broker after actions one after another. -/
def run (b : Broker ι) : List (Action ι) → Option (Broker ι)
  | [] => some b
  | a :: actions => (step b a).bind fun b' => run b' actions

/-- The channel is closed at a moment when its callback has nothing to send. -/
def CarefulStep (b : Broker ι) (a : Action ι) : Prop :=
  ∀ i s, a = .close i → b.subscription i = some s → ¬ s.Pending

def Careful (b : Broker ι) : List (Action ι) → Prop
  | [] => True
  | a :: actions => CarefulStep b a ∧ ∀ b', step b a = some b' → Careful b' actions

/-! ## What an action does -/

/-- The actions on a subscription. -/
inductive Turns : Action ι → ι → Subscription → Subscription → Prop
  | message {i : ι} {event : Bool} {s s' : Subscription} :
      s.message event = some s' → Turns (.message i event) i s s'
  | decode {i : ι} {s s' : Subscription} : s.decode = some s' → Turns (.decode i) i s s'
  | send {i : ι} {s s' : Subscription} : s.send = some s' → Turns (.send i) i s s'
  | unsubscribe {i : ι} {s s' : Subscription} :
      s.doUnsubscribe = some s' → Turns (.unsubscribe i) i s s'
  | close {i : ι} {s s' : Subscription} : s.close = some s' → Turns (.close i) i s s'
  | drop {i : ι} {s s' : Subscription} : s.drop = some s' → Turns .drop i s s'

variable {b b' t u : Broker ι} {a : Action ι} {actions more : List (Action ι)} {i : ι}
  {s s' : Subscription}

theorem on_eq_some {f : Subscription → Option Subscription} :
    b.on i f = some b' ↔ ∃ s s', b.subscription i = some s ∧ f s = some s' ∧ b.set i s' = b' := by
  simp [Broker.on, Option.bind_eq_some_iff, Option.map_eq_some_iff]

theorem set_subscription (j : ι) : (b.set i s).subscription j =
    if j = i then some s else b.subscription j := by
  simp [Broker.set, Function.update_apply]

/-- An action begins a subscription, takes one on, or leaves it. -/
theorem step_subscription (taken : step b a = some b') (i : ι) :
    b'.subscription i = b.subscription i ∨
      (b.subscription i = none ∧ b'.subscription i = some {}) ∨
      ∃ s s', b.subscription i = some s ∧ b'.subscription i = some s' ∧ Turns a i s s' := by
  have turned {f : Subscription → Option Subscription} {j : ι} {b' : Broker ι}
      (done : b.on j f = some b') (turns : ∀ s s', f s = some s' → Turns a j s s') :
      b'.subscription i = b.subscription i ∨
        ∃ s s', b.subscription i = some s ∧ b'.subscription i = some s' ∧ Turns a i s s' := by
    obtain ⟨s, s', here, moved, rfl⟩ := on_eq_some.mp done
    by_cases same : i = j
    · subst same
      exact .inr ⟨s, s', here, by simp [set_subscription], turns s s' moved⟩
    · exact .inl (by simp [set_subscription, same])
  cases a with
  | subscribe j =>
    simp only [step] at taken
    split at taken
    next fresh =>
      cases taken
      by_cases same : i = j
      · subst same
        exact .inr (.inl ⟨by simpa using fresh, by simp [set_subscription]⟩)
      · exact .inl (by simp [set_subscription, same])
    · cases taken
  | enter j =>
    simp only [step] at taken
    split at taken
    · cases taken
      exact .inl rfl
    · cases taken
  | message j event => exact (turned taken fun _ _ => .message).imp_right .inr
  | decode j => exact (turned taken fun _ _ => .decode).imp_right .inr
  | send j =>
    obtain ⟨b', done, rfl⟩ := Option.map_eq_some_iff.mp taken
    exact (turned done fun _ _ => .send).imp_right .inr
  | unsubscribe j => exact (turned taken fun _ _ => .unsubscribe).imp_right .inr
  | close j => exact (turned taken fun _ _ => .close).imp_right .inr
  | closeBroker =>
    simp only [step] at taken
    split at taken
    · cases taken
      exact .inl rfl
    · cases taken
  | drop =>
    simp only [step] at taken
    split at taken
    next j rest closing =>
      obtain ⟨b', done, rfl⟩ := Option.map_eq_some_iff.mp taken
      exact (turned done fun _ _ => .drop).imp_right .inr
    · cases taken

/-- Only a send on a closed channel panics. -/
theorem step_panicked (taken : step b a = some b') : b'.panicked = true ↔
    b.panicked = true ∨ ∃ i s, a = .send i ∧ b.subscription i = some s ∧ s.Closed := by
  have kept {f : Subscription → Option Subscription} {j : ι} {b' : Broker ι}
      (done : b.on j f = some b') : b'.panicked = b.panicked := by
    obtain ⟨s, s', -, -, rfl⟩ := on_eq_some.mp done
    rfl
  cases a with
  | send j =>
    obtain ⟨b', done, rfl⟩ := Option.map_eq_some_iff.mp taken
    obtain ⟨s, s', here, -⟩ := on_eq_some.mp done
    simp [here]
  | message j event => simp [kept taken]
  | decode j => simp [kept taken]
  | unsubscribe j => simp [kept taken]
  | close j => simp [kept taken]
  | drop =>
    simp only [step] at taken
    split at taken
    · obtain ⟨b', done, rfl⟩ := Option.map_eq_some_iff.mp taken
      simp [kept done]
    · cases taken
  | subscribe j =>
    simp only [step] at taken
    split at taken
    · cases taken
      simp [Broker.set]
    · cases taken
  | enter | closeBroker =>
    simp only [step] at taken
    split at taken
    · cases taken
      simp
    · cases taken

theorem sending_of_send (taken : step b (.send i) = some b') :
    ∃ s, b.subscription i = some s ∧ s.callback = .sending := by
  obtain ⟨b', done, rfl⟩ := Option.map_eq_some_iff.mp taken
  obtain ⟨s, s', here, sent, -⟩ := on_eq_some.mp done
  refine ⟨s, here, ?_⟩
  by_contra other
  simp [Subscription.send, other] at sent

/-! ## Careful runs -/

/-- The unsubscribe function ends the subscription before it closes the channel, and closes
that on nothing to send. -/
structure Subscription.Quiet (s : Subscription) : Prop where
  ended : s.unsubscribe ≠ .uncalled → s.subscribed = false
  silent : s.Closed → ¬ s.Pending

omit [DecidableEq ι] in
theorem Turns.quiet (turns : Turns a i s s') (quiet : s.Quiet)
    (careful : a = .close i → ¬ s.Pending) : s'.Quiet := by
  obtain ⟨ended, silent⟩ := quiet
  unfold Subscription.Closed Subscription.Pending at silent
  constructor
  · cases turns with
    | message moved => grind [Subscription.message]
    | decode moved => grind [Subscription.decode]
    | send moved => grind [Subscription.send]
    | unsubscribe moved => grind [Subscription.doUnsubscribe]
    | close moved => grind [Subscription.close]
    | drop moved => grind [Subscription.drop]
  · unfold Subscription.Closed Subscription.Pending
    unfold Subscription.Pending at careful
    cases turns with
    | message moved => grind [Subscription.message]
    | decode moved => grind [Subscription.decode]
    | send moved => grind [Subscription.send]
    | unsubscribe moved => grind [Subscription.doUnsubscribe]
    | close moved => grind [Subscription.close]
    | drop moved => grind [Subscription.drop]

/-- All subscriptions are quiet, and there was no panic. -/
structure Broker.Safe (b : Broker ι) : Prop where
  quiet : ∀ i s, b.subscription i = some s → s.Quiet
  calm : b.panicked = false

theorem safe_step (safe : b.Safe) (careful : CarefulStep b a)
    (taken : step b a = some b') : b'.Safe := by
  constructor
  · intro i s' here
    rcases step_subscription taken i with same | ⟨-, begun⟩ | ⟨s, s'', there, here', turns⟩
    · exact safe.quiet i s' (same ▸ here)
    · obtain rfl : s' = {} := Option.some.inj (here.symm.trans begun)
      exact ⟨fun called => absurd rfl called, fun closed => by cases closed⟩
    · obtain rfl : s' = s'' := Option.some.inj (here.symm.trans here')
      exact turns.quiet (safe.quiet i s there) fun close => careful i s close there
  · rw [← Bool.not_eq_true, step_panicked taken, safe.calm]
    rintro (panicked | ⟨i, s, rfl, here, closed⟩)
    · cases panicked
    · obtain ⟨s', there, sending⟩ := sending_of_send taken
      obtain rfl : s = s' := Option.some.inj (here.symm.trans there)
      exact (safe.quiet i s here).silent closed (.inr sending)

theorem safe_run (safe : b.Safe) (careful : Careful b actions)
    (taken : run b actions = some t) : t.Safe := by
  induction actions generalizing b with
  | nil =>
    cases taken
    exact safe
  | cons a actions ih =>
    obtain ⟨b', step, rest⟩ := Option.bind_eq_some_iff.mp taken
    exact ih (safe_step safe careful.1 step) (careful.2 b' step) rest

/-! ## Careless runs -/

/-- A send on a closed channel has happened or is to come. -/
def Broker.Doomed (b : Broker ι) : Prop :=
  b.panicked = true ∨ ∃ i s, b.subscription i = some s ∧ s.Closed ∧ s.Pending

theorem doomed_step (doomed : b.Doomed) (taken : step b a = some b') : b'.Doomed := by
  rcases doomed with panicked | ⟨i, s, here, closed, pending⟩
  · exact .inl ((step_panicked taken).mpr (.inl panicked))
  · rcases step_subscription taken i with same | ⟨none, -⟩ | ⟨s₀, s', there, moved, turns⟩
    · exact .inr ⟨i, s, same.trans here, closed, pending⟩
    · cases here.symm.trans none
    · obtain rfl : s = s₀ := Option.some.inj (here.symm.trans there)
      cases turns with
      | send => exact .inl ((step_panicked taken).mpr (.inr ⟨i, s, rfl, here, closed⟩))
      | message received =>
        unfold Subscription.Pending at pending
        grind [Subscription.message]
      | decode decoded =>
        refine .inr ⟨i, s', moved, ?_⟩
        unfold Subscription.Pending Subscription.Closed at *
        grind [Subscription.decode]
      | unsubscribe unsubscribed =>
        unfold Subscription.Closed at closed
        grind [Subscription.doUnsubscribe]
      | close closes =>
        unfold Subscription.Closed at closed
        grind [Subscription.close]
      | drop dropped =>
        cases dropped
        exact .inr ⟨i, _, moved, closed, pending⟩

theorem doomed_run (doomed : b.Doomed) (taken : run b actions = some t) : t.Doomed := by
  induction actions generalizing b with
  | nil =>
    cases taken
    exact doomed
  | cons a actions ih =>
    obtain ⟨b', step, rest⟩ := Option.bind_eq_some_iff.mp taken
    exact ih (doomed_step doomed step) rest

/-- Once a channel was closed on a callback with something to send, there is no way back. -/
theorem doomed_of_careless (careless : ¬ Careful b actions) (taken : run b actions = some t) :
    t.Doomed := by
  induction actions generalizing b with
  | nil => exact absurd trivial careless
  | cons a actions ih =>
    obtain ⟨b', step, rest⟩ := Option.bind_eq_some_iff.mp taken
    by_cases careful : CarefulStep b a
    · refine ih (fun later => careless ⟨careful, fun b'' step' => ?_⟩) rest
      obtain rfl : b' = b'' := Option.some.inj (step.symm.trans step')
      exact later
    · refine doomed_run ?_ rest
      simp only [CarefulStep, not_forall, not_not] at careful
      obtain ⟨i, s, rfl, here, pending⟩ := careful
      obtain ⟨s₀, s', there, closed, rfl⟩ := on_eq_some.mp step
      obtain rfl : s = s₀ := Option.some.inj (here.symm.trans there)
      refine .inr ⟨i, s', by simp [set_subscription], ?_⟩
      unfold Subscription.Pending Subscription.Closed at *
      grind [Subscription.close]

theorem panics_of_sending (here : b.subscription i = some s) (closed : s.Closed)
    (sending : s.callback = .sending) : ∃ u, step b (.send i) = some u ∧ u.panicked = true := by
  have sent : b.on i Subscription.send = some (b.set i { s with callback := .idle }) :=
    on_eq_some.mpr ⟨s, _, here, if_pos sending, rfl⟩
  obtain ⟨u, taken⟩ : ∃ u, step b (.send i) = some u :=
    ⟨_, Option.map_eq_some_iff.mpr ⟨_, sent, rfl⟩⟩
  exact ⟨u, taken, (step_panicked taken).mpr (.inr ⟨i, s, rfl, here, closed⟩)⟩

/-- The callback decodes and sends, and nothing closes meanwhile. -/
theorem panics_of_doomed (doomed : b.Doomed) :
    ∃ more u, Careful b more ∧ run b more = some u ∧ u.panicked = true := by
  rcases doomed with panicked | ⟨i, s, here, closed, decoding | sending⟩
  · exact ⟨[], b, trivial, rfl, panicked⟩
  · have decoded : step b (.decode i) = some (b.set i { s with callback := .sending }) :=
      on_eq_some.mpr ⟨s, _, here, by rw [Subscription.decode, decoding], rfl⟩
    have here' : (b.set i { s with callback := .sending }).subscription i =
        some { s with callback := .sending } := by
      simp [set_subscription]
    obtain ⟨u, sent, panicked⟩ := panics_of_sending here' closed rfl
    refine ⟨[.decode i, .send i], u, ?_, by simp [run, decoded, sent], panicked⟩
    exact ⟨fun _ _ => nofun, fun _ _ => ⟨fun _ _ => nofun, fun _ _ => trivial⟩⟩
  · obtain ⟨u, sent, panicked⟩ := panics_of_sending here closed sending
    refine ⟨[.send i], u, ?_, by simp [run, sent], panicked⟩
    exact ⟨fun _ _ => nofun, fun _ _ => trivial⟩

/-- A run closes no channel on a callback with something to send exactly if no careful
continuation of it, not even none at all, leads to a panic. -/
theorem careful_iff (taken : run ({} : Broker ι) actions = some t) :
    Careful {} actions ↔
      ∀ more u, Careful t more → run t more = some u → u.panicked = false := by
  constructor
  · intro careful more u later continued
    have start : ({} : Broker ι).Safe := by
      constructor
      · intro i s here
        cases here
      · rfl
    exact (safe_run (safe_run start careful taken) later continued).calm
  · intro calm
    by_contra careless
    have doomed := doomed_of_careless careless taken
    obtain ⟨more, u, careful, continued, panicked⟩ := panics_of_doomed doomed
    simp [calm more u careful continued] at panicked

end Steps

/-! ## One subscription -/

/-- A subscription that sends its event before it is unsubscribed. -/
def politely : List (Action Unit) :=
  [.subscribe (), .enter (), .message () true, .decode (), .send (), .unsubscribe (), .close ()]

/-- One that is unsubscribed between the two steps of its callback. -/
def rudely : List (Action Unit) :=
  [.subscribe (), .enter (), .message () true, .decode (), .unsubscribe (), .close (), .send ()]

/-- The broker after the actions, where they can be taken. -/
def ended (actions : List (Action Unit)) : Broker Unit := (run {} actions).getD {}

theorem careful_iff_politely :
    Careful {} politely ↔
      ∀ more u, Careful (ended politely) more → run (ended politely) more = some u →
        u.panicked = false :=
  careful_iff (show run {} politely = some (ended politely) from rfl)

/-- The callback sends on the channel that was closed meanwhile. -/
theorem not_calm :
    ¬ ∀ (actions : List (Action Unit)) (t : Broker Unit), run {} actions = some t →
      t.panicked = false := by
  intro calm
  have panicked := calm rudely (ended rudely) rfl
  revert panicked
  decide

end OjsNats.Concurrent.PubSub
