import OjsNats.Api.WebSocket

/-!
# Subscriptions of WebSocket connections

Whatever the clients send, the broker delivers and the forwarders write: a connection has
one subscription for each channel that its client last asked for, and each subscription is
cancelled once, at the latest when the connection ends.
-/

namespace OjsNats.Api

open Nats Subject

/-! ## What a client has asked for -/

/-- Whether a `subscribe` for the channel succeeds. -/
def WsAnswers.accepts (answers : WsAnswers) (channel : String) : Bool :=
  match wsChannel channel with
  | some target => (answers.found || target.notFound.isNone) && answers.granted
  | none => false

/-- Whether the client of a connection is subscribed after an action, if it is before or not. -/
def follows (i : Nat) (channel : String) (on : Bool) : WsAction → Bool
  | .receive j (some msg) answers _ =>
      if j = i ∧ msg.channel = channel then
        if msg.action = "subscribe" then on || answers.accepts channel
        else if msg.action = "unsubscribe" then false
        else on
      else on
  | _ => on

def following (i : Nat) (channel : String) (actions : List WsAction) : Bool :=
  actions.foldl (follows i channel) false

/-! ## What an action does -/

/-- What does not change of a subscription as long as it goes on. -/
def feedKey (f : Feed String EventMessage) : String × Nat × Option Nat :=
  (f.pattern, f.since, f.ended)

/-- The connection has the same subscriptions and goes on or not as before. -/
structure WsConnection.Alike (c c' : WsConnection) : Prop where
  subs : c'.subs = c.subs
  opened : c'.opened = c.opened
  returned : c'.returned = c.returned

/-- No subscription begins or ends. -/
structure WsHandler.Quiet (h h' : WsHandler) : Prop where
  feeds : ∀ n : Nat, (h'.broker.feeds[n]?).map feedKey = (h.broker.feeds[n]?).map feedKey
  cancelled : h'.cancelled = h.cancelled
  grows : h.connections.length ≤ h'.connections.length
  connections : ∀ (i : Nat) c', h'.connections[i]? = some c' →
    (∃ c, h.connections[i]? = some c ∧ c.Alike c') ∨ h.connections[i]? = none ∧ c' = {}

/-- Some subscriptions of one connection end. -/
structure WsHandler.Cancels (h : WsHandler) (i : Nat) (c c' : WsConnection)
    (gone : List (String × Nat)) (h' : WsHandler) : Prop where
  subs : c'.subs = c.subs ∧ c'.returned = true ∧ gone = c.subs ∨ c'.returned = false ∧
    ∃ channel feed, c.subs.lookup channel = some feed ∧ gone = [(channel, feed)] ∧
      c'.subs = c.subs.filter fun sub => sub.1 ≠ channel
  opened : c'.opened = c.opened
  feeds : ∀ n : Nat, h'.broker.feeds[n]? = (h.broker.feeds[n]?).map fun f =>
    if n ∈ gone.map Prod.snd then f.stop h.broker.log.length else f
  cancelled : h'.cancelled = h.cancelled ++ gone.map Prod.snd
  connections : h'.connections = h.connections.set i c'

/-- What an action does to the subscriptions. -/
inductive WsHandler.Changes (h : WsHandler) : WsAction → WsHandler → Prop
  | quiet {a : WsAction} {h' : WsHandler} : h.Quiet h' →
      (∀ (i : Nat) c channel, h.connections[i]? = some c →
        follows i channel (c.subs.lookup channel).isSome a = (c.subs.lookup channel).isSome) →
      Changes h a h'
  | subscribe {i : Nat} {c c' : WsConnection} {channel : String} {target : WsChannel}
      {answers : WsAnswers} {written : Bool} {h' : WsHandler} :
      h.connections[i]? = some c → c.returned = false → c.subs.lookup channel = none →
      wsChannel channel = some target → answers.accepts channel = true →
      h'.broker = h.broker.subscribe target.subject → h'.cancelled = h.cancelled →
      c'.subs = c.subs ++ [(channel, h.broker.feeds.length)] →
      c'.opened = c.opened ++ [(channel, h.broker.feeds.length)] → c'.returned = false →
      h'.connections = h.connections.set i c' →
      Changes h (.receive i (some ⟨"subscribe", channel⟩) answers written) h'
  | cancel {a : WsAction} {i : Nat} {c c' : WsConnection} {gone : List (String × Nat)}
      {h' : WsHandler} :
      h.connections[i]? = some c → c.returned = false → h.Cancels i c c' gone h' →
      (∀ j channel on, follows j channel on a =
        if j = i ∧ (c'.subs.lookup channel).isSome ≠ (c.subs.lookup channel).isSome then false
        else on) →
      Changes h a h'

section Changes

variable {h h' : WsHandler} {a : WsAction} {i : Nat} {c c' : WsConnection}

theorem WsConnection.Alike.refl (c : WsConnection) : c.Alike c := ⟨rfl, rfl, rfl⟩

theorem alike_write (written : Bool) (frame : WsFrame) : c.Alike (c.write written frame) := by
  unfold WsConnection.write
  split <;> exact ⟨rfl, rfl, rfl⟩

/-- One connection is replaced by one like it. -/
theorem quiet_set (at_i : h.connections[i]? = some c) (alike : c.Alike c')
    (feeds : ∀ n : Nat, (h'.broker.feeds[n]?).map feedKey = (h.broker.feeds[n]?).map feedKey)
    (cancelled : h'.cancelled = h.cancelled)
    (connections : h'.connections = h.connections.set i c') : h.Quiet h' := by
  refine ⟨feeds, cancelled, by simp [connections], fun j d at_j => .inl ?_⟩
  rw [connections, List.getElem?_set] at at_j
  split at at_j
  · rename_i same
    subst same
    split at at_j
    · cases at_j
      exact ⟨c, at_i, alike⟩
    · cases at_j
  · exact ⟨d, at_j, .refl d⟩

/-- A step of a subscription that leaves it as it is for others. -/
theorem feedKey_on {g : Feed String EventMessage → Feed String EventMessage}
    (same : ∀ f, feedKey (g f) = feedKey f) (b : Broker) (i n : Nat) :
    ((b.on i g).feeds[n]?).map feedKey = (b.feeds[n]?).map feedKey := by
  rw [Fanout.getElem?_on, Option.map_map]
  refine Option.map_congr fun f _ => ?_
  simp only [Function.comp]
  split
  · exact same f
  · rfl

theorem feedKey_callback (f : Feed String EventMessage) :
    feedKey (f.callback channelCapacity) = feedKey f := by
  unfold Feed.callback
  split
  · rfl
  · split <;> rfl

theorem feedKey_take (f : Feed String EventMessage) : feedKey f.take = feedKey f := by
  unfold Feed.take
  split <;> rfl

theorem feedKey_publish (msg : EventMessage) (b : Broker) (n : Nat) :
    ((b.publish deliversMessage msg).feeds[n]?).map feedKey = (b.feeds[n]?).map feedKey := by
  rw [Fanout.getElem?_publish, Option.map_map]
  refine Option.map_congr fun f _ => ?_
  simp only [Function.comp, Feed.publish]
  split <;> rfl

theorem cancelAll (gone : List (String × Nat)) (h : WsHandler) :
    let h' := gone.foldl (fun h sub => h.cancel sub.2) h
    h'.connections = h.connections ∧ h'.cancelled = h.cancelled ++ gone.map Prod.snd ∧
      h'.broker.log = h.broker.log ∧
      ∀ n : Nat, h'.broker.feeds[n]? = (h.broker.feeds[n]?).map fun f =>
        if n ∈ gone.map Prod.snd then f.stop h.broker.log.length else f := by
  induction gone generalizing h with
  | nil => exact ⟨rfl, by simp, rfl, fun n => by simp⟩
  | cons sub gone ih =>
    obtain ⟨connections, cancelled, log, feeds⟩ := ih (h.cancel sub.2)
    refine ⟨connections, ?_, log, fun n => ?_⟩
    · rw [List.foldl_cons, cancelled]
      simp [WsHandler.cancel]
    · have ended : (h.cancel sub.2).broker.feeds[n]? = (h.broker.feeds[n]?).map fun f =>
          if sub.2 = n then f.stop h.broker.log.length else f := Fanout.getElem?_on _ n
      rw [List.foldl_cons, feeds n, ended, Option.map_map]
      refine Option.map_congr fun f _ => ?_
      rw [show (h.cancel sub.2).broker.log = h.broker.log from rfl]
      simp only [Function.comp, List.map_cons, List.mem_cons]
      by_cases here : sub.2 = n
      · subst here
        have again : (f.stop h.broker.log.length).stop h.broker.log.length =
            f.stop h.broker.log.length := by
          cases ended : f.ended with
          | none =>
            exact Feed.stop_of_ended (t := h.broker.log.length) (by simp [Feed.ended_stop, ended])
          | some t => rw [Feed.stop_of_ended ended, Feed.stop_of_ended ended]
        simp [again]
      · have there : ¬ n = sub.2 := Ne.symm here
        simp only [if_neg here, there, false_or]

theorem handleSubscribe_changes {c : WsConnection} {channel : String} {answers : WsAnswers}
    {written : Bool} {h₁ : WsHandler} {c₁ : WsConnection} {response : WsResponse}
    (at_i : h.connections[i]? = some c) (goes : c.returned = false)
    (handled : h.handleSubscribe c channel answers = (h₁, c₁, response)) :
    h.Changes (.receive i (some ⟨"subscribe", channel⟩) answers written)
      (h₁.setConnection i (c₁.write written (.reply response))) := by
  -- a reply alone, which says what was known or that nothing comes of it
  have replies (known : (c.subs.lookup channel).isSome = true ∨ answers.accepts channel = false)
      (r : WsResponse) : h.Changes (.receive i (some ⟨"subscribe", channel⟩) answers written)
        (h.setConnection i (c.write written (.reply r))) := by
    refine .quiet (quiet_set at_i (alike_write written _) (fun _ => rfl) rfl rfl) ?_
    intro j d k at_j
    simp only [follows]
    split
    · rename_i same
      obtain ⟨rfl, rfl⟩ := same
      cases at_i.symm.trans at_j
      rcases known with there | refused
      · simp [there]
      · simp [refused]
    · rfl
  unfold WsHandler.handleSubscribe at handled
  split at handled
  · rename_i there
    cases handled
    exact replies (.inl there) _
  · rename_i fresh
    have missing : c.subs.lookup channel = none := Option.not_isSome_iff_eq_none.mp fresh
    split at handled
    · rename_i none
      cases handled
      exact replies (.inr (by simp [WsAnswers.accepts, none])) _
    · rename_i target known
      split at handled
      · rename_i message unfound
        cases handled
        refine replies (.inr ?_) _
        split at unfound
        · cases unfound
        · rename_i notFound
          simp [WsAnswers.accepts, known, notFound, unfound]
      · rename_i found
        have lookup : (answers.found || target.notFound.isNone) = true := by
          split at found
          · rename_i there
            simp [there]
          · simp [found]
        split at handled
        · rename_i granted
          cases handled
          have accepts : answers.accepts channel = true := by
            simp only [WsAnswers.accepts, known, lookup, granted, Bool.and_self]
          have alike := alike_write (c := { c with
            subs := c.subs ++ [(channel, h.broker.feeds.length)]
            opened := c.opened ++ [(channel, h.broker.feeds.length)]
            forwarders := c.forwarders ++ [(channel, h.broker.feeds.length)] }) written
            (.reply (subscribedResponse channel))
          exact .subscribe at_i goes missing known accepts rfl rfl alike.subs alike.opened
            (alike.returned.trans goes) rfl
        · rename_i refused
          cases handled
          exact replies (.inr (by simp [WsAnswers.accepts, known, refused])) _

theorem lookup_filter (subs : List (String × Nat)) (channel k : String) :
    (subs.filter fun sub => sub.1 ≠ channel).lookup k =
      if k = channel then none else subs.lookup k := by
  induction subs with
  | nil => simp
  | cons sub subs ih =>
    obtain ⟨key, feed⟩ := sub
    rw [List.filter_cons]
    by_cases gone : key = channel
    · subst gone
      rw [if_neg (by simp), ih]
      by_cases same : k = key
      · simp [same]
      · simp [same, List.lookup_cons, beq_eq_false_iff_ne.mpr same]
    · rw [if_pos (by simp [gone]), List.lookup_cons, List.lookup_cons, ih]
      by_cases same : k = key
      · simp [same, gone]
      · simp [beq_eq_false_iff_ne.mpr same]

theorem handleUnsubscribe_changes {c : WsConnection} {channel : String} {answers : WsAnswers}
    {written : Bool} {h₁ : WsHandler} {c₁ : WsConnection} {response : WsResponse}
    (at_i : h.connections[i]? = some c) (goes : c.returned = false)
    (handled : h.handleUnsubscribe c channel = (h₁, c₁, response)) :
    h.Changes (.receive i (some ⟨"unsubscribe", channel⟩) answers written)
      (h₁.setConnection i (c₁.write written (.reply response))) := by
  unfold WsHandler.handleUnsubscribe at handled
  simp only at handled
  split at handled
  · rename_i feed there
    cases handled
    obtain ⟨connections, cancelled, -, feeds⟩ := cancelAll [(channel, feed)] h
    have alike := alike_write (c := { c with subs := c.subs.filter fun sub => sub.1 ≠ channel })
      written (.reply { type := "unsubscribed", channel := channel })
    refine .cancel at_i goes (show h.Cancels i c _ [(channel, feed)] _ from
      ⟨.inr ⟨alike.returned.trans goes, channel, feed, there, rfl, alike.subs⟩, alike.opened, feeds,
        cancelled, rfl⟩) ?_
    intro j k on
    rw [alike.subs, lookup_filter]
    by_cases same : k = channel
    · subst same
      by_cases here : j = i
      · simp [follows, here, there]
      · simp [follows, here, Ne.symm here]
    · simp [follows, same, Ne.symm same]
  · rename_i missing
    cases handled
    refine .quiet (quiet_set at_i (alike_write written _) (fun _ => rfl) rfl rfl) ?_
    intro j d k at_j
    simp only [follows]
    split
    · rename_i same
      obtain ⟨rfl, rfl⟩ := same
      cases at_i.symm.trans at_j
      simp [missing]
    · rfl

theorem step_changes (taken : h.step a = some h') : h.Changes a h' := by
  have quiet {h' : WsHandler} (quiet : h.Quiet h')
      (silent : ∀ (j : Nat) k on, follows j k on a = on) : h.Changes a h' :=
    .quiet quiet fun j _ k _ => silent j k _
  cases a with
  | connect =>
    cases taken
    refine quiet ⟨fun _ => rfl, rfl, by simp, fun j d at_j => ?_⟩ fun _ _ _ => rfl
    rw [List.getElem?_append] at at_j
    split at at_j
    · exact .inl ⟨d, at_j, .refl d⟩
    · rename_i past
      rw [List.getElem?_singleton] at at_j
      split at at_j
      · cases at_j
        exact .inr ⟨List.getElem?_eq_none (Nat.le_of_not_lt past), rfl⟩
      · cases at_j
  | receive i msg answers written =>
    simp only [WsHandler.step] at taken
    split at taken
    · rename_i c at_i
      split at taken
      · cases taken
      · rename_i goes
        have goes : c.returned = false := Bool.eq_false_iff.mpr goes
        cases msg with
        | none =>
          cases taken
          exact quiet (quiet_set at_i (alike_write written _) (fun _ => rfl) rfl rfl)
            fun _ _ _ => rfl
        | some msg =>
          obtain ⟨action, channel⟩ := msg
          cases taken
          simp only [WsHandler.handleMessage]
          split
          · rename_i same
            cases same
            exact handleSubscribe_changes at_i goes rfl
          · split
            · rename_i same
              cases same
              exact handleUnsubscribe_changes at_i goes rfl
            · rename_i sub unsub
              refine quiet (quiet_set at_i (alike_write written _) (fun _ => rfl) rfl rfl) ?_
              intro j k on
              simp [follows, sub, unsub]
    · cases taken
  | disconnect i =>
    simp only [WsHandler.step] at taken
    split at taken
    · rename_i c at_i
      split at taken
      · cases taken
      · rename_i goes
        cases taken
        obtain ⟨connections, cancelled, -, feeds⟩ := cancelAll c.subs h
        refine .cancel at_i (Bool.eq_false_iff.mpr goes)
          (show h.Cancels i c { c with returned := true } c.subs _ from
            ⟨.inl ⟨rfl, rfl, rfl⟩, rfl, feeds, cancelled,
              by rw [WsHandler.setConnection, connections]⟩) ?_
        intro j k on
        simp [follows]
    · cases taken
  | publish event msg =>
    simp only [WsHandler.step] at taken
    split at taken
    · cases taken
      exact quiet ⟨feedKey_publish msg h.broker, rfl, Nat.le_refl _,
        fun j d at_j => .inl ⟨d, at_j, .refl d⟩⟩ fun _ _ _ => rfl
    · cases taken
  | callback feed =>
    cases taken
    exact quiet ⟨feedKey_on feedKey_callback h.broker feed, rfl, Nat.le_refl _,
      fun j d at_j => .inl ⟨d, at_j, .refl d⟩⟩ fun _ _ _ => rfl
  | forward i sub written =>
    simp only [WsHandler.step] at taken
    split at taken
    · rename_i c feed at_i _
      split at taken
      · split at taken
        · cases taken
          exact quiet (quiet_set at_i (alike_write written _)
            (feedKey_on feedKey_take h.broker sub.2) rfl rfl) fun _ _ _ => rfl
        · cases taken
      · cases taken
    · cases taken
  | quit i sub =>
    simp only [WsHandler.step] at taken
    split at taken
    · rename_i c feed at_i _
      split at taken
      · cases taken
        have alike : c.Alike { c with forwarders := c.forwarders.filter (· ≠ sub) } :=
          ⟨rfl, rfl, rfl⟩
        exact quiet (quiet_set at_i alike (fun _ => rfl) rfl rfl) fun _ _ _ => rfl
      · cases taken
    · cases taken

end Changes

/-! ## Who is subscribed -/

/-- What is known of the subscription with a number. -/
def WsHandler.key? (h : WsHandler) (n : Nat) : Option (String × Nat × Option Nat) :=
  (h.broker.feeds[n]?).map feedKey

/-- Of two subscriptions to one channel, the first has ended before the second began. -/
def WsHandler.Precedes (h : WsHandler) (p q : String × Nat) : Prop :=
  p.1 = q.1 → ∃ pattern since t pattern' since' t', h.key? p.2 = some (pattern, since, some t) ∧
    h.key? q.2 = some (pattern', since', t') ∧ t ≤ since'

/-- The subscriptions of the connections are those of the broker, and a subscription is
cancelled once if it is not in the map of its connection or the connection has ended. -/
structure WsHandler.Settled (h : WsHandler) : Prop where
  once : h.cancelled.Nodup
  ended : ∀ n pattern since t, h.key? n = some (pattern, since, t) →
    (t.isSome = true ↔ n ∈ h.cancelled)
  known : ∀ n ∈ h.cancelled, n < h.broker.feeds.length
  made : ∀ (i : Nat) c p, h.connections[i]? = some c → p ∈ c.opened →
    ∃ target since t, wsChannel p.1 = some target ∧ h.key? p.2 = some (target.subject, since, t)
  apart : ∀ (i j : Nat) c d p q, h.connections[i]? = some c → h.connections[j]? = some d →
    p ∈ c.opened → q ∈ d.opened → p.2 = q.2 → i = j ∧ p = q
  listed : ∀ (i : Nat) c, h.connections[i]? = some c → c.subs ⊆ c.opened
  keyed : ∀ (i : Nat) c, h.connections[i]? = some c → (c.subs.map Prod.fst).Nodup
  settled : ∀ (i : Nat) c p, h.connections[i]? = some c → p ∈ c.opened →
    (p.2 ∈ h.cancelled ↔ c.returned = true ∨ p ∉ c.subs)
  windows : ∀ (i : Nat) c, h.connections[i]? = some c → c.opened.Pairwise h.Precedes

section Settled

variable {h h' : WsHandler} {a : WsAction} {i : Nat} {c c' : WsConnection}

theorem WsHandler.Settled.idle : WsHandler.Settled {} where
  once := .nil
  ended _ _ _ _ found := by simp [WsHandler.key?] at found
  known _ mem := absurd mem List.not_mem_nil
  made _ _ _ at_i := by simp at at_i
  apart _ _ _ _ _ _ at_i := by simp at at_i
  listed _ _ at_i := by simp at at_i
  keyed _ _ at_i := by simp at at_i
  settled _ _ _ at_i := by simp at at_i
  windows _ _ at_i := by simp at at_i

theorem key?_lt {n : Nat} (found : h.key? n ≠ none) : n < h.broker.feeds.length := by
  by_contra past
  exact found (by rw [WsHandler.key?, List.getElem?_eq_none (Nat.le_of_not_lt past)]; rfl)

theorem WsHandler.Settled.quiet (s : h.Settled) (quiet : h.Quiet h') : h'.Settled := by
  have key (n : Nat) : h'.key? n = h.key? n := quiet.feeds n
  have length : h'.broker.feeds.length = h.broker.feeds.length := by
    refine Nat.le_antisymm (Nat.le_of_not_lt fun longer => ?_) (Nat.le_of_not_lt fun longer => ?_)
    · have new := key h.broker.feeds.length
      simp [WsHandler.key?, List.getElem?_eq_getElem longer] at new
    · have new := key h'.broker.feeds.length
      simp [WsHandler.key?, List.getElem?_eq_getElem longer] at new
  have before {j : Nat} {d : WsConnection} (at_j : h'.connections[j]? = some d) :
      (∃ c, h.connections[j]? = some c ∧ c.Alike d) ∨ d = {} :=
    (quiet.connections j d at_j).imp_right And.right
  refine ⟨?_, ?_, ?_, ?_, ?_, ?_, ?_, ?_, ?_⟩
  · rw [quiet.cancelled]
    exact s.once
  · intro n pattern since t found
    rw [quiet.cancelled]
    exact s.ended n pattern since t (key n ▸ found)
  · rw [quiet.cancelled, length]
    exact s.known
  · intro j d p at_j mem
    rcases before at_j with ⟨c, old, alike⟩ | rfl
    · rw [key]
      exact s.made j c p old (alike.opened ▸ mem)
    · cases mem
  · intro j k d e p q at_j at_k mem mem' same
    rcases before at_j with ⟨c, old, alike⟩ | rfl
    · rcases before at_k with ⟨c', old', alike'⟩ | rfl
      · exact s.apart j k c c' p q old old' (alike.opened ▸ mem) (alike'.opened ▸ mem') same
      · cases mem'
    · cases mem
  · intro j d at_j
    rcases before at_j with ⟨c, old, alike⟩ | rfl
    · rw [alike.subs, alike.opened]
      exact s.listed j c old
    · exact List.nil_subset _
  · intro j d at_j
    rcases before at_j with ⟨c, old, alike⟩ | rfl
    · rw [alike.subs]
      exact s.keyed j c old
    · exact .nil
  · intro j d p at_j mem
    rcases before at_j with ⟨c, old, alike⟩ | rfl
    · rw [quiet.cancelled, alike.returned, alike.subs]
      exact s.settled j c p old (alike.opened ▸ mem)
    · cases mem
  · intro j d at_j
    rcases before at_j with ⟨c, old, alike⟩ | rfl
    · rw [alike.opened]
      refine (s.windows j c old).imp fun later same => ?_
      rw [key, key]
      exact later same
    · exact .nil

theorem not_mem_of_lookup {subs : List (String × Nat)} {channel : String}
    (missing : subs.lookup channel = none) (n : Nat) : (channel, n) ∉ subs := by
  intro mem
  rw [List.lookup_eq_none_iff] at missing
  simpa using missing (channel, n) mem

/-- A subscription begins. -/
theorem WsHandler.Settled.subscribe {channel : String} {target : WsChannel} (s : h.Settled)
    (faithful : h.broker.Faithful deliversMessage) (at_i : h.connections[i]? = some c)
    (goes : c.returned = false) (missing : c.subs.lookup channel = none)
    (known : wsChannel channel = some target)
    (broker : h'.broker = h.broker.subscribe target.subject)
    (cancelled : h'.cancelled = h.cancelled)
    (subs : c'.subs = c.subs ++ [(channel, h.broker.feeds.length)])
    (opened : c'.opened = c.opened ++ [(channel, h.broker.feeds.length)])
    (returned : c'.returned = false) (connections : h'.connections = h.connections.set i c') :
    h'.Settled := by
  have key (n : Nat) : h'.key? n = if n = h.broker.feeds.length then
      some (target.subject, h.broker.log.length, none) else h.key? n := by
    rw [WsHandler.key?, broker, Fanout.getElem?_subscribe]
    split <;> rfl
  have kept {n : Nat} {x : String × Nat × Option Nat} (found : h.key? n = some x) :
      h'.key? n = some x := by
    rw [key, if_neg (Nat.ne_of_lt (key?_lt (by simp [found]))), found]
  have fresh {j : Nat} {d : WsConnection} {p : String × Nat} (at_j : h.connections[j]? = some d)
      (mem : p ∈ d.opened) : p.2 < h.broker.feeds.length := by
    obtain ⟨target, since, t, -, found⟩ := s.made j d p at_j mem
    exact key?_lt (by simp [found])
  have new : h.broker.feeds.length ∉ h.cancelled := fun mem => Nat.lt_irrefl _ (s.known _ mem)
  have before {j : Nat} {d : WsConnection} (at_j : h'.connections[j]? = some d) :
      (j = i ∧ d = c') ∨ h.connections[j]? = some d := by
    rw [connections] at at_j
    rw [List.getElem?_set] at at_j
    split at at_j
    · rename_i same
      split at at_j
      · exact .inl ⟨same.symm, (Option.some.inj at_j).symm⟩
      · cases at_j
    · exact .inr at_j
  have member {p : String × Nat} (mem : p ∈ c'.opened) :
      p ∈ c.opened ∨ p = (channel, h.broker.feeds.length) := by
    rw [opened, List.mem_append, List.mem_singleton] at mem
    exact mem
  refine ⟨?_, ?_, ?_, ?_, ?_, ?_, ?_, ?_, ?_⟩
  · rw [cancelled]
    exact s.once
  · intro n pattern since t found
    rw [cancelled]
    rw [key] at found
    split at found
    · rename_i last
      cases found
      simp [last, new]
    · exact s.ended n pattern since t found
  · rw [cancelled, broker]
    intro n mem
    simp only [Fanout.subscribe, List.length_append, List.length_singleton]
    exact Nat.lt_succ_of_lt (s.known n mem)
  · intro j d p at_j mem
    rcases before at_j with ⟨rfl, rfl⟩ | old
    · rcases member mem with mem | rfl
      · obtain ⟨target', since, t, same, found⟩ := s.made j c p at_i mem
        exact ⟨target', since, t, same, kept found⟩
      · exact ⟨target, _, none, known, by rw [key, if_pos rfl]⟩
    · obtain ⟨target', since, t, same, found⟩ := s.made j d p old mem
      exact ⟨target', since, t, same, kept found⟩
  · intro j k d e p q at_j at_k mem mem' same
    rcases before at_j with ⟨rfl, rfl⟩ | old
    · rcases before at_k with ⟨rfl, rfl⟩ | old'
      · rcases member mem with mem | rfl
        · rcases member mem' with mem' | rfl
          · exact s.apart k k c c p q at_i at_i mem mem' same
          · exact absurd same (Nat.ne_of_lt (fresh at_i mem))
        · rcases member mem' with mem' | rfl
          · exact absurd same.symm (Nat.ne_of_lt (fresh at_i mem'))
          · exact ⟨rfl, rfl⟩
      · rcases member mem with mem | rfl
        · exact s.apart j k c e p q at_i old' mem mem' same
        · exact absurd same.symm (Nat.ne_of_lt (fresh old' mem'))
    · rcases before at_k with ⟨rfl, rfl⟩ | old'
      · rcases member mem' with mem' | rfl
        · exact s.apart j k d c p q old at_i mem mem' same
        · exact absurd same (Nat.ne_of_lt (fresh old mem))
      · exact s.apart j k d e p q old old' mem mem' same
  · intro j d at_j
    rcases before at_j with ⟨rfl, rfl⟩ | old
    · rw [subs, opened]
      exact List.append_subset.mpr ⟨List.subset_append_of_subset_left _ (s.listed j c at_i),
        List.subset_append_right _ _⟩
    · exact s.listed j d old
  · intro j d at_j
    rcases before at_j with ⟨rfl, rfl⟩ | old
    · rw [subs, List.map_append, List.nodup_append]
      refine ⟨s.keyed j c at_i, List.nodup_singleton _, fun k mem k' mem' same => ?_⟩
      obtain ⟨sub, there, rfl⟩ := List.mem_map.mp mem
      have again : sub.1 = channel := same.trans (List.mem_singleton.mp mem')
      exact not_mem_of_lookup missing sub.2 (by rw [← again]; exact there)
    · exact s.keyed j d old
  · intro j d p at_j mem
    rw [cancelled]
    rcases before at_j with ⟨rfl, rfl⟩ | old
    · rw [returned, subs, List.mem_append, List.mem_singleton]
      rcases member mem with mem | rfl
      · have other : p ≠ (channel, h.broker.feeds.length) := by
          rintro rfl
          exact Nat.lt_irrefl _ (fresh at_i mem)
        rw [s.settled j c p at_i mem, goes]
        simp [other]
      · simp [new]
    · exact s.settled j d p old mem
  · intro j d at_j
    have windows {d : WsConnection} (old : h.connections[j]? = some d) :
        d.opened.Pairwise h'.Precedes := by
      refine (s.windows j d old).imp fun later same => ?_
      obtain ⟨pattern, since, t, pattern', since', t', found, found', le⟩ := later same
      exact ⟨pattern, since, t, pattern', since', t', kept found, kept found', le⟩
    rcases before at_j with ⟨rfl, rfl⟩ | old
    · rw [opened, List.pairwise_append]
      refine ⟨windows at_i, List.pairwise_singleton _ _, fun p mem q mem' same => ?_⟩
      rw [List.mem_singleton.mp mem'] at same ⊢
      -- the subscription before is not in the map any more
      have gone : p.2 ∈ h.cancelled := by
        refine (s.settled j c p at_i mem).mpr (.inr fun there => ?_)
        have again : p.1 = channel := same
        exact not_mem_of_lookup missing p.2 (by rw [← again]; exact there)
      obtain ⟨target', since, t, -, found⟩ := s.made j c p at_i mem
      obtain ⟨t, rfl⟩ := Option.isSome_iff_exists.mp ((s.ended _ _ _ _ found).mpr gone)
      refine ⟨_, _, t, _, _, _, kept found, by rw [key, if_pos rfl], ?_⟩
      obtain ⟨f, there, same⟩ := Option.map_eq_some_iff.mp found
      have ended := (Prod.mk.inj (Prod.mk.inj same).2).2
      exact ((faithful f (List.mem_of_getElem? there)).ended t ended).2
    · exact windows old

theorem lookup_of_mem {subs : List (String × Nat)} (keyed : (subs.map Prod.fst).Nodup)
    {channel : String} {n : Nat} (mem : (channel, n) ∈ subs) : subs.lookup channel = some n := by
  induction subs with
  | nil => cases mem
  | cons sub subs ih =>
    obtain ⟨new, keyed⟩ := List.nodup_cons.mp keyed
    rcases List.mem_cons.mp mem with rfl | later
    · exact List.lookup_cons_self
    · have other : channel ≠ sub.1 := by
        rintro rfl
        exact new (List.mem_map.mpr ⟨_, later, rfl⟩)
      rw [List.lookup_cons, beq_eq_false_iff_ne.mpr other]
      exact ih keyed later

theorem mem_of_lookup {subs : List (String × Nat)} {channel : String} {n : Nat}
    (found : subs.lookup channel = some n) : (channel, n) ∈ subs := by
  induction subs with
  | nil => cases found
  | cons sub subs ih =>
    rw [List.lookup_cons] at found
    split at found
    · rename_i same
      cases found
      rw [beq_iff_eq.mp same]
      exact List.mem_cons_self
    · exact List.mem_cons_of_mem _ (ih found)

/-- The subscriptions that end are those of the map that do not stay in the map of a
connection that goes on. -/
theorem WsHandler.Cancels.mem_gone {gone : List (String × Nat)} (cancels : h.Cancels i c c' gone h')
    (keyed : (c.subs.map Prod.fst).Nodup) (sub : String × Nat) :
    sub ∈ gone ↔ sub ∈ c.subs ∧ (c'.returned = true ∨ sub ∉ c'.subs) := by
  rcases cancels.subs with ⟨-, returned, rfl⟩ | ⟨goes, channel, feed, found, rfl, subs⟩
  · simp [returned]
  · rw [goes, subs, List.mem_singleton]
    constructor
    · rintro rfl
      exact ⟨mem_of_lookup found, .inr (by simp)⟩
    · rintro ⟨there, stays | gone⟩
      · cases stays
      · obtain ⟨key, n⟩ := sub
        obtain rfl : key = channel := by
          by_contra other
          exact gone (List.mem_filter.mpr ⟨there, by simpa using other⟩)
        rw [Option.some.inj ((lookup_of_mem keyed there).symm.trans found)]

theorem WsHandler.Settled.cancel {gone : List (String × Nat)} (s : h.Settled)
    (at_i : h.connections[i]? = some c) (goes : c.returned = false)
    (cancels : h.Cancels i c c' gone h') : h'.Settled := by
  have keyed := s.keyed i c at_i
  have mem_gone := cancels.mem_gone keyed
  have opened {sub : String × Nat} (mem : sub ∈ gone) : sub ∈ c.opened :=
    s.listed i c at_i ((mem_gone sub).mp mem).1
  -- a number belongs to one subscription of one connection
  have mem_map {j : Nat} {d : WsConnection} {p : String × Nat} (at_j : h.connections[j]? = some d)
      (mem : p ∈ d.opened) : p.2 ∈ gone.map Prod.snd ↔ j = i ∧ p ∈ gone := by
    rw [List.mem_map]
    constructor
    · rintro ⟨q, there, same⟩
      obtain ⟨rfl, rfl⟩ := s.apart j i d c p q at_j at_i mem (opened there) same.symm
      exact ⟨rfl, there⟩
    · rintro ⟨-, there⟩
      exact ⟨p, there, rfl⟩
  have key {n : Nat} {pattern : String} {since : Nat} {t : Option Nat}
      (found : h.key? n = some (pattern, since, t)) : h'.key? n = some (pattern, since,
        if n ∈ gone.map Prod.snd then t.or (some h.broker.log.length) else t) := by
    obtain ⟨f, there, same⟩ := Option.map_eq_some_iff.mp found
    cases same
    rw [WsHandler.key?, cancels.feeds, there, Option.map_some, Option.map_some]
    split
    · have kept : (f.stop h.broker.log.length).pattern = f.pattern ∧
          (f.stop h.broker.log.length).since = f.since := by
        unfold Feed.stop
        split <;> exact ⟨rfl, rfl⟩
      rw [feedKey, kept.1, kept.2, Feed.ended_stop]
    · rfl
  have subset {j : Nat} {d : WsConnection} (at_j : h'.connections[j]? = some d) :
      (j = i ∧ d = c') ∨ (j ≠ i ∧ h.connections[j]? = some d) := by
    rw [cancels.connections, List.getElem?_set] at at_j
    split at at_j
    · rename_i same
      split at at_j
      · exact .inl ⟨same.symm, (Option.some.inj at_j).symm⟩
      · cases at_j
    · rename_i other
      exact .inr ⟨Ne.symm other, at_j⟩
  -- what a connection has opened it had opened before
  have before {j : Nat} {d : WsConnection} (at_j : h'.connections[j]? = some d) :
      ∃ e, h.connections[j]? = some e ∧ d.opened = e.opened := by
    rcases subset at_j with ⟨rfl, rfl⟩ | ⟨-, old⟩
    · exact ⟨c, at_i, cancels.opened⟩
    · exact ⟨d, old, rfl⟩
  have sublist : c'.subs.Sublist c.subs := by
    rcases cancels.subs with ⟨same, -⟩ | ⟨-, channel, feed, -, -, filtered⟩
    · rw [same]
    · rw [filtered]
      exact List.filter_sublist
  refine ⟨?_, ?_, ?_, ?_, ?_, ?_, ?_, ?_, ?_⟩
  · rw [cancels.cancelled, List.nodup_append]
    refine ⟨s.once, ?_, fun n mem m mem' same => ?_⟩
    · have distinct : gone.Nodup := by
        rcases cancels.subs with ⟨-, -, rfl⟩ | ⟨-, channel, feed, -, rfl, -⟩
        · exact .of_map Prod.fst keyed
        · exact List.nodup_singleton _
      refine List.Nodup.map_on (fun p mem q mem' same => ?_) distinct
      exact (s.apart i i c c p q at_i at_i (opened mem) (opened mem') same).2
    · obtain ⟨p, there, rfl⟩ := List.mem_map.mp mem'
      rw [same] at mem
      rcases (s.settled i c p at_i (opened there)).mp mem with returned | gone
      · exact absurd (goes.symm.trans returned) Bool.false_ne_true
      · exact gone ((mem_gone p).mp there).1
  · intro n pattern since t found
    obtain ⟨t₀, found₀⟩ : ∃ t₀, h.key? n = some (pattern, since, t₀) := by
      cases before : h.key? n with
      | none =>
        have none : h.broker.feeds[n]? = none := Option.map_eq_none_iff.mp before
        rw [WsHandler.key?, cancels.feeds, none] at found
        cases found
      | some x =>
        have same := Option.some.inj ((key before).symm.trans found)
        exact ⟨x.2.2, by cases same; rfl⟩
    have same := Option.some.inj ((key found₀).symm.trans found)
    have ended := s.ended n pattern since t₀ found₀
    rw [← (Prod.mk.inj (Prod.mk.inj same).2).2, cancels.cancelled, List.mem_append, ← ended]
    split
    · rename_i there
      simp [there]
    · rename_i stays
      simp [stays]
  · rw [cancels.cancelled]
    have length : h'.broker.feeds.length = h.broker.feeds.length := by
      have lengths (n : Nat) : h'.broker.feeds.length ≤ n ↔ h.broker.feeds.length ≤ n := by
        rw [← List.getElem?_eq_none_iff, ← List.getElem?_eq_none_iff, cancels.feeds,
          Option.map_eq_none_iff]
      exact Nat.le_antisymm ((lengths _).mpr (Nat.le_refl _)) ((lengths _).mp (Nat.le_refl _))
    rw [length]
    intro n mem
    rcases List.mem_append.mp mem with old | new
    · exact s.known n old
    · obtain ⟨p, there, rfl⟩ := List.mem_map.mp new
      obtain ⟨target, since, t, -, found⟩ := s.made i c p at_i (opened there)
      exact key?_lt (by simp [found])
  · intro j d p at_j mem
    obtain ⟨e, old, same⟩ := before at_j
    obtain ⟨target, since, t, known, found⟩ := s.made j e p old (same ▸ mem)
    exact ⟨target, since, _, known, key found⟩
  · intro j k d e p q at_j at_k mem mem' same
    obtain ⟨d₀, old, eq⟩ := before at_j
    obtain ⟨e₀, old', eq'⟩ := before at_k
    exact s.apart j k d₀ e₀ p q old old' (eq ▸ mem) (eq' ▸ mem') same
  · intro j d at_j
    rcases subset at_j with ⟨rfl, rfl⟩ | ⟨-, old⟩
    · rw [cancels.opened]
      exact List.Subset.trans sublist.subset (s.listed j c at_i)
    · exact s.listed j d old
  · intro j d at_j
    rcases subset at_j with ⟨rfl, rfl⟩ | ⟨-, old⟩
    · exact keyed.sublist (sublist.map _)
    · exact s.keyed j d old
  · intro j d p at_j mem
    rw [cancels.cancelled, List.mem_append]
    rcases subset at_j with ⟨rfl, rfl⟩ | ⟨other, old⟩
    · rw [cancels.opened] at mem
      rw [mem_map at_i mem, mem_gone, s.settled j c p at_i mem, goes]
      have kept : p ∈ d.subs → p ∈ c.subs := fun there => sublist.subset there
      tauto
    · rw [mem_map old mem, s.settled j d p old mem]
      simp [other]
  · intro j d at_j
    obtain ⟨e, old, same⟩ := before at_j
    rw [same]
    refine (s.windows j e old).imp fun later eq => ?_
    obtain ⟨pattern, since, t, pattern', since', t', found, found', le⟩ := later eq
    refine ⟨pattern, since, t, pattern', since', _, ?_, key found', le⟩
    rw [key found]
    split <;> rfl

end Settled

/-! ## Every run -/

section Runs

variable {h h' : WsHandler} {a : WsAction} {actions : List WsAction}

theorem foldl_cancel_faithful (gone : List (String × Nat))
    (faithful : h.broker.Faithful deliversMessage) :
    (gone.foldl (fun h sub => h.cancel sub.2) h).broker.Faithful deliversMessage := by
  induction gone generalizing h with
  | nil => exact faithful
  | cons sub gone ih => exact ih faithful.unsubscribe

theorem handleMessage_faithful {c : WsConnection} {answers : WsAnswers} {msg : Option WsMessage}
    (faithful : h.broker.Faithful deliversMessage) :
    (h.handleMessage c answers msg).1.broker.Faithful deliversMessage := by
  cases msg with
  | none => exact faithful
  | some msg =>
    simp only [WsHandler.handleMessage]
    split
    · unfold WsHandler.handleSubscribe
      split
      · exact faithful
      · split
        · exact faithful
        · split
          · exact faithful
          · split
            · exact faithful.subscribe _
            · exact faithful
    · split
      · simp only [WsHandler.handleUnsubscribe]
        split
        · exact faithful.unsubscribe
        · exact faithful
      · exact faithful

theorem step_faithful (taken : h.step a = some h') (faithful : h.broker.Faithful deliversMessage) :
    h'.broker.Faithful deliversMessage := by
  cases a with
  | connect =>
    cases taken
    exact faithful
  | receive i msg answers written =>
    simp only [WsHandler.step] at taken
    split at taken
    · split at taken
      · cases taken
      · cases taken
        exact handleMessage_faithful faithful
    · cases taken
  | disconnect i =>
    simp only [WsHandler.step] at taken
    split at taken
    · split at taken
      · cases taken
      · cases taken
        exact foldl_cancel_faithful _ faithful
    · cases taken
  | publish event msg =>
    simp only [WsHandler.step] at taken
    split at taken
    · cases taken
      exact faithful.publish msg
    · cases taken
  | callback feed =>
    cases taken
    exact faithful.on fun _ kept => kept.callback
  | forward i sub written =>
    simp only [WsHandler.step] at taken
    split at taken
    · split at taken
      · split at taken
        · cases taken
          exact faithful.on fun _ kept => kept.take
        · cases taken
      · cases taken
    · cases taken
  | quit i sub =>
    simp only [WsHandler.step] at taken
    split at taken
    · split at taken
      · cases taken
        exact faithful
      · cases taken
    · cases taken

theorem step_settled (taken : h.step a = some h') (faithful : h.broker.Faithful deliversMessage)
    (settled : h.Settled) : h'.Settled := by
  cases step_changes taken with
  | quiet quiet => exact settled.quiet quiet
  | subscribe at_i goes missing known _ broker cancelled subs opened returned connections =>
    exact settled.subscribe faithful at_i goes missing known broker cancelled subs opened returned
      connections
  | cancel at_i goes cancels => exact settled.cancel at_i goes cancels

/-- The maps of the connections hold the channels that their clients are subscribed to. -/
def WsHandler.Tracks (h : WsHandler) (on : Nat → String → Bool) : Prop :=
  ∀ (i : Nat) channel, on i channel =
    (h.connections[i]?).any fun c => (c.subs.lookup channel).isSome

/-- No message comes over a connection that is not there. -/
theorem follows_absent (taken : h.step a = some h') {i : Nat} (absent : h.connections[i]? = none)
    (channel : String) : follows i channel false a = false := by
  cases a with
  | receive j msg answers written =>
    cases msg with
    | none => rfl
    | some msg =>
      have other : j ≠ i := by
        rintro rfl
        simp [WsHandler.step, absent] at taken
      simp [follows, other]
  | _ => rfl

theorem step_tracks {on : Nat → String → Bool} (taken : h.step a = some h') (tracks : h.Tracks on) :
    h'.Tracks fun i channel => follows i channel (on i channel) a := by
  intro i channel
  show follows i channel (on i channel) a = _
  have present {c : WsConnection} (at_i : h.connections[i]? = some c) :
      on i channel = (c.subs.lookup channel).isSome := by
    rw [tracks, at_i]
    rfl
  have absent (none : h.connections[i]? = none) : follows i channel (on i channel) a = false := by
    rw [show on i channel = false by rw [tracks, none]; rfl]
    exact follows_absent taken none channel
  cases step_changes taken with
  | quiet quiet silent =>
    cases at_i : h'.connections[i]? with
    | none =>
      have short := List.getElem?_eq_none_iff.mp at_i
      exact absent (List.getElem?_eq_none (Nat.le_trans quiet.grows short))
    | some c' =>
      rcases quiet.connections i c' at_i with ⟨c, old, alike⟩ | ⟨none, rfl⟩
      · rw [present old, silent i c channel old, ← alike.subs]
        rfl
      · rw [absent none]
        rfl
  | @subscribe j c c' channel' target answers written _ at_j goes missing known accepts broker
      cancelled subs opened returned connections =>
    rw [connections, List.getElem?_set]
    have inside := (List.getElem?_eq_some_iff.mp at_j).1
    by_cases here : j = i
    · subst here
      simp only [inside, if_true, Option.any_some, subs, present at_j, follows, true_and]
      by_cases same : channel' = channel
      · subst same
        simp [accepts, List.lookup_append]
      · simp [same, List.lookup_append, List.lookup_cons, beq_eq_false_iff_ne.mpr (Ne.symm same)]
    · simp only [follows, here, false_and, if_false]
      exact tracks i channel
  | @cancel _ j c c' gone _ at_j goes cancels turns =>
    rw [cancels.connections, List.getElem?_set, turns]
    have inside := (List.getElem?_eq_some_iff.mp at_j).1
    by_cases here : i = j
    · subst here
      simp only [inside, if_true, Option.any_some, present at_j, true_and]
      split
      · rename_i changed
        have before : (c'.subs.lookup channel).isSome = true →
            (c.subs.lookup channel).isSome = true := by
          rcases cancels.subs with ⟨same, -⟩ | ⟨-, k, feed, -, -, filtered⟩
          · rw [same]
            exact fun there => there
          · rw [filtered, lookup_filter]
            split
            · exact fun there => nomatch there
            · exact fun there => there
        cases after : (c'.subs.lookup channel).isSome with
        | false => rfl
        | true => exact absurd (after.trans (before after).symm) changed
      · rename_i same
        exact (not_not.mp same).symm
    · simp only [here, false_and, if_false, if_neg (Ne.symm here)]
      exact tracks i channel

theorem run_settled (ran : h.run actions = some h') (faithful : h.broker.Faithful deliversMessage)
    (settled : h.Settled) {on : Nat → String → Bool} (tracks : h.Tracks on) :
    h'.broker.Faithful deliversMessage ∧ h'.Settled ∧
      h'.Tracks fun i channel => actions.foldl (follows i channel) (on i channel) := by
  induction actions generalizing h on with
  | nil =>
    cases ran
    exact ⟨faithful, settled, tracks⟩
  | cons a actions ih =>
    obtain ⟨m, taken, rest⟩ := Option.bind_eq_some_iff.mp ran
    exact ih rest (step_faithful taken faithful) (step_settled taken faithful settled)
      (step_tracks taken tracks)

/-- Every subscription that a connection has made is cancelled once, at the latest when the
connection ends; until then it has one subscription that is not cancelled for each channel
its client is subscribed to, and no other. -/
theorem subscriptions_settled (ran : WsHandler.run {} actions = some h) :
    h.cancelled.Nodup ∧
      (∀ (n : Nat) f, h.broker.feeds[n]? = some f → (f.ended.isSome = true ↔ n ∈ h.cancelled)) ∧
      ∀ (i : Nat) c, h.connections[i]? = some c →
        (c.returned = true → ∀ sub ∈ c.opened, sub.2 ∈ h.cancelled) ∧
        (c.returned = false → ∀ channel,
          (∀ n, (channel, n) ∈ c.opened ∧ n ∉ h.cancelled ↔ c.subs.lookup channel = some n) ∧
          ((c.subs.lookup channel).isSome = true ↔ following i channel actions = true)) := by
  have idle : WsHandler.Tracks {} fun _ _ => false := fun _ _ => by simp
  obtain ⟨-, settled, tracks⟩ :=
    run_settled ran (fun _ mem => absurd mem List.not_mem_nil) .idle idle
  refine ⟨settled.once, fun n f there => ?_, fun i c at_i => ⟨fun returned sub mem => ?_,
    fun goes channel => ⟨fun n => ⟨fun ⟨mem, live⟩ => ?_, fun found => ?_⟩, ?_⟩⟩⟩
  · exact settled.ended n f.pattern f.since f.ended (by rw [WsHandler.key?, there]; rfl)
  · exact (settled.settled i c sub at_i mem).mpr (.inl returned)
  · refine lookup_of_mem (settled.keyed i c at_i) ?_
    by_contra gone
    exact live ((settled.settled i c _ at_i mem).mpr (.inr gone))
  · have there := mem_of_lookup found
    refine ⟨settled.listed i c at_i there, fun gone => ?_⟩
    rcases (settled.settled i c _ at_i (settled.listed i c at_i there)).mp gone with returned | left
    · exact absurd (goes.symm.trans returned) Bool.false_ne_true
    · exact left there
  · have tracked : following i channel actions = (h.connections[i]?).any fun c =>
        (c.subs.lookup channel).isSome := tracks i channel
    rw [tracked, at_i]
    rfl

/-! ## A client that comes back to a channel -/

/-- One client subscribes, unsubscribes and subscribes again; another one asks for a job that
is not there and leaves. -/
def comingBack : List WsAction :=
  [.connect, .connect, .receive 0 (some ⟨"subscribe", "all"⟩) {} true,
    .receive 1 (some ⟨"subscribe", "job:42"⟩) { found := false } true,
    .receive 1 (some ⟨"subscribe", "queue:mails"⟩) {} true,
    .receive 0 (some ⟨"unsubscribe", "all"⟩) {} true, .disconnect 1,
    .receive 0 (some ⟨"subscribe", "all"⟩) {} false]

theorem subscriptions_settled_comingBack : ∃ h, WsHandler.run {} comingBack = some h ∧
    h.cancelled.Nodup ∧ ∀ c, h.connections[0]? = some c → c.returned = false →
      (c.subs.lookup "all").isSome = true := by
  obtain ⟨h, ran⟩ := Option.isSome_iff_exists.mp
    (show (WsHandler.run {} comingBack).isSome = true by decide)
  obtain ⟨once, -, each⟩ := subscriptions_settled ran
  refine ⟨h, ran, once, fun c at_0 goes => ?_⟩
  obtain ⟨-, live⟩ := each 0 c at_0
  exact (live goes "all").2.mpr (by decide)

end Runs

end OjsNats.Api
