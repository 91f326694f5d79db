import OjsNats.Api.Subscribers

/-!
# Events over WebSocket connections

What the forwarders of a connection write was published for the channel that it is written
on.  No message is written twice on one channel, even if the client leaves the channel and
comes back while the forwarder before still has events to write.
-/

namespace OjsNats.Api

open Nats Subject

/-- The channel, the subscription and the message of an event that was written. -/
def WsFrame.forwarded? : WsFrame → Option (String × Nat × EventMessage × Nat)
  | .event channel feed message _ => some (channel, feed, message)
  | .reply _ => none

def WsConnection.forwarded (c : WsConnection) : List (String × Nat × EventMessage × Nat) :=
  c.frames.filterMap WsFrame.forwarded?

/-- Of two events that are written on one channel, the second is another message; it is a
later one, if it comes from the same subscription. -/
def Succeeds (e e' : String × Nat × EventMessage × Nat) : Prop :=
  e.1 = e'.1 → e.2.2.2 ≠ e'.2.2.2 ∧ (e.2.1 = e'.2.1 → e.2.2.2 < e'.2.2.2)

/-- The forwarders write what they have taken. -/
structure WsHandler.Forwards (h : WsHandler) : Prop where
  published : ∀ msg ∈ h.broker.log, msg ∈ eventMessages msg.2
  running : ∀ (i : Nat) c, h.connections[i]? = some c → c.forwarders ⊆ c.opened
  took : ∀ (i : Nat) c e, h.connections[i]? = some c → e ∈ c.forwarded →
    (e.1, e.2.1) ∈ c.opened ∧ ∃ f, h.broker.feeds[e.2.1]? = some f ∧ e.2.2 ∈ f.taken
  ordered : ∀ (i : Nat) c, h.connections[i]? = some c → c.forwarded.Pairwise Succeeds

/-- No event is written, and what was taken stays so. -/
structure WsHandler.Silent (h h' : WsHandler) : Prop where
  log : ∀ msg ∈ h'.broker.log, msg ∈ h.broker.log ∨ msg ∈ eventMessages msg.2
  feeds : ∀ (n : Nat) f, h.broker.feeds[n]? = some f →
    ∃ f', h'.broker.feeds[n]? = some f' ∧ f'.taken = f.taken
  connections : ∀ (i : Nat) c', h'.connections[i]? = some c' → c' = {} ∨
    ∃ c, h.connections[i]? = some c ∧ c'.forwarded = c.forwarded ∧ c.opened ⊆ c'.opened ∧
      (c.forwarders ⊆ c.opened → c'.forwarders ⊆ c'.opened)

section Forwards

variable {h h' : WsHandler} {a : WsAction} {actions : List WsAction} {i : Nat}
  {c c' : WsConnection}

theorem WsHandler.Forwards.silent (f : h.Forwards) (silent : h.Silent h') : h'.Forwards := by
  refine ⟨fun msg mem => ?_, fun j d at_j => ?_, fun j d e at_j mem => ?_, fun j d at_j => ?_⟩
  · exact (silent.log msg mem).elim (f.published msg) fun new => new
  · rcases silent.connections j d at_j with rfl | ⟨c, old, -, -, running⟩
    · exact List.nil_subset _
    · exact running (f.running j c old)
  · rcases silent.connections j d at_j with rfl | ⟨c, old, same, opened, -⟩
    · cases mem
    · obtain ⟨there, feed, found, taken⟩ := f.took j c e old (same ▸ mem)
      obtain ⟨feed', found', eq⟩ := silent.feeds e.2.1 feed found
      exact ⟨opened there, feed', found', eq ▸ taken⟩
  · rcases silent.connections j d at_j with rfl | ⟨c, old, same, -⟩
    · exact .nil
    · rw [same]
      exact f.ordered j c old

theorem forwarded_reply (written : Bool) (response : WsResponse) (c : WsConnection) :
    (c.write written (.reply response)).forwarded = c.forwarded := by
  unfold WsConnection.write
  split
  · simp [WsConnection.forwarded, WsFrame.forwarded?]
  · rfl

theorem forwarders_write (written : Bool) (frame : WsFrame) (c : WsConnection) :
    (c.write written frame).forwarders = c.forwarders := by
  unfold WsConnection.write
  split <;> rfl

theorem taken_on {g : Feed String EventMessage → Feed String EventMessage}
    (same : ∀ f, (g f).taken = f.taken) {b : Broker} (i n : Nat) {f : Feed String EventMessage}
    (found : b.feeds[n]? = some f) : ∃ f', (b.on i g).feeds[n]? = some f' ∧ f'.taken = f.taken := by
  rw [Fanout.getElem?_on, found, Option.map_some]
  refine ⟨_, rfl, ?_⟩
  split
  · exact same f
  · rfl

theorem taken_callback (f : Feed String EventMessage) :
    (f.callback channelCapacity).taken = f.taken := by
  unfold Feed.callback
  split
  · rfl
  · split <;> rfl

theorem taken_stop (n : Nat) (f : Feed String EventMessage) : (f.stop n).taken = f.taken := by
  unfold Feed.stop
  split <;> rfl

theorem taken_publish (msg : EventMessage) (n : Nat) (f : Feed String EventMessage) :
    (f.publish deliversMessage msg n).taken = f.taken := by
  unfold Feed.publish
  split <;> rfl

/-- One connection is replaced by one that has written the same events. -/
theorem silent_set (at_i : h.connections[i]? = some c) (forwarded : c'.forwarded = c.forwarded)
    (opened : c.opened ⊆ c'.opened)
    (running : c.forwarders ⊆ c.opened → c'.forwarders ⊆ c'.opened)
    (log : h'.broker.log = h.broker.log)
    (feeds : ∀ (n : Nat) f, h.broker.feeds[n]? = some f →
      ∃ f', h'.broker.feeds[n]? = some f' ∧ f'.taken = f.taken)
    (connections : h'.connections = h.connections.set i c') : h.Silent h' := by
  refine ⟨fun msg mem => .inl (log ▸ mem), feeds, fun j d at_j => .inr ?_⟩
  rw [connections, List.getElem?_set] at at_j
  split at at_j
  · rename_i same
    subst same
    split at at_j
    · cases at_j
      exact ⟨c, at_i, forwarded, opened, running⟩
    · cases at_j
  · exact ⟨d, at_j, rfl, List.Subset.refl _, fun running => running⟩

/-- A reply. -/
theorem silent_reply (at_i : h.connections[i]? = some c) (written : Bool) (response : WsResponse) :
    h.Silent (h.setConnection i (c.write written (.reply response))) := by
  have alike := alike_write (c := c) written (.reply response)
  refine silent_set at_i (forwarded_reply written response c) ?_ ?_ rfl
    (fun n f found => ⟨f, found, rfl⟩) rfl
  · rw [alike.opened]
    exact List.Subset.refl _
  · rw [forwarders_write, alike.opened]
    exact fun running => running

theorem silent_message (at_i : h.connections[i]? = some c) (answers : WsAnswers)
    (msg : Option WsMessage) (written : Bool) {h₁ : WsHandler} {c₁ : WsConnection}
    {response : WsResponse} (handled : h.handleMessage c answers msg = (h₁, c₁, response)) :
    h.Silent (h₁.setConnection i (c₁.write written (.reply response))) := by
  have same (eq : (h, c, response) = (h₁, c₁, response)) :
      h.Silent (h₁.setConnection i (c₁.write written (.reply response))) := by
    cases eq
    exact silent_reply at_i written response
  cases msg with
  | none =>
    cases handled
    exact same rfl
  | some msg =>
    simp only [WsHandler.handleMessage] at handled
    split at handled
    · unfold WsHandler.handleSubscribe at handled
      split at handled
      · cases handled
        exact same rfl
      · split at handled
        · cases handled
          exact same rfl
        · split at handled
          · cases handled
            exact same rfl
          · split at handled
            · cases handled
              let c₁ : WsConnection := { c with
                subs := c.subs ++ [(msg.channel, h.broker.feeds.length)]
                opened := c.opened ++ [(msg.channel, h.broker.feeds.length)]
                forwarders := c.forwarders ++ [(msg.channel, h.broker.feeds.length)] }
              have alike := alike_write (c := c₁) written (.reply (subscribedResponse msg.channel))
              have kept : WsConnection.forwarded (c₁.write written
                  (.reply (subscribedResponse msg.channel))) = c.forwarded :=
                forwarded_reply written _ c₁
              refine silent_set at_i kept ?_ ?_ rfl ?_ rfl
              · rw [alike.opened]
                exact List.subset_append_left _ _
              · rw [alike.opened, forwarders_write]
                intro running
                exact List.append_subset.mpr ⟨List.subset_append_of_subset_left _ running,
                  List.subset_append_right _ _⟩
              · intro n f found
                have below := (List.getElem?_eq_some_iff.mp found).1
                refine ⟨f, ?_, rfl⟩
                show (h.broker.subscribe _).feeds[n]? = some f
                rw [Fanout.getElem?_subscribe, if_neg (Nat.ne_of_lt below), found]
            · cases handled
              exact same rfl
    · split at handled
      · simp only [WsHandler.handleUnsubscribe] at handled
        split at handled
        · cases handled
          rename_i feed _
          let c₁ : WsConnection :=
            { c with subs := c.subs.filter fun sub => sub.1 ≠ msg.channel }
          let gone : WsFrame := .reply { type := "unsubscribed", channel := msg.channel }
          have alike := alike_write (c := c₁) written gone
          have kept : WsConnection.forwarded (c₁.write written gone) = c.forwarded :=
            forwarded_reply written _ c₁
          refine silent_set at_i kept ?_ ?_ rfl
            (fun n f found => taken_on (taken_stop _) feed n found) rfl
          · rw [alike.opened]
            exact List.Subset.refl _
          · rw [alike.opened, forwarders_write]
            exact fun running => running
        · cases handled
          exact same rfl
      · cases handled
        exact same rfl

/-- The subscriptions of one connection to one channel follow each other. -/
theorem precedes_or (settled : h.Settled) (at_i : h.connections[i]? = some c) {p q : String × Nat}
    (mem : p ∈ c.opened) (mem' : q ∈ c.opened) (other : p ≠ q) :
    h.Precedes p q ∨ h.Precedes q p := by
  have symmetric : Std.Symm fun p q => h.Precedes p q ∨ h.Precedes q p := ⟨fun _ _ => Or.symm⟩
  have either : c.opened.Pairwise fun p q => h.Precedes p q ∨ h.Precedes q p :=
    (settled.windows i c at_i).imp fun later => .inl later
  exact either.forall mem mem' other

/-- Subscriptions that follow each other have no message in common. -/
theorem lt_of_precedes (faithful : h.broker.Faithful deliversMessage) {p q : String × Nat}
    (precedes : h.Precedes p q) (same : p.1 = q.1) {f g : Feed String EventMessage}
    (found : h.broker.feeds[p.2]? = some f) (found' : h.broker.feeds[q.2]? = some g)
    {m m' : EventMessage × Nat} (mem : m ∈ f.carried) (mem' : m' ∈ g.carried) : m.2 < m'.2 := by
  obtain ⟨_, _, t, _, _, _, key, key', le⟩ := precedes same
  rw [WsHandler.key?, found, Option.map_some, feedKey] at key
  rw [WsHandler.key?, found', Option.map_some, feedKey] at key'
  simp only [Option.some.injEq, Prod.mk.injEq] at key key'
  obtain ⟨-, -, ended⟩ := key
  obtain ⟨-, rfl, -⟩ := key'
  have before := ((faithful f (List.mem_of_getElem? found)).published mem).2
  have after := ((faithful g (List.mem_of_getElem? found')).published mem').2
  obtain ⟨-, ends, -⟩ := Feed.wants_iff.mp before
  obtain ⟨since, -, -⟩ := Feed.wants_iff.mp after
  exact Nat.lt_of_lt_of_le (ends t ended) (Nat.le_trans le since)

/-- A forwarder writes the next event of its subscription. -/
theorem WsHandler.Forwards.forward {sub : String × Nat} {feed : Feed String EventMessage}
    {message : EventMessage × Nat} {rest : List (EventMessage × Nat)} (f : h.Forwards)
    (faithful : h.broker.Faithful deliversMessage) (settled : h.Settled)
    (at_i : h.connections[i]? = some c) (found : h.broker.feeds[sub.2]? = some feed)
    (channel : feed.channel = message :: rest) (running : sub ∈ c.forwarders) (written : Bool)
    (id : UInt64) : WsHandler.Forwards { h with
      broker := h.broker.on sub.2 Feed.take
      eventID := id
      connections := h.connections.set i (c.write written (.event sub.1 sub.2 message id)) } := by
  let c' := c.write written (.event sub.1 sub.2 message id)
  have alike : c.Alike c' := alike_write written _
  have takes : feed.take.taken = feed.taken ++ [message] := by
    simp only [Feed.take, channel]
  have member : sub ∈ c.opened := f.running i c at_i running
  -- what was taken before still is
  have grows {n : Nat} {g : Feed String EventMessage} (there : h.broker.feeds[n]? = some g) :
      ∃ g', (h.broker.on sub.2 Feed.take).feeds[n]? = some g' ∧ g.taken ⊆ g'.taken := by
    rw [Fanout.getElem?_on, there, Option.map_some]
    refine ⟨_, rfl, ?_⟩
    split
    · rename_i here
      cases found.symm.trans (here ▸ there)
      rw [takes]
      exact List.subset_append_left _ _
    · exact List.Subset.refl _
  have forwarded : c'.forwarded = c.forwarded ∨
      c'.forwarded = c.forwarded ++ [(sub.1, sub.2, message)] := by
    unfold c' WsConnection.write
    split
    · exact .inr (by simp [WsConnection.forwarded, WsFrame.forwarded?])
    · exact .inl rfl
  have before {j : Nat} {d : WsConnection}
      (at_j : (h.connections.set i c')[j]? = some d) :
      (j = i ∧ d = c') ∨ h.connections[j]? = some d := by
    rw [List.getElem?_set] at at_j
    split at at_j
    · rename_i same
      split at at_j
      · exact .inl ⟨same.symm, (Option.some.inj at_j).symm⟩
      · cases at_j
    · exact .inr at_j
  have own : message ∈ feed.carried := by
    simp [Feed.carried, channel]
  refine ⟨f.published, fun j d at_j => ?_, fun j d e at_j mem => ?_, fun j d at_j => ?_⟩
  · rcases before at_j with ⟨rfl, rfl⟩ | old
    · rw [forwarders_write, alike.opened]
      exact f.running j c at_i
    · exact f.running j d old
  · have kept {d : WsConnection} (old : h.connections[j]? = some d) (mem : e ∈ d.forwarded) :
        (e.1, e.2.1) ∈ d.opened ∧ ∃ g, (h.broker.on sub.2 Feed.take).feeds[e.2.1]? = some g ∧
          e.2.2 ∈ g.taken := by
      obtain ⟨there, g, found, taken⟩ := f.took j d e old mem
      obtain ⟨g', found', subset⟩ := grows found
      exact ⟨there, g', found', subset taken⟩
    rcases before at_j with ⟨rfl, rfl⟩ | old
    · rw [alike.opened]
      rcases forwarded with same | more
      · exact kept at_i (same ▸ mem)
      · rw [more, List.mem_append, List.mem_singleton] at mem
        rcases mem with old | rfl
        · exact kept at_i old
        · refine ⟨member, feed.take, ?_, ?_⟩
          · rw [Fanout.getElem?_on, found, Option.map_some, if_pos rfl]
          · rw [takes]
            exact List.mem_append_right _ (List.mem_singleton_self _)
    · exact kept old mem
  · rcases before at_j with ⟨rfl, rfl⟩ | old
    · rcases forwarded with same | more
      · rw [same]
        exact f.ordered j c at_i
      · rw [more, List.pairwise_append]
        refine ⟨f.ordered j c at_i, List.pairwise_singleton _ _, fun e mem e' mem' same => ?_⟩
        rw [List.mem_singleton.mp mem'] at same ⊢
        obtain ⟨there, g, found', taken⟩ := f.took j c e at_i mem
        have theirs : e.2.2 ∈ g.carried :=
          List.mem_append_left _ (List.mem_append_left _ taken)
        by_cases here : e.2.1 = sub.2
        · rw [here] at found'
          cases found.symm.trans found'
          -- what the subscription has taken comes before what is in its channel
          have increasing := (faithful feed (List.mem_of_getElem? found)).increasing
          unfold Feed.carried at increasing
          rw [List.append_assoc, List.pairwise_append] at increasing
          have later := increasing.2.2 e.2.2 taken message (by simp [channel])
          exact ⟨Nat.ne_of_lt later, fun _ => later⟩
        · have other : (e.1, e.2.1) ≠ sub := by
            rintro rfl
            exact here rfl
          refine ⟨?_, fun same => absurd same here⟩
          rcases precedes_or settled at_i there member other with first | second
          · exact Nat.ne_of_lt (lt_of_precedes faithful first same found' found theirs own)
          · exact Nat.ne_of_gt (lt_of_precedes faithful second same.symm found found' own theirs)
    · exact f.ordered j d old

theorem step_forwards (taken : h.step a = some h') (faithful : h.broker.Faithful deliversMessage)
    (settled : h.Settled) (f : h.Forwards) : h'.Forwards := by
  cases a with
  | connect =>
    cases taken
    refine f.silent ⟨fun _ => .inl, fun n g found => ⟨g, found, rfl⟩, fun j d at_j => ?_⟩
    rw [List.getElem?_append] at at_j
    split at at_j
    · exact .inr ⟨d, at_j, rfl, List.Subset.refl _, fun running => running⟩
    · rw [List.getElem?_singleton] at at_j
      split at at_j
      · exact .inl (Option.some.inj at_j).symm
      · cases at_j
  | receive i msg answers written =>
    simp only [WsHandler.step] at taken
    split at taken
    · rename_i c at_i
      split at taken
      · cases taken
      · cases taken
        exact f.silent (silent_message at_i answers msg written rfl)
    · cases taken
  | disconnect i =>
    simp only [WsHandler.step] at taken
    split at taken
    · rename_i c at_i
      split at taken
      · cases taken
      · cases taken
        obtain ⟨connections, -, log, feeds⟩ := cancelAll c.subs h
        have same : WsConnection.forwarded { c with returned := true } = c.forwarded := rfl
        refine f.silent (silent_set at_i same (List.Subset.refl _)
          (fun running => running) log (fun n g found => ?_) ?_)
        · refine ⟨_, (feeds n).trans (by rw [found]; rfl), ?_⟩
          split
          · exact taken_stop _ g
          · rfl
        · rw [WsHandler.setConnection, connections]
    · cases taken
  | publish event msg =>
    simp only [WsHandler.step] at taken
    split at taken
    · rename_i among
      cases taken
      refine f.silent ⟨fun m mem => ?_, fun n g found => ?_, fun j d at_j =>
        .inr ⟨d, at_j, rfl, List.Subset.refl _, fun running => running⟩⟩
      · rcases List.mem_append.mp mem with old | new
        · exact .inl old
        · obtain rfl := List.mem_singleton.mp new
          obtain ⟨first, -, rfl⟩ := List.mem_map.mp among
          exact .inr among
      · refine ⟨_, by rw [Fanout.getElem?_publish, found]; rfl, taken_publish msg _ g⟩
    · cases taken
  | callback feed =>
    cases taken
    exact f.silent ⟨fun _ => .inl, fun n g found => taken_on taken_callback feed n found,
      fun j d at_j => .inr ⟨d, at_j, rfl, List.Subset.refl _, fun running => running⟩⟩
  | forward i sub written =>
    simp only [WsHandler.step] at taken
    split at taken
    · rename_i c feed at_i found
      split at taken
      · rename_i message rest channel
        split at taken
        · rename_i running
          cases taken
          exact f.forward faithful settled at_i found channel running written _
        · cases taken
      · cases taken
    · cases taken
  | quit i sub =>
    simp only [WsHandler.step] at taken
    split at taken
    · rename_i c feed at_i _
      split at taken
      · cases taken
        have same : WsConnection.forwarded
            { c with forwarders := c.forwarders.filter (· ≠ sub) } = c.forwarded := rfl
        refine f.silent (silent_set at_i same (List.Subset.refl _) (fun running => ?_) rfl
          (fun n g found => ⟨g, found, rfl⟩) rfl)
        exact List.Subset.trans List.filter_sublist.subset running
      · cases taken
    · cases taken

theorem run_forwards (ran : h.run actions = some h') (faithful : h.broker.Faithful deliversMessage)
    (settled : h.Settled) (f : h.Forwards) : h'.Forwards := by
  induction actions generalizing h with
  | nil =>
    cases ran
    exact f
  | cons a actions ih =>
    obtain ⟨m, taken, rest⟩ := Option.bind_eq_some_iff.mp ran
    exact ih rest (step_faithful taken faithful) (step_settled taken faithful settled)
      (step_forwards taken faithful settled f)

/-- A connection writes on a channel only messages that were published on a fitting subject
after it subscribed, each at most once and those of one subscription in their order. -/
theorem forwarded_once (ran : WsHandler.run {} actions = some h) (i : Nat) (c : WsConnection)
    (at_i : h.connections[i]? = some c) : c.forwarded.Pairwise Succeeds ∧
      ∀ e ∈ c.forwarded, e.2.2.1 ∈ eventMessages e.2.2.1.2 ∧
        h.broker.log[e.2.2.2]? = some e.2.2.1 ∧
        ∃ target f, wsChannel e.1 = some target ∧ h.broker.feeds[e.2.1]? = some f ∧
          f.since ≤ e.2.2.2 ∧ deliversMessage target.subject e.2.2.1 = true := by
  have blank : WsHandler.Forwards {} :=
    ⟨fun _ mem => absurd mem List.not_mem_nil, fun _ _ at_i => by simp at at_i,
      fun _ _ _ at_i => by simp at at_i, fun _ _ at_i => by simp at at_i⟩
  have idle : WsHandler.Tracks {} fun _ _ => false := fun _ _ => by simp
  have empty : Fanout.Faithful deliversMessage ({} : Broker) :=
    fun _ mem => absurd mem List.not_mem_nil
  obtain ⟨faithful, settled, -⟩ := run_settled ran empty .idle idle
  have forwards := run_forwards ran empty .idle blank
  refine ⟨forwards.ordered i c at_i, fun e mem => ?_⟩
  obtain ⟨opened, f, found, taken⟩ := forwards.took i c e at_i mem
  obtain ⟨target, _, _, known, key⟩ := settled.made i c _ at_i opened
  obtain ⟨published, wanted⟩ := (faithful f (List.mem_of_getElem? found)).published
    (List.mem_append_left _ (List.mem_append_left _ taken))
  obtain ⟨since, -, fits⟩ := Feed.wants_iff.mp wanted
  have pattern : f.pattern = target.subject := by
    rw [WsHandler.key?, found, Option.map_some, feedKey] at key
    exact (Prod.mk.inj (Option.some.inj key)).1
  exact ⟨forwards.published _ (List.mem_of_getElem? published), published, target, f, known, found,
    since, pattern ▸ fits⟩

/-! ## Events across two subscriptions -/

def mailDone (n : Nat) : BrokerEvent where
  jobID := "00000000-0000-7000-8000-00000000000" ++ toString n
  queue := "mails"
  eventType := "job.state_changed"

/-- An event is still in the channel when the client leaves, and is written after the next
one, which the new subscription has brought. -/
def drained : List WsAction :=
  [.connect, .receive 0 (some ⟨"subscribe", "all"⟩) {} true,
    .publish (mailDone 1) (eventAllSubject, mailDone 1), .callback 0,
    .receive 0 (some ⟨"unsubscribe", "all"⟩) {} true,
    .receive 0 (some ⟨"subscribe", "all"⟩) {} true,
    .publish (mailDone 2) (eventAllSubject, mailDone 2), .callback 1,
    .forward 0 ("all", 1) true, .forward 0 ("all", 0) true]

theorem forwarded_once_drained : ∃ h c, WsHandler.run {} drained = some h ∧
    h.connections[0]? = some c ∧ c.forwarded.map (fun e => (e.2.1, e.2.2.2)) = [(1, 1), (0, 0)] ∧
    c.forwarded.Pairwise Succeeds := by
  obtain ⟨h, ran⟩ := Option.isSome_iff_exists.mp
    (show (WsHandler.run {} drained).isSome = true by decide)
  have there : ((WsHandler.run {} drained).bind fun h => h.connections[0]?.map fun c =>
      c.forwarded.map fun e => (e.2.1, e.2.2.2)) = some [(1, 1), (0, 0)] := by decide
  rw [ran, Option.bind_some] at there
  obtain ⟨c, at_0, order⟩ := Option.map_eq_some_iff.mp there
  exact ⟨h, c, ran, at_0, order, (forwarded_once ran 0 c at_0).1⟩

end Forwards

end OjsNats.Api
