import OjsNats.Core.Sample
import OjsNats.Nats.Broker

/-!
# Streams of events

`StreamEvents` subscribes to one job, to one queue or to everything, and filters what comes
by queue and by type.  Whichever subscription it takes, it sends the events that the request
asks for.
-/

namespace OjsNats.Grpc

open Core Nats Subject

structure StreamEventsRequest where
  jobId : String := ""
  queues : List String := []
  eventTypes : List String := []

/-- A value in the data of an event. -/
inductive EventValue where
  | text (s : String)
  | number (n : Int)
  deriving DecidableEq

structure ProtoEvent where
  id : String := ""
  type : String := ""
  jobId : String := ""
  jobType : String := ""
  queue : String := ""
  timestamp : Option Int := none
  data : List (String × EventValue) := []

def jobEventToProto (lib : Externals) (id : String) (e : BrokerEvent) : ProtoEvent where
  id := "evt_" ++ id
  type := e.eventType
  jobId := e.jobID
  jobType := e.jobType
  queue := e.queue
  timestamp := if e.timestamp ≠ "" then lib.parseRFC3339 e.timestamp else none
  data :=
    (if e.fromState ≠ "" then [("from", .text e.fromState)] else []) ++
    (if e.toState ≠ "" then [("to", .text e.toState)] else []) ++
    (if 0 < e.progress then [("progress", .number e.progress)] else []) ++
    (if e.message ≠ "" then [("message", .text e.message)] else [])

def keepaliveEvent (now : Int) : ProtoEvent where
  id := "evt_keepalive"
  type := "stream.keepalive"
  timestamp := some now

/-- What the stream subscribes to. -/
def eventsSubject (req : StreamEventsRequest) : String :=
  if req.jobId ≠ "" then eventJobSubject req.jobId
  else
    match req.queues with
    | [queue] => eventQueueSubject queue
    | _ => eventAllSubject

/-- The filters of the loop. -/
def passesFilters (req : StreamEventsRequest) (e : BrokerEvent) : Bool :=
  (req.queues.isEmpty || e.queue ∈ req.queues) &&
    (req.eventTypes.isEmpty || e.eventType ∈ req.eventTypes)

/-- What was sent: an event with the message it was made of, or a sign of life. -/
inductive SentEvent where
  | event (message : EventMessage × Nat) (event : ProtoEvent)
  | keepalive (event : ProtoEvent)

/-- A call of `StreamEvents`, and its subscription at the broker. -/
structure EventStream where
  broker : Broker
  feed : Nat
  sent : List SentEvent := []
  serving : Bool := true

/-- The subscription, without a subscriber none. -/
def streamEvents (req : StreamEventsRequest) (subscriber : Option Broker) (granted : Bool) :
    Except String EventStream :=
  match subscriber with
  | none => .error "event streaming is not configured"
  | some b =>
      if granted then
        .ok { broker := b.subscribe (eventsSubject req), feed := b.feeds.length }
      else .error "failed to subscribe"

inductive StreamAction where
  /-- One of the messages of an event goes out. -/
  | publish (event : BrokerEvent) (msg : EventMessage)
  | callback (feed : Nat)
  /-- The loop takes the next event, for which `newID` is generated. -/
  | receive (newID : String) (written : Bool)
  | keepalive (now : Int) (written : Bool)
  /-- The client has gone. -/
  | done

namespace EventStream

variable (lib : Externals) (req : StreamEventsRequest)

/-- `Send`; when it fails the call returns, and unsubscribes. -/
def send (s : EventStream) (sent : SentEvent) (written : Bool) : EventStream :=
  if written then { s with sent := s.sent ++ [sent] }
  else { s with broker := s.broker.unsubscribe s.feed, serving := false }

def step (s : EventStream) : StreamAction → Option EventStream
  | .publish event msg =>
      if msg ∈ eventMessages event then
        some { s with broker := s.broker.publish deliversMessage msg }
      else none
  | .callback feed => some { s with broker := s.broker.on feed (Feed.callback channelCapacity) }
  | .receive newID written =>
      if s.serving then
        (s.broker.feeds[s.feed]?).bind fun f => f.channel.head?.map fun message =>
          let s := { s with broker := s.broker.on s.feed Feed.take }
          if passesFilters req message.1.2 then
            s.send (.event message (jobEventToProto lib newID message.1.2)) written
          else s
      else none
  | .keepalive now written =>
      if s.serving then some (s.send (.keepalive (keepaliveEvent now)) written) else none
  | .done =>
      if s.serving then
        some { s with broker := s.broker.unsubscribe s.feed, serving := false }
      else none

def run (s : EventStream) : List StreamAction → Option EventStream
  | [] => some s
  | a :: actions => (s.step lib req a).bind fun s' => run s' actions

/-- The messages of the events that were sent. -/
def events (s : EventStream) : List (EventMessage × Nat) :=
  s.sent.filterMap fun
    | .event message _ => some message
    | .keepalive _ => none

/-- All that was published for the stream has come through. -/
def CaughtUp (s : EventStream) : Prop :=
  s.serving = true ∧ ∀ f, s.broker.feeds[s.feed]? = some f →
    f.dropped = 0 ∧ f.pending = [] ∧ f.channel = []

end EventStream

/-! ## What a request asks for -/

/-- The event is what the request asks for. -/
def StreamEventsRequest.Matches (req : StreamEventsRequest) (e : BrokerEvent) : Prop :=
  (req.jobId ≠ "" → e.jobID = req.jobId) ∧ (req.queues ≠ [] → e.queue ∈ req.queues) ∧
    (req.eventTypes ≠ [] → e.eventType ∈ req.eventTypes)

instance (req : StreamEventsRequest) (e : BrokerEvent) : Decidable (req.Matches e) :=
  inferInstanceAs (Decidable ((_ → _) ∧ (_ → _) ∧ (_ → _)))

/-- The messages published since the stream began whose events the request asks for, on the
subject that the stream has chosen. -/
def wantedMessages (req : StreamEventsRequest) (since : Nat) (log : List EventMessage) :
    List (EventMessage × Nat) :=
  log.zipIdx.filter fun m =>
    decide (since ≤ m.2 ∧ m.1.1 = eventsSubject req ∧ req.Matches m.1.2)

section Matching

variable {req : StreamEventsRequest} {e : BrokerEvent} {msg : EventMessage} {jobID queue : String}

theorem mem_eventMessages : msg ∈ eventMessages e ↔ msg.2 = e ∧
    (msg.1 = eventJobSubject e.jobID ∨ (e.queue ≠ "" ∧ msg.1 = eventQueueSubject e.queue) ∨
      msg.1 = eventAllSubject) := by
  obtain ⟨subject, event⟩ := msg
  by_cases named : e.queue = ""
  · simp [eventMessages, publishJobEvent, named, eq_comm]
    tauto
  · simp [eventMessages, publishJobEvent, named, eq_comm]
    tauto

/-- A subscription to one kind of subjects gets a message if it is of that kind. -/
theorem delivers_kind {subscribed kind kind' : String} {pattern rest : List (List Char)}
    {subject : String} (kinds : kind ∈ ["job", "queue"]) (nonempty : pattern ≠ [])
    (split : tokens subscribed = "ojs".toList :: "events".toList :: kind.toList :: pattern)
    (split' : tokens subject = "ojs".toList :: "events".toList :: kind'.toList :: rest) :
    delivers subscribed subject = true ↔
      kind = kind' ∧ wildcards.matches? pattern rest = true := by
  rw [delivers, split, split', matches?_event kind kinds nonempty]

theorem job_ne_queue : eventJobSubject jobID ≠ eventQueueSubject queue := fun same => by
  have split := (tokens_eventJobSubject jobID).symm.trans
    ((congrArg tokens same).trans (tokens_eventQueueSubject queue))
  simp at split

theorem job_ne_all : eventJobSubject jobID ≠ eventAllSubject := fun same => by
  have split := (tokens_eventJobSubject jobID).symm.trans
    ((congrArg tokens same).trans tokens_eventAllSubject)
  simp at split

theorem queue_ne_all : eventQueueSubject queue ≠ eventAllSubject := fun same => by
  have split := (tokens_eventQueueSubject queue).symm.trans
    ((congrArg tokens same).trans tokens_eventAllSubject)
  simp at split

theorem delivers_job (mem : msg ∈ eventMessages e) :
    deliversMessage (eventJobSubject jobID) msg = true ↔
      msg.1 = eventJobSubject e.jobID ∧
        wildcards.matches? (tokens jobID) (tokens e.jobID) = true := by
  have nonempty : tokens jobID ≠ [] := List.splitOn_ne_nil '.' jobID.toList
  have kind (kind' : String) {subject : String} {rest : List (List Char)}
      (split : tokens subject = "ojs".toList :: "events".toList :: kind'.toList :: rest) :=
    delivers_kind (by simp) nonempty (tokens_eventJobSubject jobID) split
  obtain ⟨-, job | ⟨-, queue⟩ | all⟩ := mem_eventMessages.mp mem
  · rw [deliversMessage, job, kind "job" (tokens_eventJobSubject e.jobID)]
    simp
  · rw [deliversMessage, queue, kind "queue" (tokens_eventQueueSubject e.queue)]
    simp [job_ne_queue.symm]
  · rw [deliversMessage, all, kind "all" tokens_eventAllSubject]
    simp [job_ne_all.symm]

theorem delivers_queue (mem : msg ∈ eventMessages e) :
    deliversMessage (eventQueueSubject queue) msg = true ↔
      msg.1 = eventQueueSubject e.queue ∧
        wildcards.matches? (tokens queue) (tokens e.queue) = true := by
  have nonempty : tokens queue ≠ [] := List.splitOn_ne_nil '.' queue.toList
  have kind (kind' : String) {subject : String} {rest : List (List Char)}
      (split : tokens subject = "ojs".toList :: "events".toList :: kind'.toList :: rest) :=
    delivers_kind (by simp) nonempty (tokens_eventQueueSubject queue) split
  obtain ⟨-, job | ⟨-, here⟩ | all⟩ := mem_eventMessages.mp mem
  · rw [deliversMessage, job, kind "job" (tokens_eventJobSubject e.jobID)]
    simp [job_ne_queue]
  · rw [deliversMessage, here, kind "queue" (tokens_eventQueueSubject e.queue)]
    simp
  · rw [deliversMessage, all, kind "all" tokens_eventAllSubject]
    simp [queue_ne_all.symm]

theorem delivers_all : deliversMessage eventAllSubject msg = true ↔ msg.1 = eventAllSubject := by
  constructor
  · intro matched
    refine tokens_injective (Wildcards.eq_of_matches? ?_ matched)
    rw [tokens_eventAllSubject]
    simp [Wildcards.HasWildcard, wildcards]
  · intro same
    rw [deliversMessage, same]
    exact Wildcards.matches?_self _ _

theorem passesFilters_iff : passesFilters req e = true ↔
    (req.queues ≠ [] → e.queue ∈ req.queues) ∧
      (req.eventTypes ≠ [] → e.eventType ∈ req.eventTypes) := by
  simp [passesFilters, List.isEmpty_iff, or_iff_not_imp_left]

/-- Between them, the subscription and the filters let through what the request asks for. -/
theorem delivers_and_passes (valid : e.toJobEvent.Valid) (one : req.jobId ≠ "*")
    (tail : req.jobId ≠ ">") (mem : msg ∈ eventMessages e) :
    deliversMessage (eventsSubject req) msg = true ∧ passesFilters req e = true ↔
      msg.1 = eventsSubject req ∧ req.Matches e := by
  rw [passesFilters_iff, StreamEventsRequest.Matches, eventsSubject]
  split
  · rename_i job
    have single : wildcards.matches? (tokens req.jobId) (tokens e.jobID) = true ↔
        req.jobId = e.jobID := by
      rw [valid.jobID.tokens, Wildcards.matches?_singleton, ← valid.jobID.tokens]
      have star : tokens "*" = [wildcards.one] := by decide
      have rest : tokens ">" = [wildcards.tail] := by decide
      rw [← star, ← rest, tokens_injective.eq_iff, tokens_injective.eq_iff,
        tokens_injective.eq_iff]
      simp [one, tail]
    rw [delivers_job mem, single]
    constructor
    · rintro ⟨⟨subject, same⟩, filters⟩
      exact ⟨same ▸ subject, fun _ => same.symm, filters⟩
    · rintro ⟨subject, same, filters⟩
      have same := same job
      exact ⟨⟨same ▸ subject, same.symm⟩, filters⟩
  · rename_i job
    have free : req.jobId ≠ "" → e.jobID = req.jobId := fun other => absurd other job
    split
    · rename_i queue queues
      rw [delivers_queue mem, queues]
      constructor
      · rintro ⟨⟨subject, -⟩, named, types⟩
        have same : e.queue = queue := by simpa using named
        exact ⟨same ▸ subject, free, named, types⟩
      · rintro ⟨subject, -, named, types⟩
        have same : e.queue = queue := by simpa using named
        refine ⟨⟨same ▸ subject, ?_⟩, named, types⟩
        rw [same]
        exact Wildcards.matches?_self _ _
    · rw [delivers_all]
      constructor
      · rintro ⟨subject, filters⟩
        exact ⟨subject, free, filters⟩
      · rintro ⟨subject, -, filters⟩
        exact ⟨subject, filters⟩

/-- One of the messages of an event that the request asks for is on the subject that the stream
has chosen. -/
theorem eventsSubject_mem (valid : e.toJobEvent.Valid) (asked : req.Matches e) :
    (eventsSubject req, e) ∈ eventMessages e := by
  refine mem_eventMessages.mpr ⟨rfl, ?_⟩
  unfold eventsSubject
  split
  · rename_i job
    exact .inl (congrArg eventJobSubject (asked.1 job).symm)
  · split
    · rename_i queue queues
      have same : e.queue = queue := by simpa [queues] using asked.2.1
      exact .inr (.inl ⟨valid.named, congrArg eventQueueSubject same.symm⟩)
    · exact .inr (.inr rfl)

end Matching

/-! ## Streams -/

/-- The loop sends what it takes and what passes the filters; the messages since the stream
began are of valid events. -/
structure EventStream.Attends (lib : Externals) (req : StreamEventsRequest) (since : Nat)
    (s : EventStream) (f : Feed String EventMessage) : Prop where
  found : s.broker.feeds[s.feed]? = some f
  faithful : f.Faithful deliversMessage s.broker.log
  pattern : f.pattern = eventsSubject req
  began : f.since = since
  published : ∀ (n : Nat) msg, since ≤ n → s.broker.log[n]? = some msg →
    msg ∈ eventMessages msg.2 ∧ msg.2.toJobEvent.Valid
  sent : s.events.Sublist (f.taken.filter fun m => passesFilters req m.1.2)
  all : s.serving = true →
    f.ended = none ∧ s.events = f.taken.filter fun m => passesFilters req m.1.2
  made : ∀ m p, .event m p ∈ s.sent → ∃ newID, p = jobEventToProto lib newID m.1.2

section Streams

variable {lib : Externals} {req : StreamEventsRequest} {since : Nat} {s s' : EventStream}
  {f f' : Feed String EventMessage} {a : StreamAction} {actions : List StreamAction}

/-- What is not the loop's doing leaves what it has taken as it is. -/
theorem EventStream.Attends.beside {b : Broker} (h : s.Attends lib req since f)
    (found : b.feeds[s.feed]? = some f') (faithful : f'.Faithful deliversMessage b.log)
    (same : f'.pattern = f.pattern ∧ f'.since = f.since ∧ f'.ended = f.ended ∧ f'.taken = f.taken)
    (published : ∀ (n : Nat) msg, since ≤ n → b.log[n]? = some msg →
      msg ∈ eventMessages msg.2 ∧ msg.2.toJobEvent.Valid) :
    EventStream.Attends lib req since { s with broker := b } f' := by
  obtain ⟨pattern, began, ended, taken⟩ := same
  refine ⟨found, faithful, pattern.trans h.pattern, began.trans h.began, published, ?_, ?_, h.made⟩
  · rw [taken]
    exact h.sent
  · intro serving
    rw [ended, taken]
    exact h.all serving

theorem same_publish (msg : EventMessage) (n : Nat) (f : Feed String EventMessage) :
    (f.publish deliversMessage msg n).pattern = f.pattern ∧
      (f.publish deliversMessage msg n).since = f.since ∧
      (f.publish deliversMessage msg n).ended = f.ended ∧
      (f.publish deliversMessage msg n).taken = f.taken := by
  unfold Feed.publish
  split <;> exact ⟨rfl, rfl, rfl, rfl⟩

theorem same_callback (f : Feed String EventMessage) :
    (f.callback channelCapacity).pattern = f.pattern ∧
      (f.callback channelCapacity).since = f.since ∧
      (f.callback channelCapacity).ended = f.ended ∧
      (f.callback channelCapacity).taken = f.taken := by
  unfold Feed.callback
  split
  · exact ⟨rfl, rfl, rfl, rfl⟩
  · split <;> exact ⟨rfl, rfl, rfl, rfl⟩

/-- The loop sends something, or returns because it cannot. -/
theorem attends_send (sent : SentEvent) (message : List (EventMessage × Nat))
    (found : s.broker.feeds[s.feed]? = some f) (faithful : f.Faithful deliversMessage s.broker.log)
    (pattern : f.pattern = eventsSubject req) (began : f.since = since)
    (published : ∀ (n : Nat) msg, since ≤ n → s.broker.log[n]? = some msg →
      msg ∈ eventMessages msg.2 ∧ msg.2.toJobEvent.Valid)
    (goes : f.ended = none)
    (sending : EventStream.events { s with sent := s.sent ++ [sent] } = s.events ++ message)
    (all : s.events ++ message = f.taken.filter fun m => passesFilters req m.1.2)
    (made : ∀ m p, .event m p ∈ s.sent ++ [sent] → ∃ newID, p = jobEventToProto lib newID m.1.2)
    (written : Bool) : ∃ f', (s.send sent written).Attends lib req since f' := by
  unfold EventStream.send
  split
  · refine ⟨f, found, faithful, pattern, began, published, ?_, fun _ => ⟨goes, ?_⟩, made⟩
    · rw [sending, all]
    · rw [sending, all]
  · have same : (f.stop s.broker.log.length).pattern = f.pattern ∧
        (f.stop s.broker.log.length).since = f.since ∧
        (f.stop s.broker.log.length).taken = f.taken := by
      unfold Feed.stop
      split <;> exact ⟨rfl, rfl, rfl⟩
    obtain ⟨pattern', began', taken'⟩ := same
    refine ⟨f.stop s.broker.log.length, ?_, faithful.stop, pattern'.trans pattern,
      began'.trans began, published, ?_, nofun, ?_⟩
    · show (s.broker.unsubscribe s.feed).feeds[s.feed]? = _
      rw [Fanout.unsubscribe, Fanout.getElem?_on, found, Option.map_some, if_pos rfl]
    · rw [taken', ← all]
      exact List.sublist_append_left _ _
    · exact fun m p mem => made m p (List.mem_append_left _ mem)

/-- The loop takes an event, and sends it if it passes the filters. -/
theorem EventStream.Attends.receive (h : s.Attends lib req since f) {message : EventMessage × Nat}
    {rest : List (EventMessage × Nat)} (serving : s.serving = true)
    (channel : f.channel = message :: rest) (newID : String) (written : Bool) :
    ∃ f', EventStream.Attends lib req since
      (let s := { s with broker := s.broker.on s.feed Feed.take }
       if passesFilters req message.1.2 then
         s.send (.event message (jobEventToProto lib newID message.1.2)) written
       else s) f' := by
  have taking : f.take = { f with channel := rest, taken := f.taken ++ [message] } := by
    simp only [Feed.take, channel]
  obtain ⟨goes, all⟩ := h.all serving
  have found : (s.broker.on s.feed Feed.take).feeds[s.feed]? = some f.take := by
    rw [Fanout.getElem?_on, h.found, Option.map_some, if_pos rfl]
  have pattern : f.take.pattern = eventsSubject req := by rw [taking, ← h.pattern]
  have began : f.take.since = since := by rw [taking, ← h.began]
  have goes : f.take.ended = none := by rw [taking, ← goes]
  have taken : f.take.taken = f.taken ++ [message] := by rw [taking]
  dsimp only
  split
  · rename_i passes
    let s₁ : EventStream := { s with broker := s.broker.on s.feed Feed.take }
    have same : s₁.events = s.events := rfl
    refine attends_send (s := s₁) _ [message] found h.faithful.take pattern began h.published goes
      ?_ ?_ ?_ written
    · simp [EventStream.events]
    · rw [same, taken, List.filter_append, ← all, List.filter_singleton, passes]
      rfl
    · intro m p mem
      rw [List.mem_append, List.mem_singleton] at mem
      rcases mem with old | new
      · exact h.made m p old
      · cases new
        exact ⟨newID, rfl⟩
  · rename_i held
    have none : f.take.taken.filter (fun m => passesFilters req m.1.2) =
        f.taken.filter fun m => passesFilters req m.1.2 := by
      rw [taken, List.filter_append, List.filter_singleton, Bool.eq_false_iff.mpr held]
      exact List.append_nil _
    refine ⟨f.take, found, h.faithful.take, pattern, began, h.published, ?_, ?_, h.made⟩
    · rw [none]
      exact h.sent
    · rw [none]
      exact fun _ => ⟨goes, all⟩

theorem EventStream.Attends.step (h : s.Attends lib req since f)
    (valid : ∀ event msg, a = .publish event msg → event.toJobEvent.Valid)
    (taken : s.step lib req a = some s') : ∃ f', s'.Attends lib req since f' := by
  cases a with
  | publish event msg =>
    simp only [EventStream.step] at taken
    split at taken
    · rename_i own
      cases taken
      refine ⟨f.publish deliversMessage msg s.broker.log.length, h.beside ?_ h.faithful.publish
        (same_publish msg _ f) ?_⟩
      · rw [Fanout.getElem?_publish, h.found, Option.map_some]
      · intro n other late at_n
        rw [Fanout.publish, List.getElem?_append] at at_n
        split at at_n
        · exact h.published n other late at_n
        · rw [List.getElem?_singleton] at at_n
          split at at_n
          · cases at_n
            obtain ⟨same, -⟩ := mem_eventMessages.mp own
            exact same ▸ ⟨own, valid event msg rfl⟩
          · cases at_n
    · cases taken
  | callback feed =>
    cases taken
    by_cases here : feed = s.feed
    · refine ⟨f.callback channelCapacity, h.beside ?_ h.faithful.callback (same_callback f)
        h.published⟩
      rw [Fanout.getElem?_on, h.found, Option.map_some, if_pos here]
    · refine ⟨f, h.beside ?_ h.faithful ⟨rfl, rfl, rfl, rfl⟩ h.published⟩
      rw [Fanout.getElem?_on, h.found, Option.map_some, if_neg here]
  | receive newID written =>
    simp only [EventStream.step, h.found, Option.bind_some] at taken
    split at taken
    · rename_i serving
      obtain ⟨message, first, rfl⟩ := Option.map_eq_some_iff.mp taken
      obtain ⟨rest, channel⟩ := List.head?_eq_some_iff.mp first
      exact h.receive serving channel newID written
    · cases taken
  | keepalive now written =>
    simp only [EventStream.step] at taken
    split at taken
    · rename_i serving
      cases taken
      obtain ⟨goes, all⟩ := h.all serving
      refine attends_send _ [] h.found h.faithful h.pattern h.began h.published goes ?_ ?_ ?_
        written
      · simp [EventStream.events]
      · rw [List.append_nil, all]
      · intro m p mem
        rw [List.mem_append, List.mem_singleton] at mem
        rcases mem with old | new
        · exact h.made m p old
        · cases new
    · cases taken
  | done =>
    simp only [EventStream.step] at taken
    split at taken
    · rename_i serving
      cases taken
      obtain ⟨goes, all⟩ := h.all serving
      -- as when a sign of life cannot be sent
      exact attends_send (.keepalive {}) [] h.found h.faithful h.pattern h.began h.published goes
        (by simp [EventStream.events]) (by rw [List.append_nil, all])
        (fun m p mem => h.made m p (by simpa using mem)) false
    · cases taken

theorem EventStream.Attends.run (h : s.Attends lib req since f)
    (valid : ∀ event msg, .publish event msg ∈ actions → event.toJobEvent.Valid)
    (ran : s.run lib req actions = some s') : ∃ f', s'.Attends lib req since f' := by
  induction actions generalizing s f with
  | nil =>
    cases ran
    exact ⟨f, h⟩
  | cons a actions ih =>
    obtain ⟨s₁, first, later⟩ := Option.bind_eq_some_iff.mp ran
    obtain ⟨f₁, h₁⟩ := h.step
      (fun event msg here => valid event msg (here ▸ List.mem_cons_self)) first
    exact ih h₁ (fun event msg mem => valid event msg (List.mem_cons_of_mem _ mem)) later

/-- What was sent is what the request asks for. -/
theorem EventStream.Attends.wanted (h : s.Attends lib req since f) (one : req.jobId ≠ "*")
    (tail : req.jobId ≠ ">") : s.events.Sublist (wantedMessages req since s.broker.log) ∧
      (s.CaughtUp → s.events = wantedMessages req since s.broker.log) := by
  have fits {m : EventMessage × Nat} (at_n : s.broker.log[m.2]? = some m.1)
      (late : since ≤ m.2) :
      deliversMessage (eventsSubject req) m.1 = true ∧ passesFilters req m.1.2 = true ↔
        m.1.1 = eventsSubject req ∧ req.Matches m.1.2 :=
    have known := h.published m.2 m.1 late at_n
    delivers_and_passes known.2 one tail known.1
  constructor
  · have among : s.events.Sublist (f.taken.filter fun m => passesFilters req m.1.2) := h.sent
    have carried : f.taken.Sublist (f.meant deliversMessage s.broker.log) := by
      refine List.Sublist.trans ?_ h.faithful.order
      unfold Feed.carried
      rw [List.append_assoc]
      exact List.sublist_append_left _ _
    have within : s.events.Sublist s.broker.log.zipIdx :=
      among.trans (List.filter_sublist.trans (carried.trans List.filter_sublist))
    have each : ∀ m ∈ s.events,
        decide (since ≤ m.2 ∧ m.1.1 = eventsSubject req ∧ req.Matches m.1.2) = true := by
      intro m mem
      obtain ⟨taken, passes⟩ := List.mem_filter.mp (among.subset mem)
      obtain ⟨at_n, wanted⟩ := Feed.mem_meant.mp (carried.subset taken)
      obtain ⟨late, -, delivered⟩ := Feed.wants_iff.mp wanted
      rw [h.began] at late
      rw [h.pattern] at delivered
      exact decide_eq_true ⟨late, (fits at_n late).mp ⟨delivered, passes⟩⟩
    rw [← List.filter_eq_self.mpr each]
    exact within.filter _
  · rintro ⟨serving, drained⟩
    obtain ⟨kept, pending, channel⟩ := drained f h.found
    obtain ⟨goes, all⟩ := h.all serving
    have whole : f.taken = f.meant deliversMessage s.broker.log := by
      rw [← h.faithful.whole kept goes, Feed.carried, channel, pending]
      simp
    rw [all, whole, Feed.meant, List.filter_filter, wantedMessages]
    refine List.filter_congr fun m mem => ?_
    have at_n := List.mem_zipIdx_iff_getElem?.mp mem
    rw [Bool.eq_iff_iff, Bool.and_eq_true, Feed.wants_iff, h.began, h.pattern, decide_eq_true_iff]
    constructor
    · rintro ⟨passes, late, -, delivered⟩
      exact ⟨late, (fits at_n late).mp ⟨delivered, passes⟩⟩
    · rintro ⟨late, asked⟩
      obtain ⟨delivered, passes⟩ := (fits at_n late).mpr asked
      exact ⟨passes, late, by simp [goes], delivered⟩

/-- A stream sends each event that its request asks for at most once, in the order of
publication, and nothing else; none is left out once all that was published has come through. -/
theorem streamed {b : Broker} {s₀ : EventStream}
    (opened : streamEvents req (some b) true = .ok s₀) (ran : s₀.run lib req actions = some s)
    (one : req.jobId ≠ "*") (tail : req.jobId ≠ ">")
    (valid : ∀ event msg, .publish event msg ∈ actions → event.toJobEvent.Valid) :
    s.events.Sublist (wantedMessages req b.log.length s.broker.log) ∧
      (s.CaughtUp → s.events = wantedMessages req b.log.length s.broker.log) ∧
      (∀ m p, .event m p ∈ s.sent → ∃ newID, p = jobEventToProto lib newID m.1.2) ∧
      ∀ e : BrokerEvent, e.toJobEvent.Valid → req.Matches e →
        (eventsSubject req, e) ∈ eventMessages e := by
  cases opened
  have start : EventStream.Attends lib req b.log.length
      { broker := b.subscribe (eventsSubject req), feed := b.feeds.length }
      { pattern := eventsSubject req, since := b.log.length } := by
    refine ⟨?_, .idle _, rfl, rfl, ?_, List.Sublist.refl _, fun _ => ⟨rfl, rfl⟩, nofun⟩
    · rw [Fanout.getElem?_subscribe, if_pos rfl]
    · intro n msg late at_n
      have below := (List.getElem?_eq_some_iff.mp at_n).1
      exact absurd below (Nat.not_lt_of_le late)
  obtain ⟨f, attends⟩ := start.run valid ran
  obtain ⟨sublist, caught⟩ := attends.wanted one tail
  exact ⟨sublist, caught, attends.made, fun e valid asked => eventsSubject_mem valid asked⟩

/-! ## The progress of one queue -/

def progressOf (queue : String) : BrokerEvent where
  jobID := "00000000-0000-7000-8000-000000000000"
  queue := queue
  eventType := "job.progress"
  progress := 50

theorem valid_progressOf : ∀ queue ∈ ["mails", "reports"], (progressOf queue).toJobEvent.Valid := by
  intro queue mem
  have format := isUUID_sampleEvent ""
  rcases List.mem_pair.mp mem with rfl | rfl
  · exact ⟨⟨'m', "ails".toList, by decide, by decide, by decide⟩, format⟩
  · exact ⟨⟨'r', "eports".toList, by decide, by decide, by decide⟩, format⟩

def mailProgress : StreamEventsRequest where
  queues := ["mails"]
  eventTypes := ["job.progress"]

/-- Two jobs make progress, one of them in the queue. -/
def progressing : List StreamAction :=
  [.publish (progressOf "mails") (eventQueueSubject "mails", progressOf "mails"), .callback 0,
    .publish (progressOf "reports") (eventQueueSubject "reports", progressOf "reports"),
    .receive "1" true]

theorem streamed_progressing : ∃ s₀ s, streamEvents mailProgress (some {}) true = .ok s₀ ∧
    s₀.run sample mailProgress progressing = some s ∧
    s.events = [((eventQueueSubject "mails", progressOf "mails"), 0)] ∧
    s.events.Sublist (wantedMessages mailProgress 0 s.broker.log) := by
  let s₀ : EventStream := { broker := Fanout.subscribe (eventsSubject mailProgress) {}, feed := 0 }
  have there : (s₀.run sample mailProgress progressing).map EventStream.events =
      some [((eventQueueSubject "mails", progressOf "mails"), 0)] := by decide
  obtain ⟨s, ran, sent⟩ := Option.map_eq_some_iff.mp there
  have valid : ∀ event msg, .publish event msg ∈ progressing → event.toJobEvent.Valid := by
    intro event msg mem
    simp only [progressing, List.mem_cons, StreamAction.publish.injEq, reduceCtorEq,
      List.not_mem_nil, false_or, or_false] at mem
    rcases mem with ⟨rfl, -⟩ | ⟨rfl, -⟩
    · exact valid_progressOf "mails" (by simp)
    · exact valid_progressOf "reports" (by simp)
  exact ⟨s₀, s, rfl, ran, sent,
    (streamed (b := {}) rfl ran (by decide) (by decide) valid).1⟩

end Streams

end OjsNats.Grpc
