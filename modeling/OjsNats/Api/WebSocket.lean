import OjsNats.Api.EventIDs
import OjsNats.Nats.Broker

/-!
# WebSocket connections

`handler_ws.go`: each connection reads its messages one after another and keeps its
subscriptions in a map.  Each subscription has a forwarder that writes its events to the
connection, beside the replies and beside each other.
-/

namespace OjsNats.Api

open Nats Subject

structure WsMessage where
  action : String := ""
  channel : String := ""

structure WsResponse where
  type : String
  channel : String := ""
  event : String := ""
  data : Option BrokerEvent := none
  id : String := ""
  timestamp : String := ""
  code : String := ""
  message : String := ""
  deriving DecidableEq

def errorResponse (code message : String) : WsResponse :=
  { type := "error", code := code, message := message }

def subscribedResponse (channel : String) : WsResponse :=
  { type := "subscribed", channel := channel }

def eventResponse (channel : String) (event : BrokerEvent) (id : UInt64) : WsResponse where
  type := "event"
  channel := channel
  event := event.eventType
  data := some event
  id := formatEventID id
  timestamp := event.timestamp

/-! ## Channels -/

def hasPrefix (s pre : String) : Bool := pre.toList.isPrefixOf s.toList

def trimPrefix (s pre : String) : String :=
  if hasPrefix s pre then String.ofList (s.toList.drop pre.toList.length) else s

inductive WsChannel where
  | job (jobID : String)
  | queue (queueName : String)
  | all

def wsChannel (channel : String) : Option WsChannel :=
  if hasPrefix channel "job:" then some (.job (trimPrefix channel "job:"))
  else if hasPrefix channel "queue:" then some (.queue (trimPrefix channel "queue:"))
  else if channel = "all" then some .all
  else none

/-- What is subscribed to. -/
def WsChannel.subject : WsChannel → String
  | .job jobID => eventJobSubject jobID
  | .queue queueName => eventQueueSubject queueName
  | .all => eventAllSubject

/-- What is said if the backend does not find it. -/
def WsChannel.notFound : WsChannel → Option String
  | .job _ => some "Job not found."
  | .queue _ => some "Queue not found."
  | .all => none

/-! ## The handler -/

/-- What was written to a connection: a reply, or an event of a subscription. -/
inductive WsFrame where
  | reply (response : WsResponse)
  | event (channel : String) (feed : Nat) (message : EventMessage × Nat) (id : UInt64)

def WsFrame.response : WsFrame → WsResponse
  | .reply response => response
  | .event channel _ message id => eventResponse channel message.1.2 id

/-- A connection.  A subscription is the number that it has at the broker. -/
structure WsConnection where
  subs : List (String × Nat) := []
  /-- All subscriptions that were made, with their channels. -/
  opened : List (String × Nat) := []
  /-- The forwarders that are still running. -/
  forwarders : List (String × Nat) := []
  frames : List WsFrame := []
  /-- `Handle` has returned. -/
  returned : Bool := false

structure WsHandler where
  broker : Broker := {}
  eventID : UInt64 := 0
  connections : List WsConnection := []
  /-- The subscriptions whose unsubscribe function was called, in order. -/
  cancelled : List Nat := []

/-- A write fails once the context of the connection is cancelled, and may fail before. -/
def WsConnection.write (written : Bool) (frame : WsFrame) (c : WsConnection) : WsConnection :=
  if written && !c.returned then { c with frames := c.frames ++ [frame] } else c

/-- What the backend and the broker answer to a `subscribe`. -/
structure WsAnswers where
  found : Bool := true
  granted : Bool := true

namespace WsHandler

variable (h : WsHandler)

def setConnection (i : Nat) (c : WsConnection) : WsHandler :=
  { h with connections := h.connections.set i c }

/-- The call of an unsubscribe function. -/
def cancel (feed : Nat) : WsHandler :=
  { h with broker := h.broker.unsubscribe feed, cancelled := h.cancelled ++ [feed] }

def handleSubscribe (c : WsConnection) (channel : String) (answers : WsAnswers) :
    WsHandler × WsConnection × WsResponse :=
  if (c.subs.lookup channel).isSome then (h, c, subscribedResponse channel)
  else
    match wsChannel channel with
    | none => (h, c, errorResponse "invalid_request"
        "Invalid channel. Use 'job:\x7bid\x7d', 'queue:\x7bname\x7d', or 'all'.")
    | some target =>
        match (if answers.found then none else target.notFound) with
        | some message => (h, c, errorResponse "not_found" message)
        | none =>
            if answers.granted then
              let sub := (channel, h.broker.feeds.length)
              ({ h with broker := h.broker.subscribe target.subject },
                { c with
                  subs := c.subs ++ [sub]
                  opened := c.opened ++ [sub]
                  forwarders := c.forwarders ++ [sub] },
                subscribedResponse channel)
            else (h, c, errorResponse "internal_error" "Failed to subscribe.")

def handleUnsubscribe (c : WsConnection) (channel : String) :
    WsHandler × WsConnection × WsResponse :=
  let response : WsResponse := { type := "unsubscribed", channel := channel }
  match c.subs.lookup channel with
  | some feed =>
      (h.cancel feed, { c with subs := c.subs.filter fun sub => sub.1 ≠ channel }, response)
  | none => (h, c, response)

/-- One round of the loop of `Handle`; `none` is a message that is no JSON. -/
def handleMessage (c : WsConnection) (answers : WsAnswers) :
    Option WsMessage → WsHandler × WsConnection × WsResponse
  | none => (h, c, errorResponse "invalid_request" "Invalid JSON message.")
  | some msg =>
      if msg.action = "subscribe" then h.handleSubscribe c msg.channel answers
      else if msg.action = "unsubscribe" then h.handleUnsubscribe c msg.channel
      else (h, c, errorResponse "invalid_request"
        "Unknown action. Use 'subscribe' or 'unsubscribe'.")

end WsHandler

inductive WsAction where
  | connect
  /-- A message from a client; `written` says whether the reply could be written. -/
  | receive (i : Nat) (msg : Option WsMessage) (answers : WsAnswers) (written : Bool)
  /-- The next message of a client cannot be read. -/
  | disconnect (i : Nat)
  /-- One of the messages of an event goes out. -/
  | publish (event : BrokerEvent) (msg : EventMessage)
  | callback (feed : Nat)
  /-- A forwarder takes the next event from its channel. -/
  | forward (i : Nat) (sub : String × Nat) (written : Bool)
  /-- A forwarder returns. -/
  | quit (i : Nat) (sub : String × Nat)

namespace WsHandler

/-- What happens to the handler and the connections, if it can happen. -/
def step (h : WsHandler) : WsAction → Option WsHandler
  | .connect => some { h with connections := h.connections ++ [{}] }
  | .receive i msg answers written =>
      match h.connections[i]? with
      | some c =>
          if c.returned then none
          else
            let (h', c', response) := h.handleMessage c answers msg
            some (h'.setConnection i (c'.write written (.reply response)))
      | none => none
  | .disconnect i =>
      match h.connections[i]? with
      | some c =>
          if c.returned then none
          else
            some ((c.subs.foldl (fun h sub => h.cancel sub.2) h).setConnection i
              { c with returned := true })
      | none => none
  | .publish event msg =>
      if msg ∈ eventMessages event then
        some { h with broker := h.broker.publish deliversMessage msg }
      else none
  | .callback feed => some { h with broker := h.broker.on feed (Feed.callback channelCapacity) }
  | .forward i sub written =>
      match h.connections[i]?, h.broker.feeds[sub.2]? with
      | some c, some feed =>
          match feed.channel with
          | message :: _ =>
              if sub ∈ c.forwarders then
                let id := h.eventID + 1
                some { h with
                  broker := h.broker.on sub.2 Feed.take
                  eventID := id
                  connections :=
                    h.connections.set i (c.write written (.event sub.1 sub.2 message id)) }
              else none
          | [] => none
      | _, _ => none
  | .quit i sub =>
      match h.connections[i]?, h.broker.feeds[sub.2]? with
      | some c, some feed =>
          if c.returned ∨ (feed.ended.isSome ∧ feed.channel = []) then
            some (h.setConnection i { c with forwarders := c.forwarders.filter (· ≠ sub) })
          else none
      | _, _ => none

def run (h : WsHandler) : List WsAction → Option WsHandler
  | [] => some h
  | a :: actions => (h.step a).bind fun h' => run h' actions

end WsHandler

end OjsNats.Api
