import OjsNats.Nats.PubSub
import OjsNats.Subject.Fanout

/-!
# Events on their way

`pubsub.go`: NATS hands the messages of a subscription to its callback one after another,
and the callback puts the events into a channel with room for 64.
-/

namespace OjsNats.Nats

open Subject

/-- The fields of `core.JobEvent` that are read on this side. -/
structure BrokerEvent extends JobEvent where
  eventType : String := ""
  jobType : String := ""
  fromState : String := ""
  toState : String := ""
  progress : Int := 0
  message : String := ""
  timestamp : String := ""
  deriving DecidableEq

/-- A message: its subject, and the event in it. -/
abbrev EventMessage := String × BrokerEvent

/-- The messages of `PublishJobEvent`, which go out one by one. -/
def eventMessages (event : BrokerEvent) : List EventMessage :=
  (publishJobEvent event.toJobEvent).map fun msg => (msg.1, event)

instance (event : BrokerEvent) : DecidablePred (· ∈ eventMessages event) :=
  fun _ => inferInstance

def deliversMessage (subscribed : String) (msg : EventMessage) : Bool := delivers subscribed msg.1

/-- The room in the channel of a subscription. -/
def channelCapacity : Nat := 64

abbrev Broker := Fanout String EventMessage

end OjsNats.Nats
