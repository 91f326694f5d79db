import OjsNats.Kv.Stores

/-!
# Helpers, consumers and the producer

`helpers.go`, `consumer.go` and `producer.go`.
-/

namespace OjsNats.Nats

open Core Effect

/-- `time.Now()` -/
def timeNow : Prog Int := Program.ask Op.now

/-- `core.NewUUIDv7()` -/
def newUUIDv7 : Prog String := Program.ask Op.newUUIDv7

/-- `core.CalculateBackoff`, which may draw a random jitter. -/
def calculateBackoff (retry : Option RetryPolicy) (attempt : Int) : Prog Int :=
  Program.ask (Op.calculateBackoff retry attempt)

/-- `matchesPattern`; the compiled expressions are cached for the whole server. -/
def matchesPattern (lib : Externals) (s pattern : String) : Prog Bool := do
  let key := "^" ++ pattern ++ "$"
  let cached : Option (String → Bool) ← Program.ask (Op.regexLoad key)
  match cached with
  | some re => return re s
  | none =>
      match lib.compileRegexp key with
      | none => return s == pattern
      | some re => do
          let _ : Unit ← Program.ask (Op.regexStore key re)
          return re s

def getJobState (jobID : String) : Prog (Except CallError Job) := do
  match ← Store.get .jobs jobID with
  | .ok (data, _) => return .ok (unmarshalJobState data)
  | .error e => return .error e

def putJobState (job : Job) : Prog (Except CallError Nat) :=
  Store.put .jobs job.id (marshalJobState job)

/-- `json.Unmarshal` of a queue record into `target`: the fields that are left
out when zero keep what `target` had. -/
def unmarshalQueueMeta (data target : QueueMeta) : QueueMeta :=
  { data with
    rateLimitPerSec :=
      if data.rateLimitPerSec = 0 then target.rateLimitPerSec else data.rateLimitPerSec
    lastFetchMs := if data.lastFetchMs = 0 then target.lastFetchMs else data.lastFetchMs }

def ensureQueue (name : String) : Prog Unit := do
  if ← Store.exists? .queues name then
    return ()
  else
    let _ ← Store.put .queues name { name := name, paused := false : QueueMeta }
    return ()

def isQueuePaused (name : String) : Prog Bool := do
  match ← Store.get .queues name with
  | .error _ => return false
  | .ok (data, _) => return (data : QueueMeta).paused

def isRateLimited (queue : String) (now : Int) : Prog Bool := do
  match ← Store.get .queues queue with
  | .error _ => return false
  | .ok (data, _) =>
      let stored : QueueMeta := data
      if stored.rateLimitPerSec ≤ 0 then
        return false
      else
        return unixMilli now - stored.lastFetchMs < Int.tdiv 1000 stored.rateLimitPerSec

/-- `b.queues.UpdateJSON` with a fresh `queueMeta` as its target. -/
def updateQueueMeta (name : String) (mutate : QueueMeta → QueueMeta) :
    Prog (Except CallError Unit) :=
  Store.updateJSON .queues name unmarshalQueueMeta mutate ({} : QueueMeta)

def updateQueueRateLimit (queue : String) (maxPerSec : Int) : Prog Unit := do
  let _ ← updateQueueMeta queue fun stored =>
    { stored with name := queue, rateLimitPerSec := maxPerSec }
  return ()

def recordFetchTime (queue : String) (now : Int) : Prog Unit := do
  let _ ← updateQueueMeta queue fun stored => { stored with lastFetchMs := unixMilli now }
  return ()

/-- The number `strconv.Atoi` returns, also when it reports an error: zero for
text that is no number, the nearest bound for one out of range. -/
def atoi (s : String) : Int :=
  match s.toInt? with
  | some n => max (-(2 ^ 63)) (min n (2 ^ 63 - 1))
  | none => 0

/-- The counter text after one more completion. -/
def nextCount (data : String) : String := intToStr ((atoi data + 1).bmod (2 ^ 64))

/-- The turns `incrementCompleted` has left. -/
def incrementCompletedLoop (key : String) : Nat → Prog Unit
  | 0 => return ()
  | n + 1 => do
      match ← Store.get .stats key with
      | .error _ =>
          let _ ← Store.create .stats key "1"
          return ()
      | .ok (data, rev) =>
          match ← Store.update .stats key (nextCount data) rev with
          | .ok _ => return ()
          | .error _ => incrementCompletedLoop key n

def incrementCompleted (queue : String) : Prog Unit :=
  incrementCompletedLoop (kvStatsKey queue "completed") 3

/-! ## Consumers -/

/-- `GetConsumer`; only its error matters to the callers modelled here. -/
def getConsumer (queue : String) : Prog (Except CallError Unit) := do
  let cached : Bool ← Program.ask (Op.consumerLoad queue)
  if cached then
    return .ok ()
  else
    let ensured : Except CallError Unit ← Program.ask (Op.ensureConsumer queue)
    match ensured with
    | .error e => return .error e
    | .ok () =>
        let _ : Unit ← Program.ask (Op.consumerStore queue)
        return .ok ()

/-- The body of `FetchMessages` for one message. -/
def trackMessage (msg : Msg) (jobIDs : List String) : Prog (List String) := do
  if msg.data = "" then
    let _ : Except CallError Unit ← Program.ask (Op.msgAck msg)
    return jobIDs
  else
    let _ : Unit ← Program.ask (Op.inflightStore msg.data msg)
    return jobIDs ++ [msg.data]

/-- `FetchMessages`: up to `count` job ids from the queue's consumer, each
message tracked in the in-flight map. -/
def fetchMessages (queue : String) (count : Nat) : Prog (Except CallError (List String)) := do
  match ← getConsumer queue with
  | .error e => return .error e
  | .ok () =>
      let fetched : Except CallError (List Msg) ← Program.ask (Op.consumerFetch queue count)
      match fetched with
      | .error _ => return .ok []
      | .ok msgs =>
          let jobIDs ← Program.forEach msgs [] trackMessage
          return .ok jobIDs

def ackMessage (jobID : String) : Prog (Except CallError Unit) := do
  let tracked : Option Msg ← Program.ask (Op.inflightLoadAndDelete jobID)
  match tracked with
  | none => return .ok ()
  | some msg => Program.ask (Op.msgAck msg)

/-- `InProgress`, whose error the callers ignore. -/
def inProgress (jobID : String) : Prog Unit := do
  let tracked : Option Msg ← Program.ask (Op.inflightLoad jobID)
  match tracked with
  | none => return ()
  | some msg =>
      let _ : Except CallError Unit ← Program.ask (Op.msgInProgress msg)
      return ()

/-! ## Producer -/

def publishJob (queue jobID : String) : Prog (Result Unit) := do
  let subject := queueJobsSubject queue
  let published : Except CallError Unit ← Program.ask (Op.publish subject jobID)
  match published with
  | .ok () => return .ok ()
  | .error e => return .error (.wrapped ("publish job " ++ jobID ++ " to " ++ subject) (.call e))

end OjsNats.Nats
