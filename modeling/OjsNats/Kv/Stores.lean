import OjsNats.Nats.World

/-!
# Typed access to the buckets

`kv.Store`, `kv.UniqueStore` and `kv.CronStore`.  A read of a bucket is the
answer the code acts on: every error of `Get` is treated alike.
-/

namespace OjsNats.Nats

open Core Effect

/-- The errors the backend returns. -/
inductive BackendError where
  | call (e : CallError)
  /-- `fmt.Errorf("context: %w", cause)` -/
  | wrapped (context : String) (cause : BackendError)
  /-- `core.NewNotFoundError` -/
  | notFound (resource id : String)
  /-- `core.NewConflictError` -/
  | conflict (message : String) (details : List (String × String))
  /-- `core.NewInternalError` on a message that ends in the cause -/
  | internal (context : String) (cause : BackendError)
  /-- an `OJSError` with `core.ErrCodeDuplicate` -/
  | duplicate (message : String) (details : List (String × String))
  /-- `core.NewInvalidRequestError` -/
  | invalidRequest (message : String) (details : List (String × String))
  /-- the error of `core.ValidateEnqueueRequest` -/
  | validation (message : String)
  /-- a Go run-time panic, which the server's middleware recovers -/
  | panicked
  deriving DecidableEq

abbrev Result := Except BackendError

namespace Store

/-- `Store.Get` and `Store.GetJSON`: the value with its revision. -/
def get (b : BucketName) (key : String) : Prog (Except CallError (b.Value × Nat)) :=
  Program.ask (Op.get b key)

/-- `Store.Put` and `Store.PutJSON` -/
def put (b : BucketName) (key : String) (v : b.Value) : Prog (Except CallError Nat) :=
  Program.ask (Op.put b key v)

def create (b : BucketName) (key : String) (v : b.Value) : Prog (Except CallError Nat) :=
  Program.ask (Op.create b key v)

def update (b : BucketName) (key : String) (v : b.Value) (revision : Nat) :
    Prog (Except CallError Nat) :=
  Program.ask (Op.update b key v revision)

def delete (b : BucketName) (key : String) : Prog (Except CallError Unit) :=
  Program.ask (Op.delete b key)

/-- `Store.Keys`: a bucket without keys is an empty list, not an error. -/
def keys (b : BucketName) : Prog (Except CallError (List String)) := do
  let listed : Except CallError (List String) ← Program.ask (Op.keys b)
  match listed with
  | .ok keys => return .ok keys
  | .error .noKeysFound => return .ok []
  | .error e => return .error e

def exists? (b : BucketName) (key : String) : Prog Bool := do
  match ← get b key with
  | .ok _ => return true
  | .error _ => return false

section UpdateJSON

variable (b : BucketName) (key : String)
-- `json.Unmarshal` into a value that already holds one
variable (unmarshal : b.Value → b.Value → b.Value) (mutate : b.Value → b.Value)

/-- The attempts `UpdateJSON` has left, then its unconditional write.  The
target keeps what earlier attempts left in it. -/
def updateJSONLoop : Nat → b.Value → Prog (Except CallError Unit)
  | 0, target => do
      match ← put b key target with
      | .ok _ => return .ok ()
      | .error e => return .error e
  | n + 1, target => do
      match ← get b key with
      | .error _ =>
          match ← create b key (mutate target) with
          | .ok _ => return .ok ()
          | .error _ => updateJSONLoop n (mutate target)
      | .ok (data, rev) =>
          match ← update b key (mutate (unmarshal data target)) rev with
          | .ok _ => return .ok ()
          | .error _ => updateJSONLoop n (mutate (unmarshal data target))

def updateJSON (target : b.Value) : Prog (Except CallError Unit) :=
  updateJSONLoop b key unmarshal mutate 3 target

end UpdateJSON

end Store

namespace UniqueStore

/-- `CheckAndSet`: the id that holds the lock, or `""` if it was acquired. -/
def checkAndSet (fingerprint jobID : String) : Prog (Except CallError String) := do
  match ← Store.create .unique fingerprint jobID with
  | .ok _ => return .ok ""
  | .error .keyExists =>
      match ← Store.get .unique fingerprint with
      | .ok (data, _) => return .ok data
      | .error e => return .error e
  | .error e => return .error e

def release (fingerprint : String) : Prog (Except CallError Unit) :=
  Store.delete .unique fingerprint

/-- The text `ComputeFingerprint` writes into the hash for one key. -/
def fingerprintPart (lib : Externals) (job : Job) (key : String) : String :=
  if key = "type" then "type:" ++ job.type
  else if key = "args" then
    "args:" ++ (match job.args with
      | some args => lib.rawText args
      | none => "")
  else if key = "queue" then "queue:" ++ job.queue
  else ""

def computeFingerprint (lib : Externals) (job : Job) (unique : UniquePolicy) : String :=
  let keys := if unique.keys = [] then ["type", "args"] else unique.keys
  lib.sha256Hex (String.join ((keys.mergeSort).map (fingerprintPart lib job)))

end UniqueStore

namespace CronStore

def register (cron : CronJob) : Prog (Except CallError Nat) :=
  Store.put .cron cron.name cron

def get (name : String) : Prog (Except CallError CronJob) := do
  match ← Store.get .cron name with
  | .ok (cron, _) => return .ok cron
  | .error e => return .error e

def delete (name : String) : Prog (Except CallError Unit) := Store.delete .cron name

def list : Prog (Except CallError (List CronJob)) := do
  match ← Store.keys .cron with
  | .error e => return .error e
  | .ok keys =>
      let crons ← Program.forEach keys [] fun key crons => do
        match ← get key with
        | .ok cron => return crons ++ [cron]
        | .error _ => return crons
      return .ok crons

end CronStore

end OjsNats.Nats
