import OjsNats.Nats.Enqueue

/-!
# Listings

`ListJobs` and `ListWorkers` of `admin.go` and `ListDeadLetter` of
`deadletter.go`.
-/

namespace OjsNats.Nats

open Core Effect

structure JobListFilters where
  state : String := ""
  queue : String := ""
  type : String := ""

structure WorkerInfo where
  id : String
  state : String
  directive : String := ""
  activeJobs : Int := 0
  lastHeartbeat : String := ""

structure WorkerSummary where
  total : Int := 0
  running : Int := 0
  quiet : Int := 0
  stale : Int := 0

/-- What a listing returns: items and a count of all of them, or an error, unless it slices
out of range. -/
inductive Listed (α β : Type) where
  | listed (items : List α) (count : β)
  | failed (e : CallError)
  | panicked

/-- The items of a page that could be sliced. -/
def Listed.ofPage {α β : Type} (page : Option (List α)) (count : β) : Listed α β :=
  match page with
  | some items => .listed items count
  | none => .panicked

/-! ## Pages -/

section Pages

variable {α : Type}

/-- The sum of two `int`s. -/
def addInt (a b : Int) : Int := (a + b).bmod (2 ^ 64)

/-- `xs[low:high]` -/
def slice (xs : List α) (low high : Int) : Option (List α) :=
  if 0 ≤ low ∧ low ≤ high ∧ high ≤ xs.length then
    some ((xs.take high.toNat).drop low.toNat)
  else
    none

/-- The items from the offset up to the limit. -/
def paginate (xs : List α) (limit offset : Int) : Option (List α) :=
  let sum := addInt offset limit
  let last := if (xs.length : Int) < sum then (xs.length : Int) else sum
  if (xs.length : Int) ≤ offset then some [] else slice xs offset last

end Pages

/-! ## Jobs -/

/-- The job passes the filters; an empty one lets all jobs pass. -/
def passes (filters : JobListFilters) (job : Job) : Bool :=
  (filters.state = "" || job.state.name = filters.state) &&
    (filters.queue = "" || job.queue = filters.queue) &&
    (filters.type = "" || job.type = filters.type)

/-- One turn of the loop of `ListJobs`. -/
def listJob (filters : JobListFilters) (key : String) (filtered : List Job) : Prog (List Job) := do
  match ← getJobState key with
  | .error _ => return filtered
  | .ok job => if passes filters job then return filtered ++ [job] else return filtered

/-- `sort.Slice` by descending `created_at` may leave jobs of one time in any order. -/
structure SortsByCreation (sortSlice : List Job → List Job) : Prop where
  perm : ∀ jobs, (sortSlice jobs).Perm jobs
  sorted : ∀ jobs, (sortSlice jobs).Pairwise fun job job' => ¬ job'.createdAt > job.createdAt

def listJobs (sortSlice : List Job → List Job) (filters : JobListFilters) (limit offset : Int) :
    Prog (Listed Job Int) := do
  match ← Store.keys .jobs with
  | .error e => return .failed e
  | .ok keys =>
      let filtered ← Program.forEach keys [] (listJob filters)
      return .ofPage (paginate (sortSlice filtered) limit offset) filtered.length

/-! ## Workers -/

/-- The entry of a worker in the listing. -/
def listedWorker (key : String) (info : WorkerState) : WorkerInfo where
  id := key
  state := if info.directive = some "quiet" then "quiet" else "running"
  directive := info.directive.getD ""
  activeJobs := info.activeJobs.getD 0
  lastHeartbeat := info.lastHeartbeat.getD ""

/-- One turn of the first loop of `ListWorkers`. -/
def listWorker (key : String) (workers : List WorkerInfo) : Prog (List WorkerInfo) := do
  match ← Store.get .workers key with
  | .error _ => return workers
  | .ok (info, _) => return workers ++ [listedWorker key info]

/-- One turn of the second loop of `ListWorkers`. -/
def countWorker (summary : WorkerSummary) (w : WorkerInfo) : WorkerSummary :=
  if w.state = "running" then { summary with running := summary.running + 1 }
  else if w.state = "quiet" then { summary with quiet := summary.quiet + 1 }
  else { summary with stale := summary.stale + 1 }

def summarize (workers : List WorkerInfo) : WorkerSummary :=
  workers.foldl countWorker { total := workers.length }

def listWorkers (limit offset : Int) : Prog (Listed WorkerInfo WorkerSummary) := do
  match ← Store.keys .workers with
  | .error e => return .failed e
  | .ok keys =>
      let workers ← Program.forEach keys [] listWorker
      return .ofPage (paginate workers limit offset) (summarize workers)

/-! ## Dead letters -/

/-- One turn of the loop of `ListDeadLetter`. -/
def listDeadJob (key : String) (jobs : List Job) : Prog (List Job) := do
  match ← info key with
  | .error _ => return jobs
  | .ok job => return jobs ++ [job]

/-- `sort.Strings` -/
def sortStrings (keys : List String) : List String := keys.mergeSort fun a b => decide (a ≤ b)

def listDeadLetter (limit offset : Int) : Prog (Listed Job Int) := do
  match ← Store.keys .dead with
  | .error e => return .failed e
  | .ok keys =>
      match paginate (sortStrings keys) limit offset with
      | none => return .panicked
      | some page =>
          let jobs ← Program.forEach page [] listDeadJob
          return .listed jobs keys.length

end OjsNats.Nats
