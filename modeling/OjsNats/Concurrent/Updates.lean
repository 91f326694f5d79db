import OjsNats.Concurrent.Server

/-!
# Optimistic updates of one record

`UpdateJSON` reads the record, lets a mutate assign some of its fields, and
writes it back at the revision it read.  After three attempts it writes what it
has, whatever is stored by then.  What it has are the fields of its last read,
except that a field which a read left out is still that of the read before.
-/

namespace OjsNats.Nats

open Core Effect

/-- A mutate: the fields it assigns, with their values. -/
structure Assignment where
  name : Option String := none
  paused : Option Bool := none
  rateLimitPerSec : Option Int := none
  lastFetchMs : Option Int := none
  completedCount : Option Int := none
  deriving DecidableEq

namespace Assignment

def apply (a : Assignment) (stored : QueueMeta) : QueueMeta where
  name := a.name.getD stored.name
  paused := a.paused.getD stored.paused
  rateLimitPerSec := a.rateLimitPerSec.getD stored.rateLimitPerSec
  lastFetchMs := a.lastFetchMs.getD stored.lastFetchMs
  completedCount := a.completedCount.getD stored.completedCount

/-- Two records are the same up to the fields that the mutate assigns. -/
structure Agree (a : Assignment) (seen stored : QueueMeta) : Prop where
  name : a.name = none → seen.name = stored.name
  paused : a.paused = none → seen.paused = stored.paused
  rateLimitPerSec : a.rateLimitPerSec = none → seen.rateLimitPerSec = stored.rateLimitPerSec
  lastFetchMs : a.lastFetchMs = none → seen.lastFetchMs = stored.lastFetchMs
  completedCount : a.completedCount = none → seen.completedCount = stored.completedCount

theorem getD_eq_iff {α : Type} {o : Option α} {x y : α} :
    o.getD x = o.getD y ↔ (o = none → x = y) := by
  cases o <;> simp

theorem apply_eq_iff {a : Assignment} {seen stored : QueueMeta} :
    a.apply seen = a.apply stored ↔ a.Agree seen stored := by
  constructor
  · intro same
    simp only [apply, QueueMeta.mk.injEq, getD_eq_iff] at same
    obtain ⟨name, paused, rate, fetched, count⟩ := same
    exact ⟨name, paused, rate, fetched, count⟩
  · intro agree
    simp only [apply, QueueMeta.mk.injEq, getD_eq_iff]
    exact ⟨agree.name, agree.paused, agree.rateLimitPerSec, agree.lastFetchMs,
      agree.completedCount⟩

theorem agree_apply (a : Assignment) (stored : QueueMeta) : a.Agree (a.apply stored) stored := by
  rw [← apply_eq_iff]
  simp only [apply]
  cases a.name <;> cases a.paused <;> cases a.rateLimitPerSec <;> cases a.lastFetchMs <;>
    cases a.completedCount <;> rfl

instance (a : Assignment) (seen stored : QueueMeta) : Decidable (a.Agree seen stored) :=
  decidable_of_iff
    ((a.name = none → seen.name = stored.name) ∧
      (a.paused = none → seen.paused = stored.paused) ∧
      (a.rateLimitPerSec = none → seen.rateLimitPerSec = stored.rateLimitPerSec) ∧
      (a.lastFetchMs = none → seen.lastFetchMs = stored.lastFetchMs) ∧
      (a.completedCount = none → seen.completedCount = stored.completedCount))
    ⟨fun h => ⟨h.1, h.2.1, h.2.2.1, h.2.2.2.1, h.2.2.2.2⟩,
      fun h => ⟨h.name, h.paused, h.rateLimitPerSec, h.lastFetchMs, h.completedCount⟩⟩

/-- What a mutate assigned in an earlier attempt it assigns again. -/
theorem apply_unmarshal (a : Assignment) (data target : QueueMeta) :
    a.apply (unmarshalQueueMeta data (a.apply target)) =
      a.apply (unmarshalQueueMeta data target) := by
  rw [apply_eq_iff]
  constructor <;> intro free <;> simp [unmarshalQueueMeta, apply, free]

theorem apply_apply (a : Assignment) (target : QueueMeta) :
    a.apply (a.apply target) = a.apply target :=
  apply_eq_iff.mpr (a.agree_apply target)

/-- The mutate of `PauseQueue`. -/
def pause (name : String) : Assignment := { name := some name, paused := some true }

/-- The mutate of `ResumeQueue`. -/
def resume (name : String) : Assignment := { name := some name, paused := some false }

/-- The mutate of `updateQueueRateLimit`. -/
def rateLimit (queue : String) (maxPerSec : Int) : Assignment :=
  { name := some queue, rateLimitPerSec := some maxPerSec }

/-- The mutate of `recordFetchTime`. -/
def fetchTime (now : Int) : Assignment := { lastFetchMs := some (unixMilli now) }

end Assignment

theorem pauseQueue_eq (name : String) :
    pauseQueue name = updateQueueMeta name (Assignment.pause name).apply := rfl

theorem resumeQueue_eq (name : String) :
    resumeQueue name = updateQueueMeta name (Assignment.resume name).apply := rfl

theorem updateQueueRateLimit_eq (queue : String) (maxPerSec : Int) :
    updateQueueRateLimit queue maxPerSec =
      (updateQueueMeta queue (Assignment.rateLimit queue maxPerSec).apply).bind
        fun _ => .pure () := rfl

theorem recordFetchTime_eq (queue : String) (now : Int) :
    recordFetchTime queue now =
      (updateQueueMeta queue (Assignment.fetchTime now).apply).bind fun _ => .pure () := rfl

/-- The answer to a read of a queue record. -/
abbrev Look := Except CallError (QueueMeta × Nat)

/-- What one more read leaves in the target of `UpdateJSON`. -/
def remember (target : QueueMeta) : Look → QueueMeta
  | .ok (data, _) => unmarshalQueueMeta data target
  | .error _ => target

/-- What a call knows of the record from its reads. -/
def recalled (looks : List Look) : QueueMeta := looks.foldl remember {}

@[simp] theorem recalled_snoc (looks : List Look) (r : Look) :
    recalled (looks ++ [r]) = remember (recalled looks) r := by
  simp [recalled]

theorem apply_remember (a : Assignment) {target seen : QueueMeta} (r : Look)
    (same : a.apply target = a.apply seen) :
    a.apply (remember target r) = a.apply (remember seen r) := by
  cases r with
  | error e => exact same
  | ok entry =>
    obtain ⟨data, rev⟩ := entry
    have before := a.apply_unmarshal data target
    rw [same, a.apply_unmarshal] at before
    exact before.symm

end OjsNats.Nats

namespace OjsNats.Concurrent

open Core Nats Lifecycle Effect

/-! ## What an update may call -/

section Rules

open Protocol Program

variable {V : Type} {P : Protocol Op Ans V} {key : String} {a : Assignment}
  {Q : Except CallError Unit → V → Prop} (R : List Look → V → Prop)

/-- What a protocol has to allow an update that has made some of its reads. -/
structure Updates (P : Protocol Op Ans V) (key : String) (a : Assignment)
    (Q : Except CallError Unit → V → Prop) (R : List Look → V → Prop) : Prop where
  get : ∀ looks g, R looks g → P.allows g (.get .queues key) ∧
    ∀ r, P.admits g (.get .queues key) r → R (looks ++ [r]) (P.next g (.get .queues key) r)
  create : ∀ looks g, R looks g → looks ≠ [] →
    P.allows g (.create .queues key (a.apply (recalled looks))) ∧
    (∀ n, Q (.ok ()) (P.next g (.create .queues key (a.apply (recalled looks))) (.ok n))) ∧
    ∀ e, R looks (P.next g (.create .queues key (a.apply (recalled looks))) (.error e))
  update : ∀ looks g rev, R looks g → looks ≠ [] →
    P.allows g (.update .queues key (a.apply (recalled looks)) rev) ∧
    (∀ n, Q (.ok ()) (P.next g (.update .queues key (a.apply (recalled looks)) rev) (.ok n))) ∧
    ∀ e, R looks (P.next g (.update .queues key (a.apply (recalled looks)) rev) (.error e))
  put : ∀ looks g, R looks g → looks ≠ [] →
    P.allows g (.put .queues key (a.apply (recalled looks))) ∧
    (∀ n, Q (.ok ()) (P.next g (.put .queues key (a.apply (recalled looks))) (.ok n))) ∧
    ∀ e, Q (.error e) (P.next g (.put .queues key (a.apply (recalled looks))) (.error e))

variable {R}

theorem follows_updateJSONLoop (h : Updates P key a Q R) (n : Nat) {target : QueueMeta}
    {looks : List Look} {g : V} (knows : R looks g)
    (same : a.apply target = a.apply (recalled looks))
    (last : n = 0 → looks ≠ [] ∧ target = a.apply (recalled looks)) :
    P.Follows (Store.updateJSONLoop .queues key unmarshalQueueMeta a.apply n target) g Q := by
  induction n generalizing target looks g with
  | zero =>
    obtain ⟨looked, rfl⟩ := last rfl
    obtain ⟨allowed, ok, error⟩ := h.put looks g knows looked
    refine follows_bind.mpr (follows_ask.mpr ⟨allowed, fun r _ => ?_⟩)
    cases r with
    | ok n => exact ok n
    | error e => exact error e
  | succ n ih =>
    obtain ⟨reads, read⟩ := h.get looks g knows
    refine follows_bind.mpr (follows_ask.mpr ⟨reads, fun r admitted => ?_⟩)
    have kept := read r admitted
    have same' := apply_remember a r same
    rw [← recalled_snoc] at same'
    cases r with
    | error e =>
      obtain ⟨allowed, ok, error⟩ := h.create _ _ kept (by simp)
      rw [show a.apply target = a.apply (recalled (looks ++ [.error e])) from same']
      refine follows_bind.mpr (follows_ask.mpr ⟨allowed, fun r _ => ?_⟩)
      cases r with
      | ok n => exact ok n
      | error e' => exact ih (error e') (a.apply_apply _) fun _ => ⟨by simp, rfl⟩
    | ok entry =>
      obtain ⟨data, rev⟩ := entry
      obtain ⟨allowed, ok, error⟩ := h.update _ _ rev kept (by simp)
      have written : a.apply (unmarshalQueueMeta data target) =
          a.apply (recalled (looks ++ [.ok (data, rev)])) := same'
      simp only [written]
      refine follows_bind.mpr (follows_ask.mpr ⟨allowed, fun r _ => ?_⟩)
      cases r with
      | ok n => exact ok n
      | error e' => exact ih (error e') (a.apply_apply _) fun _ => ⟨by simp, rfl⟩

/-- An update writes what its reads and its mutate make of the record. -/
theorem follows_updateQueueMeta (h : Updates P key a Q R) {g : V} (fresh : R [] g) :
    P.Follows (updateQueueMeta key a.apply) g Q :=
  follows_updateJSONLoop h 3 fresh rfl fun none => by cases none

end Rules

/-! ## Many updates at once -/

section Reads

variable {Label : Type} (key : String)

/-- What a call shows of the record. -/
def sees : (op : Op) → Ans op → Option Look
  | .get .queues k, r => if k = key then some r else none
  | _, _ => none

/-- The read of the record that an action of the thread is. -/
def look? (i : Nat) : Action Label Op Ans → Option Look
  | .call k _ op r => if k = i then sees key op r else none
  | _ => none

/-- What the thread has read of the record, in order. -/
def looks (i : Nat) (log : List (Action Label Op Ans)) : List Look := log.filterMap (look? key i)

theorem looks_eq (i : Nat) (log : List (Action Label Op Ans)) :
    looks key i log = noted (sees key) i log := by
  have same : (look? key i : Action Label Op Ans → Option Look) = note? (sees key) i := by
    funext act
    cases act <;> rfl
  rw [looks, same, noted]

end Reads

/-- Calls of `UpdateJSON` on one queue record, at once. -/
abbrev Updaters := Config World Assignment Op Ans (Except CallError Unit)

/-- Interleaved runs of such calls. -/
abbrev Updating (key : String) (ok : Updaters → Action Assignment Op Ans → Prop) :
    Updaters → Updaters → Prop :=
  Interleaves serves (fun a => updateQueueMeta key a.apply) TimePasses ok

/-- The queue record, an empty one where there is none. -/
def stored (w : World) (key : String) : QueueMeta := (w.value .queues key).getD {}

/-- The call whose write an action is, with its mutate. -/
def writer? : Action Assignment Op Ans → Option (Nat × Assignment)
  | .call i a (.put .queues _ _) (.ok _) => some (i, a)
  | .call i a (.create .queues _ _) (.ok _) => some (i, a)
  | .call i a (.update .queues _ _ _) (.ok _) => some (i, a)
  | _ => none

/-- The calls that have written, in the order of their writes. -/
def writers (log : List (Action Assignment Op Ans)) : List (Nat × Assignment) :=
  log.filterMap writer?

theorem writers_snoc (log : List (Action Assignment Op Ans)) (act : Action Assignment Op Ans) :
    writers (log ++ [act]) = writers log ++ (writer? act).toList := by
  unfold writers
  rw [List.filterMap_append]
  cases h : writer? act <;> simp [h]

/-- A write lands where the fields that its mutate leaves alone are as the call
knows them from its reads. -/
def Informed (key : String) (c : Updaters) (act : Action Assignment Op Ans) : Prop :=
  ∀ m ∈ writer? act, m.2.Agree (recalled (looks key m.1 c.log)) (stored c.state key)

/-- The record after the mutates were applied, each to what the one before left. -/
def applied (start : Option QueueMeta) (order : List Assignment) : Option QueueMeta :=
  order.foldl (fun record a => some (a.apply (record.getD {}))) start

@[simp] theorem applied_snoc (start : Option QueueMeta) (order : List Assignment)
    (a : Assignment) :
    applied start (order ++ [a]) = some (a.apply ((applied start order).getD {})) := by
  simp [applied]

/-- No call has written twice, and the stored record is what the mutates of the
calls that have written make of the first one, applied in some order. -/
structure Linearized (key : String) (start : Option QueueMeta) (c : Updaters) : Prop where
  once : ((writers c.log).map Prod.fst).Nodup
  order : ∃ order, order.Perm ((writers c.log).map Prod.snd) ∧
    c.state.value .queues key = applied start order

/-- What a call has read, and whether it has written. -/
structure Draft where
  looks : List Look := []
  wrote : Bool := false

/-- An update writes its mutate of what it knows, once. -/
def updater (key : String) (a : Assignment) : Protocol Op Ans Draft where
  allows g
    | .get .queues k => k = key ∧ g.wrote = false
    | .create .queues k v => k = key ∧ v = a.apply (recalled g.looks) ∧ g.wrote = false
    | .update .queues k v _ => k = key ∧ v = a.apply (recalled g.looks) ∧ g.wrote = false
    | .put .queues k v => k = key ∧ v = a.apply (recalled g.looks) ∧ g.wrote = false
    | _ => False
  admits _ _ _ := True
  next g
    | .get .queues _, r => { g with looks := g.looks ++ [r] }
    | .create .queues _ _, .ok _ => { g with wrote := true }
    | .update .queues _ _ _, .ok _ => { g with wrote := true }
    | .put .queues _ _, .ok _ => { g with wrote := true }
    | _, _ => g

theorem updates_updater (key : String) (a : Assignment) :
    Updates (updater key a) key a (fun _ _ => True)
      (fun looks g => g.looks = looks ∧ g.wrote = false) where
  get := by
    rintro looks g ⟨rfl, unwritten⟩
    exact ⟨⟨rfl, unwritten⟩, fun r _ => ⟨rfl, unwritten⟩⟩
  create := by
    rintro looks g ⟨rfl, unwritten⟩ _
    exact ⟨⟨rfl, rfl, unwritten⟩, fun _ => trivial, fun _ => ⟨rfl, unwritten⟩⟩
  update := by
    rintro looks g rev ⟨rfl, unwritten⟩ _
    exact ⟨⟨rfl, rfl, unwritten⟩, fun _ => trivial, fun _ => ⟨rfl, unwritten⟩⟩
  put := by
    rintro looks g ⟨rfl, unwritten⟩ _
    exact ⟨⟨rfl, rfl, unwritten⟩, fun _ => trivial, fun _ => trivial⟩

theorem follows_updater (key : String) (a : Assignment) :
    (updater key a).Follows (updateQueueMeta key a.apply) {} fun _ _ => True :=
  follows_updateQueueMeta (updates_updater key a) ⟨rfl, rfl⟩

/-- The views are what the log says, and the record is what the mutates made. -/
structure Drafted (key : String) (start : Option QueueMeta) (w : World)
    (log : List (Action Assignment Op Ans)) (views : List (Assignment × Draft)) : Prop where
  looked : Remembered (sees key) Draft.looks log views
  wrote : ∀ i ∈ (writers log).map Prod.fst, ∃ a g, views[i]? = some (a, g) ∧ g.wrote = true
  once : ((writers log).map Prod.fst).Nodup
  value : w.value .queues key = applied start ((writers log).map Prod.snd)

section Drafted

variable {key : String} {start : Option QueueMeta} {w w' : World}
  {log : List (Action Assignment Op Ans)} {views : List (Assignment × Draft)}

theorem Drafted.begin (h : Drafted key start w log views) (a : Assignment) :
    Drafted key start w (log ++ [.start a]) (views ++ [(a, ({} : Draft))]) := by
  have silent : writers (log ++ [.start a]) = writers log := by simp [writers_snoc, writer?]
  refine ⟨h.looked.begin a rfl, fun i mem => ?_, silent ▸ h.once, silent ▸ h.value⟩
  rw [silent] at mem
  obtain ⟨b, g, at_i, wrote⟩ := h.wrote i mem
  have inside := (List.getElem?_eq_some_iff.mp at_i).1
  exact ⟨b, g, by rw [List.getElem?_append_left inside, at_i], wrote⟩

theorem Drafted.rest (h : Drafted key start w log views)
    (value : w'.value .queues key = w.value .queues key) :
    Drafted key start w' (log ++ [.outside]) views := by
  have silent : writers (log ++ [.outside]) = writers log := by simp [writers_snoc, writer?]
  exact ⟨h.looked.rest, silent ▸ h.wrote, silent ▸ h.once, silent ▸ value.trans h.value⟩

/-- A call that writes nothing. -/
theorem Drafted.read (h : Drafted key start w log views) {i : Nat} {a : Assignment} {g g' : Draft}
    {op : Op} {r : Ans op} (view : views[i]? = some (a, g))
    (silent : writer? (Action.call i a op r) = none)
    (saw : g'.looks = g.looks ++ (sees key op r).toList)
    (wrote : g'.wrote = g.wrote) (value : w'.value .queues key = w.value .queues key) :
    Drafted key start w' (log ++ [.call i a op r]) (views.set i (a, g')) := by
  have unwritten : writers (log ++ [.call i a op r]) = writers log := by
    simp [writers_snoc, silent]
  refine ⟨h.looked.call view saw, fun k mem => ?_, unwritten ▸ h.once,
    unwritten ▸ value.trans h.value⟩
  rw [unwritten] at mem
  obtain ⟨b, f, at_k, done⟩ := h.wrote k mem
  by_cases same : k = i
  · subst same
    obtain ⟨rfl, rfl⟩ := Prod.mk.inj (Option.some.inj (at_k.symm.trans view))
    have inside := (List.getElem?_eq_some_iff.mp view).1
    exact ⟨b, g', by simp [List.getElem?_set_self inside], wrote.trans done⟩
  · exact ⟨b, f, by rw [List.getElem?_set_ne (Ne.symm same), at_k], done⟩

/-- A write that lands as the mutate wants it. -/
theorem Drafted.write (h : Drafted key start w log views) {i : Nat} {a : Assignment} {g : Draft}
    {op : Op} {r : Ans op} (view : views[i]? = some (a, g)) (unwritten : g.wrote = false)
    (writes : writer? (Action.call i a op r) = some (i, a))
    (value : w'.value .queues key = some (a.apply (stored w key))) :
    Drafted key start w' (log ++ [.call i a op r]) (views.set i (a, { g with wrote := true })) := by
  have written : writers (log ++ [.call i a op r]) = writers log ++ [(i, a)] := by
    simp [writers_snoc, writes]
  have blind : sees key op r = none := by
    cases op with
    | get b k' => cases b <;> cases writes
    | _ => rfl
  have inside := (List.getElem?_eq_some_iff.mp view).1
  refine ⟨h.looked.call view (by simp [blind]), fun k mem => ?_, ?_, ?_⟩
  · by_cases own : k = i
    · subst own
      exact ⟨a, { g with wrote := true }, by simp [List.getElem?_set_self inside], rfl⟩
    · rw [written, List.map_append, List.mem_append] at mem
      rcases mem with mem | mem
      · obtain ⟨b, f, at_k, done⟩ := h.wrote k mem
        exact ⟨b, f, by rw [List.getElem?_set_ne (Ne.symm own), at_k], done⟩
      · simp only [List.map_cons, List.map_nil, List.mem_singleton] at mem
        exact absurd mem own
  · rw [written, List.map_append, List.nodup_append]
    refine ⟨h.once, by simp, ?_⟩
    rintro k mem _ here rfl
    simp only [List.map_cons, List.map_nil, List.mem_singleton] at here
    subst here
    obtain ⟨b, f, at_k, done⟩ := h.wrote k mem
    obtain ⟨rfl, rfl⟩ := Prod.mk.inj (Option.some.inj (at_k.symm.trans view))
    rw [done] at unwritten
    cases unwritten
  · rw [written, List.map_append, List.map_cons, List.map_nil, applied_snoc, value, stored,
      h.value]

end Drafted

/-- What an update's write stores. -/
theorem value_of_writer {key : String} {w w' : World} {i : Nat} {a : Assignment} {g : Draft}
    {op : Op} {r : Ans op} {m : Nat × Assignment} (allowed : (updater key a).allows g op)
    (step : w.Serves op r w') (writes : writer? (Action.call i a op r) = some m) :
    m = (i, a) ∧ g.wrote = false ∧ (updater key a).next g op r = { g with wrote := true } ∧
      w'.value .queues key = some (a.apply (recalled g.looks)) := by
  cases op with
  | put b k v =>
    cases b <;> try cases writes
    obtain ⟨rfl, rfl, unwritten⟩ := allowed
    obtain ⟨rfl, rfl⟩ := step
    cases writes
    exact ⟨rfl, unwritten, rfl, by simp [value_put]⟩
  | create b k v =>
    cases b <;> try cases writes
    obtain ⟨rfl, rfl, unwritten⟩ := allowed
    simp only [World.Serves] at step
    split at step
    · obtain ⟨rfl, -⟩ := step
      cases writes
    · obtain ⟨rfl, rfl⟩ := step
      cases writes
      exact ⟨rfl, unwritten, rfl, by simp [value_put]⟩
  | update b k v rev =>
    cases b <;> try cases writes
    obtain ⟨rfl, rfl, unwritten⟩ := allowed
    simp only [World.Serves] at step
    split at step
    · obtain ⟨rfl, rfl⟩ := step
      cases writes
      exact ⟨rfl, unwritten, rfl, by simp [value_put]⟩
    · obtain ⟨rfl, -⟩ := step
      cases writes
  | _ => cases writes

theorem drafted_invariant (key : String) (start : Option QueueMeta) :
    Invariant (α := Except CallError Unit) serves TimePasses (updater key) {} (Informed key)
      (Drafted key start) where
  start _ _ a _ h := h.begin a
  outside := by
    rintro c views t _ ⟨now, _, rfl⟩ h
    exact h.rest rfl
  call := by
    intro c views i a op r t g informed h view allowed step
    refine ⟨trivial, ?_⟩
    cases writes : writer? (Action.call i a op r) with
    | some m =>
      obtain ⟨rfl, unwritten, next, value⟩ := value_of_writer allowed step writes
      have agree := informed _ writes
      rw [looks_eq, h.looked.known i a g view, ← Assignment.apply_eq_iff] at agree
      rw [next]
      exact h.write view unwritten writes (agree ▸ value)
    | none =>
      cases op with
      | get b k =>
        cases b <;> try exact allowed.elim
        obtain ⟨rfl, unwritten⟩ := allowed
        obtain ⟨rfl, rfl⟩ := step
        exact h.read view rfl (by simp [updater, sees]) rfl rfl
      | put b k v =>
        cases b <;> try exact allowed.elim
        obtain ⟨rfl, rfl⟩ := step
        cases writes
      | create b k v =>
        cases b <;> try exact allowed.elim
        simp only [serves, World.Serves] at step
        split at step <;> obtain ⟨rfl, rfl⟩ := step
        · exact h.read view rfl (by simp [updater, sees]) rfl rfl
        · cases writes
      | update b k v rev =>
        cases b <;> try exact allowed.elim
        simp only [serves, World.Serves] at step
        split at step <;> obtain ⟨rfl, rfl⟩ := step
        · cases writes
        · exact h.read view rfl (by simp [updater, sees]) rfl rfl
      | _ => exact allowed.elim

/-- As long as every write is informed, the updates are linearized in the order
of their writes, and the next write is its mutate of the stored record exactly
if it is informed too. -/
theorem linearized_of_informed {key : String} {w : World} {c : Updaters}
    (run : Updating key (Informed key) ⟨w, [], []⟩ c) :
    Linearized key (w.value .queues key) c ∧
      ∀ act d, Turn serves (fun a => updateQueueMeta key a.apply) TimePasses c act d →
        ∀ m ∈ writer? act, (Informed key c act ↔
          d.state.value .queues key = some (m.2.apply (stored c.state key))) := by
  have start : Drafted key (w.value .queues key) w [] [] := {
    looked := .nil
    wrote := fun i mem => by cases mem
    once := .nil
    value := rfl }
  obtain ⟨views, behaved, drafted⟩ := (drafted_invariant key _).holds
    (fun _ a _ => follows_updater key a) run .nil start
  refine ⟨⟨drafted.once, _, .refl _, drafted.value⟩, fun act d turn m writes => ?_⟩
  cases turn with
  | start | outside => cases writes
  | call running step =>
    obtain ⟨g, view, follows⟩ := behaved.getElem? running
    obtain ⟨rfl, -, -, value⟩ := value_of_writer follows.1 step writes
    have known := (looks_eq key _ _).trans (drafted.looked.known _ _ g view)
    unfold Informed
    simp only [Option.mem_def.mp writes, Option.mem_def, Option.some.injEq, forall_eq', known,
      value, Assignment.apply_eq_iff]

/-! ## Runs -/

instance (key : String) (c : Updaters) (act : Action Assignment Op Ans) :
    Decidable (Informed key c act) :=
  inferInstanceAs (Decidable (∀ m ∈ writer? act,
    m.2.Agree (recalled (looks key m.1 c.log)) (stored c.state key)))

section Follow

variable (key : String)

/-- All calls started, none has gone on. -/
def begun (w : World) (mutates : List Assignment) : Updaters where
  state := w
  threads := mutates.map fun a => (a, updateQueueMeta key a.apply)
  log := mutates.map .start

theorem updating_begun {key : String} {ok : Updaters → Action Assignment Op Ans → Prop}
    (starts : ∀ c a, ok c (.start a)) (w : World) (mutates : List Assignment) :
    Updating key ok ⟨w, [], []⟩ (begun key w mutates) := by
  induction mutates using List.reverseRecOn with
  | nil => exact .refl
  | append_singleton front a ih => simpa [begun] using ih.tail (starts _ a) (.start a)

variable (ok : Updaters → Action Assignment Op Ans → Prop) [∀ c a, Decidable (ok c a)]

/-- The calls take turns as the list says. -/
def follow : List Nat → Updaters → Option Updaters
  | [], c => some c
  | i :: rest, c =>
      match c.threads[i]? with
      | some (a, .call op next) =>
          match serve c.state op with
          | some (r, t) =>
              if ok c (.call i a op r) then
                follow rest ⟨t, c.threads.set i (a, next r), c.log ++ [.call i a op r]⟩
              else none
          | none => none
      | _ => none

variable {key ok}

theorem updating_of_follow {turns : List Nat} {c d : Updaters} (h : follow ok turns c = some d) :
    Updating key ok c d := by
  induction turns generalizing c with
  | nil =>
    cases h
    exact .refl
  | cons i rest ih =>
    unfold follow at h
    split at h
    · rename_i a op next running
      split at h
      · rename_i r t served
        split at h
        · rename_i meets
          exact (Interleaves.refl.tail meets (.call running (serve_serves served))).trans (ih h)
        · cases h
      · cases h
    · cases h

end Follow

/-- A field that only one value is assigned to has that value in every order. -/
theorem applied_rateLimit {start : Option QueueMeta} {order : List Assignment} {n : Int}
    (only : ∀ a ∈ order, a.rateLimitPerSec = none ∨ a.rateLimitPerSec = some n)
    (once : ∃ a ∈ order, a.rateLimitPerSec = some n) :
    ((applied start order).getD {}).rateLimitPerSec = n := by
  induction order using List.reverseRecOn with
  | nil =>
    obtain ⟨a, mem, -⟩ := once
    cases mem
  | append_singleton front last ih =>
    rw [applied_snoc, Option.getD_some]
    rcases only last (by simp) with free | assigns
    · obtain ⟨a, mem, assigned⟩ := once
      rw [List.mem_append, List.mem_singleton] at mem
      rcases mem with mem | rfl
      · simpa [Assignment.apply, free] using
          ih (fun b here => only b (by simp [here])) ⟨a, mem, assigned⟩
      · rw [free] at assigned
        cases assigned
    · simp [Assignment.apply, assigns]

/-- A queue is paused while a push sets its rate limit. -/
def overtaken : Updaters :=
  (follow (Informed "mails") [0, 1, 1, 0, 0, 0]
    (begun "mails" (World.start 0) [.pause "mails", .rateLimit "mails" 5])).getD
    ⟨World.start 0, [], []⟩

/-- Each attempt to pause a queue is beaten by another write. -/
def beaten : Updaters :=
  (follow (fun _ _ => True) [0, 1, 1, 0, 0, 2, 2, 0, 0, 3, 3, 0, 0]
    (begun "mails" (World.start 0)
      [.pause "mails", .fetchTime 1000000, .fetchTime 2000000, .rateLimit "mails" 5])).getD
    ⟨World.start 0, [], []⟩

theorem updating_overtaken :
    Updating "mails" (Informed "mails") ⟨World.start 0, [], []⟩ overtaken := by
  have starts : ∀ c a, Informed "mails" c (.start a) := by
    intro c a m writes
    cases writes
  exact (updating_begun starts _ _).trans
    (updating_of_follow (Option.getD_of_ne_none (by decide) _).symm)

theorem linearized_overtaken : Linearized "mails" none overtaken ∧
    (stored overtaken.state "mails").paused = true ∧
    (stored overtaken.state "mails").rateLimitPerSec = 5 :=
  ⟨(linearized_of_informed updating_overtaken).1, by decide, by decide⟩

/-- A call that is beaten three times overwrites what the others wrote. -/
theorem not_linearized : ¬ ∀ (key : String) (w : World) (c : Updaters),
    Updating key (fun _ _ => True) ⟨w, [], []⟩ c → Linearized key (w.value .queues key) c := by
  intro linearized
  obtain ⟨order, perm, value⟩ := (linearized "mails" (World.start 0) beaten
    ((updating_begun (fun _ _ => trivial) _ _).trans
      (updating_of_follow (Option.getD_of_ne_none (by decide) _).symm))).order
  have only : ∀ a ∈ (writers beaten.log).map Prod.snd,
      a.rateLimitPerSec = none ∨ a.rateLimitPerSec = some 5 := by decide
  have once : ∃ a ∈ (writers beaten.log).map Prod.snd, a.rateLimitPerSec = some 5 := by decide
  obtain ⟨a, mem, assigns⟩ := once
  have rate : (stored beaten.state "mails").rateLimitPerSec = 5 := by
    rw [stored, value]
    exact applied_rateLimit (fun a mem => only a (perm.mem_iff.mp mem))
      ⟨a, perm.mem_iff.mpr mem, assigns⟩
  exact absurd rate (by decide)

end OjsNats.Concurrent
