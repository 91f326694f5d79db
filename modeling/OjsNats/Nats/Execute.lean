import OjsNats.Core.Sample
import OjsNats.Nats.Calls

/-!
# Running programs

One way to serve each call, so that a program can be run on a given world.
What `serve` answers, the world may answer.
-/

namespace OjsNats.Nats

open Core Effect

/-- The next generated id. -/
def nextID (used : List String) : String := "00000000-0000-7000-8000-00000000000" ++ toString used.length

/-- Serve a call: every message asked for is handed out, keys come in storage
order and the backoff is one second.  Nothing is served once ids run out. -/
def serve (w : World) : (op : Op) → Option (Ans op × World)
  | .now => some (w.clock, w)
  | .newUUIDv7 =>
      if nextID w.used ∈ w.used ∨ nextID w.used = "" then none
      else some (nextID w.used, { w with used := nextID w.used :: w.used })
  | .calculateBackoff _ _ => some ((1000000000 : Int), w)
  | .get b key => some (w.lookup b key, w)
  | .put b key v => some (.ok ((w.kv b).revision + 1), w.put b key v)
  | .create b key v =>
      if (w.value b key).isSome then some (.error .keyExists, w)
      else some (.ok ((w.kv b).revision + 1), w.put b key v)
  | .update b key v revision =>
      if ((w.kv b).get key).map Prod.snd = some revision then
        some (.ok ((w.kv b).revision + 1), w.put b key v)
      else some (.error .wrongRevision, w)
  | .delete b key => some (.ok (), w.delete b key)
  | .keys b =>
      if (w.kv b).keys = [] then some (.error .noKeysFound, w) else some (.ok (w.kv b).keys, w)
  | .consumerLoad queue => some (w.consumers queue, w)
  | .consumerStore queue =>
      some ((), { w with consumers := Function.update w.consumers queue true })
  | .ensureConsumer _ => some (.ok (), w)
  | .consumerFetch queue count =>
      some (.ok (deliver (queueJobsSubject queue) count w.stream).1,
        { w with stream := (deliver (queueJobsSubject queue) count w.stream).2 })
  | .inflightLoad jobID => some (w.inflight jobID, w)
  | .inflightStore jobID msg =>
      some ((), { w with inflight := Function.update w.inflight jobID (some msg) })
  | .inflightLoadAndDelete jobID =>
      some (w.inflight jobID, { w with inflight := Function.update w.inflight jobID none })
  | .msgAck _ => some (.ok (), w)
  | .msgInProgress _ => some (.ok (), w)
  | .publish subject data => some (.ok (), w.publish subject data)
  | .regexLoad key => some (w.regexCache key, w)
  | .regexStore key re =>
      some ((), { w with regexCache := Function.update w.regexCache key (some re) })

theorem serve_serves {w w' : World} {op : Op} {r : Ans op} (h : serve w op = some (r, w')) :
    w.Serves op r w' := by
  cases op with
  | newUUIDv7 =>
    simp only [serve] at h
    split at h
    · cases h
    · rename_i fresh
      cases h
      exact ⟨fun empty => fresh (.inr empty), fun used => fresh (.inl used), rfl⟩
  | calculateBackoff =>
    cases h
    exact ⟨⟨by decide, by decide⟩, rfl⟩
  | create b key v =>
    simp only [serve] at h
    simp only [World.Serves]
    split at h <;> rename_i stored <;> cases h <;> simp [stored]
  | update b key v revision =>
    simp only [serve] at h
    simp only [World.Serves]
    split at h <;> rename_i current <;> cases h <;> simp [current]
  | keys b =>
    simp only [serve] at h
    simp only [World.Serves]
    split at h <;> rename_i empty <;> cases h <;> simp [empty]
  | consumerFetch queue count =>
    cases h
    exact ⟨count, Nat.le_refl count, rfl, rfl⟩
  | consumerStore | inflightStore | regexStore =>
    cases h
    rfl
  | now | get | put | delete | consumerLoad | ensureConsumer | inflightLoad
  | inflightLoadAndDelete | msgAck | msgInProgress | publish | regexLoad =>
    cases h
    exact ⟨rfl, rfl⟩

/-- Run a program to its end. -/
def execute {α : Type} : Prog α → World → Option (α × World)
  | .pure a, w => some (a, w)
  | .call op next, w =>
      match serve w op with
      | none => none
      | some (r, w') => execute (next r) w'

theorem exec_of_execute {α : Type} {p : Prog α} {w t : World} {a : α}
    (h : execute p w = some (a, t)) : serves.Exec p w a t := by
  induction p generalizing w with
  | pure b =>
    cases h
    exact ⟨rfl, rfl⟩
  | call op next ih =>
    simp only [execute] at h
    split at h
    · cases h
    · rename_i r w' served
      exact ⟨r, w', serve_serves served, ih r h⟩

/-- Let a call report an error, if it can. -/
def refuse (w : World) : (op : Op) → Option (Ans op × World)
  | .get _ _ | .put _ _ _ | .create _ _ _ | .update _ _ _ _ | .delete _ _ | .keys _
  | .ensureConsumer _ | .consumerFetch _ _ | .msgAck _ | .msgInProgress _ | .publish _ _ =>
      some (.error .unavailable, w)
  | _ => none

theorem refuse_fails {w w' : World} {op : Op} {r : Ans op} (h : refuse w op = some (r, w')) :
    w.Fails op r w' := by
  cases op with
  | get | put | create | update | delete | keys | ensureConsumer | consumerFetch | msgAck
  | msgInProgress | publish =>
    cases h
    exact ⟨rfl, rfl⟩
  | _ => cases h

/-- Run a program to its end while certain calls fail. -/
def executeFailing (failing : Op → Bool) {α : Type} :
    Prog α → World × List Op → Option (α × World × List Op)
  | .pure a, s => some (a, s)
  | .call op next, (w, log) =>
      if failing op then
        match refuse w op with
        | none => none
        | some (r, w') => executeFailing failing (next r) (w', log ++ [op])
      else
        match serve w op with
        | none => none
        | some (r, w') => executeFailing failing (next r) (w', log)

theorem exec_of_executeFailing {failing : Op → Bool} {α : Type} {p : Prog α}
    {s t : World × List Op} {a : α} (h : executeFailing failing p s = some (a, t)) :
    (serves.failing fails).Exec p s a t := by
  induction p generalizing s with
  | pure b =>
    cases h
    exact ⟨rfl, rfl⟩
  | call op next ih =>
    obtain ⟨w, log⟩ := s
    simp only [executeFailing] at h
    split at h
    · split at h
      · cases h
      · rename_i r w' refused
        exact ⟨r, (w', log ++ [op]), .inr ⟨refuse_fails refused, rfl⟩, ih r h⟩
    · split at h
      · cases h
      · rename_i r w' served
        exact ⟨r, (w', log), .inl ⟨serve_serves served, rfl⟩, ih r h⟩

end OjsNats.Nats
