import Mathlib.Data.List.Basic

/-!
# One publisher, many readers

A message that is published waits at each subscription that it fits, is put into the
channel of the subscription if there is room, and is taken out by the reader.  On its way
nothing is repeated and nothing overtakes.
-/

namespace OjsNats.Subject

/-- A subscription.  Each message goes with its number among all that were published. -/
structure Feed (σ α : Type*) where
  pattern : σ
  /-- How many messages had been published when the subscription began, and when it ended. -/
  since : Nat
  ended : Option Nat := none
  pending : List (α × Nat) := []
  channel : List (α × Nat) := []
  taken : List (α × Nat) := []
  dropped : Nat := 0

/-- The messages that were published, and the subscriptions in the order they began. -/
structure Fanout (σ α : Type*) where
  log : List α := []
  feeds : List (Feed σ α) := []

variable {σ α : Type*}

namespace Feed

def publish (fits : σ → α → Bool) (m : α) (n : Nat) (f : Feed σ α) : Feed σ α :=
  if f.ended.isNone && fits f.pattern m then { f with pending := f.pending ++ [(m, n)] } else f

/-- The callback puts the first message that waits into the channel, or drops it. -/
def callback (capacity : Nat) (f : Feed σ α) : Feed σ α :=
  match f.pending with
  | [] => f
  | m :: rest =>
      if f.channel.length < capacity then { f with pending := rest, channel := f.channel ++ [m] }
      else { f with pending := rest, dropped := f.dropped + 1 }

/-- The reader takes the first message of the channel. -/
def take (f : Feed σ α) : Feed σ α :=
  match f.channel with
  | [] => f
  | m :: rest => { f with channel := rest, taken := f.taken ++ [m] }

/-- The subscription ends; what still waits is not delivered, what is in the channel stays. -/
def stop (n : Nat) (f : Feed σ α) : Feed σ α :=
  match f.ended with
  | none => { f with ended := some n, pending := [] }
  | some _ => f

/-- The messages that the subscription has accepted and not dropped. -/
def carried (f : Feed σ α) : List (α × Nat) := f.taken ++ f.channel ++ f.pending

/-- Whether a message with a number is for the subscription. -/
def wants (fits : σ → α → Bool) (f : Feed σ α) (m : α × Nat) : Bool :=
  decide (f.since ≤ m.2) && (f.ended.all fun t => decide (m.2 < t)) && fits f.pattern m.1

/-- The messages of the log that are for the subscription. -/
def meant (fits : σ → α → Bool) (log : List α) (f : Feed σ α) : List (α × Nat) :=
  log.zipIdx.filter (f.wants fits)

/-- A subscription carries messages that are for it in the order of the log, and all of them
as long as it goes on and has dropped none. -/
structure Faithful (fits : σ → α → Bool) (log : List α) (f : Feed σ α) : Prop where
  began : f.since ≤ log.length
  ended : ∀ t ∈ f.ended, f.since ≤ t ∧ t ≤ log.length
  order : f.carried.Sublist (f.meant fits log)
  whole : f.dropped = 0 → f.ended = none → f.carried = f.meant fits log

section Faithful

variable {fits : σ → α → Bool} {log : List α} {f : Feed σ α} {m : α} {n capacity : Nat}

theorem wants_iff {x : α × Nat} : f.wants fits x = true ↔
    f.since ≤ x.2 ∧ (∀ t ∈ f.ended, x.2 < t) ∧ fits f.pattern x.1 = true := by
  simp [wants, Option.all_eq_true, and_assoc]

theorem mem_meant {x : α × Nat} : x ∈ f.meant fits log ↔
    log[x.2]? = some x.1 ∧ f.wants fits x = true := by
  rw [meant, List.mem_filter, List.mem_zipIdx_iff_getElem?]

/-- One more message in the log. -/
theorem meant_snoc : f.meant fits (log ++ [m]) = f.meant fits log ++
    if f.wants fits (m, log.length) then [(m, log.length)] else [] := by
  unfold meant
  rw [List.zipIdx_append, List.filter_append, Nat.zero_add, List.zipIdx_singleton,
    List.filter_singleton]
  cases f.wants fits (m, log.length) <;> rfl

theorem meant_congr {g : Feed σ α} (pattern : g.pattern = f.pattern) (since : g.since = f.since)
    (ended : g.ended = f.ended) : g.meant fits log = f.meant fits log := by
  unfold meant wants
  rw [pattern, since, ended]

theorem Faithful.idle (pattern : σ) :
    Faithful fits log { pattern := pattern, since := log.length } := by
  have empty : Feed.meant fits log { pattern := pattern, since := log.length } = [] := by
    refine List.eq_nil_iff_forall_not_mem.mpr fun x mem => ?_
    obtain ⟨found, wanted⟩ := mem_meant.mp mem
    have below := (List.getElem?_eq_some_iff.mp found).1
    exact absurd (wants_iff.mp wanted).1 (Nat.not_le_of_lt below)
  refine ⟨Nat.le_refl _, nofun, ?_, fun _ _ => empty.symm⟩
  rw [empty]
  exact List.Sublist.refl []

theorem Faithful.publish (h : Faithful fits log f) :
    Faithful fits (log ++ [m]) (f.publish fits m log.length) := by
  have longer : log.length ≤ (log ++ [m]).length := by simp
  have began : f.since ≤ (log ++ [m]).length := Nat.le_trans h.began longer
  have ended : ∀ t ∈ f.ended, f.since ≤ t ∧ t ≤ (log ++ [m]).length :=
    fun t stopped => ⟨(h.ended t stopped).1, Nat.le_trans (h.ended t stopped).2 longer⟩
  have wanted : (f.ended.isNone && fits f.pattern m) = true ↔
      f.wants fits (m, log.length) = true := by
    rw [wants_iff, Bool.and_eq_true, Option.isNone_iff_eq_none]
    constructor
    · rintro ⟨goes, fit⟩
      exact ⟨h.began, by simp [goes], fit⟩
    · rintro ⟨-, before, fit⟩
      refine ⟨Option.eq_none_iff_forall_ne_some.mpr fun t ended => ?_, fit⟩
      have late := (h.ended t ended).2
      exact absurd (before t ended) (Nat.not_lt_of_le late)
  unfold Feed.publish
  split
  · rename_i fit
    let g : Feed σ α := { f with pending := f.pending ++ [(m, log.length)] }
    have adds : g.meant fits (log ++ [m]) = f.meant fits log ++ [(m, log.length)] := by
      rw [meant_congr (g := g) (f := f) rfl rfl rfl, meant_snoc, if_pos (wanted.mp fit)]
    have carries : g.carried = f.carried ++ [(m, log.length)] := by
      simp [g, carried]
    refine ⟨began, ended, ?_, fun kept goes => ?_⟩
    · rw [carries, adds]
      exact h.order.append (List.Sublist.refl _)
    · rw [carries, adds, h.whole kept goes]
  · rename_i unfit
    have same : f.meant fits (log ++ [m]) = f.meant fits log := by
      rw [meant_snoc, if_neg (mt wanted.mpr unfit), List.append_nil]
    exact ⟨began, ended, same ▸ h.order, fun kept goes => same ▸ h.whole kept goes⟩

theorem Faithful.callback (h : Faithful fits log f) :
    Faithful fits log (f.callback capacity) := by
  unfold Feed.callback
  split
  · exact h
  · rename_i first rest pending
    have whole : f.carried = f.taken ++ f.channel ++ first :: rest := by rw [carried, pending]
    split
    · have carries : Feed.carried { f with pending := rest, channel := f.channel ++ [first] } =
          f.carried := by
        simp [carried, pending]
      refine ⟨h.began, h.ended, ?_, fun kept goes => ?_⟩
      · rw [carries]
        exact h.order
      · rw [carries]
        exact h.whole kept goes
    · refine ⟨h.began, h.ended, ?_, fun kept => absurd kept (Nat.succ_ne_zero _)⟩
      refine List.Sublist.trans ?_ h.order
      rw [whole]
      exact (List.Sublist.refl _).append (List.sublist_cons_self first rest)

theorem carried_take : f.take.carried = f.carried := by
  unfold Feed.take
  split
  · rfl
  · rename_i first rest channel
    simp [carried, channel]

theorem Faithful.take (h : Faithful fits log f) : Faithful fits log f.take := by
  have same : f.take.pattern = f.pattern ∧ f.take.since = f.since ∧ f.take.ended = f.ended ∧
      f.take.dropped = f.dropped := by
    unfold Feed.take
    split <;> exact ⟨rfl, rfl, rfl, rfl⟩
  obtain ⟨pattern, since, ended, dropped⟩ := same
  refine ⟨since ▸ h.began, by rw [ended, since]; exact h.ended, ?_, fun kept goes => ?_⟩
  · rw [carried_take, meant_congr pattern since ended]
    exact h.order
  · rw [carried_take, meant_congr pattern since ended]
    exact h.whole (dropped ▸ kept) (ended ▸ goes)

theorem ended_stop (n : Nat) (f : Feed σ α) : (f.stop n).ended = f.ended.or (some n) := by
  unfold Feed.stop
  split <;> simp [*]

theorem stop_of_ended {t : Nat} (ended : f.ended = some t) : f.stop n = f := by
  simp [Feed.stop, ended]

theorem Faithful.stop (h : Faithful fits log f) : Faithful fits log (f.stop log.length) := by
  unfold Feed.stop
  split
  · rename_i goes
    -- all that was published is before the end
    have same : Feed.meant fits log { f with ended := some log.length, pending := [] } =
        f.meant fits log := by
      refine List.filter_congr fun x mem => ?_
      have below := (List.getElem?_eq_some_iff.mp (List.mem_zipIdx_iff_getElem?.mp mem)).1
      simp [wants, goes, below]
    refine ⟨h.began, ?_, ?_, nofun⟩
    · rintro t ⟨⟩
      exact ⟨h.began, Nat.le_refl _⟩
    · rw [same]
      refine List.Sublist.trans ?_ h.order
      exact (List.Sublist.refl _).append (List.nil_sublist _)
  · exact h

/-! ## What arrives -/

/-- A message that is carried was published under its number, and is for the subscription. -/
theorem Faithful.published (h : Faithful fits log f) {x : α × Nat} (mem : x ∈ f.carried) :
    log[x.2]? = some x.1 ∧ f.wants fits x = true :=
  mem_meant.mp (h.order.subset mem)

theorem pairwise_zipIdx (log : List α) : log.zipIdx.Pairwise fun x y => x.2 < y.2 := by
  rw [← List.pairwise_map (f := Prod.snd) (R := (· < ·)), List.zipIdx_map_snd]
  exact List.pairwise_lt_range'

/-- Messages are carried in the order in which they were published, none of them twice. -/
theorem Faithful.increasing (h : Faithful fits log f) :
    f.carried.Pairwise fun x y => x.2 < y.2 :=
  ((pairwise_zipIdx log).filter _).sublist h.order

end Faithful

end Feed

/-! ## All subscriptions -/

namespace Fanout

def publish (fits : σ → α → Bool) (m : α) (b : Fanout σ α) : Fanout σ α where
  log := b.log ++ [m]
  feeds := b.feeds.map (Feed.publish fits m b.log.length)

def subscribe (pattern : σ) (b : Fanout σ α) : Fanout σ α :=
  { b with feeds := b.feeds ++ [{ pattern := pattern, since := b.log.length }] }

/-- A step of one subscription. -/
def on (i : Nat) (g : Feed σ α → Feed σ α) (b : Fanout σ α) : Fanout σ α :=
  { b with feeds := b.feeds.modify i g }

def unsubscribe (i : Nat) (b : Fanout σ α) : Fanout σ α := b.on i (Feed.stop b.log.length)

def Faithful (fits : σ → α → Bool) (b : Fanout σ α) : Prop :=
  ∀ f ∈ b.feeds, f.Faithful fits b.log

variable {fits : σ → α → Bool} {b : Fanout σ α} {i : Nat}

theorem getElem?_on (g : Feed σ α → Feed σ α) (n : Nat) :
    (b.on i g).feeds[n]? = (b.feeds[n]?).map fun f => if i = n then g f else f :=
  List.getElem?_modify g i b.feeds n

theorem getElem?_publish (m : α) (n : Nat) : (b.publish fits m).feeds[n]? =
    (b.feeds[n]?).map (Feed.publish fits m b.log.length) :=
  List.getElem?_map

theorem getElem?_subscribe (pattern : σ) (n : Nat) : (b.subscribe pattern).feeds[n]? =
    if n = b.feeds.length then some { pattern := pattern, since := b.log.length }
    else b.feeds[n]? := by
  rw [subscribe, List.getElem?_append, List.getElem?_singleton]
  split
  · rename_i below
    rw [if_neg (Nat.ne_of_lt below)]
  · rename_i past
    by_cases last : n = b.feeds.length
    · rw [if_pos last, if_pos (by omega)]
    · rw [if_neg last, if_neg (by omega), List.getElem?_eq_none (by omega)]

theorem Faithful.publish (h : b.Faithful fits) (m : α) : (b.publish fits m).Faithful fits := by
  intro f mem
  obtain ⟨f, old, rfl⟩ := List.mem_map.mp mem
  exact (h f old).publish

theorem Faithful.subscribe (h : b.Faithful fits) (pattern : σ) :
    (b.subscribe pattern).Faithful fits := by
  intro f mem
  rcases List.mem_append.mp mem with old | new
  · exact h f old
  · rw [List.mem_singleton.mp new]
    exact .idle pattern

theorem Faithful.on (h : b.Faithful fits) {g : Feed σ α → Feed σ α}
    (keeps : ∀ f : Feed σ α, f.Faithful fits b.log → (g f).Faithful fits b.log) :
    (b.on i g).Faithful fits := by
  intro f mem
  obtain ⟨j, at_j⟩ := List.mem_iff_getElem?.mp mem
  rw [getElem?_on] at at_j
  obtain ⟨f', old, rfl⟩ := Option.map_eq_some_iff.mp at_j
  have kept := h f' (List.mem_of_getElem? old)
  split
  · exact keeps f' kept
  · exact kept

theorem Faithful.unsubscribe (h : b.Faithful fits) : (b.unsubscribe i).Faithful fits :=
  h.on fun _ kept => kept.stop

end Fanout

end OjsNats.Subject
