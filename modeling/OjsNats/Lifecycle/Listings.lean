import Mathlib.Data.String.Basic
import Mathlib.Order.Basic
import OjsNats.Lifecycle.Sweeps
import OjsNats.Nats.Listing
import OjsNats.Store.Paging

/-!
# Listings page by page

Each call of a listing lists the keys anew, in any order.  The pages of several
calls show every item once exactly if the order that the listing sorts by, where
it sorts at all, keeps the items apart that are not on one page.
-/

namespace OjsNats.Nats

open Core Effect Semantics

/-! ## Slices -/

section Slices

variable {α β : Type} {xs : List α} {limit offset : Int}

theorem addInt_of_fits (low : 0 ≤ offset + limit) (high : offset + limit < 2 ^ 63) :
    addInt offset limit = offset + limit :=
  Int.bmod_eq_of_le (by omega) (by omega)

/-- A page that begins and ends in the range of `int`. -/
theorem paginate_fits (low : 0 ≤ offset) (positive : 0 < limit) (fits : offset + limit < 2 ^ 63) :
    paginate xs limit offset = some ((xs.drop offset.toNat).take limit.toNat) := by
  unfold paginate
  rw [addInt_of_fits (by omega) fits]
  dsimp only
  split
  · rename_i past
    rw [List.drop_of_length_le (by omega), List.take_nil]
  · rename_i inside
    split
    · rename_i long
      rw [slice, if_pos (by omega), Int.toNat_natCast, List.take_length,
        List.take_of_length_le (by rw [List.length_drop]; omega)]
    · rename_i short
      rw [slice, if_pos (by omega), List.drop_take]
      congr 3
      omega

theorem paginate_past (past : (xs.length : Int) ≤ offset) : paginate xs limit offset = some [] :=
  if_pos past

/-- A sum that overflows is negative, and no slice ends there. -/
theorem paginate_overflow (low : 0 ≤ offset) (inside : offset < xs.length)
    (small : offset < 2 ^ 63) (fits : limit < 2 ^ 63) (overflow : 2 ^ 63 ≤ offset + limit) :
    paginate xs limit offset = none := by
  have negative : addInt offset limit = offset + limit - 2 ^ 64 := by
    rw [addInt, ← Int.sub_bmod_right]
    exact Int.bmod_eq_of_le (by omega) (by omega)
  unfold paginate
  rw [negative]
  dsimp only
  rw [if_neg (by omega), if_neg (by omega), slice, if_neg (by omega)]

end Slices

/-! ## What a call lists -/

/-- The job under a key, if it passes the filters. -/
def World.matching (w : World) (filters : JobListFilters) (k : String) : Option Job :=
  ((w.value .jobs k).map unmarshalJobState).filter (passes filters)

/-- The jobs that pass the filters. -/
def World.jobItems (w : World) (filters : JobListFilters) : List Job :=
  (w.kv .jobs).keys.filterMap (w.matching filters)

def World.workerAt (w : World) (k : String) : Option WorkerInfo :=
  (w.value .workers k).map (listedWorker k)

def World.workerItems (w : World) : List WorkerInfo := (w.kv .workers).keys.filterMap w.workerAt

def World.deadJob (w : World) (k : String) : Option Job :=
  (w.value .jobs k).map unmarshalJobState

/-- The jobs of the dead letter queue. -/
def World.deadItems (w : World) : List Job := (w.kv .dead).keys.filterMap w.deadJob

/-- A call of `ListJobs` may reply so. -/
def ListsJobs (w : World) (filters : JobListFilters) (limit offset : Int)
    (reply : Listed Job Int) : Prop :=
  ∃ sortSlice w', SortsByCreation sortSlice ∧
    serves.Exec (listJobs sortSlice filters limit offset) w reply w'

def ListsWorkers (w : World) (limit offset : Int) (reply : Listed WorkerInfo WorkerSummary) :
    Prop :=
  ∃ w', serves.Exec (listWorkers limit offset) w reply w'

def ListsDead (w : World) (limit offset : Int) (reply : Listed Job Int) : Prop :=
  ∃ w', serves.Exec (listDeadLetter limit offset) w reply w'

end OjsNats.Nats

namespace OjsNats.Lifecycle

open Core Nats Effect Semantics Program
open Store (Arranges TiesTogether Visits page paged)

variable {w w' : World} {filters : JobListFilters} {limit offset : Int}

theorem foldl_append_toList {α β : Type} (f : β → Option α) (xs : List β) (acc : List α) :
    xs.foldl (fun found x => found ++ (f x).toList) acc = acc ++ xs.filterMap f := by
  induction xs generalizing acc with
  | nil => simp
  | cons x rest ih =>
    rw [List.foldl_cons, ih, List.filterMap_cons]
    cases f x <;> simp

/-- A loop that collects what it finds under each key. -/
theorem wp_collect {α : Type} {body : String → List α → Prog (List α)} {f : String → Option α}
    (reads : ∀ k acc (Q : List α → World → Prop),
      serves.wp (body k acc) Q w ↔ Q (acc ++ (f k).toList) w)
    {keys : List String} {Q : List α → World → Prop} :
    serves.wp (Program.forEach keys [] body) Q w ↔ Q (keys.filterMap f) w := by
  rw [wp_forEach_reads reads, foldl_append_toList, List.nil_append]

theorem wp_listJob (k : String) (jobs : List Job) (Q : List Job → World → Prop) :
    serves.wp (listJob filters k jobs) Q w ↔ Q (jobs ++ (w.matching filters k).toList) w := by
  simp only [listJob, bind_eq, pure_eq, wp_bind, wp_getJobState, World.job, World.matching]
  cases w.value .jobs k with
  | none => simp
  | some rec =>
    by_cases through : passes filters (unmarshalJobState rec) = true
    · simp [through, Option.filter_some]
    · simp [through, Option.filter_some]

theorem wp_listWorker (k : String) (workers : List WorkerInfo)
    (Q : List WorkerInfo → World → Prop) :
    serves.wp (listWorker k workers) Q w ↔ Q (workers ++ (w.workerAt k).toList) w := by
  simp only [listWorker, bind_eq, pure_eq, wp_bind, wp_get .workers, World.workerAt]
  cases found : w.lookup .workers k with
  | error e => simp [World.lookup_error w found]
  | ok entry =>
    obtain ⟨info, rev⟩ := entry
    simp [World.lookup_value w found]

theorem wp_listDeadJob (k : String) (jobs : List Job) (Q : List Job → World → Prop) :
    serves.wp (listDeadJob k jobs) Q w ↔ Q (jobs ++ (w.deadJob k).toList) w := by
  simp only [listDeadJob, bind_eq, pure_eq, wp_bind, wp_info, World.info, World.job,
    World.deadJob]
  cases w.value .jobs k with
  | none => simp
  | some rec => simp

theorem exec_listJobs {sortSlice : List Job → List Job} {reply : Listed Job Int} :
    serves.Exec (listJobs sortSlice filters limit offset) w reply w' ↔
      w' = w ∧ ∃ keys : List String, keys.Perm (w.kv .jobs).keys ∧
        reply = .ofPage (paginate (sortSlice (keys.filterMap (w.matching filters))) limit offset)
          (keys.filterMap (w.matching filters)).length :=
  exec_of_wp fun Q => by
    rw [listJobs, bind_eq, wp_bind, wp_keys_iff]
    refine forall_congr' fun keys => imp_congr_right fun _ => ?_
    simp only [bind_eq, pure_eq, wp_bind, wp_pure]
    exact wp_collect wp_listJob

theorem exec_listWorkers {reply : Listed WorkerInfo WorkerSummary} :
    serves.Exec (listWorkers limit offset) w reply w' ↔
      w' = w ∧ ∃ keys : List String, keys.Perm (w.kv .workers).keys ∧
        reply = .ofPage (paginate (keys.filterMap w.workerAt) limit offset)
          (summarize (keys.filterMap w.workerAt)) :=
  exec_of_wp fun Q => by
    rw [listWorkers, bind_eq, wp_bind, wp_keys_iff]
    refine forall_congr' fun keys => imp_congr_right fun _ => ?_
    simp only [bind_eq, pure_eq, wp_bind, wp_pure]
    exact wp_collect wp_listWorker

theorem exec_listDeadLetter {reply : Listed Job Int} :
    serves.Exec (listDeadLetter limit offset) w reply w' ↔
      w' = w ∧ ∃ keys : List String, keys.Perm (w.kv .dead).keys ∧
        reply = .ofPage ((paginate (sortStrings keys) limit offset).map
          fun page => page.filterMap w.deadJob) keys.length :=
  exec_of_wp fun Q => by
    rw [listDeadLetter, bind_eq, wp_bind, wp_keys_iff]
    refine forall_congr' fun keys => imp_congr_right fun _ => ?_
    cases found : paginate (sortStrings keys) limit offset with
    | none =>
      simp only [found]
      exact wp_pure
    | some page =>
      simp only [found, bind_eq, pure_eq, wp_bind, wp_pure]
      exact wp_collect wp_listDeadJob

/-! ## Pages of a listing -/

section Pages

variable {α β κ : Type} [LinearOrder κ] {replies : Int → Listed α β → Prop} {count : β → Int}
  {key : α → κ} {items : List α} {size : Nat}

/-- What is expected of a listing whose calls reply so from an offset on: each call reports the
number of items, and the pages below it show every item exactly once. -/
structure PagesOnce (replies : Int → Listed α β → Prop) (count : β → Int) (items : List α)
    (size : Nat) : Prop where
  answers : ∀ offset reply, 0 ≤ offset → offset < 2 ^ 63 → replies offset reply →
    ∃ shown extra, reply = .listed shown extra ∧ count extra = items.length
  visits : ∀ pages : Nat → List α,
    (∀ k : Nat, k * size < items.length →
      ∃ extra, replies (k * size : Nat) (.listed (pages k) extra)) →
    Visits items (paged size items.length pages)

/-- The calls show pages of arrangements of the items, and of any such. -/
structure ShowsArranged (replies : Int → Listed α β → Prop) (count : β → Int) (key : α → κ)
    (items : List α) (size : Nat) : Prop where
  arranged : ∀ offset reply, replies offset reply → ∃ xs extra, Arranges key items xs ∧
    count extra = items.length ∧ reply = .ofPage (paginate xs size offset) extra
  shown : ∀ offset xs, Arranges key items xs →
    ∃ extra, replies offset (.ofPage (paginate xs size offset) extra)

/-- A page that begins below the number of items, where no offset overflows. -/
theorem paginate_below {xs : List α} {start : Nat} (positive : 1 ≤ size)
    (bounded : items.length + size ≤ 2 ^ 63) (begins : start < items.length) :
    paginate xs size start = some ((xs.drop start).take size) := by
  rw [paginate_fits (by omega) (by omega) (by omega), Int.toNat_natCast, Int.toNat_natCast]

theorem pagesOnce_iff (shows : ShowsArranged replies count key items size) (nodup : items.Nodup)
    (positive : 1 ≤ size) (fits : size < 2 ^ 63) : PagesOnce replies count items size ↔
      items.length + size ≤ 2 ^ 63 ∧ TiesTogether size key items := by
  constructor
  · intro once
    have bounded : items.length + size ≤ 2 ^ 63 := by
      by_contra overflow
      -- the last offset whose sum with the size overflows
      obtain ⟨xs, arranged⟩ := Store.exists_arranges key items
      obtain ⟨extra, replied⟩ := shows.shown (2 ^ 63 - size) xs arranged
      have length := arranged.perm.length_eq
      rw [paginate_overflow (by omega) (by omega) (by omega) (by omega) (by omega)] at replied
      obtain ⟨_, _, same, -⟩ := once.answers _ _ (by omega) (by omega) replied
      cases same
    refine ⟨bounded, (Store.visits_iff positive nodup).mp fun arranged arranges => ?_⟩
    refine once.visits _ fun k begins => ?_
    obtain ⟨extra, replied⟩ := shows.shown (k * size : Nat) (arranged k) (arranges k begins)
    rw [paginate_below positive bounded begins] at replied
    exact ⟨extra, replied⟩
  · intro ok
    obtain ⟨bounded, together⟩ := ok
    constructor
    · intro offset reply low small replied
      obtain ⟨xs, extra, arranged, number, rfl⟩ := shows.arranged offset reply replied
      have length := arranged.perm.length_eq
      by_cases past : (xs.length : Int) ≤ offset
      · exact ⟨[], extra, by rw [paginate_past past]; rfl, number⟩
      · have sliced : paginate xs size offset = some ((xs.drop offset.toNat).take size) :=
          paginate_fits low (by omega) (by omega)
        exact ⟨_, extra, by rw [sliced]; rfl, number⟩
    · intro pages replied
      have from_arranged (k : Nat) (begins : k * size < items.length) :
          ∃ xs, Arranges key items xs ∧ pages k = page size k xs := by
        obtain ⟨extra, reply⟩ := replied k begins
        obtain ⟨xs, extra', arranged, -, same⟩ := shows.arranged _ _ reply
        rw [paginate_below positive bounded begins] at same
        exact ⟨xs, arranged, (Listed.listed.inj same).1⟩
      choose! arranged arranges shown using from_arranged
      have same : paged size items.length pages =
          paged size items.length fun k => page size k (arranged k) :=
        List.flatMap_congr fun k mem => shown k ((Store.mem_pageNumbers positive).mp mem)
      rw [same]
      exact Store.visits_of_together positive nodup together arranges

end Pages

/-! ## The three listings -/

/-- `created_at`, the latest first. -/
def createdLast (job : Job) : OrderDual String := OrderDual.toDual job.createdAt

theorem sortsByCreation_iff {sortSlice : List Job → List Job} : SortsByCreation sortSlice ↔
    ∀ jobs, Arranges createdLast jobs (sortSlice jobs) := by
  have order (job job' : Job) :
      ¬ job'.createdAt > job.createdAt ↔ createdLast job ≤ createdLast job' := not_lt
  constructor
  · intro sorts jobs
    exact ⟨sorts.perm jobs, (sorts.sorted jobs).imp fun h => (order _ _).mp h⟩
  · intro arranges
    exact ⟨fun jobs => (arranges jobs).perm,
      fun jobs => (arranges jobs).sorted.imp fun h => (order _ _).mpr h⟩

/-- Sorting may bring about any arrangement. -/
theorem exists_sort {jobs xs : List Job} (arranged : Arranges createdLast jobs xs) :
    ∃ sortSlice, SortsByCreation sortSlice ∧ sortSlice jobs = xs := by
  classical
  choose sorted sorts using Store.exists_arranges createdLast
  refine ⟨fun ys => if ys = jobs then xs else sorted ys, sortsByCreation_iff.mpr fun ys => ?_,
    if_pos rfl⟩
  by_cases same : ys = jobs
  · rw [if_pos same, same]
    exact arranged
  · rw [if_neg same]
    exact sorts ys

theorem showsArranged_jobs (size : Nat) : ShowsArranged (ListsJobs w filters size) id createdLast
    (w.jobItems filters) size where
  arranged := by
    rintro offset reply ⟨sortSlice, w', sorts, run⟩
    obtain ⟨-, keys, perm, rfl⟩ := exec_listJobs.mp run
    have same : (keys.filterMap (w.matching filters)).Perm (w.jobItems filters) := perm.filterMap _
    refine ⟨_, _, (sortsByCreation_iff.mp sorts _).of_perm same, ?_, rfl⟩
    rw [id, same.length_eq]
  shown := by
    intro offset xs arranged
    obtain ⟨sortSlice, sorts, rfl⟩ := exists_sort arranged
    exact ⟨_, sortSlice, w, sorts, exec_listJobs.mpr ⟨rfl, _, .refl _, rfl⟩⟩

theorem total_foldl_countWorker (workers : List WorkerInfo) (summary : WorkerSummary) :
    (workers.foldl countWorker summary).total = summary.total := by
  induction workers generalizing summary with
  | nil => rfl
  | cons w rest ih =>
    rw [List.foldl_cons, ih, countWorker]
    split
    · rfl
    · split <;> rfl

theorem total_summarize (workers : List WorkerInfo) :
    (summarize workers).total = workers.length :=
  total_foldl_countWorker workers _

/-- Items that tell their keys are listed one for each key. -/
theorem map_filterMap_keys {α : Type} {f : String → Option α} {label : α → String}
    {keys : List String} (found : ∀ k ∈ keys, ∃ x, f k = some x ∧ label x = k) :
    (keys.filterMap f).map label = keys := by
  induction keys with
  | nil => rfl
  | cons k rest ih =>
    obtain ⟨x, here, same⟩ := found k (by simp)
    rw [List.filterMap_cons_some here, List.map_cons, same,
      ih fun k' mem => found k' (List.mem_cons_of_mem k mem)]

theorem workerAt_of_mem {k : String} (mem : k ∈ (w.kv .workers).keys) :
    ∃ x, w.workerAt k = some x ∧ x.id = k := by
  obtain ⟨info, stored⟩ := Option.isSome_iff_exists.mp (((w.kv .workers).mem_keys_iff k).mp mem)
  exact ⟨listedWorker k info, by rw [World.workerAt, World.value, stored]; rfl, rfl⟩

theorem ids_workerItems (w : World) : w.workerItems.map WorkerInfo.id = (w.kv .workers).keys :=
  map_filterMap_keys fun _ mem => workerAt_of_mem mem

theorem showsArranged_workers (w : World) (size : Nat) : ShowsArranged (ListsWorkers w size)
    WorkerSummary.total (fun _ => ()) w.workerItems size where
  arranged := by
    rintro offset reply ⟨w', run⟩
    obtain ⟨-, keys, perm, rfl⟩ := exec_listWorkers.mp run
    have same : (keys.filterMap w.workerAt).Perm w.workerItems := perm.filterMap _
    refine ⟨_, _, ⟨same, List.pairwise_of_forall fun _ _ => le_rfl⟩, ?_, rfl⟩
    rw [total_summarize, same.length_eq]
  shown := by
    intro offset xs arranged
    have keys : (xs.map WorkerInfo.id).Perm (w.kv .workers).keys :=
      ids_workerItems w ▸ arranged.perm.map _
    have back : (xs.map WorkerInfo.id).filterMap w.workerAt = xs := by
      rw [List.filterMap_map]
      refine (List.filterMap_congr fun x mem => ?_).trans List.filterMap_some
      obtain ⟨k, inside, found⟩ := List.mem_filterMap.mp (arranged.perm.mem_iff.mp mem)
      obtain ⟨x', found', rfl⟩ := workerAt_of_mem inside
      cases found.symm.trans found'
      exact found
    exact ⟨_, w, exec_listWorkers.mpr ⟨rfl, _, keys, by rw [back]⟩⟩

theorem sortStrings_perm (keys : List String) : (sortStrings keys).Perm keys :=
  List.mergeSort_perm _ _

theorem sortStrings_sorted (keys : List String) :
    (sortStrings keys).Pairwise fun a b => a ≤ b := by
  refine (List.pairwise_mergeSort ?_ ?_ keys).imp fun le => of_decide_eq_true le
  · intro a b c first last
    exact decide_eq_true ((of_decide_eq_true first).trans (of_decide_eq_true last))
  · intro a b
    rw [Bool.or_eq_true, decide_eq_true_iff, decide_eq_true_iff]
    exact le_total _ _

theorem slice_map {α β : Type} (f : α → β) (xs : List α) (low high : Int) :
    slice (xs.map f) low high = (slice xs low high).map (List.map f) := by
  unfold slice
  rw [List.length_map]
  split
  · rw [Option.map_some, List.map_drop, List.map_take]
  · rfl

theorem paginate_map {α β : Type} (f : α → β) (xs : List α) (limit offset : Int) :
    paginate (xs.map f) limit offset = (paginate xs limit offset).map (List.map f) := by
  unfold paginate
  dsimp only
  rw [List.length_map, slice_map]
  split
  · rfl
  · rfl

theorem subset_of_slice {α : Type} {xs shown : List α} {low high : Int}
    (found : slice xs low high = some shown) : ∀ x ∈ shown, x ∈ xs := by
  unfold slice at found
  split at found
  · cases found
    exact fun x mem => List.mem_of_mem_take (List.mem_of_mem_drop mem)
  · cases found

theorem subset_of_paginate {α : Type} {xs shown : List α}
    (found : paginate xs limit offset = some shown) : ∀ x ∈ shown, x ∈ xs := by
  unfold paginate at found
  dsimp only at found
  by_cases past : (xs.length : Int) ≤ offset
  · rw [if_pos past] at found
    cases found
    simp
  · rw [if_neg past] at found
    exact subset_of_slice found

/-- Every entry of the dead letter queue has a record. -/
def DeadReadable (w : World) : Prop := ∀ k ∈ (w.kv .dead).keys, (w.value .jobs k).isSome

instance (w : World) : Decidable (DeadReadable w) :=
  inferInstanceAs (Decidable (∀ k ∈ (w.kv .dead).keys, (w.value .jobs k).isSome))

theorem deadJob_of_mem {k : String} (own : UnderOwnIDs w) (readable : DeadReadable w)
    (mem : k ∈ (w.kv .dead).keys) : ∃ job, w.deadJob k = some job ∧ job.id = k := by
  obtain ⟨rec, stored⟩ := Option.isSome_iff_exists.mp (readable k mem)
  exact ⟨unmarshalJobState rec, by rw [World.deadJob, stored]; rfl, own k rec stored⟩

/-- The dead jobs in the order of their ids. -/
theorem arranges_dead {keys : List String} (own : UnderOwnIDs w) (readable : DeadReadable w)
    (perm : keys.Perm (w.kv .dead).keys) :
    Arranges Job.id w.deadItems ((sortStrings keys).filterMap w.deadJob) := by
  have all := (sortStrings_perm keys).trans perm
  refine ⟨all.filterMap _, ?_⟩
  have ids : ((sortStrings keys).filterMap w.deadJob).map Job.id = sortStrings keys :=
    map_filterMap_keys fun k mem => deadJob_of_mem own readable (all.mem_iff.mp mem)
  exact List.pairwise_map.mp (ids.symm ▸ sortStrings_sorted keys)

/-- A page of ids is shown as a page of jobs. -/
theorem paginate_dead {keys : List String} (own : UnderOwnIDs w) (readable : DeadReadable w)
    (perm : keys.Perm (w.kv .dead).keys) :
    (paginate (sortStrings keys) limit offset).map (fun shown => shown.filterMap w.deadJob) =
      paginate ((sortStrings keys).filterMap w.deadJob) limit offset := by
  have all := (sortStrings_perm keys).trans perm
  have mapped {ids : List String} (inside : ∀ k ∈ ids, k ∈ sortStrings keys) :
      ids.filterMap w.deadJob = ids.map fun k => (w.deadJob k).getD {} := by
    rw [← List.filterMap_eq_map]
    refine List.filterMap_congr fun k mem => ?_
    obtain ⟨job, found, -⟩ := deadJob_of_mem own readable (all.mem_iff.mp (inside k mem))
    simp [found]
  rw [mapped fun _ mem => mem, paginate_map]
  cases found : paginate (sortStrings keys) limit offset with
  | none => rfl
  | some shown => exact congrArg some (mapped (subset_of_paginate found))

theorem ids_deadItems (own : UnderOwnIDs w) (readable : DeadReadable w) :
    w.deadItems.map Job.id = (w.kv .dead).keys :=
  map_filterMap_keys fun _ mem => deadJob_of_mem own readable mem

theorem length_deadItems (own : UnderOwnIDs w) (readable : DeadReadable w) :
    w.deadItems.length = (w.kv .dead).keys.length := by
  rw [← ids_deadItems own readable, List.length_map]

/-- Different dead jobs have different ids. -/
theorem dead_apart (own : UnderOwnIDs w) (readable : DeadReadable w) :
    ∀ a ∈ w.deadItems, ∀ b ∈ w.deadItems, b.id = a.id → b = a := by
  intro a mem b mem' same
  obtain ⟨k, inside, found⟩ := List.mem_filterMap.mp mem
  obtain ⟨k', inside', found'⟩ := List.mem_filterMap.mp mem'
  obtain ⟨job, here, rfl⟩ := deadJob_of_mem own readable inside
  obtain ⟨job', here', rfl⟩ := deadJob_of_mem own readable inside'
  cases here.symm.trans found
  cases here'.symm.trans found'
  rw [same] at found'
  exact Option.some.inj (found'.symm.trans found)

theorem showsArranged_dead (own : UnderOwnIDs w) (readable : DeadReadable w) (size : Nat) :
    ShowsArranged (ListsDead w size) id Job.id w.deadItems size where
  arranged := by
    rintro offset reply ⟨w', run⟩
    obtain ⟨-, keys, perm, rfl⟩ := exec_listDeadLetter.mp run
    refine ⟨_, _, arranges_dead own readable perm, ?_, by rw [paginate_dead own readable perm]⟩
    rw [id, length_deadItems own readable, perm.length_eq]
  shown := by
    intro offset xs arranged
    have only := arranges_dead own readable (.refl _)
    -- the ids leave no choice
    have same : (sortStrings (w.kv .dead).keys).filterMap w.deadJob = xs := by
      refine List.Perm.eq_of_pairwise (fun a b mem mem' le ge => ?_) only.sorted arranged.sorted
        (only.perm.trans arranged.perm.symm)
      exact dead_apart own readable b (arranged.perm.mem_iff.mp mem') a (only.perm.mem_iff.mp mem)
        (le_antisymm le ge)
    have replied : serves.Exec (listDeadLetter size offset) w
        (.ofPage (paginate xs size offset) (w.kv .dead).keys.length) w :=
      exec_listDeadLetter.mpr ⟨rfl, _, .refl _, by rw [paginate_dead own readable (.refl _), same]⟩
    exact ⟨_, w, replied⟩

/-! ## Every item once -/

theorem nodup_jobItems (own : UnderOwnIDs w) : (w.jobItems filters).Nodup := by
  refine (w.kv .jobs).keys_nodup.filterMap fun k k' job mem mem' => ?_
  have label {k : String} (mem : job ∈ w.matching filters k) : job.id = k := by
    obtain ⟨rec, stored, rfl⟩ := Option.map_eq_some_iff.mp (Option.filter_eq_some_iff.mp mem).1
    exact own k rec stored
  exact (label mem).symm.trans (label mem')

theorem nodup_workerItems (w : World) : w.workerItems.Nodup :=
  .of_map WorkerInfo.id (ids_workerItems w ▸ (w.kv .workers).keys_nodup)

theorem nodup_deadItems (own : UnderOwnIDs w) (readable : DeadReadable w) : w.deadItems.Nodup :=
  .of_map Job.id (ids_deadItems own readable ▸ (w.kv .dead).keys_nodup)

/-- The pages of `ListJobs` show every job once exactly if jobs of one time come on one page,
those of `ListWorkers` exactly if all workers come on one page, and those of `ListDeadLetter`
always, where no offset overflows. -/
theorem pagesOnce_listings (filters : JobListFilters) {size : Nat} (own : UnderOwnIDs w)
    (readable : DeadReadable w) (positive : 1 ≤ size) (fits : size < 2 ^ 63) :
    (PagesOnce (ListsJobs w filters size) id (w.jobItems filters) size ↔
      (w.jobItems filters).length + size ≤ 2 ^ 63 ∧
        TiesTogether size createdLast (w.jobItems filters)) ∧
    (PagesOnce (ListsWorkers w size) WorkerSummary.total w.workerItems size ↔
      w.workerItems.length + size ≤ 2 ^ 63 ∧ w.workerItems.length ≤ size) ∧
    (PagesOnce (ListsDead w size) id w.deadItems size ↔
      w.deadItems.length + size ≤ 2 ^ 63) := by
  refine ⟨?_, ?_, ?_⟩
  · exact pagesOnce_iff (showsArranged_jobs size) (nodup_jobItems own) positive fits
  · rw [pagesOnce_iff (showsArranged_workers w size) (nodup_workerItems w) positive fits,
      Store.together_iff_of_equal positive fun _ _ _ _ => rfl]
  · have together : TiesTogether size Job.id w.deadItems :=
      Store.together_of_injective (nodup_deadItems own readable) (dead_apart own readable)
    rw [pagesOnce_iff (showsArranged_dead own readable size) (nodup_deadItems own readable)
      positive fits]
    exact and_iff_left together

/-- Two jobs of one batch. -/
def batched : World := after (World.start (Sample.instant 0)) (.pushBatch
  [{ id := "job-1", type := "mail", queue := "mails" },
    { id := "job-2", type := "mail", queue := "mails" }])

theorem reachable_batched : Reachable sample batched :=
  (Reachable.start (by decide)).after ⟨by decide, fun _ _ => rfl⟩

theorem deadReadable_batched : DeadReadable batched := by decide

theorem pagesOnce_listings_batched : PagesOnce (ListsDead batched 2) id batched.deadItems 2 :=
  (pagesOnce_listings {} (fun k => (reachable_batched.sound.placed k).keyed)
    deadReadable_batched (by decide) (by decide)).2.2.mpr (by decide)

/-- Jobs of one batch can be listed twice, and others never. -/
theorem not_pagesOnce : ¬ ∀ (lib : Externals) (w : World) (filters : JobListFilters) (size : Nat),
    Reachable lib w → DeadReadable w → 1 ≤ size → size < 2 ^ 63 →
    PagesOnce (ListsJobs w filters size) id (w.jobItems filters) size ∧
      PagesOnce (ListsWorkers w size) WorkerSummary.total w.workerItems size ∧
      PagesOnce (ListsDead w size) id w.deadItems size := by
  intro once
  have jobs := (once sample batched {} 1 reachable_batched deadReadable_batched (by decide)
    (by decide)).1
  have own : UnderOwnIDs batched := fun k => (reachable_batched.sound.placed k).keyed
  have together := ((pagesOnce_iff (showsArranged_jobs 1) (nodup_jobItems own) (by decide)
    (by decide)).mp jobs).2
  have times : ∀ job ∈ batched.jobItems {}, ∀ job' ∈ batched.jobItems {},
      job.createdAt = job'.createdAt := by decide
  have fits := (Store.together_iff_of_equal (by decide) fun job mem job' mem' =>
    congrArg OrderDual.toDual (times job mem job' mem')).mp together
  exact absurd fits (by decide)

end OjsNats.Lifecycle
