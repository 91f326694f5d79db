import Mathlib.Data.List.Nodup
import Mathlib.Data.List.Pairwise
import Mathlib.Data.List.Sort
import Mathlib.Data.Prod.Lex

/-!
# Pages of a list in some order

Items are listed page by page, each page from an arrangement of its own.  If the
arrangements agree on a key alone, the pages show every item exactly once
exactly if items with the same key never spread over two pages.
-/

namespace OjsNats.Store

universe u v

/-! ## Pages -/

section Pages

variable {α : Type u} {size total k p : Nat} {xs : List α} {a : α}

/-- The page of that number. -/
def page (size number : Nat) (xs : List α) : List α := (xs.drop (number * size)).take size

/-- The numbers of the pages that begin below the total. -/
def pageNumbers (size total : Nat) : List Nat := (List.range total).filter fun k => k * size < total

/-- The pages that begin below the total, one after the other. -/
def paged (size total : Nat) (pages : Nat → List α) : List α :=
  (pageNumbers size total).flatMap pages

/-- Every item is visited exactly once. -/
structure Visits (items visited : List α) : Prop where
  once : visited.Nodup
  all : ∀ a, a ∈ visited ↔ a ∈ items

theorem mem_pageNumbers (positive : 0 < size) : k ∈ pageNumbers size total ↔ k * size < total := by
  rw [pageNumbers, List.mem_filter, List.mem_range, decide_eq_true_iff]
  constructor
  · exact And.right
  · intro begins
    exact ⟨(Nat.le_mul_of_pos_right k positive).trans_lt begins, begins⟩

theorem nodup_pageNumbers (size total : Nat) : (pageNumbers size total).Nodup :=
  List.nodup_range.filter _

theorem mem_page (positive : 0 < size) :
    a ∈ page size k xs ↔ ∃ p, xs[p]? = some a ∧ p / size = k := by
  rw [page, List.mem_iff_getElem?]
  constructor
  · rintro ⟨i, found⟩
    rw [List.getElem?_take] at found
    split at found
    · rename_i inside
      rw [List.getElem?_drop] at found
      refine ⟨k * size + i, found, ?_⟩
      rw [Nat.add_comm, Nat.add_mul_div_right _ _ positive, Nat.div_eq_of_lt inside, Nat.zero_add]
    · cases found
  · rintro ⟨p, found, rfl⟩
    refine ⟨p % size, ?_⟩
    rw [List.getElem?_take_of_lt (Nat.mod_lt p positive), List.getElem?_drop, Nat.div_add_mod']
    exact found

theorem page_sublist (size k : Nat) (xs : List α) : (page size k xs).Sublist xs :=
  (List.take_sublist _ _).trans (List.drop_sublist _ _)

end Pages

/-! ## Arrangements -/

section Arrangements

variable {α : Type u} {β : Type v} [LinearOrder β] {key : α → β} {items xs : List α} {a : α}
  {size p : Nat}

/-- The items in an order in which their keys ascend. -/
structure Arranges (key : α → β) (items xs : List α) : Prop where
  perm : xs.Perm items
  sorted : xs.Pairwise fun a b => key a ≤ key b

/-- The number of items with a smaller key. -/
def below (key : α → β) (items : List α) (a : α) : Nat := items.countP fun b => key b < key a

/-- The number of items with a key that is not larger. -/
def upTo (key : α → β) (items : List α) (a : α) : Nat := items.countP fun b => key b ≤ key a

/-- The first and the last place that an item can have are on one page. -/
def TiesTogether (size : Nat) (key : α → β) (items : List α) : Prop :=
  ∀ a ∈ items, below key items a / size = (upTo key items a - 1) / size

theorem Arranges.of_perm {items' : List α} (arranged : Arranges key items xs)
    (perm : items.Perm items') : Arranges key items' xs :=
  ⟨arranged.perm.trans perm, arranged.sorted⟩

theorem exists_arranges (key : α → β) (items : List α) : ∃ xs, Arranges key items xs := by
  refine ⟨items.mergeSort fun a b => key a ≤ key b, List.mergeSort_perm _ _, ?_⟩
  refine (List.pairwise_mergeSort ?_ ?_ items).imp fun le => of_decide_eq_true le
  · intro a b c first last
    exact decide_eq_true ((of_decide_eq_true first).trans (of_decide_eq_true last))
  · intro a b
    rw [Bool.or_eq_true, decide_eq_true_iff, decide_eq_true_iff]
    exact le_total _ _

theorem exists_split (found : xs[p]? = some a) :
    ∃ front back, xs = front ++ a :: back ∧ front.length = p := by
  obtain ⟨inside, rfl⟩ := List.getElem?_eq_some_iff.mp found
  exact ⟨xs.take p, xs.drop (p + 1), by simp, List.length_take_of_le inside.le⟩

/-- An item is placed after those with smaller keys and before those with larger ones. -/
theorem Arranges.place (arranged : Arranges key items xs) (found : xs[p]? = some a) :
    below key items a ≤ p ∧ p < upTo key items a := by
  obtain ⟨front, back, rfl, rfl⟩ := exists_split found
  have sorted := arranged.sorted
  rw [List.pairwise_append, List.pairwise_cons] at sorted
  obtain ⟨-, ⟨after, -⟩, before⟩ := sorted
  constructor
  · have behind : back.countP (fun b => key b < key a) = 0 := by
      rw [List.countP_eq_zero]
      intro b mem
      simpa using after b mem
    rw [below, ← arranged.perm.countP_eq, List.countP_append, List.countP_cons, behind]
    simpa using List.countP_le_length
  · have ahead : front.countP (fun b => key b ≤ key a) = front.length := by
      rw [List.countP_eq_length]
      intro b mem
      simpa using before b mem a (by simp)
    rw [upTo, ← arranged.perm.countP_eq, List.countP_append, List.countP_cons, ahead]
    simp

theorem upTo_eq (key : α → β) (items : List α) (a : α) :
    upTo key items a = below key items a + items.countP fun b => key b = key a := by
  unfold upTo below
  induction items with
  | nil => rfl
  | cons b rest ih =>
    rw [List.countP_cons, List.countP_cons, List.countP_cons, ih]
    rcases lt_trichotomy (key b) (key a) with lt | eq | gt
    · simp [lt, lt.le, lt.ne]
      omega
    · simp [eq]
      omega
    · simp [gt.not_ge, gt.not_gt, gt.ne']

theorem below_lt_upTo (mem : a ∈ items) : below key items a < upTo key items a := by
  have tied : 0 < items.countP fun b => key b = key a :=
    List.countP_pos_iff.mpr ⟨a, mem, decide_eq_true rfl⟩
  rw [upTo_eq]
  omega

/-- Where keys tell the items apart, nothing is tied. -/
theorem upTo_of_injective (nodup : items.Nodup) (mem : a ∈ items)
    (apart : ∀ b ∈ items, key b = key a → b = a) : upTo key items a = below key items a + 1 := by
  classical
  have single : (items.countP fun b => key b = key a) = items.count a := by
    rw [List.count_eq_countP]
    refine List.countP_congr fun b inside => ?_
    rw [decide_eq_true_iff, beq_iff_eq]
    exact ⟨apart b inside, fun same => congrArg key same⟩
  rw [upTo_eq, single, List.count_eq_one_of_mem nodup mem]

theorem together_of_injective (nodup : items.Nodup)
    (apart : ∀ a ∈ items, ∀ b ∈ items, key b = key a → b = a) : TiesTogether size key items := by
  intro a mem
  rw [upTo_of_injective nodup mem (apart a mem), Nat.add_sub_cancel]

/-- Where all keys are equal, the items are together on a page that holds them all. -/
theorem together_iff_of_equal (positive : 0 < size)
    (equal : ∀ a ∈ items, ∀ b ∈ items, key a = key b) :
    TiesTogether size key items ↔ items.length ≤ size := by
  have none {a : α} (mem : a ∈ items) : below key items a = 0 := by
    refine List.countP_eq_zero.mpr fun b mem' => ?_
    simp [equal b mem' a mem]
  have all {a : α} (mem : a ∈ items) : upTo key items a = items.length := by
    refine List.countP_eq_length.mpr fun b mem' => ?_
    simp [equal b mem' a mem]
  constructor
  · intro together
    rcases items.eq_nil_or_concat' with rfl | ⟨front, a, rfl⟩
    · simp
    · have mem : a ∈ front ++ [a] := by simp
      have on_first := together a mem
      rw [none mem, all mem, Nat.zero_div, eq_comm, Nat.div_eq_zero_iff_lt positive] at on_first
      omega
  · intro fits a mem
    have some := List.length_pos_of_mem mem
    rw [none mem, all mem, Nat.zero_div, Nat.div_eq_of_lt (by omega)]

/-! ## Visiting every item once -/

theorem visits_of_together (positive : 0 < size) (nodup : items.Nodup)
    (together : TiesTogether size key items) {arranged : Nat → List α}
    (arranges : ∀ k, k * size < items.length → Arranges key items (arranged k)) :
    Visits items (paged size items.length fun k => page size k (arranged k)) := by
  -- the page of an item is that of its first place
  have on_page {k : Nat} (begins : k * size < items.length) (a : α) :
      a ∈ page size k (arranged k) ↔ a ∈ items ∧ below key items a / size = k := by
    have perm := (arranges k begins).perm
    rw [mem_page positive]
    constructor
    · rintro ⟨p, found, rfl⟩
      have mem : a ∈ items := perm.mem_iff.mp (List.mem_of_getElem? found)
      obtain ⟨low, high⟩ := (arranges _ begins).place found
      refine ⟨mem, le_antisymm (Nat.div_le_div_right low) ?_⟩
      rw [together a mem]
      exact Nat.div_le_div_right (by omega)
    · rintro ⟨mem, same⟩
      obtain ⟨p, found⟩ := List.mem_iff_getElem?.mp (perm.mem_iff.mpr mem)
      obtain ⟨low, high⟩ := (arranges k begins).place found
      refine ⟨p, found, le_antisymm ?_ (same ▸ Nat.div_le_div_right low)⟩
      rw [← same, together a mem]
      exact Nat.div_le_div_right (by omega)
  constructor
  · refine List.nodup_flatMap.mpr ⟨fun k mem => ?_, ?_⟩
    · have begins := (mem_pageNumbers positive).mp mem
      exact ((arranges k begins).perm.nodup_iff.mpr nodup).sublist (page_sublist _ _ _)
    · refine (nodup_pageNumbers size items.length).imp_of_mem fun here there ne => ?_
      intro a first last
      have first' := (on_page ((mem_pageNumbers positive).mp here) a).mp first
      have last' := (on_page ((mem_pageNumbers positive).mp there) a).mp last
      exact ne (first'.2.symm.trans last'.2)
  · intro a
    rw [paged, List.mem_flatMap]
    constructor
    · rintro ⟨k, number, mem⟩
      exact ((on_page ((mem_pageNumbers positive).mp number) a).mp mem).1
    · intro mem
      have begins : below key items a / size * size < items.length :=
        (Nat.div_mul_le_self _ _).trans_lt ((below_lt_upTo mem).trans_le List.countP_le_length)
      exact ⟨_, (mem_pageNumbers positive).mpr begins, (on_page begins a).mpr ⟨mem, rfl⟩⟩

/-- A key and a rank among equal keys. -/
def ranked (key : α → β) (rank : α → Nat) (a : α) : β ×ₗ Nat := toLex (key a, rank a)

/-- An item whose rank is its own can be told its place. -/
theorem exists_placed (key : α → β) {rank : α → Nat} (nodup : items.Nodup) (mem : a ∈ items)
    (own : ∀ b, rank b = rank a → b = a) :
    ∃ xs, Arranges key items xs ∧ xs[below (ranked key rank) items a]? = some a := by
  obtain ⟨xs, arranged⟩ := exists_arranges (ranked key rank) items
  obtain ⟨p, found⟩ := List.mem_iff_getElem?.mp (arranged.perm.mem_iff.mpr mem)
  obtain ⟨low, high⟩ := arranged.place found
  have single : upTo (ranked key rank) items a = below (ranked key rank) items a + 1 := by
    refine upTo_of_injective nodup mem fun b _ same => own b ?_
    exact congrArg (fun place => (ofLex place).2) same
  obtain rfl : p = below (ranked key rank) items a := by omega
  exact ⟨xs, ⟨arranged.perm, arranged.sorted.imp fun le => Prod.Lex.monotone_fst _ _ le⟩, found⟩

/-- Tied items can be arranged with any one of them first. -/
theorem exists_first (key : α → β) (nodup : items.Nodup) (mem : a ∈ items) :
    ∃ xs, Arranges key items xs ∧ xs[below key items a]? = some a := by
  classical
  let rank : α → Nat := fun b => if b = a then 0 else 1
  have own (b : α) (same : rank b = rank a) : b = a := by
    by_contra other
    simp [rank, other] at same
  obtain ⟨xs, arranged, found⟩ := exists_placed key nodup mem own
  refine ⟨xs, arranged, ?_⟩
  rw [← found]
  congr 1
  refine List.countP_congr fun b _ => ?_
  simp [ranked, rank, Prod.Lex.toLex_lt_toLex]

/-- Tied items can be arranged with any one of them last. -/
theorem exists_last (key : α → β) (nodup : items.Nodup) (mem : a ∈ items) :
    ∃ xs, Arranges key items xs ∧ xs[upTo key items a - 1]? = some a := by
  classical
  let rank : α → Nat := fun b => if b = a then 1 else 0
  have own (b : α) (same : rank b = rank a) : b = a := by
    by_contra other
    simp [rank, other] at same
  obtain ⟨xs, arranged, found⟩ := exists_placed key nodup mem own
  refine ⟨xs, arranged, ?_⟩
  have single : upTo (ranked key rank) items a = below (ranked key rank) items a + 1 :=
    upTo_of_injective nodup mem fun b _ same =>
      own b (congrArg (fun place => (ofLex place).2) same)
  have all : upTo (ranked key rank) items a = upTo key items a := by
    refine List.countP_congr fun b _ => ?_
    have low : rank b ≤ rank a := by
      simp only [rank, if_true]
      split <;> omega
    rw [decide_eq_true_iff, decide_eq_true_iff, ranked, ranked, Prod.Lex.toLex_le_toLex]
    simp [low, le_iff_lt_or_eq]
  rw [← all, single, Nat.add_sub_cancel]
  exact found

/-- The pages show every item exactly once, however each is arranged, exactly if tied items
come on one page. -/
theorem visits_iff (positive : 0 < size) (nodup : items.Nodup) :
    (∀ arranged : Nat → List α,
      (∀ k, k * size < items.length → Arranges key items (arranged k)) →
      Visits items (paged size items.length fun k => page size k (arranged k))) ↔
    TiesTogether size key items := by
  refine ⟨fun visits a mem => ?_, fun together _ => visits_of_together positive nodup together⟩
  by_contra apart
  obtain ⟨first, arranges, at_first⟩ := exists_first key nodup mem
  obtain ⟨last, arranges', at_last⟩ := exists_last key nodup mem
  have lt : below key items a < upTo key items a := below_lt_upTo mem
  have le : upTo key items a ≤ items.length := List.countP_le_length
  -- the page of the first place and that of the last one both show the item
  let arranged : Nat → List α := fun k => if k = below key items a / size then first else last
  have visited := visits arranged fun k _ => by
    by_cases here : k = below key items a / size
    · rw [show arranged k = first from if_pos here]
      exact arranges
    · rw [show arranged k = last from if_neg here]
      exact arranges'
  have on_first : a ∈ page size (below key items a / size)
      (arranged (below key items a / size)) := by
    rw [show arranged _ = first from if_pos rfl]
    exact (mem_page positive).mpr ⟨_, at_first, rfl⟩
  have on_last : a ∈ page size ((upTo key items a - 1) / size)
      (arranged ((upTo key items a - 1) / size)) := by
    rw [show arranged _ = last from if_neg fun same => apart same.symm]
    exact (mem_page positive).mpr ⟨_, at_last, rfl⟩
  have begins {p : Nat} (inside : p < items.length) : p / size ∈ pageNumbers size items.length :=
    (mem_pageNumbers positive).mpr ((Nat.div_mul_le_self _ _).trans_lt inside)
  have disjoint := (List.nodup_flatMap.mp visited.once).2
  have symmetric : Std.Symm (Function.onFun List.Disjoint fun k => page size k (arranged k)) :=
    ⟨fun _ _ disjoint _ here there => disjoint there here⟩
  exact disjoint.forall (begins (lt.trans_le le)) (begins (by omega)) apart on_first on_last

end Arrangements

end OjsNats.Store
