import CarChain.Reads

/-!
# Ordering by year

`list_order_by_year` on nodes that hold anything a year can be read from: the
cars themselves, or the addresses of their records, which tell equal cars apart.
A call ends on every list that counts its nodes right (`Orders`, `orders_iff`)
and leaves the only stable sort of it by year (`orderByYear_stableSort`), so a
listing of one year does not see whether the list was ordered.
-/

namespace CarChain.OrderByYear
open CarChain.Record CarChain.Message CarChain.CarList CarChain.Skeleton CarChain.Reads
open CarChain.BubbleSort CarChain.Stub

variable {α : Type} (ano : α → Int)

/-- A call of `list_order_by_year` and the list it leaves. -/
inductive Orders : ListT α → ListT α → Prop
  | early {list : ListT α} : list.size ≤ 1 → Orders list list
  | passes {list : ListT α} {nodes : List α} :
      ¬ list.size ≤ 1 → Runs ano list.head nodes → Orders list { list with head := nodes }

/-- Every call ends, and always on the same list. -/
theorem orders_iff (list after : ListT α) :
    Orders ano list after ↔ after = orderByYear ano list := by
  unfold orderByYear
  constructor
  · intro h
    cases h with
    | early hs => rw [if_pos hs]
    | passes hs hr => rw [if_neg hs, (runs_iff ano _ _).mp hr]
  · rintro rfl
    split
    · rename_i hs
      exact .early hs
    · rename_i hs
      exact .passes hs ((runs_iff ano _ _).mpr rfl)

/-- A list with at most one node is in order. -/
theorem isStableSort_short {l : List α} (h : l.length ≤ 1) : IsStableSort ano l l := by
  refine ⟨List.Perm.refl l, ?_, fun _ => rfl⟩
  match l, h with
  | [], _ => exact List.Pairwise.nil
  | [a], _ => exact List.pairwise_singleton _ a

theorem orderByYear_isStableSort {list : ListT α} (h : list.size = list.head.length) :
    IsStableSort ano list.head (orderByYear ano list).head := by
  unfold orderByYear
  split
  · exact isStableSort_short ano (by omega)
  · exact sort_isStableSort ano list.head

/-- The cars of a year are found alike in lists that agree on them. -/
theorem getByYear_congr {list list' : ListT α} {year : Int}
    (h : list.head.filter (fun d => ano d = year) = list'.head.filter (fun d => ano d = year)) :
    getByYear ano list year = getByYear ano list' year := by
  unfold getByYear
  rw [List.countP_eq_length_filter, List.countP_eq_length_filter, h]

/-- **`list_order_by_year` is a stable sort**: the do/while ends, with the nodes
in the only order that is by year and keeps the cars of each year as they stood. -/
theorem orderByYear_stableSort (list : ListT α) (h : list.size = list.head.length) :
    (∀ after, Orders ano list after ↔ after = orderByYear ano list) ∧
      (orderByYear ano list).size = list.size ∧
      IsStableSort ano list.head (orderByYear ano list).head ∧
      (∀ nodes, IsStableSort ano list.head nodes → nodes = (orderByYear ano list).head) ∧
      (orderByYear ano list).head = list.head.mergeSort (fun a b => ano a ≤ ano b) ∧
      orderByYear ano (orderByYear ano list) = orderByYear ano list ∧
      ∀ year, getByYear ano (orderByYear ano list) year = getByYear ano list year := by
  have hstable := orderByYear_isStableSort ano h
  refine ⟨orders_iff ano list, orderByYear_size ano list, hstable, ?_, ?_, ?_, ?_⟩
  · intro nodes hn
    exact hn.unique ano hstable
  · exact hstable.unique ano (mergeSort_isStableSort ano list.head)
  · exact orderByYear_of_sorted ano hstable.sorted
  · intro year
    exact getByYear_congr ano (hstable.stable year)

/-- Four cars, two of them of one year. -/
def fourCars : Cars :=
  ⟨4, [⟨2020, 0, 1, some (cString [97]), 1⟩, ⟨2010, 0, 1, some (cString [98]), 1⟩,
    ⟨2020, 0, 1, some (cString [99]), 1⟩, ⟨1999, 0, 1, some (cString [100]), 1⟩]⟩

theorem orderByYear_stableSort_fourCars :
    orderByYear DataT.ano (orderByYear DataT.ano fourCars) = orderByYear DataT.ano fourCars ∧
      (orderByYear DataT.ano fourCars).head.map modeloText =
        [cString [100], cString [98], cString [97], cString [99]] :=
  ⟨(orderByYear_stableSort DataT.ano fourCars rfl).2.2.2.2.2.1, by decide +kernel⟩

end CarChain.OrderByYear
