import CarChain.Lists
import CarChain.Stub

/-!
# Removal by model

`list_remove_by_model` takes the first car of the model out and says so by its
result.  When there is none it says 1, but -1 on a list without nodes, which its
first test turns away (`FirstMatch`).  Removals of different models leave one
list in either order; their results differ only where the first of them takes
the last car (`removals_either_order`).
-/

namespace CarChain.Removal
open CarChain.Record CarChain.Message CarChain.CarList CarChain.Skeleton CarChain.Lists
open CarChain.Stub

/-! ## The loop as an erasure -/

theorem unlink_eq (modelo : CString) (l : List DataT) :
    unlink modelo l =
      if l.any (hasModel modelo) then some (l.eraseP (hasModel modelo)) else none := by
  induction l with
  | nil => rfl
  | cons d rest ih =>
    by_cases h : hasModel modelo d = true
    · simp [unlink, h]
    · rw [unlink, if_neg h, ih, List.any_cons, List.eraseP_cons_of_neg h]
      simp only [h, Bool.false_or]
      split <;> rfl

theorem listRemoveByModel_eq (list : Cars) (modelo : CString) :
    listRemoveByModel list modelo =
      if list.head.any (hasModel modelo) then
        (0, ⟨list.size - 1, list.head.eraseP (hasModel modelo)⟩)
      else (if list.head = [] then -1 else 1, list) := by
  unfold listRemoveByModel
  split
  · rename_i hnil
    simp [hnil]
  · rename_i d rest hcons
    rw [unlink_eq]
    by_cases h : list.head.any (hasModel modelo) = true
    · rw [if_pos h, if_pos h]
    · rw [if_neg h, if_neg h, if_neg (by simp [hcons])]

/-! ## One removal -/

/-- The list and the result after the removal of the first car of a model, with
`notFound` for the result when there is none. -/
inductive FirstMatch (notFound : Int) (list : Cars) (modelo : CString) : Int × Cars → Prop
  | removed (before after : List DataT) (d : DataT) :
      list.head = before ++ d :: after → (∀ c ∈ before, c.modelo ≠ some modelo) →
        d.modelo = some modelo →
          FirstMatch notFound list modelo (0, ⟨list.size - 1, before ++ after⟩)
  | notFound : (∀ c ∈ list.head, c.modelo ≠ some modelo) →
      FirstMatch notFound list modelo (notFound, list)

theorem firstMatch_listRemoveByModel (list : Cars) (modelo : CString) :
    FirstMatch (if list.head = [] then -1 else 1) list modelo
      (listRemoveByModel list modelo) := by
  rw [listRemoveByModel_eq]
  by_cases h : list.head.any (hasModel modelo) = true
  · rw [if_pos h]
    obtain ⟨c, hc, hm⟩ := List.any_eq_true.mp h
    obtain ⟨d, before, after, hb, hd, heq, herase⟩ := List.exists_of_eraseP hc hm
    rw [herase]
    exact .removed before after d heq (fun c hc h => hb c hc ((hasModel_iff modelo c).mpr h))
      ((hasModel_iff modelo d).mp hd)
  · rw [if_neg h]
    refine .notFound fun c hc hm => h ?_
    exact List.any_eq_true.mpr ⟨c, hc, (hasModel_iff modelo c).mpr hm⟩

theorem FirstMatch.result {notFound : Int} {list : Cars} {modelo : CString} {r : Int × Cars}
    (h : FirstMatch notFound list modelo r) : r.1 = 0 ∨ r.1 = notFound := by
  cases h with
  | removed => exact Or.inl rfl
  | notFound => exact Or.inr rfl

/-! ## Two removals -/

/-- `OP_DEL` of a model: the result of its reply and the list. -/
def deleted (list : Cars) (modelo : CString) : Int × Cars :=
  ((invoke (rlistRemoveByModelRequest modelo) list).msg.result,
    (invoke (rlistRemoveByModelRequest modelo) list).list)

@[simp] theorem deleted_eq (list : Cars) (modelo : CString) :
    deleted list modelo = listRemoveByModel list modelo := rfl

/-- What two removals leave: the result of the first, that of the second, and
the list. -/
structure BothRemoved where
  first : Int
  second : Int
  list : Cars
  deriving DecidableEq

def removeBoth (list : Cars) (modelo₁ modelo₂ : CString) : BothRemoved :=
  let afterFirst := deleted list modelo₁
  let afterSecond := deleted afterFirst.2 modelo₂
  ⟨afterFirst.1, afterSecond.1, afterSecond.2⟩

/-- No car is of two models. -/
theorem hasModel_disjoint {modelo modelo' : CString} (h : modelo ≠ modelo') (d : DataT) :
    ¬ hasModel modelo d = true ∨ ¬ hasModel modelo' d = true := by
  rw [hasModel_iff, hasModel_iff]
  by_cases hd : d.modelo = some modelo
  · right
    rw [hd]
    intro heq
    exact h (Option.some.inj heq)
  · exact Or.inl hd

/-- A removal of another model is not seen by the search. -/
theorem any_eraseP {modelo modelo' : CString} (h : modelo ≠ modelo') (l : List DataT) :
    (l.eraseP (hasModel modelo)).any (hasModel modelo') = l.any (hasModel modelo') := by
  rw [Bool.eq_iff_iff, List.any_eq_true, List.any_eq_true]
  constructor
  · rintro ⟨d, hd, hm⟩
    exact ⟨d, List.mem_of_mem_eraseP hd, hm⟩
  · rintro ⟨d, hd, hm⟩
    refine ⟨d, (List.mem_eraseP_of_neg ?_).mpr hd, hm⟩
    intro hmodel
    rcases hasModel_disjoint h d with hn | hn
    · exact hn hmodel
    · exact hn hm

theorem listRemoveByModel_list (list : Cars) (modelo : CString) :
    (listRemoveByModel list modelo).2 =
      ⟨list.size - if list.head.any (hasModel modelo) then 1 else 0,
        list.head.eraseP (hasModel modelo)⟩ := by
  rw [listRemoveByModel_eq]
  by_cases h : list.head.any (hasModel modelo) = true
  · rw [if_pos h, if_pos h]
  · rw [if_neg h, if_neg h, Int.sub_zero, List.eraseP_of_forall_not]
    intro d hd hm
    exact h (List.any_eq_true.mpr ⟨d, hd, hm⟩)

/-- Removals of different models leave one list in either order. -/
theorem removeBoth_list (list : Cars) {modelo₁ modelo₂ : CString} (h : modelo₁ ≠ modelo₂) :
    (removeBoth list modelo₁ modelo₂).list = (removeBoth list modelo₂ modelo₁).list := by
  simp only [removeBoth, deleted_eq, listRemoveByModel_list, any_eraseP h, any_eraseP h.symm,
    List.eraseP_comm fun d _ => hasModel_disjoint h d]
  congr 1
  omega

/-- Whether a removal before it changes the result of a removal: it does when
it takes the last car. -/
theorem result_after (list : Cars) {modelo₁ modelo₂ : CString} (h : modelo₁ ≠ modelo₂) :
    (listRemoveByModel (listRemoveByModel list modelo₁).2 modelo₂).1 =
        (listRemoveByModel list modelo₂).1 ↔
      ∀ d, list.head = [d] → d.modelo ≠ some modelo₁ := by
  rw [listRemoveByModel_result, listRemoveByModel_result, listRemoveByModel_list]
  dsimp only
  rw [any_eraseP h]
  constructor
  · intro heq d hd hm
    have hm₁ : hasModel modelo₁ d = true := (hasModel_iff modelo₁ d).mpr hm
    have hm₂ : ¬ hasModel modelo₂ d = true :=
      (hasModel_disjoint h d).resolve_left fun hn => hn hm₁
    simp [hd, hm₁, hm₂] at heq
  · intro hlast
    have hempty : list.head.eraseP (hasModel modelo₁) = [] ↔ list.head = [] := by
      rw [List.eraseP_eq_nil_iff]
      constructor
      · rintro (hnil | ⟨d, hd, heq⟩)
        · exact hnil
        · exact absurd ((hasModel_iff modelo₁ d).mp hd) (hlast d heq)
      · exact Or.inl
    simp only [hempty]

/-- The list holds one car, of that model. -/
def OnlyCar (list : Cars) (modelo : CString) : Prop :=
  ∃ d, list.head = [d] ∧ d.modelo = some modelo

theorem removeBoth_results (list : Cars) {modelo₁ modelo₂ : CString} (h : modelo₁ ≠ modelo₂) :
    ((removeBoth list modelo₁ modelo₂).first = (removeBoth list modelo₂ modelo₁).second ∧
        (removeBoth list modelo₁ modelo₂).second = (removeBoth list modelo₂ modelo₁).first) ↔
      ¬ OnlyCar list modelo₁ ∧ ¬ OnlyCar list modelo₂ := by
  simp only [removeBoth, deleted_eq]
  rw [eq_comm, result_after list h.symm, result_after list h, and_comm]
  simp only [OnlyCar, not_exists, not_and, ne_eq]

/-- **Removal takes the first match**, and removals of different models do not
depend on their order but for the results around the last car. -/
theorem removals_either_order (list : Cars) :
    (∀ modelo, FirstMatch (if list.head = [] then -1 else 1) list modelo
      (listRemoveByModel list modelo)) ∧
      ∀ modelo₁ modelo₂, modelo₁ ≠ modelo₂ →
        (removeBoth list modelo₁ modelo₂).list = (removeBoth list modelo₂ modelo₁).list ∧
          (((removeBoth list modelo₁ modelo₂).first =
                (removeBoth list modelo₂ modelo₁).second ∧
              (removeBoth list modelo₁ modelo₂).second =
                (removeBoth list modelo₂ modelo₁).first) ↔
            ¬ OnlyCar list modelo₁ ∧ ¬ OnlyCar list modelo₂) := by
  refine ⟨firstMatch_listRemoveByModel list, fun modelo₁ modelo₂ h => ?_⟩
  exact ⟨removeBoth_list list h, removeBoth_results list h⟩

/-- A server that was sent one car. -/
def lastCar : Cars := (invoke (rlistAddRequest sampleCar) listCreate).list

/-- A removal from the list without nodes does not say 1, and a removal of
another model says 1 before the last car is taken and -1 after it. -/
theorem removals_around_last_car :
    WellFormed listCreate ∧ WellFormed lastCar ∧
      ¬ FirstMatch 1 listCreate (cString [109, 50])
        (listRemoveByModel listCreate (cString [109, 50])) ∧
      (removeBoth lastCar (cString [109, 49]) (cString [109, 50])).second = -1 ∧
      (removeBoth lastCar (cString [109, 50]) (cString [109, 49])).first = 1 := by
  refine ⟨wellFormed_listCreate, wellFormed_invoke _ wellFormed_listCreate, ?_, ?_, ?_⟩
  · intro h
    have hresult : (listRemoveByModel listCreate (cString [109, 50])).1 = -1 := rfl
    rcases h.result with h | h <;> omega
  · decide +kernel
  · decide +kernel

end CarChain.Removal
