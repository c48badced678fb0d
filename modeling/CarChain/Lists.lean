import CarChain.Skeleton

/-!
# Lists a server can hold

A server starts with `list_create` and changes its list by `invoke` only, on
whatever messages it receives (`Reachable`).  Every such list counts its nodes
right and holds records `data_create` made (`Reachable.wellFormed`).
-/

namespace CarChain.Lists
open CarChain.Record CarChain.Message CarChain.CarList CarChain.Skeleton

structure WellFormed (list : Cars) : Prop where
  size : list.size = list.head.length
  valid : ∀ d ∈ list.head, d.Valid

theorem WellFormed.eq_listCreate {list : Cars} (h : WellFormed list) (hnil : list.head = []) :
    list = listCreate := by
  have hs := h.size
  rw [hnil] at hs
  cases list
  cases hnil
  cases hs
  rfl

theorem WellFormed.size_eq_zero {list : Cars} (h : WellFormed list) :
    list.size = 0 ↔ list.head = [] := by
  rw [h.size, ← List.length_eq_zero_iff]
  omega

theorem WellFormed.listGetAll_eq_some {list : Cars} (h : WellFormed list)
    {cars : List DataT} : listGetAll list = some cars ↔ cars ≠ [] ∧ list.head = cars := by
  unfold listGetAll
  by_cases hnil : list.head = []
  · rw [if_pos (h.size_eq_zero.mpr hnil), hnil]
    exact iff_of_false (by simp) fun hcars => hcars.1 hcars.2.symm
  · rw [if_neg (mt h.size_eq_zero.mp hnil), Option.some.injEq]
    constructor
    · rintro rfl
      exact ⟨hnil, rfl⟩
    · exact And.right

inductive Reachable : Cars → Prop
  | create : Reachable listCreate
  | invoke {list : Cars} (msg : MessageT) :
      Reachable list → Reachable (Skeleton.invoke msg list).list

/-! ## Each operation keeps it -/

theorem wellFormed_listCreate : WellFormed listCreate := ⟨rfl, by simp [listCreate]⟩

theorem wellFormed_listAdd {list : Cars} (h : WellFormed list) {car : DataT} (hc : car.Valid) :
    WellFormed (listAdd list car) where
  size := by simp [listAdd, h.size]
  valid := by
    intro d hd
    rcases List.mem_append.mp hd with hd | hd
    · exact h.valid d hd
    · exact List.mem_singleton.mp hd ▸ hc

theorem wellFormed_listRemoveByModel {list : Cars} (h : WellFormed list) (model : CString) :
    WellFormed (listRemoveByModel list model).2 := by
  rcases listRemoveByModel_cases list model with ⟨hl, _, _⟩ | ⟨d, rest, _, hp, hl⟩
  · rw [hl]
    exact h
  · have hlen := hp.length_eq
    rw [List.length_cons] at hlen
    rw [hl]
    refine ⟨?_, fun c hc => ?_⟩
    · show list.size - 1 = (rest.length : Int)
      rw [h.size]
      omega
    · exact h.valid c (hp.mem_iff.mpr (List.mem_cons_of_mem _ hc))

theorem wellFormed_listOrderByYear {list : Cars} (h : WellFormed list) :
    WellFormed (listOrderByYear list) := by
  have hp := listOrderByYear_perm list
  refine ⟨?_, fun d hd => h.valid d (hp.mem_iff.mp hd)⟩
  rw [listOrderByYear_size, hp.length_eq]
  exact h.size

theorem wellFormed_invoke (msg : MessageT) {list : Cars} (h : WellFormed list) :
    WellFormed (Skeleton.invoke msg list).list := by
  by_cases ha : msg.opcode = opAdd
  · rw [invoke_add ha]
    rcases invokeAdd_cases msg list with hr | ⟨pd, car, _, _, hcar, hr⟩
    · exact hr ▸ h
    · rw [hr]
      exact wellFormed_listAdd h (createFrom_valid hcar)
  · by_cases hd : msg.opcode = opDel
    · rw [invoke_del hd]
      rcases invokeDel_cases msg list with hr | ⟨model, rest, _, _, hr⟩
      · exact hr ▸ h
      · rw [hr]
        exact wellFormed_listRemoveByModel h model
    · rcases invoke_list_of_read ha hd list with hl | ⟨_, _, hl⟩
      · rw [hl]
        exact h
      · rw [hl]
        exact wellFormed_listOrderByYear h

/-- Whatever a server was sent, its list is well formed. -/
theorem Reachable.wellFormed {list : Cars} (h : Reachable list) : WellFormed list := by
  induction h with
  | create => exact wellFormed_listCreate
  | invoke msg _ ih => exact wellFormed_invoke msg ih

end CarChain.Lists
