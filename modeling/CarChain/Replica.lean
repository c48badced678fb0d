import CarChain.Handler

/-!
# Lists that differ in order

What a write does to two lists that hold the same cars in different orders
(`Shuffled`), or as many cars of every model (`SameModels`).  An `OP_DEL` takes
the first car of the model, so it keeps the first relation only if both lists
have the same first car (`victim`); it always keeps the second, and gives the
same reply.
-/

namespace CarChain.Replica
open CarChain.Record CarChain.Message CarChain.CarList CarChain.Skeleton CarChain.Stub
open CarChain.Handler

/-- The same cars, maybe in another order. -/
structure Shuffled (a b : Cars) : Prop where
  size : a.size = b.size
  perm : a.head.Perm b.head

theorem Shuffled.refl (a : Cars) : Shuffled a a := ⟨rfl, List.Perm.refl _⟩

theorem Shuffled.symm {a b : Cars} (h : Shuffled a b) : Shuffled b a :=
  ⟨h.size.symm, h.perm.symm⟩

theorem Shuffled.trans {a b c : Cars} (h : Shuffled a b) (h' : Shuffled b c) : Shuffled a c :=
  ⟨h.size.trans h'.size, h.perm.trans h'.perm⟩

/-- A read leaves the list, or orders it. -/
theorem shuffled_of_read {msg : MessageT} (h : isWriteOp msg = false) (list : Cars) :
    Shuffled list (invoke msg list).list := by
  have hw := (isWriteOp_iff msg).not.mp (by simp [h])
  rw [not_or] at hw
  rcases invoke_list_of_read hw.1 hw.2 list with he | ⟨_, _, he⟩
  · rw [he]
    exact Shuffled.refl _
  · rw [he]
    exact ⟨(listOrderByYear_size list).symm, (listOrderByYear_perm list).symm⟩

/-! ## The car an `OP_DEL` takes -/

def victim (msg : MessageT) (list : Cars) : Option DataT :=
  msg.models.head?.bind fun model => firstOfModel model list.head

theorem perm_of_cons {d : DataT} {l l' rest rest' : List DataT} (h : l.Perm l')
    (hl : l.Perm (d :: rest)) (hl' : l'.Perm (d :: rest')) : rest.Perm rest' :=
  List.Perm.cons_inv ((hl.symm.trans h).trans hl')

theorem listRemoveByModel_shuffled {a b : Cars} (h : Shuffled a b) {model : CString}
    (hv : firstOfModel model a.head = firstOfModel model b.head) :
    Shuffled (listRemoveByModel a model).2 (listRemoveByModel b model).2 := by
  rcases listRemoveByModel_cases a model with ⟨ha, hna, _⟩ | ⟨d, rest, hd, hp, ha⟩ <;>
    rcases listRemoveByModel_cases b model with ⟨hb, hnb, _⟩ | ⟨d', rest', hd', hp', hb⟩
  · rw [ha, hb]
    exact h
  · rw [← hv, hna] at hd'
    cases hd'
  · rw [hv, hnb] at hd
    cases hd
  · rw [hv, hd'] at hd
    cases hd
    rw [ha, hb]
    exact ⟨by simp only [h.size], perm_of_cons h.perm hp hp'⟩

/-- A write keeps the cars of two lists the same if an `OP_DEL` takes the same
car from both. -/
theorem invoke_shuffled {msg : MessageT} (hw : isWriteOp msg = true) {a b : Cars}
    (h : Shuffled a b) (hv : msg.opcode = opDel → victim msg a = victim msg b) :
    Shuffled (invoke msg a).list (invoke msg b).list := by
  rcases (isWriteOp_iff msg).mp hw with ho | ho
  · rw [invoke_add ho, invoke_add ho]
    rcases invokeAdd_outcome msg with hr | ⟨_, _, _, _, _, hr⟩
    · rw [hr, hr]
      exact h
    · rw [hr, hr]
      exact ⟨by simp only [listAdd, h.size], h.perm.append_right _⟩
  · have hv := hv ho
    rw [invoke_del ho, invoke_del ho]
    rcases invokeDel_outcome msg with hr | ⟨model, rest, _, hm, hr⟩
    · rw [hr, hr]
      exact h
    · rw [hr, hr]
      rw [victim, victim, hm] at hv
      exact listRemoveByModel_shuffled h hv

/-! ## As many cars of every model -/

structure SameModels (a b : Cars) : Prop where
  size : a.size = b.size
  perm : (a.head.map DataT.modelo).Perm (b.head.map DataT.modelo)

theorem SameModels.refl (a : Cars) : SameModels a a := ⟨rfl, List.Perm.refl _⟩

/-- Order does not matter. -/
theorem SameModels.shuffled {a b a' b' : Cars} (h : SameModels a b) (ha : Shuffled a a')
    (hb : Shuffled b b') : SameModels a' b' where
  size := by rw [← ha.size, ← hb.size, h.size]
  perm := ((ha.perm.map _).symm.trans h.perm).trans (hb.perm.map _)

theorem SameModels.head_nil {a b : Cars} (h : SameModels a b) : a.head = [] ↔ b.head = [] := by
  have hl := h.perm.length_eq
  rw [List.length_map, List.length_map] at hl
  rw [← List.length_eq_zero_iff, ← List.length_eq_zero_iff, hl]

theorem firstOfModel_eq_none (model : CString) (l : List DataT) :
    firstOfModel model l = none ↔ some model ∉ l.map DataT.modelo := by
  simp [firstOfModel, List.find?_eq_none]

/-- A removal gives the same result on both lists and leaves as many of each. -/
theorem listRemoveByModel_sameModels {a b : Cars} (h : SameModels a b) (model : CString) :
    (listRemoveByModel a model).1 = (listRemoveByModel b model).1 ∧
      SameModels (listRemoveByModel a model).2 (listRemoveByModel b model).2 := by
  have hfirst : firstOfModel model a.head = none ↔ firstOfModel model b.head = none := by
    rw [firstOfModel_eq_none, firstOfModel_eq_none, h.perm.mem_iff]
  rcases listRemoveByModel_cases a model with ⟨ha, hna, hra⟩ | ⟨d, rest, hd, hp, ha⟩ <;>
    rcases listRemoveByModel_cases b model with ⟨hb, hnb, hrb⟩ | ⟨d', rest', hd', hp', hb⟩
  · refine ⟨?_, by rw [ha, hb]; exact h⟩
    rw [hra, hrb]
    simp only [h.head_nil]
  · rw [hfirst.mp hna] at hd'
    cases hd'
  · rw [hfirst.mpr hnb] at hd
    cases hd
  · rw [ha, hb]
    refine ⟨rfl, by simp only [h.size], ?_⟩
    have hm := (firstOfModel_mem hd).2.trans (firstOfModel_mem hd').2.symm
    have hp₁ := hp.map DataT.modelo
    have hp₂ := hp'.map DataT.modelo
    rw [List.map_cons] at hp₁ hp₂
    rw [← hm] at hp₂
    exact List.Perm.cons_inv ((hp₁.symm.trans h.perm).trans hp₂)

/-- Two lists with as many cars of every model answer a write alike. -/
theorem invoke_sameModels {msg : MessageT} (hw : isWriteOp msg = true) {a b : Cars}
    (h : SameModels a b) :
    (invoke msg a).msg = (invoke msg b).msg ∧
      SameModels (invoke msg a).list (invoke msg b).list := by
  rcases (isWriteOp_iff msg).mp hw with ho | ho
  · rw [invoke_add ho, invoke_add ho]
    rcases invokeAdd_outcome msg with hr | ⟨_, _, _, _, _, hr⟩
    · rw [hr, hr]
      exact ⟨rfl, h⟩
    · rw [hr, hr]
      refine ⟨rfl, by simp only [listAdd, h.size], ?_⟩
      simpa only [listAdd, List.map_append] using h.perm.append_right _
  · rw [invoke_del ho, invoke_del ho]
    rcases invokeDel_outcome msg with hr | ⟨model, _, _, _, hr⟩
    · rw [hr, hr]
      exact ⟨rfl, h⟩
    · rw [hr, hr]
      obtain ⟨hres, hs⟩ := listRemoveByModel_sameModels h model
      exact ⟨by simp only [hres], hs⟩

end CarChain.Replica
