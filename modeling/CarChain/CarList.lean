import CarChain.Lib.BubbleSort
import CarChain.Message

/-!
# The list of cars

`list.c`.  A list is its `size` counter and what its nodes hold from `head` on;
the node type is a parameter, since at startup the nodes hold the addresses of
records.  No list pointer is NULL here.
-/

namespace CarChain.CarList
open CarChain.Record CarChain.Message

structure ListT (α : Type) where
  size : Int
  head : List α
  deriving DecidableEq

abbrev Cars := ListT DataT

def listCreate {α : Type} : ListT α := ⟨0, []⟩

/-- The new node goes after the last one. -/
def listAdd {α : Type} (list : ListT α) (car : α) : ListT α :=
  ⟨list.size + 1, list.head ++ [car]⟩

/-- The test of the removal loop: `modelo` is not NULL and `strcmp` gives 0. -/
def hasModel (modelo : CString) (d : DataT) : Bool :=
  match d.modelo with
  | none => false
  | some s => strcmp s modelo = 0

/-- The nodes left when the first one of that model is unlinked. -/
def unlink (modelo : CString) : List DataT → Option (List DataT)
  | [] => none
  | d :: rest => if hasModel modelo d then some rest else (unlink modelo rest).map (d :: ·)

def listRemoveByModel (list : Cars) (modelo : CString) : Int × Cars :=
  match list.head with
  | [] => (-1, list)
  | _ :: _ =>
    match unlink modelo list.head with
    | some rest => (0, ⟨list.size - 1, rest⟩)
    | none => (1, list)

def listGetByMarca (list : Cars) (marca : Int) : Option DataT :=
  list.head.find? (fun d => d.marca = marca)

/-- `list_get_by_year` on nodes a year can be read from.  NULL, or the cars of that
year: the first pass counts, the second copies. -/
def getByYear {α : Type} (ano : α → Int) (list : ListT α) (year : Int) : Option (List α) :=
  if list.head.countP (fun d => ano d = year) = 0 then none
  else some (list.head.filter (fun d => ano d = year))

def listGetByYear (list : Cars) (ano : Int) : Option (List DataT) :=
  getByYear DataT.ano list ano

/-- `list_order_by_year` on such nodes, the do/while of adjacent swaps; it stops at
the first pass without one. -/
def orderByYear {α : Type} (ano : α → Int) (list : ListT α) : ListT α :=
  if list.size ≤ 1 then list else { list with head := BubbleSort.sort ano list.head }

def listOrderByYear (list : Cars) : Cars := orderByYear DataT.ano list

def listSize (list : Cars) : Int := list.size

def listGetModelList (list : Cars) : Option (List CString) :=
  if list.size = 0 then none else some (list.head.map modeloText)

def listGetAll (list : Cars) : Option (List DataT) :=
  if list.size = 0 then none else some list.head

/-! ## First-match removal -/

@[simp] theorem hasModel_iff (modelo : CString) (d : DataT) :
    hasModel modelo d = true ↔ d.modelo = some modelo := by
  unfold hasModel
  cases h : d.modelo with
  | none => simp
  | some s => simp [strcmp_eq_zero]

/-- The car a removal of `modelo` takes. -/
def firstOfModel (modelo : CString) (l : List DataT) : Option DataT :=
  l.find? (hasModel modelo)

theorem unlink_eq_none (modelo : CString) (l : List DataT) :
    unlink modelo l = none ↔ firstOfModel modelo l = none := by
  induction l with
  | nil => simp [unlink, firstOfModel]
  | cons d rest ih =>
    by_cases h : hasModel modelo d = true
    · simp [unlink, firstOfModel, h]
    · simp only [firstOfModel] at ih
      simp [unlink, firstOfModel, h, ih]

/-- Unlinking takes out exactly the first car of the model. -/
theorem unlink_perm {modelo : CString} {l rest : List DataT} (h : unlink modelo l = some rest) :
    ∃ d, firstOfModel modelo l = some d ∧ l.Perm (d :: rest) := by
  induction l generalizing rest with
  | nil => cases h
  | cons d l ih =>
    by_cases hd : hasModel modelo d = true
    · simp only [unlink, hd, ↓reduceIte, Option.some.injEq] at h
      exact ⟨d, by simp [firstOfModel, hd], h ▸ List.Perm.refl _⟩
    · simp only [unlink, hd, Bool.false_eq_true, ↓reduceIte, Option.map_eq_some_iff] at h
      obtain ⟨rest', hr, rfl⟩ := h
      obtain ⟨c, hc, hp⟩ := ih hr
      refine ⟨c, ?_, (hp.cons d).trans (List.Perm.swap c d rest')⟩
      simpa [firstOfModel, hd] using hc

/-- What a removal leaves, by whether there is a car of the model. -/
theorem listRemoveByModel_cases (list : Cars) (model : CString) :
    ((listRemoveByModel list model).2 = list ∧ firstOfModel model list.head = none ∧
      (listRemoveByModel list model).1 = if list.head = [] then -1 else 1) ∨
      ∃ d rest, firstOfModel model list.head = some d ∧ list.head.Perm (d :: rest) ∧
        listRemoveByModel list model = (0, ⟨list.size - 1, rest⟩) := by
  unfold listRemoveByModel
  split
  · rename_i h
    exact Or.inl ⟨rfl, by rw [h]; rfl, by rw [if_pos h]⟩
  · rename_i c cs h
    cases hu : unlink model list.head with
    | none => exact Or.inl ⟨rfl, (unlink_eq_none _ _).mp hu, by rw [if_neg (by simp [h])]⟩
    | some rest =>
      obtain ⟨d, hd, hp⟩ := unlink_perm hu
      exact Or.inr ⟨d, rest, hd, hp, rfl⟩

theorem firstOfModel_mem {modelo : CString} {l : List DataT} {d : DataT}
    (h : firstOfModel modelo l = some d) : d ∈ l ∧ d.modelo = some modelo :=
  ⟨List.mem_of_find?_eq_some h, (hasModel_iff modelo d).mp (List.find?_some h)⟩

/-- What a removal returns. -/
theorem listRemoveByModel_result (list : Cars) (model : CString) :
    (listRemoveByModel list model).1 =
      if list.head = [] then -1 else if list.head.any (hasModel model) then 0 else 1 := by
  rcases listRemoveByModel_cases list model with ⟨_, hf, hr⟩ | ⟨d, rest, hf, hp, hr⟩
  · have hany : list.head.any (hasModel model) = false := by
      rw [← Bool.not_eq_true, List.any_eq_true]
      rintro ⟨d, hd, hmodel⟩
      exact List.find?_eq_none.mp hf d hd hmodel
    rw [hr, hany]
    rfl
  · have hmem := List.mem_of_find?_eq_some hf
    have hany : list.head.any (hasModel model) = true :=
      List.any_eq_true.mpr ⟨d, hmem, List.find?_some hf⟩
    rw [hr, if_neg (List.ne_nil_of_mem hmem), if_pos hany]

/-! ## Ordering -/

section

variable {α : Type} (ano : α → Int)

@[simp] theorem orderByYear_size (list : ListT α) :
    (orderByYear ano list).size = list.size := by
  unfold orderByYear
  split <;> rfl

theorem orderByYear_perm (list : ListT α) : (orderByYear ano list).head.Perm list.head := by
  unfold orderByYear
  split
  · exact List.Perm.refl _
  · exact BubbleSort.sort_perm _ _

theorem orderByYear_of_sorted {list : ListT α}
    (h : list.head.Pairwise fun a b => ano a ≤ ano b) : orderByYear ano list = list := by
  unfold orderByYear
  split
  · rfl
  · rw [BubbleSort.sort_of_sorted ano h]

end

theorem listOrderByYear_perm (list : Cars) : (listOrderByYear list).head.Perm list.head :=
  orderByYear_perm DataT.ano list

@[simp] theorem listOrderByYear_size (list : Cars) : (listOrderByYear list).size = list.size :=
  orderByYear_size DataT.ano list

theorem listOrderByYear_eq_nil (list : Cars) :
    (listOrderByYear list).head = [] ↔ list.head = [] := by
  have hp := listOrderByYear_perm list
  constructor
  · intro h
    exact List.nil_perm.mp (h ▸ hp)
  · intro h
    exact List.perm_nil.mp (h ▸ hp)

/-! ## Listings -/

theorem listGetByYear_eq_some {list : Cars} {ano : Int} {cars : List DataT} :
    listGetByYear list ano = some cars ↔
      cars ≠ [] ∧ list.head.filter (fun d => d.ano = ano) = cars := by
  unfold listGetByYear getByYear
  rw [List.countP_eq_length_filter]
  constructor
  · intro h
    split at h
    · cases h
    · rename_i hcount
      cases h
      exact ⟨fun hnil => hcount (by rw [hnil]; rfl), rfl⟩
  · rintro ⟨hne, rfl⟩
    rw [if_neg (by rwa [List.length_eq_zero_iff])]

end CarChain.CarList
