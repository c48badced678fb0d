import CarChain.Lib.PtrArray
import CarChain.Lists
import CarChain.Stub

/-!
# The arrays of the list

The functions of `list.c` that return an array ended by NULL, and the branches of
`invoke` that walk such an array, with the slots they write and read
(`PtrArray`).  A function is `none` when it stores past the end of its array,
reads a slot that was never written or duplicates a NULL string; its result
inside is NULL or the array.  On every list a server can hold none of that
happens, and `invoke` does what `Skeleton.invoke` says (`invoke_eq`).
-/

namespace CarChain.Buffers
open CarChain.Record CarChain.Message CarChain.CarList CarChain.Skeleton CarChain.Lists
open CarChain.Stub CarChain.PtrArray

/-- `INT_MAX`. -/
@[reducible] def intMax : Int := 2147483647

/-! ## The functions of `list.c` -/

def listGetAll (list : Cars) : Option (Option (HeapArray DataT)) :=
  if list.size = 0 then some none
  else (copyOut (fun d => some (some d)) (list.size + 1).toNat list.head).map some

/-- Each model is duplicated, which a NULL one cannot be. -/
def listGetModelList (list : Cars) : Option (Option (HeapArray CString)) :=
  if list.size = 0 then some none
  else (copyOut (fun d => d.modelo.map some) (list.size + 1).toNat list.head).map some

/-- The first pass counts, the second fills; the NULL goes where the first one
stopped counting. -/
def listGetByYear (list : Cars) (ano : Int) : Option (Option (HeapArray DataT)) :=
  if list.head = [] then some none
  else
    let count := list.head.countP (fun d => d.ano = ano)
    if count = 0 then some none
    else
      match fill (fun d => some (if d.ano = ano then some d else none)) (malloc (count + 1)) 0
          list.head with
      | none => none
      | some (array, _) => (store array count none).map some

/-! ## The branches of `invoke` -/

/-- The wire form of a record, whose model is duplicated. -/
def strdupData (d : DataT) : Option Data :=
  d.modelo.map fun modelo => ⟨d.ano, d.preco, d.marca, modelo, d.combustivel⟩

def invokeGet (msg : MessageT) (list : Cars) : Option InvokeResult :=
  if msg.cType ≠ ctMarca then some (refuse msg list)
  else
    match listGetByMarca list msg.result with
    | none => some (refuse msg list)
    | some found =>
      (strdupData found).map fun pd =>
        ⟨0, { msg with opcode := opGet + 1, cType := ctData, data := some pd }, list⟩

def invokeGetModels (msg : MessageT) (list : Cars) : Option InvokeResult :=
  if msg.cType ≠ ctNone then some (refuse msg list)
  else
    match listGetModelList list with
    | none => none
    | some none => some (refuse msg list)
    | some (some modelList) =>
      match countEntries modelList.slots with
      | none => none
      | some count =>
        (readEntries count modelList.slots).map fun models =>
          ⟨0, { msg with opcode := opGetModels + 1, cType := ctModel, models := models }, list⟩

/-- The rest of a listing: count the cars of the array, then convert each. -/
def replyListing (msg : MessageT) (arr : Option (HeapArray DataT)) : Option MessageT :=
  match arr with
  | none => some (replyError msg)
  | some arr =>
    match countEntries arr.slots with
    | none => none
    | some m =>
      match readEntries m arr.slots with
      | none => none
      | some cars =>
        (cars.mapM strdupData).map fun pds =>
          { msg with opcode := opGetListByTear + 1, cType := ctList, cars := pds }

def invokeGetListByTear (msg : MessageT) (list : Cars) : Option InvokeResult :=
  if msg.cType ≠ ctResult then some (refuse msg list)
  else if msg.result = -1 then
    match listGetAll (listOrderByYear list) with
    | none => none
    | some arr => (replyListing msg arr).map fun reply => ⟨0, reply, listOrderByYear list⟩
  else
    match listGetByYear list msg.result with
    | none => none
    | some arr => (replyListing msg arr).map fun reply => ⟨0, reply, list⟩

/-- The other operations use no array. -/
def invoke (msg : MessageT) (list : Cars) : Option InvokeResult :=
  if msg.opcode = opGet then invokeGet msg list
  else if msg.opcode = opGetModels then invokeGetModels msg list
  else if msg.opcode = opGetListByTear then invokeGetListByTear msg list
  else some (Skeleton.invoke msg list)

/-- The messages one after the other, from the empty list. -/
def run (msgs : List MessageT) : Option Cars :=
  msgs.foldlM (fun list msg => (invoke msg list).map (·.list)) listCreate

/-! ## What the loops do -/

/-- What a function returns that copies these entries: NULL when there are none. -/
def nullOrFilled {α : Type} (entries : List α) : Option (HeapArray α) :=
  if entries = [] then none else some (filled entries)

theorem nullOrFilled_of_ne {α : Type} {entries : List α} (h : entries ≠ []) :
    nullOrFilled entries = some (filled entries) := if_neg h

theorem listGetAll_eq {list : Cars} (hw : WellFormed list) :
    listGetAll list = some (nullOrFilled list.head) := by
  unfold listGetAll
  split
  · rename_i hs
    rw [hw.size_eq_zero.mp hs]
    rfl
  · rename_i hs
    have hne : list.head ≠ [] := fun h => hs (hw.size_eq_zero.mpr h)
    have hkept : list.head.filterMap some = list.head := List.filterMap_some
    have hn : (list.size + 1).toNat = (list.head.filterMap some).length + 1 := by
      rw [hkept, hw.size]
      omega
    rw [copyOut_eq (fun _ _ => rfl) hn, hkept, nullOrFilled_of_ne hne]
    rfl

theorem modelo_eq_text {d : DataT} (h : d.Valid) : d.modelo = some (modeloText d) := by
  obtain ⟨s, hs, _⟩ := h.modelo
  rw [modeloText, hs]
  rfl

theorem listGetModelList_eq {list : Cars} (hw : WellFormed list) :
    listGetModelList list = some (nullOrFilled (list.head.map modeloText)) := by
  unfold listGetModelList
  split
  · rename_i hs
    rw [hw.size_eq_zero.mp hs]
    rfl
  · rename_i hs
    have hne : list.head.map modeloText ≠ [] := by
      rw [ne_eq, List.map_eq_nil_iff]
      exact fun h => hs (hw.size_eq_zero.mpr h)
    have hkept : list.head.filterMap (fun d => some (modeloText d)) = list.head.map modeloText :=
      congrFun (List.filterMap_eq_map ..) _
    have hn : (list.size + 1).toNat =
        (list.head.filterMap fun d => some (modeloText d)).length + 1 := by
      rw [hkept, List.length_map, hw.size]
      omega
    have htake : ∀ d ∈ list.head, d.modelo.map some = some (some (modeloText d)) := by
      intro d hd
      rw [modelo_eq_text (hw.valid d hd)]
      rfl
    rw [copyOut_eq htake hn, hkept, nullOrFilled_of_ne hne]
    rfl

/-- The filling pass ends where the counting pass did. -/
theorem listGetByYear_eq (list : Cars) (ano : Int) :
    listGetByYear list ano = some (nullOrFilled (list.head.filter fun d => d.ano = ano)) := by
  have hkept : list.head.filterMap (fun d => if d.ano = ano then some d else none) =
      list.head.filter (fun d => d.ano = ano) := by
    rw [← List.filterMap_eq_filter]
    exact List.filterMap_congr fun d _ => by simp [Option.guard]
  have hcount : list.head.countP (fun d => d.ano = ano) =
      (list.head.filter fun d => d.ano = ano).length := List.countP_eq_length_filter
  unfold listGetByYear
  split
  · rename_i hnil
    rw [hnil]
    rfl
  · dsimp only
    rw [hcount]
    split
    · rename_i hzero
      rw [List.length_eq_zero_iff.mp hzero]
      rfl
    · rename_i hpos
      have hne : list.head.filter (fun d => d.ano = ano) ≠ [] :=
        fun h => hpos (List.length_eq_zero_iff.mpr h)
      rw [fill_malloc (fun _ _ => rfl) (by rw [hkept]), hkept]
      dsimp only
      rw [store_last, nullOrFilled_of_ne hne]
      rfl

/-! ## `invoke` with its arrays -/

theorem strdupData_eq {d : DataT} (h : d.Valid) : strdupData d = some (toData d) := by
  unfold strdupData
  rw [modelo_eq_text h]
  rfl

theorem mapM_strdupData {cars : List DataT} (hv : ∀ d ∈ cars, d.Valid) :
    cars.mapM strdupData = some (cars.map toData) := by
  induction cars with
  | nil => rfl
  | cons d cars ih =>
    rw [List.forall_mem_cons] at hv
    rw [List.mapM_cons, strdupData_eq hv.1, ih hv.2]
    rfl

theorem replyListing_eq (msg : MessageT) {cars : List DataT} (hv : ∀ d ∈ cars, d.Valid) :
    replyListing msg (nullOrFilled cars) =
      some (Skeleton.replyListing msg (if cars = [] then none else some cars)) := by
  unfold nullOrFilled
  split
  · rfl
  · unfold replyListing
    dsimp only
    rw [countEntries_filled]
    dsimp only
    rw [readEntries_filled]
    dsimp only
    rw [mapM_strdupData hv]
    rfl

theorem listGetAll_ideal {list : Cars} (hw : WellFormed list) :
    CarList.listGetAll list = if list.head = [] then none else some list.head := by
  unfold CarList.listGetAll
  simp only [hw.size_eq_zero]

theorem listGetModelList_ideal {list : Cars} (hw : WellFormed list) :
    CarList.listGetModelList list =
      if list.head.map modeloText = [] then none else some (list.head.map modeloText) := by
  unfold CarList.listGetModelList
  simp only [hw.size_eq_zero, List.map_eq_nil_iff]

theorem listGetByYear_ideal (list : Cars) (ano : Int) :
    CarList.listGetByYear list ano =
      if list.head.filter (fun d => d.ano = ano) = [] then none
      else some (list.head.filter fun d => d.ano = ano) := by
  unfold CarList.listGetByYear getByYear
  simp only [List.countP_eq_length_filter, List.length_eq_zero_iff]

theorem invokeGet_eq (msg : MessageT) {list : Cars} (hw : WellFormed list) :
    invokeGet msg list = some (Skeleton.invokeGet msg list) := by
  unfold invokeGet Skeleton.invokeGet
  split
  · rfl
  · cases hf : listGetByMarca list msg.result with
    | none => rfl
    | some found =>
      dsimp only
      rw [strdupData_eq (hw.valid found (List.mem_of_find?_eq_some hf))]
      rfl

theorem invokeGetModels_eq (msg : MessageT) {list : Cars} (hw : WellFormed list) :
    invokeGetModels msg list = some (Skeleton.invokeGetModels msg list) := by
  unfold invokeGetModels Skeleton.invokeGetModels
  split
  · rfl
  · rw [listGetModelList_eq hw, listGetModelList_ideal hw]
    unfold nullOrFilled
    by_cases hnil : list.head.map modeloText = []
    · rw [if_pos hnil, if_pos hnil]
    · rw [if_neg hnil, if_neg hnil]
      dsimp only
      rw [countEntries_filled]
      dsimp only
      rw [readEntries_filled]
      rfl

theorem invokeGetListByTear_eq (msg : MessageT) {list : Cars} (hw : WellFormed list) :
    invokeGetListByTear msg list = some (Skeleton.invokeGetListByTear msg list) := by
  have hw' := wellFormed_listOrderByYear hw
  unfold invokeGetListByTear Skeleton.invokeGetListByTear
  split
  · rfl
  · split
    · rw [listGetAll_eq hw', listGetAll_ideal hw']
      dsimp only
      rw [replyListing_eq msg hw'.valid]
      rfl
    · rw [listGetByYear_eq, listGetByYear_ideal]
      dsimp only
      rw [replyListing_eq msg fun d hd => hw.valid d (List.mem_of_mem_filter hd)]
      rfl

/-- No message makes `invoke` store or read out of place. -/
theorem invoke_eq (msg : MessageT) {list : Cars} (hw : WellFormed list) :
    invoke msg list = some (Skeleton.invoke msg list) := by
  unfold invoke
  split
  · rename_i h
    have hinvoke : Skeleton.invoke msg list = Skeleton.invokeGet msg list := by
      simp [Skeleton.invoke, h]
    rw [invokeGet_eq msg hw, hinvoke]
  · split
    · rename_i h
      have hinvoke : Skeleton.invoke msg list = Skeleton.invokeGetModels msg list := by
        simp [Skeleton.invoke, h]
      rw [invokeGetModels_eq msg hw, hinvoke]
    · split
      · rename_i h
        have hinvoke : Skeleton.invoke msg list = Skeleton.invokeGetListByTear msg list := by
          simp [Skeleton.invoke, h]
        rw [invokeGetListByTear_eq msg hw, hinvoke]
      · rfl

/-! ## Every run -/

/-- The messages that add a car, whatever the list. -/
def addsCar (msg : MessageT) : Bool :=
  msg.opcode = opAdd ∧ msg.cType = ctData ∧ (msg.data.bind createFrom).isSome

/-- The size grows with an added car only. -/
theorem size_invoke_le (msg : MessageT) (list : Cars) :
    (Skeleton.invoke msg list).list.size ≤ list.size + if addsCar msg then 1 else 0 := by
  by_cases ha : msg.opcode = opAdd
  · rw [invoke_add ha]
    rcases invokeAdd_cases msg list with hr | ⟨pd, car, hc, hd, hcar, hr⟩
    · rw [hr, refuse_list]
      split <;> omega
    · have hadds : addsCar msg = true := by simp [addsCar, ha, hc, hd, hcar]
      exact Int.le_of_eq (by rw [hr, if_pos hadds]; rfl)
  · have hno : addsCar msg = false := by simp [addsCar, ha]
    rw [hno, if_neg (by simp), Int.add_zero]
    by_cases hd : msg.opcode = opDel
    · rw [invoke_del hd]
      rcases invokeDel_cases msg list with hr | ⟨model, rest, _, _, hr⟩
      · exact Int.le_of_eq (by rw [hr, refuse_list])
      · rw [hr]
        rcases listRemoveByModel_cases list model with ⟨hl, _, _⟩ | ⟨d, rest, _, _, hl⟩
        · exact Int.le_of_eq (congrArg ListT.size hl)
        · rw [hl]
          dsimp only
          omega
    · rcases invoke_list_of_read ha hd list with hl | ⟨_, _, hl⟩
      · exact Int.le_of_eq (congrArg ListT.size hl)
      · exact Int.le_of_eq (by rw [hl, listOrderByYear_size])

/-- What a function of `list.c` returns that copies these entries, and what its
loops and the counting loop of `invoke` did. -/
structure Exact {α : Type} (result : Option (Option (HeapArray α))) (entries : List α) :
    Prop where
  null : result = some none ↔ entries = []
  array : entries ≠ [] → ∃ array, result = some (some array) ∧
    array.slots.length = entries.length + 1 ∧
    array.writes = List.range (entries.length + 1) ∧
    countEntries array.slots = some entries.length ∧
    readEntries entries.length array.slots = some entries

theorem exact_nullOrFilled {α : Type} (entries : List α) :
    Exact (some (nullOrFilled entries)) entries := by
  constructor
  · unfold nullOrFilled
    split <;> simp_all
  · intro hne
    exact ⟨filled entries, by rw [nullOrFilled_of_ne hne], filled_slots_length entries, rfl,
      countEntries_filled entries, readEntries_filled entries⟩

/-- The representation invariant: the counter and the records are right, the
counter cannot overflow, and so every array is filled exactly. -/
structure Represented (list : Cars) : Prop where
  size : list.size = list.head.length
  valid : ∀ d ∈ list.head, d.Valid
  small : list.size + 1 ≤ intMax
  getAll : Exact (listGetAll list) list.head
  getAllOrdered : Exact (listGetAll (listOrderByYear list)) (listOrderByYear list).head
  getModelList : Exact (listGetModelList list) (list.head.map modeloText)
  getByYear : ∀ ano, Exact (listGetByYear list ano) (list.head.filter fun d => d.ano = ano)

theorem represented_of_wellFormed {list : Cars} (hw : WellFormed list)
    (hs : list.size + 1 ≤ intMax) : Represented list where
  size := hw.size
  valid := hw.valid
  small := hs
  getAll := listGetAll_eq hw ▸ exact_nullOrFilled _
  getAllOrdered := listGetAll_eq (wellFormed_listOrderByYear hw) ▸ exact_nullOrFilled _
  getModelList := listGetModelList_eq hw ▸ exact_nullOrFilled _
  getByYear ano := listGetByYear_eq list ano ▸ exact_nullOrFilled _

/-- What a run leaves, from any well-formed list. -/
theorem foldlM_invoke (msgs : List MessageT) {list : Cars} (hw : WellFormed list) :
    ∃ list', msgs.foldlM (fun list msg => (invoke msg list).map (·.list)) list = some list' ∧
      list' = msgs.foldl (fun list msg => (Skeleton.invoke msg list).list) list ∧
      WellFormed list' ∧ list'.size ≤ list.size + msgs.countP addsCar := by
  induction msgs generalizing list with
  | nil => exact ⟨list, rfl, rfl, hw, by simp⟩
  | cons msg msgs ih =>
    obtain ⟨list', hfold, heq, hw', hle⟩ := ih (wellFormed_invoke msg hw)
    refine ⟨list', ?_, heq, hw', ?_⟩
    · rw [List.foldlM_cons, invoke_eq msg hw]
      exact hfold
    · have hstep := size_invoke_le msg list
      rw [List.countP_cons]
      split at hstep
      · rename_i h
        rw [if_pos h]
        omega
      · rename_i h
        rw [if_neg h]
        omega

/-- **The representation invariant holds after every sequence of messages**, and
no message on the way made `invoke` store or read out of place. -/
theorem represented_of_run {msgs : List MessageT} (h : (msgs.countP addsCar : Int) < intMax) :
    ∃ list, run msgs = some list ∧
      list = msgs.foldl (fun list msg => (Skeleton.invoke msg list).list) listCreate ∧
      Represented list := by
  obtain ⟨list, hrun, heq, hw, hle⟩ := foldlM_invoke msgs wellFormed_listCreate
  refine ⟨list, hrun, heq, represented_of_wellFormed hw ?_⟩
  have hzero : (listCreate : Cars).size = 0 := rfl
  omega

theorem represented_of_run_twoAdds :
    ∃ list, run [rlistAddRequest sampleCar, rlistAddRequest sampleCar] = some list ∧
      list = [rlistAddRequest sampleCar, rlistAddRequest sampleCar].foldl
        (fun list msg => (Skeleton.invoke msg list).list) listCreate ∧ Represented list :=
  represented_of_run (by decide)

end CarChain.Buffers
