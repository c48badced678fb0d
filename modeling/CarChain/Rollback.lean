import CarChain.Lists
import CarChain.OrderByYear

/-!
# Requests that run out of memory

`invoke` with every `malloc` and `strdup` it makes, itself or in `data.c` and
`list.c`, numbered in the order they are made; `ok k` says whether the `k`-th
succeeds.  A message keeps its counters beside its arrays here, since a failed
allocation can leave one without the other.  A request that fails leaves list
and message fit for what follows except in three places: the arrays of models and
of cars are counted before they are there, a listing of year -1 has ordered the
list, and the rollback of a listing frees a slot that was never written
(`rolls_back_iff`).
-/

namespace CarChain.Rollback
open CarChain.Record CarChain.Message CarChain.CarList CarChain.Lists CarChain.Reads
open CarChain.Stub

/-- Which allocations of a call succeed. -/
abbrev Allocations := Nat → Bool

/-- A message in memory: an array is NULL or the elements it holds. -/
structure RawMessage where
  opcode : Int
  cType : Int
  data : Option Data
  result : Int
  nModels : Nat
  models : Option (List CString)
  nCars : Nat
  cars : Option (List Data)
  deriving DecidableEq

/-- What `message_t__unpack` makes: no array without elements. -/
def unpacked (msg : MessageT) : RawMessage where
  opcode := msg.opcode
  cType := msg.cType
  data := msg.data
  result := msg.result
  nModels := msg.models.length
  models := if msg.models = [] then none else some msg.models
  nCars := msg.cars.length
  cars := if msg.cars = [] then none else some msg.cars

@[simp] theorem unpacked_opcode (msg : MessageT) : (unpacked msg).opcode = msg.opcode := rfl
@[simp] theorem unpacked_cType (msg : MessageT) : (unpacked msg).cType = msg.cType := rfl
@[simp] theorem unpacked_data (msg : MessageT) : (unpacked msg).data = msg.data := rfl
@[simp] theorem unpacked_result (msg : MessageT) : (unpacked msg).result = msg.result := rfl

structure Outcome where
  msg : RawMessage
  list : Cars
  deriving DecidableEq

def replyError (msg : RawMessage) : RawMessage :=
  { msg with opcode := opError, cType := ctNone }

def refuse (msg : RawMessage) (list : Cars) : Outcome := ⟨replyError msg, list⟩

/-! ## `data.c` and `list.c` -/

/-- `data_create`, which copies the model and allocates the record. -/
def dataCreate (ok : Allocations) (k : Nat) (pd : Data) : Option DataT :=
  match createFrom pd with
  | none => none
  | some car => if ok k = false then none else if ok (k + 1) = false then none else some car

/-- `list_add`, which allocates the node. -/
def listAdd (ok : Allocations) (k : Nat) (list : Cars) (car : DataT) : Int × Cars :=
  if ok k = false then (-1, list) else (0, CarList.listAdd list car)

/-- A loop of `strdup`, given up at the first that fails, and the number of the
next allocation. -/
def dupAll (ok : Allocations) (k : Nat) : List CString → Option (List CString) × Nat
  | [] => (some [], k)
  | s :: rest =>
    if ok k = false then (none, k + 1)
    else ((dupAll ok (k + 1) rest).1.map (s :: ·), (dupAll ok (k + 1) rest).2)

def listGetModelList (ok : Allocations) (list : Cars) : Option (List CString) × Nat :=
  if list.size = 0 then (none, 0)
  else if ok 0 = false then (none, 1)
  else dupAll ok 1 (list.head.map modeloText)

/-- The array of `list_get_all` or `list_get_by_year` is one allocation, made
when there is a car to put in. -/
def allocated (ok : Allocations) (arr : Option (List DataT)) : Option (List DataT) :=
  if ok 0 = false then none else arr

/-! ## `list_skel.c` -/

def invokeAdd (ok : Allocations) (msg : RawMessage) (list : Cars) : Outcome :=
  if msg.cType ≠ ctData then refuse msg list
  else
    match msg.data with
    | none => refuse msg list
    | some pd =>
      -- the copy of the model that is freed again at the end
      if ok 0 = false then refuse msg list
      else
        match dataCreate ok 1 pd with
        | none => refuse msg list
        | some car =>
          let added := listAdd ok 3 list car
          if added.1 ≠ 0 then ⟨replyError msg, added.2⟩
          else ⟨{ msg with opcode := opAdd + 1, cType := ctNone }, added.2⟩

def invokeGet (ok : Allocations) (msg : RawMessage) (list : Cars) : Outcome :=
  if msg.cType ≠ ctMarca then refuse msg list
  else
    match listGetByMarca list msg.result with
    | none => refuse msg list
    | some found =>
      if ok 0 = false then refuse msg list
      else if ok 1 = false then refuse { msg with data := none } list
      else
        ⟨{ msg with opcode := opGet + 1, cType := ctData, data := some (toData found) }, list⟩

def invokeDel (msg : RawMessage) (list : Cars) : Outcome :=
  if msg.cType ≠ ctModel then refuse msg list
  else
    match msg.models with
    | none => refuse msg list
    | some [] => refuse msg list
    | some (model :: _) =>
      ⟨{ msg with opcode := opDel + 1, cType := ctResult,
                  result := (listRemoveByModel list model).1 },
        (listRemoveByModel list model).2⟩

def invokeSize (msg : RawMessage) (list : Cars) : Outcome :=
  if msg.cType ≠ ctNone then refuse msg list
  else ⟨{ msg with opcode := opSize + 1, cType := ctResult, result := listSize list }, list⟩

def invokeGetModels (ok : Allocations) (msg : RawMessage) (list : Cars) : Outcome :=
  if msg.cType ≠ ctNone then refuse msg list
  else
    match listGetModelList ok list with
    | (none, _) => refuse msg list
    | (some modelList, k) =>
      -- the counter is set before the array is there
      if ok k = false then refuse { msg with nModels := modelList.length, models := none } list
      else
        match (dupAll ok (k + 1) modelList).1 with
        | none => refuse { msg with nModels := 0, models := none } list
        | some models =>
          ⟨{ msg with opcode := opGetModels + 1, cType := ctModel,
                      nModels := modelList.length, models := some models }, list⟩

/-- What the loop over the found cars comes to. -/
inductive Conversion
  | done (cars : List Data)
  | rolledBack
  /-- A slot of the array was freed that held something nobody wrote. -/
  | undefined

/-- A turn that went well before the others. -/
def Conversion.cons (car : Data) : Conversion → Conversion
  | .done cars => .done (car :: cars)
  | .rolledBack => .rolledBack
  | .undefined => .undefined

/-- The loop from the `n`-th car on; `fresh i` says whether slot `i` of the
array read as NULL when `malloc` returned it. -/
def convert (ok : Allocations) (fresh : Nat → Bool) (k n : Nat) : List DataT → Conversion
  | [] => .done []
  | d :: rest =>
    if ok k = false then .rolledBack
    else if ok (k + 1) = false then
      -- "rollback com o atual": slot `n` is only written at the end of a turn
      if fresh n = true then .rolledBack else .undefined
    else (convert ok fresh (k + 2) (n + 1) rest).cons (toData d)

/-- The reply of a listing, once the array of the found cars is there or not. -/
def replyListing (ok : Allocations) (fresh : Nat → Bool) (msg : RawMessage) (list : Cars)
    (arr : Option (List DataT)) : Option Outcome :=
  match arr with
  | none => some (refuse msg list)
  | some found =>
    if ok 1 = false then some (refuse { msg with nCars := found.length, cars := none } list)
    else
      match convert ok fresh 2 0 found with
      | .undefined => none
      | .rolledBack => some (refuse { msg with nCars := 0, cars := none } list)
      | .done cars =>
        some ⟨{ msg with opcode := opGetListByTear + 1, cType := ctList,
                         nCars := found.length, cars := some cars }, list⟩

def invokeGetListByTear (ok : Allocations) (fresh : Nat → Bool) (msg : RawMessage)
    (list : Cars) : Option Outcome :=
  if msg.cType ≠ ctResult then some (refuse msg list)
  else if msg.result = -1 then
    replyListing ok fresh msg (listOrderByYear list)
      (allocated ok (listGetAll (listOrderByYear list)))
  else replyListing ok fresh msg list (allocated ok (listGetByYear list msg.result))

/-- `invoke`; none when its behaviour is undefined. -/
def invoke (ok : Allocations) (fresh : Nat → Bool) (msg : RawMessage) (list : Cars) :
    Option Outcome :=
  if msg.opcode = opAdd then some (invokeAdd ok msg list)
  else if msg.opcode = opGet then some (invokeGet ok msg list)
  else if msg.opcode = opDel then some (invokeDel msg list)
  else if msg.opcode = opSize then some (invokeSize msg list)
  else if msg.opcode = opGetModels then some (invokeGetModels ok msg list)
  else if msg.opcode = opGetListByTear then invokeGetListByTear ok fresh msg list
  else some (refuse msg list)

/-! ## When every allocation succeeds -/

/-- All of them do. -/
def plenty : Allocations := fun _ => true

theorem plenty_ne_false (k : Nat) : ¬ plenty k = false := by simp [plenty]

/-- A loop of `strdup` whose allocations succeed. -/
theorem dupAll_ok {ok : Allocations} {k : Nat} {l : List CString}
    (h : ∀ j < l.length, ok (k + j) = true) : dupAll ok k l = (some l, k + l.length) := by
  induction l generalizing k with
  | nil => rfl
  | cons s rest ih =>
    have hfirst : ok k = true := h 0 (Nat.succ_pos _)
    have hrest : ∀ j < rest.length, ok (k + 1 + j) = true := by
      intro j hj
      rw [Nat.add_assoc, Nat.add_comm 1 j]
      exact h (j + 1) (Nat.succ_lt_succ hj)
    rw [dupAll, if_neg (by rw [hfirst]; decide), ih hrest, List.length_cons, Nat.add_assoc,
      Nat.add_comm 1]
    rfl

theorem dupAll_plenty (k : Nat) (l : List CString) :
    dupAll plenty k l = (some l, k + l.length) := dupAll_ok fun _ _ => rfl

theorem convert_plenty (fresh : Nat → Bool) (k n : Nat) (l : List DataT) :
    convert plenty fresh k n l = .done (l.map toData) := by
  induction l generalizing k n with
  | nil => rfl
  | cons d rest ih =>
    rw [convert, if_neg (plenty_ne_false _), if_neg (plenty_ne_false _), ih]
    rfl

theorem replyListing_plenty (fresh : Nat → Bool) (msg : MessageT) (list : Cars)
    {arr : Option (List DataT)} (h : ∀ l, arr = some l → l ≠ []) :
    replyListing plenty fresh (unpacked msg) list (allocated plenty arr) =
      some ⟨unpacked (Skeleton.replyListing msg arr), list⟩ := by
  rw [allocated, if_neg (plenty_ne_false _)]
  cases arr with
  | none => rfl
  | some l =>
    have hne : l.map toData ≠ [] := fun hnil => h l rfl (List.map_eq_nil_iff.mp hnil)
    rw [replyListing, if_neg (plenty_ne_false _), convert_plenty]
    simp only [unpacked, Skeleton.replyListing, hne, ↓reduceIte, List.length_map]
    rfl

theorem invokeGetModels_plenty (msg : MessageT) {list : Cars} (hw : WellFormed list) :
    invokeGetModels plenty (unpacked msg) list =
      ⟨unpacked (Skeleton.invokeGetModels msg list).msg,
        (Skeleton.invokeGetModels msg list).list⟩ := by
  unfold invokeGetModels Skeleton.invokeGetModels listGetModelList CarList.listGetModelList
  rw [unpacked_cType]
  split
  · rfl
  · by_cases hs : list.size = 0
    · rw [if_pos hs, if_pos hs]
      rfl
    · have hne : list.head ≠ [] := mt hw.size_eq_zero.mpr hs
      rw [if_neg hs, if_neg hs, if_neg (plenty_ne_false _), dupAll_plenty]
      dsimp only
      rw [if_neg (plenty_ne_false _), dupAll_plenty]
      simp [unpacked, hne]

theorem invokeAdd_plenty (msg : MessageT) (list : Cars) :
    invokeAdd plenty (unpacked msg) list =
      ⟨unpacked (Skeleton.invokeAdd msg list).msg, (Skeleton.invokeAdd msg list).list⟩ := by
  unfold invokeAdd Skeleton.invokeAdd
  rw [unpacked_cType, unpacked_data]
  split
  · rfl
  · cases msg.data with
    | none => rfl
    | some pd =>
      dsimp only
      rw [if_neg (plenty_ne_false 0), dataCreate]
      cases createFrom pd with
      | none => rfl
      | some car =>
        dsimp only
        rw [if_neg (plenty_ne_false _), if_neg (plenty_ne_false _)]
        rfl

theorem invokeGet_plenty (msg : MessageT) (list : Cars) :
    invokeGet plenty (unpacked msg) list =
      ⟨unpacked (Skeleton.invokeGet msg list).msg, (Skeleton.invokeGet msg list).list⟩ := by
  unfold invokeGet Skeleton.invokeGet
  rw [unpacked_cType, unpacked_result]
  split
  · rfl
  · cases listGetByMarca list msg.result with
    | none => rfl
    | some found =>
      dsimp only
      rw [if_neg (plenty_ne_false 0), if_neg (plenty_ne_false 1)]
      rfl

theorem invokeDel_plenty (msg : MessageT) (list : Cars) :
    invokeDel (unpacked msg) list =
      ⟨unpacked (Skeleton.invokeDel msg list).msg, (Skeleton.invokeDel msg list).list⟩ := by
  obtain ⟨opcode, cType, data, result, models, cars⟩ := msg
  unfold invokeDel Skeleton.invokeDel
  rw [unpacked_cType]
  split
  · rfl
  · cases models with
    | nil => rfl
    | cons model rest => rfl

theorem invokeSize_plenty (msg : MessageT) (list : Cars) :
    invokeSize (unpacked msg) list =
      ⟨unpacked (Skeleton.invokeSize msg list).msg, (Skeleton.invokeSize msg list).list⟩ := by
  unfold invokeSize Skeleton.invokeSize
  rw [unpacked_cType]
  split <;> rfl

theorem invokeGetListByTear_plenty (fresh : Nat → Bool) (msg : MessageT) {list : Cars}
    (hw : WellFormed list) :
    invokeGetListByTear plenty fresh (unpacked msg) list =
      some ⟨unpacked (Skeleton.invokeGetListByTear msg list).msg,
        (Skeleton.invokeGetListByTear msg list).list⟩ := by
  unfold invokeGetListByTear Skeleton.invokeGetListByTear
  rw [unpacked_cType, unpacked_result]
  split
  · rfl
  · split
    · refine replyListing_plenty fresh msg _ fun l hl => ?_
      exact ((wellFormed_listOrderByYear hw).listGetAll_eq_some.mp hl).1
    · refine replyListing_plenty fresh msg _ fun l hl => ?_
      exact (listGetByYear_eq_some.mp hl).1

/-- **With memory for everything** `invoke` is that of the skeleton. -/
theorem invoke_plenty {list : Cars} (hw : WellFormed list) (fresh : Nat → Bool)
    (msg : MessageT) :
    invoke plenty fresh (unpacked msg) list =
      some ⟨unpacked (Skeleton.invoke msg list).msg, (Skeleton.invoke msg list).list⟩ := by
  unfold invoke Skeleton.invoke
  rw [unpacked_opcode, invokeAdd_plenty, invokeGet_plenty, invokeDel_plenty, invokeSize_plenty,
    invokeGetModels_plenty msg hw, invokeGetListByTear_plenty fresh msg hw]
  repeat' split
  all_goals rfl

/-! ## Rolling back -/

/-- Both arrays are as long as their counters say. -/
structure Packable (msg : RawMessage) : Prop where
  models : msg.nModels = 0 ∨ ∃ models, msg.models = some models ∧ models.length = msg.nModels
  cars : msg.nCars = 0 ∨ ∃ cars, msg.cars = some cars ∧ cars.length = msg.nCars

/-- A failed call leaves the list as it was and a message that can be packed. -/
def Restores (list : Cars) (r : Outcome) : Prop :=
  r.msg.opcode = opError → r.list = list ∧ Packable r.msg

/-- The call comes back, and if it failed it has rolled back. -/
def RollsBack (ok : Allocations) (fresh : Nat → Bool) (msg : MessageT) (list : Cars) : Prop :=
  ∃ r, invoke ok fresh (unpacked msg) list = some r ∧ Restores list r

/-- The `k`-th allocation is the first that fails. -/
def FirstFailure (ok : Allocations) (k : Nat) : Prop := ok k = false ∧ ∀ j < k, ok j = true

theorem packable_unpacked (msg : MessageT) : Packable (unpacked msg) := by
  constructor
  · by_cases h : msg.models = []
    · exact Or.inl (by simp [unpacked, h])
    · exact Or.inr ⟨msg.models, by simp [unpacked, h], rfl⟩
  · by_cases h : msg.cars = []
    · exact Or.inl (by simp [unpacked, h])
    · exact Or.inr ⟨msg.cars, by simp [unpacked, h], rfl⟩

theorem restores_refuse {msg : RawMessage} (h : Packable msg) (list : Cars) :
    Restores list (refuse msg list) := fun _ => ⟨rfl, h.models, h.cars⟩

theorem restores_of_opcode {list : Cars} {r : Outcome} (h : r.msg.opcode ≠ opError) :
    Restores list r := fun hop => absurd hop h

/-- The operations whose failures are always rolled back. -/
theorem restores_invokeAdd (ok : Allocations) {msg : RawMessage} (h : Packable msg)
    (list : Cars) : Restores list (invokeAdd ok msg list) := by
  unfold invokeAdd
  split
  · exact restores_refuse h list
  · split
    · exact restores_refuse h list
    · split
      · exact restores_refuse h list
      · split
        · exact restores_refuse h list
        · rename_i car _
          unfold listAdd
          by_cases hok : ok 3 = false
          · rw [if_pos hok]
            exact restores_refuse h list
          · rw [if_neg hok]
            exact restores_of_opcode (by decide : opAdd + 1 ≠ opError)

theorem restores_invokeGet (ok : Allocations) {msg : RawMessage} (h : Packable msg)
    (list : Cars) : Restores list (invokeGet ok msg list) := by
  unfold invokeGet
  split
  · exact restores_refuse h list
  · split
    · exact restores_refuse h list
    · split
      · exact restores_refuse h list
      · split
        · have hp : Packable { msg with data := none } := ⟨h.models, h.cars⟩
          exact restores_refuse hp list
        · exact restores_of_opcode (by decide : opGet + 1 ≠ opError)

theorem restores_invokeDel {msg : RawMessage} (h : Packable msg) (list : Cars) :
    Restores list (invokeDel msg list) := by
  unfold invokeDel
  split
  · exact restores_refuse h list
  · split
    · exact restores_refuse h list
    · exact restores_refuse h list
    · exact restores_of_opcode (by decide : opDel + 1 ≠ opError)

theorem restores_invokeSize {msg : RawMessage} (h : Packable msg) (list : Cars) :
    Restores list (invokeSize msg list) := by
  unfold invokeSize
  split
  · exact restores_refuse h list
  · exact restores_of_opcode (by decide : opSize + 1 ≠ opError)

/-! ## The models -/

theorem dupAll_failed {ok : Allocations} {k j : Nat} {l : List CString} (hj : j < l.length)
    (h : ok (k + j) = false) : (dupAll ok k l).1 = none := by
  induction l generalizing k j with
  | nil => cases hj
  | cons s rest ih =>
    rw [dupAll]
    split
    · rfl
    · rename_i hfirst
      cases j with
      | zero => exact absurd h hfirst
      | succ j =>
        rw [Nat.add_comm j 1, ← Nat.add_assoc] at h
        rw [ih (Nat.lt_of_succ_lt_succ hj) h]
        rfl

/-- The array of the list: there when none of its allocations fails. -/
theorem listGetModelList_ok {ok : Allocations} {list : Cars} (hw : WellFormed list)
    (hne : list.head ≠ []) (h : ∀ j < list.head.length + 1, ok j = true) :
    listGetModelList ok list = (some (list.head.map modeloText), list.head.length + 1) := by
  have hsize : list.size ≠ 0 := mt hw.size_eq_zero.mp hne
  have hdup : dupAll ok 1 (list.head.map modeloText) =
      (some (list.head.map modeloText), 1 + (list.head.map modeloText).length) := by
    refine dupAll_ok fun j hj => h (1 + j) ?_
    rw [List.length_map] at hj
    omega
  rw [listGetModelList, if_neg hsize, if_neg (by rw [h 0 (Nat.succ_pos _)]; decide), hdup,
    List.length_map, Nat.add_comm 1]

theorem listGetModelList_failed {ok : Allocations} {list : Cars} {j : Nat}
    (hj : j < list.head.length + 1) (h : ok j = false) : (listGetModelList ok list).1 = none := by
  unfold listGetModelList
  split
  · rfl
  · split
    · rfl
    · rename_i hfirst
      cases j with
      | zero => exact absurd h hfirst
      | succ j =>
        rw [Nat.add_comm j 1] at h
        exact dupAll_failed (by rw [List.length_map]; omega) h

theorem invokeGetModels_refused {ok : Allocations} {list : Cars} (msg : RawMessage)
    (h : (listGetModelList ok list).1 = none) : invokeGetModels ok msg list = refuse msg list := by
  unfold invokeGetModels
  split
  · rfl
  · split
    · rfl
    · rename_i modelList k heq
      rw [heq] at h
      cases h

theorem restores_invokeGetModels_iff (ok : Allocations) {list : Cars} (hw : WellFormed list)
    {msg : RawMessage} (hm : Packable msg) :
    Restores list (invokeGetModels ok msg list) ↔
      (msg.cType = ctNone → list.head ≠ [] → ¬ FirstFailure ok (list.head.length + 1)) := by
  by_cases hc : msg.cType = ctNone
  · by_cases hne : list.head = []
    · refine iff_of_true ?_ fun _ h => absurd hne h
      have hnone : (listGetModelList ok list).1 = none := by
        rw [listGetModelList, if_pos (hw.size_eq_zero.mpr hne)]
      rw [invokeGetModels_refused msg hnone]
      exact restores_refuse hm list
    · by_cases hall : ∀ j < list.head.length + 1, ok j = true
      · have hlist := listGetModelList_ok hw hne hall
        have hpos : 0 < list.head.length := List.length_pos_iff.mpr hne
        unfold invokeGetModels
        rw [if_neg (not_not.mpr hc), hlist]
        dsimp only
        by_cases hk : ok (list.head.length + 1) = false
        · refine iff_of_false ?_ fun h => h hc hne ⟨hk, hall⟩
          rw [if_pos hk]
          intro h
          obtain ⟨_, hp⟩ := h rfl
          rcases hp.models with hzero | ⟨models, hnull, _⟩
          · simp only [refuse, replyError, List.length_map] at hzero
            omega
          · cases hnull
        · refine iff_of_true ?_ fun _ _ h => hk h.1
          rw [if_neg hk]
          split
          · have hp : Packable { msg with nModels := 0, models := none } := ⟨Or.inl rfl, hm.cars⟩
            exact restores_refuse hp list
          · exact restores_of_opcode (by decide : opGetModels + 1 ≠ opError)
      · refine iff_of_true ?_ fun _ _ h => hall h.2
        obtain ⟨j, hj⟩ := not_forall.mp hall
        obtain ⟨hlt, hfail⟩ := Classical.not_imp.mp hj
        rw [invokeGetModels_refused msg (listGetModelList_failed hlt (by simpa using hfail))]
        exact restores_refuse hm list
  · refine iff_of_true ?_ fun h => absurd h hc
    rw [invokeGetModels, if_pos hc]
    exact restores_refuse hm list

/-! ## The cars -/

@[simp] theorem Conversion.cons_eq_undefined (car : Data) (c : Conversion) :
    c.cons car = .undefined ↔ c = .undefined := by cases c <;> simp [Conversion.cons]

theorem Conversion.cons_done (car : Data) (c : Conversion) :
    (∃ cars, c.cons car = .done cars) ↔ ∃ cars, c = .done cars := by
  cases c <;> simp [Conversion.cons]

/-- Two allocations that succeed before others. -/
theorem ok_from_two {ok : Allocations} {k : Nat} (h₀ : ok k = true) (h₁ : ok (k + 1) = true)
    (n : Nat) : (∀ i < n + 2, ok (k + i) = true) ↔ ∀ i < n, ok (k + 2 + i) = true := by
  constructor
  · intro h i hi
    rw [Nat.add_assoc, Nat.add_comm 2 i]
    exact h (i + 2) (by omega)
  · intro h i hi
    match i, hi with
    | 0, _ => exact h₀
    | 1, _ => exact h₁
    | i + 2, hi =>
      have hnext := h i (by omega)
      rwa [Nat.add_assoc, Nat.add_comm 2 i] at hnext

/-- The loop ends with all cars when none of its allocations fails. -/
theorem convert_done_iff {ok : Allocations} {fresh : Nat → Bool} {k n : Nat} {l : List DataT} :
    (∃ cars, convert ok fresh k n l = .done cars) ↔ ∀ i < 2 * l.length, ok (k + i) = true := by
  induction l generalizing k n with
  | nil => exact iff_of_true ⟨[], rfl⟩ fun i hi => absurd hi (Nat.not_lt_zero i)
  | cons d rest ih =>
    rw [convert]
    by_cases h₀ : ok k = true
    · by_cases h₁ : ok (k + 1) = true
      · rw [if_neg (by rw [h₀]; decide), if_neg (by rw [h₁]; decide), Conversion.cons_done,
          List.length_cons, Nat.mul_succ, ok_from_two h₀ h₁]
        exact ih
      · have hfail : ok (k + 1) = false := by simpa using h₁
        rw [if_neg (by rw [h₀]; decide), if_pos hfail]
        refine iff_of_false ?_ fun h => h₁ (h 1 (by rw [List.length_cons]; omega))
        split <;> simp
    · have hfail : ok k = false := by simpa using h₀
      rw [if_pos hfail]
      exact iff_of_false (by simp) fun h => h₀ (h 0 (by rw [List.length_cons]; omega))

/-- It goes wrong when the copy of a model is the first to fail and the slot of
that car does not read as NULL. -/
theorem convert_undefined_iff {ok : Allocations} {fresh : Nat → Bool} {k n : Nat}
    {l : List DataT} :
    convert ok fresh k n l = .undefined ↔
      ∃ j < l.length, (∀ i < 2 * j + 1, ok (k + i) = true) ∧ ok (k + (2 * j + 1)) = false ∧
        fresh (n + j) = false := by
  induction l generalizing k n with
  | nil => simp [convert]
  | cons d rest ih =>
    rw [convert, List.length_cons]
    by_cases h₀ : ok k = true
    · rw [if_neg (by rw [h₀]; decide)]
      by_cases h₁ : ok (k + 1) = true
      · rw [if_neg (by rw [h₁]; decide)]
        rw [Conversion.cons_eq_undefined, ih]
        constructor
        · rintro ⟨j, hj, hbefore, hfail, hfresh⟩
          refine ⟨j + 1, Nat.succ_lt_succ hj, ?_, ?_, ?_⟩
          · exact (ok_from_two h₀ h₁ (2 * j + 1)).mpr hbefore
          · have heq : k + (2 * (j + 1) + 1) = k + 2 + (2 * j + 1) := by omega
            rw [heq]
            exact hfail
          · rw [← hfresh]
            congr 1
            omega
        · rintro ⟨j, hj, hbefore, hfail, hfresh⟩
          cases j with
          | zero => exact absurd (h₁.symm.trans hfail) (by decide)
          | succ j =>
            refine ⟨j, Nat.lt_of_succ_lt_succ hj, ?_, ?_, ?_⟩
            · exact (ok_from_two h₀ h₁ (2 * j + 1)).mp hbefore
            · have heq : k + 2 + (2 * j + 1) = k + (2 * (j + 1) + 1) := by omega
              rw [heq]
              exact hfail
            · rw [← hfresh]
              congr 1
              omega
      · have hfail : ok (k + 1) = false := by simpa using h₁
        rw [if_pos hfail]
        constructor
        · intro h
          split at h
          · cases h
          · rename_i hfresh
            refine ⟨0, Nat.succ_pos _, fun i hi => ?_, hfail, by simpa using hfresh⟩
            obtain rfl : i = 0 := by omega
            exact h₀
        · rintro ⟨j, hj, hbefore, _, hfresh⟩
          cases j with
          | zero =>
            rw [Nat.add_zero] at hfresh
            rw [if_neg (by rw [hfresh]; decide)]
          | succ j => exact absurd (hbefore 1 (by omega)) h₁
    · have hfail : ok k = false := by simpa using h₀
      rw [if_pos hfail]
      refine iff_of_false (by simp) ?_
      rintro ⟨j, _, hbefore, _⟩
      exact h₀ (hbefore 0 (Nat.succ_pos _))

/-- What a listing of `m` cars, numbered from its first allocation on, must be
spared to be rolled back: that the second fails first, which is the array of the
message, and that the copy of a model does where the slot is not NULL. -/
structure ListingSpared (ok : Allocations) (fresh : Nat → Bool) (m : Nat) : Prop where
  array : ¬ FirstFailure ok 1
  slot : ∀ j < m, FirstFailure ok (3 + 2 * j) → fresh j = true

/-- Behind the two arrays only the slots can go wrong. -/
theorem listingSpared_iff {ok : Allocations} {fresh : Nat → Bool} {l : List DataT}
    (h₀ : ok 0 = true) (h₁ : ok 1 = true) :
    ListingSpared ok fresh l.length ↔ convert ok fresh 2 0 l ≠ .undefined := by
  rw [ne_eq, convert_undefined_iff]
  constructor
  · rintro hs ⟨j, hj, hbefore, hfail, hfresh⟩
    rw [Nat.zero_add] at hfresh
    have hfirst : FirstFailure ok (3 + 2 * j) := by
      refine ⟨?_, fun i hi => ?_⟩
      · have heq : 3 + 2 * j = 2 + (2 * j + 1) := by omega
        rw [heq]
        exact hfail
      · rw [← Nat.zero_add i]
        exact (@ok_from_two ok 0 h₀ h₁ (2 * j + 1)).mpr hbefore i (by omega)
    exact absurd (hfresh.symm.trans (hs.slot j hj hfirst)) (by decide)
  · intro hno
    refine ⟨fun h => absurd (h₁.symm.trans h.1) (by decide), fun j hj hfirst => ?_⟩
    rw [← Bool.not_eq_false]
    intro hfresh
    refine hno ⟨j, hj, fun i hi => hfirst.2 (2 + i) (by omega), ?_, ?_⟩
    · have heq : 2 + (2 * j + 1) = 3 + 2 * j := by omega
      rw [heq]
      exact hfirst.1
    · rw [Nat.zero_add]
      exact hfresh

/-- A listing that leaves the list as it is. -/
theorem restores_replyListing_iff {ok : Allocations} {fresh : Nat → Bool} {msg : RawMessage}
    (hm : Packable msg) (list : Cars) {l : List DataT} (hne : l ≠ []) :
    (∃ r, replyListing ok fresh msg list (allocated ok (some l)) = some r ∧ Restores list r) ↔
      ListingSpared ok fresh l.length := by
  have hpos : 0 < l.length := List.length_pos_iff.mpr hne
  unfold allocated
  by_cases h₀ : ok 0 = false
  · rw [if_pos h₀]
    refine iff_of_true ⟨_, rfl, restores_refuse hm list⟩ ⟨fun h => ?_, fun j _ h => ?_⟩
    · exact absurd (h₀.symm.trans (h.2 0 (by omega))) (by decide)
    · exact absurd (h₀.symm.trans (h.2 0 (by omega))) (by decide)
  · have hok₀ : ok 0 = true := by simpa using h₀
    rw [if_neg h₀, replyListing]
    by_cases h₁ : ok 1 = false
    · rw [if_pos h₁]
      refine iff_of_false ?_ fun h => h.array ⟨h₁, fun j hj => ?_⟩
      · rintro ⟨r, hr, hrestores⟩
        cases hr
        rcases (hrestores rfl).2.cars with hzero | ⟨cars, hnull, _⟩
        · simp only [refuse, replyError] at hzero
          omega
        · cases hnull
      · obtain rfl := Nat.lt_one_iff.mp hj
        exact hok₀
    · have hok₁ : ok 1 = true := by simpa using h₁
      rw [if_neg h₁, listingSpared_iff hok₀ hok₁]
      cases hconvert : convert ok fresh 2 0 l with
      | undefined => simp
      | rolledBack =>
        have hp : Packable { msg with nCars := 0, cars := none } := ⟨hm.models, Or.inl rfl⟩
        exact iff_of_true ⟨_, rfl, restores_refuse hp list⟩ (by simp)
      | done cars =>
        refine iff_of_true ⟨_, rfl, ?_⟩ (by simp)
        exact restores_of_opcode (by decide : opGetListByTear + 1 ≠ opError)

/-- A listing that has changed the list must not fail any more. -/
theorem restores_changed_iff {ok : Allocations} {fresh : Nat → Bool} {msg : RawMessage}
    {list after : Cars} (hne : after ≠ list) (l : List DataT) :
    (∃ r, replyListing ok fresh msg after (allocated ok (some l)) = some r ∧
        Restores list r) ↔ ∀ k < 2 + 2 * l.length, ok k = true := by
  have hrefuse : ∀ m, ¬ Restores list (refuse m after) := fun m h => hne (h rfl).1
  unfold allocated
  by_cases h₀ : ok 0 = false
  · rw [if_pos h₀]
    refine iff_of_false ?_ fun h => absurd (h₀.symm.trans (h 0 (by omega))) (by decide)
    rintro ⟨r, hr, hrestores⟩
    cases hr
    exact hrefuse _ hrestores
  · rw [if_neg h₀, replyListing]
    by_cases h₁ : ok 1 = false
    · rw [if_pos h₁]
      refine iff_of_false ?_ fun h => absurd (h₁.symm.trans (h 1 (by omega))) (by decide)
      rintro ⟨r, hr, hrestores⟩
      cases hr
      exact hrefuse _ hrestores
    · rw [if_neg h₁]
      have hall : (∀ k < 2 + 2 * l.length, ok k = true) ↔
          ∃ cars, convert ok fresh 2 0 l = .done cars := by
        rw [convert_done_iff]
        constructor
        · intro h i hi
          exact h (2 + i) (by omega)
        · intro h k hk
          rw [← Nat.zero_add k]
          exact (@ok_from_two ok 0 (by simpa using h₀) (by simpa using h₁) _).mpr h k (by omega)
      rw [hall]
      cases hconvert : convert ok fresh 2 0 l with
      | undefined => simp
      | rolledBack =>
        refine iff_of_false ?_ (by simp)
        rintro ⟨r, hr, hrestores⟩
        cases hr
        exact hrefuse _ hrestores
      | done cars =>
        refine iff_of_true ⟨_, rfl, ?_⟩ ⟨cars, rfl⟩
        exact restores_of_opcode (by decide : opGetListByTear + 1 ≠ opError)

/-! ## Every request -/

/-- A listing that is carried out. -/
def IsListing (msg : MessageT) : Prop :=
  msg.opcode = opGetListByTear ∧ msg.cType = ctResult

/-- How many cars it lists. -/
def listed (msg : MessageT) (list : Cars) : Nat :=
  if msg.result = -1 then list.head.length
  else list.head.countP fun d => d.ano = msg.result

/-- When a request is rolled back if it fails. -/
structure Spared (ok : Allocations) (fresh : Nat → Bool) (msg : MessageT) (list : Cars) :
    Prop where
  models : msg.opcode = opGetModels → msg.cType = ctNone → list.head ≠ [] →
    ¬ FirstFailure ok (list.head.length + 1)
  listing : IsListing msg → 0 < listed msg list → ListingSpared ok fresh (listed msg list)
  order : IsListing msg → msg.result = -1 → ¬ InYearOrder list →
    ∀ k < 2 + 2 * listed msg list, ok k = true

/-- A request that is no carried-out listing is spared that. -/
theorem spared_of_not_listing {ok : Allocations} {fresh : Nat → Bool} {msg : MessageT}
    {list : Cars} (hl : ¬ IsListing msg) :
    Spared ok fresh msg list ↔ (msg.opcode = opGetModels → msg.cType = ctNone →
      list.head ≠ [] → ¬ FirstFailure ok (list.head.length + 1)) :=
  ⟨Spared.models, fun h => ⟨h, fun h' => absurd h' hl, fun h' => absurd h' hl⟩⟩

theorem listGetByYear_eq (list : Cars) (ano : Int) :
    listGetByYear list ano =
      if list.head.countP (fun d => d.ano = ano) = 0 then none
      else some (list.head.filter fun d => d.ano = ano) := rfl

/-- A listing of one year. -/
theorem rollsBack_byYear_iff {ok : Allocations} {fresh : Nat → Bool} {msg : RawMessage}
    (hm : Packable msg) (list : Cars) (ano : Int) :
    (∃ r, replyListing ok fresh msg list (allocated ok (listGetByYear list ano)) = some r ∧
        Restores list r) ↔
      (0 < list.head.countP (fun d => d.ano = ano) →
        ListingSpared ok fresh (list.head.countP fun d => d.ano = ano)) := by
  rw [listGetByYear_eq]
  by_cases hnone : list.head.countP (fun d => d.ano = ano) = 0
  · rw [if_pos hnone]
    refine iff_of_true ⟨refuse msg list, ?_, restores_refuse hm list⟩ fun h => by omega
    unfold allocated
    split <;> rfl
  · have hne : list.head.filter (fun d => d.ano = ano) ≠ [] := by
      intro hnil
      rw [List.countP_eq_length_filter, hnil] at hnone
      exact hnone rfl
    rw [if_neg hnone, restores_replyListing_iff hm list hne, List.countP_eq_length_filter]
    exact ⟨fun h _ => h, fun h => h (List.length_pos_iff.mpr hne)⟩

/-- A listing of all cars, which orders the list first. -/
theorem rollsBack_all_iff {ok : Allocations} {fresh : Nat → Bool} {msg : RawMessage}
    (hm : Packable msg) {list : Cars} (hw : WellFormed list) :
    (∃ r, replyListing ok fresh msg (listOrderByYear list)
          (allocated ok (listGetAll (listOrderByYear list))) = some r ∧ Restores list r) ↔
      (0 < list.head.length → ListingSpared ok fresh list.head.length) ∧
        (¬ InYearOrder list → ∀ k < 2 + 2 * list.head.length, ok k = true) := by
  have hlen := (listOrderByYear_perm list).length_eq
  by_cases hnil : list.head = []
  · have hsame : listOrderByYear list = list :=
      listOrderByYear_of_inYearOrder (by rw [InYearOrder, hnil]; exact List.Pairwise.nil)
    have hall : listGetAll list = none := if_pos (hw.size_eq_zero.mpr hnil)
    rw [hsame, hall, hnil]
    refine iff_of_true ⟨refuse msg list, ?_, restores_refuse hm list⟩ ⟨fun h => ?_, fun h => ?_⟩
    · unfold allocated
      split <;> rfl
    · cases h
    · exact absurd (by rw [InYearOrder, hnil]; exact List.Pairwise.nil) h
  · have hpos : 0 < list.head.length := List.length_pos_iff.mpr hnil
    have hne : (listOrderByYear list).head ≠ [] := mt (listOrderByYear_eq_nil list).mp hnil
    have hall : listGetAll (listOrderByYear list) = some (listOrderByYear list).head :=
      (wellFormed_listOrderByYear hw).listGetAll_eq_some.mpr ⟨hne, rfl⟩
    rw [hall, ← hlen]
    by_cases hsorted : InYearOrder list
    · rw [listOrderByYear_of_inYearOrder hsorted, restores_replyListing_iff hm list hnil]
      exact ⟨fun h => ⟨fun _ => h, fun h' => absurd hsorted h'⟩, fun h => h.1 hpos⟩
    · have hchanged : listOrderByYear list ≠ list := by
        intro heq
        have hstable := OrderByYear.orderByYear_isStableSort DataT.ano hw.size
        rw [show orderByYear DataT.ano list = list from heq] at hstable
        exact hsorted hstable.sorted
      rw [restores_changed_iff hchanged]
      refine ⟨fun h => ⟨fun _ => ⟨fun hf => ?_, fun j hj hf => ?_⟩, fun _ => h⟩,
        fun h => h.2 hsorted⟩
      · exact absurd ((h 1 (by omega)).symm.trans hf.1) (by decide)
      · exact absurd ((h (3 + 2 * j) (by omega)).symm.trans hf.1) (by decide)

theorem rollsBack_listing_iff {ok : Allocations} {fresh : Nat → Bool} {msg : MessageT}
    {list : Cars} (hw : WellFormed list) (hop : msg.opcode = opGetListByTear) :
    (∃ r, invokeGetListByTear ok fresh (unpacked msg) list = some r ∧ Restores list r) ↔
      Spared ok fresh msg list := by
  have hm := packable_unpacked msg
  have hmodels : msg.opcode ≠ opGetModels := by
    rw [hop]
    decide
  unfold invokeGetListByTear
  rw [unpacked_cType, unpacked_result]
  by_cases hc : msg.cType = ctResult
  · have hlisting : IsListing msg := ⟨hop, hc⟩
    rw [if_neg (not_not.mpr hc)]
    by_cases hr : msg.result = -1
    · have hlisted : listed msg list = list.head.length := if_pos hr
      rw [if_pos hr, rollsBack_all_iff hm hw]
      constructor
      · rintro ⟨hspared, hall⟩
        refine ⟨fun h => absurd h hmodels, fun _ h => ?_, fun _ _ h => ?_⟩
        · rw [hlisted] at h ⊢
          exact hspared h
        · rw [hlisted]
          exact hall h
      · intro h
        refine ⟨fun hpos => ?_, fun hsorted => ?_⟩
        · rw [← hlisted] at hpos ⊢
          exact h.listing hlisting hpos
        · rw [← hlisted]
          exact h.order hlisting hr hsorted
    · have hlisted : listed msg list = list.head.countP fun d => d.ano = msg.result := if_neg hr
      rw [if_neg hr]
      refine (rollsBack_byYear_iff hm list msg.result).trans ?_
      rw [← hlisted]
      exact ⟨fun h => ⟨fun h' => absurd h' hmodels, fun _ => h, fun _ h' => absurd h' hr⟩,
        fun h => h.listing hlisting⟩
  · have hlisting : ¬ IsListing msg := fun h => hc h.2
    rw [if_pos hc, spared_of_not_listing hlisting]
    exact iff_of_true ⟨_, rfl, restores_refuse hm list⟩ fun h => absurd h hmodels

/-- **When a request rolls back**, whatever allocations fail. -/
theorem rolls_back_iff {list : Cars} (hr : Reachable list) (msg : MessageT)
    (ok : Allocations) (fresh : Nat → Bool) :
    RollsBack ok fresh msg list ↔ Spared ok fresh msg list := by
  have hm := packable_unpacked msg
  have hw := hr.wellFormed
  by_cases hl : msg.opcode = opGetListByTear
  · rw [← rollsBack_listing_iff hw hl, RollsBack, invoke, unpacked_opcode, hl]
    exact Iff.rfl
  · have hlisting : ¬ IsListing msg := fun h => hl h.1
    rw [spared_of_not_listing hlisting, RollsBack, invoke, unpacked_opcode]
    by_cases hg : msg.opcode = opGetModels
    · have hiff := restores_invokeGetModels_iff ok hw hm
      rw [unpacked_cType] at hiff
      rw [hg]
      constructor
      · rintro ⟨r, hr, hrestores⟩ _
        cases hr
        exact hiff.mp hrestores
      · intro h
        exact ⟨_, rfl, hiff.mpr (h rfl)⟩
    · refine iff_of_true ?_ fun h => absurd h hg
      rw [if_neg hg, if_neg hl]
      split
      · exact ⟨_, rfl, restores_invokeAdd ok hm list⟩
      · split
        · exact ⟨_, rfl, restores_invokeGet ok hm list⟩
        · split
          · exact ⟨_, rfl, restores_invokeDel hm list⟩
          · split
            · exact ⟨_, rfl, restores_invokeSize hm list⟩
            · exact ⟨_, rfl, restores_refuse hm list⟩

/-- No memory at all. -/
def exhausted : Allocations := fun _ => false

theorem rolls_back_iff_exhausted :
    RollsBack exhausted (fun _ => false) rlistGetModelListRequest twoCars := by
  refine (rolls_back_iff (.invoke _ (.invoke _ .create)) rlistGetModelListRequest exhausted
    fun _ => false).mpr ⟨fun _ _ _ h => ?_, fun h => ?_, fun h => ?_⟩
  · exact absurd (h.2 0 (Nat.succ_pos _)) (by decide)
  · exact absurd h.1 (by decide)
  · exact absurd h.1 (by decide)

/-- Only this allocation fails. -/
def failing (k : Nat) : Allocations := fun j => decide (j ≠ k)

theorem not_rollsBack {ok : Allocations} {fresh : Nat → Bool} {msg : MessageT} {list : Cars}
    {r : Outcome} (hr : invoke ok fresh (unpacked msg) list = some r)
    (hop : r.msg.opcode = opError)
    (hbad : r.list ≠ list ∨ (r.msg.nModels ≠ 0 ∧ r.msg.models = none) ∨
      (r.msg.nCars ≠ 0 ∧ r.msg.cars = none)) : ¬ RollsBack ok fresh msg list := by
  rintro ⟨r', hr', h⟩
  obtain rfl := Option.some.inj (hr.symm.trans hr')
  obtain ⟨hlist, hp⟩ := h hop
  rcases hbad with hne | ⟨hcount, hnull⟩ | ⟨hcount, hnull⟩
  · exact hne hlist
  · rcases hp.models with hzero | ⟨models, hm, _⟩
    · exact hcount hzero
    · rw [hnull] at hm
      cases hm
  · rcases hp.cars with hzero | ⟨cars, hm, _⟩
    · exact hcount hzero
    · rw [hnull] at hm
      cases hm

/-- Two cars, the later one first: the models counted without an array, the
cars likewise, the order of the list changed, and a slot freed that was never
written. -/
theorem twoCars_not_rolled_back :
    Reachable twoCars ∧
      ¬ RollsBack (failing 3) (fun _ => true) rlistGetModelListRequest twoCars ∧
      ¬ RollsBack (failing 1) (fun _ => true) (rlistGetByYearRequest 2010) twoCars ∧
      ¬ RollsBack (failing 0) (fun _ => true) (rlistGetByYearRequest (-1)) twoCars ∧
      ¬ RollsBack (failing 3) (fun _ => false) (rlistGetByYearRequest 2010) twoCars := by
  refine ⟨.invoke _ (.invoke _ .create), ?_, ?_, ?_, ?_⟩
  · have hr : invoke (failing 3) (fun _ => true) (unpacked rlistGetModelListRequest) twoCars =
        some ⟨⟨opError, ctNone, none, 0, 2, none, 0, none⟩, twoCars⟩ := by decide +kernel
    exact not_rollsBack hr rfl (Or.inr (Or.inl ⟨by decide, rfl⟩))
  · have hr : invoke (failing 1) (fun _ => true) (unpacked (rlistGetByYearRequest 2010)) twoCars =
        some ⟨⟨opError, ctNone, none, 2010, 0, none, 1, none⟩, twoCars⟩ := by decide +kernel
    exact not_rollsBack hr rfl (Or.inr (Or.inr ⟨by decide, rfl⟩))
  · have hr : invoke (failing 0) (fun _ => true) (unpacked (rlistGetByYearRequest (-1)))
        twoCars = some ⟨⟨opError, ctNone, none, -1, 0, none, 0, none⟩,
          listOrderByYear twoCars⟩ := by decide +kernel
    exact not_rollsBack hr rfl (Or.inl (by decide +kernel))
  · rintro ⟨r, hr, _⟩
    have hundefined : invoke (failing 3) (fun _ => false)
        (unpacked (rlistGetByYearRequest 2010)) twoCars = none := by decide +kernel
    rw [hundefined] at hr
    cases hr

end CarChain.Rollback
