import CarChain.CarList

/-!
# The skeleton

`invoke` of `list_skel.c`: a request is executed on the list and turned into
its reply in place, so every field the operation does not set comes back as it
was sent.  A refused request is marked by the opcode of the reply, never by the
return code, which is 0 for every message (`invoke_code`).  Allocations succeed.
-/

namespace CarChain.Skeleton
open CarChain.Record CarChain.Message CarChain.CarList

/-- What a call of `invoke` leaves: its return code, the message and the list. -/
structure InvokeResult where
  code : Int
  msg : MessageT
  list : Cars
  deriving DecidableEq

/-- The refusal every operation shares. -/
def replyError (msg : MessageT) : MessageT := { msg with opcode := opError, cType := ctNone }

def refuse (msg : MessageT) (list : Cars) : InvokeResult := ⟨0, replyError msg, list⟩

def invokeAdd (msg : MessageT) (list : Cars) : InvokeResult :=
  if msg.cType ≠ ctData then refuse msg list
  else
    match msg.data with
    | none => refuse msg list
    | some pd =>
      match createFrom pd with
      | none => refuse msg list
      | some car => ⟨0, { msg with opcode := opAdd + 1, cType := ctNone }, listAdd list car⟩

def invokeGet (msg : MessageT) (list : Cars) : InvokeResult :=
  if msg.cType ≠ ctMarca then refuse msg list
  else
    match listGetByMarca list msg.result with
    | none => refuse msg list
    | some found =>
      ⟨0, { msg with opcode := opGet + 1, cType := ctData, data := some (toData found) }, list⟩

def invokeDel (msg : MessageT) (list : Cars) : InvokeResult :=
  if msg.cType ≠ ctModel then refuse msg list
  else
    match msg.models with
    | [] => refuse msg list
    | model :: _ =>
      ⟨0, { msg with opcode := opDel + 1, cType := ctResult,
                     result := (listRemoveByModel list model).1 },
        (listRemoveByModel list model).2⟩

def invokeSize (msg : MessageT) (list : Cars) : InvokeResult :=
  if msg.cType ≠ ctNone then refuse msg list
  else ⟨0, { msg with opcode := opSize + 1, cType := ctResult, result := listSize list }, list⟩

def invokeGetModels (msg : MessageT) (list : Cars) : InvokeResult :=
  if msg.cType ≠ ctNone then refuse msg list
  else
    match listGetModelList list with
    | none => refuse msg list
    | some models =>
      ⟨0, { msg with opcode := opGetModels + 1, cType := ctModel, models := models }, list⟩

/-- The reply of a listing, whose cars are `arr` (NULL when there are none). -/
def replyListing (msg : MessageT) (arr : Option (List DataT)) : MessageT :=
  match arr with
  | none => replyError msg
  | some cars =>
    { msg with opcode := opGetListByTear + 1, cType := ctList, cars := cars.map toData }

/-- A listing of year -1 orders the list first and returns all of it. -/
def invokeGetListByTear (msg : MessageT) (list : Cars) : InvokeResult :=
  if msg.cType ≠ ctResult then refuse msg list
  else if msg.result = -1 then
    ⟨0, replyListing msg (listGetAll (listOrderByYear list)), listOrderByYear list⟩
  else ⟨0, replyListing msg (listGetByYear list msg.result), list⟩

def invoke (msg : MessageT) (list : Cars) : InvokeResult :=
  if msg.opcode = opAdd then invokeAdd msg list
  else if msg.opcode = opGet then invokeGet msg list
  else if msg.opcode = opDel then invokeDel msg list
  else if msg.opcode = opSize then invokeSize msg list
  else if msg.opcode = opGetModels then invokeGetModels msg list
  else if msg.opcode = opGetListByTear then invokeGetListByTear msg list
  else refuse msg list

/-! ## One operation at a time -/

@[simp] theorem refuse_code (msg : MessageT) (list : Cars) : (refuse msg list).code = 0 := rfl
@[simp] theorem refuse_msg (msg : MessageT) (list : Cars) :
    (refuse msg list).msg = replyError msg := rfl
@[simp] theorem refuse_list (msg : MessageT) (list : Cars) : (refuse msg list).list = list := rfl
@[simp] theorem replyError_opcode (msg : MessageT) : (replyError msg).opcode = opError := rfl
@[simp] theorem replyError_cType (msg : MessageT) : (replyError msg).cType = ctNone := rfl
@[simp] theorem replyError_replyError (msg : MessageT) :
    replyError (replyError msg) = replyError msg := rfl

/-- The two outcomes of an `OP_ADD`, whichever list it is executed on. -/
theorem invokeAdd_outcome (msg : MessageT) :
    (∀ list, invokeAdd msg list = refuse msg list) ∨
      ∃ pd car, msg.cType = ctData ∧ msg.data = some pd ∧ createFrom pd = some car ∧
        ∀ list, invokeAdd msg list =
          ⟨0, { msg with opcode := opAdd + 1, cType := ctNone }, listAdd list car⟩ := by
  unfold invokeAdd
  split
  · exact Or.inl fun _ => rfl
  · rename_i hc
    split
    · exact Or.inl fun _ => rfl
    · rename_i pd hd
      split
      · exact Or.inl fun _ => rfl
      · rename_i car hcar
        exact Or.inr ⟨pd, car, not_not.mp hc, hd, hcar, fun _ => rfl⟩

theorem invokeAdd_cases (msg : MessageT) (list : Cars) :
    invokeAdd msg list = refuse msg list ∨
      ∃ pd car, msg.cType = ctData ∧ msg.data = some pd ∧ createFrom pd = some car ∧
        invokeAdd msg list =
          ⟨0, { msg with opcode := opAdd + 1, cType := ctNone }, listAdd list car⟩ := by
  rcases invokeAdd_outcome msg with hr | ⟨pd, car, hc, hd, hcar, hr⟩
  · exact Or.inl (hr list)
  · exact Or.inr ⟨pd, car, hc, hd, hcar, hr list⟩

/-- The two outcomes of an `OP_DEL`, whichever list it is executed on. -/
theorem invokeDel_outcome (msg : MessageT) :
    (∀ list, invokeDel msg list = refuse msg list) ∨
      ∃ model rest, msg.cType = ctModel ∧ msg.models = model :: rest ∧
        ∀ list, invokeDel msg list =
          ⟨0, { msg with opcode := opDel + 1, cType := ctResult,
                         result := (listRemoveByModel list model).1 },
            (listRemoveByModel list model).2⟩ := by
  unfold invokeDel
  split
  · exact Or.inl fun _ => rfl
  · rename_i hc
    split
    · exact Or.inl fun _ => rfl
    · rename_i model rest hm
      exact Or.inr ⟨model, rest, not_not.mp hc, hm, fun _ => rfl⟩

theorem invokeDel_cases (msg : MessageT) (list : Cars) :
    invokeDel msg list = refuse msg list ∨
      ∃ model rest, msg.cType = ctModel ∧ msg.models = model :: rest ∧
        invokeDel msg list =
          ⟨0, { msg with opcode := opDel + 1, cType := ctResult,
                         result := (listRemoveByModel list model).1 },
            (listRemoveByModel list model).2⟩ := by
  rcases invokeDel_outcome msg with hr | ⟨model, rest, hc, hm, hr⟩
  · exact Or.inl (hr list)
  · exact Or.inr ⟨model, rest, hc, hm, hr list⟩

theorem invoke_add {msg : MessageT} (h : msg.opcode = opAdd) (list : Cars) :
    invoke msg list = invokeAdd msg list := by simp [invoke, h]

theorem invoke_del {msg : MessageT} (h : msg.opcode = opDel) (list : Cars) :
    invoke msg list = invokeDel msg list := by simp [invoke, h]

/-! ## Facts about every message -/

/-- The return code never tells a refused request from an executed one. -/
theorem invoke_code (msg : MessageT) (list : Cars) : (invoke msg list).code = 0 := by
  unfold invoke invokeAdd invokeGet invokeDel invokeSize invokeGetModels invokeGetListByTear
  repeat' split
  all_goals rfl

/-- Only a listing of year -1 touches the list outside `OP_ADD` and `OP_DEL`. -/
theorem invoke_list_of_read {msg : MessageT} (ha : msg.opcode ≠ opAdd) (hd : msg.opcode ≠ opDel)
    (list : Cars) :
    (invoke msg list).list = list ∨
      (msg.opcode = opGetListByTear ∧ msg.result = -1 ∧
        (invoke msg list).list = listOrderByYear list) := by
  unfold invoke
  rw [if_neg ha, if_neg hd]
  unfold invokeGet invokeSize invokeGetModels invokeGetListByTear
  repeat' split
  all_goals simp_all

/-- A reply marked `OP_ERROR` is the request with that mark and nothing else. -/
theorem invoke_error {msg : MessageT} {list : Cars} (h : (invoke msg list).msg.opcode = opError) :
    (invoke msg list).msg = replyError msg := by
  revert h
  unfold invoke invokeAdd invokeGet invokeDel invokeSize invokeGetModels invokeGetListByTear
    replyListing
  repeat' split
  all_goals simp

end CarChain.Skeleton
