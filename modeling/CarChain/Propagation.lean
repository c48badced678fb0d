import CarChain.Handler

/-!
# A write along a chain

`handle_client` of the first server with every exchange down the chain
succeeding: each server executes the request it received and sends the rebuilt
one on.  The rebuilt request always has the content type its operation wants,
so a request the head refuses for its content type is executed by everyone
behind it (`Misread`).  On equal lists this is the only way a write leaves the
lists unequal (`write_keeps_equal_iff`).
-/

namespace CarChain.Propagation
open CarChain.Record CarChain.Message CarChain.CarList CarChain.Skeleton CarChain.Stub
open CarChain.Handler

/-- The lists and the reply after a request at the first of the servers that
hold `lists`, every exchange between them succeeding. -/
def handleChain : List Cars → MessageT → List Cars × MessageT
  | [], req => ([], req)
  | [list], req => ([(handleClient none req list).list], (handleClient none req list).reply)
  | list :: next :: rest, req =>
    let r := handleClient (some fun m => .reply (handleChain (next :: rest) m).2) req list
    match r.exchanged with
    | none => (r.list :: next :: rest, r.reply)
    | some (m, _) => (r.list :: (handleChain (next :: rest) m).1, r.reply)

/-- All lists are equal again, and a refusal by the head changes none. -/
def KeepsEqual (behind : Nat) (req : MessageT) (list : Cars) : Prop :=
  (∃ list', (handleChain (List.replicate (behind + 1) list) req).1 =
    List.replicate (behind + 1) list') ∧
  ((invoke req list).msg.opcode = opError →
    (handleChain (List.replicate (behind + 1) list) req).1 = List.replicate (behind + 1) list)

/-- The content type makes the head refuse a request that would have had an
effect under the content type `propagate_msg` gives it. -/
def Misread (req : MessageT) (list : Cars) : Prop :=
  (req.opcode = opAdd ∧ req.cType ≠ ctData ∧
    ∃ pd car, req.data = some pd ∧ createFrom pd = some car) ∨
  (req.opcode = opDel ∧ req.cType ≠ ctModel ∧
    ∃ model rest car, req.models = model :: rest ∧ firstOfModel model list.head = some car)

/-! ## What reaches the servers behind -/

theorem isWriteOp_propagateMsg {req : MessageT} (h : isWriteOp req = true) :
    isWriteOp (propagateMsg req) = true := by
  rcases (isWriteOp_iff req).mp h with h | h <;> simp [propagateMsg, h, isWriteOp]

theorem propagateMsg_idem (req : MessageT) :
    propagateMsg (propagateMsg req) = propagateMsg req := by
  by_cases ha : req.opcode = opAdd
  · simp [propagateMsg, ha]
  · by_cases hd : req.opcode = opDel
    · simp [propagateMsg, hd, List.take_take]
    · simp [propagateMsg, ha, hd, messageTInit]

/-- Every server behind the head executes the same rebuilt request. -/
theorem handleChain_lists {req : MessageT} (h : isWriteOp req = true) (list : Cars)
    (behind : Nat) :
    (handleChain (List.replicate (behind + 1) list) req).1 =
      (invoke req list).list ::
        List.replicate behind (invoke (propagateMsg req) list).list := by
  induction behind generalizing req with
  | zero => simp [handleChain, handleClient_none]
  | succ behind ih =>
    have hp := ih (isWriteOp_propagateMsg h)
    rw [propagateMsg_idem] at hp
    simp only [List.replicate_succ] at hp
    simp only [List.replicate_succ, handleChain, handleClient_some h, hp]

/-! ## Effect of a single write -/

theorem listAdd_ne (list : Cars) (car : DataT) : listAdd list car ≠ list := by
  intro h
  have := congrArg (fun l => l.head.length) h
  simp [listAdd] at this

/-- A removal changes the list exactly when some car has the model. -/
theorem listRemoveByModel_eq_iff (list : Cars) (model : CString) :
    (listRemoveByModel list model).2 = list ↔ firstOfModel model list.head = none := by
  unfold listRemoveByModel
  split
  · rename_i h
    simp [h, firstOfModel]
  · rw [← unlink_eq_none]
    cases hu : unlink model list.head with
    | none => simp
    | some rest =>
      obtain ⟨d, _, hp⟩ := unlink_perm hu
      simp only [reduceCtorEq, iff_false]
      intro h
      have hl := hp.length_eq
      rw [← h] at hl
      simp at hl

theorem invoke_error_list {req : MessageT} {list : Cars} (h : isWriteOp req = true)
    (he : (invoke req list).msg.opcode = opError) : (invoke req list).list = list := by
  rcases (isWriteOp_iff req).mp h with h | h
  · rw [invoke_add h] at he ⊢
    rcases invokeAdd_cases req list with hr | ⟨pd, car, _, _, _, hr⟩
    · rw [hr]; rfl
    · rw [hr] at he; simp at he
  · rw [invoke_del h] at he ⊢
    rcases invokeDel_cases req list with hr | ⟨model, rest, _, _, hr⟩
    · rw [hr]; rfl
    · rw [hr] at he; simp at he

/-- The head and the servers behind it do the same, unless the head misreads. -/
theorem invoke_propagateMsg_iff {req : MessageT} (h : isWriteOp req = true) (list : Cars) :
    (invoke (propagateMsg req) list).list = (invoke req list).list ↔ ¬ Misread req list := by
  rcases (isWriteOp_iff req).mp h with h | h
  · have hp : (propagateMsg req).opcode = opAdd := by simp [propagateMsg, h]
    rw [invoke_add h, invoke_add hp]
    by_cases hc : req.cType = ctData
    · have hm : ¬ Misread req list := by simp [Misread, h, hc]
      simp only [hm, not_false_eq_true, iff_true]
      simp only [invokeAdd, propagateMsg, h, hc]
      cases req.data with
      | none => simp
      | some pd => cases hcar : createFrom pd <;> simp [hcar]
    · cases hd : req.data with
      | none => simp [invokeAdd, propagateMsg, Misread, h, hc, hd]
      | some pd =>
        cases hcar : createFrom pd with
        | none => simp [invokeAdd, propagateMsg, Misread, h, hc, hd, hcar]
        | some car => simp [invokeAdd, propagateMsg, Misread, h, hc, hd, hcar, listAdd_ne]
  · have hp : (propagateMsg req).opcode = opDel := by simp [propagateMsg, h]
    rw [invoke_del h, invoke_del hp]
    by_cases hc : req.cType = ctModel
    · have hm : ¬ Misread req list := by simp [Misread, h, hc]
      simp only [hm, not_false_eq_true, iff_true]
      simp only [invokeDel, propagateMsg, h, hc]
      cases req.models <;> simp
    · cases hd : req.models with
      | nil => simp [invokeDel, propagateMsg, Misread, h, hc, hd]
      | cons model rest =>
        have he := listRemoveByModel_eq_iff list model
        cases hf : firstOfModel model list.head with
        | none => simp_all [invokeDel, propagateMsg, Misread]
        | some car => simp_all [invokeDel, propagateMsg, Misread]

/-! ## Equal lists stay equal -/

/-- **A write keeps equal lists equal** exactly when no server stands behind the
head or the head does not misread the request. -/
theorem write_keeps_equal_iff (behind : Nat) (req : MessageT) (list : Cars)
    (h : isWriteOp req = true) :
    KeepsEqual behind req list ↔ behind = 0 ∨ ¬ Misread req list := by
  rw [← invoke_propagateMsg_iff h]
  unfold KeepsEqual
  rw [handleChain_lists h, List.replicate_succ]
  constructor
  · rintro ⟨⟨list', hl⟩, _⟩
    rw [List.replicate_succ, List.cons.injEq] at hl
    obtain ⟨hhead, htail⟩ := hl
    cases behind with
    | zero => exact Or.inl rfl
    | succ n =>
      rw [List.replicate_succ, List.replicate_succ, List.cons.injEq] at htail
      exact Or.inr (htail.1.trans hhead.symm)
  · intro hb
    have heq : (invoke req list).list ::
        List.replicate behind (invoke (propagateMsg req) list).list =
        List.replicate (behind + 1) (invoke req list).list := by
      rcases hb with rfl | hb
      · rfl
      · rw [hb, List.replicate_succ]
    refine ⟨⟨_, heq⟩, fun he => ?_⟩
    rw [heq, invoke_error_list h he, List.replicate_succ]

/-- An `OP_ADD` with a car and the content type of no operation. -/
def untypedAdd : MessageT := { messageTInit with opcode := opAdd, data := some (toData sampleCar) }

/-- With its content type the same request keeps a chain of three equal. -/
theorem write_keeps_equal_typedAdd :
    KeepsEqual 2 { untypedAdd with cType := ctData } listCreate :=
  (write_keeps_equal_iff 2 _ _ (by decide)).mpr (Or.inr (by simp [Misread, untypedAdd]))

/-- The head refuses the request, the server behind it adds the car. -/
theorem not_keepsEqual_untypedAdd :
    ¬ ∀ (behind : Nat) (req : MessageT) (list : Cars), isWriteOp req = true →
      KeepsEqual behind req list := by
  intro hall
  have h := (hall 1 untypedAdd listCreate (by decide)).2 (by decide)
  revert h
  decide

end CarChain.Propagation
