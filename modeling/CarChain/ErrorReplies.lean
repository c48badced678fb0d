import CarChain.Lists
import CarChain.Propagation

/-!
# What an error reply says

`handle_client` executes a write before it asks the successor and turns any
failure of that exchange into `OP_ERROR`.  The client of a valid write can
conclude from such a reply that nothing was done only when the exchange did not
fail or there was nothing to remove (`error_means_no_effect_iff`); otherwise a
retry does it twice (`retried_add_applied_twice`).
-/

namespace CarChain.ErrorReplies
open CarChain.Record CarChain.Message CarChain.CarList CarChain.Skeleton CarChain.Lists
open CarChain.Stub CarChain.Handler CarChain.Propagation

/-- The writes every server executes. -/
inductive ValidWrite (req : MessageT) : Prop
  | add {pd : Data} {car : DataT} (opcode : req.opcode = opAdd) (cType : req.cType = ctData)
      (data : req.data = some pd) (created : createFrom pd = some car)
  | del {model : CString} {rest : List CString} (opcode : req.opcode = opDel)
      (cType : req.cType = ctModel) (models : req.models = model :: rest)

/-- After an error reply the list is as it was. -/
def ErrorMeansNoEffect (successor : Option (MessageT → Exchange)) (req : MessageT)
    (list : Cars) : Prop :=
  (handleClient successor req list).reply.opcode = opError →
    (handleClient successor req list).list = list

/-- The successor, if there is one, is sent the write and answers it well. -/
def ExchangeSucceeds (successor : Option (MessageT → Exchange)) (req : MessageT) : Prop :=
  ∀ exchange ∈ successor,
    ∃ resp, exchange (propagateMsg req) = .reply resp ∧ resp.opcode ≠ opError

/-- A removal of a model that no car has. -/
def NothingToRemove (req : MessageT) (list : Cars) : Prop :=
  req.opcode = opDel ∧ ∀ model ∈ req.models.head?, ∀ d ∈ list.head, d.modelo ≠ some model

theorem ValidWrite.isWriteOp {req : MessageT} (h : ValidWrite req) : isWriteOp req = true := by
  rw [isWriteOp_iff]
  cases h with
  | add opcode _ _ _ => exact Or.inl opcode
  | del opcode _ _ => exact Or.inr opcode

/-- A valid write is not refused. -/
theorem ValidWrite.accepted {req : MessageT} (h : ValidWrite req) (list : Cars) :
    (invoke req list).msg.opcode ≠ opError := by
  cases h with
  | add opcode cType data created =>
    rw [invoke_add opcode]
    simp [invokeAdd, cType, data, created]
  | del opcode cType models =>
    rw [invoke_del opcode]
    simp [invokeDel, cType, models]

/-- It changes the list unless there is nothing to remove. -/
theorem ValidWrite.list_eq_iff {req : MessageT} (h : ValidWrite req) (list : Cars) :
    (invoke req list).list = list ↔ NothingToRemove req list := by
  cases h with
  | @add pd car opcode cType data created =>
    have hadd : (invoke req list).list = listAdd list car := by
      rw [invoke_add opcode]
      simp [invokeAdd, cType, data, created]
    rw [hadd]
    exact iff_of_false (listAdd_ne list _) fun hn => by simp [NothingToRemove, opcode] at hn
  | @del model rest opcode cType models =>
    have hdel : (invoke req list).list = (listRemoveByModel list model).2 := by
      rw [invoke_del opcode]
      simp [invokeDel, cType, models]
    rw [hdel, listRemoveByModel_eq_iff]
    simp [NothingToRemove, opcode, models, firstOfModel]

/-- The reply to a write with a successor says `OP_ERROR` exactly when the
exchange failed. -/
theorem ValidWrite.reply_iff {req : MessageT} (h : ValidWrite req)
    (successor : Option (MessageT → Exchange)) (list : Cars) :
    (handleClient successor req list).reply.opcode ≠ opError ↔ ExchangeSucceeds successor req := by
  cases successor with
  | none =>
    rw [handleClient_none]
    exact iff_of_true (h.accepted list) fun _ hmem => by cases hmem
  | some exchange =>
    rw [handleClient_some h.isWriteOp]
    dsimp only
    constructor
    · intro hreply exchange' hmem
      cases hmem
      cases he : exchange (propagateMsg req) with
      | sendFailed => simp [he, afterExchange] at hreply
      | noReply => simp [he, afterExchange] at hreply
      | reply resp =>
        rw [he] at hreply
        exact ⟨resp, rfl, ((afterExchange_reply_ok _ _).mp hreply).2⟩
    · intro hs
      obtain ⟨resp, he, hresp⟩ := hs exchange rfl
      rw [he, afterExchange_reply_ok]
      exact ⟨h.accepted list, hresp⟩

/-- **An error reply to a valid write means no effect** exactly when the exchange
with the successor does not fail or there is nothing to remove. -/
theorem error_means_no_effect_iff {req : MessageT} (h : ValidWrite req)
    (successor : Option (MessageT → Exchange)) (list : Cars) :
    ErrorMeansNoEffect successor req list ↔
      ExchangeSucceeds successor req ∨ NothingToRemove req list := by
  unfold ErrorMeansNoEffect
  rw [handleClient_list, h.list_eq_iff]
  constructor
  · intro hno
    by_cases hs : ExchangeSucceeds successor req
    · exact Or.inl hs
    · have herror : (handleClient successor req list).reply.opcode = opError :=
        not_not.mp fun hreply => hs ((h.reply_iff successor list).mp hreply)
      exact Or.inr (hno herror)
  · rintro (hs | hn) herror
    · exact absurd herror ((h.reply_iff successor list).mpr hs)
    · exact hn

theorem validWrite_sampleAdd : ValidWrite (rlistAddRequest sampleCar) :=
  .add rfl rfl rfl rfl

/-- Two removals on a list of one car, with an exchange that fails: the model of
the car, and another one. -/
theorem error_means_no_effect_iff_oneCar :
    ¬ErrorMeansNoEffect (some fun _ => .noReply) (rlistRemoveByModelRequest (cString [109, 49]))
        (listAdd listCreate sampleCar) ∧
      ErrorMeansNoEffect (some fun _ => .noReply) (rlistRemoveByModelRequest (cString [109, 50]))
        (listAdd listCreate sampleCar) := by
  constructor
  · rw [error_means_no_effect_iff (.del rfl rfl rfl)]
    rintro (hs | ⟨_, hn⟩)
    · obtain ⟨resp, hresp, _⟩ := hs _ rfl
      cases hresp
    · exact hn (cString [109, 49]) rfl sampleCar (by decide) rfl
  · rw [error_means_no_effect_iff (.del rfl rfl rfl)]
    refine Or.inr ⟨rfl, ?_⟩
    rintro model ⟨⟩ d hd
    rw [List.mem_singleton.mp hd]
    decide

/-- An add whose exchange fails is answered with `OP_ERROR` and kept, and the
client that retries it has two cars. -/
theorem retried_add_applied_twice :
    Reachable listCreate ∧ ValidWrite (rlistAddRequest sampleCar) ∧
      ¬ErrorMeansNoEffect (some fun _ => .noReply) (rlistAddRequest sampleCar) listCreate ∧
      (handleClient none (rlistAddRequest sampleCar)
        (handleClient (some fun _ => .noReply) (rlistAddRequest sampleCar) listCreate).list
        ).list.head = [sampleCar, sampleCar] := by
  refine ⟨.create, validWrite_sampleAdd, ?_, rfl⟩
  intro hno
  have hlist := hno rfl
  revert hlist
  decide +kernel

end CarChain.ErrorReplies
