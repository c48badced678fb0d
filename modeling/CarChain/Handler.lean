import CarChain.Stub

/-!
# One iteration of `handle_client`

What a handler does with one received request: `invoke` on its own list, for a
write one exchange with the successor, and the reply.  The message sent on is
rebuilt before `invoke` from the opcode, the car and the first model of the
request (`propagateMsg`); for a request of the stubs it is the request itself
(`propagateMsg_of_stubWrite`).
-/

namespace CarChain.Handler
open CarChain.Record CarChain.Message CarChain.CarList CarChain.Skeleton CarChain.Stub

/-- `UINT16_MAX`, the longest payload of a frame. -/
@[reducible] def uint16Max : Nat := 65535

def isWriteOp (req : MessageT) : Bool := req.opcode = opAdd || req.opcode = opDel

/-- `propagate_msg`, filled in before `invoke`. -/
def propagateMsg (req : MessageT) : MessageT :=
  if req.opcode = opAdd then
    { messageTInit with opcode := opAdd, cType := ctData, data := req.data }
  else if req.opcode = opDel then
    { messageTInit with opcode := opDel, cType := ctModel, models := req.models.take 1 }
  else messageTInit

/-- How the exchange with the successor goes. -/
inductive Exchange
  | sendFailed
  | noReply
  | reply (resp : MessageT)

/-- The reply after the exchange: any failure turns it into a refusal. -/
def afterExchange (req : MessageT) : Exchange → MessageT
  | .sendFailed => replyError req
  | .noReply => replyError req
  | .reply resp => if resp.opcode = opError then replyError req else req

/-- The reply right after `invoke`, and whether the successor is asked next. -/
def afterInvoke (req : MessageT) (r : InvokeResult) : MessageT × Bool :=
  if r.code < 0 then (replyError r.msg, false) else (r.msg, isWriteOp req)

/-- What one iteration leaves: the list, the reply, and the propagated message
with its exchange when there was one. -/
structure Handled where
  list : Cars
  reply : MessageT
  exchanged : Option (MessageT × Exchange)

/-- One iteration; `successor` is `g_successor` seen as the exchange it gives. -/
def handleClient (successor : Option (MessageT → Exchange)) (req : MessageT) (list : Cars) :
    Handled :=
  let r := invoke req list
  if r.code < 0 then ⟨r.list, replyError r.msg, none⟩
  else if isWriteOp req then
    match successor with
    | none => ⟨r.list, r.msg, none⟩
    | some exchange =>
      let msg := propagateMsg req
      ⟨r.list, afterExchange r.msg (exchange msg), some (msg, exchange msg)⟩
  else ⟨r.list, r.msg, none⟩

/-! ## The list and the reply of an iteration -/

/-- The list is the one `invoke` leaves, whatever becomes of the exchange. -/
theorem handleClient_list (successor : Option (MessageT → Exchange)) (req : MessageT)
    (list : Cars) : (handleClient successor req list).list = (invoke req list).list := by
  unfold handleClient
  dsimp only
  split
  · rfl
  · split
    · cases successor <;> rfl
    · rfl

theorem handleClient_none (req : MessageT) (list : Cars) :
    handleClient none req list = ⟨(invoke req list).list, (invoke req list).msg, none⟩ := by
  simp [handleClient, invoke_code]

theorem handleClient_some {req : MessageT} (hw : isWriteOp req = true)
    (exchange : MessageT → Exchange) (list : Cars) :
    handleClient (some exchange) req list =
      ⟨(invoke req list).list, afterExchange (invoke req list).msg (exchange (propagateMsg req)),
        some (propagateMsg req, exchange (propagateMsg req))⟩ := by
  simp [handleClient, invoke_code, hw]

/-- `invoke` never fails, so every write goes on to the successor. -/
@[simp] theorem afterInvoke_invoke (req : MessageT) (list : Cars) :
    afterInvoke req (invoke req list) = ((invoke req list).msg, isWriteOp req) := by
  simp [afterInvoke, invoke_code]

/-- A good outcome needs a good reply of the server and of its successor. -/
theorem afterExchange_reply_ok (req resp : MessageT) :
    (afterExchange req (.reply resp)).opcode ≠ opError ↔
      req.opcode ≠ opError ∧ resp.opcode ≠ opError := by
  unfold afterExchange
  dsimp only
  split
  · rename_i h
    simp [h]
  · rename_i h
    simp [h]

theorem isWriteOp_iff (req : MessageT) :
    isWriteOp req = true ↔ req.opcode = opAdd ∨ req.opcode = opDel := by simp [isWriteOp]

/-! ## Requests of the stubs -/

theorem isWriteOp_of_stubWrite {m : MessageT} (h : StubWrite m) : isWriteOp m = true := by
  cases h <;> rfl

theorem isWriteOp_of_stubRead {m : MessageT} (h : StubRead m) : isWriteOp m = false := by
  cases h <;> rfl

/-- The successor is sent the very request the client sent. -/
theorem propagateMsg_of_stubWrite {m : MessageT} (h : StubWrite m) : propagateMsg m = m := by
  cases h <;> rfl

end CarChain.Handler
