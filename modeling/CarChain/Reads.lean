import CarChain.Lib.Inserted
import CarChain.Lists
import CarChain.Stub

/-!
# What reads leave alone

A read may only touch the list by ordering it, which a listing of year -1 does
on purpose.  Reads that are inserted into a sequence of requests therefore
change no reply and no list, as long as such a listing finds the cars in order
(`reads_keep_replies`); when it does not, a later request for the first car of
a brand is answered with another one (`listing_changes_reply`).
-/

namespace CarChain.Reads
open CarChain.Record CarChain.Message CarChain.CarList CarChain.Skeleton CarChain.Lists
open CarChain.Stub CarChain.Inserted

def IsRead (msg : MessageT) : Prop :=
  msg.opcode = opGet ∨ msg.opcode = opSize ∨ msg.opcode = opGetModels ∨
    msg.opcode = opGetListByTear

/-- The listing that orders the list first. -/
def OrdersAll (msg : MessageT) : Prop :=
  msg.opcode = opGetListByTear ∧ msg.cType = ctResult ∧ msg.result = -1

def InYearOrder (list : Cars) : Prop := list.head.Pairwise fun a b => a.ano ≤ b.ano

/-- A request answered by the server: the reply and the list. -/
def answer (msg : MessageT) (list : Cars) : MessageT × Cars :=
  ((invoke msg list).msg, (invoke msg list).list)

theorem listOrderByYear_of_inYearOrder {list : Cars} (h : InYearOrder list) :
    listOrderByYear list = list := orderByYear_of_sorted DataT.ano h

/-- A read leaves the list alone unless it has to order it. -/
theorem invoke_list_of_isRead {msg : MessageT} (h : IsRead msg) {list : Cars}
    (ho : OrdersAll msg → InYearOrder list) : (invoke msg list).list = list := by
  have ha : msg.opcode ≠ opAdd := by rcases h with h | h | h | h <;> simp [h]
  have hd : msg.opcode ≠ opDel := by rcases h with h | h | h | h <;> simp [h]
  rcases invoke_list_of_read ha hd list with hl | ⟨hop, hres, hl⟩
  · exact hl
  · by_cases hc : msg.cType = ctResult
    · rw [hl]
      exact listOrderByYear_of_inYearOrder (ho ⟨hop, hc, hres⟩)
    · have hrefused : invoke msg list = refuse msg list := by
        simp [invoke, hop, invokeGetListByTear, hc]
      rw [hrefused, refuse_list]

/-- **Reads do not interfere**, but for a listing that orders the list. -/
theorem reads_keep_replies {list : Cars} {reqs : List (Marked MessageT)}
    (hr : ∀ msg, .inserted msg ∈ reqs → IsRead msg)
    (ho : ∀ before msg after, reqs = before ++ .inserted msg :: after → OrdersAll msg →
      InYearOrder (observed answer before list).2) :
    observed answer reqs list = run answer (originals reqs) list := by
  apply observed_eq_run
  intro before msg after heq
  have hread : IsRead msg := hr msg (by rw [heq]; simp)
  exact invoke_list_of_isRead hread (ho before msg after heq)

def laterCar : DataT := ⟨2020, 0, 1, some (cString [97]), 1⟩
def earlierCar : DataT := ⟨2010, 0, 1, some (cString [98]), 1⟩

/-- Two cars of one brand, the later one first. -/
def twoCars : Cars :=
  (invoke (rlistAddRequest earlierCar) (invoke (rlistAddRequest laterCar) listCreate).list).list

/-- A listing of year -1 on the cars in order, which an earlier one left. -/
theorem reads_keep_replies_twoCars :
    observed answer [.inserted (rlistGetByYearRequest (-1)), .kept (rlistGetByMarcaRequest 1)]
        (invoke (rlistGetByYearRequest (-1)) twoCars).list =
      run answer [rlistGetByMarcaRequest 1] (invoke (rlistGetByYearRequest (-1)) twoCars).list := by
  refine reads_keep_replies (by simp [IsRead, rlistGetByYearRequest]) ?_
  intro before msg after heq _
  cases before with
  | nil =>
    show InYearOrder (invoke (rlistGetByYearRequest (-1)) twoCars).list
    unfold InYearOrder
    decide +kernel
  | cons first before =>
    -- the other request is a kept one
    have hmem : Marked.inserted msg ∈ [Marked.kept (rlistGetByMarcaRequest 1)] := by
      rw [(List.cons.inj heq).2]
      simp
    simp at hmem

/-- A listing of year -1 before `OP_GET` of the brand: the reply is the other
car, and the list another one. -/
theorem listing_changes_reply :
    Reachable twoCars ∧
      ∃ reqs : List (Marked MessageT), (∀ msg, .inserted msg ∈ reqs → IsRead msg) ∧
        (observed answer reqs twoCars).1 ≠ (run answer (originals reqs) twoCars).1 ∧
        (observed answer reqs twoCars).2 ≠ (run answer (originals reqs) twoCars).2 := by
  refine ⟨.invoke _ (.invoke _ .create),
    [.inserted (rlistGetByYearRequest (-1)), .kept (rlistGetByMarcaRequest 1)], ?_, ?_, ?_⟩
  · simp [IsRead, rlistGetByYearRequest]
  · decide +kernel
  · decide +kernel

end CarChain.Reads
