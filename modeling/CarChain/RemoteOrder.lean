import CarChain.OrderByYear
import CarChain.Remote

/-!
# The remote ordering

`rlist_order_by_year` asks for a listing and leaves the result field at 0, where
`invoke` orders the list for -1 only.  The server lists the cars of year 0, and
neither form of that reply is of the type the stub accepts, so a call gives -1
and the list stays as it was, whatever it holds (`order_never_remote`).
-/

namespace CarChain.RemoteOrder
open CarChain.Record CarChain.Message CarChain.CarList CarChain.Skeleton CarChain.Lists
open CarChain.Stub CarChain.Transfer CarChain.Framing CarChain.Reads CarChain.OrderByYear
open CarChain.BubbleSort CarChain.Remote

def rlistOrderByYear (rlist : RlistT) : Option (Int × Cars) :=
  call rlist rlistOrderByYearRequest (-1) fun resp =>
    if (if resp.cType = ctResult then resp.result else -1) = 0 then 0 else -1

/-- The initial result is not the sentinel, so the server filters by year 0. -/
theorem invoke_orderByYear (list : Cars) :
    invoke rlistOrderByYearRequest list =
      ⟨0, replyListing rlistOrderByYearRequest (listGetByYear list 0), list⟩ := by
  simp [invoke, invokeGetListByTear, rlistOrderByYearRequest, messageTInit]

/-- A reply to a listing carries cars or nothing. -/
theorem replyListing_cType (msg : MessageT) (arr : Option (List DataT)) :
    (replyListing msg arr).cType ≠ ctResult := by
  cases arr with
  | none => simp [replyListing]
  | some cars => simp [replyListing]

theorem rlistOrderByYear_ideal (list : Cars) :
    rlistOrderByYear (ideal list) = some (-1, list) := by
  rw [rlistOrderByYear, call_ideal, invoke_orderByYear]
  dsimp only
  rw [if_neg (replyListing_cType _ _), if_neg (by decide)]

/-- A call whose exchange goes through. -/
theorem rlistOrderByYear_of_exchange {c : Codec} {list : Cars} {sched : Schedule}
    (hx : Exchanged c list rlistOrderByYearRequest) {r : Option MessageT × Cars}
    (hr : networkSendReceive c sched list rlistOrderByYearRequest = some r) :
    rlistOrderByYear (networkSendReceive c sched list) = some (-1, list) := by
  rw [← rlistOrderByYear_ideal list, rlistOrderByYear, rlistOrderByYear, call, call, hr,
    networkSendReceive_spec hx hr]
  rfl

theorem rlistOrderByYear_result {c : Codec} {list : Cars} {sched : Schedule}
    (hx : Exchanged c list rlistOrderByYearRequest) {r : Int × Cars}
    (hr : rlistOrderByYear (networkSendReceive c sched list) = some r) : r = (-1, list) := by
  cases hn : networkSendReceive c sched list rlistOrderByYearRequest with
  | none => simp [rlistOrderByYear, call, hn] at hr
  | some r' =>
    rw [rlistOrderByYear_of_exchange hx hn] at hr
    exact (Option.some.inj hr).symm

theorem rlistOrderByYear_returns {c : Codec} {list : Cars} {sched : Schedule}
    (hx : Exchanged c list rlistOrderByYearRequest)
    (he : Enough c list sched rlistOrderByYearRequest) :
    rlistOrderByYear (networkSendReceive c sched list) = some (-1, list) := by
  obtain ⟨r, hr⟩ := Option.isSome_iff_exists.mp (networkSendReceive_returns hx he)
  exact rlistOrderByYear_of_exchange hx hr

/-- The call says that the list is ordered, and it is. -/
def OrdersRemotely (c : Codec) (sched : Schedule) (list : Cars) : Prop :=
  ∃ after, rlistOrderByYear (networkSendReceive c sched list) = some (0, after) ∧
    after.size = list.size ∧ IsStableSort DataT.ano list.head after.head

theorem not_ordersRemotely {c : Codec} {list : Cars}
    (hx : Exchanged c list rlistOrderByYearRequest) (sched : Schedule) :
    ¬ OrdersRemotely c sched list := by
  rintro ⟨after, hafter, _⟩
  have heq : (0 : Int) = -1 := congrArg Prod.fst (rlistOrderByYear_result hx hafter)
  omega

/-- **The remote ordering orders no list**: it gives -1 and leaves the list as
it was, and it does return when there are calls enough. -/
theorem order_never_remote {c : Codec} {list : Cars}
    (hx : Exchanged c list rlistOrderByYearRequest) :
    (∀ sched, ¬ OrdersRemotely c sched list) ∧
      (∀ sched r, rlistOrderByYear (networkSendReceive c sched list) = some r →
        r = (-1, list)) ∧
      ∀ sched, Enough c list sched rlistOrderByYearRequest →
        rlistOrderByYear (networkSendReceive c sched list) = some (-1, list) :=
  ⟨not_ordersRemotely hx, fun _ _ => rlistOrderByYear_result hx,
    fun _ => rlistOrderByYear_returns hx⟩

theorem exchanged_twoCars : Exchanged protobuf twoCars rlistOrderByYearRequest :=
  ⟨⟨by decide +kernel, by decide +kernel⟩, by decide +kernel, by decide +kernel⟩

theorem enough_twoCars : Enough protobuf twoCars byteByByte rlistOrderByYearRequest :=
  ⟨by decide +kernel, by decide +kernel, by decide +kernel, by decide +kernel⟩

theorem order_never_remote_twoCars :
    rlistOrderByYear (networkSendReceive protobuf byteByByte twoCars) = some (-1, twoCars) :=
  (order_never_remote exchanged_twoCars).2.2 byteByByte enough_twoCars

/-- Two cars, the later one first, stay in that order. -/
theorem twoCars_not_ordered :
    Reachable twoCars ∧ Exchanged protobuf twoCars rlistOrderByYearRequest ∧
      Enough protobuf twoCars byteByByte rlistOrderByYearRequest ∧
      rlistOrderByYear (networkSendReceive protobuf byteByByte twoCars) = some (-1, twoCars) ∧
      (listOrderByYear twoCars).head ≠ twoCars.head ∧
      ¬ OrdersRemotely protobuf byteByByte twoCars :=
  ⟨.invoke _ (.invoke _ .create), exchanged_twoCars, enough_twoCars,
    rlistOrderByYear_returns exchanged_twoCars enough_twoCars, by decide +kernel,
    not_ordersRemotely exchanged_twoCars byteByByte⟩

end CarChain.RemoteOrder
