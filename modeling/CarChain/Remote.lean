import CarChain.Answering

/-!
# The remote list

The functions of `client_stub.c` on a connection to a single server: a stub
builds its request, `network_send_receive` writes it and waits, an iteration of
`handle_client` with no successor answers it, and the stub turns the reply into
what it returns.  A call that goes through gives what the local operation of
`list.c` gives and leaves the server the same list (`remote_refines_local`).
-/

namespace CarChain.Remote
open CarChain.Record CarChain.Message CarChain.CarList CarChain.Skeleton CarChain.Lists
open CarChain.Stub CarChain.Handler CarChain.Transfer CarChain.Framing CarChain.Answering

/-! ## `network_send_receive` -/

/-- The half that writes: the size is not checked, only cut to 16 bits. -/
def sendRequest (c : Codec) (calls : List Call) (msg : MessageT) : Option Sent :=
  let buffer := c.pack msg
  match writeAll calls (htons buffer.length) with
  | none => none
  | some size =>
    if size.ok = false then some ⟨-1, size.got, size.calls⟩
    else
      match writeAll size.calls buffer with
      | none => none
      | some written =>
        if written.ok = false then some ⟨-1, size.got ++ written.got, written.calls⟩
        else some ⟨0, size.got ++ written.got, written.calls⟩

/-- The half that reads is that of the server. -/
def receiveResponse (c : Codec) (calls : List Call) (stream : List UInt8) : Option Received :=
  networkReceive c calls stream

/-- The calls of one exchange: the client's for the request, the server's, and
the client's for the reply. -/
structure Schedule where
  requestWrites : List Call
  requestReads : List Call
  replyWrites : List Call
  replyReads : List Call

/-- What the client receives and the list the server is left with; `none` while
the client waits, which it does for ever when the connection stays open and
nothing is written on it. -/
def networkSendReceive (c : Codec) (sched : Schedule) (list : Cars) (msg : MessageT) :
    Option (Option MessageT × Cars) :=
  match sendRequest c sched.requestWrites msg with
  | none => none
  | some sent =>
    if sent.code = -1 then some (none, list)
    else
      match iteration c sched.requestReads sched.replyWrites none sent.bytes list with
      | none => none
      | some it =>
        if it.ended = false ∧ it.written = [] then none
        else (receiveResponse c sched.replyReads it.written).map fun received =>
          (received.msg, it.list)

/-! ## The stubs -/

/-- An array that ends with NULL. -/
def nullTerminated {α : Type} (l : List α) : List (Option α) := l.map some ++ [none]

/-- What a stub returns. -/
inductive Returned
  | int (n : Int)
  | car (data : Option DataT)
  | cars (array : Option (List (Option DataT)))
  | models (array : Option (List (Option CString)))

/-- The operations of the remote list, with arguments that may be NULL. -/
inductive Operation
  | add (car : Option DataT)
  | removeByModel (modelo : Option CString)
  | getByMarca (marca : Int)
  | getByYear (ano : Int)
  | size
  | getModelList

/-- A connection is seen as the exchange it gives. -/
abbrev RlistT := MessageT → Option (Option MessageT × Cars)

/-- A stub sends its request and returns `failed` for a NULL reply, else what it
reads off the reply. -/
def call {β : Type} (rlist : RlistT) (req : MessageT) (failed : β) (read : MessageT → β) :
    Option (β × Cars) :=
  (rlist req).map fun r => ((r.1.map read).getD failed, r.2)

def rlistAdd (rlist : RlistT) (list : Cars) (car : Option DataT) : Option (Int × Cars) :=
  match car with
  | none => some (-1, list)
  | some car =>
    call rlist (rlistAddRequest car) (-1) fun resp => if resp.opcode = opAdd + 1 then 0 else -1

def rlistRemoveByModel (rlist : RlistT) (list : Cars) (modelo : Option CString) :
    Option (Int × Cars) :=
  match modelo with
  | none => some (-1, list)
  | some modelo =>
    call rlist (rlistRemoveByModelRequest modelo) (-1) fun resp =>
      if resp.cType = ctResult then resp.result else -1

def rlistGetByMarca (rlist : RlistT) (marca : Int) : Option (Option DataT × Cars) :=
  call rlist (rlistGetByMarcaRequest marca) none fun resp =>
    if resp.cType = ctData then resp.data.bind createFrom else none

/-- The cars are made again by `data_create`; the array has a NULL where that fails. -/
def rlistGetByYear (rlist : RlistT) (ano : Int) : Option (Option (List (Option DataT)) × Cars) :=
  call rlist (rlistGetByYearRequest ano) none fun resp =>
    if resp.cType = ctList ∧ resp.cars ≠ [] then some (resp.cars.map createFrom ++ [none])
    else none

def rlistSize (rlist : RlistT) : Option (Int × Cars) :=
  call rlist rlistSizeRequest (-1) fun resp => if resp.cType = ctResult then resp.result else -1

def rlistGetModelList (rlist : RlistT) : Option (Option (List (Option CString)) × Cars) :=
  call rlist rlistGetModelListRequest none fun resp =>
    if resp.cType = ctModel ∧ resp.models ≠ [] then some (nullTerminated resp.models) else none

/-- The request an operation sends, if it sends one. -/
def request : Operation → Option MessageT
  | .add car => car.map rlistAddRequest
  | .removeByModel modelo => modelo.map rlistRemoveByModelRequest
  | .getByMarca marca => some (rlistGetByMarcaRequest marca)
  | .getByYear ano => some (rlistGetByYearRequest ano)
  | .size => some rlistSizeRequest
  | .getModelList => some rlistGetModelListRequest

/-- A call of a stub: what it returns and the list of the server after it. -/
def remote (rlist : RlistT) (list : Cars) : Operation → Option (Returned × Cars)
  | .add car => (rlistAdd rlist list car).map (Prod.map .int id)
  | .removeByModel modelo => (rlistRemoveByModel rlist list modelo).map (Prod.map .int id)
  | .getByMarca marca => (rlistGetByMarca rlist marca).map (Prod.map .car id)
  | .getByYear ano => (rlistGetByYear rlist ano).map (Prod.map .cars id)
  | .size => (rlistSize rlist).map (Prod.map .int id)
  | .getModelList => (rlistGetModelList rlist).map (Prod.map .models id)

/-! ## The local list -/

/-- `list_add` of a copy, which is NULL when `data_dup` fails. -/
def addCopy (list : Cars) (car : Option DataT) : Int × Cars :=
  match car.bind dataDup with
  | none => (-1, list)
  | some copy => (0, listAdd list copy)

/-- The operation of `list.c` an operation of the remote list stands for. -/
def localCall (list : Cars) : Operation → Returned × Cars
  | .add car => (.int (addCopy list car).1, (addCopy list car).2)
  | .removeByModel none => (.int (-1), list)
  | .removeByModel (some modelo) =>
    (.int (listRemoveByModel list modelo).1, (listRemoveByModel list modelo).2)
  | .getByMarca marca => (.car (listGetByMarca list marca), list)
  | .getByYear ano =>
    if ano = -1 then
      (.cars ((listGetAll (listOrderByYear list)).map nullTerminated), listOrderByYear list)
    else (.cars ((listGetByYear list ano).map nullTerminated), list)
  | .size => (.int (listSize list), list)
  | .getModelList => (.models ((listGetModelList list).map nullTerminated), list)

/-! ## One exchange -/

/-- The request and its reply can be carried. -/
structure Exchanged (c : Codec) (list : Cars) (req : MessageT) : Prop where
  request : Carried c req
  reply : Carried c (invoke req list).msg

/-- There are calls enough on both sides. -/
structure Enough (c : Codec) (list : Cars) (sched : Schedule) (req : MessageT) : Prop where
  requestWrites : (frame c req).length ≤ transfers sched.requestWrites
  requestReads : (frame c req).length ≤ transfers sched.requestReads
  replyWrites : (frame c (invoke req list).msg).length ≤ transfers sched.replyWrites
  replyReads : (frame c (invoke req list).msg).length ≤ transfers sched.replyReads

theorem sendRequest_spec {c : Codec} {calls : List Call} {msg : MessageT} {sent : Sent}
    (h : sendRequest c calls msg = some sent) : sent.code = 0 ∧ sent.bytes = frame c msg := by
  unfold sendRequest at h
  dsimp only at h
  split at h
  · cases h
  · rename_i size hsize
    obtain ⟨hok, hgot, _⟩ := writeAll_spec hsize
    rw [hok, if_neg (by simp)] at h
    split at h
    · cases h
    · rename_i written hw
      obtain ⟨hok', hgot', _⟩ := writeAll_spec hw
      rw [hok', if_neg (by simp)] at h
      cases h
      exact ⟨rfl, by rw [hgot, hgot']; rfl⟩

theorem sendRequest_returns {c : Codec} {calls : List Call} {msg : MessageT}
    (h : (frame c msg).length ≤ transfers calls) : (sendRequest c calls msg).isSome = true := by
  rw [frame_length] at h
  have hsize : (writeAll calls (htons (c.pack msg).length)).isSome = true :=
    writeAll_returns (by rw [htons_length]; omega)
  obtain ⟨size, hsize⟩ := Option.isSome_iff_exists.mp hsize
  obtain ⟨hok, _, hcalls⟩ := writeAll_spec hsize
  rw [htons_length] at hcalls
  have hw : (writeAll size.calls (c.pack msg)).isSome = true := writeAll_returns (by omega)
  obtain ⟨written, hw⟩ := Option.isSome_iff_exists.mp hw
  unfold sendRequest
  dsimp only
  rw [hsize]
  dsimp only
  rw [hok, if_neg (by simp), hw]
  dsimp only
  split <;> rfl

/-- An iteration that got one carried request, at a server without successor. -/
theorem iteration_frame {c : Codec} {list : Cars} {req : MessageT} (h : Carried c req)
    {reads : List Call} {received : Received}
    (hr : networkReceive c reads (frame c req) = some received) (writes : List Call) :
    iteration c reads writes none (frame c req) list =
      (networkSend c writes (invoke req list).msg).map fun sent =>
        ⟨(invoke req list).list, sent.bytes, [], false⟩ := by
  rw [← List.append_nil (frame c req)] at hr
  obtain ⟨hmsg, hrest, _⟩ := networkReceive_spec h.fits hr
  rw [List.append_nil] at hr
  rw [h.undoes] at hmsg
  unfold iteration
  rw [hr]
  dsimp only
  rw [hmsg, hrest]
  dsimp only [handleRequest]
  rw [handleClient_none]

/-- The client gets the reply of `invoke` and the server keeps its list. -/
theorem networkSendReceive_spec {c : Codec} {list : Cars} {req : MessageT}
    (h : Exchanged c list req) {sched : Schedule} {r : Option MessageT × Cars}
    (hr : networkSendReceive c sched list req = some r) :
    r = (some (invoke req list).msg, (invoke req list).list) := by
  unfold networkSendReceive at hr
  split at hr
  · cases hr
  · rename_i sent hsent
    obtain ⟨hcode, hbytes⟩ := sendRequest_spec hsent
    rw [hcode, if_neg (by decide), hbytes] at hr
    split at hr
    · cases hr
    · rename_i it hit
      obtain ⟨received, hreceived⟩ : ∃ received,
          networkReceive c sched.requestReads (frame c req) = some received := by
        cases hrec : networkReceive c sched.requestReads (frame c req) with
        | none => simp [iteration, hrec] at hit
        | some received => exact ⟨received, rfl⟩
      rw [iteration_frame h.request hreceived] at hit
      obtain ⟨reply, hreply, rfl⟩ := Option.map_eq_some_iff.mp hit
      obtain ⟨_, hwritten, _⟩ := networkSend_spec h.reply.fits hreply
      split at hr
      · cases hr
      · obtain ⟨response, hresponse, rfl⟩ := Option.map_eq_some_iff.mp hr
        dsimp only at hresponse ⊢
        rw [hwritten, ← List.append_nil (frame c _)] at hresponse
        obtain ⟨hmsg, _, _⟩ := networkReceive_spec h.reply.fits hresponse
        rw [hmsg, h.reply.undoes]

theorem networkSendReceive_returns {c : Codec} {list : Cars} {req : MessageT}
    (h : Exchanged c list req) {sched : Schedule} (he : Enough c list sched req) :
    (networkSendReceive c sched list req).isSome = true := by
  obtain ⟨sent, hsent⟩ := Option.isSome_iff_exists.mp (sendRequest_returns he.requestWrites)
  obtain ⟨hcode, hbytes⟩ := sendRequest_spec hsent
  have hrec : (networkReceive c sched.requestReads (frame c req ++ [])).isSome = true :=
    networkReceive_returns h.request.fits he.requestReads
  rw [List.append_nil] at hrec
  obtain ⟨received, hreceived⟩ := Option.isSome_iff_exists.mp hrec
  obtain ⟨reply, hreply⟩ := Option.isSome_iff_exists.mp (networkSend_returns he.replyWrites)
  obtain ⟨_, hwritten, _⟩ := networkSend_spec h.reply.fits hreply
  have hresp : (networkReceive c sched.replyReads
      (frame c (invoke req list).msg ++ [])).isSome = true :=
    networkReceive_returns h.reply.fits he.replyReads
  rw [List.append_nil] at hresp
  unfold networkSendReceive
  rw [hsent]
  dsimp only
  rw [hcode, if_neg (by decide), hbytes, iteration_frame h.request hreceived, hreply]
  dsimp only [Option.map_some]
  split
  · rename_i hwaits
    have hlen := congrArg List.length (hwritten.symm.trans hwaits.2)
    rw [frame_length, List.length_nil] at hlen
    omega
  · rw [Option.isSome_map, hwritten]
    exact hresp

/-- A client whose reply is too long for a frame waits for ever. -/
theorem networkSendReceive_waits {c : Codec} (hp : PacksToSize c) {list : Cars}
    (hw : WellFormed list) {req : MessageT} (h : Carried c req)
    (hlong : uint16Max < replySize req list) (sched : Schedule) :
    networkSendReceive c sched list req = none := by
  have hreply : uint16Max < (c.pack (invoke req list).msg).length := by
    rw [hp, (foretold_invoke req hw).size]
    exact hlong
  unfold networkSendReceive
  cases hs : sendRequest c sched.requestWrites req with
  | none => rfl
  | some sent =>
    obtain ⟨hcode, hbytes⟩ := sendRequest_spec hs
    dsimp only
    rw [hcode, if_neg (by decide), hbytes]
    cases hr : networkReceive c sched.requestReads (frame c req) with
    | none =>
      unfold iteration
      rw [hr]
    | some received =>
      rw [iteration_frame h hr, networkSend_long hreply]
      rfl

/-! ## The stubs on an exchange that goes through -/

/-- The exchange that hands the request to `invoke` and its reply back. -/
def ideal (list : Cars) : RlistT := fun req =>
  some (some (invoke req list).msg, (invoke req list).list)

@[simp] theorem call_ideal {β : Type} (list : Cars) (req : MessageT) (failed : β)
    (read : MessageT → β) :
    call (ideal list) req failed read =
      some (read (invoke req list).msg, (invoke req list).list) := rfl

/-- The record the server makes is the copy `data_dup` makes. -/
theorem createFrom_toData_eq_dataDup (car : DataT) : createFrom (toData car) = dataDup car := by
  cases hm : car.modelo with
  | some s =>
    unfold createFrom dataDup toData modeloText
    rw [hm]
    rfl
  | none =>
    have hcreate : ∀ ano preco marca combustivel, dataCreate ano preco marca
        (some CString.empty) combustivel = dataCreate ano preco marca none combustivel := by
      intro ano preco marca combustivel
      unfold dataCreate validateParams
      rfl
    unfold createFrom dataDup toData modeloText
    rw [hm]
    exact hcreate _ _ _ _

theorem createFrom_all {l : List DataT} (hv : ∀ d ∈ l, d.Valid) :
    (l.map toData).map createFrom = l.map some := by
  rw [List.map_map]
  exact List.map_congr_left fun d hd => createFrom_toData (hv d hd)

theorem rlistAdd_ideal (list : Cars) (car : Option DataT) :
    rlistAdd (ideal list) list car = some (addCopy list car) := by
  cases car with
  | none => rfl
  | some car =>
    have hinvoke : invoke (rlistAddRequest car) list =
        match createFrom (toData car) with
        | none => refuse (rlistAddRequest car) list
        | some copy =>
          ⟨0, { rlistAddRequest car with opcode := opAdd + 1, cType := ctNone },
            listAdd list copy⟩ := rfl
    rw [rlistAdd, call_ideal, hinvoke, createFrom_toData_eq_dataDup]
    unfold addCopy
    rw [Option.bind_some]
    cases dataDup car <;> rfl

theorem rlistRemoveByModel_ideal (list : Cars) (modelo : CString) :
    rlistRemoveByModel (ideal list) list (some modelo) =
      some ((listRemoveByModel list modelo).1, (listRemoveByModel list modelo).2) := rfl

theorem rlistGetByMarca_ideal {list : Cars} (hw : WellFormed list) (marca : Int) :
    rlistGetByMarca (ideal list) marca = some (listGetByMarca list marca, list) := by
  have hinvoke : invoke (rlistGetByMarcaRequest marca) list =
      match listGetByMarca list marca with
      | none => refuse (rlistGetByMarcaRequest marca) list
      | some found =>
        ⟨0, { rlistGetByMarcaRequest marca with
              opcode := opGet + 1, cType := ctData, data := some (toData found) }, list⟩ := rfl
  rw [rlistGetByMarca, call_ideal, hinvoke]
  cases hf : listGetByMarca list marca with
  | none => rfl
  | some found =>
    have hv : found.Valid := hw.valid found (List.mem_of_find?_eq_some hf)
    show some ((some (toData found)).bind createFrom, list) = _
    rw [Option.bind_some, createFrom_toData hv]

theorem rlistSize_ideal (list : Cars) :
    rlistSize (ideal list) = some (listSize list, list) := rfl

theorem rlistGetModelList_ideal {list : Cars} (hw : WellFormed list) :
    rlistGetModelList (ideal list) =
      some ((listGetModelList list).map nullTerminated, list) := by
  rw [rlistGetModelList, call_ideal]
  cases hm : listGetModelList list with
  | none =>
    have hinvoke : invoke rlistGetModelListRequest list =
        refuse rlistGetModelListRequest list := by
      simp [invoke, invokeGetModels, rlistGetModelListRequest, hm]
    rw [hinvoke]
    rfl
  | some models =>
    have hinvoke : invoke rlistGetModelListRequest list =
        ⟨0, { rlistGetModelListRequest with
              opcode := opGetModels + 1, cType := ctModel, models := models }, list⟩ := by
      simp [invoke, invokeGetModels, rlistGetModelListRequest, hm]
    have hne : models ≠ [] := by
      rintro rfl
      have hs : list.size ≠ 0 ∧ list.head = [] := by simpa [listGetModelList] using hm
      exact hs.1 (hw.size_eq_zero.mpr hs.2)
    rw [hinvoke]
    dsimp only
    rw [if_pos ⟨rfl, hne⟩]
    rfl

/-- What the stub makes of the reply of a listing. -/
theorem call_listing {list list' : Cars} {ano : Int} {arr : Option (List DataT)}
    (hi : invoke (rlistGetByYearRequest ano) list =
      ⟨0, replyListing (rlistGetByYearRequest ano) arr, list'⟩)
    (h : ∀ cars, arr = some cars → cars ≠ [] ∧ ∀ d ∈ cars, d.Valid) :
    rlistGetByYear (ideal list) ano = some (arr.map nullTerminated, list') := by
  rw [rlistGetByYear, call_ideal, hi]
  cases arr with
  | none => rfl
  | some cars =>
    obtain ⟨hne, hv⟩ := h cars rfl
    have htype : (replyListing (rlistGetByYearRequest ano) (some cars)).cType = ctList := rfl
    have hcars : (replyListing (rlistGetByYearRequest ano) (some cars)).cars =
        cars.map toData := rfl
    dsimp only
    rw [if_pos ⟨htype, by simpa [hcars] using hne⟩, hcars, createFrom_all hv]
    rfl

theorem rlistGetByYear_all {list : Cars} (hw : WellFormed list) :
    rlistGetByYear (ideal list) (-1) =
      some ((listGetAll (listOrderByYear list)).map nullTerminated, listOrderByYear list) := by
  have hw' := wellFormed_listOrderByYear hw
  apply call_listing (invoke_getByYear_all list)
  intro cars hcars
  obtain ⟨hne, rfl⟩ := hw'.listGetAll_eq_some.mp hcars
  exact ⟨hne, hw'.valid⟩

theorem rlistGetByYear_year {list : Cars} (hw : WellFormed list) {ano : Int} (h : ano ≠ -1) :
    rlistGetByYear (ideal list) ano = some ((listGetByYear list ano).map nullTerminated, list) := by
  have hinvoke : invoke (rlistGetByYearRequest ano) list =
      ⟨0, replyListing (rlistGetByYearRequest ano) (listGetByYear list ano), list⟩ := by
    simp [invoke, invokeGetListByTear, rlistGetByYearRequest, h]
  apply call_listing hinvoke
  intro cars hcars
  obtain ⟨hne, rfl⟩ := listGetByYear_eq_some.mp hcars
  exact ⟨hne, fun d hd => hw.valid d (List.mem_of_mem_filter hd)⟩

/-- Every stub gives what the local operation gives. -/
theorem remote_ideal {list : Cars} (hw : WellFormed list) (op : Operation) :
    remote (ideal list) list op = some (localCall list op) := by
  cases op with
  | add car =>
    rw [remote, rlistAdd_ideal]
    rfl
  | removeByModel modelo =>
    cases modelo with
    | none => rfl
    | some modelo =>
      rw [remote, rlistRemoveByModel_ideal]
      rfl
  | getByMarca marca =>
    rw [remote, rlistGetByMarca_ideal hw]
    rfl
  | getByYear ano =>
    by_cases h : ano = -1
    · subst h
      rw [remote, rlistGetByYear_all hw]
      rfl
    · rw [remote, rlistGetByYear_year hw h, localCall, if_neg h]
      rfl
  | size =>
    rw [remote, rlistSize_ideal]
    rfl
  | getModelList =>
    rw [remote, rlistGetModelList_ideal hw]
    rfl

/-! ## The remote list refines the local one -/

/-- A stub only looks at the exchange of its own request. -/
theorem remote_congr {rlist rlist' : RlistT} {op : Operation}
    (h : ∀ req ∈ request op, rlist req = rlist' req) (list : Cars) :
    remote rlist list op = remote rlist' list op := by
  cases op with
  | add car =>
    cases car with
    | none => rfl
    | some car => simp only [remote, rlistAdd, call, h _ rfl]
  | removeByModel modelo =>
    cases modelo with
    | none => rfl
    | some modelo => simp only [remote, rlistRemoveByModel, call, h _ rfl]
  | getByMarca marca => simp only [remote, rlistGetByMarca, call, h _ rfl]
  | getByYear ano => simp only [remote, rlistGetByYear, call, h _ rfl]
  | size => simp only [remote, rlistSize, call, h _ rfl]
  | getModelList => simp only [remote, rlistGetModelList, call, h _ rfl]

/-- A stub whose exchange does not end waits with it. -/
theorem remote_waits {rlist : RlistT} {op : Operation} {req : MessageT}
    (hreq : req ∈ request op) (h : rlist req = none) (list : Cars) :
    remote rlist list op = none := by
  cases op with
  | add car =>
    obtain ⟨car, rfl, rfl⟩ := Option.map_eq_some_iff.mp hreq
    simp only [remote, rlistAdd, call, h, Option.map_none]
  | removeByModel modelo =>
    obtain ⟨modelo, rfl, rfl⟩ := Option.map_eq_some_iff.mp hreq
    simp only [remote, rlistRemoveByModel, call, h, Option.map_none]
  | getByMarca marca =>
    cases hreq
    simp only [remote, rlistGetByMarca, call, h, Option.map_none]
  | getByYear ano =>
    cases hreq
    simp only [remote, rlistGetByYear, call, h, Option.map_none]
  | size =>
    cases hreq
    simp only [remote, rlistSize, call, h, Option.map_none]
  | getModelList =>
    cases hreq
    simp only [remote, rlistGetModelList, call, h, Option.map_none]

/-- **The remote list refines the local list**: whatever the calls are split
into, a call gives what the local operation gives and leaves its list, and it
does return when there are calls enough. -/
theorem remote_refines_local {c : Codec} {list : Cars} (hl : Reachable list) (op : Operation)
    (hx : ∀ req ∈ request op, Exchanged c list req) :
    (∀ sched r, remote (networkSendReceive c sched list) list op = some r →
      r = localCall list op) ∧
      ∀ sched, (∀ req ∈ request op, Enough c list sched req) →
        remote (networkSendReceive c sched list) list op = some (localCall list op) := by
  constructor
  · intro sched r hr
    have hideal : ∀ req ∈ request op, networkSendReceive c sched list req = ideal list req := by
      intro req hreq
      cases hn : networkSendReceive c sched list req with
      | none =>
        rw [remote_waits hreq hn] at hr
        cases hr
      | some r' => rw [networkSendReceive_spec (hx req hreq) hn, ideal]
    rw [remote_congr hideal, remote_ideal hl.wellFormed] at hr
    exact (Option.some.inj hr).symm
  · intro sched he
    have hideal : ∀ req ∈ request op, networkSendReceive c sched list req = ideal list req := by
      intro req hreq
      obtain ⟨r, hr⟩ := Option.isSome_iff_exists.mp
        (networkSendReceive_returns (hx req hreq) (he req hreq))
      rw [hr, networkSendReceive_spec (hx req hreq) hr, ideal]
    rw [remote_congr hideal, remote_ideal hl.wellFormed]

/-- Sixty-four calls of one byte on each way. -/
def byteByByte : Schedule :=
  ⟨List.replicate 64 (.moves 0), List.replicate 64 (.moves 0), List.replicate 64 (.moves 0),
    List.replicate 64 (.moves 0)⟩

theorem remote_refines_local_listing :
    remote (networkSendReceive protobuf byteByByte (manyCars 1)) (manyCars 1) (.getByYear (-1)) =
      some (localCall (manyCars 1) (.getByYear (-1))) := by
  have hx : Exchanged protobuf (manyCars 1) (rlistGetByYearRequest (-1)) :=
    ⟨⟨by decide +kernel, by decide +kernel⟩, by decide +kernel, by decide +kernel⟩
  have he : Enough protobuf (manyCars 1) byteByByte (rlistGetByYearRequest (-1)) :=
    ⟨by decide +kernel, by decide +kernel, by decide +kernel, by decide +kernel⟩
  apply (remote_refines_local (reachable_manyCars 1) (.getByYear (-1)) _).2
  · intro req hreq
    cases hreq
    exact he
  · intro req hreq
    cases hreq
    exact hx

end CarChain.Remote
