import CarChain.Framing
import CarChain.Lists

/-!
# Is every request answered?

An iteration of `handle_client` on a connection whose peer reads: a request is
received, executed, and its reply handed to `network_send`, whose return code
is only looked at to note an error.  A reply that is longer than a frame is
therefore dropped and the loop goes on; how long the reply is follows from the
request and the list (`replySize`).  Before that a write waits for the reply of
the successor, which may be dropped in the same way, and then for ever.  So the
request is answered exactly when that reply comes, where one is waited for, and
its own fits (`answered_iff_fits`).
-/

namespace CarChain.Answering
open CarChain.Record CarChain.Message CarChain.CarList CarChain.Skeleton CarChain.Lists
open CarChain.Stub CarChain.Handler CarChain.Wire CarChain.Transfer CarChain.Framing

/-! ## The loop -/

/-- What an iteration leaves: the list, what it wrote on the connection, what it
has not read, and whether the loop is left, which closes the connection. -/
structure Iteration where
  list : Cars
  written : List UInt8
  unread : List UInt8
  ended : Bool
  deriving DecidableEq

/-- The rest of an iteration once the request is there. -/
def handleRequest (c : Codec) (calls : List Call) (successor : Option (MessageT → Exchange))
    (req : MessageT) (list : Cars) (unread : List UInt8) : Option Iteration :=
  let handled := handleClient successor req list
  -- "erro envio": the return code makes no difference
  (networkSend c calls handled.reply).map fun sent =>
    ⟨handled.list, sent.bytes, unread, false⟩

/-- One turn of the loop, with an exchange that comes to an end: `reads` are the
calls of `read`, `writes` those of `write`. -/
def iteration (c : Codec) (reads writes : List Call) (successor : Option (MessageT → Exchange))
    (stream : List UInt8) (list : Cars) : Option Iteration :=
  match networkReceive c reads stream with
  | none => none
  | some received =>
    match received.msg with
    | none => some ⟨list, [], received.rest, true⟩
    | some req => handleRequest c writes successor req list received.rest

/-- One whole frame was written, or the connection ends. -/
def Answered (c : Codec) (it : Iteration) : Prop :=
  it.ended = true ∨
    ∃ reply, (c.pack reply).length ≤ uint16Max ∧ it.written = frame c reply

/-- What an exchange with the successor gives; `none` when it never comes to an
end, as on a connection that stays open and on which no reply is written. -/
abbrev Successor := MessageT → Option Exchange

/-- A turn comes to its end, or the handler waits for ever: for `list_mutex`, or
with it for the reply of its successor. -/
inductive Outcome
  | goesOn (it : Iteration)
  | waits (list : Cars)
  deriving DecidableEq

/-- The rest of a turn once the request is there; `free` says whether the handler
is ever given `list_mutex`. -/
def turnRequest (c : Codec) (calls : List Call) (free : Bool) (successor : Option Successor)
    (req : MessageT) (list : Cars) (unread : List UInt8) : Option Outcome :=
  if free = false then some (.waits list)
  else
    match (afterInvoke req (invoke req list)).2, successor with
    | true, some exchange =>
      match exchange (propagateMsg req) with
      | none => some (.waits (invoke req list).list)
      | some e => (handleRequest c calls (some fun _ => e) req list unread).map .goesOn
    | _, _ => (handleRequest c calls none req list unread).map .goesOn

/-- One turn of the loop, whatever becomes of the exchange. -/
def turn (c : Codec) (reads writes : List Call) (free : Bool) (successor : Option Successor)
    (stream : List UInt8) (list : Cars) : Option Outcome :=
  match networkReceive c reads stream with
  | none => none
  | some received =>
    match received.msg with
    | none => some (.goesOn ⟨list, [], received.rest, true⟩)
    | some req => turnRequest c writes free successor req list received.rest

def Outcome.Answered (c : Codec) : Outcome → Prop
  | .goesOn it => Answering.Answered c it
  | .waits _ => False

/-- The handler gets `list_mutex`, and its exchange, if there is one, ends. -/
def ComesBack (free : Bool) (successor : Option Successor) (req : MessageT) : Prop :=
  free = true ∧
    (isWriteOp req = true → ∀ exchange ∈ successor, (exchange (propagateMsg req)).isSome = true)

/-! ## How long a reply is -/

/-- The car a reply carries: the first of the brand for an `OP_GET`, else what
the request carried. -/
def replyData (req : MessageT) (list : Cars) : Option Data :=
  if req.opcode = opGet ∧ req.cType = ctMarca then
    match list.head.find? (fun d => d.marca = req.result) with
    | some found => some (toData found)
    | none => req.data
  else req.data

/-- The number a reply carries: the outcome of a removal, the size of the list,
else what the request carried. -/
def replyResult (req : MessageT) (list : Cars) : Int :=
  if req.opcode = opDel ∧ req.cType = ctModel then
    match req.models with
    | [] => req.result
    | model :: _ =>
      if list.head = [] then -1 else if list.head.any (hasModel model) then 0 else 1
  else if req.opcode = opSize ∧ req.cType = ctNone then list.head.length
  else req.result

/-- The models a reply carries: all of the list, else those of the request. -/
def replyModels (req : MessageT) (list : Cars) : List CString :=
  if req.opcode = opGetModels ∧ req.cType = ctNone ∧ list.head ≠ [] then list.head.map modeloText
  else req.models

/-- The cars a reply carries, in some order: all of the list or those of the
year, if there are any, else those of the request. -/
def replyCars (req : MessageT) (list : Cars) : List Data :=
  if req.opcode = opGetListByTear ∧ req.cType = ctResult then
    let cars := if req.result = -1 then list.head
      else list.head.filter fun d => d.ano = req.result
    if cars = [] then req.cars else cars.map toData
  else req.cars

/-- Two bytes for the opcode, two for the content type, and what else there is. -/
def replySize (req : MessageT) (list : Cars) : Nat :=
  4 + payloadSize
    { req with data := replyData req list, result := replyResult req list,
               models := replyModels req list, cars := replyCars req list }

theorem repeatedField_perm {α : Type} (len : α → Nat) {l l' : List α} (h : l.Perm l') :
    repeatedField len l = repeatedField len l' := by
  induction h with
  | nil => rfl
  | cons a _ ih => rw [repeatedField, repeatedField, ih]
  | swap a b l =>
    simp only [repeatedField]
    omega
  | trans _ _ ih ih' => rw [ih, ih']

/-- What a reply has in common with the fields foretold. -/
structure Foretold (req : MessageT) (list : Cars) (reply : MessageT) : Prop where
  opcode : Wire.Small reply.opcode
  cType : Wire.Small reply.cType
  data : reply.data = replyData req list
  result : reply.result = replyResult req list
  models : reply.models = replyModels req list
  cars : reply.cars.Perm (replyCars req list)

theorem Foretold.replyError {req reply : MessageT} {list : Cars} (h : Foretold req list reply) :
    Foretold req list (replyError reply) :=
  ⟨(by decide : Wire.Small opError), (by decide : Wire.Small ctNone), h.data, h.result,
    h.models, h.cars⟩

theorem Foretold.size {req reply : MessageT} {list : Cars} (h : Foretold req list reply) :
    messageTGetPackedSize reply = replySize req list := by
  simp only [messageTGetPackedSize, int32Field_small h.opcode, int32Field_small h.cType, replySize,
    payloadSize, h.data, h.result, h.models, repeatedField_perm dataPackedSize h.cars]

/-- A reply that leaves all fields of the request but the two enumerations alone. -/
theorem foretold_kept {req : MessageT} {list : Cars} (hd : replyData req list = req.data)
    (hr : replyResult req list = req.result) (hm : replyModels req list = req.models)
    (hl : replyCars req list = req.cars) {opcode cType : Int} (ho : Wire.Small opcode)
    (hc : Wire.Small cType) : Foretold req list { req with opcode := opcode, cType := cType } :=
  ⟨ho, hc, hd.symm, hr.symm, hm.symm, hl ▸ List.Perm.refl _⟩

theorem foretold_refused {req : MessageT} {list : Cars} (hd : replyData req list = req.data)
    (hr : replyResult req list = req.result) (hm : replyModels req list = req.models)
    (hl : replyCars req list = req.cars) : Foretold req list (refuse req list).msg :=
  foretold_kept hd hr hm hl (by decide) (by decide)

theorem foretold_add {req : MessageT} (h : req.opcode = opAdd) (list : Cars) :
    Foretold req list (invokeAdd req list).msg := by
  have hd : replyData req list = req.data := by simp [replyData, h]
  have hr : replyResult req list = req.result := by simp [replyResult, h]
  have hm : replyModels req list = req.models := by simp [replyModels, h]
  have hl : replyCars req list = req.cars := by simp [replyCars, h]
  rcases invokeAdd_cases req list with hi | ⟨pd, car, _, _, _, hi⟩
  · rw [hi]
    exact foretold_refused hd hr hm hl
  · rw [hi]
    exact foretold_kept hd hr hm hl (by decide) (by decide)

theorem foretold_get {req : MessageT} (h : req.opcode = opGet) (list : Cars) :
    Foretold req list (invokeGet req list).msg := by
  have hr : replyResult req list = req.result := by simp [replyResult, h]
  have hm : replyModels req list = req.models := by simp [replyModels, h]
  have hl : replyCars req list = req.cars := by simp [replyCars, h]
  unfold invokeGet listGetByMarca
  split
  · rename_i hc
    exact foretold_refused (by simp [replyData, hc]) hr hm hl
  · rename_i hc
    have hc := not_not.mp hc
    split
    · rename_i hf
      exact foretold_refused (by simp [replyData, h, hc, hf]) hr hm hl
    · rename_i found hf
      exact ⟨(by decide : Wire.Small (opGet + 1)), (by decide : Wire.Small ctData),
        by simp [replyData, h, hc, hf], hr.symm, hm.symm, hl ▸ List.Perm.refl _⟩

theorem foretold_del {req : MessageT} (h : req.opcode = opDel) (list : Cars) :
    Foretold req list (invokeDel req list).msg := by
  have hd : replyData req list = req.data := by simp [replyData, h]
  have hm : replyModels req list = req.models := by simp [replyModels, h]
  have hl : replyCars req list = req.cars := by simp [replyCars, h]
  unfold invokeDel
  split
  · rename_i hc
    exact foretold_refused hd (by simp [replyResult, h, hc]) hm hl
  · rename_i hc
    have hc := not_not.mp hc
    split
    · rename_i hnil
      exact foretold_refused hd (by simp [replyResult, h, hc, hnil]) hm hl
    · rename_i model rest hmodels
      exact ⟨(by decide : Wire.Small (opDel + 1)), (by decide : Wire.Small ctResult), hd.symm,
        by simp [replyResult, h, hc, hmodels, listRemoveByModel_result], hm.symm,
        hl ▸ List.Perm.refl _⟩

theorem foretold_size {req : MessageT} (h : req.opcode = opSize) {list : Cars}
    (hw : WellFormed list) : Foretold req list (invokeSize req list).msg := by
  have hd : replyData req list = req.data := by simp [replyData, h]
  have hm : replyModels req list = req.models := by simp [replyModels, h]
  have hl : replyCars req list = req.cars := by simp [replyCars, h]
  unfold invokeSize
  split
  · rename_i hc
    exact foretold_refused hd (by simp [replyResult, h, hc]) hm hl
  · rename_i hc
    have hc := not_not.mp hc
    exact ⟨(by decide : Wire.Small (opSize + 1)), (by decide : Wire.Small ctResult), hd.symm,
      by simp [replyResult, h, hc, listSize, hw.size], hm.symm, hl ▸ List.Perm.refl _⟩

theorem foretold_getModels {req : MessageT} (h : req.opcode = opGetModels) {list : Cars}
    (hw : WellFormed list) : Foretold req list (invokeGetModels req list).msg := by
  have hd : replyData req list = req.data := by simp [replyData, h]
  have hr : replyResult req list = req.result := by simp [replyResult, h]
  have hl : replyCars req list = req.cars := by simp [replyCars, h]
  unfold invokeGetModels listGetModelList
  split
  · rename_i hc
    exact foretold_refused hd hr (by simp [replyModels, hc]) hl
  · rename_i hc
    have hc := not_not.mp hc
    rcases hlist : list.head with _ | ⟨d, rest⟩
    · have hs : list.size = 0 := hw.size_eq_zero.mpr hlist
      rw [if_pos hs]
      exact foretold_refused hd hr (by simp [replyModels, hlist]) hl
    · have hs : list.size ≠ 0 := by rw [hw.size, hlist, List.length_cons]; omega
      rw [if_neg hs]
      exact ⟨(by decide : Wire.Small (opGetModels + 1)), (by decide : Wire.Small ctModel), hd.symm,
        hr.symm, by simp [replyModels, h, hc, hlist], hl ▸ List.Perm.refl _⟩

/-- A listing, of an array that holds these cars in some order or is NULL. -/
theorem foretold_listing {req : MessageT} (h : req.opcode = opGetListByTear) {list : Cars}
    {arr : Option (List DataT)}
    (hnone : arr = none → replyCars req list = req.cars)
    (hsome : ∀ cars, arr = some cars → (cars.map toData).Perm (replyCars req list)) :
    Foretold req list (replyListing req arr) := by
  have hd : replyData req list = req.data := by simp [replyData, h]
  have hr : replyResult req list = req.result := by simp [replyResult, h]
  have hm : replyModels req list = req.models := by simp [replyModels, h]
  cases arr with
  | none => exact foretold_refused hd hr hm (hnone rfl)
  | some cars =>
    exact ⟨(by decide : Wire.Small (opGetListByTear + 1)), (by decide : Wire.Small ctList), hd.symm,
      hr.symm, hm.symm, hsome cars rfl⟩

theorem foretold_getListByTear {req : MessageT} (h : req.opcode = opGetListByTear) {list : Cars}
    (hw : WellFormed list) : Foretold req list (invokeGetListByTear req list).msg := by
  unfold invokeGetListByTear
  split
  · rename_i hc
    exact foretold_refused (by simp [replyData, h]) (by simp [replyResult, h])
      (by simp [replyModels, h]) (by simp [replyCars, hc])
  · rename_i hc
    have hc := not_not.mp hc
    have hsize := hw.size_eq_zero
    split
    · rename_i hall
      apply foretold_listing h
      · intro hnone
        have hnil : list.head = [] := by simpa [listGetAll, hsize] using hnone
        simp [replyCars, h, hc, hall, hnil]
      · intro cars hcars
        obtain ⟨hne, rfl⟩ := (wellFormed_listOrderByYear hw).listGetAll_eq_some.mp hcars
        have hhead : list.head ≠ [] := mt (listOrderByYear_eq_nil list).mpr hne
        have hreply : replyCars req list = list.head.map toData := by
          simp [replyCars, h, hc, hall, hhead]
        rw [hreply]
        exact (listOrderByYear_perm list).map toData
    · rename_i hyear
      apply foretold_listing h
      · intro hnone
        have hnil : list.head.filter (fun d => d.ano = req.result) = [] := by
          simpa [listGetByYear, getByYear] using hnone
        simp [replyCars, h, hc, hyear, hnil]
      · intro cars hcars
        obtain ⟨hne, heq⟩ := listGetByYear_eq_some.mp hcars
        have hreply : replyCars req list = cars.map toData := by
          simp [replyCars, h, hc, hyear, heq, hne]
        rw [hreply]

/-- Whatever the request, the reply of `invoke` has the fields foretold. -/
theorem foretold_invoke (req : MessageT) {list : Cars} (hw : WellFormed list) :
    Foretold req list (invoke req list).msg := by
  unfold invoke
  split
  · rename_i h
    exact foretold_add h list
  · split
    · rename_i h
      exact foretold_get h list
    · split
      · rename_i h
        exact foretold_del h list
      · split
        · rename_i h
          exact foretold_size h hw
        · split
          · rename_i h
            exact foretold_getModels h hw
          · split
            · rename_i h
              exact foretold_getListByTear h hw
            · rename_i hget hdel hsize hmodels hlisting
              exact foretold_refused (by simp [replyData, hget])
                (by simp [replyResult, hdel, hsize]) (by simp [replyModels, hmodels])
                (by simp [replyCars, hlisting])

theorem handleClient_reply (successor : Option (MessageT → Exchange)) (req : MessageT)
    (list : Cars) :
    (handleClient successor req list).reply = (invoke req list).msg ∨
      (handleClient successor req list).reply = replyError (invoke req list).msg := by
  unfold handleClient afterExchange
  dsimp only
  repeat' split
  all_goals simp

/-- However the exchange goes, the reply is as long as foretold. -/
theorem replySize_eq (successor : Option (MessageT → Exchange)) (req : MessageT) {list : Cars}
    (hw : WellFormed list) :
    messageTGetPackedSize (handleClient successor req list).reply = replySize req list := by
  rcases handleClient_reply successor req list with h | h
  · rw [h, (foretold_invoke req hw).size]
  · rw [h, (foretold_invoke req hw).replyError.size]

/-! ## Answered requests -/

/-- The size of the buffer is the number of bytes packed into it. -/
def PacksToSize (c : Codec) : Prop := ∀ msg, (c.pack msg).length = messageTGetPackedSize msg

theorem packsToSize_protobuf : PacksToSize protobuf := Protobuf.messageTPack_length

theorem not_answered_nothing {c : Codec} {list : Cars} {unread : List UInt8} :
    ¬Answered c ⟨list, [], unread, false⟩ := by
  rintro (h | ⟨reply, _, h⟩)
  · cases h
  · have hlen := congrArg List.length h
    rw [frame_length] at hlen
    dsimp only [List.length_nil] at hlen
    omega

/-- A reply too long for a frame is dropped without a word. -/
theorem handleRequest_long {c : Codec} {successor : Option (MessageT → Exchange)}
    {req : MessageT} {list : Cars}
    (h : uint16Max < (c.pack (handleClient successor req list).reply).length)
    (calls : List Call) (unread : List UInt8) :
    handleRequest c calls successor req list unread =
      some ⟨(handleClient successor req list).list, [], unread, false⟩ := by
  unfold handleRequest
  dsimp only
  rw [networkSend_long h]
  rfl

theorem pack_reply_length {c : Codec} (hp : PacksToSize c) {list : Cars} (hw : WellFormed list)
    (successor : Option (MessageT → Exchange)) (req : MessageT) :
    (c.pack (handleClient successor req list).reply).length = replySize req list := by
  rw [hp, replySize_eq successor req hw]

theorem handleRequest_answered {c : Codec} (hp : PacksToSize c) {list : Cars}
    (hw : WellFormed list) {successor : Option (MessageT → Exchange)} {req : MessageT}
    {calls : List Call} {unread : List UInt8} {it : Iteration}
    (h : handleRequest c calls successor req list unread = some it) :
    Answered c it ↔ replySize req list ≤ uint16Max := by
  rw [← pack_reply_length hp hw successor req]
  rcases Nat.lt_or_ge uint16Max (c.pack (handleClient successor req list).reply).length with
    hlong | hfits
  · rw [handleRequest_long hlong] at h
    cases h
    exact iff_of_false not_answered_nothing (Nat.not_le.mpr hlong)
  · obtain ⟨sent, hsent, rfl⟩ := Option.map_eq_some_iff.mp h
    obtain ⟨_, hbytes, _⟩ := networkSend_spec hfits hsent
    exact iff_of_true (Or.inr ⟨_, hfits, hbytes⟩) hfits

theorem handleRequest_returns {c : Codec} {list : Cars}
    {successor : Option (MessageT → Exchange)} {req : MessageT} {calls : List Call}
    {unread : List UInt8} (h : 2 + uint16Max ≤ transfers calls) :
    (handleRequest c calls successor req list unread).isSome = true := by
  rcases Nat.lt_or_ge uint16Max (c.pack (handleClient successor req list).reply).length with
    hlong | hfits
  · rw [handleRequest_long hlong]
    rfl
  · unfold handleRequest
    dsimp only
    rw [Option.isSome_map]
    apply networkSend_returns
    rw [frame_length]
    omega

/-- How a turn goes, by what the handler has to wait for. -/
theorem turnRequest_cases (c : Codec) (calls : List Call) (free : Bool)
    (successor : Option Successor) (req : MessageT) (list : Cars) (unread : List UInt8) :
    (ComesBack free successor req ∧ ∃ successor',
        turnRequest c calls free successor req list unread =
          (handleRequest c calls successor' req list unread).map .goesOn) ∨
      (¬ComesBack free successor req ∧
        ∃ left, turnRequest c calls free successor req list unread = some (.waits left)) := by
  unfold turnRequest ComesBack
  cases free with
  | false => exact Or.inr ⟨by simp, _, rfl⟩
  | true =>
    rw [afterInvoke_invoke, if_neg (by simp)]
    cases hw : isWriteOp req with
    | false => exact Or.inl ⟨by simp, none, rfl⟩
    | true =>
      cases successor with
      | none => exact Or.inl ⟨by simp, none, rfl⟩
      | some exchange =>
        dsimp only
        cases he : exchange (propagateMsg req) with
        | none => exact Or.inr ⟨by simp [he], _, rfl⟩
        | some e => exact Or.inl ⟨by simp [he], some fun _ => e, rfl⟩

/-- Where there is nothing to wait for in vain, a turn is an iteration. -/
theorem turn_eq_iteration (c : Codec) (reads writes : List Call)
    (successor : Option (MessageT → Exchange)) (stream : List UInt8) (list : Cars) :
    turn c reads writes true (successor.map fun exchange msg => some (exchange msg)) stream list =
      (iteration c reads writes successor stream list).map .goesOn := by
  unfold turn iteration
  cases networkReceive c reads stream with
  | none => rfl
  | some received =>
    dsimp only
    cases received.msg with
    | none => rfl
    | some req =>
      dsimp only
      unfold turnRequest
      rw [afterInvoke_invoke, if_neg (by simp)]
      cases hw : isWriteOp req with
      | false =>
        have hsame : handleClient successor req list = handleClient none req list := by
          simp [handleClient, hw]
        simp only [handleRequest, hsame]
      | true =>
        cases successor with
        | none => rfl
        | some exchange =>
          have hsame : handleClient (some fun _ => exchange (propagateMsg req)) req list =
              handleClient (some exchange) req list := by
            rw [handleClient_some hw, handleClient_some hw]
          simp only [Option.map_some, handleRequest, hsame]

/-- The list after so many adds of one car. -/
def manyCars : Nat → Cars
  | 0 => listCreate
  | n + 1 => (invoke (rlistAddRequest sampleCar) (manyCars n)).list

theorem reachable_manyCars (n : Nat) : Reachable (manyCars n) := by
  induction n with
  | zero => exact Reachable.create
  | succ n ih => exact Reachable.invoke _ ih

theorem manyCars_head (n : Nat) : (manyCars n).head = List.replicate n sampleCar := by
  induction n with
  | zero => rfl
  | succ n ih =>
    have hadd : manyCars (n + 1) = listAdd (manyCars n) sampleCar := rfl
    rw [hadd, listAdd, ih, List.replicate_succ']

theorem repeatedField_replicate {α : Type} (len : α → Nat) (n : Nat) (a : α) :
    repeatedField len (List.replicate n a) = n * delimited (len a) := by
  induction n with
  | zero => rw [Nat.zero_mul]; rfl
  | succ n ih =>
    rw [List.replicate_succ, repeatedField, ih, Nat.succ_mul, Nat.add_comm]

/-- All models of that many cars, four bytes each. -/
theorem replySize_manyCars {n : Nat} (hn : n ≠ 0) :
    replySize rlistGetModelListRequest (manyCars n) = 4 + 4 * n := by
  have hmodels : replyModels rlistGetModelListRequest (manyCars n) =
      List.replicate n (modeloText sampleCar) := by
    have hne : List.replicate n sampleCar ≠ [] := by simpa using hn
    rw [replyModels, manyCars_head, if_pos ⟨rfl, rfl, hne⟩, List.map_replicate]
  have hfields : ∀ models,
      payloadSize
        { rlistGetModelListRequest with
          data := replyData rlistGetModelListRequest (manyCars n),
          result := replyResult rlistGetModelListRequest (manyCars n), models := models,
          cars := replyCars rlistGetModelListRequest (manyCars n) } =
        repeatedField strlen models := fun models => Nat.zero_add _
  have hlen : delimited (strlen (modeloText sampleCar)) = 4 := by decide +kernel
  rw [replySize, hmodels, hfields, repeatedField_replicate, hlen, Nat.mul_comm]

/-- A successor that acknowledges every car. -/
def sampleSuccessor : Successor :=
  fun msg => some (.reply { msg with opcode := opAdd + 1 })

end CarChain.Answering
