import CarChain.ByteChain
import CarChain.Terminal

/-!
# A session on a chain

A client types at a chain of servers: its writes go to the first server and down
the chain, its reads to the last one, all of it in bytes.  The session prints
what it would print on one list behind frames (`framedServer`), and the last
server ends with that list (`session_refines_local`), although an ordered listing
orders the list of the last server only: what a write returns depends on the
models in a list, and these every server keeps (`Mirrors`).  Frames are part of
what the client sees: a price of minus zero arrives as zero (`onWire`), and for a
listing that is too long for one the client waits for ever.
-/

namespace CarChain.Sessions
open CarChain.Record CarChain.Message CarChain.CarList CarChain.Skeleton CarChain.Lists
open CarChain.Stub CarChain.Handler CarChain.Wire CarChain.Transfer CarChain.Framing
open CarChain.Answering CarChain.Remote CarChain.Decoding CarChain.LineReader CarChain.Commands
open CarChain.Terminal CarChain.ByteChain

/-! ## The stubs on any connection -/

/-- What a stub makes of the reply. -/
def returned (op : Operation) (resp : Option MessageT) : Option Returned :=
  (remote (fun _ => some (resp, listCreate)) listCreate op).map Prod.fst

/-- The stubs on a connection whose exchanges are these. -/
def stubCall {σ : Type} (exchange : MessageT → σ → Option (Option MessageT × σ)) : Server σ :=
  fun op s =>
    match request op with
    | none => (returned op none).map fun r => (r, s)
    | some req =>
      match exchange req s with
      | none => none
      | some (resp, s) => (returned op resp).map fun r => (r, s)

/-- They are the stubs of the remote list. -/
theorem remote_eq_stubCall (rlist : RlistT) (list : Cars) (op : Operation) :
    remote rlist list op = stubCall (fun req _ => rlist req) op list := by
  cases op with
  | add car =>
    cases car with
    | none => rfl
    | some car =>
      simp only [remote, rlistAdd, call, stubCall, request, returned, Option.map_some]
      cases rlist (rlistAddRequest car) <;> rfl
  | removeByModel modelo =>
    cases modelo with
    | none => rfl
    | some modelo =>
      simp only [remote, rlistRemoveByModel, call, stubCall, request, returned, Option.map_some]
      cases rlist (rlistRemoveByModelRequest modelo) <;> rfl
  | getByMarca marca =>
    simp only [remote, rlistGetByMarca, call, stubCall, request, returned, Option.map_some]
    cases rlist (rlistGetByMarcaRequest marca) <;> rfl
  | getByYear ano =>
    simp only [remote, rlistGetByYear, call, stubCall, request, returned, Option.map_some]
    cases rlist (rlistGetByYearRequest ano) <;> rfl
  | size =>
    simp only [remote, rlistSize, call, stubCall, request, returned, Option.map_some]
    cases rlist rlistSizeRequest <;> rfl
  | getModelList =>
    simp only [remote, rlistGetModelList, call, stubCall, request, returned, Option.map_some]
    cases rlist rlistGetModelListRequest <;> rfl

/-- The reply of a server makes a stub return what the list operation returns. -/
theorem returned_invoke {list : Cars} (hw : WellFormed list) {op : Operation} {req : MessageT}
    (hreq : req ∈ request op) :
    returned op (some (invoke req list).msg) = some (localCall list op).1 := by
  have hideal := remote_ideal hw op
  rw [remote_eq_stubCall, stubCall, hreq] at hideal
  dsimp only [ideal] at hideal
  obtain ⟨r, hr, heq⟩ := Option.map_eq_some_iff.mp hideal
  rw [hr, ← heq]

theorem invoke_localCall {list : Cars} (hw : WellFormed list) {op : Operation} {req : MessageT}
    (hreq : req ∈ request op) : (invoke req list).list = (localCall list op).2 := by
  have hideal := remote_ideal hw op
  rw [remote_eq_stubCall, stubCall, hreq] at hideal
  dsimp only [ideal] at hideal
  obtain ⟨r, hr, heq⟩ := Option.map_eq_some_iff.mp hideal
  rw [← heq]

/-! ## Sessions that follow one another -/

/-- Two results are the same and leave related states, or nothing comes of both;
nothing may come of the first alone if `waits`. -/
inductive Follows {α σ τ : Type} (waits : Prop) (R : σ → τ → Prop) :
    Option (α × σ) → Option (α × τ) → Prop
  | waits {r : Option (α × τ)} : waits → Follows waits R none r
  | neither : Follows waits R none none
  | both {a : α} {s : σ} {t : τ} : R s t → Follows waits R (some (a, s)) (some (a, t))

section Simulation
variable {σ τ : Type} {waits : Prop}

theorem Follows.map {α β : Type} {R : σ → τ → Prop} {r : Option (α × σ)} {r' : Option (α × τ)}
    (h : Follows waits R r r') (f : α → β) :
    Follows waits R (r.map fun x => (f x.1, x.2)) (r'.map fun x => (f x.1, x.2)) := by
  cases h with
  | waits hw => exact .waits hw
  | neither => exact .neither
  | both hR => exact .both hR

/-- The answer to a line, given that the calls follow one another. -/
theorem react_follows {client : Client σ} {client' : Client τ} {R : σ → τ → Prop}
    (hup : ∀ server, (client.server server).isSome = (client'.server server).isSome)
    {reaction : Reaction} {s : σ} {t : τ}
    (hcall : ∀ server op out f f', reaction = .ask server op out →
      client.server server = some f → client'.server server = some f' →
        Follows waits R (f op s) (f' op t))
    (hR : R s t) : Follows waits R (react client s reaction) (react client' t reaction) := by
  cases reaction with
  | print out => exact .both hR
  | ask server op out =>
    have hsome := hup server
    cases hf : client.server server with
    | none =>
      cases hf' : client'.server server with
      | none =>
        rw [react, react, hf, hf']
        exact .both hR
      | some f' =>
        rw [hf, hf'] at hsome
        cases hsome
    | some f =>
      cases hf' : client'.server server with
      | none =>
        rw [hf, hf'] at hsome
        cases hsome
      | some f' =>
        rw [react, react, hf, hf']
        exact (hcall server op out f f' rfl hf hf').map out

/-- The relation may use up one unit at each line. -/
theorem session_follows {fl : Floats} {client : Client σ} {client' : Client τ}
    {R : Nat → σ → τ → Prop} (hdown : ∀ n s t, R (n + 1) s t → R n s t)
    (hup : ∀ server, (client.server server).isSome = (client'.server server).isSome)
    (hcall : ∀ server f f', client.server server = some f → client'.server server = some f' →
      ∀ op, Asks 1023 server op → ∀ n s t, R (n + 1) s t →
        Follows waits (R n) (f op s) (f' op t))
    {linhas : List CString} (hlen : ∀ linha ∈ linhas, strlen linha ≤ 1023) {s : σ} {t : τ}
    (hR : R linhas.length s t) :
    Follows waits (R 0) (session fl client linhas s) (session fl client' linhas t) := by
  have hzero : ∀ n s t, R n s t → R 0 s t := by
    intro n
    induction n with
    | zero => exact fun s t h => h
    | succ n ihn => exact fun s t h => ihn s t (hdown n s t h)
  induction linhas generalizing s t with
  | nil => exact .both hR
  | cons linha linhas ih =>
    rw [List.forall_mem_cons] at hlen
    have hrest := hdown linhas.length s t hR
    rw [session, session]
    split
    · exact (ih hlen.2 hrest).map (command ++ ·)
    · split
      · exact .both (hzero _ s t hR)
      · have hhead : client.headServer.isSome = client'.headServer.isSome := hup .head
        have htail : client.tailServer.isSome = client'.tailServer.isSome := hup .tail
        rw [← hhead, ← htail]
        have hreact : Follows waits (R linhas.length)
            (react client s (processaComando fl client.headServer.isSome client.tailServer.isSome
              linha))
            (react client' t (processaComando fl client.headServer.isSome client.tailServer.isSome
              linha)) := by
          apply react_follows hup _ hrest
          intro server op out f f' hp hf hf'
          exact hcall server f f' hf hf' op ((processaComando_sends hp).mono hlen.1) _ s t hR
        revert hreact
        generalize react client s _ = r
        generalize react client' t _ = r'
        intro hreact
        cases hreact with
        | waits hw => exact .waits hw
        | neither => exact .neither
        | @both out s' t' hR' => exact (ih hlen.2 hR').map (command ++ out ++ ·)

end Simulation

/-! ## The chain and the list -/

/-- The lists of the servers, the first one first, and how many calls were made. -/
structure World where
  lists : List Cars
  calls : Nat

/-- The stubs on the connection to the first server; `sched` gives the calls of
`write` and `read` for each call of a stub and each server. -/
def headServer (sched : Nat → Nat → Schedule) : Server World :=
  stubCall fun req w =>
    (callFirst protobuf (sched w.calls) w.lists req).map fun r => (r.1, ⟨r.2, w.calls + 1⟩)

/-- The stubs on the connection to the last server, which has no successor. -/
def tailServer (sched : Nat → Nat → Schedule) : Server World :=
  stubCall fun req w =>
    match w.lists.getLast? with
    | none => none
    | some list =>
      (networkSendReceive protobuf (sched w.calls 0) list req).map fun r =>
        (r.1, ⟨w.lists.dropLast ++ [r.2], w.calls + 1⟩)

def chainClient (sched : Nat → Nat → Schedule) : Client World :=
  ⟨some (headServer sched), some (tailServer sched)⟩

/-- A price of minus zero is left out of the message. -/
def wireCar (car : DataT) : DataT := if car.preco = 0x80000000 then { car with preco := 0 } else car

/-- The operation as it arrives. -/
def onWire : Operation → Operation
  | .add car => .add (car.map wireCar)
  | op => op

/-- One list behind frames: a price of minus zero is stored as zero, and the call
whose answer is too long for a frame never returns. -/
def framedServer : Server Cars := fun op list =>
  if (request op).all fun req => replySize req list ≤ uint16Max then
    some (localCall list (onWire op))
  else none

def localClient : Client Cars := ⟨some framedServer, some framedServer⟩

/-- The models of the cars of a list, as often as they occur. -/
def models (list : Cars) : List (Option CString) := list.head.map DataT.modelo

/-- What a list holds after messages from clients. -/
structure Stored (list : Cars) : Prop where
  wellFormed : WellFormed list
  preco : ∀ d ∈ list.head, d.preco ≠ 0x80000000

/-- The last server has the list, the others have one with the same models, and
so many more cars can be counted by an `int`. -/
structure Mirrors (room : Nat) (lists : List Cars) (list : Cars) : Prop where
  last : lists.getLast? = some list
  stored : ∀ l ∈ lists, Stored l
  alike : ∀ l ∈ lists, (models l).Perm (models list)
  room : list.head.length + room < 2147483648

/-- The chain as the client knows it. -/
def Shows (room : Nat) (w : World) (list : Cars) : Prop := Mirrors room w.lists list

theorem Mirrors.weaken {n m : Nat} (hle : m ≤ n) {lists : List Cars} {list : Cars}
    (h : Mirrors n lists list) : Mirrors m lists list := by
  have hroom := h.room
  exact ⟨h.last, h.stored, h.alike, by omega⟩

theorem Mirrors.inRange {n : Nat} {lists : List Cars} {list : Cars} (h : Mirrors n lists list)
    {l : Cars} (hl : l ∈ lists) : ListInRange l := by
  have hroom := h.room
  have hlen := (h.alike l hl).length_eq
  simp only [models, List.length_map] at hlen
  exact ⟨(h.stored l hl).preco, by omega⟩

theorem Mirrors.list_mem {n : Nat} {lists : List Cars} {list : Cars} (h : Mirrors n lists list) :
    list ∈ lists := List.mem_of_getLast? h.last

/-! ## Writes on lists with the same models -/

theorem any_hasModel_iff (model : CString) (list : Cars) :
    list.head.any (hasModel model) = true ↔ some model ∈ models list := by
  rw [List.any_eq_true, models, List.mem_map]
  simp only [hasModel_iff]

theorem listRemoveByModel_alike {list list' : Cars} (h : (models list).Perm (models list'))
    (model : CString) :
    (listRemoveByModel list model).1 = (listRemoveByModel list' model).1 ∧
      (models (listRemoveByModel list model).2).Perm
        (models (listRemoveByModel list' model).2) := by
  have hany : list.head.any (hasModel model) = list'.head.any (hasModel model) := by
    rw [Bool.eq_iff_iff, any_hasModel_iff, any_hasModel_iff, h.mem_iff]
  have hnil : list.head = [] ↔ list'.head = [] := by
    rw [← List.length_eq_zero_iff, ← List.length_eq_zero_iff]
    have hlen := h.length_eq
    simp only [models, List.length_map] at hlen
    rw [hlen]
  have hfound : ∀ l : Cars, ∀ d, firstOfModel model l.head = some d → some model ∈ models l := by
    intro l d hd
    obtain ⟨hmem, hmodel⟩ := firstOfModel_mem hd
    exact List.mem_map.mpr ⟨d, hmem, hmodel⟩
  have hnone : ∀ l : Cars, firstOfModel model l.head = none → some model ∉ models l := by
    intro l hl hin
    obtain ⟨d, hd, hany⟩ := List.any_eq_true.mp ((any_hasModel_iff model l).mpr hin)
    exact List.find?_eq_none.mp hl d hd hany
  have htake : ∀ l : Cars, ∀ d rest, firstOfModel model l.head = some d →
      l.head.Perm (d :: rest) → (models l).Perm (some model :: rest.map DataT.modelo) := by
    intro l d rest hd hp
    rw [← (firstOfModel_mem hd).2]
    exact hp.map DataT.modelo
  refine ⟨?_, ?_⟩
  · rw [listRemoveByModel_result, listRemoveByModel_result, hany]
    simp only [hnil]
  · rcases listRemoveByModel_cases list model with ⟨hl, hf, _⟩ | ⟨d, rest, hf, hp, hr⟩ <;>
      rcases listRemoveByModel_cases list' model with ⟨hl', hf', _⟩ | ⟨d', rest', hf', hp', hr'⟩
    · rw [hl, hl']
      exact h
    · exact absurd (h.mem_iff.mpr (hfound list' d' hf')) (hnone list hf)
    · exact absurd (h.mem_iff.mp (hfound list d hf)) (hnone list' hf')
    · rw [hr, hr']
      exact (((htake list d rest hf hp).symm.trans h).trans
        (htake list' d' rest' hf' hp')).cons_inv

/-- A write returns the same on such lists and leaves such lists. -/
theorem localCall_alike {len : Nat} {op : Operation} (hop : Asks len .head op) {list list' : Cars}
    (h : (models list).Perm (models list')) :
    (localCall list op).1 = (localCall list' op).1 ∧
      (models (localCall list op).2).Perm (models (localCall list' op).2) := by
  cases hop with
  | @add car hv _ =>
    have hcopy : ∀ l : Cars, addCopy l (some car) = (0, listAdd l car) := by
      intro l
      rw [addCopy, Option.bind_some, dataDup_of_valid hv]
    rw [localCall, localCall, hcopy, hcopy]
    refine ⟨rfl, ?_⟩
    simp only [models, listAdd, List.map_append]
    exact h.append_right _
  | @removeByModel modelo _ =>
    obtain ⟨hresult, hmodels⟩ := listRemoveByModel_alike h modelo
    rw [localCall, localCall, hresult]
    exact ⟨rfl, hmodels⟩

/-- A call adds one car at most. -/
theorem localCall_length (list : Cars) (op : Operation) :
    (localCall list op).2.head.length ≤ list.head.length + 1 := by
  cases op with
  | add car =>
    rw [localCall, addCopy]
    split
    · exact Nat.le_succ _
    · simp [listAdd]
  | removeByModel modelo =>
    cases modelo with
    | none => exact Nat.le_succ _
    | some modelo =>
      rw [localCall]
      rcases listRemoveByModel_cases list modelo with ⟨hl, _, _⟩ | ⟨d, rest, _, hp, hr⟩
      · rw [hl]
        exact Nat.le_succ _
      · have hlen := hp.length_eq
        rw [List.length_cons] at hlen
        rw [hr]
        dsimp only
        omega
  | getByMarca marca => exact Nat.le_succ _
  | getByYear ano =>
    rw [localCall]
    split
    · exact Nat.le_succ_of_le (Nat.le_of_eq (listOrderByYear_perm list).length_eq)
    · exact Nat.le_succ _
  | size => exact Nat.le_succ _
  | getModelList => exact Nat.le_succ _

/-! ## What arrives -/

theorem wireCar_preco (car : DataT) : (wireCar car).preco ≠ 0x80000000 := by
  unfold wireCar
  split
  · show (0 : CFloat) ≠ 0x80000000
    decide
  · assumption

theorem wireCar_valid {car : DataT} (h : car.Valid) : (wireCar car).Valid := by
  unfold wireCar
  split
  · exact ⟨h.ano, (by decide : ltZero 0 = false), h.marca, h.combustivel, h.modelo⟩
  · exact h

theorem asks_onWire {len : Nat} {server : End} {op : Operation} (h : Asks len server op) :
    Asks len server (onWire op) := by
  cases h with
  | @add car hv hm =>
    refine .add (wireCar_valid hv) ?_
    unfold wireCar
    split <;> exact hm
  | removeByModel hm => exact .removeByModel hm
  | getByYear hano => exact .getByYear hano
  | getByMarca hmarca => exact .getByMarca hmarca
  | size => exact .size
  | getModelList => exact .getModelList

/-- The bytes are those of the request that arrives. -/
theorem frame_onWire {op : Operation} {req : MessageT} (hreq : req ∈ request op) :
    ∃ req' ∈ request (onWire op), frame protobuf req = frame protobuf req' := by
  cases op with
  | add car =>
    obtain ⟨car, rfl, rfl⟩ := Option.map_eq_some_iff.mp hreq
    refine ⟨_, rfl, ?_⟩
    unfold wireCar
    split
    · rename_i hpreco
      have hpack : Protobuf.messageTPack (rlistAddRequest car) =
          Protobuf.messageTPack (rlistAddRequest { car with preco := 0 }) := by
        simp only [Protobuf.messageTPack, rlistAddRequest, toData, modeloText, Protobuf.dataPack,
          Protobuf.packFloatField, hpreco]
        simp
      show htons (Protobuf.messageTPack _).length ++ Protobuf.messageTPack _ = _
      rw [hpack]
      rfl
    · rfl
  | removeByModel modelo => exact ⟨req, hreq, rfl⟩
  | getByMarca marca => exact ⟨req, hreq, rfl⟩
  | getByYear ano => exact ⟨req, hreq, rfl⟩
  | size => exact ⟨req, hreq, rfl⟩
  | getModelList => exact ⟨req, hreq, rfl⟩

theorem returned_onWire {op : Operation} (h : (request op).isSome = true)
    (resp : Option MessageT) : returned (onWire op) resp = returned op resp := by
  cases op with
  | add car =>
    cases car with
    | none => cases h
    | some car => rfl
  | removeByModel modelo => rfl
  | getByMarca marca => rfl
  | getByYear ano => rfl
  | size => rfl
  | getModelList => rfl

theorem argsInRange_onWire {len : Nat} {server : End} {op : Operation} (h : Asks len server op) :
    ArgsInRange (onWire op) := by
  cases h with
  | @add car hv _ =>
    intro d hd
    cases hd
    exact dataInRange_toData (wireCar_valid hv) (wireCar_preco car)
  | removeByModel _ => trivial
  | getByYear hano => exact hano
  | getByMarca hmarca => exact hmarca
  | size => trivial
  | getModelList => trivial

/-- The reply to a write is about as long as the request. -/
theorem replySize_write {op : Operation} (hop : Asks 1023 .head op) {req : MessageT}
    (hreq : req ∈ request op) (list : Cars) : replySize req list ≤ uint16Max := by
  have hsize := hop.request_size req hreq
  cases hop with
  | @add car _ _ =>
    cases hreq
    have hreply : replySize (rlistAddRequest car) list =
        4 + payloadSize (rlistAddRequest car) := by
      simp [replySize, replyData, replyResult, replyModels, replyCars, rlistAddRequest]
    rw [messageTGetPackedSize] at hsize
    rw [hreply]
    simp only [uint16Max]
    omega
  | @removeByModel modelo _ =>
    cases hreq
    have hresult : Int32 (replyResult (rlistRemoveByModelRequest modelo) list) := by
      have hdel : (rlistRemoveByModelRequest modelo).opcode = opDel ∧
          (rlistRemoveByModelRequest modelo).cType = ctModel := ⟨rfl, rfl⟩
      rw [replyResult, if_pos hdel]
      dsimp only [rlistRemoveByModelRequest]
      split
      · decide
      · split <;> decide
    have hreply : replySize (rlistRemoveByModelRequest modelo) list =
        4 + (0 + sint32Field (replyResult (rlistRemoveByModelRequest modelo) list) +
          repeatedField strlen [modelo] + 0) := by
      simp [replySize, replyData, replyModels, replyCars, rlistRemoveByModelRequest, payloadSize,
        messageTInit, repeatedField]
    have hfield := sint32Field_le hresult
    have hrequest : messageTGetPackedSize (rlistRemoveByModelRequest modelo) =
        4 + repeatedField strlen [modelo] := by
      simp [messageTGetPackedSize, payloadSize, rlistRemoveByModelRequest, messageTInit,
        repeatedField, int32Field_small (show Wire.Small opDel by decide),
        int32Field_small (show Wire.Small ctModel by decide), sint32Field]
    rw [hrequest] at hsize
    rw [hreply]
    simp only [uint16Max]
    omega

/-! ## One call -/

section Calls
variable {sched : Nat → Nat → Schedule} {op : Operation} {n : Nat} {w : World} {list : Cars}

theorem framedServer_of_fits {req : MessageT} (hreq : req ∈ request op)
    (hfits : replySize req list ≤ uint16Max) :
    framedServer op list = some (localCall list (onWire op)) := by
  rw [framedServer, hreq, if_pos]
  simpa using hfits

theorem stubWrite_request {len : Nat} (hop : Asks len .head op) {req : MessageT}
    (hreq : req ∈ request op) : StubWrite req := by
  cases hop with
  | add _ _ =>
    cases hreq
    exact .add _
  | removeByModel _ =>
    cases hreq
    exact .remove _

/-- The lists after a write at the first server. -/
theorem mirrors_write (hop : Asks 1023 .head op) {req : MessageT} (hreq : req ∈ request op)
    (hrange : InRange req) {lists : List Cars} (h : Mirrors (n + 1) lists list) :
    Mirrors n (lists.map fun l => (invoke req l).list) (localCall list op).2 := by
  have hlist := invoke_localCall (h.stored list h.list_mem).wellFormed hreq
  refine ⟨?_, ?_, ?_, ?_⟩
  · rw [List.getLast?_map, h.last, ← hlist]
    rfl
  · intro l hl
    obtain ⟨l', hl', rfl⟩ := List.mem_map.mp hl
    exact ⟨wellFormed_invoke req (h.stored l' hl').wellFormed,
      preco_invoke hrange (h.stored l' hl').preco⟩
  · intro l hl
    obtain ⟨l', hl', rfl⟩ := List.mem_map.mp hl
    rw [invoke_localCall (h.stored l' hl').wellFormed hreq]
    exact (localCall_alike hop (h.alike l' hl')).2
  · have hlen := localCall_length list op
    have hroom := h.room
    omega

theorem headServer_follows (hop : Asks 1023 .head op) (h : Mirrors (n + 1) w.lists list) :
    Follows (¬∀ i k, Ample (sched i k)) (Shows n)
      (headServer sched op w) (framedServer op list) := by
  obtain ⟨req, hreq⟩ : ∃ req, request op = some req := by cases hop <;> exact ⟨_, rfl⟩
  have hop' := asks_onWire hop
  obtain ⟨req', hreq', hframe⟩ := frame_onWire hreq
  have hwrite := stubWrite_request hop' hreq'
  have hrange := inRange_request (argsInRange_onWire hop) req' hreq'
  obtain ⟨first, behind, hlists⟩ : ∃ first behind, w.lists = first :: behind :=
    List.exists_cons_of_ne_nil fun hnil => by
      have hlast := h.last
      rw [hnil] at hlast
      cases hlast
  have hcarried : ChainCarried protobuf req' w.lists := by
    refine ⟨carried_of_inRange hrange (Nat.le_trans (hop'.request_size req' hreq') (by decide)),
      fun l hl => ?_⟩
    have hw := (h.stored l hl).wellFormed
    apply carried_of_inRange (inRange_reply hw hrange (h.inRange hl))
    rw [(foretold_invoke req' hw).size]
    exact replySize_write hop' hreq' l
  have hfirst : first ∈ w.lists := hlists ▸ List.mem_cons_self
  rw [framedServer_of_fits hreq (replySize_write hop hreq list), headServer, stubCall, hreq]
  dsimp only
  rw [hlists] at hcarried ⊢
  cases hcall : callFirst protobuf (sched w.calls) (first :: behind) req with
  | none =>
    refine .waits fun hample => ?_
    have hreturns := callFirst_returns hwrite hcarried (hample w.calls) hframe
    rw [hcall] at hreturns
    cases hreturns
  | some r =>
    have hr := callFirst_spec hwrite hcarried hframe hcall
    have hreturned := returned_invoke (h.stored first hfirst).wellFormed hreq'
    rw [returned_onWire (by rw [hreq]; rfl)] at hreturned
    rw [hr]
    dsimp only [Option.map_some]
    rw [hreturned, (localCall_alike hop' (h.alike first hfirst)).1]
    have hmirrors := mirrors_write hop' hreq' hrange h
    rw [hlists] at hmirrors
    exact .both hmirrors

/-- The lists after a read at the last server. -/
theorem mirrors_read (hop : Asks 1023 .tail op) {lists : List Cars}
    (h : Mirrors (n + 1) lists list) :
    Mirrors n (lists.dropLast ++ [(localCall list op).2]) (localCall list op).2 := by
  have hordered : (localCall list op).2.head.Perm list.head := by
    cases hop with
    | getByYear _ =>
      rw [localCall]
      split
      · exact listOrderByYear_perm list
      · exact List.Perm.refl _
    | getByMarca _ => exact List.Perm.refl _
    | size => exact List.Perm.refl _
    | getModelList => exact List.Perm.refl _
  have hstored := h.stored list h.list_mem
  have hafter : Stored (localCall list op).2 := by
    obtain ⟨req, hreq⟩ : ∃ req, request op = some req := by cases hop <;> exact ⟨_, rfl⟩
    refine ⟨?_, fun d hd => hstored.preco d (hordered.mem_iff.mp hd)⟩
    rw [← invoke_localCall hstored.wellFormed hreq]
    exact wellFormed_invoke req hstored.wellFormed
  have hmodels : (models (localCall list op).2).Perm (models list) := hordered.map DataT.modelo
  refine ⟨List.getLast?_concat, ?_, ?_, ?_⟩
  · intro l hl
    rcases List.mem_append.mp hl with hold | hnew
    · exact h.stored l (List.mem_of_mem_dropLast hold)
    · rw [List.mem_singleton.mp hnew]
      exact hafter
  · intro l hl
    rcases List.mem_append.mp hl with hold | hnew
    · exact (h.alike l (List.mem_of_mem_dropLast hold)).trans hmodels.symm
    · rw [List.mem_singleton.mp hnew]
  · have hroom := h.room
    have hlen := hordered.length_eq
    omega

theorem tailServer_follows (hop : Asks 1023 .tail op) (h : Mirrors (n + 1) w.lists list) :
    Follows (¬∀ i k, Ample (sched i k)) (Shows n)
      (tailServer sched op w) (framedServer op list) := by
  obtain ⟨req, hreq⟩ : ∃ req, request op = some req := by cases hop <;> exact ⟨_, rfl⟩
  have hsame : onWire op = op := by cases hop <;> rfl
  have hargs := argsInRange_onWire hop
  rw [hsame] at hargs
  have hw := (h.stored list h.list_mem).wellFormed
  have hsize : messageTGetPackedSize req ≤ uint16Max :=
    Nat.le_trans (hop.request_size req hreq) (by decide)
  have hcarried := carried_of_inRange (inRange_request hargs req hreq) hsize
  rw [tailServer, stubCall, hreq]
  dsimp only
  rw [h.last]
  dsimp only
  rcases Nat.lt_or_ge uint16Max (replySize req list) with hlong | hfits
  · have hnone : framedServer op list = none := by
      rw [framedServer, hreq, if_neg]
      simpa using hlong
    rw [hnone, networkSendReceive_waits packsToSize_protobuf hw hcarried hlong]
    exact .neither
  · have hx := exchanged_request hw (h.inRange h.list_mem) hargs req hreq hsize hfits
    rw [framedServer_of_fits hreq hfits, hsame]
    cases hn : networkSendReceive protobuf (sched w.calls 0) list req with
    | none =>
      refine .waits fun hample => ?_
      have ha := hample w.calls 0
      have hreturns := networkSendReceive_returns hx
        ⟨Nat.le_trans (frame_length_le hx.request) ha.requestWrites,
          Nat.le_trans (frame_length_le hx.request) ha.requestReads,
          Nat.le_trans (frame_length_le hx.reply) ha.replyWrites,
          Nat.le_trans (frame_length_le hx.reply) ha.replyReads⟩
      rw [hn] at hreturns
      cases hreturns
    | some r =>
      rw [networkSendReceive_spec hx hn]
      dsimp only [Option.map_some]
      rw [returned_invoke hw hreq, invoke_localCall hw hreq]
      exact .both (mirrors_read hop h)

end Calls

/-! ## The session -/

theorem mainLoop_follows (fl : Floats) (sched : Nat → Nat → Schedule) {stdin : List UInt8}
    {lists : List Cars} {list : Cars} (h : Mirrors stdin.length lists list) (calls : Nat) :
    Follows (¬∀ i k, Ample (sched i k)) (Shows 0)
      (mainLoop fl (chainClient sched) stdin ⟨lists, calls⟩)
      (mainLoop fl localClient stdin list) := by
  obtain ⟨buffers, hreads⟩ := @exists_reads _ newline 1023 (by decide) stdin
  have hbuffer := hreads.buffer_length (by decide)
  have hcount : buffers.length ≤ stdin.length := by
    rw [← hreads.flatten]
    clear hreads h
    induction buffers with
    | nil => exact Nat.le_refl 0
    | cons buffer buffers ih =>
      rw [List.forall_mem_cons] at hbuffer
      have hpos := List.length_pos_iff.mpr hbuffer.1.1
      have hrest := ih hbuffer.2
      rw [List.length_cons, List.flatten_cons, List.length_append]
      omega
  rw [mainLoop_session fl _ hreads, mainLoop_session fl _ hreads]
  apply session_follows (R := Shows)
  · exact fun n _ _ h => Mirrors.weaken (Nat.le_succ n) h
  · intro server
    cases server <;> rfl
  · intro server f f' hf hf' op hop n w list hR
    cases server with
    | head =>
      cases hf
      cases hf'
      exact headServer_follows hop hR
    | tail =>
      cases hf
      cases hf'
      exact tailServer_follows hop hR
  · intro linha hl
    obtain ⟨buffer, hb, rfl⟩ := List.mem_map.mp hl
    exact strlen_cutNewline (hbuffer buffer hb).2
  · rw [List.length_map]
    exact h.weaken hcount

/-- **A session on a chain is a session on one list behind frames**: whatever is
typed and however the bytes are split, it prints what that list makes it print and
leaves the last server that list; and it ends when that one does, if the calls
suffice. -/
theorem session_refines_local (fl : Floats) {stdin : List UInt8} {lists : List Cars} {list : Cars}
    (h : Mirrors stdin.length lists list) :
    (∀ sched out w, mainLoop fl (chainClient sched) stdin ⟨lists, 0⟩ = some (out, w) →
      ∃ list', mainLoop fl localClient stdin list = some (out, list') ∧ Mirrors 0 w.lists list') ∧
    ∀ sched, (∀ i k, Ample (sched i k)) →
      ∀ out list', mainLoop fl localClient stdin list = some (out, list') →
        ∃ w, mainLoop fl (chainClient sched) stdin ⟨lists, 0⟩ = some (out, w) ∧
          Mirrors 0 w.lists list' := by
  constructor
  · intro sched out w hrun
    have hfollows := mainLoop_follows fl sched h 0
    rw [hrun] at hfollows
    generalize mainLoop fl localClient stdin list = r at hfollows
    cases hfollows with
    | @both _ _ list' hR => exact ⟨list', rfl, hR⟩
  · intro sched hample out list' hrun
    have hfollows := mainLoop_follows fl sched h 0
    rw [hrun] at hfollows
    generalize mainLoop fl (chainClient sched) stdin ⟨lists, 0⟩ = r at hfollows
    cases hfollows with
    | waits hw => exact absurd hample hw
    | @both _ w _ hR => exact ⟨w, rfl, hR⟩

/-- Each call moves one byte. -/
def ampleSchedule : Schedule :=
  let calls := List.replicate (2 + uint16Max) (Call.moves 0)
  ⟨calls, calls, calls, calls⟩

theorem ample_ampleSchedule : Ample ampleSchedule := by
  have hcalls : 2 + uint16Max ≤ transfers (List.replicate (2 + uint16Max) (Call.moves 0)) := by
    rw [transfers, List.countP_replicate]
    exact Nat.le_refl _
  exact ⟨hcalls, hcalls, hcalls, hcalls⟩

/-- Servers that have just started. -/
theorem mirrors_fresh {room : Nat} (hroom : room < 2147483648) (behind : Nat) :
    Mirrors room (List.replicate (behind + 1) listCreate) listCreate := by
  have hlist : ∀ l ∈ List.replicate (behind + 1) (listCreate : Cars), l = listCreate :=
    fun l hl => List.eq_of_mem_replicate hl
  refine ⟨by simp [List.getLast?_replicate], ?_, ?_, ?_⟩
  · intro l hl
    rw [hlist l hl]
    exact ⟨wellFormed_listCreate, fun d hd => by cases hd⟩
  · intro l hl
    rw [hlist l hl]
  · show 0 + room < 2147483648
    omega

theorem session_refines_local_sampleScript :
    ∃ out list' w,
      mainLoop sampleFloats localClient (script (sampleScript.map Prod.snd)) listCreate =
        some (out, list') ∧
      mainLoop sampleFloats (chainClient fun _ _ => ampleSchedule)
        (script (sampleScript.map Prod.snd)) ⟨List.replicate 3 listCreate, 0⟩ = some (out, w) ∧
      list'.head.length = 1 ∧ Mirrors 0 w.lists list' := by
  have hreads := @reads_script (sampleScript.map Prod.snd ++ [quit]) (by decide +kernel) [] []
    .done
  have hlocal : ∃ r, mainLoop sampleFloats localClient (script (sampleScript.map Prod.snd))
      listCreate = some r ∧ r.2.head.length = 1 := by
    rw [← List.append_nil (script _), script, mainLoop_session sampleFloats _ hreads]
    have hrun : (session sampleFloats localClient ((((sampleScript.map Prod.snd ++ [quit]).map
        fun linha : CString => linha.bytes ++ [10]) ++ []).map cutNewline) listCreate).any
          (fun r => r.2.head.length = 1) = true := by decide +kernel
    obtain ⟨r, hr, hone⟩ := (Option.any_eq_true _ _).mp hrun
    exact ⟨r, hr, by simpa using hone⟩
  obtain ⟨⟨out, list'⟩, hrun, hone⟩ := hlocal
  have hroom : (script (sampleScript.map Prod.snd)).length < 2147483648 := by decide +kernel
  obtain ⟨w, hchain, hw⟩ := (session_refines_local sampleFloats (mirrors_fresh hroom 2)).2 _
    (fun _ _ => ample_ampleSchedule) out list' hrun
  exact ⟨out, list', w, hrun, hchain, hone, hw⟩

end CarChain.Sessions
