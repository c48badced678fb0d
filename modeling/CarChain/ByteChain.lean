import CarChain.Remote

/-!
# A call along a chain

A request at the first server of a chain, down to the bytes: the client writes
it and waits, the server executes it and, when it is a write and another server
stands behind, sends it on with `network_send` and waits in `network_receive`
for the reply of that server, which does the same.  However the bytes of each
connection are split, a write is executed by every server and the client gets
the reply of the first one (`callFirst_spec`), if the writes and reads are
enough (`callFirst_returns`).
-/

namespace CarChain.ByteChain
open CarChain.Record CarChain.Message CarChain.CarList CarChain.Skeleton CarChain.Lists
open CarChain.Stub CarChain.Handler CarChain.Transfer CarChain.Framing CarChain.Answering
open CarChain.Remote

/-! ## Servers behind one another -/

/-- What a server leaves of the bytes it was sent: what it wrote back, its list
and those behind it, and whether it left its loop. -/
structure Served where
  written : List UInt8
  lists : List Cars
  ended : Bool

/-- `network_send` and `network_receive` on the connection to the successor,
`next` being what that server makes of the bytes; `none` while it waits. -/
def exchange (c : Codec) (sched : Schedule) (next : List UInt8 → Option Served)
    (behind : List Cars) (msg : MessageT) : Option (Exchange × List Cars) :=
  match networkSend c sched.requestWrites msg with
  | none => none
  | some sent =>
    if sent.code ≠ 0 then some (.sendFailed, behind)
    else
      match next sent.bytes with
      | none => none
      | some served =>
        if served.ended = false ∧ served.written = [] then none
        else
          (networkReceive c sched.replyReads served.written).map fun received =>
            (match received.msg with
              | none => .noReply
              | some resp => .reply resp, served.lists)

/-- The reply goes to the sender of the request. -/
def answer (c : Codec) (calls : List Call) (handled : Handled) (behind : List Cars) :
    Option Served :=
  (networkSend c calls handled.reply).map fun sent => ⟨sent.bytes, handled.list :: behind, false⟩

/-- One iteration of `handle_client` at the first of the servers that hold these
lists; `sched k` are the calls on the connection to the server with number `k`. -/
def serve (c : Codec) (sched : Nat → Schedule) : Nat → List Cars → List UInt8 → Option Served
  | _, [], _ => none
  | k, list :: behind, stream =>
    match networkReceive c (sched k).requestReads stream with
    | none => none
    | some received =>
      match received.msg with
      | none => some ⟨[], list :: behind, true⟩
      | some req =>
        if (afterInvoke req (invoke req list)).2 = false ∨ behind = [] then
          answer c (sched k).replyWrites (handleClient none req list) behind
        else
          match exchange c (sched (k + 1)) (serve c sched (k + 1) behind) behind
            (propagateMsg req) with
          | none => none
          | some (ex, behind) =>
            answer c (sched k).replyWrites (handleClient (some fun _ => ex) req list) behind

/-- `network_send_receive` of a client of the first server. -/
def callFirst (c : Codec) (sched : Nat → Schedule) (lists : List Cars) (msg : MessageT) :
    Option (Option MessageT × List Cars) :=
  match sendRequest c (sched 0).requestWrites msg with
  | none => none
  | some sent =>
    if sent.code = -1 then some (none, lists)
    else
      match serve c sched 0 lists sent.bytes with
      | none => none
      | some served =>
        if served.ended = false ∧ served.written = [] then none
        else
          (receiveResponse c (sched 0).replyReads served.written).map fun received =>
            (received.msg, served.lists)

/-! ## Agreement with the single server -/

/-- A server with nobody behind it is the server without successor. -/
theorem serve_singleton (c : Codec) (sched : Nat → Schedule) (k : Nat) (list : Cars)
    (stream : List UInt8) :
    serve c sched k [list] stream =
      (iteration c (sched k).requestReads (sched k).replyWrites none stream list).map fun it =>
        ⟨it.written, [it.list], it.ended⟩ := by
  unfold serve iteration
  cases networkReceive c (sched k).requestReads stream with
  | none => rfl
  | some received =>
    dsimp only
    cases received.msg with
    | none => rfl
    | some req =>
      dsimp only
      rw [if_pos (Or.inr rfl), answer, handleRequest, Option.map_map]
      rfl

/-! ## A write -/

/-- The request and the reply of each server can be carried. -/
structure ChainCarried (c : Codec) (req : MessageT) (lists : List Cars) : Prop where
  request : Carried c req
  replies : ∀ list ∈ lists, Carried c (invoke req list).msg

/-- Whether a write of the stubs is refused does not depend on the list. -/
theorem refused_everywhere {req : MessageT} (h : StubWrite req) {list list' : Cars}
    (he : (invoke req list).msg.opcode = opError) :
    (invoke req list').msg = replyError (invoke req list').msg := by
  cases h with
  | add car =>
    rw [invoke_add rfl] at he ⊢
    rcases invokeAdd_outcome (rlistAddRequest car) with hr | ⟨_, _, _, _, _, hr⟩
    · rw [hr]
      rfl
    · rw [hr] at he
      simp at he
  | remove modelo =>
    rw [invoke_del rfl] at he
    simp [invokeDel, rlistRemoveByModelRequest] at he

/-- A server whose successor executed the write replies as if it stood alone. -/
theorem handleClient_reply_write {req : MessageT} (h : StubWrite req) (list next : Cars) :
    handleClient (some fun _ => .reply (invoke req next).msg) req list =
      ⟨(invoke req list).list, (invoke req list).msg,
        some (req, .reply (invoke req next).msg)⟩ := by
  rw [handleClient_some (isWriteOp_of_stubWrite h), propagateMsg_of_stubWrite h]
  congr 1
  unfold afterExchange
  dsimp only
  split
  · rename_i he
    exact (refused_everywhere h he).symm
  · rfl

theorem answer_spec {c : Codec} {calls : List Call} {handled : Handled} {behind : List Cars}
    (hfit : (c.pack handled.reply).length ≤ uint16Max) {served : Served}
    (h : answer c calls handled behind = some served) :
    served = ⟨frame c handled.reply, handled.list :: behind, false⟩ := by
  obtain ⟨sent, hsent, rfl⟩ := Option.map_eq_some_iff.mp h
  obtain ⟨_, hbytes, _⟩ := networkSend_spec hfit hsent
  rw [hbytes]

theorem frame_ne_nil (c : Codec) (msg : MessageT) : frame c msg ≠ [] := by
  intro h
  have hlen := congrArg List.length h
  rw [frame_length, List.length_nil] at hlen
  omega

/-- The exchange with a successor that serves the request. -/
theorem exchange_spec {c : Codec} {sched : Schedule} {next : List UInt8 → Option Served}
    {behind after : List Cars} {msg reply : MessageT} (hmsg : Carried c msg)
    (hreply : Carried c reply)
    (hnext : ∀ served, next (frame c msg) = some served →
      served = ⟨frame c reply, after, false⟩)
    {r : Exchange × List Cars} (h : exchange c sched next behind msg = some r) :
    r = (.reply reply, after) := by
  unfold exchange at h
  split at h
  · cases h
  · rename_i sent hsent
    obtain ⟨hcode, hbytes, _⟩ := networkSend_spec hmsg.fits hsent
    rw [hcode, if_neg (by decide), hbytes] at h
    split at h
    · cases h
    · rename_i served hserved
      rw [hnext served hserved, if_neg fun hw => frame_ne_nil c reply hw.2] at h
      obtain ⟨received, hreceived, rfl⟩ := Option.map_eq_some_iff.mp h
      dsimp only at hreceived
      rw [← List.append_nil (frame c reply)] at hreceived
      obtain ⟨hgot, _, _⟩ := networkReceive_spec hreply.fits hreceived
      rw [hgot, hreply.undoes]

/-- A server that got a carried request. -/
theorem serve_frame {c : Codec} {sched : Nat → Schedule} {k : Nat} {list : Cars}
    {behind : List Cars} {req : MessageT} (hreq : Carried c req) {received : Received}
    (h : networkReceive c (sched k).requestReads (frame c req) = some received) :
    serve c sched k (list :: behind) (frame c req) =
      if isWriteOp req = false ∨ behind = [] then
        answer c (sched k).replyWrites (handleClient none req list) behind
      else
        match exchange c (sched (k + 1)) (serve c sched (k + 1) behind) behind
          (propagateMsg req) with
        | none => none
        | some (ex, behind) =>
          answer c (sched k).replyWrites (handleClient (some fun _ => ex) req list) behind := by
  have h' := h
  rw [← List.append_nil (frame c req)] at h'
  obtain ⟨hmsg, _, _⟩ := networkReceive_spec hreq.fits h'
  rw [hreq.undoes] at hmsg
  rw [serve, h]
  dsimp only
  rw [hmsg]
  dsimp only
  rw [afterInvoke_invoke]

/-- **A write reaches every server** and is answered with the first one's reply. -/
theorem serve_spec {c : Codec} {req : MessageT} (hw : StubWrite req) {list : Cars}
    {behind : List Cars} (hc : ChainCarried c req (list :: behind)) {sched : Nat → Schedule}
    {k : Nat} {served : Served} (h : serve c sched k (list :: behind) (frame c req) = some served) :
    served = ⟨frame c (invoke req list).msg,
      (list :: behind).map fun list => (invoke req list).list, false⟩ := by
  induction behind generalizing list k served with
  | nil =>
    have hreply := hc.replies list List.mem_cons_self
    cases hr : networkReceive c (sched k).requestReads (frame c req) with
    | none => simp [serve, hr] at h
    | some received =>
      rw [serve_frame hc.request hr, if_pos (Or.inr rfl), handleClient_none] at h
      exact answer_spec hreply.fits h
  | cons next behind ih =>
    have hreply := hc.replies list List.mem_cons_self
    have hnext : ChainCarried c req (next :: behind) :=
      ⟨hc.request, fun l hl => hc.replies l (List.mem_cons_of_mem list hl)⟩
    cases hr : networkReceive c (sched k).requestReads (frame c req) with
    | none => simp [serve, hr] at h
    | some received =>
      rw [serve_frame hc.request hr, isWriteOp_of_stubWrite hw, if_neg (by simp),
        propagateMsg_of_stubWrite hw] at h
      split at h
      · cases h
      · rename_i ex after hex
        have heq := exchange_spec hc.request (hnext.replies next List.mem_cons_self)
          (fun _ hs => ih hnext hs) hex
        cases heq
        rw [handleClient_reply_write hw] at h
        exact answer_spec hreply.fits h

/-! ## Enough calls -/

/-- Calls enough for the longest frame, on every connection and both ways. -/
structure Ample (sched : Schedule) : Prop where
  requestWrites : 2 + uint16Max ≤ transfers sched.requestWrites
  requestReads : 2 + uint16Max ≤ transfers sched.requestReads
  replyWrites : 2 + uint16Max ≤ transfers sched.replyWrites
  replyReads : 2 + uint16Max ≤ transfers sched.replyReads

theorem frame_length_le {c : Codec} {msg : MessageT} (h : Carried c msg) :
    (frame c msg).length ≤ 2 + uint16Max := by
  rw [frame_length]
  exact Nat.add_le_add_left h.fits 2

theorem answer_returns {c : Codec} {calls : List Call} {handled : Handled} {behind : List Cars}
    (hfit : (c.pack handled.reply).length ≤ uint16Max) (h : 2 + uint16Max ≤ transfers calls) :
    (answer c calls handled behind).isSome = true := by
  unfold answer
  rw [Option.isSome_map]
  apply networkSend_returns
  rw [frame_length]
  omega

theorem exchange_returns {c : Codec} {sched : Schedule} (ha : Ample sched)
    {next : List UInt8 → Option Served} (behind : List Cars) {after : List Cars}
    {msg reply : MessageT} (hmsg : Carried c msg) (hreply : Carried c reply)
    (hnext : next (frame c msg) = some ⟨frame c reply, after, false⟩) :
    (exchange c sched next behind msg).isSome = true := by
  have hsends : (networkSend c sched.requestWrites msg).isSome = true :=
    networkSend_returns (Nat.le_trans (frame_length_le hmsg) ha.requestWrites)
  obtain ⟨sent, hsent⟩ := Option.isSome_iff_exists.mp hsends
  obtain ⟨hcode, hbytes, _⟩ := networkSend_spec hmsg.fits hsent
  have hreceives : (networkReceive c sched.replyReads (frame c reply ++ [])).isSome = true :=
    networkReceive_returns hreply.fits (Nat.le_trans (frame_length_le hreply) ha.replyReads)
  rw [List.append_nil] at hreceives
  unfold exchange
  rw [hsent]
  dsimp only
  rw [hcode, if_neg (by decide), hbytes, hnext]
  dsimp only
  rw [if_neg fun hw => frame_ne_nil c reply hw.2, Option.isSome_map]
  exact hreceives

theorem receives_request {c : Codec} {sched : Schedule} (ha : Ample sched) {req : MessageT}
    (hreq : Carried c req) :
    ∃ received, networkReceive c sched.requestReads (frame c req) = some received := by
  have hreceives : (networkReceive c sched.requestReads (frame c req ++ [])).isSome = true :=
    networkReceive_returns hreq.fits (Nat.le_trans (frame_length_le hreq) ha.requestReads)
  rw [List.append_nil] at hreceives
  exact Option.isSome_iff_exists.mp hreceives

theorem serve_returns {c : Codec} {req : MessageT} (hw : StubWrite req) {list : Cars}
    {behind : List Cars} (hc : ChainCarried c req (list :: behind)) {sched : Nat → Schedule}
    (ha : ∀ k, Ample (sched k)) (k : Nat) :
    (serve c sched k (list :: behind) (frame c req)).isSome = true := by
  induction behind generalizing list k with
  | nil =>
    obtain ⟨received, hr⟩ := receives_request (ha k) hc.request
    rw [serve_frame hc.request hr, if_pos (Or.inr rfl), handleClient_none]
    exact answer_returns (hc.replies list List.mem_cons_self).fits (ha k).replyWrites
  | cons next behind ih =>
    have hnext : ChainCarried c req (next :: behind) :=
      ⟨hc.request, fun l hl => hc.replies l (List.mem_cons_of_mem list hl)⟩
    obtain ⟨received, hr⟩ := receives_request (ha k) hc.request
    obtain ⟨served, hserved⟩ := Option.isSome_iff_exists.mp (ih hnext (k + 1))
    have hspec := serve_spec hw hnext hserved
    rw [hspec] at hserved
    have hreply := hnext.replies next List.mem_cons_self
    obtain ⟨r, hex⟩ := Option.isSome_iff_exists.mp
      (exchange_returns (ha (k + 1)) (next :: behind) hc.request hreply hserved)
    have heq := exchange_spec hc.request hreply (fun _ hs => serve_spec hw hnext hs) hex
    rw [serve_frame hc.request hr, isWriteOp_of_stubWrite hw, if_neg (by simp),
      propagateMsg_of_stubWrite hw, hex, heq]
    dsimp only
    rw [handleClient_reply_write hw]
    exact answer_returns (hc.replies list List.mem_cons_self).fits (ha k).replyWrites

/-! ## The client -/

/-- What a client of the first server gets, and the lists after its write. -/
theorem callFirst_spec {c : Codec} {req : MessageT} (hw : StubWrite req) {list : Cars}
    {behind : List Cars} (hc : ChainCarried c req (list :: behind)) {sched : Nat → Schedule}
    {sentMsg : MessageT} (hsame : frame c sentMsg = frame c req)
    {r : Option MessageT × List Cars}
    (h : callFirst c sched (list :: behind) sentMsg = some r) :
    r = (some (invoke req list).msg, (list :: behind).map fun list => (invoke req list).list) := by
  unfold callFirst at h
  split at h
  · cases h
  · rename_i sent hsent
    obtain ⟨hcode, hbytes⟩ := sendRequest_spec hsent
    rw [hcode, if_neg (by decide), hbytes, hsame] at h
    split at h
    · cases h
    · rename_i served hserved
      have hreply := hc.replies list List.mem_cons_self
      rw [serve_spec hw hc hserved, if_neg fun hnil => frame_ne_nil c _ hnil.2] at h
      obtain ⟨received, hreceived, rfl⟩ := Option.map_eq_some_iff.mp h
      dsimp only [receiveResponse] at hreceived
      rw [← List.append_nil (frame c _)] at hreceived
      obtain ⟨hgot, _, _⟩ := networkReceive_spec hreply.fits hreceived
      rw [hgot, hreply.undoes]

theorem callFirst_returns {c : Codec} {req : MessageT} (hw : StubWrite req) {list : Cars}
    {behind : List Cars} (hc : ChainCarried c req (list :: behind)) {sched : Nat → Schedule}
    (ha : ∀ k, Ample (sched k)) {sentMsg : MessageT} (hsame : frame c sentMsg = frame c req) :
    (callFirst c sched (list :: behind) sentMsg).isSome = true := by
  have hsends : (sendRequest c (sched 0).requestWrites sentMsg).isSome = true :=
    sendRequest_returns (hsame ▸ Nat.le_trans (frame_length_le hc.request) (ha 0).requestWrites)
  obtain ⟨sent, hsent⟩ := Option.isSome_iff_exists.mp hsends
  obtain ⟨hcode, hbytes⟩ := sendRequest_spec hsent
  obtain ⟨served, hserved⟩ := Option.isSome_iff_exists.mp (serve_returns hw hc ha 0)
  have hspec := serve_spec hw hc hserved
  have hreply := hc.replies list List.mem_cons_self
  have hreceives : (networkReceive c (sched 0).replyReads
      (frame c (invoke req list).msg ++ [])).isSome = true :=
    networkReceive_returns hreply.fits (Nat.le_trans (frame_length_le hreply) (ha 0).replyReads)
  rw [List.append_nil] at hreceives
  unfold callFirst
  rw [hsent]
  dsimp only
  rw [hcode, if_neg (by decide), hbytes, hsame, hserved, hspec]
  dsimp only
  rw [if_neg fun hnil => frame_ne_nil c _ hnil.2, Option.isSome_map]
  exact hreceives

end CarChain.ByteChain
