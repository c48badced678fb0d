import CarChain.Answering

/-!
# A connection from its first byte to its last

The loop of `handle_client`: while no shutdown was requested a request is
received and handled, and the loop is left at the first one that cannot be had.
Between two turns of this handler others run theirs on the same list.  Whatever
bytes the peer sends, and however they are split, the handler executes the
requests they hold (`requests`) in order, once each, up to the first frame that
is cut off or makes no message, and writes the replies that fit a frame in that
order (`handler_serves`).

Two things are left out that keep a handler for ever: a turn takes its exchange
with the successor as one that comes to an end (`CarChain.Answering.turn` has the
others), and the end of the stream is met with `errno` other than `EINTR`
(`CarChain.EndOfStream` has the loop of `read_all` that does not).
-/

namespace CarChain.Serving
open CarChain.Message CarChain.CarList CarChain.Skeleton CarChain.Handler CarChain.Transfer
open CarChain.Framing CarChain.Answering CarChain.Stub

/-! ## The loop -/

/-- One turn of the loop: whether a shutdown was requested when it began, the
calls of `read` and `write` on the connection, the requests other handlers
executed since the last turn, and `g_successor` as the exchange it gives. -/
structure Turn where
  shutdown : Bool
  reads : List Call
  writes : List Call
  others : List MessageT
  successor : Option (MessageT → Exchange)

/-- The list after what other handlers executed. -/
def meanwhile (others : List MessageT) (list : Cars) : Cars :=
  others.foldl (fun list msg => (invoke msg list).list) list

/-- What is left after some turns: the list, what was written, what was not read,
and whether the loop was left.  Each exchange comes to an end, and no interrupted
call leaves `EINTR` in `errno` for the end of the stream. -/
def handlerLoop (c : Codec) : List Turn → List UInt8 → Cars → Option Iteration
  | [], stream, list => some ⟨list, [], stream, false⟩
  | turn :: turns, stream, list =>
    if turn.shutdown then some ⟨list, [], stream, true⟩
    else
      let list := meanwhile turn.others list
      match iteration c turn.reads turn.writes turn.successor stream list with
      | none => none
      | some it =>
        if it.ended then some it
        else
          (handlerLoop c turns it.unread it.list).map fun r =>
            { r with written := it.written ++ r.written }

/-! ## What a stream holds -/

instance (part : List UInt8) : Decidable (Short part) :=
  inferInstanceAs (Decidable (part.length < 2 + ntohs (part.take 2)))

/-- The payload of the first frame, and what follows it. -/
def payload (stream : List UInt8) : List UInt8 := (stream.drop 2).take (ntohs (stream.take 2))

def beyond (stream : List UInt8) : List UInt8 := (stream.drop 2).drop (ntohs (stream.take 2))

theorem beyond_shorter {stream : List UInt8} (h : ¬Short stream) :
    (beyond stream).length + 2 ≤ stream.length := by
  unfold Short at h
  unfold beyond
  rw [List.length_drop, List.length_drop]
  omega

/-- The messages of the whole frames before the first one that makes none. -/
def requests (c : Codec) (stream : List UInt8) : List MessageT :=
  if h : Short stream then []
  else
    have := beyond_shorter h
    match c.unpack (payload stream) with
    | none => []
    | some req => req :: requests c (beyond stream)
termination_by stream.length

theorem requests_short {c : Codec} {stream : List UInt8} (h : Short stream) :
    requests c stream = [] := by
  rw [requests, dif_pos h]

theorem requests_bad {c : Codec} {stream : List UInt8} (h : ¬Short stream)
    (hbad : c.unpack (payload stream) = none) : requests c stream = [] := by
  rw [requests, dif_neg h, hbad]

theorem requests_cons {c : Codec} {stream : List UInt8} (h : ¬Short stream) {req : MessageT}
    (hreq : c.unpack (payload stream) = some req) :
    requests c stream = req :: requests c (beyond stream) := by
  rw [requests, dif_neg h, hreq]

/-- Frames that were sent are found again, whatever comes after them. -/
theorem requests_frames {c : Codec} {msgs : List MessageT} (hc : ∀ msg ∈ msgs, Carried c msg)
    (rest : List UInt8) : requests c (frames c msgs ++ rest) = msgs ++ requests c rest := by
  induction msgs with
  | nil => rfl
  | cons msg msgs ih =>
    rw [List.forall_mem_cons] at hc
    have hlen : ntohs (htons (c.pack msg).length) = (c.pack msg).length := ntohs_htons hc.1.fits
    have hstream : frames c (msg :: msgs) ++ rest =
        htons (c.pack msg).length ++ (c.pack msg ++ (frames c msgs ++ rest)) := by
      rw [frames_cons, frame, List.append_assoc, List.append_assoc]
    have hhead : (frames c (msg :: msgs) ++ rest).take 2 = htons (c.pack msg).length := by
      rw [hstream, List.take_left' (htons_length _)]
    have htail : (frames c (msg :: msgs) ++ rest).drop 2 =
        c.pack msg ++ (frames c msgs ++ rest) := by
      rw [hstream, List.drop_left' (htons_length _)]
    have hshort : ¬Short (frames c (msg :: msgs) ++ rest) := by
      unfold Short
      rw [hhead, hlen, hstream, List.length_append, List.length_append, htons_length]
      omega
    have hpayload : payload (frames c (msg :: msgs) ++ rest) = c.pack msg := by
      rw [payload, hhead, hlen, htail, List.take_left]
    have hbeyond : beyond (frames c (msg :: msgs) ++ rest) = frames c msgs ++ rest := by
      rw [beyond, hhead, hlen, htail, List.drop_left]
    rw [requests_cons hshort (by rw [hpayload, hc.1.undoes]), hbeyond, ih hc.2, List.cons_append]

/-- A stream that holds a whole frame gives what its payload makes. -/
theorem networkReceive_whole {c : Codec} {calls : List Call} {stream : List UInt8}
    (hw : ¬Short stream) {r : Received} (h : networkReceive c calls stream = some r) :
    r.msg = c.unpack (payload stream) ∧ r.rest = beyond stream := by
  unfold Short at hw
  unfold networkReceive at h
  split at h
  · cases h
  · rename_i netlen hlen
    obtain ⟨hgot, hrest, hok, _⟩ := move_spec hlen
    have hlong : 2 ≤ stream.length := by omega
    rw [hok.mpr hlong, if_neg (by simp), hgot, hrest] at h
    split at h
    · cases h
    · rename_i buf hbuf
      obtain ⟨hgot', hrest', hok', _⟩ := move_spec hbuf
      have hwhole : ntohs (stream.take 2) ≤ (stream.drop 2).length := by
        rw [List.length_drop]
        omega
      rw [hok'.mpr hwhole, if_neg (by simp), hgot', hrest'] at h
      cases h
      exact ⟨rfl, rfl⟩

theorem ntohs_head (stream : List UInt8) : ntohs (stream.take 2) ≤ uint16Max := by
  rcases stream with _ | ⟨a, _ | ⟨b, rest⟩⟩
  · decide
  · have ha := a.toNat_lt
    simp only [List.take, ntohs, List.foldl_cons, List.foldl_nil, uint16Max]
    omega
  · have ha := a.toNat_lt
    have hb := b.toNat_lt
    simp only [List.take, ntohs, List.foldl_cons, List.foldl_nil, uint16Max]
    omega

/-- As many calls as a frame has bytes at most bring `network_receive` back. -/
theorem networkReceive_ample {c : Codec} {calls : List Call} {stream : List UInt8}
    (h : 2 + uint16Max ≤ transfers calls) : (networkReceive c calls stream).isSome = true := by
  have hlen : (readAll calls 2 stream).isSome = true :=
    move_returns (Nat.le_trans (Nat.min_le_left _ _) (by omega))
  obtain ⟨netlen, hlen⟩ := Option.isSome_iff_exists.mp hlen
  obtain ⟨hgot, _, _, hcalls⟩ := move_spec hlen
  have hbuf : (readAll netlen.calls (ntohs netlen.got) netlen.rest).isSome = true := by
    apply move_returns
    have hle := ntohs_head stream
    rw [hgot]
    omega
  obtain ⟨buf, hbuf⟩ := Option.isSome_iff_exists.mp hbuf
  unfold networkReceive
  rw [hlen]
  dsimp only
  split
  · rfl
  · rw [hbuf]
    dsimp only
    split <;> rfl

/-! ## What the handler does with them -/

/-- The requests of a stream handled one a turn, with the list between them in
the hands of the others: the list, the replies, and whether the loop is left. -/
def served : List Turn → List MessageT → Cars → Cars × List MessageT × Bool
  | [], _, list => (list, [], false)
  | turn :: turns, reqs, list =>
    if turn.shutdown then (list, [], true)
    else
      let list := meanwhile turn.others list
      match reqs with
      | [] => (list, [], true)
      | req :: reqs =>
        let handled := handleClient turn.successor req list
        let r := served turns reqs handled.list
        (r.1, handled.reply :: r.2.1, r.2.2)

/-- All requests these turns execute, those of the others before their own. -/
def executed : List Turn → List MessageT → List MessageT
  | [], _ => []
  | turn :: turns, reqs =>
    if turn.shutdown then []
    else
      match reqs with
      | [] => turn.others
      | req :: reqs => turn.others ++ req :: executed turns reqs

/-- Nothing but those requests changes the list, each of them once. -/
theorem served_list (turns : List Turn) (reqs : List MessageT) (list : Cars) :
    (served turns reqs list).1 = meanwhile (executed turns reqs) list := by
  induction turns generalizing reqs list with
  | nil => rfl
  | cons turn turns ih =>
    unfold served executed
    split
    · rfl
    · cases reqs with
      | nil => rfl
      | cons req reqs =>
        dsimp only
        rw [ih, handleClient_list, meanwhile, meanwhile, meanwhile, List.foldl_append,
          List.foldl_cons]

/-- Without a shutdown every request has its reply, if there are turns enough. -/
theorem served_replies {turns : List Turn} (hrun : ∀ turn ∈ turns, turn.shutdown = false)
    (reqs : List MessageT) (list : Cars) :
    (served turns reqs list).2.1.length = min turns.length reqs.length ∧
      ((served turns reqs list).2.2 = true ↔ reqs.length < turns.length) := by
  induction turns generalizing reqs list with
  | nil => simp [served]
  | cons turn turns ih =>
    rw [List.forall_mem_cons] at hrun
    rw [served, hrun.1, if_neg (by simp)]
    cases reqs with
    | nil => simp
    | cons req reqs =>
      obtain ⟨hlength, hended⟩ := ih hrun.2 reqs
        (handleClient turn.successor req (meanwhile turn.others list)).list
      dsimp only
      rw [List.length_cons, List.length_cons, List.length_cons, hlength, hended]
      exact ⟨by omega, by omega⟩

/-- The replies that get through, in their order. -/
def delivered (c : Codec) (replies : List MessageT) : List MessageT :=
  replies.filter fun reply => (c.pack reply).length ≤ uint16Max

theorem frames_delivered_cons (c : Codec) (reply : MessageT) (replies : List MessageT) :
    frames c (delivered c (reply :: replies)) =
      frames c (delivered c [reply]) ++ frames c (delivered c replies) := by
  rw [← frames_append, delivered, delivered, delivered, ← List.filter_append, List.singleton_append]

theorem networkSend_delivered {c : Codec} {msg : MessageT} {calls : List Call} {sent : Sent}
    (h : networkSend c calls msg = some sent) : sent.bytes = frames c (delivered c [msg]) := by
  unfold delivered
  by_cases hfit : (c.pack msg).length ≤ uint16Max
  · rw [List.filter_singleton, decide_eq_true hfit, (networkSend_spec hfit h).2.1]
    simp
  · rw [networkSend_long (Nat.lt_of_not_le hfit)] at h
    cases h
    rw [List.filter_singleton, decide_eq_false hfit]
    rfl

/-- One turn on a stream whose first frame makes a request. -/
theorem iteration_request {c : Codec} {reads writes : List Call}
    {successor : Option (MessageT → Exchange)} {stream : List UInt8} {list : Cars}
    {req : MessageT} (hw : ¬Short stream) (hreq : c.unpack (payload stream) = some req)
    {it : Iteration} (h : iteration c reads writes successor stream list = some it) :
    it = ⟨(handleClient successor req list).list,
      frames c (delivered c [(handleClient successor req list).reply]), beyond stream, false⟩ := by
  unfold iteration at h
  split at h
  · cases h
  · rename_i received hreceived
    obtain ⟨hmsg, hrest⟩ := networkReceive_whole hw hreceived
    rw [hmsg, hreq, hrest] at h
    obtain ⟨sent, hsent, rfl⟩ := Option.map_eq_some_iff.mp h
    rw [networkSend_delivered hsent]

/-- One turn on a stream whose first frame makes none. -/
theorem iteration_nothing {c : Codec} {reads writes : List Call}
    {successor : Option (MessageT → Exchange)} {stream : List UInt8} {list : Cars}
    (hnone : requests c stream = []) {it : Iteration}
    (h : iteration c reads writes successor stream list = some it) :
    it.list = list ∧ it.written = [] ∧ it.ended = true := by
  unfold iteration at h
  split at h
  · cases h
  · rename_i received hreceived
    have hmsg : received.msg = none := by
      by_cases hs : Short stream
      · exact (networkReceive_short hs hreceived).1
      · rw [(networkReceive_whole hs hreceived).1]
        cases hu : c.unpack (payload stream) with
        | none => rfl
        | some req =>
          rw [requests_cons hs hu] at hnone
          cases hnone
    rw [hmsg] at h
    cases h
    exact ⟨rfl, rfl, rfl⟩

/-- The first request of a stream is what its first frame makes. -/
theorem requests_eq_cons {c : Codec} {stream : List UInt8} {req : MessageT}
    {reqs : List MessageT} (h : requests c stream = req :: reqs) :
    ¬Short stream ∧ c.unpack (payload stream) = some req ∧ requests c (beyond stream) = reqs := by
  have hs : ¬Short stream := by
    intro hs
    rw [requests_short hs] at h
    cases h
  cases hu : c.unpack (payload stream) with
  | none =>
    rw [requests_bad hs hu] at h
    cases h
  | some req' =>
    rw [requests_cons hs hu] at h
    cases h
    exact ⟨hs, rfl, rfl⟩

/-- The run, by the turns: each hands on the stream behind its frame. -/
theorem handlerLoop_spec {c : Codec} {turns : List Turn} {stream : List UInt8} {list : Cars}
    {r : Iteration} (h : handlerLoop c turns stream list = some r) :
    r.list = (served turns (requests c stream) list).1 ∧
      r.written = frames c (delivered c (served turns (requests c stream) list).2.1) ∧
      r.ended = (served turns (requests c stream) list).2.2 := by
  induction turns generalizing stream list r with
  | nil =>
    cases h
    exact ⟨rfl, rfl, rfl⟩
  | cons turn turns ih =>
    rw [handlerLoop] at h
    rw [served]
    split at h
    · rename_i hshutdown
      cases h
      rw [if_pos hshutdown]
      exact ⟨rfl, rfl, rfl⟩
    · rename_i hrunning
      rw [if_neg hrunning]
      dsimp only at h ⊢
      split at h
      · cases h
      · rename_i it hit
        cases hreqs : requests c stream with
        | nil =>
          obtain ⟨hlist, hwritten, hended⟩ := iteration_nothing hreqs hit
          rw [if_pos hended] at h
          cases h
          exact ⟨hlist, hwritten, hended⟩
        | cons req reqs =>
          obtain ⟨hs, hreq, hrest⟩ := requests_eq_cons hreqs
          rw [iteration_request hs hreq hit] at h
          dsimp only at h
          rw [if_neg (by simp)] at h
          obtain ⟨later, hlater, rfl⟩ := Option.map_eq_some_iff.mp h
          obtain ⟨hlist, hwritten, hended⟩ := ih hlater
          rw [hrest] at hlist hwritten hended
          dsimp only
          rw [hwritten]
          exact ⟨hlist, (frames_delivered_cons _ _ _).symm, hended⟩

theorem iteration_returns {c : Codec} {reads writes : List Call}
    {successor : Option (MessageT → Exchange)} {stream : List UInt8} {list : Cars}
    (hr : 2 + uint16Max ≤ transfers reads) (hw : 2 + uint16Max ≤ transfers writes) :
    (iteration c reads writes successor stream list).isSome = true := by
  obtain ⟨received, hreceived⟩ :=
    Option.isSome_iff_exists.mp (@networkReceive_ample c reads stream hr)
  unfold iteration
  rw [hreceived]
  dsimp only
  split
  · rfl
  · exact handleRequest_returns hw

theorem handlerLoop_returns {c : Codec} {turns : List Turn}
    (h : ∀ turn ∈ turns,
      2 + uint16Max ≤ transfers turn.reads ∧ 2 + uint16Max ≤ transfers turn.writes)
    (stream : List UInt8) (list : Cars) : (handlerLoop c turns stream list).isSome = true := by
  induction turns generalizing stream list with
  | nil => rfl
  | cons turn turns ih =>
    rw [List.forall_mem_cons] at h
    rw [handlerLoop]
    split
    · rfl
    · dsimp only
      have hturn : (iteration c turn.reads turn.writes turn.successor stream
          (meanwhile turn.others list)).isSome = true := iteration_returns h.1.1 h.1.2
      obtain ⟨it, hit⟩ := Option.isSome_iff_exists.mp hturn
      rw [hit]
      dsimp only
      split
      · rfl
      · rw [Option.isSome_map]
        exact ih h.2 it.unread it.list

/-- **The handler executes what its connection holds**: the requests sent, and
those of what else follows them up to where it breaks off, in order and once
each, between whatever other handlers execute; their replies are what it writes. -/
theorem handler_serves {c : Codec} {msgs : List MessageT} (hc : ∀ msg ∈ msgs, Carried c msg)
    (rest : List UInt8) (turns : List Turn) (list : Cars) :
    let reqs := msgs ++ requests c rest
    (∀ r, handlerLoop c turns (frames c msgs ++ rest) list = some r →
      r.list = meanwhile (executed turns reqs) list ∧
      r.written = frames c (delivered c (served turns reqs list).2.1) ∧
      ((∀ turn ∈ turns, turn.shutdown = false) →
        (served turns reqs list).2.1.length = min turns.length reqs.length ∧
        (r.ended = true ↔ reqs.length < turns.length))) ∧
    ((∀ turn ∈ turns,
      2 + uint16Max ≤ transfers turn.reads ∧ 2 + uint16Max ≤ transfers turn.writes) →
      (handlerLoop c turns (frames c msgs ++ rest) list).isSome = true) := by
  dsimp only
  refine ⟨?_, fun h => handlerLoop_returns h _ list⟩
  intro r hr
  obtain ⟨hlist, hwritten, hended⟩ := handlerLoop_spec hr
  rw [requests_frames hc] at hlist hwritten hended
  refine ⟨by rw [hlist, served_list], hwritten, ?_⟩
  intro hrun
  obtain ⟨hlength, hlast⟩ := served_replies hrun (msgs ++ requests c rest) list
  exact ⟨hlength, by rw [hended, hlast]⟩

/-- Two requests and a cut frame, while another client adds a car in between. -/
def sampleTurns : List Turn :=
  let turn := ⟨false, List.replicate 6 (.moves 65535), List.replicate 6 (.moves 65535), [], none⟩
  [turn, { turn with others := [rlistAddRequest sampleCar] }, turn]

theorem handler_serves_sampleTurns :
    ∃ r, handlerLoop protobuf sampleTurns
        (frames protobuf [rlistAddRequest sampleCar, rlistSizeRequest] ++ [0]) listCreate = some r ∧
      r.list.head = [sampleCar, sampleCar] ∧ r.ended = true := by
  have hc : ∀ msg ∈ [rlistAddRequest sampleCar, rlistSizeRequest], Carried protobuf msg := by
    simp only [List.forall_mem_cons]
    exact ⟨carried_sampleAdd, carried_size, by simp⟩
  have hsome : (handlerLoop protobuf sampleTurns
      (frames protobuf [rlistAddRequest sampleCar, rlistSizeRequest] ++ [0])
      listCreate).isSome = true := by decide +kernel
  obtain ⟨r, hr⟩ := Option.isSome_iff_exists.mp hsome
  obtain ⟨hlist, _, hended⟩ := (handler_serves hc [0] sampleTurns listCreate).1 r hr
  have hcut : requests protobuf [0] = [] := requests_short (by decide)
  rw [hcut] at hlist hended
  have hrun : ∀ turn ∈ sampleTurns, turn.shutdown = false := by decide
  exact ⟨r, hr, by rw [hlist]; rfl, (hended hrun).2.mpr (by decide)⟩

end CarChain.Serving
