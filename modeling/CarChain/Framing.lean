import CarChain.Handler
import CarChain.Lib.Transfer
import CarChain.Protobuf

/-!
# Frames on a connection

`write_all` and `read_all` of `message-private.c`, and the frames the server
sends and receives: two bytes of length in network order, then the packed
message.  What the two directions of a live connection do is a list of calls
(`Transfer.Call`); the bytes of a stream are those written so far and to be
written, up to its end, so a reader that is ahead of its writer makes the same
calls in smaller pieces.  Packing is a parameter (`Codec`).  However the calls
split the bytes, the messages arrive whole and in order, and no message is built
from a part of a frame (`framing_lossless`).
-/

namespace CarChain.Framing
open CarChain.Message CarChain.Stub CarChain.Handler CarChain.Transfer

/-- `message_t__pack` and `message_t__unpack`, NULL being `none`. -/
structure Codec where
  pack : MessageT → List UInt8
  unpack : List UInt8 → Option MessageT

/-- The packing of the generated code. -/
def protobuf : Codec := ⟨Protobuf.messageTPack, Protobuf.messageTUnpack⟩

/-- The bytes of `(uint16_t)n` in network order. -/
def htons (n : Nat) : List UInt8 := [(n / 256).toUInt8, n.toUInt8]

def ntohs (bytes : List UInt8) : Nat := bytes.foldl (fun n b => n * 256 + b.toNat) 0

def writeAll (calls : List Call) (buf : List UInt8) : Option (Moved UInt8) :=
  move calls buf.length buf

def readAll (calls : List Call) (len : Nat) (stream : List UInt8) : Option (Moved UInt8) :=
  move calls len stream

/-- What a call of `network_send` leaves: its return code, the bytes it has
written, and the calls not made yet. -/
structure Sent where
  code : Int
  bytes : List UInt8
  calls : List Call
  deriving DecidableEq

def networkSend (c : Codec) (calls : List Call) (msg : MessageT) : Option Sent :=
  let buf := c.pack msg
  if buf.length > uint16Max then some ⟨-1, [], calls⟩
  else
    match writeAll calls (htons buf.length) with
    | none => none
    | some netlen =>
      if netlen.ok = false then some ⟨-1, netlen.got, netlen.calls⟩
      else
        match writeAll netlen.calls buf with
        | none => none
        | some written =>
          if written.ok = false then some ⟨-1, netlen.got ++ written.got, written.calls⟩
          else some ⟨0, netlen.got ++ written.got, written.calls⟩

/-- What a call of `network_receive` leaves: the message it returns, the bytes
left unread, and the calls not made yet. -/
structure Received where
  msg : Option MessageT
  rest : List UInt8
  calls : List Call
  deriving DecidableEq

def networkReceive (c : Codec) (calls : List Call) (stream : List UInt8) : Option Received :=
  match readAll calls 2 stream with
  | none => none
  | some netlen =>
    if netlen.ok = false then some ⟨none, netlen.rest, netlen.calls⟩
    else
      match readAll netlen.calls (ntohs netlen.got) netlen.rest with
      | none => none
      | some buf =>
        if buf.ok = false then some ⟨none, buf.rest, buf.calls⟩
        else some ⟨c.unpack buf.got, buf.rest, buf.calls⟩

/-- The messages one after the other: the return codes and all bytes written. -/
def sendAll (c : Codec) : List Call → List MessageT → Option (List Int × List UInt8)
  | _, [] => some ([], [])
  | calls, msg :: msgs =>
    match networkSend c calls msg with
    | none => none
    | some sent => (sendAll c sent.calls msgs).map fun r => (sent.code :: r.1, sent.bytes ++ r.2)

/-- So many calls of `network_receive`: what they return and the bytes left. -/
def receiveMany (c : Codec) :
    Nat → List Call → List UInt8 → Option (List (Option MessageT) × List UInt8)
  | 0, _, stream => some ([], stream)
  | k + 1, calls, stream =>
    match networkReceive c calls stream with
    | none => none
    | some r => (receiveMany c k r.calls r.rest).map fun r' => (r.msg :: r'.1, r'.2)

/-! ## Frames -/

def frame (c : Codec) (msg : MessageT) : List UInt8 := htons (c.pack msg).length ++ c.pack msg

def frames (c : Codec) (msgs : List MessageT) : List UInt8 := (msgs.map (frame c)).flatten

@[simp] theorem htons_length (n : Nat) : (htons n).length = 2 := rfl

/-- The length survives the trip up to the limit of 16 bits. -/
theorem ntohs_htons {n : Nat} (h : n ≤ uint16Max) : ntohs (htons n) = n := by
  simp only [htons, ntohs, List.foldl_cons, List.foldl_nil, Nat.toUInt8, UInt8.toNat_ofNat']
  simp only [uint16Max] at h
  omega

@[simp] theorem frame_length (c : Codec) (msg : MessageT) :
    (frame c msg).length = 2 + (c.pack msg).length := by
  rw [frame, List.length_append, htons_length]

@[simp] theorem frames_nil (c : Codec) : frames c [] = [] := rfl

@[simp] theorem frames_cons (c : Codec) (msg : MessageT) (msgs : List MessageT) :
    frames c (msg :: msgs) = frame c msg ++ frames c msgs := rfl

theorem frames_append (c : Codec) (msgs msgs' : List MessageT) :
    frames c (msgs ++ msgs') = frames c msgs ++ frames c msgs' := by
  rw [frames, List.map_append, List.flatten_append]
  rfl

theorem frames_take_le (c : Codec) (msgs : List MessageT) {i j : Nat} (h : i ≤ j) :
    frames c (msgs.take i) <+: frames c (msgs.take j) := by
  have hp : msgs.take i <+: msgs.take j := List.take_prefix_take_left h
  obtain ⟨tail, htail⟩ := hp
  rw [← htail, frames_append]
  exact List.prefix_append _ _

/-! ## One message -/

/-- `write_all` writes everything. -/
theorem writeAll_spec {calls : List Call} {buf : List UInt8} {r : Moved UInt8}
    (h : writeAll calls buf = some r) :
    r.ok = true ∧ r.got = buf ∧ transfers calls ≤ transfers r.calls + buf.length := by
  obtain ⟨hgot, _, hok, hcalls⟩ := move_spec h
  exact ⟨hok.mpr (Nat.le_refl _), by rw [hgot, List.take_length], by omega⟩

theorem writeAll_returns {calls : List Call} {buf : List UInt8}
    (h : buf.length ≤ transfers calls) : (writeAll calls buf).isSome = true :=
  move_returns (Nat.le_trans (Nat.min_le_left _ _) h)

theorem networkSend_spec {c : Codec} {msg : MessageT} (hfit : (c.pack msg).length ≤ uint16Max)
    {calls : List Call} {r : Sent} (h : networkSend c calls msg = some r) :
    r.code = 0 ∧ r.bytes = frame c msg ∧
      transfers calls ≤ transfers r.calls + (frame c msg).length := by
  unfold networkSend at h
  rw [if_neg (Nat.not_lt.mpr hfit)] at h
  split at h
  · cases h
  · rename_i netlen hlen
    obtain ⟨hok, hgot, hcalls⟩ := writeAll_spec hlen
    rw [hok, if_neg (by simp)] at h
    split at h
    · cases h
    · rename_i written hw
      obtain ⟨hok', hgot', hcalls'⟩ := writeAll_spec hw
      rw [hok', if_neg (by simp)] at h
      cases h
      rw [htons_length] at hcalls
      refine ⟨rfl, by rw [hgot, hgot']; rfl, ?_⟩
      rw [frame_length]
      dsimp only
      omega

theorem networkSend_returns {c : Codec} {msg : MessageT} {calls : List Call}
    (h : (frame c msg).length ≤ transfers calls) : (networkSend c calls msg).isSome = true := by
  rw [frame_length] at h
  unfold networkSend
  dsimp only
  split
  · rfl
  · have hlen : (writeAll calls (htons (c.pack msg).length)).isSome = true := by
      apply writeAll_returns
      rw [htons_length]
      omega
    obtain ⟨netlen, hlen⟩ := Option.isSome_iff_exists.mp hlen
    obtain ⟨hok, _, hcalls⟩ := writeAll_spec hlen
    rw [htons_length] at hcalls
    have hw : (writeAll netlen.calls (c.pack msg)).isSome = true := writeAll_returns (by omega)
    obtain ⟨written, hw⟩ := Option.isSome_iff_exists.mp hw
    rw [hlen]
    dsimp only
    rw [hok, if_neg (by simp), hw]
    dsimp only
    split <;> rfl

/-- A message too long for a frame is not sent at all. -/
theorem networkSend_long {c : Codec} {msg : MessageT} (h : uint16Max < (c.pack msg).length)
    (calls : List Call) : networkSend c calls msg = some ⟨-1, [], calls⟩ := by
  unfold networkSend
  rw [if_pos h]

theorem networkReceive_spec {c : Codec} {msg : MessageT}
    (hfit : (c.pack msg).length ≤ uint16Max) {calls : List Call} {rest : List UInt8}
    {r : Received} (h : networkReceive c calls (frame c msg ++ rest) = some r) :
    r.msg = c.unpack (c.pack msg) ∧ r.rest = rest ∧
      transfers calls ≤ transfers r.calls + (frame c msg).length := by
  rw [frame, List.append_assoc] at h
  unfold networkReceive at h
  split at h
  · cases h
  · rename_i netlen hlen
    obtain ⟨hgot, hrest, hok, hcalls⟩ := move_spec hlen
    rw [List.take_left' (htons_length _)] at hgot
    rw [List.drop_left' (htons_length _)] at hrest
    rw [hok.mpr (by simp), if_neg (by simp), hgot, hrest, ntohs_htons hfit] at h
    split at h
    · cases h
    · rename_i buf hbuf
      obtain ⟨hgot', hrest', hok', hcalls'⟩ := move_spec hbuf
      rw [List.take_left] at hgot'
      rw [List.drop_left] at hrest'
      rw [hok'.mpr (by simp), if_neg (by simp)] at h
      cases h
      refine ⟨by dsimp only; rw [hgot'], hrest', ?_⟩
      rw [frame_length]
      dsimp only
      omega

theorem networkReceive_returns {c : Codec} {msg : MessageT}
    (hfit : (c.pack msg).length ≤ uint16Max) {calls : List Call} {rest : List UInt8}
    (h : (frame c msg).length ≤ transfers calls) :
    (networkReceive c calls (frame c msg ++ rest)).isSome = true := by
  rw [frame_length] at h
  have hlen : (readAll calls 2 (frame c msg ++ rest)).isSome = true :=
    move_returns (Nat.le_trans (Nat.min_le_left _ _) (by omega))
  obtain ⟨netlen, hlen⟩ := Option.isSome_iff_exists.mp hlen
  obtain ⟨hgot, _, _, hcalls⟩ := move_spec hlen
  rw [frame, List.append_assoc, List.take_left' (htons_length _)] at hgot
  have hbuf : (readAll netlen.calls (ntohs netlen.got) netlen.rest).isSome = true := by
    rw [hgot, ntohs_htons hfit]
    exact move_returns (Nat.le_trans (Nat.min_le_left _ _) (by omega))
  obtain ⟨buf, hbuf⟩ := Option.isSome_iff_exists.mp hbuf
  unfold networkReceive
  rw [hlen]
  dsimp only
  split
  · rfl
  · rw [hbuf]
    dsimp only
    split <;> rfl

/-! ## The end of the stream -/

/-- What is left holds no whole frame: the length is missing or says more. -/
def Short (part : List UInt8) : Prop := part.length < 2 + ntohs (part.take 2)

theorem short_nil : Short [] := Nat.zero_lt_succ _

theorem short_of_frame {c : Codec} {msg : MessageT} (hfit : (c.pack msg).length ≤ uint16Max)
    {part : List UInt8} (hp : part <+: frame c msg) (hlt : part.length < (frame c msg).length) :
    Short part := by
  rw [frame_length] at hlt
  obtain ⟨missing, hpart⟩ := hp
  rcases Nat.lt_or_ge part.length 2 with htwo | htwo
  · exact Nat.lt_of_lt_of_le htwo (Nat.le_add_right 2 _)
  · have hhead : part.take 2 = htons (c.pack msg).length := by
      have htake := congrArg (List.take 2) hpart
      rwa [List.take_append_of_le_length htwo, frame, List.take_left' (htons_length _)] at htake
    rw [Short, hhead, ntohs_htons hfit]
    exact hlt

/-- What is left of a frame makes no message and is used up. -/
theorem networkReceive_short {c : Codec} {part : List UInt8} (hs : Short part)
    {calls : List Call} {r : Received} (h : networkReceive c calls part = some r) :
    r.msg = none ∧ r.rest = [] ∧ transfers calls ≤ transfers r.calls + part.length + 1 := by
  unfold networkReceive at h
  split at h
  · cases h
  · rename_i netlen hlen
    obtain ⟨hgot, hrest, hok, hcalls⟩ := move_spec hlen
    split at h
    · rename_i hfail
      have hone : part.length < 2 := by
        rw [← Nat.not_le, ← hok, hfail]
        simp
      cases h
      exact ⟨rfl, by rw [hrest, List.drop_eq_nil_of_le (by omega)], by dsimp only; omega⟩
    · rename_i hne
      have htwo : 2 ≤ part.length := hok.mp (by simpa using hne)
      have hmore : part.length - 2 < ntohs (part.take 2) := by
        unfold Short at hs
        omega
      rw [hgot, hrest] at h
      split at h
      · cases h
      · rename_i buf hbuf
        obtain ⟨_, hrest', hok', hcalls'⟩ := move_spec hbuf
        rw [List.length_drop] at hok' hcalls'
        rw [if_pos (by rw [← Bool.not_eq_true, hok']; omega)] at h
        cases h
        refine ⟨rfl, ?_, by dsimp only; omega⟩
        dsimp only
        rw [hrest']
        exact List.drop_eq_nil_of_le (by rw [List.length_drop]; omega)

theorem networkReceive_short_returns {c : Codec} {part : List UInt8} {calls : List Call}
    (h : part.length < transfers calls) : (networkReceive c calls part).isSome = true := by
  have hlen : (readAll calls 2 part).isSome = true :=
    move_returns (Nat.le_trans (Nat.min_le_right _ _) h)
  obtain ⟨netlen, hlen⟩ := Option.isSome_iff_exists.mp hlen
  obtain ⟨_, hrest, hok, hcalls⟩ := move_spec hlen
  unfold networkReceive
  rw [hlen]
  dsimp only
  split
  · rfl
  · rename_i hne
    have htwo : 2 ≤ part.length := hok.mp (by simpa using hne)
    have hbuf : (readAll netlen.calls (ntohs netlen.got) netlen.rest).isSome = true := by
      apply move_returns
      rw [hrest, List.length_drop]
      omega
    obtain ⟨buf, hbuf⟩ := Option.isSome_iff_exists.mp hbuf
    rw [hbuf]
    dsimp only
    split <;> rfl

/-! ## Many messages -/

/-- What the sender and the packing have to offer for a message to arrive. -/
structure Carried (c : Codec) (msg : MessageT) : Prop where
  fits : (c.pack msg).length ≤ uint16Max
  undoes : c.unpack (c.pack msg) = some msg

theorem sendAll_spec {c : Codec} {msgs : List MessageT} (hc : ∀ msg ∈ msgs, Carried c msg)
    {calls : List Call} {codes : List Int} {bytes : List UInt8}
    (h : sendAll c calls msgs = some (codes, bytes)) :
    codes = List.replicate msgs.length 0 ∧ bytes = frames c msgs := by
  induction msgs generalizing calls codes bytes with
  | nil =>
    cases h
    exact ⟨rfl, rfl⟩
  | cons msg msgs ih =>
    rw [List.forall_mem_cons] at hc
    unfold sendAll at h
    split at h
    · cases h
    · rename_i sent hsent
      obtain ⟨hcode, hbytes, _⟩ := networkSend_spec hc.1.fits hsent
      obtain ⟨⟨codes', bytes'⟩, hr, heq⟩ := Option.map_eq_some_iff.mp h
      obtain ⟨hcodes', hbytes'⟩ := ih hc.2 hr
      cases heq
      exact ⟨by rw [hcode, hcodes']; rfl, by rw [hbytes, hbytes']; rfl⟩

theorem sendAll_returns {c : Codec} {msgs : List MessageT} (hc : ∀ msg ∈ msgs, Carried c msg)
    {calls : List Call} (h : (frames c msgs).length ≤ transfers calls) :
    (sendAll c calls msgs).isSome = true := by
  induction msgs generalizing calls with
  | nil => rfl
  | cons msg msgs ih =>
    rw [List.forall_mem_cons] at hc
    rw [frames_cons, List.length_append] at h
    have hsent : (networkSend c calls msg).isSome = true := networkSend_returns (by omega)
    obtain ⟨sent, hsent⟩ := Option.isSome_iff_exists.mp hsent
    obtain ⟨_, _, hcalls⟩ := networkSend_spec hc.1.fits hsent
    unfold sendAll
    rw [hsent]
    dsimp only
    rw [Option.isSome_map]
    exact ih hc.2 (by omega)

/-- The calls past the messages go on with what follows them. -/
theorem receiveMany_spec {c : Codec} {msgs : List MessageT} (hc : ∀ msg ∈ msgs, Carried c msg)
    {n j : Nat} (hn : n = msgs.length + j) {calls : List Call} {rest left : List UInt8}
    {got : List (Option MessageT)}
    (h : receiveMany c n calls (frames c msgs ++ rest) = some (got, left)) :
    ∃ calls' got', receiveMany c j calls' rest = some (got', left) ∧
      got = msgs.map some ++ got' := by
  subst hn
  induction msgs generalizing calls got with
  | nil =>
    rw [List.length_nil, Nat.zero_add] at h
    exact ⟨calls, got, h, rfl⟩
  | cons msg msgs ih =>
    rw [List.forall_mem_cons] at hc
    rw [List.length_cons, Nat.add_right_comm, frames_cons, List.append_assoc] at h
    unfold receiveMany at h
    split at h
    · cases h
    · rename_i r hr
      obtain ⟨hmsg, hrest, _⟩ := networkReceive_spec hc.1.fits hr
      obtain ⟨⟨got', left'⟩, hmany, heq⟩ := Option.map_eq_some_iff.mp h
      rw [hrest] at hmany
      cases heq
      obtain ⟨calls', got'', hj, hgot⟩ := ih hc.2 hmany
      exact ⟨calls', got'', hj, by rw [hmsg, hc.1.undoes, hgot]; rfl⟩

theorem receiveMany_returns {c : Codec} {msgs : List MessageT}
    (hc : ∀ msg ∈ msgs, Carried c msg) {n j : Nat} (hn : n = msgs.length + j)
    {calls : List Call} {rest : List UInt8} (h : (frames c msgs).length ≤ transfers calls)
    (hj : ∀ calls', transfers calls ≤ transfers calls' + (frames c msgs).length →
      (receiveMany c j calls' rest).isSome = true) :
    (receiveMany c n calls (frames c msgs ++ rest)).isSome = true := by
  subst hn
  induction msgs generalizing calls with
  | nil =>
    rw [List.length_nil, Nat.zero_add]
    exact hj calls (Nat.le_refl _)
  | cons msg msgs ih =>
    rw [List.forall_mem_cons] at hc
    rw [frames_cons, List.length_append] at h hj
    rw [List.length_cons, Nat.add_right_comm, frames_cons, List.append_assoc]
    have hr : (networkReceive c calls (frame c msg ++ (frames c msgs ++ rest))).isSome = true :=
      networkReceive_returns hc.1.fits (by omega)
    obtain ⟨r, hr⟩ := Option.isSome_iff_exists.mp hr
    obtain ⟨_, hrest, hcalls⟩ := networkReceive_spec hc.1.fits hr
    unfold receiveMany
    rw [hr]
    dsimp only
    rw [Option.isSome_map, hrest]
    apply ih hc.2 (by omega)
    intro calls' h'
    exact hj calls' (by omega)

theorem receiveMany_short {c : Codec} {j : Nat} {calls : List Call} {part left : List UInt8}
    (hs : Short part) {got : List (Option MessageT)}
    (h : receiveMany c j calls part = some (got, left)) : got = List.replicate j none := by
  induction j generalizing calls part got with
  | zero =>
    cases h
    rfl
  | succ j ih =>
    unfold receiveMany at h
    split at h
    · cases h
    · rename_i r hr
      obtain ⟨hmsg, hrest, _⟩ := networkReceive_short hs hr
      obtain ⟨⟨got', left'⟩, hmany, heq⟩ := Option.map_eq_some_iff.mp h
      rw [hrest] at hmany
      cases heq
      rw [hmsg, ih short_nil hmany]
      rfl

theorem receiveMany_short_returns {c : Codec} {j : Nat} {calls : List Call} {part : List UInt8}
    (hs : Short part) (h : part.length + j ≤ transfers calls) :
    (receiveMany c j calls part).isSome = true := by
  induction j generalizing calls part with
  | zero => rfl
  | succ j ih =>
    have hr : (networkReceive c calls part).isSome = true :=
      networkReceive_short_returns (by omega)
    obtain ⟨r, hr⟩ := Option.isSome_iff_exists.mp hr
    obtain ⟨_, hrest, hcalls⟩ := networkReceive_short hs hr
    unfold receiveMany
    rw [hr]
    dsimp only
    rw [Option.isSome_map, hrest]
    exact ih short_nil (by rw [List.length_nil]; omega)

/-- A stream cut anywhere holds the frames of the first messages and a short
rest; these are all whole frames it holds. -/
theorem cut_frames {c : Codec} {msgs : List MessageT} (hc : ∀ msg ∈ msgs, Carried c msg)
    {cut : List UInt8} (h : cut <+: frames c msgs) :
    ∃ k part, k ≤ msgs.length ∧ cut = frames c (msgs.take k) ++ part ∧ Short part ∧
      ∀ j ≤ msgs.length, frames c (msgs.take j) <+: cut ↔ j ≤ k := by
  obtain ⟨k, part, hk, hcut, hpart⟩ := cut_blocks _ h
  rw [List.length_map] at hk hpart
  rw [← List.map_take] at hcut
  change cut = frames c (msgs.take k) ++ part at hcut
  refine ⟨k, part, hk, hcut, ?_, ?_⟩
  · rcases hpart with ⟨_, rfl⟩ | ⟨block, hblock, hp, hlt⟩
    · exact short_nil
    · rw [List.getElem?_map, Option.map_eq_some_iff] at hblock
      obtain ⟨msg, hmsg, rfl⟩ := hblock
      exact short_of_frame (hc msg (List.mem_of_getElem? hmsg)).fits hp hlt
  · intro j hj
    constructor
    · intro hwhole
      by_contra hlt
      rcases hpart with ⟨rfl, _⟩ | ⟨block, hblock, _, hshort⟩
      · exact hlt hj
      · rw [List.getElem?_map, Option.map_eq_some_iff] at hblock
        obtain ⟨msg, hmsg, rfl⟩ := hblock
        have hnext := (frames_take_le c msgs (Nat.lt_of_not_le hlt)).trans hwhole
        have hlen := hnext.length_le
        rw [List.take_add_one, hmsg, frames_append, hcut, List.length_append,
          List.length_append] at hlen
        simp only [Option.toList_some, frames_cons, frames_nil, List.append_nil] at hlen
        omega
    · intro hjk
      exact (frames_take_le c msgs hjk).trans ⟨part, hcut.symm⟩

/-- What holds of the messages sent on a connection, whatever calls `write` and
`read` are split into. -/
structure Lossless (c : Codec) (msgs : List MessageT) : Prop where
  sent : ∀ calls codes bytes, sendAll c calls msgs = some (codes, bytes) →
    codes = List.replicate msgs.length 0 ∧ bytes = frames c msgs
  sends : ∀ calls, (frames c msgs).length ≤ transfers calls →
    (sendAll c calls msgs).isSome = true
  received : ∀ k ≤ msgs.length, ∀ calls got left,
    receiveMany c k calls (frames c msgs) = some (got, left) →
      got = (msgs.take k).map some ∧ left = frames c (msgs.drop k)
  receives : ∀ k ≤ msgs.length, ∀ calls, (frames c (msgs.take k)).length ≤ transfers calls →
    (receiveMany c k calls (frames c msgs)).isSome = true
  /-- `k` messages have their whole frames before the cut; every later call
  returns NULL. -/
  cut : ∀ cut, cut <+: frames c msgs → ∃ k ≤ msgs.length,
    (∀ j ≤ msgs.length, frames c (msgs.take j) <+: cut ↔ j ≤ k) ∧
      ∀ more calls,
        (∀ got left, receiveMany c (k + more) calls cut = some (got, left) →
          got = (msgs.take k).map some ++ List.replicate more none) ∧
        (cut.length + more ≤ transfers calls →
          (receiveMany c (k + more) calls cut).isSome = true)

theorem Carried.first {c : Codec} {msgs : List MessageT} (hc : ∀ msg ∈ msgs, Carried c msg)
    (k : Nat) : ∀ msg ∈ msgs.take k, Carried c msg :=
  fun msg hm => hc msg (List.mem_of_mem_take hm)

/-- **Framing is lossless over any chunking.** -/
theorem framing_lossless {c : Codec} {msgs : List MessageT}
    (hc : ∀ msg ∈ msgs, Carried c msg) : Lossless c msgs where
  sent _ _ _ := sendAll_spec hc
  sends _ := sendAll_returns hc
  received k hk calls got left h := by
    have hn : k = (msgs.take k).length + 0 := (List.length_take_of_le hk).symm
    rw [← List.take_append_drop k msgs, frames_append] at h
    obtain ⟨calls', got', hrest, hgot⟩ := receiveMany_spec (Carried.first hc k) hn h
    cases hrest
    exact ⟨by rw [hgot, List.append_nil], rfl⟩
  receives k hk calls h := by
    have hn : k = (msgs.take k).length + 0 := (List.length_take_of_le hk).symm
    rw [← List.take_append_drop k msgs, frames_append]
    exact receiveMany_returns (Carried.first hc k) hn h (fun _ _ => rfl)
  cut cut h := by
    obtain ⟨k, part, hk, rfl, hshort, hwhole⟩ := cut_frames hc h
    refine ⟨k, hk, hwhole, fun more calls => ⟨?_, ?_⟩⟩
    · have hn : k + more = (msgs.take k).length + more := by rw [List.length_take_of_le hk]
      intro got left hmany
      obtain ⟨calls', got', hrest, hgot⟩ := receiveMany_spec (Carried.first hc k) hn hmany
      rw [hgot, receiveMany_short hshort hrest]
    · have hn : k + more = (msgs.take k).length + more := by rw [List.length_take_of_le hk]
      intro hcalls
      rw [List.length_append] at hcalls
      apply receiveMany_returns (Carried.first hc k) hn (by omega)
      intro calls' h'
      exact receiveMany_short_returns hshort (by omega)

theorem carried_sampleAdd : Carried protobuf (rlistAddRequest sampleCar) :=
  ⟨by decide +kernel, by decide +kernel⟩

theorem carried_size : Carried protobuf rlistSizeRequest := ⟨by decide +kernel, by decide +kernel⟩

theorem framing_lossless_twoRequests :
    Lossless protobuf [rlistAddRequest sampleCar, rlistSizeRequest] :=
  framing_lossless (by
    intro msg hm
    simp only [List.mem_cons, List.not_mem_nil, or_false] at hm
    rcases hm with rfl | rfl
    · exact carried_sampleAdd
    · exact carried_size)

end CarChain.Framing
