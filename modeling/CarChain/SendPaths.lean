import CarChain.Decoding

/-!
# Two ways to send

The half of `network_send_receive` that writes, with the `int` its `write_all`
takes for a length, beside `network_send`.  Up to 65535 bytes both put the same
frame on a connection; beyond, `network_send` writes nothing, while the client
writes the low 16 bits of the length and then bytes of the message
(`paths_agree_iff`).
-/

namespace CarChain.SendPaths
open CarChain.Record CarChain.Message CarChain.Stub CarChain.Wire CarChain.Handler
open CarChain.Transfer CarChain.Framing CarChain.Answering CarChain.Remote CarChain.Decoding

/-- `(int)n`. -/
def intOf (n : Nat) : Int :=
  if n % 4294967296 < 2147483648 then (n % 4294967296 : Nat)
  else (n % 4294967296 : Nat) - 4294967296

/-- `write_all` with the length its callers pass and what it returns to them; it
writes nothing when the length is not positive. -/
def writeAllInt (calls : List Call) (buf : List UInt8) (len : Int) :
    Option (Int × Moved UInt8) :=
  (move calls len.toNat buf).map fun r => (if r.ok = true then len else -1, r)

/-- `network_send_receive` up to its first `read_all`. -/
def clientSend (c : Codec) (calls : List Call) (msg : MessageT) : Option Sent :=
  let buffer := c.pack msg
  match writeAllInt calls (htons buffer.length) 2 with
  | none => none
  | some (code, size) =>
    if code = -1 then some ⟨-1, size.got, size.calls⟩
    else
      match writeAllInt size.calls buffer (intOf buffer.length) with
      | none => none
      | some (code, written) =>
        some ⟨if code = -1 then -1 else 0, size.got ++ written.got, written.calls⟩

/-! ## What the client writes -/

theorem intOf_toNat_le (n : Nat) : (intOf n).toNat ≤ n := by
  have hmod := Nat.mod_le n 4294967296
  unfold intOf
  split <;> omega

theorem intOf_small {n : Nat} (h : n < 2147483648) : intOf n = n := by
  rw [intOf, Nat.mod_eq_of_lt (by omega), if_pos h]

theorem writeAllInt_spec {calls : List Call} {buf : List UInt8} {len : Int}
    (hlen : len.toNat ≤ buf.length) {r : Int × Moved UInt8}
    (h : writeAllInt calls buf len = some r) :
    r.1 = len ∧ r.2.got = buf.take len.toNat ∧
      transfers calls ≤ transfers r.2.calls + len.toNat := by
  obtain ⟨moved, hm, rfl⟩ := Option.map_eq_some_iff.mp h
  obtain ⟨hgot, _, hok, hcalls⟩ := move_spec hm
  exact ⟨if_pos (hok.mpr hlen), hgot, by dsimp only; omega⟩

/-- The length goes out whole. -/
theorem writeAllInt_htons {calls : List Call} {n : Nat} {r : Int × Moved UInt8}
    (h : writeAllInt calls (htons n) 2 = some r) :
    r.1 = 2 ∧ r.2.got = htons n ∧ transfers calls ≤ transfers r.2.calls + 2 :=
  writeAllInt_spec (show (2 : Int).toNat ≤ (htons n).length from Nat.le_refl 2) h

theorem writeAllInt_returns {calls : List Call} (buf : List UInt8) {len : Int}
    (h : len.toNat ≤ transfers calls) : (writeAllInt calls buf len).isSome = true := by
  rw [writeAllInt, Option.isSome_map]
  exact move_returns (Nat.le_trans (Nat.min_le_left _ _) h)

/-- Whatever the size: its low 16 bits, and so many bytes as the `int` says. -/
theorem clientSend_spec {c : Codec} {calls : List Call} {msg : MessageT} {sent : Sent}
    (h : clientSend c calls msg = some sent) :
    sent.code = (if intOf (c.pack msg).length = -1 then -1 else 0) ∧
      sent.bytes = htons (c.pack msg).length ++
        (c.pack msg).take (intOf (c.pack msg).length).toNat := by
  unfold clientSend at h
  dsimp only at h
  split at h
  · cases h
  · rename_i code size hsize
    obtain ⟨hcode, hgot, _⟩ := writeAllInt_htons hsize
    dsimp only at hcode hgot
    rw [hcode, if_neg (by decide)] at h
    split at h
    · cases h
    · rename_i code' written hw
      obtain ⟨hcode', hgot', _⟩ := writeAllInt_spec (intOf_toNat_le _) hw
      dsimp only at hcode' hgot'
      cases h
      exact ⟨by rw [hcode'], by rw [hgot, hgot']⟩

theorem clientSend_returns {c : Codec} {calls : List Call} {msg : MessageT}
    (h : (frame c msg).length ≤ transfers calls) : (clientSend c calls msg).isSome = true := by
  rw [frame_length] at h
  have hint := intOf_toNat_le (c.pack msg).length
  have htwo : (2 : Int).toNat ≤ transfers calls := show 2 ≤ transfers calls by omega
  obtain ⟨⟨code, size⟩, hsize⟩ := Option.isSome_iff_exists.mp
    (writeAllInt_returns (htons (c.pack msg).length) htwo)
  obtain ⟨_, _, hcalls⟩ := writeAllInt_htons hsize
  dsimp only at hcalls
  have hrest : (intOf (c.pack msg).length).toNat ≤ transfers size.calls := by omega
  obtain ⟨⟨code', written⟩, hw⟩ := Option.isSome_iff_exists.mp
    (writeAllInt_returns (c.pack msg) hrest)
  unfold clientSend
  dsimp only
  rw [hsize]
  dsimp only
  split
  · rfl
  · rw [hw]
    rfl

/-- Below 2 GiB the `int` makes no difference. -/
theorem clientSend_eq_sendRequest {c : Codec} {calls : List Call} {msg : MessageT} {sent : Sent}
    (h : (c.pack msg).length < 2147483648) (hs : clientSend c calls msg = some sent)
    {sent' : Sent} (hs' : sendRequest c calls msg = some sent') :
    sent.code = sent'.code ∧ sent.bytes = sent'.bytes := by
  obtain ⟨hcode, hbytes⟩ := clientSend_spec hs
  obtain ⟨hcode', hbytes'⟩ := sendRequest_spec hs'
  rw [intOf_small h] at hcode hbytes
  rw [Int.toNat_natCast, List.take_length] at hbytes
  refine ⟨?_, hbytes.trans hbytes'.symm⟩
  rw [hcode, hcode', if_neg (by omega)]

/-! ## The two ends compared -/

/-- Both calls put one frame on the connection, from which a call of
`network_receive` gets the message. -/
structure SameFrame (c : Codec) (msg : MessageT) (client server : Sent) : Prop where
  codes : client.code = 0 ∧ server.code = 0
  bytes : client.bytes = server.bytes
  framed : ∃ payload, client.bytes = htons payload.length ++ payload ∧
    ntohs (htons payload.length) = payload.length
  decodes : ∀ calls r, networkReceive c calls client.bytes = some r →
    r.msg = some msg ∧ r.rest = []
  received : ∀ calls, client.bytes.length ≤ transfers calls →
    (networkReceive c calls client.bytes).isSome = true

/-- Both calls fail and have written nothing. -/
def BothRefuse (client server : Sent) : Prop :=
  client.code = -1 ∧ server.code = -1 ∧ client.bytes = [] ∧ server.bytes = []

/-- Whatever the calls of `write` do, the message goes out alike or not at all,
and enough of them bring both ways to an end. -/
structure PathsAgree (c : Codec) (msg : MessageT) : Prop where
  alike : ∀ calls calls' client server, clientSend c calls msg = some client →
    networkSend c calls' msg = some server →
      SameFrame c msg client server ∨ BothRefuse client server
  returns : ∀ calls, (frame c msg).length ≤ transfers calls →
    (clientSend c calls msg).isSome = true ∧ (networkSend c calls msg).isSome = true

theorem clientSend_fits {c : Codec} {calls : List Call} {msg : MessageT} {sent : Sent}
    (hfit : (c.pack msg).length ≤ uint16Max) (h : clientSend c calls msg = some sent) :
    sent.code = 0 ∧ sent.bytes = frame c msg := by
  obtain ⟨hcode, hbytes⟩ := clientSend_spec h
  simp only [uint16Max] at hfit
  rw [intOf_small (by omega)] at hcode hbytes
  rw [Int.toNat_natCast, List.take_length] at hbytes
  rw [if_neg (by omega)] at hcode
  exact ⟨hcode, hbytes⟩

theorem pathsAgree_of_fits {c : Codec} {msg : MessageT} (hc : Carried c msg) :
    PathsAgree c msg := by
  refine ⟨?_, fun _ hcalls => ⟨clientSend_returns hcalls, networkSend_returns hcalls⟩⟩
  intro calls calls' client server hclient hserver
  obtain ⟨hcode, hbytes⟩ := clientSend_fits hc.fits hclient
  obtain ⟨hcode', hbytes', _⟩ := networkSend_spec hc.fits hserver
  refine Or.inl ⟨⟨hcode, hcode'⟩, hbytes.trans hbytes'.symm, ⟨c.pack msg, hbytes, ?_⟩, ?_, ?_⟩
  · exact ntohs_htons hc.fits
  · intro calls r hr
    rw [hbytes, ← List.append_nil (frame c msg)] at hr
    obtain ⟨hmsg, hrest, _⟩ := networkReceive_spec hc.fits hr
    exact ⟨hmsg.trans hc.undoes, hrest⟩
  · intro calls hcalls
    rw [hbytes] at hcalls ⊢
    have hr := @networkReceive_returns c msg hc.fits calls [] hcalls
    rwa [List.append_nil] at hr

/-- So many calls that move a byte. -/
def oneByOne (n : Nat) : List Call := List.replicate n (.moves 0)

theorem transfers_oneByOne (n : Nat) : transfers (oneByOne n) = n := by
  have hmove : (Call.moves 0).isMove = true := rfl
  rw [transfers, oneByOne, List.countP_replicate, if_pos hmove]

/-- The client has always written something, the server nothing. -/
theorem not_pathsAgree_of_long {c : Codec} {msg : MessageT}
    (hlong : uint16Max < (c.pack msg).length) : ¬ PathsAgree c msg := by
  intro hagree
  obtain ⟨client, hclient⟩ := Option.isSome_iff_exists.mp
    (clientSend_returns (Nat.le_of_eq (transfers_oneByOne (frame c msg).length).symm))
  obtain ⟨_, hbytes⟩ := clientSend_spec hclient
  have hserver := networkSend_long hlong []
  rcases hagree.alike _ _ client _ hclient hserver with hsame | ⟨_, _, hnone, _⟩
  · exact absurd hsame.codes.2 (by decide)
  · rw [hbytes] at hnone
    cases hnone

/-- **The two send paths agree** on the messages that fit a frame, and on no
others. -/
theorem paths_agree_iff {c : Codec} {msg : MessageT} (hu : c.unpack (c.pack msg) = some msg) :
    PathsAgree c msg ↔ (c.pack msg).length ≤ uint16Max := by
  constructor
  · intro hagree
    by_contra hlong
    exact not_pathsAgree_of_long (Nat.lt_of_not_le hlong) hagree
  · intro hfit
    exact pathsAgree_of_fits ⟨hfit, hu⟩

theorem paths_agree_iff_sampleAdd : PathsAgree protobuf (rlistAddRequest sampleCar) :=
  (paths_agree_iff carried_sampleAdd.undoes).mpr carried_sampleAdd.fits

/-- The removal of a model of so many letters. -/
def longRemoval (n : Nat) : MessageT :=
  rlistRemoveByModelRequest (cString (List.replicate n 97))

theorem strlen_letters (n : Nat) : strlen (cString (List.replicate n 97)) = n := by
  show ((List.replicate n (97 : UInt8)).takeWhile (· ≠ 0)).length = n
  have htake : (List.replicate n (97 : UInt8)).takeWhile (· ≠ 0) = List.replicate n 97 := by
    rw [List.takeWhile_eq_self_iff]
    intro b hb
    rw [(List.mem_replicate.mp hb).2]
    rfl
  rw [htake, List.length_replicate]

theorem longRemoval_size (n : Nat) :
    messageTGetPackedSize (longRemoval n) = 4 + delimited n := by
  have hopcode : int32Field 30 = 2 := int32Field_small (by decide)
  have hcType : int32Field 40 = 2 := int32Field_small (by decide)
  have hresult : sint32Field 0 = 0 := rfl
  show int32Field 30 + int32Field 40 + (0 + sint32Field 0 +
    repeatedField strlen [cString (List.replicate n 97)] + 0) = _
  rw [hopcode, hcType, hresult, repeatedField, repeatedField, strlen_letters]
  omega

theorem longRemoval_undone {n : Nat} (h : n < 4294967296) :
    protobuf.unpack (protobuf.pack (longRemoval n)) = some (longRemoval n) := by
  have hrange : InRange (longRemoval n) :=
    inRange_init (by decide) (by decide) (by decide) [cString (List.replicate n 97)]
  have hlog : n.log2 ≤ n := Nat.log2_le_self n
  apply messageTUnpack_messageTPack hrange
  rw [longRemoval_size, delimited, varintSize]
  omega

/-- A request of the stub, one whose packing is undone, that only the client
sends. -/
theorem longRemoval_sent_by_client_only :
    StubWrite (longRemoval 65535) ∧
      protobuf.unpack (protobuf.pack (longRemoval 65535)) = some (longRemoval 65535) ∧
      ¬ PathsAgree protobuf (longRemoval 65535) := by
  refine ⟨.remove _, longRemoval_undone (by omega), not_pathsAgree_of_long ?_⟩
  rw [packsToSize_protobuf, longRemoval_size, delimited]
  simp only [uint16Max]
  omega

end CarChain.SendPaths
