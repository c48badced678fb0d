import CarChain.Wire

/-!
# The encoding of messages

`message_t__pack` and `message_t__unpack` on the descriptors of
`sdmessage.proto`, after the encoding of proto3: a field that holds its default
is left out, a key is the field number and the wire type, the rest is a varint,
four bytes, or a length and so many bytes.  Packing takes the room that
`message_t__get_packed_size` says (`messageTPack_length`).  The results on the
server take packing as a parameter; this is the instance that shows their
assumptions are met.
-/

namespace CarChain.Protobuf
open CarChain.Record CarChain.Message CarChain.Wire

/-! ## Packing -/

/-- A varint of so many bytes, the low seven bits first. -/
def varintBytes : Nat → Nat → List UInt8
  | 0, _ => []
  | 1, n => [n.toUInt8]
  | k + 2, n => (n % 128 + 128).toUInt8 :: varintBytes (k + 1) (n / 128)

def varint (n : Nat) : List UInt8 := varintBytes (varintSize n) n

/-- A negative `int32` is extended to 64 bits. -/
def packInt32 (x : Int) : List UInt8 :=
  if x < 0 then varintBytes 10 (x + 18446744073709551616).toNat else varint x.toNat

def zigzag (x : Int) : Nat := if x < 0 then (-x).toNat * 2 - 1 else x.toNat * 2

def packInt32Field (key : UInt8) (x : Int) : List UInt8 :=
  if x = 0 then [] else key :: packInt32 x

def packSint32Field (key : UInt8) (x : Int) : List UInt8 :=
  if x = 0 then [] else key :: varint (zigzag x)

/-- The four bytes of a float, the low one first. -/
def packFloatField (key : UInt8) (x : CFloat) : List UInt8 :=
  if x = 0 ∨ x = 0x80000000 then []
  else [key, x.toUInt8, (x >>> 8).toUInt8, (x >>> 16).toUInt8, (x >>> 24).toUInt8]

def packDelimited (key : UInt8) (bytes : List UInt8) : List UInt8 :=
  key :: (varint bytes.length ++ bytes)

def packStringField (key : UInt8) (s : CString) : List UInt8 :=
  if strlen s = 0 then [] else packDelimited key s.bytes

def packRepeated {α : Type} (key : UInt8) (pack : α → List UInt8) (l : List α) : List UInt8 :=
  l.flatMap fun a => packDelimited key (pack a)

def dataPack (d : Data) : List UInt8 :=
  packInt32Field 8 d.ano ++ packFloatField 21 d.preco ++ packInt32Field 24 d.marca ++
    packStringField 34 d.modelo ++ packInt32Field 40 d.combustivel

def messageTPack (m : MessageT) : List UInt8 :=
  packInt32Field 8 m.opcode ++ packInt32Field 16 m.cType ++
    (match m.data with
      | none => []
      | some d => packDelimited 26 (dataPack d)) ++
    packSint32Field 48 m.result ++ packRepeated 58 CString.bytes m.models ++
    packRepeated 66 dataPack m.cars

/-! ## Unpacking -/

/-- A varint of at most so many bytes, and what follows it. -/
def scanVarint : Nat → List UInt8 → Option (Nat × List UInt8)
  | 0, _ => none
  | _ + 1, [] => none
  | k + 1, b :: rest =>
    if b.toNat < 128 then some (b.toNat, rest)
    else (scanVarint k rest).map fun r => (b.toNat - 128 + 128 * r.1, r.2)

inductive Payload
  | varint (n : Nat)
  | fixed32 (bytes : List UInt8)
  | delimited (bytes : List UInt8)

def scanBytes (len : Nat) (bytes : List UInt8) : Option (List UInt8 × List UInt8) :=
  if len ≤ bytes.length then some (bytes.take len, bytes.drop len) else none

/-- A key, its payload, and what follows; no field of the descriptors has
another wire type. -/
def scanField (bytes : List UInt8) : Option ((Nat × Payload) × List UInt8) :=
  match scanVarint 10 bytes with
  | none => none
  | some (key, bytes) =>
    if key % 8 = 0 then
      (scanVarint 10 bytes).map fun r => ((key, .varint r.1), r.2)
    else if key % 8 = 2 then
      match scanVarint 10 bytes with
      | none => none
      | some (len, bytes) => (scanBytes len bytes).map fun r => ((key, .delimited r.1), r.2)
    else if key % 8 = 5 then
      (scanBytes 4 bytes).map fun r => ((key, .fixed32 r.1), r.2)
    else none

/-- Every field takes a byte at least, so the length is fuel enough. -/
def scanFields : Nat → List UInt8 → Option (List (Nat × Payload))
  | _, [] => some []
  | 0, _ :: _ => none
  | fuel + 1, b :: rest =>
    match scanField (b :: rest) with
    | none => none
    | some (field, bytes) => (scanFields fuel bytes).map (field :: ·)

/-- The low 32 bits of a varint. -/
def unpackInt32 (n : Nat) : Int :=
  if n % 4294967296 < 2147483648 then (n % 4294967296 : Nat)
  else (n % 4294967296 : Nat) - 4294967296

def unzigzag (n : Nat) : Int := if n % 2 = 0 then (n / 2 : Nat) else -(n / 2 + 1 : Nat)

def unpackFloat (bytes : List UInt8) : CFloat :=
  bytes.foldr (fun b x => x <<< 8 ||| b.toUInt32) 0

def dataField (d : Data) (field : Nat × Payload) : Option Data :=
  match field with
  | (8, .varint n) => some { d with ano := unpackInt32 n }
  | (21, .fixed32 bytes) => some { d with preco := unpackFloat bytes }
  | (24, .varint n) => some { d with marca := unpackInt32 n }
  | (34, .delimited bytes) => some { d with modelo := cString bytes }
  | (40, .varint n) => some { d with combustivel := unpackInt32 n }
  | _ => none

def dataUnpack (bytes : List UInt8) : Option Data :=
  match scanFields bytes.length bytes with
  | none => none
  | some fields => fields.foldlM dataField ⟨0, 0, 0, CString.empty, 0⟩

def messageField (m : MessageT) (field : Nat × Payload) : Option MessageT :=
  match field with
  | (8, .varint n) => some { m with opcode := unpackInt32 n }
  | (16, .varint n) => some { m with cType := unpackInt32 n }
  | (26, .delimited bytes) => (dataUnpack bytes).map fun d => { m with data := some d }
  | (48, .varint n) => some { m with result := unzigzag n }
  | (58, .delimited bytes) => some { m with models := m.models ++ [cString bytes] }
  | (66, .delimited bytes) => (dataUnpack bytes).map fun d => { m with cars := m.cars ++ [d] }
  | _ => none

def messageTUnpack (bytes : List UInt8) : Option MessageT :=
  match scanFields bytes.length bytes with
  | none => none
  | some fields => fields.foldlM messageField messageTInit

/-! ## The length of a packed message -/

@[simp] theorem varintBytes_length (k n : Nat) : (varintBytes k n).length = k := by
  induction k generalizing n with
  | zero => rfl
  | succ k ih =>
    cases k with
    | zero => rfl
    | succ k => rw [varintBytes, List.length_cons, ih]

@[simp] theorem varint_length (n : Nat) : (varint n).length = varintSize n :=
  varintBytes_length _ n

@[simp] theorem packInt32Field_length (key : UInt8) (x : Int) :
    (packInt32Field key x).length = int32Field x := by
  unfold packInt32Field packInt32 int32Field int32Size
  split
  · rfl
  · split <;> simp [Nat.add_comm]

@[simp] theorem packSint32Field_length (key : UInt8) (x : Int) :
    (packSint32Field key x).length = sint32Field x := by
  unfold packSint32Field sint32Field sint32Size zigzag
  split
  · rfl
  · simp [Nat.add_comm]

@[simp] theorem packFloatField_length (key : UInt8) (x : CFloat) :
    (packFloatField key x).length = floatField x := by
  unfold packFloatField floatField
  split <;> rfl

@[simp] theorem packDelimited_length (key : UInt8) (bytes : List UInt8) :
    (packDelimited key bytes).length = delimited bytes.length := by
  simp only [packDelimited, delimited, List.length_cons, List.length_append, varint_length]
  omega

@[simp] theorem packStringField_length (key : UInt8) (s : CString) :
    (packStringField key s).length = stringField s := by
  unfold packStringField stringField
  split
  · rfl
  · exact packDelimited_length key s.bytes

theorem packRepeated_length {α : Type} (key : UInt8) {pack : α → List UInt8} {len : α → Nat}
    (h : ∀ a, (pack a).length = len a) (l : List α) :
    (packRepeated key pack l).length = repeatedField len l := by
  induction l with
  | nil => rfl
  | cons a l ih =>
    unfold packRepeated at ih ⊢
    rw [List.flatMap_cons, List.length_append, ih, packDelimited_length, h]
    rfl

@[simp] theorem dataPack_length (d : Data) : (dataPack d).length = dataPackedSize d := by
  simp only [dataPack, dataPackedSize, List.length_append, packInt32Field_length,
    packFloatField_length, packStringField_length]

/-- A message packs to the size that was computed for its buffer. -/
theorem messageTPack_length (m : MessageT) :
    (messageTPack m).length = messageTGetPackedSize m := by
  have hmodels : (packRepeated 58 CString.bytes m.models).length =
      repeatedField strlen m.models := packRepeated_length _ (fun _ => rfl) _
  have hcars : (packRepeated 66 dataPack m.cars).length =
      repeatedField dataPackedSize m.cars := packRepeated_length _ dataPack_length _
  simp only [messageTPack, messageTGetPackedSize, payloadSize, List.length_append,
    packInt32Field_length, packSint32Field_length, hmodels, hcars]
  cases m.data with
  | none =>
    dsimp only [List.length_nil]
    omega
  | some d =>
    dsimp only
    rw [packDelimited_length, dataPack_length]
    omega

end CarChain.Protobuf
