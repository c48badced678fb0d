import CarChain.Message

/-!
# Sizes on the wire

What `message_t__get_packed_size` returns, by the encoding of proto3: a field
that holds its default is left out, every tag of `sdmessage.proto` is one byte,
enumerations and `int32` are varints of ten bytes when negative, `sint32` is
zigzagged.  The chain takes the size function as a parameter and this one as an
instance.
-/

namespace CarChain.Wire
open CarChain.Record CarChain.Message

def varintSize (n : Nat) : Nat := n.log2 / 7 + 1

def int32Size (x : Int) : Nat := if x < 0 then 10 else varintSize x.toNat

def sint32Size (x : Int) : Nat :=
  varintSize (if x < 0 then (-x).toNat * 2 - 1 else x.toNat * 2)

def int32Field (x : Int) : Nat := if x = 0 then 0 else 1 + int32Size x

def sint32Field (x : Int) : Nat := if x = 0 then 0 else 1 + sint32Size x

/-- A float is left out when it compares equal to zero. -/
def floatField (x : CFloat) : Nat := if x = 0 ∨ x = 0x80000000 then 0 else 5

/-- A length-delimited field of `len` bytes. -/
def delimited (len : Nat) : Nat := 1 + varintSize len + len

/-- A repeated field of elements of these lengths. -/
def repeatedField {α : Type} (len : α → Nat) : List α → Nat
  | [] => 0
  | a :: rest => delimited (len a) + repeatedField len rest

def stringField (s : CString) : Nat := if strlen s = 0 then 0 else delimited (strlen s)

def dataPackedSize (d : Data) : Nat :=
  int32Field d.ano + floatField d.preco + int32Field d.marca + stringField d.modelo +
    int32Field d.combustivel

/-- The fields but for the opcode and the content type. -/
def payloadSize (m : MessageT) : Nat :=
  (match m.data with
    | none => 0
    | some d => delimited (dataPackedSize d)) +
    sint32Field m.result + repeatedField strlen m.models + repeatedField dataPackedSize m.cars

def messageTGetPackedSize (m : MessageT) : Nat :=
  int32Field m.opcode + int32Field m.cType + payloadSize m

/-- The enumeration values that take one byte. -/
def Small (x : Int) : Prop := 0 < x ∧ x < 128

instance (x : Int) : Decidable (Small x) := inferInstanceAs (Decidable (0 < x ∧ x < 128))

/-- What the chain relies on: a message is as long with one small value in its
two enumeration fields as with another. -/
def SmallEnums (packedSize : MessageT → Nat) : Prop :=
  ∀ (m : MessageT) (opcode cType : Int), Small m.opcode → Small m.cType → Small opcode →
    Small cType → packedSize { m with opcode := opcode, cType := cType } = packedSize m

theorem int32Field_small {x : Int} (h : Small x) : int32Field x = 2 := by
  obtain ⟨hpos, hlt⟩ := h
  have hne : x.toNat ≠ 0 := by omega
  have hlog : x.toNat.log2 < 7 := (Nat.log2_lt hne).mpr (by omega)
  have hdiv : x.toNat.log2 / 7 = 0 := Nat.div_eq_of_lt hlog
  simp only [int32Field, int32Size, varintSize]
  rw [if_neg (by omega), if_neg (by omega), hdiv]

theorem smallEnums_messageTGetPackedSize : SmallEnums messageTGetPackedSize := by
  intro m opcode cType hm hc hm' hc'
  simp only [messageTGetPackedSize, int32Field_small hm, int32Field_small hc,
    int32Field_small hm', int32Field_small hc']
  rfl

end CarChain.Wire
