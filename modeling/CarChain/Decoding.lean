import CarChain.Remote
import Mathlib.Algebra.Group.Nat.Defs
import Mathlib.Data.List.TakeWhile

/-!
# What was packed is unpacked

`message_t__unpack` undoes `message_t__pack` on every message whose numbers fit
their 32 bits (`messageTUnpack_messageTPack`), but for a price of minus zero,
which compares equal to the default and is left out.  So the frames of such
messages carry them, and the stubs' requests and their replies are among these
(`exchanged_request`).
-/

namespace CarChain.Decoding
open CarChain.Record CarChain.Message CarChain.Wire CarChain.Protobuf CarChain.Framing
open CarChain.CarList CarChain.Lists CarChain.Skeleton CarChain.Handler CarChain.Answering
open CarChain.Stub CarChain.Remote

/-! ## Varints -/

theorem toNat_toUInt8 {n : Nat} (h : n < 256) : n.toUInt8.toNat = n := by
  show (UInt8.ofNat n).toNat = n
  rw [UInt8.toNat_ofNat']
  exact Nat.mod_eq_of_lt h

/-- So many bytes hold a number below that power of 128. -/
theorem scanVarint_varintBytes {k fuel n : Nat} (hk : k < fuel) (hn : n < 128 ^ (k + 1))
    (rest : List UInt8) :
    scanVarint fuel (varintBytes (k + 1) n ++ rest) = some (n, rest) := by
  induction k generalizing fuel n with
  | zero =>
    obtain ⟨fuel, rfl⟩ : ∃ fuel', fuel = fuel' + 1 := ⟨fuel - 1, by omega⟩
    have hbyte : n.toUInt8.toNat = n := toNat_toUInt8 (by omega)
    show scanVarint (fuel + 1) (n.toUInt8 :: rest) = _
    rw [scanVarint, hbyte, if_pos (by omega)]
  | succ k ih =>
    obtain ⟨fuel, rfl⟩ : ∃ fuel', fuel = fuel' + 1 := ⟨fuel - 1, by omega⟩
    have hbyte : (n % 128 + 128).toUInt8.toNat = n % 128 + 128 := toNat_toUInt8 (by omega)
    have hdiv : n / 128 < 128 ^ (k + 1) := by
      rw [Nat.div_lt_iff_lt_mul (by decide), ← Nat.pow_succ]
      exact hn
    rw [varintBytes, List.cons_append, scanVarint, hbyte, if_neg (by omega),
      ih (by omega) hdiv, Option.map_some]
    congr 2
    omega

theorem lt_pow_varintSize (n : Nat) : n < 128 ^ varintSize n := by
  have hlog : n < 2 ^ (n.log2 + 1) := Nat.lt_log2_self
  have hle : n.log2 + 1 ≤ 7 * varintSize n := by
    unfold varintSize
    omega
  calc n < 2 ^ (n.log2 + 1) := hlog
    _ ≤ 2 ^ (7 * varintSize n) := Nat.pow_le_pow_right (by decide) hle
    _ = 128 ^ varintSize n := by rw [Nat.pow_mul]

theorem varintSize_le {n : Nat} (h : n < 18446744073709551616) : varintSize n ≤ 10 := by
  unfold varintSize
  by_cases hz : n = 0
  · subst hz
    decide
  · have hlog : n.log2 < 64 := (Nat.log2_lt hz).mpr h
    omega

/-- Ten bytes are enough for 64 bits. -/
theorem scanVarint_varint {n : Nat} (h : n < 18446744073709551616) (rest : List UInt8) :
    scanVarint 10 (varint n ++ rest) = some (n, rest) := by
  have hsize := varintSize_le h
  have hlt := lt_pow_varintSize n
  unfold varint
  obtain ⟨k, hk⟩ : ∃ k, varintSize n = k + 1 := ⟨n.log2 / 7, rfl⟩
  rw [hk] at hlt hsize ⊢
  exact scanVarint_varintBytes (by omega) hlt rest

/-! ## Numbers -/

/-- What an `int32` of C can hold. -/
def Int32 (x : Int) : Prop := -2147483648 ≤ x ∧ x < 2147483648

instance (x : Int) : Decidable (Int32 x) :=
  inferInstanceAs (Decidable (-2147483648 ≤ x ∧ x < 2147483648))

/-- The number a packed `int32` is scanned as. -/
def int32Varint (x : Int) : Nat := if x < 0 then (x + 18446744073709551616).toNat else x.toNat

theorem scanVarint_packInt32 {x : Int} (h : Int32 x) (rest : List UInt8) :
    scanVarint 10 (packInt32 x ++ rest) = some (int32Varint x, rest) := by
  obtain ⟨hlo, hhi⟩ := h
  unfold packInt32 int32Varint
  split
  · exact scanVarint_varintBytes (by decide) (by omega) rest
  · exact scanVarint_varint (by omega) rest

theorem unpackInt32_int32Varint {x : Int} (h : Int32 x) : unpackInt32 (int32Varint x) = x := by
  obtain ⟨hlo, hhi⟩ := h
  unfold unpackInt32 int32Varint
  split
  · split <;> omega
  · split <;> omega

theorem unzigzag_zigzag (x : Int) : unzigzag (zigzag x) = x := by
  unfold unzigzag zigzag
  split
  · split <;> omega
  · split <;> omega

theorem zigzag_lt {x : Int} (h : Int32 x) : zigzag x < 18446744073709551616 := by
  obtain ⟨hlo, hhi⟩ := h
  unfold zigzag
  split <;> omega

theorem shiftLeft_or (x : UInt32) (b : UInt8) (h : x.toNat < 16777216) :
    (x <<< 8 ||| b.toUInt32).toNat = x.toNat * 256 + b.toNat := by
  have hb := b.toNat_lt
  rw [UInt32.toNat_or, UInt32.toNat_shiftLeft, UInt8.toNat_toUInt32]
  have h8 : (8 : UInt32).toNat % 32 = 8 := rfl
  rw [h8, Nat.shiftLeft_eq, Nat.mod_eq_of_lt (by omega), Nat.mul_comm,
    ← Nat.two_pow_add_eq_or_of_lt (by omega), Nat.mul_comm]

/-- The four bytes make up the number. -/
theorem unpackFloat_bytes (x : CFloat) :
    unpackFloat [x.toUInt8, (x >>> 8).toUInt8, (x >>> 16).toUInt8, (x >>> 24).toUInt8] = x := by
  have hx : x.toNat < 4294967296 := x.toNat_lt
  have h0 : x.toUInt8.toNat = x.toNat % 256 := UInt32.toNat_toUInt8 x
  have h1 : (x >>> 8).toUInt8.toNat = x.toNat / 256 % 256 := by
    rw [UInt32.toNat_toUInt8, UInt32.toNat_shiftRight, Nat.shiftRight_eq_div_pow]
    rfl
  have h2 : (x >>> 16).toUInt8.toNat = x.toNat / 65536 % 256 := by
    rw [UInt32.toNat_toUInt8, UInt32.toNat_shiftRight, Nat.shiftRight_eq_div_pow]
    rfl
  have h3 : (x >>> 24).toUInt8.toNat = x.toNat / 16777216 % 256 := by
    rw [UInt32.toNat_toUInt8, UInt32.toNat_shiftRight, Nat.shiftRight_eq_div_pow]
    rfl
  have hzero : (0 : UInt32).toNat = 0 := rfl
  apply UInt32.toNat_inj.mp
  simp only [unpackFloat, List.foldr_cons, List.foldr_nil]
  have e3 := shiftLeft_or 0 (x >>> 24).toUInt8 (by decide)
  rw [hzero, h3] at e3
  have e2 := shiftLeft_or _ (x >>> 16).toUInt8 (by rw [e3]; omega)
  rw [e3, h2] at e2
  have e1 := shiftLeft_or _ (x >>> 8).toUInt8 (by rw [e2]; omega)
  rw [e2, h1] at e1
  have e0 := shiftLeft_or _ x.toUInt8 (by rw [e1]; omega)
  rw [e0, e1, h0]
  omega

/-! ## Fields -/

/-- The bytes are those of the fields, whatever follows them; each field takes a
byte at least. -/
structure Encodes (bytes : List UInt8) (fields : List (Nat × Payload)) : Prop where
  short : fields.length ≤ bytes.length
  scan : ∀ fuel rest, scanFields (fields.length + fuel) (bytes ++ rest) =
    (scanFields fuel rest).map (fields ++ ·)

theorem encodes_nil : Encodes [] [] where
  short := Nat.le_refl 0
  scan fuel rest := by
    rw [List.length_nil, Nat.zero_add, List.nil_append]
    cases scanFields fuel rest <;> rfl

theorem Encodes.append {bytes bytes' : List UInt8} {fields fields' : List (Nat × Payload)}
    (h : Encodes bytes fields) (h' : Encodes bytes' fields') :
    Encodes (bytes ++ bytes') (fields ++ fields') where
  short := by
    have hs := h.short
    have hs' := h'.short
    simp only [List.length_append]
    omega
  scan fuel rest := by
    rw [List.length_append, Nat.add_assoc, List.append_assoc, h.scan, h'.scan, Option.map_map]
    congr 1
    funext tail
    exact (List.append_assoc fields fields' tail).symm

theorem encodes_field {b : UInt8} {bytes : List UInt8} {field : Nat × Payload}
    (h : ∀ rest, scanField (b :: bytes ++ rest) = some (field, rest)) :
    Encodes (b :: bytes) [field] where
  short := Nat.succ_le_succ (Nat.zero_le _)
  scan fuel rest := by
    have hfield := h rest
    rw [List.cons_append] at hfield ⊢
    rw [List.length_singleton, Nat.add_comm, scanFields, hfield]
    rfl

/-- As much fuel as there are bytes is enough. -/
theorem Encodes.scanFields_eq {bytes : List UInt8} {fields : List (Nat × Payload)}
    (h : Encodes bytes fields) : scanFields bytes.length bytes = some fields := by
  have hs := h.scan (bytes.length - fields.length) []
  rw [Nat.add_sub_cancel' h.short, List.append_nil] at hs
  rw [hs, scanFields, Option.map_some, List.append_nil]

theorem scanVarint_key {key : UInt8} (h : key.toNat < 128) (rest : List UInt8) :
    scanVarint 10 (key :: rest) = some (key.toNat, rest) := by
  rw [scanVarint, if_pos h]

theorem scanBytes_append (bytes rest : List UInt8) :
    scanBytes bytes.length (bytes ++ rest) = some (bytes, rest) := by
  unfold scanBytes
  rw [if_pos (by rw [List.length_append]; omega), List.take_left, List.drop_left]

/-- A field that is there unless it holds its default. -/
def fieldUnless (p : Prop) [Decidable p] (field : Nat × Payload) : List (Nat × Payload) :=
  if p then [] else [field]

theorem encodes_fieldUnless {p : Prop} [Decidable p] {bytes : List UInt8} {field : Nat × Payload}
    (h : ¬ p → Encodes bytes [field]) :
    Encodes (if p then [] else bytes) (fieldUnless p field) := by
  unfold fieldUnless
  split
  · exact encodes_nil
  · rename_i hp
    exact h hp

theorem encodes_varint {key : UInt8} (hkey : key.toNat < 128 ∧ key.toNat % 8 = 0)
    {bytes : List UInt8} {n : Nat}
    (h : ∀ rest, scanVarint 10 (bytes ++ rest) = some (n, rest)) :
    Encodes (key :: bytes) [(key.toNat, .varint n)] := by
  apply encodes_field
  intro rest
  rw [List.cons_append, scanField, scanVarint_key hkey.1]
  dsimp only
  rw [if_pos hkey.2, h]
  rfl

theorem encodes_int32Field {key : UInt8} (hkey : key.toNat < 128 ∧ key.toNat % 8 = 0) {x : Int}
    (h : Int32 x) :
    Encodes (packInt32Field key x) (fieldUnless (x = 0) (key.toNat, .varint (int32Varint x))) := by
  apply encodes_fieldUnless
  intro _
  exact encodes_varint hkey (scanVarint_packInt32 h)

theorem encodes_sint32Field {key : UInt8} (hkey : key.toNat < 128 ∧ key.toNat % 8 = 0) {x : Int}
    (h : Int32 x) :
    Encodes (packSint32Field key x) (fieldUnless (x = 0) (key.toNat, .varint (zigzag x))) := by
  apply encodes_fieldUnless
  intro _
  exact encodes_varint hkey (scanVarint_varint (zigzag_lt h))

/-- The four bytes of a float. -/
def floatBytes (x : CFloat) : List UInt8 :=
  [x.toUInt8, (x >>> 8).toUInt8, (x >>> 16).toUInt8, (x >>> 24).toUInt8]

theorem encodes_floatField {key : UInt8} (hkey : key.toNat < 128 ∧ key.toNat % 8 = 5)
    (x : CFloat) :
    Encodes (packFloatField key x)
      (fieldUnless (x = 0 ∨ x = 0x80000000) (key.toNat, .fixed32 (floatBytes x))) := by
  apply encodes_fieldUnless
  intro _
  apply encodes_field
  intro rest
  have hbytes : scanBytes 4 (floatBytes x ++ rest) = some (floatBytes x, rest) :=
    scanBytes_append (floatBytes x) rest
  rw [List.cons_append, scanField, scanVarint_key hkey.1]
  dsimp only
  rw [if_neg (by omega), if_neg (by omega), if_pos hkey.2]
  show (scanBytes 4 (floatBytes x ++ rest)).map _ = _
  rw [hbytes]
  rfl

theorem encodes_delimited {key : UInt8} (hkey : key.toNat < 128 ∧ key.toNat % 8 = 2)
    {bytes : List UInt8} (h : bytes.length < 18446744073709551616) :
    Encodes (packDelimited key bytes) [(key.toNat, .delimited bytes)] := by
  apply encodes_field
  intro rest
  rw [List.cons_append, scanField, scanVarint_key hkey.1]
  dsimp only
  rw [if_neg (by omega), if_pos hkey.2, List.append_assoc, scanVarint_varint h]
  dsimp only
  rw [scanBytes_append]
  rfl

theorem encodes_stringField {key : UInt8} (hkey : key.toNat < 128 ∧ key.toNat % 8 = 2)
    {s : CString} (h : strlen s < 18446744073709551616) :
    Encodes (packStringField key s)
      (fieldUnless (strlen s = 0) (key.toNat, .delimited s.bytes)) := by
  apply encodes_fieldUnless
  intro _
  exact encodes_delimited hkey h

theorem encodes_repeated {α : Type} {key : UInt8} (hkey : key.toNat < 128 ∧ key.toNat % 8 = 2)
    {pack : α → List UInt8} {l : List α}
    (h : ∀ a ∈ l, (pack a).length < 18446744073709551616) :
    Encodes (packRepeated key pack l) (l.map fun a => (key.toNat, .delimited (pack a))) := by
  induction l with
  | nil => exact encodes_nil
  | cons a l ih =>
    have hhead := encodes_delimited hkey (h a List.mem_cons_self)
    have htail := ih fun b hb => h b (List.mem_cons_of_mem a hb)
    exact hhead.append htail

/-! ## Reading the fields -/

theorem cString_bytes (s : CString) : cString s.bytes = s := by
  obtain ⟨bytes, hnul⟩ := s
  have htake : bytes.takeWhile (· ≠ 0) = bytes := by
    rw [List.takeWhile_eq_self_iff]
    intro b hb
    have hne : b ≠ 0 := fun h => hnul (h ▸ hb)
    exact decide_eq_true hne
  unfold cString
  congr

theorem strlen_eq_zero {s : CString} (h : strlen s = 0) : s = CString.empty := by
  obtain ⟨bytes, hnul⟩ := s
  cases List.length_eq_zero_iff.mp h
  rfl

/-- A field that is left out leaves its default, one that is there is set. -/
theorem foldlM_fieldUnless {σ : Type} {f : σ → Nat × Payload → Option σ} {s s' : σ} {p : Prop}
    [Decidable p] {field : Nat × Payload} (hdefault : p → s = s')
    (hset : ¬ p → f s field = some s') : (fieldUnless p field).foldlM f s = some s' := by
  unfold fieldUnless
  split
  · rename_i hp
    rw [hdefault hp]
    rfl
  · rename_i hp
    rw [List.foldlM_cons, hset hp]
    rfl

/-- A number is read back. -/
theorem foldlM_int32 {σ : Type} {f : σ → Nat × Payload → Option σ} {key : Nat} {x : Int}
    (set : Int → σ) (h : Int32 x)
    (hset : ∀ n, f (set 0) (key, .varint n) = some (set (unpackInt32 n))) :
    (fieldUnless (x = 0) (key, .varint (int32Varint x))).foldlM f (set 0) = some (set x) := by
  apply foldlM_fieldUnless
  · intro hzero
    rw [hzero]
  · intro _
    rw [hset, unpackInt32_int32Varint h]

/-- One group of fields after the other. -/
theorem foldlM_append_of {σ : Type} {f : σ → Nat × Payload → Option σ} {s s' : σ}
    {fields fields' : List (Nat × Payload)} (h : fields.foldlM f s = some s') :
    (fields ++ fields').foldlM f s = fields'.foldlM f s' := by
  rw [List.foldlM_append, h]
  rfl

/-! ## Cars -/

/-- The numbers of a car fit and its price is not minus zero. -/
structure DataInRange (d : Data) : Prop where
  ano : Int32 d.ano
  preco : d.preco ≠ 0x80000000
  marca : Int32 d.marca
  combustivel : Int32 d.combustivel

def dataFields (d : Data) : List (Nat × Payload) :=
  fieldUnless (d.ano = 0) (8, .varint (int32Varint d.ano)) ++
    (fieldUnless (d.preco = 0 ∨ d.preco = 0x80000000) (21, .fixed32 (floatBytes d.preco)) ++
    (fieldUnless (d.marca = 0) (24, .varint (int32Varint d.marca)) ++
    (fieldUnless (strlen d.modelo = 0) (34, .delimited d.modelo.bytes) ++
    fieldUnless (d.combustivel = 0) (40, .varint (int32Varint d.combustivel)))))

theorem strlen_le_dataPackedSize (d : Data) : strlen d.modelo ≤ dataPackedSize d := by
  have hstring : strlen d.modelo ≤ stringField d.modelo := by
    unfold stringField delimited
    split <;> omega
  unfold dataPackedSize
  omega

theorem encodes_dataPack {d : Data} (h : DataInRange d)
    (hsize : dataPackedSize d < 18446744073709551616) :
    Encodes (dataPack d) (dataFields d) := by
  have hmodelo : strlen d.modelo < 18446744073709551616 :=
    Nat.lt_of_le_of_lt (strlen_le_dataPackedSize d) hsize
  unfold dataPack dataFields
  simp only [List.append_assoc]
  apply (encodes_int32Field (by decide) h.ano).append
  apply (encodes_floatField (by decide) d.preco).append
  apply (encodes_int32Field (by decide) h.marca).append
  apply (encodes_stringField (by decide) hmodelo).append
  exact encodes_int32Field (by decide) h.combustivel

theorem dataUnpack_dataPack {d : Data} (h : DataInRange d)
    (hsize : dataPackedSize d < 18446744073709551616) : dataUnpack (dataPack d) = some d := by
  obtain ⟨ano, preco, marca, modelo, combustivel⟩ := d
  have hano := foldlM_int32 (fun x => (⟨x, 0, 0, CString.empty, 0⟩ : Data)) h.ano
    (f := dataField) (fun _ => rfl : ∀ n, dataField _ (8, .varint n) = _)
  have hpreco : (fieldUnless (preco = 0 ∨ preco = 0x80000000)
      (21, .fixed32 (floatBytes preco))).foldlM dataField ⟨ano, 0, 0, CString.empty, 0⟩ =
        some ⟨ano, preco, 0, CString.empty, 0⟩ := by
    apply foldlM_fieldUnless
    · intro hzero
      rw [hzero.resolve_right h.preco]
    · intro _
      rw [dataField, floatBytes, unpackFloat_bytes]
  have hmarca := foldlM_int32 (fun x => (⟨ano, preco, x, CString.empty, 0⟩ : Data)) h.marca
    (f := dataField) (fun _ => rfl : ∀ n, dataField _ (24, .varint n) = _)
  have hmodelo : (fieldUnless (strlen modelo = 0) (34, .delimited modelo.bytes)).foldlM dataField
      ⟨ano, preco, marca, CString.empty, 0⟩ = some ⟨ano, preco, marca, modelo, 0⟩ := by
    apply foldlM_fieldUnless
    · intro hzero
      rw [strlen_eq_zero hzero]
    · intro _
      rw [dataField, cString_bytes]
  have hcombustivel := foldlM_int32 (fun x => (⟨ano, preco, marca, modelo, x⟩ : Data))
    h.combustivel (f := dataField) (fun _ => rfl : ∀ n, dataField _ (40, .varint n) = _)
  unfold dataUnpack
  rw [(encodes_dataPack h hsize).scanFields_eq]
  dsimp only [dataFields]
  rw [foldlM_append_of hano, foldlM_append_of hpreco, foldlM_append_of hmarca,
    foldlM_append_of hmodelo, hcombustivel]

/-! ## Messages -/

/-- The numbers of a message fit and its cars are in range. -/
structure InRange (m : MessageT) : Prop where
  opcode : Int32 m.opcode
  cType : Int32 m.cType
  data : ∀ d ∈ m.data, DataInRange d
  result : Int32 m.result
  cars : ∀ d ∈ m.cars, DataInRange d

def carField (d : Data) : Nat × Payload := (66, .delimited (dataPack d))

def modelField (s : CString) : Nat × Payload := (58, .delimited s.bytes)

def optionalData (data : Option Data) : List (Nat × Payload) :=
  (data.map fun d => (26, .delimited (dataPack d))).toList

def messageFields (m : MessageT) : List (Nat × Payload) :=
  fieldUnless (m.opcode = 0) (8, .varint (int32Varint m.opcode)) ++
    (fieldUnless (m.cType = 0) (16, .varint (int32Varint m.cType)) ++
    (optionalData m.data ++
    (fieldUnless (m.result = 0) (48, .varint (zigzag m.result)) ++
    (m.models.map modelField ++ m.cars.map carField))))

theorem le_repeatedField {α : Type} (len : α → Nat) {l : List α} {a : α} (h : a ∈ l) :
    len a ≤ repeatedField len l := by
  induction l with
  | nil => cases h
  | cons b l ih =>
    unfold repeatedField
    rcases List.mem_cons.mp h with rfl | hmem
    · unfold delimited
      omega
    · have htail := ih hmem
      omega

/-- Each part of a message is shorter than the message. -/
structure PartsFit (m : MessageT) : Prop where
  data : ∀ d ∈ m.data, dataPackedSize d < 18446744073709551616
  models : ∀ s ∈ m.models, strlen s < 18446744073709551616
  cars : ∀ d ∈ m.cars, dataPackedSize d < 18446744073709551616

theorem partsFit {m : MessageT} (h : messageTGetPackedSize m < 18446744073709551616) :
    PartsFit m := by
  unfold messageTGetPackedSize payloadSize at h
  refine ⟨?_, ?_, ?_⟩
  · intro d hd
    rw [Option.mem_def.mp hd] at h
    dsimp only [delimited] at h
    omega
  · intro s hs
    have hle := le_repeatedField strlen hs
    omega
  · intro d hd
    have hle := le_repeatedField dataPackedSize hd
    omega

/-- The bytes of the optional car. -/
def packOptional (data : Option Data) : List UInt8 :=
  (data.map fun d => packDelimited 26 (dataPack d)).getD []

theorem messageTPack_eq (m : MessageT) : messageTPack m =
    packInt32Field 8 m.opcode ++ (packInt32Field 16 m.cType ++ (packOptional m.data ++
      (packSint32Field 48 m.result ++ (packRepeated 58 CString.bytes m.models ++
        packRepeated 66 dataPack m.cars)))) := by
  unfold messageTPack
  cases m.data <;> simp only [packOptional, List.append_assoc, Option.map_none, Option.map_some,
    Option.getD_none, Option.getD_some]

theorem encodes_optional {data : Option Data}
    (h : ∀ d ∈ data, dataPackedSize d < 18446744073709551616) :
    Encodes (packOptional data) (optionalData data) := by
  cases data with
  | none => exact encodes_nil
  | some d =>
    apply encodes_delimited (by decide)
    rw [dataPack_length]
    exact h d rfl

theorem encodes_messageTPack {m : MessageT} (h : InRange m) (hsize : PartsFit m) :
    Encodes (messageTPack m) (messageFields m) := by
  rw [messageTPack_eq]
  unfold messageFields
  apply (encodes_int32Field (by decide) h.opcode).append
  apply (encodes_int32Field (by decide) h.cType).append
  apply (encodes_optional hsize.data).append
  apply (encodes_sint32Field (by decide) h.result).append
  apply (encodes_repeated (by decide) hsize.models).append
  apply encodes_repeated (by decide)
  intro d hd
  rw [dataPack_length]
  exact hsize.cars d hd

theorem foldlM_models (l : List CString) (m : MessageT) :
    (l.map modelField).foldlM messageField m = some { m with models := m.models ++ l } := by
  induction l generalizing m with
  | nil =>
    rw [List.append_nil]
    rfl
  | cons s l ih =>
    have hstep : messageField m (modelField s) = some { m with models := m.models ++ [s] } := by
      rw [modelField, messageField, cString_bytes]
    rw [List.map_cons, List.foldlM_cons, hstep]
    show (l.map modelField).foldlM messageField { m with models := m.models ++ [s] } = _
    rw [ih, List.append_assoc]
    rfl

theorem foldlM_cars {l : List Data} (h : ∀ d ∈ l, DataInRange d)
    (hsize : ∀ d ∈ l, dataPackedSize d < 18446744073709551616) (m : MessageT) :
    (l.map carField).foldlM messageField m = some { m with cars := m.cars ++ l } := by
  induction l generalizing m with
  | nil =>
    rw [List.map_nil, List.append_nil]
    rfl
  | cons d l ih =>
    have hunpack := dataUnpack_dataPack (h d List.mem_cons_self) (hsize d List.mem_cons_self)
    have hstep : messageField m (carField d) = some { m with cars := m.cars ++ [d] } := by
      rw [carField, messageField, hunpack]
      rfl
    rw [List.map_cons, List.foldlM_cons, hstep]
    show (l.map carField).foldlM messageField { m with cars := m.cars ++ [d] } = _
    rw [ih (fun c hc => h c (List.mem_cons_of_mem d hc))
      (fun c hc => hsize c (List.mem_cons_of_mem d hc)), List.append_assoc]
    rfl

/-- **Unpacking undoes packing.** -/
theorem messageTUnpack_messageTPack {m : MessageT} (h : InRange m)
    (hsize : messageTGetPackedSize m < 18446744073709551616) :
    messageTUnpack (messageTPack m) = some m := by
  have hfit := partsFit hsize
  have hscan := (encodes_messageTPack h hfit).scanFields_eq
  obtain ⟨opcode, cType, data, result, models, cars⟩ := m
  have hopcode := foldlM_int32 (fun x => (⟨x, 0, none, 0, [], []⟩ : MessageT)) h.opcode
    (f := messageField) (fun _ => rfl : ∀ n, messageField _ (8, .varint n) = _)
  have hcType := foldlM_int32 (fun x => (⟨opcode, x, none, 0, [], []⟩ : MessageT)) h.cType
    (f := messageField) (fun _ => rfl : ∀ n, messageField _ (16, .varint n) = _)
  have hdata : (optionalData data).foldlM messageField ⟨opcode, cType, none, 0, [], []⟩ =
      some ⟨opcode, cType, data, 0, [], []⟩ := by
    cases data with
    | none => rfl
    | some d =>
      have hunpack := dataUnpack_dataPack (h.data d rfl) (hfit.data d rfl)
      show (messageField _ (26, .delimited (dataPack d))).bind _ = _
      rw [messageField, hunpack]
      rfl
  have hresult : (fieldUnless (result = 0) (48, .varint (zigzag result))).foldlM messageField
      ⟨opcode, cType, data, 0, [], []⟩ = some ⟨opcode, cType, data, result, [], []⟩ := by
    apply foldlM_fieldUnless
    · intro hzero
      rw [hzero]
    · intro _
      rw [messageField, unzigzag_zigzag]
  unfold messageTUnpack
  rw [hscan]
  dsimp only [messageFields, messageTInit]
  rw [foldlM_append_of hopcode, foldlM_append_of hcType, foldlM_append_of hdata,
    foldlM_append_of hresult, foldlM_append_of (foldlM_models models _),
    foldlM_cars h.cars hfit.cars]
  rfl

/-- A message in range that fits a frame is carried. -/
theorem carried_of_inRange {m : MessageT} (h : InRange m)
    (hfit : messageTGetPackedSize m ≤ uint16Max) : Carried protobuf m where
  fits := by
    rw [packsToSize_protobuf]
    exact hfit
  undoes := by
    apply messageTUnpack_messageTPack h
    simp only [uint16Max] at hfit
    omega

/-! ## The exchanges of the stubs -/

/-- No price of the list is minus zero, and its size fits 32 bits. -/
structure ListInRange (list : Cars) : Prop where
  preco : ∀ d ∈ list.head, d.preco ≠ 0x80000000
  size : list.head.length < 2147483648

theorem int32_small {x : Int} (h : Wire.Small x) : Int32 x := by
  obtain ⟨hpos, hlt⟩ := h
  constructor <;> omega

theorem dataInRange_toData {d : DataT} (hv : d.Valid) (hpreco : d.preco ≠ 0x80000000) :
    DataInRange (toData d) := by
  obtain ⟨hano, hano'⟩ := hv.ano
  obtain ⟨hmarca, hmarca'⟩ := hv.marca
  obtain ⟨hcombustivel, hcombustivel'⟩ := hv.combustivel
  refine ⟨⟨?_, ?_⟩, hpreco, ⟨?_, ?_⟩, ?_, ?_⟩
  all_goals
    dsimp only [toData]
    omega

/-- The cars of a reply are those of the request or some of the list. -/
theorem mem_replyCars {req : MessageT} {list : Cars} {d : Data} (h : d ∈ replyCars req list) :
    d ∈ req.cars ∨ ∃ c ∈ list.head, toData c = d := by
  have hsome : ∀ cars : List DataT, (∀ c ∈ cars, c ∈ list.head) →
      d ∈ (if cars = [] then req.cars else cars.map toData) →
        d ∈ req.cars ∨ ∃ c ∈ list.head, toData c = d := by
    intro cars hcars hd
    split at hd
    · exact Or.inl hd
    · obtain ⟨c, hc, hcd⟩ := List.mem_map.mp hd
      exact Or.inr ⟨c, hcars c hc, hcd⟩
  unfold replyCars at h
  split at h
  · apply hsome _ _ h
    split
    · exact fun c hc => hc
    · exact fun c hc => List.mem_of_mem_filter hc
  · exact Or.inl h

/-- The reply to a message in range is in range. -/
theorem inRange_reply {req : MessageT} {list : Cars} (hw : WellFormed list) (h : InRange req)
    (hl : ListInRange list) : InRange (invoke req list).msg := by
  have hf := foretold_invoke req hw
  have hcar : ∀ d ∈ list.head, DataInRange (toData d) := fun d hd =>
    dataInRange_toData (hw.valid d hd) (hl.preco d hd)
  refine ⟨int32_small hf.opcode, int32_small hf.cType, ?_, ?_, ?_⟩
  · rw [hf.data]
    unfold replyData
    split
    · split
      · rename_i found hfound
        intro d hd
        cases hd
        exact hcar found (List.mem_of_find?_eq_some hfound)
      · exact h.data
    · exact h.data
  · rw [hf.result]
    have hsize := hl.size
    unfold replyResult
    split
    · split
      · exact h.result
      · split
        · exact ⟨by decide, by decide⟩
        · split <;> exact ⟨by decide, by decide⟩
    · split
      · constructor <;> omega
      · exact h.result
  · intro d hd
    rcases mem_replyCars (hf.cars.mem_iff.mp hd) with hreq | ⟨c, hc, rfl⟩
    · exact h.cars d hreq
    · exact hcar c hc

/-- Messages in range bring no price of minus zero into the list. -/
theorem preco_invoke {msg : MessageT} {list : Cars} (h : InRange msg)
    (hl : ∀ d ∈ list.head, d.preco ≠ 0x80000000) :
    ∀ d ∈ (invoke msg list).list.head, d.preco ≠ 0x80000000 := by
  by_cases ha : msg.opcode = opAdd
  · rw [invoke_add ha]
    rcases invokeAdd_cases msg list with hr | ⟨pd, car, _, hpd, hcar, hr⟩
    · rw [hr]
      exact hl
    · have hpreco : car.preco = pd.preco := by
        rw [((dataCreate_eq_some _ _ _ _ _ car).mp hcar).1]
      rw [hr]
      intro d hd
      rcases List.mem_append.mp hd with hold | hnew
      · exact hl d hold
      · rw [List.mem_singleton.mp hnew, hpreco]
        exact (h.data pd hpd).preco
  · by_cases hdel : msg.opcode = opDel
    · rw [invoke_del hdel]
      rcases invokeDel_cases msg list with hr | ⟨model, rest, _, _, hr⟩
      · rw [hr]
        exact hl
      · rw [hr]
        dsimp only
        rcases listRemoveByModel_cases list model with ⟨hsame, _⟩ | ⟨c, others, _, hperm, hlist⟩
        · rw [hsame]
          exact hl
        · rw [hlist]
          exact fun d hd => hl d (hperm.mem_iff.mpr (List.mem_cons_of_mem c hd))
    · rcases invoke_list_of_read ha hdel list with hsame | ⟨_, _, hordered⟩
      · rw [hsame]
        exact hl
      · rw [hordered]
        exact fun d hd => hl d ((listOrderByYear_perm list).mem_iff.mp hd)

/-- The numbers among the arguments fit. -/
def ArgsInRange : Operation → Prop
  | .add car => ∀ d ∈ car, DataInRange (toData d)
  | .removeByModel _ => True
  | .getByMarca marca => Int32 marca
  | .getByYear ano => Int32 ano
  | .size => True
  | .getModelList => True

theorem inRange_init {opcode cType result : Int} (ho : Int32 opcode) (hc : Int32 cType)
    (hr : Int32 result) (models : List CString) :
    InRange { messageTInit with
      opcode := opcode, cType := cType, result := result, models := models } :=
  ⟨ho, hc, (fun _ hd => by cases hd), hr, (fun _ hd => by cases hd)⟩

theorem inRange_request {op : Operation} (h : ArgsInRange op) :
    ∀ req ∈ request op, InRange req := by
  have hzero : Int32 0 := by decide
  intro req hreq
  cases op with
  | add car =>
    obtain ⟨d, rfl, rfl⟩ := Option.map_eq_some_iff.mp hreq
    refine ⟨(by decide : Int32 opAdd), (by decide : Int32 ctData), ?_, hzero, ?_⟩
    · intro pd hpd
      cases hpd
      exact h d rfl
    · intro pd hpd
      cases hpd
  | removeByModel modelo =>
    obtain ⟨s, rfl, rfl⟩ := Option.map_eq_some_iff.mp hreq
    exact inRange_init (by decide) (by decide) hzero [s]
  | getByMarca marca =>
    cases hreq
    exact inRange_init (by decide) (by decide) h []
  | getByYear ano =>
    cases hreq
    exact inRange_init (by decide) (by decide) h []
  | size =>
    cases hreq
    exact inRange_init (by decide) (by decide) hzero []
  | getModelList =>
    cases hreq
    exact inRange_init (by decide) (by decide) hzero []

/-- **The wire carries every call** whose request and reply fit a frame. -/
theorem exchanged_request {list : Cars} (hw : WellFormed list) (hl : ListInRange list)
    {op : Operation} (h : ArgsInRange op) :
    ∀ req ∈ request op, messageTGetPackedSize req ≤ uint16Max →
      replySize req list ≤ uint16Max → Exchanged protobuf list req := by
  intro req hreq hrequest hreply
  have hrange := inRange_request h req hreq
  have hsize := (foretold_invoke req hw).size
  refine ⟨carried_of_inRange hrange hrequest, carried_of_inRange (inRange_reply hw hrange hl) ?_⟩
  rw [hsize]
  exact hreply

end CarChain.Decoding
