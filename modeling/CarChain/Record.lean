/-!
# Car records

`data.c`, with the two C types it rests on: a `char *` is the list of its bytes
before the terminator (`CString`), a `float` its 32 bits (`CFloat`), of which
the code only asks whether the value is below zero.  Allocations succeed, so
`data_create` fails exactly when `validate_params` does
(`dataCreate_eq_some`), and every record it returns passes the same check again
(`DataT.Valid`, `dataDup_of_valid`).
Core Lean only.
-/

namespace CarChain.Record

/-! ## C strings -/

/-- A `char *` that is not NULL: the bytes before the terminating NUL. -/
structure CString where
  bytes : List UInt8
  noNul : 0 ∉ bytes
  deriving DecidableEq

/-- The string in an array of bytes, which ends at the first NUL. -/
def cString (array : List UInt8) : CString where
  bytes := array.takeWhile (· ≠ 0)
  noNul h := by simpa using List.all_eq_true.mp List.all_takeWhile 0 h

/-- The string `""`. -/
def CString.empty : CString := ⟨[], List.not_mem_nil⟩

def strlen (s : CString) : Nat := s.bytes.length

/-- The loop of `strcmp`, the end of a list standing for its terminator. -/
def strcmpBytes : List UInt8 → List UInt8 → Int
  | [], [] => 0
  | [], b :: _ => 0 - (b.toNat : Int)
  | a :: _, [] => a.toNat
  | a :: s, b :: t => if a = b then strcmpBytes s t else (a.toNat : Int) - b.toNat

def strcmp (s t : CString) : Int := strcmpBytes s.bytes t.bytes

theorem toNat_ne_zero {b : UInt8} (h : b ≠ 0) : b.toNat ≠ 0 := by
  intro h'
  exact h (UInt8.toNat_inj.mp (by simpa using h'))

theorem strcmpBytes_eq_zero (s t : List UInt8) (hs : 0 ∉ s) (ht : 0 ∉ t) :
    strcmpBytes s t = 0 ↔ s = t := by
  induction s generalizing t with
  | nil =>
    cases t with
    | nil => simp [strcmpBytes]
    | cons b t =>
      have hb : b.toNat ≠ 0 := toNat_ne_zero (by rintro rfl; simp at ht)
      simp only [strcmpBytes, reduceCtorEq, iff_false]
      omega
  | cons a s ih =>
    have ha : a.toNat ≠ 0 := toNat_ne_zero (by rintro rfl; simp at hs)
    cases t with
    | nil =>
      simp only [strcmpBytes, reduceCtorEq, iff_false]
      omega
    | cons b t =>
      simp only [List.mem_cons, not_or] at hs ht
      by_cases h : a = b
      · simp [strcmpBytes, h, ih t hs.2 ht.2]
      · have hn : a.toNat ≠ b.toNat := fun h' => h (UInt8.toNat_inj.mp h')
        simp only [strcmpBytes, h, ↓reduceIte, List.cons.injEq, false_and, iff_false]
        omega

/-- `strcmp(s, t) == 0` is equality: neither string has a NUL inside. -/
theorem strcmp_eq_zero (s t : CString) : strcmp s t = 0 ↔ s = t := by
  rw [strcmp, strcmpBytes_eq_zero s.bytes t.bytes s.noNul t.noNul]
  cases s
  cases t
  simp

/-! ## Floats -/

/-- The bits of an IEEE 754 single. -/
abbrev CFloat := UInt32

/-- `x < 0.0f`: the sign bit is set, and `x` is neither `-0` nor a NaN. -/
def ltZero (x : CFloat) : Bool := 0x80000000 < x && x ≤ 0xFF800000

/-! ## Records -/

@[reducible, simp] def marcaToyota : Int := 0
@[reducible, simp] def marcaMercedes : Int := 4
@[reducible, simp] def combustivelGasolina : Int := 0
@[reducible, simp] def combustivelHibrido : Int := 3

/-- `struct data_t`.  The two enumerations are kept as the integers they are:
a peer may send any value, and `validate_params` checks the range. -/
structure DataT where
  ano : Int
  preco : CFloat
  marca : Int
  modelo : Option CString
  combustivel : Int
  deriving DecidableEq

/-- The copy of `modelo` when the parameters are acceptable, else NULL. -/
def validateParams (ano : Int) (preco : CFloat) (marca : Int) (modelo : Option CString)
    (combustivel : Int) : Option CString :=
  if ano < 1886 ∨ ano > 2100 then none
  else if ltZero preco then none
  else if marca < marcaToyota ∨ marca > marcaMercedes then none
  else if combustivel < combustivelGasolina ∨ combustivel > combustivelHibrido then none
  else
    match modelo with
    | none => none
    | some s => if strlen s = 0 then none else some s

def dataCreate (ano : Int) (preco : CFloat) (marca : Int) (modelo : Option CString)
    (combustivel : Int) : Option DataT :=
  match validateParams ano preco marca modelo combustivel with
  | none => none
  | some newModelo => some ⟨ano, preco, marca, some newModelo, combustivel⟩

def dataDup (data : DataT) : Option DataT :=
  dataCreate data.ano data.preco data.marca data.modelo data.combustivel

/-- The contents `validate_params` accepts. -/
structure DataT.Valid (d : DataT) : Prop where
  ano : 1886 ≤ d.ano ∧ d.ano ≤ 2100
  preco : ltZero d.preco = false
  marca : 0 ≤ d.marca ∧ d.marca ≤ 4
  combustivel : 0 ≤ d.combustivel ∧ d.combustivel ≤ 3
  modelo : ∃ s, d.modelo = some s ∧ strlen s ≠ 0

theorem validateParams_eq_some (ano : Int) (preco : CFloat) (marca : Int)
    (modelo : Option CString) (combustivel : Int) (s : CString) :
    validateParams ano preco marca modelo combustivel = some s ↔
      modelo = some s ∧ DataT.Valid ⟨ano, preco, marca, modelo, combustivel⟩ := by
  constructor
  · intro h
    unfold validateParams at h
    split at h
    · cases h
    · rename_i ha
      split at h
      · cases h
      · rename_i hp
        split at h
        · cases h
        · rename_i hm
          split at h
          · cases h
          · rename_i hc
            cases modelo with
            | none => cases h
            | some t =>
              simp only at h
              split at h
              · cases h
              · rename_i hl
                cases h
                simp only [marcaToyota, marcaMercedes, combustivelGasolina,
                  combustivelHibrido] at hm hc
                exact ⟨rfl, by simp only; omega, by simpa using hp, by simp only; omega,
                  by simp only; omega, _, rfl, hl⟩
  · rintro ⟨rfl, ⟨ha, hp, hm, hc, t, ht, hl⟩⟩
    cases ht
    simp only at ha hp hm hc
    simp only [validateParams, hp, marcaToyota, marcaMercedes, combustivelGasolina,
      combustivelHibrido]
    rw [if_neg (by omega), if_neg (by simp), if_neg (by omega), if_neg (by omega), if_neg hl]

/-- `data_create` returns its arguments as a record, or fails on invalid ones. -/
theorem dataCreate_eq_some (ano : Int) (preco : CFloat) (marca : Int)
    (modelo : Option CString) (combustivel : Int) (d : DataT) :
    dataCreate ano preco marca modelo combustivel = some d ↔
      d = ⟨ano, preco, marca, modelo, combustivel⟩ ∧ d.Valid := by
  unfold dataCreate
  cases h : validateParams ano preco marca modelo combustivel with
  | none =>
    simp only [reduceCtorEq, false_iff, not_and]
    rintro rfl hv
    obtain ⟨s, hs, _⟩ := hv.modelo
    have := (validateParams_eq_some ano preco marca modelo combustivel s).mpr ⟨hs, hv⟩
    rw [h] at this
    cases this
  | some s =>
    obtain ⟨hm, hv⟩ := (validateParams_eq_some ano preco marca modelo combustivel s).mp h
    simp only [Option.some.injEq, ← hm]
    exact ⟨fun e => ⟨e.symm, e ▸ hm ▸ hv⟩, fun e => e.1.symm⟩

theorem dataCreate_valid {ano : Int} {preco : CFloat} {marca : Int} {modelo : Option CString}
    {combustivel : Int} {d : DataT} (h : dataCreate ano preco marca modelo combustivel = some d) :
    d.Valid :=
  ((dataCreate_eq_some ano preco marca modelo combustivel d).mp h).2

/-- A valid record duplicates to itself. -/
theorem dataDup_of_valid {d : DataT} (h : d.Valid) : dataDup d = some d :=
  (dataCreate_eq_some _ _ _ _ _ d).mpr ⟨rfl, h⟩

end CarChain.Record
