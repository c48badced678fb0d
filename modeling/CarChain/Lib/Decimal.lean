import Mathlib.Data.Nat.Digits.Lemmas

/-!
# Decimal numerals

A number as the bytes of its decimal digits, an integer with a sign in front of
them.  Reading the digits of a numeral gives the number back (`value_decimal`),
so no two numbers look alike.
-/

namespace CarChain.Decimal

/-- The byte of a digit. -/
def digit (d : Nat) : UInt8 := UInt8.ofNat (48 + d)

def IsDigit (b : UInt8) : Prop := 48 ≤ b ∧ b ≤ 57

instance (b : UInt8) : Decidable (IsDigit b) := inferInstanceAs (Decidable (48 ≤ b ∧ b ≤ 57))

/-- The digits of a number, the first one first. -/
def decimal (n : Nat) : List UInt8 :=
  if n = 0 then [48] else ((Nat.digits 10 n).map digit).reverse

/-- `-` in front of the digits of a negative number. -/
def signed (x : Int) : List UInt8 := if x < 0 then 45 :: decimal x.natAbs else decimal x.natAbs

/-- The number digits go on to, from what was read of it. -/
def value (n : Nat) (digits : List UInt8) : Nat :=
  digits.foldl (fun n b => n * 10 + (b.toNat - 48)) n

theorem toNat_digit {d : Nat} (h : d < 10) : (digit d).toNat = 48 + d := by
  unfold digit
  rw [UInt8.toNat_ofNat']
  omega

theorem isDigit_digit {d : Nat} (h : d < 10) : IsDigit (digit d) := by
  have hd := toNat_digit h
  constructor
  · rw [UInt8.le_iff_toNat_le, hd]
    exact Nat.le_add_right 48 d
  · rw [UInt8.le_iff_toNat_le, hd]
    show 48 + d ≤ 57
    omega

theorem decimal_ne_nil (n : Nat) : decimal n ≠ [] := by
  unfold decimal
  split
  · exact List.cons_ne_nil _ _
  · rename_i h
    simpa [Nat.digits_eq_nil_iff_eq_zero] using h

theorem isDigit_decimal {n : Nat} {b : UInt8} (h : b ∈ decimal n) : IsDigit b := by
  unfold decimal at h
  split at h
  · rw [List.mem_singleton.mp h]
    decide
  · rw [List.mem_reverse, List.mem_map] at h
    obtain ⟨d, hd, rfl⟩ := h
    exact isDigit_digit (Nat.digits_lt_base (by decide) hd)

theorem value_append (n : Nat) (l l' : List UInt8) :
    value n (l ++ l') = value (value n l) l' := List.foldl_append

/-- **A numeral reads back as its number.** -/
theorem value_decimal (n : Nat) : value 0 (decimal n) = n := by
  have hdigits : ∀ ds : List Nat, (∀ d ∈ ds, d < 10) →
      value 0 (ds.map digit).reverse = Nat.ofDigits 10 ds := by
    intro ds
    induction ds with
    | nil => exact fun _ => rfl
    | cons d ds ih =>
      intro hds
      rw [List.forall_mem_cons] at hds
      rw [List.map_cons, List.reverse_cons, value_append, ih hds.2]
      show Nat.ofDigits 10 ds * 10 + ((digit d).toNat - 48) = _
      rw [toNat_digit hds.1, Nat.ofDigits_cons, Nat.add_sub_cancel_left, Nat.mul_comm,
        Nat.add_comm]
  unfold decimal
  split
  · rename_i h
    rw [h]
    rfl
  · rw [hdigits _ fun d hd => Nat.digits_lt_base (by decide) hd, Nat.ofDigits_digits]

theorem decimal_injective : Function.Injective decimal := by
  intro m n h
  have hvalue := congrArg (value 0) h
  rwa [value_decimal, value_decimal] at hvalue

/-- The sign is not a digit. -/
theorem decimal_head_ne {n : Nat} {rest : List UInt8} {b : UInt8} (h : decimal n = b :: rest)
    (hb : ¬IsDigit b) : False := by
  have hmem : b ∈ decimal n := h ▸ List.mem_cons_self
  exact hb (isDigit_decimal hmem)

theorem signed_ne_nil (x : Int) : signed x ≠ [] := by
  unfold signed
  split
  · exact List.cons_ne_nil _ _
  · exact decimal_ne_nil _

theorem mem_signed {x : Int} {b : UInt8} (h : b ∈ signed x) : b = 45 ∨ IsDigit b := by
  unfold signed at h
  split at h
  · rcases List.mem_cons.mp h with hb | hb
    · exact Or.inl hb
    · exact Or.inr (isDigit_decimal hb)
  · exact Or.inr (isDigit_decimal h)

theorem signed_injective : Function.Injective signed := by
  intro x y h
  unfold signed at h
  split at h <;> split at h
  · rename_i hx hy
    have habs := decimal_injective (List.cons.inj h).2
    omega
  · exact (decimal_head_ne h.symm (by decide)).elim
  · exact (decimal_head_ne h (by decide)).elim
  · rename_i hx hy
    have habs := decimal_injective h
    omega

end CarChain.Decimal
