import Mathlib.Data.List.Lex
import Mathlib.Data.Nat.Digits.Defs

/-!
# Numerals of one length

Digits are written most significant first.  Between numerals of the same
length, lexicographic order is the order of the numbers (`lt_iff_ofDigits_lt`).
-/

namespace CarChain.Digits

/-- A strictly increasing map of the letters keeps the order of the words. -/
theorem map_lt_map_iff {f : Nat → Nat} (hf : StrictMono f) (s t : List Nat) :
    s.map f < t.map f ↔ s < t := by
  induction s generalizing t with
  | nil => cases t <;> simp
  | cons a s ih =>
    cases t with
    | nil => simp
    | cons b t =>
      simp only [List.map_cons, List.cons_lt_cons_iff, ih, hf.lt_iff_lt, hf.injective.eq_iff]

theorem append_lt_append_iff (p s t : List Nat) : p ++ s < p ++ t ↔ s < t := by
  induction p with
  | nil => rfl
  | cons a p ih => simp only [List.cons_append, List.cons_lt_cons_iff, lt_irrefl, true_and,
      false_or, ih]

/-- One more digit in front outweighs all the digits behind it. -/
theorem ofDigits_lt_succ_mul {b : Nat} (hb : 1 < b) {ds : List Nat} (hd : ∀ d ∈ ds, d < b)
    (d : Nat) : Nat.ofDigits b (d :: ds).reverse < b ^ ds.length * (d + 1) := by
  have hlt := Nat.ofDigits_lt_base_pow_length hb (l := ds.reverse) (by simpa using hd)
  rw [List.length_reverse] at hlt
  rw [Nat.ofDigits_reverse_cons, Nat.mul_succ]
  omega

theorem lt_iff_ofDigits_lt {b : Nat} (hb : 1 < b) {ds es : List Nat}
    (hl : ds.length = es.length) (hd : ∀ d ∈ ds, d < b) (he : ∀ e ∈ es, e < b) :
    ds < es ↔ Nat.ofDigits b ds.reverse < Nat.ofDigits b es.reverse := by
  induction ds generalizing es with
  | nil =>
    rw [List.length_nil] at hl
    rw [List.eq_nil_of_length_eq_zero hl.symm]
    simp
  | cons d ds ih =>
    cases es with
    | nil => simp at hl
    | cons e es =>
      have hl' : ds.length = es.length := Nat.succ_inj.mp hl
      have hds : ∀ x ∈ ds, x < b := fun x hx => hd x (List.mem_cons_of_mem _ hx)
      have hes : ∀ x ∈ es, x < b := fun x hx => he x (List.mem_cons_of_mem _ hx)
      have hsd := ofDigits_lt_succ_mul hb hds d
      have hse := ofDigits_lt_succ_mul hb hes e
      rw [Nat.ofDigits_reverse_cons] at hsd hse
      rw [List.cons_lt_cons_iff, ih hl' hds hes, Nat.ofDigits_reverse_cons,
        Nat.ofDigits_reverse_cons]
      rw [← hl'] at hse ⊢
      rcases lt_trichotomy d e with hde | rfl | hed
      · have hm : b ^ ds.length * (d + 1) ≤ b ^ ds.length * e := Nat.mul_le_mul_left _ hde
        simp only [hde, true_or, true_iff]
        omega
      · simp only [lt_irrefl, true_and, false_or]
        omega
      · have hm : b ^ ds.length * (e + 1) ≤ b ^ ds.length * d := Nat.mul_le_mul_left _ hed
        have hne : d ≠ e := hed.ne'
        simp only [hed.not_gt, hne, false_and, or_self, false_iff]
        omega

end CarChain.Digits
