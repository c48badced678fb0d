import Mathlib.Data.List.Sort
import Mathlib.Order.Bounds.Basic

/-!
# Neighbours in a linear order

The next and the previous element of a set, how they change when the set does,
and how they are read off a list that holds the set in increasing order.
-/

namespace CarChain.Neighbours

variable {α : Type} [LinearOrder α]

/-- `b` is the least element of `S` above `a`. -/
def Next (S : Set α) (a b : α) : Prop := IsLeast {c | c ∈ S ∧ a < c} b

/-- `b` is the greatest element of `S` below `a`. -/
def Prev (S : Set α) (a b : α) : Prop := IsGreatest {c | c ∈ S ∧ c < a} b

theorem Next.mem {S : Set α} {a b : α} (h : Next S a b) : b ∈ S := h.1.1

theorem Next.lt {S : Set α} {a b : α} (h : Next S a b) : a < b := h.1.2

theorem Next.le {S : Set α} {a b c : α} (h : Next S a b) (hc : c ∈ S) (hac : a < c) : b ≤ c :=
  h.2 ⟨hc, hac⟩

/-- Inside `S`, the next of `a` is `b` exactly when the previous of `b` is `a`. -/
theorem next_iff_prev {S : Set α} {a b : α} (ha : a ∈ S) (hb : b ∈ S) :
    Next S a b ↔ Prev S b a := by
  constructor
  · intro h
    refine ⟨⟨ha, h.lt⟩, fun c hc => ?_⟩
    rcases le_or_gt c a with hca | hac
    · exact hca
    · exact absurd hc.2 (not_lt.mpr (h.le hc.1 hac))
  · intro h
    refine ⟨⟨hb, h.1.2⟩, fun c hc => ?_⟩
    rcases le_or_gt b c with hbc | hcb
    · exact hbc
    · exact absurd hc.2 (not_lt.mpr (h.2 ⟨hc.1, hcb⟩))

/-! ## When the set changes -/

/-- A new greatest element follows the old one and changes no other next. -/
theorem next_insert_top {S : Set α} {x a b : α} (hx : ∀ c ∈ S, c < x) (ha : a ∈ S) :
    Next (insert x S) a b ↔ Next S a b ∨ (IsGreatest S a ∧ b = x) := by
  constructor
  · intro h
    rcases h.mem with rfl | hb
    · refine Or.inr ⟨⟨ha, fun c hc => ?_⟩, rfl⟩
      rcases le_or_gt c a with hca | hac
      · exact hca
      · exact absurd (hx c hc) (not_lt.mpr (h.le (Set.mem_insert_of_mem _ hc) hac))
    · exact Or.inl ⟨⟨hb, h.lt⟩, fun c hc => h.le (Set.mem_insert_of_mem _ hc.1) hc.2⟩
  · rintro (h | ⟨hg, rfl⟩)
    · refine ⟨⟨Set.mem_insert_of_mem _ h.mem, h.lt⟩, fun c hc => ?_⟩
      rcases hc.1 with rfl | hcS
      · exact (hx b h.mem).le
      · exact h.le hcS hc.2
    · refine ⟨⟨Set.mem_insert _ _, hx a ha⟩, fun c hc => ?_⟩
      rcases hc.1 with rfl | hcS
      · exact le_rfl
      · exact absurd hc.2 (not_lt.mpr (hg.2 hcS))

/-- A next that stays is still the next. -/
theorem Next.diff {S R : Set α} {a b : α} (h : Next S a b) (hb : b ∉ R) : Next (S \ R) a b :=
  ⟨⟨⟨h.mem, hb⟩, h.lt⟩, fun _ hc => h.le hc.1.1 hc.2⟩

/-- Nothing gets above the greatest element when others go. -/
theorem isGreatest_diff {S R : Set α} {a : α} (h : IsGreatest S a) (ha : a ∉ R) :
    IsGreatest (S \ R) a :=
  ⟨⟨h.1, ha⟩, fun _ hc => h.2 hc.1⟩

/-- An element has a next or is the greatest. -/
theorem not_next_of_isGreatest {S : Set α} {a b : α} (h : IsGreatest S a) : ¬ Next S a b :=
  fun hn => absurd hn.lt (not_lt.mpr (h.2 hn.mem))

/-! ## In an increasing list -/

section Lists

variable {l : List α} (hl : l.SortedLT)

include hl

theorem lt_iff_lt {i j : Nat} {a b : α} (hi : l[i]? = some a) (hj : l[j]? = some b) :
    a < b ↔ i < j := by
  obtain ⟨hi', rfl⟩ := List.getElem?_eq_some_iff.mp hi
  obtain ⟨hj', rfl⟩ := List.getElem?_eq_some_iff.mp hj
  exact hl.getElem_lt_getElem_iff

/-- The element after the place of `a` is the next of `a`. -/
theorem getElem?_succ_eq_some {i : Nat} {a : α} (hi : l[i]? = some a) (b : α) :
    l[i + 1]? = some b ↔ Next {c | c ∈ l} a b := by
  constructor
  · intro hb
    refine ⟨⟨List.mem_of_getElem? hb, (lt_iff_lt hl hi hb).mpr (Nat.lt_succ_self i)⟩, ?_⟩
    rintro c ⟨hc, hac⟩
    obtain ⟨k, hk⟩ := List.mem_iff_getElem?.mp hc
    have hik : i < k := (lt_iff_lt hl hi hk).mp hac
    rcases lt_or_ge c b with hcb | hbc
    · have hki := (lt_iff_lt hl hk hb).mp hcb
      omega
    · exact hbc
  · intro hb
    obtain ⟨k, hk⟩ := List.mem_iff_getElem?.mp hb.mem
    have hik : i < k := (lt_iff_lt hl hi hk).mp hb.lt
    have hlen : i + 1 < l.length := by
      have := (List.getElem?_eq_some_iff.mp hk).1
      omega
    have hs : l[i + 1]? = some l[i + 1] := List.getElem?_eq_getElem hlen
    have hle : b ≤ l[i + 1] :=
      hb.le (List.getElem_mem hlen) ((lt_iff_lt hl hi hs).mpr (Nat.lt_succ_self i))
    rcases hle.lt_or_eq with hlt | heq
    · have hki := (lt_iff_lt hl hk hs).mp hlt
      omega
    · rw [hs, heq]

/-- Nothing stands after the place of `a` when `a` is the greatest. -/
theorem getElem?_succ_eq_none {i : Nat} {a : α} (hi : l[i]? = some a) :
    l[i + 1]? = none ↔ IsGreatest {c | c ∈ l} a := by
  constructor
  · intro hn
    refine ⟨List.mem_of_getElem? hi, fun c hc => ?_⟩
    obtain ⟨k, hk⟩ := List.mem_iff_getElem?.mp hc
    rcases le_or_gt c a with hca | hac
    · exact hca
    · have hik := (lt_iff_lt hl hi hk).mp hac
      have hkl := (List.getElem?_eq_some_iff.mp hk).1
      have hn' := List.getElem?_eq_none_iff.mp hn
      omega
  · intro hg
    cases hs : l[i + 1]? with
    | none => rfl
    | some b =>
      exact absurd ((getElem?_succ_eq_some hl hi b).mp hs) (not_next_of_isGreatest hg)

/-- The first place holds the least element. -/
theorem zero_iff_isLeast {i : Nat} {a : α} (hi : l[i]? = some a) :
    i = 0 ↔ IsLeast {c | c ∈ l} a := by
  constructor
  · rintro rfl
    refine ⟨List.mem_of_getElem? hi, fun c hc => ?_⟩
    obtain ⟨k, hk⟩ := List.mem_iff_getElem?.mp hc
    rcases le_or_gt a c with hac | hca
    · exact hac
    · exact absurd ((lt_iff_lt hl hk hi).mp hca) (Nat.not_lt_zero k)
  · intro hg
    by_contra hne
    have hlen : 0 < l.length := by
      have := (List.getElem?_eq_some_iff.mp hi).1
      omega
    have hz : l[0]? = some l[0] := List.getElem?_eq_getElem hlen
    have hlt : l[0] < a := (lt_iff_lt hl hz hi).mpr (by omega)
    exact absurd hlt (not_lt.mpr (hg.2 (List.getElem_mem hlen)))

end Lists

/-! ## Following the nexts -/

/-- The elements met from `a` on, in at most `fuel` steps. -/
def follow {β : Type} (next : β → Option β) : Nat → β → List β
  | 0, a => [a]
  | fuel + 1, a =>
    match next a with
    | none => [a]
    | some b => a :: follow next fuel b

/-- Following what stands next in a list visits the rest of the list. -/
theorem follow_eq_drop {β : Type} {next : β → Option β} {l : List β}
    (h : ∀ i a, l[i]? = some a → next a = l[i + 1]?) {fuel i : Nat} {a : β}
    (ha : l[i]? = some a) (hf : l.length ≤ i + fuel + 1) : follow next fuel a = l.drop i := by
  induction fuel generalizing i a with
  | zero =>
    obtain ⟨hi, rfl⟩ := List.getElem?_eq_some_iff.mp ha
    rw [List.drop_eq_getElem_cons hi, List.drop_eq_nil_of_le (by omega)]
    rfl
  | succ fuel ih =>
    obtain ⟨hi, hget⟩ := List.getElem?_eq_some_iff.mp ha
    rw [List.drop_eq_getElem_cons hi, hget, follow, h i a ha]
    cases hs : l[i + 1]? with
    | none =>
      rw [List.drop_eq_nil_of_le (List.getElem?_eq_none_iff.mp hs)]
    | some b =>
      show a :: follow next fuel b = a :: l.drop (i + 1)
      rw [ih hs (by omega)]

end CarChain.Neighbours
