import Mathlib.Data.List.Perm.Basic

/-!
# Bubble sort by an integer key

The repeated pass of adjacent swaps, over any type with an integer key.  One
pass keeps the elements (`pass_perm`); a pass that swaps lowers the number of
inversions (`pass_inversions_lt`), so `inversions l + 1` passes always reach one
without a swap (`runs_loop`).  The do/while without a bound is a relation
(`Runs`); it ends on every list, on the only stable sort of it (`runs_iff`,
`sort_isStableSort`, `IsStableSort.unique`).
-/

namespace CarChain.BubbleSort

variable {α : Type} (key : α → Int)

/-- One pass from the node that holds `a`, over the nodes after it: whether a
swap was made, and the elements left behind. -/
def passFrom (a : α) : List α → Bool × List α
  | [] => (false, [a])
  | b :: rest =>
    if key a > key b then (true, b :: (passFrom a rest).2)
    else ((passFrom b rest).1, a :: (passFrom b rest).2)

def pass : List α → Bool × List α
  | [] => (false, [])
  | a :: rest => passFrom key a rest

/-- Passes until one makes no swap, at most `fuel` of them. -/
def loop : Nat → List α → List α
  | 0, l => l
  | fuel + 1, l => if (pass key l).1 then loop fuel (pass key l).2 else (pass key l).2

/-- The do/while itself: passes up to the first that makes no swap. -/
inductive Runs : List α → List α → Prop
  | stop {l : List α} : (pass key l).1 = false → Runs l (pass key l).2
  | again {l r : List α} : (pass key l).1 = true → Runs (pass key l).2 r → Runs l r

/-- Pairs that stand in the wrong order. -/
def inversions : List α → Nat
  | [] => 0
  | a :: l => l.countP (fun b => key b < key a) + inversions l

def sort (l : List α) : List α := loop key (inversions key l + 1) l

theorem passFrom_perm (a : α) (l : List α) : (passFrom key a l).2.Perm (a :: l) := by
  induction l generalizing a with
  | nil => simp [passFrom]
  | cons b rest ih =>
    by_cases h : key a > key b
    · simp only [passFrom, h, ↓reduceIte]
      exact ((ih a).cons b).trans (List.Perm.swap a b rest)
    · simp only [passFrom, h, ↓reduceIte]
      exact (ih b).cons a

/-- A pass only permutes. -/
theorem pass_perm (l : List α) : (pass key l).2.Perm l := by
  cases l with
  | nil => simp [pass]
  | cons a rest => exact passFrom_perm key a rest

theorem loop_perm (fuel : Nat) (l : List α) : (loop key fuel l).Perm l := by
  induction fuel generalizing l with
  | zero => exact List.Perm.refl l
  | succ fuel ih =>
    unfold loop
    split
    · exact (ih _).trans (pass_perm key l)
    · exact pass_perm key l

theorem sort_perm (l : List α) : (sort key l).Perm l := loop_perm key _ l

/-! ## Lists in order -/

/-- A pass makes no swap when nothing stands in the wrong order. -/
theorem passFrom_of_sorted {a : α} {l : List α}
    (h : (a :: l).Pairwise fun x y => key x ≤ key y) : passFrom key a l = (false, a :: l) := by
  induction l generalizing a with
  | nil => rfl
  | cons b rest ih =>
    obtain ⟨ha, hrest⟩ := List.pairwise_cons.mp h
    have hab : ¬ key a > key b := Int.not_lt.mpr (ha b List.mem_cons_self)
    rw [passFrom, if_neg hab, ih hrest]

theorem sort_of_sorted {l : List α} (h : l.Pairwise fun x y => key x ≤ key y) :
    sort key l = l := by
  have hpass : pass key l = (false, l) := by
    cases l with
    | nil => rfl
    | cons a rest => exact passFrom_of_sorted key h
  rw [sort, loop, hpass]
  rfl

/-! ## Termination -/

theorem passFrom_inversions (a : α) (l : List α) :
    inversions key (passFrom key a l).2 + (if (passFrom key a l).1 then 1 else 0) ≤
      inversions key (a :: l) := by
  induction l generalizing a with
  | nil => simp [passFrom, inversions]
  | cons b rest ih =>
    by_cases h : key a > key b
    · have hp := (passFrom_perm key a rest).countP_eq (fun c => key c < key b)
      have hi : inversions key (passFrom key a rest).2 ≤ inversions key (a :: rest) :=
        Nat.le_trans (Nat.le_add_right _ _) (ih a)
      have ha : ¬ key a < key b := by omega
      simp only [passFrom, h, ↓reduceIte, inversions, hp, List.countP_cons, ha,
        decide_false, Bool.false_eq_true, decide_true] at hi ⊢
      omega
    · have hp := (passFrom_perm key b rest).countP_eq (fun c => key c < key a)
      have hi := ih b
      simp only [passFrom, h, ↓reduceIte, inversions, hp, List.countP_cons, decide_false,
        Bool.false_eq_true] at hi ⊢
      omega

/-- A pass that swaps lowers the number of inversions. -/
theorem pass_inversions_lt (l : List α) (h : (pass key l).1 = true) :
    inversions key (pass key l).2 < inversions key l := by
  cases l with
  | nil => simp [pass] at h
  | cons a rest =>
    have := passFrom_inversions key a rest
    simp only [pass] at h ⊢
    rw [h] at this
    simp only [↓reduceIte] at this
    omega

theorem runs_loop (fuel : Nat) (l : List α) (h : inversions key l < fuel) :
    Runs key l (loop key fuel l) := by
  induction fuel generalizing l with
  | zero => omega
  | succ fuel ih =>
    unfold loop
    split
    · rename_i hs
      have hlt := pass_inversions_lt key l hs
      exact .again hs (ih _ (by omega))
    · rename_i hs
      exact .stop (by simpa using hs)

theorem Runs.deterministic {l r r' : List α} (h : Runs key l r) (h' : Runs key l r') :
    r = r' := by
  induction h generalizing r' with
  | stop hs =>
    cases h' with
    | stop _ => rfl
    | again hs' _ => rw [hs] at hs'; cases hs'
  | again hs _ ih =>
    cases h' with
    | stop hs' => rw [hs] at hs'; cases hs'
    | again _ hr => exact ih hr

/-- The do/while ends on every list, on `sort`. -/
theorem runs_iff (l r : List α) : Runs key l r ↔ r = sort key l := by
  have hrun : Runs key l (sort key l) := runs_loop key _ l (Nat.lt_succ_self _)
  constructor
  · intro h
    exact h.deterministic key hrun
  · rintro rfl
    exact hrun

/-! ## Elements seen through a map -/

section Map

variable {β : Type} (f : β → α)

theorem passFrom_map (b : β) (l : List β) :
    passFrom key (f b) (l.map f) =
      ((passFrom (fun x => key (f x)) b l).1,
        (passFrom (fun x => key (f x)) b l).2.map f) := by
  induction l generalizing b with
  | nil => rfl
  | cons c rest ih =>
    rw [List.map_cons, passFrom, passFrom]
    split
    · rw [ih b]
      rfl
    · rw [ih c]
      rfl

theorem pass_map (l : List β) :
    pass key (l.map f) =
      ((pass (fun x => key (f x)) l).1, (pass (fun x => key (f x)) l).2.map f) := by
  cases l with
  | nil => rfl
  | cons b rest => exact passFrom_map key f b rest

theorem Runs.map {l r : List β} (h : Runs (fun x => key (f x)) l r) :
    Runs key (l.map f) (r.map f) := by
  induction h with
  | @stop l hs =>
    have hp := pass_map key f l
    have hstop : Runs key (l.map f) (pass key (l.map f)).2 := .stop (by rw [hp]; exact hs)
    rw [hp] at hstop
    exact hstop
  | @again l r hs _ ih =>
    have hp := pass_map key f l
    refine .again (by rw [hp]; exact hs) ?_
    rw [hp]
    exact ih

/-- Sorting what lies behind the elements is sorting them by its keys. -/
theorem sort_map (l : List β) : (sort (fun x => key (f x)) l).map f = sort key (l.map f) :=
  (runs_iff key _ _).mp (((runs_iff _ l _).mpr rfl).map key f)

end Map

/-! ## Order and stability -/

/-- A pass that makes no swap found everything in order and changed nothing. -/
theorem passFrom_false {a : α} {l : List α} (h : (passFrom key a l).1 = false) :
    (passFrom key a l).2 = a :: l ∧ (a :: l).Pairwise fun x y => key x ≤ key y := by
  induction l generalizing a with
  | nil => exact ⟨rfl, List.pairwise_singleton _ _⟩
  | cons b rest ih =>
    by_cases hab : key a > key b
    · simp [passFrom, hab] at h
    · simp only [passFrom, hab, ↓reduceIte] at h ⊢
      obtain ⟨hl, hs⟩ := ih h
      refine ⟨by rw [hl], List.pairwise_cons.mpr ⟨fun c hc => ?_, hs⟩⟩
      rcases List.mem_cons.mp hc with rfl | hc
      · omega
      · have hbc := (List.pairwise_cons.mp hs).1 c hc
        omega

theorem pass_false {l : List α} (h : (pass key l).1 = false) :
    (pass key l).2 = l ∧ l.Pairwise fun x y => key x ≤ key y := by
  cases l with
  | nil => exact ⟨rfl, List.Pairwise.nil⟩
  | cons a rest => exact passFrom_false key h

/-- Only elements with different keys are swapped, so those with key `k` keep
their places among each other. -/
theorem passFrom_filter (k : Int) (a : α) (l : List α) :
    (passFrom key a l).2.filter (fun x => key x = k) = (a :: l).filter (fun x => key x = k) := by
  induction l generalizing a with
  | nil => rfl
  | cons b rest ih =>
    by_cases hab : key a > key b
    · have ha := ih a
      simp only [passFrom, hab, ↓reduceIte, List.filter_cons] at ha ⊢
      rw [ha]
      -- `a` and `b` are not both of key `k`
      by_cases hak : key a = k
      · have hbk : ¬ key b = k := by omega
        simp [hak, hbk]
      · simp [hak]
    · have hb := ih b
      simp only [passFrom, hab, ↓reduceIte, List.filter_cons] at hb ⊢
      rw [hb]

theorem pass_filter (k : Int) (l : List α) :
    (pass key l).2.filter (fun x => key x = k) = l.filter (fun x => key x = k) := by
  cases l with
  | nil => rfl
  | cons a rest => exact passFrom_filter key k a rest

/-- `r` has the elements of `l` in the order of their keys, equal keys in the
order they had. -/
structure IsStableSort (l r : List α) : Prop where
  perm : r.Perm l
  sorted : r.Pairwise fun x y => key x ≤ key y
  stable : ∀ k, r.filter (fun x => key x = k) = l.filter (fun x => key x = k)

theorem Runs.isStableSort {l r : List α} (h : Runs key l r) : IsStableSort key l r := by
  induction h with
  | stop hs =>
    obtain ⟨hl, hsorted⟩ := pass_false key hs
    exact ⟨pass_perm key _, by rw [hl]; exact hsorted, fun k => pass_filter key k _⟩
  | again _ _ ih =>
    exact ⟨ih.perm.trans (pass_perm key _), ih.sorted,
      fun k => (ih.stable k).trans (pass_filter key k _)⟩

theorem sort_isStableSort (l : List α) : IsStableSort key l (sort key l) :=
  ((runs_iff key l _).mpr rfl).isStableSort key

/-- Lists in order that agree on the elements of every key are the same. -/
theorem eq_of_sorted_of_filter {l r : List α} (hl : l.Pairwise fun x y => key x ≤ key y)
    (hr : r.Pairwise fun x y => key x ≤ key y)
    (h : ∀ k, l.filter (fun x => key x = k) = r.filter (fun x => key x = k)) : l = r := by
  induction l generalizing r with
  | nil =>
    cases r with
    | nil => rfl
    | cons b rest => simpa using h (key b)
  | cons a l ih =>
    cases r with
    | nil => simpa using h (key a)
    | cons b r =>
      obtain ⟨ha, htl⟩ := List.pairwise_cons.mp hl
      obtain ⟨hb, htr⟩ := List.pairwise_cons.mp hr
      have hamem : a ∈ (b :: r).filter (fun x => key x = key a) := by
        rw [← h (key a)]
        simp
      have hbmem : b ∈ (a :: l).filter (fun x => key x = key b) := by
        rw [h (key b)]
        simp
      -- each head is in the other list, so no head has the smaller key
      have hba : key b ≤ key a := by
        rcases List.mem_cons.mp (List.mem_filter.mp hamem).1 with rfl | hm
        · exact Int.le_refl _
        · exact hb a hm
      have hab : key a ≤ key b := by
        rcases List.mem_cons.mp (List.mem_filter.mp hbmem).1 with rfl | hm
        · exact Int.le_refl _
        · exact ha b hm
      have hkey : key a = key b := Int.le_antisymm hab hba
      have hhead : a = b := by
        have hk := h (key a)
        simp only [List.filter_cons, decide_true, ↓reduceIte, hkey.symm, List.cons.injEq] at hk
        exact hk.1
      subst hhead
      have htail : l = r := by
        refine ih htl htr fun k => ?_
        have hk := h k
        simp only [List.filter_cons] at hk
        split at hk
        · exact (List.cons.inj hk).2
        · exact hk
      rw [htail]

/-- There is only one stable sort of a list. -/
theorem IsStableSort.unique {l r r' : List α} (h : IsStableSort key l r)
    (h' : IsStableSort key l r') : r = r' :=
  eq_of_sorted_of_filter key h.sorted h'.sorted fun k => (h.stable k).trans (h'.stable k).symm

theorem mergeSort_isStableSort (l : List α) :
    IsStableSort key l (l.mergeSort fun x y => key x ≤ key y) := by
  have htrans : ∀ x y z : α, decide (key x ≤ key y) = true → decide (key y ≤ key z) = true →
      decide (key x ≤ key z) = true := by
    simp only [decide_eq_true_eq]
    intro x y z hxy hyz
    omega
  have htotal : ∀ x y : α, (decide (key x ≤ key y) || decide (key y ≤ key x)) = true := by
    simp only [Bool.or_eq_true, decide_eq_true_eq]
    intro x y
    omega
  have hperm := List.mergeSort_perm l fun x y => decide (key x ≤ key y)
  refine ⟨hperm, ?_, fun k => ?_⟩
  · exact (List.pairwise_mergeSort htrans htotal l).imp fun h => by simpa using h
  · have hequal : (l.filter fun x => key x = k).Pairwise fun x y => key x ≤ key y := by
      refine List.pairwise_of_forall_mem_list fun x hx y hy => ?_
      have hkx := (List.mem_filter.mp hx).2
      have hky := (List.mem_filter.mp hy).2
      simp only [decide_eq_true_eq] at hkx hky
      omega
    have hsub : (l.filter fun x => key x = k).Sublist
        (l.mergeSort fun x y => decide (key x ≤ key y)) :=
      List.sublist_mergeSort htrans htotal (hequal.imp fun h => by simpa using h)
        List.filter_sublist
    -- the elements of one key are all there, and no more of them
    have hfiltered := hsub.filter fun x => decide (key x = k)
    rw [List.filter_filter] at hfiltered
    simp only [Bool.and_self] at hfiltered
    exact (hfiltered.eq_of_length (hperm.filter _).length_eq.symm).symm

end CarChain.BubbleSort
