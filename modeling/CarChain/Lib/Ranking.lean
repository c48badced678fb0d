import CarChain.Lib.Run
import Mathlib.Algebra.BigOperators.Group.Finset.Basic
import Mathlib.Algebra.GroupWithZero.Nat

/-!
# Runs that come to an end

Where the rank pays for the steps that cost something, and some steps add to it,
a run costs what it starts with and what it is given on the way
(`replay_balance`).  So a rank that every allowed step lowers bounds the length of
the runs that are left (`replay_rank`), and from every state some run ends where
nothing is allowed any more (`exists_stuck`).  For systems of many nodes the rank is a sum,
which moves with the node that changes (`sum_update`, `sum_set`, `sum_eraseIdx`),
and a line of nodes in which each one is free if those behind it are is free
(`free_of_behind`).
-/

namespace CarChain.Ranking
open CarChain.Run

variable {σ α : Type} {step : σ → α → Option σ} {ok : σ → α → Prop} [∀ s a, Decidable (ok s a)]
  {good : σ → Prop} {rank : σ → Nat}

/-- Allowed steps stay among the good states, and each pays its cost from the rank
and what it is given. -/
structure Balances (step : σ → α → Option σ) (ok : σ → α → Prop) (good : σ → Prop)
    (rank : σ → Nat) (cost given : α → Bool) : Prop where
  keeps : ∀ s a s', good s → ok s a → step s a = some s' → good s'
  pays : ∀ s a s', good s → ok s a → step s a = some s' →
    (cost a).toNat + rank s' ≤ rank s + (given a).toNat

theorem countP_cons_toNat (p : α → Bool) (a : α) (l : List α) :
    (a :: l).countP p = l.countP p + (p a).toNat := by
  rw [List.countP_cons]
  cases p a <;> rfl

theorem replay_balance {cost given : α → Bool} (h : Balances step ok good rank cost given)
    {acts : List α} {s s' : σ} (hs : good s) (hr : replay step ok s acts = some s') :
    good s' ∧ acts.countP cost + rank s' ≤ rank s + acts.countP given := by
  induction acts generalizing s with
  | nil =>
    cases hr
    exact ⟨hs, by simp⟩
  | cons a rest ih =>
    rw [replay] at hr
    split at hr
    · rename_i ha
      obtain ⟨s₁, h₁, h₂⟩ := Option.bind_eq_some_iff.mp hr
      have hpays := h.pays s a s₁ hs ha h₁
      obtain ⟨hgood, hrest⟩ := ih (h.keeps s a s₁ hs ha h₁) h₂
      refine ⟨hgood, ?_⟩
      rw [countP_cons_toNat, countP_cons_toNat]
      omega
    · cases hr

/-- Allowed steps stay among the good states and lower the rank. -/
structure Lowers (step : σ → α → Option σ) (ok : σ → α → Prop) (good : σ → Prop)
    (rank : σ → Nat) : Prop where
  keeps : ∀ s a s', good s → ok s a → step s a = some s' → good s'
  lowers : ∀ s a s', good s → ok s a → step s a = some s' → rank s' < rank s

omit [∀ s a, Decidable (ok s a)] in
theorem Lowers.balances (h : Lowers step ok good rank) :
    Balances step ok good rank (fun _ => true) (fun _ => false) := by
  refine ⟨h.keeps, fun s a s' hs ha hstep => ?_⟩
  have hlow := h.lowers s a s' hs ha hstep
  simp only [Bool.toNat_true, Bool.toNat_false]
  omega

theorem replay_rank (h : Lowers step ok good rank) {acts : List α} {s s' : σ} (hs : good s)
    (hr : replay step ok s acts = some s') : good s' ∧ acts.length + rank s' ≤ rank s := by
  obtain ⟨hgood, hcount⟩ := replay_balance h.balances hs hr
  rw [List.countP_true, List.countP_false] at hcount
  exact ⟨hgood, hcount⟩

theorem exists_stuck (h : Lowers step ok good rank) {s : σ} (hs : good s) :
    ∃ acts s', replay step ok s acts = some s' ∧ good s' ∧ ∀ a, ok s' a → step s' a = none := by
  generalize hn : rank s = n
  induction n using Nat.strong_induction_on generalizing s with
  | _ n ih =>
    by_cases hstuck : ∀ a, ok s a → step s a = none
    · exact ⟨[], s, rfl, hs, hstuck⟩
    · push Not at hstuck
      obtain ⟨a, ha, hstep⟩ := hstuck
      obtain ⟨s₁, h₁⟩ := Option.ne_none_iff_exists'.mp hstep
      have hlow := h.lowers s a s₁ hs ha h₁
      obtain ⟨acts, s', hr, hgood, hend⟩ := ih (rank s₁) (hn ▸ hlow) (h.keeps s a s₁ hs ha h₁) rfl
      refine ⟨a :: acts, s', ?_, hgood, hend⟩
      rw [replay, if_pos ha, h₁]
      exact hr

/-! ## Nodes in a line -/

theorem sum_update {n i : Nat} {f g : Nat → Nat} (hi : i < n) (h : ∀ k, k ≠ i → g k = f k) :
    (∑ k ∈ Finset.range n, g k) + f i = (∑ k ∈ Finset.range n, f k) + g i := by
  have hmem : i ∈ Finset.range n := Finset.mem_range.mpr hi
  have hrest : ∑ k ∈ (Finset.range n).erase i, g k = ∑ k ∈ (Finset.range n).erase i, f k :=
    Finset.sum_congr rfl fun k hk => h k (Finset.ne_of_mem_erase hk)
  have hf := Finset.add_sum_erase (Finset.range n) f hmem
  have hg := Finset.add_sum_erase (Finset.range n) g hmem
  omega

theorem sum_eraseIdx {β : Type} {f : β → Nat} {l : List β} {i : Nat} {b : β}
    (h : l[i]? = some b) : ((l.eraseIdx i).map f).sum + f b = (l.map f).sum := by
  obtain ⟨hlt, rfl⟩ := List.getElem?_eq_some_iff.mp h
  have hperm := ((List.getElem_cons_eraseIdx_perm hlt).map f).sum_eq
  rw [List.map_cons, List.sum_cons] at hperm
  omega

theorem sum_set {β : Type} {f : β → Nat} {l : List β} {i : Nat} {b c : β}
    (h : l[i]? = some b) : ((l.set i c).map f).sum + f b = (l.map f).sum + f c := by
  have hlt := (List.getElem?_eq_some_iff.mp h).1
  have hnew := sum_eraseIdx (f := f) (show (l.set i c)[i]? = some c by simp [hlt])
  rw [List.eraseIdx_set_eq] at hnew
  have hold := sum_eraseIdx (f := f) h
  omega

theorem free_of_behind {n : Nat} {free : Nat → Prop}
    (h : ∀ i, i < n → (∀ k, i < k → k < n → free k) → free i) : ∀ i, i < n → free i := by
  intro i hi
  generalize hd : n - i = d
  induction d using Nat.strong_induction_on generalizing i with
  | _ d ih =>
    refine h i hi fun k hik hk => ?_
    exact ih (n - k) (by omega) k hk rfl

end CarChain.Ranking
