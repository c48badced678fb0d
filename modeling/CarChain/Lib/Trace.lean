import Mathlib.Algebra.BigOperators.Group.List.Basic
import Mathlib.Algebra.Ring.Int.Defs
import Mathlib.Data.List.Induction

/-!
# Traces with disturbances

A state goes through recorded transitions, each with the state before and the
state after it, and between two of them it may be disturbed, as a relation `R`
says.  A trace is read from its end, where runs add to it.
-/

namespace CarChain.Trace

variable {σ ε κ ι : Type} (before after : ε → σ)

/-- The transitions of the list lead from `a` to `b`. -/
inductive Traced (R : σ → σ → Prop) (a : σ) : List ε → σ → Prop
  | nil {b : σ} : R a b → Traced R a [] b
  | snoc {es : List ε} {e : ε} {b : σ} : Traced R a es (before e) → R (after e) b →
      Traced R a (es ++ [e]) b

variable {before after} {R : σ → σ → Prop} {a b : σ}

theorem traced_nil : Traced before after R a [] b ↔ R a b := by
  constructor
  · intro h
    generalize hl : ([] : List ε) = l at h
    cases h with
    | nil h => exact h
    | snoc _ _ => simp at hl
  · exact .nil

theorem traced_snoc {es : List ε} {e : ε} :
    Traced before after R a (es ++ [e]) b ↔
      Traced before after R a es (before e) ∧ R (after e) b := by
  constructor
  · intro h
    generalize hl : es ++ [e] = l at h
    cases h with
    | nil _ => simp at hl
    | snoc ht hr =>
      obtain ⟨rfl, he⟩ := List.append_inj' hl rfl
      cases he
      exact ⟨ht, hr⟩
  · rintro ⟨ht, hr⟩
    exact .snoc ht hr

/-- A disturbance at the end. -/
theorem Traced.disturb {es : List ε} {c : σ} (h : Traced before after R a es b)
    (hR : ∀ {b c d}, R b c → R c d → R b d) (hbc : R b c) : Traced before after R a es c := by
  cases h with
  | nil h => exact .nil (hR h hbc)
  | snoc ht hr => exact .snoc ht (hR hr hbc)

/-- The part of a trace up to one of its transitions. -/
theorem Traced.upTo {es rest : List ε} {e : ε}
    (h : Traced before after R a (es ++ e :: rest) b) :
    Traced before after R a es (before e) := by
  induction rest using List.reverseRecOn generalizing b with
  | nil => exact (traced_snoc.mp h).1
  | append_singleton rest x ih =>
    rw [← List.cons_append, ← List.append_assoc] at h
    exact ih (traced_snoc.mp h).1

/-- What disturbances and transitions keep holds at the end. -/
theorem Traced.invariant {P : σ → Prop} {es : List ε} (h : Traced before after R a es b)
    (h₀ : P a) (hR : ∀ {b c}, R b c → P b → P c) (hstep : ∀ e ∈ es, P (before e) → P (after e)) :
    P b := by
  induction h with
  | nil h => exact hR h h₀
  | @snoc es e b ht hr ih =>
    have ih := ih fun x hx => hstep x (List.mem_append_left _ hx)
    exact hR hr (hstep e (List.mem_append_right _ (List.mem_singleton_self e)) ih)

/-- **Two traces side by side.**  What relates the starts, survives disturbances
and is kept by transitions with the same key relates the ends. -/
theorem Traced.simulate {S : σ → σ → Prop} {Q : ε → ε → Prop} (key : ε → κ)
    (hR : ∀ {b c b' c'}, S b b' → R b c → R b' c' → S c c')
    (hstep : ∀ e e', key e = key e' → Q e e' → S (before e) (before e') →
      S (after e) (after e')) {a' b' : σ} {es es' : List ε} (h₀ : S a a')
    (h : Traced before after R a es b) (h' : Traced before after R a' es' b')
    (hk : es.map key = es'.map key)
    (hQ : ∀ e ∈ es, ∀ e' ∈ es', key e = key e' → Q e e') : S b b' := by
  induction h generalizing es' b' with
  | nil hr =>
    have hnil : es' = [] := List.map_eq_nil_iff.mp hk.symm
    subst hnil
    exact hR h₀ hr (traced_nil.mp h')
  | @snoc es e b ht hr ih =>
    cases h' with
    | nil _ => simp at hk
    | @snoc es' e' _ ht' hr' =>
      rw [List.map_append, List.map_append] at hk
      obtain ⟨hmap, he⟩ := List.append_inj' hk rfl
      have hkey : key e = key e' := List.singleton_injective he
      have hS : S (before e) (before e') := by
        refine ih ht' hmap fun x hx x' hx' => ?_
        exact hQ x (List.mem_append_left _ hx) x' (List.mem_append_left _ hx')
      have hq := hQ e (List.mem_append_right _ (List.mem_singleton_self e)) e'
        (List.mem_append_right _ (List.mem_singleton_self e')) hkey
      exact hR (hstep e e' hkey hq hS) hr hr'

/-- Without disturbances the end is the fold of the inputs. -/
theorem Traced.foldl {f : σ → ι → σ} {input : ε → ι} {es : List ε}
    (h : Traced before after Eq a es b)
    (hf : ∀ e ∈ es, after e = f (before e) (input e)) : b = (es.map input).foldl f a := by
  induction h with
  | nil h => exact h.symm
  | @snoc es e b ht hr ih =>
    have ih := ih fun x hx => hf x (List.mem_append_left _ hx)
    have he := hf e (List.mem_append_right _ (List.mem_singleton_self e))
    rw [List.map_append, List.foldl_append, ← ih, ← hr, he]
    rfl

/-- A quantity no disturbance touches changes by what the transitions add. -/
theorem Traced.total {es : List ε} (h : Traced before after R a es b) (size : σ → Int)
    (gain : ε → Int) (hR : ∀ {b c}, R b c → size b = size c)
    (hg : ∀ e ∈ es, size (after e) = size (before e) + gain e) :
    size b = size a + (es.map gain).sum := by
  induction h with
  | nil h => simp [hR h]
  | @snoc es e b ht hr ih =>
    have ih := ih fun x hx => hg x (List.mem_append_left _ hx)
    have he := hg e (List.mem_append_right _ (List.mem_singleton_self e))
    rw [← hR hr, he, ih, List.map_append, List.sum_append]
    simp [Int.add_assoc]

end CarChain.Trace
