import Mathlib.Logic.Basic

/-!
# Runs of a transition system

States reached by actions that a side condition allows (`Reach`), the induction
principle for invariants, and the simulation rule: where every step is matched
by a step of a second system or by none, reached states map to reached states.
For an executable step function, `replay` runs a list of actions.
-/

namespace CarChain.Run

variable {σ α τ β : Type}

/-- States reached from `s₀` by steps of `R` whose actions `ok` allows. -/
inductive Reach (R : σ → α → σ → Prop) (ok : σ → α → Prop) (s₀ : σ) : σ → Prop
  | init : Reach R ok s₀ s₀
  | step {s s' : σ} {a : α} : Reach R ok s₀ s → ok s a → R s a s' → Reach R ok s₀ s'

/-- What holds at the start and survives every step of a run holds throughout. -/
theorem Reach.invariant {R : σ → α → σ → Prop} {ok : σ → α → Prop} {s₀ s : σ} {I : σ → Prop}
    (h : Reach R ok s₀ s) (h₀ : I s₀)
    (hs : ∀ s a s', Reach R ok s₀ s → I s → ok s a → R s a s' → I s') : I s := by
  induction h with
  | init => exact h₀
  | step hr hok hstep ih => exact hs _ _ _ hr ih hok hstep

theorem Reach.trans {R : σ → α → σ → Prop} {ok : σ → α → Prop} {s₀ s s' : σ}
    (h : Reach R ok s₀ s) (h' : Reach R ok s s') : Reach R ok s₀ s' := by
  induction h' with
  | init => exact h
  | step _ hok hstep ih => exact .step ih hok hstep

/-- **Simulation.**  Every step is matched by an allowed step or by none. -/
theorem Reach.simulate {R : σ → α → σ → Prop} {ok : σ → α → Prop} {R' : τ → β → τ → Prop}
    {ok' : τ → β → Prop} {s₀ s : σ} (f : σ → τ) (h : Reach R ok s₀ s)
    (hs : ∀ s a s', Reach R ok s₀ s → ok s a → R s a s' →
      f s' = f s ∨ ∃ b, ok' (f s) b ∧ R' (f s) b (f s')) : Reach R' ok' (f s₀) (f s) := by
  induction h with
  | init => exact .init
  | step hr hok hstep ih =>
    rcases hs _ _ _ hr hok hstep with he | ⟨b, hb, hstep'⟩
    · rw [he]; exact ih
    · exact .step ih hb hstep'

/-! ## Executable steps -/

/-- The relation of an executable step. -/
def Does (step : σ → α → Option σ) (s : σ) (a : α) (s' : σ) : Prop := step s a = some s'

/-- The state after a list of actions, if each is enabled and allowed. -/
def replay (step : σ → α → Option σ) (ok : σ → α → Prop) [∀ s a, Decidable (ok s a)] :
    σ → List α → Option σ
  | s, [] => some s
  | s, a :: rest => if ok s a then (step s a).bind (replay step ok · rest) else none

theorem reach_of_replay {step : σ → α → Option σ} {ok : σ → α → Prop}
    [∀ s a, Decidable (ok s a)] {s₀ : σ} (acts : List α) :
    ∀ {s s' : σ}, Reach (Does step) ok s₀ s → replay step ok s acts = some s' →
      Reach (Does step) ok s₀ s' := by
  induction acts with
  | nil =>
    intro s s' hr h
    cases h
    exact hr
  | cons a rest ih =>
    intro s s' hr h
    simp only [replay] at h
    split at h
    · rename_i ha
      obtain ⟨s₁, h₁, h₂⟩ := Option.bind_eq_some_iff.mp h
      exact ih (.step hr ha h₁) h₂
    · cases h

/-- A replayed run ends in a reached state of which its test holds. -/
theorem exists_reach_of_replay {step : σ → α → Option σ} {ok : σ → α → Prop}
    [∀ s a, Decidable (ok s a)] {s₀ : σ} (acts : List α) (p : σ → Prop) [DecidablePred p]
    (h : (replay step ok s₀ acts).any (fun s => p s) = true) :
    ∃ s, Reach (Does step) ok s₀ s ∧ p s := by
  cases hs : replay step ok s₀ acts with
  | none =>
    rw [hs] at h
    cases h
  | some s =>
    rw [hs] at h
    exact ⟨s, reach_of_replay acts .init hs, of_decide_eq_true h⟩

end CarChain.Run
