import Mathlib.Data.List.Basic

/-!
# Inserting inputs into a run

A machine takes inputs one after the other and gives an output for each.  When
the inputs inserted into a run leave the state as they find it, the outputs of
the original inputs and the last state are those of the run without them
(`observed_eq_run`).
-/

namespace CarChain.Inserted

variable {State Input Output : Type} (step : Input → State → Output × State)

inductive Marked (Input : Type)
  | kept (i : Input)
  | inserted (i : Input)

/-- All outputs and the last state. -/
def run : List Input → State → List Output × State
  | [], s => ([], s)
  | i :: is, s => ((step i s).1 :: (run is (step i s).2).1, (run is (step i s).2).2)

/-- The outputs of the kept inputs and the last state. -/
def observed : List (Marked Input) → State → List Output × State
  | [], s => ([], s)
  | .kept i :: is, s =>
    ((step i s).1 :: (observed is (step i s).2).1, (observed is (step i s).2).2)
  | .inserted i :: is, s => observed is (step i s).2

def originals : List (Marked Input) → List Input
  | [] => []
  | .kept i :: is => i :: originals is
  | .inserted _ :: is => originals is

/-- Every inserted input finds a state that it leaves as it is. -/
def Idle (is : List (Marked Input)) (s : State) : Prop :=
  ∀ before i after, is = before ++ .inserted i :: after →
    (step i (observed step before s).2).2 = (observed step before s).2

variable {step}

theorem Idle.tail {m : Marked Input} {is : List (Marked Input)} {s s' : State}
    (h : Idle step (m :: is) s)
    (hs : ∀ before, (observed step (m :: before) s).2 = (observed step before s').2) :
    Idle step is s' := by
  intro before i after heq
  have hidle := h (m :: before) i after (by rw [heq]; rfl)
  rwa [hs before] at hidle

/-- **Inserted inputs that leave the state alone are not seen.** -/
theorem observed_eq_run {is : List (Marked Input)} {s : State} (h : Idle step is s) :
    observed step is s = run step (originals is) s := by
  induction is generalizing s with
  | nil => rfl
  | cons m is ih =>
    cases m with
    | kept i =>
      have hrest : observed step is (step i s).2 = run step (originals is) (step i s).2 :=
        ih (h.tail fun _ => rfl)
      rw [observed, originals, run, hrest]
    | inserted i =>
      have hsame : (step i s).2 = s := h [] i is rfl
      have hrest : observed step is s = run step (originals is) s :=
        ih (h.tail fun before => by rw [observed, hsame])
      rw [observed, originals, hsame, hrest]

end CarChain.Inserted
