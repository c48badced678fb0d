import CarChain.Lib.Run

/-!
# A thread that works off programs

A thread answers each event with a list of atomic steps, chosen in the state it
finds, and takes no event before it has done them all; other threads read the
state in between.  To know what holds in every state they can see it is enough
to go along the program of one event from a state between events
(`along_of_reach`).
-/

namespace CarChain.Programs
open CarChain.Run

variable {State Step Event : Type} (perform : State → Step → State)
  (program : State → Event → List Step)

/-- The state and the steps the thread has still to do. -/
structure Thread (State Step : Type) where
  state : State
  todo : List Step

inductive Action (Event : Type)
  | event (e : Event)
  | next
  | read

def step (t : Thread State Step) : Action Event → Option (Thread State Step)
  | .event e => if t.todo.isEmpty then some ⟨t.state, program t.state e⟩ else none
  | .next =>
    match t.todo with
    | [] => none
    | s :: rest => some ⟨perform t.state s, rest⟩
  | .read => some t

/-- The whole program of an event. -/
def runEvent (s : State) (e : Event) : State := (program s e).foldl perform s

/-- `P` before the first step and after each one, `I` after the last. -/
def Along (P I : State → Prop) : State → List Step → Prop
  | s, [] => P s ∧ I s
  | s, a :: rest => P s ∧ Along P I (perform s a) rest

variable {perform program} {P I : State → Prop}

theorem Along.here {s : State} {todo : List Step} (h : Along perform P I s todo) : P s := by
  cases todo with
  | nil => exact h.1
  | cons a rest => exact h.1

theorem Along.finish {s : State} {todo : List Step} (h : Along perform P I s todo) :
    P (todo.foldl perform s) ∧ I (todo.foldl perform s) := by
  induction todo generalizing s with
  | nil => exact h
  | cons a rest ih => exact ih h.2

theorem Along.and {Q J : State → Prop} {s : State} {todo : List Step}
    (h : Along perform P I s todo) (h' : Along perform Q J s todo) :
    Along perform (fun s => P s ∧ Q s) (fun s => I s ∧ J s) s todo := by
  induction todo generalizing s with
  | nil => exact ⟨⟨h.1, h'.1⟩, h.2, h'.2⟩
  | cons a rest ih => exact ⟨⟨h.1, h'.1⟩, ih h.2 h'.2⟩

/-- **What holds along the program of every event holds in every state.** -/
theorem along_of_reach {ok : Thread State Step → Action Event → Prop} {s₀ : State}
    (h₀ : P s₀ ∧ I s₀)
    (hprogram : ∀ s e, ok ⟨s, []⟩ (.event e) → P s → I s → Along perform P I s (program s e))
    {t : Thread State Step} (h : Reach (Does (step perform program)) ok ⟨s₀, []⟩ t) :
    Along perform P I t.state t.todo := by
  apply h.invariant h₀
  rintro ⟨s, todo⟩ a t' _ halong hok hstep
  cases a with
  | event e =>
    cases todo with
    | nil =>
      cases hstep
      exact hprogram s e hok halong.1 halong.2
    | cons a rest => cases hstep
  | next =>
    cases todo with
    | nil => cases hstep
    | cons a rest =>
      cases hstep
      exact halong.2
  | read =>
    cases hstep
    exact halong

/-- Between events the invariant holds after any of them. -/
theorem along_of_events {s₀ : State} (h₀ : P s₀ ∧ I s₀)
    (hprogram : ∀ s e, P s → I s → Along perform P I s (program s e)) (events : List Event) :
    P (events.foldl (runEvent perform program) s₀) ∧
      I (events.foldl (runEvent perform program) s₀) := by
  induction events generalizing s₀ with
  | nil => exact h₀
  | cons e events ih => exact ih (hprogram s₀ e h₀.1 h₀.2).finish

end CarChain.Programs
