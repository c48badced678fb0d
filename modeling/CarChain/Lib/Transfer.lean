import Mathlib.Data.List.Basic

/-!
# Moving elements call by call

A loop asks for a number of elements of a source and gets them piece by piece:
each call moves some of what is still missing or is interrupted and moves
nothing.  However the calls split the elements, the loop ends with the first
ones of the source, or at its end when there are too few (`move_spec`), and it
does end if enough calls move something (`move_returns`).
-/

namespace CarChain.Transfer

variable {α : Type}

/-- What one call does: a call that moves something moves up to `extra + 1`
elements. -/
inductive Call
  | interrupted
  | moves (extra : Nat)
  deriving DecidableEq

def Call.isMove : Call → Bool
  | .interrupted => false
  | .moves _ => true

/-- How many of the calls move something. -/
def transfers (calls : List Call) : Nat := calls.countP Call.isMove

/-- What the loop leaves: whether it got all it asked for, what it got, the rest
of the source, and the calls it has not made. -/
structure Moved (α : Type) where
  ok : Bool
  got : List α
  rest : List α
  calls : List Call
  deriving DecidableEq

/-- The loop over the calls; `none` while they do not suffice. -/
def move : List Call → Nat → List α → Option (Moved α)
  | calls, 0, src => some ⟨true, [], src, calls⟩
  | [], _ + 1, _ => none
  | .interrupted :: calls, n + 1, src => move calls (n + 1) src
  | .moves _ :: calls, _ + 1, [] => some ⟨false, [], [], calls⟩
  | .moves extra :: calls, n + 1, a :: src =>
    let piece := (a :: src).take (min (extra + 1) (n + 1))
    (move calls (n + 1 - piece.length) ((a :: src).drop piece.length)).map fun r =>
      { r with got := piece ++ r.got }

@[simp] theorem transfers_interrupted (calls : List Call) :
    transfers (.interrupted :: calls) = transfers calls := List.countP_cons_of_neg (by decide)

@[simp] theorem transfers_moves (extra : Nat) (calls : List Call) :
    transfers (.moves extra :: calls) = transfers calls + 1 := List.countP_cons_of_pos rfl

@[simp] theorem move_zero (calls : List Call) (src : List α) :
    move calls 0 src = some ⟨true, [], src, calls⟩ := by cases calls <;> rfl

/-- The piece a call moves is not empty and no longer than what is missing. -/
theorem piece_length (extra n : Nat) (a : α) (src : List α) :
    0 < ((a :: src).take (min (extra + 1) (n + 1))).length ∧
      ((a :: src).take (min (extra + 1) (n + 1))).length ≤ n + 1 ∧
      ((a :: src).take (min (extra + 1) (n + 1))).length ≤ (a :: src).length := by
  rw [List.length_take, List.length_cons]
  omega

/-- **Whatever the calls, the loop ends with the first elements of the source.** -/
theorem move_spec {calls : List Call} {n : Nat} {src : List α} {r : Moved α}
    (h : move calls n src = some r) :
    r.got = src.take n ∧ r.rest = src.drop n ∧ (r.ok = true ↔ n ≤ src.length) ∧
      transfers calls ≤ transfers r.calls + min n (src.length + 1) := by
  induction calls generalizing n src r with
  | nil =>
    cases n with
    | zero =>
      cases h
      simp
    | succ n => cases h
  | cons c calls ih =>
    cases n with
    | zero =>
      cases h
      simp
    | succ n =>
      cases c with
      | interrupted =>
        rw [transfers_interrupted]
        exact ih h
      | moves extra =>
        rw [transfers_moves]
        cases src with
        | nil =>
          cases h
          simp only [List.take_nil, List.drop_nil, List.length_nil, true_and]
          exact ⟨by simp, by omega⟩
        | cons a src =>
          simp only [move, Option.map_eq_some_iff] at h
          obtain ⟨r', hr, rfl⟩ := h
          obtain ⟨hpos, hle, hsrc⟩ := piece_length extra n a src
          obtain ⟨hgot, hrest, hok, hcalls⟩ := ih hr
          generalize hp : (a :: src).take (min (extra + 1) (n + 1)) = piece at *
          have hpiece : (a :: src).take piece.length = piece := by
            rw [← hp, List.length_take, List.take_eq_take_iff]
            omega
          rw [List.length_drop] at hok hcalls
          refine ⟨?_, ?_, ?_, by dsimp only; omega⟩
          · dsimp only
            rw [hgot]
            calc piece ++ ((a :: src).drop piece.length).take (n + 1 - piece.length)
                = (a :: src).take piece.length ++
                    ((a :: src).drop piece.length).take (n + 1 - piece.length) := by rw [hpiece]
              _ = (a :: src).take (piece.length + (n + 1 - piece.length)) := List.take_add.symm
              _ = (a :: src).take (n + 1) := by rw [Nat.add_sub_cancel' hle]
          · dsimp only
            rw [hrest, List.drop_drop, Nat.add_sub_cancel' hle]
          · dsimp only
            rw [hok]
            omega

/-- The loop ends when enough calls move something: one for each element that is
there, and one more to find the end of the source. -/
theorem move_returns {calls : List Call} {n : Nat} {src : List α}
    (h : min n (src.length + 1) ≤ transfers calls) : (move calls n src).isSome = true := by
  induction calls generalizing n src with
  | nil =>
    cases n with
    | zero => rfl
    | succ n =>
      simp only [transfers, List.countP_nil] at h
      omega
  | cons c calls ih =>
    cases n with
    | zero => rfl
    | succ n =>
      cases c with
      | interrupted =>
        rw [transfers_interrupted] at h
        exact ih h
      | moves extra =>
        rw [transfers_moves] at h
        cases src with
        | nil => rfl
        | cons a src =>
          obtain ⟨hpos, hle, hsrc⟩ := piece_length extra n a src
          rw [List.length_cons] at h hsrc
          rw [move, Option.isSome_map]
          apply ih
          rw [List.length_drop, List.length_cons]
          omega

/-! ## Blocks on a stream -/

/-- A stream of blocks that is cut anywhere holds whole blocks and a proper part
of the next one. -/
theorem cut_blocks (blocks : List (List α)) {cut : List α} (h : cut <+: blocks.flatten) :
    ∃ (k : Nat) (part : List α), k ≤ blocks.length ∧ cut = (blocks.take k).flatten ++ part ∧
      ((k = blocks.length ∧ part = []) ∨
        ∃ block, blocks[k]? = some block ∧ part <+: block ∧ part.length < block.length) := by
  induction blocks generalizing cut with
  | nil =>
    rw [List.flatten_nil, List.prefix_nil] at h
    exact ⟨0, [], Nat.le_refl 0, by rw [h]; rfl, Or.inl ⟨rfl, rfl⟩⟩
  | cons block blocks ih =>
    rw [List.flatten_cons] at h
    rcases Nat.lt_or_ge cut.length block.length with hlt | hge
    · have hp : cut <+: block :=
        List.prefix_of_prefix_length_le h (List.prefix_append block _) (Nat.le_of_lt hlt)
      exact ⟨0, cut, Nat.zero_le _, rfl, Or.inr ⟨block, rfl, hp, hlt⟩⟩
    · obtain ⟨tail, rfl⟩ := List.prefix_of_prefix_length_le (List.prefix_append block _) h hge
      obtain ⟨k, part, hk, rfl, hpart⟩ := ih ((List.prefix_append_right_inj block).mp h)
      refine ⟨k + 1, part, Nat.succ_le_succ hk, by simp, ?_⟩
      rcases hpart with ⟨rfl, hnil⟩ | hnext
      · exact Or.inl ⟨rfl, hnil⟩
      · exact Or.inr hnext

end CarChain.Transfer
