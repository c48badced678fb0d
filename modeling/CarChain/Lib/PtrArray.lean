import Mathlib.Data.List.Basic

/-!
# Arrays of pointers ended by NULL

An array as `malloc` returns it: slots that hold nothing yet, a NULL or a
pointer.  A store past the end and a read of a slot that was never written have
no meaning (`none`); every store is recorded.  A walk that fills such an array
from a list writes each slot once when the array was given one slot more than
the walk has entries (`copyOut_eq`), and a loop that counts up to the NULL then
finds them all (`countEntries_filled`).
-/

namespace CarChain.PtrArray

variable {α β : Type}

structure HeapArray (α : Type) where
  slots : List (Option (Option α))
  writes : List Nat
  deriving DecidableEq

def malloc (n : Nat) : HeapArray α := ⟨List.replicate n none, []⟩

def store (array : HeapArray α) (i : Nat) (p : Option α) : Option (HeapArray α) :=
  if i < array.slots.length then some ⟨array.slots.set i (some p), array.writes ++ [i]⟩ else none

/-- A walk over nodes that stores what it takes of each: `take` is `none` where
it has no meaning, `some none` for a node it passes over. -/
def fill (take : β → Option (Option α)) :
    HeapArray α → Nat → List β → Option (HeapArray α × Nat)
  | array, i, [] => some (array, i)
  | array, i, node :: nodes =>
    match take node with
    | none => none
    | some none => fill take array i nodes
    | some (some a) => (store array i (some a)).bind fun array' => fill take array' (i + 1) nodes

/-- An array of `n` slots filled by a walk and ended where the walk stopped. -/
def copyOut (take : β → Option (Option α)) (n : Nat) (nodes : List β) : Option (HeapArray α) :=
  (fill take (malloc n) 0 nodes).bind fun r => store r.1 r.2 none

/-- The loop that counts up to the NULL. -/
def countEntries : List (Option (Option α)) → Option Nat
  | [] => none
  | none :: _ => none
  | some none :: _ => some 0
  | some (some _) :: slots => (countEntries slots).map (· + 1)

/-- The first so many pointers. -/
def readEntries : Nat → List (Option (Option α)) → Option (List α)
  | 0, _ => some []
  | _ + 1, [] => none
  | _ + 1, none :: _ => none
  | _ + 1, some none :: _ => none
  | n + 1, some (some a) :: slots => (readEntries n slots).map (a :: ·)

/-- The array that holds these entries, every slot written once and in order. -/
def filled (entries : List α) : HeapArray α :=
  ⟨entries.map (fun a => some (some a)) ++ [some none], List.range (entries.length + 1)⟩

/-! ## Filling -/

/-- So many slots are written, the rest is as `malloc` left it. -/
def partly (entries : List α) (spare : Nat) : HeapArray α :=
  ⟨entries.map (fun a => some (some a)) ++ List.replicate spare none,
    List.range entries.length⟩

theorem store_partly (entries : List α) (spare : Nat) (p : Option α) :
    store (partly entries (spare + 1)) entries.length p =
      some ⟨entries.map (fun a => some (some a)) ++ some p :: List.replicate spare none,
        List.range (entries.length + 1)⟩ := by
  have hlt : entries.length < (partly entries (spare + 1)).slots.length := by
    simp [partly]
  have hset : (partly entries (spare + 1)).slots.set entries.length (some p) =
      entries.map (fun a => some (some a)) ++ some p :: List.replicate spare none := by
    rw [partly, List.replicate_succ, List.set_append_right _ _ (by simp)]
    simp
  unfold store
  rw [if_pos hlt, hset]
  dsimp only [partly]
  rw [List.range_succ]

theorem store_partly_some (entries : List α) (spare : Nat) (a : α) :
    store (partly entries (spare + 1)) entries.length (some a) =
      some (partly (entries ++ [a]) spare) := by
  rw [store_partly]
  simp [partly]

/-- What a walk takes of the nodes. -/
theorem fill_partly {take : β → Option (Option α)} {kept : β → Option α} {nodes : List β}
    (h : ∀ node ∈ nodes, take node = some (kept node)) (entries : List α) (spare : Nat) :
    fill take (partly entries (spare + (nodes.filterMap kept).length)) entries.length nodes =
      some (partly (entries ++ nodes.filterMap kept) spare,
        (entries ++ nodes.filterMap kept).length) := by
  induction nodes generalizing entries with
  | nil => simp [fill]
  | cons node nodes ih =>
    rw [List.forall_mem_cons] at h
    unfold fill
    rw [h.1]
    cases hk : kept node with
    | none =>
      rw [List.filterMap_cons_none hk]
      exact ih h.2 entries
    | some a =>
      rw [List.filterMap_cons_some hk, List.length_cons, ← Nat.add_assoc]
      dsimp only
      rw [store_partly_some, Option.bind_some]
      have hrest := ih h.2 (entries ++ [a])
      rw [List.append_assoc, List.length_append] at hrest
      exact hrest

theorem fill_malloc {take : β → Option (Option α)} {kept : β → Option α} {nodes : List β}
    (h : ∀ node ∈ nodes, take node = some (kept node)) {n : Nat}
    (hn : n = (nodes.filterMap kept).length + 1) :
    fill take (malloc n) 0 nodes =
      some (partly (nodes.filterMap kept) 1, (nodes.filterMap kept).length) := by
  have hfill := fill_partly h [] 1
  rwa [List.nil_append, List.length_nil, Nat.add_comm, ← hn] at hfill

/-- The NULL goes into the slot that is left. -/
theorem store_last (entries : List α) :
    store (partly entries 1) entries.length none = some (filled entries) :=
  store_partly entries 0 none

/-- A walk into an array with one slot more than it has entries. -/
theorem copyOut_eq {take : β → Option (Option α)} {kept : β → Option α} {nodes : List β}
    (h : ∀ node ∈ nodes, take node = some (kept node)) {n : Nat}
    (hn : n = (nodes.filterMap kept).length + 1) :
    copyOut take n nodes = some (filled (nodes.filterMap kept)) := by
  unfold copyOut
  rw [fill_malloc h hn, Option.bind_some, store_last]

/-! ## Reading -/

@[simp] theorem filled_slots_length (entries : List α) :
    (filled entries).slots.length = entries.length + 1 := by
  simp [filled]

theorem countEntries_filled (entries : List α) :
    countEntries (filled entries).slots = some entries.length := by
  unfold filled
  dsimp only
  induction entries with
  | nil => rfl
  | cons a entries ih =>
    rw [List.map_cons, List.cons_append, countEntries, ih]
    rfl

theorem readEntries_filled (entries : List α) :
    readEntries entries.length (filled entries).slots = some entries := by
  unfold filled
  dsimp only
  induction entries with
  | nil => rfl
  | cons a entries ih =>
    rw [List.map_cons, List.cons_append, List.length_cons, readEntries, ih]
    rfl

end CarChain.PtrArray
