import Mathlib.Data.List.Nodup
import Mathlib.Data.List.Perm.Subperm

/-!
# Handles

A table of handles such as descriptors: each `acquire` hands out a new number,
each `release` is recorded.  `Exact` says that a list of handles is held and
nothing else is open: then no open handle is forgotten and none was released
twice (`Exact.released_once`).  The table also remembers how many handles were
open at once at most.
-/

namespace CarChain.Handles

/-- Handles below `next` were handed out. -/
structure Table where
  next : Nat
  released : List Nat
  peak : Nat

def empty : Table := ⟨0, [], 0⟩

def openCount (t : Table) : Nat := t.next - t.released.length

/-- Hands out the handle `t.next`. -/
def acquire (t : Table) : Table :=
  { t with next := t.next + 1, peak := max t.peak (openCount t + 1) }

def release (t : Table) (h : Nat) : Table := { t with released := t.released ++ [h] }

/-- Handed out and not released. -/
def IsOpen (t : Table) (h : Nat) : Prop := h < t.next ∧ h ∉ t.released

structure Exact (t : Table) (held : List Nat) : Prop where
  held_nodup : held.Nodup
  released_nodup : t.released.Nodup
  released_lt : ∀ h ∈ t.released, h < t.next
  mem_iff : ∀ h, h ∈ held ↔ IsOpen t h

@[simp] theorem acquire_next (t : Table) : (acquire t).next = t.next + 1 := rfl
@[simp] theorem acquire_released (t : Table) : (acquire t).released = t.released := rfl
@[simp] theorem acquire_peak (t : Table) : (acquire t).peak = max t.peak (openCount t + 1) := rfl
@[simp] theorem release_next (t : Table) (h : Nat) : (release t h).next = t.next := rfl
@[simp] theorem release_released (t : Table) (h : Nat) :
    (release t h).released = t.released ++ [h] := rfl
@[simp] theorem release_peak (t : Table) (h : Nat) : (release t h).peak = t.peak := rfl

theorem exact_empty : Exact empty [] :=
  ⟨List.nodup_nil, List.nodup_nil, by simp [empty], by simp [IsOpen, empty]⟩

theorem Exact.perm {t : Table} {held held' : List Nat} (h : Exact t held)
    (hp : held.Perm held') : Exact t held' :=
  ⟨hp.nodup_iff.mp h.held_nodup, h.released_nodup, h.released_lt,
    fun x => hp.mem_iff.symm.trans (h.mem_iff x)⟩

theorem Exact.next_fresh {t : Table} {held : List Nat} (h : Exact t held) : t.next ∉ held :=
  fun hmem => Nat.lt_irrefl _ ((h.mem_iff _).mp hmem).1

theorem Exact.acquire {t : Table} {held : List Nat} (h : Exact t held) :
    Exact (acquire t) (t.next :: held) where
  held_nodup := List.nodup_cons.mpr ⟨h.next_fresh, h.held_nodup⟩
  released_nodup := h.released_nodup
  released_lt x hx := Nat.lt_succ_of_lt (h.released_lt x hx)
  mem_iff x := by
    rw [List.mem_cons, h.mem_iff]
    simp only [IsOpen, acquire_next, acquire_released]
    constructor
    · rintro (rfl | ⟨hlt, hnot⟩)
      · exact ⟨Nat.lt_succ_self _, fun hr => Nat.lt_irrefl _ (h.released_lt _ hr)⟩
      · exact ⟨Nat.lt_succ_of_lt hlt, hnot⟩
    · rintro ⟨hlt, hnot⟩
      rcases Nat.lt_succ_iff_lt_or_eq.mp hlt with hlt | rfl
      · exact Or.inr ⟨hlt, hnot⟩
      · exact Or.inl rfl

theorem Exact.release {t : Table} {x : Nat} {held : List Nat} (h : Exact t (x :: held)) :
    Exact (release t x) held where
  held_nodup := (List.nodup_cons.mp h.held_nodup).2
  released_nodup := by
    have hnot : x ∉ t.released := ((h.mem_iff x).mp List.mem_cons_self).2
    rw [release_released, List.nodup_append]
    refine ⟨h.released_nodup, List.nodup_singleton x, ?_⟩
    intro a ha b hb heq
    rw [List.mem_singleton.mp hb] at heq
    exact hnot (heq ▸ ha)
  released_lt y hy := by
    rw [release_released, List.mem_append, List.mem_singleton] at hy
    rcases hy with hy | rfl
    · exact h.released_lt y hy
    · exact ((h.mem_iff y).mp List.mem_cons_self).1
  mem_iff y := by
    have hmem := h.mem_iff y
    rw [List.mem_cons] at hmem
    simp only [IsOpen, release_next, release_released, List.mem_append, List.mem_singleton,
      not_or] at hmem ⊢
    constructor
    · intro hy
      have hne : y ≠ x := by
        rintro rfl
        exact (List.nodup_cons.mp h.held_nodup).1 hy
      have hopen := hmem.mp (Or.inr hy)
      exact ⟨hopen.1, hopen.2, hne⟩
    · rintro ⟨hlt, hnot, hne⟩
      exact (hmem.mpr ⟨hlt, hnot⟩).resolve_left hne

/-- As many handles are open as are held. -/
theorem Exact.openCount_eq {t : Table} {held : List Nat} (h : Exact t held) :
    openCount t = held.length := by
  have hnodup : (held ++ t.released).Nodup := by
    rw [List.nodup_append]
    refine ⟨h.held_nodup, h.released_nodup, ?_⟩
    rintro a ha b hb rfl
    exact ((h.mem_iff a).mp ha).2 hb
  have hp : (held ++ t.released).Perm (List.range t.next) := by
    rw [List.perm_ext_iff_of_nodup hnodup List.nodup_range]
    intro a
    rw [List.mem_append, List.mem_range, h.mem_iff]
    constructor
    · rintro (hopen | hr)
      · exact hopen.1
      · exact h.released_lt a hr
    · intro hlt
      by_cases hr : a ∈ t.released
      · exact Or.inr hr
      · exact Or.inl ⟨hlt, hr⟩
  have hlen := hp.length_eq
  rw [List.length_append, List.length_range] at hlen
  unfold openCount
  omega

/-- **Every handle that is no longer held was released exactly once.** -/
theorem Exact.released_once {t : Table} {held : List Nat} (h : Exact t held) {x : Nat}
    (hlt : x < t.next) (hx : x ∉ held) : t.released.count x = 1 := by
  have hr : x ∈ t.released := by
    by_contra hnot
    exact hx ((h.mem_iff x).mpr ⟨hlt, hnot⟩)
  exact List.count_eq_one_of_mem h.released_nodup hr

end CarChain.Handles
