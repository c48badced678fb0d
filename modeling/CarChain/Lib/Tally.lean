import Mathlib.Data.List.Perm.Basic

/-!
# A counter and a list of labels

What is kept about a changing number of holders: how many there are, and a list
of their labels from which the first entry with the label of a leaving holder is
taken out.  Two holders may have one label, so the entry that goes may stand for
the other; as multisets the labels stay those of the holders (`InStep`).
-/

namespace CarChain.Tally

variable {α κ : Type} {label : α → κ} {holders : List α} {count : Int} {labels : List κ}

structure InStep (label : α → κ) (holders : List α) (count : Int) (labels : List κ) : Prop where
  count : count = holders.length
  labels : labels.Perm (holders.map label)

theorem inStep_nil (label : α → κ) : InStep label [] 0 [] := ⟨rfl, List.Perm.refl _⟩

theorem InStep.acquire (h : InStep label holders count labels) (a : α) :
    InStep label (holders ++ [a]) (count + 1) (label a :: labels) where
  count := by
    rw [h.count, List.length_append, List.length_singleton]
    rfl
  labels := by
    rw [List.map_append, List.map_singleton]
    exact (h.labels.cons (label a)).trans (List.perm_append_singleton _ _).symm

/-- A holder leaves, and with it the first entry with its label. -/
theorem InStep.release [DecidableEq κ] (h : InStep label holders count labels) {i : Nat} {a : α}
    (hi : holders[i]? = some a) :
    InStep label (holders.eraseIdx i) (count - 1) (labels.erase (label a)) := by
  obtain ⟨hlt, rfl⟩ := List.getElem?_eq_some_iff.mp hi
  have hperm : (holders[i] :: holders.eraseIdx i).Perm holders :=
    List.getElem_cons_eraseIdx_perm hlt
  constructor
  · have hlen := hperm.length_eq
    rw [List.length_cons] at hlen
    rw [h.count, ← hlen]
    omega
  · have hlabels : labels.Perm (label holders[i] :: (holders.eraseIdx i).map label) :=
      h.labels.trans (hperm.map label).symm
    have herase := hlabels.erase (label holders[i])
    rwa [List.erase_cons_head] at herase

/-- A holder changes and keeps its label. -/
theorem InStep.update (h : InStep label holders count labels) {i : Nat} {a b : α}
    (hi : holders[i]? = some a) (hl : label b = label a) :
    InStep label (holders.set i b) count labels := by
  obtain ⟨hlt, rfl⟩ := List.getElem?_eq_some_iff.mp hi
  have hmap : (holders.set i b).map label = holders.map label := by
    have hlt' : i < (holders.map label).length := by rwa [List.length_map]
    rw [List.map_set, hl, ← List.getElem_map (h := hlt') label, List.set_getElem_self]
  constructor
  · rw [List.length_set]
    exact h.count
  · rw [hmap]
    exact h.labels

theorem InStep.nonneg (h : InStep label holders count labels) : 0 ≤ count := by
  rw [h.count]
  exact Int.natCast_nonneg _

/-- When the counter is down to 0 no label is left. -/
theorem InStep.labels_eq_nil (h : InStep label holders count labels) (hc : ¬ count > 0) :
    labels = [] := by
  have hnil : holders = [] := by
    have hlen := h.count
    exact List.length_eq_zero_iff.mp (by omega)
  have hperm := h.labels
  rw [hnil] at hperm
  exact List.perm_nil.mp hperm

end CarChain.Tally
