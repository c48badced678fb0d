import Mathlib.Data.List.Basic

/-!
# Reading lines into a buffer

A reader takes elements of a source into a buffer of limited room, up to and
including the first one that ends a line.  How a source is read until it is used
up is a relation (`Reads`): any source is read in exactly one way
(`exists_reads`, `Reads.unique`), a line that is longer than the room arrives in
pieces, and the buffers put together are the source.
-/

namespace CarChain.LineReader

variable {α : Type} (stop : α → Bool)

/-- What goes into a buffer with so much room, and what is left of the source. -/
def readBuffer : Nat → List α → List α × List α
  | 0, src => ([], src)
  | _ + 1, [] => ([], [])
  | room + 1, a :: src =>
    if stop a then ([a], src)
    else
      let r := readBuffer room src
      (a :: r.1, r.2)

/-- The source is read in these buffers: a line that ends in its buffer, a buffer
that is full before its line ends, or what is left at the end of the source. -/
inductive Reads (room : Nat) : List (List α) → List α → Prop
  | done : Reads room [] []
  | line {letters : List α} {a : α} {buffers : List (List α)} {src : List α} :
      (∀ b ∈ letters, stop b = false) → letters.length < room → stop a = true →
        Reads room buffers src → Reads room ((letters ++ [a]) :: buffers) ((letters ++ [a]) ++ src)
  | full {letters : List α} {buffers : List (List α)} {src : List α} :
      (∀ b ∈ letters, stop b = false) → letters.length = room →
        Reads room buffers src → Reads room (letters :: buffers) (letters ++ src)
  | rest {letters : List α} :
      letters ≠ [] → (∀ b ∈ letters, stop b = false) → letters.length < room →
        Reads room [letters] letters

variable {stop}

theorem readBuffer_append {letters : List α} (h : ∀ b ∈ letters, stop b = false) (room : Nat)
    (src : List α) :
    readBuffer stop (letters.length + room) (letters ++ src) =
      (letters ++ (readBuffer stop room src).1, (readBuffer stop room src).2) := by
  induction letters with
  | nil =>
    rw [List.length_nil, Nat.zero_add]
    rfl
  | cons b letters ih =>
    rw [List.forall_mem_cons] at h
    rw [List.length_cons, Nat.add_right_comm, List.cons_append, readBuffer, h.1,
      if_neg (by decide), ih h.2]
    rfl

/-- The reader takes the first buffer. -/
theorem readBuffer_reads {room : Nat} {buffer : List α} {buffers : List (List α)} {src : List α}
    (h : Reads stop room (buffer :: buffers) src) :
    ∃ src', readBuffer stop room src = (buffer, src') ∧ Reads stop room buffers src' := by
  cases h with
  | @line letters a _ src hfree hlen ha hrest =>
    obtain ⟨more, rfl⟩ : ∃ more, room = letters.length + (more + 1) :=
      ⟨room - letters.length - 1, by omega⟩
    refine ⟨src, ?_, hrest⟩
    rw [List.append_assoc, readBuffer_append hfree]
    rw [List.singleton_append, readBuffer, if_pos ha]
  | @full _ _ src hfree hlen hrest =>
    subst hlen
    refine ⟨src, ?_, hrest⟩
    rw [← Nat.add_zero buffer.length, readBuffer_append hfree]
    rw [readBuffer, List.append_nil]
  | rest hne hfree hlen =>
    obtain ⟨more, rfl⟩ : ∃ more, room = buffer.length + (more + 1) :=
      ⟨room - buffer.length - 1, by omega⟩
    refine ⟨[], ?_, .done⟩
    have happ := readBuffer_append hfree (more + 1) []
    rwa [List.append_nil, readBuffer, List.append_nil] at happ

theorem Reads.flatten {room : Nat} {buffers : List (List α)} {src : List α}
    (h : Reads stop room buffers src) : buffers.flatten = src := by
  induction h with
  | done => rfl
  | line _ _ _ _ ih => rw [List.flatten_cons, ih]
  | full _ _ _ ih => rw [List.flatten_cons, ih]
  | rest _ _ _ => rw [List.flatten_cons, List.flatten_nil, List.append_nil]

/-- No buffer is empty, and none holds more than its room. -/
theorem Reads.buffer_length {room : Nat} (hroom : 0 < room) {buffers : List (List α)}
    {src : List α} (h : Reads stop room buffers src) :
    ∀ buffer ∈ buffers, buffer ≠ [] ∧ buffer.length ≤ room := by
  induction h with
  | done =>
    intro buffer hb
    cases hb
  | line _ hlen _ _ ih =>
    rw [List.forall_mem_cons]
    refine ⟨⟨by simp, ?_⟩, ih⟩
    rw [List.length_append, List.length_singleton]
    exact hlen
  | full _ hlen _ ih =>
    rw [List.forall_mem_cons]
    refine ⟨⟨?_, Nat.le_of_eq hlen⟩, ih⟩
    rintro rfl
    rw [List.length_nil] at hlen
    omega
  | rest hne _ hlen =>
    rw [List.forall_mem_singleton]
    exact ⟨hne, Nat.le_of_lt hlen⟩

theorem Reads.src_ne_nil {room : Nat} (hroom : 0 < room) {buffer : List α}
    {buffers : List (List α)} {src : List α} (h : Reads stop room (buffer :: buffers) src) :
    src ≠ [] := by
  rintro rfl
  have hnil := h.flatten
  rw [List.flatten_cons] at hnil
  exact (h.buffer_length hroom buffer List.mem_cons_self).1 (List.append_eq_nil_iff.mp hnil).1

/-- A source is read in one way only. -/
theorem Reads.unique {room : Nat} (hroom : 0 < room) {buffers buffers' : List (List α)}
    {src : List α} (h : Reads stop room buffers src) (h' : Reads stop room buffers' src) :
    buffers = buffers' := by
  induction buffers generalizing buffers' src with
  | nil =>
    cases h
    cases buffers' with
    | nil => rfl
    | cons buffer buffers' => exact absurd rfl (h'.src_ne_nil hroom)
  | cons buffer buffers ih =>
    obtain ⟨src', hread, hrest⟩ := readBuffer_reads h
    cases buffers' with
    | nil =>
      cases h'
      exact absurd rfl (h.src_ne_nil hroom)
    | cons buffer' buffers' =>
      obtain ⟨src'', hread', hrest'⟩ := readBuffer_reads h'
      rw [hread] at hread'
      cases hread'
      rw [ih hrest hrest']

theorem no_letters : ∀ b ∈ ([] : List α), stop b = false := fun _ hb => absurd hb List.not_mem_nil

/-- The letters before the end of the first line, as far as there is room. -/
theorem split_line (room : Nat) (src : List α) :
    (∃ letters a rest, src = (letters ++ [a]) ++ rest ∧ (∀ b ∈ letters, stop b = false) ∧
      letters.length < room ∧ stop a = true) ∨
    (∃ letters rest, src = letters ++ rest ∧ (∀ b ∈ letters, stop b = false) ∧
      letters.length = room) ∨
    ((∀ b ∈ src, stop b = false) ∧ src.length < room) := by
  induction room generalizing src with
  | zero => exact Or.inr (Or.inl ⟨[], src, rfl, no_letters, rfl⟩)
  | succ room ih =>
    cases src with
    | nil => exact Or.inr (Or.inr ⟨no_letters, Nat.succ_pos room⟩)
    | cons b src =>
      cases hb : stop b with
      | true =>
        exact Or.inl ⟨[], b, src, rfl, no_letters, Nat.succ_pos room, hb⟩
      | false =>
        rcases ih src with ⟨letters, a, rest, rfl, hfree, hlen, ha⟩ |
          ⟨letters, rest, rfl, hfree, hlen⟩ | ⟨hfree, hlen⟩
        · exact Or.inl ⟨b :: letters, a, rest, rfl, List.forall_mem_cons.mpr ⟨hb, hfree⟩,
            Nat.succ_lt_succ hlen, ha⟩
        · exact Or.inr (Or.inl ⟨b :: letters, rest, rfl, List.forall_mem_cons.mpr ⟨hb, hfree⟩,
            congrArg Nat.succ hlen⟩)
        · exact Or.inr (Or.inr ⟨List.forall_mem_cons.mpr ⟨hb, hfree⟩, Nat.succ_lt_succ hlen⟩)

theorem exists_reads {room : Nat} (hroom : 0 < room) (src : List α) :
    ∃ buffers, Reads stop room buffers src := by
  induction hn : src.length using Nat.strongRecOn generalizing src with
  | ind n ih =>
    rcases split_line room src with ⟨letters, a, rest, rfl, hfree, hlen, ha⟩ |
      ⟨letters, rest, rfl, hfree, hlen⟩ | ⟨hfree, hlen⟩
    · have hshort : rest.length < n := by
        simp only [List.length_append, List.length_singleton] at hn
        omega
      obtain ⟨buffers, hrest⟩ := ih _ hshort rest rfl
      exact ⟨_, .line hfree hlen ha hrest⟩
    · have hshort : rest.length < n := by
        rw [List.length_append] at hn
        omega
      obtain ⟨buffers, hrest⟩ := ih _ hshort rest rfl
      exact ⟨_, .full hfree hlen hrest⟩
    · cases src with
      | nil => exact ⟨[], .done⟩
      | cons b src => exact ⟨[b :: src], .rest (List.cons_ne_nil b src) hfree hlen⟩

/-- Lines that fit are read one by one. -/
theorem reads_lines {room : Nat} {a : α} (ha : stop a = true) {lines : List (List α)}
    (hlines : ∀ line ∈ lines, (∀ b ∈ line, stop b = false) ∧ line.length < room)
    {buffers : List (List α)} {src : List α} (h : Reads stop room buffers src) :
    Reads stop room (lines.map (· ++ [a]) ++ buffers) (lines.flatMap (· ++ [a]) ++ src) := by
  induction lines with
  | nil => exact h
  | cons line lines ih =>
    rw [List.forall_mem_cons] at hlines
    rw [List.map_cons, List.flatMap_cons, List.cons_append, List.append_assoc]
    exact .line hlines.1.1 hlines.1.2 ha (ih hlines.2)

end CarChain.LineReader
