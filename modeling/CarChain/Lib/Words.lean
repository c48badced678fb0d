import Mathlib.Data.List.TakeWhile

/-!
# Words of a line

The words of a line are the longest runs without a delimiter.  How a line shows
its words is a relation (`Spaced`): any line is spaced to exactly one list of
words (`exists_spaced`, `Spaced.unique`), and taking the next word off a line
takes the first of them (`nextWord_cons`, `nextWord_nil`).
-/

namespace CarChain.Words

variable {α : Type} (delim : α → Bool)

/-- The next word and what follows the delimiter that ends it. -/
def nextWord (line : List α) : Option (List α × List α) :=
  match line.dropWhile delim with
  | [] => none
  | a :: rest =>
    some ((a :: rest).takeWhile (!delim ·), ((a :: rest).dropWhile (!delim ·)).tail)

/-- A word is not empty and has no delimiter in it. -/
structure IsWord (word : List α) : Prop where
  ne_nil : word ≠ []
  free : ∀ a ∈ word, delim a = false

/-- A gap is made of delimiters. -/
def IsGap (gap : List α) : Prop := ∀ a ∈ gap, delim a = true

/-- A rest that begins a gap, or the end of the line. -/
def StartsGap (rest : List α) : Prop := ∀ a ∈ rest.head?, delim a = true

instance [DecidableEq α] (word : List α) : Decidable (IsWord delim word) :=
  decidable_of_iff (word ≠ [] ∧ ∀ a ∈ word, delim a = false)
    ⟨fun h => ⟨h.1, h.2⟩, fun h => ⟨h.ne_nil, h.free⟩⟩

/-- The line shows these words, with gaps before, between and after them. -/
inductive Spaced : List (List α) → List α → Prop
  | gap {gap : List α} : IsGap delim gap → Spaced [] gap
  | word {gap word rest : List α} {words : List (List α)} :
      IsGap delim gap → IsWord delim word → StartsGap delim rest → Spaced words rest →
        Spaced (word :: words) (gap ++ (word ++ rest))

variable {delim}

/-! ## Gaps and words under `dropWhile` and `takeWhile` -/

theorem IsGap.dropWhile_append {gap : List α} (h : IsGap delim gap) (rest : List α) :
    (gap ++ rest).dropWhile delim = rest.dropWhile delim := by
  induction gap with
  | nil => rfl
  | cons a gap ih =>
    rw [List.cons_append, List.dropWhile_cons_of_pos (h a List.mem_cons_self)]
    exact ih fun b hb => h b (List.mem_cons_of_mem a hb)

theorem IsGap.dropWhile {gap : List α} (h : IsGap delim gap) : gap.dropWhile delim = [] := by
  have happ := h.dropWhile_append []
  rwa [List.append_nil] at happ

theorem takeWhile_append_word {word rest : List α} (hw : ∀ a ∈ word, delim a = false)
    (hr : StartsGap delim rest) : (word ++ rest).takeWhile (!delim ·) = word := by
  induction word with
  | nil =>
    cases rest with
    | nil => rfl
    | cons d rest =>
      have hd : delim d = true := hr d rfl
      rw [List.nil_append, List.takeWhile_cons_of_neg (by simp [hd])]
  | cons a word ih =>
    have ha : delim a = false := hw a List.mem_cons_self
    rw [List.cons_append, List.takeWhile_cons_of_pos (by simp [ha]),
      ih fun b hb => hw b (List.mem_cons_of_mem a hb)]

theorem dropWhile_append_word {word rest : List α} (hw : ∀ a ∈ word, delim a = false)
    (hr : StartsGap delim rest) : (word ++ rest).dropWhile (!delim ·) = rest := by
  have happ := List.takeWhile_append_dropWhile (p := (!delim ·)) (l := word ++ rest)
  rw [takeWhile_append_word hw hr] at happ
  exact List.append_cancel_left happ

theorem isGap_takeWhile (line : List α) : IsGap delim (line.takeWhile delim) :=
  fun _ ha => List.mem_takeWhile_imp ha

theorem startsGap_dropWhile (line : List α) :
    StartsGap delim (line.dropWhile (!delim ·)) := by
  intro a ha
  have hne : line.dropWhile (!delim ·) ≠ [] := by
    intro hnil
    rw [hnil] at ha
    cases ha
  have hhead := List.head_dropWhile_not (!delim ·) hne
  rw [List.head?_eq_some_head hne] at ha
  cases ha
  simpa using hhead

/-! ## The next word -/

theorem nextWord_gap {gap : List α} (h : IsGap delim gap) : nextWord delim gap = none := by
  unfold nextWord
  rw [h.dropWhile]

theorem nextWord_word {gap word rest : List α} (hg : IsGap delim gap) (hw : IsWord delim word)
    (hr : StartsGap delim rest) :
    nextWord delim (gap ++ (word ++ rest)) = some (word, rest.tail) := by
  obtain ⟨a, letters, rfl⟩ := List.exists_cons_of_ne_nil hw.ne_nil
  have ha : ¬delim a = true := by simp [hw.free a List.mem_cons_self]
  unfold nextWord
  rw [hg.dropWhile_append, List.cons_append, List.dropWhile_cons_of_neg ha]
  dsimp only
  rw [← List.cons_append, takeWhile_append_word hw.free hr, dropWhile_append_word hw.free hr]

/-- The delimiter that ended a word may go as well. -/
theorem Spaced.tail {words : List (List α)} {rest : List α} (h : Spaced delim words rest)
    (hr : StartsGap delim rest) : Spaced delim words rest.tail := by
  cases h with
  | gap hg => exact .gap fun a ha => hg a (List.mem_of_mem_tail ha)
  | @word gap word after words hg hw hafter hrest =>
    cases gap with
    | nil =>
      obtain ⟨a, letters, rfl⟩ := List.exists_cons_of_ne_nil hw.ne_nil
      have hpos : delim a = true := hr a rfl
      rw [hw.free a List.mem_cons_self] at hpos
      cases hpos
    | cons d gap =>
      exact .word (fun a ha => hg a (List.mem_cons_of_mem d ha)) hw hafter hrest

theorem nextWord_nil {line : List α} (h : Spaced delim [] line) : nextWord delim line = none := by
  cases h with
  | gap hg => exact nextWord_gap hg

theorem nextWord_cons {word line : List α} {words : List (List α)}
    (h : Spaced delim (word :: words) line) :
    ∃ rest, nextWord delim line = some (word, rest) ∧ Spaced delim words rest := by
  cases h with
  | @word gap _ rest _ hg hw hr hrest => exact ⟨rest.tail, nextWord_word hg hw hr, hrest.tail hr⟩

/-! ## Every line has its words -/

/-- A line shows at most one list of words. -/
theorem Spaced.unique {words words' : List (List α)} {line : List α}
    (h : Spaced delim words line) (h' : Spaced delim words' line) : words = words' := by
  induction words generalizing words' line with
  | nil =>
    cases words' with
    | nil => rfl
    | cons word words' =>
      obtain ⟨_, hnext, _⟩ := nextWord_cons h'
      rw [nextWord_nil h] at hnext
      cases hnext
  | cons word words ih =>
    obtain ⟨rest, hnext, hrest⟩ := nextWord_cons h
    cases words' with
    | nil =>
      rw [nextWord_nil h'] at hnext
      cases hnext
    | cons word' words' =>
      obtain ⟨rest', hnext', hrest'⟩ := nextWord_cons h'
      rw [hnext] at hnext'
      cases hnext'
      rw [ih hrest hrest']

theorem exists_spaced (line : List α) : ∃ words, Spaced delim words line := by
  induction hn : line.length using Nat.strong_induction_on generalizing line with
  | _ n ih =>
    have hsplit := List.takeWhile_append_dropWhile (p := delim) (l := line)
    have hgap := @isGap_takeWhile _ delim line
    cases hd : line.dropWhile delim with
    | nil =>
      rw [hd, List.append_nil] at hsplit
      exact ⟨[], .gap (hsplit ▸ hgap)⟩
    | cons a after =>
      have ha : delim a = false := by
        have hne : line.dropWhile delim ≠ [] := by simp [hd]
        have hhead := List.head_dropWhile_not delim hne
        simpa [hd] using hhead
      have hword := List.takeWhile_append_dropWhile (p := (!delim ·)) (l := a :: after)
      have hfirst : (a :: after).takeWhile (!delim ·) ≠ [] := by
        rw [List.takeWhile_cons_of_pos (by simp [ha])]
        exact List.cons_ne_nil a _
      have hshort : ((a :: after).dropWhile (!delim ·)).length < n := by
        have hle : (a :: after).length ≤ line.length := hd ▸ List.length_dropWhile_le delim line
        have hlen := congrArg List.length hword
        rw [List.length_append] at hlen
        have hpos := List.length_pos_iff.mpr hfirst
        omega
      obtain ⟨words, hrest⟩ := ih _ hshort _ rfl
      have hfree : ∀ b ∈ (a :: after).takeWhile (!delim ·), delim b = false := by
        intro b hb
        simpa using List.mem_takeWhile_imp hb
      have hspaced := Spaced.word hgap ⟨hfirst, hfree⟩ (startsGap_dropWhile _) hrest
      rw [hword, ← hd, hsplit] at hspaced
      exact ⟨_, hspaced⟩

/-- The words of a line are words and stand in it. -/
theorem Spaced.word_mem {words : List (List α)} {line : List α} (h : Spaced delim words line)
    {word : List α} (hw : word ∈ words) : IsWord delim word ∧ word <:+: line := by
  induction h with
  | gap _ => cases hw
  | @word gap first rest words _ hfirst _ _ ih =>
    rcases List.mem_cons.mp hw with rfl | hlater
    · exact ⟨hfirst, gap, rest, by rw [List.append_assoc]⟩
    · obtain ⟨hword, hin⟩ := ih hlater
      exact ⟨hword, hin.trans ⟨gap ++ first, [], by simp⟩⟩

/-! ## Lines made of words -/

theorem spaced_singleton {word : List α} (h : IsWord delim word) : Spaced delim [word] word := by
  have hnil : IsGap delim ([] : List α) := fun a ha => absurd ha List.not_mem_nil
  have hend : StartsGap delim ([] : List α) := fun a ha => by cases ha
  have hspaced := Spaced.word hnil h hend (.gap hnil)
  rwa [List.nil_append, List.append_nil] at hspaced

/-- The words with one delimiter before each. -/
def typed (d : α) (words : List (List α)) : List α := words.flatMap (d :: ·)

theorem startsGap_typed {d : α} (hd : delim d = true) (words : List (List α)) :
    StartsGap delim (typed d words) := by
  cases words with
  | nil =>
    intro a ha
    cases ha
  | cons word words =>
    intro a ha
    cases ha
    exact hd

theorem spaced_typed {d : α} (hd : delim d = true) {words : List (List α)}
    (hw : ∀ word ∈ words, IsWord delim word) : Spaced delim words (typed d words) := by
  induction words with
  | nil => exact .gap fun a ha => by cases ha
  | cons word words ih =>
    rw [List.forall_mem_cons] at hw
    have hgap : IsGap delim [d] := by
      intro a ha
      rw [List.mem_singleton.mp ha]
      exact hd
    exact .word hgap hw.1 (startsGap_typed hd words) (ih hw.2)

end CarChain.Words
