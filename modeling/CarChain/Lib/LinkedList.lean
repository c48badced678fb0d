import CarChain.Lib.BubbleSort
import CarChain.Lib.Memory
import Mathlib.Data.List.Induction
import Mathlib.Data.List.Nodup

/-!
# Singly linked lists in memory

Nodes behind handles, each with the handle of the next one or NULL.  A loop that
follows the pointers reads live nodes only and gives nothing otherwise, nor when
it has taken more steps than there ever were nodes, as it does on a cycle only.
`Linked` says that the live nodes are those from the head on, each once, and
what they hold; appending, unlinking, visiting, sorting by swaps of what the
nodes hold and freeing do on them what they do on the list.
-/

namespace CarChain.LinkedList
open CarChain.Memory

structure Node (α : Type) where
  data : α
  next : Option Nat

abbrev Heap (α : Type) := Store (Node α)

variable {α : Type}

/-! ## Writing to a node -/

/-- The entry behind a handle is replaced if there is one. -/
def set (heap : Heap α) (h : Nat) (node : Node α) : Heap α where
  next := heap.next
  entry x := if x = h then (heap.entry x).map fun _ => node else heap.entry x
  fresh x hx := by
    rw [heap.fresh x hx]
    split <;> rfl

theorem set_entry_self {heap : Heap α} {h : Nat} {old : Node α} (he : heap.entry h = some old)
    (node : Node α) : (set heap h node).entry h = some node := by
  simp [set, he]

theorem set_entry_ne (heap : Heap α) {h x : Nat} (node : Node α) (hx : x ≠ h) :
    (set heap h node).entry x = heap.entry x := if_neg hx

theorem live_set (heap : Heap α) (h : Nat) (node : Node α) (x : Nat) :
    (set heap h node).Live x ↔ heap.Live x := by
  unfold Store.Live set
  dsimp only
  split
  · cases heap.entry x <;> simp
  · exact Iff.rfl

theorem owned_set {heap : Heap α} {handles : List Nat} (ho : heap.Owned handles) (h : Nat)
    (node : Node α) : (set heap h node).Owned handles :=
  ⟨ho.nodup, fun x => (ho.mem_iff x).trans (live_set heap h node x).symm⟩

/-- `node->next = next`. -/
def setNext (heap : Heap α) (h : Nat) (next : Option Nat) : Option (Heap α) :=
  (heap.entry h).map fun node => set heap h { node with next := next }

/-! ## Segments -/

/-- The nodes from one pointer up to another one, with what they hold. -/
inductive Segment (heap : Heap α) : Option Nat → List (Nat × α) → Option Nat → Prop
  | nil {p : Option Nat} : Segment heap p [] p
  | cons {h : Nat} {a : α} {next q : Option Nat} {cells : List (Nat × α)} :
      heap.entry h = some ⟨a, next⟩ → Segment heap next cells q →
      Segment heap (some h) ((h, a) :: cells) q

variable {heap heap' : Heap α} {p q r : Option Nat} {cells cells' : List (Nat × α)}

theorem segment_nil : Segment heap p [] q ↔ p = q := by
  constructor
  · intro h
    cases h
    rfl
  · rintro rfl
    exact .nil

theorem segment_cons {cell : Nat × α} :
    Segment heap p (cell :: cells) q ↔
      ∃ next, p = some cell.1 ∧ heap.entry cell.1 = some ⟨cell.2, next⟩ ∧
        Segment heap next cells q := by
  constructor
  · intro h
    cases h with
    | cons he hs => exact ⟨_, rfl, he, hs⟩
  · rintro ⟨next, rfl, he, hs⟩
    exact .cons he hs

theorem segment_append :
    Segment heap p (cells ++ cells') r ↔
      ∃ q, Segment heap p cells q ∧ Segment heap q cells' r := by
  induction cells generalizing p with
  | nil =>
    constructor
    · intro h
      exact ⟨p, .nil, h⟩
    · rintro ⟨q, hp, hq⟩
      rw [segment_nil] at hp
      rw [hp]
      exact hq
  | cons cell cells ih =>
    rw [List.cons_append, segment_cons]
    constructor
    · rintro ⟨next, rfl, he, hs⟩
      obtain ⟨q, hc, hq⟩ := ih.mp hs
      exact ⟨q, .cons he hc, hq⟩
    · rintro ⟨q, hc, hq⟩
      obtain ⟨next, rfl, he, hs⟩ := segment_cons.mp hc
      exact ⟨next, rfl, he, ih.mpr ⟨q, hs, hq⟩⟩

/-- A segment only depends on its own nodes. -/
theorem Segment.congr (h : Segment heap p cells q)
    (he : ∀ cell ∈ cells, heap'.entry cell.1 = heap.entry cell.1) : Segment heap' p cells q := by
  induction h with
  | nil => exact .nil
  | cons hentry _ ih =>
    rw [List.forall_mem_cons] at he
    exact .cons (by rw [he.1, hentry]) (ih he.2)

theorem Segment.live (h : Segment heap p cells q) {cell : Nat × α} (hc : cell ∈ cells) :
    heap.Live cell.1 := by
  induction h with
  | nil => cases hc
  | cons hentry _ ih =>
    rcases List.mem_cons.mp hc with rfl | hc
    · exact ⟨_, hentry⟩
    · exact ih hc

theorem Segment.exists_head {last : Nat × α} (h : Segment heap p (cells ++ [last]) q) :
    ∃ x, p = some x := by
  cases cells with
  | nil => exact ⟨_, (segment_cons.mp h).choose_spec.1⟩
  | cons cell cells => exact ⟨_, (segment_cons.mp h).choose_spec.1⟩

/-- In a list without repetition the others differ from the one in the middle. -/
theorem ne_middle {front back : List (Nat × α)} {cell : Nat × α}
    (h : ((front ++ cell :: back).map Prod.fst).Nodup) : ∀ c ∈ front ++ back, c.1 ≠ cell.1 := by
  intro c hc heq
  rw [List.map_append, List.map_cons, List.nodup_middle, ← List.map_append,
    List.nodup_cons] at h
  exact h.1 (heq ▸ List.mem_map_of_mem hc)

/-- The live nodes are those of the list, each once, and hold these elements. -/
def Linked (heap : Heap α) (head : Option Nat) (l : List α) : Prop :=
  ∃ cells, Segment heap head cells none ∧ heap.Owned (cells.map Prod.fst) ∧
    cells.map Prod.snd = l

theorem linked_empty : Linked (Store.empty : Heap α) none [] :=
  ⟨[], .nil, Store.owned_empty, rfl⟩

/-- There are no more nodes than were ever made. -/
theorem length_le_next {handles : List Nat} (ho : heap.Owned handles) :
    handles.length ≤ heap.next := by
  have hsub : handles ⊆ List.range heap.next := fun x hx =>
    List.mem_range.mpr ((ho.mem_iff x).mp hx).lt_next
  have hperm := List.subperm_of_subset ho.nodup hsub
  simpa using hperm.length_le

theorem Linked.length_le {head : Option Nat} {l : List α} (h : Linked heap head l) :
    l.length ≤ heap.next := by
  obtain ⟨cells, _, ho, rfl⟩ := h
  have hlen := length_le_next ho
  rwa [List.length_map] at hlen ⊢

/-! ## Visiting -/

/-- `while (current != NULL)` over all nodes. -/
def visit (heap : Heap α) : Nat → Option Nat → Option (List α)
  | _, none => some []
  | 0, some _ => none
  | fuel + 1, some current =>
    match heap.entry current with
    | none => none
    | some node => (visit heap fuel node.next).map (node.data :: ·)

theorem visit_segment {fuel : Nat} (h : Segment heap p cells none) (hf : cells.length ≤ fuel) :
    visit heap fuel p = some (cells.map Prod.snd) := by
  induction cells generalizing p fuel with
  | nil =>
    rw [segment_nil.mp h]
    cases fuel <;> rfl
  | cons cell cells ih =>
    obtain ⟨next, rfl, he, hs⟩ := segment_cons.mp h
    cases fuel with
    | zero => exact absurd hf (Nat.not_succ_le_zero _)
    | succ fuel =>
      rw [visit, he]
      dsimp only
      rw [ih hs (Nat.le_of_succ_le_succ hf)]
      rfl

theorem visit_linked {head : Option Nat} {l : List α} (h : Linked heap head l) :
    visit heap heap.next head = some l := by
  obtain ⟨cells, hs, ho, rfl⟩ := h
  have hlen := length_le_next ho
  rw [List.length_map] at hlen
  exact visit_segment hs hlen

/-! ## Appending -/

/-- `while (current->next != NULL)`. -/
def lastNode (heap : Heap α) : Nat → Nat → Option Nat
  | 0, _ => none
  | fuel + 1, current =>
    match heap.entry current with
    | none => none
    | some node =>
      match node.next with
      | none => some current
      | some next => lastNode heap fuel next

/-- A new node behind the last one, or as the head of an empty list. -/
def append (heap : Heap α) (head : Option Nat) (a : α) : Option (Option Nat × Heap α) :=
  let made := heap.create ⟨a, none⟩
  match head with
  | none => some (some heap.next, made)
  | some h =>
    match lastNode made made.next h with
    | none => none
    | some current => (setNext made current (some heap.next)).map fun heap => (some h, heap)

theorem lastNode_segment {fuel h : Nat} {last : Nat × α}
    (hs : Segment heap (some h) (cells ++ [last]) none) (hf : cells.length < fuel) :
    lastNode heap fuel h = some last.1 := by
  induction cells generalizing h fuel with
  | nil =>
    obtain ⟨next, hh, he, hn⟩ := segment_cons.mp hs
    cases hh
    rw [segment_nil.mp hn] at he
    cases fuel with
    | zero => exact absurd hf (Nat.not_lt_zero _)
    | succ fuel =>
      rw [lastNode, he]
  | cons cell cells ih =>
    obtain ⟨next, hh, he, hn⟩ := segment_cons.mp hs
    cases hh
    cases fuel with
    | zero => exact absurd hf (Nat.not_lt_zero _)
    | succ fuel =>
      obtain ⟨x, rfl⟩ := hn.exists_head
      rw [lastNode, he]
      exact ih hn (Nat.lt_of_succ_lt_succ hf)

theorem append_linked {head : Option Nat} {l : List α} (h : Linked heap head l) (a : α) :
    ∃ head' heap', append heap head a = some (head', heap') ∧ Linked heap' head' (l ++ [a]) := by
  obtain ⟨cells, hs, ho, rfl⟩ := h
  have hmade : Segment (heap.create ⟨a, none⟩) head cells none := hs.congr fun cell hc =>
    Store.create_entry_of_lt _ _ (hs.live hc).lt_next
  have howned := ho.create ⟨a, none⟩
  have hnew : (heap.create ⟨a, none⟩).entry heap.next = some ⟨a, none⟩ :=
    Store.create_entry_self _ _
  cases cells using List.reverseRecOn with
  | nil =>
    rw [segment_nil.mp hs]
    exact ⟨_, _, rfl, [(heap.next, a)], .cons hnew .nil, howned, rfl⟩
  | append_singleton cells last =>
    obtain ⟨first, rfl⟩ := hs.exists_head
    have hlen := length_le_next ho
    rw [List.length_map, List.length_append, List.length_singleton] at hlen
    have hlast : lastNode (heap.create ⟨a, none⟩) (heap.next + 1) first = some last.1 :=
      lastNode_segment hmade (by omega)
    obtain ⟨q, hfront, hend⟩ := segment_append.mp hmade
    obtain ⟨next, rfl, he, hn⟩ := segment_cons.mp hend
    have happend : append heap (some first) a =
        some (some first, set (heap.create ⟨a, none⟩) last.1 ⟨last.2, some heap.next⟩) := by
      simp only [append, Store.create_next, hlast, setNext, he, Option.map_some]
    refine ⟨_, _, happend, cells ++ [last] ++ [(heap.next, a)], ?_, ?_, by simp⟩
    · have hnodup := ho.nodup
      rw [List.map_append, List.nodup_append] at hnodup
      have hfresh : heap.next ≠ last.1 := by
        have hlt := (hs.live (List.mem_append_right _ (List.mem_singleton_self last))).lt_next
        omega
      rw [List.append_assoc, segment_append]
      refine ⟨some last.1, hfront.congr fun cell hc => ?_, ?_⟩
      · apply set_entry_ne
        exact hnodup.2.2 _ (List.mem_map_of_mem hc) _ (List.mem_singleton_self _)
      · refine .cons (set_entry_self he _) (.cons ?_ .nil)
        rw [set_entry_ne _ _ hfresh, hnew]
    · rw [List.map_append]
      exact owned_set howned _ _

/-! ## Unlinking -/

/-- The loop that remembers `previous`, up to the first node whose element
passes the test; nothing when the test itself cannot be made. -/
def findNode (test : α → Option Bool) (heap : Heap α) :
    Nat → Option Nat → Option Nat → Option (Option (Option Nat × Nat × Node α))
  | _, _, none => some none
  | 0, _, some _ => none
  | fuel + 1, previous, some current =>
    match heap.entry current with
    | none => none
    | some node =>
      match test node.data with
      | none => none
      | some true => some (some (previous, current, node))
      | some false => findNode test heap fuel (some current) node.next

/-- The node before it, or the head, gets the next one. -/
def unlink (heap : Heap α) (head previous : Option Nat) (node : Node α) :
    Option (Option Nat × Heap α) :=
  match previous with
  | none => some (node.next, heap)
  | some prev => (setNext heap prev node.next).map fun heap => (head, heap)

/-- The last node of a segment, or what came before it. -/
def lastOf (previous : Option Nat) (front : List (Nat × α)) : Option Nat :=
  match front.getLast? with
  | none => previous
  | some cell => some cell.1

theorem lastOf_cons (previous : Option Nat) (cell : Nat × α) (front : List (Nat × α)) :
    lastOf previous (cell :: front) = lastOf (some cell.1) front := by
  cases front with
  | nil => rfl
  | cons c rest =>
    rw [lastOf, lastOf, List.getLast?_cons_cons]
    cases h : (c :: rest).getLast? with
    | none => simp at h
    | some last => rfl

/-- What the loop finds: nothing, or the first node that passes. -/
theorem findNode_segment {test : α → Option Bool} {t : α → Bool} {fuel : Nat}
    {previous : Option Nat} (hs : Segment heap p cells none)
    (ht : ∀ cell ∈ cells, test cell.2 = some (t cell.2)) (hf : cells.length ≤ fuel) :
    ((∀ cell ∈ cells, t cell.2 = false) ∧ findNode test heap fuel previous p = some none) ∨
      ∃ front cell back next, cells = front ++ cell :: back ∧
        (∀ c ∈ front, t c.2 = false) ∧ t cell.2 = true ∧
        heap.entry cell.1 = some ⟨cell.2, next⟩ ∧
        findNode test heap fuel previous p =
          some (some (lastOf previous front, cell.1, ⟨cell.2, next⟩)) := by
  induction cells generalizing p fuel previous with
  | nil =>
    rw [segment_nil.mp hs]
    exact Or.inl ⟨fun _ hc => absurd hc List.not_mem_nil, by cases fuel <;> rfl⟩
  | cons cell cells ih =>
    obtain ⟨next, rfl, he, hn⟩ := segment_cons.mp hs
    rw [List.forall_mem_cons] at ht
    cases fuel with
    | zero => exact absurd hf (Nat.not_succ_le_zero _)
    | succ fuel =>
      have hstep : findNode test heap (fuel + 1) previous (some cell.1) =
          if t cell.2 then some (some (previous, cell.1, ⟨cell.2, next⟩))
          else findNode test heap fuel (some cell.1) next := by
        rw [findNode, he]
        dsimp only
        rw [ht.1]
        cases t cell.2 <;> rfl
      rw [hstep]
      cases htest : t cell.2 with
      | true => exact Or.inr ⟨[], cell, cells, next, rfl, fun _ hc => absurd hc List.not_mem_nil,
          htest, he, rfl⟩
      | false =>
        rcases ih hn ht.2 (Nat.le_of_succ_le_succ hf) with ⟨hall, hfind⟩ |
          ⟨front, hit, back, n, rfl, hfront, hhit, hentry, hfind⟩
        · exact Or.inl ⟨List.forall_mem_cons.mpr ⟨htest, hall⟩, hfind⟩
        · refine Or.inr ⟨cell :: front, hit, back, n, rfl,
            List.forall_mem_cons.mpr ⟨htest, hfront⟩, hhit, hentry, ?_⟩
          rw [lastOf_cons]
          exact hfind

/-- The node is unlinked and freed: the others stay. -/
theorem unlink_linked {head : Option Nat} {front back : List (Nat × α)} {cell : Nat × α}
    {next : Option Nat} (hs : Segment heap head (front ++ cell :: back) none)
    (ho : heap.Owned ((front ++ cell :: back).map Prod.fst))
    (he : heap.entry cell.1 = some ⟨cell.2, next⟩) :
    ∃ head' heap' freed, unlink heap head (lastOf none front) ⟨cell.2, next⟩ =
        some (head', heap') ∧ heap'.release cell.1 = some freed ∧
      Linked freed head' ((front ++ back).map Prod.snd) := by
  obtain ⟨q, hfront, hrest⟩ := segment_append.mp hs
  obtain ⟨next', rfl, he', hback⟩ := segment_cons.mp hrest
  rw [he] at he'
  cases he'
  have hperm : ((front ++ cell :: back).map Prod.fst).Perm
      (cell.1 :: (front ++ back).map Prod.fst) := by
    have hmid : (front ++ cell :: back).Perm (cell :: (front ++ back)) := List.perm_middle
    exact hmid.map Prod.fst
  have hnot := ne_middle ho.nodup
  cases front using List.reverseRecOn with
  | nil =>
    obtain ⟨hrel, howned⟩ := ho.release hperm
    refine ⟨next, heap, _, rfl, hrel, back, ?_, howned, rfl⟩
    exact hback.congr fun c hc => Store.destroy_entry_ne heap (hnot c (List.mem_append_right _ hc))
  | append_singleton front last =>
    obtain ⟨q, hinit, hlast⟩ := segment_append.mp hfront
    obtain ⟨n, rfl, hel, hn⟩ := segment_cons.mp hlast
    rw [segment_nil.mp hn] at hel
    have hprev : lastOf none (front ++ [last]) = some last.1 := by
      rw [lastOf, List.getLast?_concat]
    have hunlink : unlink heap head (some last.1) ⟨cell.2, next⟩ =
        some (head, set heap last.1 ⟨last.2, next⟩) := by
      simp only [unlink, setNext, hel, Option.map_some]
    obtain ⟨hrel, howned⟩ := (owned_set ho last.1 ⟨last.2, next⟩).release hperm
    refine ⟨head, _, _, hprev ▸ hunlink, hrel, front ++ [last] ++ back, ?_, howned, rfl⟩
    have hkeep : ∀ c ∈ front ++ back,
        ((set heap last.1 ⟨last.2, next⟩).destroy cell.1).entry c.1 = heap.entry c.1 := by
      intro c hc
      have hsub : (front ++ back).Sublist (front ++ [last] ++ back) := by
        rw [List.append_assoc]
        exact (List.sublist_append_right [last] back).append_left front
      have hrest := (List.nodup_cons.mp (hperm.nodup_iff.mp ho.nodup)).2
      rw [List.append_assoc, List.singleton_append] at hrest
      rw [Store.destroy_entry_ne _ (hnot c (hsub.subset hc)),
        set_entry_ne _ _ (ne_middle hrest c hc)]
    have hnew : ((set heap last.1 ⟨last.2, next⟩).destroy cell.1).entry last.1 =
        some ⟨last.2, next⟩ := by
      rw [Store.destroy_entry_ne _ (hnot last (by simp)), set_entry_self hel]
    rw [List.append_assoc, segment_append]
    refine ⟨some last.1, hinit.congr fun c hc => hkeep c (List.mem_append_left _ hc), ?_⟩
    exact .cons hnew (hback.congr fun c hc => hkeep c (List.mem_append_right _ hc))

/-! ## Sorting by swaps -/

/-- One pass of adjacent swaps of what the nodes hold: whether one was made. -/
def passNodes (key : α → Option Int) :
    Nat → Heap α → Option Nat → Option (Bool × Heap α)
  | _, heap, none => some (false, heap)
  | 0, _, some _ => none
  | fuel + 1, heap, some current =>
    match heap.entry current with
    | none => none
    | some node =>
      match node.next with
      | none => some (false, heap)
      | some next =>
        match heap.entry next with
        | none => none
        | some node' =>
          match key node.data, key node'.data with
          | some k, some k' =>
            if k > k' then
              let heap := set heap current { node with data := node'.data }
              let heap := set heap next { node' with data := node.data }
              (passNodes key fuel heap (some next)).map fun r => (true, r.2)
            else passNodes key fuel heap (some next)
          | _, _ => none

/-- Passes up to the first one without a swap, at most `passes` of them. -/
def sortNodes (key : α → Option Int) : Nat → Heap α → Option Nat → Option (Heap α)
  | 0, _, _ => none
  | passes + 1, heap, head =>
    match passNodes key heap.next heap head with
    | none => none
    | some (swapped, heap) => if swapped then sortNodes key passes heap head else some heap

/-- What a pass leaves alone: the handles, the pointers and the other nodes. -/
structure Passed (heap heap' : Heap α) (handles : List Nat) : Prop where
  next : heap'.next = heap.next
  live : ∀ x, heap'.Live x ↔ heap.Live x
  frame : ∀ x, x ∉ handles → heap'.entry x = heap.entry x

/-- One step of a pass, on two live neighbours. -/
theorem passNodes_neighbours {key : α → Option Int} {ka kb : Int} {fuel h h₂ : Nat} {a b : α}
    {next₂ : Option Nat} (he : heap.entry h = some ⟨a, some h₂⟩)
    (he₂ : heap.entry h₂ = some ⟨b, next₂⟩) (hka : key a = some ka) (hkb : key b = some kb) :
    passNodes key (fuel + 1) heap (some h) =
      if ka > kb then
        (passNodes key fuel (set (set heap h ⟨b, some h₂⟩) h₂ ⟨a, next₂⟩) (some h₂)).map
          fun r => (true, r.2)
      else passNodes key fuel heap (some h₂) := by
  rw [passNodes, he]
  dsimp only
  rw [he₂]
  dsimp only
  rw [hka, hkb]

/-- After a swap the second neighbour begins the segment that is left. -/
theorem Segment.swap {h h₂ : Nat} {a b : α} {next₂ : Option Nat}
    (he₂ : heap.entry h₂ = some ⟨b, next₂⟩) (hne : h ≠ h₂) (hrest : Segment heap next₂ cells q)
    (hn : h ∉ cells.map Prod.fst) (hn₂ : h₂ ∉ cells.map Prod.fst) :
    Segment (set (set heap h ⟨b, some h₂⟩) h₂ ⟨a, next₂⟩) (some h₂) ((h₂, a) :: cells) q := by
  have he₂' : (set heap h ⟨b, some h₂⟩).entry h₂ = some ⟨b, next₂⟩ := by
    rw [set_entry_ne _ _ (Ne.symm hne), he₂]
  refine .cons (set_entry_self he₂' _) (hrest.congr fun c hc => ?_)
  have hmem := List.mem_map_of_mem (f := Prod.fst) hc
  have hch : c.1 ≠ h := fun heq => hn (heq ▸ hmem)
  have hch₂ : c.1 ≠ h₂ := fun heq => hn₂ (heq ▸ hmem)
  rw [set_entry_ne _ _ hch₂, set_entry_ne _ _ hch]

theorem passNodes_segment {key : α → Option Int} {k : α → Int} {rest : List (Nat × α)}
    {heap : Heap α} {h fuel : Nat} {a : α} (hs : Segment heap (some h) ((h, a) :: rest) none)
    (hn : (h :: rest.map Prod.fst).Nodup) (hf : rest.length < fuel)
    (hk : ∀ x ∈ a :: rest.map Prod.snd, key x = some (k x)) :
    ∃ heap' out, passNodes key fuel heap (some h) =
        some ((BubbleSort.passFrom k a (rest.map Prod.snd)).1, heap') ∧
      Segment heap' (some h) out none ∧ out.map Prod.fst = h :: rest.map Prod.fst ∧
      out.map Prod.snd = (BubbleSort.passFrom k a (rest.map Prod.snd)).2 ∧
      Passed heap heap' (h :: rest.map Prod.fst) := by
  induction rest generalizing heap h a fuel with
  | nil =>
    obtain ⟨next, _, he, hnil⟩ := segment_cons.mp hs
    rw [segment_nil.mp hnil] at he
    cases fuel with
    | zero => exact absurd hf (Nat.not_lt_zero _)
    | succ fuel =>
      refine ⟨heap, [(h, a)], ?_, hs, rfl, rfl, rfl, fun _ => Iff.rfl, fun _ _ => rfl⟩
      rw [passNodes, he]
      rfl
  | cons cell rest ih =>
    obtain ⟨h₂, b⟩ := cell
    obtain ⟨next, _, he, hs₂⟩ := segment_cons.mp hs
    obtain ⟨next₂, rfl, he₂, hrest⟩ := segment_cons.mp hs₂
    dsimp only at he he₂
    rw [List.map_cons, List.nodup_cons] at hn
    obtain ⟨hnot, hn⟩ := hn
    have hne : h ≠ h₂ := fun heq => hnot (heq ▸ List.mem_cons_self)
    rw [List.map_cons, List.forall_mem_cons, List.forall_mem_cons] at hk
    obtain ⟨hka, hkb, hkrest⟩ := hk
    cases fuel with
    | zero => exact absurd hf (Nat.not_lt_zero _)
    | succ fuel =>
      have hf' : rest.length < fuel := Nat.lt_of_succ_lt_succ hf
      rw [passNodes_neighbours he he₂ hka hkb]
      by_cases hgt : k a > k b
      · -- the swap: the rest of the pass starts from the node that now holds `a`
        have hswapped : Segment (set (set heap h ⟨b, some h₂⟩) h₂ ⟨a, next₂⟩) (some h₂)
            ((h₂, a) :: rest) none :=
          hrest.swap he₂ hne (fun hmem => hnot (List.mem_cons_of_mem _ hmem))
            (List.nodup_cons.mp hn).1
        obtain ⟨heap', out, hpass, hseg, hfst, hsnd, hkept⟩ := ih hswapped hn hf'
          (List.forall_mem_cons.mpr ⟨hka, hkrest⟩)
        have hentry : heap'.entry h = some ⟨b, some h₂⟩ := by
          rw [hkept.frame h hnot, set_entry_ne _ _ hne, set_entry_self he]
        refine ⟨heap', (h, b) :: out, ?_, .cons hentry hseg, ?_, ?_, hkept.next, fun x => ?_,
          fun x hx => ?_⟩
        · rw [if_pos hgt, hpass, List.map_cons, BubbleSort.passFrom, if_pos hgt]
          rfl
        · rw [List.map_cons, hfst, List.map_cons]
        · rw [List.map_cons, hsnd, List.map_cons, BubbleSort.passFrom, if_pos hgt]
        · rw [hkept.live, live_set, live_set]
        · rw [List.map_cons, List.mem_cons, not_or] at hx
          have hne₂ : x ≠ h₂ := by
            rintro rfl
            exact hx.2 List.mem_cons_self
          rw [hkept.frame x hx.2, set_entry_ne _ _ hne₂, set_entry_ne _ _ hx.1]
      · obtain ⟨heap', out, hpass, hseg, hfst, hsnd, hkept⟩ := ih hs₂ hn hf'
          (List.forall_mem_cons.mpr ⟨hkb, hkrest⟩)
        have hentry : heap'.entry h = some ⟨a, some h₂⟩ := by
          rw [hkept.frame h hnot, he]
        refine ⟨heap', (h, a) :: out, ?_, .cons hentry hseg, ?_, ?_, hkept.next, hkept.live,
          fun x hx => ?_⟩
        · rw [if_neg hgt, hpass, List.map_cons, BubbleSort.passFrom, if_neg hgt]
        · rw [List.map_cons, hfst, List.map_cons]
        · rw [List.map_cons, hsnd, List.map_cons, BubbleSort.passFrom, if_neg hgt]
        · rw [List.map_cons, List.mem_cons, not_or] at hx
          exact hkept.frame x hx.2

theorem passNodes_linked {key : α → Option Int} {k : α → Int} {head : Option Nat} {l : List α}
    (h : Linked heap head l) (hk : ∀ x ∈ l, key x = some (k x)) :
    ∃ heap', passNodes key heap.next heap head = some ((BubbleSort.pass k l).1, heap') ∧
      Linked heap' head (BubbleSort.pass k l).2 ∧ heap'.next = heap.next := by
  obtain ⟨cells, hs, ho, rfl⟩ := h
  cases cells with
  | nil =>
    rw [segment_nil.mp hs]
    refine ⟨heap, ?_, ⟨[], .nil, ho, rfl⟩, rfl⟩
    cases heap.next <;> rfl
  | cons cell cells =>
    obtain ⟨n, rfl, _, _⟩ := segment_cons.mp hs
    have hlen := length_le_next ho
    rw [List.length_map, List.length_cons] at hlen
    obtain ⟨heap', out, hpass, hseg, hfst, hsnd, hkept⟩ :=
      passNodes_segment hs ho.nodup hlen hk
    refine ⟨heap', hpass, ⟨out, hseg, ?_, hsnd⟩, hkept.next⟩
    rw [hfst]
    exact ⟨ho.nodup, fun x => (ho.mem_iff x).trans (hkept.live x).symm⟩

theorem inversions_le (k : α → Int) (l : List α) :
    BubbleSort.inversions k l ≤ l.length * l.length := by
  induction l with
  | nil => exact Nat.le_refl 0
  | cons a l ih =>
    have hcount := List.countP_le_length (p := fun b => decide (k b < k a)) (l := l)
    rw [BubbleSort.inversions, List.length_cons, Nat.succ_mul, Nat.mul_succ]
    omega

/-- The passes come to an end on every linked list, with the elements sorted. -/
theorem sortNodes_linked {key : α → Option Int} {k : α → Int} {head : Option Nat} {l : List α}
    {passes : Nat} (h : Linked heap head l) (hk : ∀ x ∈ l, key x = some (k x))
    (hp : BubbleSort.inversions k l < passes) :
    ∃ heap', sortNodes key passes heap head = some heap' ∧
      Linked heap' head (BubbleSort.sort k l) := by
  suffices hloop : ∃ heap', sortNodes key passes heap head = some heap' ∧
      Linked heap' head (BubbleSort.loop k passes l) by
    rwa [(BubbleSort.runs_iff k l _).mp (BubbleSort.runs_loop k passes l hp)] at hloop
  induction passes generalizing heap l with
  | zero => exact absurd hp (Nat.not_lt_zero _)
  | succ passes ih =>
    obtain ⟨heap', hpass, hlinked, _⟩ := passNodes_linked h hk
    rw [sortNodes, hpass, BubbleSort.loop]
    dsimp only
    cases hsw : (BubbleSort.pass k l).1 with
    | false => exact ⟨heap', rfl, hlinked⟩
    | true =>
      have hlt := BubbleSort.pass_inversions_lt k l hsw
      have hk' : ∀ x ∈ (BubbleSort.pass k l).2, key x = some (k x) :=
        fun x hx => hk x ((BubbleSort.pass_perm k l).mem_iff.mp hx)
      exact ih hlinked hk' (by omega)

/-! ## Freeing -/

variable {σ : Type}

/-- `next = current->next`, what the node holds is released, the node is freed. -/
def freeNodes (release : σ → α → Option σ) :
    Nat → σ → Heap α → Option Nat → Option (σ × Heap α)
  | _, s, heap, none => some (s, heap)
  | 0, _, _, some _ => none
  | fuel + 1, s, heap, some current =>
    match heap.entry current with
    | none => none
    | some node =>
      match release s node.data with
      | none => none
      | some s =>
        match heap.release current with
        | none => none
        | some heap => freeNodes release fuel s heap node.next

theorem freeNodes_segment {release : σ → α → Option σ} {fuel : Nat} {s s' : σ}
    (hs : Segment heap p cells none) (ho : heap.Owned (cells.map Prod.fst))
    (hf : cells.length ≤ fuel) (hr : (cells.map Prod.snd).foldlM release s = some s') :
    ∃ heap', freeNodes release fuel s heap p = some (s', heap') ∧ ∀ x, ¬heap'.Live x := by
  induction cells generalizing heap p fuel s with
  | nil =>
    cases hr
    rw [segment_nil.mp hs]
    refine ⟨heap, by cases fuel <;> rfl, fun x hx => ?_⟩
    exact absurd ((ho.mem_iff x).mpr hx) List.not_mem_nil
  | cons cell cells ih =>
    obtain ⟨next, rfl, he, hn⟩ := segment_cons.mp hs
    rw [List.map_cons, List.foldlM_cons] at hr
    obtain ⟨s₁, h₁, h₂⟩ := Option.bind_eq_some_iff.mp hr
    cases fuel with
    | zero => exact absurd hf (Nat.not_succ_le_zero _)
    | succ fuel =>
      obtain ⟨hrel, howned⟩ := ho.release (List.Perm.refl _)
      have hne : ∀ c ∈ cells, c.1 ≠ cell.1 := by
        intro c hc heq
        exact (List.nodup_cons.mp ho.nodup).1 (heq ▸ List.mem_map_of_mem hc)
      have hrest : Segment (heap.destroy cell.1) next cells none :=
        hn.congr fun c hc => Store.destroy_entry_ne heap (hne c hc)
      obtain ⟨heap', hfree, hdead⟩ := ih hrest howned (Nat.le_of_succ_le_succ hf) h₂
      refine ⟨heap', ?_, hdead⟩
      rw [freeNodes, he]
      dsimp only
      rw [h₁]
      dsimp only
      rw [hrel]
      exact hfree

theorem freeNodes_linked {release : σ → α → Option σ} {head : Option Nat} {l : List α} {s s' : σ}
    (h : Linked heap head l) (hr : l.foldlM release s = some s') :
    ∃ heap', freeNodes release heap.next s heap head = some (s', heap') ∧
      ∀ x, ¬heap'.Live x := by
  obtain ⟨cells, hs, ho, rfl⟩ := h
  have hlen := length_le_next ho
  rw [List.length_map] at hlen
  exact freeNodes_segment hs ho hlen hr

end CarChain.LinkedList
