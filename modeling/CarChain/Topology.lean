import CarChain.Names
import CarChain.Watcher
import Mathlib.Data.Finset.Card

/-!
# One chain for all parties

The servers' `chain_watcher`, the start of the servers' `main` and the client's
`chain_watcher` each sort and search the children of `/chain` for themselves.
On listings of the same set, in whatever order each party got it, the servers'
successors and predecessors and the client's head and tail are those of one
chain (`parties_agree`).
-/

namespace CarChain.Topology
open CarChain.Record CarChain.Names CarChain.Neighbours CarChain.Watcher

section Parties

variable {Name : Type} [LinearOrder Name]

/-- The child `main` synchronises from: the one before the own node, if any. -/
def predecessor (myNodeName : Name) (children : List Name) : Option Name :=
  let sorted := sortChildren children
  match myIndex myNodeName sorted with
  | some (i + 1) => sorted[i]?
  | _ => none

/-- The first and the last child, as the client's `chain_watcher` takes them. -/
def headAndTail (children : List Name) : Option Name × Option Name :=
  if children.length = 0 then (none, none)
  else
    let sorted := sortChildren children
    (sorted[0]?, sorted[children.length - 1]?)

/-- What ZooKeeper returns for the children `S`: each of them once, in any order. -/
structure Listing (S : Finset Name) where
  children : List Name
  nodup : children.Nodup
  mem : ∀ c, c ∈ children ↔ c ∈ S

/-! ## Each party reads the order of the names -/

variable {S : Finset Name}

omit [LinearOrder Name] in
theorem Listing.coe (l : Listing S) : {c | c ∈ l.children} = (S : Set Name) :=
  Set.ext fun c => l.mem c

theorem Listing.coe_sort (l : Listing S) : {c | c ∈ sortChildren l.children} = (S : Set Name) :=
  Set.ext fun c => mem_sortChildren.trans (l.mem c)

theorem Listing.place_tail (l : Listing S) {s : Name} (h : s ∈ S) :
    place s l.children = .tail ↔ IsGreatest (S : Set Name) s :=
  l.coe ▸ place_eq_tail l.nodup ((l.mem s).mpr h)

theorem Listing.place_hasSuccessor (l : Listing S) {s t : Name} (h : s ∈ S) :
    place s l.children = .hasSuccessor t ↔ Next (S : Set Name) s t :=
  l.coe ▸ place_eq_hasSuccessor l.nodup ((l.mem s).mpr h)

theorem Listing.predecessor_none (l : Listing S) {s : Name} (h : s ∈ S) :
    predecessor s l.children = none ↔ IsLeast (S : Set Name) s := by
  obtain ⟨i, hi⟩ := exists_myIndex (mem_sortChildren.mpr ((l.mem s).mpr h))
  have hsort := sortChildren_sortedLT l.nodup
  have hs := myIndex_eq_some hi
  have hz := zero_iff_isLeast hsort hs
  rw [l.coe_sort] at hz
  rw [← hz, predecessor, hi]
  cases i with
  | zero => simp
  | succ j =>
    have hj : j < (sortChildren l.children).length := by
      have := (List.getElem?_eq_some_iff.mp hs).1
      omega
    simp [List.getElem?_eq_getElem hj]

theorem Listing.predecessor_some (l : Listing S) {s t : Name} (h : t ∈ S) :
    predecessor t l.children = some s ↔ Prev (S : Set Name) t s := by
  obtain ⟨i, hi⟩ := exists_myIndex (mem_sortChildren.mpr ((l.mem t).mpr h))
  have hsort := sortChildren_sortedLT l.nodup
  have ht := myIndex_eq_some hi
  rw [predecessor, hi]
  cases i with
  | zero =>
    have hl := (zero_iff_isLeast hsort ht).mp rfl
    rw [l.coe_sort] at hl
    simp only [reduceCtorEq, false_iff]
    intro hp
    exact absurd hp.1.2 (not_lt.mpr (hl.2 hp.1.1))
  | succ j =>
    show (sortChildren l.children)[j]? = some s ↔ _
    constructor
    · intro hs
      have hn := (getElem?_succ_eq_some hsort hs t).mp ht
      rw [l.coe_sort] at hn
      have hmem : s ∈ S := (l.mem s).mp (mem_sortChildren.mp (List.mem_of_getElem? hs))
      exact (next_iff_prev hmem h).mp hn
    · intro hp
      have hj : j < (sortChildren l.children).length := by
        have := (List.getElem?_eq_some_iff.mp ht).1
        omega
      have hs := List.getElem?_eq_getElem hj
      have hn := (getElem?_succ_eq_some hsort hs t).mp ht
      rw [l.coe_sort] at hn
      have hmem := (l.mem _).mp (mem_sortChildren.mp (List.mem_of_getElem? hs))
      rw [hs, IsGreatest.unique ((next_iff_prev hmem h).mp hn) hp]

/-- The client's head is the least child and its tail the greatest. -/
theorem Listing.headAndTail_eq (l : Listing S) (hS : S.Nonempty) :
    ∃ head tail, headAndTail l.children = (some head, some tail) ∧
      IsLeast (S : Set Name) head ∧ IsGreatest (S : Set Name) tail := by
  have hsort := sortChildren_sortedLT l.nodup
  have hlen : (sortChildren l.children).length = l.children.length :=
    List.length_insertionSort _ _
  obtain ⟨c, hc⟩ := hS
  have hpos : 0 < l.children.length := List.length_pos_of_mem ((l.mem c).mpr hc)
  have hh := List.getElem?_eq_getElem (hlen ▸ hpos : 0 < (sortChildren l.children).length)
  have ht := List.getElem?_eq_getElem
    (by omega : l.children.length - 1 < (sortChildren l.children).length)
  have hleast := (zero_iff_isLeast hsort hh).mp rfl
  have hgreatest := (getElem?_succ_eq_none hsort ht).mp (List.getElem?_eq_none (by omega))
  rw [l.coe_sort] at hleast hgreatest
  refine ⟨_, _, ?_, hleast, hgreatest⟩
  rw [headAndTail, if_neg (by omega)]
  exact Prod.ext hh ht

/-! ## Following the successors -/

/-- The successor of a place, if it has one. -/
def next : Place Name → Option Name
  | .hasSuccessor t => some t
  | _ => none

/-- All parties sort to the same list. -/
theorem Listing.sort_eq (l l' : Listing S) :
    sortChildren l.children = sortChildren l'.children := by
  have hp : l.children.Perm l'.children :=
    (List.perm_ext_iff_of_nodup l.nodup l'.nodup).mpr fun c => (l.mem c).trans (l'.mem c).symm
  have hp' : (sortChildren l.children).Perm (sortChildren l'.children) :=
    (List.perm_insertionSort _ _).trans (hp.trans (List.perm_insertionSort _ _).symm)
  exact hp'.eq_of_sortedLE List.sortedLE_insertionSort List.sortedLE_insertionSort

theorem Listing.next_place (l l' : Listing S) {i : Nat} {s : Name}
    (h : (sortChildren l.children)[i]? = some s) :
    next (place s l'.children) = (sortChildren l.children)[i + 1]? := by
  have hmem := List.mem_of_getElem? h
  rw [l.sort_eq l'] at h hmem ⊢
  obtain ⟨j, hj, hp⟩ := place_of_mem (mem_sortChildren.mp hmem)
  have hsort := sortChildren_sortedLT l'.nodup
  have hij : i = j := by
    have h1 := lt_iff_lt hsort h hj
    have h2 := lt_iff_lt hsort hj h
    simp only [lt_irrefl, false_iff] at h1 h2
    omega
  subst hij
  rw [hp]
  cases (sortChildren l'.children)[i + 1]? <;> rfl

/-- From the least child on, the successors are all the children in order. -/
theorem Listing.follow_eq (l : Listing S) {succ : Name → Option Name}
    (hs : ∀ s ∈ S, ∃ l' : Listing S, succ s = next (place s l'.children)) {head : Name}
    (hh : IsLeast (S : Set Name) head) : follow succ S.card head = sortChildren l.children := by
  have hsort := sortChildren_sortedLT l.nodup
  obtain ⟨i, hi⟩ := List.mem_iff_getElem?.mp (mem_sortChildren.mpr ((l.mem head).mpr hh.1))
  have hz := zero_iff_isLeast hsort hi
  rw [l.coe_sort] at hz
  obtain rfl := hz.mpr hh
  have hcard : l.children.length = S.card := by
    rw [← List.toFinset_card_of_nodup l.nodup]
    congr 1
    ext c
    rw [List.mem_toFinset, l.mem]
  have hlen : (sortChildren l.children).length = l.children.length :=
    List.length_insertionSort _ _
  have hnext : ∀ i s, (sortChildren l.children)[i]? = some s →
      succ s = (sortChildren l.children)[i + 1]? := by
    intro i s h
    obtain ⟨l', hl'⟩ := hs s ((l.mem s).mp (mem_sortChildren.mp (List.mem_of_getElem? h)))
    rw [hl', l.next_place l' h]
  rw [follow_eq_drop hnext hi (by omega), List.drop_zero]

end Parties
/-! ## The parties of the chain

A server knows the path of its own node. -/

variable {S : Finset CString}

/-- The branch a server's `chain_watcher` takes. -/
def serverPlace (myNodePath : CString) (children : List CString) : Place CString :=
  place (myNodeName myNodePath) children

/-- The predecessor a server's `main` finds. -/
def mainPredecessor (myNodePath : CString) (children : List CString) : Option CString :=
  predecessor (myNodeName myNodePath) children

/-- The successor of a server, found in its own listing. -/
def serverNext (watcher : CString → Listing S) (s : CString) : Option CString :=
  next (serverPlace (nodePath s) (watcher s).children)

/-- The views of one chain: its head and tail are those of the client, each
server's watcher and `main` listed the children on their own. -/
structure SameChain (S : Finset CString) (watcher main : CString → Listing S)
    (client : Listing S) (head tail : CString) : Prop where
  client : headAndTail client.children = (some head, some tail)
  head_mem : head ∈ S
  tail_mem : tail ∈ S
  tail_iff : ∀ s ∈ S, serverPlace (nodePath s) (watcher s).children = .tail ↔ s = tail
  head_iff : ∀ s ∈ S, mainPredecessor (nodePath s) (main s).children = none ↔ s = head
  successor_iff : ∀ s ∈ S, ∀ t ∈ S,
    serverPlace (nodePath s) (watcher s).children = .hasSuccessor t ↔
      mainPredecessor (nodePath t) (main t).children = some s
  successor_mem : ∀ s ∈ S, ∀ t,
    serverPlace (nodePath s) (watcher s).children = .hasSuccessor t → t ∈ S
  predecessor_mem : ∀ t ∈ S, ∀ s,
    mainPredecessor (nodePath t) (main t).children = some s → s ∈ S
  visits_nodup : (follow (serverNext watcher) S.card head).Nodup
  visits_mem : ∀ s, s ∈ follow (serverNext watcher) S.card head ↔ s ∈ S
  visits_last : (follow (serverNext watcher) S.card head).getLast? = some tail

theorem serverPlace_nodePath {s : CString} (h : IsNodeName s) (children : List CString) :
    serverPlace (nodePath s) children = place s children := by
  rw [serverPlace, myNodeName_nodePath h]

theorem mainPredecessor_nodePath {s : CString} (h : IsNodeName s) (children : List CString) :
    mainPredecessor (nodePath s) children = predecessor s children := by
  rw [mainPredecessor, myNodeName_nodePath h]

theorem sameChain (hS : S.Nonempty) (hn : ∀ s ∈ S, IsNodeName s)
    (watcher main : CString → Listing S) (client : Listing S) :
    ∃ head tail, SameChain S watcher main client head tail := by
  obtain ⟨head, tail, hc, hl, hg⟩ := client.headAndTail_eq hS
  have hw : follow (serverNext watcher) S.card head = sortChildren client.children := by
    apply client.follow_eq _ hl
    intro s hs
    exact ⟨watcher s, by rw [serverNext, serverPlace_nodePath (hn s hs)]⟩
  have hsort := sortChildren_sortedLT client.nodup
  refine ⟨head, tail, hc, hl.1, hg.1, ?_, ?_, ?_, ?_, ?_, ?_, ?_, ?_⟩
  · intro s hs
    rw [serverPlace_nodePath (hn s hs), Listing.place_tail _ hs]
    exact ⟨fun h => h.unique hg, fun h => h ▸ hg⟩
  · intro s hs
    rw [mainPredecessor_nodePath (hn s hs), Listing.predecessor_none _ hs]
    exact ⟨fun h => h.unique hl, fun h => h ▸ hl⟩
  · intro s hs t ht
    rw [serverPlace_nodePath (hn s hs), mainPredecessor_nodePath (hn t ht),
      Listing.place_hasSuccessor _ hs, Listing.predecessor_some _ ht]
    exact next_iff_prev hs ht
  · intro s hs t h
    rw [serverPlace_nodePath (hn s hs), Listing.place_hasSuccessor _ hs] at h
    exact h.mem
  · intro t ht s h
    rw [mainPredecessor_nodePath (hn t ht), Listing.predecessor_some _ ht] at h
    exact h.1.1
  · rw [hw]
    exact hsort.nodup
  · intro s
    rw [hw, mem_sortChildren]
    exact client.mem s
  · rw [hw, List.getLast?_eq_getElem?]
    have hlen : (sortChildren client.children).length = client.children.length :=
      List.length_insertionSort _ _
    have hne : client.children.length ≠ 0 := by
      intro h0
      rw [headAndTail, if_pos h0] at hc
      cases hc
    rw [headAndTail, if_neg hne] at hc
    rw [hlen]
    exact (Prod.mk.inj hc).2

/-- A node with a larger number comes after the old tail and behind no other. -/
theorem serverPlace_insert (hn : ∀ s ∈ S, IsNodeName s) {x : CString} (hx : IsNodeName x)
    (hlt : ∀ s ∈ S, number s < number x) (before : Listing S) (after : Listing (insert x S))
    {s : CString} (hs : s ∈ S) :
    serverPlace (nodePath s) after.children =
      if serverPlace (nodePath s) before.children = .tail then .hasSuccessor x
      else serverPlace (nodePath s) before.children := by
  have hxS : ∀ c ∈ (S : Set CString), c < x :=
    fun c hc => (lt_iff_number_lt (hn c hc) hx).mpr (hlt c hc)
  have hs' : s ∈ insert x S := Finset.mem_insert_of_mem hs
  rw [serverPlace_nodePath (hn s hs), serverPlace_nodePath (hn s hs)]
  cases hp : place s before.children with
  | notFound => exact absurd hp (place_ne_notFound ((before.mem s).mpr hs))
  | tail =>
    rw [if_pos rfl, Listing.place_hasSuccessor _ hs', Finset.coe_insert,
      next_insert_top hxS hs]
    exact Or.inr ⟨(before.place_tail hs).mp hp, rfl⟩
  | hasSuccessor t =>
    rw [if_neg (by simp), Listing.place_hasSuccessor _ hs', Finset.coe_insert,
      next_insert_top hxS hs]
    exact Or.inl ((before.place_hasSuccessor hs).mp hp)

/-- Only a server whose successor went has another one. -/
theorem serverPlace_sdiff (hn : ∀ s ∈ S, IsNodeName s) {R : Finset CString}
    (before : Listing S) (after : Listing (S \ R)) {s : CString} (hs : s ∈ S \ R)
    (hne : serverPlace (nodePath s) after.children ≠ serverPlace (nodePath s) before.children) :
    ∃ t ∈ R, serverPlace (nodePath s) before.children = .hasSuccessor t := by
  obtain ⟨hsS, hsR⟩ := Finset.mem_sdiff.mp hs
  rw [serverPlace_nodePath (hn s hsS), serverPlace_nodePath (hn s hsS)] at hne
  rw [serverPlace_nodePath (hn s hsS)]
  cases hp : place s before.children with
  | notFound => exact absurd hp (place_ne_notFound ((before.mem s).mpr hsS))
  | tail =>
    have hg := isGreatest_diff (R := (R : Set CString)) ((before.place_tail hsS).mp hp) hsR
    rw [← Finset.coe_sdiff, ← after.place_tail hs] at hg
    exact absurd (hg.trans hp.symm) hne
  | hasSuccessor t =>
    by_cases ht : t ∈ R
    · exact ⟨t, ht, rfl⟩
    · have hd := ((before.place_hasSuccessor hsS).mp hp).diff (R := (R : Set CString)) ht
      rw [← Finset.coe_sdiff, ← after.place_hasSuccessor hs] at hd
      exact absurd (hd.trans hp.symm) hne

/-- **All parties derive the same chain**, a new last node changes the successor
of the old tail only, and nodes that go change that of the servers before them. -/
theorem parties_agree (S : Finset CString) (hS : S.Nonempty) (hn : ∀ s ∈ S, IsNodeName s) :
    (∀ (watcher main : CString → Listing S) (client : Listing S),
      ∃ head tail, SameChain S watcher main client head tail) ∧
    (∀ x, IsNodeName x → (∀ s ∈ S, number s < number x) →
      ∀ (before : CString → Listing S) (after : CString → Listing (insert x S)), ∀ s ∈ S,
        serverPlace (nodePath s) (after s).children =
          if serverPlace (nodePath s) (before s).children = .tail then .hasSuccessor x
          else serverPlace (nodePath s) (before s).children) ∧
    (∀ (R : Finset CString) (before : CString → Listing S) (after : CString → Listing (S \ R)),
      ∀ s ∈ S \ R,
        serverPlace (nodePath s) (after s).children ≠
          serverPlace (nodePath s) (before s).children →
        ∃ t ∈ R, serverPlace (nodePath s) (before s).children = .hasSuccessor t) := by
  refine ⟨sameChain hS hn, ?_, ?_⟩
  · intro x hx hlt before after s hs
    exact serverPlace_insert hn hx hlt (before s) (after s) hs
  · intro R before after s hs hne
    exact serverPlace_sdiff hn (before s) (after s) hs hne

/-- Two servers, listed last one first. -/
def twoListing : Listing {nodeName 0, nodeName 1} where
  children := [nodeName 1, nodeName 0]
  nodup := by decide
  mem := by simp [or_comm]

def threeListing : Listing (insert (nodeName 2) {nodeName 0, nodeName 1}) where
  children := [nodeName 1, nodeName 2, nodeName 0]
  nodup := by decide
  mem := by
    intro c
    simp only [List.mem_cons, List.not_mem_nil, or_false, Finset.mem_insert,
      Finset.mem_singleton]
    tauto

def oneListing : Listing ({nodeName 0, nodeName 1} \ {nodeName 1}) where
  children := [nodeName 0]
  nodup := by decide
  mem := by
    intro c
    simp only [List.mem_singleton, Finset.mem_sdiff, Finset.mem_insert, Finset.mem_singleton]
    constructor
    · rintro rfl
      decide
    · rintro ⟨h | h, hc⟩
      · exact h
      · exact absurd h hc

theorem parties_agree_twoServers :
    (∃ head tail, SameChain {nodeName 0, nodeName 1} (fun _ => twoListing)
      (fun _ => twoListing) twoListing head tail) ∧
    serverPlace (nodePath (nodeName 1)) threeListing.children = .hasSuccessor (nodeName 2) ∧
    ∃ t ∈ ({nodeName 1} : Finset CString),
      serverPlace (nodePath (nodeName 0)) twoListing.children = .hasSuccessor t := by
  have hn : ∀ s ∈ ({nodeName 0, nodeName 1} : Finset CString), IsNodeName s := by
    simp [isNodeName_nodeName]
  obtain ⟨h1, h2, h3⟩ := parties_agree {nodeName 0, nodeName 1} ⟨nodeName 0, by decide⟩ hn
  refine ⟨h1 _ _ _, ?_, ?_⟩
  · exact h2 (nodeName 2) (isNodeName_nodeName 2) (by decide) (fun _ => twoListing)
      (fun _ => threeListing) (nodeName 1) (by decide)
  · exact h3 {nodeName 1} (fun _ => twoListing) (fun _ => oneListing) (nodeName 0) (by decide)
      (by decide)

end CarChain.Topology
