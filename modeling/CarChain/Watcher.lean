import CarChain.Lib.Neighbours

/-!
# The server's `chain_watcher`

A run of `chain_watcher` sorts the children of `/chain`, looks for its own node
and compares the address behind it with the one remembered from earlier runs.
Names, addresses and connections are parameters; `strcmp` on names is their
linear order, and a list without repetition is what a directory listing is.
-/

namespace CarChain.Watcher
open CarChain.Neighbours

variable {Name Addr Conn : Type} [LinearOrder Name]

/-- `qsort` with `compare_strings`. -/
def sortChildren (children : List Name) : List Name := children.insertionSort (· ≤ ·)

/-- `my_index`: the first place of the own name, if any. -/
def myIndex (myNodeName : Name) (children : List Name) : Option Nat :=
  children.findIdx? (fun c => c = myNodeName)

/-- The three branches of the code after the search. -/
inductive Place (Name : Type)
  | notFound
  | tail
  | hasSuccessor (next : Name)
  deriving DecidableEq

def place (myNodeName : Name) (children : List Name) : Place Name :=
  let sorted := sortChildren children
  match myIndex myNodeName sorted with
  | none => .notFound
  | some i =>
    match sorted[i + 1]? with
    | some next => .hasSuccessor next
    | none => .tail

/-- The static variables `chain_watcher` keeps between its runs. -/
structure WatcherState (Addr Conn : Type) where
  nextServerAddr : Option Addr
  nextServerConn : Option Conn
  isTail : Bool

/-- What a run leaves, and what it hands to `network_server_set_successor` when
it calls it.  Before that call it has closed the connection it had. -/
structure WatcherRun (Addr Conn : Type) where
  state : WatcherState Addr Conn
  setSuccessor : Option (Option Conn)

/-- One run; `zooGet` and `rlistConnect` give what the calls return, `none` when
they fail.  The new address is remembered whether or not the connection opens. -/
def chainWatcher [DecidableEq Addr] (zooGet : Name → Option Addr)
    (rlistConnect : Addr → Option Conn) (myNodeName : Name) (children : List Name)
    (w : WatcherState Addr Conn) : WatcherRun Addr Conn :=
  match place myNodeName children with
  | .notFound => ⟨w, none⟩
  | .tail => ⟨⟨none, none, true⟩, some none⟩
  | .hasSuccessor next =>
    match zooGet next with
    | none => ⟨{ w with isTail := false }, none⟩
    | some buffer =>
      if w.nextServerAddr = some buffer then ⟨{ w with isTail := false }, none⟩
      else ⟨⟨some buffer, rlistConnect buffer, false⟩, some (rlistConnect buffer)⟩

/-! ## Where a server stands -/

theorem mem_sortChildren {children : List Name} {c : Name} :
    c ∈ sortChildren children ↔ c ∈ children := List.mem_insertionSort _

theorem sortChildren_sortedLT {children : List Name} (h : children.Nodup) :
    (sortChildren children).SortedLT :=
  List.sortedLE_insertionSort.sortedLT_of_nodup
    ((List.perm_insertionSort _ children).nodup_iff.mpr h)

/-- The search finds the place of a name that is there. -/
theorem myIndex_eq_some {me : Name} {children : List Name} {i : Nat}
    (h : myIndex me children = some i) : children[i]? = some me := by
  obtain ⟨hi, hp, _⟩ := List.findIdx?_eq_some_iff_getElem.mp h
  rw [List.getElem?_eq_getElem hi]
  simpa using hp

theorem exists_myIndex {me : Name} {children : List Name} (h : me ∈ children) :
    ∃ i, myIndex me children = some i := by
  cases hi : myIndex me children with
  | some i => exact ⟨i, rfl⟩
  | none =>
    have := List.findIdx?_eq_none_iff.mp hi me h
    simp at this

/-- The own name is found, and what stands behind it decides the branch. -/
theorem place_of_mem {me : Name} {children : List Name} (h : me ∈ children) :
    ∃ i, (sortChildren children)[i]? = some me ∧
      place me children = match (sortChildren children)[i + 1]? with
        | some next => .hasSuccessor next
        | none => .tail := by
  obtain ⟨i, hi⟩ := exists_myIndex (mem_sortChildren.mpr h)
  refine ⟨i, myIndex_eq_some hi, ?_⟩
  unfold place
  dsimp only
  rw [hi]

/-- The has-a-successor branch names the next of the children. -/
theorem place_eq_hasSuccessor {me next : Name} {children : List Name} (hn : children.Nodup)
    (h : me ∈ children) :
    place me children = .hasSuccessor next ↔ Next {c | c ∈ children} me next := by
  obtain ⟨i, hi, hp⟩ := place_of_mem h
  have hset : {c | c ∈ sortChildren children} = {c | c ∈ children} :=
    Set.ext fun _ => mem_sortChildren
  have hs := getElem?_succ_eq_some (sortChildren_sortedLT hn) hi next
  rw [hset] at hs
  rw [hp, ← hs]
  cases (sortChildren children)[i + 1]? <;> simp

/-- The tail branch is taken by the greatest of the children. -/
theorem place_eq_tail {me : Name} {children : List Name} (hn : children.Nodup)
    (h : me ∈ children) :
    place me children = .tail ↔ IsGreatest {c | c ∈ children} me := by
  obtain ⟨i, hi, hp⟩ := place_of_mem h
  have hset : {c | c ∈ sortChildren children} = {c | c ∈ children} :=
    Set.ext fun _ => mem_sortChildren
  have hs := getElem?_succ_eq_none (sortChildren_sortedLT hn) hi
  rw [hset] at hs
  rw [hp, ← hs]
  cases (sortChildren children)[i + 1]? <;> simp

/-- A server whose node is gone takes neither branch. -/
theorem place_ne_notFound {me : Name} {children : List Name} (h : me ∈ children) :
    place me children ≠ .notFound := by
  obtain ⟨i, _, hp⟩ := place_of_mem h
  rw [hp]
  cases (sortChildren children)[i + 1]? <;> simp

end CarChain.Watcher
