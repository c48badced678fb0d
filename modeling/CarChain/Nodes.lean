import CarChain.Lib.LinkedList
import CarChain.Ownership

/-!
# The nodes of the list

The functions of `list.c` on the nodes themselves: each is in memory, holds the
address of a record and that of the next node, and every `while` follows those
pointers.  A function gives nothing when it would read a node or a record that
was freed, or never end.  On the list of a server none of that happens, whatever
it was sent: the replies are those of `Skeleton.invoke`, the nodes are the live
ones, linked from the head on, and `list_destroy` leaves no node and no record
(`nodes_refine`).
-/

namespace CarChain.Nodes
open CarChain.Record CarChain.Message CarChain.CarList CarChain.Memory CarChain.LinkedList
open CarChain.Ownership (Holds recordOf anoOf entry_recordOf runCars)
open CarChain.Skeleton (replyError replyListing)

/-- The records, the nodes, and `struct list_t`. -/
structure State where
  store : Store DataT
  nodes : Heap Nat
  size : Int
  head : Option Nat

/-! ## `list.c` -/

/-- The server at `list_create`. -/
def start : State := ⟨.empty, .empty, 0, none⟩

def listAdd (s : State) (car : Nat) : Option State :=
  (append s.nodes s.head car).map fun r => ⟨s.store, r.2, s.size + 1, r.1⟩

/-- The record goes before its node. -/
def listRemoveByModel (s : State) (modelo : CString) : Option (Int × State) :=
  match s.head with
  | none => some (-1, s)
  | some _ =>
    match findNode (fun data => (s.store.entry data).map (hasModel modelo)) s.nodes s.nodes.next
        none s.head with
    | none => none
    | some none => some (1, s)
    | some (some (previous, current, node)) =>
      match unlink s.nodes s.head previous node with
      | none => none
      | some (head, nodes) =>
        match s.store.release node.data with
        | none => none
        | some store =>
          (nodes.release current).map fun nodes => (0, ⟨store, nodes, s.size - 1, head⟩)

def listGetByMarca (s : State) (marca : Int) : Option (Option DataT) :=
  match findNode (fun data => (s.store.entry data).map fun d => d.marca = marca) s.nodes
      s.nodes.next none s.head with
  | none => none
  | some none => some none
  | some (some (_, _, node)) => (s.store.entry node.data).map some

/-- What the loops over all nodes read. -/
def records (s : State) : Option (List DataT) :=
  (visit s.nodes s.nodes.next s.head).bind s.store.gather

def listGetByYear (s : State) (ano : Int) : Option (Option (List DataT)) :=
  match s.head with
  | none => some none
  | some _ =>
    (records s).map fun cars =>
      if cars.countP (fun d => d.ano = ano) = 0 then none
      else some (cars.filter fun d => d.ano = ano)

/-- A pass with a swap leaves fewer pairs in the wrong order, of which there are
less than the nodes ever made by themselves. -/
def listOrderByYear (s : State) : Option State :=
  if s.size ≤ 1 then some s
  else
    (sortNodes (fun data => (s.store.entry data).map DataT.ano) (s.nodes.next * s.nodes.next + 1)
      s.nodes s.head).map fun nodes => { s with nodes := nodes }

def listSize (s : State) : Int := s.size

def listGetModelList (s : State) : Option (Option (List CString)) :=
  if s.size = 0 then some none else (records s).map fun cars => some (cars.map modeloText)

def listGetAll (s : State) : Option (Option (List DataT)) :=
  if s.size = 0 then some none else (records s).map some

def listDestroy (s : State) : Option (Store DataT × Heap Nat) :=
  freeNodes Store.release s.nodes.next s.store s.nodes s.head

/-! ## `list_skel.c` -/

/-- `list_add` takes over the record `data_create` has made. -/
def invokeAdd (msg : MessageT) (s : State) : Option (MessageT × State) :=
  if msg.cType ≠ ctData then some (replyError msg, s)
  else
    match msg.data with
    | none => some (replyError msg, s)
    | some pd =>
      match createFrom pd with
      | none => some (replyError msg, s)
      | some car =>
        (listAdd { s with store := s.store.create car } s.store.next).map fun s =>
          ({ msg with opcode := opAdd + 1, cType := ctNone }, s)

def invokeGet (msg : MessageT) (s : State) : Option (MessageT × State) :=
  if msg.cType ≠ ctMarca then some (replyError msg, s)
  else
    (listGetByMarca s msg.result).map fun
      | none => (replyError msg, s)
      | some found =>
        ({ msg with opcode := opGet + 1, cType := ctData, data := some (toData found) }, s)

def invokeDel (msg : MessageT) (s : State) : Option (MessageT × State) :=
  if msg.cType ≠ ctModel then some (replyError msg, s)
  else
    match msg.models with
    | [] => some (replyError msg, s)
    | model :: _ =>
      (listRemoveByModel s model).map fun r =>
        ({ msg with opcode := opDel + 1, cType := ctResult, result := r.1 }, r.2)

def invokeSize (msg : MessageT) (s : State) : Option (MessageT × State) :=
  if msg.cType ≠ ctNone then some (replyError msg, s)
  else some ({ msg with opcode := opSize + 1, cType := ctResult, result := listSize s }, s)

def invokeGetModels (msg : MessageT) (s : State) : Option (MessageT × State) :=
  if msg.cType ≠ ctNone then some (replyError msg, s)
  else
    (listGetModelList s).map fun
      | none => (replyError msg, s)
      | some models =>
        ({ msg with opcode := opGetModels + 1, cType := ctModel, models := models }, s)

def invokeGetListByTear (msg : MessageT) (s : State) : Option (MessageT × State) :=
  if msg.cType ≠ ctResult then some (replyError msg, s)
  else if msg.result = -1 then
    match listOrderByYear s with
    | none => none
    | some s' => (listGetAll s').map fun arr => (replyListing msg arr, s')
  else (listGetByYear s msg.result).map fun arr => (replyListing msg arr, s)

def invoke (msg : MessageT) (s : State) : Option (MessageT × State) :=
  if msg.opcode = opAdd then invokeAdd msg s
  else if msg.opcode = opGet then invokeGet msg s
  else if msg.opcode = opDel then invokeDel msg s
  else if msg.opcode = opSize then invokeSize msg s
  else if msg.opcode = opGetModels then invokeGetModels msg s
  else if msg.opcode = opGetListByTear then invokeGetListByTear msg s
  else some (replyError msg, s)

/-- The messages one after the other: the replies and the server. -/
def run : List MessageT → State → Option (List MessageT × State)
  | [], s => some ([], s)
  | msg :: msgs, s =>
    match invoke msg s with
    | none => none
    | some (reply, s') => (run msgs s').map fun r => (reply :: r.1, r.2)

/-! ## The list the nodes make -/

/-- The live nodes, linked from the head on, hold the live records, each once,
and these are the cars. -/
def Represents (s : State) (list : Cars) : Prop :=
  ∃ handles, Linked s.nodes s.head handles ∧ Holds ⟨s.store, ⟨s.size, handles⟩⟩ list

theorem represents_start : Represents start listCreate :=
  ⟨[], linked_empty, Ownership.holds_start⟩

section

variable {s : State} {list : Cars} {handles : List Nat}

theorem entry_of_holds (h : Holds ⟨s.store, ⟨s.size, handles⟩⟩ list) {x : Nat}
    (hx : x ∈ handles) : s.store.entry x = some (recordOf s.store x) :=
  entry_recordOf ((h.owned.mem_iff x).mp hx)

theorem head_of_holds (h : Holds ⟨s.store, ⟨s.size, handles⟩⟩ list) :
    list.head = handles.map (recordOf s.store) :=
  Option.some.inj (h.gathered.symm.trans (Store.gather_map fun _ hx => entry_of_holds h hx))

theorem records_of_represents (h : Represents s list) : records s = some list.head := by
  obtain ⟨handles, hl, hh⟩ := h
  rw [records, visit_linked hl, Option.bind_some]
  exact hh.gathered

theorem head_eq_none (h : Represents s list) : s.head = none ↔ list.head = [] := by
  obtain ⟨handles, ⟨cells, hs, _, rfl⟩, hh⟩ := h
  rw [head_of_holds hh, List.map_eq_nil_iff, List.map_eq_nil_iff]
  constructor
  · intro hnone
    cases cells with
    | nil => rfl
    | cons cell cells =>
      obtain ⟨_, hp, _⟩ := segment_cons.mp hs
      rw [hnone] at hp
      cases hp
  · rintro rfl
    exact segment_nil.mp hs

/-! ## Each function -/

/-- The first node of a linked list whose record passes a test, as `List.find?`
finds the first car. -/
theorem findNode_represents {cells : List (Nat × Nat)} {t : DataT → Bool}
    (hs : Segment s.nodes s.head cells none) (ho : s.nodes.Owned (cells.map Prod.fst))
    (hh : Holds ⟨s.store, ⟨s.size, cells.map Prod.snd⟩⟩ list) :
    ((∀ d ∈ list.head, t d = false) ∧
        findNode (fun data => (s.store.entry data).map t) s.nodes s.nodes.next none s.head =
          some none) ∨
      ∃ front cell back next, cells = front ++ cell :: back ∧
        (∀ c ∈ front, t (recordOf s.store c.2) = false) ∧ t (recordOf s.store cell.2) = true ∧
        s.nodes.entry cell.1 = some ⟨cell.2, next⟩ ∧
        findNode (fun data => (s.store.entry data).map t) s.nodes s.nodes.next none s.head =
          some (some (lastOf none front, cell.1, ⟨cell.2, next⟩)) := by
  have htest : ∀ cell ∈ cells,
      (s.store.entry cell.2).map t = some (t (recordOf s.store cell.2)) := by
    intro cell hc
    rw [entry_of_holds hh (List.mem_map_of_mem hc), Option.map_some]
  have hlen := length_le_next ho
  rw [List.length_map] at hlen
  rcases @findNode_segment _ _ _ _ (fun data => (s.store.entry data).map t)
    (fun data => t (recordOf s.store data)) _ none hs htest hlen with ⟨hall, hfind⟩ | hfound
  · refine Or.inl ⟨?_, hfind⟩
    rw [head_of_holds hh, List.map_map, List.forall_mem_map]
    exact hall
  · exact Or.inr hfound

theorem listGetByMarca_represents (h : Represents s list) (marca : Int) :
    listGetByMarca s marca = some (CarList.listGetByMarca list marca) := by
  obtain ⟨_, ⟨cells, hs, ho, rfl⟩, hh⟩ := h
  unfold listGetByMarca CarList.listGetByMarca
  rcases @findNode_represents _ _ _ (fun d => decide (d.marca = marca)) hs ho hh with
    ⟨hall, hfind⟩ | ⟨front, cell, back, next, rfl, hfront, hhit, _, hfind⟩
  · have hnone : list.head.find? (fun d => d.marca = marca) = none :=
      List.find?_eq_none.mpr fun d hd => by simp [hall d hd]
    rw [hfind, hnone]
  · have hcell : cell.2 ∈ (front ++ cell :: back).map Prod.snd :=
      List.mem_map_of_mem (List.mem_append_right _ List.mem_cons_self)
    have hsome : list.head.find? (fun d => d.marca = marca) =
        some (recordOf s.store cell.2) := by
      rw [head_of_holds hh, List.map_append, List.map_append, List.find?_append,
        List.find?_eq_none.mpr, Option.none_or]
      · simp only [List.map_cons, List.find?_cons, hhit]
      · rw [List.map_map, List.forall_mem_map]
        intro c hc
        simp [hfront c hc]
    rw [hfind, hsome]
    dsimp only
    rw [entry_of_holds hh hcell, Option.map_some]

/-- On the list of handles the first node of the model is unlinked. -/
theorem unlink_handles {store : Store DataT} {modelo : CString} {front back : List Nat}
    {x : Nat} (hlive : ∀ y ∈ front ++ [x], store.entry y = some (recordOf store y))
    (hfront : ∀ y ∈ front, hasModel modelo (recordOf store y) = false)
    (hhit : hasModel modelo (recordOf store x) = true) :
    Ownership.unlink store modelo (front ++ x :: back) = some (some (x, front ++ back)) := by
  induction front with
  | nil =>
    rw [List.nil_append, Ownership.unlink, hlive x (List.mem_singleton_self x)]
    dsimp only
    rw [if_pos hhit]
    rfl
  | cons y front ih =>
    rw [List.forall_mem_cons] at hfront
    rw [List.cons_append, List.forall_mem_cons] at hlive
    rw [List.cons_append, Ownership.unlink, hlive.1]
    dsimp only
    rw [hfront.1, if_neg (by simp), ih hlive.2 hfront.2]
    rfl

/-- With the records in the store, the first node of the model goes with its record. -/
theorem owner_removes {modelo : CString} {front back : List Nat} {x : Nat}
    (hh : Holds ⟨s.store, ⟨s.size, front ++ x :: back⟩⟩ list)
    (hfront : ∀ y ∈ front, hasModel modelo (recordOf s.store y) = false)
    (hhit : hasModel modelo (recordOf s.store x) = true) :
    s.store.release x = some (s.store.destroy x) ∧
      (CarList.listRemoveByModel list modelo).1 = 0 ∧
      Holds ⟨s.store.destroy x, ⟨s.size - 1, front ++ back⟩⟩
        (CarList.listRemoveByModel list modelo).2 := by
  have hlive : ∀ y ∈ front ++ [x], s.store.entry y = some (recordOf s.store y) := by
    intro y hy
    apply entry_of_holds hh
    rcases List.mem_append.mp hy with hy | hy
    · exact List.mem_append_left _ hy
    · exact List.mem_append_right _ (List.mem_singleton.mp hy ▸ List.mem_cons_self)
  have hrel := Store.release_of_live ⟨_, entry_of_holds hh (List.mem_append_right front
    (List.mem_cons_self (a := x) (l := back)))⟩
  have hremoved : Ownership.listRemoveByModel ⟨s.store, ⟨s.size, front ++ x :: back⟩⟩ modelo =
      some (0, ⟨s.store.destroy x, ⟨s.size - 1, front ++ back⟩⟩) := by
    have hunlink : Ownership.unlink s.store modelo (front ++ x :: back) =
        some (some (x, front ++ back)) := unlink_handles hlive hfront hhit
    unfold Ownership.listRemoveByModel
    cases front with
    | nil =>
      dsimp only [List.nil_append] at hunlink ⊢
      rw [hunlink]
      dsimp only
      rw [hrel]
      rfl
    | cons y front =>
      dsimp only [List.cons_append] at hunlink ⊢
      rw [hunlink]
      dsimp only
      rw [hrel]
      rfl
  obtain ⟨o, hown, hholds⟩ := Ownership.listRemoveByModel_refines hh modelo
  rw [hremoved, Option.some.injEq, Prod.mk.injEq] at hown
  obtain ⟨hcode, rfl⟩ := hown
  exact ⟨hrel, hcode.symm, hholds⟩

theorem listRemoveByModel_represents (h : Represents s list) (modelo : CString) :
    ∃ s', listRemoveByModel s modelo = some ((CarList.listRemoveByModel list modelo).1, s') ∧
      Represents s' (CarList.listRemoveByModel list modelo).2 := by
  have hempty := head_eq_none h
  have hrep := h
  obtain ⟨_, ⟨cells, hs, ho, rfl⟩, hh⟩ := h
  unfold listRemoveByModel
  cases hhead : s.head with
  | none =>
    have hlist : CarList.listRemoveByModel list modelo = (-1, list) := by
      rw [CarList.listRemoveByModel, hempty.mp hhead]
    rw [hlist]
    exact ⟨s, rfl, hrep⟩
  | some first =>
    rcases @findNode_represents _ _ _ (hasModel modelo) hs ho hh with
      ⟨hall, hfind⟩ | ⟨front, cell, back, next, rfl, hfront, hhit, he, hfind⟩
    · have hnone : CarList.listRemoveByModel list modelo = (1, list) := by
        rcases listRemoveByModel_cases list modelo with ⟨hl, _, hcode⟩ | ⟨d, _, hd, _, _⟩
        · rw [if_neg (mt hempty.mpr (by simp [hhead]))] at hcode
          exact Prod.ext hcode hl
        · obtain ⟨hmem, hmodel⟩ := firstOfModel_mem hd
          have hfalse := hall d hmem
          rw [(hasModel_iff modelo d).mpr hmodel] at hfalse
          cases hfalse
      rw [hhead] at hfind
      rw [hfind, hnone]
      exact ⟨s, rfl, hrep⟩
    · obtain ⟨head', nodes', freed, hunlink, hfree, hlinked⟩ := unlink_linked hs ho he
      rw [List.map_append, List.map_cons] at hh
      obtain ⟨hrel, hcode, hholds⟩ := owner_removes hh (List.forall_mem_map.mpr hfront) hhit
      refine ⟨⟨s.store.destroy cell.2, freed, s.size - 1, head'⟩, ?_, _, hlinked, ?_⟩
      · rw [hhead] at hfind hunlink
        rw [hfind]
        dsimp only
        rw [hunlink]
        dsimp only
        rw [hrel, hfree, hcode]
        rfl
      · rw [List.map_append]
        exact hholds

theorem listOrderByYear_represents (h : Represents s list) :
    ∃ s', listOrderByYear s = some s' ∧ Represents s' (CarList.listOrderByYear list) := by
  obtain ⟨handles, hl, hh⟩ := h
  obtain ⟨o, hown, _, _, hholds⟩ := Ownership.listOrderByYear_refines hh
  unfold Ownership.listOrderByYear at hown
  unfold listOrderByYear
  by_cases hs : s.size ≤ 1
  · rw [if_pos hs] at hown ⊢
    cases hown
    exact ⟨s, rfl, handles, hl, hholds⟩
  · rw [if_neg hs, hh.gathered] at hown
    rw [if_neg hs]
    cases hown
    have hkey : ∀ x ∈ handles,
        (s.store.entry x).map DataT.ano = some (anoOf s.store x) := by
      intro x hx
      rw [entry_of_holds hh hx, Ownership.anoOf_eq]
      rfl
    have hpasses : BubbleSort.inversions (anoOf s.store) handles <
        s.nodes.next * s.nodes.next + 1 := by
      have hinv := inversions_le (anoOf s.store) handles
      have hlen := hl.length_le
      exact Nat.lt_succ_of_le (Nat.le_trans hinv (Nat.mul_le_mul hlen hlen))
    obtain ⟨nodes, hsort, hlinked⟩ := sortNodes_linked hl hkey hpasses
    refine ⟨{ s with nodes := nodes }, by rw [hsort]; rfl, _, hlinked, ?_⟩
    rw [orderByYear, if_neg hs] at hholds
    exact hholds

theorem listGetByYear_represents (h : Represents s list) (ano : Int) :
    listGetByYear s ano = some (CarList.listGetByYear list ano) := by
  have hempty := head_eq_none h
  unfold listGetByYear CarList.listGetByYear getByYear
  rw [records_of_represents h]
  cases hhead : s.head with
  | none =>
    rw [hempty.mp hhead]
    rfl
  | some first => rfl

theorem listSize_represents (h : Represents s list) : listSize s = CarList.listSize list := by
  obtain ⟨_, _, hh⟩ := h
  exact hh.size

theorem listGetModelList_represents (h : Represents s list) :
    listGetModelList s = some (CarList.listGetModelList list) := by
  have hsize : s.size = list.size := listSize_represents h
  unfold listGetModelList CarList.listGetModelList
  rw [records_of_represents h, hsize]
  split <;> rfl

theorem listGetAll_represents (h : Represents s list) :
    listGetAll s = some (CarList.listGetAll list) := by
  have hsize : s.size = list.size := listSize_represents h
  unfold listGetAll CarList.listGetAll
  rw [records_of_represents h, hsize]
  split <;> rfl

/-- `list_destroy` frees every record and every node. -/
theorem listDestroy_represents (h : Represents s list) :
    ∃ store nodes, listDestroy s = some (store, nodes) ∧ (∀ x, ¬store.Live x) ∧
      ∀ x, ¬nodes.Live x := by
  obtain ⟨handles, hl, hh⟩ := h
  obtain ⟨store, hstore, hdead⟩ := hh.owned.releaseAll
  rw [Store.releaseAll_eq_foldlM] at hstore
  obtain ⟨nodes, hfree, hnodes⟩ := freeNodes_linked hl hstore
  exact ⟨store, nodes, hfree, hdead, hnodes⟩

/-! ## Each request -/

theorem invokeAdd_represents (h : Represents s list) (msg : MessageT) :
    ∃ s', invokeAdd msg s = some ((Skeleton.invokeAdd msg list).msg, s') ∧
      Represents s' (Skeleton.invokeAdd msg list).list := by
  have hrep := h
  obtain ⟨handles, hl, hh⟩ := h
  obtain ⟨_, hholds⟩ := Ownership.invokeAdd_refines hh msg
  unfold Ownership.invokeAdd Skeleton.invokeAdd at hholds
  unfold invokeAdd Skeleton.invokeAdd
  by_cases hc : msg.cType ≠ ctData
  · rw [if_pos hc, if_pos hc]
    exact ⟨s, rfl, hrep⟩
  · rw [if_neg hc, if_neg hc] at hholds ⊢
    cases hdata : msg.data with
    | none => exact ⟨s, rfl, hrep⟩
    | some pd =>
      rw [hdata] at hholds
      dsimp only at hholds ⊢
      cases hcar : createFrom pd with
      | none => exact ⟨s, rfl, hrep⟩
      | some car =>
        rw [hcar] at hholds
        obtain ⟨head', nodes', happend, hlinked⟩ := append_linked hl s.store.next
        refine ⟨⟨s.store.create car, nodes', s.size + 1, head'⟩, ?_, _, hlinked, hholds⟩
        dsimp only
        rw [listAdd, happend]
        rfl

theorem invokeGet_represents (h : Represents s list) (msg : MessageT) :
    ∃ s', invokeGet msg s = some ((Skeleton.invokeGet msg list).msg, s') ∧
      Represents s' (Skeleton.invokeGet msg list).list := by
  unfold invokeGet Skeleton.invokeGet
  split
  · exact ⟨s, rfl, h⟩
  · rw [listGetByMarca_represents h]
    cases CarList.listGetByMarca list msg.result with
    | none => exact ⟨s, rfl, h⟩
    | some found => exact ⟨s, rfl, h⟩

theorem invokeDel_represents (h : Represents s list) (msg : MessageT) :
    ∃ s', invokeDel msg s = some ((Skeleton.invokeDel msg list).msg, s') ∧
      Represents s' (Skeleton.invokeDel msg list).list := by
  unfold invokeDel Skeleton.invokeDel
  split
  · exact ⟨s, rfl, h⟩
  · cases msg.models with
    | nil => exact ⟨s, rfl, h⟩
    | cons model _ =>
      obtain ⟨s', hs', h'⟩ := listRemoveByModel_represents h model
      refine ⟨s', ?_, h'⟩
      dsimp only
      rw [hs']
      rfl

theorem invokeSize_represents (h : Represents s list) (msg : MessageT) :
    ∃ s', invokeSize msg s = some ((Skeleton.invokeSize msg list).msg, s') ∧
      Represents s' (Skeleton.invokeSize msg list).list := by
  unfold invokeSize Skeleton.invokeSize
  rw [listSize_represents h]
  split
  · exact ⟨s, rfl, h⟩
  · exact ⟨s, rfl, h⟩

theorem invokeGetModels_represents (h : Represents s list) (msg : MessageT) :
    ∃ s', invokeGetModels msg s = some ((Skeleton.invokeGetModels msg list).msg, s') ∧
      Represents s' (Skeleton.invokeGetModels msg list).list := by
  unfold invokeGetModels Skeleton.invokeGetModels
  split
  · exact ⟨s, rfl, h⟩
  · rw [listGetModelList_represents h]
    cases CarList.listGetModelList list with
    | none => exact ⟨s, rfl, h⟩
    | some models => exact ⟨s, rfl, h⟩

theorem invokeGetListByTear_represents (h : Represents s list) (msg : MessageT) :
    ∃ s', invokeGetListByTear msg s = some ((Skeleton.invokeGetListByTear msg list).msg, s') ∧
      Represents s' (Skeleton.invokeGetListByTear msg list).list := by
  unfold invokeGetListByTear Skeleton.invokeGetListByTear
  split
  · exact ⟨s, rfl, h⟩
  · split
    · obtain ⟨s', hs', h'⟩ := listOrderByYear_represents h
      refine ⟨s', ?_, h'⟩
      rw [hs']
      dsimp only
      rw [listGetAll_represents h']
      rfl
    · rw [listGetByYear_represents h]
      exact ⟨s, rfl, h⟩

theorem invoke_represents (h : Represents s list) (msg : MessageT) :
    ∃ s', invoke msg s = some ((Skeleton.invoke msg list).msg, s') ∧
      Represents s' (Skeleton.invoke msg list).list := by
  unfold invoke Skeleton.invoke
  split
  · exact invokeAdd_represents h msg
  split
  · exact invokeGet_represents h msg
  split
  · exact invokeDel_represents h msg
  split
  · exact invokeSize_represents h msg
  split
  · exact invokeGetModels_represents h msg
  split
  · exact invokeGetListByTear_represents h msg
  · exact ⟨s, rfl, h⟩

end

/-- A run is answered to its end, like that of the cars. -/
theorem run_represents (msgs : List MessageT) {s : State} {list : Cars} (h : Represents s list) :
    ∃ s', run msgs s = some ((runCars msgs list).1, s') ∧
      Represents s' (runCars msgs list).2 := by
  induction msgs generalizing s list with
  | nil => exact ⟨s, rfl, h⟩
  | cons msg msgs ih =>
    obtain ⟨s', hs', h'⟩ := invoke_represents h msg
    obtain ⟨s'', hs'', h''⟩ := ih h'
    refine ⟨s'', ?_, h''⟩
    rw [run, hs']
    dsimp only
    rw [hs'']
    rfl

/-- **The nodes are the list.**  Whatever a server was sent, no loop of `list.c`
reads or frees a node or a record that is not live, and every one ends; the
replies are those of the skeleton on the cars, the live nodes are linked from the
head on and hold the live records in the order of the cars, and `list_destroy`
leaves neither a record nor a node. -/
theorem nodes_refine (msgs : List MessageT) :
    ∃ s, run msgs start = some ((runCars msgs listCreate).1, s) ∧
      Represents s (runCars msgs listCreate).2 ∧
      ∃ store nodes, listDestroy s = some (store, nodes) ∧ (∀ x, ¬store.Live x) ∧
        ∀ x, ¬nodes.Live x := by
  obtain ⟨s, hs, h⟩ := run_represents msgs represents_start
  exact ⟨s, hs, h, listDestroy_represents h⟩

end CarChain.Nodes
