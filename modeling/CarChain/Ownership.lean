import CarChain.Lib.Memory
import CarChain.Lists
import CarChain.OrderByYear

/-!
# Who owns the records

`invoke` and the functions of `list.c` on records that lie in a store, the nodes
of the list holding their handles.  Reading or destroying a record that is not
live gives nothing here, so a request that is answered has done neither.  A
server is always answered and its list owns its records, every live one once
(`records_owned`); seen through the handles it does what `Skeleton.invoke` does
on the cars themselves (`invoke_refines`).
-/

namespace CarChain.Ownership
open CarChain.Record CarChain.Message CarChain.CarList CarChain.Memory CarChain.OrderByYear
open CarChain.Skeleton (replyError replyListing)

/-- The records of a server and the list of their handles. -/
structure State where
  store : Store DataT
  list : ListT Nat

/-- The server at `list_create`. -/
def start : State := ⟨.empty, listCreate⟩

/-- The cars in the list, while all its nodes hold live records. -/
def cars (s : State) : Option Cars := (s.store.gather s.list.head).map (⟨s.list.size, ·⟩)

/-! ## `list.c` -/

/-- The first node of that model and the nodes left without it. -/
def unlink (store : Store DataT) (modelo : CString) : List Nat → Option (Option (Nat × List Nat))
  | [] => some none
  | h :: rest =>
    match store.entry h with
    | none => none
    | some d =>
      if hasModel modelo d then some (some (h, rest))
      else (unlink store modelo rest).map (Option.map fun r => (r.1, h :: r.2))

def listRemoveByModel (s : State) (modelo : CString) : Option (Int × State) :=
  match s.list.head with
  | [] => some (-1, s)
  | _ :: _ =>
    match unlink s.store modelo s.list.head with
    | none => none
    | some none => some (1, s)
    | some (some (h, rest)) =>
      (s.store.release h).map fun store => (0, ⟨store, ⟨s.list.size - 1, rest⟩⟩)

/-- The year in the record behind a handle. -/
def anoOf (store : Store DataT) (h : Nat) : Int :=
  match store.entry h with
  | none => 0
  | some d => d.ano

/-- A pass reads the record of every node. -/
def listOrderByYear (s : State) : Option State :=
  if s.list.size ≤ 1 then some s
  else
    match s.store.gather s.list.head with
    | none => none
    | some _ => some { s with list := orderByYear (anoOf s.store) s.list }

/-- Every record is destroyed with its node. -/
def listDestroy (s : State) : Option (Store DataT) := s.store.releaseAll s.list.head

/-! ## `list_skel.c` -/

/-- `list_add` takes over the record `data_create` has made. -/
def invokeAdd (msg : MessageT) (s : State) : MessageT × State :=
  if msg.cType ≠ ctData then (replyError msg, s)
  else
    match msg.data with
    | none => (replyError msg, s)
    | some pd =>
      match createFrom pd with
      | none => (replyError msg, s)
      | some car =>
        ({ msg with opcode := opAdd + 1, cType := ctNone },
          ⟨s.store.create car, listAdd s.list s.store.next⟩)

def invokeDel (msg : MessageT) (s : State) : Option (MessageT × State) :=
  if msg.cType ≠ ctModel then some (replyError msg, s)
  else
    match msg.models with
    | [] => some (replyError msg, s)
    | model :: _ =>
      (listRemoveByModel s model).map fun r =>
        ({ msg with opcode := opDel + 1, cType := ctResult, result := r.1 }, r.2)

/-- The operations that only read: they see the cars behind the handles. -/
def invokeReading (msg : MessageT) (s : State) : Option (MessageT × State) :=
  (cars s).map fun list => ((Skeleton.invoke msg list).msg, s)

def invokeGetListByTear (msg : MessageT) (s : State) : Option (MessageT × State) :=
  if msg.cType ≠ ctResult then some (replyError msg, s)
  else if msg.result = -1 then
    match listOrderByYear s with
    | none => none
    | some s' => (cars s').map fun list => (replyListing msg (listGetAll list), s')
  else invokeReading msg s

/-- `invoke`; none once a record that is not live is read or destroyed. -/
def invoke (msg : MessageT) (s : State) : Option (MessageT × State) :=
  if msg.opcode = opAdd then some (invokeAdd msg s)
  else if msg.opcode = opDel then invokeDel msg s
  else if msg.opcode = opGetListByTear then invokeGetListByTear msg s
  else invokeReading msg s

/-- The messages one after the other: the replies and the server. -/
def run : List MessageT → State → Option (List MessageT × State)
  | [], s => some ([], s)
  | msg :: msgs, s =>
    match invoke msg s with
    | none => none
    | some (reply, s') => (run msgs s').map fun r => (reply :: r.1, r.2)

/-! ## One request -/

/-- The list owns every live record, and these are the cars. -/
structure Holds (s : State) (list : Cars) : Prop where
  owned : s.store.Owned s.list.head
  size : s.list.size = list.size
  gathered : s.store.gather s.list.head = some list.head

theorem Holds.cars {s : State} {list : Cars} (h : Holds s list) :
    Ownership.cars s = some list := by
  rw [Ownership.cars, h.gathered, Option.map_some, h.size]

theorem holds_start : Holds start listCreate := ⟨Store.owned_empty, rfl, rfl⟩

theorem invokeAdd_refines {s : State} {list : Cars} (h : Holds s list) (msg : MessageT) :
    (invokeAdd msg s).1 = (Skeleton.invokeAdd msg list).msg ∧
      Holds (invokeAdd msg s).2 (Skeleton.invokeAdd msg list).list := by
  unfold invokeAdd Skeleton.invokeAdd
  split
  · exact ⟨rfl, h⟩
  · cases msg.data with
    | none => exact ⟨rfl, h⟩
    | some pd =>
      dsimp only
      cases createFrom pd with
      | none => exact ⟨rfl, h⟩
      | some car =>
        refine ⟨rfl, h.owned.create car, congrArg (· + 1) h.size, ?_⟩
        have hold : (s.store.create car).gather s.list.head = some list.head := by
          rw [← h.gathered]
          apply Store.gather_congr
          intro x hx
          exact Store.create_entry_of_lt _ _ ((h.owned.mem_iff x).mp hx).lt_next
        have hnew : (s.store.create car).gather [s.store.next] = some [car] :=
          Store.gather_eq_some.mpr (by rw [List.map_singleton, Store.create_entry_self]; rfl)
        exact Store.gather_append hold hnew

/-- The loop finds the node of the car that is unlinked. -/
theorem unlink_refines {store : Store DataT} {modelo : CString} {handles : List Nat}
    {l : List DataT} (h : store.gather handles = some l) :
    (unlink store modelo handles = some none ∧ CarList.unlink modelo l = none) ∨
      ∃ x rest rest', unlink store modelo handles = some (some (x, rest)) ∧
        CarList.unlink modelo l = some rest' ∧ handles.Perm (x :: rest) ∧
        store.gather rest = some rest' := by
  induction handles generalizing l with
  | nil =>
    cases h
    exact Or.inl ⟨rfl, rfl⟩
  | cons x handles ih =>
    rw [Store.gather] at h
    cases he : store.entry x with
    | none =>
      rw [he] at h
      cases h
    | some d =>
      rw [he] at h
      obtain ⟨l', hl', rfl⟩ := Option.map_eq_some_iff.mp h
      by_cases hd : hasModel modelo d = true
      · exact Or.inr ⟨x, handles, l', by simp [unlink, he, hd], by simp [CarList.unlink, hd],
          List.Perm.refl _, hl'⟩
      · have hu : unlink store modelo (x :: handles) =
            (unlink store modelo handles).map (Option.map fun r => (r.1, x :: r.2)) := by
          simp [unlink, he, hd]
        have hc : CarList.unlink modelo (d :: l') =
            (CarList.unlink modelo l').map (d :: ·) := by
          simp [CarList.unlink, hd]
        rcases ih hl' with ⟨hn, hn'⟩ | ⟨y, rest, rest', hs, hs', hp, hg⟩
        · exact Or.inl ⟨by rw [hu, hn]; rfl, by rw [hc, hn']; rfl⟩
        · refine Or.inr ⟨y, x :: rest, d :: rest', by rw [hu, hs]; rfl, by rw [hc, hs']; rfl,
            (hp.cons x).trans (List.Perm.swap y x rest), ?_⟩
          rw [Store.gather, he, hg]
          rfl

/-- The first node and the first car go together. -/
theorem Holds.head_eq_nil {s : State} {list : Cars} (h : Holds s list) :
    s.list.head = [] ↔ list.head = [] := by
  have hlen := congrArg List.length (Store.gather_eq_some.mp h.gathered)
  rw [List.length_map, List.length_map] at hlen
  rw [← List.length_eq_zero_iff, hlen, List.length_eq_zero_iff]

theorem listRemoveByModel_refines {s : State} {list : Cars} (h : Holds s list)
    (modelo : CString) :
    ∃ s', listRemoveByModel s modelo = some ((CarList.listRemoveByModel list modelo).1, s') ∧
      Holds s' (CarList.listRemoveByModel list modelo).2 := by
  unfold listRemoveByModel CarList.listRemoveByModel
  have hnil := h.head_eq_nil
  cases hs : s.list.head with
  | nil =>
    rw [hnil.mp hs]
    exact ⟨s, rfl, h⟩
  | cons x handles =>
    cases hl : list.head with
    | nil =>
      rw [hnil.mpr hl] at hs
      cases hs
    | cons d l =>
      have hg := h.gathered
      rw [hs, hl] at hg
      dsimp only
      rcases @unlink_refines s.store modelo _ _ hg with ⟨hn, hn'⟩ |
        ⟨y, rest, rest', hu, hu', hp, hr⟩
      · rw [hn, hn']
        exact ⟨s, rfl, h⟩
      · have hp' : s.list.head.Perm (y :: rest) := by
          rw [hs]
          exact hp
        obtain ⟨hrel, howned⟩ := h.owned.release hp'
        rw [hu, hu']
        dsimp only
        rw [hrel]
        refine ⟨_, rfl, howned, congrArg (· - 1) h.size, ?_⟩
        show (s.store.destroy y).gather rest = some rest'
        rw [← hr]
        apply Store.gather_congr
        intro z hz
        apply Store.destroy_entry_ne
        rintro rfl
        have hnodup := hp'.nodup_iff.mp h.owned.nodup
        exact (List.nodup_cons.mp hnodup).1 hz

/-- What is read behind a handle, whether it is live or not. -/
def recordOf (store : Store DataT) (h : Nat) : DataT :=
  (store.entry h).getD ⟨0, 0, 0, none, 0⟩

theorem anoOf_eq (store : Store DataT) : anoOf store = fun h => (recordOf store h).ano := by
  funext h
  unfold anoOf recordOf
  cases store.entry h <;> rfl

theorem entry_recordOf {store : Store DataT} {h : Nat} (hl : store.Live h) :
    store.entry h = some (recordOf store h) := by
  obtain ⟨d, hd⟩ := hl
  rw [recordOf, hd, Option.getD_some]

/-- The nodes change places as the cars do. -/
theorem listOrderByYear_refines {s : State} {list : Cars} (h : Holds s list) :
    ∃ s', listOrderByYear s = some s' ∧ s'.store = s.store ∧
      s'.list.head.Perm s.list.head ∧ Holds s' (CarList.listOrderByYear list) := by
  unfold listOrderByYear CarList.listOrderByYear
  by_cases hs : s.list.size ≤ 1
  · rw [if_pos hs]
    have hcars : orderByYear DataT.ano list = list := if_pos (h.size ▸ hs)
    exact ⟨s, rfl, rfl, List.Perm.refl _, hcars.symm ▸ h⟩
  · rw [if_neg hs, h.gathered]
    have hperm := orderByYear_perm (anoOf s.store) s.list
    have howned := h.owned.perm hperm
    have hlive : ∀ x ∈ s.list.head, s.store.entry x = some (recordOf s.store x) :=
      fun x hx => entry_recordOf ((h.owned.mem_iff x).mp hx)
    have hhead : list.head = s.list.head.map (recordOf s.store) :=
      Option.some.inj (h.gathered.symm.trans (Store.gather_map hlive))
    refine ⟨_, rfl, rfl, hperm, howned, ?_, ?_⟩
    · rw [orderByYear_size, orderByYear_size]
      exact h.size
    · have hlive' : ∀ x ∈ (orderByYear (anoOf s.store) s.list).head,
          s.store.entry x = some (recordOf s.store x) :=
        fun x hx => hlive x (hperm.mem_iff.mp hx)
      show s.store.gather (orderByYear (anoOf s.store) s.list).head = _
      rw [Store.gather_map hlive', orderByYear, orderByYear, if_neg hs, if_neg (h.size ▸ hs)]
      dsimp only
      rw [hhead, ← BubbleSort.sort_map, anoOf_eq]

theorem invokeReading_refines {s : State} {list : Cars} (h : Holds s list) (msg : MessageT) :
    invokeReading msg s = some ((Skeleton.invoke msg list).msg, s) := by
  rw [invokeReading, h.cars, Option.map_some]

theorem invokeDel_refines {s : State} {list : Cars} (h : Holds s list) (msg : MessageT) :
    ∃ s', invokeDel msg s = some ((Skeleton.invokeDel msg list).msg, s') ∧
      Holds s' (Skeleton.invokeDel msg list).list := by
  unfold invokeDel Skeleton.invokeDel
  split
  · exact ⟨s, rfl, h⟩
  · cases msg.models with
    | nil => exact ⟨s, rfl, h⟩
    | cons model _ =>
      obtain ⟨s', hs', h'⟩ := listRemoveByModel_refines h model
      refine ⟨s', ?_, h'⟩
      dsimp only
      rw [hs']
      rfl

theorem invokeGetListByTear_refines {s : State} {list : Cars} (h : Holds s list)
    {msg : MessageT} (hop : msg.opcode = opGetListByTear) :
    ∃ s', invokeGetListByTear msg s = some ((Skeleton.invokeGetListByTear msg list).msg, s') ∧
      Holds s' (Skeleton.invokeGetListByTear msg list).list := by
  have hinvoke : Skeleton.invoke msg list = Skeleton.invokeGetListByTear msg list := by
    simp [Skeleton.invoke, hop]
  unfold invokeGetListByTear
  rw [invokeReading_refines h, hinvoke]
  unfold Skeleton.invokeGetListByTear
  split
  · exact ⟨s, rfl, h⟩
  · split
    · obtain ⟨s', hs', _, _, h'⟩ := listOrderByYear_refines h
      refine ⟨s', ?_, h'⟩
      rw [hs']
      dsimp only
      rw [h'.cars]
      rfl
    · exact ⟨s, rfl, h⟩

/-- **The skeleton does with records what it does with cars**, and never reads
or destroys one that is not live. -/
theorem invoke_refines {s : State} {list : Cars} (h : Holds s list) (msg : MessageT) :
    ∃ s', invoke msg s = some ((Skeleton.invoke msg list).msg, s') ∧
      Holds s' (Skeleton.invoke msg list).list := by
  unfold invoke
  by_cases ha : msg.opcode = opAdd
  · rw [if_pos ha, Skeleton.invoke_add ha]
    obtain ⟨hmsg, h'⟩ := invokeAdd_refines h msg
    exact ⟨_, congrArg some (Prod.ext hmsg rfl), h'⟩
  · rw [if_neg ha]
    by_cases hd : msg.opcode = opDel
    · rw [if_pos hd, Skeleton.invoke_del hd]
      exact invokeDel_refines h msg
    · rw [if_neg hd]
      by_cases hl : msg.opcode = opGetListByTear
      · have hinvoke : Skeleton.invoke msg list = Skeleton.invokeGetListByTear msg list := by
          simp [Skeleton.invoke, hl]
        rw [if_pos hl, hinvoke]
        exact invokeGetListByTear_refines h hl
      · rw [if_neg hl, invokeReading_refines h]
        refine ⟨s, rfl, ?_⟩
        rcases Skeleton.invoke_list_of_read ha hd list with heq | ⟨hop, _, _⟩
        · rw [heq]
          exact h
        · exact absurd hop hl

/-! ## Any number of requests -/

/-- The replies and the list of a server that holds the cars themselves. -/
def runCars : List MessageT → Cars → List MessageT × Cars
  | [], list => ([], list)
  | msg :: msgs, list =>
    let r := runCars msgs (Skeleton.invoke msg list).list
    ((Skeleton.invoke msg list).msg :: r.1, r.2)

/-- A run is answered to its end, like that of the cars. -/
theorem run_refines (msgs : List MessageT) {s : State} {list : Cars} (h : Holds s list) :
    ∃ s', run msgs s = some ((runCars msgs list).1, s') ∧ Holds s' (runCars msgs list).2 := by
  induction msgs generalizing s list with
  | nil => exact ⟨s, rfl, h⟩
  | cons msg msgs ih =>
    obtain ⟨s', hs', h'⟩ := invoke_refines h msg
    obtain ⟨s'', hs'', h''⟩ := ih h'
    refine ⟨s'', ?_, h''⟩
    rw [run, hs']
    dsimp only
    rw [hs'']
    rfl

/-- **The list owns its records.**  Whatever the messages, a server is answered
without a dead record read or destroyed, with the live records in its nodes, each
in one; ordering only moves them, and `list_destroy` leaves none. -/
theorem records_owned (msgs : List MessageT) :
    ∃ s, run msgs start = some ((runCars msgs listCreate).1, s) ∧
      s.list.head.Nodup ∧ (∀ h ∈ s.list.head, s.store.Live h) ∧
      (∀ h, s.store.Live h → h ∈ s.list.head) ∧
      (∃ s', listOrderByYear s = some s' ∧ s'.store = s.store ∧
        s'.list.head.Perm s.list.head) ∧
      ∃ store, listDestroy s = some store ∧ ∀ h, ¬ store.Live h := by
  obtain ⟨s, hs, h⟩ := run_refines msgs holds_start
  obtain ⟨s', hs', hstore, hperm, _⟩ := listOrderByYear_refines h
  exact ⟨s, hs, h.owned.nodup, fun x hx => (h.owned.mem_iff x).mp hx,
    fun x hx => (h.owned.mem_iff x).mpr hx, ⟨s', hs', hstore, hperm⟩, h.owned.releaseAll⟩

end CarChain.Ownership
