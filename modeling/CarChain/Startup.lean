import CarChain.Handler
import CarChain.Lists
import CarChain.Lib.Memory
import CarChain.Wire

/-!
# State transfer at startup

`main` of a server with a predecessor asks it for all its cars and adds them to
its own, still empty list.  Here records lie in a store and the nodes of the
list hold handles: `list_add` keeps the handle it is given, and the loop of
`main` destroys that very record right after.  The new list has as many nodes as
the predecessor has cars (`syncState_size`), but none of them holds a record:
the state arrives only from a predecessor without cars (`sync_delivers_iff`).
-/

namespace CarChain.Startup
open CarChain.Record CarChain.Message CarChain.CarList CarChain.Skeleton CarChain.Stub
open CarChain.Handler CarChain.Lists CarChain.Memory

/-- `network_send`: nothing is sent of a message longer than a frame. -/
def networkSend (packedSize : MessageT → Nat) (msg : MessageT) : Option MessageT :=
  if packedSize msg > uint16Max then none else some msg

/-- What the predecessor sends back. -/
def predecessorReply (packedSize : MessageT → Nat) (list : Cars) (req : MessageT) :
    Option MessageT := networkSend packedSize (handleClient none req list).reply

/-- `data_create` on a car of the reply; NULL when it refuses. -/
def createCar (store : Store DataT) (pd : Data) : Store DataT × Option Nat :=
  match createFrom pd with
  | none => (store, none)
  | some d => (store.create d, some store.next)

def createCars (store : Store DataT) : List Data → Store DataT × List (Option Nat)
  | [] => (store, [])
  | pd :: rest =>
    let r := createCar store pd
    let r' := createCars r.1 rest
    (r'.1, r.2 :: r'.2)

/-- The array of copies, or NULL.  `exchange` is `network_send_receive`. -/
def rlistGetByYear (exchange : MessageT → Option MessageT) (ano : Int) (store : Store DataT) :
    Store DataT × Option (List (Option Nat)) :=
  match exchange (rlistGetByYearRequest ano) with
  | none => (store, none)
  | some resp =>
    if resp.cType = ctList ∧ resp.cars ≠ [] then
      let r := createCars store resp.cars
      (r.1, some r.2)
    else (store, none)

/-- The records of the starting server and the list of their handles. -/
structure State where
  store : Store DataT
  list : ListT Nat

/-- The loop of `main` over the received cars, up to the first NULL. -/
def syncLoop (s : State) : List (Option Nat) → State
  | [] => s
  | none :: _ => s
  | some car :: rest => syncLoop ⟨s.store.destroy car, listAdd s.list car⟩ rest

/-- The synchronisation, once `rlist_connect` has returned. -/
def syncState (prevServer : Option (MessageT → Option MessageT)) (s : State) : State :=
  match prevServer with
  | none => s
  | some exchange =>
    match rlistGetByYear exchange (-1) s.store with
    | (store, none) => { s with store := store }
    | (store, some allCars) => syncLoop { s with store := store } allCars

/-! ## The received copies -/

theorem createCars_toData (store : Store DataT) {l : List DataT} (hv : ∀ d ∈ l, d.Valid) :
    ∃ handles : List Nat, (createCars store (l.map toData)).2 = handles.map some ∧
      (∀ h ∈ handles, store.next ≤ h) ∧
      (∀ h, h < store.next → (createCars store (l.map toData)).1.entry h = store.entry h) ∧
      handles.map (createCars store (l.map toData)).1.entry = l.map some := by
  induction l generalizing store with
  | nil => exact ⟨[], rfl, by simp, fun _ _ => rfl, rfl⟩
  | cons d l ih =>
    have hcar : createCar store (toData d) = (store.create d, some store.next) := by
      rw [createCar, createFrom_toData (hv d List.mem_cons_self)]
    obtain ⟨handles, hs, hn, hold, hread⟩ :=
      ih (store.create d) fun c hc => hv c (List.mem_cons_of_mem _ hc)
    have hc : createCars store ((d :: l).map toData) =
        ((createCars (store.create d) (l.map toData)).1,
          some store.next :: (createCars (store.create d) (l.map toData)).2) := by
      rw [List.map_cons, createCars, hcar]
    rw [hc]
    refine ⟨store.next :: handles, by rw [hs]; rfl, ?_, ?_, ?_⟩
    · intro h hh
      rcases List.mem_cons.mp hh with rfl | hh
      · exact Nat.le_refl _
      · have := hn h hh
        rw [Store.create_next] at this
        omega
    · intro h hh
      rw [hold h (by rw [Store.create_next]; omega), Store.create_entry_of_lt store d hh]
    · rw [List.map_cons, List.map_cons, hread, hold _ (Nat.lt_succ_self _),
        Store.create_entry_self]

/-- What a listing of year -1 sends back. -/
theorem predecessorReply_listing {packedSize : MessageT → Nat} {list : Cars}
    (hfit : packedSize (invoke (rlistGetByYearRequest (-1)) list).msg ≤ uint16Max) :
    predecessorReply packedSize list (rlistGetByYearRequest (-1)) =
      some (replyListing (rlistGetByYearRequest (-1)) (listGetAll (listOrderByYear list))) := by
  rw [predecessorReply, handleClient_none, networkSend, if_neg (Nat.not_lt.mpr hfit),
    invoke_getByYear_all]

/-- **The copies are right.**  Before the loop runs, the array holds a fresh
record for each car of the predecessor, in the order the listing gave them. -/
theorem rlistGetByYear_listing {packedSize : MessageT → Nat} {list : Cars} (hw : WellFormed list)
    (hfit : packedSize (invoke (rlistGetByYearRequest (-1)) list).msg ≤ uint16Max)
    (hne : list.head ≠ []) (store : Store DataT) :
    ∃ (store' : Store DataT) (handles : List Nat),
      rlistGetByYear (predecessorReply packedSize list) (-1) store =
        (store', some (handles.map some)) ∧
      handles.map store'.entry = (listOrderByYear list).head.map some := by
  have hne' : (listOrderByYear list).head ≠ [] := mt (listOrderByYear_eq_nil list).mp hne
  have hsize : (listOrderByYear list).size ≠ 0 :=
    mt (wellFormed_listOrderByYear hw).size_eq_zero.mp hne'
  have hv : ∀ d ∈ (listOrderByYear list).head, d.Valid :=
    (wellFormed_listOrderByYear hw).valid
  obtain ⟨handles, hs, _, _, hread⟩ := createCars_toData store hv
  refine ⟨_, handles, ?_, hread⟩
  rw [rlistGetByYear, predecessorReply_listing hfit, listGetAll, if_neg hsize]
  dsimp only [replyListing]
  rw [if_pos ⟨rfl, by simpa using hne'⟩, hs]

/-- There is nothing to add from a predecessor without cars. -/
theorem rlistGetByYear_empty {packedSize : MessageT → Nat} {list : Cars} (hw : WellFormed list)
    (hfit : packedSize (invoke (rlistGetByYearRequest (-1)) list).msg ≤ uint16Max)
    (hnil : list.head = []) (store : Store DataT) :
    rlistGetByYear (predecessorReply packedSize list) (-1) store = (store, none) := by
  have hsize : (listOrderByYear list).size = 0 := by
    rw [listOrderByYear_size]
    exact hw.size_eq_zero.mpr hnil
  rw [rlistGetByYear, predecessorReply_listing hfit, listGetAll, if_pos hsize]
  simp [replyListing, replyError]

/-! ## The loop -/

/-- Over an array without NULL the loop adds every handle and destroys every
record. -/
theorem syncLoop_handles (s : State) (handles : List Nat) :
    syncLoop s (handles.map some) =
      ⟨handles.foldl Store.destroy s.store,
        ⟨s.list.size + handles.length, s.list.head ++ handles⟩⟩ := by
  induction handles generalizing s with
  | nil => simp [syncLoop]
  | cons h handles ih =>
    rw [List.map_cons, syncLoop, ih]
    simp only [listAdd, List.foldl_cons, List.length_cons, List.append_assoc,
      List.singleton_append, State.mk.injEq, ListT.mk.injEq, and_true, true_and]
    omega

theorem syncState_listing {packedSize : MessageT → Nat} {list : Cars} (hw : WellFormed list)
    (hfit : packedSize (invoke (rlistGetByYearRequest (-1)) list).msg ≤ uint16Max)
    (hne : list.head ≠ []) (store : Store DataT) :
    ∃ (store' : Store DataT) (handles : List Nat),
      syncState (some (predecessorReply packedSize list)) ⟨store, listCreate⟩ =
        ⟨handles.foldl Store.destroy store', ⟨handles.length, handles⟩⟩ ∧
      handles.map store'.entry = (listOrderByYear list).head.map some := by
  obtain ⟨store', handles, hr, hread⟩ := rlistGetByYear_listing hw hfit hne store
  refine ⟨store', handles, ?_, hread⟩
  rw [syncState]
  dsimp only
  rw [hr]
  dsimp only
  rw [syncLoop_handles]
  simp [listCreate]

theorem syncState_empty {packedSize : MessageT → Nat} {list : Cars} (hw : WellFormed list)
    (hfit : packedSize (invoke (rlistGetByYearRequest (-1)) list).msg ≤ uint16Max)
    (hnil : list.head = []) (store : Store DataT) :
    syncState (some (predecessorReply packedSize list)) ⟨store, listCreate⟩ =
      ⟨store, listCreate⟩ := by
  rw [syncState]
  dsimp only
  rw [rlistGetByYear_empty hw hfit hnil]

/-- The sizes agree, whatever became of the records. -/
theorem syncState_size {packedSize : MessageT → Nat} {list : Cars} (hw : WellFormed list)
    (hfit : packedSize (invoke (rlistGetByYearRequest (-1)) list).msg ≤ uint16Max)
    (store : Store DataT) :
    (syncState (some (predecessorReply packedSize list)) ⟨store, listCreate⟩).list.size =
      list.size := by
  by_cases hnil : list.head = []
  · rw [syncState_empty hw hfit hnil, hw.size, hnil]
    rfl
  · obtain ⟨store', handles, hs, hread⟩ := syncState_listing hw hfit hnil store
    have hlen := congrArg List.length hread
    rw [List.length_map, List.length_map, (listOrderByYear_perm list).length_eq] at hlen
    rw [hs, hw.size, hlen]

/-! ## What arrives -/

/-- The cars in the order of their years, those of one year as they stood. -/
def stableByYear (l : List DataT) : List DataT := l.mergeSort fun a b => a.ano ≤ b.ano

/-- The predecessor's state has arrived. -/
structure Delivered (list : Cars) (s : State) : Prop where
  live : ∀ car ∈ s.list.head, s.store.Live car
  cars : s.list.head.filterMap s.store.entry = stableByYear list.head

theorem delivered_of_noCars {packedSize : MessageT → Nat} {list : Cars} (hw : WellFormed list)
    (hfit : packedSize (invoke (rlistGetByYearRequest (-1)) list).msg ≤ uint16Max)
    (hnil : list.head = []) (store : Store DataT) :
    Delivered list
      (syncState (some (predecessorReply packedSize list)) ⟨store, listCreate⟩) := by
  rw [syncState_empty hw hfit hnil]
  refine ⟨by simp [listCreate], ?_⟩
  rw [hnil]
  simp [listCreate, stableByYear]

/-- The first node already holds a destroyed record. -/
theorem not_delivered_of_cars {packedSize : MessageT → Nat} {list : Cars} (hw : WellFormed list)
    (hfit : packedSize (invoke (rlistGetByYearRequest (-1)) list).msg ≤ uint16Max)
    (hne : list.head ≠ []) (store : Store DataT) :
    ¬ Delivered list
      (syncState (some (predecessorReply packedSize list)) ⟨store, listCreate⟩) := by
  intro hd
  obtain ⟨store', handles, hs, hread⟩ := syncState_listing hw hfit hne store
  have hlive := hd.live
  rw [hs] at hlive
  cases handles with
  | nil =>
    have hnil := List.map_eq_nil_iff.mp hread.symm
    exact hne ((listOrderByYear_eq_nil list).mp hnil)
  | cons h handles =>
    exact Store.destroyAll_dead store' List.mem_cons_self (hlive h List.mem_cons_self)

/-- **The predecessor's state arrives** exactly when it has no cars. -/
theorem sync_delivers_iff (packedSize : MessageT → Nat) (list : Cars) (hw : WellFormed list)
    (hfit : packedSize (invoke (rlistGetByYearRequest (-1)) list).msg ≤ uint16Max)
    (store : Store DataT) :
    Delivered list (syncState (some (predecessorReply packedSize list)) ⟨store, listCreate⟩) ↔
      list.head = [] := by
  constructor
  · intro hd
    by_contra hne
    exact not_delivered_of_cars hw hfit hne store hd
  · intro hnil
    exact delivered_of_noCars hw hfit hnil store

theorem sync_delivers_iff_noCars :
    Delivered listCreate
      (syncState (some (predecessorReply Wire.messageTGetPackedSize listCreate))
        ⟨Store.empty, listCreate⟩) :=
  (sync_delivers_iff Wire.messageTGetPackedSize listCreate wellFormed_listCreate (by decide)
    Store.empty).mpr rfl

/-- A predecessor that was sent one car. -/
def oneCar : Cars := (invoke (rlistAddRequest sampleCar) listCreate).list

/-- A single car does not arrive. -/
theorem sync_loses_oneCar :
    ¬ ∀ list : Cars, Reachable list →
      Wire.messageTGetPackedSize (invoke (rlistGetByYearRequest (-1)) list).msg ≤ uint16Max →
      ∀ store : Store DataT,
        Delivered list
          (syncState (some (predecessorReply Wire.messageTGetPackedSize list))
            ⟨store, listCreate⟩) := by
  intro hall
  have hreach : Reachable oneCar := .invoke _ .create
  have hfit : Wire.messageTGetPackedSize (invoke (rlistGetByYearRequest (-1)) oneCar).msg ≤
      uint16Max := by decide
  exact not_delivered_of_cars hreach.wellFormed hfit (by decide) Store.empty
    (hall oneCar hreach hfit Store.empty)

end CarChain.Startup
