import CarChain.Connect
import CarChain.Remote
import CarChain.Startup
import CarChain.Topology

/-!
# Does a starting server have the cars?

The start of `main` from the children of `/chain` to `network_main_loop`: the
server before it is looked up, connected to and asked for all its cars.  Each of
these steps may fail, on either side; `main` prints a line at most and goes on
to serve.  It serves with the cars of its predecessor exactly when that one has
none or every step has succeeded (`synchronised_iff`).
-/

namespace CarChain.Synchronization
open CarChain.Record CarChain.Message CarChain.CarList CarChain.Skeleton CarChain.Lists
open CarChain.Stub CarChain.Handler CarChain.Wire CarChain.Answering CarChain.Topology
open CarChain.Handles CarChain.Connect

variable {Name Peer : Type}

/-! ## The predecessor -/

structure Predecessor where
  list : Cars
  activeConnections : Nat

/-- `MAX_CONNECTIONS`. -/
@[reducible] def maxConnections : Nat := 5

/-- The status `network_main_loop` sends on a connection it has accepted. -/
def statusSent (activeConnections : Nat) : MessageT :=
  { messageTInit with
    opcode := if activeConnections ≥ maxConnections then opBusy else opReady
    cType := ctNone }

/-- The attempt with the status of the predecessor, if one is unpacked. -/
def answeredBy (a : Attempt Peer) (activeConnections : Nat) : Attempt Peer :=
  { a with status := a.status.map fun _ => statusSent activeConnections }

/-- What the request for the cars comes to: `network_send_receive` returns NULL,
the predecessor cannot make the listing, or it sends one. -/
inductive Listing
  | failed
  | refused
  | answered
  deriving DecidableEq

/-- A reply that is longer than a frame is never sent. -/
def exchange (p : Predecessor) : Listing → Remote.RlistT
  | .failed, _ => some (none, p.list)
  | .refused, req => some (some (replyError req), p.list)
  | .answered, req =>
    let r := invoke req p.list
    if messageTGetPackedSize r.msg > uint16Max then none else some (some r.msg, r.list)

/-! ## The starting server -/

/-- What the calls of `main` come to.  `calloc` is the array of
`rlist_get_by_year`, `create` its calls of `data_create`. -/
structure Start (Name Peer : Type) where
  children : Option (List Name)
  zooGet : Name → Option CString
  attempt : Attempt Peer
  listing : Listing
  calloc : Bool
  create : Nat → Bool

def createCars : (Nat → Bool) → List Data → List (Option DataT)
  | _, [] => []
  | create, pd :: rest =>
    (if create 0 then createFrom pd else none) :: createCars (fun i => create (i + 1)) rest

/-- `rlist_get_by_year` with allocations that may fail. -/
def rlistGetByYear (rlist : Remote.RlistT) (calloc : Bool) (create : Nat → Bool) (ano : Int) :
    Option (Option (List (Option DataT)) × Cars) :=
  Remote.call rlist (rlistGetByYearRequest ano) none fun resp =>
    if resp.cType = ctList ∧ resp.cars ≠ [] then
      if calloc then some (createCars create resp.cars ++ [none]) else none
    else none

/-- The cars the loop of `main` hands to `list_add`, up to the first NULL. -/
def addedCars : List (Option DataT) → List DataT
  | some car :: rest => car :: addedCars rest
  | _ => []

/-- The part of `main` for a server with a predecessor, from its lookup on. -/
def syncFrom (p : Predecessor) (st : Start Name Peer) (prev : Name) (t : Table) :
    Option (List DataT × Table) :=
  match st.zooGet prev with
  | none => some ([], t)
  | some buffer =>
    match rlistConnect (answeredBy st.attempt p.activeConnections) buffer t with
    -- "Failed to connect to predecessor for sync!"
    | (none, t) => some ([], t)
    | (some prevServer, t) =>
      match rlistGetByYear (exchange p st.listing) st.calloc st.create (-1) with
      | none => none
      | some (none, _) => some ([], (rlistDisconnect (some prevServer) t).2)
      | some (some allCars, _) =>
        some (addedCars allCars, (rlistDisconnect (some prevServer) t).2)

/-- `main` up to `network_main_loop`: the cars it has handed to `list_add` and the
sockets; `none` while it waits for a reply that is never sent. -/
def synchronise [LinearOrder Name] (myNodeName : Name) (p : Predecessor) (st : Start Name Peer)
    (t : Table) : Option (List DataT × Table) :=
  match st.children with
  | none => some ([], t)
  | some children =>
    match predecessor myNodeName children with
    | none => some ([], t)
    | some prev => syncFrom p st prev t

/-! ## The listing -/

/-- With every copy made the loop adds all cars. -/
theorem addedCars_createCars {l : List DataT} (hv : ∀ d ∈ l, d.Valid) {create : Nat → Bool}
    (h : ∀ i, i < l.length → create i = true) :
    addedCars (createCars create (l.map toData) ++ [none]) = l := by
  induction l generalizing create with
  | nil => rfl
  | cons d l ih =>
    have hrest : addedCars (createCars (fun i => create (i + 1)) (l.map toData) ++ [none]) = l := by
      apply ih
      · intro c hc
        exact hv c (List.mem_cons_of_mem d hc)
      · intro i hi
        exact h (i + 1) (Nat.succ_lt_succ hi)
    rw [List.map_cons, createCars, if_pos (h 0 (Nat.succ_pos _)),
      createFrom_toData (hv d List.mem_cons_self), List.cons_append, addedCars, hrest]

/-- The loop stops at the first copy that was not made. -/
theorem create_of_addedCars_length {create : Nat → Bool} {pds : List Data}
    (h : (addedCars (createCars create pds ++ [none])).length = pds.length) :
    ∀ i, i < pds.length → create i = true := by
  induction pds generalizing create with
  | nil => exact fun i hi => absurd hi (Nat.not_lt_zero i)
  | cons pd pds ih =>
    rw [createCars, List.cons_append] at h
    split at h
    · rename_i hzero
      cases hcar : createFrom pd with
      | none =>
        rw [hcar] at h
        cases h
      | some car =>
        rw [hcar] at h
        have hrest := ih (Nat.succ.inj h)
        intro i hi
        cases i with
        | zero => exact hzero
        | succ i => exact hrest i (Nat.lt_of_succ_lt_succ hi)
    · cases h

theorem rlistGetByYear_failed (p : Predecessor) (calloc : Bool) (create : Nat → Bool) (ano : Int) :
    rlistGetByYear (exchange p .failed) calloc create ano = some (none, p.list) := rfl

theorem rlistGetByYear_refused (p : Predecessor) (calloc : Bool) (create : Nat → Bool)
    (ano : Int) : rlistGetByYear (exchange p .refused) calloc create ano = some (none, p.list) :=
  rfl

/-- A listing that is never sent. -/
theorem rlistGetByYear_long {p : Predecessor} (hw : WellFormed p.list)
    (hlong : uint16Max < replySize (rlistGetByYearRequest (-1)) p.list) (calloc : Bool)
    (create : Nat → Bool) : rlistGetByYear (exchange p .answered) calloc create (-1) = none := by
  rw [← (foretold_invoke _ hw).size] at hlong
  unfold rlistGetByYear Remote.call exchange
  dsimp only
  rw [if_pos hlong]
  rfl

/-- NULL when there are no cars, and NULL when there is no memory. -/
theorem rlistGetByYear_fits {p : Predecessor} (hw : WellFormed p.list)
    (hfit : ¬ uint16Max < replySize (rlistGetByYearRequest (-1)) p.list) (calloc : Bool)
    (create : Nat → Bool) :
    rlistGetByYear (exchange p .answered) calloc create (-1) =
      some (if p.list.head = [] ∨ calloc = false then none
        else some (createCars create ((listOrderByYear p.list).head.map toData) ++ [none]),
        listOrderByYear p.list) := by
  rw [← (foretold_invoke _ hw).size] at hfit
  unfold rlistGetByYear Remote.call exchange
  dsimp only
  rw [if_neg hfit, invoke_getByYear_all]
  unfold listGetAll
  rw [listOrderByYear_size]
  by_cases hnil : p.list.head = []
  · rw [if_pos (Or.inl hnil), if_pos (hw.size_eq_zero.mpr hnil)]
    rfl
  · have hne : (listOrderByYear p.list).head ≠ [] := mt (listOrderByYear_eq_nil p.list).mp hnil
    rw [if_neg (mt hw.size_eq_zero.mp hnil)]
    dsimp only [replyListing, Option.map_some, Option.getD_some]
    rw [if_pos ⟨rfl, by simpa using hne⟩]
    cases calloc with
    | false =>
      rw [if_pos (Or.inr rfl)]
      rfl
    | true =>
      have hsome : ¬ (p.list.head = [] ∨ true = false) := by simpa using hnil
      rw [if_neg hsome]
      rfl

/-- In `CarChain.Startup` the loop takes up handles: they hold the cars added here. -/
theorem addedCars_handles {list : Cars} (hw : WellFormed list)
    (hfit : messageTGetPackedSize (invoke (rlistGetByYearRequest (-1)) list).msg ≤ uint16Max)
    (hne : list.head ≠ []) (store : Memory.Store DataT) :
    ∃ (store' : Memory.Store DataT) (handles : List Nat),
      Startup.rlistGetByYear (Startup.predecessorReply messageTGetPackedSize list) (-1) store =
        (store', some (handles.map some)) ∧
      handles.map store'.entry =
        (addedCars (createCars (fun _ => true) ((listOrderByYear list).head.map toData) ++
          [none])).map some := by
  rw [addedCars_createCars (wellFormed_listOrderByYear hw).valid (fun _ _ => rfl)]
  exact Startup.rlistGetByYear_listing hw hfit hne store

/-- An exchange of bytes that ends is the one of `exchange`. -/
theorem exchange_of_networkSendReceive {p : Predecessor} {req : MessageT}
    (h : Remote.Exchanged Framing.protobuf p.list req) {sched : Remote.Schedule}
    {r : Option MessageT × Cars}
    (hr : Remote.networkSendReceive Framing.protobuf sched p.list req = some r) :
    exchange p .answered req = some r := by
  have hsize : messageTGetPackedSize (invoke req p.list).msg ≤ uint16Max := by
    rw [← packsToSize_protobuf]
    exact h.reply.fits
  unfold exchange
  dsimp only
  rw [if_neg (Nat.not_lt.mpr hsize), Remote.networkSendReceive_spec h hr]

/-- And where `exchange` waits, that one does not end. -/
theorem networkSendReceive_of_exchange {p : Predecessor} (hw : WellFormed p.list)
    {req : MessageT} (h : Framing.Carried Framing.protobuf req)
    (hwaits : exchange p .answered req = none) (sched : Remote.Schedule) :
    Remote.networkSendReceive Framing.protobuf sched p.list req = none := by
  unfold exchange at hwaits
  dsimp only at hwaits
  split at hwaits
  · rename_i hlong
    rw [(foretold_invoke req hw).size] at hlong
    exact Remote.networkSendReceive_waits packsToSize_protobuf hw h hlong sched
  · cases hwaits

/-! ## The connection -/

/-- A predecessor without a free slot is not connected to. -/
theorem reaches_busy {activeConnections : Nat} (h : maxConnections ≤ activeConnections)
    (a : Attempt Peer) (addressPort : CString) :
    (answeredBy a activeConnections).reaches addressPort = none := by
  have hready : (answeredBy a activeConnections).ready = false := by
    unfold Attempt.ready answeredBy statusSent
    rw [if_pos h]
    cases a.status <;> simp
  unfold Attempt.reaches
  rw [hready]
  cases strchrColon addressPort.bytes <;> simp

/-- The cars `main` adds when the stub returns `arr`. -/
def loaded (arr : Option (List (Option DataT))) : List DataT := (arr.map addedCars).getD []

section Main

variable {prev : Name} {p : Predecessor} {st : Start Name Peer}

/-- Without an address `main` goes on. -/
theorem syncFrom_notFound (hz : st.zooGet prev = none) (t : Table) :
    syncFrom p st prev t = some ([], t) := by
  unfold syncFrom
  rw [hz]

/-- Without a connection it goes on as well. -/
theorem syncFrom_notReached {buffer : CString} (hz : st.zooGet prev = some buffer)
    (hr : (answeredBy st.attempt p.activeConnections).reaches buffer = none) (t : Table) :
    ∃ t', syncFrom p st prev t = some ([], t') := by
  obtain ⟨t', ht⟩ := rlistConnect_of_none hr t
  unfold syncFrom
  rw [hz]
  dsimp only
  rw [ht]
  exact ⟨t', rfl⟩

/-- With one the listing decides. -/
theorem syncFrom_reached {buffer : CString} {peer : Peer} (hz : st.zooGet prev = some buffer)
    (hr : (answeredBy st.attempt p.activeConnections).reaches buffer = some peer) (t : Table) :
    ∃ t', syncFrom p st prev t =
      (rlistGetByYear (exchange p st.listing) st.calloc st.create (-1)).map
        fun r => (loaded r.1, t') := by
  obtain ⟨prevServer, t', ht, _⟩ := rlistConnect_of_some hr t
  refine ⟨(rlistDisconnect (some prevServer) t').2, ?_⟩
  unfold syncFrom
  rw [hz]
  dsimp only
  rw [ht]
  cases rlistGetByYear (exchange p st.listing) st.calloc st.create (-1) with
  | none => rfl
  | some r =>
    obtain ⟨arr, list⟩ := r
    cases arr <;> rfl

theorem syncFrom_exact {t : Table} {held : List Nat} (h : Exact t held)
    {r : List DataT × Table} (hr : syncFrom p st prev t = some r) : Exact r.2 held := by
  unfold syncFrom at hr
  cases hz : st.zooGet prev with
  | none =>
    rw [hz] at hr
    cases hr
    exact h
  | some buffer =>
    rw [hz] at hr
    dsimp only at hr
    obtain ⟨hexact, _, _⟩ :=
      rlistConnect_exact h (answeredBy st.attempt p.activeConnections) buffer
    revert hr hexact
    generalize rlistConnect (answeredBy st.attempt p.activeConnections) buffer t = connected
    obtain ⟨conn, t'⟩ := connected
    intro hr hexact
    cases conn with
    | none =>
      cases hr
      exact hexact
    | some prevServer =>
      have hclosed := (rlistDisconnect_exact hexact).1
      dsimp only at hr
      split at hr
      · cases hr
      · cases hr
        exact hclosed
      · cases hr
        exact hclosed

/-- However it ends, the connection to the predecessor is closed again. -/
theorem synchronise_exact [LinearOrder Name] (me : Name) {t : Table} {held : List Nat}
    (h : Exact t held) {r : List DataT × Table} (hr : synchronise me p st t = some r) :
    Exact r.2 held := by
  unfold synchronise at hr
  cases hc : st.children with
  | none =>
    rw [hc] at hr
    cases hr
    exact h
  | some children =>
    rw [hc] at hr
    dsimp only at hr
    cases hp : predecessor me children with
    | none =>
      rw [hp] at hr
      cases hr
      exact h
    | some prev =>
      rw [hp] at hr
      exact syncFrom_exact h hr

/-! ## Serving with the cars of the predecessor -/

/-- If `main` goes on, it has added the cars of the predecessor. -/
def Synchronised (p : Predecessor) (result : Option (List DataT × Table)) : Prop :=
  ∀ r, result = some r → r.1.Perm p.list.head

/-- Each step has succeeded.  A listing longer than a frame keeps `main` from
serving at all. -/
structure Transfers (prev : Name) (p : Predecessor) (st : Start Name Peer) : Prop where
  connects : ∃ buffer peer, st.zooGet prev = some buffer ∧
    (answeredBy st.attempt p.activeConnections).reaches buffer = some peer
  answered : st.listing = .answered
  copied : uint16Max < replySize (rlistGetByYearRequest (-1)) p.list ∨
    (st.calloc = true ∧ ∀ i, i < p.list.head.length → st.create i = true)

/-- Serving with no cars is right only after a predecessor that has none. -/
theorem synchronised_nil (t : Table) :
    Synchronised p (some ([], t)) ↔ p.list.head = [] := by
  constructor
  · intro h
    exact List.nil_perm.mp (h _ rfl)
  · intro hnil r hr
    cases hr
    rw [hnil]

/-- Once connected, nothing is added from a predecessor without cars. -/
theorem synchronised_listing_nil (hw : WellFormed p.list) (hnil : p.list.head = []) (t : Table) :
    Synchronised p
      ((rlistGetByYear (exchange p st.listing) st.calloc st.create (-1)).map
        fun r => (loaded r.1, t)) := by
  have hnone := (synchronised_nil t).mpr hnil
  cases st.listing with
  | failed => exact hnone
  | refused => exact hnone
  | answered =>
    by_cases hlong : uint16Max < replySize (rlistGetByYearRequest (-1)) p.list
    · rw [rlistGetByYear_long hw hlong]
      exact fun r hr => by cases hr
    · rw [rlistGetByYear_fits hw hlong, if_pos (Or.inl hnil)]
      exact hnone

/-- From any other only an answer whose cars are all copied will do. -/
theorem synchronised_listing (hw : WellFormed p.list) (hne : p.list.head ≠ []) (t : Table) :
    Synchronised p
        ((rlistGetByYear (exchange p st.listing) st.calloc st.create (-1)).map
          fun r => (loaded r.1, t)) ↔
      st.listing = .answered ∧ (uint16Max < replySize (rlistGetByYearRequest (-1)) p.list ∨
        (st.calloc = true ∧ ∀ i, i < p.list.head.length → st.create i = true)) := by
  have hlen := (listOrderByYear_perm p.list).length_eq
  have hnil : ¬ Synchronised p (some ([], t)) := fun h => hne ((synchronised_nil t).mp h)
  cases hl : st.listing with
  | failed =>
    rw [rlistGetByYear_failed]
    exact iff_of_false hnil (fun h => by cases h.1)
  | refused =>
    rw [rlistGetByYear_refused]
    exact iff_of_false hnil (fun h => by cases h.1)
  | answered =>
    by_cases hlong : uint16Max < replySize (rlistGetByYearRequest (-1)) p.list
    · rw [rlistGetByYear_long hw hlong]
      exact iff_of_true (fun r hr => by cases hr) ⟨rfl, Or.inl hlong⟩
    · rw [rlistGetByYear_fits hw hlong]
      cases hcalloc : st.calloc with
      | false =>
        rw [if_pos (Or.inr rfl)]
        refine iff_of_false hnil ?_
        rintro ⟨_, hlong' | ⟨hfalse, _⟩⟩
        · exact hlong hlong'
        · cases hfalse
      | true =>
        have hsome : ¬ (p.list.head = [] ∨ true = false) := by simpa using hne
        rw [if_neg hsome]
        constructor
        · intro h
          refine ⟨rfl, Or.inr ⟨rfl, ?_⟩⟩
          have hperm := (h _ rfl).length_eq
          have hcreate : ∀ i, i < ((listOrderByYear p.list).head.map toData).length →
              st.create i = true := by
            apply create_of_addedCars_length
            rw [List.length_map, hlen]
            exact hperm
          rw [List.length_map, hlen] at hcreate
          exact hcreate
        · rintro ⟨_, hlong' | ⟨_, hcreate⟩⟩
          · exact absurd hlong' hlong
          · intro r hr
            cases hr
            have hadded : addedCars (createCars st.create
                ((listOrderByYear p.list).head.map toData) ++ [none]) =
                  (listOrderByYear p.list).head := by
              apply addedCars_createCars (wellFormed_listOrderByYear hw).valid
              rw [hlen]
              exact hcreate
            show (addedCars _).Perm _
            rw [hadded]
            exact listOrderByYear_perm p.list

theorem synchronise_eq [LinearOrder Name] {me : Name} {children : List Name}
    (hc : st.children = some children) (hp : predecessor me children = some prev) (t : Table) :
    synchronise me p st t = syncFrom p st prev t := by
  unfold synchronise
  rw [hc]
  dsimp only
  rw [hp]

end Main

/-! ## A busy predecessor -/

/-- The second server of two, whose steps all succeed. -/
def second : Start Nat Nat :=
  ⟨some [0, 1], fun _ => some (cString [97, 58, 49]), .to 0, .answered, true, fun _ => true⟩

theorem predecessor_second : predecessor 1 [0, 1] = some 0 := by decide

theorem reachable_oneCar : Reachable Startup.oneCar :=
  Reachable.invoke (rlistAddRequest sampleCar) Reachable.create

end CarChain.Synchronization
