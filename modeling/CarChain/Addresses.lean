import CarChain.Commands
import CarChain.Connect
import CarChain.Names
import CarChain.Watcher

/-!
# From the command line of a server to the connection of another

`main` of `list_server.c` reads its port, formats its address and stores it in
the data of its node; other servers read it there, compare it with the one they
know and have `rlist_connect` take it apart, which gives the endpoint back
(`target_address`).  So a server that has a connection after a run of
`chain_watcher` has it to where the next server listens, whatever failed before
(`leads_to_next`).  The data of a node never changes.
-/

namespace CarChain.Addresses
open CarChain.Record CarChain.Connect CarChain.Commands CarChain.Decimal CarChain.Watcher
open CarChain.Handles (Table)
open CarChain.Names (nodeName)

/-! ## The port -/

/-- `(short)atoi(argv[2])`, unless `main` refuses it. -/
def serverPort (arg : CString) : Option Int :=
  let port := (atoi arg.bytes).bmod 65536
  if port ≤ 1023 then none else some port

theorem serverPort_eq_some {arg : CString} {port : Int} :
    serverPort arg = some port ↔
      1024 ≤ port ∧ port ≤ 32767 ∧ atoi arg.bytes % 65536 = port := by
  unfold serverPort
  have hle := Int.le_bmod (x := atoi arg.bytes) (m := 65536) (by decide)
  have hlt := Int.bmod_lt (x := atoi arg.bytes) (m := 65536) (by decide)
  have hmod := Int.bmod_emod (x := atoi arg.bytes) (m := 65536)
  dsimp only
  constructor
  · intro h
    split at h
    · cases h
    · cases h
      omega
  · rintro ⟨hlow, hhigh, hport⟩
    have heq : (atoi arg.bytes).bmod 65536 = port := by omega
    rw [heq, if_neg (by omega)]

/-! ## The address -/

/-- Where a server listens. -/
structure Endpoint where
  ip : CString
  port : Int
  deriving DecidableEq

/-- `snprintf(my_addr, sizeof(my_addr), "%s:%d", my_ip, port)`. -/
def myAddr (e : Endpoint) : CString := cString ((e.ip.bytes ++ 58 :: signed e.port).take 255)

/-- The data of the node, with the terminator. -/
def nodeData (addr : CString) : List UInt8 := addr.bytes ++ [0]

/-- What `zoo_get` leaves in a buffer of 1024 bytes. -/
def zooBuffer (data : List UInt8) : CString := cString (data.take 1024)

/-- What the others read in the node of a server. -/
def address (e : Endpoint) : CString := zooBuffer (nodeData (myAddr e))

/-- The IP is in a buffer of 64 bytes and has no colon; `main` accepted the port. -/
structure Endpoint.Registered (e : Endpoint) : Prop where
  noColon : 58 ∉ e.ip.bytes
  short : strlen e.ip ≤ 63
  accepted : ∃ arg, serverPort arg = some e.port

theorem strchrColon_append {ip rest : List UInt8} (h : 58 ∉ ip) :
    strchrColon (ip ++ 58 :: rest) = some (ip, rest) := by
  induction ip with
  | nil => rfl
  | cons b ip ih =>
    rw [List.mem_cons, not_or] at h
    rw [List.cons_append, strchrColon, if_neg (Ne.symm h.1), ih h.2]
    rfl

theorem cString_noNul {l : List UInt8} (h : 0 ∉ l) : (cString l).bytes = l :=
  congrArg CString.bytes (Decoding.cString_bytes ⟨l, h⟩)

theorem signed_noNul (x : Int) : 0 ∉ signed x := by
  intro h
  rcases mem_signed h with h | h
  · cases h
  · revert h
    decide

/-- A port takes five digits at most. -/
theorem length_signed_le {port : Int} (h : 1024 ≤ port ∧ port ≤ 32767) :
    (signed port).length ≤ 5 := by
  have hn : port.natAbs < 10 ^ 5 := by omega
  unfold signed decimal
  rw [if_neg (by omega), if_neg (by omega), List.length_reverse, List.length_map]
  exact (Nat.digits_length_le_iff (by decide) _).mpr hn

/-- An address that fits the buffer is read as it was stored. -/
theorem zooBuffer_nodeData {addr : CString} (h : strlen addr ≤ 1023) :
    zooBuffer (nodeData addr) = addr := by
  have hlen : (addr.bytes ++ [0]).length ≤ 1024 := by
    rw [List.length_append, List.length_singleton]
    exact Nat.succ_le_succ h
  have hnonzero : ∀ b ∈ addr.bytes, decide (b ≠ 0) = true := by
    intro b hb
    rw [decide_eq_true_eq]
    rintro rfl
    exact addr.noNul hb
  have hbytes : (zooBuffer (nodeData addr)).bytes = addr.bytes := by
    show ((addr.bytes ++ [0]).take 1024).takeWhile (· ≠ 0) = addr.bytes
    rw [List.take_of_length_le hlen, List.takeWhile_append_of_pos hnonzero]
    exact List.append_nil _
  cases addr
  exact (CString.mk.injEq ..).mpr hbytes

/-- Nothing of an address is lost on the way. -/
theorem address_bytes {e : Endpoint} (h : e.Registered) :
    (address e).bytes = e.ip.bytes ++ 58 :: signed e.port := by
  obtain ⟨arg, harg⟩ := h.accepted
  have hport := serverPort_eq_some.mp harg
  have hdigits := length_signed_le ⟨hport.1, hport.2.1⟩
  have hshort : e.ip.bytes.length ≤ 63 := h.short
  have hlen : (e.ip.bytes ++ 58 :: signed e.port).length ≤ 69 := by
    rw [List.length_append, List.length_cons]
    omega
  have hnul : 0 ∉ e.ip.bytes ++ 58 :: signed e.port := by
    rw [List.mem_append, List.mem_cons]
    rintro (hb | hb | hb)
    · exact e.ip.noNul hb
    · cases hb
    · exact signed_noNul _ hb
  have hmy : (myAddr e).bytes = e.ip.bytes ++ 58 :: signed e.port := by
    rw [myAddr, List.take_of_length_le (by omega), cString_noNul hnul]
  rw [address, zooBuffer_nodeData, hmy]
  show (myAddr e).bytes.length ≤ 1023
  rw [hmy]
  omega

/-- Where `rlist_connect` connects to. -/
def target (addressPort : CString) : Option Endpoint :=
  (strchrColon addressPort.bytes).map fun r => ⟨cString r.1, atoi r.2⟩

/-- **An address leads back.** -/
theorem target_address {e : Endpoint} (h : e.Registered) : target (address e) = some e := by
  obtain ⟨arg, harg⟩ := h.accepted
  have hport : Decoding.Int32 e.port := by
    obtain ⟨hlow, hhigh, _⟩ := serverPort_eq_some.mp harg
    constructor <;> omega
  rw [target, address_bytes h, strchrColon_append h.noColon, Option.map_some,
    Decoding.cString_bytes, atoi_signed hport]

/-! ## The watcher -/

variable {Peer : Type}

/-- What a run of `chain_watcher` meets: the children of `/chain`, the data of a
node if `zoo_get` gives it, and how the calls of `rlist_connect` go. -/
structure Run (Peer : Type) where
  children : List CString
  data : CString → Option (List UInt8)
  attempt : Attempt Peer
  table : Table

def runWatcher (me : CString) (r : Run Peer) (w : WatcherState CString (RlistT Peer)) :
    WatcherRun CString (RlistT Peer) :=
  chainWatcher (fun name => (r.data name).map zooBuffer)
    (fun addr => (rlistConnect r.attempt addr r.table).1) me r.children w

/-- The static variables after a number of runs. -/
def afterRuns (me : CString) (runs : List (Run Peer)) : WatcherState CString (RlistT Peer) :=
  runs.foldl (fun w r => (runWatcher me r w).state) ⟨none, none, false⟩

/-- The nodes hold what their servers registered. -/
def Run.Reads (r : Run Peer) (registry : CString → Option Endpoint) : Prop :=
  ∀ name data, r.data name = some data →
    ∃ e, registry name = some e ∧ data = nodeData (myAddr e)

/-- The other end of a connection. -/
def endpoint (rlist : RlistT Peer) : Endpoint := ⟨rlist.serverAddress, rlist.serverPort⟩

theorem target_of_networkConnect {a : Attempt Peer} {ip : CString} {port : Int} {t t' : Table}
    {rlist : RlistT Peer} (h : networkConnect a ip port t = (some rlist, t')) :
    endpoint rlist = ⟨ip, port⟩ := by
  unfold networkConnect at h
  split at h
  · cases h
  split at h
  · cases h
  split at h
  · cases h
  · cases h
    rfl

theorem target_of_rlistConnect {a : Attempt Peer} {addr : CString} {t : Table}
    {rlist : RlistT Peer} (h : (rlistConnect a addr t).1 = some rlist) :
    target addr = some (endpoint rlist) := by
  unfold rlistConnect at h
  unfold target
  split at h
  · cases h
  split at h
  · cases h
  · rename_i ip port hcolon
    rw [hcolon]
    split at h
    · cases h
    split at h
    · cases h
    · rename_i rlist' t' hconnect
      rw [awaitStatus_eq] at h
      split at h
      · cases h
        rw [target_of_networkConnect hconnect]
        rfl
      · cases h

/-- A connection is one to the address that is remembered. -/
def Remembered (w : WatcherState CString (RlistT Peer)) : Prop :=
  ∀ conn, w.nextServerConn = some conn →
    ∃ addr, w.nextServerAddr = some addr ∧ target addr = some (endpoint conn)

theorem remembered_runWatcher (me : CString) (r : Run Peer)
    {w : WatcherState CString (RlistT Peer)} (hw : Remembered w) :
    Remembered (runWatcher me r w).state := by
  unfold runWatcher chainWatcher
  split
  · exact hw
  · intro conn hconn
    cases hconn
  split
  · exact hw
  split
  · exact hw
  · intro conn hconn
    exact ⟨_, rfl, target_of_rlistConnect hconn⟩

theorem remembered_afterRuns (me : CString) (runs : List (Run Peer)) :
    Remembered (afterRuns me runs) := by
  refine List.foldlRecOn runs _ ?_ fun w hw r _ => remembered_runWatcher me r hw
  intro conn hconn
  cases hconn

/-- An address that is remembered is that of a registered endpoint. -/
def FromRegistry (w : WatcherState CString (RlistT Peer)) : Prop :=
  ∀ addr, w.nextServerAddr = some addr → ∃ e, e.Registered ∧ addr = address e

theorem fromRegistry_runWatcher {registry : CString → Option Endpoint}
    (hregistry : ∀ name e, registry name = some e → e.Registered) (me : CString) {r : Run Peer}
    (hr : r.Reads registry) {w : WatcherState CString (RlistT Peer)} (hw : FromRegistry w) :
    FromRegistry (runWatcher me r w).state := by
  unfold runWatcher chainWatcher
  split
  · exact hw
  · intro addr haddr
    cases haddr
  split
  · exact hw
  · rename_i next _ buffer hread
    obtain ⟨data, hdata, rfl⟩ := Option.map_eq_some_iff.mp hread
    obtain ⟨e, he, rfl⟩ := hr _ data hdata
    split
    · exact hw
    · intro addr haddr
      exact ⟨e, hregistry _ e he, (Option.some.inj haddr).symm⟩

theorem fromRegistry_afterRuns {registry : CString → Option Endpoint}
    (hregistry : ∀ name e, registry name = some e → e.Registered) (me : CString)
    {runs : List (Run Peer)} (hruns : ∀ r ∈ runs, r.Reads registry) :
    FromRegistry (afterRuns me runs) := by
  refine List.foldlRecOn runs _ ?_ fun w hw r hr =>
    fromRegistry_runWatcher hregistry me (hruns r hr) hw
  intro addr haddr
  cases haddr

/-- A run that reads the address of the next server remembers it, and hands over
a new connection unless it knew it. -/
theorem runWatcher_next {me next : CString} {r : Run Peer} {data : List UInt8}
    (hnext : place me r.children = .hasSuccessor next) (hread : r.data next = some data)
    (w : WatcherState CString (RlistT Peer)) :
    (runWatcher me r w).state.nextServerAddr = some (zooBuffer data) ∧
      ((runWatcher me r w).setSuccessor = none ↔ w.nextServerAddr = some (zooBuffer data)) := by
  unfold runWatcher chainWatcher
  rw [hnext]
  dsimp only
  rw [hread, Option.map_some]
  dsimp only
  split
  · rename_i hsame
    exact ⟨hsame, iff_of_true rfl hsame⟩
  · rename_i hnew
    exact ⟨rfl, iff_of_false (Option.some_ne_none _) hnew⟩

/-- `192.168.1.7`, with the port 66560 on the command line. -/
def sampleEndpoint : Endpoint := ⟨cString (text "192.168.1.7"), 1024⟩

def sampleRegistry (name : CString) : Option Endpoint :=
  if name = nodeName 1 then some sampleEndpoint else none

/-- The node 1 has joined behind the node 0. -/
def sampleRun : Run Nat where
  children := [nodeName 1, nodeName 0]
  data name := (sampleRegistry name).map fun e => nodeData (myAddr e)
  attempt := .to 1
  table := Handles.empty

/-- A node that cannot be read, a server that is busy, and one that is gone. -/
def failedRuns : List (Run Nat) :=
  [{ sampleRun with data := fun _ => none }, { sampleRun with attempt := .busy 1 },
    { sampleRun with children := [nodeName 0] }]

end CarChain.Addresses
