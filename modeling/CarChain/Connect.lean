import CarChain.Lib.Handles
import CarChain.Message

/-!
# Opening and closing connections

`rlist_connect` and `rlist_disconnect` of `client_stub.c` with
`network_connect` and `network_close`.  Sockets are handles of a table; what
each call on the way comes to is given (`Attempt`).  A connection that is not
returned has had its socket closed, whichever step failed
(`rlistConnect_spec`).
-/

namespace CarChain.Connect
open CarChain.Record CarChain.Message CarChain.Handles

variable {Peer : Type}

/-- `struct rlist_t`; `sockfd` is `none` for -1.  `peer` is the server that
accepted the connection. -/
structure RlistT (Peer : Type) where
  serverAddress : CString
  serverPort : Int
  sockfd : Option Nat
  peer : Peer

/-- What the calls of `rlist_connect` come to.  A `read_all` that fails and an
unpacking that gives NULL are told apart, as they are in the code. -/
structure Attempt (Peer : Type) where
  mallocRlist : Bool
  mallocAddress : Bool
  socket : Bool
  inetPton : CString → Bool
  connect : CString → Int → Option Peer
  readSize : Bool
  mallocStatus : Bool
  readStatus : Bool
  status : Option MessageT

/-- The text before the first ':' and the text after it. -/
def strchrColon : List UInt8 → Option (List UInt8 × List UInt8)
  | [] => none
  | b :: rest =>
    if b = 58 then some ([], rest) else (strchrColon rest).map fun r => (b :: r.1, r.2)

def strtolDigits : Int → List UInt8 → Int
  | n, [] => n
  | n, b :: rest => if 48 ≤ b ∧ b ≤ 57 then strtolDigits (n * 10 + (b.toNat - 48)) rest else n

def isspace (b : UInt8) : Bool := b = 32 || (9 ≤ b && b ≤ 13)

/-- The number `strtol` reads, before it stops at the ends of a `long`. -/
def strtol (s : List UInt8) : Int :=
  match s.dropWhile isspace with
  | 45 :: rest => -strtolDigits 0 rest
  | 43 :: rest => strtolDigits 0 rest
  | digits => strtolDigits 0 digits

/-- `atoi`: what `strtol` returns, cut to an `int`. -/
def atoi (s : List UInt8) : Int :=
  (max (-9223372036854775808) (min 9223372036854775807 (strtol s))).bmod 4294967296

/-- The socket is closed on the failures after it was opened. -/
def networkConnect (a : Attempt Peer) (serverAddress : CString) (serverPort : Int) (t : Table) :
    Option (RlistT Peer) × Table :=
  if a.socket = false then (none, t)
  else
    let sockfd := t.next
    let t := acquire t
    if a.inetPton serverAddress = false then (none, release t sockfd)
    else
      match a.connect serverAddress serverPort with
      | none => (none, release t sockfd)
      | some peer => (some ⟨serverAddress, serverPort, some sockfd, peer⟩, t)

def networkClose (rlist : RlistT Peer) (t : Table) : Table :=
  match rlist.sockfd with
  | none => t
  | some sockfd => release t sockfd

/-- The half of `rlist_connect` that waits for the status of the server. -/
def awaitStatus (a : Attempt Peer) (rlist : RlistT Peer) (t : Table) :
    Option (RlistT Peer) × Table :=
  if a.readSize = false then (none, networkClose rlist t)
  else if a.mallocStatus = false then (none, networkClose rlist t)
  else if a.readStatus = false then (none, networkClose rlist t)
  else
    match a.status with
    | none => (none, networkClose rlist t)
    | some status =>
      if status.opcode = opBusy then (none, networkClose rlist t)
      else if status.opcode ≠ opReady then (none, networkClose rlist t)
      else (some rlist, t)

def rlistConnect (a : Attempt Peer) (addressPort : CString) (t : Table) :
    Option (RlistT Peer) × Table :=
  if a.mallocRlist = false then (none, t)
  else
    match strchrColon addressPort.bytes with
    | none => (none, t)
    | some (ip, port) =>
      if a.mallocAddress = false then (none, t)
      else
        match networkConnect a (cString ip) (atoi port) t with
        | (none, t) => (none, t)
        | (some rlist, t) => awaitStatus a rlist t

/-- NULL is refused; otherwise the socket is closed unless it is -1. -/
def rlistDisconnect (rlist : Option (RlistT Peer)) (t : Table) : Int × Table :=
  match rlist with
  | none => (-1, t)
  | some rlist => (0, networkClose rlist t)

/-- Nothing fails and `peer` is ready. -/
def Attempt.to (peer : Peer) : Attempt Peer where
  mallocRlist := true
  mallocAddress := true
  socket := true
  inetPton _ := true
  connect _ _ := some peer
  readSize := true
  mallocStatus := true
  readStatus := true
  status := some { messageTInit with opcode := opReady, cType := ctNone }

/-- `peer` has no free slot. -/
def Attempt.busy (peer : Peer) : Attempt Peer :=
  { Attempt.to peer with
    status := some { messageTInit with opcode := opBusy, cType := ctNone } }

/-! ## What an attempt leaves -/

/-- The status arrives and says that the server is ready. -/
def Attempt.ready (a : Attempt Peer) : Bool :=
  a.readSize && a.mallocStatus && a.readStatus && a.status.map MessageT.opcode = some opReady

/-- The server `network_connect` connects to, if it does. -/
def Attempt.connected (a : Attempt Peer) (serverAddress : CString) (serverPort : Int) :
    Option Peer :=
  if a.socket && a.inetPton serverAddress then a.connect serverAddress serverPort
  else none

/-- The server `rlist_connect` returns a connection to, if it returns one. -/
def Attempt.reaches (a : Attempt Peer) (addressPort : CString) : Option Peer :=
  match strchrColon addressPort.bytes with
  | none => none
  | some (ip, port) =>
    if a.mallocRlist && a.mallocAddress && a.ready then a.connected (cString ip) (atoi port)
    else none

/-- A connection to `peer` on a new socket, or no connection and no new open
socket. -/
def Leaves (t : Table) (peer : Option Peer) (r : Option (RlistT Peer) × Table) : Prop :=
  (∃ rlist, r = (some rlist, acquire t) ∧ rlist.sockfd = some t.next ∧ peer = some rlist.peer) ∨
  (r.1 = none ∧ peer = none ∧ (r.2 = t ∨ r.2 = release (acquire t) t.next))

theorem leaves_none {t t' : Table} (h : t' = t ∨ t' = release (acquire t) t.next) :
    Leaves t (none : Option Peer) (none, t') := Or.inr ⟨rfl, rfl, h⟩

theorem networkConnect_spec (a : Attempt Peer) (serverAddress : CString) (serverPort : Int)
    (t : Table) :
    Leaves t (a.connected serverAddress serverPort)
      (networkConnect a serverAddress serverPort t) := by
  unfold networkConnect Attempt.connected
  cases a.socket with
  | false => exact leaves_none (Or.inl rfl)
  | true =>
    cases a.inetPton serverAddress with
    | false => exact leaves_none (Or.inr rfl)
    | true =>
      cases a.connect serverAddress serverPort with
      | none => exact leaves_none (Or.inr rfl)
      | some peer => exact Or.inl ⟨_, rfl, rfl, rfl⟩

/-- Every status but a ready one closes the connection. -/
theorem awaitStatus_eq (a : Attempt Peer) (rlist : RlistT Peer) (t : Table) :
    awaitStatus a rlist t = if a.ready then (some rlist, t) else (none, networkClose rlist t) := by
  unfold awaitStatus Attempt.ready
  cases a.readSize with
  | false => rfl
  | true =>
    cases a.mallocStatus with
    | false => rfl
    | true =>
      cases a.readStatus with
      | false => rfl
      | true =>
        cases a.status with
        | none => rfl
        | some status => by_cases hready : status.opcode = opReady <;> simp [hready]

/-- **`rlist_connect` leaves its socket open exactly when it returns a
connection.** -/
theorem rlistConnect_spec (a : Attempt Peer) (addressPort : CString) (t : Table) :
    Leaves t (a.reaches addressPort) (rlistConnect a addressPort t) := by
  unfold rlistConnect Attempt.reaches
  cases strchrColon addressPort.bytes with
  | none => cases a.mallocRlist <;> exact leaves_none (Or.inl rfl)
  | some parts =>
    obtain ⟨ip, port⟩ := parts
    dsimp only
    cases a.mallocRlist with
    | false => exact leaves_none (Or.inl rfl)
    | true =>
      cases a.mallocAddress with
      | false => exact leaves_none (Or.inl rfl)
      | true =>
        have hconnect := networkConnect_spec a (cString ip) (atoi port) t
        revert hconnect
        generalize networkConnect a (cString ip) (atoi port) t = r
        rintro (⟨rlist, rfl, hfd, hpeer⟩ | ⟨hnone, hpeer, ht⟩)
        · have hclose : networkClose rlist (acquire t) = release (acquire t) t.next := by
            rw [networkClose, hfd]
          dsimp only
          rw [awaitStatus_eq, hpeer]
          cases a.ready with
          | false => exact leaves_none (Or.inr hclose)
          | true => exact Or.inl ⟨rlist, rfl, hfd, rfl⟩
        · obtain ⟨conn, t'⟩ := r
          cases hnone
          rw [hpeer, ite_self]
          exact leaves_none ht

/-- Where the attempt leads nowhere NULL is returned. -/
theorem rlistConnect_of_none {a : Attempt Peer} {addressPort : CString}
    (h : a.reaches addressPort = none) (t : Table) :
    ∃ t', rlistConnect a addressPort t = (none, t') := by
  rcases rlistConnect_spec a addressPort t with ⟨rlist, _, _, hpeer⟩ | ⟨hnone, _, _⟩
  · rw [h] at hpeer
    cases hpeer
  · exact ⟨_, Prod.ext hnone rfl⟩

/-- A connection that is returned leads where the attempt does. -/
theorem rlistConnect_of_some {a : Attempt Peer} {addressPort : CString} {peer : Peer}
    (h : a.reaches addressPort = some peer) (t : Table) :
    ∃ rlist t', rlistConnect a addressPort t = (some rlist, t') ∧ rlist.peer = peer := by
  rcases rlistConnect_spec a addressPort t with ⟨rlist, hr, _, hpeer⟩ | ⟨_, hpeer, _⟩
  · rw [h] at hpeer
    exact ⟨rlist, acquire t, hr, (Option.some.inj hpeer).symm⟩
  · rw [h] at hpeer
    cases hpeer

/-! ## Held sockets -/

/-- The socket of a connection, if there is one. -/
def heldBy (conn : Option (RlistT Peer)) : List Nat := (conn.bind RlistT.sockfd).toList

/-- A connection that is not NULL has a socket. -/
def HasSocket (conn : Option (RlistT Peer)) : Prop := ∀ rlist ∈ conn, rlist.sockfd.isSome = true

@[simp] theorem heldBy_none : heldBy (none : Option (RlistT Peer)) = [] := rfl

theorem hasSocket_none : HasSocket (none : Option (RlistT Peer)) := fun _ h => by cases h

theorem heldBy_some {rlist : RlistT Peer} {sockfd : Nat} (h : rlist.sockfd = some sockfd) :
    heldBy (some rlist) = [sockfd] := by
  rw [heldBy, Option.bind_some, h]
  rfl

/-- A new connection is the only socket an attempt adds. -/
theorem rlistConnect_exact {t : Table} {held : List Nat} (h : Exact t held) (a : Attempt Peer)
    (addressPort : CString) :
    Exact (rlistConnect a addressPort t).2 (heldBy (rlistConnect a addressPort t).1 ++ held) ∧
      HasSocket (rlistConnect a addressPort t).1 ∧
      (rlistConnect a addressPort t).2.peak ≤ max t.peak (held.length + 1) := by
  have hpeak : (acquire t).peak = max t.peak (held.length + 1) := by
    rw [acquire_peak, h.openCount_eq]
  rcases rlistConnect_spec a addressPort t with ⟨rlist, hr, hfd, _⟩ | ⟨hnone, _, ht | ht⟩
  · have hsocket : HasSocket (some rlist) := by
      rintro _ ⟨⟩
      rw [hfd]
      rfl
    rw [hr]
    dsimp only
    rw [heldBy_some hfd]
    exact ⟨h.acquire, hsocket, Nat.le_of_eq hpeak⟩
  · rw [hnone, ht]
    exact ⟨h, hasSocket_none, Nat.le_max_left _ _⟩
  · rw [hnone, ht]
    exact ⟨h.acquire.release, hasSocket_none, Nat.le_of_eq hpeak⟩

/-- A connection that is given up has its socket released. -/
theorem rlistDisconnect_exact {t : Table} {held : List Nat} {conn : Option (RlistT Peer)}
    (h : Exact t (heldBy conn ++ held)) : Exact (rlistDisconnect conn t).2 held ∧
      (rlistDisconnect conn t).2.peak = t.peak := by
  cases conn with
  | none => exact ⟨h, rfl⟩
  | some rlist =>
    have hclose : (rlistDisconnect (some rlist) t).2 = networkClose rlist t := rfl
    rw [hclose]
    cases hfd : rlist.sockfd with
    | none =>
      have hheld : heldBy (some rlist) = [] := by rw [heldBy, Option.bind_some, hfd]; rfl
      rw [hheld] at h
      rw [networkClose, hfd]
      exact ⟨h, rfl⟩
    | some sockfd =>
      rw [heldBy_some hfd] at h
      rw [networkClose, hfd]
      exact ⟨h.release, rfl⟩

end CarChain.Connect
