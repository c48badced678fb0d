import CarChain.Successor
import CarChain.Topology

/-!
# Who holds which socket

The client's `chain_watcher` opens and closes the connections to the head and to
the tail, the server's the one to its successor.  After any runs of either the
connections held are exactly those with an open socket, and each one that is not
held any more had its socket closed once (`connections_accounted`): a client
takes two slots of a server at most, a server one.
-/

namespace CarChain.Connections
open CarChain.Record CarChain.Handles CarChain.Connect CarChain.Watcher CarChain.Topology

variable {Name Peer : Type}

/-- The static variables of `list_client.c` and the sockets. -/
structure Client (Peer : Type) where
  headServer : Option (RlistT Peer)
  tailServer : Option (RlistT Peer)
  sockets : Table

def initial : Client Peer := ⟨none, none, Handles.empty⟩

/-- A call of `chain_watcher` with what the calls it makes come to; the lookups of
the head and of the tail are two calls, even if they are one node. -/
structure Event (Name Peer : Type) where
  childEvent : Bool
  children : Option (List Name)
  wgetHead : Name → Option CString
  headAttempt : Attempt Peer
  wgetTail : Name → Option CString
  tailAttempt : Attempt Peer

/-- `if (conn) rlist_disconnect(conn)`. -/
def disconnectIfAny (conn : Option (RlistT Peer)) (t : Table) : Table :=
  match conn with
  | none => t
  | some conn => (rlistDisconnect (some conn) t).2

def noServers (c : Client Peer) : Client Peer :=
  ⟨none, none, disconnectIfAny c.tailServer (disconnectIfAny c.headServer c.sockets)⟩

/-- Nothing changes unless the address was found. -/
def updateHead (c : Client Peer) (headAddr : Option CString) (attempt : Attempt Peer) :
    Client Peer :=
  match headAddr with
  | none => c
  | some headAddr =>
    let r := rlistConnect attempt headAddr (disconnectIfAny c.headServer c.sockets)
    { c with headServer := r.1, sockets := r.2 }

def updateTail (c : Client Peer) (tailAddr : Option CString) (attempt : Attempt Peer) :
    Client Peer :=
  match tailAddr with
  | none => c
  | some tailAddr =>
    let r := rlistConnect attempt tailAddr (disconnectIfAny c.tailServer c.sockets)
    { c with tailServer := r.1, sockets := r.2 }

def chainWatcher [LinearOrder Name] (c : Client Peer) (e : Event Name Peer) : Client Peer :=
  if e.childEvent = false then c
  else
    match e.children with
    | none => c
    | some children =>
      if children.length = 0 then noServers c
      else
        let ends := headAndTail children
        let c := updateHead c (ends.1.bind e.wgetHead) e.headAttempt
        updateTail c (ends.2.bind e.wgetTail) e.tailAttempt

def afterRuns [LinearOrder Name] (events : List (Event Name Peer)) : Client Peer :=
  events.foldl chainWatcher initial

/-! ## The two connections of a client -/

structure Held (c : Client Peer) : Prop where
  exact : Exact c.sockets (heldBy c.headServer ++ heldBy c.tailServer)
  headSocket : HasSocket c.headServer
  tailSocket : HasSocket c.tailServer
  peak : c.sockets.peak ≤ 2

theorem heldBy_length_le (conn : Option (RlistT Peer)) : (heldBy conn).length ≤ 1 := by
  unfold heldBy
  cases conn.bind RlistT.sockfd with
  | none => exact Nat.zero_le 1
  | some sockfd => exact Nat.le_refl 1

theorem disconnectIfAny_eq (conn : Option (RlistT Peer)) (t : Table) :
    disconnectIfAny conn t = (rlistDisconnect conn t).2 := by
  cases conn <;> rfl

/-- One of the held connections is given up and another one tried for. -/
theorem reconnect_exact {t : Table} {conn : Option (RlistT Peer)} {held : List Nat}
    (h : Exact t (heldBy conn ++ held)) (hlen : held.length ≤ 1) (hpeak : t.peak ≤ 2)
    (attempt : Attempt Peer) (addr : CString) :
    Exact (rlistConnect attempt addr (disconnectIfAny conn t)).2
        (heldBy (rlistConnect attempt addr (disconnectIfAny conn t)).1 ++ held) ∧
      HasSocket (rlistConnect attempt addr (disconnectIfAny conn t)).1 ∧
      (rlistConnect attempt addr (disconnectIfAny conn t)).2.peak ≤ 2 := by
  obtain ⟨hrest, hsame⟩ := rlistDisconnect_exact h
  rw [← disconnectIfAny_eq] at hrest hsame
  obtain ⟨hexact, hsocket, hmax⟩ := rlistConnect_exact hrest attempt addr
  refine ⟨hexact, hsocket, ?_⟩
  omega

theorem Held.updateHead {c : Client Peer} (h : Held c) (headAddr : Option CString)
    (attempt : Attempt Peer) : Held (updateHead c headAddr attempt) := by
  cases headAddr with
  | none => exact h
  | some headAddr =>
    obtain ⟨hexact, hsocket, hpeak⟩ :=
      reconnect_exact h.exact (heldBy_length_le c.tailServer) h.peak attempt headAddr
    exact ⟨hexact, hsocket, h.tailSocket, hpeak⟩

theorem Held.updateTail {c : Client Peer} (h : Held c) (tailAddr : Option CString)
    (attempt : Attempt Peer) : Held (updateTail c tailAddr attempt) := by
  cases tailAddr with
  | none => exact h
  | some tailAddr =>
    have hswap : Exact c.sockets (heldBy c.tailServer ++ heldBy c.headServer) :=
      h.exact.perm List.perm_append_comm
    obtain ⟨hexact, hsocket, hpeak⟩ :=
      reconnect_exact hswap (heldBy_length_le c.headServer) h.peak attempt tailAddr
    exact ⟨hexact.perm List.perm_append_comm, h.headSocket, hsocket, hpeak⟩

theorem Held.noServers {c : Client Peer} (h : Held c) : Held (noServers c) := by
  obtain ⟨htail, hhead⟩ := rlistDisconnect_exact h.exact
  rw [← List.append_nil (heldBy c.tailServer)] at htail
  obtain ⟨hexact, hpeak⟩ := rlistDisconnect_exact htail
  unfold CarChain.Connections.noServers
  rw [disconnectIfAny_eq, disconnectIfAny_eq]
  exact ⟨hexact, hasSocket_none, hasSocket_none, by rw [hpeak, hhead]; exact h.peak⟩

theorem Held.chainWatcher [LinearOrder Name] {c : Client Peer} (h : Held c)
    (e : Event Name Peer) : Held (chainWatcher c e) := by
  unfold CarChain.Connections.chainWatcher
  split
  · exact h
  · cases e.children with
    | none => exact h
    | some children =>
      dsimp only
      split
      · exact h.noServers
      · exact (h.updateHead _ _).updateTail _ _

theorem held_afterRuns [LinearOrder Name] (events : List (Event Name Peer)) :
    Held (afterRuns events : Client Peer) := by
  have hrun : ∀ c : Client Peer, Held c →
      Held (events.foldl CarChain.Connections.chainWatcher c) := by
    induction events with
    | nil => exact fun c h => h
    | cons e events ih => exact fun c h => ih _ (h.chainWatcher e)
  apply hrun
  exact ⟨exact_empty, hasSocket_none, hasSocket_none, Nat.zero_le _⟩

/-! ## All connections -/

/-- The open sockets are those of `held`, each once; every other one was closed
once; no more than `slots` were ever open together. -/
structure Accounted (t : Table) (held : List Nat) (slots : Nat) : Prop where
  open_iff : ∀ sockfd, IsOpen t sockfd ↔ sockfd ∈ held
  distinct : held.Nodup
  closed_once : ∀ sockfd, sockfd < t.next → sockfd ∉ held → t.released.count sockfd = 1
  slots : t.peak ≤ slots

theorem accounted {t : Table} {held : List Nat} {slots : Nat} (h : Exact t held)
    (hpeak : t.peak ≤ slots) : Accounted t held slots where
  open_iff sockfd := (h.mem_iff sockfd).symm
  distinct := h.held_nodup
  closed_once _ hlt hnot := h.released_once hlt hnot
  slots := hpeak

/-- `rlist_connect` opens a socket and leaves it open, or none. -/
theorem isOpen_rlistConnect {t : Table} {held : List Nat} (h : Exact t held)
    (attempt : Attempt Peer) (addressPort : CString) (sockfd : Nat) :
    IsOpen (rlistConnect attempt addressPort t).2 sockfd ↔
      IsOpen t sockfd ∨
        (sockfd = t.next ∧ (rlistConnect attempt addressPort t).1.isSome = true) := by
  have hexact := (rlistConnect_exact h attempt addressPort).1
  rw [← hexact.mem_iff, ← h.mem_iff, List.mem_append]
  rcases rlistConnect_spec attempt addressPort t with ⟨conn, hr, hfd, _⟩ | ⟨hnone, _, _⟩
  · rw [hr]
    dsimp only
    rw [heldBy_some hfd, List.mem_singleton, Option.isSome_some, or_comm]
    simp
  · rw [hnone]
    simp

/-- **No connection is leaked or closed twice.** -/
theorem connections_accounted [LinearOrder Name] :
    (∀ events : List (Event Name Peer),
      let c : Client Peer := afterRuns events
      Accounted c.sockets (heldBy c.headServer ++ heldBy c.tailServer) 2 ∧
        HasSocket c.headServer ∧ HasSocket c.tailServer) ∧
    (∀ (me : Name) (events : List (Successor.Event Name)),
      let s := Successor.afterRuns me events
      Accounted s.sockets (heldBy s.nextServerConn) 1 ∧ HasSocket s.nextServerConn ∧
        s.gSuccessor = s.nextServerConn) ∧
    (∀ (t : Table) (held : List Nat) (attempt : Attempt Peer) (addressPort : CString),
      Exact t held → ∀ sockfd,
        (IsOpen (rlistConnect attempt addressPort t).2 sockfd ↔ IsOpen t sockfd ∨
          (sockfd = t.next ∧ (rlistConnect attempt addressPort t).1.isSome = true))) := by
  refine ⟨?_, ?_, ?_⟩
  · intro events
    have h : Held (afterRuns events : Client Peer) := held_afterRuns events
    exact ⟨accounted h.exact h.peak, h.headSocket, h.tailSocket⟩
  · intro me events
    obtain ⟨h, hi⟩ := Successor.held_afterRuns me events
    exact ⟨accounted h.exact h.peak, h.hasSocket, hi⟩
  · intro t held attempt addressPort h
    exact isOpen_rlistConnect h attempt addressPort

/-- The socket of an attempt that a busy server ends is closed. -/
theorem connections_accounted_busy :
    ¬ IsOpen (rlistConnect (.busy 1) (cString [97, 58, 49]) Handles.empty).2 0 := by
  rw [(@connections_accounted Nat Nat _).2.2 Handles.empty [] (.busy 1) _ exact_empty 0]
  rintro (h | ⟨_, h⟩)
  · exact Nat.lt_irrefl 0 h.1
  · cases h

end CarChain.Connections
