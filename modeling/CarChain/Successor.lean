import CarChain.Connect
import CarChain.Lib.Programs
import CarChain.Watcher

/-!
# The connection to the successor

The server's `chain_watcher` step by step: a run that changes the successor
closes the old connection, opens the new one and then hands it to
`network_server_set_successor`; handlers read `g_successor` between any two of
these steps.  Connections are those of `rlist_connect`, on sockets of a table,
and know the server that accepted them: a server is its node, so one that
restarts is another server.
-/

namespace CarChain.Successor
open CarChain.Record CarChain.Message CarChain.Handles CarChain.Connect CarChain.Watcher
open CarChain.Programs CarChain.Run

variable {Name : Type}

/-- The static variables of `list_server.c`, `g_successor`, and the sockets. -/
structure Server (Name : Type) where
  nextServerAddr : Option CString
  nextServerConn : Option (RlistT Name)
  isTail : Bool
  gSuccessor : Option (RlistT Name)
  sockets : Table

def initial : Server Name := ⟨none, none, false, none, Handles.empty⟩

/-- A call of `chain_watcher`: whether its type is `ZOO_CHILD_EVENT`, and what the
calls it makes come to; `children` is `none` when they cannot be read. -/
structure Event (Name : Type) where
  childEvent : Bool
  children : Option (List Name)
  zooGet : Name → Option CString
  attempt : Attempt Name

inductive Step (Name : Type)
  | disconnect
  | forget
  | remember (buffer : CString)
  | connect (buffer : CString) (attempt : Attempt Name)
  | publish
  | publishNull
  | setTail (isTail : Bool)

def perform (s : Server Name) : Step Name → Server Name
  | .disconnect =>
    match s.nextServerConn with
    | none => s
    | some conn =>
      { s with nextServerConn := none, sockets := (rlistDisconnect (some conn) s.sockets).2 }
  | .forget => { s with nextServerAddr := none }
  | .remember buffer => { s with nextServerAddr := some buffer }
  | .connect buffer attempt =>
    let r := rlistConnect attempt buffer s.sockets
    { s with nextServerConn := r.1, sockets := r.2 }
  | .publish => { s with gSuccessor := s.nextServerConn }
  | .publishNull => { s with gSuccessor := none }
  | .setTail isTail => { s with isTail := isTail }

/-! ## What one step does -/

/-- The socket of `next_server_conn` is the only one that is open. -/
structure Held (s : Server Name) : Prop where
  exact : Exact s.sockets (heldBy s.nextServerConn)
  hasSocket : HasSocket s.nextServerConn
  peak : s.sockets.peak ≤ 1

/-- What holds between runs. -/
def InStep (s : Server Name) : Prop := s.gSuccessor = s.nextServerConn

theorem disconnect_of_none {s : Server Name} (h : s.nextServerConn = none) :
    perform s .disconnect = s := by
  unfold perform
  rw [h]

theorem disconnect_nextServerConn (s : Server Name) :
    (perform s .disconnect).nextServerConn = none := by
  unfold perform
  cases h : s.nextServerConn with
  | none => exact h
  | some conn => rfl

/-- Steps that leave the connection alone keep it. -/
theorem Held.congr {s s' : Server Name} (h : Held s)
    (hconn : s'.nextServerConn = s.nextServerConn) (hsockets : s'.sockets = s.sockets) :
    Held s' := by
  refine ⟨?_, ?_, ?_⟩
  · rw [hconn, hsockets]
    exact h.exact
  · rw [hconn]
    exact h.hasSocket
  · rw [hsockets]
    exact h.peak

theorem Held.disconnect {s : Server Name} (h : Held s) : Held (perform s .disconnect) := by
  cases hc : s.nextServerConn with
  | none =>
    rw [disconnect_of_none hc]
    exact h
  | some conn =>
    have hexact : Exact s.sockets (heldBy (some conn) ++ []) := by
      rw [List.append_nil, ← hc]
      exact h.exact
    obtain ⟨hrel, hpeak⟩ := rlistDisconnect_exact hexact
    unfold perform
    rw [hc]
    exact ⟨hrel, hasSocket_none, by rw [hpeak]; exact h.peak⟩

theorem Held.connect {s : Server Name} (h : Held s) (hnone : s.nextServerConn = none)
    (buffer : CString) (attempt : Attempt Name) : Held (perform s (.connect buffer attempt)) := by
  have hheld : heldBy s.nextServerConn = [] := by rw [hnone, heldBy_none]
  have hexact : Exact s.sockets [] := hheld ▸ h.exact
  obtain ⟨hconn, hsocket, hpeak⟩ := rlistConnect_exact hexact attempt buffer
  rw [List.append_nil] at hconn
  have hmax : max s.sockets.peak 1 = 1 := Nat.max_eq_right h.peak
  exact ⟨hconn, hsocket, hmax ▸ hpeak⟩

theorem held_initial : Held (initial : Server Name) ∧ InStep (initial : Server Name) :=
  ⟨⟨exact_empty, hasSocket_none, Nat.zero_le _⟩, rfl⟩

/-! ## Runs -/

variable [LinearOrder Name]

/-- What a run finds out before it acts: nothing it acts on, that it is the tail,
or the node behind it, with the address behind that node if it can be read. -/
inductive Finding (Name : Type)
  | nothing
  | tail
  | successor (next : Name) (buffer : Option CString)

def finding (me : Name) (e : Event Name) : Finding Name :=
  if e.childEvent = false then .nothing
  else
    match e.children with
    | none => .nothing
    | some children =>
      match place me children with
      | .notFound => .nothing
      | .tail => .tail
      | .hasSuccessor next => .successor next (e.zooGet next)

/-- The steps of a run. -/
def program (me : Name) (s : Server Name) (e : Event Name) : List (Step Name) :=
  match finding me e with
  | .nothing => []
  | .tail => [.disconnect, .forget, .publishNull, .setTail true]
  | .successor _ none => [.setTail false]
  | .successor _ (some buffer) =>
    if s.nextServerAddr = some buffer then [.setTail false]
    else
      [.disconnect, .remember buffer, .connect buffer e.attempt, .publish, .setTail false]

/-- A whole run. -/
def chainWatcher (me : Name) (s : Server Name) (e : Event Name) : Server Name :=
  runEvent perform (program me) s e

def afterRuns (me : Name) (events : List (Event Name)) : Server Name :=
  events.foldl (chainWatcher me) initial

/-! ## A run as a whole -/

theorem chainWatcher_nothing {me : Name} {s : Server Name} {e : Event Name}
    (h : finding me e = .nothing) : chainWatcher me s e = s := by
  unfold chainWatcher runEvent program
  rw [h]
  rfl

theorem chainWatcher_tail {me : Name} {s : Server Name} {e : Event Name}
    (h : finding me e = .tail) :
    chainWatcher me s e =
      { perform s .disconnect with
        nextServerAddr := none, gSuccessor := none, isTail := true } := by
  unfold chainWatcher runEvent program
  rw [h]
  rfl

theorem chainWatcher_unread {me next : Name} {s : Server Name} {e : Event Name}
    (h : finding me e = .successor next none) :
    chainWatcher me s e = { s with isTail := false } := by
  unfold chainWatcher runEvent program
  rw [h]
  rfl

theorem chainWatcher_remembered {me next : Name} {s : Server Name} {e : Event Name}
    {buffer : CString} (h : finding me e = .successor next (some buffer))
    (haddr : s.nextServerAddr = some buffer) :
    chainWatcher me s e = { s with isTail := false } := by
  unfold chainWatcher runEvent program
  rw [h]
  dsimp only
  rw [if_pos haddr]
  rfl

/-- A new address is connected to, and the connection handed over as it is. -/
theorem chainWatcher_new {me next : Name} {s : Server Name} {e : Event Name}
    {buffer : CString} (h : finding me e = .successor next (some buffer))
    (haddr : s.nextServerAddr ≠ some buffer) :
    chainWatcher me s e =
      let r := rlistConnect e.attempt buffer (perform s .disconnect).sockets
      { nextServerAddr := some buffer, nextServerConn := r.1, isTail := false,
        gSuccessor := r.1, sockets := r.2 } := by
  unfold chainWatcher runEvent program
  rw [h]
  dsimp only
  rw [if_neg haddr]
  rfl

def watcherState (s : Server Name) : WatcherState CString (RlistT Name) :=
  ⟨s.nextServerAddr, s.nextServerConn, s.isTail⟩

/-- The steps come to what `CarChain.Watcher.chainWatcher` says a run leaves and
hands over. -/
theorem chainWatcher_run (me : Name) (s : Server Name) (e : Event Name)
    {children : List Name} (hchild : e.childEvent = true) (hc : e.children = some children) :
    let connect := fun buffer =>
      (rlistConnect e.attempt buffer (perform s .disconnect).sockets).1
    let run := Watcher.chainWatcher e.zooGet connect me children (watcherState s)
    watcherState (chainWatcher me s e) = run.state ∧
      (chainWatcher me s e).gSuccessor = run.setSuccessor.getD s.gSuccessor := by
  have hf : finding me e = match place me children with
      | .notFound => .nothing
      | .tail => .tail
      | .hasSuccessor next => .successor next (e.zooGet next) := by
    unfold finding
    rw [if_neg (by rw [hchild]; exact Bool.noConfusion), hc]
  unfold Watcher.chainWatcher
  cases hp : place me children with
  | notFound =>
    rw [hp] at hf
    rw [chainWatcher_nothing hf]
    exact ⟨rfl, rfl⟩
  | tail =>
    rw [hp] at hf
    have hstate : watcherState (chainWatcher me s e) = ⟨none, none, true⟩ := by
      rw [chainWatcher_tail hf]
      unfold watcherState
      dsimp only
      rw [disconnect_nextServerConn]
    refine ⟨hstate, ?_⟩
    rw [chainWatcher_tail hf]
    rfl
  | hasSuccessor next =>
    rw [hp] at hf
    dsimp only at hf ⊢
    cases hz : e.zooGet next with
    | none =>
      rw [hz] at hf
      rw [chainWatcher_unread hf]
      exact ⟨rfl, rfl⟩
    | some buffer =>
      rw [hz] at hf
      dsimp only
      by_cases haddr : (watcherState s).nextServerAddr = some buffer
      · rw [chainWatcher_remembered hf haddr, if_pos haddr]
        exact ⟨rfl, rfl⟩
      · rw [chainWatcher_new hf haddr, if_neg haddr]
        exact ⟨rfl, rfl⟩

/-! ## No connection is forgotten -/

/-- Along every run the server holds one connection at most, and its socket is
the only one open; at the end `g_successor` is that connection. -/
theorem held_along (me : Name) {s : Server Name} (e : Event Name) (h : Held s)
    (hi : InStep s) : Along perform Held InStep s (program me s e) := by
  have hd := h.disconnect
  have hnone := disconnect_nextServerConn s
  unfold program
  cases finding me e with
  | nothing => exact ⟨h, hi⟩
  | tail =>
    exact ⟨h, hd, hd.congr rfl rfl, hd.congr rfl rfl, hd.congr rfl rfl, hnone.symm⟩
  | successor next buffer =>
    cases buffer with
    | none => exact ⟨h, h.congr rfl rfl, hi⟩
    | some buffer =>
      dsimp only
      split
      · exact ⟨h, h.congr rfl rfl, hi⟩
      · have hr : Held (perform (perform s .disconnect) (.remember buffer)) := hd.congr rfl rfl
        have hc := hr.connect hnone buffer e.attempt
        exact ⟨h, hd, hr, hc, hc.congr rfl rfl, hc.congr rfl rfl, rfl⟩

/-- Whatever calls of `chain_watcher` there were. -/
theorem held_afterRuns (me : Name) (events : List (Event Name)) :
    Held (afterRuns me events) ∧ InStep (afterRuns me events) :=
  along_of_events held_initial (fun _ e h hi => held_along me e h hi) events

/-! ## The published connection -/

/-- `g_successor` is NULL or a connection that was not closed. -/
def Published (s : Server Name) : Prop :=
  ∀ conn ∈ s.gSuccessor, ∃ sockfd, conn.sockfd = some sockfd ∧ IsOpen s.sockets sockfd

/-- The run has to give up a connection: it found no node behind its own, or a
new address, and `next_server_conn` is not NULL. -/
def givesUpConnection (me : Name) (s : Server Name) (e : Event Name) : Bool :=
  s.nextServerConn.isSome &&
    match finding me e with
    | .nothing => false
    | .tail => true
    | .successor _ none => false
    | .successor _ (some buffer) => s.nextServerAddr ≠ some buffer

/-- No event makes a run give up a connection. -/
def keepsConnection (me : Name) (t : Thread (Server Name) (Step Name)) :
    Action (Event Name) → Bool
  | .event e => !givesUpConnection me t.state e
  | .next | .read => true

omit [LinearOrder Name] in
theorem Held.published {s : Server Name} (h : Held s)
    (hs : InStep s ∨ s.gSuccessor = none) : Published s := by
  intro conn hconn
  rcases hs with hi | hnone
  · rw [hi] at hconn
    obtain ⟨sockfd, hfd⟩ := Option.isSome_iff_exists.mp (h.hasSocket conn hconn)
    have hheld : heldBy s.nextServerConn = [sockfd] := by
      rw [Option.mem_def.mp hconn]
      exact heldBy_some hfd
    refine ⟨sockfd, hfd, (h.exact.mem_iff sockfd).mp ?_⟩
    rw [hheld]
    exact List.mem_singleton_self sockfd
  · rw [hnone] at hconn
    cases hconn

omit [LinearOrder Name] in
theorem disconnect_gSuccessor (s : Server Name) :
    (perform s .disconnect).gSuccessor = s.gSuccessor := by
  unfold perform
  cases s.nextServerConn <;> rfl

/-- With nothing to give up, `g_successor` stays NULL until the new connection
is handed over. -/
theorem inStep_along (me : Name) {s : Server Name} {e : Event Name}
    (hkeep : givesUpConnection me s e = false) (hi : InStep s) :
    Along perform (fun s => InStep s ∨ s.gSuccessor = none) InStep s (program me s e) := by
  have hnone : s.nextServerConn.isSome = false → (perform s .disconnect).gSuccessor = none := by
    intro h
    rw [disconnect_gSuccessor, hi]
    exact Option.isNone_iff_eq_none.mp (Option.isSome_eq_false_iff.mp h)
  unfold givesUpConnection at hkeep
  unfold program
  cases hf : finding me e with
  | nothing => exact ⟨Or.inl hi, hi⟩
  | tail =>
    rw [hf] at hkeep
    have hg := hnone (by simpa using hkeep)
    exact ⟨Or.inl hi, Or.inr hg, Or.inr hg, Or.inr rfl, Or.inr rfl,
      (disconnect_nextServerConn s).symm⟩
  | successor next buffer =>
    cases buffer with
    | none => exact ⟨Or.inl hi, Or.inl hi, hi⟩
    | some buffer =>
      rw [hf] at hkeep
      dsimp only at hkeep ⊢
      split
      · exact ⟨Or.inl hi, Or.inl hi, hi⟩
      · rename_i haddr
        have hg := hnone (by simpa [haddr] using hkeep)
        exact ⟨Or.inl hi, Or.inr hg, Or.inr hg, Or.inr hg, Or.inl rfl, Or.inl rfl, rfl⟩

/-- In every state, whatever the events. -/
theorem held_of_reach (me : Name) {ok : Thread (Server Name) (Step Name) →
    Action (Event Name) → Prop} {t : Thread (Server Name) (Step Name)}
    (h : Reach (Does (step perform (program me))) ok ⟨initial, []⟩ t) :
    Along perform Held InStep t.state t.todo :=
  along_of_reach held_initial (fun _ e _ h hi => held_along me e h hi) h

/-- It closes that connection first. -/
theorem program_of_givesUp {me : Name} {s : Server Name} {e : Event Name}
    (h : givesUpConnection me s e = true) :
    s.nextServerConn ≠ none ∧ ∃ rest, program me s e = .disconnect :: rest := by
  unfold givesUpConnection at h
  rw [Bool.and_eq_true] at h
  refine ⟨Option.isSome_iff_ne_none.mp h.1, ?_⟩
  have hnew := h.2
  unfold program
  cases hf : finding me e with
  | nothing =>
    rw [hf] at hnew
    cases hnew
  | tail => exact ⟨_, rfl⟩
  | successor next buffer =>
    rw [hf] at hnew
    cases buffer with
    | none => cases hnew
    | some buffer =>
      have haddr : s.nextServerAddr ≠ some buffer := of_decide_eq_true hnew
      dsimp only
      rw [if_neg haddr]
      exact ⟨_, rfl⟩

omit [LinearOrder Name] in
/-- Between the two steps `g_successor` is the connection that was closed. -/
theorem not_published_disconnect {s : Server Name} (h : Held s) (hi : InStep s)
    (hconn : s.nextServerConn ≠ none) : ¬ Published (perform s .disconnect) := by
  intro hpub
  obtain ⟨conn, hc⟩ := Option.ne_none_iff_exists'.mp hconn
  have hg : (perform s .disconnect).gSuccessor = some conn := by
    rw [disconnect_gSuccessor, hi, hc]
  obtain ⟨sockfd, hfd, hopen⟩ := hpub conn hg
  have hnone : heldBy (perform s .disconnect).nextServerConn = [] := by
    rw [disconnect_nextServerConn, heldBy_none]
  have hmem := (h.disconnect.exact.mem_iff sockfd).mpr hopen
  rw [hnone] at hmem
  cases hmem

/-- **A handler finds a closed connection exactly when a run gives one up.**
While no run has to, `g_successor` is NULL or open in every state in which a
handler reads it; a run that has to is followed, after its first step, by a state
in which a handler reads the closed one. -/
theorem published_iff_keepsConnection (me : Name) :
    (∀ t t', Reach (Does (step perform (program me)))
        (fun t a => keepsConnection me t a = true) ⟨initial, []⟩ t →
      Does (step perform (program me)) t .read t' → Published t.state) ∧
    (∀ t t₁ e, Reach (Does (step perform (program me))) (fun _ _ => True) ⟨initial, []⟩ t →
      Does (step perform (program me)) t (.event e) t₁ → givesUpConnection me t.state e = true →
      ∃ t₂, Does (step perform (program me)) t₁ .next t₂ ∧
        Does (step perform (program me)) t₂ .read t₂ ∧ ¬ Published t₂.state) := by
  constructor
  · intro t t' hreach _
    have halong : Along perform (fun s => Held s ∧ (InStep s ∨ s.gSuccessor = none))
        (fun s => InStep s ∧ InStep s) t.state t.todo := by
      apply along_of_reach _ _ hreach
      · exact ⟨⟨held_initial.1, Or.inl held_initial.2⟩, held_initial.2, held_initial.2⟩
      · intro s e hkeep hp hi
        have hkeep : givesUpConnection me s e = false := by
          simpa only [keepsConnection, Bool.not_eq_true'] using hkeep
        exact (held_along me e hp.1 hi.1).and (inStep_along me hkeep hi.1)
    exact halong.here.1.published halong.here.2
  · rintro ⟨s, todo⟩ t₁ e hreach hevent hgives
    cases todo with
    | cons a rest => cases hevent
    | nil =>
      obtain ⟨hheld, hi⟩ := held_of_reach me hreach
      obtain ⟨hconn, rest, hprogram⟩ := program_of_givesUp hgives
      cases hevent
      refine ⟨⟨perform s .disconnect, rest⟩, ?_, rfl, not_published_disconnect hheld hi hconn⟩
      show step perform (program me) ⟨s, program me s e⟩ .next = _
      rw [hprogram]
      rfl

/-- The node 1 joins behind the node 0. -/
def joins : Event Nat := ⟨true, some [0, 1], fun _ => some (cString [97, 58, 49]), .to 1⟩

/-- And leaves again. -/
def leaves : Event Nat := ⟨true, some [0], fun _ => none, .to 1⟩

theorem published_iff_keepsConnection_join : ∃ t,
    Reach (Does (step perform (program 0))) (fun t a => keepsConnection 0 t a = true)
        ⟨initial, []⟩ t ∧ t.state.gSuccessor.isSome = true ∧ Published t.state := by
  have hrun : ∃ t, Reach (Does (step perform (program 0)))
      (fun t a => keepsConnection 0 t a = true) ⟨initial, []⟩ t ∧
        t.state.gSuccessor.isSome = true :=
    exists_reach_of_replay [.event joins, .next, .next, .next, .next, .next] _ (by decide)
  obtain ⟨t, hreach, hsome⟩ := hrun
  exact ⟨t, hreach, hsome, (published_iff_keepsConnection 0).1 t t hreach rfl⟩

/-- The node 1 is gone and a handler reads the connection to it before
`network_server_set_successor` is called. -/
theorem not_published_leave : ¬ ∀ t t' : Thread (Server Nat) (Step Nat),
    Reach (Does (step perform (program 0))) (fun _ _ => True) ⟨initial, []⟩ t →
      Does (step perform (program 0)) t .read t' → Published t.state := by
  intro hall
  have hrun : ∃ t, Reach (Does (step perform (program 0))) (fun _ _ => True) ⟨initial, []⟩ t ∧
      t.state.gSuccessor.any (fun conn => conn.sockfd.any (· ∈ t.state.sockets.released)) =
        true :=
    exists_reach_of_replay [.event joins, .next, .next, .next, .next, .next, .event leaves,
      .next] _ (by decide)
  obtain ⟨t, hreach, hclosed⟩ := hrun
  obtain ⟨conn, hconn, hfd⟩ := (Option.any_eq_true _ _).mp hclosed
  obtain ⟨sockfd, hsockfd, hreleased⟩ := (Option.any_eq_true _ _).mp hfd
  obtain ⟨sockfd', hsockfd', hopen⟩ := hall t t hreach rfl conn hconn
  rw [hsockfd] at hsockfd'
  cases hsockfd'
  exact hopen.2 (of_decide_eq_true hreleased)

/-! ## The connection a run ends with -/

/-- `g_successor` is an open connection to the server of `peer`. -/
def Connected (s : Server Name) (peer : Name) : Prop :=
  ∃ conn, s.gSuccessor = some conn ∧ conn.peer = peer ∧
    ∃ sockfd, conn.sockfd = some sockfd ∧ IsOpen s.sockets sockfd

/-- A run that finds a node behind its own, reads its address and could connect to
its server ends connected to it; one that finds none ends with NULL. -/
def Converges (me : Name) (s : Server Name) (e : Event Name) : Prop :=
  (∀ next buffer, finding me e = .successor next (some buffer) →
    e.attempt.reaches buffer = some next → Connected (chainWatcher me s e) next) ∧
  (finding me e = .tail → (chainWatcher me s e).gSuccessor = none)

/-- The address of a node that can be reached is not the one remembered from
earlier runs, or the connection there is leads to that very node. -/
def Unremembered (me : Name) (s : Server Name) (e : Event Name) : Prop :=
  ∀ next buffer, finding me e = .successor next (some buffer) →
    e.attempt.reaches buffer = some next →
    s.nextServerAddr ≠ some buffer ∨ ∃ conn, s.nextServerConn = some conn ∧ conn.peer = next

theorem afterRuns_concat (me : Name) (past : List (Event Name)) (e : Event Name) :
    afterRuns me (past ++ [e]) = chainWatcher me (afterRuns me past) e := by
  unfold afterRuns
  rw [List.foldl_append]
  rfl

/-- The last run leaves what it published open. -/
theorem published_chainWatcher (me : Name) (past : List (Event Name)) (e : Event Name) :
    Published (chainWatcher me (afterRuns me past) e) := by
  obtain ⟨hheld, hi⟩ := held_afterRuns me (past ++ [e])
  rw [afterRuns_concat] at hheld hi
  exact hheld.published (Or.inl hi)

/-- **A run converges exactly when it does not rest on a remembered address.**
After any history, a run that reaches the following node ends connected to it
if and only if its address is new or the old connection leads to that node. -/
theorem converges_iff_unremembered (me : Name) (past : List (Event Name)) (e : Event Name) :
    Converges me (afterRuns me past) e ↔ Unremembered me (afterRuns me past) e := by
  have hpub := published_chainWatcher me past e
  have hi := (held_afterRuns me past).2
  constructor
  · intro hconv next buffer hf hreach
    by_cases haddr : (afterRuns me past).nextServerAddr = some buffer
    · obtain ⟨conn, hconn, hpeer, _⟩ := hconv.1 next buffer hf hreach
      rw [chainWatcher_remembered hf haddr] at hconn
      exact Or.inr ⟨conn, hi.symm.trans hconn, hpeer⟩
    · exact Or.inl haddr
  · intro hnew
    refine ⟨?_, fun hf => by rw [chainWatcher_tail hf]⟩
    intro next buffer hf hreach
    have hconn : ∃ conn, (chainWatcher me (afterRuns me past) e).gSuccessor = some conn ∧
        conn.peer = next := by
      by_cases haddr : (afterRuns me past).nextServerAddr = some buffer
      · obtain ⟨conn, hconn, hpeer⟩ := (hnew next buffer hf hreach).resolve_left (· haddr)
        rw [chainWatcher_remembered hf haddr]
        exact ⟨conn, hi.trans hconn, hpeer⟩
      · obtain ⟨conn, t, hr, hpeer⟩ :=
          rlistConnect_of_some hreach (perform (afterRuns me past) .disconnect).sockets
        rw [chainWatcher_new hf haddr, hr]
        exact ⟨conn, rfl, hpeer⟩
    obtain ⟨conn, hg, hpeer⟩ := hconn
    exact ⟨conn, hg, hpeer, hpub conn hg⟩

/-- After an attempt that failed, no later run tries again as long as the address
found stays the same. -/
theorem not_retried (me : Name) {buffer : CString} (events : List (Event Name))
    {s : Server Name} (haddr : s.nextServerAddr = some buffer) (hnone : s.gSuccessor = none)
    (hsame : ∀ e ∈ events, ∃ next, finding me e = .successor next (some buffer)) :
    (events.foldl (chainWatcher me) s).gSuccessor = none := by
  induction events generalizing s with
  | nil => exact hnone
  | cons e events ih =>
    obtain ⟨next, hf⟩ := hsame e List.mem_cons_self
    rw [List.foldl_cons, chainWatcher_remembered hf haddr]
    apply ih
    · exact haddr
    · exact hnone
    · intro e' he'
      exact hsame e' (List.mem_cons_of_mem e he')

/-- The node 1 has no free slot at first, and at the next change it has. -/
def joinsBusy : Event Nat := { joins with attempt := .busy 1 }

/-- The server of the node 1 was started again, at its old address, as the node 2. -/
def restarts : Event Nat :=
  ⟨true, some [0, 2], fun _ => some (cString [97, 58, 49]), .to 2⟩

theorem converges_iff_unremembered_join : Converges 0 (afterRuns 0 []) joins := by
  apply (converges_iff_unremembered 0 [] joins).mpr
  intro _ _ _ _
  exact Or.inl (fun h => by cases h)

/-- Neither a server that was busy nor one that was restarted is connected to. -/
theorem not_converges_retried :
    ¬ Converges 0 (afterRuns 0 [joinsBusy]) joins ∧
      ¬ Converges 0 (afterRuns 0 [joins]) restarts := by
  constructor
  · intro h
    obtain ⟨conn, hconn, _⟩ := h.1 1 (cString [97, 58, 49]) rfl rfl
    cases hconn
  · intro h
    obtain ⟨conn, hconn, hpeer, _⟩ := h.1 2 (cString [97, 58, 49]) rfl rfl
    have hold : (chainWatcher 0 (afterRuns 0 [joins]) restarts).gSuccessor.map RlistT.peer =
        some 1 := by decide
    rw [hconn, Option.map_some, hpeer] at hold
    cases hold

end CarChain.Successor
