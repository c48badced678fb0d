import CarChain.Lib.Run
import CarChain.Lib.Tally
import CarChain.Message

/-!
# Connection slots

The bookkeeping of `network_server.c` around `thread_mutex`, one event for each
critical section and for what happens between them: the main loop accepts and
admits connections, handlers leave their loops and run their last section, and
`network_server_join_threads` waits.  A descriptor that is closed may be handed
out again at once, so two entries of `active_sockets` can be equal; counter,
list and handlers stay in step all the same (`slots_exact`).
`add_active_socket` finds memory.
-/

namespace CarChain.Slots
open CarChain.Message CarChain.Run CarChain.Tally

@[reducible, simp] def maxConnections : Int := 5

/-! ## `active_sockets` -/

def addActiveSocket (sock : Int) (activeSockets : List Int) : List Int := sock :: activeSockets

/-- The loop unlinks the first node that holds the number. -/
def removeActiveSocket (sock : Int) : List Int → List Int
  | [] => []
  | current :: rest => if current = sock then rest else current :: removeActiveSocket sock rest

theorem removeActiveSocket_eq_erase (sock : Int) (activeSockets : List Int) :
    removeActiveSocket sock activeSockets = activeSockets.erase sock := by
  induction activeSockets with
  | nil => rfl
  | cons current rest ih =>
    by_cases h : current = sock
    · rw [removeActiveSocket, if_pos h, h, List.erase_cons_head]
    · rw [removeActiveSocket, if_neg h, ih, List.erase_cons_tail (by simpa using h)]

/-! ## The server -/

/-- A thread of `handle_client` that has not finished its last critical section;
`left` once it is out of its loop. -/
structure Handler where
  socket : Int
  left : Bool
  deriving DecidableEq

/-- Where the main thread stands. -/
inductive MainThread
  /-- In `accept`, or before it. -/
  | accepting
  /-- Before the critical section of this connection. -/
  | accepted (sock : Int)
  /-- Past it, with a handler started; `g_conn_fd` is not written yet. -/
  | started (sock : Int)
  | stopped
  /-- In the wait of `network_server_join_threads`. -/
  | joining
  | joined
  deriving DecidableEq

structure State where
  main : MainThread
  handlers : List Handler
  activeConnections : Int
  activeSockets : List Int
  /-- The open descriptors of the process. -/
  opened : List Int
  gConnFd : Int
  gListenFd : Int
  shutdownRequested : Bool
  deriving DecidableEq

inductive Event
  | accept (sock : Int)
  | acceptFails
  /-- The critical section of the main loop: whether `malloc` of the arguments
  and `pthread_create` succeed. -/
  | greet (args create : Bool)
  | remember
  | leaveLoop
  /-- The handler leaves its loop, for whatever reason. -/
  | leave (i : Nat)
  /-- Its last critical section. -/
  | finish (i : Nat)
  | requestShutdown
  | join
  | stopWaiting
  /-- Another part of the process opens or closes a descriptor. -/
  | opens (fd : Int)
  | closes (fd : Int)
  deriving DecidableEq

/-- `network_main_loop` begins. -/
def initial (listeningSocket : Int) : State where
  main := .accepting
  handlers := []
  activeConnections := 0
  activeSockets := []
  opened := [listeningSocket]
  gConnFd := -1
  gListenFd := listeningSocket
  shutdownRequested := false

def close (fd : Int) (s : State) : State := { s with opened := s.opened.filter (· ≠ fd) }

/-- The first message on a connection and the state, by the critical section of
the main loop. -/
def greet (sock : Int) (args create : Bool) (s : State) : Int × State :=
  if s.activeConnections ≥ maxConnections then
    (opBusy, { close sock s with main := .accepting })
  else if args = false then (opReady, { close sock s with main := .accepting })
  else if create = false then (opReady, { close sock s with main := .accepting })
  else
    (opReady, { s with
      main := .started sock
      handlers := s.handlers ++ [⟨sock, false⟩]
      activeSockets := addActiveSocket sock s.activeSockets
      activeConnections := s.activeConnections + 1 })

/-- The end of `handle_client` up to its last critical section. -/
def leave (i : Nat) (h : Handler) (s : State) : State :=
  let s := { s with gConnFd := -1, handlers := s.handlers.set i { h with left := true } }
  if s.shutdownRequested then s else close h.socket s

def finish (i : Nat) (h : Handler) (s : State) : State :=
  { s with
    activeSockets := removeActiveSocket h.socket s.activeSockets
    activeConnections := s.activeConnections - 1
    handlers := s.handlers.eraseIdx i }

/-- Closes a descriptor variable that is set, and unsets it. -/
def networkServerRequestShutdown (s : State) : State :=
  let s := { s with shutdownRequested := true }
  let s := if s.gConnFd ≥ 0 then { close s.gConnFd s with gConnFd := -1 } else s
  if s.gListenFd ≥ 0 then { close s.gListenFd s with gListenFd := -1 } else s

def closeAll (socks : List Int) (s : State) : State := socks.foldl (fun s fd => close fd s) s

/-- The state after an event; none where it cannot happen. -/
def step (s : State) : Event → Option State
  | .accept sock =>
    if s.main = .accepting ∧ 0 ≤ sock ∧ sock ∉ s.opened then
      some { s with main := .accepted sock, opened := sock :: s.opened }
    else none
  | .acceptFails =>
    if s.main = .accepting then
      some { s with main := if s.shutdownRequested then .stopped else .accepting }
    else none
  | .greet args create =>
    match s.main with
    | .accepted sock => some (greet sock args create s).2
    | _ => none
  | .remember =>
    match s.main with
    | .started sock => some { s with main := .accepting, gConnFd := sock }
    | _ => none
  | .leaveLoop =>
    if s.main = .accepting ∧ s.shutdownRequested = true then some { s with main := .stopped }
    else none
  | .leave i =>
    match s.handlers[i]? with
    | some h => if h.left = false then some (leave i h s) else none
    | none => none
  | .finish i =>
    match s.handlers[i]? with
    | some h => if h.left = true then some (finish i h s) else none
    | none => none
  | .requestShutdown => some (networkServerRequestShutdown s)
  | .join =>
    if s.main = .stopped then some { closeAll s.activeSockets s with main := .joining } else none
  | .stopWaiting =>
    if s.main = .joining ∧ ¬ s.activeConnections > 0 then
      some { s with main := .joined, activeSockets := [] }
    else none
  | .opens fd => if fd ∉ s.opened then some { s with opened := fd :: s.opened } else none
  | .closes fd => some (close fd s)

/-- Every event that can happen may. -/
abbrev Reachable (listeningSocket : Int) : State → Prop :=
  Reach (Does step) (fun _ _ => True) (initial listeningSocket)

/-! ## What each event does to the books -/

/-- The handlers, their number and the list of their sockets are as before. -/
structure SameBooks (s s' : State) : Prop where
  handlers : s'.handlers = s.handlers
  activeConnections : s'.activeConnections = s.activeConnections
  activeSockets : s'.activeSockets = s.activeSockets

theorem SameBooks.refl (s : State) : SameBooks s s := ⟨rfl, rfl, rfl⟩

theorem SameBooks.trans {s s' s'' : State} (h : SameBooks s s') (h' : SameBooks s' s'') :
    SameBooks s s'' :=
  ⟨h'.handlers.trans h.handlers, h'.activeConnections.trans h.activeConnections,
    h'.activeSockets.trans h.activeSockets⟩

theorem sameBooks_close (fd : Int) (s : State) : SameBooks s (close fd s) := ⟨rfl, rfl, rfl⟩

theorem sameBooks_closeAll (socks : List Int) (s : State) : SameBooks s (closeAll socks s) := by
  induction socks generalizing s with
  | nil => exact .refl s
  | cons fd socks ih => exact (sameBooks_close fd s).trans (ih (close fd s))

theorem sameBooks_shutdown (s : State) : SameBooks s (networkServerRequestShutdown s) := by
  unfold networkServerRequestShutdown
  dsimp only
  split <;> split <;> exact ⟨rfl, rfl, rfl⟩

/-- A connection that is refused or fails leaves the books alone; one that is
admitted adds its handler. -/
theorem greet_cases (sock : Int) (args create : Bool) (s : State) :
    SameBooks s (greet sock args create s).2 ∨
      (s.activeConnections < maxConnections ∧
        (greet sock args create s).2.handlers = s.handlers ++ [⟨sock, false⟩] ∧
        (greet sock args create s).2.activeConnections = s.activeConnections + 1 ∧
        (greet sock args create s).2.activeSockets = sock :: s.activeSockets) := by
  unfold greet
  split
  · exact Or.inl ⟨rfl, rfl, rfl⟩
  · rename_i hfull
    split
    · exact Or.inl ⟨rfl, rfl, rfl⟩
    · split
      · exact Or.inl ⟨rfl, rfl, rfl⟩
      · exact Or.inr ⟨Int.not_le.mp hfull, rfl, rfl, rfl⟩

/-- The greeting is decided by the counter alone. -/
theorem greet_busy_iff (sock : Int) (args create : Bool) (s : State) :
    (greet sock args create s).1 = opBusy ↔ s.activeConnections ≥ maxConnections := by
  unfold greet
  split
  · rename_i hfull
    exact iff_of_true rfl hfull
  · rename_i hfree
    have hne : opReady ≠ opBusy := by decide
    refine iff_of_false ?_ hfree
    split
    · exact hne
    · split <;> exact hne

theorem leave_books (i : Nat) (h : Handler) (s : State) :
    (leave i h s).handlers = s.handlers.set i { h with left := true } ∧
      (leave i h s).activeConnections = s.activeConnections ∧
      (leave i h s).activeSockets = s.activeSockets := by
  unfold leave
  dsimp only
  split <;> exact ⟨rfl, rfl, rfl⟩

/-- What an event can do: nothing to the books, a handler more, a handler out of
its loop, a handler gone, or the list thrown away when nobody is left. -/
theorem step_cases {s s' : State} {e : Event} (h : step s e = some s') :
    SameBooks s s' ∨
      (∃ sock, s.activeConnections < maxConnections ∧
        s'.handlers = s.handlers ++ [⟨sock, false⟩] ∧
        s'.activeConnections = s.activeConnections + 1 ∧
        s'.activeSockets = sock :: s.activeSockets) ∨
      (∃ i handler, s.handlers[i]? = some handler ∧ handler.left = false ∧
        s' = leave i handler s) ∨
      (∃ i handler, s.handlers[i]? = some handler ∧ handler.left = true ∧
        s' = finish i handler s) ∨
      (s.main = .joining ∧ ¬ s.activeConnections > 0 ∧
        s' = { s with main := .joined, activeSockets := [] }) := by
  cases e with
  | accept sock =>
    simp only [step, Option.ite_none_right_eq_some, Option.some.injEq] at h
    exact Or.inl (h.2 ▸ ⟨rfl, rfl, rfl⟩)
  | acceptFails =>
    simp only [step, Option.ite_none_right_eq_some, Option.some.injEq] at h
    exact Or.inl (h.2 ▸ ⟨rfl, rfl, rfl⟩)
  | greet args create =>
    simp only [step] at h
    split at h
    · rename_i sock _
      cases h
      rcases greet_cases sock args create s with hb | hb
      · exact Or.inl hb
      · exact Or.inr (Or.inl ⟨sock, hb⟩)
    · cases h
  | remember =>
    simp only [step] at h
    split at h
    · cases h
      exact Or.inl ⟨rfl, rfl, rfl⟩
    · cases h
  | leaveLoop =>
    simp only [step, Option.ite_none_right_eq_some, Option.some.injEq] at h
    exact Or.inl (h.2 ▸ ⟨rfl, rfl, rfl⟩)
  | leave i =>
    simp only [step] at h
    split at h
    · rename_i handler hi
      simp only [Option.ite_none_right_eq_some, Option.some.injEq] at h
      exact Or.inr (Or.inr (Or.inl ⟨i, handler, hi, h.1, h.2.symm⟩))
    · cases h
  | finish i =>
    simp only [step] at h
    split at h
    · rename_i handler hi
      simp only [Option.ite_none_right_eq_some, Option.some.injEq] at h
      exact Or.inr (Or.inr (Or.inr (Or.inl ⟨i, handler, hi, h.1, h.2.symm⟩)))
    · cases h
  | requestShutdown =>
    cases h
    exact Or.inl (sameBooks_shutdown s)
  | join =>
    simp only [step, Option.ite_none_right_eq_some, Option.some.injEq] at h
    have hb := sameBooks_closeAll s.activeSockets s
    exact Or.inl (h.2 ▸ ⟨hb.handlers, hb.activeConnections, hb.activeSockets⟩)
  | stopWaiting =>
    simp only [step, Option.ite_none_right_eq_some, Option.some.injEq] at h
    exact Or.inr (Or.inr (Or.inr (Or.inr ⟨h.1.1, h.1.2, h.2.symm⟩)))
  | opens fd =>
    simp only [step, Option.ite_none_right_eq_some, Option.some.injEq] at h
    exact Or.inl (h.2 ▸ ⟨rfl, rfl, rfl⟩)
  | closes fd =>
    cases h
    exact Or.inl (sameBooks_close fd s)

/-! ## The books are right -/

/-- What holds in every reachable state. -/
structure BooksRight (s : State) : Prop where
  inStep : InStep Handler.socket s.handlers s.activeConnections s.activeSockets
  bound : s.activeConnections ≤ maxConnections

theorem booksRight_initial (listeningSocket : Int) : BooksRight (initial listeningSocket) :=
  ⟨inStep_nil _, (by decide : (0 : Int) ≤ 5)⟩

theorem BooksRight.step {s s' : State} {e : Event} (hb : BooksRight s)
    (h : Slots.step s e = some s') : BooksRight s' := by
  have hbound := hb.bound
  rcases step_cases h with hsame | ⟨sock, hfree, hh, hc, hl⟩ | ⟨i, handler, hi, _, rfl⟩ |
    ⟨i, handler, hi, _, rfl⟩ | ⟨_, hzero, rfl⟩
  · refine ⟨?_, ?_⟩
    · rw [hsame.handlers, hsame.activeConnections, hsame.activeSockets]
      exact hb.inStep
    · rw [hsame.activeConnections]
      exact hbound
  · refine ⟨?_, ?_⟩
    · rw [hh, hc, hl]
      exact hb.inStep.acquire (⟨sock, false⟩ : Handler)
    · rw [hc]
      omega
  · obtain ⟨hh, hc, hl⟩ := leave_books i handler s
    refine ⟨?_, ?_⟩
    · rw [hh, hc, hl]
      exact hb.inStep.update hi rfl
    · rw [hc]
      exact hbound
  · refine ⟨?_, ?_⟩
    · show InStep Handler.socket (s.handlers.eraseIdx i) (s.activeConnections - 1)
        (removeActiveSocket handler.socket s.activeSockets)
      rw [removeActiveSocket_eq_erase]
      exact hb.inStep.release hi
    · show s.activeConnections - 1 ≤ maxConnections
      omega
  · refine ⟨?_, hbound⟩
    have hnil := hb.inStep.labels_eq_nil hzero
    show InStep Handler.socket s.handlers s.activeConnections []
    rw [← hnil]
    exact hb.inStep

theorem booksRight {listeningSocket : Int} {s : State} (h : Reachable listeningSocket s) :
    BooksRight s :=
  h.invariant (booksRight_initial listeningSocket) fun _ _ _ _ hb _ hs => hb.step hs

/-- **Connection accounting is exact**, whatever the order of events. -/
theorem slots_exact {listeningSocket : Int} {s : State} (h : Reachable listeningSocket s) :
    s.activeConnections = s.handlers.length ∧ 0 ≤ s.activeConnections ∧
      s.activeConnections ≤ maxConnections ∧
      s.activeSockets.Perm (s.handlers.map Handler.socket) ∧
      (∀ sock args create, s.main = .accepted sock →
        ((greet sock args create s).1 = opBusy ↔ s.handlers.length = 5)) ∧
      ∀ s', step s .stopWaiting = some s' → s.activeSockets = [] := by
  have hb := booksRight h
  have hcount := hb.inStep.count
  have hbound := hb.bound
  refine ⟨hcount, hb.inStep.nonneg, hbound, hb.inStep.labels, ?_, ?_⟩
  · intro sock args create _
    rw [greet_busy_iff, hcount]
    simp only [maxConnections] at hbound ⊢
    omega
  · intro s' hs
    simp only [step, Option.ite_none_right_eq_some] at hs
    exact hb.inStep.labels_eq_nil hs.1.2

/-- A handler leaves and its descriptor is given to the next connection, whose
handler leaves too and is the first to finish. -/
def sameNumberTwice : List Event :=
  [.accept 7, .greet true true, .remember, .leave 0, .accept 7, .greet true true, .remember,
    .accept 8, .greet true true, .leave 1, .finish 1]

theorem slots_exact_sameNumberTwice :
    ∃ s, Reachable 3 s ∧ (s.handlers = [⟨7, true⟩, ⟨8, false⟩] ∧ s.activeSockets = [8, 7]) ∧
      s.activeConnections = s.handlers.length ∧
      s.activeSockets.Perm (s.handlers.map Handler.socket) := by
  have hrun : ∃ s, Reachable 3 s ∧
      s.handlers = [⟨7, true⟩, ⟨8, false⟩] ∧ s.activeSockets = [8, 7] :=
    exists_reach_of_replay sameNumberTwice _ (by decide)
  obtain ⟨s, hr, hs⟩ := hrun
  obtain ⟨hcount, _, _, hsockets, _⟩ := slots_exact hr
  exact ⟨s, hr, hs, hcount, hsockets⟩

end CarChain.Slots
