import CarChain.Handler
import CarChain.Watcher
import CarChain.Lib.Run
import Mathlib.Logic.Function.Basic

/-!
# The chain of servers

Servers stand at positions `0, 1, ..`, in the order of their nodes in `/chain`,
so a position is a server's name and its address.  A server runs one handler at
a time, the one that holds `list_mutex`, and that handler goes through
`handle_client` in steps: `invoke`, the look at `g_successor`, the exchange,
the reply.  Between its steps anything may happen elsewhere: requests arrive,
servers crash, and `chain_watcher` looks at `/chain` and, once no exchange
holds `successor_mutex`, replaces `g_successor`.

`applied`, `seen` and `hist` are history: what a server ran `invoke` on, how
many writes it had applied before a request, and what clients sent and got.
-/

namespace CarChain.Chain
open CarChain.Message CarChain.CarList CarChain.Skeleton CarChain.Handler CarChain.Watcher

/-- A connection to a server; one that failed once keeps failing. -/
structure Link where
  target : Nat
  failed : Bool
  deriving DecidableEq

/-- A request on a connection, from a client or from another server. -/
structure Request where
  id : Nat
  origin : Option Nat
  msg : MessageT
  deriving DecidableEq

/-- A write a server ran `invoke` on: the list it found and the reply it made. -/
structure Entry where
  id : Nat
  msg : MessageT
  before : Cars
  reply : MessageT
  deriving DecidableEq

inductive Phase
  | invoked
  | waiting (target : Nat) (resp : Option MessageT)
  | ready
  deriving DecidableEq

/-- The request in the hands of the handler that holds `list_mutex`. -/
structure Job where
  req : Request
  reply : MessageT
  seen : Nat
  phase : Phase
  deriving DecidableEq

structure Server where
  live : Bool
  list : Cars
  applied : List Entry
  inbox : List Request
  job : Option Job
  successor : Option Link
  watcher : WatcherState Nat Link
  publishing : Option (Option Link)
  watched : Bool

/-- A reply a client got, and the number of writes the server had applied
before it handled the request. -/
structure Answer where
  id : Nat
  server : Nat
  msg : MessageT
  reply : MessageT
  seen : Nat
  deriving DecidableEq

inductive Event
  | call (id server : Nat) (msg : MessageT)
  | ret (a : Answer)
  deriving DecidableEq

structure State where
  server : Nat → Server
  hist : List Event
  nextId : Nat

namespace State

def set (s : State) (i : Nat) (sv : Server) : State :=
  { s with server := Function.update s.server i sv }

def setJob (s : State) (i : Nat) (j : Option Job) : State :=
  s.set i { s.server i with job := j }

def push (s : State) (i : Nat) (req : Request) : State :=
  s.set i { s.server i with inbox := (s.server i).inbox ++ [req] }

def record (s : State) (e : Event) : State := { s with hist := s.hist ++ [e] }

/-- The next request gets the next number. -/
def issue (s : State) : State := { s with nextId := s.nextId + 1 }

@[simp] theorem set_self (s : State) (i : Nat) (sv : Server) : (s.set i sv).server i = sv := by
  simp [set]

@[simp] theorem set_ne (s : State) {i k : Nat} (sv : Server) (h : k ≠ i) :
    (s.set i sv).server k = s.server k := by simp [set, h]

@[simp] theorem set_hist (s : State) (i : Nat) (sv : Server) : (s.set i sv).hist = s.hist := rfl
@[simp] theorem set_nextId (s : State) (i : Nat) (sv : Server) :
    (s.set i sv).nextId = s.nextId := rfl
@[simp] theorem setJob_hist (s : State) (i : Nat) (j : Option Job) :
    (s.setJob i j).hist = s.hist := rfl
@[simp] theorem setJob_nextId (s : State) (i : Nat) (j : Option Job) :
    (s.setJob i j).nextId = s.nextId := rfl
@[simp] theorem push_hist (s : State) (i : Nat) (req : Request) : (s.push i req).hist = s.hist :=
  rfl
@[simp] theorem push_nextId (s : State) (i : Nat) (req : Request) :
    (s.push i req).nextId = s.nextId := rfl
theorem push_job (s : State) (i k : Nat) (req : Request) :
    ((s.push i req).server k).job = (s.server k).job := by
  by_cases h : k = i
  · subst h
    simp [push]
  · simp [push, h]

@[simp] theorem record_server (s : State) (e : Event) : (s.record e).server = s.server := rfl
@[simp] theorem issue_server (s : State) : s.issue.server = s.server := rfl

end State

inductive Action
  | send (i : Nat) (msg : MessageT)
  | handle (i k : Nat)
  | skip (i : Nat)
  | forward (i : Nat)
  | forwardFails (i : Nat)
  | receive (i : Nat)
  | receiveFails (i : Nat)
  | answer (i : Nat)
  | crash (i : Nat)
  | watch (i : Nat)
  | publish (i : Nat)
  deriving DecidableEq

section

variable (packedSize : MessageT → Nat) (n : Nat)

/-- A client sends a request; a frame holds at most `UINT16_MAX` bytes of it. -/
def send (s : State) (i : Nat) (msg : MessageT) : Option State :=
  if (s.server i).live = true ∧ packedSize msg ≤ uint16Max then
    some ((s.push i ⟨s.nextId, none, msg⟩).record (.call s.nextId i msg)).issue
  else none

/-- The server after `invoke` on the `k`-th request that waits for it. -/
def handled (sv : Server) (k : Nat) (req : Request) : Server :=
  let r := invoke req.msg sv.list
  { sv with
    list := r.list
    inbox := sv.inbox.eraseIdx k
    applied :=
      if isWriteOp req.msg then sv.applied ++ [⟨req.id, req.msg, sv.list, r.msg⟩] else sv.applied
    job := some ⟨req, (afterInvoke req.msg r).1, sv.applied.length,
      if (afterInvoke req.msg r).2 then .invoked else .ready⟩ }

/-- A handler takes `list_mutex` and runs `invoke`. -/
def handle (s : State) (i k : Nat) : Option State :=
  match (s.server i).live, (s.server i).job, (s.server i).inbox[k]? with
  | true, none, some req => some (s.set i (handled (s.server i) k req))
  | _, _, _ => none

/-- `g_successor` is NULL. -/
def skip (s : State) (i : Nat) : Option State :=
  match (s.server i).live, (s.server i).job, (s.server i).successor with
  | true, some j, none =>
    if j.phase = .invoked then some (s.setJob i (some { j with phase := .ready })) else none
  | _, _, _ => none

/-- The rebuilt message goes to the successor. -/
def forward (s : State) (i : Nat) : Option State :=
  match (s.server i).live, (s.server i).job, (s.server i).successor with
  | true, some j, some link =>
    if j.phase = .invoked ∧ link.failed = false ∧
        packedSize (propagateMsg j.req.msg) ≤ uint16Max then
      some ((s.setJob i (some { j with phase := .waiting link.target none })).push link.target
        ⟨j.req.id, some i, propagateMsg j.req.msg⟩)
    else none
  | _, _, _ => none

/-- `network_send` fails: a message too long for a frame is not even tried,
and leaves the connection as it is. -/
def forwardFails (s : State) (i : Nat) : Option State :=
  match (s.server i).live, (s.server i).job, (s.server i).successor with
  | true, some j, some link =>
    if j.phase = .invoked then
      some (s.set i { s.server i with
        job := some { j with reply := afterExchange j.reply .sendFailed, phase := .ready }
        successor := some { link with
          failed := link.failed || packedSize (propagateMsg j.req.msg) ≤ uint16Max } })
    else none
  | _, _, _ => none

/-- The reply of the successor has come. -/
def receive (s : State) (i : Nat) : Option State :=
  match (s.server i).live, (s.server i).job with
  | true, some j =>
    match j.phase with
    | .waiting _ (some resp) =>
      some (s.setJob i (some { j with
        reply := afterExchange j.reply (.reply resp), phase := .ready }))
    | _ => none
  | _, _ => none

/-- `network_receive` on the successor's connection gives NULL. -/
def receiveFails (s : State) (i : Nat) : Option State :=
  match (s.server i).live, (s.server i).job with
  | true, some j =>
    match j.phase with
    | .waiting _ _ =>
      some (s.set i { s.server i with
        job := some { j with reply := afterExchange j.reply .noReply, phase := .ready }
        successor := (s.server i).successor.map ({ · with failed := true }) })
    | _ => none
  | _, _ => none

/-- What server `i` sends reaches server `p` if it waits for it. -/
def deliver (s : State) (i p id : Nat) (resp : MessageT) : State :=
  match (s.server p).job with
  | some jp =>
    if jp.phase = .waiting i none ∧ jp.req.id = id then
      s.setJob p (some { jp with phase := .waiting i (some resp) })
    else s
  | none => s

/-- The reply goes to whoever sent the request, unless it is too long for a
frame, and `list_mutex` is released. -/
def answer (s : State) (i : Nat) : Option State :=
  match (s.server i).live, (s.server i).job with
  | true, some j =>
    if j.phase = .ready then
      some (
        if packedSize j.reply ≤ uint16Max then
          match j.req.origin with
          | none => (s.setJob i none).record (.ret ⟨j.req.id, i, j.req.msg, j.reply, j.seen⟩)
          | some p => deliver (s.setJob i none) i p j.req.id j.reply
        else s.setJob i none)
    else none
  | _, _ => none

/-- A server dies, and no `chain_watcher` has seen that yet. -/
def crash (s : State) (i : Nat) : Option State :=
  if (s.server i).live = true then
    some { s with server := fun k =>
      { s.server k with watched := false, live := (s.server k).live && (k ≠ i : Bool) } }
  else none

/-- The children of `/chain`: the servers alive among the first `n`. -/
def children (s : State) : List Nat := (List.range n).filter (fun k => (s.server k).live)

/-- The run of `chain_watcher` at server `i`; every call it makes succeeds. -/
def watcherRun (s : State) (i : Nat) : WatcherRun Nat Link :=
  chainWatcher some (fun addr => some ⟨addr, false⟩) i (children n s) (s.server i).watcher

/-- `chain_watcher` up to its call of `network_server_set_successor`, if any. -/
def watch (s : State) (i : Nat) : Option State :=
  match (s.server i).live, (s.server i).publishing with
  | true, none =>
    match (watcherRun n s i).setSuccessor with
    | none =>
      some (s.set i { s.server i with watcher := (watcherRun n s i).state, watched := true })
    | some conn =>
      some (s.set i { s.server i with
        watcher := (watcherRun n s i).state
        publishing := some conn
        successor := (s.server i).successor.map ({ · with failed := true })
        watched := true })
  | _, _ => none

/-- An exchange with the successor is under way, so `successor_mutex` is taken. -/
def Job.exchanging (j : Job) : Bool :=
  match j.phase with
  | .waiting _ _ => true
  | _ => false

/-- `network_server_set_successor`. -/
def publish (s : State) (i : Nat) : Option State :=
  match (s.server i).live, (s.server i).publishing with
  | true, some conn =>
    if (s.server i).job.any Job.exchanging then none
    else some (s.set i { s.server i with successor := conn, publishing := none })
  | _, _ => none

def step (s : State) : Action → Option State
  | .send i msg => send packedSize s i msg
  | .handle i k => handle s i k
  | .skip i => skip s i
  | .forward i => forward packedSize s i
  | .forwardFails i => forwardFails packedSize s i
  | .receive i => receive s i
  | .receiveFails i => receiveFails s i
  | .answer i => answer packedSize s i
  | .crash i => crash s i
  | .watch i => watch n s i
  | .publish i => publish s i

/-- Server `i` of a chain of `n`, connected to the next one. -/
def initialServer (i : Nat) : Server where
  live := i < n
  list := listCreate
  applied := []
  inbox := []
  job := none
  successor := if i + 1 < n then some ⟨i + 1, false⟩ else none
  watcher :=
    if i + 1 < n then ⟨some (i + 1), some ⟨i + 1, false⟩, false⟩ else ⟨none, none, true⟩
  publishing := none
  watched := true

def initial : State := ⟨initialServer n, [], 0⟩

end

/-! ## What each step does -/

section

variable {packedSize : MessageT → Nat} {n : Nat} {s s' : State}

theorem send_cases {i : Nat} {msg : MessageT} (h : send packedSize s i msg = some s') :
    (s.server i).live = true ∧ packedSize msg ≤ uint16Max ∧
      s' = ((s.push i ⟨s.nextId, none, msg⟩).record (.call s.nextId i msg)).issue := by
  unfold send at h
  split at h
  · rename_i hc
    cases h
    exact ⟨hc.1, hc.2, rfl⟩
  · cases h

theorem handle_cases {i k : Nat} (h : handle s i k = some s') :
    ∃ req, (s.server i).live = true ∧ (s.server i).job = none ∧
      (s.server i).inbox[k]? = some req ∧ s' = s.set i (handled (s.server i) k req) := by
  unfold handle at h
  split at h
  · rename_i req hl hj hk
    cases h
    exact ⟨req, hl, hj, hk, rfl⟩
  · cases h

theorem skip_cases {i : Nat} (h : skip s i = some s') :
    ∃ j, (s.server i).live = true ∧ (s.server i).job = some j ∧
      (s.server i).successor = none ∧ j.phase = .invoked ∧
      s' = s.setJob i (some { j with phase := .ready }) := by
  unfold skip at h
  split at h
  · rename_i j hl hj hs
    split at h
    · rename_i hp
      cases h
      exact ⟨j, hl, hj, hs, hp, rfl⟩
    · cases h
  · cases h

theorem forward_cases {i : Nat} (h : forward packedSize s i = some s') :
    ∃ j link, (s.server i).live = true ∧ (s.server i).job = some j ∧
      (s.server i).successor = some link ∧ j.phase = .invoked ∧ link.failed = false ∧
      packedSize (propagateMsg j.req.msg) ≤ uint16Max ∧
      s' = (s.setJob i (some { j with phase := .waiting link.target none })).push link.target
        ⟨j.req.id, some i, propagateMsg j.req.msg⟩ := by
  unfold forward at h
  split at h
  · rename_i j link hl hj hs
    split at h
    · rename_i hp
      cases h
      exact ⟨j, link, hl, hj, hs, hp.1, hp.2.1, hp.2.2, rfl⟩
    · cases h
  · cases h

theorem forwardFails_cases {i : Nat} (h : forwardFails packedSize s i = some s') :
    ∃ j link, (s.server i).live = true ∧ (s.server i).job = some j ∧
      (s.server i).successor = some link ∧ j.phase = .invoked ∧
      s' = s.set i { s.server i with
        job := some { j with reply := replyError j.reply, phase := .ready }
        successor := some { link with
          failed := link.failed || packedSize (propagateMsg j.req.msg) ≤ uint16Max } } := by
  unfold forwardFails at h
  split at h
  · rename_i j link hl hj hs
    split at h
    · rename_i hp
      cases h
      exact ⟨j, link, hl, hj, hs, hp, rfl⟩
    · cases h
  · cases h

theorem receive_cases {i : Nat} (h : receive s i = some s') :
    ∃ j t resp, (s.server i).live = true ∧ (s.server i).job = some j ∧
      j.phase = .waiting t (some resp) ∧
      s' = s.setJob i (some { j with
        reply := afterExchange j.reply (.reply resp), phase := .ready }) := by
  unfold receive at h
  split at h
  · rename_i j hl hj
    split at h
    · rename_i t resp hp
      cases h
      exact ⟨j, t, resp, hl, hj, hp, rfl⟩
    · cases h
  · cases h

theorem receiveFails_cases {i : Nat} (h : receiveFails s i = some s') :
    ∃ j t resp, (s.server i).live = true ∧ (s.server i).job = some j ∧
      j.phase = .waiting t resp ∧
      s' = s.set i { s.server i with
        job := some { j with reply := replyError j.reply, phase := .ready }
        successor := (s.server i).successor.map ({ · with failed := true }) } := by
  unfold receiveFails at h
  split at h
  · rename_i j hl hj
    split at h
    · rename_i t resp hp
      cases h
      exact ⟨j, t, resp, hl, hj, hp, rfl⟩
    · cases h
  · cases h

/-- An answer reaches a client, or a server that waits for it, or nobody. -/
theorem answer_cases {i : Nat} (h : answer packedSize s i = some s') :
    ∃ j, (s.server i).live = true ∧ (s.server i).job = some j ∧ j.phase = .ready ∧
      ((packedSize j.reply ≤ uint16Max ∧ j.req.origin = none ∧
          s' = (s.setJob i none).record (.ret ⟨j.req.id, i, j.req.msg, j.reply, j.seen⟩)) ∨
        (∃ p jp, j.req.origin = some p ∧ p ≠ i ∧ (s.server p).job = some jp ∧
          jp.phase = .waiting i none ∧ jp.req.id = j.req.id ∧
          s' = (s.setJob i none).setJob p (some { jp with phase := .waiting i (some j.reply) })) ∨
        s' = s.setJob i none ∧ (packedSize j.reply ≤ uint16Max → j.req.origin ≠ none)) := by
  unfold answer at h
  split at h
  · rename_i j hl hj
    split at h
    · rename_i hp
      refine ⟨j, hl, hj, hp, ?_⟩
      split at h
      · rename_i hfit
        cases ho : j.req.origin with
        | none =>
          rw [ho] at h
          cases h
          exact Or.inl ⟨hfit, rfl, rfl⟩
        | some p =>
          rw [ho] at h
          dsimp only [deliver] at h
          by_cases hpi : p = i
          · subst hpi
            simp only [State.setJob, State.set_self] at h
            cases h
            exact Or.inr (Or.inr ⟨rfl, by simp⟩)
          · rw [State.setJob, State.set_ne _ _ hpi] at h
            cases hjp : (s.server p).job with
            | none =>
              simp only [hjp] at h
              cases h
              exact Or.inr (Or.inr ⟨rfl, by simp⟩)
            | some jp =>
              simp only [hjp] at h
              split at h
              · rename_i hw
                cases h
                exact Or.inr (Or.inl ⟨p, jp, rfl, hpi, hjp, hw.1, hw.2, rfl⟩)
              · cases h
                exact Or.inr (Or.inr ⟨rfl, by simp⟩)
      · rename_i hfit
        cases h
        exact Or.inr (Or.inr ⟨rfl, fun h => absurd h hfit⟩)
    · cases h
  · cases h

theorem crash_cases {i : Nat} (h : crash s i = some s') :
    (s.server i).live = true ∧ s' = { s with server := fun k =>
      { s.server k with watched := false, live := (s.server k).live && (k ≠ i : Bool) } } := by
  unfold crash at h
  split at h
  · rename_i hl
    cases h
    exact ⟨hl, rfl⟩
  · cases h

theorem watch_cases {i : Nat} (h : watch n s i = some s') :
    (s.server i).live = true ∧ (s.server i).publishing = none ∧
      (((watcherRun n s i).setSuccessor = none ∧
          s' = s.set i { s.server i with watcher := (watcherRun n s i).state, watched := true }) ∨
        ∃ conn, (watcherRun n s i).setSuccessor = some conn ∧
          s' = s.set i { s.server i with
            watcher := (watcherRun n s i).state
            publishing := some conn
            successor := (s.server i).successor.map ({ · with failed := true })
            watched := true }) := by
  unfold watch at h
  split at h
  · rename_i hl hp
    refine ⟨hl, hp, ?_⟩
    split at h
    · rename_i hs
      cases h
      exact Or.inl ⟨hs, rfl⟩
    · rename_i conn hs
      cases h
      exact Or.inr ⟨conn, hs, rfl⟩
  · cases h

theorem publish_cases {i : Nat} (h : publish s i = some s') :
    ∃ conn, (s.server i).live = true ∧ (s.server i).publishing = some conn ∧
      (s.server i).job.any Job.exchanging = false ∧
      s' = s.set i { s.server i with successor := conn, publishing := none } := by
  unfold publish at h
  split at h
  · rename_i conn hl hp
    split at h
    · cases h
    · rename_i hx
      cases h
      exact ⟨conn, hl, hp, by simpa using hx, rfl⟩
  · cases h

end

end CarChain.Chain
