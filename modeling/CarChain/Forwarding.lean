import CarChain.Handler
import CarChain.Names
import CarChain.Watcher
import CarChain.Lib.Run

/-!
# Writes that are not forwarded

One server between runs of `chain_watcher`, one after the other, and the requests
of its clients.  A run that changes the successor closes the old connection and
opens the new one (`watch`), hands the result to `network_server_set_successor`
(`publish`), and returns (`finish`).  A handler runs `invoke` under `list_mutex`,
looks at `g_successor`, keeps `successor_mutex` for the exchange if there is one,
and answers; anything may come between these steps.

It forwards a write exactly when it finds `g_successor` set, and never looks at
`is_tail`.  So a server that found another node behind it acknowledges writes as
the tail does when it has no connection to that node
(`not_forwarded_unconnected`), and also when a handler looked before the
connection was published and answers after the run
(`forwards_of_orderly`).
-/

namespace CarChain.Forwarding
open CarChain.Record CarChain.Message CarChain.CarList CarChain.Skeleton CarChain.Stub
open CarChain.Handler CarChain.Watcher CarChain.Run

variable {Name Addr Conn : Type} [LinearOrder Name] [DecidableEq Addr]

/-- Where the handler with `list_mutex` stands: before its look at `g_successor`,
in the exchange, where it holds `successor_mutex` as well, or before its answer. -/
inductive Phase (Conn : Type)
  | invoked
  | waiting (conn : Conn)
  | ready

/-- The request in the hands of that handler, and what it sent on for it. -/
structure Job (Conn : Type) where
  req : MessageT
  reply : MessageT
  exchanged : Option (MessageT × Exchange)
  phase : Phase Conn

/-- A run of `chain_watcher` that has not returned: what it has still to publish,
and whether it took the has-a-successor branch. -/
structure WatchRun (Conn : Type) where
  publishing : Option (Option Conn)
  found : Bool

/-- A reply that went out, and what the last completed run had found then. -/
structure Answer where
  req : MessageT
  reply : MessageT
  exchanged : Option (MessageT × Exchange)
  found : Bool

structure State (Addr Conn : Type) where
  list : Cars
  job : Option (Job Conn)
  watcher : WatcherState Addr Conn
  gSuccessor : Option Conn
  running : Option (WatchRun Conn)
  /-- The last completed run took the has-a-successor branch. -/
  found : Bool
  /-- History. -/
  answers : List Answer

def initial (list : Cars) : State Addr Conn :=
  ⟨list, none, ⟨none, none, false⟩, none, none, false, []⟩

inductive Action (Name Addr Conn : Type)
  | watch (children : List Name) (zooGet : Name → Option Addr)
      (rlistConnect : Addr → Option Conn)
  | publish
  | finish
  | handle (req : MessageT)
  | look
  | exchange (e : Exchange)
  | answer

/-! ## The watcher -/

/-- Whether a run takes the has-a-successor branch. -/
def finds (me : Name) (children : List Name) : Bool :=
  match place me children with
  | .hasSuccessor _ => true
  | _ => false

/-- A run up to the call of `network_server_set_successor`, or to its end. -/
def watch (me : Name) (children : List Name) (zooGet : Name → Option Addr)
    (rlistConnect : Addr → Option Conn) (s : State Addr Conn) : Option (State Addr Conn) :=
  if s.running.isSome then none
  else
    let r := chainWatcher zooGet rlistConnect me children s.watcher
    some { s with watcher := r.state, running := some ⟨r.setSuccessor, finds me children⟩ }

/-- `network_server_set_successor`; an exchange holds `successor_mutex`. -/
def publish (s : State Addr Conn) : Option (State Addr Conn) :=
  match s.running with
  | some ⟨some conn, found⟩ =>
    match s.job with
    | some ⟨_, _, _, .waiting _⟩ => none
    | _ => some { s with gSuccessor := conn, running := some ⟨none, found⟩ }
  | _ => none

/-- The run returns, with `is_tail` set. -/
def finish (s : State Addr Conn) : Option (State Addr Conn) :=
  match s.running with
  | some ⟨none, found⟩ => some { s with running := none, found := found }
  | _ => none

/-! ## The handler -/

/-- A handler takes `list_mutex` and runs `invoke`. -/
def handle (req : MessageT) (s : State Addr Conn) : Option (State Addr Conn) :=
  if s.job.isSome then none
  else
    let r := invoke req s.list
    some { s with
      list := r.list
      job := some ⟨req, (afterInvoke req r).1, none,
        if (afterInvoke req r).2 then .invoked else .ready⟩ }

/-- The look at `g_successor`; if it is NULL the mutex is released at once. -/
def look (s : State Addr Conn) : Option (State Addr Conn) :=
  match s.job with
  | some ⟨req, reply, exchanged, .invoked⟩ =>
    some { s with
      job := some ⟨req, reply, exchanged,
        match s.gSuccessor with
        | none => .ready
        | some conn => .waiting conn⟩ }
  | _ => none

/-- The exchange comes to an end, in one way or another. -/
def exchange (e : Exchange) (s : State Addr Conn) : Option (State Addr Conn) :=
  match s.job with
  | some ⟨req, reply, _, .waiting _⟩ =>
    some { s with job := some ⟨req, afterExchange reply e, some (propagateMsg req, e), .ready⟩ }
  | _ => none

/-- The reply goes out and `list_mutex` is released. -/
def answer (s : State Addr Conn) : Option (State Addr Conn) :=
  match s.job with
  | some ⟨req, reply, exchanged, .ready⟩ =>
    some { s with job := none, answers := s.answers ++ [⟨req, reply, exchanged, s.found⟩] }
  | _ => none

def step (me : Name) (s : State Addr Conn) : Action Name Addr Conn → Option (State Addr Conn)
  | .watch children zooGet rlistConnect => watch me children zooGet rlistConnect s
  | .publish => publish s
  | .finish => finish s
  | .handle req => handle req s
  | .look => look s
  | .exchange e => exchange e s
  | .answer => answer s

/-! ## When writes are forwarded -/

/-- A write that is not refused was sent on and not refused there. -/
def Answer.Forwarded (a : Answer) : Prop :=
  a.reply.opcode ≠ opError →
    ∃ resp, a.exchanged = some (propagateMsg a.req, .reply resp) ∧ resp.opcode ≠ opError

/-- A write answered while another node is known to follow was forwarded. -/
def Answer.Kept (a : Answer) : Prop := a.found = true → isWriteOp a.req = true → a.Forwarded

/-- A run that found `next` keeps or gets a connection: it learns no new address
and has a connection, or it opens one to the address it learns. -/
def connects (zooGet : Name → Option Addr) (rlistConnect : Addr → Option Conn) (next : Name)
    (w : WatcherState Addr Conn) : Bool :=
  match zooGet next with
  | none => w.nextServerConn.isSome
  | some buffer =>
    if w.nextServerAddr = some buffer then w.nextServerConn.isSome
    else (rlistConnect buffer).isSome

/-- A write that found no successor, and was not refused, awaits its answer. -/
def alone (s : State Addr Conn) : Bool :=
  match s.job with
  | some ⟨req, reply, none, .ready⟩ => isWriteOp req && reply.opcode != opError
  | _ => false

/-- A run that found no next node has nothing left to publish and has not
returned. -/
def withdrawn (s : State Addr Conn) : Bool :=
  match s.running with
  | some ⟨none, false⟩ => true
  | _ => false

/-- The condition on a step: a run that finds a next node keeps or gets a
connection; it returns while no write that found no successor awaits its answer;
and none is answered while a run that lost the next node is about to return. -/
def orderly (me : Name) (s : State Addr Conn) : Action Name Addr Conn → Bool
  | .watch children zooGet rlistConnect =>
    match place me children with
    | .hasSuccessor next => connects zooGet rlistConnect next s.watcher
    | _ => true
  | .finish => !(s.running.any WatchRun.found && alone s)
  | .answer => !(s.found && withdrawn s && alone s)
  | .publish | .handle _ | .look | .exchange _ => true

/-- The children of every run contain the server's own node. -/
def Present (me : Name) : Action Name Addr Conn → Prop
  | .watch children _ _ => me ∈ children
  | .publish | .finish | .handle _ | .look | .exchange _ | .answer => True

instance (me : Name) : (a : Action Name Addr Conn) → Decidable (Present me a)
  | .watch children _ _ => inferInstanceAs (Decidable (me ∈ children))
  | .publish | .finish | .handle _ | .look | .exchange _ | .answer => isTrue trivial

/-- No new run of `chain_watcher` begins. -/
def NoWatch : Action Name Addr Conn → Prop
  | .watch _ _ _ => False
  | .publish | .finish | .handle _ | .look | .exchange _ | .answer => True

/-! ## What each step does -/

variable {me : Name} {s s' : State Addr Conn}

theorem watch_cases {children : List Name} {zooGet : Name → Option Addr}
    {rlistConnect : Addr → Option Conn} (h : watch me children zooGet rlistConnect s = some s') :
    s.running = none ∧ s' = { s with
      watcher := (chainWatcher zooGet rlistConnect me children s.watcher).state
      running := some ⟨(chainWatcher zooGet rlistConnect me children s.watcher).setSuccessor,
        finds me children⟩ } := by
  unfold watch at h
  split at h
  · cases h
  · rename_i hr
    exact ⟨by simpa using hr, (Option.some.inj h).symm⟩

omit [DecidableEq Addr] in
theorem publish_cases (h : publish s = some s') :
    ∃ conn found, s.running = some ⟨some conn, found⟩ ∧
      s' = { s with gSuccessor := conn, running := some ⟨none, found⟩ } := by
  unfold publish at h
  split at h
  · rename_i conn found hr
    split at h
    · cases h
    · exact ⟨conn, found, hr, (Option.some.inj h).symm⟩
  · cases h

omit [DecidableEq Addr] in
theorem finish_cases (h : finish s = some s') :
    ∃ found, s.running = some ⟨none, found⟩ ∧
      s' = { s with running := none, found := found } := by
  unfold finish at h
  split at h
  · rename_i found hr
    exact ⟨found, hr, (Option.some.inj h).symm⟩
  · cases h

omit [DecidableEq Addr] in
theorem handle_cases {req : MessageT} (h : handle req s = some s') :
    s.job = none ∧ s' = { s with
      list := (invoke req s.list).list
      job := some ⟨req, (invoke req s.list).msg, none,
        if isWriteOp req then .invoked else .ready⟩ } := by
  unfold handle at h
  split at h
  · cases h
  · rename_i hj
    dsimp only at h
    rw [afterInvoke_invoke] at h
    exact ⟨by simpa using hj, (Option.some.inj h).symm⟩

omit [DecidableEq Addr] in
theorem look_cases (h : look s = some s') :
    ∃ req reply exchanged, s.job = some ⟨req, reply, exchanged, .invoked⟩ ∧
      ((s.gSuccessor = none ∧ s' = { s with job := some ⟨req, reply, exchanged, .ready⟩ }) ∨
        ∃ conn, s.gSuccessor = some conn ∧
          s' = { s with job := some ⟨req, reply, exchanged, .waiting conn⟩ }) := by
  unfold look at h
  split at h
  · rename_i req reply exchanged hj
    refine ⟨req, reply, exchanged, hj, ?_⟩
    cases hg : s.gSuccessor with
    | none =>
      rw [hg] at h
      exact Or.inl ⟨rfl, (Option.some.inj h).symm⟩
    | some conn =>
      rw [hg] at h
      exact Or.inr ⟨conn, rfl, (Option.some.inj h).symm⟩
  · cases h

omit [DecidableEq Addr] in
theorem exchange_cases {e : Exchange} (h : exchange e s = some s') :
    ∃ req reply exchanged conn, s.job = some ⟨req, reply, exchanged, .waiting conn⟩ ∧
      s' = { s with
        job := some ⟨req, afterExchange reply e, some (propagateMsg req, e), .ready⟩ } := by
  unfold exchange at h
  split at h
  · rename_i req reply exchanged conn hj
    exact ⟨req, reply, exchanged, conn, hj, (Option.some.inj h).symm⟩
  · cases h

omit [DecidableEq Addr] in
theorem answer_cases (h : answer s = some s') :
    ∃ req reply exchanged, s.job = some ⟨req, reply, exchanged, .ready⟩ ∧
      s' = { s with
        job := none, answers := s.answers ++ [⟨req, reply, exchanged, s.found⟩] } := by
  unfold answer at h
  split at h
  · rename_i req reply exchanged hj
    exact ⟨req, reply, exchanged, hj, (Option.some.inj h).symm⟩
  · cases h

omit [DecidableEq Addr] in
theorem alone_cases (h : alone s = true) :
    ∃ req reply, s.job = some ⟨req, reply, none, .ready⟩ ∧ isWriteOp req = true ∧
      reply.opcode ≠ opError := by
  unfold alone at h
  split at h
  · rename_i req reply hj
    exact ⟨req, reply, hj, by simpa using h⟩
  · cases h

/-! ## What a run does -/

/-- What is handed to `network_server_set_successor` is the new connection. -/
theorem chainWatcher_setSuccessor (zooGet : Name → Option Addr)
    (rlistConnect : Addr → Option Conn) (me : Name) (children : List Name)
    (w : WatcherState Addr Conn) :
    (chainWatcher zooGet rlistConnect me children w).setSuccessor.getD w.nextServerConn =
      (chainWatcher zooGet rlistConnect me children w).state.nextServerConn := by
  unfold chainWatcher
  cases place me children with
  | notFound => rfl
  | tail => rfl
  | hasSuccessor next =>
    dsimp only
    cases zooGet next with
    | none => rfl
    | some buffer =>
      dsimp only
      split <;> rfl

theorem chainWatcher_connects {zooGet : Name → Option Addr} {rlistConnect : Addr → Option Conn}
    {next : Name} {children : List Name} (hp : place me children = .hasSuccessor next)
    (w : WatcherState Addr Conn) :
    (chainWatcher zooGet rlistConnect me children w).state.nextServerConn.isSome =
      connects zooGet rlistConnect next w := by
  unfold chainWatcher connects
  rw [hp]
  dsimp only
  cases zooGet next with
  | none => rfl
  | some buffer =>
    dsimp only
    split <;> rfl

theorem finds_iff {children : List Name} :
    finds me children = true ↔ ∃ next, place me children = .hasSuccessor next := by
  unfold finds
  cases place me children <;> simp

/-! ## Every run -/

/-- What `g_successor` is, or will be when it is published. -/
def published (s : State Addr Conn) : Option Conn :=
  match s.running with
  | some ⟨some conn, _⟩ => conn
  | _ => s.gSuccessor

/-- What was sent on for a request was rebuilt from it, and the reply looked at. -/
def Honest (j : Job Conn) : Prop :=
  ∀ m e, j.exchanged = some (m, e) → m = propagateMsg j.req ∧ ∃ r, j.reply = afterExchange r e

structure InStep (s : State Addr Conn) : Prop where
  published : published s = s.watcher.nextServerConn
  job : ∀ j, s.job = some j → Honest j

theorem inStep_step {a : Action Name Addr Conn} (hi : InStep s) (h : step me s a = some s') :
    InStep s' := by
  have hpub := hi.published
  cases a with
  | watch children zooGet rlistConnect =>
    obtain ⟨hr, rfl⟩ := watch_cases h
    have hset := chainWatcher_setSuccessor zooGet rlistConnect me children s.watcher
    simp only [published, hr] at hpub
    refine ⟨?_, hi.job⟩
    cases hs : (chainWatcher zooGet rlistConnect me children s.watcher).setSuccessor with
    | none =>
      rw [hs, Option.getD_none] at hset
      simp only [published]
      exact hpub.trans hset
    | some conn =>
      rw [hs, Option.getD_some] at hset
      simp only [published]
      exact hset
  | publish =>
    obtain ⟨conn, found, hr, rfl⟩ := publish_cases h
    simp only [published, hr] at hpub
    exact ⟨hpub, hi.job⟩
  | finish =>
    obtain ⟨found, hr, rfl⟩ := finish_cases h
    simp only [published, hr] at hpub
    exact ⟨hpub, hi.job⟩
  | handle req =>
    obtain ⟨_, rfl⟩ := handle_cases h
    refine ⟨hpub, ?_⟩
    rintro j ⟨⟩ m e he
    cases he
  | look =>
    obtain ⟨req, reply, exchanged, hj, hcase⟩ := look_cases h
    have hhonest := hi.job _ hj
    rcases hcase with ⟨_, rfl⟩ | ⟨conn, _, rfl⟩
    · refine ⟨hpub, ?_⟩
      rintro j ⟨⟩
      exact hhonest
    · refine ⟨hpub, ?_⟩
      rintro j ⟨⟩
      exact hhonest
  | exchange e =>
    obtain ⟨req, reply, _, _, _, rfl⟩ := exchange_cases h
    refine ⟨hpub, ?_⟩
    rintro j ⟨⟩ m e' he
    cases he
    exact ⟨rfl, reply, rfl⟩
  | answer =>
    obtain ⟨_, _, _, _, rfl⟩ := answer_cases h
    refine ⟨hpub, ?_⟩
    rintro j ⟨⟩

omit [DecidableEq Addr] in
theorem inStep_initial (list : Cars) : InStep (initial list : State Addr Conn) := by
  refine ⟨rfl, ?_⟩
  rintro j ⟨⟩

theorem inStep_of_reach {list : Cars} {ok : State Addr Conn → Action Name Addr Conn → Prop}
    (h : Reach (Does (step me)) ok (initial list) s) : InStep s :=
  h.invariant (inStep_initial list) fun _ _ _ _ hi _ hstep => inStep_step hi hstep

/-! ## Orderly runs -/

/-- Where another node is known to follow there is a connection to it, or it is
just being given up; and nobody answers on his own. -/
structure Linked (s : State Addr Conn) : Prop where
  inStep : InStep s
  run : ∀ run ∈ s.running, run.found = true → s.watcher.nextServerConn.isSome = true
  found : s.found = true → s.gSuccessor.isSome = true ∨ withdrawn s = true
  alone : s.found = true → alone s = true → withdrawn s = true
  kept : ∀ a ∈ s.answers, a.Kept

omit [DecidableEq Addr] in
theorem linked_initial (list : Cars) : Linked (initial list : State Addr Conn) :=
  ⟨inStep_initial list, by simp [initial], by simp [initial], by simp [initial],
    by simp [initial]⟩

/-- A reply after an exchange is good only if the successor's was. -/
theorem forwarded_of_exchanged {req reply m : MessageT} {e : Exchange} {found : Bool}
    (hj : Honest (⟨req, reply, some (m, e), .ready⟩ : Job Conn)) :
    (⟨req, reply, some (m, e), found⟩ : Answer).Forwarded := by
  intro hr
  obtain ⟨hm, r, hreply⟩ := hj m e rfl
  dsimp only at hm hr hreply ⊢
  subst hm
  rw [hreply] at hr
  cases e with
  | sendFailed => exact absurd (replyError_opcode _) hr
  | noReply => exact absurd (replyError_opcode _) hr
  | reply resp => exact ⟨resp, rfl, ((afterExchange_reply_ok _ _).mp hr).2⟩

omit [DecidableEq Addr] in
theorem kept_of_not_alone {req reply : MessageT} {exchanged : Option (MessageT × Exchange)}
    (hi : InStep s) (hj : s.job = some ⟨req, reply, exchanged, .ready⟩)
    (ha : s.found = true → alone s = false) :
    (⟨req, reply, exchanged, s.found⟩ : Answer).Kept := by
  intro hf hw
  cases exchanged with
  | some p => exact forwarded_of_exchanged (hi.job _ hj)
  | none =>
    intro hr
    have hnot := ha hf
    dsimp only at hw hr
    simp [alone, hj, hw, hr] at hnot

omit [DecidableEq Addr] in
theorem not_kept_of_alone (hf : s.found = true) (ha : alone s = true) :
    ∃ s', answer s = some s' ∧ ∃ a ∈ s'.answers, ¬ a.Kept := by
  obtain ⟨req, reply, hj, hw, hr⟩ := alone_cases ha
  refine ⟨_, by rw [answer, hj], ⟨req, reply, none, s.found⟩, by simp, fun hk => ?_⟩
  obtain ⟨_, he, _⟩ := hk hf hw hr
  cases he

theorem linked_step {a : Action Name Addr Conn} (hl : Linked s) (hok : orderly me s a = true)
    (h : step me s a = some s') : Linked s' := by
  have hi := inStep_step hl.inStep h
  have hpub := hl.inStep.published
  cases a with
  | watch children zooGet rlistConnect =>
    obtain ⟨hr, rfl⟩ := watch_cases h
    have hnot : withdrawn s = false := by simp [withdrawn, hr]
    refine ⟨hi, ?_, fun hf => ?_, fun hf ha => ?_, hl.kept⟩
    · rintro run ⟨⟩ hfound
      obtain ⟨next, hp⟩ := finds_iff.mp hfound
      simp only [orderly, hp] at hok
      rw [chainWatcher_connects hp]
      exact hok
    · have := hl.found hf
      rw [hnot] at this
      exact Or.inl (by simpa using this)
    · have := hl.alone hf ha
      rw [hnot] at this
      cases this
  | publish =>
    obtain ⟨conn, found, hr, rfl⟩ := publish_cases h
    have hnot : withdrawn s = false := by simp [withdrawn, hr]
    simp only [published, hr] at hpub
    refine ⟨hi, ?_, fun _ => ?_, fun hf ha => ?_, hl.kept⟩
    · rintro run ⟨⟩ hfound
      exact hl.run _ hr hfound
    · cases found with
      | true =>
        refine Or.inl ?_
        dsimp only
        rw [hpub]
        exact hl.run _ hr rfl
      | false => exact Or.inr rfl
    · have := hl.alone hf ha
      rw [hnot] at this
      cases this
  | finish =>
    obtain ⟨found, hr, rfl⟩ := finish_cases h
    simp only [published, hr] at hpub
    refine ⟨hi, nofun, fun hf => ?_, fun hf ha => ?_, hl.kept⟩
    · dsimp only at hf
      subst hf
      refine Or.inl ?_
      dsimp only
      rw [hpub]
      exact hl.run _ hr rfl
    · dsimp only at hf
      subst hf
      have ha' : alone s = true := ha
      simp [orderly, hr, ha'] at hok
  | handle req =>
    obtain ⟨_, rfl⟩ := handle_cases h
    refine ⟨hi, hl.run, hl.found, fun _ ha => ?_, hl.kept⟩
    obtain ⟨_, _, hj, hw, _⟩ := alone_cases ha
    simp only [Option.some.injEq, Job.mk.injEq] at hj
    obtain ⟨rfl, _, _, hphase⟩ := hj
    rw [if_pos hw] at hphase
    cases hphase
  | look =>
    obtain ⟨req, reply, exchanged, hj, hcase⟩ := look_cases h
    rcases hcase with ⟨hnone, rfl⟩ | ⟨conn, _, rfl⟩
    · refine ⟨hi, hl.run, hl.found, fun hf _ => ?_, hl.kept⟩
      rcases hl.found hf with hsome | hw
      · rw [hnone] at hsome
        cases hsome
      · exact hw
    · refine ⟨hi, hl.run, hl.found, fun _ ha => ?_, hl.kept⟩
      obtain ⟨_, _, hj', _⟩ := alone_cases ha
      cases hj'
  | exchange e =>
    obtain ⟨_, _, _, _, _, rfl⟩ := exchange_cases h
    refine ⟨hi, hl.run, hl.found, fun _ ha => ?_, hl.kept⟩
    obtain ⟨_, _, hj', _⟩ := alone_cases ha
    cases hj'
  | answer =>
    obtain ⟨req, reply, exchanged, hj, rfl⟩ := answer_cases h
    refine ⟨hi, hl.run, hl.found, fun _ ha => ?_, fun a ha => ?_⟩
    · obtain ⟨_, _, hj', _⟩ := alone_cases ha
      cases hj'
    · rcases List.mem_append.mp ha with ha | ha
      · exact hl.kept a ha
      · rw [List.mem_singleton.mp ha]
        refine kept_of_not_alone hl.inStep hj fun hf => ?_
        by_contra hal
        rw [Bool.not_eq_false] at hal
        simp [orderly, hf, hal, hl.alone hf hal] at hok

theorem linked_of_reach {list : Cars}
    (h : Reach (Does (step me)) (fun s a => orderly me s a = true) (initial list) s) :
    Linked s :=
  h.invariant (linked_initial list) fun _ _ _ _ hl hok hstep => linked_step hl hok hstep

/-! ## Disorderly steps -/

/-- Steps with no new run of `chain_watcher` among them. -/
abbrev Leads (me : Name) : State Addr Conn → State Addr Conn → Prop :=
  Reach (Does (step me)) fun _ a => NoWatch a

theorem leads_answer {req reply : MessageT} {exchanged : Option (MessageT × Exchange)}
    (hj : s.job = some ⟨req, reply, exchanged, .ready⟩) :
    Leads me s { s with
      job := none, answers := s.answers ++ [⟨req, reply, exchanged, s.found⟩] } :=
  .step (a := .answer) .init trivial (by simp [Does, step, answer, hj])

theorem leads_exchange {req reply : MessageT} {exchanged : Option (MessageT × Exchange)}
    (conn : Conn) (hj : s.job = some ⟨req, reply, exchanged, .waiting conn⟩) (e : Exchange) :
    Leads me s { s with
      job := none
      answers := s.answers ++
        [⟨req, afterExchange reply e, some (propagateMsg req, e), s.found⟩] } := by
  have h : Leads me s { s with
      job := some ⟨req, afterExchange reply e, some (propagateMsg req, e), .ready⟩ } :=
    .step (a := .exchange e) .init trivial (by simp [Does, step, exchange, hj])
  exact h.trans (leads_answer rfl)

/-- Undisturbed, the steps of the handler are an iteration of `handle_client`. -/
theorem leads_handleClient (me : Name) (hj : s.job = none) (req : MessageT)
    (ex : Conn → MessageT → Exchange) :
    Leads me s { s with
      list := (handleClient (s.gSuccessor.map ex) req s.list).list
      answers := s.answers ++ [⟨req, (handleClient (s.gSuccessor.map ex) req s.list).reply,
        (handleClient (s.gSuccessor.map ex) req s.list).exchanged, s.found⟩] } := by
  obtain ⟨list, job, watcher, gSuccessor, running, found, answers⟩ := s
  dsimp only at hj ⊢
  subst hj
  have h : Leads me (⟨list, none, watcher, gSuccessor, running, found, answers⟩ : State Addr Conn)
      ⟨(invoke req list).list, some ⟨req, (invoke req list).msg, none,
        if isWriteOp req then .invoked else .ready⟩, watcher, gSuccessor, running, found,
        answers⟩ :=
    .step (a := .handle req) .init trivial (by simp [Does, step, handle])
  cases hw : isWriteOp req with
  | false =>
    rw [hw] at h
    have hread : handleClient (gSuccessor.map ex) req list =
        ⟨(invoke req list).list, (invoke req list).msg, none⟩ := by
      simp [handleClient, invoke_code, hw]
    rw [hread]
    exact h.trans (leads_answer rfl)
  | true =>
    rw [hw] at h
    cases gSuccessor with
    | none =>
      rw [Option.map_none, handleClient_none]
      refine (h.trans (.step (a := .look) .init trivial rfl)).trans (leads_answer rfl)
    | some conn =>
      rw [Option.map_some, handleClient_some hw]
      refine (h.trans (.step (a := .look) .init trivial rfl)).trans
        (leads_exchange conn rfl (ex conn (propagateMsg req)))

/-- The handler can come to its answer, whoever else waits. -/
theorem exists_leads_idle (me : Name) (s : State Addr Conn) :
    ∃ s', Leads me s s' ∧ s'.job = none ∧ s'.watcher = s.watcher ∧ s'.running = s.running ∧
      s'.gSuccessor = s.gSuccessor := by
  obtain ⟨list, job, watcher, gSuccessor, running, found, answers⟩ := s
  rcases job with _ | ⟨req, reply, exchanged, _ | conn | _⟩
  · exact ⟨_, .init, rfl, rfl, rfl, rfl⟩
  · cases gSuccessor with
    | none =>
      exact ⟨_, (Reach.step (a := .look) .init trivial rfl).trans (leads_answer rfl),
        rfl, rfl, rfl, rfl⟩
    | some conn =>
      exact ⟨_, (Reach.step (a := .look) .init trivial rfl).trans
        (leads_exchange conn rfl .noReply), rfl, rfl, rfl, rfl⟩
  · exact ⟨_, leads_exchange conn rfl .noReply, rfl, rfl, rfl, rfl⟩
  · exact ⟨_, leads_answer rfl, rfl, rfl, rfl, rfl⟩

theorem sampleAdd_ok (list : Cars) :
    (invoke (rlistAddRequest sampleCar) list).msg.opcode ≠ opError := by
  have hcar : createFrom (toData sampleCar) = some sampleCar := by decide
  rw [invoke_add rfl, invokeAdd]
  simp [rlistAddRequest, hcar]

/-- A server that knows of a next node, without a connection, answers alone. -/
theorem not_kept_of_no_successor (me : Name) (hj : s.job = none) (hg : s.gSuccessor = none)
    (hf : s.found = true) : ∃ s', Leads me s s' ∧ ∃ a ∈ s'.answers, ¬ a.Kept := by
  have h := leads_handleClient me hj (rlistAddRequest sampleCar)
    fun _ _ => Exchange.noReply
  refine ⟨_, h, _, List.mem_append_right _ (List.mem_singleton.mpr rfl), fun hk => ?_⟩
  have hforwarded := hk hf rfl
  rw [hg] at hforwarded
  simp only [Option.map_none, handleClient_none] at hforwarded
  obtain ⟨_, he, _⟩ := hforwarded (sampleAdd_ok s.list)
  cases he

/-- A run that finds a next node and has no connection leads there. -/
theorem not_kept_of_unconnected {publishing : Option (Option Conn)} (hi : InStep s)
    (hr : s.running = some ⟨publishing, true⟩) (hn : s.watcher.nextServerConn = none) :
    ∃ s', Leads me s s' ∧ ∃ a ∈ s'.answers, ¬ a.Kept := by
  have hpub := hi.published
  rw [hn] at hpub
  obtain ⟨⟨list, job, watcher, gSuccessor, running, found, answers⟩, h₁, hj, _, hr₁, hg⟩ :=
    exists_leads_idle me s
  dsimp only at hj hr₁ hg
  subst hj hg
  rw [hr] at hr₁
  subst hr₁
  have h₂ : Leads me s ⟨list, none, watcher, none, none, true, answers⟩ := by
    cases publishing with
    | none =>
      simp only [published, hr] at hpub
      rw [hpub] at h₁
      exact .step (a := .finish) h₁ trivial rfl
    | some conn =>
      simp only [published, hr] at hpub
      subst hpub
      have hpublish : Leads me s ⟨list, none, watcher, none, some ⟨none, true⟩, found, answers⟩ :=
        .step (a := .publish) h₁ trivial rfl
      exact .step (a := .finish) hpublish trivial rfl
  obtain ⟨s₃, h₃, hbad⟩ := not_kept_of_no_successor me
    (s := ⟨list, none, watcher, none, none, true, answers⟩) rfl rfl rfl
  exact ⟨s₃, h₂.trans h₃, hbad⟩

/-- A step that is not orderly leads to a write answered alone. -/
theorem not_kept_of_disorderly {a : Action Name Addr Conn} (hl : Linked s)
    (hno : orderly me s a = false) (h : step me s a = some s') :
    ∃ s'', Leads me s' s'' ∧ ∃ a ∈ s''.answers, ¬ a.Kept := by
  cases a with
  | watch children zooGet rlistConnect =>
    have hi := inStep_step hl.inStep h
    obtain ⟨_, rfl⟩ := watch_cases h
    cases hp : place me children with
    | notFound => simp [orderly, hp] at hno
    | tail => simp [orderly, hp] at hno
    | hasSuccessor next =>
      simp only [orderly, hp] at hno
      rw [← chainWatcher_connects hp] at hno
      have hfinds : finds me children = true := finds_iff.mpr ⟨next, hp⟩
      rw [hfinds] at hi ⊢
      exact not_kept_of_unconnected hi rfl (by simpa using hno)
  | finish =>
    obtain ⟨found, hr, rfl⟩ := finish_cases h
    simp only [orderly, hr, Option.any_some, Bool.not_eq_false', Bool.and_eq_true] at hno
    obtain ⟨hf, ha⟩ := hno
    obtain ⟨s'', hs'', hbad⟩ := not_kept_of_alone
      (s := { s with running := none, found := found }) hf ha
    exact ⟨s'', .step (a := .answer) .init trivial hs'', hbad⟩
  | answer =>
    simp only [orderly, Bool.not_eq_false', Bool.and_eq_true] at hno
    obtain ⟨s'', hs'', hbad⟩ := not_kept_of_alone hno.1.1 hno.2
    have hsame : s'' = s' := Option.some.inj (hs''.symm.trans h)
    exact ⟨s', .init, hsame ▸ hbad⟩
  | publish | handle _ | look | exchange _ => cases hno

/-- **Only the tail acknowledges a write it did not forward**, in runs in which
every run of `chain_watcher` that finds a next node keeps or gets a connection
and no handler stands between its look at NULL and its answer when one that
found a next node returns, or answers when one that lost it is about to; and
every other step leads to a write that such a server acknowledges by itself. -/
theorem forwards_of_orderly (me : Name) (list : Cars) :
    (∀ s : State Addr Conn,
      Reach (Does (step me)) (fun s a => orderly me s a = true) (initial list) s →
      ∀ a ∈ s.answers, a.Kept) ∧
    (∀ (s s' : State Addr Conn) (a : Action Name Addr Conn),
      Reach (Does (step me)) (fun s a => orderly me s a = true) (initial list) s →
      step me s a = some s' → orderly me s a = false →
      ∃ s'', Reach (Does (step me)) (fun _ a => NoWatch a) s' s'' ∧
        ∃ a ∈ s''.answers, ¬ a.Kept) := by
  constructor
  · intro s h
    exact (linked_of_reach h).kept
  · intro s s' a h hstep hno
    exact not_kept_of_disorderly (linked_of_reach h) hno hstep

/-! ## A server and the one behind it -/

open CarChain.Names

/-- `10.0.0.2:9000`. -/
def sampleAddr : CString := cString [49, 48, 46, 48, 46, 48, 46, 50, 58, 57, 48, 48, 48]

/-- A run of the first server's watcher, with what `rlist_connect` returned. -/
def sampleWatch (conn : Option Nat) : Action CString CString Nat :=
  .watch [nodeName 1, nodeName 0] (fun _ => some sampleAddr) (fun _ => conn)

/-- A write before the connection is published, and one after it. -/
def sampleRun : List (Action CString CString Nat) :=
  [.handle (rlistAddRequest sampleCar), sampleWatch (some 7), .look, .answer, .publish, .finish,
    .handle (rlistAddRequest sampleCar), .look,
    .exchange (.reply { rlistAddRequest sampleCar with opcode := opAdd + 1 }), .answer]

theorem forwards_of_orderly_sampleRun : ∃ s : State CString Nat,
    Reach (Does (step (nodeName 0))) (fun s a => orderly (nodeName 0) s a = true)
        (initial listCreate) s ∧
      s.answers.map Answer.found = [false, true] ∧ ∀ a ∈ s.answers, a.Kept := by
  have hrun : ∃ s : State CString Nat,
      Reach (Does (step (nodeName 0))) (fun s a => orderly (nodeName 0) s a = true)
        (initial listCreate) s ∧ s.answers.map Answer.found = [false, true] :=
    exists_reach_of_replay sampleRun _ (by decide)
  obtain ⟨s, hr, hf⟩ := hrun
  exact ⟨s, hr, hf, (forwards_of_orderly (nodeName 0) listCreate).1 s hr⟩

/-- The next server answers `OP_BUSY`; the write of a valid car is acknowledged
and stays with the first. -/
theorem not_forwarded_unconnected :
    ¬ ∀ s : State CString Nat,
      Reach (Does (step (nodeName 0))) (fun _ a => Present (nodeName 0) a)
        (initial listCreate) s →
      ∀ a ∈ s.answers, a.Kept := by
  intro hall
  have hrun : ∃ s : State CString Nat,
      Reach (Does (step (nodeName 0))) (fun _ a => Present (nodeName 0) a)
        (initial listCreate) s ∧
        ∃ a ∈ s.answers, a.found = true ∧ a.req = rlistAddRequest sampleCar ∧
          a.reply.opcode ≠ opError ∧ a.exchanged.isNone = true :=
    exists_reach_of_replay [sampleWatch none, .publish, .finish,
      .handle (rlistAddRequest sampleCar), .look, .answer] _ (by decide)
  obtain ⟨s, hr, a, ha, hf, hreq, hreply, hnone⟩ := hrun
  have hw : isWriteOp a.req = true := by rw [hreq]; rfl
  obtain ⟨_, he, _⟩ := hall s hr a ha hf hw hreply
  rw [he] at hnone
  cases hnone

end CarChain.Forwarding
