import CarChain.Handler
import CarChain.Lists
import CarChain.Watcher
import CarChain.Lib.Run

/-!
# A server joins

The tail of the chain and a server that starts behind it, the joiner.  The
joiner registers its node, asks the tail for its list, adds copies of the cars
and enters `network_main_loop`; only then does the `rlist_connect` of the
tail's `chain_watcher` return.  Meanwhile the tail handles writes.  All
exchanges succeed, and the only connection there can be leads to the joiner.

The tail answers the listing under `list_mutex`, but writes it handles before
`g_successor` is set reach nobody.  So the joiner holds the tail's list if none
of those changed it (`joined_of_noneMissed`); one that does leaves the two
apart (`joiner_misses_write`).
-/

namespace CarChain.Join
open CarChain.Record CarChain.Message CarChain.CarList CarChain.Skeleton CarChain.Stub
open CarChain.Handler CarChain.Lists CarChain.Watcher CarChain.Run

inductive Phase
  | invoked
  | waiting (resp : Option MessageT)
  | ready
  deriving DecidableEq

/-- The request in the hands of the handler that holds `list_mutex`; `before` is
history, the list it found. -/
structure Job where
  req : MessageT
  before : Cars
  reply : MessageT
  phase : Phase
  deriving DecidableEq

/-- How far `main` of the joiner has come. -/
inductive Joiner
  | starting
  | registered
  | received (resp : MessageT)
  | added
  | serving
  deriving DecidableEq

/-- The tail, and at the end the joiner with its list. -/
structure State where
  list : Cars
  job : Option Job
  successor : Option Unit
  watcher : WatcherState Nat Unit
  publishing : Option (Option Unit)
  joiner : Joiner
  joined : Cars

inductive Action
  | handle (req : MessageT)
  | skip
  | forward
  | serve
  | receive
  | answer
  | watch
  | publish
  | register
  | getList
  | addCars
  | enterMainLoop
  deriving DecidableEq

/-! ## The tail -/

def State.setPhase (s : State) (j : Job) (phase : Phase) : State :=
  { s with job := some { j with phase := phase } }

/-- A handler takes `list_mutex` and runs `invoke`. -/
def handle (s : State) (req : MessageT) : Option State :=
  if s.job.isSome then none
  else
    let r := invoke req s.list
    some { s with
      list := r.list
      job := some ⟨req, s.list, (afterInvoke req r).1,
        if (afterInvoke req r).2 then .invoked else .ready⟩ }

/-- `g_successor` is NULL. -/
def skip (s : State) : Option State :=
  match s.job, s.successor with
  | some j, none => if j.phase = .invoked then some (s.setPhase j .ready) else none
  | _, _ => none

def forward (s : State) : Option State :=
  match s.job, s.successor with
  | some j, some _ => if j.phase = .invoked then some (s.setPhase j (.waiting none)) else none
  | _, _ => none

def receive (s : State) : Option State :=
  match s.job with
  | some j =>
    match j.phase with
    | .waiting (some resp) =>
      some { s with job := some { j with
        reply := afterExchange j.reply (.reply resp), phase := .ready } }
    | _ => none
  | none => none

/-- The reply goes out and `list_mutex` is released. -/
def answer (s : State) : Option State :=
  match s.job with
  | some j => if j.phase = .ready then some { s with job := none } else none
  | none => none

/-- The tail is node 0, the joiner node 1. -/
def children (s : State) : List Nat := if s.joiner = .starting then [0] else [0, 1]

/-- A run of `chain_watcher` up to `network_server_set_successor`.  With the
joiner registered it does not get that far before the joiner serves. -/
def watch (s : State) : Option State :=
  if s.publishing.isSome then none
  else if s.joiner ≠ .starting ∧ s.joiner ≠ .serving then none
  else
    let r := chainWatcher some (fun _ => some ()) 0 (children s) s.watcher
    some { s with watcher := r.state, publishing := r.setSuccessor }

/-- `network_server_set_successor`; an exchange holds `successor_mutex`. -/
def publish (s : State) : Option State :=
  match s.publishing with
  | some conn =>
    if s.job.any (fun j => j.phase ≠ .invoked ∧ j.phase ≠ .ready) then none
    else some { s with successor := conn, publishing := none }
  | none => none

/-! ## The joiner -/

def register (s : State) : Option State :=
  if s.joiner = .starting then some { s with joiner := .registered } else none

/-- `rlist_get_by_year(-1)`, answered by a handler of the tail. -/
def getList (s : State) : Option State :=
  if s.joiner = .registered ∧ s.job = none then
    let r := invoke (rlistGetByYearRequest (-1)) s.list
    some { s with list := r.list, joiner := .received r.msg }
  else none

/-- The array the stub builds from the reply; NULL for a car it cannot create. -/
def allCars (resp : MessageT) : List (Option DataT) :=
  if resp.cType = ctList then resp.cars.map createFrom else []

/-- The loop of `main`, which stops at the first NULL. -/
def addCopies (list : Cars) : List (Option DataT) → Cars
  | [] => list
  | none :: _ => list
  | some car :: rest => addCopies (listAdd list car) rest

def addCars (s : State) : Option State :=
  match s.joiner with
  | .received resp => some { s with joiner := .added, joined := addCopies s.joined (allCars resp) }
  | _ => none

def enterMainLoop (s : State) : Option State :=
  if s.joiner = .added then some { s with joiner := .serving } else none

/-- A handler of the joiner, which is the last server, executes what the tail
sent on. -/
def serve (s : State) : Option State :=
  match s.job with
  | some j =>
    if s.joiner = .serving ∧ j.phase = .waiting none then
      let h := handleClient none (propagateMsg j.req) s.joined
      some { s.setPhase j (.waiting (some h.reply)) with joined := h.list }
    else none
  | none => none

def step (s : State) : Action → Option State
  | .handle req => handle s req
  | .skip => skip s
  | .forward => forward s
  | .serve => serve s
  | .receive => receive s
  | .answer => answer s
  | .watch => watch s
  | .publish => publish s
  | .register => register s
  | .getList => getList s
  | .addCars => addCars s
  | .enterMainLoop => enterMainLoop s

/-- A tail with a list, before the joiner starts. -/
def initial (list : Cars) : State :=
  ⟨list, none, none, ⟨none, none, true⟩, none, .starting, listCreate⟩

/-- A client adds a car. -/
def sampleAdd : MessageT := rlistAddRequest sampleCar

/-! ## What each step does -/

variable {s s' : State}

theorem handle_cases {req : MessageT} (h : handle s req = some s') :
    s.job = none ∧
      s' = { s with
        list := (invoke req s.list).list
        job := some ⟨req, s.list, (invoke req s.list).msg,
          if isWriteOp req then .invoked else .ready⟩ } := by
  unfold handle at h
  split at h
  · cases h
  · rename_i hj
    dsimp only at h
    rw [afterInvoke_invoke] at h
    exact ⟨by simpa using hj, (Option.some.inj h).symm⟩

theorem skip_cases (h : skip s = some s') :
    ∃ j, s.job = some j ∧ s.successor = none ∧ j.phase = .invoked ∧
      s' = s.setPhase j .ready := by
  unfold skip at h
  split at h
  · rename_i j hj hs
    simp only [Option.ite_none_right_eq_some, Option.some.injEq] at h
    exact ⟨j, hj, hs, h.1, h.2.symm⟩
  · cases h

theorem forward_cases (h : forward s = some s') :
    ∃ j, s.job = some j ∧ s.successor = some () ∧ j.phase = .invoked ∧
      s' = s.setPhase j (.waiting none) := by
  unfold forward at h
  split at h
  · rename_i j c hj hs
    simp only [Option.ite_none_right_eq_some, Option.some.injEq] at h
    exact ⟨j, hj, hs, h.1, h.2.symm⟩
  · cases h

theorem receive_cases (h : receive s = some s') :
    ∃ j resp, s.job = some j ∧ j.phase = .waiting (some resp) ∧
      s' = { s with job := some { j with
        reply := afterExchange j.reply (.reply resp), phase := .ready } } := by
  unfold receive at h
  split at h
  · rename_i j hj
    split at h
    · rename_i resp hp
      exact ⟨j, resp, hj, hp, (Option.some.inj h).symm⟩
    · cases h
  · cases h

theorem answer_cases (h : answer s = some s') :
    ∃ j, s.job = some j ∧ j.phase = .ready ∧ s' = { s with job := none } := by
  unfold answer at h
  split at h
  · rename_i j hj
    simp only [Option.ite_none_right_eq_some, Option.some.injEq] at h
    exact ⟨j, hj, h.1, h.2.symm⟩
  · cases h

/-- Before the joiner serves, a run of the watcher publishes NULL at most. -/
theorem watch_cases (h : watch s = some s') :
    ∃ w publishing, (s.joiner ≠ .serving → ∀ conn ∈ publishing, conn = none) ∧
      s' = { s with watcher := w, publishing := publishing } := by
  unfold watch at h
  split at h
  · cases h
  · split at h
    · cases h
    · rename_i hj
      refine ⟨_, _, fun hs => ?_, (Option.some.inj h).symm⟩
      have hstart : s.joiner = .starting := by
        by_contra hne
        exact hj ⟨hne, hs⟩
      have hp : place 0 [0] = Place.tail := by decide
      intro conn hc
      simp only [chainWatcher, children, hstart, ↓reduceIte, hp, Option.mem_some] at hc
      exact hc.symm

theorem publish_cases (h : publish s = some s') :
    ∃ conn, s.publishing = some conn ∧ s' = { s with successor := conn, publishing := none } := by
  unfold publish at h
  split at h
  · rename_i conn hp
    simp only [Option.ite_none_left_eq_some, Option.some.injEq] at h
    exact ⟨conn, hp, h.2.symm⟩
  · cases h

theorem register_cases (h : register s = some s') :
    s.joiner = .starting ∧ s' = { s with joiner := .registered } := by
  simp only [register, Option.ite_none_right_eq_some, Option.some.injEq] at h
  exact ⟨h.1, h.2.symm⟩

theorem getList_cases (h : getList s = some s') :
    s.joiner = .registered ∧ s.job = none ∧
      s' = { s with
        list := (invoke (rlistGetByYearRequest (-1)) s.list).list
        joiner := .received (invoke (rlistGetByYearRequest (-1)) s.list).msg } := by
  simp only [getList, Option.ite_none_right_eq_some, Option.some.injEq] at h
  exact ⟨h.1.1, h.1.2, h.2.symm⟩

theorem addCars_cases (h : addCars s = some s') :
    ∃ resp, s.joiner = .received resp ∧
      s' = { s with joiner := .added, joined := addCopies s.joined (allCars resp) } := by
  unfold addCars at h
  split at h
  · rename_i resp hj
    exact ⟨resp, hj, (Option.some.inj h).symm⟩
  · cases h

theorem enterMainLoop_cases (h : enterMainLoop s = some s') :
    s.joiner = .added ∧ s' = { s with joiner := .serving } := by
  simp only [enterMainLoop, Option.ite_none_right_eq_some, Option.some.injEq] at h
  exact ⟨h.1, h.2.symm⟩

theorem serve_cases (h : serve s = some s') :
    ∃ j, s.job = some j ∧ s.joiner = .serving ∧ j.phase = .waiting none ∧
      s' = { s.setPhase j (.waiting (some (invoke (propagateMsg j.req) s.joined).msg)) with
        joined := (invoke (propagateMsg j.req) s.joined).list } := by
  unfold serve at h
  split at h
  · rename_i j hj
    rw [handleClient_none] at h
    simp only [Option.ite_none_right_eq_some, Option.some.injEq] at h
    exact ⟨j, hj, h.1.1, h.1.2, h.2.symm⟩
  · cases h

/-! ## The transfer -/

theorem addCopies_some (list : Cars) (l : List DataT) :
    addCopies list (l.map some) = ⟨list.size + l.length, list.head ++ l⟩ := by
  induction l generalizing list with
  | nil => simp [addCopies]
  | cons d l ih =>
    rw [List.map_cons, addCopies, ih]
    simp only [listAdd, List.append_assoc, List.singleton_append, List.length_cons,
      ListT.mk.injEq, and_true]
    omega

/-- The joiner rebuilds the very list the tail has after the listing. -/
theorem addCopies_listing {list : Cars} (h : WellFormed list) :
    addCopies listCreate (allCars (invoke (rlistGetByYearRequest (-1)) list).msg) =
      (invoke (rlistGetByYearRequest (-1)) list).list := by
  have ho := wellFormed_listOrderByYear h
  rw [invoke_getByYear_all]
  dsimp only
  rw [listGetAll]
  split
  · rename_i hs
    rw [ho.eq_listCreate (ho.size_eq_zero.mp hs)]
    rfl
  · have hcars : ((listOrderByYear list).head.map toData).map createFrom =
        (listOrderByYear list).head.map some := by
      rw [List.map_map]
      apply List.map_congr_left
      intro d hd
      exact createFrom_toData (ho.valid d hd)
    show addCopies listCreate (((listOrderByYear list).head.map toData).map createFrom) = _
    rw [hcars, addCopies_some]
    cases hl : listOrderByYear list with
    | mk size head =>
      have hsize := ho.size
      rw [hl] at hsize
      simp only at hsize
      simp [listCreate, hsize]

/-! ## What the joiner has, and what it should have -/

/-- The joiner's list once it has added what it received. -/
def transferred (s : State) : Cars :=
  match s.joiner with
  | .received resp => addCopies s.joined (allCars resp)
  | _ => s.joined

/-- The tail's list, but for a write that may still be sent on. -/
def settled (s : State) : Cars :=
  match s.job with
  | none => s.list
  | some j =>
    match j.phase with
    | .invoked => j.before
    | .waiting none => j.before
    | _ => s.list

/-- The tail has answered the joiner's listing. -/
def Joiner.Listed : Joiner → Prop
  | .starting => False
  | .registered => False
  | _ => True

instance (j : Joiner) : Decidable j.Listed :=
  match j with
  | .starting | .registered => isFalse id
  | .received _ | .added | .serving => isTrue trivial

/-- Clients of the tail send writes the stubs build. -/
def StubWrites : Action → Prop
  | .handle req => StubWrite req
  | _ => True

/-- The writes are valid: a car is one `data_create` accepts. -/
def ValidWrites : Action → Prop
  | .handle req => StubWrite req ∧ ∀ pd ∈ req.data, (createFrom pd).isSome = true
  | _ => True

/-- No write that changes the tail's list finds `g_successor` NULL after the
tail has answered the listing. -/
def NoneMissed (s : State) : Action → Prop
  | .skip => s.joiner.Listed → ∀ j ∈ s.job, s.list = j.before
  | _ => True

instance : (a : Action) → Decidable (StubWrites a)
  | .handle req => inferInstanceAs (Decidable (StubWrite req))
  | .skip | .forward | .serve | .receive | .answer | .watch | .publish | .register | .getList
  | .addCars | .enterMainLoop => isTrue trivial

instance : (a : Action) → Decidable (ValidWrites a)
  | .handle req =>
    inferInstanceAs (Decidable (StubWrite req ∧ ∀ pd ∈ req.data, (createFrom pd).isSome = true))
  | .skip | .forward | .serve | .receive | .answer | .watch | .publish | .register | .getList
  | .addCars | .enterMainLoop => isTrue trivial

instance (s : State) : (a : Action) → Decidable (NoneMissed s a)
  | .skip => inferInstanceAs (Decidable (s.joiner.Listed → ∀ j ∈ s.job, s.list = j.before))
  | .handle _ | .forward | .serve | .receive | .answer | .watch | .publish | .register | .getList
  | .addCars | .enterMainLoop => isTrue trivial

theorem stubWrites_of_ne {a : Action} (h : ∀ req, a ≠ .handle req) : StubWrites a := by
  cases a with
  | handle req => exact absurd rfl (h req)
  | _ => trivial

structure Inv (s : State) : Prop where
  wellFormed : WellFormed s.list
  fresh : ¬ s.joiner.Listed → s.joined = listCreate
  alone : s.joiner ≠ .serving → s.successor = none ∧ ∀ conn ∈ s.publishing, conn = none
  job : ∀ j ∈ s.job, StubWrite j.req ∧ s.list = (invoke j.req j.before).list

theorem inv_initial {list : Cars} (h : WellFormed list) : Inv (initial list) :=
  ⟨h, fun _ => rfl, fun _ => ⟨rfl, by simp [initial]⟩, by simp [initial]⟩

/-- The handler goes on with its request. -/
theorem Inv.advance (hi : Inv s) {j j' : Job} (hj : s.job = some j) (hr : j'.req = j.req)
    (hb : j'.before = j.before) : Inv { s with job := some j' } where
  wellFormed := hi.wellFormed
  fresh := hi.fresh
  alone := hi.alone
  job := by
    intro j'' hj''
    cases hj''
    rw [hr, hb]
    exact hi.job j hj

theorem inv_step {a : Action} (hi : Inv s) (hok : StubWrites a) (h : step s a = some s') :
    Inv s' := by
  cases a with
  | handle req =>
    obtain ⟨_, rfl⟩ := handle_cases h
    refine ⟨wellFormed_invoke req hi.wellFormed, hi.fresh, hi.alone, ?_⟩
    intro j hj
    cases hj
    exact ⟨hok, rfl⟩
  | skip =>
    obtain ⟨j, hj, _, _, rfl⟩ := skip_cases h
    exact hi.advance hj rfl rfl
  | forward =>
    obtain ⟨j, hj, _, _, rfl⟩ := forward_cases h
    exact hi.advance hj rfl rfl
  | serve =>
    obtain ⟨j, hj, hs, _, rfl⟩ := serve_cases h
    have ha : Inv (s.setPhase j (.waiting (some (invoke (propagateMsg j.req) s.joined).msg))) :=
      hi.advance hj rfl rfl
    refine ⟨ha.wellFormed, fun hl => ?_, ha.alone, ha.job⟩
    rw [State.setPhase, hs] at hl
    exact absurd trivial hl
  | receive =>
    obtain ⟨j, resp, hj, _, rfl⟩ := receive_cases h
    exact hi.advance hj rfl rfl
  | answer =>
    obtain ⟨_, _, _, rfl⟩ := answer_cases h
    exact ⟨hi.wellFormed, hi.fresh, hi.alone, by simp⟩
  | watch =>
    obtain ⟨w, publishing, hp, rfl⟩ := watch_cases h
    exact ⟨hi.wellFormed, hi.fresh, fun hs => ⟨(hi.alone hs).1, hp hs⟩, hi.job⟩
  | publish =>
    obtain ⟨conn, hp, rfl⟩ := publish_cases h
    exact ⟨hi.wellFormed, hi.fresh, fun hs => ⟨(hi.alone hs).2 conn hp, by simp⟩, hi.job⟩
  | register =>
    obtain ⟨hj, rfl⟩ := register_cases h
    have halone := hi.alone (by rw [hj]; simp)
    exact ⟨hi.wellFormed, fun _ => hi.fresh (by rw [hj]; exact id), fun _ => halone, hi.job⟩
  | getList =>
    obtain ⟨hj, hnone, rfl⟩ := getList_cases h
    have halone := hi.alone (by rw [hj]; simp)
    refine ⟨wellFormed_invoke _ hi.wellFormed, fun hl => absurd trivial hl, fun _ => halone, ?_⟩
    intro j hj'
    rw [hnone] at hj'
    cases hj'
  | addCars =>
    obtain ⟨resp, hj, rfl⟩ := addCars_cases h
    have halone := hi.alone (by rw [hj]; simp)
    exact ⟨hi.wellFormed, fun hl => absurd trivial hl, fun _ => halone, hi.job⟩
  | enterMainLoop =>
    obtain ⟨_, rfl⟩ := enterMainLoop_cases h
    exact ⟨hi.wellFormed, fun hl => absurd trivial hl, fun hs => absurd rfl hs, hi.job⟩

/-! ## Nothing missed -/

theorem settled_of_none (h : s.job = none) : settled s = s.list := by rw [settled, h]

theorem settled_of_pending {j : Job} (h : s.job = some j)
    (hp : j.phase = .invoked ∨ j.phase = .waiting none) : settled s = j.before := by
  rcases hp with hp | hp <;> simp only [settled, h, hp]

theorem settled_of_done {j : Job} (h : s.job = some j) (hi : j.phase ≠ .invoked)
    (hw : j.phase ≠ .waiting none) : settled s = s.list := by
  simp only [settled, h]

/-- The joiner has, or will have added, the settled list of the tail. -/
def InStep (s : State) : Prop := s.joiner.Listed → transferred s = settled s

theorem inStep_serve (hi : Inv s) (ht : InStep s) (h : serve s = some s') : InStep s' := by
  obtain ⟨j, hj, hs, hp, rfl⟩ := serve_cases h
  obtain ⟨hw, hlist⟩ := hi.job j hj
  intro _
  have hbefore : s.joined = j.before := by
    have hl : s.joiner.Listed := by rw [hs]; trivial
    have := ht hl
    rw [settled_of_pending hj (Or.inr hp), transferred, hs] at this
    exact this
  rw [settled_of_done rfl (by simp) (by simp), transferred]
  simp only [State.setPhase, hs]
  rw [propagateMsg_of_stubWrite hw, hbefore, hlist]

theorem inStep_step {a : Action} (hi : Inv s) (ht : InStep s) (hw : StubWrites a)
    (hok : NoneMissed s a) (h : step s a = some s') : InStep s' := by
  cases a with
  | handle req =>
    obtain ⟨hj, rfl⟩ := handle_cases h
    intro hl
    have hinvoked : isWriteOp req = true := isWriteOp_of_stubWrite hw
    rw [settled_of_pending rfl (Or.inl (if_pos hinvoked)), ← settled_of_none hj]
    exact ht hl
  | skip =>
    obtain ⟨j, hj, _, hp, rfl⟩ := skip_cases h
    intro hl
    have hsame : s.list = j.before := hok hl j hj
    rw [settled_of_done rfl (by simp) (by simp)]
    show transferred s = s.list
    rw [hsame, ← settled_of_pending hj (Or.inl hp)]
    exact ht hl
  | forward =>
    obtain ⟨j, hj, _, hp, rfl⟩ := forward_cases h
    intro hl
    rw [settled_of_pending rfl (Or.inr rfl), ← settled_of_pending hj (Or.inl hp)]
    exact ht hl
  | serve => exact inStep_serve hi ht h
  | receive =>
    obtain ⟨j, resp, hj, hp, rfl⟩ := receive_cases h
    intro hl
    rw [settled_of_done rfl (by simp) (by simp)]
    show transferred s = s.list
    rw [← settled_of_done hj (by simp [hp]) (by simp [hp])]
    exact ht hl
  | answer =>
    obtain ⟨j, hj, hp, rfl⟩ := answer_cases h
    intro hl
    rw [settled_of_none rfl]
    show transferred s = s.list
    rw [← settled_of_done hj (by simp [hp]) (by simp [hp])]
    exact ht hl
  | watch =>
    obtain ⟨_, _, _, rfl⟩ := watch_cases h
    exact ht
  | publish =>
    obtain ⟨_, _, rfl⟩ := publish_cases h
    exact ht
  | register =>
    obtain ⟨_, rfl⟩ := register_cases h
    exact fun hl => absurd hl id
  | getList =>
    obtain ⟨hj, hnone, hs'⟩ := getList_cases h
    intro _
    have hfresh : s.joined = listCreate := hi.fresh (by rw [hj]; exact id)
    have hnone' : s'.job = none := by rw [hs']; exact hnone
    rw [settled_of_none hnone', hs', transferred]
    dsimp only
    rw [hfresh]
    exact addCopies_listing hi.wellFormed
  | addCars =>
    obtain ⟨resp, hj, rfl⟩ := addCars_cases h
    intro _
    have hl : s.joiner.Listed := by rw [hj]; trivial
    have := ht hl
    rw [transferred, hj] at this
    exact this
  | enterMainLoop =>
    obtain ⟨hj, rfl⟩ := enterMainLoop_cases h
    intro _
    have hl : s.joiner.Listed := by rw [hj]; trivial
    have := ht hl
    rw [transferred, hj] at this
    exact this

theorem inv_of_reach {list : Cars} (hw : WellFormed list) {ok : State → Action → Prop}
    (hok : ∀ s a, ok s a → StubWrites a) (h : Reach (Does step) ok (initial list) s) : Inv s :=
  h.invariant (inv_initial hw) fun _ a _ _ hi ha hstep => inv_step hi (hok _ a ha) hstep

theorem inStep_of_reach {list : Cars} (hw : WellFormed list)
    (h : Reach (Does step) (fun s a => StubWrites a ∧ NoneMissed s a) (initial list) s) :
    InStep s := by
  apply h.invariant (fun hl => absurd hl id)
  intro s a s' hr ht ha hstep
  exact inStep_step (inv_of_reach hw (fun _ _ h => h.1) hr) ht ha.1 ha.2 hstep

/-- Once connected, the joiner serves. -/
theorem Inv.serving (hi : Inv s) (hs : s.successor = some ()) : s.joiner = .serving := by
  by_contra hne
  rw [(hi.alone hne).1] at hs
  cases hs

/-! ## A missed write -/

theorem invoke_length {m : MessageT} (hw : StubWrite m) {list : Cars}
    (hne : (invoke m list).list ≠ list) :
    (invoke m list).list.head.length ≠ list.head.length := by
  rcases (isWriteOp_iff m).mp (isWriteOp_of_stubWrite hw) with ho | ho
  · rw [invoke_add ho] at hne ⊢
    rcases invokeAdd_cases m list with hr | ⟨_, _, _, _, _, hr⟩
    · rw [hr] at hne
      exact absurd rfl hne
    · rw [hr]
      simp [listAdd]
  · rw [invoke_del ho] at hne ⊢
    rcases invokeDel_cases m list with hr | ⟨model, _, _, _, hr⟩
    · rw [hr] at hne
      exact absurd rfl hne
    · rw [hr] at hne ⊢
      rcases listRemoveByModel_cases list model with ⟨hl, _, _⟩ | ⟨d, left, _, hp, hl⟩
      · exact absurd hl hne
      · have hlen := hp.length_eq
        rw [List.length_cons] at hlen
        rw [hl]
        dsimp only
        omega

/-- The joiner will have other cars than the tail, and no write is in the way. -/
structure Missed (s : State) : Prop where
  listed : s.joiner.Listed
  lengths : (transferred s).head.length ≠ s.list.head.length
  done : ∀ j ∈ s.job, j.phase = .ready

theorem missed_step {a : Action} (hm : Missed s) (ha : ∀ req, a ≠ .handle req)
    (h : step s a = some s') : Missed s' := by
  cases a with
  | handle req => exact absurd rfl (ha req)
  | skip =>
    obtain ⟨j, hj, _, hp, _⟩ := skip_cases h
    rw [hm.done j hj] at hp
    cases hp
  | forward =>
    obtain ⟨j, hj, _, hp, _⟩ := forward_cases h
    rw [hm.done j hj] at hp
    cases hp
  | serve =>
    obtain ⟨j, hj, _, hp, _⟩ := serve_cases h
    rw [hm.done j hj] at hp
    cases hp
  | receive =>
    obtain ⟨j, _, hj, hp, _⟩ := receive_cases h
    rw [hm.done j hj] at hp
    cases hp
  | answer =>
    obtain ⟨_, _, _, rfl⟩ := answer_cases h
    exact ⟨hm.listed, hm.lengths, by simp⟩
  | watch =>
    obtain ⟨_, _, _, rfl⟩ := watch_cases h
    exact ⟨hm.listed, hm.lengths, hm.done⟩
  | publish =>
    obtain ⟨_, _, rfl⟩ := publish_cases h
    exact ⟨hm.listed, hm.lengths, hm.done⟩
  | register =>
    obtain ⟨hj, _⟩ := register_cases h
    have hl := hm.listed
    rw [hj] at hl
    exact absurd hl id
  | getList =>
    obtain ⟨hj, _, _⟩ := getList_cases h
    have hl := hm.listed
    rw [hj] at hl
    exact absurd hl id
  | addCars =>
    obtain ⟨resp, hj, rfl⟩ := addCars_cases h
    have hlen := hm.lengths
    rw [transferred, hj] at hlen
    exact ⟨trivial, hlen, hm.done⟩
  | enterMainLoop =>
    obtain ⟨hj, rfl⟩ := enterMainLoop_cases h
    have hlen := hm.lengths
    rw [transferred, hj] at hlen
    exact ⟨trivial, hlen, hm.done⟩

/-- The step `NoneMissed` forbids makes the joiner miss the write. -/
theorem missed_of_skip (hi : Inv s) (ht : InStep s) (hno : ¬ NoneMissed s .skip)
    (h : skip s = some s') : Missed s' := by
  obtain ⟨j, hj, _, hp, rfl⟩ := skip_cases h
  obtain ⟨hw, hlist⟩ := hi.job j hj
  have hl : s.joiner.Listed := by
    by_contra hl
    exact hno fun h => absurd h hl
  have hne : s.list ≠ j.before := by
    intro he
    apply hno
    intro _ j' hj'
    rw [hj] at hj'
    cases hj'
    exact he
  refine ⟨hl, ?_, ?_⟩
  · show (transferred s).head.length ≠ s.list.head.length
    rw [ht hl, settled_of_pending hj (Or.inl hp), hlist]
    exact (invoke_length hw (hlist ▸ hne)).symm
  · intro j' hj'
    cases hj'
    rfl

/-! ## The joiner and the tail -/

/-- The joiner holds exactly the cars of the tail. -/
def SameCars (s : State) : Prop := s.joined.head.Perm s.list.head

/-- The tail's successor is the joiner and no write is in progress. -/
def Joined (s : State) : Prop := s.successor = some () ∧ s.job = none

instance (s : State) : Decidable (SameCars s) :=
  inferInstanceAs (Decidable (s.joined.head.Perm s.list.head))

instance (s : State) : Decidable (Joined s) :=
  inferInstanceAs (Decidable (s.successor = some () ∧ s.job = none))

/-- **No update is lost when a server joins**, in runs in which no write that
changes the tail's list is handled without a successor after the tail answered
the listing; and after the first that is, the two differ until the next write. -/
theorem joined_of_noneMissed (list : Cars) (hw : WellFormed list) :
    (∀ s, Reach (Does step) (fun s a => StubWrites a ∧ NoneMissed s a) (initial list) s →
      Joined s → SameCars s) ∧
    (∀ s s' s'', Reach (Does step) (fun s a => StubWrites a ∧ NoneMissed s a) (initial list) s →
      skip s = some s' → ¬ NoneMissed s .skip →
      Reach (Does step) (fun _ a => ∀ req, a ≠ .handle req) s' s'' →
      Joined s'' → ¬ SameCars s'') := by
  constructor
  · rintro s h ⟨hs, hj⟩
    have hserving := (inv_of_reach hw (fun _ _ h => h.1) h).serving hs
    have hl : s.joiner.Listed := by rw [hserving]; trivial
    have ht := inStep_of_reach hw h hl
    rw [settled_of_none hj, transferred, hserving] at ht
    rw [SameCars, show s.joined = s.list from ht]
  · rintro s s' s'' h hskip hno h' ⟨hs, _⟩ hsame
    have hi := inv_of_reach hw (fun _ _ h => h.1) h
    have hi'' : Inv s'' := h'.invariant (inv_step (a := .skip) hi trivial hskip)
      fun _ a _ _ hi ha hstep => inv_step hi (stubWrites_of_ne ha) hstep
    have hm : Missed s'' := h'.invariant (missed_of_skip hi (inStep_of_reach hw h) hno hskip)
      fun _ _ _ _ hm ha hstep => missed_step hm ha hstep
    have hlen := hm.lengths
    rw [transferred, hi''.serving hs] at hlen
    exact hlen hsame.length_eq

/-! ## Two joins -/

/-- The write waits until the joiner is connected. -/
def calmRun : List Action :=
  [.register, .getList, .addCars, .enterMainLoop, .watch, .publish, .handle sampleAdd, .forward,
    .serve, .receive, .answer]

theorem joined_of_noneMissed_calmRun : ∃ s,
    Reach (Does step) (fun s a => StubWrites a ∧ NoneMissed s a) (initial listCreate) s ∧
      (Joined s ∧ s.list.size = 1) ∧ SameCars s := by
  have hrun : ∃ s,
      Reach (Does step) (fun s a => StubWrites a ∧ NoneMissed s a) (initial listCreate) s ∧
      (Joined s ∧ s.list.size = 1) :=
    exists_reach_of_replay calmRun _ (by decide)
  obtain ⟨s, hr, hj⟩ := hrun
  exact ⟨s, hr, hj, (joined_of_noneMissed listCreate wellFormed_listCreate).1 s hr hj.1⟩

/-- The write comes when the tail has answered the listing. -/
def hastyRun : List Action :=
  [.register, .getList, .handle sampleAdd, .skip, .answer, .addCars, .enterMainLoop, .watch,
    .publish]

/-- The tail has the car, the joiner never gets it. -/
theorem joiner_misses_write :
    ¬ ∀ s, Reach (Does step) (fun _ a => ValidWrites a) (initial listCreate) s →
      Joined s → SameCars s := by
  intro hall
  have hrun : ∃ s, Reach (Does step) (fun _ a => ValidWrites a) (initial listCreate) s ∧
      (Joined s ∧ ¬ SameCars s) :=
    exists_reach_of_replay hastyRun _ (by decide)
  obtain ⟨s, hr, hj, hno⟩ := hrun
  exact hno (hall s hr hj)

end CarChain.Join
