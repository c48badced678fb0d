import CarChain.Nodes
import CarChain.Slots
import CarChain.Stub

/-!
# From the main loop to the end of the server

The list of a server as long as `main` of `list_server.c` keeps it: the handlers
of all connections work on it, one request at a time under `list_mutex`, and when
the main loop has ended and `network_server_join_threads` has returned `main`
destroys it.  The server has no predecessor, so its list starts empty, and no
successor, so a handler has nobody to wait for but its client.  The threads are
detached and nobody else holds them back, yet no handler finds the list gone or a
node of it freed, and nothing of it is left (`list_outlives_handlers`).
-/

namespace CarChain.Lifecycle
open CarChain.Record CarChain.Message CarChain.CarList CarChain.Run
open CarChain.Ownership (runCars)
open CarChain.Nodes (Represents listDestroy)
open CarChain.Stub (rlistAddRequest rlistSizeRequest)

/-- Where a handler stands in its loop. -/
inductive Place
  /-- Before the test of the shutdown flag. -/
  | testing
  /-- In `network_receive`, before a call of `read`. -/
  | receiving
  /-- In that call, waiting for its client. -/
  | reading
  /-- Past `network_receive`, with no request. -/
  | ended
  deriving DecidableEq

structure State where
  slots : Slots.State
  /-- The places of the handlers of `slots`. -/
  places : List Place
  list : Nodes.State
  /-- What the handlers executed, in the order of `list_mutex`. -/
  requests : List MessageT
  replies : List MessageT
  destroyed : Bool
  /-- Memory was used or freed that was not there. -/
  faulty : Bool

inductive Action
  | slot (e : Slots.Event)
  /-- A handler finds no shutdown requested. -/
  | test (i : Nat)
  /-- It calls `read`, which fails on a closed descriptor. -/
  | read (i : Nat)
  /-- Its client has sent part of a request. -/
  | arrive (i : Nat)
  /-- Its client has sent the rest of a request, which it executes. -/
  | execute (i : Nat) (msg : MessageT)
  /-- Its client has closed, or sent what is no request. -/
  | hangUp (i : Nat)
  /-- `list_skel_destroy`, the last thing `main` does. -/
  | destroy

def initial (listeningSocket : Int) : State :=
  ⟨Slots.initial listeningSocket, [], Nodes.start, [], [], false, false⟩

/-- A handler leaves its loop by what it received or by the test of the flag. -/
def mayGo (s : State) : Slots.Event → Bool
  | .leave i =>
    s.places[i]? == some .ended || (s.places[i]? == some .testing && s.slots.shutdownRequested)
  | _ => true

/-- The places after an event that led from `slots` to `slots'`. -/
def follow (slots slots' : Slots.State) (places : List Place) : Slots.Event → List Place
  | .greet _ _ =>
    if slots.handlers.length < slots'.handlers.length then places ++ [.testing] else places
  | .leave i => places.set i .ended
  | .finish i => places.eraseIdx i
  | _ => places

def execute (msg : MessageT) (s : State) : State :=
  if s.destroyed then { s with faulty := true }
  else
    match Nodes.invoke msg s.list with
    | none => { s with faulty := true }
    | some (reply, list) =>
      { s with list := list, requests := s.requests ++ [msg], replies := s.replies ++ [reply] }

def destroy (s : State) : State :=
  match listDestroy s.list with
  | none => { s with faulty := true }
  | some (store, nodes) =>
    { s with list := { s.list with store := store, nodes := nodes }, destroyed := true }

def moveTo (i : Nat) (place : Place) (s : State) : State :=
  { s with places := s.places.set i place }

/-- The state after an action; none where it cannot happen. -/
def step (s : State) : Action → Option State
  | .slot e =>
    if mayGo s e then
      (Slots.step s.slots e).map fun slots =>
        { s with slots := slots, places := follow s.slots slots s.places e }
    else none
  | .test i =>
    if s.places[i]? = some .testing ∧ s.slots.shutdownRequested = false then
      some (moveTo i .receiving s)
    else none
  | .read i =>
    match s.slots.handlers[i]? with
    | some h =>
      if s.places[i]? = some .receiving then
        some (moveTo i (if h.socket ∈ s.slots.opened then .reading else .ended) s)
      else none
    | none => none
  | .arrive i => if s.places[i]? = some .reading then some (moveTo i .receiving s) else none
  | .execute i msg =>
    if s.places[i]? = some .reading then some (moveTo i .testing (execute msg s)) else none
  | .hangUp i => if s.places[i]? = some .reading then some (moveTo i .ended s) else none
  | .destroy => if s.slots.main = .joined ∧ s.destroyed = false then some (destroy s) else none

/-- Every action that can happen may. -/
abbrev Reachable (listeningSocket : Int) : State → Prop :=
  Reach (Does step) (fun _ _ => True) (initial listeningSocket)

variable {listeningSocket : Int} {s s' : State}

/-! ## Where the main thread stands -/

theorem shutdown_main (s : Slots.State) :
    (Slots.networkServerRequestShutdown s).main = s.main := by
  unfold Slots.networkServerRequestShutdown
  dsimp only
  split <;> split <;> rfl

theorem leave_main (i : Nat) (h : Slots.Handler) (s : Slots.State) :
    (Slots.leave i h s).main = s.main := by
  unfold Slots.leave
  dsimp only
  split <;> rfl

theorem greet_main (sock : Int) (args create : Bool) (s : Slots.State) :
    (Slots.greet sock args create s).2.main = .accepting ∨
      (Slots.greet sock args create s).2.main = .started sock := by
  unfold Slots.greet
  split
  · exact Or.inl rfl
  split
  · exact Or.inl rfl
  split
  · exact Or.inl rfl
  · exact Or.inr rfl

/-- The wait is over only by its end, and then nothing moves the main thread. -/
theorem joined_step {s s' : Slots.State} {e : Slots.Event} (h : Slots.step s e = some s')
    (hj : s'.main = .joined) :
    (s.main = .joined ∧ (s'.handlers = s.handlers ∨ ∃ i, e = .leave i ∨ e = .finish i)) ∨
      (¬s.activeConnections > 0 ∧ s'.handlers = s.handlers) := by
  cases e with
  | accept sock =>
    simp only [Slots.step, Option.ite_none_right_eq_some, Option.some.injEq] at h
    rw [← h.2] at hj
    cases hj
  | acceptFails =>
    simp only [Slots.step, Option.ite_none_right_eq_some, Option.some.injEq] at h
    rw [← h.2] at hj
    dsimp only at hj
    split at hj <;> cases hj
  | greet args create =>
    simp only [Slots.step] at h
    split at h
    · rename_i sock _
      cases h
      rcases greet_main sock args create s with hmain | hmain
      · rw [hmain] at hj
        cases hj
      · rw [hmain] at hj
        cases hj
    · cases h
  | remember =>
    simp only [Slots.step] at h
    split at h
    · cases h
      cases hj
    · cases h
  | leaveLoop =>
    simp only [Slots.step, Option.ite_none_right_eq_some, Option.some.injEq] at h
    rw [← h.2] at hj
    cases hj
  | leave i =>
    simp only [Slots.step] at h
    split at h
    · simp only [Option.ite_none_right_eq_some, Option.some.injEq] at h
      rw [← h.2, leave_main] at hj
      exact Or.inl ⟨hj, Or.inr ⟨i, Or.inl rfl⟩⟩
    · cases h
  | finish i =>
    simp only [Slots.step] at h
    split at h
    · simp only [Option.ite_none_right_eq_some, Option.some.injEq] at h
      rw [← h.2] at hj
      exact Or.inl ⟨hj, Or.inr ⟨i, Or.inr rfl⟩⟩
    · cases h
  | requestShutdown =>
    cases h
    rw [shutdown_main] at hj
    exact Or.inl ⟨hj, Or.inl (Slots.sameBooks_shutdown s).handlers⟩
  | join =>
    simp only [Slots.step, Option.ite_none_right_eq_some, Option.some.injEq] at h
    rw [← h.2] at hj
    cases hj
  | stopWaiting =>
    simp only [Slots.step, Option.ite_none_right_eq_some, Option.some.injEq] at h
    exact Or.inr ⟨h.1.2, by rw [← h.2]⟩
  | opens fd =>
    simp only [Slots.step, Option.ite_none_right_eq_some, Option.some.injEq] at h
    rw [← h.2] at hj
    exact Or.inl ⟨hj, Or.inl (by rw [← h.2])⟩
  | closes fd =>
    cases h
    exact Or.inl ⟨hj, Or.inl rfl⟩

theorem joined_stays {s s' : Slots.State} {e : Slots.Event} (h : Slots.step s e = some s')
    (hj : s.main = .joined) : s'.main = .joined := by
  cases e with
  | accept _ | acceptFails | greet _ _ | remember | leaveLoop | join | stopWaiting =>
    simp [Slots.step, hj] at h
  | leave i =>
    simp only [Slots.step] at h
    split at h
    · simp only [Option.ite_none_right_eq_some, Option.some.injEq] at h
      rw [← h.2, leave_main, hj]
    · cases h
  | finish i =>
    simp only [Slots.step] at h
    split at h
    · simp only [Option.ite_none_right_eq_some, Option.some.injEq] at h
      rw [← h.2]
      exact hj
    · cases h
  | requestShutdown =>
    cases h
    rw [shutdown_main, hj]
  | opens fd =>
    simp only [Slots.step, Option.ite_none_right_eq_some, Option.some.injEq] at h
    rw [← h.2]
    exact hj
  | closes fd =>
    cases h
    exact hj

/-- While the main thread is past the wait there are no handlers. -/
theorem handlers_of_joined {s : Slots.State} (h : Slots.Reachable listeningSocket s)
    (hj : s.main = .joined) : s.handlers = [] := by
  refine h.invariant (I := fun s => s.main = .joined → s.handlers = []) ?_ ?_ hj
  · intro hmain
    cases hmain
  · intro s e s' hr hs _ hstep hmain
    rcases joined_step hstep hmain with ⟨hj, hsame | ⟨i, hi⟩⟩ | ⟨hzero, hsame⟩
    · rw [hsame, hs hj]
    · have hnone : s.handlers[i]? = none := by
        rw [hs hj]
        rfl
      rcases hi with rfl | rfl
      · simp [Does, Slots.step, hnone] at hstep
      · simp [Does, Slots.step, hnone] at hstep
    · have hcount := (Slots.booksRight hr).inStep.count
      rw [hsame]
      exact List.length_eq_zero_iff.mp (by omega)

/-! ## The list outlives the handlers -/

theorem runCars_concat (msgs : List MessageT) (msg : MessageT) (list : Cars) :
    runCars (msgs ++ [msg]) list =
      ((runCars msgs list).1 ++ [(Skeleton.invoke msg (runCars msgs list).2).msg],
        (Skeleton.invoke msg (runCars msgs list).2).list) := by
  induction msgs generalizing list with
  | nil => rfl
  | cons m msgs ih =>
    rw [List.cons_append, runCars, ih]
    rfl

@[simp] theorem execute_slots (msg : MessageT) (s : State) : (execute msg s).slots = s.slots := by
  unfold execute
  split
  · rfl
  · split <;> rfl

@[simp] theorem execute_places (msg : MessageT) (s : State) :
    (execute msg s).places = s.places := by
  unfold execute
  split
  · rfl
  · split <;> rfl

@[simp] theorem execute_destroyed (msg : MessageT) (s : State) :
    (execute msg s).destroyed = s.destroyed := by
  unfold execute
  split
  · rfl
  · split <;> rfl

@[simp] theorem moveTo_slots (i : Nat) (place : Place) (s : State) :
    (moveTo i place s).slots = s.slots := rfl

@[simp] theorem destroy_slots (s : State) : (destroy s).slots = s.slots := by
  unfold destroy
  split <;> rfl

@[simp] theorem destroy_places (s : State) : (destroy s).places = s.places := by
  unfold destroy
  split <;> rfl

/-- What an action does: a step of the connections, a move of a handler in its
loop, with a request or without one, or the end. -/
theorem step_cases {a : Action} (h : step s a = some s') :
    (∃ e slots, a = .slot e ∧ mayGo s e = true ∧ Slots.step s.slots e = some slots ∧
        s' = { s with slots := slots, places := follow s.slots slots s.places e }) ∨
      (∃ i, a = .test i ∧ s.places[i]? = some .testing ∧ s.slots.shutdownRequested = false ∧
        s' = moveTo i .receiving s) ∨
      (∃ i place, a = .read i ∧ s.places[i]? = some .receiving ∧
        (place = .reading ∨ place = .ended) ∧ s' = moveTo i place s) ∨
      (∃ i place, (a = .arrive i ∧ place = .receiving ∨ a = .hangUp i ∧ place = .ended) ∧
        s.places[i]? = some .reading ∧ s' = moveTo i place s) ∨
      (∃ i msg, a = .execute i msg ∧ s.places[i]? = some .reading ∧
        s' = moveTo i .testing (execute msg s)) ∨
      (a = .destroy ∧ s.slots.main = .joined ∧ s.destroyed = false ∧ s' = destroy s) := by
  cases a with
  | slot e =>
    simp only [step, Option.ite_none_right_eq_some] at h
    obtain ⟨hgo, hmap⟩ := h
    obtain ⟨slots, hslots, rfl⟩ := Option.map_eq_some_iff.mp hmap
    exact Or.inl ⟨e, slots, rfl, hgo, hslots, rfl⟩
  | test i =>
    simp only [step, Option.ite_none_right_eq_some, Option.some.injEq] at h
    exact Or.inr (Or.inl ⟨i, rfl, h.1.1, h.1.2, h.2.symm⟩)
  | read i =>
    simp only [step] at h
    split at h
    · rename_i handler _
      simp only [Option.ite_none_right_eq_some, Option.some.injEq] at h
      refine Or.inr (Or.inr (Or.inl ⟨i, _, rfl, h.1, ?_, h.2.symm⟩))
      split
      · exact Or.inl rfl
      · exact Or.inr rfl
    · cases h
  | arrive i =>
    simp only [step, Option.ite_none_right_eq_some, Option.some.injEq] at h
    exact Or.inr (Or.inr (Or.inr (Or.inl ⟨i, _, Or.inl ⟨rfl, rfl⟩, h.1, h.2.symm⟩)))
  | execute i msg =>
    simp only [step, Option.ite_none_right_eq_some, Option.some.injEq] at h
    exact Or.inr (Or.inr (Or.inr (Or.inr (Or.inl ⟨i, msg, rfl, h.1, h.2.symm⟩))))
  | hangUp i =>
    simp only [step, Option.ite_none_right_eq_some, Option.some.injEq] at h
    exact Or.inr (Or.inr (Or.inr (Or.inl ⟨i, _, Or.inr ⟨rfl, rfl⟩, h.1, h.2.symm⟩)))
  | destroy =>
    simp only [step, Option.ite_none_right_eq_some, Option.some.injEq] at h
    exact Or.inr (Or.inr (Or.inr (Or.inr (Or.inr ⟨rfl, h.1.1, h.1.2, h.2.symm⟩))))

/-- The connections go their own way. -/
theorem slots_reachable (h : Reachable listeningSocket s) :
    Slots.Reachable listeningSocket s.slots := by
  refine h.simulate State.slots fun s a s' _ _ hstep => ?_
  rcases step_cases hstep with ⟨e, slots, rfl, _, hslots, rfl⟩ | ⟨i, rfl, _, _, rfl⟩ |
    ⟨i, place, rfl, _, _, rfl⟩ | ⟨i, place, _, _, rfl⟩ | ⟨i, msg, rfl, _, rfl⟩ |
    ⟨rfl, _, _, rfl⟩
  · exact Or.inr ⟨e, trivial, hslots⟩
  · exact Or.inl (moveTo_slots i _ s)
  · exact Or.inl (moveTo_slots i place s)
  · exact Or.inl (moveTo_slots i place s)
  · exact Or.inl ((moveTo_slots i _ _).trans (execute_slots msg s))
  · exact Or.inl (destroy_slots s)

/-! ## The places of the handlers -/

/-- A handler comes, leaves its loop or finishes, and its place with it. -/
theorem follow_cases {slots' : Slots.State} {e : Slots.Event} (hgo : mayGo s e = true)
    (h : Slots.step s.slots e = some slots') :
    (slots'.handlers = s.slots.handlers ∧ follow s.slots slots' s.places e = s.places) ∨
      (∃ sock, slots'.handlers = s.slots.handlers ++ [⟨sock, false⟩] ∧
        follow s.slots slots' s.places e = s.places ++ [.testing]) ∨
      (∃ i handler place, s.slots.handlers[i]? = some handler ∧ handler.left = false ∧
        s.places[i]? = some place ∧ place ≠ .reading ∧
        slots'.handlers = s.slots.handlers.set i { handler with left := true } ∧
        follow s.slots slots' s.places e = s.places.set i .ended) ∨
      (∃ i handler, s.slots.handlers[i]? = some handler ∧ handler.left = true ∧
        slots'.handlers = s.slots.handlers.eraseIdx i ∧
        follow s.slots slots' s.places e = s.places.eraseIdx i) := by
  cases e with
  | accept _ | acceptFails | leaveLoop | stopWaiting | opens _ =>
    simp only [Slots.step, Option.ite_none_right_eq_some, Option.some.injEq] at h
    exact Or.inl ⟨by rw [← h.2], rfl⟩
  | greet args create =>
    simp only [Slots.step] at h
    split at h
    · rename_i sock _
      cases h
      rcases Slots.greet_cases sock args create s.slots with hsame | ⟨_, hh, _, _⟩
      · exact Or.inl ⟨hsame.handlers, by simp [follow, hsame.handlers]⟩
      · exact Or.inr (Or.inl ⟨sock, hh, by simp [follow, hh]⟩)
    · cases h
  | remember =>
    simp only [Slots.step] at h
    split at h
    · cases h
      exact Or.inl ⟨rfl, rfl⟩
    · cases h
  | leave i =>
    simp only [Slots.step] at h
    split at h
    · rename_i handler hi
      simp only [Option.ite_none_right_eq_some, Option.some.injEq] at h
      obtain ⟨hleft, rfl⟩ := h
      have hbooks := (Slots.leave_books i handler s.slots).1
      simp only [mayGo, Bool.or_eq_true, Bool.and_eq_true, beq_iff_eq] at hgo
      rcases hgo with hplace | ⟨hplace, _⟩
      · exact Or.inr (Or.inr (Or.inl ⟨i, handler, _, hi, hleft, hplace, by decide, hbooks, rfl⟩))
      · exact Or.inr (Or.inr (Or.inl ⟨i, handler, _, hi, hleft, hplace, by decide, hbooks, rfl⟩))
    · cases h
  | finish i =>
    simp only [Slots.step] at h
    split at h
    · rename_i handler hi
      simp only [Option.ite_none_right_eq_some, Option.some.injEq] at h
      obtain ⟨hleft, rfl⟩ := h
      exact Or.inr (Or.inr (Or.inr ⟨i, handler, hi, hleft, rfl, rfl⟩))
    · cases h
  | requestShutdown =>
    cases h
    exact Or.inl ⟨(Slots.sameBooks_shutdown s.slots).handlers, rfl⟩
  | join =>
    simp only [Slots.step, Option.ite_none_right_eq_some, Option.some.injEq] at h
    obtain ⟨_, rfl⟩ := h
    exact Or.inl ⟨(Slots.sameBooks_closeAll s.slots.activeSockets s.slots).handlers, rfl⟩
  | closes _ =>
    cases h
    exact Or.inl ⟨rfl, rfl⟩

/-- One place for each handler, and who has left its loop is past it. -/
structure InPlace (s : State) : Prop where
  length : s.places.length = s.slots.handlers.length
  left : ∀ (i : Nat) (handler : Slots.Handler), s.slots.handlers[i]? = some handler →
    handler.left = true → s.places[i]? = some .ended

theorem InPlace.place {i : Nat} {handler : Slots.Handler} (hp : InPlace s)
    (hi : s.slots.handlers[i]? = some handler) : ∃ place, s.places[i]? = some place := by
  have hlt := (List.getElem?_eq_some_iff.mp hi).1
  rw [← hp.length] at hlt
  exact ⟨s.places[i], List.getElem?_eq_getElem hlt⟩

theorem InPlace.slot {slots' : Slots.State} {e : Slots.Event} (hp : InPlace s)
    (hgo : mayGo s e = true) (h : Slots.step s.slots e = some slots') :
    InPlace { s with slots := slots', places := follow s.slots slots' s.places e } := by
  have hlength := hp.length
  rcases follow_cases hgo h with ⟨hh, hf⟩ | ⟨sock, hh, hf⟩ |
    ⟨i, handler, place, hi, _, hplace, _, hh, hf⟩ | ⟨i, handler, hi, _, hh, hf⟩
  · rw [hf]
    exact ⟨by rw [hlength, hh], fun k other hk => hp.left k other (by rwa [hh] at hk)⟩
  · rw [hf]
    refine ⟨by simp [hh, hlength], fun k other hk hleft => ?_⟩
    rw [hh] at hk
    by_cases hlt : k < s.slots.handlers.length
    · rw [List.getElem?_append_left hlt] at hk
      rw [List.getElem?_append_left (by omega)]
      exact hp.left k other hk hleft
    · rw [List.getElem?_append_right (by omega), List.getElem?_singleton] at hk
      split at hk
      · cases hk
        cases hleft
      · cases hk
  · rw [hf]
    refine ⟨by simp [hh, hlength], fun k other hk hleft => ?_⟩
    rw [hh] at hk
    by_cases hik : i = k
    · have hlt := (List.getElem?_eq_some_iff.mp hplace).1
      rw [← hik, List.getElem?_set_self hlt]
    · rw [List.getElem?_set_ne hik] at hk ⊢
      exact hp.left k other hk hleft
  · rw [hf]
    have hlt := (List.getElem?_eq_some_iff.mp hi).1
    refine ⟨?_, fun k other hk hleft => ?_⟩
    · rw [hh, List.length_eraseIdx_of_lt (by omega), List.length_eraseIdx_of_lt hlt, hlength]
    · rw [hh] at hk
      rw [List.getElem?_eraseIdx] at hk ⊢
      split at hk
      · rename_i hki
        rw [if_pos hki]
        exact hp.left k other hk hleft
      · rename_i hki
        rw [if_neg hki]
        exact hp.left (k + 1) other hk hleft

/-- Who moves within the loop is in it. -/
theorem InPlace.moveTo {i : Nat} {place place' : Place} (hp : InPlace s)
    (hi : s.places[i]? = some place) (hne : place ≠ .ended) :
    InPlace (Lifecycle.moveTo i place' s) := by
  refine ⟨(List.length_set ..).trans hp.length, fun k handler hk hleft => ?_⟩
  have hended := hp.left k handler hk hleft
  have hik : i ≠ k := by
    rintro rfl
    rw [hended] at hi
    exact hne (Option.some.inj hi).symm
  rw [Lifecycle.moveTo, List.getElem?_set_ne hik]
  exact hended

theorem InPlace.congr (hp : InPlace s) (hslots : s'.slots = s.slots)
    (hplaces : s'.places = s.places) : InPlace s' := by
  refine ⟨?_, ?_⟩
  · rw [hslots, hplaces]
    exact hp.length
  · rw [hslots, hplaces]
    exact hp.left

theorem inPlace_of_reach (h : Reachable listeningSocket s) : InPlace s := by
  refine h.invariant (I := InPlace) ⟨rfl, by simp [initial, Slots.initial]⟩ ?_
  intro s a s' _ hp _ hstep
  rcases step_cases hstep with ⟨e, slots, rfl, hgo, hslots, rfl⟩ | ⟨i, rfl, hi, _, rfl⟩ |
    ⟨i, place, rfl, hi, _, rfl⟩ | ⟨i, place, _, hi, rfl⟩ | ⟨i, msg, rfl, hi, rfl⟩ |
    ⟨rfl, _, _, rfl⟩
  · exact hp.slot hgo hslots
  · exact hp.moveTo hi nofun
  · exact hp.moveTo hi nofun
  · exact hp.moveTo hi nofun
  · have hexec := hp.congr (execute_slots msg s) (execute_places msg s)
    exact hexec.moveTo ((congrArg (·[i]?) (execute_places msg s)).trans hi) nofun
  · exact hp.congr (destroy_slots s) (destroy_places s)

/-- What holds in every reachable state. -/
structure Sound (s : State) : Prop where
  sane : s.faulty = false
  replies : s.replies = (runCars s.requests listCreate).1
  kept : s.destroyed = false → Represents s.list (runCars s.requests listCreate).2
  gone : s.destroyed = true → s.slots.main = .joined ∧ (∀ x, ¬s.list.store.Live x) ∧
    ∀ x, ¬s.list.nodes.Live x

theorem sound_initial : Sound (initial listeningSocket) :=
  ⟨rfl, rfl, fun _ => Nodes.represents_start, fun h => by cases h⟩

/-- A request finds the list and is executed as on the cars. -/
theorem Sound.execute (hs : Sound s) (hd : s.destroyed = false) (msg : MessageT) :
    Sound (execute msg s) := by
  obtain ⟨list, hinvoke, hrep⟩ := Nodes.invoke_represents (hs.kept hd) msg
  have hexec : Lifecycle.execute msg s = { s with
      list := list
      requests := s.requests ++ [msg]
      replies := s.replies ++
        [(Skeleton.invoke msg (runCars s.requests listCreate).2).msg] } := by
    rw [Lifecycle.execute, hd, hinvoke]
    rfl
  rw [hexec]
  refine ⟨hs.sane, ?_, fun _ => ?_, fun h => ?_⟩
  · dsimp only
    rw [runCars_concat, hs.replies]
  · dsimp only
    rw [runCars_concat]
    exact hrep
  · rw [hd] at h
    cases h

theorem Sound.destroy (hs : Sound s) (hd : s.destroyed = false) (hj : s.slots.main = .joined) :
    Sound (destroy s) ∧ (destroy s).destroyed = true := by
  obtain ⟨store, nodes, hdestroy, hstore, hnodes⟩ := Nodes.listDestroy_represents (hs.kept hd)
  have hend : Lifecycle.destroy s =
      { s with list := { s.list with store := store, nodes := nodes }, destroyed := true } := by
    rw [Lifecycle.destroy, hdestroy]
  rw [hend]
  exact ⟨⟨hs.sane, hs.replies, nofun, fun _ => ⟨hj, hstore, hnodes⟩⟩, rfl⟩

theorem Sound.moveTo (hs : Sound s) (i : Nat) (place : Place) :
    Sound (Lifecycle.moveTo i place s) :=
  ⟨hs.sane, hs.replies, hs.kept, hs.gone⟩

/-- A handler that reads is there, so the main thread is not past its wait. -/
theorem Sound.not_destroyed (hr : Reachable listeningSocket s) (hs : Sound s)
    (hreads : .reading ∈ s.places) : s.destroyed = false := by
  by_contra hd
  rw [Bool.not_eq_false] at hd
  have hlength := (inPlace_of_reach hr).length
  rw [handlers_of_joined (slots_reachable hr) (hs.gone hd).1, List.length_nil] at hlength
  rw [List.length_eq_zero_iff.mp hlength] at hreads
  cases hreads

theorem sound_step {a : Action} (hr : Reachable listeningSocket s) (hs : Sound s)
    (h : step s a = some s') : Sound s' := by
  rcases step_cases h with ⟨e, slots, rfl, _, hslots, rfl⟩ | ⟨i, rfl, _, _, rfl⟩ |
    ⟨i, place, rfl, _, _, rfl⟩ | ⟨i, place, _, _, rfl⟩ | ⟨i, msg, rfl, hi, rfl⟩ |
    ⟨rfl, hj, hd, rfl⟩
  · refine ⟨hs.sane, hs.replies, hs.kept, fun hd => ?_⟩
    obtain ⟨hj, hstore, hnodes⟩ := hs.gone hd
    exact ⟨joined_stays hslots hj, hstore, hnodes⟩
  · exact hs.moveTo i .receiving
  · exact hs.moveTo i place
  · exact hs.moveTo i place
  · have hd := hs.not_destroyed hr (List.mem_of_getElem? hi)
    exact (hs.execute hd msg).moveTo i .testing
  · exact (hs.destroy hd hj).1

theorem sound_of_reach (h : Reachable listeningSocket s) : Sound s :=
  h.invariant sound_initial fun _ _ _ hr hs _ hstep => sound_step hr hs hstep

/-- **The list outlives the handlers.**  However connections, requests, shutdown
and the end of `main` come in between, no freed node or record of the list is
used: the handlers get the replies of one list on which their requests are
executed one after the other, and when that list is destroyed no handler is left,
and no node and no record. -/
theorem list_outlives_handlers (h : Reachable listeningSocket s) :
    s.faulty = false ∧ s.replies = (runCars s.requests listCreate).1 ∧
      (s.destroyed = false → Represents s.list (runCars s.requests listCreate).2) ∧
      (s.destroyed = true → s.slots.handlers = [] ∧ (∀ x, ¬s.list.store.Live x) ∧
        ∀ x, ¬s.list.nodes.Live x) := by
  have hs := sound_of_reach h
  refine ⟨hs.sane, hs.replies, hs.kept, fun hd => ?_⟩
  obtain ⟨hj, hstore, hnodes⟩ := hs.gone hd
  exact ⟨handlers_of_joined (slots_reachable h) hj, hstore, hnodes⟩

/-- A handler adds a car and asks for the size, and its client sends the first
bytes of what would follow; a shutdown is requested, and the handler finds its
descriptor closed. -/
def wholeLife : List Action :=
  [.slot (.accept 7), .slot (.greet true true), .slot .remember, .test 0, .read 0,
    .execute 0 (rlistAddRequest ⟨2020, 0, 1, some (cString [97]), 1⟩), .test 0, .read 0,
    .execute 0 rlistSizeRequest, .test 0, .read 0, .arrive 0, .slot .requestShutdown,
    .slot .acceptFails, .slot .join, .read 0, .slot (.leave 0), .slot (.finish 0),
    .slot .stopWaiting, .destroy]

theorem list_outlives_handlers_wholeLife : ∃ s, Reachable 3 s ∧ s.destroyed = true ∧
    s.replies.map MessageT.result = [0, 1] ∧ ∀ x, ¬s.list.nodes.Live x := by
  have hrun : ∃ s, Reachable 3 s ∧ s.destroyed = true ∧ s.replies.map MessageT.result = [0, 1] :=
    exists_reach_of_replay wholeLife _ (by decide +kernel)
  obtain ⟨s, hr, hd, hreplies⟩ := hrun
  exact ⟨s, hr, hd, hreplies, ((list_outlives_handlers hr).2.2.2 hd).2.2⟩

end CarChain.Lifecycle
