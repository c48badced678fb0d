import CarChain.Lib.Ranking
import CarChain.Lifecycle

/-!
# What a shutdown waits for

After a shutdown request a handler that tests the flag leaves its loop, and one
whose descriptor is closed when it calls `read`; but one that waits in `read` does
so until its client sends or closes, since `close` does not wake it.  The server
comes to its end when those reads have returned, and not before
(`shutdown_completes`).  Clients take what is written to them, and the end of a
stream is met with `errno` other than `EINTR`.
-/

namespace CarChain.Lifecycle
open CarChain.Message CarChain.Run CarChain.Ranking

variable {listeningSocket : Int} {s s' : State}

/-! ## Who brings what about -/

/-- What the server does by itself to come to its end: the signal interrupts
`accept`, or its descriptor is closed; connections under way are finished, no new
one is accepted, the handlers leave their loops, the main thread waits for them. -/
def WindsUp : Action → Prop
  | .slot (.acceptFails) | .slot (.greet _ _) | .slot .remember | .slot .leaveLoop
  | .slot (.leave _) | .slot (.finish _) | .slot .join | .slot .stopWaiting
  | .test _ | .read _ | .destroy => True
  | .slot (.accept _) | .slot .requestShutdown | .slot (.opens _) | .slot (.closes _)
  | .arrive _ | .execute _ _ | .hangUp _ => False

instance : (a : Action) → Decidable (WindsUp a)
  | .slot (.acceptFails) | .slot (.greet _ _) | .slot .remember | .slot .leaveLoop
  | .slot (.leave _) | .slot (.finish _) | .slot .join | .slot .stopWaiting
  | .test _ | .read _ | .destroy => isTrue trivial
  | .slot (.accept _) | .slot .requestShutdown | .slot (.opens _) | .slot (.closes _)
  | .arrive _ | .execute _ _ | .hangUp _ => isFalse id

/-- What only a client can bring about: a read of its handler returns. -/
def Returns : Action → Prop
  | .arrive _ | .execute _ _ | .hangUp _ => True
  | .slot _ | .test _ | .read _ | .destroy => False

instance : (a : Action) → Decidable (Returns a)
  | .arrive _ | .execute _ _ | .hangUp _ => isTrue trivial
  | .slot _ | .test _ | .read _ | .destroy => isFalse id

/-! ## The steps that are left -/

/-- The steps of the main thread that are left; a connection it has accepted may
still get a handler. -/
def mainLeft : Slots.MainThread → Bool → Nat
  | .accepted _, _ => 8
  | .started _, _ => 5
  | .accepting, _ => 4
  | .stopped, _ => 3
  | .joining, _ => 2
  | .joined, false => 1
  | .joined, true => 0

def handlerLeft (h : Slots.Handler) : Nat := if h.left then 1 else 2

/-- A handler in its loop is as good as out of it, unless it receives. -/
def placeLeft : Place → Nat
  | .receiving => 2
  | .reading => 1
  | .testing | .ended => 0

/-- The steps of the server that are left when a shutdown was requested, at most,
as long as no read returns. -/
def stepsLeft (s : State) : Nat :=
  mainLeft s.slots.main s.destroyed + (s.slots.handlers.map handlerLeft).sum +
    (s.places.map placeLeft).sum

theorem stepsLeft_moveTo {i : Nat} {place : Place} (place' : Place)
    (hi : s.places[i]? = some place) :
    stepsLeft (moveTo i place' s) + placeLeft place = stepsLeft s + placeLeft place' := by
  have hset := sum_set (f := placeLeft) (c := place') hi
  simp only [stepsLeft, moveTo]
  omega

theorem stepsLeft_execute (msg : MessageT) (s : State) :
    stepsLeft (execute msg s) = stepsLeft s := by
  rw [stepsLeft, stepsLeft, execute_slots, execute_places, execute_destroyed]

/-- No event of the connections makes a handler receive. -/
theorem placesLeft_follow {slots' : Slots.State} {e : Slots.Event} (hp : InPlace s)
    (hgo : mayGo s e = true) (h : Slots.step s.slots e = some slots') :
    ((follow s.slots slots' s.places e).map placeLeft).sum ≤ (s.places.map placeLeft).sum := by
  rcases follow_cases hgo h with ⟨_, hf⟩ | ⟨sock, _, hf⟩ |
    ⟨i, handler, place, _, _, hplace, _, _, hf⟩ | ⟨i, handler, hi, hleft, _, hf⟩
  · rw [hf]
  · rw [hf, List.map_append, List.sum_append]
    exact Nat.le_refl _
  · have hset := sum_set (f := placeLeft) (c := .ended) hplace
    rw [hf]
    simp only [placeLeft] at hset ⊢
    omega
  · have herase := sum_eraseIdx (f := placeLeft) (hp.left i handler hi hleft)
    rw [hf]
    omega

theorem reading_set {places : List Place} {i : Nat} {place : Place} (place' : Place)
    (hreads : .reading ∈ places) (hi : places[i]? = some place) (hne : place ≠ .reading) :
    .reading ∈ places.set i place' := by
  obtain ⟨k, hk⟩ := List.mem_iff_getElem?.mp hreads
  have hik : i ≠ k := by
    rintro rfl
    rw [hi] at hk
    exact hne (Option.some.inj hk)
  refine List.mem_iff_getElem?.mpr ⟨k, ?_⟩
  rw [List.getElem?_set_ne hik, hk]

/-- And none ends a read. -/
theorem reading_follow {slots' : Slots.State} {e : Slots.Event} (hp : InPlace s)
    (hgo : mayGo s e = true) (h : Slots.step s.slots e = some slots')
    (hreads : .reading ∈ s.places) : .reading ∈ follow s.slots slots' s.places e := by
  rcases follow_cases hgo h with ⟨_, hf⟩ | ⟨sock, _, hf⟩ |
    ⟨i, handler, place, _, _, hplace, hne, _, hf⟩ | ⟨i, handler, hi, hleft, _, hf⟩
  · rw [hf]
    exact hreads
  · rw [hf]
    exact List.mem_append_left _ hreads
  · rw [hf]
    exact reading_set .ended hreads hplace hne
  · obtain ⟨k, hk⟩ := List.mem_iff_getElem?.mp hreads
    rw [hf]
    refine List.mem_eraseIdx_iff_getElem?.mpr ⟨k, ?_, hk⟩
    rintro rfl
    rw [hp.left k handler hi hleft] at hk
    cases hk

/-! ## Steps towards the end -/

theorem shutdown_closeAll (socks : List Int) (s : Slots.State) :
    (Slots.closeAll socks s).shutdownRequested = s.shutdownRequested := by
  induction socks generalizing s with
  | nil => rfl
  | cons fd socks ih => exact ih (Slots.close fd s)

theorem shutdown_greet (sock : Int) (args create : Bool) (s : Slots.State) :
    (Slots.greet sock args create s).2.shutdownRequested = s.shutdownRequested := by
  unfold Slots.greet
  split
  · rfl
  split
  · rfl
  split <;> rfl

theorem shutdown_leave (i : Nat) (h : Slots.Handler) (s : Slots.State) :
    (Slots.leave i h s).shutdownRequested = s.shutdownRequested := by
  unfold Slots.leave
  dsimp only
  split <;> rfl

/-- A connection that was greeted has given the main thread's steps for it to its
handler, if it got one. -/
theorem greet_left (sock : Int) (args create : Bool) {s : Slots.State} {d : Bool}
    (hmain : s.main = .accepted sock) :
    mainLeft (Slots.greet sock args create s).2.main d +
        ((Slots.greet sock args create s).2.handlers.map handlerLeft).sum <
      mainLeft s.main d + (s.handlers.map handlerLeft).sum := by
  have hle : mainLeft (Slots.greet sock args create s).2.main d ≤ 5 := by
    rcases greet_main sock args create s with hm | hm
    · simp [hm, mainLeft]
    · simp [hm, mainLeft]
  have hbefore : mainLeft s.main d = 8 := by rw [hmain, mainLeft]
  rcases Slots.greet_cases sock args create s with hsame | ⟨_, hh, _, _⟩
  · rw [hsame.handlers]
    omega
  · have hone : ((Slots.greet sock args create s).2.handlers.map handlerLeft).sum =
        (s.handlers.map handlerLeft).sum + 2 := by
      rw [hh, List.map_append, List.sum_append]
      rfl
    omega

/-- A step towards the end is one less to go. -/
theorem windsUp_slot {s s' : Slots.State} {e : Slots.Event} {d : Bool}
    (hs : s.shutdownRequested = true) (ha : WindsUp (.slot e)) (h : Slots.step s e = some s') :
    s'.shutdownRequested = true ∧
      mainLeft s'.main d + (s'.handlers.map handlerLeft).sum <
        mainLeft s.main d + (s.handlers.map handlerLeft).sum := by
  cases e with
  | acceptFails =>
    simp only [Slots.step, Option.ite_none_right_eq_some, Option.some.injEq] at h
    obtain ⟨hmain, rfl⟩ := h
    refine ⟨hs, ?_⟩
    simp [hs, hmain, mainLeft]
  | greet args create =>
    simp only [Slots.step] at h
    split at h
    · rename_i sock hmain
      cases h
      exact ⟨(shutdown_greet sock args create s).trans hs, greet_left sock args create hmain⟩
    · cases h
  | remember =>
    simp only [Slots.step] at h
    split at h
    · rename_i sock hmain
      cases h
      refine ⟨hs, ?_⟩
      simp [hmain, mainLeft]
    · cases h
  | leaveLoop =>
    simp only [Slots.step, Option.ite_none_right_eq_some, Option.some.injEq] at h
    obtain ⟨⟨hmain, _⟩, rfl⟩ := h
    refine ⟨hs, ?_⟩
    simp [hmain, mainLeft]
  | leave i =>
    simp only [Slots.step] at h
    split at h
    · rename_i handler hi
      simp only [Option.ite_none_right_eq_some, Option.some.injEq] at h
      obtain ⟨hleft, rfl⟩ := h
      have hsum := sum_set (f := handlerLeft) (c := { handler with left := true }) hi
      refine ⟨(shutdown_leave i handler s).trans hs, ?_⟩
      rw [leave_main, (Slots.leave_books i handler s).1]
      simp only [handlerLeft, hleft] at hsum ⊢
      simp at hsum ⊢
      omega
    · cases h
  | finish i =>
    simp only [Slots.step] at h
    split at h
    · rename_i handler hi
      simp only [Option.ite_none_right_eq_some, Option.some.injEq] at h
      obtain ⟨hleft, rfl⟩ := h
      have hsum := sum_eraseIdx (f := handlerLeft) hi
      refine ⟨hs, ?_⟩
      show mainLeft s.main d + ((s.handlers.eraseIdx i).map handlerLeft).sum < _
      have hone : handlerLeft handler = 1 := by simp [handlerLeft, hleft]
      omega
    · cases h
  | join =>
    simp only [Slots.step, Option.ite_none_right_eq_some, Option.some.injEq] at h
    obtain ⟨hmain, rfl⟩ := h
    refine ⟨(shutdown_closeAll _ s).trans hs, ?_⟩
    show mainLeft .joining d + ((Slots.closeAll s.activeSockets s).handlers.map handlerLeft).sum < _
    rw [(Slots.sameBooks_closeAll s.activeSockets s).handlers, hmain]
    simp [mainLeft]
  | stopWaiting =>
    simp only [Slots.step, Option.ite_none_right_eq_some, Option.some.injEq] at h
    obtain ⟨⟨hmain, _⟩, rfl⟩ := h
    refine ⟨hs, ?_⟩
    rw [hmain]
    cases d <;> simp [mainLeft]
  | accept _ | requestShutdown | opens _ | closes _ => exact absurd ha id

/-- A shutdown was requested in a run of the server. -/
structure Ending (listeningSocket : Int) (s : State) : Prop where
  reachable : Reachable listeningSocket s
  requested : s.slots.shutdownRequested = true

/-- A step of the server is one less to go, and ends no read. -/
theorem Ending.windsUp {a : Action} (h : Ending listeningSocket s) (ha : WindsUp a)
    (hstep : step s a = some s') :
    Ending listeningSocket s' ∧ stepsLeft s' < stepsLeft s ∧
      (.reading ∈ s.places → .reading ∈ s'.places) := by
  have hr' : Reachable listeningSocket s' := .step h.reachable trivial hstep
  rcases step_cases hstep with ⟨e, slots, rfl, hgo, hslots, rfl⟩ | ⟨i, rfl, _, hgoes, _⟩ |
    ⟨i, place, rfl, hi, hplace, rfl⟩ | ⟨i, place, ⟨rfl, _⟩ | ⟨rfl, _⟩, _, _⟩ |
    ⟨i, msg, rfl, _, _⟩ | ⟨rfl, hj, hd, rfl⟩
  · have hp := inPlace_of_reach h.reachable
    obtain ⟨hkeep, hlow⟩ := windsUp_slot (d := s.destroyed) h.requested ha hslots
    have hplaces := placesLeft_follow hp hgo hslots
    refine ⟨⟨hr', hkeep⟩, ?_, reading_follow hp hgo hslots⟩
    rw [stepsLeft, stepsLeft]
    dsimp only
    omega
  · rw [h.requested] at hgoes
    cases hgoes
  · have hset := stepsLeft_moveTo place hi
    have hlow : placeLeft place < placeLeft .receiving := by
      rcases hplace with rfl | rfl <;> decide
    exact ⟨⟨hr', h.requested⟩, by omega, fun hreads => reading_set place hreads hi nofun⟩
  · exact absurd ha id
  · exact absurd ha id
  · exact absurd ha id
  · have hend := ((sound_of_reach h.reachable).destroy hd hj).2
    refine ⟨⟨hr', by rw [destroy_slots, h.requested]⟩, ?_, by rw [destroy_places]; exact id⟩
    simp [stepsLeft, hend, hd, hj, mainLeft]

/-- A read that returns may be followed by another. -/
theorem Ending.returns {a : Action} (h : Ending listeningSocket s) (ha : Returns a)
    (hstep : step s a = some s') :
    Ending listeningSocket s' ∧ stepsLeft s' ≤ stepsLeft s + 1 := by
  have hr' : Reachable listeningSocket s' := .step h.reachable trivial hstep
  have hmost : ∀ place, placeLeft place ≤ placeLeft .reading + 1 := by
    intro place
    cases place <;> decide
  rcases step_cases hstep with ⟨e, slots, rfl, _, _, _⟩ | ⟨i, rfl, _, _, _⟩ |
    ⟨i, place, rfl, _, _, _⟩ | ⟨i, place, _, hi, rfl⟩ | ⟨i, msg, rfl, hi, rfl⟩ |
    ⟨rfl, _, _, _⟩
  · exact absurd ha id
  · exact absurd ha id
  · exact absurd ha id
  · have hset := stepsLeft_moveTo place hi
    have hle := hmost place
    exact ⟨⟨hr', h.requested⟩, by omega⟩
  · have hset := stepsLeft_moveTo .testing
      ((congrArg (·[i]?) (execute_places msg s)).trans hi)
    have hle := hmost .testing
    rw [stepsLeft_execute] at hset
    exact ⟨⟨hr', by rw [moveTo_slots, execute_slots, h.requested]⟩, by omega⟩
  · exact absurd ha id

/-- What the server does is paid from the steps that are left, and from one more
for each read that returns. -/
theorem ending_balances (listeningSocket : Int) :
    Balances step (fun _ a => WindsUp a ∨ Returns a) (Ending listeningSocket) stepsLeft
      (WindsUp ·) (Returns ·) := by
  refine ⟨fun s a s' h ha hstep => ?_, fun s a s' h ha hstep => ?_⟩
  · rcases ha with ha | ha
    · exact (h.windsUp ha hstep).1
    · exact (h.returns ha hstep).1
  · by_cases hw : WindsUp a
    · have hlow := (h.windsUp hw hstep).2.1
      simp only [hw, decide_true, Bool.toNat_true]
      omega
    · have hret : Returns a := ha.resolve_left hw
      have hle := (h.returns hret hstep).2
      simp only [hw, hret, decide_true, decide_false, Bool.toNat_true, Bool.toNat_false]
      omega

theorem reading_of_windsUp {acts : List Action} (h : Ending listeningSocket s)
    (hrun : replay step (fun _ a => WindsUp a ∨ Returns a) s acts = some s')
    (hacts : ∀ a ∈ acts, WindsUp a) (hreads : .reading ∈ s.places) : .reading ∈ s'.places := by
  induction acts generalizing s with
  | nil =>
    cases hrun
    exact hreads
  | cons a rest ih =>
    rw [List.forall_mem_cons] at hacts
    rw [replay, if_pos (Or.inl hacts.1)] at hrun
    obtain ⟨s₁, h₁, h₂⟩ := Option.bind_eq_some_iff.mp hrun
    obtain ⟨hend, _, hkeeps⟩ := h.windsUp hacts.1 h₁
    exact ih hend h₂ hacts.2 (hkeeps hreads)

/-! ## The end -/

/-- A server that cannot go on by itself has reached its end, or waits for a
handler in its read. -/
theorem destroyed_iff_of_stuck (h : Ending listeningSocket s)
    (hstuck : ∀ a, WindsUp a → step s a = none) :
    s.destroyed = true ↔ .reading ∉ s.places := by
  constructor
  · intro hd hreads
    rw [(sound_of_reach h.reachable).not_destroyed h.reachable hreads] at hd
    cases hd
  intro hnone
  have hp := inPlace_of_reach h.reachable
  have hempty : s.slots.handlers = [] := by
    cases hh : s.slots.handlers with
    | nil => rfl
    | cons handler rest =>
      exfalso
      have hfirst : s.slots.handlers[0]? = some handler := by rw [hh]; rfl
      obtain ⟨place, hplace⟩ := hp.place hfirst
      cases hleft : handler.left with
      | false =>
        have hgo : mayGo s (.leave 0) = true := by
          cases place with
          | testing => simp [mayGo, hplace, h.requested]
          | receiving =>
            have hgoes := hstuck (.read 0) trivial
            simp [step, hfirst, hplace] at hgoes
          | reading => exact absurd (List.mem_of_getElem? hplace) hnone
          | ended => simp [mayGo, hplace]
        have hgoes := hstuck (.slot (.leave 0)) trivial
        simp [step, hgo, Slots.step, hh, hleft] at hgoes
      | true =>
        have hgoes := hstuck (.slot (.finish 0)) trivial
        simp [step, mayGo, Slots.step, hh, hleft] at hgoes
  have hcount := (Slots.booksRight (slots_reachable h.reachable)).inStep.count
  rw [hempty, List.length_nil] at hcount
  cases hmain : s.slots.main with
  | accepting =>
    have hgo := hstuck (.slot .leaveLoop) trivial
    simp [step, mayGo, Slots.step, hmain, h.requested] at hgo
  | accepted sock =>
    have hgo := hstuck (.slot (.greet true true)) trivial
    simp [step, mayGo, Slots.step, hmain] at hgo
  | started sock =>
    have hgo := hstuck (.slot .remember) trivial
    simp [step, mayGo, Slots.step, hmain] at hgo
  | stopped =>
    have hgo := hstuck (.slot .join) trivial
    simp [step, mayGo, Slots.step, hmain] at hgo
  | joining =>
    have hgo := hstuck (.slot .stopWaiting) trivial
    simp [step, mayGo, Slots.step, hmain, hcount] at hgo
  | joined =>
    cases hd : s.destroyed with
    | true => rfl
    | false =>
      have hgo := hstuck .destroy trivial
      simp [step, hmain, hd] at hgo

/-- **What a shutdown waits for.**  From any state in which one was requested,
with connections half accepted and handlers anywhere in their loops, no more than
`stepsLeft` steps of the server are left, and one more for each read that returns.
As long as only the server acts, a handler waits in a read if one did; and once the
server cannot go on by itself, the list has been destroyed exactly if none does. -/
theorem shutdown_completes (h : Reachable listeningSocket s)
    (hs : s.slots.shutdownRequested = true) (acts : List Action)
    (hrun : replay step (fun _ a => WindsUp a ∨ Returns a) s acts = some s') :
    s'.faulty = false ∧
      acts.countP (WindsUp ·) ≤ stepsLeft s + acts.countP (Returns ·) ∧
      ((∀ a ∈ acts, WindsUp a) → .reading ∈ s.places → .reading ∈ s'.places) ∧
      ((∀ a, WindsUp a → step s' a = none) → (s'.destroyed = true ↔ .reading ∉ s'.places)) := by
  obtain ⟨hend, hcount⟩ := replay_balance (ending_balances listeningSocket) ⟨h, hs⟩ hrun
  exact ⟨(sound_of_reach hend.reachable).sane, by omega, reading_of_windsUp ⟨h, hs⟩ hrun,
    destroyed_iff_of_stuck hend⟩

/-- What the server does by itself when a shutdown was requested while one client is
idle and another connection has just been accepted. -/
def stopsShort : List Action := [.slot (.greet false true), .slot .leaveLoop, .slot .join]

theorem shutdown_completes_stopsShort : ∃ s s', Reachable 3 s ∧
    s.slots.main = .accepted 8 ∧ s.places = [.reading] ∧
    replay step (fun _ a => WindsUp a ∨ Returns a) s stopsShort = some s' ∧
    3 ≤ stepsLeft s ∧ (∀ a, WindsUp a → step s' a = none) ∧ s'.destroyed = false := by
  have hstart : ∃ s, Reachable 3 s ∧ s.slots.main = .accepted 8 ∧ s.places = [.reading] ∧
      s.slots.shutdownRequested = true ∧
      (replay step (fun _ a => WindsUp a ∨ Returns a) s stopsShort).any (fun s' =>
        s'.slots.main = .joining ∧ s'.slots.handlers = [⟨7, false⟩] ∧
          s'.slots.activeConnections = 1 ∧ s'.places = [.reading]) = true :=
    exists_reach_of_replay [.slot (.accept 7), .slot (.greet true true), .slot .remember,
      .test 0, .read 0, .slot (.accept 8), .slot .requestShutdown] _ (by decide)
  obtain ⟨s, hr, hmain, hplaces, hs, hany⟩ := hstart
  obtain ⟨s', hrun, hend⟩ := (Option.any_eq_true _ _).mp hany
  obtain ⟨hjoining, hhandlers, hactive, hreading⟩ := of_decide_eq_true hend
  obtain ⟨_, hcount, hkeeps, hends⟩ := shutdown_completes hr hs stopsShort hrun
  have hstuck : ∀ a, WindsUp a → step s' a = none := by
    intro a ha
    cases a with
    | slot e =>
      cases e with
      | leave i => cases i <;> simp [step, mayGo, hreading]
      | finish i => cases i <;> simp [step, mayGo, Slots.step, hhandlers]
      | accept _ | requestShutdown | opens _ | closes _ => exact absurd ha id
      | acceptFails | greet _ _ | remember | leaveLoop | join =>
        simp [step, mayGo, Slots.step, hjoining]
      | stopWaiting => simp [step, mayGo, Slots.step, hactive]
    | test i => cases i <;> simp [step, hreading]
    | read i => cases i <;> simp [step, hhandlers, hreading]
    | destroy => simp [step, hjoining]
    | arrive _ | execute _ _ | hangUp _ => exact absurd ha id
  refine ⟨s, s', hr, hmain, hplaces, hrun, hcount, hstuck, ?_⟩
  have hreads := hkeeps (by decide) (by rw [hplaces]; exact List.mem_singleton.mpr rfl)
  rw [← Bool.not_eq_true, hends hstuck]
  exact not_not.mpr hreads

end CarChain.Lifecycle
