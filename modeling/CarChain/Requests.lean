import CarChain.Chain

/-!
# Requests in a chain

Which requests a server has in its hands after a step (`holds_step`), and what
follows for runs whose clients use the stubs: every request in the chain was
built by a stub, and one that came from a server is a write (`Sent`).
-/

namespace CarChain.Chain
open CarChain.Message CarChain.CarList CarChain.Skeleton CarChain.Stub CarChain.Handler
open CarChain.Run

variable {packedSize : MessageT → Nat} {n : Nat} {s s' : State}

/-- The request waits at the server or is the one being handled. -/
def Server.Holds (sv : Server) (req : Request) : Prop :=
  req ∈ sv.inbox ∨ ∃ j, sv.job = some j ∧ j.req = req

theorem holds_of_job {sv : Server} {j : Job} (h : sv.job = some j) : sv.Holds j.req :=
  Or.inr ⟨j, h, rfl⟩

/-- A server changed without new requests holds none it did not hold. -/
theorem holds_set {i k : Nat} {sv : Server} {req : Request}
    (h : ((s.set i sv).server k).Holds req) (hsv : sv.Holds req → (s.server i).Holds req) :
    (s.server k).Holds req := by
  by_cases hk : k = i
  · subst hk
    rw [State.set_self] at h
    exact hsv h
  · rw [State.set_ne _ _ hk] at h
    exact h

/-- A job goes on: the request stays the one it was. -/
theorem holds_goesOn {i k : Nat} {j : Job} {sv : Server} {reply : MessageT} {p : Phase}
    {req : Request} (h : ((s.set i sv).server k).Holds req) (hj : (s.server i).job = some j)
    (hi : sv.inbox = (s.server i).inbox)
    (hsv : sv.job = some { j with reply := reply, phase := p }) : (s.server k).Holds req := by
  refine holds_set h ?_
  rintro (h | ⟨j', hj', rfl⟩)
  · rw [hi] at h
    exact Or.inl h
  · rw [hsv] at hj'
    cases hj'
    exact Or.inr ⟨j, hj, rfl⟩

theorem holds_setJob_none {i k : Nat} {req : Request}
    (h : ((s.setJob i none).server k).Holds req) : (s.server k).Holds req := by
  refine holds_set h ?_
  rintro (h | ⟨_, hj', _⟩)
  · exact Or.inl h
  · cases hj'

theorem holds_push {i k : Nat} {new req : Request} (h : ((s.push i new).server k).Holds req) :
    (s.server k).Holds req ∨ (k = i ∧ req = new) := by
  by_cases hk : k = i
  · subst hk
    rw [State.push, State.set_self] at h
    rcases h with h | h
    · rcases List.mem_append.mp h with h | h
      · exact Or.inl (Or.inl h)
      · exact Or.inr ⟨rfl, List.mem_singleton.mp h⟩
    · exact Or.inl (Or.inr h)
  · rw [State.push, State.set_ne _ _ hk] at h
    exact Or.inl h

theorem holds_handled {i k l : Nat} {req req' : Request}
    (hk : (s.server i).inbox[k]? = some req)
    (h : ((s.set i (handled (s.server i) k req)).server l).Holds req') :
    (s.server l).Holds req' := by
  refine holds_set h ?_
  rintro (h | ⟨_, hj', rfl⟩)
  · exact Or.inl (List.mem_of_mem_eraseIdx h)
  · cases hj'
    exact Or.inl (List.mem_of_getElem? hk)

/-- A server holds what it held, a request a client just sent it, or the
rebuilt request of a handler that forwards to it. -/
theorem holds_step {a : Action} {k : Nat} {req : Request} (h : step packedSize n s a = some s')
    (hr : (s'.server k).Holds req) :
    (s.server k).Holds req ∨
      (∃ msg, a = .send k msg ∧ packedSize msg ≤ uint16Max ∧ req = ⟨s.nextId, none, msg⟩) ∨
      ∃ i j link, a = .forward i ∧ (s.server i).live = true ∧ (s.server i).job = some j ∧
        (s.server i).successor = some link ∧ k = link.target ∧
        packedSize (propagateMsg j.req.msg) ≤ uint16Max ∧
        req = ⟨j.req.id, some i, propagateMsg j.req.msg⟩ := by
  cases a with
  | send i msg =>
    obtain ⟨_, hfit, rfl⟩ := send_cases h
    rcases holds_push hr with hr | ⟨rfl, rfl⟩
    · exact Or.inl hr
    · exact Or.inr (Or.inl ⟨msg, rfl, hfit, rfl⟩)
  | handle i l =>
    obtain ⟨req', _, _, hk, rfl⟩ := handle_cases h
    exact Or.inl (holds_handled hk hr)
  | skip i =>
    obtain ⟨j, _, hj, _, _, rfl⟩ := skip_cases h
    exact Or.inl (holds_goesOn hr hj rfl rfl)
  | forward i =>
    obtain ⟨j, link, hl, hj, hs, _, _, hfit, rfl⟩ := forward_cases h
    rcases holds_push hr with hr | ⟨hk, rfl⟩
    · exact Or.inl (holds_goesOn hr hj rfl rfl)
    · exact Or.inr (Or.inr ⟨i, j, link, rfl, hl, hj, hs, hk, hfit, rfl⟩)
  | forwardFails i =>
    obtain ⟨j, link, _, hj, _, _, rfl⟩ := forwardFails_cases h
    exact Or.inl (holds_goesOn hr hj rfl rfl)
  | receive i =>
    obtain ⟨j, t, resp, _, hj, _, rfl⟩ := receive_cases h
    exact Or.inl (holds_goesOn hr hj rfl rfl)
  | receiveFails i =>
    obtain ⟨j, t, resp, _, hj, _, rfl⟩ := receiveFails_cases h
    exact Or.inl (holds_goesOn hr hj rfl rfl)
  | answer i =>
    obtain ⟨j, _, hj, _, ⟨_, _, rfl⟩ | ⟨p, jp, _, hpi, hjp, _, _, rfl⟩ | ⟨rfl, _⟩⟩ :=
      answer_cases h
    · exact Or.inl (holds_setJob_none hr)
    · have hjp' : ((s.setJob i none).server p).job = some jp := by
        rw [State.setJob, State.set_ne _ _ hpi, hjp]
      exact Or.inl (holds_setJob_none (holds_goesOn hr hjp' rfl rfl))
    · exact Or.inl (holds_setJob_none hr)
  | crash i =>
    obtain ⟨_, rfl⟩ := crash_cases h
    exact Or.inl hr
  | watch i =>
    obtain ⟨_, _, ⟨_, rfl⟩ | ⟨conn, _, rfl⟩⟩ := watch_cases h
    · exact Or.inl (holds_set hr fun h => h)
    · exact Or.inl (holds_set hr fun h => h)
  | publish i =>
    obtain ⟨conn, _, _, _, rfl⟩ := publish_cases h
    exact Or.inl (holds_set hr fun h => h)

/-! ## Jobs go on -/

/-- How the job of server `k` goes on in a step. -/
inductive Advance (s : State) (k : Nat) (j : Job) : Action → Job → Prop
  | skip (h : j.phase = .invoked) : Advance s k j (.skip k) { j with phase := .ready }
  | forward (t : Nat) (h : j.phase = .invoked) :
      Advance s k j (.forward k) { j with phase := .waiting t none }
  | forwardFails (h : j.phase = .invoked) :
      Advance s k j (.forwardFails k) { j with reply := replyError j.reply, phase := .ready }
  | receive {t : Nat} {resp : MessageT} (h : j.phase = .waiting t (some resp)) :
      Advance s k j (.receive k)
        { j with reply := afterExchange j.reply (.reply resp), phase := .ready }
  | receiveFails {t : Nat} {resp : Option MessageT} (h : j.phase = .waiting t resp) :
      Advance s k j (.receiveFails k) { j with reply := replyError j.reply, phase := .ready }
  | delivered {i : Nat} {ji : Job} (hi : (s.server i).job = some ji) (hp : ji.phase = .ready)
      (hne : k ≠ i) (ho : ji.req.origin = some k) (hid : j.req.id = ji.req.id)
      (h : j.phase = .waiting i none) :
      Advance s k j (.answer i) { j with phase := .waiting i (some ji.reply) }

theorem Advance.req {k : Nat} {j j' : Job} {a : Action} (h : Advance s k j a j') :
    j'.req = j.req := by cases h <;> rfl

theorem Advance.seen {k : Nat} {j j' : Job} {a : Action} (h : Advance s k j a j') :
    j'.seen = j.seen := by cases h <;> rfl

/-- Only a job in the exchange goes on. -/
theorem Advance.not_ready {k : Nat} {j j' : Job} {a : Action} (h : Advance s k j a j') :
    j.phase ≠ .ready := by cases h <;> simp_all

/-- A job stays, or is a new request taken by `handle`, or is over, or goes on. -/
theorem job_step {a : Action} (h : step packedSize n s a = some s') (k : Nat) :
    ((s'.server k).job = (s.server k).job ∧ a ≠ .answer k) ∨
      (∃ l req, a = .handle k l ∧ (s.server k).job = none ∧
        (s.server k).inbox[l]? = some req ∧ s' = s.set k (handled (s.server k) l req)) ∨
      (∃ j, a = .answer k ∧ (s.server k).job = some j ∧ j.phase = .ready ∧
        (s'.server k).job = none) ∨
      ∃ j j', (s.server k).job = some j ∧ (s'.server k).job = some j' ∧ Advance s k j a j' := by
  have hsame : ∀ {i : Nat} {sv : Server} {P : Prop}, sv.job = (s.server i).job →
      a ≠ .answer k → (((s.set i sv).server k).job = (s.server k).job ∧ a ≠ .answer k) ∨ P := by
    intro i sv P hsv hne
    by_cases hk : k = i
    · subst hk
      rw [State.set_self]
      exact Or.inl ⟨hsv, hne⟩
    · rw [State.set_ne _ _ hk]
      exact Or.inl ⟨rfl, hne⟩
  have hadv : ∀ {i : Nat} {j j' : Job} {sv : Server} {P Q : Prop}, (s.server i).job = some j →
      sv.job = some j' → Advance s i j a j' → a ≠ .answer k →
      (((s.set i sv).server k).job = (s.server k).job ∧ a ≠ .answer k) ∨ P ∨ Q ∨
        ∃ j j', (s.server k).job = some j ∧ ((s.set i sv).server k).job = some j' ∧
          Advance s k j a j' := by
    intro i j j' sv P Q hj hsv hadv hne
    by_cases hk : k = i
    · subst hk
      rw [State.set_self]
      exact Or.inr (Or.inr (Or.inr ⟨j, j', hj, hsv, hadv⟩))
    · rw [State.set_ne _ _ hk]
      exact Or.inl ⟨rfl, hne⟩
  cases a with
  | send i msg =>
    obtain ⟨_, _, rfl⟩ := send_cases h
    exact hsame rfl (by simp)
  | handle i l =>
    obtain ⟨req, _, hj, hl, rfl⟩ := handle_cases h
    by_cases hk : k = i
    · subst hk
      exact Or.inr (Or.inl ⟨l, req, rfl, hj, hl, rfl⟩)
    · rw [State.set_ne _ _ hk]
      exact Or.inl ⟨rfl, by simp⟩
  | skip i =>
    obtain ⟨j, _, hj, _, hp, rfl⟩ := skip_cases h
    exact hadv hj rfl (.skip hp) (by simp)
  | forward i =>
    obtain ⟨j, link, _, hj, _, hp, _, _, rfl⟩ := forward_cases h
    rw [State.push_job]
    exact hadv hj rfl (.forward _ hp) (by simp)
  | forwardFails i =>
    obtain ⟨j, link, _, hj, _, hp, rfl⟩ := forwardFails_cases h
    exact hadv hj rfl (.forwardFails hp) (by simp)
  | receive i =>
    obtain ⟨j, t, resp, _, hj, hp, rfl⟩ := receive_cases h
    exact hadv hj rfl (.receive hp) (by simp)
  | receiveFails i =>
    obtain ⟨j, t, resp, _, hj, hp, rfl⟩ := receiveFails_cases h
    exact hadv hj rfl (.receiveFails hp) (by simp)
  | answer i =>
    obtain ⟨j, _, hj, hp, hcase⟩ := answer_cases h
    by_cases hk : k = i
    · subst hk
      refine Or.inr (Or.inr (Or.inl ⟨j, rfl, hj, hp, ?_⟩))
      rcases hcase with ⟨_, _, rfl⟩ | ⟨p, jp, _, hpi, _, _, _, rfl⟩ | ⟨rfl, _⟩
      · simp [State.setJob]
      · simp [State.setJob, Ne.symm hpi]
      · simp [State.setJob]
    · have hne : Action.answer i ≠ .answer k := fun he => hk (Action.answer.inj he).symm
      rcases hcase with ⟨_, _, rfl⟩ | ⟨p, jp, ho, hpi, hjp, hpp, hid, rfl⟩ | ⟨rfl, _⟩
      · exact Or.inl ⟨by simp [State.setJob, hk], hne⟩
      · by_cases hkp : k = p
        · subst hkp
          exact Or.inr (Or.inr (Or.inr ⟨jp, _, hjp, by simp [State.setJob],
            .delivered hj hp hpi ho hid hpp⟩))
        · exact Or.inl ⟨by simp [State.setJob, hk, hkp], hne⟩
      · exact Or.inl ⟨by simp [State.setJob, hk], hne⟩
  | crash i =>
    obtain ⟨_, rfl⟩ := crash_cases h
    exact Or.inl ⟨rfl, by simp⟩
  | watch i =>
    obtain ⟨_, _, ⟨_, rfl⟩ | ⟨conn, _, rfl⟩⟩ := watch_cases h
    · exact hsame rfl (by simp)
    · exact hsame rfl (by simp)
  | publish i =>
    obtain ⟨conn, _, _, _, rfl⟩ := publish_cases h
    exact hsame rfl (by simp)

/-- Where a job of the new state comes from. -/
theorem job_source {a : Action} (h : step packedSize n s a = some s') {k : Nat} {j' : Job}
    (hj' : (s'.server k).job = some j') :
    (s.server k).job = some j' ∨
      (∃ l req, a = .handle k l ∧ (s.server k).inbox[l]? = some req ∧
        s' = s.set k (handled (s.server k) l req) ∧ (handled (s.server k) l req).job = some j') ∨
      ∃ j, (s.server k).job = some j ∧ Advance s k j a j' := by
  rcases job_step h k with ⟨hsame, _⟩ | ⟨l, req, rfl, _, hl, rfl⟩ | ⟨_, _, _, _, hnone⟩ |
    ⟨j, j'', hj, hj'', hadv⟩
  · rw [hsame] at hj'
    exact Or.inl hj'
  · rw [State.set_self] at hj'
    exact Or.inr (Or.inl ⟨l, req, rfl, hl, rfl, hj'⟩)
  · rw [hnone] at hj'
    cases hj'
  · rw [hj''] at hj'
    cases hj'
    exact Or.inr (Or.inr ⟨j, hj, hadv⟩)

/-- What a step adds to the history of the clients. -/
theorem hist_step {a : Action} (h : step packedSize n s a = some s') :
    (s'.hist = s.hist ∧ s'.nextId = s.nextId) ∨
      (∃ i msg, a = .send i msg ∧ s'.hist = s.hist ++ [.call s.nextId i msg] ∧
        s'.nextId = s.nextId + 1) ∨
      ∃ i j, a = .answer i ∧ (s.server i).job = some j ∧ j.req.origin = none ∧
        packedSize j.reply ≤ uint16Max ∧
        s'.hist = s.hist ++ [.ret ⟨j.req.id, i, j.req.msg, j.reply, j.seen⟩] ∧
        s'.nextId = s.nextId := by
  cases a with
  | send i msg =>
    obtain ⟨_, _, rfl⟩ := send_cases h
    exact Or.inr (Or.inl ⟨i, msg, rfl, rfl, rfl⟩)
  | handle i l =>
    obtain ⟨req, _, _, _, rfl⟩ := handle_cases h
    exact Or.inl ⟨rfl, rfl⟩
  | skip i =>
    obtain ⟨j, _, _, _, _, rfl⟩ := skip_cases h
    exact Or.inl ⟨rfl, rfl⟩
  | forward i =>
    obtain ⟨j, link, _, _, _, _, _, _, rfl⟩ := forward_cases h
    exact Or.inl ⟨rfl, rfl⟩
  | forwardFails i =>
    obtain ⟨j, link, _, _, _, _, rfl⟩ := forwardFails_cases h
    exact Or.inl ⟨rfl, rfl⟩
  | receive i =>
    obtain ⟨j, t, resp, _, _, _, rfl⟩ := receive_cases h
    exact Or.inl ⟨rfl, rfl⟩
  | receiveFails i =>
    obtain ⟨j, t, resp, _, _, _, rfl⟩ := receiveFails_cases h
    exact Or.inl ⟨rfl, rfl⟩
  | answer i =>
    obtain ⟨j, _, hj, _, ⟨hfit, ho, rfl⟩ | ⟨p, jp, _, _, _, _, _, rfl⟩ | ⟨rfl, _⟩⟩ :=
      answer_cases h
    · exact Or.inr (Or.inr ⟨i, j, rfl, hj, ho, hfit, rfl, rfl⟩)
    · exact Or.inl ⟨rfl, rfl⟩
    · exact Or.inl ⟨rfl, rfl⟩
  | crash i =>
    obtain ⟨_, rfl⟩ := crash_cases h
    exact Or.inl ⟨rfl, rfl⟩
  | watch i =>
    obtain ⟨_, _, ⟨_, rfl⟩ | ⟨conn, _, rfl⟩⟩ := watch_cases h
    · exact Or.inl ⟨rfl, rfl⟩
    · exact Or.inl ⟨rfl, rfl⟩
  | publish i =>
    obtain ⟨conn, _, _, _, rfl⟩ := publish_cases h
    exact Or.inl ⟨rfl, rfl⟩

theorem nextId_le {a : Action} (h : step packedSize n s a = some s') : s.nextId ≤ s'.nextId := by
  rcases hist_step h with ⟨_, h⟩ | ⟨_, _, _, _, h⟩ | ⟨_, _, _, _, _, _, _, h⟩ <;> omega

theorem mem_hist_of_reach {ok : State → Action → Prop} {e : Event} (he : e ∈ s.hist)
    (h : Reach (Does (step packedSize n)) ok s s') : e ∈ s'.hist := by
  refine h.invariant (I := fun s' => e ∈ s'.hist) he ?_
  intro s₁ a s₂ _ hm _ hstep
  rcases hist_step hstep with ⟨h, _⟩ | ⟨_, _, _, h, _⟩ | ⟨_, _, _, _, _, _, h, _⟩
  · rw [h]
    exact hm
  · rw [h]
    exact List.mem_append_left _ hm
  · rw [h]
    exact List.mem_append_left _ hm

/-- An answer in the new history is an old one or the one this step gives. -/
theorem ret_source {a : Action} (h : step packedSize n s a = some s') {b : Answer}
    (hb : .ret b ∈ s'.hist) :
    .ret b ∈ s.hist ∨ ∃ i j, a = .answer i ∧ (s.server i).job = some j ∧ j.phase = .ready ∧
      j.req.origin = none ∧ b = ⟨j.req.id, i, j.req.msg, j.reply, j.seen⟩ := by
  rcases hist_step h with ⟨hh, _⟩ | ⟨_, _, _, hh, _⟩ | ⟨i, j, rfl, hj, ho, _, hh, _⟩
  · rw [hh] at hb
    exact Or.inl hb
  · rw [hh] at hb
    rcases List.mem_append.mp hb with hb | hb
    · exact Or.inl hb
    · cases List.mem_singleton.mp hb
  · rw [hh] at hb
    rcases List.mem_append.mp hb with hb | hb
    · exact Or.inl hb
    · cases List.mem_singleton.mp hb
      obtain ⟨j', _, hj', hp, _⟩ := answer_cases h
      rw [hj] at hj'
      cases hj'
      exact Or.inr ⟨i, j, rfl, hj, hp, ho, rfl⟩

/-! ## Servers only die and only apply -/

/-- What the relay of requests leaves of a server. -/
structure Same (sv sv' : Server) : Prop where
  live : sv'.live = sv.live
  list : sv'.list = sv.list
  applied : sv'.applied = sv.applied

theorem Same.refl (sv : Server) : Same sv sv := ⟨rfl, rfl, rfl⟩

theorem Same.trans {a b c : Server} (h : Same a b) (h' : Same b c) : Same a c :=
  ⟨h'.live.trans h.live, h'.list.trans h.list, h'.applied.trans h.applied⟩

theorem same_set {i : Nat} {sv : Server} (h : Same (s.server i) sv) (k : Nat) :
    Same (s.server k) ((s.set i sv).server k) := by
  by_cases hk : k = i
  · subst hk
    rw [State.set_self]
    exact h
  · rw [State.set_ne _ _ hk]
    exact Same.refl _

theorem same_setJob (s : State) (i : Nat) (j : Option Job) (k : Nat) :
    Same (s.server k) ((s.setJob i j).server k) := by
  refine same_set ?_ k
  exact ⟨rfl, rfl, rfl⟩

theorem same_push (s : State) (i : Nat) (req : Request) (k : Nat) :
    Same (s.server k) ((s.push i req).server k) := by
  refine same_set ?_ k
  exact ⟨rfl, rfl, rfl⟩

/-- Only `invoke` and a crash touch what a server is. -/
theorem server_step {a : Action} (h : step packedSize n s a = some s') (k : Nat) :
    Same (s.server k) (s'.server k) ∨
      (∃ l req, a = .handle k l ∧ (s.server k).live = true ∧ (s.server k).job = none ∧
        (s.server k).inbox[l]? = some req ∧ s' = s.set k (handled (s.server k) l req)) ∨
      (a = .crash k ∧ (s'.server k).live = false ∧ (s'.server k).list = (s.server k).list ∧
        (s'.server k).applied = (s.server k).applied) := by
  cases a with
  | send i msg =>
    obtain ⟨_, _, rfl⟩ := send_cases h
    exact Or.inl (same_push s i _ k)
  | handle i l =>
    obtain ⟨req, hl, hj, hk, rfl⟩ := handle_cases h
    by_cases hki : k = i
    · subst hki
      exact Or.inr (Or.inl ⟨l, req, rfl, hl, hj, hk, rfl⟩)
    · rw [State.set_ne _ _ hki]
      exact Or.inl (Same.refl _)
  | skip i =>
    obtain ⟨j, _, _, _, _, rfl⟩ := skip_cases h
    exact Or.inl (same_setJob s i _ k)
  | forward i =>
    obtain ⟨j, link, _, _, _, _, _, _, rfl⟩ := forward_cases h
    exact Or.inl ((same_setJob s i _ k).trans (same_push _ _ _ k))
  | forwardFails i =>
    obtain ⟨j, link, _, _, _, _, rfl⟩ := forwardFails_cases h
    refine Or.inl (same_set ?_ k)
    exact ⟨rfl, rfl, rfl⟩
  | receive i =>
    obtain ⟨j, t, resp, _, _, _, rfl⟩ := receive_cases h
    exact Or.inl (same_setJob s i _ k)
  | receiveFails i =>
    obtain ⟨j, t, resp, _, _, _, rfl⟩ := receiveFails_cases h
    refine Or.inl (same_set ?_ k)
    exact ⟨rfl, rfl, rfl⟩
  | answer i =>
    obtain ⟨j, _, _, _, ⟨_, _, rfl⟩ | ⟨p, jp, _, _, _, _, _, rfl⟩ | ⟨rfl, _⟩⟩ := answer_cases h
    · exact Or.inl (same_setJob s i none k)
    · exact Or.inl ((same_setJob s i none k).trans (same_setJob _ p _ k))
    · exact Or.inl (same_setJob s i none k)
  | crash i =>
    obtain ⟨_, rfl⟩ := crash_cases h
    by_cases hki : k = i
    · subst hki
      exact Or.inr (Or.inr ⟨rfl, by simp, rfl, rfl⟩)
    · exact Or.inl ⟨by simp [hki], rfl, rfl⟩
  | watch i =>
    obtain ⟨_, _, ⟨_, rfl⟩ | ⟨conn, _, rfl⟩⟩ := watch_cases h
    · refine Or.inl (same_set ?_ k)
      exact ⟨rfl, rfl, rfl⟩
    · refine Or.inl (same_set ?_ k)
      exact ⟨rfl, rfl, rfl⟩
  | publish i =>
    obtain ⟨conn, _, _, _, rfl⟩ := publish_cases h
    refine Or.inl (same_set ?_ k)
    exact ⟨rfl, rfl, rfl⟩

theorem live_of_live {a : Action} (h : step packedSize n s a = some s') {k : Nat}
    (hk : (s'.server k).live = true) : (s.server k).live = true := by
  rcases server_step h k with hs | ⟨_, _, _, hl, _⟩ | ⟨_, hd, _, _⟩
  · rw [← hs.live]
    exact hk
  · exact hl
  · rw [hk] at hd
    cases hd

theorem handled_applied (sv : Server) (l : Nat) (req : Request) :
    (handled sv l req).applied = if isWriteOp req.msg then
      sv.applied ++ [⟨req.id, req.msg, sv.list, (invoke req.msg sv.list).msg⟩] else sv.applied :=
  rfl

theorem applied_extends {a : Action} (h : step packedSize n s a = some s') (k : Nat) :
    (s.server k).applied <+: (s'.server k).applied := by
  rcases server_step h k with hs | ⟨l, req, _, _, _, _, rfl⟩ | ⟨_, _, _, ha⟩
  · exact hs.applied ▸ List.prefix_rfl
  · rw [State.set_self, handled_applied]
    split
    · exact List.prefix_append _ _
    · exact List.prefix_rfl
  · exact ha ▸ List.prefix_rfl

/-- A server that starts no job and ends none applies nothing. -/
theorem applied_of_same_job {a : Action} (h : step packedSize n s a = some s') {k : Nat}
    (hj : (s'.server k).job = (s.server k).job) :
    (s'.server k).applied = (s.server k).applied := by
  rcases server_step h k with hs | ⟨l, req, rfl, _, hnone, _, rfl⟩ | ⟨_, _, _, happ⟩
  · exact hs.applied
  · rw [hnone, State.set_self] at hj
    cases hj
  · exact happ

/-- A server with a job runs no `invoke`. -/
theorem busy_step {a : Action} (h : step packedSize n s a = some s') {k : Nat} {j : Job}
    (hj : (s.server k).job = some j) :
    (s'.server k).list = (s.server k).list ∧ (s'.server k).applied = (s.server k).applied := by
  rcases server_step h k with hs | ⟨_, _, _, _, hnone, _⟩ | ⟨_, _, hlist, happ⟩
  · exact ⟨hs.list, hs.applied⟩
  · rw [hj] at hnone
    cases hnone
  · exact ⟨hlist, happ⟩

theorem applied_of_busy {a : Action} (h : step packedSize n s a = some s') {k : Nat} {j : Job}
    (hj : (s.server k).job = some j) : (s'.server k).applied = (s.server k).applied :=
  (busy_step h hj).2

/-- No server lives outside the chain. -/
theorem dead_of_le {ok : State → Action → Prop}
    (h : Reach (Does (step packedSize n)) ok (initial n) s) {k : Nat} (hk : n ≤ k) :
    (s.server k).live = false := by
  refine h.invariant (I := fun s => (s.server k).live = false) ?_ ?_
  · simp [initial, initialServer, hk]
  · intro s a s' _ hd _ hstep
    cases hl : (s'.server k).live with
    | false => rfl
    | true => rw [live_of_live hstep hl] at hd; cases hd

theorem lt_of_live {ok : State → Action → Prop}
    (h : Reach (Does (step packedSize n)) ok (initial n) s) {k : Nat}
    (hk : (s.server k).live = true) : k < n := by
  by_contra hge
  rw [dead_of_le h (Nat.le_of_not_lt hge)] at hk
  cases hk

/-- A handler runs in a server of the chain. -/
theorem lt_of_job {ok : State → Action → Prop}
    (h : Reach (Does (step packedSize n)) ok (initial n) s) {k : Nat} {j : Job}
    (hj : (s.server k).job = some j) : k < n := by
  refine h.invariant (I := fun s => ∀ j, (s.server k).job = some j → k < n) ?_ ?_ j hj
  · intro j hj
    cases hj
  · intro s a s' hr hi _ hstep j hj
    rcases job_source hstep hj with hj | ⟨l, req, rfl, _⟩ | ⟨j, hj, _⟩
    · exact hi j hj
    · obtain ⟨_, hl, _⟩ := handle_cases hstep
      exact lt_of_live hr hl
    · exact hi j hj

/-! ## Runs of the stubs -/

/-- Clients send what the stubs build, writes to the first live server. -/
def StubClients (s : State) : Action → Prop
  | .send i msg => (StubWrite msg ∧ ∀ k, k < i → (s.server k).live = false) ∨ StubRead msg
  | _ => True

/-- A request that fits a frame: a write, or a read of a client. -/
structure Sent (packedSize : MessageT → Nat) (req : Request) : Prop where
  fits : packedSize req.msg ≤ uint16Max
  kind : StubWrite req.msg ∨ (StubRead req.msg ∧ req.origin = none)

/-- A forwarded read does not exist. -/
theorem Sent.write {req : Request} {p : Nat} (h : Sent packedSize req) (ho : req.origin = some p) :
    StubWrite req.msg := by
  rcases h.kind with hw | ⟨_, hn⟩
  · exact hw
  · rw [ho] at hn
    cases hn

theorem Sent.isWriteOp_iff {req : Request} (h : Sent packedSize req) :
    isWriteOp req.msg = true ↔ StubWrite req.msg := by
  constructor
  · intro hw
    rcases h.kind with h | ⟨h, _⟩
    · exact h
    · rw [isWriteOp_of_stubRead h] at hw
      cases hw
  · exact isWriteOp_of_stubWrite

/-- Handlers in the exchange with the successor have a write. -/
def WriteJobs (s : State) : Prop :=
  ∀ i j, (s.server i).job = some j → j.phase ≠ .ready → isWriteOp j.req.msg = true

/-- In runs of the stubs everything in the chain was sent as `Sent` says. -/
def AllSent (packedSize : MessageT → Nat) (s : State) : Prop :=
  ∀ i req, (s.server i).Holds req → Sent packedSize req

theorem writeJobs_step {a : Action} (hs : WriteJobs s) (h : step packedSize n s a = some s') :
    WriteJobs s' := by
  intro k j' hj' hp
  rcases job_source h hj' with hj | ⟨l, req, _, _, _, hnew⟩ | ⟨j, hj, hadv⟩
  · exact hs k j' hj hp
  · cases hnew
    by_contra hw
    simp [hw] at hp
  · cases hadv with
    | skip _ => exact absurd rfl hp
    | forward t hph => exact hs k j hj (by rw [hph]; simp)
    | forwardFails _ => exact absurd rfl hp
    | receive _ => exact absurd rfl hp
    | receiveFails _ => exact absurd rfl hp
    | delivered _ _ _ _ _ hph => exact hs k j hj (by rw [hph]; simp)

theorem allSent_step {a : Action} (hs : AllSent packedSize s) (hw : WriteJobs s)
    (hok : StubClients s a) (h : step packedSize n s a = some s') : AllSent packedSize s' := by
  intro i req hr
  rcases holds_step h hr with hr | ⟨msg, rfl, hfit, rfl⟩ | ⟨p, j, _, rfl, _, hj, _, _, hfit, rfl⟩
  · exact hs i req hr
  · refine ⟨hfit, ?_⟩
    rcases hok with ⟨hw, _⟩ | hr
    · exact Or.inl hw
    · exact Or.inr ⟨hr, rfl⟩
  · refine ⟨hfit, Or.inl ?_⟩
    obtain ⟨j', _, _, hj', _, hp, _⟩ := forward_cases h
    rw [hj] at hj'
    cases hj'
    have hsw := ((hs p _ (holds_of_job hj)).isWriteOp_iff).mp (hw p j hj (by rw [hp]; simp))
    rw [propagateMsg_of_stubWrite hsw]
    exact hsw

/-- Numbers are given once, and a number stands for one message. -/
structure Numbered (s : State) : Prop where
  issued : ∀ i req, (s.server i).Holds req → req.id < s.nextId
  same : ∀ i k req req', (s.server i).Holds req → (s.server k).Holds req' → req.id = req'.id →
    req.msg = req'.msg

/-- Where a request of the new state comes from: one the chain had, with the
same number and message, or a new number. -/
theorem source_step {a : Action} {k : Nat} {req : Request} (hs : AllSent packedSize s)
    (hw : WriteJobs s) (h : step packedSize n s a = some s') (hr : (s'.server k).Holds req) :
    (∃ i req', (s.server i).Holds req' ∧ req'.id = req.id ∧ req'.msg = req.msg) ∨
      (∃ msg, a = .send k msg ∧ req = ⟨s.nextId, none, msg⟩) := by
  rcases holds_step h hr with hr | ⟨msg, rfl, _, rfl⟩ | ⟨i, j, _, rfl, _, hj, _, _, _, rfl⟩
  · exact Or.inl ⟨k, req, hr, rfl, rfl⟩
  · exact Or.inr ⟨msg, rfl, rfl⟩
  · obtain ⟨j', _, _, hj', _, hp, _⟩ := forward_cases h
    rw [hj] at hj'
    cases hj'
    have hsw := ((hs i _ (holds_of_job hj)).isWriteOp_iff).mp (hw i j hj (by rw [hp]; simp))
    exact Or.inl ⟨i, j.req, holds_of_job hj, rfl, (propagateMsg_of_stubWrite hsw).symm⟩

theorem numbered_step {a : Action} (hs : AllSent packedSize s) (hw : WriteJobs s)
    (hn : Numbered s) (h : step packedSize n s a = some s') : Numbered s' := by
  have hle := nextId_le h
  have hnew : ∀ i msg, a = .send i msg → s'.nextId = s.nextId + 1 := by
    rintro i msg rfl
    obtain ⟨_, _, rfl⟩ := send_cases h
    rfl
  constructor
  · intro i req hr
    rcases source_step hs hw h hr with ⟨i', req', hr', hid, _⟩ | ⟨msg, ha, rfl⟩
    · have := hn.issued i' req' hr'
      omega
    · rw [hnew _ _ ha]
      exact Nat.lt_succ_self _
  · intro i k req req' hr hr' hid
    rcases source_step hs hw h hr with ⟨i₁, r₁, h₁, hid₁, hm₁⟩ | ⟨msg, ha, rfl⟩ <;>
      rcases source_step hs hw h hr' with ⟨i₂, r₂, h₂, hid₂, hm₂⟩ | ⟨msg', ha', rfl⟩
    · rw [← hm₁, ← hm₂]
      exact hn.same i₁ i₂ r₁ r₂ h₁ h₂ (by omega)
    · have := hn.issued i₁ r₁ h₁
      dsimp only at hid
      omega
    · have := hn.issued i₂ r₂ h₂
      dsimp only at hid
      omega
    · rw [ha] at ha'
      cases ha'
      rfl

/-- What every run of the stubs keeps. -/
structure Wellformed (packedSize : MessageT → Nat) (s : State) : Prop where
  sent : AllSent packedSize s
  jobs : WriteJobs s
  numbered : Numbered s

theorem wellformed_of_reach {ok : State → Action → Prop}
    (hok : ∀ s a, ok s a → StubClients s a)
    (h : Reach (Does (step packedSize n)) ok (initial n) s) : Wellformed packedSize s := by
  have hnone : ∀ i req, ¬ ((initial n).server i).Holds req := by
    rintro i req (h | ⟨_, h, _⟩)
    · exact absurd h List.not_mem_nil
    · cases h
  refine h.invariant (I := Wellformed packedSize) ⟨?_, ?_, ?_, ?_⟩ ?_
  · exact fun i req hr => absurd hr (hnone i req)
  · intro i j hj
    cases hj
  · exact fun i req hr => absurd hr (hnone i req)
  · exact fun i k req req' hr => absurd hr (hnone i req)
  · intro s a s' _ hs ha hstep
    exact ⟨allSent_step hs.sent hs.jobs (hok s a ha) hstep, writeJobs_step hs.jobs hstep,
      numbered_step hs.sent hs.jobs hs.numbered hstep⟩

end CarChain.Chain
