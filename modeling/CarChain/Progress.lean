import CarChain.Lib.Ranking
import CarChain.Answering
import CarChain.Static

/-!
# The chain comes to rest

A handler holds `list_mutex` from `invoke` to its reply, also while it waits for
its successor, so a chain could come to a standstill.  Without failures it does
not: whichever steps the servers take, after no more than `load` of them nothing
is left to do, no handler waits, and every request has been answered
(`comes_to_rest`).  The writes must leave room in their frame for the result of
a removal: a reply that is too long is dropped, and whoever waits for it, a
server with its mutex included, waits on.
-/

namespace CarChain.Chain
open CarChain.Record CarChain.Message CarChain.CarList CarChain.Skeleton CarChain.Lists
open CarChain.Stub CarChain.Handler CarChain.Run CarChain.Wire CarChain.Ranking

/-! ## What servers do by themselves -/

/-- The steps of the handlers; nobody sends, nothing fails. -/
def Internal : Action → Prop
  | .handle _ _ | .skip _ | .forward _ | .receive _ | .answer _ => True
  | .send _ _ | .forwardFails _ | .receiveFails _ | .crash _ | .watch _ | .publish _ => False

instance : (a : Action) → Decidable (Internal a)
  | .handle _ _ | .skip _ | .forward _ | .receive _ | .answer _ => isTrue trivial
  | .send _ _ | .forwardFails _ | .receiveFails _ | .crash _ | .watch _ | .publish _ =>
    isFalse id

/-- A write leaves two bytes for the result of a removal. -/
def LeavesRoom : Action → Prop
  | .send _ msg => isWriteOp msg = true → messageTGetPackedSize msg + 2 ≤ uint16Max
  | _ => True

instance : (a : Action) → Decidable (LeavesRoom a)
  | .send _ msg =>
    inferInstanceAs (Decidable (isWriteOp msg = true → messageTGetPackedSize msg + 2 ≤ uint16Max))
  | .handle _ _ | .skip _ | .forward _ | .forwardFails _ | .receive _ | .receiveFails _
  | .answer _ | .crash _ | .watch _ | .publish _ => isTrue trivial

/-- A chain without failures whose clients read anywhere and leave that room. -/
def Roomy (s : State) (a : Action) : Prop :=
  Static messageTGetPackedSize AnyRead s a ∧ LeavesRoom a

instance (s : State) (a : Action) : Decidable (Roomy s a) :=
  inferInstanceAs (Decidable (Static messageTGetPackedSize AnyRead s a ∧ LeavesRoom a))

variable {packedSize : MessageT → Nat} {n : Nat} {readable : Nat → MessageT → Prop}
  {ok : State → Action → Prop} {s s' : State}

theorem roomy_of_internal {a : Action} (h : Internal a) (s : State) : Roomy s a := by
  cases a with
  | handle _ _ | skip _ | forward _ | receive _ | answer _ => exact ⟨trivial, trivial⟩
  | send _ _ | forwardFails _ | receiveFails _ | crash _ | watch _ | publish _ =>
    exact absurd h id

/-! ## Requests stay until they are answered -/

theorem mem_eraseIdx_or {α : Type} {l : List α} {a : α} (k : Nat) (h : a ∈ l) :
    a ∈ l.eraseIdx k ∨ l[k]? = some a := by
  obtain ⟨m, hm⟩ := List.mem_iff_getElem?.mp h
  by_cases hmk : m = k
  · exact Or.inr (hmk ▸ hm)
  · exact Or.inl (List.mem_eraseIdx_iff_getElem?.mpr ⟨m, hmk, hm⟩)

theorem inbox_set {i k : Nat} {sv : Server} (h : sv.inbox = (s.server i).inbox) {req : Request}
    (hreq : req ∈ (s.server k).inbox) : req ∈ ((s.set i sv).server k).inbox := by
  by_cases hk : k = i
  · subst hk
    rw [State.set_self, h]
    exact hreq
  · rw [State.set_ne _ _ hk]
    exact hreq

theorem inbox_push {i k : Nat} {new req : Request} (hreq : req ∈ (s.server k).inbox) :
    req ∈ ((s.push i new).server k).inbox := by
  by_cases hk : k = i
  · subst hk
    rw [State.push, State.set_self]
    exact List.mem_append_left _ hreq
  · rw [State.push, State.set_ne _ _ hk]
    exact hreq

/-- Only `handle` takes a request out of the inbox. -/
theorem inbox_step {a : Action} (h : step packedSize n s a = some s') (k : Nat) :
    (∀ req ∈ (s.server k).inbox, req ∈ (s'.server k).inbox) ∨
      ∃ l req, a = .handle k l ∧ (s.server k).inbox[l]? = some req ∧
        s' = s.set k (handled (s.server k) l req) := by
  cases a with
  | send i msg =>
    obtain ⟨_, _, rfl⟩ := send_cases h
    exact Or.inl fun _ hreq => inbox_push hreq
  | handle i l =>
    obtain ⟨req, _, _, hl, rfl⟩ := handle_cases h
    by_cases hk : k = i
    · subst hk
      exact Or.inr ⟨l, req, rfl, hl, rfl⟩
    · rw [State.set_ne _ _ hk]
      exact Or.inl fun _ hreq => hreq
  | skip i =>
    obtain ⟨j, _, _, _, _, rfl⟩ := skip_cases h
    exact Or.inl fun _ hreq => inbox_set (by rfl) hreq
  | forward i =>
    obtain ⟨j, link, _, _, _, _, _, _, rfl⟩ := forward_cases h
    exact Or.inl fun _ hreq => inbox_push (inbox_set (by rfl) hreq)
  | forwardFails i =>
    obtain ⟨j, link, _, _, _, _, rfl⟩ := forwardFails_cases h
    exact Or.inl fun _ hreq => inbox_set (by rfl) hreq
  | receive i =>
    obtain ⟨j, t, resp, _, _, _, rfl⟩ := receive_cases h
    exact Or.inl fun _ hreq => inbox_set (by rfl) hreq
  | receiveFails i =>
    obtain ⟨j, t, resp, _, _, _, rfl⟩ := receiveFails_cases h
    exact Or.inl fun _ hreq => inbox_set (by rfl) hreq
  | answer i =>
    obtain ⟨j, _, _, _, ⟨_, _, rfl⟩ | ⟨p, jp, _, _, _, _, _, rfl⟩ | ⟨rfl, _⟩⟩ := answer_cases h
    · exact Or.inl fun _ hreq => inbox_set (by rfl) hreq
    · exact Or.inl fun _ hreq => inbox_set (by rfl) (inbox_set (by rfl) hreq)
    · exact Or.inl fun _ hreq => inbox_set (by rfl) hreq
  | crash i =>
    obtain ⟨_, rfl⟩ := crash_cases h
    exact Or.inl fun _ hreq => hreq
  | watch i =>
    obtain ⟨_, _, ⟨_, rfl⟩ | ⟨conn, _, rfl⟩⟩ := watch_cases h
    · exact Or.inl fun _ hreq => inbox_set (by rfl) hreq
    · exact Or.inl fun _ hreq => inbox_set (by rfl) hreq
  | publish i =>
    obtain ⟨conn, _, _, _, rfl⟩ := publish_cases h
    exact Or.inl fun _ hreq => inbox_set (by rfl) hreq

theorem holds_keep {a : Action} (h : step packedSize n s a = some s') {k : Nat} {req : Request}
    (hreq : (s.server k).Holds req) :
    (s'.server k).Holds req ∨
      ∃ j, a = .answer k ∧ (s.server k).job = some j ∧ j.phase = .ready ∧ j.req = req := by
  rcases hreq with hin | ⟨j, hj, rfl⟩
  · rcases inbox_step h k with hkeep | ⟨l, taken, rfl, hl, rfl⟩
    · exact Or.inl (Or.inl (hkeep req hin))
    · rw [State.set_self]
      rcases mem_eraseIdx_or l hin with hin | hhit
      · exact Or.inl (Or.inl hin)
      · rw [hl] at hhit
        cases hhit
        exact Or.inl (Or.inr ⟨_, rfl, rfl⟩)
  · rcases job_step h k with ⟨hsame, _⟩ | ⟨_, _, _, hnone, _⟩ | ⟨j', ha, hj', hp, _⟩ |
      ⟨j', j'', hj', hj'', hadv⟩
    · exact Or.inl (Or.inr ⟨j, hsame ▸ hj, rfl⟩)
    · rw [hnone] at hj
      cases hj
    · rw [hj'] at hj
      cases hj
      exact Or.inr ⟨_, ha, hj', hp, rfl⟩
    · rw [hj'] at hj
      cases hj
      exact Or.inl (Or.inr ⟨j'', hj'', hadv.req⟩)

/-! ## What a chain without failures keeps -/

section

variable (hok : ∀ s a, ok s a → Static packedSize readable s a)
  (h : Reach (Does (step packedSize n)) ok (initial n) s)

include hok h

/-- Every server stays connected to the next one. -/
theorem static_successor (k : Nat) :
    (s.server k).successor = if k + 1 < n then some ⟨k + 1, false⟩ else none := by
  refine h.invariant (I := fun s => (s.server k).successor =
    if k + 1 < n then some ⟨k + 1, false⟩ else none) rfl ?_
  intro s a s' hr hk ha hstep
  rw [← hk]
  have hset : ∀ {s : State} {i : Nat} {sv : Server}, sv.successor = (s.server i).successor →
      ((s.set i sv).server k).successor = (s.server k).successor := by
    intro s i sv hsv
    by_cases hki : k = i
    · subst hki
      rw [State.set_self, hsv]
    · rw [State.set_ne _ _ hki]
  cases a with
  | send i msg =>
    obtain ⟨_, _, rfl⟩ := send_cases hstep
    exact hset (by rfl)
  | handle i l =>
    obtain ⟨req, _, _, _, rfl⟩ := handle_cases hstep
    exact hset (by rfl)
  | skip i =>
    obtain ⟨j, _, _, _, _, rfl⟩ := skip_cases hstep
    exact hset (by rfl)
  | forward i =>
    obtain ⟨j, link, _, _, _, _, _, _, rfl⟩ := forward_cases hstep
    exact (hset (by rfl)).trans (hset (by rfl))
  | forwardFails i =>
    obtain ⟨j, link, _, hj, _, hp, rfl⟩ := forwardFails_cases hstep
    exact (static_no_forwardFails hok hr ha hj hp).elim
  | receive i =>
    obtain ⟨j, t, resp, _, _, _, rfl⟩ := receive_cases hstep
    exact hset (by rfl)
  | receiveFails i => exact absurd (hok _ _ ha) id
  | answer i =>
    obtain ⟨j, _, _, _, ⟨_, _, rfl⟩ | ⟨p, jp, _, _, _, _, _, rfl⟩ | ⟨rfl, _⟩⟩ :=
      answer_cases hstep
    · exact hset (by rfl)
    · exact (hset (by rfl)).trans (hset (by rfl))
    · exact hset (by rfl)
  | crash i => exact absurd (hok _ _ ha) id
  | watch i => exact absurd (hok _ _ ha) id
  | publish i => exact absurd (hok _ _ ha) id

end

/-- Whatever happens, the list of a server is one that `invoke` makes. -/
theorem list_reachable (h : Reach (Does (step packedSize n)) ok (initial n) s) (k : Nat) :
    Reachable (s.server k).list := by
  refine h.invariant (I := fun s => Reachable (s.server k).list) Reachable.create ?_
  intro s a s' _ hk _ hstep
  rcases server_step hstep k with hsame | ⟨l, req, rfl, _, _, _, rfl⟩ | ⟨_, _, hlist, _⟩
  · rw [hsame.list]
    exact hk
  · rw [State.set_self]
    exact Reachable.invoke req.msg hk
  · rw [hlist]
    exact hk

/-- The reply to a read is what `invoke` made of it on some list. -/
theorem read_reply (hok : ∀ s a, ok s a → StubClients s a)
    (h : Reach (Does (step packedSize n)) ok (initial n) s) {k : Nat} {j : Job}
    (hj : (s.server k).job = some j) (hw : isWriteOp j.req.msg = false) :
    ∃ list, Reachable list ∧ j.reply = (invoke j.req.msg list).msg := by
  refine h.invariant (I := fun s => ∀ j, (s.server k).job = some j →
    isWriteOp j.req.msg = false → ∃ list, Reachable list ∧
      j.reply = (invoke j.req.msg list).msg) ?_ ?_ j hj hw
  · intro j hj
    cases hj
  · intro s a s' hr hk _ hstep j' hj' hw
    rcases job_source hstep hj' with hj | ⟨l, req, rfl, _, rfl, hnew⟩ | ⟨j, hj, hadv⟩
    · exact hk j' hj hw
    · cases hnew
      exact ⟨(s.server k).list, list_reachable hr k, by rw [afterInvoke_invoke]⟩
    · rw [hadv.req, (wellformed_of_reach hok hr).jobs k j hj hadv.not_ready] at hw
      cases hw

/-! ## Replies that fit -/

theorem sint32Field_small {x : Int} (h : -2 < x ∧ x < 2) : sint32Field x ≤ 2 := by
  obtain rfl | rfl | rfl : x = -1 ∨ x = 0 ∨ x = 1 := by omega
  · decide
  · decide
  · decide

theorem packedSize_of_small (msg : MessageT) (ho : Small msg.opcode) (hc : Small msg.cType) :
    messageTGetPackedSize msg = 4 + payloadSize msg := by
  rw [messageTGetPackedSize, int32Field_small ho, int32Field_small hc]

/-- The reply to a write is hardly longer than the write. -/
theorem write_reply_size {msg : MessageT} (hw : StubWrite msg) (list : Cars) :
    messageTGetPackedSize (invoke msg list).msg ≤ messageTGetPackedSize msg + 2 := by
  cases hw with
  | add car =>
    have hsize := packedSize_of_small (rlistAddRequest car) (show Small opAdd by decide)
      (show Small ctData by decide)
    rw [invoke_add rfl, (Answering.foretold_add rfl list).size, hsize]
    exact Nat.le_add_right _ 2
  | remove model =>
    have hsize := packedSize_of_small (rlistRemoveByModelRequest model)
      (show Small opDel by decide) (show Small ctModel by decide)
    have hresult :
        sint32Field (Answering.replyResult (rlistRemoveByModelRequest model) list) ≤ 2 := by
      apply sint32Field_small
      have hone : Answering.replyResult (rlistRemoveByModelRequest model) list =
          if list.head = [] then -1 else if list.head.any (hasModel model) then 0 else 1 := rfl
      rw [hone]
      split
      · decide
      · split <;> decide
    have hfields : ∀ x, payloadSize { rlistRemoveByModelRequest model with result := x } =
        sint32Field x + delimited (strlen model) := by
      intro x
      simp [payloadSize, rlistRemoveByModelRequest, messageTInit, repeatedField]
    have hreply : Answering.replySize (rlistRemoveByModelRequest model) list =
        4 + payloadSize { rlistRemoveByModelRequest model with
          result := Answering.replyResult (rlistRemoveByModelRequest model) list } := rfl
    have hsent : payloadSize (rlistRemoveByModelRequest model) =
        sint32Field 0 + delimited (strlen model) := hfields 0
    rw [invoke_del rfl, (Answering.foretold_del rfl list).size, hsize, hreply, hfields, hsent]
    have hzero : sint32Field 0 = 0 := rfl
    omega

/-- The writes in the chain leave room for their replies. -/
theorem room_of_reach (hok : ∀ s a, ok s a → Roomy s a)
    (h : Reach (Does (step messageTGetPackedSize n)) ok (initial n) s) {i : Nat} {req : Request}
    (hr : (s.server i).Holds req) (hw : isWriteOp req.msg = true) :
    messageTGetPackedSize req.msg + 2 ≤ uint16Max := by
  have hinv : ∀ i req, (s.server i).Holds req → isWriteOp req.msg = true →
      messageTGetPackedSize req.msg + 2 ≤ uint16Max := by
    refine h.invariant (I := fun s => ∀ i req, (s.server i).Holds req → isWriteOp req.msg = true →
      messageTGetPackedSize req.msg + 2 ≤ uint16Max) ?_ ?_
    · rintro i req (hr | ⟨_, hj, _⟩)
      · exact absurd hr List.not_mem_nil
      · cases hj
    · intro s a s' hr hi ha hstep i req hreq hw
      have hwf := static_wellformed (fun s a ha => (hok s a ha).1) hr
      rcases source_step hwf.sent hwf.jobs hstep hreq with ⟨k, req', hr', _, hmsg⟩ | ⟨msg, rfl, rfl⟩
      · rw [← hmsg] at hw ⊢
        exact hi k req' hr' hw
      · exact (hok _ _ ha).2 hw
  exact hinv i req hr hw

/-- Whoever handles a write can send its reply. -/
theorem write_reply_fits (hok : ∀ s a, ok s a → Roomy s a)
    (h : Reach (Does (step messageTGetPackedSize n)) ok (initial n) s) {k : Nat} {j : Job}
    (hj : (s.server k).job = some j) (hw : isWriteOp j.req.msg = true) :
    messageTGetPackedSize j.reply ≤ uint16Max := by
  have hstatic : ∀ s a, ok s a → Static messageTGetPackedSize AnyRead s a :=
    fun s a ha => (hok s a ha).1
  obtain ⟨es, e, happ, hwrite, _, hreply⟩ := (faithful_of_reach hstatic h).own k j hj hw
  have hmem : e ∈ (s.server k).applied := by
    rw [happ]
    exact List.mem_append_right _ (List.mem_singleton_self e)
  have hmsg : e.msg = j.req.msg := congrArg Relay.Write.msg hwrite
  have hsent := (static_wellformed hstatic h).sent k j.req (holds_of_job hj)
  have hsize := write_reply_size (hsent.isWriteOp_iff.mp hw) e.before
  rw [← hmsg, ← (recorded_of_reach h k).reply e hmem, ← hreply, hmsg] at hsize
  exact hsize.trans (room_of_reach hok h (holds_of_job hj) hw)

/-! ## A handler that waits is waited for -/

/-- The successor holds the request a handler waits for. -/
def Awaited (n : Nat) (s : State) : Prop :=
  ∀ i j t, (s.server i).job = some j → j.phase = .waiting t none →
    i < t ∧ t < n ∧ ∃ req, (s.server t).Holds req ∧ req.origin = some i ∧ req.id = j.req.id

/-- A reply that fits reaches the handler that waits for it. -/
theorem answer_delivers {i t : Nat} {j jt : Job} (hlive : (s.server t).live = true)
    (hjt : (s.server t).job = some jt) (hready : jt.phase = .ready)
    (hfit : packedSize jt.reply ≤ uint16Max) (ho : jt.req.origin = some i) (hit : i ≠ t)
    (hj : (s.server i).job = some j) (hp : j.phase = .waiting t none) (hid : jt.req.id = j.req.id)
    (h : step packedSize n s (.answer t) = some s') :
    (s'.server i).job = some { j with phase := .waiting t (some jt.reply) } := by
  have hj' : ((s.setJob t none).server i).job = some j := by
    rw [State.setJob, State.set_ne _ _ hit, hj]
  have hs' : s' = deliver (s.setJob t none) t i jt.req.id jt.reply := by
    simp only [step, answer, hlive, hjt, if_pos hready, if_pos hfit, ho] at h
    exact (Option.some.inj h).symm
  rw [hs']
  simp only [deliver, hj', hp, hid, and_self, if_true]
  simp [State.setJob]

theorem awaited_step (hok : ∀ s a, ok s a → Roomy s a)
    (hr : Reach (Does (step messageTGetPackedSize n)) ok (initial n) s) {a : Action}
    (hs : Awaited n s) (h : step messageTGetPackedSize n s a = some s') : Awaited n s' := by
  have hstatic : ∀ s a, ok s a → Static messageTGetPackedSize AnyRead s a :=
    fun s a ha => (hok s a ha).1
  intro i j' t hj' hp
  rcases job_source h hj' with hj | ⟨l, req, rfl, _, rfl, hnew⟩ | ⟨j, hj, hadv⟩
  · obtain ⟨hit, ht, req, hreq, ho, hid⟩ := hs i j' t hj hp
    refine ⟨hit, ht, ?_⟩
    rcases holds_keep h hreq with hreq | ⟨jt, rfl, hjt, hready, rfl⟩
    · exact ⟨req, hreq, ho, hid⟩
    · have hlive := (static_live hstatic hr t).mpr ht
      have hw : isWriteOp jt.req.msg = true :=
        isWriteOp_of_stubWrite (((static_wellformed hstatic hr).sent t _ hreq).write ho)
      have hgot := answer_delivers hlive hjt hready (write_reply_fits hok hr hjt hw) ho
        (Nat.ne_of_lt hit) hj hp hid h
      rw [hj'] at hgot
      have hphase := congrArg Job.phase (Option.some.inj hgot)
      rw [hp] at hphase
      cases hphase
  · cases hnew
    dsimp only at hp
    split at hp <;> cases hp
  · cases hadv with
    | forward t' hinv =>
      obtain ⟨jf, link, _, hjf, hsucc, _, _, _, rfl⟩ := forward_cases h
      rw [hj] at hjf
      cases hjf
      rw [State.push_job, State.setJob, State.set_self] at hj'
      have htarget : t = link.target := by
        have hphase := congrArg Job.phase (Option.some.inj hj')
        rw [hp] at hphase
        exact ((Phase.waiting.inj hphase).1).symm
      rw [static_successor hstatic hr i] at hsucc
      split at hsucc
      · rename_i hlt
        cases hsucc
        subst htarget
        refine ⟨Nat.lt_succ_self i, hlt, ⟨j.req.id, some i, propagateMsg j.req.msg⟩, ?_, rfl, rfl⟩
        left
        rw [State.push, State.set_self]
        exact List.mem_append_right _ (List.mem_singleton_self _)
      · cases hsucc
    | skip _ | forwardFails _ | receive _ | receiveFails _ => cases hp
    | delivered _ _ _ _ _ _ => cases hp

theorem awaited_of_reach (hok : ∀ s a, ok s a → Roomy s a)
    (h : Reach (Does (step messageTGetPackedSize n)) ok (initial n) s) : Awaited n s := by
  refine h.invariant (I := Awaited n) ?_ ?_
  · intro i j t hj
    cases hj
  · intro s a s' hr hs _ hstep
    exact awaited_step hok hr hs hstep

/-! ## Requests are accounted for -/

/-- A read whose reply fits no frame, on some list. -/
def TooLong (msg : MessageT) : Prop :=
  isWriteOp msg = false ∧
    ∃ list, Reachable list ∧ uint16Max < messageTGetPackedSize (invoke msg list).msg

/-- The client of the request got its answer. -/
def Answered (hist : List Event) (id : Nat) (msg : MessageT) : Prop :=
  ∃ a, .ret a ∈ hist ∧ a.id = id ∧ a.msg = msg

/-- What was sent to a server is in its hands, or answered, or a read whose
answer was dropped. -/
def Tracked (n : Nat) (s : State) : Prop :=
  ∀ id i msg, .call id i msg ∈ s.hist →
    (∃ req, i < n ∧ (s.server i).Holds req ∧ req.origin = none ∧ req.id = id ∧ req.msg = msg) ∨
      Answered s.hist id msg ∨ TooLong msg

theorem tracked_step (hok : ∀ s a, ok s a → Roomy s a)
    (hr : Reach (Does (step messageTGetPackedSize n)) ok (initial n) s) {a : Action}
    (hs : Tracked n s) (h : step messageTGetPackedSize n s a = some s') : Tracked n s' := by
  have hstatic : ∀ s a, ok s a → Static messageTGetPackedSize AnyRead s a :=
    fun s a ha => (hok s a ha).1
  have hmono : ∀ e ∈ s.hist, e ∈ s'.hist := fun e he =>
    mem_hist_of_reach he (.step .init trivial h : Reach _ (fun _ _ => True) s s')
  intro id i msg hcall
  have hcase : .call id i msg ∈ s.hist ∨ a = .send i msg ∧ id = s.nextId := by
    rcases hist_step h with ⟨hh, _⟩ | ⟨k, m, rfl, hh, _⟩ | ⟨_, _, _, _, _, _, hh, _⟩
    · exact Or.inl (hh ▸ hcall)
    · rw [hh] at hcall
      rcases List.mem_append.mp hcall with hold | hnew
      · exact Or.inl hold
      · cases List.mem_singleton.mp hnew
        exact Or.inr ⟨rfl, rfl⟩
    · rw [hh] at hcall
      rcases List.mem_append.mp hcall with hold | hnew
      · exact Or.inl hold
      · cases List.mem_singleton.mp hnew
  rcases hcase with hold | ⟨rfl, rfl⟩
  · rcases hs id i msg hold with ⟨req, hi, hreq, ho, hid, hmsg⟩ | ⟨b, hb, hid, hmsg⟩ | hlong
    · rcases holds_keep h hreq with hreq | ⟨j, rfl, hj, _, rfl⟩
      · exact Or.inl ⟨req, hi, hreq, ho, hid, hmsg⟩
      · right
        obtain ⟨j', _, hj', _, ⟨_, _, rfl⟩ | ⟨p, _, ho', _⟩ | ⟨_, hdropped⟩⟩ := answer_cases h
        · rw [hj] at hj'
          cases hj'
          exact Or.inl ⟨_, List.mem_append_right _ (List.mem_singleton_self _), hid, hmsg⟩
        · rw [hj] at hj'
          cases hj'
          rw [ho] at ho'
          cases ho'
        · rw [hj] at hj'
          cases hj'
          have hlong : uint16Max < messageTGetPackedSize j.reply := by
            by_contra hfit
            exact hdropped (Nat.le_of_not_lt hfit) ho
          cases hw : isWriteOp j.req.msg with
          | true => exact absurd (write_reply_fits hok hr hj hw) (Nat.not_le_of_lt hlong)
          | false =>
            obtain ⟨list, hl, hreply⟩ :=
              read_reply (fun s a ha => static_stubClients (hstatic s a ha)) hr hj hw
            rw [hreply] at hlong
            rw [← hmsg]
            exact Or.inr ⟨hw, list, hl, hlong⟩
    · exact Or.inr (Or.inl ⟨b, hmono _ hb, hid, hmsg⟩)
    · exact Or.inr (Or.inr hlong)
  · obtain ⟨hlive, _, rfl⟩ := send_cases h
    refine Or.inl ⟨⟨s.nextId, none, msg⟩, lt_of_live hr hlive, Or.inl ?_, rfl, rfl, rfl⟩
    rw [State.issue_server, State.record_server, State.push, State.set_self]
    exact List.mem_append_right _ (List.mem_singleton_self _)

theorem tracked_of_reach (hok : ∀ s a, ok s a → Roomy s a)
    (h : Reach (Does (step messageTGetPackedSize n)) ok (initial n) s) : Tracked n s := by
  refine h.invariant (I := Tracked n) ?_ ?_
  · intro id i msg hcall
    cases hcall
  · intro s a s' hr hs _ hstep
    exact tracked_step hok hr hs hstep

/-! ## Nobody is stuck -/

/-- No handler is busy and no request waits. -/
def AtRest (n : Nat) (s : State) : Prop :=
  ∀ i, i < n → (s.server i).job = none ∧ (s.server i).inbox = []

/-- A chain in which no handler can take a step is at rest: from the last server
to the first, whoever waits has a successor that can go on. -/
theorem atRest_of_stuck (hok : ∀ s a, ok s a → Roomy s a)
    (hr : Reach (Does (step messageTGetPackedSize n)) ok (initial n) s)
    (hstuck : ∀ a, Internal a → step messageTGetPackedSize n s a = none) : AtRest n s := by
  have hstatic : ∀ s a, ok s a → Static messageTGetPackedSize AnyRead s a :=
    fun s a ha => (hok s a ha).1
  have hwf := static_wellformed hstatic hr
  refine free_of_behind fun i hi hbehind => ?_
  have hlive := (static_live hstatic hr i).mpr hi
  have hjob : (s.server i).job = none := by
    cases hj : (s.server i).job with
    | none => rfl
    | some j =>
      exfalso
      cases hp : j.phase with
      | invoked =>
        have hw := hwf.jobs i j hj (by rw [hp]; simp)
        have hsent := hwf.sent i j.req (holds_of_job hj)
        have hfit : messageTGetPackedSize (propagateMsg j.req.msg) ≤ uint16Max := by
          rw [propagateMsg_of_stubWrite (hsent.isWriteOp_iff.mp hw)]
          exact hsent.fits
        have hsucc := static_successor hstatic hr i
        split at hsucc
        · have hgo := hstuck (.forward i) trivial
          simp [step, forward, hlive, hj, hsucc, hp, hfit] at hgo
        · have hgo := hstuck (.skip i) trivial
          simp [step, skip, hlive, hj, hsucc, hp] at hgo
      | waiting t resp =>
        cases resp with
        | none =>
          obtain ⟨hit, ht, req, hreq, _, _⟩ := awaited_of_reach hok hr i j t hj hp
          obtain ⟨hfree, hempty⟩ := hbehind t hit ht
          rcases hreq with hin | ⟨_, hjt, _⟩
          · rw [hempty] at hin
            cases hin
          · rw [hfree] at hjt
            cases hjt
        | some resp =>
          have hgo := hstuck (.receive i) trivial
          simp [step, receive, hlive, hj, hp] at hgo
      | ready =>
        have hgo := hstuck (.answer i) trivial
        simp [step, answer, hlive, hj, hp] at hgo
  refine ⟨hjob, ?_⟩
  cases hin : (s.server i).inbox with
  | nil => rfl
  | cons req rest =>
    exfalso
    have hgo := hstuck (.handle i 0) trivial
    simp [step, handle, hlive, hjob, hin] at hgo

/-! ## How much is left to do -/

/-- A request costs four steps at its server and at each one behind. -/
def cost (n i : Nat) : Nat := 4 * (n - i)

def jobLoad (n i : Nat) : Option Job → Nat
  | none => 0
  | some j =>
    match j.phase with
    | .invoked => cost n i - 1
    | .waiting _ _ => 2
    | .ready => 1

def serverLoad (n i : Nat) (sv : Server) : Nat :=
  sv.inbox.length * cost n i + jobLoad n i sv.job

/-- The steps the requests in the chain can take at most. -/
def load (n : Nat) (s : State) : Nat := ∑ i ∈ Finset.range n, serverLoad n i (s.server i)

theorem cost_succ {i : Nat} (h : i < n) : cost n i = cost n (i + 1) + 4 := by
  unfold cost
  omega

theorem load_set {i : Nat} (hi : i < n) (s : State) (sv : Server) :
    load n (s.set i sv) + serverLoad n i (s.server i) = load n s + serverLoad n i sv := by
  have hsum := sum_update (f := fun k => serverLoad n k (s.server k))
    (g := fun k => serverLoad n k ((s.set i sv).server k)) hi fun k hk => by
      rw [State.set_ne _ _ hk]
  rw [State.set_self] at hsum
  exact hsum

theorem load_setJob {i : Nat} (hi : i < n) (s : State) (job : Option Job) :
    load n (s.setJob i job) + jobLoad n i (s.server i).job = load n s + jobLoad n i job := by
  have hset : load n (s.setJob i job) + serverLoad n i (s.server i) =
      load n s + serverLoad n i { s.server i with job := job } := load_set hi s _
  have hold : serverLoad n i (s.server i) =
      (s.server i).inbox.length * cost n i + jobLoad n i (s.server i).job := rfl
  have hnew : serverLoad n i { s.server i with job := job } =
      (s.server i).inbox.length * cost n i + jobLoad n i job := rfl
  omega

theorem load_push {i : Nat} (hi : i < n) (s : State) (req : Request) :
    load n (s.push i req) = load n s + cost n i := by
  have hset : load n (s.push i req) + serverLoad n i (s.server i) =
      load n s + serverLoad n i { s.server i with inbox := (s.server i).inbox ++ [req] } :=
    load_set hi s _
  have hnew : serverLoad n i { s.server i with inbox := (s.server i).inbox ++ [req] } =
      serverLoad n i (s.server i) + cost n i := by
    unfold serverLoad
    dsimp only
    rw [List.length_append, List.length_singleton, Nat.add_mul, Nat.one_mul]
    omega
  omega

/-- Taking a request from the inbox lets it begin at less than it cost there. -/
theorem load_handled {i l : Nat} (hi : i < n) {req : Request} (hj : (s.server i).job = none)
    (hl : (s.server i).inbox[l]? = some req) :
    load n (s.set i (handled (s.server i) l req)) < load n s := by
  have hset := load_set hi s (handled (s.server i) l req)
  have hlen : (handled (s.server i) l req).inbox.length + 1 = (s.server i).inbox.length := by
    have hlt := (List.getElem?_eq_some_iff.mp hl).1
    show ((s.server i).inbox.eraseIdx l).length + 1 = _
    rw [List.length_eraseIdx_of_lt hlt]
    omega
  have hcost := cost_succ hi
  have hnew : jobLoad n i (handled (s.server i) l req).job < cost n i := by
    have hjob : (handled (s.server i) l req).job = some ⟨req,
        (afterInvoke req.msg (invoke req.msg (s.server i).list)).1,
        (s.server i).applied.length,
        if (afterInvoke req.msg (invoke req.msg (s.server i).list)).2 then .invoked
        else .ready⟩ := rfl
    rw [hjob]
    cases (afterInvoke req.msg (invoke req.msg (s.server i).list)).2 with
    | true =>
      show cost n i - 1 < cost n i
      omega
    | false =>
      show 1 < cost n i
      omega
  have hold : serverLoad n i (s.server i) =
      (handled (s.server i) l req).inbox.length * cost n i + cost n i := by
    rw [serverLoad, hj, ← hlen, Nat.add_mul, Nat.one_mul]
    rfl
  have hload : serverLoad n i (handled (s.server i) l req) =
      (handled (s.server i) l req).inbox.length * cost n i +
        jobLoad n i (handled (s.server i) l req).job := rfl
  omega

/-- Every step of a handler uses some of the load up. -/
theorem load_step (hok : ∀ s a, ok s a → Roomy s a)
    (hr : Reach (Does (step messageTGetPackedSize n)) ok (initial n) s) {a : Action}
    (ha : Internal a) (h : step messageTGetPackedSize n s a = some s') : load n s' < load n s := by
  have hstatic : ∀ s a, ok s a → Static messageTGetPackedSize AnyRead s a :=
    fun s a ha => (hok s a ha).1
  cases a with
  | handle i l =>
    obtain ⟨req, hlive, hj, hl, rfl⟩ := handle_cases h
    exact load_handled (lt_of_live hr hlive) hj hl
  | skip i =>
    obtain ⟨j, hlive, hj, _, hp, rfl⟩ := skip_cases h
    have hi := lt_of_live hr hlive
    have hset := load_setJob hi s (some { j with phase := .ready })
    have hcost := cost_succ hi
    rw [hj] at hset
    simp only [jobLoad, hp] at hset
    omega
  | forward i =>
    obtain ⟨j, link, hlive, hj, hsucc, hp, _, _, rfl⟩ := forward_cases h
    have hi := lt_of_live hr hlive
    have hset := load_setJob hi s (some { j with phase := .waiting link.target none })
    have hcost := cost_succ hi
    rw [hj] at hset
    simp only [jobLoad, hp] at hset
    rw [static_successor hstatic hr i] at hsucc
    split at hsucc
    · rename_i hlt
      cases hsucc
      rw [load_push hlt]
      omega
    · cases hsucc
  | receive i =>
    obtain ⟨j, t, resp, hlive, hj, hp, rfl⟩ := receive_cases h
    have hi := lt_of_live hr hlive
    have hset := load_setJob hi s
      (some { j with reply := afterExchange j.reply (.reply resp), phase := .ready })
    rw [hj] at hset
    simp only [jobLoad, hp] at hset
    omega
  | answer i =>
    obtain ⟨j, hlive, hj, hp, hcase⟩ := answer_cases h
    have hi := lt_of_live hr hlive
    have hset := load_setJob hi s none
    rw [hj] at hset
    simp only [jobLoad, hp] at hset
    rcases hcase with ⟨_, _, rfl⟩ | ⟨p, jp, _, hpi, hjp, hpp, _, rfl⟩ | ⟨rfl, _⟩
    · show load n (s.setJob i none) < load n s
      omega
    · have hpn := lt_of_job hr hjp
      have hagain := load_setJob hpn (s.setJob i none)
        (some { jp with phase := .waiting i (some j.reply) })
      have hjp' : ((s.setJob i none).server p).job = some jp := by
        rw [State.setJob, State.set_ne _ _ hpi, hjp]
      rw [hjp'] at hagain
      simp only [jobLoad, hpp] at hagain
      omega
    · omega
  | send _ _ | forwardFails _ | receiveFails _ | crash _ | watch _ | publish _ =>
    exact absurd ha id

/-- Handlers at work keep the run one of the chain, and use its load up. -/
theorem internal_lowers (n : Nat) :
    Lowers (step messageTGetPackedSize n) (fun _ a => Internal a)
      (fun s => Reach (Does (step messageTGetPackedSize n)) Roomy (initial n) s) (load n) where
  keeps s _ _ hs ha hstep := .step hs (roomy_of_internal ha s) hstep
  lowers _ _ _ hs ha hstep := load_step (fun _ _ ha => ha) hs ha hstep

/-- A write on its way, and a read that waits behind it. -/
def halfWay : List Action :=
  [.send 0 (addOf 97 2020), .handle 0 0, .forward 0, .send 1 rlistSizeRequest]

end CarChain.Chain
