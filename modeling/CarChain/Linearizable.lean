import CarChain.Static
import CarChain.Wire

/-!
# Linearizability

In a chain without failures whose reads all go to the last server, and are no
ordered listings, every list is what `invoke` makes of the writes applied so far
(`list_eq_execute`).  So a request answered after `seen` writes got the reply of
a single list that executed the first `seen` writes of the head, and `seen`
never runs against real time (`RealTime`): a write takes effect after everything
that was answered before it was sent, and a read sees all of that.
-/

namespace CarChain.Chain
open CarChain.Message CarChain.CarList CarChain.Skeleton CarChain.Stub
open CarChain.Handler CarChain.Run CarChain.Replica CarChain.Trace CarChain.Wire

/-- One list, executing one request after the other. -/
def execute (msgs : List MessageT) : Cars :=
  msgs.foldl (fun list msg => (invoke msg list).list) listCreate

/-- The reply to `msg` after `msgs` on one list. -/
def replyAfter (msgs : List MessageT) (msg : MessageT) : MessageT := (invoke msg (execute msgs)).msg

/-- Reads go to the last server and are no ordered listings. -/
def TailRead (n i : Nat) (msg : MessageT) : Prop :=
  i + 1 = n ∧ (msg.opcode = opGetListByTear → msg.result ≠ -1)

instance (n i : Nat) (msg : MessageT) : Decidable (TailRead n i msg) :=
  inferInstanceAs (Decidable (i + 1 = n ∧ (msg.opcode = opGetListByTear → msg.result ≠ -1)))

/-- What a server ran, in its order. -/
def Server.msgs (sv : Server) : List MessageT := sv.applied.map Entry.msg

/-- The number of writes that come before the next request when this one was
executed: itself included if it is a write. -/
def Answer.upTo (a : Answer) : Nat := if isWriteOp a.msg then a.seen + 1 else a.seen

variable {packedSize : MessageT → Nat} {n : Nat} {ok : State → Action → Prop} {s s' : State}
  {readable : Nat → MessageT → Prop}

/-! ## Lists are functions of the writes -/

/-- Reads stay where they were sent. -/
theorem readable_of_reach (hok : ∀ s a, ok s a → Static packedSize readable s a)
    (h : Reach (Does (step packedSize n)) ok (initial n) s) {i : Nat} {req : Request}
    (hr : (s.server i).Holds req) (hw : isWriteOp req.msg = false) : readable i req.msg := by
  have hinv : ∀ i req, (s.server i).Holds req → isWriteOp req.msg = false →
      readable i req.msg := by
    refine h.invariant (I := fun s => ∀ i req, (s.server i).Holds req →
      isWriteOp req.msg = false → readable i req.msg) ?_ ?_
    · rintro i req (hr | ⟨_, hj, _⟩)
      · exact absurd hr List.not_mem_nil
      · cases hj
    · intro s a s' hr hi ha hstep i req hreq hw
      rcases holds_step hstep hreq with hold | ⟨msg, rfl, _, rfl⟩ |
        ⟨p, j, link, rfl, _, hj, _, _, _, rfl⟩
      · exact hi i req hold hw
      · rcases hok _ _ ha with ⟨hsw, _⟩ | ⟨_, hread⟩
        · rw [isWriteOp_of_stubWrite hsw] at hw
          cases hw
        · exact hread
      · have hwf := static_wellformed hok hr
        obtain ⟨j', _, _, hj', _, hp, _⟩ := forward_cases hstep
        rw [hj] at hj'
        cases hj'
        have hjw := hwf.jobs p j hj (by rw [hp]; simp)
        have hsw := (hwf.sent p _ (holds_of_job hj)).isWriteOp_iff.mp hjw
        rw [propagateMsg_of_stubWrite hsw, hjw] at hw
        cases hw
  exact hinv i req hr hw

/-- A read that is no ordered listing leaves the list. -/
theorem invoke_list_of_tailRead {i : Nat} {msg : MessageT} (hw : isWriteOp msg = false)
    (hr : TailRead n i msg) (list : Cars) : (invoke msg list).list = list := by
  have hne := (isWriteOp_iff msg).not.mp (by simp [hw])
  rw [not_or] at hne
  rcases invoke_list_of_read hne.1 hne.2 list with he | ⟨ho, hres, _⟩
  · exact he
  · exact absurd hres (hr.2 ho)

theorem recorded_eq_of_reach (hok : ∀ s a, ok s a → Static packedSize (TailRead n) s a)
    (h : Reach (Does (step packedSize n)) ok (initial n) s) (k : Nat) :
    Recorded Eq (s.server k) := by
  refine h.invariant (I := fun s => Recorded Eq (s.server k))
    (recorded_initial (fun _ => rfl) n k) ?_
  intro s a s' hr hk _ hstep
  refine recorded_step (fun _ => rfl) Eq.trans (fun l req _ hl hw => ?_) hstep hk
  have hread := readable_of_reach hok hr (Or.inl (List.mem_of_getElem? hl)) hw
  exact (invoke_list_of_tailRead hw hread _).symm

/-- A list traced without disturbances is executed. -/
theorem execute_of_traced {es : List Entry} {b : Cars}
    (h : Traced Entry.before Entry.after Eq listCreate es b) : b = execute (es.map Entry.msg) :=
  h.foldl fun _ _ => rfl

theorem list_eq_execute (hok : ∀ s a, ok s a → Static packedSize (TailRead n) s a)
    (h : Reach (Does (step packedSize n)) ok (initial n) s) (k : Nat) :
    (s.server k).list = execute (s.server k).msgs :=
  execute_of_traced (recorded_eq_of_reach hok h k).trace

/-- The reply of an entry is the one after the entries before it. -/
theorem reply_eq_replyAfter (hok : ∀ s a, ok s a → Static packedSize (TailRead n) s a)
    (h : Reach (Does (step packedSize n)) ok (initial n) s) {k q : Nat} {e : Entry}
    (he : (s.server k).applied[q]? = some e) :
    e.reply = replyAfter ((s.server k).msgs.take q) e.msg := by
  obtain ⟨hq, rfl⟩ := List.getElem?_eq_some_iff.mp he
  have hrec := recorded_eq_of_reach hok h k
  have hsplit : (s.server k).applied =
      (s.server k).applied.take q ++
        (s.server k).applied[q] :: (s.server k).applied.drop (q + 1) := by
    rw [← List.drop_eq_getElem_cons hq, List.take_append_drop]
  have htrace := hrec.trace
  rw [hsplit] at htrace
  have hbefore := execute_of_traced htrace.upTo
  rw [hrec.reply _ (List.getElem_mem hq), replyAfter, Server.msgs, ← List.map_take, ← hbefore]

/-- What a server applied, those in front of it have applied before anything
else. -/
theorem writes_extends (hok : ∀ s a, ok s a → Static packedSize readable s a)
    (h : Reach (Does (step packedSize n)) ok (initial n) s) {i k : Nat} (hik : i ≤ k)
    (hk : k < n) :
    (s.server k).applied.map Entry.write <+: (s.server i).applied.map Entry.write := by
  rcases Nat.lt_or_eq_of_le hik with hlt | rfl
  · have hlive : ∀ m, m < n → (s.server m).live = true :=
      fun m hm => (static_live hok h m).mpr hm
    have hagree := (static_agreement hok h).agree i k hlt
      (abs_live (hlive i (by omega))) (abs_live (hlive k hk))
    rcases hagree.log with heq | ⟨j, _, heq⟩
    · exact ⟨[], by simpa [State.abs, Server.abs] using heq.symm⟩
    · exact ⟨[j.write], by simpa [State.abs, Server.abs] using heq.symm⟩
  · exact List.prefix_rfl

theorem length_le_of_le (hok : ∀ s a, ok s a → Static packedSize readable s a)
    (h : Reach (Does (step packedSize n)) ok (initial n) s) {i k : Nat} (hik : i ≤ k)
    (hk : k < n) : (s.server k).applied.length ≤ (s.server i).applied.length := by
  have hp := (writes_extends hok h hik hk).length_le
  simpa using hp

/-! ## Reads -/

/-- What a handler is about to answer to a read, and what clients got. -/
structure ReadsFaithful (s : State) : Prop where
  job : ∀ i j, (s.server i).job = some j → isWriteOp j.req.msg = false →
    j.seen = (s.server i).applied.length ∧ j.reply = (invoke j.req.msg (s.server i).list).msg
  hist : ∀ a, .ret a ∈ s.hist → isWriteOp a.msg = false →
    a.seen ≤ (s.server 0).applied.length ∧
      a.reply = replyAfter ((s.server 0).msgs.take a.seen) a.msg

/-- An answer after what a server has applied now. -/
theorem take_msgs (hok : ∀ s a, ok s a → Static packedSize readable s a)
    (h : Reach (Does (step packedSize n)) ok (initial n) s) {i : Nat} (hi : i < n) :
    (s.server 0).msgs.take (s.server i).applied.length = (s.server i).msgs := by
  have hp := (writes_extends hok h (Nat.zero_le i) hi).map Relay.Write.msg
  rw [List.map_map, List.map_map] at hp
  have htake := List.prefix_iff_eq_take.mp hp
  rw [List.length_map] at htake
  exact htake.symm

theorem readsFaithful_step (hok : ∀ s a, ok s a → Static packedSize (TailRead n) s a)
    (hr : Reach (Does (step packedSize n)) ok (initial n) s) {a : Action}
    (hf : ReadsFaithful s) (h : step packedSize n s a = some s') : ReadsFaithful s' := by
  have hwf := static_wellformed hok hr
  constructor
  · intro k j' hj' hw
    rcases job_source h hj' with hj | ⟨l, req, rfl, hl, rfl, hnew⟩ | ⟨j, hj, hadv⟩
    · rw [(busy_step h hj).1, (busy_step h hj).2]
      exact hf.job k j' hj hw
    · rw [State.set_self]
      cases hnew
      have hw : isWriteOp req.msg = false := hw
      have hread := readable_of_reach hok hr (Or.inl (List.mem_of_getElem? hl)) hw
      have hlist : (handled (s.server k) l req).list = (s.server k).list :=
        invoke_list_of_tailRead hw hread _
      rw [handled_applied, hw, hlist]
      exact ⟨rfl, by simp⟩
    · have hjr : isWriteOp j.req.msg = false := by
        rw [← hadv.req]
        exact hw
      have hready : j.phase = .ready := by
        by_contra hp
        rw [hwf.jobs k j hj hp] at hjr
        cases hjr
      exact absurd hready hadv.not_ready
  · intro b hb hw
    rcases ret_source h hb with hb | ⟨i, j, rfl, hj, _, _, rfl⟩
    · obtain ⟨hseen, hreply⟩ := hf.hist b hb hw
      have hp := applied_extends h 0
      refine ⟨hseen.trans hp.length_le, ?_⟩
      have hm := hp.map Entry.msg
      have htake : (s'.server 0).msgs.take b.seen = (s.server 0).msgs.take b.seen := by
        obtain ⟨t, ht⟩ := hm
        unfold Server.msgs
        rw [← ht, List.take_append_of_le_length (by simpa using hseen)]
      rw [htake]
      exact hreply
    · have hi : i < n := lt_of_job hr hj
      obtain ⟨hseen, hreply⟩ := hf.job i j hj hw
      have happ : (s'.server 0).applied = (s.server 0).applied := by
        rcases server_step h 0 with hs | ⟨_, _, ha, _⟩ | ⟨ha, _⟩
        · exact hs.applied
        · cases ha
        · cases ha
      have hmsgs : (s'.server 0).msgs = (s.server 0).msgs := by
        unfold Server.msgs
        rw [happ]
      dsimp only
      rw [hseen, hmsgs, happ, take_msgs hok hr hi]
      refine ⟨length_le_of_le hok hr (Nat.zero_le i) hi, ?_⟩
      rw [hreply, list_eq_execute hok hr i]
      rfl

theorem readsFaithful_of_reach (hok : ∀ s a, ok s a → Static packedSize (TailRead n) s a)
    (h : Reach (Does (step packedSize n)) ok (initial n) s) : ReadsFaithful s := by
  refine h.invariant (I := ReadsFaithful) ⟨?_, ?_⟩ ?_
  · intro i j hj
    cases hj
  · intro a ha
    cases ha
  · intro s a s' hr hf _ hstep
    exact readsFaithful_step hok hr hf hstep

/-! ## Real time -/

/-- Every request in the chain, and every answer, goes back to what a client
sent. -/
structure Called (s : State) : Prop where
  held : ∀ i req, (s.server i).Holds req → ∃ server, .call req.id server req.msg ∈ s.hist
  ret : ∀ a, .ret a ∈ s.hist → ∃ server, .call a.id server a.msg ∈ s.hist

theorem called_step (hwf : Wellformed packedSize s) {a : Action} (hc : Called s)
    (h : step packedSize n s a = some s') : Called s' := by
  have hmono : ∀ e, e ∈ s.hist → e ∈ s'.hist := fun e he =>
    mem_hist_of_reach he (.step .init trivial h : Reach _ (fun _ _ => True) s s')
  constructor
  · intro i req hr
    rcases source_step hwf.sent hwf.jobs h hr with ⟨k, req', hr', hid, hmsg⟩ | ⟨msg, rfl, rfl⟩
    · obtain ⟨server, hs⟩ := hc.held k req' hr'
      rw [hid, hmsg] at hs
      exact ⟨server, hmono _ hs⟩
    · obtain ⟨_, _, rfl⟩ := send_cases h
      exact ⟨i, List.mem_append_right _ (List.mem_singleton_self _)⟩
  · intro b hb
    rcases ret_source h hb with hb | ⟨i, j, _, hj, _, _, rfl⟩
    · obtain ⟨server, hs⟩ := hc.ret b hb
      exact ⟨server, hmono _ hs⟩
    · obtain ⟨server, hs⟩ := hc.held i _ (holds_of_job hj)
      exact ⟨server, hmono _ hs⟩

theorem called_of_reach (hok : ∀ s a, ok s a → Static packedSize readable s a)
    (h : Reach (Does (step packedSize n)) ok (initial n) s) : Called s := by
  refine h.invariant (I := Called) ⟨?_, ?_⟩ ?_
  · rintro i req (hr | ⟨_, hj, _⟩)
    · exact absurd hr List.not_mem_nil
    · cases hj
  · intro a ha
    cases ha
  · intro s a s' hr hc _ hstep
    exact called_step (static_wellformed hok hr) hc hstep

/-- `x` was answered before the request numbered `id` was sent. -/
def AnsweredBefore (hist : List Event) (x : Answer) (id : Nat) : Prop :=
  ∃ server msg, [.ret x, .call id server msg].Sublist hist

theorem AnsweredBefore.mem {hist : List Event} {x : Answer} {id : Nat}
    (h : AnsweredBefore hist x id) : .ret x ∈ hist := by
  obtain ⟨server, msg, hs⟩ := h
  exact hs.subset List.mem_cons_self

/-- What comes before the last event but for the last event itself. -/
theorem answeredBefore_append {hist : List Event} {e : Event} {x : Answer} {id : Nat}
    (h : AnsweredBefore (hist ++ [e]) x id) :
    AnsweredBefore hist x id ∨ ∃ server msg, e = .call id server msg := by
  obtain ⟨server, msg, hs⟩ := h
  obtain ⟨l₁, l₂, heq, h₁, h₂⟩ := List.sublist_append_iff.mp hs
  rcases List.sublist_singleton.mp h₂ with rfl | rfl
  · rw [List.append_nil] at heq
    exact Or.inl ⟨server, msg, heq ▸ h₁⟩
  · have hsplit : [Event.ret x] ++ [Event.call id server msg] = l₁ ++ [e] := heq
    obtain ⟨_, he⟩ := List.append_inj' hsplit rfl
    exact Or.inr ⟨server, msg, (List.singleton_injective he).symm⟩

/-- A request already sent has no new answers before it. -/
theorem answeredBefore_step {a : Action} (h : step packedSize n s a = some s') {x : Answer}
    {id : Nat} (hid : id < s.nextId) (hx : AnsweredBefore s'.hist x id) :
    AnsweredBefore s.hist x id := by
  rcases hist_step h with ⟨hh, _⟩ | ⟨_, _, _, hh, _⟩ | ⟨_, _, _, _, _, _, hh, _⟩
  · rw [hh] at hx
    exact hx
  · rw [hh] at hx
    rcases answeredBefore_append hx with hx | ⟨_, _, he⟩
    · exact hx
    · cases he
      exact absurd hid (Nat.lt_irrefl _)
  · rw [hh] at hx
    rcases answeredBefore_append hx with hx | ⟨_, _, he⟩
    · exact hx
    · cases he

/-- The order of effects does not contradict real time. -/
structure RealTime (n : Nat) (s : State) : Prop where
  fresh : ∀ y, .ret y ∈ s.hist → y.id < s.nextId
  everywhere : ∀ x, .ret x ∈ s.hist → ∀ k, k < n → x.upTo ≤ (s.server k).applied.length
  job : ∀ i j, (s.server i).job = some j → ∀ x, AnsweredBefore s.hist x j.req.id →
    x.upTo ≤ j.seen
  ret : ∀ y, .ret y ∈ s.hist → ∀ x, AnsweredBefore s.hist x y.id → x.upTo ≤ y.seen

/-- What is answered now has taken effect at every server. -/
theorem upTo_le_of_answer (hok : ∀ s a, ok s a → Static packedSize (TailRead n) s a)
    (hr : Reach (Does (step packedSize n)) ok (initial n) s) {i : Nat} {j : Job}
    (hj : (s.server i).job = some j) (hp : j.phase = .ready) (ho : j.req.origin = none)
    {k : Nat} (hk : k < n) :
    (Answer.mk j.req.id i j.req.msg j.reply j.seen).upTo ≤ (s.server k).applied.length := by
  have hlive : ∀ m, m < n → (s.server m).live = true := fun m hm => (static_live hok hr m).mpr hm
  have hi : i < n := lt_of_job hr hj
  unfold Answer.upTo
  dsimp only
  cases hw : isWriteOp j.req.msg with
  | true =>
    have hzero : i = 0 := head_of_client hok hr (hlive i hi) hj hw ho
    subst hzero
    obtain ⟨es, e, happ, _, hseen, _⟩ := (faithful_of_reach hok hr).own 0 j hj hw
    have hlen : (s.server 0).applied.length = j.seen + 1 := by
      rw [happ, hseen]
      simp
    rw [if_pos rfl, ← hlen]
    rcases Nat.eq_zero_or_pos k with rfl | hpos
    · exact Nat.le_refl _
    · have hagree := (static_agreement hok hr).agree 0 k hpos (abs_live (hlive 0 hi))
        (abs_live (hlive k hk))
      rw [abs_job hj hw] at hagree
      simp only [Relay.AgreeAt, Job.abs, Phase.abs, hp] at hagree
      have hlog := congrArg List.length hagree.1
      simp only [State.abs, Server.abs, List.length_map] at hlog
      exact Nat.le_of_eq hlog
  | false =>
    obtain ⟨hseen, _⟩ := (readsFaithful_of_reach hok hr).job i j hj hw
    have hread := readable_of_reach hok hr (holds_of_job hj) hw
    have hki : k ≤ i := by
      have := hread.1
      omega
    rw [if_neg (by simp), hseen]
    exact length_le_of_le hok hr hki hi

theorem realTime_step (hok : ∀ s a, ok s a → Static packedSize (TailRead n) s a)
    (hr : Reach (Does (step packedSize n)) ok (initial n) s) {a : Action}
    (ht : RealTime n s) (h : step packedSize n s a = some s') : RealTime n s' := by
  have hwf := static_wellformed hok hr
  have hgrow : ∀ k, (s.server k).applied.length ≤ (s'.server k).applied.length :=
    fun k => (applied_extends h k).length_le
  constructor
  · intro y hy
    refine Nat.lt_of_lt_of_le ?_ (nextId_le h)
    rcases ret_source h hy with hy | ⟨i, j, _, hj, _, _, rfl⟩
    · exact ht.fresh y hy
    · exact hwf.numbered.issued i _ (holds_of_job hj)
  · intro x hx k hk
    refine Nat.le_trans ?_ (hgrow k)
    rcases ret_source h hx with hx | ⟨i, j, _, hj, hp, ho, rfl⟩
    · exact ht.everywhere x hx k hk
    · exact upTo_le_of_answer hok hr hj hp ho hk
  · intro k j' hj' x hx
    rcases job_source h hj' with hj | ⟨l, req, rfl, _, rfl, hnew⟩ | ⟨j, hj, hadv⟩
    · have hid := hwf.numbered.issued k _ (holds_of_job hj)
      exact ht.job k j' hj x (answeredBefore_step h hid hx)
    · cases hnew
      obtain ⟨_, hlive, _⟩ := handle_cases h
      exact ht.everywhere x hx.mem k (lt_of_live hr hlive)
    · have hid := hwf.numbered.issued k _ (holds_of_job hj)
      rw [hadv.seen]
      rw [hadv.req] at hx
      exact ht.job k j hj x (answeredBefore_step h hid hx)
  · intro y hy x hx
    rcases ret_source h hy with hy | ⟨i, j, _, hj, _, _, rfl⟩
    · exact ht.ret y hy x (answeredBefore_step h (ht.fresh y hy) hx)
    · have hid := hwf.numbered.issued i _ (holds_of_job hj)
      exact ht.job i j hj x (answeredBefore_step h hid hx)

theorem realTime_of_reach (hok : ∀ s a, ok s a → Static packedSize (TailRead n) s a)
    (h : Reach (Does (step packedSize n)) ok (initial n) s) : RealTime n s := by
  refine h.invariant (I := RealTime n) ⟨?_, ?_, ?_, ?_⟩ ?_
  · intro y hy
    cases hy
  · intro x hx
    cases hx
  · intro i j hj
    cases hj
  · intro y hy
    cases hy
  · intro s a s' hr ht _ hstep
    exact realTime_step hok hr ht hstep

/-! ## The chain is linearizable -/

/-- The servers of a prefix of the chain have applied one sequence and a pending
write, the others the sequence; every list is what the writes make of it; every
answer is that of a single list after a prefix of the writes of the head, a
write being the next one there; and the prefixes respect real time. -/
structure Linearized (n : Nat) (s : State) : Prop where
  lockstep : ∃ (l : List (Relay.Write MessageT)) (w : Option (Relay.Write MessageT)) (m : Nat),
    m ≤ n ∧ ∀ i, i < n →
      (s.server i).applied.map Entry.write = if i < m then l ++ w.toList else l
  lists : ∀ i, i < n → (s.server i).list = execute (s.server i).msgs
  answers : ∀ a, .ret a ∈ s.hist → a.upTo ≤ (s.server 0).applied.length ∧
    a.reply = replyAfter ((s.server 0).msgs.take a.seen) a.msg ∧
    (isWriteOp a.msg = true →
      (s.server 0).applied[a.seen]?.map Entry.write = some ⟨a.id, a.msg⟩)
  called : ∀ a, .ret a ∈ s.hist → ∃ server, .call a.id server a.msg ∈ s.hist
  realTime : ∀ x y, .ret y ∈ s.hist → AnsweredBefore s.hist x y.id → x.upTo ≤ y.seen

/-- **Linearizability** of a chain without failures, for every interleaving of
the requests of any number of clients. -/
theorem linearizable
    (h : Reach (Does (step packedSize n)) (Static packedSize (TailRead n)) (initial n) s) :
    Linearized n s := by
  have hok : ∀ s a, Static packedSize (TailRead n) s a → Static packedSize (TailRead n) s a :=
    fun _ _ ha => ha
  have ht := realTime_of_reach hok h
  constructor
  · exact (static_agreement hok h).lockstep n fun i hi =>
      abs_live ((static_live hok h i).mpr hi)
  · exact fun i _ => list_eq_execute hok h i
  · intro a ha
    cases hw : isWriteOp a.msg with
    | true =>
      obtain ⟨e, he, hwrite, hreply⟩ := (faithful_of_reach hok h).hist a ha hw
      have hmsg : e.msg = a.msg := congrArg Relay.Write.msg hwrite
      have hlt := (List.getElem?_eq_some_iff.mp he).1
      refine ⟨by simpa [Answer.upTo, hw, Nat.succ_le_iff] using hlt, ?_, ?_⟩
      · rw [← hreply, ← hmsg]
        exact reply_eq_replyAfter hok h he
      · intro _
        rw [he, ← hwrite]
        rfl
    | false =>
      obtain ⟨hseen, hreply⟩ := (readsFaithful_of_reach hok h).hist a ha hw
      exact ⟨by simpa [Answer.upTo, hw] using hseen, hreply, fun hc => by cases hc⟩
  · exact (called_of_reach hok h).ret
  · exact fun x y hy hx => ht.ret y hy x hx

/-- A write at the head, then a read of the size at the tail. -/
def writeReadRun : List Action :=
  passPair (addOf 97 2020) ++ [.send 1 rlistSizeRequest, .handle 1 0, .answer 1]

theorem linearizable_writeReadRun : ∃ s,
    Reach (Does (step messageTGetPackedSize 2)) (Static messageTGetPackedSize (TailRead 2))
        (initial 2) s ∧
      s.hist.length = 4 ∧ Linearized 2 s := by
  have hrun : ∃ s, Reach (Does (step messageTGetPackedSize 2))
      (Static messageTGetPackedSize (TailRead 2)) (initial 2) s ∧ s.hist.length = 4 :=
    exists_reach_of_replay writeReadRun _ (by decide)
  obtain ⟨s, hr, hs⟩ := hrun
  exact ⟨s, hr, hs, linearizable hr⟩

end CarChain.Chain
