import CarChain.Refinement
import CarChain.Replica
import CarChain.Lib.Trace

/-!
# A chain without failures

Runs in which no server crashes, no exchange fails and nothing is reconfigured:
clients send the writes of the stubs to the first server and reads where
`readable` allows.  Every server then keeps a complete record of its writes
(`Recorded`), and what a handler is about to answer is what `invoke` gave it
(`Faithful`): the refusals of the servers behind it are its own.
-/

namespace CarChain.Chain
open CarChain.Record CarChain.Message CarChain.CarList CarChain.Skeleton CarChain.Stub
open CarChain.Handler CarChain.Run CarChain.Replica CarChain.Trace

/-- A send fails only when the message is too long for a frame. -/
def Static (packedSize : MessageT → Nat) (readable : Nat → MessageT → Prop) (s : State) :
    Action → Prop
  | .send i msg => (StubWrite msg ∧ i = 0) ∨ (StubRead msg ∧ readable i msg)
  | .forwardFails i =>
    ∀ j ∈ (s.server i).job, uint16Max < packedSize (propagateMsg j.req.msg)
  | .receiveFails _ | .crash _ | .watch _ | .publish _ => False
  | .handle _ _ | .skip _ | .forward _ | .receive _ | .answer _ => True

instance (packedSize : MessageT → Nat) (readable : Nat → MessageT → Prop)
    [∀ i msg, Decidable (readable i msg)] (s : State) :
    (a : Action) → Decidable (Static packedSize readable s a)
  | .send i msg =>
    inferInstanceAs (Decidable ((StubWrite msg ∧ i = 0) ∨ (StubRead msg ∧ readable i msg)))
  | .forwardFails i =>
    inferInstanceAs (Decidable
      (∀ j ∈ (s.server i).job, uint16Max < packedSize (propagateMsg j.req.msg)))
  | .receiveFails _ | .crash _ | .watch _ | .publish _ => isFalse id
  | .handle _ _ | .skip _ | .forward _ | .receive _ | .answer _ => isTrue trivial

/-- Reads of every kind at every server. -/
abbrev AnyRead : Nat → MessageT → Prop := fun _ _ => True

/-- No write is in progress: no handler is busy with one. -/
def Idle (n : Nat) (s : State) : Prop :=
  ∀ i, i < n → ∀ j ∈ (s.server i).job, isWriteOp j.req.msg = false

instance (n : Nat) (s : State) : Decidable (Idle n s) :=
  inferInstanceAs (Decidable
    (∀ i, i < n → ∀ j ∈ (s.server i).job, isWriteOp j.req.msg = false))

variable {packedSize : MessageT → Nat} {n : Nat} {readable : Nat → MessageT → Prop}
  {ok : State → Action → Prop} {s s' : State}

theorem static_stubClients {a : Action} (h : Static packedSize readable s a) :
    StubClients s a := by
  cases a with
  | send i msg =>
    rcases h with ⟨hw, rfl⟩ | ⟨hr, _⟩
    · exact Or.inl ⟨hw, fun k hk => absurd hk (Nat.not_lt_zero k)⟩
    · exact Or.inr hr
  | handle _ _ | skip _ | forward _ | forwardFails _ | receive _ | receiveFails _ | answer _
  | crash _ | watch _ | publish _ => trivial

section

variable (hok : ∀ s a, ok s a → Static packedSize readable s a)
  (h : Reach (Does (step packedSize n)) ok (initial n) s)

include hok h

theorem static_wellformed : Wellformed packedSize s :=
  wellformed_of_reach (fun _ _ ha => static_stubClients (hok _ _ ha)) h

theorem static_live (k : Nat) : (s.server k).live = true ↔ k < n := by
  refine h.invariant (I := fun s => (s.server k).live = true ↔ k < n) ?_ ?_
  · simp [initial, initialServer]
  · intro s a s' _ hl ha hstep
    rcases server_step hstep k with hs | ⟨l, req, rfl, _, _, _, rfl⟩ | ⟨rfl, _⟩
    · rw [hs.live]
      exact hl
    · rw [State.set_self]
      exact hl
    · exact absurd (hok _ _ ha) id

/-- Every message a handler sends on fits a frame. -/
theorem static_no_forwardFails {i : Nat} (ha : ok s (.forwardFails i)) {j : Job}
    (hj : (s.server i).job = some j) (hp : j.phase = .invoked) : False := by
  have hwf := static_wellformed hok h
  have hsent := hwf.sent i _ (holds_of_job hj)
  have hw := hsent.isWriteOp_iff.mp (hwf.jobs i j hj (by rw [hp]; simp))
  have hlong := hok _ _ ha j hj
  rw [propagateMsg_of_stubWrite hw] at hlong
  exact absurd hsent.fits (Nat.not_le_of_lt hlong)

end

theorem static_agreement (hok : ∀ s a, ok s a → Static packedSize readable s a)
    (h : Reach (Does (step packedSize n)) ok (initial n) s) : Relay.Agreement s.abs := by
  refine agreement_of_reach (fun _ _ ha => static_stubClients (hok _ _ ha)) ?_ h
  intro s a hr ha
  cases a with
  | send i msg => cases hw : isWriteOp msg <;> simp [absAct, hw, Relay.NoLoss]
  | forwardFails i =>
    intro j hj k hik hk
    cases hjob : (s.server i).job with
    | none => simp [State.abs, Server.abs, hjob, absJob] at hj
    | some j' =>
      have hsent := (static_wellformed hok hr).sent i _ (holds_of_job hjob)
      have hlong := hok _ _ ha j' hjob
      simp only [State.abs, Server.abs, hjob, absJob] at hj
      split at hj
      · rename_i hw
        rw [propagateMsg_of_stubWrite (hsent.isWriteOp_iff.mp hw)] at hlong
        exact absurd hsent.fits (Nat.not_le_of_lt hlong)
      · cases hj
  | receiveFails _ | crash _ | watch _ | publish _ => exact absurd (hok _ _ ha) id
  | handle _ _ | skip _ | forward _ | receive _ | answer _ => trivial

theorem static_durable (hok : ∀ s a, ok s a → Static packedSize readable s a)
    (h : Reach (Does (step packedSize n)) ok (initial n) s) : Relay.Durable s.abs :=
  durable_of_reach (fun _ _ ha => static_stubClients (hok _ _ ha)) h

/-- When no write is in progress all servers have applied the same writes. -/
theorem writes_eq_of_idle {ok : State → Action → Prop} {readable : Nat → MessageT → Prop}
    (hok : ∀ s a, ok s a → Static packedSize readable s a)
    (h : Reach (Does (step packedSize n)) ok (initial n) s) (hidle : Idle n s) {i k : Nat}
    (hi : i < n) (hk : k < n) :
    (s.server i).applied.map Entry.write = (s.server k).applied.map Entry.write := by
  have ha := static_agreement hok h
  have hlive : ∀ m, m < n → (s.server m).live = true := fun m hm => (static_live hok h m).mpr hm
  have hlt : ∀ m m', m < m' → m < n → m' < n →
      (s.server m).applied.map Entry.write = (s.server m').applied.map Entry.write := by
    intro m m' hmm hm hm'
    have hfree : (s.abs.node m).job = none := by
      cases hj : (s.server m).job with
      | none => simp [State.abs, Server.abs, absJob, hj]
      | some j =>
        have hread := hidle m hm j hj
        simp [State.abs, Server.abs, absJob, hj, hread]
    have hagree := ha.agree m m' hmm (abs_live (hlive m hm)) (abs_live (hlive m' hm'))
    rw [hfree] at hagree
    exact hagree.1
  rcases Nat.lt_trichotomy i k with hik | rfl | hki
  · exact hlt i k hik hi hk
  · rfl
  · exact (hlt k i hki hk hi).symm

/-! ## Records -/

/-- The list after the write. -/
def Entry.after (e : Entry) : Cars := (invoke e.msg e.before).list

/-- The entries of a server lead from the empty list to its list, up to what the
reads in between did, and each has the reply of `invoke`. -/
structure Recorded (R : Cars → Cars → Prop) (sv : Server) : Prop where
  trace : Traced Entry.before Entry.after R listCreate sv.applied sv.list
  reply : ∀ e ∈ sv.applied, e.reply = (invoke e.msg e.before).msg

theorem recorded_step {R : Cars → Cars → Prop} (hrefl : ∀ l, R l l)
    (htrans : ∀ {a b c}, R a b → R b c → R a c) {a : Action} {k : Nat}
    (hread : ∀ l req, a = .handle k l → (s.server k).inbox[l]? = some req →
      isWriteOp req.msg = false → R (s.server k).list (invoke req.msg (s.server k).list).list)
    (h : step packedSize n s a = some s') (hk : Recorded R (s.server k)) :
    Recorded R (s'.server k) := by
  rcases server_step h k with hs | ⟨l, req, rfl, _, _, hl, rfl⟩ | ⟨_, _, hlist, happ⟩
  · exact ⟨by rw [hs.list, hs.applied]; exact hk.trace, by rw [hs.applied]; exact hk.reply⟩
  · rw [State.set_self]
    cases hw : isWriteOp req.msg with
    | false =>
      have happ : (handled (s.server k) l req).applied = (s.server k).applied := by
        rw [handled_applied, hw]
        rfl
      refine ⟨?_, ?_⟩
      · have hr := hread l req rfl hl hw
        rw [happ]
        exact hk.trace.disturb htrans hr
      · rw [happ]
        exact hk.reply
    | true =>
      have happ : (handled (s.server k) l req).applied = (s.server k).applied ++
          [⟨req.id, req.msg, (s.server k).list, (invoke req.msg (s.server k).list).msg⟩] := by
        rw [handled_applied, hw]
        rfl
      refine ⟨?_, ?_⟩
      · rw [happ]
        exact .snoc hk.trace (hrefl _)
      · rw [happ]
        intro e he
        rcases List.mem_append.mp he with he | he
        · exact hk.reply e he
        · rw [List.mem_singleton.mp he]
  · exact ⟨by rw [hlist, happ]; exact hk.trace, by rw [happ]; exact hk.reply⟩

theorem recorded_initial {R : Cars → Cars → Prop} (hrefl : ∀ l, R l l) (n k : Nat) :
    Recorded R ((initial n).server k) :=
  ⟨.nil (hrefl _), fun _ he => absurd he List.not_mem_nil⟩

/-- In every run whatever, reads do no more than reorder. -/
theorem recorded_of_reach {ok : State → Action → Prop}
    (h : Reach (Does (step packedSize n)) ok (initial n) s) (k : Nat) :
    Recorded Shuffled (s.server k) := by
  refine h.invariant (I := fun s => Recorded Shuffled (s.server k))
    (recorded_initial Shuffled.refl n k) ?_
  intro s a s' _ hk _ hstep
  exact recorded_step Shuffled.refl Shuffled.trans
    (fun l req _ _ hw => shuffled_of_read hw _) hstep hk

/-- Servers with the same writes, all of the opcodes of a write, have as many
cars of every model. -/
theorem sameModels_of_traced {es es' : List Entry} {b b' : Cars}
    (h : Traced Entry.before Entry.after Shuffled listCreate es b)
    (h' : Traced Entry.before Entry.after Shuffled listCreate es' b')
    (hw : ∀ e ∈ es, isWriteOp e.msg = true) (hk : es.map Entry.write = es'.map Entry.write) :
    SameModels b b' := by
  refine Traced.simulate (S := SameModels) (Q := fun e _ => isWriteOp e.msg = true) Entry.write
    (fun hS hb hb' => hS.shuffled hb hb') ?_ (SameModels.refl _) h h' hk
    (fun e he _ _ _ => hw e he)
  intro e e' hkey hq hS
  have hmsg : e.msg = e'.msg := congrArg Relay.Write.msg hkey
  have hs := (invoke_sameModels hq hS).2
  unfold Entry.after
  rw [← hmsg]
  exact hs

/-- Only writes are recorded. -/
theorem applied_isWriteOp {ok : State → Action → Prop}
    (h : Reach (Does (step packedSize n)) ok (initial n) s) {k : Nat} :
    ∀ e ∈ (s.server k).applied, isWriteOp e.msg = true := by
  refine h.invariant (I := fun s => ∀ e ∈ (s.server k).applied, isWriteOp e.msg = true)
    (fun e he => absurd he List.not_mem_nil) ?_
  intro s a s' _ hk _ hstep
  rcases server_step hstep k with hs | ⟨l, req, rfl, _, _, hl, rfl⟩ | ⟨_, _, _, happ⟩
  · rw [hs.applied]
    exact hk
  · rw [State.set_self, handled_applied]
    split
    · rename_i hw
      intro e he
      rcases List.mem_append.mp he with he | he
      · exact hk e he
      · rw [List.mem_singleton.mp he]
        exact hw
    · exact hk
  · rw [happ]
    exact hk

/-- Entries of the same write, after the same writes, have the same reply. -/
theorem reply_eq_of_traced {es es' rest rest' : List Entry} {e e' : Entry} {sv sv' : Server}
    (h : Recorded Shuffled sv) (h' : Recorded Shuffled sv')
    (hw : ∀ e ∈ sv.applied, isWriteOp e.msg = true) (hs : sv.applied = es ++ e :: rest)
    (hs' : sv'.applied = es' ++ e' :: rest') (hk : es.map Entry.write = es'.map Entry.write)
    (he : e.write = e'.write) : e.reply = e'.reply := by
  have hmem : e ∈ sv.applied := by rw [hs]; simp
  have hmem' : e' ∈ sv'.applied := by rw [hs']; simp
  have ht := h.trace
  have ht' := h'.trace
  rw [hs] at ht
  rw [hs'] at ht'
  have hS : SameModels e.before e'.before := by
    refine sameModels_of_traced ht.upTo ht'.upTo (fun x hx => hw x ?_) hk
    rw [hs]
    exact List.mem_append_left _ hx
  have hmsg : e.msg = e'.msg := congrArg Relay.Write.msg he
  rw [h.reply e hmem, h'.reply e' hmem', ← hmsg]
  exact (invoke_sameModels (hw e hmem) hS).1

/-- Two servers with the same writes gave the same replies to them. -/
theorem entry_match {ok : State → Action → Prop}
    (h : Reach (Does (step packedSize n)) ok (initial n) s) {i k : Nat}
    (hk : (s.server i).applied.map Entry.write = (s.server k).applied.map Entry.write)
    {q : Nat} {e : Entry} (he : (s.server i).applied[q]? = some e) :
    ∃ e', (s.server k).applied[q]? = some e' ∧ e'.write = e.write ∧ e'.reply = e.reply := by
  obtain ⟨hq, rfl⟩ := List.getElem?_eq_some_iff.mp he
  have hlen : (s.server i).applied.length = (s.server k).applied.length := by
    have := congrArg List.length hk
    simpa using this
  have hq' : q < (s.server k).applied.length := hlen ▸ hq
  have hsplit : ∀ (l : List Entry) (hl : q < l.length), l = l.take q ++ l[q] :: l.drop (q + 1) := by
    intro l hl
    rw [← List.drop_eq_getElem_cons hl, List.take_append_drop]
  have hwrite : (s.server i).applied[q].write = (s.server k).applied[q].write := by
    have hget := congrArg (fun l => l[q]?) hk
    simpa [hq, hq'] using hget
  have htake : ((s.server i).applied.take q).map Entry.write =
      ((s.server k).applied.take q).map Entry.write := by
    rw [List.map_take, List.map_take, hk]
  refine ⟨_, List.getElem?_eq_getElem hq', hwrite.symm, ?_⟩
  exact (reply_eq_of_traced (recorded_of_reach h i) (recorded_of_reach h k)
    (applied_isWriteOp h) (hsplit _ hq) (hsplit _ hq') htake hwrite).symm

/-! ## Faithful answers -/

/-- What a handler is about to answer to a write, and what its successor
answered to it, is the reply of its own `invoke`; and so is what clients got. -/
structure Faithful (s : State) : Prop where
  own : ∀ i j, (s.server i).job = some j → isWriteOp j.req.msg = true →
    ∃ es e, (s.server i).applied = es ++ [e] ∧ e.write = ⟨j.req.id, j.req.msg⟩ ∧
      j.seen = es.length ∧ j.reply = e.reply
  resp : ∀ i j t r, (s.server i).job = some j → j.phase = .waiting t (some r) → r = j.reply
  hist : ∀ a, .ret a ∈ s.hist → isWriteOp a.msg = true →
    ∃ e, (s.server 0).applied[a.seen]? = some e ∧ e.write = ⟨a.id, a.msg⟩ ∧ e.reply = a.reply

/-- A reply that already is the successor's stays what it is. -/
theorem afterExchange_self {msg : MessageT} {list : Cars} {reply : MessageT}
    (h : reply = (invoke msg list).msg) : afterExchange reply (.reply reply) = reply := by
  unfold afterExchange
  dsimp only
  split
  · rename_i he
    rw [h] at he ⊢
    rw [invoke_error he]
    rfl
  · rfl

section

variable (hok : ∀ s a, ok s a → Static packedSize readable s a)
  (hr : Reach (Does (step packedSize n)) ok (initial n) s)

include hok hr

/-- Only the first server answers the writes of clients. -/
theorem head_of_client {i : Nat} {j : Job} (hl : (s.server i).live = true)
    (hj : (s.server i).job = some j) (hw : isWriteOp j.req.msg = true)
    (ho : j.req.origin = none) : i = 0 := by
  by_contra hne
  have hhead := ((static_durable hok hr).node i (abs_live hl)).origin _ (abs_job hj hw) ho
  have hdead := hhead 0 (Nat.pos_of_ne_zero hne)
  have hlive : (s.server 0).live = true := by
    rw [static_live hok hr]
    have := (static_live hok hr i).mp hl
    omega
  have : (s.abs.node 0).live = true := hlive
  rw [hdead] at this
  cases this

/-- The successor that answers ends its log where the waiting handler does. -/
theorem log_eq_of_delivered {i k : Nat} {j ji : Job} (hji : (s.server i).job = some ji)
    (hj : (s.server k).job = some j) (hp : j.phase = .waiting i none)
    (hli : (s.server i).live = true) (hlk : (s.server k).live = true)
    (hid : j.req.id = ji.req.id) :
    (s.server k).applied.map Entry.write = (s.server i).applied.map Entry.write := by
  have hwf := static_wellformed hok hr
  have hd := static_durable hok hr
  have ha := static_agreement hok hr
  have hw := hwf.jobs k j hj (by rw [hp]; simp)
  have hmsg := hwf.numbered.same k i j.req ji.req (holds_of_job hj) (holds_of_job hji) hid
  have hwi : isWriteOp ji.req.msg = true := hmsg ▸ hw
  have hphase := (hd.node k (abs_live hlk)).phase _ (abs_job hj hw)
  simp only [Job.abs, Phase.abs, hp] at hphase
  have hki : k < i := hphase.1.1
  have hagree := ha.agree k i hki (abs_live hlk) (abs_live hli)
  rw [abs_job hj hw] at hagree
  have hmem : j.abs.write ∈ (s.abs.node i).log := by
    have hm := hd.mem_log (abs_live hli) (abs_job hji hwi)
    simp only [Job.abs] at hm ⊢
    rw [hid, hmsg]
    exact hm
  exact (hagree.together (ha.tokens k (abs_live hlk)).log_nodup hmem).1

/-- The handler of a write holds the reply its entry records. -/
theorem own_step {a : Action} (hf : Faithful s) (ha : ok s a)
    (h : step packedSize n s a = some s') {k : Nat} {j' : Job}
    (hj' : (s'.server k).job = some j') (hw : isWriteOp j'.req.msg = true) :
    ∃ es e, (s'.server k).applied = es ++ [e] ∧ e.write = ⟨j'.req.id, j'.req.msg⟩ ∧
      j'.seen = es.length ∧ j'.reply = e.reply := by
  rcases job_source h hj' with hj | ⟨l, req, _, _, rfl, hnew⟩ | ⟨j, hj, hadv⟩
  · rw [applied_of_busy h hj]
    exact hf.own k j' hj hw
  · rw [State.set_self]
    cases hnew
    have hw : isWriteOp req.msg = true := hw
    refine ⟨(s.server k).applied,
      ⟨req.id, req.msg, (s.server k).list, (invoke req.msg (s.server k).list).msg⟩,
      ?_, rfl, rfl, by simp⟩
    rw [handled_applied, hw]
    rfl
  · rw [applied_of_busy h hj]
    cases hadv with
    | skip _ => exact hf.own k j hj hw
    | forward t _ => exact hf.own k j hj hw
    | forwardFails hp => exact (static_no_forwardFails hok hr ha hj hp).elim
    | receiveFails _ => exact absurd (hok _ _ ha) id
    | delivered _ _ _ _ _ _ => exact hf.own k j hj hw
    | receive hp =>
      obtain ⟨es, e, happ, he, hseen, hreply⟩ := hf.own k j hj hw
      refine ⟨es, e, happ, he, hseen, ?_⟩
      have hinv := (recorded_of_reach hr k).reply e (by rw [happ]; simp)
      rw [hf.resp k j _ _ hj hp]
      dsimp only
      rw [hreply]
      exact afterExchange_self hinv

/-- The reply that waits in a link is the one its reader holds. -/
theorem resp_step {a : Action} (hf : Faithful s) (h : step packedSize n s a = some s') {k : Nat}
    {j' : Job} {t : Nat} {r : MessageT} (hj' : (s'.server k).job = some j')
    (hp' : j'.phase = .waiting t (some r)) : r = j'.reply := by
  rcases job_source h hj' with hj | ⟨l, req, _, _, _, hnew⟩ | ⟨j, hj, hadv⟩
  · exact hf.resp k j' t r hj hp'
  · cases hnew
    dsimp only at hp'
    split at hp' <;> cases hp'
  · cases hadv with
    | skip _ => cases hp'
    | forward t _ => cases hp'
    | forwardFails _ => cases hp'
    | receive _ => cases hp'
    | receiveFails _ => cases hp'
    | @delivered m ji hji hpi hne ho hid hp =>
      cases hp'
      have hwf := static_wellformed hok hr
      have hlive : ∀ i (j : Job), (s.server i).job = some j → (s.server i).live = true :=
        fun i j hj => (static_live hok hr i).mpr (lt_of_job hr hj)
      have hw := hwf.jobs k j hj (by rw [hp]; simp)
      have hmsg := hwf.numbered.same k t j.req ji.req (holds_of_job hj) (holds_of_job hji) hid
      obtain ⟨es, e, happ, he, _, hreply⟩ := hf.own k j hj hw
      obtain ⟨es', e', happ', he', _, hreply'⟩ := hf.own t ji hji (hmsg ▸ hw)
      have hlog := log_eq_of_delivered hok hr hji hj hp (hlive t ji hji) (hlive k j hj) hid
      rw [happ, happ', List.map_append, List.map_append] at hlog
      obtain ⟨hes, _⟩ := List.append_inj' hlog rfl
      dsimp only
      rw [hreply, hreply']
      refine (reply_eq_of_traced (recorded_of_reach hr k) (recorded_of_reach hr t)
        (applied_isWriteOp hr) happ happ' hes ?_).symm
      rw [he, he', hid, hmsg]

/-- An answer to a write is what the first server's entry records. -/
theorem answered_step {a : Action} (hf : Faithful s) (h : step packedSize n s a = some s')
    {b : Answer} (hb : .ret b ∈ s'.hist) (hw : isWriteOp b.msg = true) :
    ∃ e, (s'.server 0).applied[b.seen]? = some e ∧ e.write = ⟨b.id, b.msg⟩ ∧
      e.reply = b.reply := by
  rcases ret_source h hb with hb | ⟨i, j, _, hj, _, ho, rfl⟩
  · obtain ⟨e, he, hrest⟩ := hf.hist b hb hw
    obtain ⟨t, ht⟩ := applied_extends h 0
    refine ⟨e, ?_, hrest⟩
    rw [← ht, List.getElem?_append_left (List.getElem?_eq_some_iff.mp he).1]
    exact he
  · have hl : (s.server i).live = true := (static_live hok hr i).mpr (lt_of_job hr hj)
    have hi : i = 0 := head_of_client hok hr hl hj hw ho
    subst hi
    obtain ⟨es, e, happ, he, hseen, hreply⟩ := hf.own 0 j hj hw
    refine ⟨e, ?_, he, hreply.symm⟩
    rw [applied_of_busy h hj, happ]
    dsimp only
    rw [hseen]
    simp

theorem faithful_step {a : Action} (hf : Faithful s) (ha : ok s a)
    (h : step packedSize n s a = some s') : Faithful s' where
  own := fun _ _ hj hw => own_step hok hr hf ha h hj hw
  resp := fun _ _ _ _ hj hp => resp_step hok hr hf h hj hp
  hist := fun _ hb hw => answered_step hok hr hf h hb hw

end

theorem faithful_of_reach (hok : ∀ s a, ok s a → Static packedSize readable s a)
    (h : Reach (Does (step packedSize n)) ok (initial n) s) : Faithful s := by
  refine h.invariant (I := Faithful) ⟨?_, ?_, ?_⟩ ?_
  · intro i j hj
    cases hj
  · intro i j t r hj
    cases hj
  · intro a ha
    cases ha
  · intro s a s' hr hf ha hstep
    exact faithful_step hok hr hf ha hstep

/-! ## Pieces of concrete runs -/

/-- A car of year `ano` and model `m`, and its request. -/
def addOf (m : UInt8) (ano : Int) : MessageT :=
  rlistAddRequest ⟨ano, 0, 1, some (cString [m]), 1⟩

/-- Every car of the list, ordered by year. -/
def listAll : MessageT := rlistGetByYearRequest (-1)

/-- A write passes a chain of two. -/
def passPair (w : MessageT) : List Action :=
  [.send 0 w, .handle 0 0, .forward 0, .handle 1 0, .skip 1, .answer 1, .receive 0, .answer 0]

end CarChain.Chain
