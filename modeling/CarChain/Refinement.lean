import CarChain.Requests
import CarChain.Lib.RelayAgreement

/-!
# The chain relays its writes

What the relay pattern keeps of a chain: of every server whether it lives, the
writes it applied, the writes that wait, the write its handler is busy with and
where its two successors point.  In runs of the stubs each step of the chain is
a step of the relay or invisible to it (`refines`).
-/

namespace CarChain.Chain
open CarChain.Message CarChain.CarList CarChain.Skeleton CarChain.Stub CarChain.Handler
open CarChain.Watcher CarChain.Neighbours CarChain.Run

/-! ## The abstraction -/

def good (reply : MessageT) : Bool := reply.opcode ≠ opError

def Entry.write (e : Entry) : Relay.Write MessageT := ⟨e.id, e.msg⟩

def Request.item (req : Request) : Relay.Item MessageT := ⟨req.origin, ⟨req.id, req.msg⟩⟩

def Phase.abs : Phase → Relay.Phase
  | .invoked => .applied
  | .waiting t resp => .sent t (resp.map good)
  | .ready => .done

def Job.abs (j : Job) : Relay.Job MessageT :=
  ⟨⟨j.req.id, j.req.msg⟩, j.req.origin, good j.reply, j.phase.abs⟩

/-- The handler's write; a read is none of the relay's business. -/
def absJob : Option Job → Option (Relay.Job MessageT)
  | none => none
  | some j => if isWriteOp j.req.msg then some j.abs else none

theorem absJob_isSome (j : Job) : (absJob (some j)).isSome = isWriteOp j.req.msg := by
  cases hw : isWriteOp j.req.msg <;> simp [absJob, hw]

def absQueue (inbox : List Request) : Multiset (Relay.Item MessageT) :=
  ((inbox.filter fun req => isWriteOp req.msg).map Request.item : List _)

def Server.abs (sv : Server) : Relay.Node MessageT where
  live := sv.live
  log := sv.applied.map Entry.write
  queue := absQueue sv.inbox
  job := absJob sv.job
  next := sv.successor.map Link.target
  staged := sv.publishing.map (Option.map Link.target)

def Event.abs : Event → Option (Relay.Write MessageT)
  | .call _ _ _ => none
  | .ret a => if isWriteOp a.msg && good a.reply then some ⟨a.id, a.msg⟩ else none

def State.abs (s : State) : Relay.Line MessageT :=
  ⟨fun i => (s.server i).abs, s.nextId, s.hist.filterMap Event.abs⟩

def absAct : Action → Relay.Act
  | .send i msg => if isWriteOp msg then .submit i else .tick
  | .handle i _ => .take i
  | .skip i => .skip i
  | .forward i => .forward i
  | .forwardFails i => .giveUp i
  | .receive i => .receive i
  | .receiveFails i => .giveUp i
  | .answer i => .answer i
  | .crash i => .crash i
  | .watch i => .view i
  | .publish i => .install i

variable {packedSize : MessageT → Nat} {n : Nat} {s s' : State}

theorem abs_set (s : State) (i : Nat) (sv : Server) : (s.set i sv).abs = s.abs.set i sv.abs := by
  unfold State.abs Relay.Line.set
  congr 1
  funext k
  by_cases hk : k = i
  · subst hk
    simp
  · simp [hk]

theorem abs_setJob (s : State) (i : Nat) (j : Option Job) :
    (s.setJob i j).abs = s.abs.setJob i (absJob j) := by
  rw [State.setJob, abs_set]
  rfl

/-- A server that changed nothing the relay knows of. -/
theorem abs_set_same {i : Nat} {sv : Server} (h : sv.abs = (s.server i).abs) :
    (s.set i sv).abs = s.abs := by
  rw [abs_set, h]
  unfold Relay.Line.set
  congr 1
  exact Function.update_eq_self i _

theorem absQueue_perm {l l' : List Request} (h : l.Perm l') : absQueue l = absQueue l' :=
  Multiset.coe_eq_coe.mpr ((h.filter _).map _)

theorem absQueue_cons {req : Request} (inbox : List Request) (hw : isWriteOp req.msg = true) :
    absQueue (req :: inbox) = req.item ::ₘ absQueue inbox := by simp [absQueue, hw]

theorem absQueue_cons_read {req : Request} (inbox : List Request)
    (hw : isWriteOp req.msg = false) : absQueue (req :: inbox) = absQueue inbox := by
  simp [absQueue, hw]

theorem absQueue_append (inbox : List Request) (req : Request) :
    absQueue (inbox ++ [req]) = absQueue (req :: inbox) :=
  absQueue_perm (List.perm_append_singleton req inbox)

theorem absQueue_eraseIdx {inbox : List Request} {k : Nat} {req : Request}
    (hk : inbox[k]? = some req) : absQueue inbox = absQueue (req :: inbox.eraseIdx k) := by
  obtain ⟨hlt, rfl⟩ := List.getElem?_eq_some_iff.mp hk
  exact absQueue_perm (List.getElem_cons_eraseIdx_perm hlt).symm

theorem abs_push (s : State) (i : Nat) (req : Request) (hw : isWriteOp req.msg = true) :
    (s.push i req).abs = s.abs.push i req.item := by
  rw [State.push, abs_set]
  unfold Relay.Line.push
  congr 1
  simp only [Server.abs, State.abs, absQueue_append, absQueue_cons _ hw]

theorem abs_push_read (s : State) (i : Nat) (req : Request) (hw : isWriteOp req.msg = false) :
    (s.push i req).abs = s.abs := by
  refine abs_set_same ?_
  simp only [Server.abs, absQueue_append, absQueue_cons_read _ hw]

theorem abs_job {i : Nat} {j : Job} (hj : (s.server i).job = some j)
    (hw : isWriteOp j.req.msg = true) : (s.abs.node i).job = some j.abs := by
  simp [State.abs, Server.abs, absJob, hj, hw]

theorem abs_issue (s : State) : s.issue.abs = s.abs.issue := rfl

theorem abs_call (s : State) (id i : Nat) (msg : MessageT) :
    (s.record (.call id i msg)).abs = s.abs := by
  simp [State.abs, State.record, List.filterMap_append, Event.abs]

theorem abs_ret (s : State) (a : Answer) :
    (s.record (.ret a)).abs =
      { s.abs with acked := s.abs.acked ++ (Event.abs (.ret a)).toList } := by
  cases ha : Event.abs (.ret a) <;> simp [State.abs, State.record, List.filterMap_append, ha]

theorem abs_live {i : Nat} (h : (s.server i).live = true) : (s.abs.node i).live = true := h

/-! ## What `chain_watcher` sees -/

theorem mem_children {k : Nat} : k ∈ children n s ↔ k < n ∧ (s.server k).live = true := by
  simp [children]

theorem children_nodup : (children n s).Nodup := List.Nodup.filter _ List.nodup_range

/-- What a run publishes skips no live server. -/
theorem skips_of_watcherRun {i : Nat} {conn : Option Link} (hi : i < n)
    (hl : (s.server i).live = true) (hout : ∀ k, n ≤ k → (s.server k).live = false)
    (h : (watcherRun n s i).setSuccessor = some conn) :
    Relay.Skips s.abs i (conn.map Link.target) := by
  have hmem : i ∈ children n s := mem_children.mpr ⟨hi, hl⟩
  have hchild : ∀ k, (s.server k).live = true → k ∈ children n s := by
    intro k hk
    refine mem_children.mpr ⟨?_, hk⟩
    by_contra hge
    rw [hout k (Nat.le_of_not_lt hge)] at hk
    cases hk
  unfold watcherRun chainWatcher at h
  cases hp : place i (children n s) with
  | notFound => exact absurd hp (place_ne_notFound hmem)
  | tail =>
    simp only [hp, Option.some.injEq] at h
    subst h
    have hg := (place_eq_tail children_nodup hmem).mp hp
    intro k hik
    cases hk : (s.server k).live with
    | false => exact hk
    | true => exact absurd (hg.2 (hchild k hk)) (Nat.not_le_of_lt hik)
  | hasSuccessor next =>
    have hnext := (place_eq_hasSuccessor children_nodup hmem).mp hp
    simp only [hp] at h
    split at h
    · cases h
    · simp only [Option.some.injEq] at h
      subst h
      refine ⟨hnext.lt, fun k hik hkn => ?_⟩
      cases hk : (s.server k).live with
      | false => exact hk
      | true => exact absurd (hnext.le (hchild k hk) hik) (Nat.not_le_of_lt hkn)

/-! ## Every step is one of the relay -/

theorem good_afterExchange (reply resp : MessageT) :
    good (afterExchange reply (.reply resp)) = (good reply && good resp) := by
  have h := afterExchange_reply_ok reply resp
  rw [Bool.eq_iff_iff, Bool.and_eq_true]
  simpa [good] using h

theorem refines_send {i : Nat} {msg : MessageT} (hok : StubClients s (.send i msg))
    (h : send packedSize s i msg = some s') :
    Relay.Step s.abs (absAct (.send i msg)) s'.abs := by
  obtain ⟨hl, _, rfl⟩ := send_cases h
  rw [abs_issue, abs_call]
  rcases hok with ⟨hw, hhead⟩ | hr
  · have hw' := isWriteOp_of_stubWrite hw
    rw [abs_push _ _ _ hw']
    simp only [absAct, hw', ↓reduceIte]
    exact Relay.Step.submit msg (abs_live hl) hhead
  · have hr' := isWriteOp_of_stubRead hr
    rw [abs_push_read _ _ _ hr']
    simp only [absAct, hr', Bool.false_eq_true, ↓reduceIte]
    exact Relay.Step.tick

theorem refines_handle {i k : Nat} (h : handle s i k = some s') :
    s'.abs = s.abs ∨ Relay.Step s.abs (.take i) s'.abs := by
  obtain ⟨req, hl, hj, hk, rfl⟩ := handle_cases h
  have hq := absQueue_eraseIdx hk
  cases hw : isWriteOp req.msg with
  | false =>
    refine Or.inl (abs_set_same ?_)
    rw [absQueue_cons_read _ hw] at hq
    simp [Server.abs, handled, hw, hj, absJob, hq]
  | true =>
    refine Or.inr ?_
    rw [absQueue_cons _ hw] at hq
    have hjob : (s.abs.node i).job = none := by simp [State.abs, Server.abs, hj, absJob]
    rw [abs_set]
    have hstep := Relay.Step.take (good (invoke req.msg (s.server i).list).msg) (abs_live hl)
      hjob hq
    have hnode : (handled (s.server i) k req).abs = { s.abs.node i with
        log := (s.abs.node i).log ++ [req.item.write]
        queue := absQueue ((s.server i).inbox.eraseIdx k)
        job := some ⟨req.item.write, req.item.origin,
          good (invoke req.msg (s.server i).list).msg, .applied⟩ } := by
      simp [Server.abs, State.abs, handled, hw, absJob, Job.abs, Phase.abs, Entry.write,
        Request.item]
    rw [hnode]
    exact hstep

theorem refines_skip {i : Nat} (hw : WriteJobs s) (h : skip s i = some s') :
    Relay.Step s.abs (.skip i) s'.abs := by
  obtain ⟨j, hl, hj, hs, hp, rfl⟩ := skip_cases h
  have hjw := hw i j hj (by rw [hp]; simp)
  have hstep := Relay.Step.skip (abs_live hl) (abs_job hj hjw) (by simp [Job.abs, Phase.abs, hp])
    (by simp [State.abs, Server.abs, hs])
  rw [abs_setJob]
  simpa [absJob, hjw, Job.abs, Phase.abs] using hstep

theorem refines_forward {i : Nat} (hs : AllSent packedSize s) (hw : WriteJobs s)
    (h : forward packedSize s i = some s') : Relay.Step s.abs (.forward i) s'.abs := by
  obtain ⟨j, link, hl, hj, hsucc, hp, _, _, rfl⟩ := forward_cases h
  have hjw := hw i j hj (by rw [hp]; simp)
  have hsw := ((hs i _ (holds_of_job hj)).isWriteOp_iff).mp hjw
  rw [propagateMsg_of_stubWrite hsw, abs_push _ _ ⟨j.req.id, some i, j.req.msg⟩ hjw, abs_setJob]
  have hstep := Relay.Step.forward (t := link.target) (abs_live hl) (abs_job hj hjw)
    (by simp [Job.abs, Phase.abs, hp]) (by simp [State.abs, Server.abs, hsucc])
  simpa [absJob, hjw, Job.abs, Phase.abs, Request.item] using hstep

/-- A handler that stops waiting answers with a refusal. -/
theorem refines_giveUp {i : Nat} {j : Job} {succ : Option Link} (hl : (s.server i).live = true)
    (hj : (s.server i).job = some j) (hjw : isWriteOp j.req.msg = true)
    (hp : j.phase ≠ .ready)
    (hsucc : succ.map Link.target = (s.server i).successor.map Link.target) :
    Relay.Step s.abs (.giveUp i) (s.set i { s.server i with
      job := some { j with reply := replyError j.reply, phase := .ready }
      successor := succ }).abs := by
  have hstep := Relay.Step.giveUp (abs_live hl) (abs_job hj hjw) (by
    unfold Job.abs Phase.abs
    cases hph : j.phase <;> simp_all)
  have hnode : Server.abs { s.server i with
      job := some { j with reply := replyError j.reply, phase := .ready }
      successor := succ } =
      { s.abs.node i with job := some { j.abs with good := false, phase := .done } } := by
    simp [Server.abs, State.abs, absJob, hjw, Job.abs, Phase.abs, hsucc, good]
  rw [abs_set, hnode]
  exact hstep

theorem refines_receive {i : Nat} (hw : WriteJobs s) (h : receive s i = some s') :
    Relay.Step s.abs (.receive i) s'.abs := by
  obtain ⟨j, t, resp, hl, hj, hp, rfl⟩ := receive_cases h
  have hjw := hw i j hj (by rw [hp]; simp)
  have hstep := Relay.Step.receive (t := t) (r := good resp) (abs_live hl) (abs_job hj hjw)
    (by simp [Job.abs, Phase.abs, hp])
  rw [abs_setJob]
  simpa [absJob, hjw, Job.abs, Phase.abs, good_afterExchange] using hstep

theorem refines_answer {i : Nat} (hwf : Wellformed packedSize s)
    (h : answer packedSize s i = some s') :
    s'.abs = s.abs ∨ Relay.Step s.abs (.answer i) s'.abs := by
  obtain ⟨j, hl, hj, hp, hcase⟩ := answer_cases h
  have hread : isWriteOp j.req.msg = false → (s.setJob i none).abs = s.abs := by
    intro hw
    exact abs_set_same (by simp [Server.abs, absJob, hj, hw])
  have hphase : j.abs.phase = .done := by simp [Job.abs, Phase.abs, hp]
  rcases hcase with ⟨_, ho, rfl⟩ | ⟨p, jp, ho, hpi, hjp, hpp, hid, rfl⟩ | ⟨rfl, _⟩
  · rw [abs_ret]
    cases hw : isWriteOp j.req.msg with
    | false =>
      refine Or.inl ?_
      rw [hread hw]
      simp [Event.abs, hw]
    | true =>
      refine Or.inr ?_
      have hstep := Relay.Step.answerClient (abs_live hl) (abs_job hj hw) hphase ho
      rw [abs_setJob]
      have hack : { s.abs.setJob i none with
          acked := (s.abs.setJob i none).acked ++
            (Event.abs (.ret ⟨j.req.id, i, j.req.msg, j.reply, j.seen⟩)).toList } =
          (s.abs.setJob i none).ack j.abs := by
        unfold Relay.Line.ack
        cases hg : good j.reply <;> simp [Event.abs, hw, hg, Job.abs]
      exact hack ▸ hstep
  · have hjpw := hwf.jobs p jp hjp (by rw [hpp]; simp)
    have hsame := hwf.numbered.same p i jp.req j.req (holds_of_job hjp) (holds_of_job hj) hid
    have hw : isWriteOp j.req.msg = true := hsame ▸ hjpw
    refine Or.inr ?_
    have hstep := Relay.Step.answerNode (abs_live hl) (abs_job hj hw) hphase hpi
      (abs_job hjp hjpw) (by simp [Job.abs, Phase.abs, hpp])
      (by simp [Job.abs, hid, hsame])
    rw [abs_setJob, abs_setJob]
    simpa [absJob, hjpw, Job.abs, Phase.abs] using hstep
  · cases hw : isWriteOp j.req.msg with
    | false => exact Or.inl (hread hw)
    | true =>
      refine Or.inr ?_
      rw [abs_setJob]
      exact Relay.Step.answerLost (abs_live hl) (abs_job hj hw) hphase

theorem refines_crash {i : Nat} (h : crash s i = some s') :
    Relay.Step s.abs (.crash i) s'.abs := by
  obtain ⟨_, rfl⟩ := crash_cases h
  have habs : State.abs { s with server := fun k =>
      { s.server k with watched := false, live := (s.server k).live && (k ≠ i : Bool) } } =
      s.abs.set i { s.abs.node i with live := false } := by
    unfold State.abs Relay.Line.set
    congr 1
    funext k
    by_cases hk : k = i
    · subst hk
      simp [Server.abs]
    · simp [Server.abs, hk]
  rw [habs]
  exact Relay.Step.crash

theorem refines_watch {i : Nat} (hout : ∀ k, n ≤ k → (s.server k).live = false)
    (h : watch n s i = some s') : s'.abs = s.abs ∨ Relay.Step s.abs (.view i) s'.abs := by
  obtain ⟨hl, hpub, ⟨_, rfl⟩ | ⟨conn, hset, rfl⟩⟩ := watch_cases h
  · exact Or.inl (abs_set_same rfl)
  · refine Or.inr ?_
    have hi : i < n := by
      by_contra hge
      rw [hout i (Nat.le_of_not_lt hge)] at hl
      cases hl
    have hstep := Relay.Step.view (abs_live hl) (skips_of_watcherRun hi hl hout hset)
    rw [abs_set]
    have hnode : Server.abs { s.server i with
        watcher := (watcherRun n s i).state
        publishing := some conn
        successor := (s.server i).successor.map ({ · with failed := true })
        watched := true } =
        { s.abs.node i with staged := some (conn.map Link.target) } := by
      simp [Server.abs, State.abs, Function.comp_def]
    rw [hnode]
    exact hstep

theorem refines_publish {i : Nat} (h : publish s i = some s') :
    Relay.Step s.abs (.install i) s'.abs := by
  obtain ⟨conn, hl, hpub, _, rfl⟩ := publish_cases h
  have hstep := Relay.Step.install (v := conn.map Link.target) (abs_live hl)
    (by simp [State.abs, Server.abs, hpub])
  rw [abs_set]
  exact hstep

/-- **Refinement.**  A step of the chain is the step of the relay that
`absAct` names, or the relay does not see it. -/
theorem refines {a : Action} (hwf : Wellformed packedSize s)
    (hout : ∀ k, n ≤ k → (s.server k).live = false) (hok : StubClients s a)
    (h : step packedSize n s a = some s') :
    s'.abs = s.abs ∨ Relay.Step s.abs (absAct a) s'.abs := by
  cases a with
  | send i msg => exact Or.inr (refines_send hok h)
  | handle i k => exact refines_handle h
  | skip i => exact Or.inr (refines_skip hwf.jobs h)
  | forward i => exact Or.inr (refines_forward hwf.sent hwf.jobs h)
  | forwardFails i =>
    obtain ⟨j, link, hl, hj, hs, hp, rfl⟩ := forwardFails_cases h
    have hph : j.phase ≠ .ready := by rw [hp]; simp
    exact Or.inr (refines_giveUp hl hj (hwf.jobs i j hj hph) hph (by simp [hs]))
  | receive i => exact Or.inr (refines_receive hwf.jobs h)
  | receiveFails i =>
    obtain ⟨j, t, resp, hl, hj, hp, rfl⟩ := receiveFails_cases h
    have hph : j.phase ≠ .ready := by rw [hp]; simp
    exact Or.inr (refines_giveUp hl hj (hwf.jobs i j hj hph) hph (by simp [Function.comp_def]))
  | answer i => exact refines_answer hwf h
  | crash i => exact Or.inr (refines_crash h)
  | watch i => exact refines_watch hout h
  | publish i => exact Or.inr (refines_publish h)

/-! ## What the relay tells about runs -/

/-- Every server of a fresh chain names the next one, the last one none. -/
theorem fresh_initial (n : Nat) : Relay.Fresh (initial n).abs where
  log := fun _ => rfl
  queue := fun _ => rfl
  job := fun _ => rfl
  staged := fun _ => rfl
  acked := rfl
  next := by
    intro i _
    by_cases hi : i + 1 < n
    · have hnext : ((initial n).abs.node i).next = some (i + 1) := by
        simp [State.abs, Server.abs, initial, initialServer, hi]
      rw [hnext]
      exact ⟨Nat.lt_succ_self i, fun k hik hk => by omega⟩
    · have hnext : ((initial n).abs.node i).next = none := by
        simp [State.abs, Server.abs, initial, initialServer, hi]
      rw [hnext]
      intro k hik
      have : ¬ k < n := by omega
      simp [State.abs, Server.abs, initial, initialServer, this]

theorem reach_abs {ok : State → Action → Prop} {ok' : Relay.Line MessageT → Relay.Act → Prop}
    (hok : ∀ s a, ok s a → StubClients s a)
    (hok' : ∀ s a, Reach (Does (step packedSize n)) ok (initial n) s → ok s a →
      ok' s.abs (absAct a))
    (h : Reach (Does (step packedSize n)) ok (initial n) s) :
    Reach Relay.Step ok' (initial n).abs s.abs := by
  refine h.simulate State.abs fun s a s' hr ha hstep => ?_
  have hout : ∀ k, n ≤ k → (s.server k).live = false := fun k hk => dead_of_le hr hk
  rcases refines (wellformed_of_reach hok hr) hout (hok s a ha) hstep with he | hs
  · exact Or.inl he
  · exact Or.inr ⟨absAct a, hok' s a hr ha, hs⟩

/-- Acknowledged writes are durable in every run of the stubs. -/
theorem durable_of_reach {ok : State → Action → Prop} (hok : ∀ s a, ok s a → StubClients s a)
    (h : Reach (Does (step packedSize n)) ok (initial n) s) : Relay.Durable s.abs := by
  have hr : Reach Relay.Step (fun _ _ => True) (initial n).abs s.abs :=
    reach_abs hok (fun _ _ _ _ => trivial) h
  exact Relay.durable (fresh_initial n) hr

/-- A forwarded request comes from a server in front. -/
theorem origin_lt {ok : State → Action → Prop} (hok : ∀ s a, ok s a → StubClients s a)
    (h : Reach (Does (step packedSize n)) ok (initial n) s) {k p : Nat} {req : Request}
    (hreq : (s.server k).Holds req) (ho : req.origin = some p) : p < k := by
  have hinv : ∀ k p req, (s.server k).Holds req → req.origin = some p → p < k := by
    refine h.invariant (I := fun s => ∀ k p req, (s.server k).Holds req →
      req.origin = some p → p < k) ?_ ?_
    · rintro k p req (hreq | ⟨_, hj, _⟩)
      · exact absurd hreq List.not_mem_nil
      · cases hj
    · intro s a s' hr hi _ hstep k p req hreq ho
      rcases holds_step hstep hreq with hold | ⟨msg, rfl, _, rfl⟩ |
        ⟨i, j, link, rfl, hl, _, hs, rfl, _, rfl⟩
      · exact hi k p req hold ho
      · cases ho
      · cases ho
        have hskip := ((durable_of_reach hok hr).node p (abs_live hl)).next
        have hnext : (s.abs.node p).next = some link.target := by
          simp [State.abs, Server.abs, hs]
        rw [hnext] at hskip
        exact hskip.1
  exact hinv k p req hreq ho

/-- The logs agree in every run of the stubs that loses no write. -/
theorem agreement_of_reach {ok : State → Action → Prop}
    (hok : ∀ s a, ok s a → StubClients s a)
    (hloss : ∀ s a, Reach (Does (step packedSize n)) ok (initial n) s → ok s a →
      Relay.NoLoss s.abs (absAct a))
    (h : Reach (Does (step packedSize n)) ok (initial n) s) : Relay.Agreement s.abs := by
  have hr : Reach Relay.Step Relay.NoLoss (initial n).abs s.abs := reach_abs hok hloss h
  exact Relay.agreement (fun _ _ h => h) (fresh_initial n) hr

end CarChain.Chain
