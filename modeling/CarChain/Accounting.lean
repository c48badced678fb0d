import CarChain.Static
import CarChain.Wire

/-!
# Accounting of acknowledged writes

Whatever the order of the lists, the reply to a write tells how the number of
cars of each model changed (`invoke_gain`).  In a chain without failures the
head answers one write after the other, and a reply that reports a change fits
the frame its request came in, so what clients were told adds up to what every
server holds (`accounting`).  The chain relies here on the sizes protobuf gives
a message whose enumeration fields change (`SmallEnums`).
-/

namespace CarChain.Chain
open CarChain.Record CarChain.Message CarChain.CarList CarChain.Skeleton CarChain.Stub
open CarChain.Handler CarChain.Run CarChain.Replica CarChain.Trace CarChain.Wire

/-! ## What replies report -/

/-- The cars whose model is selected. -/
def carsOf (sel : Option CString → Bool) (list : Cars) : Nat :=
  list.head.countP fun d => sel d.modelo

/-- An `OP_ADD` of a selected model answered with `OP_ADD + 1`. -/
def reportsAdd (sel : Option CString → Bool) (msg reply : MessageT) : Bool :=
  msg.opcode = opAdd && reply.opcode = opAdd + 1 && msg.data.any fun pd => sel (some pd.modelo)

/-- An `OP_DEL` of a selected model answered with `OP_DEL + 1` and result 0. -/
def reportsRemoval (sel : Option CString → Bool) (msg reply : MessageT) : Bool :=
  msg.opcode = opDel && (reply.opcode = opDel + 1 && reply.result = 0) &&
    msg.models.head?.any fun model => sel (some model)

def gain (sel : Option CString → Bool) (msg reply : MessageT) : Int :=
  (if reportsAdd sel msg reply then 1 else 0) - (if reportsRemoval sel msg reply then 1 else 0)

/-- The adds clients were told of. -/
def ackedAdds (sel : Option CString → Bool) (hist : List Event) : Nat :=
  hist.countP fun
    | .call _ _ _ => false
    | .ret a => reportsAdd sel a.msg a.reply

/-- The removals clients were told of. -/
def ackedRemovals (sel : Option CString → Bool) (hist : List Event) : Nat :=
  hist.countP fun
    | .call _ _ _ => false
    | .ret a => reportsRemoval sel a.msg a.reply

/-- The reply to a write reports what it does to the list. -/
theorem invoke_gain (sel : Option CString → Bool) {msg : MessageT} (hw : isWriteOp msg = true)
    (list : Cars) :
    (carsOf sel (invoke msg list).list : Int) =
      carsOf sel list + gain sel msg (invoke msg list).msg := by
  rcases (isWriteOp_iff msg).mp hw with ho | ho
  · rw [invoke_add ho]
    rcases invokeAdd_cases msg list with hr | ⟨pd, car, hc, hd, hcar, hr⟩
    · rw [hr]
      simp [gain, reportsAdd, reportsRemoval, ho]
    · rw [hr]
      have hmodelo := createFrom_modelo hcar
      simp only [carsOf, listAdd, List.countP_append, List.countP_singleton, hmodelo]
      cases hs : sel (some pd.modelo) <;>
        simp [gain, reportsAdd, reportsRemoval, ho, hd, hs]
  · rw [invoke_del ho]
    rcases invokeDel_cases msg list with hr | ⟨model, rest, hc, hm, hr⟩
    · rw [hr]
      simp [gain, reportsAdd, reportsRemoval, ho]
    · rw [hr]
      rcases listRemoveByModel_cases list model with ⟨hl, _, hres⟩ | ⟨d, left, hd, hp, hl⟩
      · have hne : (listRemoveByModel list model).1 ≠ 0 := by
          rw [hres]
          split <;> decide
        simp [gain, reportsAdd, reportsRemoval, ho, hl, hne]
      · have hcount := hp.countP_eq fun d => sel d.modelo
        rw [List.countP_cons, (firstOfModel_mem hd).2] at hcount
        simp only [carsOf, hl, hcount]
        cases hs : sel (some model) <;>
          simp [gain, reportsAdd, reportsRemoval, ho, hm, hs]

/-- A write keeps the counter of the list in step with its nodes. -/
theorem invoke_size {msg : MessageT} (hw : isWriteOp msg = true) {list : Cars}
    (h : list.size = list.head.length) :
    (invoke msg list).list.size = (invoke msg list).list.head.length := by
  rcases (isWriteOp_iff msg).mp hw with ho | ho
  · rw [invoke_add ho]
    rcases invokeAdd_cases msg list with hr | ⟨pd, car, _, _, _, hr⟩
    · rw [hr]
      exact h
    · rw [hr]
      simp [listAdd, h]
  · rw [invoke_del ho]
    rcases invokeDel_cases msg list with hr | ⟨model, rest, _, _, hr⟩
    · rw [hr]
      exact h
    · rw [hr]
      rcases listRemoveByModel_cases list model with ⟨hl, _, _⟩ | ⟨d, left, _, hp, hl⟩
      · simp only [hl, h]
      · have hlen := hp.length_eq
        simp only [hl, h, hlen, List.length_cons]
        omega

/-- Only writes report a change. -/
theorem gain_of_read (sel : Option CString → Bool) {msg : MessageT}
    (hr : isWriteOp msg = false) (reply : MessageT) : gain sel msg reply = 0 := by
  have hw := (isWriteOp_iff msg).not.mp (by simp [hr])
  rw [not_or] at hw
  have ha : reportsAdd sel msg reply = false := by simp [reportsAdd, hw.1]
  have hd : reportsRemoval sel msg reply = false := by simp [reportsRemoval, hw.2]
  simp [gain, ha, hd]

/-- A reply that reports a change is as long as its request. -/
theorem fits_of_gain {packedSize : MessageT → Nat} (hsmall : SmallEnums packedSize)
    {sel : Option CString → Bool} {msg : MessageT} (hw : StubWrite msg) {list : Cars}
    (hg : gain sel msg (invoke msg list).msg ≠ 0) :
    packedSize (invoke msg list).msg = packedSize msg := by
  cases hw with
  | add car =>
    have ho : (rlistAddRequest car).opcode = opAdd := rfl
    rw [invoke_add ho] at hg ⊢
    rcases invokeAdd_cases (rlistAddRequest car) list with hr | ⟨pd, c, _, _, _, hr⟩
    · rw [hr] at hg
      exact absurd (by simp [gain, reportsAdd, reportsRemoval, rlistAddRequest]) hg
    · rw [hr]
      exact hsmall (rlistAddRequest car) _ _ (show Small opAdd by decide)
        (show Small ctData by decide) (by decide) (by decide)
  | remove model =>
    have ho : (rlistRemoveByModelRequest model).opcode = opDel := rfl
    rw [invoke_del ho] at hg ⊢
    rcases invokeDel_cases (rlistRemoveByModelRequest model) list with hr | ⟨m, rest, _, _, hr⟩
    · rw [hr] at hg
      exact absurd (by simp [gain, reportsAdd, reportsRemoval, rlistRemoveByModelRequest]) hg
    · have hres : (listRemoveByModel list m).1 = 0 := by
        by_contra hne
        rw [hr] at hg
        exact hg (by simp [gain, reportsAdd, reportsRemoval, rlistRemoveByModelRequest, hne])
      rw [hr, hres]
      exact hsmall (rlistRemoveByModelRequest model) _ _ (show Small opDel by decide)
        (show Small ctModel by decide) (by decide) (by decide)

/-! ## Events -/

/-- What one event reports. -/
def eventGain (sel : Option CString → Bool) : Event → Int
  | .call _ _ _ => 0
  | .ret a => gain sel a.msg a.reply

/-- What all of them report. -/
def net (sel : Option CString → Bool) (hist : List Event) : Int :=
  ackedAdds sel hist - ackedRemovals sel hist

theorem net_append (sel : Option CString → Bool) (hist : List Event) (e : Event) :
    net sel (hist ++ [e]) = net sel hist + eventGain sel e := by
  unfold net ackedAdds ackedRemovals
  rw [List.countP_append, List.countP_append, List.countP_singleton, List.countP_singleton]
  cases e with
  | call _ _ _ => simp [eventGain]
  | ret a =>
    simp only [eventGain, gain]
    split <;> split <;> simp <;> omega

def entryGain (sel : Option CString → Bool) (e : Entry) : Int := gain sel e.msg e.reply

/-- What a server has applied, but for the write it is busy with. -/
def settled (sv : Server) : List Entry :=
  if (absJob sv.job).isSome then sv.applied.dropLast else sv.applied

theorem settled_free {sv : Server} (h : absJob sv.job = none) : settled sv = sv.applied := by
  simp [settled, h]

theorem settled_congr {sv sv' : Server} (ha : sv'.applied = sv.applied)
    (hj : (absJob sv'.job).isSome = (absJob sv.job).isSome) : settled sv' = settled sv := by
  simp [settled, ha, hj]

variable {packedSize : MessageT → Nat} {n : Nat} {ok : State → Action → Prop} {s s' : State}
  {readable : Nat → MessageT → Prop}

/-- The write a handler is busy with is the last one its server applied. -/
theorem settled_busy (hf : Faithful s) {i : Nat} {j : Job} (hj : (s.server i).job = some j)
    (hw : isWriteOp j.req.msg = true) :
    ∃ e, (s.server i).applied = settled (s.server i) ++ [e] ∧ e.msg = j.req.msg ∧
      e.reply = j.reply := by
  obtain ⟨es, e, happ, he, _, hreply⟩ := hf.own i j hj hw
  refine ⟨e, ?_, congrArg Relay.Write.msg he, hreply.symm⟩
  simp [settled, absJob, hj, hw, happ]

/-- The answer to a write that would not fit a frame reports nothing. -/
theorem gain_of_long (hsmall : SmallEnums packedSize) {sel : Option CString → Bool}
    {req : Request} (hs : Sent packedSize req) (hw : isWriteOp req.msg = true) {list : Cars}
    (hlong : ¬ packedSize (invoke req.msg list).msg ≤ uint16Max) :
    gain sel req.msg (invoke req.msg list).msg = 0 := by
  by_contra hne
  have hfit := fits_of_gain hsmall (hs.isWriteOp_iff.mp hw) hne
  exact hlong (hfit ▸ hs.fits)

/-- Only an answer of the first server to a write reports anything. -/
theorem net_eq_of_quiet (hok : ∀ s a, ok s a → Static packedSize readable s a)
    (hr : Reach (Does (step packedSize n)) ok (initial n) s) {a : Action}
    (h : step packedSize n s a = some s') (sel : Option CString → Bool)
    (hquiet : a = .answer 0 → ∀ j, (s.server 0).job = some j → isWriteOp j.req.msg = false) :
    net sel s'.hist = net sel s.hist := by
  rcases hist_step h with ⟨hh, _⟩ | ⟨_, _, _, hh, _⟩ | ⟨i, j, rfl, hj, ho, _, hh, _⟩
  · rw [hh]
  · rw [hh, net_append]
    exact Int.add_zero _
  · rw [hh, net_append]
    cases hw : isWriteOp j.req.msg with
    | false => simp [eventGain, gain_of_read sel hw]
    | true =>
      have hl : (s.server i).live = true := (static_live hok hr i).mpr (lt_of_job hr hj)
      have hi : i = 0 := head_of_client hok hr hl hj hw ho
      subst hi
      rw [hquiet rfl j hj] at hw
      cases hw

/-- The first server settles a write by telling the client what it gained. -/
theorem net_of_answer (hsmall : SmallEnums packedSize)
    (hok : ∀ s a, ok s a → Static packedSize readable s a)
    (hr : Reach (Does (step packedSize n)) ok (initial n) s)
    (h : step packedSize n s (.answer 0) = some s') (sel : Option CString → Bool) {j : Job}
    (hj : (s.server 0).job = some j) (hw : isWriteOp j.req.msg = true) :
    net sel s'.hist = net sel s.hist + gain sel j.req.msg j.reply := by
  have ho : j.req.origin = none := by
    cases ho : j.req.origin with
    | none => rfl
    | some p =>
      have hp := origin_lt (fun _ _ ha => static_stubClients (hok _ _ ha)) hr (holds_of_job hj) ho
      exact absurd hp (Nat.not_lt_zero p)
  obtain ⟨j', _, hj', _, hcase⟩ := answer_cases h
  rw [hj] at hj'
  cases hj'
  rcases hcase with ⟨_, _, rfl⟩ | ⟨p, _, ho', _⟩ | ⟨rfl, hlong⟩
  · exact net_append sel s.hist _
  · rw [ho] at ho'
    cases ho'
  · -- the reply did not fit, so the client learns nothing, but there is nothing to learn
    obtain ⟨e, happ, hmsg, hreply⟩ := settled_busy (faithful_of_reach hok hr) hj hw
    have hinv := (recorded_of_reach hr 0).reply e (by rw [happ]; simp)
    rw [hreply, hmsg] at hinv
    have hsent := (static_wellformed hok hr).sent 0 _ (holds_of_job hj)
    have hgain : gain sel j.req.msg j.reply = 0 := by
      rw [hinv]
      refine gain_of_long hsmall hsent hw fun hfit => ?_
      rw [← hinv] at hfit
      exact hlong hfit ho
    rw [hgain, Int.add_zero]
    rfl

/-- **What the head settled is what clients were told.** -/
theorem net_step (hsmall : SmallEnums packedSize)
    (hok : ∀ s a, ok s a → Static packedSize readable s a)
    (hr : Reach (Does (step packedSize n)) ok (initial n) s) {a : Action}
    (h : step packedSize n s a = some s') (sel : Option CString → Bool)
    (hnet : net sel s.hist = ((settled (s.server 0)).map (entryGain sel)).sum) :
    net sel s'.hist = ((settled (s'.server 0)).map (entryGain sel)).sum := by
  rcases job_step h 0 with ⟨hsame, hne⟩ | ⟨l, req, rfl, hnone, _, rfl⟩ | ⟨j, rfl, hj, _, hnone⟩ |
    ⟨j, j', hj, hj', hadv⟩
  · rw [net_eq_of_quiet hok hr h sel fun ha => absurd ha hne, hnet,
      settled_congr (applied_of_same_job h hsame) (by rw [hsame])]
  · have hfree : settled (s.server 0) = (s.server 0).applied :=
      settled_free (by rw [hnone]; rfl)
    have hkeep : settled (handled (s.server 0) l req) = (s.server 0).applied := by
      cases hw : isWriteOp req.msg with
      | false => simp [settled, handled, absJob, hw]
      | true => simp [settled, handled, absJob, hw]
    rw [net_eq_of_quiet hok hr h sel (by simp), hnet, State.set_self, hkeep, hfree]
  · have hfree : settled (s'.server 0) = (s'.server 0).applied :=
      settled_free (by rw [hnone]; rfl)
    rw [hfree, applied_of_busy h hj]
    cases hw : isWriteOp j.req.msg with
    | false =>
      have hset : settled (s.server 0) = (s.server 0).applied :=
        settled_free (by simp [absJob, hj, hw])
      have hread : ∀ j', (s.server 0).job = some j' → isWriteOp j'.req.msg = false := by
        intro j' hj'
        rw [hj] at hj'
        cases hj'
        exact hw
      rw [net_eq_of_quiet hok hr h sel fun _ => hread, hnet, hset]
    | true =>
      obtain ⟨e, happ, hmsg, hreply⟩ := settled_busy (faithful_of_reach hok hr) hj hw
      rw [net_of_answer hsmall hok hr h sel hj hw, hnet, happ, List.map_append, List.sum_append]
      simp [entryGain, hmsg, hreply]
  · have hne : a ≠ .answer 0 := by
      rintro rfl
      cases hadv with
      | delivered _ _ hne _ _ _ => exact absurd rfl hne
    rw [net_eq_of_quiet hok hr h sel fun ha => absurd ha hne, hnet,
      settled_congr (applied_of_busy h hj)
        (by rw [hj, hj', absJob_isSome, absJob_isSome, hadv.req])]

theorem net_of_reach (hsmall : SmallEnums packedSize)
    (hok : ∀ s a, ok s a → Static packedSize readable s a)
    (h : Reach (Does (step packedSize n)) ok (initial n) s) (sel : Option CString → Bool) :
    net sel s.hist = ((settled (s.server 0)).map (entryGain sel)).sum := by
  refine h.invariant (I := fun s =>
    net sel s.hist = ((settled (s.server 0)).map (entryGain sel)).sum) rfl ?_
  intro s a s' hr hnet _ hstep
  exact net_step hsmall hok hr hstep sel hnet

/-! ## What the servers hold -/

/-- The cars of a server are what its own replies add up to. -/
theorem carsOf_of_reach (h : Reach (Does (step packedSize n)) ok (initial n) s)
    (sel : Option CString → Bool) (k : Nat) :
    (carsOf sel (s.server k).list : Int) =
      ((s.server k).applied.map (entryGain sel)).sum := by
  have hrec := recorded_of_reach h k
  have hshuffle : ∀ {b c : Cars}, Shuffled b c → (carsOf sel b : Int) = carsOf sel c := by
    intro b c hbc
    simp only [carsOf, hbc.perm.countP_eq]
  have hgain : ∀ e ∈ (s.server k).applied,
      (carsOf sel e.after : Int) = carsOf sel e.before + entryGain sel e := by
    intro e he
    rw [entryGain, hrec.reply e he]
    exact invoke_gain sel (applied_isWriteOp h e he) e.before
  have htotal := hrec.trace.total (fun l => (carsOf sel l : Int)) (entryGain sel) hshuffle hgain
  rw [htotal]
  exact Int.zero_add _

/-- The counter of a list is the number of its nodes. -/
theorem size_of_reach (h : Reach (Does (step packedSize n)) ok (initial n) s) (k : Nat) :
    (s.server k).list.size = (s.server k).list.head.length := by
  refine (recorded_of_reach h k).trace.invariant (P := fun l => l.size = l.head.length) rfl ?_ ?_
  · intro b c hbc hb
    rw [← hbc.size, ← hbc.perm.length_eq]
    exact hb
  · intro e he hb
    exact invoke_size (applied_isWriteOp h e he) hb

/-- Servers with the same writes report the same changes. -/
theorem entryGain_eq (h : Reach (Does (step packedSize n)) ok (initial n) s) {i k : Nat}
    (hk : (s.server i).applied.map Entry.write = (s.server k).applied.map Entry.write)
    (sel : Option CString → Bool) :
    (s.server i).applied.map (entryGain sel) = (s.server k).applied.map (entryGain sel) := by
  refine List.ext_getElem? fun q => ?_
  rw [List.getElem?_map, List.getElem?_map]
  cases he : (s.server i).applied[q]? with
  | none =>
    have hlen := congrArg List.length hk
    rw [List.length_map, List.length_map] at hlen
    have hq := List.getElem?_eq_none_iff.mp he
    rw [List.getElem?_eq_none_iff.mpr (hlen ▸ hq)]
  | some e =>
    obtain ⟨e', he', hwrite, hreply⟩ := entry_match h hk he
    have hmsg : e'.msg = e.msg := congrArg Relay.Write.msg hwrite
    simp [he', entryGain, hmsg, hreply]

/-- What clients were told accounts for what every server holds. -/
structure Accounted (n : Nat) (s : State) : Prop where
  models : ∀ i, i < n → ∀ model : CString,
    (carsOf (fun m => m = some model) (s.server i).list : Int) =
      ackedAdds (fun m => m = some model) s.hist - ackedRemovals (fun m => m = some model) s.hist
  size : ∀ i, i + 1 = n →
    (invoke rlistSizeRequest (s.server i).list).msg.result =
      ackedAdds (fun _ => true) s.hist - ackedRemovals (fun _ => true) s.hist
  results : ∀ a, .ret a ∈ s.hist → a.msg.opcode = opDel → ∀ i, i < n →
    ∃ e ∈ (s.server i).applied, e.id = a.id ∧ e.msg = a.msg ∧ e.reply = a.reply

/-- **Accounting**: in a chain without failures, whatever reads reorder, the
answers clients got account for the cars of every server whenever no write is
in progress. -/
theorem accounting (hsmall : SmallEnums packedSize)
    (h : Reach (Does (step packedSize n)) (Static packedSize AnyRead) (initial n) s)
    (hidle : Idle n s) : Accounted n s := by
  have hok : ∀ s a, Static packedSize AnyRead s a → Static packedSize AnyRead s a :=
    fun _ _ ha => ha
  have hcount : ∀ sel i, i < n → (carsOf sel (s.server i).list : Int) = net sel s.hist := by
    intro sel i hi
    have hpos : 0 < n := by omega
    have hfree : absJob (s.server 0).job = none := by
      cases hj : (s.server 0).job with
      | none => rfl
      | some j => simp [absJob, hidle 0 hpos j hj]
    have hnet := net_of_reach hsmall hok h sel
    rw [settled_free hfree] at hnet
    rw [hnet, carsOf_of_reach h, entryGain_eq h (writes_eq_of_idle hok h hidle hi hpos)]
  constructor
  · exact fun i hi model => hcount _ i hi
  · intro i hi
    have hall := hcount (fun _ => true) i (by omega)
    have hsize := size_of_reach h i
    simp only [carsOf, List.countP_true] at hall
    rw [net, ← hsize] at hall
    exact hall
  · intro a ha hdel i hi
    have hw : isWriteOp a.msg = true := by simp [isWriteOp, hdel]
    obtain ⟨e, he, hwrite, hreply⟩ := (faithful_of_reach hok h).hist a ha hw
    have heq := writes_eq_of_idle hok h hidle (show 0 < n by omega) hi
    obtain ⟨e', he', hwrite', hreply'⟩ := entry_match h heq he
    have hsame := hwrite'.trans hwrite
    exact ⟨e', List.mem_of_getElem? he', congrArg Relay.Write.id hsame,
      congrArg Relay.Write.msg hsame, hreply'.trans hreply⟩

/-- Two adds, an ordered listing at the tail, a removal and one in vain. -/
def mixedRun : List Action :=
  passPair (addOf 97 2020) ++ passPair (addOf 97 2010) ++
    [.send 1 listAll, .handle 1 0, .answer 1] ++
    passPair (rlistRemoveByModelRequest (cString [97])) ++
    passPair (rlistRemoveByModelRequest (cString [98]))

theorem accounting_mixedRun : ∃ s,
    Reach (Does (step messageTGetPackedSize 2)) (Static messageTGetPackedSize AnyRead)
        (initial 2) s ∧
      (Idle 2 s ∧ ackedAdds (fun _ => true) s.hist = 2 ∧
        ackedRemovals (fun _ => true) s.hist = 1) ∧
      Accounted 2 s := by
  have hrun : ∃ s, Reach (Does (step messageTGetPackedSize 2))
      (Static messageTGetPackedSize AnyRead) (initial 2) s ∧
      (Idle 2 s ∧ ackedAdds (fun _ => true) s.hist = 2 ∧
        ackedRemovals (fun _ => true) s.hist = 1) :=
    exists_reach_of_replay mixedRun _ (by decide)
  obtain ⟨s, hr, hs⟩ := hrun
  exact ⟨s, hr, hs, accounting smallEnums_messageTGetPackedSize hr hs.1⟩

end CarChain.Chain
