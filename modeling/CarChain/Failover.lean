import CarChain.Refinement
import CarChain.Wire

/-!
# Crashes

Runs in which servers crash at any step, exchanges fail at any time and
`chain_watcher` runs whenever it likes, seeing the servers then alive.

An answered write is safe (`acknowledged_write_survives`): the reply that is
not `OP_ERROR` came back through every server behind the head.  A write that
was given up is not: the handler that lost its successor refuses the write but
keeps it, and no later run of `chain_watcher` brings it to the servers behind.
So the survivors agree if every handler that gives up finds the write already
behind it (`survivors_agree`), and may differ otherwise
(`survivors_disagree`).
-/

namespace CarChain.Chain
open CarChain.Record CarChain.Message CarChain.CarList CarChain.Skeleton CarChain.Stub
open CarChain.Handler CarChain.Run CarChain.Wire

variable {packedSize : MessageT → Nat} {n : Nat} {s s' : State}

/-- The server ran `invoke` on this write. -/
def Server.HasApplied (sv : Server) (id : Nat) (msg : MessageT) : Prop :=
  ∃ e ∈ sv.applied, e.id = id ∧ e.msg = msg

theorem hasApplied_iff (sv : Server) (id : Nat) (msg : MessageT) :
    sv.HasApplied id msg ↔ ⟨id, msg⟩ ∈ sv.abs.log := by
  simp [Server.HasApplied, Server.abs, Entry.write]

instance (sv : Server) (id : Nat) (msg : MessageT) : Decidable (sv.HasApplied id msg) :=
  inferInstanceAs (Decidable (∃ e ∈ sv.applied, e.id = id ∧ e.msg = msg))

instance (s : State) : (a : Action) → Decidable (StubClients s a)
  | .send i msg =>
    inferInstanceAs (Decidable
      ((StubWrite msg ∧ ∀ k, k < i → (s.server k).live = false) ∨ StubRead msg))
  | .handle _ _ | .skip _ | .forward _ | .forwardFails _ | .receive _ | .receiveFails _
  | .answer _ | .crash _ | .watch _ | .publish _ => isTrue trivial

/-! ## Acknowledged writes -/

/-- A write answered with anything but `OP_ERROR` was applied by every server
alive. -/
theorem applied_of_answered (h : Reach (Does (step packedSize n)) StubClients (initial n) s)
    {a : Answer} (ha : .ret a ∈ s.hist) (hw : isWriteOp a.msg = true)
    (hg : a.reply.opcode ≠ opError) {k : Nat} (hk : (s.server k).live = true) :
    (s.server k).HasApplied a.id a.msg := by
  have hd : Relay.Durable s.abs := durable_of_reach (fun _ _ h => h) h
  have hacked : ⟨a.id, a.msg⟩ ∈ s.abs.acked := by
    refine List.mem_filterMap.mpr ⟨_, ha, ?_⟩
    simp [Event.abs, hw, good, hg]
  exact (hasApplied_iff _ _ _).mpr (hd.acked _ hacked k (Nat.zero_le k) (abs_live hk))

/-- **No acknowledged write is lost.**  From the answer on, every server alive
has the write in what it applied. -/
theorem acknowledged_write_survives
    (h : Reach (Does (step packedSize n)) StubClients (initial n) s) {a : Answer}
    (ha : .ret a ∈ s.hist) (hw : isWriteOp a.msg = true) (hg : a.reply.opcode ≠ opError) :
    (∀ k, (s.server k).live = true → (s.server k).HasApplied a.id a.msg) ∧
      ∀ s', Reach (Does (step packedSize n)) StubClients s s' →
        ∀ k, (s'.server k).live = true → (s'.server k).HasApplied a.id a.msg :=
  ⟨fun _ hk => applied_of_answered h ha hw hg hk, fun _ h' _ hk =>
    applied_of_answered (h.trans h') (mem_hist_of_reach ha h') hw hg hk⟩

/-- The write of the runs below. -/
def sampleAdd : MessageT := rlistAddRequest ⟨2020, 0, 1, some (cString [109, 49]), 1⟩

/-- A write passes a chain of two and is answered. -/
def answeredRun : List Action :=
  [.send 0 sampleAdd, .handle 0 0, .forward 0, .handle 1 0, .skip 1, .answer 1, .receive 0,
    .answer 0]

theorem acknowledged_write_survives_answeredRun : ∃ s a,
    Reach (Does (step messageTGetPackedSize 2)) StubClients (initial 2) s ∧
      .ret a ∈ s.hist ∧ a.msg = sampleAdd ∧
      (∀ k, (s.server k).live = true → (s.server k).HasApplied a.id a.msg) ∧
      ∀ s', Reach (Does (step messageTGetPackedSize 2)) StubClients s s' →
        ∀ k, (s'.server k).live = true → (s'.server k).HasApplied a.id a.msg := by
  have hrun : ∃ s, Reach (Does (step messageTGetPackedSize 2)) StubClients (initial 2) s ∧
      .ret ⟨0, 0, sampleAdd, (invoke sampleAdd listCreate).msg, 0⟩ ∈ s.hist :=
    exists_reach_of_replay answeredRun _ (by decide)
  obtain ⟨s, hr, ha⟩ := hrun
  exact ⟨s, _, hr, ha, rfl, acknowledged_write_survives hr ha (by decide) (by decide)⟩

/-! ## Survivors -/

/-- No live server handles or awaits a request. -/
def Quiet (n : Nat) (s : State) : Prop :=
  ∀ i, i < n → (s.server i).live = true → (s.server i).job.isNone ∧ (s.server i).inbox = []

instance (n : Nat) (s : State) : Decidable (Quiet n s) :=
  inferInstanceAs (Decidable (∀ i, i < n → (s.server i).live = true →
    (s.server i).job.isNone ∧ (s.server i).inbox = []))

/-- Every survivor's `chain_watcher` has run to its end since the last crash. -/
def Settled (n : Nat) (s : State) : Prop :=
  ∀ i, i < n → (s.server i).live = true →
    (s.server i).watched = true ∧ (s.server i).publishing.isNone

instance (n : Nat) (s : State) : Decidable (Settled n s) :=
  inferInstanceAs (Decidable (∀ i, i < n → (s.server i).live = true →
    (s.server i).watched = true ∧ (s.server i).publishing.isNone))

/-- All live servers have applied the same writes in the same order. -/
def SameHistory (n : Nat) (s : State) : Prop :=
  ∀ i, i < n → ∀ k, k < n → (s.server i).live = true ∧ (s.server k).live = true →
    (s.server i).applied.map Entry.write = (s.server k).applied.map Entry.write

instance (n : Nat) (s : State) : Decidable (SameHistory n s) :=
  inferInstanceAs (Decidable (∀ i, i < n → ∀ k, k < n →
    (s.server i).live = true ∧ (s.server k).live = true →
    (s.server i).applied.map Entry.write = (s.server k).applied.map Entry.write))

/-- A handler that gives up on its successor finds its write applied by every
live server behind it. -/
def GivesUpSafely (n : Nat) (s : State) : Action → Prop
  | .forwardFails i | .receiveFails i =>
    ∀ j ∈ (s.server i).job, ∀ k, k < n → i < k → (s.server k).live = true →
      (s.server k).HasApplied j.req.id j.req.msg
  | _ => True

instance (n : Nat) (s : State) : (a : Action) → Decidable (GivesUpSafely n s a)
  | .forwardFails i | .receiveFails i =>
    inferInstanceAs (Decidable (∀ j ∈ (s.server i).job, ∀ k, k < n → i < k →
      (s.server k).live = true → (s.server k).HasApplied j.req.id j.req.msg))
  | .send _ _ | .handle _ _ | .skip _ | .forward _ | .receive _
  | .answer _ | .crash _ | .watch _ | .publish _ => isTrue trivial

theorem noLoss_of_givesUpSafely {a : Action} (hout : ∀ k, n ≤ k → (s.server k).live = false)
    (h : GivesUpSafely n s a) : Relay.NoLoss s.abs (absAct a) := by
  have hgive : ∀ i, (∀ j ∈ (s.server i).job, ∀ k, k < n → i < k →
      (s.server k).live = true → (s.server k).HasApplied j.req.id j.req.msg) →
      Relay.NoLoss s.abs (.giveUp i) := by
    intro i hi j' hj' k hik hk
    have hkn : k < n := by
      by_contra hge
      have hdead : (s.abs.node k).live = false := hout k (Nat.le_of_not_lt hge)
      rw [hdead] at hk
      cases hk
    cases hj : (s.server i).job with
    | none => simp [State.abs, Server.abs, hj, absJob] at hj'
    | some j =>
      simp only [State.abs, Server.abs, hj, absJob] at hj'
      split at hj'
      · cases hj'
        exact (hasApplied_iff _ _ _).mp (hi j hj k hkn hik hk)
      · cases hj'
  cases a with
  | forwardFails i => exact hgive i h
  | receiveFails i => exact hgive i h
  | send i msg => cases hw : isWriteOp msg <;> simp [absAct, hw, Relay.NoLoss]
  | handle _ _ | skip _ | forward _ | receive _ | answer _ | crash _ | watch _ | publish _ =>
    trivial

/-- With nobody busy the logs of the relay are equal. -/
theorem log_eq_of_free (ha : Relay.Agreement s.abs) {i k : Nat} (hik : i < k)
    (hi : (s.server i).live = true) (hk : (s.server k).live = true)
    (hfree : absJob (s.server i).job = none) :
    (s.server i).applied.map Entry.write = (s.server k).applied.map Entry.write := by
  have h := ha.agree i k hik (abs_live hi) (abs_live hk)
  have hjob : (s.abs.node i).job = none := hfree
  rw [hjob] at h
  exact h.1

/-- **Survivors agree** whenever all is quiet, if in the run so far no handler
gave up on a write that a live server behind it lacked. -/
theorem survivors_agree
    (h : Reach (Does (step packedSize n)) (fun s a => StubClients s a ∧ GivesUpSafely n s a)
      (initial n) s) (hq : Quiet n s) : SameHistory n s := by
  have ha : Relay.Agreement s.abs :=
    agreement_of_reach (fun _ _ h => h.1)
      (fun _ _ hr h => noLoss_of_givesUpSafely (fun _ hk => dead_of_le hr hk) h.2) h
  have hfree : ∀ i, i < n → (s.server i).live = true → absJob (s.server i).job = none := by
    intro i hi hl
    rw [Option.isNone_iff_eq_none.mp (hq i hi hl).1]
    rfl
  rintro i hi k hk ⟨hli, hlk⟩
  rcases Nat.lt_trichotomy i k with hik | rfl | hki
  · exact log_eq_of_free ha hik hli hlk (hfree i hi hli)
  · rfl
  · exact (log_eq_of_free ha hki hlk hli (hfree k hk hlk)).symm

/-- The last server dies before the write reaches it, so nobody lacks it. -/
def safeRun : List Action :=
  [.send 0 sampleAdd, .handle 0 0, .forward 0, .handle 1 0, .crash 2, .forwardFails 1, .answer 1,
    .receive 0, .answer 0, .watch 1, .publish 1, .watch 0]

theorem survivors_agree_safeRun : ∃ s,
    Reach (Does (step messageTGetPackedSize 3))
        (fun s a => StubClients s a ∧ GivesUpSafely 3 s a) (initial 3) s ∧
      (Quiet 3 s ∧ (s.server 2).live = false ∧ (s.server 1).HasApplied 0 sampleAdd) ∧
      SameHistory 3 s := by
  have hrun : ∃ s, Reach (Does (step messageTGetPackedSize 3))
      (fun s a => StubClients s a ∧ GivesUpSafely 3 s a) (initial 3) s ∧
      (Quiet 3 s ∧ (s.server 2).live = false ∧ (s.server 1).HasApplied 0 sampleAdd) :=
    exists_reach_of_replay safeRun _ (by decide)
  obtain ⟨s, hr, hq⟩ := hrun
  exact ⟨s, hr, hq, survivors_agree hr hq.1⟩

/-- Writes are valid, and an exchange fails only if its server has died or
`chain_watcher` has closed the connection. -/
def OnlyCrashes (s : State) : Action → Prop
  | .send _ msg => ∀ pd ∈ msg.data, (createFrom pd).isSome = true
  | .forwardFails i | .receiveFails i =>
    ∀ link ∈ (s.server i).successor, link.failed = true ∨ (s.server link.target).live = false
  | _ => True

instance (s : State) : (a : Action) → Decidable (OnlyCrashes s a)
  | .send _ msg => inferInstanceAs (Decidable (∀ pd ∈ msg.data, (createFrom pd).isSome = true))
  | .forwardFails i | .receiveFails i =>
    inferInstanceAs (Decidable (∀ link ∈ (s.server i).successor,
      link.failed = true ∨ (s.server link.target).live = false))
  | .handle _ _ | .skip _ | .forward _ | .receive _ | .answer _ | .crash _ | .watch _
  | .publish _ => isTrue trivial

/-- The middle server dies between applying the write and forwarding it. -/
def lossyRun : List Action :=
  [.send 0 sampleAdd, .handle 0 0, .forward 0, .handle 1 0, .crash 1, .receiveFails 0, .answer 0,
    .watch 0, .publish 0, .watch 2, .publish 2]

/-- The head keeps the write it refused, the new tail never gets it. -/
theorem survivors_disagree :
    ¬ ∀ s, Reach (Does (step messageTGetPackedSize 3))
        (fun s a => StubClients s a ∧ OnlyCrashes s a) (initial 3) s →
      Quiet 3 s → Settled 3 s → SameHistory 3 s := by
  intro hall
  have hrun : ∃ s, Reach (Does (step messageTGetPackedSize 3))
      (fun s a => StubClients s a ∧ OnlyCrashes s a) (initial 3) s ∧
      (Quiet 3 s ∧ Settled 3 s ∧ ¬ SameHistory 3 s) :=
    exists_reach_of_replay lossyRun _ (by decide)
  obtain ⟨s, hr, hq, hset, hno⟩ := hrun
  exact hno (hall s hr hq hset)

end CarChain.Chain
