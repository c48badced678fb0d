import CarChain.Static
import CarChain.Wire

/-!
# Do all servers hold the same cars?

In a chain without failures every server applies the same writes, but an
`OP_DEL` takes the first car of its model, and a listing of year -1 reorders the
list of the one server that answers it.  So the servers hold the same multiset
of cars as long as a server that runs an `OP_DEL` takes the car that those which
ran it before took (`replicas_agree`); one ordered listing between two adds of a
model and its removal is enough to break that (`replicas_disagree`).
-/

namespace CarChain.Chain
open CarChain.Record CarChain.Message CarChain.CarList CarChain.Skeleton CarChain.Stub
open CarChain.Handler CarChain.Run CarChain.Replica CarChain.Trace CarChain.Wire

/-- A server that runs an `OP_DEL` takes the car that the servers which ran it
before took. -/
def SameVictim (n : Nat) (s : State) : Action → Prop
  | .handle i k =>
    ∀ req ∈ (s.server i).inbox[k]?, req.msg.opcode = opDel → ∀ l, l < n →
      ∀ e ∈ (s.server l).applied, e.write = ⟨req.id, req.msg⟩ →
        victim req.msg (s.server i).list = victim req.msg e.before
  | _ => True

instance (n : Nat) (s : State) : (a : Action) → Decidable (SameVictim n s a)
  | .handle i k =>
    inferInstanceAs (Decidable (∀ req ∈ (s.server i).inbox[k]?, req.msg.opcode = opDel →
      ∀ l, l < n → ∀ e ∈ (s.server l).applied, e.write = ⟨req.id, req.msg⟩ →
        victim req.msg (s.server i).list = victim req.msg e.before))
  | .send _ _ | .skip _ | .forward _ | .forwardFails _ | .receive _ | .receiveFails _
  | .answer _ | .crash _ | .watch _ | .publish _ => isTrue trivial

/-- All servers hold the same cars, every field counted. -/
def SameCars (n : Nat) (s : State) : Prop :=
  ∀ i, i < n → ∀ k, k < n → (s.server i).list.head.Perm (s.server k).list.head

/-- Two servers that ran the same `OP_DEL` took the same car. -/
def VictimsAgree (s : State) : Prop :=
  ∀ i k, ∀ e ∈ (s.server i).applied, ∀ e' ∈ (s.server k).applied, e.write = e'.write →
    e.msg.opcode = opDel → victim e.msg e.before = victim e.msg e'.before

variable {packedSize : MessageT → Nat} {n : Nat} {s s' : State}

/-- An entry of the new state is an old one, or the one `handle` made. -/
theorem entry_step {a : Action} {k : Nat} {e : Entry} (h : step packedSize n s a = some s')
    (he : e ∈ (s'.server k).applied) :
    e ∈ (s.server k).applied ∨
      ∃ l req, a = .handle k l ∧ (s.server k).inbox[l]? = some req ∧
        e = ⟨req.id, req.msg, (s.server k).list, (invoke req.msg (s.server k).list).msg⟩ := by
  rcases server_step h k with hs | ⟨l, req, rfl, _, _, hl, rfl⟩ | ⟨_, _, _, happ⟩
  · rw [hs.applied] at he
    exact Or.inl he
  · rw [State.set_self, handled_applied] at he
    split at he
    · rcases List.mem_append.mp he with he | he
      · exact Or.inl he
      · exact Or.inr ⟨l, req, rfl, hl, List.mem_singleton.mp he⟩
    · exact Or.inl he
  · rw [happ] at he
    exact Or.inl he

/-- Servers outside the chain apply nothing. -/
theorem lt_of_applied {ok : State → Action → Prop}
    (h : Reach (Does (step packedSize n)) ok (initial n) s) {k : Nat} {e : Entry}
    (he : e ∈ (s.server k).applied) : k < n := by
  have hinv : (s.server k).applied ≠ [] → k < n := by
    refine h.invariant (I := fun s => (s.server k).applied ≠ [] → k < n)
      (fun hne => absurd rfl hne) ?_
    intro s a s' hr hi _ hstep hne
    rcases server_step hstep k with hs | ⟨_, _, _, hl, _⟩ | ⟨_, _, _, happ⟩
    · rw [hs.applied] at hne
      exact hi hne
    · exact lt_of_live hr hl
    · rw [happ] at hne
      exact hi hne
  exact hinv (List.ne_nil_of_mem he)

theorem victimsAgree_step {a : Action} (hlt : ∀ k e, e ∈ (s.server k).applied → k < n)
    (hv : VictimsAgree s) (hok : SameVictim n s a) (h : step packedSize n s a = some s') :
    VictimsAgree s' := by
  intro i k e he e' he' hw hdel
  rcases entry_step h he with hold | ⟨l, req, rfl, hl, rfl⟩ <;>
    rcases entry_step h he' with hold' | ⟨l', req', ha', hl', rfl⟩
  · exact hv i k e hold e' hold' hw hdel
  · subst ha'
    have hmsg : e.msg = req'.msg := congrArg Relay.Write.msg hw
    rw [hmsg] at hdel ⊢
    exact (hok req' hl' hdel i (hlt i e hold) e hold hw).symm
  · exact hok req hl hdel k (hlt k e' hold') e' hold' hw.symm
  · cases ha'
    rfl

theorem victimsAgree_of_reach {ok : State → Action → Prop}
    (hok : ∀ s a, ok s a → SameVictim n s a)
    (h : Reach (Does (step packedSize n)) ok (initial n) s) : VictimsAgree s := by
  refine h.invariant (I := VictimsAgree) ?_ ?_
  · intro i k e he
    exact absurd he List.not_mem_nil
  · intro s a s' hr hv ha hstep
    exact victimsAgree_step (fun _ _ he => lt_of_applied hr he) hv (hok s a ha) hstep

/-- **Replica agreement**, in every run whose removals take the same car
everywhere. -/
theorem replicas_agree
    (h : Reach (Does (step packedSize n))
      (fun s a => Static packedSize AnyRead s a ∧ SameVictim n s a) (initial n) s)
    (hidle : Idle n s) : SameCars n s := by
  intro i hi k hk
  have hv := victimsAgree_of_reach (fun _ _ ha => ha.2) h
  have hwrites := writes_eq_of_idle (fun _ _ ha => ha.1) h hidle hi hk
  have hshuffled : Shuffled (s.server i).list (s.server k).list := by
    refine Traced.simulate (S := Shuffled)
      (Q := fun e e' => isWriteOp e.msg = true ∧
        (e.msg.opcode = opDel → victim e.msg e.before = victim e.msg e'.before)) Entry.write
      (fun hS hb hb' => (hb.symm.trans hS).trans hb') ?_ (Shuffled.refl _)
      (recorded_of_reach h i).trace (recorded_of_reach h k).trace hwrites ?_
    · rintro e e' hkey ⟨hw, hq⟩ hS
      have hmsg : e.msg = e'.msg := congrArg Relay.Write.msg hkey
      have hs := invoke_shuffled hw hS hq
      unfold Entry.after
      rw [← hmsg]
      exact hs
    · intro e he e' he' hkey
      exact ⟨applied_isWriteOp h e he, hv i k e he e' he' hkey⟩
  exact hshuffled.perm

instance (n : Nat) (s : State) : Decidable (SameCars n s) :=
  inferInstanceAs (Decidable
    (∀ i, i < n → ∀ k, k < n → (s.server i).list.head.Perm (s.server k).list.head))

/-- Two cars of different models, a listing at the tail, and a removal. -/
def distinctRun : List Action :=
  passPair (addOf 97 2020) ++ passPair (addOf 98 2010) ++
    [.send 1 listAll, .handle 1 0, .answer 1] ++
    passPair (rlistRemoveByModelRequest (cString [97]))

/-- Two cars of one model, the newer one first, a listing at the tail, and a removal. -/
def sameModelRun : List Action :=
  passPair (addOf 97 2020) ++ passPair (addOf 97 2010) ++
    [.send 1 listAll, .handle 1 0, .answer 1] ++
    passPair (rlistRemoveByModelRequest (cString [97]))

theorem replicas_agree_distinctRun : ∃ s,
    Reach (Does (step messageTGetPackedSize 2))
        (fun s a => Static messageTGetPackedSize AnyRead s a ∧ SameVictim 2 s a) (initial 2) s ∧
      (Idle 2 s ∧ (s.server 0).list.size = 1) ∧ SameCars 2 s := by
  have hrun : ∃ s, Reach (Does (step messageTGetPackedSize 2))
      (fun s a => Static messageTGetPackedSize AnyRead s a ∧ SameVictim 2 s a) (initial 2) s ∧
      (Idle 2 s ∧ (s.server 0).list.size = 1) :=
    exists_reach_of_replay distinctRun _ (by decide)
  obtain ⟨s, hr, hidle⟩ := hrun
  exact ⟨s, hr, hidle, replicas_agree hr hidle.1⟩

/-- The head removes the newer car, the tail the older one. -/
theorem replicas_disagree :
    ¬ ∀ s, Reach (Does (step messageTGetPackedSize 2)) (Static messageTGetPackedSize AnyRead)
      (initial 2) s → Idle 2 s → SameCars 2 s := by
  intro hall
  have hrun : ∃ s, Reach (Does (step messageTGetPackedSize 2))
      (Static messageTGetPackedSize AnyRead) (initial 2) s ∧ (Idle 2 s ∧ ¬ SameCars 2 s) :=
    exists_reach_of_replay sameModelRun _ (by decide)
  obtain ⟨s, hr, hidle, hno⟩ := hrun
  exact hno (hall s hr hidle)

end CarChain.Chain
