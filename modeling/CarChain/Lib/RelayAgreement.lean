import CarChain.Lib.Relay
import Mathlib.Data.Multiset.UnionInter
import Mathlib.Data.List.Nodup
import Mathlib.Algebra.Order.Group.Multiset

/-!
# Agreement along a line

The second result about the relay pattern: while no node gives up on a write
that a live node behind it still lacks (`NoLoss`), the logs of any two live
nodes are equal or the front one is one write ahead, and which of the two it is
can be read off the job of the front node (`AgreeAt`).  For live nodes only
(`Agreement.lockstep`) this says: one sequence, and at most one pending write
that a prefix of the line has applied.
-/

namespace CarChain.Relay
open CarChain.Run

variable {M : Type}

/-- The front node and the back node hold the same log, and nothing waits. -/
def Together (front back : List (Write M)) (waiting : Multiset (Item M)) : Prop :=
  front = back ∧ waiting = 0

/-- The front node is ahead by `w`, which is what waits at the back, if anything. -/
def Ahead (w : Write M) (front back : List (Write M)) (waiting : Multiset (Item M)) : Prop :=
  front = back ++ [w] ∧ (waiting = 0 ∨ ∃ o, waiting = {⟨o, w⟩})

/-- How the log of a node compares with the log and the queue of a node behind
it, by the job of the front node. -/
def AgreeAt (job : Option (Job M)) (front back : List (Write M))
    (waiting : Multiset (Item M)) : Prop :=
  match job with
  | none => Together front back waiting
  | some j =>
    match j.phase with
    | .applied => front = back ++ [j.write] ∧ waiting = 0
    | .sent _ none => Together front back waiting ∨ Ahead j.write front back waiting
    | .sent _ (some _) => Together front back waiting
    | .done => Together front back waiting

/-- Every write reached the node at most once and has a number already issued. -/
structure Tokens (issued : Nat) (nd : Node M) : Prop where
  nodup : ((nd.log : Multiset (Write M)) + nd.queue.map Item.write).Nodup
  issued : ∀ w ∈ (nd.log : Multiset (Write M)) + nd.queue.map Item.write, w.id < issued

structure Agreement (s : Line M) : Prop where
  tokens : ∀ i, (s.node i).live = true → Tokens s.issued (s.node i)
  agree : ∀ i k, i < k → (s.node i).live = true → (s.node k).live = true →
    AgreeAt (s.node i).job (s.node i).log (s.node k).log (s.node k).queue

/-- A node that gives up leaves no live node behind it without the write. -/
def NoLoss (s : Line M) : Act → Prop
  | .giveUp i => ∀ j, (s.node i).job = some j → ∀ k, i < k → (s.node k).live = true →
      j.write ∈ (s.node k).log
  | _ => True

/-! ## Pairs of nodes -/

theorem Tokens.log_nodup {issued : Nat} {nd : Node M} (h : Tokens issued nd) : nd.log.Nodup :=
  Multiset.coe_nodup.mp (Multiset.nodup_of_le (Multiset.le_add_right _ _) h.nodup)

/-- In a log without repetition the front node is not ahead by what the back has. -/
theorem not_ahead {w : Write M} {front back : List (Write M)} (hn : front.Nodup)
    (hw : w ∈ back) : front ≠ back ++ [w] := by
  rintro rfl
  exact (List.disjoint_of_nodup_append hn) hw (List.mem_singleton_self w)

/-- Two nodes agree, or the front one is ahead by the write it has applied or sent. -/
theorem AgreeAt.cases {job : Option (Job M)} {front back : List (Write M)}
    {waiting : Multiset (Item M)} (h : AgreeAt job front back waiting) :
    Together front back waiting ∨
      (∃ j, job = some j ∧ front = back ++ [j.write] ∧ waiting = 0) ∨
      ∃ j t, job = some j ∧ j.phase = .sent t none ∧ Ahead j.write front back waiting := by
  rcases job with _ | ⟨w, o, g, p⟩
  · exact Or.inl h
  cases p with
  | applied => exact Or.inr (Or.inl ⟨_, rfl, h⟩)
  | done => exact Or.inl h
  | sent t r =>
    cases r with
    | some r => exact Or.inl h
    | none =>
      rcases h with h | h
      · exact Or.inl h
      · exact Or.inr (Or.inr ⟨_, t, rfl, rfl, h⟩)

/-- Once the back node has the write the front one is busy with, they agree. -/
theorem AgreeAt.together {j : Job M} {front back : List (Write M)} {waiting : Multiset (Item M)}
    (h : AgreeAt (some j) front back waiting) (hn : front.Nodup) (hw : j.write ∈ back) :
    Together front back waiting := by
  rcases h.cases with h | ⟨_, hj, h, _⟩ | ⟨_, _, hj, _, h, _⟩
  · exact h
  · cases hj
    exact absurd h (not_ahead hn hw)
  · cases hj
    exact absurd h (not_ahead hn hw)

/-- The back node takes what waited for it. -/
theorem AgreeAt.take {job : Option (Job M)} {front back : List (Write M)} {x : Item M}
    {rest : Multiset (Item M)} (h : AgreeAt job front back (x ::ₘ rest)) :
    AgreeAt job front (back ++ [x.write]) rest := by
  rcases h.cases with ⟨_, hq⟩ | ⟨_, _, _, hq⟩ | ⟨j, t, rfl, hp, hf, hq | ⟨o, hq⟩⟩
  · exact absurd hq Multiset.cons_ne_zero
  · exact absurd hq Multiset.cons_ne_zero
  · exact absurd hq Multiset.cons_ne_zero
  · rw [← Multiset.cons_zero] at hq
    have hcard := congrArg Multiset.card hq
    simp only [Multiset.card_cons, Multiset.card_zero] at hcard
    have hrest : rest = 0 := Multiset.card_eq_zero.mp (by omega)
    subst hrest
    have hx := (Multiset.cons_inj_left 0).mp hq
    subst hx
    simp only [AgreeAt, hp]
    exact Or.inl ⟨hf, rfl⟩

/-- A node in front of the sender: the write sent on is the one it waits for. -/
theorem AgreeAt.forward {job : Option (Job M)} {front mid back : List (Write M)} {w : Write M}
    {waiting : Multiset (Item M)} (o : Option Nat) (hm : mid = back ++ [w])
    (h₁ : AgreeAt job front mid waiting) (h₂ : AgreeAt job front back 0) :
    AgreeAt job front back {⟨o, w⟩} := by
  have hne : ∀ l : List (Write M), l ++ [w] ≠ l := by simp
  have hboth : Together front mid waiting → ¬ Together front back 0 := by
    rintro ⟨rfl, _⟩ ⟨h, _⟩
    exact hne back (hm.symm.trans h)
  rcases job with _ | ⟨w', o', g, p⟩
  · exact absurd h₂ (hboth h₁)
  cases p with
  | applied =>
    have h := h₁.1.symm.trans h₂.1
    rw [hm] at h
    simp at h
  | done => exact absurd h₂ (hboth h₁)
  | sent t r =>
    cases r with
    | some r => exact absurd h₂ (hboth h₁)
    | none =>
      rcases h₁ with ⟨rfl, _⟩ | ⟨rfl, _⟩
      · rcases h₂ with ⟨h, _⟩ | ⟨h, _⟩
        · exact absurd (hm.symm.trans h) (hne back)
        · have hw : w = w' := by simpa using hm.symm.trans h
          exact Or.inr ⟨h, Or.inr ⟨o, by rw [hw]⟩⟩
      · rcases h₂ with ⟨h, _⟩ | ⟨h, _⟩ <;> rw [hm] at h <;> simp at h

/-! ## One node changes -/

theorem Agreement.set {s : Line M} (ha : Agreement s) {i : Nat} {nd : Node M}
    (hl : nd.live = true → (s.node i).live = true)
    (htok : nd.live = true → Tokens s.issued nd)
    (hback : nd.live = true → ∀ k, i < k → (s.node k).live = true →
      AgreeAt nd.job nd.log (s.node k).log (s.node k).queue)
    (hfront : nd.live = true → ∀ p, p < i → (s.node p).live = true →
      AgreeAt (s.node p).job (s.node p).log nd.log nd.queue) : Agreement (s.set i nd) where
  tokens := by
    intro k hk
    by_cases h : k = i
    · subst h
      rw [Line.set_node_self] at hk ⊢
      exact htok hk
    · rw [Line.set_node_ne _ _ h] at hk ⊢
      exact ha.tokens k hk
  agree := by
    intro p k hpk hp hk
    by_cases h : p = i
    · subst h
      have hne : k ≠ p := by omega
      rw [Line.set_node_self] at hp ⊢
      rw [Line.set_node_ne _ _ hne] at hk ⊢
      exact hback hp k hpk hk
    · rw [Line.set_node_ne _ _ h] at hp ⊢
      by_cases h' : k = i
      · subst h'
        rw [Line.set_node_self] at hk ⊢
        exact hfront hk p hpk hp
      · rw [Line.set_node_ne _ _ h'] at hk ⊢
        exact ha.agree p k hpk hp hk

/-- A job changes its phase. -/
theorem Agreement.setJob {s : Line M} (ha : Agreement s) {i : Nat} {j : Option (Job M)}
    (h : ∀ k, i < k → (s.node i).live = true → (s.node k).live = true →
      AgreeAt j (s.node i).log (s.node k).log (s.node k).queue) : Agreement (s.setJob i j) :=
  ha.set (fun hl => hl) (fun hl => ⟨(ha.tokens i hl).nodup, (ha.tokens i hl).issued⟩)
    (fun hl k hik hk => h k hik hl hk)
    (fun hl p hpi hp => ha.agree p i hpi hp hl)

/-- A write new to the node joins its queue. -/
theorem Agreement.push {s : Line M} (ha : Agreement s) {t : Nat} {x : Item M}
    (hi : x.write.id < s.issued)
    (hnew : (s.node t).live = true → x.write ∉
      ((s.node t).log : Multiset (Write M)) + (s.node t).queue.map Item.write)
    (hfront : (s.node t).live = true → ∀ p, p < t → (s.node p).live = true →
      AgreeAt (s.node p).job (s.node p).log (s.node t).log (x ::ₘ (s.node t).queue)) :
    Agreement (s.push t x) := by
  refine ha.set (fun hl => hl) (fun hl => ?_) (fun hl k htk hk => ha.agree t k htk hl hk) hfront
  have hsum : ((s.node t).log : Multiset (Write M)) + (x ::ₘ (s.node t).queue).map Item.write =
      x.write ::ₘ (((s.node t).log : Multiset (Write M)) + (s.node t).queue.map Item.write) := by
    rw [Multiset.map_cons, Multiset.add_cons]
  refine ⟨?_, ?_⟩
  · rw [hsum, Multiset.nodup_cons]
    exact ⟨hnew hl, (ha.tokens t hl).nodup⟩
  · rw [hsum]
    intro w hw
    rcases Multiset.mem_cons.mp hw with rfl | hw
    · exact hi
    · exact (ha.tokens t hl).issued w hw

theorem Agreement.issue {s : Line M} (ha : Agreement s) : Agreement s.issue where
  tokens := fun i hl =>
    ⟨(ha.tokens i hl).nodup, fun w hw => Nat.lt_succ_of_lt ((ha.tokens i hl).issued w hw)⟩
  agree := ha.agree

/-- Everybody behind a node that has its reply agrees with it. -/
theorem Agreement.together {s : Line M} (ha : Agreement s) {i k : Nat} {j : Job M}
    (hl : (s.node i).live = true) (hj : (s.node i).job = some j)
    (hp : j.phase = .done ∨ ∃ t r, j.phase = .sent t (some r)) (hik : i < k)
    (hk : (s.node k).live = true) : Together (s.node i).log (s.node k).log (s.node k).queue := by
  have h := ha.agree i k hik hl hk
  rw [hj] at h
  rcases hp with hp | ⟨t, r, hp⟩
  · simpa only [AgreeAt, hp] using h
  · simpa only [AgreeAt, hp] using h

/-! ## Every step keeps agreement -/

theorem agreement_forward {s : Line M} (hd : Durable s) (ha : Agreement s) {i t : Nat}
    {j : Job M} (hl : (s.node i).live = true) (hj : (s.node i).job = some j)
    (hp : j.phase = .applied) (hn : (s.node i).next = some t) :
    Agreement ((s.setJob i (some { j with phase := .sent t none })).push t ⟨some i, j.write⟩) := by
  have hskip := (hd.node i hl).next
  rw [hn] at hskip
  have hti : t ≠ i := by have := hskip.1; omega
  have happ : ∀ k, i < k → (s.node k).live = true →
      (s.node i).log = (s.node k).log ++ [j.write] ∧ (s.node k).queue = 0 := by
    intro k hik hk
    have h := ha.agree i k hik hl hk
    rw [hj] at h
    simpa only [AgreeAt, hp] using h
  have ha' : Agreement (s.setJob i (some { j with phase := .sent t none })) :=
    ha.setJob fun k hik _ hk => Or.inr ⟨(happ k hik hk).1, Or.inl (happ k hik hk).2⟩
  have ht : (s.setJob i (some { j with phase := .sent t none })).node t = s.node t :=
    Line.set_node_ne _ _ hti
  refine ha'.push ((ha.tokens i hl).issued _ ?_) ?_ ?_
  · exact Multiset.mem_add.mpr (Or.inl (Multiset.mem_coe.mpr (hd.mem_log hl hj)))
  · rw [ht]
    intro hlt hmem
    obtain ⟨hlog, hq⟩ := happ t hskip.1 hlt
    rw [hq, Multiset.map_zero, add_zero, Multiset.mem_coe] at hmem
    exact not_ahead (ha.tokens i hl).log_nodup hmem hlog
  · rw [ht]
    intro hlt p hpt hlp
    obtain ⟨hlog, hq⟩ := happ t hskip.1 hlt
    rw [hq]
    rcases Nat.lt_trichotomy p i with hpi | rfl | hip
    · rw [show (s.setJob i (some { j with phase := .sent t none })).node p = s.node p from
        Line.set_node_ne _ _ (by omega)] at hlp ⊢
      exact (ha.agree p i hpi hlp hl).forward (some i) hlog
        (hq ▸ ha.agree p t hpt hlp hlt)
    · rw [Line.setJob, Line.set_node_self]
      exact Or.inr ⟨hlog, Or.inr ⟨some p, rfl⟩⟩
    · rw [show (s.setJob i (some { j with phase := .sent t none })).node p = s.node p from
        Line.set_node_ne _ _ (by omega), hskip.2 p hip hpt] at hlp
      cases hlp

theorem agreement_answerNode {s : Line M} (hd : Durable s) (ha : Agreement s) {i p : Nat}
    {j jp : Job M} (hl : (s.node i).live = true) (hj : (s.node i).job = some j)
    (hp : j.phase = .done) (hne : p ≠ i) (hjp : (s.node p).job = some jp)
    (hpp : jp.phase = .sent i none) (hw : jp.write = j.write) (r : Bool) :
    Agreement ((s.setJob i none).setJob p (some { jp with phase := .sent i (some r) })) := by
  have hdone : ∀ k, i < k → (s.node k).live = true →
      Together (s.node i).log (s.node k).log (s.node k).queue :=
    fun k hik hk => ha.together hl hj (Or.inl hp) hik hk
  have ha' : Agreement (s.setJob i none) := ha.setJob fun k hik _ hk => hdone k hik hk
  refine ha'.setJob fun k hpk hlp hlk => ?_
  have hnp : (s.setJob i none).node p = s.node p := Line.set_node_ne _ _ hne
  rw [hnp] at hlp ⊢
  have hphase := (hd.node p hlp).phase jp hjp
  rw [hpp] at hphase
  obtain ⟨⟨hpi, hbetween⟩, _⟩ := hphase
  have hpi' : Together (s.node p).log (s.node i).log (s.node i).queue := by
    have h := ha.agree p i hpi hlp hl
    rw [hjp] at h
    exact h.together (ha.tokens p hlp).log_nodup (hw ▸ hd.mem_log hl hj)
  by_cases hki : k = i
  · subst hki
    rw [Line.setJob, Line.set_node_self]
    exact hpi'
  · rw [show (s.setJob i none).node k = s.node k from Line.set_node_ne _ _ hki] at hlk ⊢
    rcases Nat.lt_or_ge k i with hlt | hge
    · rw [hbetween k hpk hlt] at hlk
      cases hlk
    · obtain ⟨hlog, hq⟩ := hdone k (by omega) hlk
      exact ⟨hpi'.1.trans hlog, hq⟩

theorem agreement_step {s s' : Line M} {a : Act} (hd : Durable s) (ha : Agreement s)
    (hok : NoLoss s a) (h : Step s a s') : Agreement s' := by
  cases h with
  | tick => exact ha.issue
  | @submit i m hl hh =>
    have hnew : Agreement (s.issue.push i ⟨none, ⟨s.issued, m⟩⟩) := by
      refine ha.issue.push (Nat.lt_succ_self _) (fun hl hmem => ?_) (fun _ p hp hlp => ?_)
      · exact Nat.lt_irrefl _ ((ha.tokens i hl).issued _ hmem)
      · rw [Line.issue_node, hh p hp] at hlp
        cases hlp
    exact hnew
  | @take i x rest good hl hj hq =>
    refine ha.set (fun h => h) (fun _ => ?_) (fun _ k hik hk => ?_) (fun _ p hpi hlp => ?_)
    · have hsum : (((s.node i).log ++ [x.write] : List (Write M)) : Multiset (Write M)) +
          rest.map Item.write =
          ((s.node i).log : Multiset (Write M)) + (s.node i).queue.map Item.write := by
        rw [hq, Multiset.map_cons, ← Multiset.coe_add, add_assoc, Multiset.coe_singleton,
          Multiset.singleton_add]
      exact ⟨hsum ▸ (ha.tokens i hl).nodup, hsum ▸ (ha.tokens i hl).issued⟩
    · have h := ha.agree i k hik hl hk
      rw [hj] at h
      obtain ⟨hlog, hq⟩ := h
      exact ⟨by rw [hlog], hq⟩
    · have h := ha.agree p i hpi hlp hl
      rw [hq] at h
      exact h.take
  | @skip i j hl hj hp hn =>
    refine ha.setJob fun k hik _ hk => ?_
    have hnone := (hd.node i hl).next
    rw [hn] at hnone
    rw [hnone k hik] at hk
    cases hk
  | forward hl hj hp hn => exact agreement_forward hd ha hl hj hp hn
  | @giveUp i j hl hj hp =>
    refine ha.setJob fun k hik _ hk => ?_
    have h := ha.agree i k hik hl hk
    rw [hj] at h
    exact h.together (ha.tokens i hl).log_nodup (hok j hj k hik hk)
  | @receive i t r j hl hj hp =>
    exact ha.setJob fun k hik _ hk => ha.together hl hj (Or.inr ⟨t, r, hp⟩) hik hk
  | @answerClient i j hl hj hp ho =>
    have hc : Agreement (s.setJob i none) :=
      ha.setJob fun k hik _ hk => ha.together hl hj (Or.inl hp) hik hk
    exact ⟨hc.tokens, hc.agree⟩
  | answerNode hl hj hp hne hjp hpp hw =>
    exact agreement_answerNode hd ha hl hj hp hne hjp hpp hw _
  | @answerLost i j hl hj hp =>
    exact ha.setJob fun k hik _ hk => ha.together hl hj (Or.inl hp) hik hk
  | crash =>
    exact ha.set (fun h => absurd h (by simp)) (fun h => absurd h (by simp))
      (fun h => absurd h (by simp)) (fun h => absurd h (by simp))
  | @view i v hl hv =>
    exact ha.set (fun h => h) (fun hl => ⟨(ha.tokens i hl).nodup, (ha.tokens i hl).issued⟩)
      (fun hl k hik hk => ha.agree i k hik hl hk) (fun hl p hpi hp => ha.agree p i hpi hp hl)
  | @install i v hl hs =>
    exact ha.set (fun h => h) (fun hl => ⟨(ha.tokens i hl).nodup, (ha.tokens i hl).issued⟩)
      (fun hl k hik hk => ha.agree i k hik hl hk) (fun hl p hpi hp => ha.agree p i hpi hp hl)

theorem Fresh.agreement {s : Line M} (h : Fresh s) : Agreement s where
  tokens := fun i _ => ⟨by simp [h.log i, h.queue i], by simp [h.log i, h.queue i]⟩
  agree := by
    intro i k _ _ _
    rw [h.job i, h.log i, h.log k, h.queue k]
    exact ⟨rfl, rfl⟩

/-- **Agreement**, in every run from a line at rest in which nothing is lost. -/
theorem agreement {ok : Line M → Act → Prop} (hok : ∀ s a, ok s a → NoLoss s a)
    {s₀ s : Line M} (h₀ : Fresh s₀) (h : Reach Step ok s₀ s) : Agreement s :=
  h.invariant h₀.agreement fun s a _ hr ha hoka hstep =>
    agreement_step (durable h₀ hr) ha (hok s a hoka) hstep

/-! ## The whole line -/

/-- Whatever its job, the front node has the log of the back one, or one more. -/
theorem AgreeAt.log {job : Option (Job M)} {front back : List (Write M)}
    {waiting : Multiset (Item M)} (h : AgreeAt job front back waiting) :
    front = back ∨ ∃ j, job = some j ∧ front = back ++ [j.write] := by
  rcases h.cases with ⟨h, _⟩ | ⟨j, hj, h, _⟩ | ⟨j, _, hj, _, h, _⟩
  · exact Or.inl h
  · exact Or.inr ⟨j, hj, h⟩
  · exact Or.inr ⟨j, hj, h⟩

/-- **Lockstep.**  Along a line of `n` live nodes there is one sequence and at
most one pending write, which a prefix of the line has applied on top. -/
theorem Agreement.lockstep {s : Line M} (ha : Agreement s) (n : Nat)
    (hlive : ∀ i, i < n → (s.node i).live = true) :
    ∃ (l : List (Write M)) (w : Option (Write M)) (m : Nat), m ≤ n ∧
      ∀ i, i < n → (s.node i).log = if i < m then l ++ w.toList else l := by
  cases n with
  | zero => exact ⟨[], none, 0, Nat.le_refl _, fun i hi => absurd hi (Nat.not_lt_zero i)⟩
  | succ n =>
    have hlast := hlive n (Nat.lt_succ_self n)
    -- descend from the back while the logs still equal the last one
    have key : ∀ m, m ≤ n → (∀ i, m ≤ i → i ≤ n → (s.node i).log = (s.node n).log) →
        ∃ (w : Option (Write M)) (m' : Nat), m' ≤ n ∧ ∀ i, i ≤ n →
          (s.node i).log = if i < m' then (s.node n).log ++ w.toList else (s.node n).log := by
      intro m
      induction m with
      | zero =>
        intro _ heq
        exact ⟨none, 0, Nat.zero_le n, fun i hi => by simpa using heq i (Nat.zero_le i) hi⟩
      | succ m ih =>
        intro hm heq
        have hlm := hlive m (by omega)
        rcases (ha.agree m n (by omega) hlm hlast).log with he | ⟨j, _, he⟩
        · refine ih (by omega) fun i hmi hin => ?_
          rcases Nat.lt_or_eq_of_le hmi with hlt | rfl
          · exact heq i hlt hin
          · exact he
        · refine ⟨some j.write, m + 1, hm, fun i hin => ?_⟩
          split
          · rename_i him
            rcases Nat.lt_or_eq_of_le (Nat.le_of_lt_succ him) with hlt | rfl
            · have hli := hlive i (by omega)
              rcases (ha.agree i m hlt hli hlm).log with hf | ⟨j', _, hf⟩
              · rw [hf, he]; rfl
              · rcases (ha.agree i n (by omega) hli hlast).log with hb | ⟨j'', _, hb⟩ <;>
                  rw [hf, he] at hb <;> simp at hb
            · exact he
          · exact heq i (by omega) hin
    obtain ⟨w, m, hm, heq⟩ := key n (Nat.le_refl n) fun i h h' => by
      rw [Nat.le_antisymm h' h]
    exact ⟨_, w, m, by omega, fun i hi => heq i (by omega)⟩

end CarChain.Relay
