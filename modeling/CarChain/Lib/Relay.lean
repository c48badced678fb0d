import CarChain.Lib.Run
import Mathlib.Data.Multiset.Basic
import Mathlib.Data.Multiset.MapFold
import Mathlib.Logic.Function.Basic

/-!
# Relaying writes along a line of nodes

A protocol pattern: nodes stand in a line, a write enters at the first live
one, and each node applies it, hands it to the node its `next` pointer names,
waits for the outcome and passes it back.  Nodes crash, exchanges fail, and a
node may look again for the next live node and install what it saw later.

Two results hold of every such run.

* `durable`: a write whose good outcome reached a client is in the log of every
  live node, from then on.
* `agreement`: if no node gives up on a write that a live node behind it still
  lacks, the logs of any two live nodes are equal, or the front one is one
  write ahead and is busy with that write (`AgreeAt`).
-/

namespace CarChain.Relay
open CarChain.Run

/-- A write, numbered when it is issued. -/
structure Write (M : Type) where
  id : Nat
  msg : M
  deriving DecidableEq

/-- A write waiting at a node, and the node that sent it (none for a client). -/
structure Item (M : Type) where
  origin : Option Nat
  write : Write M

inductive Phase
  | applied
  | sent (target : Nat) (resp : Option Bool)
  | done

/-- The write a node is busy with; `good` is the outcome so far. -/
structure Job (M : Type) where
  write : Write M
  origin : Option Nat
  good : Bool
  phase : Phase

structure Node (M : Type) where
  live : Bool
  log : List (Write M)
  queue : Multiset (Item M)
  job : Option (Job M)
  next : Option Nat
  staged : Option (Option Nat)

structure Line (M : Type) where
  node : Nat → Node M
  issued : Nat
  acked : List (Write M)

variable {M : Type}

namespace Line

def set (s : Line M) (i : Nat) (nd : Node M) : Line M :=
  { s with node := Function.update s.node i nd }

def push (s : Line M) (i : Nat) (x : Item M) : Line M :=
  s.set i { s.node i with queue := x ::ₘ (s.node i).queue }

def setJob (s : Line M) (i : Nat) (j : Option (Job M)) : Line M :=
  s.set i { s.node i with job := j }

/-- The next write gets the next number. -/
def issue (s : Line M) : Line M := { s with issued := s.issued + 1 }

/-- A client is told the outcome of its write. -/
def ack (s : Line M) (j : Job M) : Line M :=
  { s with acked := if j.good then s.acked ++ [j.write] else s.acked }

@[simp] theorem set_node_self (s : Line M) (i : Nat) (nd : Node M) : (s.set i nd).node i = nd := by
  simp [set]

@[simp] theorem set_node_ne (s : Line M) {i k : Nat} (nd : Node M) (h : k ≠ i) :
    (s.set i nd).node k = s.node k := by simp [set, h]

@[simp] theorem set_acked (s : Line M) (i : Nat) (nd : Node M) : (s.set i nd).acked = s.acked := rfl
@[simp] theorem set_issued (s : Line M) (i : Nat) (nd : Node M) :
    (s.set i nd).issued = s.issued := rfl
@[simp] theorem setJob_acked (s : Line M) (i : Nat) (j : Option (Job M)) :
    (s.setJob i j).acked = s.acked := rfl
@[simp] theorem setJob_issued (s : Line M) (i : Nat) (j : Option (Job M)) :
    (s.setJob i j).issued = s.issued := rfl
@[simp] theorem push_acked (s : Line M) (i : Nat) (x : Item M) : (s.push i x).acked = s.acked := rfl
@[simp] theorem push_issued (s : Line M) (i : Nat) (x : Item M) :
    (s.push i x).issued = s.issued := rfl
@[simp] theorem issue_node (s : Line M) : s.issue.node = s.node := rfl
@[simp] theorem ack_node (s : Line M) (j : Job M) : (s.ack j).node = s.node := rfl

end Line

/-- `v` skips no live node: nothing lives strictly between `i` and the node it
names, or behind `i` when it names none. -/
def Skips (s : Line M) (i : Nat) : Option Nat → Prop
  | some t => i < t ∧ ∀ k, i < k → k < t → (s.node k).live = false
  | none => ∀ k, i < k → (s.node k).live = false

/-- No live node stands in front of `i`. -/
def Head (s : Line M) (i : Nat) : Prop := ∀ k, k < i → (s.node k).live = false

inductive Act
  | tick
  | submit (i : Nat)
  | take (i : Nat)
  | skip (i : Nat)
  | forward (i : Nat)
  | giveUp (i : Nat)
  | receive (i : Nat)
  | answer (i : Nat)
  | crash (i : Nat)
  | view (i : Nat)
  | install (i : Nat)

/-- The steps of the line.  A number may go to something that is no write; an
answer may get lost; a node that waits for one may give up at any time, and so
may a node that has not sent yet. -/
inductive Step : Line M → Act → Line M → Prop
  | tick {s : Line M} : Step s .tick s.issue
  | submit {s : Line M} {i : Nat} (m : M) (hl : (s.node i).live = true) (hh : Head s i) :
      Step s (.submit i) (s.push i ⟨none, ⟨s.issued, m⟩⟩).issue
  | take {s : Line M} {i : Nat} {x : Item M} {rest : Multiset (Item M)} (good : Bool)
      (hl : (s.node i).live = true) (hj : (s.node i).job = none)
      (hq : (s.node i).queue = x ::ₘ rest) :
      Step s (.take i) (s.set i { s.node i with
        log := (s.node i).log ++ [x.write]
        queue := rest
        job := some ⟨x.write, x.origin, good, .applied⟩ })
  | skip {s : Line M} {i : Nat} {j : Job M} (hl : (s.node i).live = true)
      (hj : (s.node i).job = some j) (hp : j.phase = .applied) (hn : (s.node i).next = none) :
      Step s (.skip i) (s.setJob i (some { j with phase := .done }))
  | forward {s : Line M} {i t : Nat} {j : Job M} (hl : (s.node i).live = true)
      (hj : (s.node i).job = some j) (hp : j.phase = .applied)
      (hn : (s.node i).next = some t) :
      Step s (.forward i)
        ((s.setJob i (some { j with phase := .sent t none })).push t ⟨some i, j.write⟩)
  | giveUp {s : Line M} {i : Nat} {j : Job M} (hl : (s.node i).live = true)
      (hj : (s.node i).job = some j) (hp : j.phase ≠ .done) :
      Step s (.giveUp i) (s.setJob i (some { j with good := false, phase := .done }))
  | receive {s : Line M} {i t : Nat} {r : Bool} {j : Job M} (hl : (s.node i).live = true)
      (hj : (s.node i).job = some j) (hp : j.phase = .sent t (some r)) :
      Step s (.receive i) (s.setJob i (some { j with good := j.good && r, phase := .done }))
  | answerClient {s : Line M} {i : Nat} {j : Job M} (hl : (s.node i).live = true)
      (hj : (s.node i).job = some j) (hp : j.phase = .done) (ho : j.origin = none) :
      Step s (.answer i) ((s.setJob i none).ack j)
  | answerNode {s : Line M} {i p : Nat} {j jp : Job M} (hl : (s.node i).live = true)
      (hj : (s.node i).job = some j) (hp : j.phase = .done) (hne : p ≠ i)
      (hjp : (s.node p).job = some jp) (hpp : jp.phase = .sent i none)
      (hw : jp.write = j.write) :
      Step s (.answer i)
        ((s.setJob i none).setJob p (some { jp with phase := .sent i (some j.good) }))
  | answerLost {s : Line M} {i : Nat} {j : Job M} (hl : (s.node i).live = true)
      (hj : (s.node i).job = some j) (hp : j.phase = .done) :
      Step s (.answer i) (s.setJob i none)
  | crash {s : Line M} {i : Nat} :
      Step s (.crash i) (s.set i { s.node i with live := false })
  | view {s : Line M} {i : Nat} {v : Option Nat} (hl : (s.node i).live = true)
      (hv : Skips s i v) :
      Step s (.view i) (s.set i { s.node i with staged := some v })
  | install {s : Line M} {i : Nat} {v : Option Nat} (hl : (s.node i).live = true)
      (hs : (s.node i).staged = some v) :
      Step s (.install i) (s.set i { s.node i with next := v, staged := none })

/-- A line at rest: nothing applied, issued or in flight. -/
structure Fresh (s : Line M) : Prop where
  log : ∀ i, (s.node i).log = []
  queue : ∀ i, (s.node i).queue = 0
  job : ∀ i, (s.node i).job = none
  staged : ∀ i, (s.node i).staged = none
  acked : s.acked = []
  next : ∀ i, (s.node i).live = true → Skips s i (s.node i).next

/-! ## Logs grow and nodes only die -/

/-- In `s'` no more nodes live than in `s`, and every log holds what it held. -/
def Grows (s s' : Line M) : Prop :=
  ∀ k, ((s'.node k).live = true → (s.node k).live = true) ∧
    ∀ w ∈ (s.node k).log, w ∈ (s'.node k).log

theorem grows_set {s : Line M} {i : Nat} {nd : Node M}
    (hl : nd.live = true → (s.node i).live = true) (hlog : ∀ w ∈ (s.node i).log, w ∈ nd.log) :
    Grows s (s.set i nd) := by
  intro k
  by_cases h : k = i
  · subst h; simpa using ⟨hl, hlog⟩
  · simp [h]

theorem grows_setJob (s : Line M) (i : Nat) (j : Option (Job M)) : Grows s (s.setJob i j) :=
  grows_set (fun h => h) (fun _ h => h)

theorem grows_push (s : Line M) (i : Nat) (x : Item M) : Grows s (s.push i x) :=
  grows_set (fun h => h) (fun _ h => h)

/-- Only the nodes count. -/
theorem grows_of_node_eq {s s' : Line M} (h : s'.node = s.node) : Grows s s' := by
  intro k
  rw [h]
  exact ⟨fun hl => hl, fun _ hw => hw⟩

theorem Grows.dead {s s' : Line M} (h : Grows s s') {k : Nat} (hk : (s.node k).live = false) :
    (s'.node k).live = false := by
  cases hl : (s'.node k).live with
  | false => rfl
  | true => rw [(h k).1 hl] at hk; cases hk

theorem Skips.mono {s s' : Line M} (h : Grows s s') {i : Nat} {v : Option Nat}
    (hv : Skips s i v) : Skips s' i v := by
  cases v with
  | none => exact fun k hk => h.dead (hv k hk)
  | some t => exact ⟨hv.1, fun k hk hkt => h.dead (hv.2 k hk hkt)⟩

theorem Head.mono {s s' : Line M} (h : Grows s s') {i : Nat} (hh : Head s i) : Head s' i :=
  fun k hk => h.dead (hh k hk)

/-! ## What a good outcome tells -/

/-- Every live node from `t` on has applied `w`. -/
def AppliedFrom (s : Line M) (t : Nat) (w : Write M) : Prop :=
  ∀ k, t ≤ k → (s.node k).live = true → w ∈ (s.node k).log

theorem AppliedFrom.mono {s s' : Line M} (h : Grows s s') {t : Nat} {w : Write M}
    (hw : AppliedFrom s t w) : AppliedFrom s' t w :=
  fun k hk hl => (h k).2 w (hw k hk ((h k).1 hl))

/-- A node that has applied `w` and skips no live node passes on what the next
one tells. -/
theorem AppliedFrom.of_skips {s : Line M} {i : Nat} {v : Option Nat} {w : Write M}
    (hs : Skips s i v) (hi : w ∈ (s.node i).log) (hv : ∀ t, v = some t → AppliedFrom s t w) :
    AppliedFrom s i w := by
  intro k hk hlk
  rcases Nat.lt_or_eq_of_le hk with hlt | rfl
  · cases v with
    | none =>
      rw [hs k hlt] at hlk
      cases hlk
    | some t =>
      rcases Nat.lt_or_ge k t with hkt | hkt
      · rw [hs.2 k hlt hkt] at hlk
        cases hlk
      · exact hv t rfl k hkt hlk
  · exact hi

/-- What every node from the first live one on has applied, every live node has. -/
theorem AppliedFrom.of_head {s : Line M} {i : Nat} {w : Write M} (hh : Head s i)
    (hw : AppliedFrom s i w) : AppliedFrom s 0 w := by
  intro k _ hlk
  rcases Nat.lt_or_ge k i with hki | hki
  · rw [hh k hki] at hlk
    cases hlk
  · exact hw k hki hlk

/-- What the phase of a job of node `i` tells about the nodes behind it. -/
def PhaseOk (s : Line M) (i : Nat) (w : Write M) (good : Bool) : Phase → Prop
  | .applied => True
  | .sent t resp => Skips s i (some t) ∧ (resp = some true → AppliedFrom s t w)
  | .done => good = true → AppliedFrom s i w

structure NodeOk (s : Line M) (i : Nat) (nd : Node M) : Prop where
  own : ∀ j, nd.job = some j → ∃ l, nd.log = l ++ [j.write]
  origin : ∀ j, nd.job = some j → j.origin = none → Head s i
  phase : ∀ j, nd.job = some j → PhaseOk s i j.write j.good j.phase
  queue : ∀ x ∈ nd.queue, x.origin = none → Head s i
  next : Skips s i nd.next
  staged : ∀ v, nd.staged = some v → Skips s i v

/-- Every live node is in order, and acknowledged writes are everywhere. -/
structure Durable (s : Line M) : Prop where
  node : ∀ i, (s.node i).live = true → NodeOk s i (s.node i)
  acked : ∀ w ∈ s.acked, AppliedFrom s 0 w

theorem PhaseOk.mono {s s' : Line M} (h : Grows s s') {i : Nat} {w : Write M} {good : Bool}
    {p : Phase} (hp : PhaseOk s i w good p) : PhaseOk s' i w good p := by
  cases p with
  | applied => trivial
  | sent t resp => exact ⟨hp.1.mono h, fun hr => (hp.2 hr).mono h⟩
  | done => exact fun hg => (hp hg).mono h

theorem NodeOk.mono {s s' : Line M} (h : Grows s s') {i : Nat} {nd : Node M}
    (hn : NodeOk s i nd) : NodeOk s' i nd where
  own := hn.own
  origin := fun j hj ho => (hn.origin j hj ho).mono h
  phase := fun j hj => (hn.phase j hj).mono h
  queue := fun x hx ho => (hn.queue x hx ho).mono h
  next := hn.next.mono h
  staged := fun v hv => (hn.staged v hv).mono h

theorem Durable.mem_log {s : Line M} (hd : Durable s) {i : Nat} {j : Job M}
    (hl : (s.node i).live = true) (hj : (s.node i).job = some j) :
    j.write ∈ (s.node i).log := by
  obtain ⟨l, hlog⟩ := (hd.node i hl).own j hj
  rw [hlog]; simp

/-- A step that changes one node keeps the invariant if the node stays in order. -/
theorem Durable.set {s : Line M} (hd : Durable s) {i : Nat} {nd : Node M}
    (hg : Grows s (s.set i nd)) (hn : nd.live = true → NodeOk (s.set i nd) i nd) :
    Durable (s.set i nd) where
  node := by
    intro k hk
    by_cases h : k = i
    · subst h
      rw [Line.set_node_self] at hk ⊢
      exact hn hk
    · rw [Line.set_node_ne _ _ h] at hk ⊢
      exact (hd.node k hk).mono hg
  acked := fun w hw => (hd.acked w hw).mono hg

/-- The case of a job whose log entry and origin are already accounted for. -/
theorem Durable.setJob {s : Line M} (hd : Durable s) {i : Nat} {j : Job M} {good : Bool}
    {p : Phase} (hl : (s.node i).live = true) (hj : (s.node i).job = some j)
    (hp : PhaseOk s i j.write good p) :
    Durable (s.setJob i (some { j with good := good, phase := p })) := by
  have hg := grows_setJob s i (some { j with good := good, phase := p })
  have hi := (hd.node i hl).mono hg
  refine hd.set hg fun _ => ⟨?_, ?_, ?_, hi.queue, hi.next, hi.staged⟩
  · rintro j' hj'
    cases hj'
    exact hi.own j hj
  · rintro j' hj'
    cases hj'
    exact hi.origin j hj
  · rintro j' hj'
    cases hj'
    exact hp.mono hg

theorem Durable.clearJob {s : Line M} (hd : Durable s) {i : Nat}
    (hl : (s.node i).live = true) : Durable (s.setJob i none) := by
  have hg := grows_setJob s i none
  have hi := (hd.node i hl).mono hg
  exact hd.set hg fun _ => ⟨nofun, nofun, nofun, hi.queue, hi.next, hi.staged⟩

theorem Durable.push {s : Line M} (hd : Durable s) {t : Nat} {x : Item M}
    (hx : x.origin = none → Head s t) : Durable (s.push t x) := by
  have hg := grows_push s t x
  refine hd.set hg fun hl => ?_
  have ht := (hd.node t hl).mono hg
  refine ⟨ht.own, ht.origin, ht.phase, ?_, ht.next, ht.staged⟩
  intro y hy
  rcases Multiset.mem_cons.mp hy with rfl | hy
  · exact fun ho => (hx ho).mono hg
  · exact ht.queue y hy

theorem Durable.congr {s s' : Line M} (hd : Durable s) (hn : s'.node = s.node)
    (ha : s'.acked = s.acked) : Durable s' where
  node := fun i hl => by
    rw [hn] at hl ⊢
    exact (hd.node i hl).mono (grows_of_node_eq hn)
  acked := fun w hw => (hd.acked w (ha ▸ hw)).mono (grows_of_node_eq hn)

/-- An answer to a client acknowledges a good write. -/
theorem Durable.ack {s : Line M} (hd : Durable s) {j : Job M}
    (hj : j.good = true → AppliedFrom s 0 j.write) : Durable (s.ack j) := by
  have hg := grows_of_node_eq (Line.ack_node s j)
  refine ⟨fun k hk => (hd.node k hk).mono hg, fun w hw => ?_⟩
  simp only [Line.ack] at hw
  split at hw
  · rename_i hgood
    rcases List.mem_append.mp hw with hw | hw
    · exact (hd.acked w hw).mono hg
    · rw [List.mem_singleton.mp hw]
      exact (hj hgood).mono hg
  · exact (hd.acked w hw).mono hg

/-- An answer to a node hands over what the job has found out. -/
theorem durable_answerNode {s : Line M} (hd : Durable s) {i p : Nat} {j jp : Job M}
    (hl : (s.node i).live = true) (hj : (s.node i).job = some j) (hp : j.phase = .done)
    (hne : p ≠ i) (hjp : (s.node p).job = some jp) (hpp : jp.phase = .sent i none)
    (hw : jp.write = j.write) :
    Durable ((s.setJob i none).setJob p (some { jp with phase := .sent i (some j.good) })) := by
  have hc := hd.clearJob hl
  have hjp' : ((s.setJob i none).node p).job = some jp := by
    rw [Line.setJob, Line.set_node_ne _ _ hne]; exact hjp
  cases hlp : ((s.setJob i none).node p).live with
  | true =>
    refine hc.setJob hlp hjp' ?_
    have hphase := (hc.node p hlp).phase jp hjp'
    rw [hpp] at hphase
    refine ⟨hphase.1, fun hr => ?_⟩
    have hdone := (hd.node i hl).phase j hj
    rw [hp] at hdone
    rw [hw]
    exact (hdone (Option.some.inj hr)).mono (grows_setJob s i none)
  | false =>
    exact hc.set (grows_setJob _ _ _) fun hlive => absurd hlive (by simp [hlp])

theorem durable_step {s s' : Line M} {a : Act} (hd : Durable s) (h : Step s a s') :
    Durable s' := by
  cases h with
  | submit m hl hh =>
    have hp : Durable (s.push _ ⟨none, ⟨s.issued, m⟩⟩) := hd.push fun _ => hh
    exact Durable.congr hp rfl rfl
  | tick => exact hd.congr rfl rfl
  | @take i x rest good hl hj hq =>
    have hg : Grows s (s.set i { s.node i with
        log := (s.node i).log ++ [x.write], queue := rest,
        job := some ⟨x.write, x.origin, good, .applied⟩ }) :=
      grows_set (fun h => h) (fun w hw => List.mem_append_left _ hw)
    have hi := (hd.node i hl).mono hg
    have hx : ∀ y ∈ x ::ₘ rest, y.origin = none → Head _ i := hq ▸ hi.queue
    refine hd.set hg fun _ => ⟨?_, ?_, ?_, ?_, hi.next, hi.staged⟩
    · rintro j hj'
      cases hj'
      exact ⟨_, rfl⟩
    · rintro j hj'
      cases hj'
      exact hx x (Multiset.mem_cons_self x rest)
    · rintro j hj'
      cases hj'
      trivial
    · exact fun y hy => hx y (Multiset.mem_cons_of_mem hy)
  | @skip i j hl hj hp hn =>
    have hs := (hd.node i hl).next
    rw [hn] at hs
    exact hd.setJob hl hj fun _ => .of_skips hs (hd.mem_log hl hj) nofun
  | @forward i t j hl hj hp hn =>
    have hs := (hd.node i hl).next
    rw [hn] at hs
    exact (hd.setJob (p := .sent t none) hl hj ⟨hs, nofun⟩).push nofun
  | giveUp hl hj hp => exact hd.setJob hl hj nofun
  | @receive i t r j hl hj hp =>
    have hphase := (hd.node i hl).phase j hj
    rw [hp] at hphase
    obtain ⟨hs, hr⟩ := hphase
    refine hd.setJob hl hj fun hgood => .of_skips hs (hd.mem_log hl hj) fun t' ht => ?_
    cases ht
    have hrt : r = true := by simp only [Bool.and_eq_true] at hgood; exact hgood.2
    exact hr (by rw [hrt])
  | @answerClient i j hl hj hp ho =>
    have hphase := (hd.node i hl).phase j hj
    rw [hp] at hphase
    have hhead := (hd.node i hl).origin j hj ho
    refine (hd.clearJob hl).ack fun hgood => ?_
    exact (AppliedFrom.of_head hhead (hphase hgood)).mono (grows_setJob s i none)
  | answerNode hl hj hp hne hjp hpp hw => exact durable_answerNode hd hl hj hp hne hjp hpp hw
  | answerLost hl hj hp => exact hd.clearJob hl
  | @crash i =>
    exact hd.set (grows_set (fun h => absurd h (by simp)) (fun _ h => h))
      fun h => absurd h (by simp)
  | @view i v hl hv =>
    have hg : Grows s (s.set i { s.node i with staged := some v }) :=
      grows_set (fun h => h) (fun _ h => h)
    have hi := (hd.node i hl).mono hg
    refine hd.set hg fun _ => ⟨hi.own, hi.origin, hi.phase, hi.queue, hi.next, ?_⟩
    rintro v' hv'
    cases hv'
    exact hv.mono hg
  | @install i v hl hs =>
    have hg : Grows s (s.set i { s.node i with next := v, staged := none }) :=
      grows_set (fun h => h) (fun _ h => h)
    have hi := (hd.node i hl).mono hg
    exact hd.set hg fun _ => ⟨hi.own, hi.origin, hi.phase, hi.queue, hi.staged v hs, nofun⟩

theorem Fresh.durable {s : Line M} (h : Fresh s) : Durable s where
  node := fun i hl =>
    ⟨by simp [h.job i], by simp [h.job i], by simp [h.job i], by simp [h.queue i], h.next i hl,
      by simp [h.staged i]⟩
  acked := by simp [h.acked]

/-- **Acknowledged writes are durable**, in every run from a line at rest. -/
theorem durable {ok : Line M → Act → Prop} {s₀ s : Line M} (h₀ : Fresh s₀)
    (h : Reach Step ok s₀ s) : Durable s :=
  h.invariant h₀.durable fun _ _ _ _ hd _ hstep => durable_step hd hstep

end CarChain.Relay
