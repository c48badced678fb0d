import CarChain.Framing

/-!
# Reading to the end of a stream

`read_all` with its `errno`, call of `read` by call, and the loop of
`handle_client` around it.  Errors and the end of the stream share one branch,
which looks at `errno` only, and `read` leaves `errno` alone when it returns 0:
a value of `EINTR` that is left from an interrupted call, or was there before,
keeps the loop at the end of the stream for ever (`readLoop_spins`).  Otherwise
the loop does what it should (`stops_iff_not_stale`), as it does in
`CarChain.Framing` (`returns_of_framing`).
-/

namespace CarChain.EndOfStream
open CarChain.Transfer

@[reducible, simp] def eintr : Int := 4

/-- What one call of `read` does; `bytes extra` brings up to `extra + 1`. -/
inductive Outcome
  | bytes (extra : Nat)
  | endOfStream
  | error (errno : Int)
  deriving DecidableEq

/-- The calls of `read` on a descriptor, one after the other.  Past the end of
the stream there is nothing. -/
structure Trace where
  outcome : Nat → Outcome
  closed : ∀ i, outcome i = .endOfStream → outcome (i + 1) = .endOfStream

/-- What a call of `read_all` leaves: what it returns, how many calls were made
on the descriptor so far, and `errno`. -/
structure ReadAll where
  code : Int
  next : Nat
  errno : Int
  deriving DecidableEq

/-- The loop of `read_all`, at most `fuel` turns of it, with `left` bytes to go. -/
def readLoop (t : Trace) (len : Nat) : Nat → Nat → Nat → Int → Option ReadAll
  | _, i, 0, errno => some ⟨len, i, errno⟩
  | 0, _, _ + 1, _ => none
  | fuel + 1, i, left + 1, errno =>
    match t.outcome i with
    | .bytes extra =>
      readLoop t len fuel (i + 1) (left + 1 - min (extra + 1) (left + 1)) errno
    | .endOfStream =>
      -- 0 takes the branch of the errors, and finds `errno` as it was
      if errno ≠ eintr then some ⟨-1, i + 1, errno⟩
      else readLoop t len fuel (i + 1) (left + 1) errno
    | .error e =>
      if e ≠ eintr then some ⟨-1, i + 1, e⟩ else readLoop t len fuel (i + 1) (left + 1) e

def readAll (t : Trace) (fuel i len : Nat) (errno : Int) : Option ReadAll :=
  readLoop t len fuel i len errno

/-- `read_all` ends, after whatever number of turns. -/
def Ends (t : Trace) (i len : Nat) (errno : Int) (r : ReadAll) : Prop :=
  ∃ fuel, readAll t fuel i len errno = some r

def Returns (t : Trace) (i len : Nat) (errno : Int) (code : Int) (next : Nat) : Prop :=
  ∃ errno', Ends t i len errno ⟨code, next, errno'⟩

def Terminates (t : Trace) (i len : Nat) (errno : Int) : Prop :=
  ∃ code next, Returns t i len errno code next

/-! ## What `read_all` should do -/

def Outcome.count : Outcome → Nat
  | .bytes extra => extra + 1
  | _ => 0

/-- The end of the stream, or an error that is no interruption. -/
def Outcome.fails : Outcome → Bool
  | .bytes _ => false
  | .endOfStream => true
  | .error e => e ≠ eintr

/-- What the first `n` calls from `i` on bring. -/
def delivered (t : Trace) (i : Nat) : Nat → Nat
  | 0 => 0
  | n + 1 => delivered t i n + (t.outcome (i + n)).count

/-- None of the first `n` calls ends the reading. -/
def GoesOn (t : Trace) (i len n : Nat) : Prop :=
  ∀ m < n, delivered t i m < len ∧ (t.outcome (i + m)).fails = false

/-- All bytes, or -1 at the first call that fails. -/
inductive Specified (t : Trace) (i len : Nat) : Int → Nat → Prop
  | all {n : Nat} : GoesOn t i len n → len ≤ delivered t i n → Specified t i len len (i + n)
  | failed {n : Nat} : GoesOn t i len n → delivered t i n < len →
      (t.outcome (i + n)).fails = true → Specified t i len (-1) (i + n + 1)

def ReachesEnd (t : Trace) : Prop := ∃ i, t.outcome i = .endOfStream

/-- The reading gets to the end of the stream with `EINTR` in `errno`: from
before, or from a call that was interrupted. -/
def Stale (t : Trace) (i len : Nat) (errno : Int) : Prop :=
  ∃ n, GoesOn t i len n ∧ delivered t i n < len ∧ t.outcome (i + n) = .endOfStream ∧
    (errno = eintr ∨ ∃ m < n, t.outcome (i + m) = .error eintr)

/-! ## The loop, call by call -/

theorem Trace.closed_le {t : Trace} {i j : Nat} (h : t.outcome i = .endOfStream) (hij : i ≤ j) :
    t.outcome j = .endOfStream := by
  induction hij with
  | refl => exact h
  | step _ ih => exact t.closed _ ih

theorem goesOn_zero (t : Trace) (i left : Nat) : GoesOn t i left 0 :=
  fun m hm => absurd hm (Nat.not_lt_zero m)

theorem GoesOn.mono {t : Trace} {i len n m : Nat} (h : GoesOn t i len n) (hm : m ≤ n) :
    GoesOn t i len m :=
  fun k hk => h k (Nat.lt_of_lt_of_le hk hm)

theorem GoesOn.succ {t : Trace} {i len n : Nat} (h : GoesOn t i len n)
    (hd : delivered t i n < len) (hf : (t.outcome (i + n)).fails = false) :
    GoesOn t i len (n + 1) := by
  intro m hm
  rcases Nat.lt_succ_iff_lt_or_eq.mp hm with hlt | rfl
  · exact h m hlt
  · exact ⟨hd, hf⟩

/-- `errno` after the first `n` calls. -/
def errnoAfter (t : Trace) (i : Nat) (errno : Int) : Nat → Int
  | 0 => errno
  | n + 1 =>
    match t.outcome (i + n) with
    | .error e => e
    | _ => errnoAfter t i errno n

/-- The turns that go on leave the loop where the bytes and `errno` say. -/
theorem readLoop_skip {t : Trace} {i len left n : Nat} (h : GoesOn t i left n) (fuel : Nat)
    (errno : Int) :
    readLoop t len (fuel + n) i left errno =
      readLoop t len fuel (i + n) (left - delivered t i n) (errnoAfter t i errno n) := by
  induction n generalizing fuel with
  | zero => simp [delivered, errnoAfter]
  | succ n ih =>
    obtain ⟨hd, hf⟩ := h n (Nat.lt_succ_self n)
    obtain ⟨k, hk⟩ : ∃ k, left - delivered t i n = k + 1 := ⟨left - delivered t i n - 1, by omega⟩
    rw [Nat.add_comm n 1, ← Nat.add_assoc, ih (h.mono (Nat.le_succ n)), hk, readLoop]
    cases ho : t.outcome (i + n) with
    | bytes extra =>
      have hleft : k + 1 - min (extra + 1) (k + 1) = left - delivered t i (1 + n) := by
        rw [Nat.add_comm 1 n, delivered, ho]
        simp only [Outcome.count]
        omega
      simp only [hleft, Nat.add_comm 1 n, errnoAfter, ho, Nat.add_assoc]
    | endOfStream =>
      rw [ho] at hf
      cases hf
    | error e =>
      have he : e = eintr := by simpa [ho, Outcome.fails] using hf
      have hleft : k + 1 = left - delivered t i (1 + n) := by
        rw [Nat.add_comm 1 n, delivered, ho]
        simp only [Outcome.count]
        omega
      simp only [hleft, Nat.add_comm 1 n, errnoAfter, ho, he, Nat.add_assoc, ne_eq,
        not_true_eq_false, ↓reduceIte]

theorem readLoop_add {t : Trace} {len fuel i left : Nat} {errno : Int} {r : ReadAll}
    (h : readLoop t len fuel i left errno = some r) (more : Nat) :
    readLoop t len (fuel + more) i left errno = some r := by
  induction fuel generalizing i left errno with
  | zero =>
    cases left with
    | zero => rw [← h, readLoop, readLoop]
    | succ left => cases h
  | succ fuel ih =>
    cases left with
    | zero => rw [← h, readLoop, readLoop]
    | succ left =>
      rw [Nat.add_right_comm, readLoop]
      rw [readLoop] at h
      cases ho : t.outcome i with
      | bytes extra =>
        simp only [ho] at h ⊢
        exact ih h
      | endOfStream =>
        simp only [ho] at h ⊢
        split at h
        · rw [if_pos ‹_›, h]
        · rw [if_neg ‹_›, ih h]
      | error e =>
        simp only [ho] at h ⊢
        split at h
        · rw [if_pos ‹_›, h]
        · rw [if_neg ‹_›, ih h]

theorem Ends.deterministic {t : Trace} {i len : Nat} {errno : Int} {r r' : ReadAll}
    (h : Ends t i len errno r) (h' : Ends t i len errno r') : r = r' := by
  obtain ⟨fuel, hr⟩ := h
  obtain ⟨fuel', hr'⟩ := h'
  have hmore := readLoop_add hr fuel'
  have hmore' := readLoop_add hr' fuel
  rw [Nat.add_comm fuel' fuel] at hmore'
  exact Option.some.inj (hmore.symm.trans hmore')

theorem Returns.deterministic {t : Trace} {i len : Nat} {errno : Int} {code code' : Int}
    {next next' : Nat} (h : Returns t i len errno code next)
    (h' : Returns t i len errno code' next') : code = code' ∧ next = next' := by
  obtain ⟨e, hr⟩ := h
  obtain ⟨e', hr'⟩ := h'
  have heq := hr.deterministic hr'
  exact ⟨congrArg ReadAll.code heq, congrArg ReadAll.next heq⟩

/-- At the end of the stream `EINTR` is never found changed. -/
theorem readLoop_spins {t : Trace} {i : Nat} (h : t.outcome i = .endOfStream)
    (len fuel left : Nat) : readLoop t len fuel i (left + 1) eintr = none := by
  induction fuel generalizing i with
  | zero => rfl
  | succ fuel ih =>
    rw [readLoop, h]
    exact ih (t.closed i h)

/-! ## When it does what it should -/

/-- After interruptions only, `errno` is `EINTR` if it was or if there was one. -/
theorem errnoAfter_eq_eintr {t : Trace} {i len n : Nat} (h : GoesOn t i len n) (errno : Int) :
    errnoAfter t i errno n = eintr ↔
      errno = eintr ∨ ∃ m < n, t.outcome (i + m) = .error eintr := by
  induction n with
  | zero => simp [errnoAfter]
  | succ n ih =>
    have hf := (h n (Nat.lt_succ_self n)).2
    have hn := ih (h.mono (Nat.le_succ n))
    rw [errnoAfter]
    cases ho : t.outcome (i + n) with
    | bytes extra =>
      dsimp only
      rw [hn]
      constructor
      · rintro (he | ⟨m, hm, he⟩)
        · exact Or.inl he
        · exact Or.inr ⟨m, Nat.lt_succ_of_lt hm, he⟩
      · rintro (he | ⟨m, hm, he⟩)
        · exact Or.inl he
        · rcases Nat.lt_succ_iff_lt_or_eq.mp hm with hlt | rfl
          · exact Or.inr ⟨m, hlt, he⟩
          · rw [ho] at he
            cases he
    | endOfStream =>
      rw [ho] at hf
      cases hf
    | error e =>
      have he : e = eintr := by simpa [ho, Outcome.fails] using hf
      exact iff_of_true he (Or.inr ⟨n, Nat.lt_succ_self n, he ▸ ho⟩)

theorem returns_all {t : Trace} {i len n : Nat} (h : GoesOn t i len n)
    (hd : len ≤ delivered t i n) (errno : Int) : Returns t i len errno len (i + n) := by
  refine ⟨errnoAfter t i errno n, 0 + n, ?_⟩
  rw [readAll, readLoop_skip h, Nat.sub_eq_zero_of_le hd, readLoop]

theorem returns_failed {t : Trace} {i len n : Nat} {errno : Int} (h : GoesOn t i len n)
    (hd : delivered t i n < len) (hf : (t.outcome (i + n)).fails = true)
    (he : t.outcome (i + n) = .endOfStream → errnoAfter t i errno n ≠ eintr) :
    Returns t i len errno (-1) (i + n + 1) := by
  obtain ⟨k, hk⟩ : ∃ k, len - delivered t i n = k + 1 := ⟨len - delivered t i n - 1, by omega⟩
  unfold Returns Ends readAll
  cases ho : t.outcome (i + n) with
  | bytes extra =>
    rw [ho] at hf
    cases hf
  | endOfStream =>
    refine ⟨errnoAfter t i errno n, 1 + n, ?_⟩
    rw [readLoop_skip h, hk, readLoop, ho]
    exact if_pos (he ho)
  | error e =>
    have hne : e ≠ eintr := by simpa [ho, Outcome.fails] using hf
    refine ⟨e, 1 + n, ?_⟩
    rw [readLoop_skip h, hk, readLoop, ho]
    exact if_pos hne

theorem Specified.returns {t : Trace} {i len : Nat} {errno code : Int} {next : Nat}
    (h : Specified t i len code next) (hs : ¬ Stale t i len errno) :
    Returns t i len errno code next := by
  cases h with
  | all hg hd => exact returns_all hg hd errno
  | failed hg hd hf =>
    refine returns_failed hg hd hf fun ho he => hs ⟨_, hg, hd, ho, ?_⟩
    exact (errnoAfter_eq_eintr hg errno).mp he

/-- A reading that is never to end goes on call after call. -/
theorem goesOn_of_not_specified {t : Trace} {i len : Nat}
    (h : ¬ ∃ code next, Specified t i len code next) (n : Nat) : GoesOn t i len n := by
  induction n with
  | zero => exact goesOn_zero t i len
  | succ n ih =>
    have hd : delivered t i n < len :=
      Nat.lt_of_not_le fun hd => h ⟨_, _, .all ih hd⟩
    refine ih.succ hd ?_
    rw [← Bool.not_eq_true]
    exact fun hf => h ⟨_, _, .failed ih hd hf⟩

/-- As long as the calls go on the loop has not ended. -/
theorem readAll_eq_none {t : Trace} {i len n : Nat} (h : GoesOn t i len n)
    (hd : delivered t i n < len) (errno : Int) : readAll t n i len errno = none := by
  obtain ⟨k, hk⟩ : ∃ k, len - delivered t i n = k + 1 := ⟨len - delivered t i n - 1, by omega⟩
  have hskip := @readLoop_skip t i len len n h 0 errno
  rw [Nat.zero_add, hk, readLoop] at hskip
  exact hskip

theorem not_terminates_of_goesOn {t : Trace} {i len : Nat} (h : ∀ n, GoesOn t i len n)
    (errno : Int) : ¬ Terminates t i len errno := by
  rintro ⟨code, next, errno', fuel, hr⟩
  have hd := (h (fuel + 1) fuel (Nat.lt_succ_self fuel)).1
  rw [readAll_eq_none (h fuel) hd errno] at hr
  cases hr

theorem not_terminates_of_stale {t : Trace} {i len : Nat} {errno : Int}
    (h : Stale t i len errno) : ¬ Terminates t i len errno := by
  obtain ⟨n, hg, hd, ho, he⟩ := h
  rintro ⟨code, next, errno', fuel, hr⟩
  have hmore := readLoop_add hr n
  obtain ⟨k, hk⟩ : ∃ k, len - delivered t i n = k + 1 := ⟨len - delivered t i n - 1, by omega⟩
  rw [readLoop_skip hg, (errnoAfter_eq_eintr hg errno).mpr he, hk, readLoop_spins ho] at hmore
  cases hmore

/-- `read_all` does what it should, and comes to an end with the stream. -/
structure StopsAtEnd (t : Trace) (i len : Nat) (errno : Int) : Prop where
  returns : ∀ code next, Returns t i len errno code next ↔ Specified t i len code next
  terminates : ReachesEnd t → Terminates t i len errno

theorem specified_of_reachesEnd {t : Trace} (h : ReachesEnd t) (i len : Nat) :
    ∃ code next, Specified t i len code next := by
  obtain ⟨e, he⟩ := h
  refine Classical.byContradiction fun hs => ?_
  have hf := (goesOn_of_not_specified hs (e + 1) e (Nat.lt_succ_self e)).2
  rw [Trace.closed_le he (Nat.le_add_left e i)] at hf
  cases hf

theorem returns_iff_specified {t : Trace} {i len : Nat} {errno : Int}
    (hs : ¬ Stale t i len errno) (code : Int) (next : Nat) :
    Returns t i len errno code next ↔ Specified t i len code next := by
  constructor
  · intro hr
    by_cases hex : ∃ code next, Specified t i len code next
    · obtain ⟨code', next', hspec⟩ := hex
      obtain ⟨rfl, rfl⟩ := hr.deterministic (hspec.returns hs)
      exact hspec
    · exact absurd ⟨code, next, hr⟩ (not_terminates_of_goesOn (goesOn_of_not_specified hex) errno)
  · intro hspec
    exact hspec.returns hs

/-- **`read_all` stops at the end of the stream** unless it gets there with
`EINTR` in `errno`. -/
theorem stops_iff_not_stale (t : Trace) (i len : Nat) (errno : Int) :
    StopsAtEnd t i len errno ↔ ¬ Stale t i len errno := by
  constructor
  · rintro h hs
    obtain ⟨n, hg, hd, ho, _⟩ := id hs
    have hspec : Specified t i len (-1) (i + n + 1) := .failed hg hd (by rw [ho]; rfl)
    exact not_terminates_of_stale hs ⟨_, _, (h.returns _ _).mpr hspec⟩
  · intro hs
    refine ⟨returns_iff_specified hs, fun he => ?_⟩
    obtain ⟨code, next, hspec⟩ := specified_of_reachesEnd he i len
    exact ⟨code, next, hspec.returns hs⟩

/-! ## The reading of `CarChain.Framing` -/

/-- From its `i`-th call on the descriptor does what these calls do on a
connection that holds `src`, for a loop with `left` bytes to go. -/
def Serves (t : Trace) : Nat → Nat → List Call → List UInt8 → Prop
  | _, 0, _, _ => True
  | _, _ + 1, [], _ => True
  | i, left + 1, .interrupted :: calls, src =>
    t.outcome i = .error eintr ∧ Serves t (i + 1) (left + 1) calls src
  | i, _ + 1, .moves _ :: _, [] => t.outcome i = .endOfStream
  | i, left + 1, .moves extra :: calls, a :: src =>
    let piece := (a :: src).take (min (extra + 1) (left + 1))
    t.outcome i = .bytes (piece.length - 1) ∧
      Serves t (i + 1) (left + 1 - piece.length) calls ((a :: src).drop piece.length)

/-- The reading is over after so many calls: with all bytes, or at the end of
the stream. -/
inductive Over (t : Trace) (i left : Nat) : Bool → Nat → Prop
  | all {n : Nat} : GoesOn t i left n → left ≤ delivered t i n → Over t i left true n
  | closed {n : Nat} : GoesOn t i left n → delivered t i n < left →
      t.outcome (i + n) = .endOfStream → Over t i left false (n + 1)

theorem delivered_succ_left (t : Trace) (i n : Nat) :
    delivered t i (n + 1) = (t.outcome i).count + delivered t (i + 1) n := by
  induction n with
  | zero => simp [delivered]
  | succ n ih =>
    have hnext : i + (n + 1) = i + 1 + n := by omega
    rw [delivered, ih, delivered, hnext, Nat.add_assoc]

theorem GoesOn.cons {t : Trace} {i left n : Nat} (hpos : 0 < left)
    (hf : (t.outcome i).fails = false)
    (h : GoesOn t (i + 1) (left - (t.outcome i).count) n) : GoesOn t i left (n + 1) := by
  intro m hm
  cases m with
  | zero => exact ⟨hpos, hf⟩
  | succ m =>
    obtain ⟨hd, hf'⟩ := h m (Nat.lt_of_succ_lt_succ hm)
    have hnext : i + (m + 1) = i + 1 + m := by omega
    rw [delivered_succ_left, hnext]
    exact ⟨by omega, hf'⟩

/-- A call that does not fail before the others. -/
theorem Over.cons {t : Trace} {i left n : Nat} {ok : Bool} (hpos : 0 < left)
    (hf : (t.outcome i).fails = false) (hle : (t.outcome i).count ≤ left)
    (h : Over t (i + 1) (left - (t.outcome i).count) ok n) : Over t i left ok (n + 1) := by
  cases h with
  | all hg hd =>
    refine .all (hg.cons hpos hf) ?_
    rw [delivered_succ_left]
    omega
  | @closed n hg hd ho =>
    have hnext : i + 1 + n = i + (n + 1) := by omega
    refine .closed (hg.cons hpos hf) ?_ (hnext ▸ ho)
    rw [delivered_succ_left]
    omega

/-- Both loops are over at the same call. -/
theorem Serves.over {t : Trace} {calls : List Call} {i left : Nat} {src : List UInt8}
    {r : Moved UInt8} (h : Serves t i left calls src)
    (hr : Framing.readAll calls left src = some r) :
    ∃ n, Over t i left r.ok n ∧ n + r.calls.length = calls.length := by
  unfold Framing.readAll at hr
  induction calls generalizing i left src r with
  | nil =>
    cases left with
    | zero =>
      cases hr
      exact ⟨0, .all (goesOn_zero t i 0) (Nat.le_refl 0), rfl⟩
    | succ left => cases hr
  | cons c calls ih =>
    cases left with
    | zero =>
      cases hr
      exact ⟨0, .all (goesOn_zero t i 0) (Nat.le_refl 0), Nat.zero_add _⟩
    | succ left =>
      cases c with
      | interrupted =>
        obtain ⟨ho, hs⟩ := h
        have hcount : (t.outcome i).count = 0 := by rw [ho]; rfl
        have hf : (t.outcome i).fails = false := by rw [ho]; rfl
        obtain ⟨n, hover, hlen⟩ := ih hs hr
        refine ⟨n + 1, Over.cons (Nat.succ_pos _) hf (by omega) ?_, ?_⟩
        · rw [hcount]
          exact hover
        · rw [List.length_cons]
          omega
      | moves extra =>
        cases src with
        | nil =>
          cases hr
          exact ⟨1, .closed (goesOn_zero t i _) (Nat.succ_pos _) h, Nat.add_comm _ _⟩
        | cons a src =>
          obtain ⟨hpos, hle, _⟩ := piece_length extra left a src
          obtain ⟨ho, hs⟩ := h
          simp only [move, Option.map_eq_some_iff] at hr
          obtain ⟨r', hr', rfl⟩ := hr
          have hcount : (t.outcome i).count =
              ((a :: src).take (min (extra + 1) (left + 1))).length := by
            rw [ho]
            exact Nat.sub_add_cancel hpos
          have hf : (t.outcome i).fails = false := by rw [ho]; rfl
          obtain ⟨n, hover, hlen⟩ := ih hs hr'
          refine ⟨n + 1, Over.cons (Nat.succ_pos _) hf (by rw [hcount]; exact hle) ?_, ?_⟩
          · rw [hcount]
            exact hover
          · dsimp only
            rw [List.length_cons]
            omega

/-- **The reading of `CarChain.Framing`** is this one, where `EINTR` is not in
the way. -/
theorem returns_of_framing {t : Trace} {calls : List Call} {i len : Nat} {src : List UInt8}
    {r : Moved UInt8} {errno : Int} (h : Serves t i len calls src)
    (hr : Framing.readAll calls len src = some r) (hs : ¬ Stale t i len errno) :
    Returns t i len errno (if r.ok then len else -1)
      (i + (calls.length - r.calls.length)) := by
  obtain ⟨n, hover, hlen⟩ := h.over hr
  have hn : calls.length - r.calls.length = n := by omega
  rw [hn]
  generalize r.ok = ok at hover
  refine Specified.returns ?_ hs
  cases hover with
  | all hg hd => exact .all hg hd
  | closed hg hd ho => exact .failed hg hd (by rw [ho]; rfl)

/-! ## The loop of `handle_client` -/

/-- What the trace leaves open about a call of `network_receive`: `errno` when
it is entered, the length the first two bytes say, and whether the rest is a
message. -/
structure Turn where
  errno : Int
  len : Nat
  decodes : Bool

/-- Whether `network_receive` gives a message, and the calls made so far. -/
def networkReceive (t : Trace) (fuel : Nat) (turn : Turn) (i : Nat) : Option (Bool × Nat) :=
  match readAll t fuel i 2 turn.errno with
  | none => none
  | some netlen =>
    if netlen.code = -1 then some (false, netlen.next)
    else
      match readAll t fuel netlen.next turn.len netlen.errno with
      | none => none
      | some buf =>
        if buf.code = -1 then some (false, buf.next) else some (turn.decodes, buf.next)

def Receives (t : Trace) (turn : Turn) (i : Nat) (message : Bool) (next : Nat) : Prop :=
  ∃ fuel, networkReceive t fuel turn i = some (message, next)

/-- The loop from the `k`-th turn on, while no shutdown is requested: the call
after which the handler closes its socket and gives up its slot.  What a turn does
with its message comes back: the reply is written, and the exchange with the
successor, whose reply `read_all` reads as well, ends. -/
def handleClient (t : Trace) (turns : Nat → Turn) (fuel : Nat) : Nat → Nat → Nat → Option Nat
  | 0, _, _ => none
  | more + 1, k, i =>
    match networkReceive t fuel (turns k) i with
    | none => none
    | some (false, next) => some next
    | some (true, next) => handleClient t turns fuel more (k + 1) next

def GivesUp (t : Trace) (turns : Nat → Turn) : Prop :=
  ∃ fuel more next, handleClient t turns fuel more 0 0 = some next

/-- The handler is at its `k`-th turn, after `i` calls. -/
inductive Reached (t : Trace) (turns : Nat → Turn) : Nat → Nat → Prop
  | start : Reached t turns 0 0
  | turn {k i next : Nat} : Reached t turns k i → Receives t (turns k) i true next →
      Reached t turns (k + 1) next

/-- One of the two readings of a turn gets to the end with `EINTR`. -/
def StaleTurn (t : Trace) (turn : Turn) (i : Nat) : Prop :=
  Stale t i 2 turn.errno ∨
    ∃ netlen, Ends t i 2 turn.errno netlen ∧ netlen.code ≠ -1 ∧
      Stale t netlen.next turn.len netlen.errno

theorem networkReceive_add {t : Trace} {fuel i : Nat} {turn : Turn} {r : Bool × Nat}
    (h : networkReceive t fuel turn i = some r) (more : Nat) :
    networkReceive t (fuel + more) turn i = some r := by
  unfold networkReceive at h
  split at h
  · cases h
  · rename_i netlen hlen
    have hlen' : readAll t (fuel + more) i 2 turn.errno = some netlen := readLoop_add hlen more
    unfold networkReceive
    rw [hlen']
    dsimp only
    split at h
    · rw [if_pos ‹_›]
      exact h
    · rw [if_neg ‹_›]
      split at h
      · cases h
      · rename_i buf hbuf
        have hbuf' : readAll t (fuel + more) netlen.next turn.len netlen.errno = some buf :=
          readLoop_add hbuf more
        rw [hbuf']
        exact h

theorem Receives.deterministic {t : Trace} {turn : Turn} {i next next' : Nat}
    {message message' : Bool} (h : Receives t turn i message next)
    (h' : Receives t turn i message' next') : message = message' ∧ next = next' := by
  obtain ⟨fuel, hr⟩ := h
  obtain ⟨fuel', hr'⟩ := h'
  have hmore := networkReceive_add hr fuel'
  have hmore' := networkReceive_add hr' fuel
  rw [Nat.add_comm fuel' fuel] at hmore'
  exact Prod.mk.inj (Option.some.inj (hmore.symm.trans hmore'))

/-- A stale turn never ends. -/
theorem not_receives_of_stale {t : Trace} {turn : Turn} {i : Nat} (h : StaleTurn t turn i)
    (message : Bool) (next : Nat) : ¬ Receives t turn i message next := by
  rintro ⟨fuel, hr⟩
  unfold networkReceive at hr
  split at hr
  · cases hr
  · rename_i netlen hlen
    rcases h with hs | ⟨netlen', hends, hcode, hs⟩
    · exact not_terminates_of_stale hs ⟨_, _, _, fuel, hlen⟩
    · obtain rfl := hends.deterministic ⟨fuel, hlen⟩
      rw [if_neg hcode] at hr
      split at hr
      · cases hr
      · rename_i buf hbuf
        exact not_terminates_of_stale hs ⟨_, _, _, fuel, hbuf⟩

/-- A reading that gets its bytes stays before the end of the stream. -/
theorem Ends.before_end {t : Trace} {i len e : Nat} {errno : Int} {r : ReadAll}
    (h : Ends t i len errno r) (hcode : r.code ≠ -1) (he : t.outcome e = .endOfStream)
    (hi : i ≤ e) : r.next ≤ e ∧ i ≤ r.next ∧ (0 < len → i < r.next) := by
  have hret : Returns t i len errno r.code r.next := ⟨r.errno, h⟩
  have hs : ¬ Stale t i len errno := fun hs => not_terminates_of_stale hs ⟨_, _, hret⟩
  have hspec := (returns_iff_specified hs _ _).mp hret
  generalize hnext : r.next = next at hspec ⊢
  generalize hrc : r.code = code at hspec hcode
  cases hspec with
  | failed => exact absurd rfl hcode
  | @all n hg hd =>
    refine ⟨?_, Nat.le_add_right i n, ?_⟩
    · refine Nat.le_of_not_lt fun hlt => ?_
      have hf := (hg (e - i) (by omega)).2
      rw [Nat.add_sub_cancel' hi, he] at hf
      cases hf
    · intro hpos
      cases n with
      | zero =>
        simp only [delivered] at hd
        omega
      | succ n => omega

theorem Receives.before_end {t : Trace} {turn : Turn} {i next e : Nat}
    (h : Receives t turn i true next) (he : t.outcome e = .endOfStream) (hi : i ≤ e) :
    i < next ∧ next ≤ e := by
  obtain ⟨fuel, hr⟩ := h
  unfold networkReceive at hr
  split at hr
  · cases hr
  · rename_i netlen hlen
    split at hr
    · cases hr
    · rename_i hcode
      obtain ⟨hle, _, hlt⟩ := Ends.before_end ⟨fuel, hlen⟩ hcode he hi
      split at hr
      · cases hr
      · rename_i buf hbuf
        split at hr
        · cases hr
        · rename_i hcode'
          obtain ⟨hle', hge, _⟩ := Ends.before_end ⟨fuel, hbuf⟩ hcode' he hle
          obtain ⟨_, rfl⟩ := Prod.mk.inj (Option.some.inj hr)
          exact ⟨Nat.lt_of_lt_of_le (hlt (by decide)) hge, hle'⟩

/-- A turn that is not stale ends when the stream does. -/
theorem receives_of_not_stale {t : Trace} {turn : Turn} {i : Nat} (he : ReachesEnd t)
    (hs : ¬ StaleTurn t turn i) : ∃ message next, Receives t turn i message next := by
  unfold StaleTurn at hs
  rw [not_or] at hs
  have hlen := ((stops_iff_not_stale t i 2 turn.errno).mpr hs.1).terminates he
  obtain ⟨code, next, errno, fuel, hlen⟩ := hlen
  by_cases hcode : code = -1
  · refine ⟨false, next, fuel, ?_⟩
    rw [networkReceive, hlen]
    exact if_pos hcode
  · have hstale : ¬ Stale t next turn.len errno :=
      fun h => hs.2 ⟨_, ⟨fuel, hlen⟩, hcode, h⟩
    have hbuf := ((stops_iff_not_stale t next turn.len errno).mpr hstale).terminates he
    obtain ⟨code', next', errno', fuel', hbuf⟩ := hbuf
    have hlen' : readAll t (fuel + fuel') i 2 turn.errno = some ⟨code, next, errno⟩ :=
      readLoop_add hlen fuel'
    have hbuf' : readAll t (fuel' + fuel) next turn.len errno = some ⟨code', next', errno'⟩ :=
      readLoop_add hbuf fuel
    rw [Nat.add_comm fuel' fuel] at hbuf'
    refine ⟨if code' = -1 then false else turn.decodes, next', fuel + fuel', ?_⟩
    rw [networkReceive, hlen']
    dsimp only
    rw [if_neg hcode, hbuf']
    dsimp only
    split <;> rfl

theorem handleClient_add {t : Trace} {turns : Nat → Turn} {fuel more k i next : Nat}
    (h : handleClient t turns fuel more k i = some next) (extra : Nat) :
    handleClient t turns (fuel + extra) more k i = some next := by
  induction more generalizing k i with
  | zero => cases h
  | succ more ih =>
    rw [handleClient] at h ⊢
    split at h
    · cases h
    · rename_i hr
      rw [networkReceive_add hr extra]
      exact h
    · rename_i hr
      rw [networkReceive_add hr extra]
      exact ih h

/-- From a turn that is reached on, the loop ends if no later turn is stale:
every message brings the end of the stream nearer. -/
theorem ends_from {t : Trace} {turns : Nat → Turn} {e : Nat} (he : t.outcome e = .endOfStream)
    (hs : ∀ k i, Reached t turns k i → ¬ StaleTurn t (turns k) i) (n : Nat) :
    ∀ k i, Reached t turns k i → i ≤ e → e < i + n →
      ∃ fuel more next, handleClient t turns fuel more k i = some next := by
  induction n with
  | zero =>
    intro k i _ hi hn
    omega
  | succ n ih =>
    intro k i hk hi hn
    obtain ⟨message, next, hr⟩ := receives_of_not_stale ⟨e, he⟩ (hs k i hk)
    cases message with
    | false =>
      obtain ⟨fuel, hr⟩ := hr
      exact ⟨fuel, 1, next, by rw [handleClient, hr]⟩
    | true =>
      obtain ⟨hlt, hle⟩ := hr.before_end he hi
      obtain ⟨fuel, more, last, hlast⟩ := ih (k + 1) next (.turn hk hr) hle (by omega)
      obtain ⟨fuel', hr⟩ := hr
      refine ⟨fuel' + fuel, more + 1, last, ?_⟩
      rw [handleClient, networkReceive_add hr fuel]
      dsimp only
      rw [Nat.add_comm fuel' fuel]
      exact handleClient_add hlast fuel'

/-- Its turn gives no message, and the loop is over, or the rest of the loop
comes after it. -/
theorem handleClient_cases {t : Trace} {turns : Nat → Turn} {fuel more k i last : Nat}
    (h : handleClient t turns fuel more k i = some last) :
    Receives t (turns k) i false last ∨
      ∃ next more', Receives t (turns k) i true next ∧
        handleClient t turns fuel more' (k + 1) next = some last := by
  cases more with
  | zero => cases h
  | succ more =>
    rw [handleClient] at h
    split at h
    · cases h
    · rename_i hr
      cases h
      exact Or.inl ⟨fuel, hr⟩
    · rename_i next hr
      exact Or.inr ⟨next, more, ⟨fuel, hr⟩, h⟩

/-- The loop passes every turn that is reached. -/
theorem handleClient_reached {t : Trace} {turns : Nat → Turn} {fuel more last k i : Nat}
    (h : handleClient t turns fuel more 0 0 = some last) (hk : Reached t turns k i) :
    ∃ more', handleClient t turns fuel more' k i = some last := by
  induction hk with
  | start => exact ⟨more, h⟩
  | turn _ hr ih =>
    obtain ⟨more', hmore⟩ := ih
    rcases handleClient_cases hmore with hr' | ⟨next', more'', hr', hrest⟩
    · exact absurd (hr.deterministic hr').1 (by decide)
    · obtain ⟨_, rfl⟩ := hr.deterministic hr'
      exact ⟨more'', hrest⟩

theorem givesUp_iff {t : Trace} (he : ReachesEnd t) (turns : Nat → Turn) :
    GivesUp t turns ↔ ¬ ∃ k i, Reached t turns k i ∧ StaleTurn t (turns k) i := by
  constructor
  · rintro ⟨fuel, more, last, h⟩ ⟨k, i, hk, hs⟩
    obtain ⟨more', hmore⟩ := handleClient_reached h hk
    rcases handleClient_cases hmore with hr | ⟨next, _, hr, _⟩
    · exact not_receives_of_stale hs false last hr
    · exact not_receives_of_stale hs true next hr
  · intro hs
    obtain ⟨e, he⟩ := he
    exact ends_from he (fun k i hk hstale => hs ⟨k, i, hk, hstale⟩) (e + 1) 0 0 .start
      (Nat.zero_le e) (by omega)

/-- **The end of the stream is found**, by `read_all` and by the handler around
it, exactly when no reading gets there with `EINTR` in `errno`. -/
theorem end_found_iff (t : Trace) :
    (∀ i len errno, StopsAtEnd t i len errno ↔ ¬ Stale t i len errno) ∧
      (ReachesEnd t → ∀ turns,
        GivesUp t turns ↔ ¬ ∃ k i, Reached t turns k i ∧ StaleTurn t (turns k) i) :=
  ⟨stops_iff_not_stale t, givesUp_iff⟩

/-- The peer has closed. -/
def closedTrace : Trace := ⟨fun _ => .endOfStream, fun _ _ => rfl⟩

/-- `errno` is 0 when `network_receive` is entered, and every rest a message. -/
def quietTurns : Nat → Turn := fun _ => ⟨0, 1, true⟩

theorem not_stale_closedTrace (i len : Nat) : ¬ Stale closedTrace i len 0 := by
  rintro ⟨n, _, _, _, he | ⟨m, _, he⟩⟩
  · cases he
  · cases he

theorem end_found_iff_closedTrace :
    StopsAtEnd closedTrace 0 2 0 ∧ GivesUp closedTrace quietTurns := by
  refine ⟨((end_found_iff closedTrace).1 0 2 0).mpr (not_stale_closedTrace 0 2), ?_⟩
  refine ((end_found_iff closedTrace).2 ⟨0, rfl⟩ quietTurns).mpr ?_
  -- the first turn gives no message, so there is no other
  have hfirst : ∀ k, Receives closedTrace (quietTurns k) 0 false 1 := fun k => ⟨1, rfl⟩
  rintro ⟨k, i, hk, hs⟩
  cases hk with
  | start => exact not_receives_of_stale hs false 1 (hfirst 0)
  | turn hk hr =>
    have hb := hr.before_end (e := _) rfl (Nat.le_refl _)
    omega

/-- A signal while `read` waits, then the peer closes. -/
def interruptedTrace : Trace where
  outcome
    | 0 => .error eintr
    | _ + 1 => .endOfStream
  closed i h := by
    cases i with
    | zero => cases h
    | succ i => rfl

theorem stale_interruptedTrace (errno : Int) : Stale interruptedTrace 0 2 errno := by
  refine ⟨1, ?_, by decide, rfl, Or.inr ⟨0, Nat.one_pos, rfl⟩⟩
  intro m hm
  obtain rfl := Nat.lt_one_iff.mp hm
  exact ⟨by decide, rfl⟩

/-- After the signal the closed connection is read for ever. -/
theorem interrupted_never_ends :
    ReachesEnd interruptedTrace ∧ ¬ StopsAtEnd interruptedTrace 0 2 0 ∧
      ¬ Terminates interruptedTrace 0 2 0 ∧ ¬ GivesUp interruptedTrace quietTurns := by
  have hend : ReachesEnd interruptedTrace := ⟨1, rfl⟩
  have hstale := stale_interruptedTrace 0
  refine ⟨hend, fun h => not_terminates_of_stale hstale (h.terminates hend),
    not_terminates_of_stale hstale, ?_⟩
  rw [givesUp_iff hend]
  exact fun hnone => hnone ⟨0, 0, .start, Or.inl hstale⟩

end CarChain.EndOfStream
