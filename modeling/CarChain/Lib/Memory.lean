/-!
# A store of records

Entries behind handles.  Creating one returns a handle that was never in use;
destroying one leaves the handle dead, and no later creation revives it.  Where
it matters that only live entries are destroyed or read, `release` and `gather`
give nothing otherwise; `Owned` says that a list holds every live handle, each
once, and then both always succeed.
Core Lean only.
-/

namespace CarChain.Memory

structure Store (α : Type) where
  next : Nat
  entry : Nat → Option α
  fresh : ∀ h, next ≤ h → entry h = none

namespace Store

variable {α : Type}

def empty : Store α := ⟨0, fun _ => none, fun _ _ => rfl⟩

/-- A live handle has an entry. -/
def Live (s : Store α) (h : Nat) : Prop := ∃ a, s.entry h = some a

/-- The new entry lies behind the handle `s.next`. -/
def create (s : Store α) (a : α) : Store α where
  next := s.next + 1
  entry := fun h => if h = s.next then some a else s.entry h
  fresh := by
    intro h hh
    rw [if_neg (by omega)]
    exact s.fresh h (by omega)

def destroy (s : Store α) (d : Nat) : Store α where
  next := s.next
  entry := fun h => if h = d then none else s.entry h
  fresh := by
    intro h hh
    split
    · rfl
    · exact s.fresh h hh

@[simp] theorem create_next (s : Store α) (a : α) : (s.create a).next = s.next + 1 := rfl
@[simp] theorem destroy_next (s : Store α) (d : Nat) : (s.destroy d).next = s.next := rfl

@[simp] theorem create_entry_self (s : Store α) (a : α) : (s.create a).entry s.next = some a :=
  if_pos rfl

theorem create_entry_of_lt (s : Store α) (a : α) {h : Nat} (hh : h < s.next) :
    (s.create a).entry h = s.entry h := if_neg (Nat.ne_of_lt hh)

@[simp] theorem destroy_entry_self (s : Store α) (d : Nat) : (s.destroy d).entry d = none :=
  if_pos rfl

theorem destroy_entry_ne (s : Store α) {d h : Nat} (hh : h ≠ d) :
    (s.destroy d).entry h = s.entry h := if_neg hh

/-- A dead handle stays dead when others are destroyed. -/
theorem destroy_entry_none {s : Store α} {h : Nat} (hh : s.entry h = none) (d : Nat) :
    (s.destroy d).entry h = none := by
  by_cases hd : h = d
  · subst hd
    exact destroy_entry_self s h
  · rw [destroy_entry_ne s hd]
    exact hh

theorem destroyAll_entry_none {s : Store α} {h : Nat} (hh : s.entry h = none) (ds : List Nat) :
    (ds.foldl destroy s).entry h = none := by
  induction ds generalizing s with
  | nil => exact hh
  | cons d ds ih => exact ih (destroy_entry_none hh d)

/-- What was destroyed is dead. -/
theorem destroyAll_dead (s : Store α) {ds : List Nat} {h : Nat} (hh : h ∈ ds) :
    ¬ (ds.foldl destroy s).Live h := by
  suffices hs : (ds.foldl destroy s).entry h = none by
    rintro ⟨a, ha⟩
    rw [hs] at ha
    cases ha
  induction ds generalizing s with
  | nil => cases hh
  | cons d ds ih =>
    rcases List.mem_cons.mp hh with rfl | hh
    · exact destroyAll_entry_none (destroy_entry_self s h) ds
    · exact ih (s.destroy d) hh

/-! ## Owners -/

/-- Destroys a live entry. -/
def release (s : Store α) (h : Nat) : Option (Store α) :=
  if (s.entry h).isSome then some (s.destroy h) else none

def releaseAll (s : Store α) : List Nat → Option (Store α)
  | [] => some s
  | h :: rest => (s.release h).bind fun s' => s'.releaseAll rest

/-- What lies behind the handles, when all of them are live. -/
def gather (s : Store α) : List Nat → Option (List α)
  | [] => some []
  | h :: rest =>
    match s.entry h with
    | none => none
    | some a => (s.gather rest).map (a :: ·)

/-- The live handles are those of the list, each once. -/
structure Owned (s : Store α) (handles : List Nat) : Prop where
  nodup : handles.Nodup
  mem_iff : ∀ h, h ∈ handles ↔ s.Live h

theorem Live.lt_next {s : Store α} {h : Nat} (hl : s.Live h) : h < s.next := by
  obtain ⟨a, ha⟩ := hl
  rcases Nat.lt_or_ge h s.next with hlt | hge
  · exact hlt
  · rw [s.fresh h hge] at ha
    cases ha

theorem live_create (s : Store α) (a : α) (h : Nat) :
    (s.create a).Live h ↔ s.Live h ∨ h = s.next := by
  by_cases hn : h = s.next
  · subst hn
    exact iff_of_true ⟨a, create_entry_self s a⟩ (Or.inr rfl)
  · simp only [Live, create, hn, ↓reduceIte, or_false]

theorem live_destroy (s : Store α) (d h : Nat) : (s.destroy d).Live h ↔ s.Live h ∧ h ≠ d := by
  by_cases hd : h = d
  · subst hd
    refine iff_of_false ?_ fun hl => hl.2 rfl
    rintro ⟨a, ha⟩
    rw [destroy_entry_self] at ha
    cases ha
  · simp only [Live, destroy_entry_ne s hd, ne_eq, hd, not_false_eq_true, and_true]

theorem release_of_live {s : Store α} {h : Nat} (hl : s.Live h) :
    s.release h = some (s.destroy h) := by
  obtain ⟨a, ha⟩ := hl
  rw [release, ha]
  rfl

theorem owned_empty : Owned (empty : Store α) [] := by
  refine ⟨List.nodup_nil, fun h => ⟨fun hm => ?_, ?_⟩⟩
  · cases hm
  · rintro ⟨a, ha⟩
    cases ha

theorem Owned.perm {s : Store α} {handles handles' : List Nat} (ho : Owned s handles)
    (hp : handles'.Perm handles) : Owned s handles' :=
  ⟨hp.nodup_iff.mpr ho.nodup, fun h => hp.mem_iff.trans (ho.mem_iff h)⟩

theorem Owned.create {s : Store α} {handles : List Nat} (ho : Owned s handles) (a : α) :
    Owned (s.create a) (handles ++ [s.next]) := by
  have hfresh : s.next ∉ handles := by
    intro hm
    exact Nat.lt_irrefl _ ((ho.mem_iff _).mp hm).lt_next
  constructor
  · rw [List.nodup_append]
    refine ⟨ho.nodup, List.nodup_cons.mpr ⟨List.not_mem_nil, List.nodup_nil⟩, ?_⟩
    intro h hm h' hm' heq
    rw [List.mem_singleton] at hm'
    rw [heq, hm'] at hm
    exact hfresh hm
  · intro h
    rw [List.mem_append, List.mem_singleton, live_create, ho.mem_iff]

/-- The owner lets go of one entry, which is destroyed. -/
theorem Owned.release {s : Store α} {handles rest : List Nat} {h : Nat} (ho : Owned s handles)
    (hp : handles.Perm (h :: rest)) :
    s.release h = some (s.destroy h) ∧ Owned (s.destroy h) rest := by
  have ho' := ho.perm hp.symm
  obtain ⟨hnot, hnodup⟩ := List.nodup_cons.mp ho'.nodup
  refine ⟨release_of_live ((ho'.mem_iff h).mp List.mem_cons_self), hnodup, fun x => ?_⟩
  rw [live_destroy, ← ho'.mem_iff x, List.mem_cons]
  constructor
  · intro hx
    refine ⟨Or.inr hx, ?_⟩
    rintro rfl
    exact hnot hx
  · rintro ⟨rfl | hx, hne⟩
    · exact absurd rfl hne
    · exact hx

/-- The owner lets go of everything. -/
theorem Owned.releaseAll {s : Store α} {handles : List Nat} (ho : Owned s handles) :
    ∃ s', s.releaseAll handles = some s' ∧ ∀ h, ¬ s'.Live h := by
  induction handles generalizing s with
  | nil => exact ⟨s, rfl, fun h hl => List.not_mem_nil ((ho.mem_iff h).mpr hl)⟩
  | cons h rest ih =>
    obtain ⟨hr, ho'⟩ := ho.release (List.Perm.refl _)
    obtain ⟨s', hs', hdead⟩ := ih ho'
    refine ⟨s', ?_, hdead⟩
    rw [Store.releaseAll, hr]
    exact hs'

theorem releaseAll_eq_foldlM (s : Store α) (handles : List Nat) :
    s.releaseAll handles = handles.foldlM release s := by
  induction handles generalizing s with
  | nil => rfl
  | cons h rest ih =>
    rw [releaseAll, List.foldlM_cons]
    exact congrArg _ (funext fun s' => ih s')

theorem gather_eq_some {s : Store α} {handles : List Nat} {l : List α} :
    s.gather handles = some l ↔ handles.map s.entry = l.map some := by
  induction handles generalizing l with
  | nil =>
    cases l with
    | nil => simp [gather]
    | cons a l => simp [gather]
  | cons h rest ih =>
    rw [gather]
    cases he : s.entry h with
    | none =>
      cases l with
      | nil => simp
      | cons a l => simp [he]
    | some b =>
      cases l with
      | nil => simp
      | cons a l =>
        rw [List.map_cons, List.map_cons, List.cons.injEq, ← ih, he, Option.map_eq_some_iff,
          Option.some.injEq]
        constructor
        · rintro ⟨l', hl', heq⟩
          cases heq
          exact ⟨rfl, hl'⟩
        · rintro ⟨rfl, hl⟩
          exact ⟨l, hl, rfl⟩

/-- Handles whose entries are known. -/
theorem gather_map {s : Store α} {handles : List Nat} {f : Nat → α}
    (h : ∀ x ∈ handles, s.entry x = some (f x)) : s.gather handles = some (handles.map f) := by
  rw [gather_eq_some, List.map_map]
  exact List.map_congr_left h

theorem gather_append {s : Store α} {handles handles' : List Nat} {l l' : List α}
    (h : s.gather handles = some l) (h' : s.gather handles' = some l') :
    s.gather (handles ++ handles') = some (l ++ l') := by
  rw [gather_eq_some] at h h' ⊢
  rw [List.map_append, List.map_append, h, h']

/-- What is gathered only depends on the entries behind the handles. -/
theorem gather_congr {s s' : Store α} {handles : List Nat}
    (h : ∀ x ∈ handles, s'.entry x = s.entry x) : s'.gather handles = s.gather handles := by
  induction handles with
  | nil => rfl
  | cons x rest ih =>
    rw [gather, gather, h x List.mem_cons_self,
      ih fun y hy => h y (List.mem_cons_of_mem x hy)]

end Store

end CarChain.Memory
