import CarChain.Lib.Digits
import CarChain.Record

/-!
# Node names

The children of `/chain` are created with `ZOO_SEQUENCE` under `/chain/node-`,
so their names are `node-` and ten decimal digits.  `strcmp` is a linear order
on strings (`strcmp_lt_zero_iff`), and on these names it is the order of the
numbers (`lt_iff_number_lt`).
-/

namespace CarChain.Names
open CarChain.Record

/-! ## `strcmp` as an order -/

def toNats (s : CString) : List Nat := s.bytes.map UInt8.toNat

theorem toNats_injective : Function.Injective toNats := by
  intro s t h
  have hinj : Function.Injective UInt8.toNat := fun _ _ h => UInt8.toNat_inj.mp h
  have hb : s.bytes = t.bytes := hinj.list_map h
  cases s
  cases t
  exact (CString.mk.injEq ..).mpr hb

instance : LinearOrder CString := LinearOrder.lift' toNats toNats_injective

theorem lt_iff_toNats_lt (s t : CString) : s < t ↔ toNats s < toNats t := Iff.rfl

theorem strcmpBytes_lt_zero_iff (s t : List UInt8) (hs : 0 ∉ s) (ht : 0 ∉ t) :
    strcmpBytes s t < 0 ↔ s.map UInt8.toNat < t.map UInt8.toNat := by
  induction s generalizing t with
  | nil =>
    cases t with
    | nil => simp [strcmpBytes]
    | cons b t =>
      have hb : b.toNat ≠ 0 := toNat_ne_zero (by rintro rfl; simp at ht)
      simp only [strcmpBytes, List.map_nil, List.map_cons, List.nil_lt_cons, iff_true]
      omega
  | cons a s ih =>
    cases t with
    | nil =>
      simp only [strcmpBytes, List.map_nil, List.not_lt_nil, iff_false]
      omega
    | cons b t =>
      simp only [List.mem_cons, not_or] at hs ht
      rw [List.map_cons, List.map_cons, List.cons_lt_cons_iff]
      by_cases h : a = b
      · subst h
        simp only [strcmpBytes, ↓reduceIte, ih t hs.2 ht.2, lt_irrefl, true_and, false_or]
      · have hn : a.toNat ≠ b.toNat := fun h' => h (UInt8.toNat_inj.mp h')
        simp only [strcmpBytes, h, ↓reduceIte, hn, false_and, or_false]
        omega

/-- `compare_strings` orders by the linear order of the names. -/
theorem strcmp_lt_zero_iff (s t : CString) : strcmp s t < 0 ↔ s < t :=
  strcmpBytes_lt_zero_iff s.bytes t.bytes s.noNul t.noNul

/-! ## Names and numbers -/

/-- `node-`. -/
def nodeBytes : List UInt8 := [110, 111, 100, 101, 45]

/-- What a sequential node is called: the prefix and ten decimal digits. -/
structure IsNodeName (name : CString) : Prop where
  node : name.bytes.take 5 = nodeBytes
  length : (name.bytes.drop 5).length = 10
  digit : ∀ b ∈ name.bytes.drop 5, 48 ≤ b.toNat ∧ b.toNat ≤ 57

def digits (name : CString) : List Nat := (name.bytes.drop 5).map (fun b => b.toNat - 48)

/-- The sequence number of a node. -/
def number (name : CString) : Nat := Nat.ofDigits 10 (digits name).reverse

/-- The digit of a number below ten. -/
def digitByte (d : Nat) : UInt8 := 48 + (d % 10).toUInt8

theorem digitByte_mem (d : Nat) : 48 ≤ (digitByte d).toNat ∧ (digitByte d).toNat ≤ 57 := by
  have h : ∀ k < 10, 48 ≤ (48 + k.toUInt8 : UInt8).toNat ∧ (48 + k.toUInt8 : UInt8).toNat ≤ 57 := by
    decide
  exact h (d % 10) (Nat.mod_lt d (by decide))

theorem nodeName_noNul (d : Nat) :
    0 ∉ nodeBytes ++ (List.replicate 9 48 ++ [digitByte d]) := by
  rw [List.mem_append, List.mem_append, List.mem_replicate, List.mem_singleton]
  rintro (h | ⟨_, h⟩ | h)
  · revert h
    decide
  · cases h
  · have := (digitByte_mem d).1
    rw [← h] at this
    exact absurd this (by decide)

/-- The node with the number `d`, which is below ten. -/
def nodeName (d : Nat) : CString :=
  ⟨nodeBytes ++ (List.replicate 9 48 ++ [digitByte d]), nodeName_noNul d⟩

theorem isNodeName_nodeName (d : Nat) : IsNodeName (nodeName d) := by
  refine ⟨rfl, rfl, fun b hb => ?_⟩
  have hb' : b ∈ List.replicate 9 48 ++ [digitByte d] := hb
  rw [List.mem_append, List.mem_replicate, List.mem_singleton] at hb'
  rcases hb' with ⟨_, rfl⟩ | rfl
  · decide
  · exact digitByte_mem d

theorem toNats_eq {name : CString} (h : IsNodeName name) :
    toNats name = nodeBytes.map UInt8.toNat ++ (digits name).map (48 + ·) := by
  have hsplit : toNats name = (name.bytes.take 5 ++ name.bytes.drop 5).map UInt8.toNat := by
    rw [List.take_append_drop]
    rfl
  rw [hsplit, List.map_append, h.node, digits, List.map_map]
  congr 1
  apply List.map_congr_left
  intro b hb
  have := (h.digit b hb).1
  simp only [Function.comp_apply]
  omega

theorem digits_lt {name : CString} (h : IsNodeName name) : ∀ d ∈ digits name, d < 10 := by
  intro d hd
  obtain ⟨b, hb, rfl⟩ := List.mem_map.mp hd
  have := h.digit b hb
  omega

theorem digits_length {name : CString} (h : IsNodeName name) : (digits name).length = 10 := by
  rw [digits, List.length_map]
  exact h.length

/-- **Zero padding makes `strcmp` numeric.** -/
theorem lt_iff_number_lt {s t : CString} (hs : IsNodeName s) (ht : IsNodeName t) :
    s < t ↔ number s < number t := by
  have hmono : StrictMono (48 + · : Nat → Nat) := fun a b hab => by simpa using hab
  have hlen : (digits s).length = (digits t).length :=
    (digits_length hs).trans (digits_length ht).symm
  rw [lt_iff_toNats_lt, toNats_eq hs, toNats_eq ht, Digits.append_lt_append_iff,
    Digits.map_lt_map_iff hmono]
  exact Digits.lt_iff_ofDigits_lt (by decide) hlen (digits_lt hs) (digits_lt ht)

/-! ## Paths -/

/-- `/chain/`. -/
def chainBytes : List UInt8 := [47, 99, 104, 97, 105, 110, 47]

/-- The path of a child of `/chain`. -/
def nodePath (name : CString) : CString :=
  ⟨chainBytes ++ name.bytes, by
    rw [List.mem_append, not_or]
    exact ⟨by decide, name.noNul⟩⟩

/-- The part of a string from the last `c` on, NULL when there is none. -/
def strrchr (c : UInt8) : List UInt8 → Option (List UInt8)
  | [] => none
  | b :: s =>
    match strrchr c s with
    | some t => some t
    | none => if b = c then some (b :: s) else none

theorem strrchr_suffix {c : UInt8} {s t : List UInt8} (h : strrchr c s = some t) : t <:+ s := by
  induction s with
  | nil => cases h
  | cons b s ih =>
    rw [strrchr] at h
    cases hs : strrchr c s with
    | some u =>
      rw [hs] at h
      cases h
      exact (ih hs).trans (List.suffix_cons b s)
    | none =>
      rw [hs] at h
      simp only [Option.ite_none_right_eq_some, Option.some.injEq] at h
      exact h.2 ▸ List.suffix_refl _

theorem strrchr_eq_none {c : UInt8} {s : List UInt8} (h : c ∉ s) : strrchr c s = none := by
  induction s with
  | nil => rfl
  | cons b s ih =>
    rw [List.mem_cons, not_or] at h
    rw [strrchr, ih h.2]
    exact if_neg (Ne.symm h.1)

/-- `my_node_name`: what follows the last slash of the path. -/
def myNodeName (myNodePath : CString) : CString :=
  match h : strrchr 47 myNodePath.bytes with
  | some t =>
    ⟨t.tail, fun h0 => myNodePath.noNul ((strrchr_suffix h).subset (List.mem_of_mem_tail h0))⟩
  | none => myNodePath

theorem strrchr_nodePath {name : CString} (h : 47 ∉ name.bytes) :
    strrchr 47 (nodePath name).bytes = some (47 :: name.bytes) := by
  simp [nodePath, chainBytes, strrchr, strrchr_eq_none h]

/-- A server finds its own name in the path of its node. -/
theorem myNodeName_nodePath {name : CString} (h : IsNodeName name) :
    myNodeName (nodePath name) = name := by
  have hs : 47 ∉ name.bytes := by
    intro hm
    rw [← List.take_append_drop 5 name.bytes, h.node, List.mem_append] at hm
    rcases hm with hm | hm
    · revert hm
      decide
    · have := (h.digit 47 hm).1
      revert this
      decide
  unfold myNodeName
  split
  · rename_i t ht
    rw [strrchr_nodePath hs] at ht
    cases ht
    rfl
  · rename_i hn
    rw [strrchr_nodePath hs] at hn
    cases hn

end CarChain.Names
