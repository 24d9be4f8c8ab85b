import Mathlib.Tactic

/-!
# Bytes, and the C types that are made of them

A C object is a fixed number of bytes. `CType` says how a Lean value lies in
them, both ways, so that `memcpy` to and from the object loses nothing.
-/

namespace CMem

abbrev Byte := BitVec 8

/-! ## Little-endian numbers -/

/-- The low `k` bytes of `x`, the lowest first. -/
def leBytes : Nat → Nat → List Byte
  | 0, _ => []
  | k + 1, x => BitVec.ofNat 8 x :: leBytes k (x / 256)

def leVal : List Byte → Nat
  | [] => 0
  | b :: l => b.toNat + 256 * leVal l

@[simp] theorem leBytes_length (k x : Nat) : (leBytes k x).length = k := by
  induction k generalizing x with
  | zero => rfl
  | succ k ih => simp [leBytes, ih]

theorem leVal_leBytes (k x : Nat) : leVal (leBytes k x) = x % 256 ^ k := by
  induction k generalizing x with
  | zero => simp [leBytes, leVal, Nat.mod_one]
  | succ k ih =>
    rw [leBytes, leVal, ih, BitVec.toNat_ofNat,
      show 256 ^ (k + 1) = 256 * 256 ^ k from Nat.pow_succ', Nat.mod_mul]

theorem leVal_lt (l : List Byte) : leVal l < 256 ^ l.length := by
  induction l with
  | nil => simp [leVal]
  | cons b l ih =>
    have := b.isLt
    simp only [leVal, List.length_cons, Nat.pow_succ]
    omega

theorem leBytes_leVal (l : List Byte) : leBytes l.length (leVal l) = l := by
  induction l with
  | nil => rfl
  | cons b l ih =>
    have hb := b.isLt
    have hdiv : (b.toNat + 256 * leVal l) / 256 = leVal l := by omega
    have hlow : BitVec.ofNat 8 (b.toNat + 256 * leVal l) = b := by
      apply BitVec.eq_of_toNat_eq
      simp only [BitVec.toNat_ofNat]
      omega
    rw [List.length_cons, leVal, leBytes, hdiv, hlow, ih]

/-! ## C types -/

/-- A type whose values fill exactly `sizeof` bytes. -/
class CType (α : Type) where
  sizeof : Nat
  toBytes : α → List Byte
  ofBytes : List Byte → α
  length_toBytes : ∀ a, (toBytes a).length = sizeof
  ofBytes_toBytes : ∀ a, ofBytes (toBytes a) = a
  toBytes_ofBytes : ∀ l, l.length = sizeof → toBytes (ofBytes l) = l

export CType (sizeof toBytes ofBytes)

attribute [simp] CType.length_toBytes CType.ofBytes_toBytes

namespace CType

/-- A word of `k` bytes. -/
@[reducible] def word (k w : Nat) (h : w = 8 * k) : CType (BitVec w) where
  sizeof := k
  toBytes v := leBytes k v.toNat
  ofBytes l := BitVec.ofNat w (leVal l)
  length_toBytes v := leBytes_length k v.toNat
  ofBytes_toBytes v := by
    have h256 : 256 ^ k = 2 ^ w := by rw [h, Nat.pow_mul]
    rw [leVal_leBytes, h256, Nat.mod_eq_of_lt v.isLt, BitVec.ofNat_toNat, BitVec.setWidth_eq]
  toBytes_ofBytes l hl := by
    have h256 : 256 ^ k = 2 ^ w := by rw [h, Nat.pow_mul]
    have hlt := leVal_lt l
    rw [hl, h256] at hlt
    rw [BitVec.toNat_ofNat, Nat.mod_eq_of_lt hlt, ← hl, leBytes_leVal]

instance : CType (BitVec 8) := word 1 8 rfl
instance : CType (BitVec 16) := word 2 16 rfl
instance : CType (BitVec 32) := word 4 32 rfl
instance : CType (BitVec 64) := word 8 64 rfl

variable {α β : Type} [CType α] [CType β]

/-- Two objects, one right after the other. -/
instance : CType (α × β) where
  sizeof := CType.sizeof α + CType.sizeof β
  toBytes p := CType.toBytes p.1 ++ CType.toBytes p.2
  ofBytes l := (CType.ofBytes (l.take (CType.sizeof α)), CType.ofBytes (l.drop (CType.sizeof α)))
  length_toBytes p := by simp
  ofBytes_toBytes p := by
    rw [List.take_left' (length_toBytes p.1), List.drop_left' (length_toBytes p.1)]
    simp
  toBytes_ofBytes l hl := by
    rw [toBytes_ofBytes _ (by simp; omega), toBytes_ofBytes _ (by simp; omega),
      List.take_append_drop]

/-- A struct has the bytes of its members in order. -/
@[reducible] def ofEquiv {γ : Type} (e : γ ≃ α) : CType γ where
  sizeof := CType.sizeof α
  toBytes c := CType.toBytes (e c)
  ofBytes l := e.symm (CType.ofBytes l)
  length_toBytes c := length_toBytes (e c)
  ofBytes_toBytes c := by simp
  toBytes_ofBytes l hl := by rw [Equiv.apply_symm_apply, toBytes_ofBytes l hl]

end CType

@[simp] theorem sizeof_word8 : sizeof (BitVec 8) = 1 := rfl
@[simp] theorem sizeof_word16 : sizeof (BitVec 16) = 2 := rfl
@[simp] theorem sizeof_word32 : sizeof (BitVec 32) = 4 := rfl
@[simp] theorem sizeof_word64 : sizeof (BitVec 64) = 8 := rfl

/-! ## Structs -/

/-- A member of a struct, as the compiler places it. -/
structure Member where
  size : Nat
  align : Nat

namespace Member

def chars (n : Nat) : Member := ⟨n, 1⟩
def int : Member := ⟨4, 4⟩
def i64 : Member := ⟨8, 8⟩

end Member

def roundUp (x align : Nat) : Nat := (x + align - 1) / align * align

/-- `sizeof(struct)`: each member at the next multiple of its alignment, and the
whole rounded up to the largest one. -/
def structSize (members : List Member) : Nat :=
  roundUp (members.foldl (fun off m => roundUp off m.align + m.size) 0)
    (members.foldl (fun a m => max a m.align) 1)

/-! ## C strings -/

/-- The string that starts at the head of `l`: the bytes before the first NUL.
`none` when the object ends first. -/
def cstr : List Byte → Option (List Byte)
  | [] => none
  | b :: l => if b = 0 then some [] else (cstr l).map (b :: ·)

theorem cstr_append (p rest : List Byte) (h : 0 ∉ p) : cstr (p ++ 0 :: rest) = some p := by
  induction p with
  | nil => simp [cstr]
  | cons b p ih =>
    simp only [List.mem_cons, not_or] at h
    rw [List.cons_append, cstr, if_neg (Ne.symm h.1), ih h.2]
    rfl

theorem cstr_eq_some {l p : List Byte} (h : cstr l = some p) :
    0 ∉ p ∧ ∃ rest, l = p ++ 0 :: rest := by
  induction l generalizing p with
  | nil => simp [cstr] at h
  | cons b l ih =>
    rw [cstr] at h
    split at h
    · next hb =>
      obtain rfl := Option.some.inj h
      exact ⟨by simp, l, by simp [hb]⟩
    · next hb =>
      obtain ⟨q, hq, rfl⟩ := Option.map_eq_some_iff.mp h
      obtain ⟨hn, rest, rfl⟩ := ih hq
      exact ⟨List.not_mem_cons_of_ne_of_not_mem (Ne.symm hb) hn, rest, rfl⟩

theorem cstr_eq_none {l : List Byte} (h : 0 ∉ l) : cstr l = none := by
  induction l with
  | nil => rfl
  | cons b l ih =>
    simp only [List.mem_cons, not_or] at h
    rw [cstr, if_neg (Ne.symm h.1), ih h.2]
    rfl

theorem cstr_take {l p : List Byte} {k : Nat} :
    cstr (l.take k) = some p ↔ cstr l = some p ∧ p.length < k := by
  constructor
  · intro h
    obtain ⟨h0, rest, hl⟩ := cstr_eq_some h
    have hlen := congrArg List.length hl
    simp only [List.length_take, List.length_append, List.length_cons] at hlen
    refine ⟨?_, by omega⟩
    rw [← List.take_append_drop k l, hl, List.append_assoc, List.cons_append]
    exact cstr_append p _ h0
  · rintro ⟨h, hlt⟩
    obtain ⟨h0, rest, rfl⟩ := cstr_eq_some h
    obtain ⟨j, hj⟩ : ∃ j, k - p.length = j + 1 := ⟨k - p.length - 1, by omega⟩
    rw [List.take_append, List.take_of_length_le hlt.le, hj, List.take_succ_cons]
    exact cstr_append p _ h0

end CMem
