import Mathlib.Tactic
import Mathlib.Data.BitVec

/-!
# The contents of a file

A file is a list of bytes. A write may begin behind the end; what lies between is zero.
-/

namespace FileData

variable {α : Type}

def readAt (d : List α) (off n : Nat) : List α := (d.drop off).take n

theorem length_readAt {d : List α} {off n : Nat} :
    (readAt d off n).length = min n (d.length - off) := by
  simp [readAt]

theorem readAt_append {d : List α} {off k n : Nat} :
    readAt d off k ++ readAt d (off + k) n = readAt d off (k + n) := by
  rw [readAt, readAt, readAt, List.take_add, List.drop_drop]

theorem readAt_length {d : List α} {off n : Nat} :
    readAt d off (readAt d off n).length = readAt d off n := by
  rw [length_readAt, readAt, readAt, ← List.length_drop, ← List.take_eq_take_min]

theorem readAt_of_le {d : List α} {off n m : Nat} (h : d.length ≤ off + n) (hm : n ≤ m) :
    readAt d off m = readAt d off n := by
  rw [readAt, readAt, List.take_of_length_le (by simp; omega),
    List.take_of_length_le (by simp; omega)]

variable [Zero α]

/-- Nothing is written, and nothing extended, when `s` is empty. -/
def writeAt (d : List α) (off : Nat) (s : List α) : List α :=
  if s = [] then d
  else d.take off ++ List.replicate (off - d.length) 0 ++ s ++ d.drop (off + s.length)

def resize (d : List α) (n : Nat) : List α := d.take n ++ List.replicate (n - d.length) 0

/-- The byte at `i`, which is zero behind the end. -/
def byte (d : List α) (i : Nat) : α := d.getD i 0

variable {d s t : List α} {off n i : Nat}

/-! ## Lengths -/

@[simp] theorem writeAt_nil : writeAt d off [] = d := if_pos rfl

theorem length_writeAt (hs : s ≠ []) :
    (writeAt d off s).length = max d.length (off + s.length) := by
  have hpos := List.length_pos_iff.mpr hs
  simp only [writeAt, if_neg hs, List.length_append, List.length_take, List.length_replicate,
    List.length_drop]
  omega

theorem le_length_writeAt : d.length ≤ (writeAt d off s).length := by
  by_cases hs : s = []
  · rw [hs, writeAt_nil]
  · rw [length_writeAt hs]
    exact le_max_left _ _

@[simp] theorem length_resize : (resize d n).length = n := by
  simp only [resize, List.length_append, List.length_take, List.length_replicate]
  omega

/-! ## Bytes -/

theorem byte_of_le (h : d.length ≤ i) : byte d i = 0 := by
  simp [byte, List.getElem?_eq_none h]

@[simp] theorem byte_replicate : byte (List.replicate n (0 : α)) i = 0 := by
  simp only [byte, List.getD_eq_getElem?_getD, List.getElem?_replicate]
  split <;> rfl

theorem getElem?_eq_byte (h : i < d.length) : d[i]? = some (byte d i) := by
  simp [byte, List.getElem?_eq_getElem h]

theorem byte_readAt (h : i < n) : byte (readAt d off n) i = byte d (off + i) := by
  simp [byte, readAt, h]

theorem byte_writeAt : byte (writeAt d off s) i =
    if off ≤ i ∧ i < off + s.length then byte s (i - off) else byte d i := by
  by_cases hs : s = []
  · subst hs
    rw [writeAt_nil, if_neg (by simp)]
  · simp only [byte, writeAt, if_neg hs, List.getD_eq_getElem?_getD, List.getElem?_append,
      List.length_append, List.length_take, List.length_replicate, List.getElem?_take,
      List.getElem?_drop, List.getElem?_replicate]
    by_cases h1 : i < min off d.length
    · have hlt : i < off := by omega
      simp [show i < min off d.length + (off - d.length) + s.length by omega,
        show i < min off d.length + (off - d.length) by omega, h1, hlt,
        show ¬ (off ≤ i ∧ i < off + s.length) by omega]
    · by_cases h2 : i < off
      · have hgap : d[i]? = none := List.getElem?_eq_none (by omega)
        simp [show i < min off d.length + (off - d.length) + s.length by omega,
          show i < min off d.length + (off - d.length) by omega, h1,
          show i - min off d.length < off - d.length by omega,
          show ¬ (off ≤ i ∧ i < off + s.length) by omega, hgap]
      · have hoff : min off d.length + (off - d.length) = off := by omega
        simp only [hoff]
        by_cases h3 : i < off + s.length
        · simp [h3, h2, show off ≤ i by omega]
        · simp only [h3, if_false, and_false]
          rw [show off + s.length + (i - (off + s.length)) = i by omega]

theorem byte_resize : byte (resize d n) i = if i < n then byte d i else 0 := by
  by_cases h : i < n
  · rw [if_pos h]
    by_cases hd : i < d.length
    · simp [byte, resize, List.getElem?_append, h, hd]
    · have hnone : d[i]? = none := List.getElem?_eq_none (by omega)
      rw [byte_of_le (not_lt.mp hd)]
      simp [byte, resize, List.getElem?_append, hd,
        show i - min n d.length < n - d.length by omega]
  · rw [if_neg h, byte_of_le (by simpa using h)]

theorem ext_byte (hlen : d.length = t.length) (h : ∀ i < d.length, byte d i = byte t i) :
    d = t := by
  refine List.ext_getElem? fun i => ?_
  by_cases hi : i < d.length
  · rw [getElem?_eq_byte hi, getElem?_eq_byte (hlen ▸ hi), h i hi]
  · rw [List.getElem?_eq_none (not_lt.mp hi), List.getElem?_eq_none (hlen ▸ not_lt.mp hi)]

theorem resize_resize {m : Nat} (hd : d.length ≤ n) :
    resize (resize d n) m = resize d m := by
  refine ext_byte (by simp) fun i hi => ?_
  rw [length_resize] at hi
  rw [byte_resize, byte_resize, byte_resize, if_pos hi, if_pos hi]
  split
  · rfl
  · rw [byte_of_le (by omega)]

theorem resize_length : resize d d.length = d := by
  simp [resize]

theorem writeAt_zero (h : d.length ≤ off) : writeAt d off [0] = resize d (off + 1) := by
  have hlen : (writeAt d off [0]).length = off + 1 := by
    rw [length_writeAt (by simp), List.length_singleton]
    omega
  refine ext_byte (by rw [hlen, length_resize]) fun i hi => ?_
  rw [hlen] at hi
  rw [byte_writeAt, byte_resize, if_pos hi, List.length_singleton]
  by_cases hlast : i = off
  · rw [if_pos (by omega), hlast, byte_of_le h, Nat.sub_self]
    rfl
  · rw [if_neg (by omega)]

theorem writeAt_append : writeAt (writeAt d off s) (off + s.length) t = writeAt d off (s ++ t) := by
  by_cases hs : s = []
  · simp [hs]
  by_cases ht : t = []
  · simp [ht]
  have hst : s ++ t ≠ [] := fun h => hs (List.append_eq_nil_iff.mp h).1
  have hlen : (writeAt d off s).length = _ := length_writeAt hs
  refine ext_byte ?_ fun i _ => ?_
  · rw [length_writeAt ht, length_writeAt hst, hlen, List.length_append]
    omega
  · simp only [byte_writeAt, List.length_append]
    by_cases h1 : off ≤ i ∧ i < off + s.length
    · rw [if_neg (by omega), if_pos h1, if_pos (by omega)]
      simp [byte, List.getElem?_append, show i - off < s.length by omega]
    · by_cases h2 : off + s.length ≤ i ∧ i < off + s.length + t.length
      · rw [if_pos h2, if_pos (by omega)]
        simp [byte, List.getElem?_append, show ¬ i - off < s.length by omega, Nat.sub_sub]
      · rw [if_neg h2, if_neg h1, if_neg (by omega)]

end FileData
