import RemoteVfs.Memory.Bytes

/-!
# Buffers of a fixed size

`memcpy` and `strcpy` on a `Buf n` give `none` when they touch a byte outside
its `n` bytes. So `some` also says that every access stayed inside.
-/

namespace CMem

/-- `char b[n]` -/
abbrev Buf (n : Nat) := { l : List Byte // l.length = n }

namespace Buf

variable {n : Nat} {α : Type} [CType α]

/-- `memset(b, 0, n)` -/
def zeros (n : Nat) : Buf n := ⟨List.replicate n 0, List.length_replicate⟩

/-- The object that a pointer leads to, as a buffer. -/
def ofObject (obj : List Byte) : Buf obj.length := ⟨obj, rfl⟩

/-- A local that nothing has written yet. -/
def uninit (garbage : Nat → Byte) (n : Nat) : Buf n := ⟨(List.range n).map garbage, by simp⟩

def slice (b : Buf n) (off len : Nat) : List Byte := (b.val.drop off).take len

def splice (b : Buf n) (off : Nat) (src : List Byte) : Buf n :=
  if h : off + src.length ≤ n then
    ⟨b.val.take off ++ src ++ b.val.drop (off + src.length), by simp [b.property]; omega⟩
  else b

/-- `memcpy(…, b + off, len)` -/
def read (b : Buf n) (off len : Nat) : Option (List Byte) :=
  if off + len ≤ n then some (b.slice off len) else none

/-- `memcpy(b + off, src, …)` -/
def write (b : Buf n) (off : Nat) (src : List Byte) : Option (Buf n) :=
  if off + src.length ≤ n then some (b.splice off src) else none

/-- The first `k` bytes, for a function that works on so many. -/
def take (b : Buf n) (k : Nat) : Option (Buf k) :=
  if h : k ≤ n then some ⟨b.val.take k, by simp [b.property, h]⟩ else none

/-- `memcpy(&x, b + off, sizeof(x))` -/
def get (α : Type) [CType α] (b : Buf n) (off : Nat) : Option α :=
  (b.read off (sizeof α)).map ofBytes

/-- `memcpy(b + off, &x, sizeof(x))` -/
def put (b : Buf n) (off : Nat) (x : α) : Option (Buf n) := b.write off (toBytes x)

/-- `strcpy(b, src)` -/
def strcpy (b : Buf n) (src : List Byte) : Option (Buf n) := do
  let s ← cstr src
  b.write 0 (s ++ [0])

/-! ## Reading what was written -/

theorem slice_length (b : Buf n) (off len : Nat) (h : off + len ≤ n) :
    (b.slice off len).length = len := by
  simp [slice, b.property]
  omega

theorem splice_val (b : Buf n) (off : Nat) (src : List Byte) (h : off + src.length ≤ n) :
    (b.splice off src).val = b.val.take off ++ src ++ b.val.drop (off + src.length) := by
  rw [splice, dif_pos h]

@[simp] theorem slice_splice (b : Buf n) {off len : Nat} (src : List Byte) (hlen : src.length = len)
    (h : off + len ≤ n) : (b.splice off src).slice off len = src := by
  have hoff : (b.val.take off).length = off := by simp [b.property]; omega
  rw [slice, splice_val b off src (by omega), List.append_assoc, List.drop_left' hoff,
    List.take_left' hlen]

@[simp] theorem slice_splice_of_disjoint (b : Buf n) {off off' len : Nat} (src : List Byte)
    (h : off' + len ≤ off ∨ off + src.length ≤ off') :
    (b.splice off src).slice off' len = b.slice off' len := by
  by_cases hin : off + src.length ≤ n
  · have hoff : (b.val.take off).length = off := by simp [b.property]; omega
    rw [slice, slice, splice_val b off src hin]
    rcases h with h | h
    · rw [List.append_assoc, List.drop_append_of_le_length (by omega),
        List.take_append_of_le_length (by simp [hoff]; omega), List.drop_take, List.take_take,
        min_eq_left (by omega)]
    · have hlen : (b.val.take off ++ src).length = off + src.length := by simp [hoff]
      rw [List.drop_append, List.drop_eq_nil_of_le (by omega), List.nil_append,
        List.drop_drop, hlen]
      congr 2
      omega
  · rw [splice, dif_neg hin]

@[simp] theorem read_eq (b : Buf n) {off len : Nat} (h : off + len ≤ n) :
    b.read off len = some (b.slice off len) := if_pos h

@[simp] theorem write_eq (b : Buf n) {off : Nat} {src : List Byte} (h : off + src.length ≤ n) :
    b.write off src = some (b.splice off src) := if_pos h

@[simp] theorem get_eq (b : Buf n) {off : Nat} (h : off + sizeof α ≤ n) :
    b.get α off = some (ofBytes (b.slice off (sizeof α))) := by
  rw [get, read_eq b h, Option.map_some]

@[simp] theorem put_eq (b : Buf n) {off : Nat} (x : α) (h : off + sizeof α ≤ n) :
    b.put off x = some (b.splice off (toBytes x)) :=
  write_eq b (by rw [CType.length_toBytes]; exact h)

theorem read_eq_some {b : Buf n} {off len : Nat} {data : List Byte}
    (h : b.read off len = some data) : off + len ≤ n ∧ b.slice off len = data := by
  unfold read at h
  split at h
  · next hle => exact ⟨hle, Option.some.inj h⟩
  · cases h

theorem write_eq_some {b b' : Buf n} {off : Nat} {src : List Byte} (h : b.write off src = some b') :
    off + src.length ≤ n ∧ b' = b.splice off src := by
  unfold write at h
  split at h
  · next hle => exact ⟨hle, (Option.some.inj h).symm⟩
  · cases h

theorem slice_of_write {b b' : Buf n} {off off' len : Nat} {src : List Byte}
    (h : b.write off src = some b') (hd : off' + len ≤ off ∨ off + src.length ≤ off') :
    b'.slice off' len = b.slice off' len := by
  obtain ⟨-, rfl⟩ := write_eq_some h
  exact slice_splice_of_disjoint b src hd

theorem slice_of_put {b b' : Buf n} {off off' len : Nat} {x : α} (h : b.put off x = some b')
    (hd : off' + len ≤ off ∨ off + sizeof α ≤ off') : b'.slice off' len = b.slice off' len :=
  slice_of_write h (by rwa [CType.length_toBytes])

theorem get_of_write_disjoint {b b' : Buf n} {off off' : Nat} {src : List Byte}
    (h : b.write off src = some b') (hd : off' + sizeof α ≤ off ∨ off + src.length ≤ off') :
    b'.get α off' = b.get α off' := by
  by_cases hin : off' + sizeof α ≤ n
  · rw [get_eq _ hin, get_eq _ hin, slice_of_write h hd]
  · simp only [get, read, if_neg hin]

theorem slice_uninit (garbage : Nat → Byte) {off len : Nat} (h : off + len ≤ n) :
    (uninit garbage n).slice off len = (List.range len).map fun i => garbage (off + i) := by
  refine List.ext_getElem ?_ fun i h1 h2 => ?_
  · rw [slice_length _ _ _ h]
    simp
  · simp [slice, uninit]

theorem take_eq (b : Buf n) {k : Nat} (h : k ≤ n) :
    b.take k = some ⟨b.slice 0 k, by rw [slice_length b 0 k (by omega)]⟩ := by
  rw [take, dif_pos h]
  rfl

theorem take_eq_some {b : Buf n} {k : Nat} {data : Buf k} (h : b.take k = some data) :
    k ≤ n ∧ b.slice 0 k = data.val := by
  unfold take at h
  split at h
  · next hle => exact ⟨hle, congrArg Subtype.val (Option.some.inj h)⟩
  · cases h

theorem slice_splice_prefix (b : Buf n) (src : List Byte) {k : Nat} (hk : k ≤ src.length)
    (h : src.length ≤ n) : (b.splice 0 src).slice 0 k = src.take k := by
  rw [slice, splice_val b 0 src (by omega)]
  simp [List.take_append_of_le_length hk]

theorem cstr_of_slice (b : Buf n) (p : List Byte) (h0 : 0 ∉ p)
    (h : b.slice 0 (p.length + 1) = p ++ [0]) : cstr b.val = some p := by
  have hb : b.val = p ++ 0 :: b.val.drop (p.length + 1) := by
    conv_lhs => rw [← List.take_append_drop (p.length + 1) b.val]
    rw [slice, List.drop_zero] at h
    rw [h, List.append_assoc, List.singleton_append]
  rw [hb]
  exact cstr_append p _ h0

theorem strcpy_eq (b : Buf n) {src p : List Byte} (h : cstr src = some p)
    (hp : p.length + 1 ≤ n) : b.strcpy src = some (b.splice 0 (p ++ [0])) := by
  rw [strcpy, h]
  exact write_eq b (by simp; omega)

theorem strcpy_of_slice {k : Nat} (b : Buf k) (src : Buf n) {p : List Byte} (h0 : 0 ∉ p)
    (hp : p.length + 1 ≤ k) (h : src.slice 0 (p.length + 1) = p ++ [0]) :
    b.strcpy src.val = some (b.splice 0 (p ++ [0])) :=
  strcpy_eq b (cstr_of_slice src p h0 h) hp

theorem cstr_splice (b : Buf n) {p : List Byte} (h0 : 0 ∉ p) (hp : p.length + 1 ≤ n) :
    cstr (b.splice 0 (p ++ [0])).val = some p :=
  cstr_of_slice _ p h0 (slice_splice b _ (by simp) (by omega))

theorem strcpy_eq_some {b b' : Buf n} {src : List Byte} : b.strcpy src = some b' ↔
    ∃ p, cstr (src.take n) = some p ∧ b' = b.splice 0 (p ++ [0]) := by
  rw [strcpy]
  constructor
  · intro hb
    obtain ⟨p, hp, hb⟩ := Option.bind_eq_some_iff.mp hb
    obtain ⟨hle, hb⟩ := write_eq_some hb
    simp only [List.length_append, List.length_singleton] at hle
    exact ⟨p, cstr_take.mpr ⟨hp, by omega⟩, hb⟩
  · rintro ⟨p, hp, rfl⟩
    obtain ⟨hp, hlt⟩ := cstr_take.mp hp
    rw [hp]
    exact write_eq b (by simp; omega)

/-- `strcpy` reads no further than it can write. -/
theorem strcpy_congr (b : Buf n) {src src' : List Byte} (h : src.take n = src'.take n) :
    b.strcpy src = b.strcpy src' := by
  refine Option.ext fun b' => ?_
  rw [strcpy_eq_some, strcpy_eq_some, h]

theorem strcpy_eq_none (b : Buf n) {src : List Byte} (h : 0 ∉ src.take n) :
    b.strcpy src = none := by
  rw [Option.eq_none_iff_forall_ne_some]
  intro b' hb
  obtain ⟨p, hp, -⟩ := strcpy_eq_some.mp hb
  rw [cstr_eq_none h] at hp
  cases hp

theorem length_of_cstr {b : Buf n} {p : List Byte} (h : cstr b.val = some p) :
    p.length + 1 ≤ n := by
  obtain ⟨-, rest, hrest⟩ := cstr_eq_some h
  rw [← b.property, hrest]
  simp

theorem zero_not_mem_ones (k : Nat) : 0 ∉ (uninit (fun _ => 1) k).val := by
  intro h
  obtain ⟨i, -, hi⟩ := List.mem_map.mp h
  exact absurd hi (by decide)

theorem strcpy_self (b : Buf n) {p : List Byte} (h : cstr b.val = some p) :
    b.strcpy b.val = some b := by
  obtain ⟨-, rest, hb⟩ := cstr_eq_some h
  have hlen : 0 + (p ++ [0]).length ≤ n := by
    have := b.property
    rw [hb] at this
    simp at this ⊢
    omega
  rw [strcpy, h]
  refine (write_eq b hlen).trans (congrArg some (Subtype.ext ?_))
  rw [splice_val b 0 _ hlen, hb]
  simp

end Buf

end CMem
