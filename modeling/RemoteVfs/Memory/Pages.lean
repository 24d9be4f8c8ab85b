import RemoteVfs.Memory.File

/-!
# Files that are mapped into memory

Memory consists of pages, and a page of a process may be a page of a file. Then its bytes are
those of the file, and there are none behind the end of the file.
-/

open FileData

/-- What the pages of each process are. -/
structure PageTable (P F : Type) where
  pageSize : Nat
  pageSize_pos : 0 < pageSize
  page : P → Nat → Option (F × Nat)

namespace PageTable

variable {P F α : Type} (t : PageTable P F)

/-- Nothing is mapped, and a page has 4096 bytes. -/
def empty : PageTable P F where
  pageSize := 4096
  pageSize_pos := by decide
  page _ _ := none

/-- How many pages `n` bytes take. -/
def pagesOf (n : Nat) : Nat := (n + t.pageSize - 1) / t.pageSize

/-- Where the part of the address space ends that processes have. -/
def addressMax : Nat := 2 ^ 47

/-- Room for `n` bytes from page `v` on. Nothing is ever mapped at address 0. -/
def Free (p : P) (v n : Nat) : Prop :=
  0 < v ∧ v * t.pageSize + n ≤ addressMax ∧ ∀ i < t.pagesOf n, t.page p (v + i) = none

instance {p : P} {v n : Nat} : Decidable (t.Free p v n) := inferInstanceAs (Decidable (_ ∧ _ ∧ _))

theorem lt_pagesOf {i n : Nat} (h : i < n) : i / t.pageSize < t.pagesOf n := by
  apply (Nat.le_div_iff_mul_le t.pageSize_pos).mpr
  have := Nat.div_mul_le_self i t.pageSize
  rw [Nat.succ_mul]
  omega

/-! ## Reads -/

/-- What is at an address, if there is anything. -/
def byteAt (data : F → List α) (p : P) (x : Nat) : Option α := do
  let (f, j) ← t.page p (x / t.pageSize)
  (data f)[j * t.pageSize + x % t.pageSize]?

def bytesAt (data : F → List α) (p : P) (x n : Nat) : Option (List α) :=
  (List.range n).mapM fun i => t.byteAt data p (x + i)

/-- The first `n` bytes of a file are mapped at an address. -/
structure Maps (p : P) (a : Nat) (f : F) (n : Nat) : Prop where
  aligned : t.pageSize ∣ a
  page : ∀ i < t.pagesOf n, t.page p (a / t.pageSize + i) = some (f, i)
  pos : 0 < n
  fits : a + n ≤ addressMax

variable {t} {data : F → List α} {p : P} {f : F} {a n : Nat}

theorem Maps.first (h : t.Maps p a f n) : t.page p (a / t.pageSize) = some (f, 0) := by
  have h0 := t.lt_pagesOf h.pos
  rw [Nat.zero_div] at h0
  exact h.page 0 h0

theorem Maps.byteAt (h : t.Maps p a f n) {i : Nat} (hi : i < n) :
    t.byteAt data p (a + i) = (data f)[i]? := by
  obtain ⟨v, rfl⟩ := h.aligned
  have hpage := h.page _ (t.lt_pagesOf hi)
  rw [Nat.mul_div_cancel_left v t.pageSize_pos] at hpage
  rw [PageTable.byteAt, Nat.mul_add_div t.pageSize_pos, Nat.mul_add_mod, hpage]
  change (data f)[i / t.pageSize * t.pageSize + i % t.pageSize]? = _
  rw [Nat.div_add_mod']

theorem Maps.bytesAt (h : t.Maps p a f n) {off m : Nat} (hn : off + m ≤ n)
    (hlen : off + m ≤ (data f).length) :
    t.bytesAt data p (a + off) m = some (readAt (data f) off m) := by
  unfold PageTable.bytesAt
  induction m with
  | zero => simp [readAt]
  | succ m ih =>
    have hlt : off + m < (data f).length := by omega
    have hbyte : t.byteAt data p (a + off + m) = some (data f)[off + m] := by
      rw [Nat.add_assoc, h.byteAt (by omega), List.getElem?_eq_getElem hlt]
    have hone : readAt (data f) (off + m) 1 = [(data f)[off + m]] := by
      rw [readAt, List.take_one_drop_eq_of_lt_length hlt]
      rfl
    rw [List.range_succ, List.mapM_append, ih (by omega) (by omega), ← readAt_append, hone]
    simp [hbyte]

/-! ## Changes -/

variable [DecidableEq P] (t)

/-- The pages from `v` on, `m` of them, become others. -/
def set (p : P) (v m : Nat) (e : Nat → Option (F × Nat)) : PageTable P F :=
  { t with page := Function.update t.page p fun w =>
      if v ≤ w ∧ w < v + m then e (w - v) else t.page p w }

/-- A file is mapped from its page `j` on. -/
def map (p : P) (v n : Nat) (f : F) (j : Nat) : PageTable P F :=
  t.set p v (t.pagesOf n) fun i => some (f, j + i)

def unmap (p : P) (v n : Nat) : PageTable P F := t.set p v (t.pagesOf n) fun _ => none

variable {t}

@[simp] theorem unmap_pageSize (v n : Nat) : (t.unmap p v n).pageSize = t.pageSize := rfl

theorem maps_map {v : Nat} (hn : 0 < n) (hfits : v * t.pageSize + n ≤ addressMax) :
    (t.map p v n f 0).Maps p (v * t.pageSize) f n where
  aligned := Nat.dvd_mul_left _ _
  page i hi := by
    change Function.update t.page p _ p (v * t.pageSize / t.pageSize + i) = _
    rw [Function.update_self, Nat.mul_div_cancel _ t.pageSize_pos,
      if_pos ⟨Nat.le_add_right _ _, Nat.add_lt_add_left hi v⟩, Nat.add_sub_cancel_left]
    exact congrArg (fun j => some (f, j)) (zero_add i)
  pos := hn
  fits := hfits

theorem unmap_page (v n w : Nat) :
    (t.unmap p v n).page p w = t.page p w ∨ (t.unmap p v n).page p w = none := by
  change Function.update t.page p _ p w = _ ∨ Function.update t.page p _ p w = _
  rw [Function.update_self]
  split
  · exact .inr rfl
  · exact .inl rfl

end PageTable
