import RemoteVfs.Memory.Bytes
import RemoteVfs.Memory.Pages

/-!
# Files of a POSIX system, as its processes see them

Descriptors, the bytes of files, names, and advisory locks. A system call can be in
trouble: it fails, or it transfers less than it was asked to. How often is not bounded.
-/

open CMem

namespace Posix

/-! ## Advisory locks -/

inductive Mode
  | read | write
  deriving DecidableEq

/-- The bytes from `start` on. A length of 0 means all of them. -/
structure Range where
  start : Nat
  len : Nat
  deriving DecidableEq

/-- One more than the largest offset. -/
def offMax : Nat := 2 ^ 63

namespace Range

def size (r : Range) : Nat := if r.len = 0 then offMax - r.start else r.len

instance : Membership Nat Range := ⟨fun r b => r.start ≤ b ∧ b < r.start + r.size⟩

variable {r : Range} {b : Nat}

theorem mem_iff : b ∈ r ↔ r.start ≤ b ∧ b < r.start + r.size := .rfl

instance : Decidable (b ∈ r) := inferInstanceAs (Decidable (_ ∧ _))

end Range

/-- What each process has locked of one file. -/
abbrev Locks (P : Type) := P → Nat → Option Mode

namespace Locks

variable {P : Type} {t : Locks P} {p q : P} {m : Mode} {r : Range} {b : Nat}

/-- Nobody has a lock beside a write lock. -/
def Compatible (t : Locks P) : Prop := ∀ p q b, p ≠ q → t p b = some .write → t q b = none

/-- No lock of another process is in the way. -/
def Free (t : Locks P) (p : P) (m : Mode) (r : Range) : Prop :=
  ∀ q, q ≠ p → ∀ i < r.size,
    t q (r.start + i) = none ∨ m = .read ∧ t q (r.start + i) = some .read

instance [Fintype P] [DecidableEq P] : Decidable (Free t p m r) :=
  inferInstanceAs (Decidable (∀ _, _))

theorem Free.apply (h : Free t p m r) (hq : q ≠ p) (hb : b ∈ r) :
    t q b = none ∨ m = .read ∧ t q b = some .read := by
  have hi := h q hq (b - r.start) (by have := hb.1; have := hb.2; omega)
  rwa [Nat.add_sub_cancel' hb.1] at hi

variable [DecidableEq P]

/-- A lock replaces what the process had there. -/
def set (t : Locks P) (p : P) (r : Range) (m : Option Mode) : Locks P :=
  Function.update t p fun b => if b ∈ r then m else t p b

@[simp] theorem set_of_ne {m : Option Mode} (hq : q ≠ p) : t.set p r m q = t q :=
  Function.update_of_ne hq _ _

theorem set_self {m : Option Mode} : t.set p r m p b = if b ∈ r then m else t p b := by
  rw [set, Function.update_self]

theorem Compatible.lock (h : t.Compatible) (hf : t.Free p m r) :
    (t.set p r (some m)).Compatible := by
  intro x y b hne hx
  by_cases hxp : x = p
  · subst hxp
    rw [set_of_ne (Ne.symm hne)]
    rw [set_self] at hx
    by_cases hb : b ∈ r
    · rw [if_pos hb] at hx
      cases hx
      exact (hf.apply (Ne.symm hne) hb).resolve_right fun h => by cases h.1
    · rw [if_neg hb] at hx
      exact h x y b hne hx
  · rw [set_of_ne hxp] at hx
    by_cases hyp : y = p
    · subst hyp
      rw [set_self]
      by_cases hb : b ∈ r
      · rcases hf.apply hxp hb with hnone | ⟨-, hread⟩
        · rw [hnone] at hx; cases hx
        · rw [hread] at hx; cases hx
      · rw [if_neg hb]
        exact h x y b hne hx
    · rw [set_of_ne hyp]
      exact h x y b hne hx

theorem Compatible.unlock (h : t.Compatible) : (t.set p r none).Compatible := by
  intro x y b hne hx
  have hxt : t x b = some .write := by
    by_cases hxp : x = p
    · subst hxp
      rw [set_self] at hx
      split at hx
      · cases hx
      · exact hx
    · rwa [set_of_ne hxp] at hx
  by_cases hyp : y = p
  · subst hyp
    rw [set_self]
    split
    · rfl
    · exact h x y b hne hxt
  · rw [set_of_ne hyp]
    exact h x y b hne hxt

/-- All locks of a process go. -/
def drop (t : Locks P) (p : P) : Locks P := Function.update t p fun _ => none

@[simp] theorem drop_of_ne (hq : q ≠ p) : t.drop p q = t q := Function.update_of_ne hq _ _

theorem Compatible.drop (h : t.Compatible) : (t.drop p).Compatible := by
  intro x y b hne hx
  by_cases hxp : x = p
  · subst hxp
    simp [Locks.drop] at hx
  · rw [drop_of_ne hxp] at hx
    by_cases hyp : y = p
    · subst hyp
      simp [Locks.drop]
    · rw [drop_of_ne hyp]
      exact h x y b hne hx

end Locks

/-! ## The kernel -/

abbrev Fd := BitVec 32
abbrev Errno := BitVec 32

def enoent : Errno := 2
def eintr : Errno := 4
def ebadf : Errno := 9
def eagain : Errno := 11
def eexist : Errno := 17
def einval : Errno := 22
def emfile : Errno := 24
def enospc : Errno := 28

/-- What happens to one system call. -/
inductive Trouble
  | fine
  | errno (e : Errno)
  /-- Not all bytes are transferred. -/
  | short (n : Nat)

/-- An open file description. -/
structure Description (F : Type) where
  file : F
  pos : Nat
  writable : Bool

/-- `trouble` is for the calls to come, the next one first. -/
structure Kernel (P F : Type) where
  fd : P → Fd → Option (Description F)
  memory : PageTable P F
  data : F → List Byte
  locks : F → Locks P
  name : List Byte → Option F
  /-- Files that have not been created. -/
  unborn : List F
  trouble : List Trouble
  /-- `fstat` on an open descriptor has its own troubles, if any. -/
  statTrouble : List (Option Errno)
  /-- The pages where the mappings to come will begin, if there is room. -/
  places : List Nat
  blksize : Nat
  blksize_pos : 0 < blksize

namespace Kernel

variable {P F α : Type}

/-- What a pointer leads to. `none` is a `SIGSEGV`, or a `SIGBUS` behind the end of a file. -/
def bytesAt (p : P) (a : BitVec 64) (n : Nat) (k : Kernel P F) : Option (List Byte) :=
  k.memory.bytesAt k.data p a.toNat n

/-- The kernel after the next trouble. -/
def next (k : Kernel P F) : Kernel P F := { k with trouble := k.trouble.tail }

theorem trouble_of_next {k k' : Kernel P F} (hk : k'.trouble = k.next.trouble) :
    k'.trouble.length ≤ k.trouble.length ∧
      (k.trouble ≠ [] → k'.trouble.length < k.trouble.length) := by
  rw [hk, next, List.length_tail]
  refine ⟨Nat.sub_le _ _, fun hne => ?_⟩
  have := List.length_pos_iff.mpr hne
  omega

/-- A call on a descriptor. -/
def onFd (p : P) (h : Fd)
    (f : Trouble → Description F → Kernel P F → Except Errno α × Kernel P F) (k : Kernel P F) :
    Except Errno α × Kernel P F :=
  match k.trouble.headD .fine, k.fd p h with
  | .errno e, _ => (.error e, k.next)
  | _, none => (.error ebadf, k.next)
  | t, some o => f t o k.next

theorem onFd_cases (p : P) (h : Fd)
    (f : Trouble → Description F → Kernel P F → Except Errno α × Kernel P F) (k : Kernel P F) :
    (∃ e, k.onFd p h f = (.error e, k.next) ∧ (e = ebadf ∨ k.trouble ≠ [])) ∨
      ∃ t o, k.fd p h = some o ∧ k.onFd p h f = f t o k.next := by
  cases ht : k.trouble with
  | nil =>
    cases hfd : k.fd p h with
    | none => exact .inl ⟨ebadf, by simp [onFd, ht, hfd], .inl rfl⟩
    | some o => exact .inr ⟨.fine, o, rfl, by simp [onFd, ht, hfd]⟩
  | cons t ts =>
    cases t with
    | errno e => exact .inl ⟨e, by simp [onFd, ht], .inr (List.cons_ne_nil _ _)⟩
    | fine =>
      cases hfd : k.fd p h with
      | none => exact .inl ⟨ebadf, by simp [onFd, ht, hfd], .inl rfl⟩
      | some o => exact .inr ⟨.fine, o, rfl, by simp [onFd, ht, hfd]⟩
    | short n =>
      cases hfd : k.fd p h with
      | none => exact .inl ⟨ebadf, by simp [onFd, ht, hfd], .inl rfl⟩
      | some o => exact .inr ⟨.short n, o, rfl, by simp [onFd, ht, hfd]⟩

/-- What every call on data keeps: files and locks, but not positions. -/
structure Kept (k k' : Kernel P F) : Prop where
  target : ∀ p h, (k'.fd p h).map (fun o => (o.file, o.writable)) =
    (k.fd p h).map fun o => (o.file, o.writable)
  locks : k'.locks = k.locks
  name : k'.name = k.name
  unborn : k'.unborn = k.unborn

/-- Memory is kept too. -/
structure Same (k k' : Kernel P F) : Prop extends Kept k k' where
  memory : k'.memory = k.memory

theorem Kept.refl (k : Kernel P F) : Kept k k := ⟨fun _ _ => rfl, rfl, rfl, rfl⟩

theorem Kept.trans {k k' k'' : Kernel P F} (h : Kept k k') (h' : Kept k' k'') : Kept k k'' :=
  ⟨fun p x => (h'.target p x).trans (h.target p x), h'.locks.trans h.locks,
    h'.name.trans h.name, h'.unborn.trans h.unborn⟩

theorem Same.refl (k : Kernel P F) : Same k k := ⟨.refl k, rfl⟩

theorem Same.trans {k k' k'' : Kernel P F} (h : Same k k') (h' : Same k' k'') : Same k k'' :=
  ⟨h.toKept.trans h'.toKept, h'.memory.trans h.memory⟩

theorem same_next (k : Kernel P F) : Same k k.next := ⟨⟨fun _ _ => rfl, rfl, rfl, rfl⟩, rfl⟩

/-- The descriptor is open on the file. -/
def Opens (k : Kernel P F) (p : P) (h : Fd) (f : F) : Prop := ∃ o, k.fd p h = some o ∧ o.file = f

theorem Opens.unique {k : Kernel P F} {p : P} {h : Fd} {f f' : F} (hf : k.Opens p h f)
    (hf' : k.Opens p h f') : f = f' := by
  obtain ⟨o, ho, rfl⟩ := hf
  obtain ⟨o', ho', rfl⟩ := hf'
  rw [Option.some.inj (ho.symm.trans ho')]

theorem Kept.opens {k k' : Kernel P F} (hs : Kept k k') {p : P} {h : Fd} {f : F}
    (ho : k.Opens p h f) : k'.Opens p h f := by
  obtain ⟨o, ho, hf⟩ := ho
  have ht := hs.target p h
  rw [ho, Option.map_some, Option.map_eq_some_iff] at ht
  obtain ⟨o', ho', heq⟩ := ht
  exact ⟨o', ho', (congrArg Prod.fst heq).trans hf⟩

/-! ## Calls that leave the data alone -/

variable [DecidableEq P]

def setFd (p : P) (h : Fd) (o : Option (Description F)) (k : Kernel P F) : Kernel P F :=
  { k with fd := Function.update k.fd p (Function.update (k.fd p) h o) }

theorem setFd_self {p : P} {h : Fd} {o : Option (Description F)} {k : Kernel P F} :
    (k.setFd p h o).fd p h = o := by
  simp [setFd]

theorem setFd_of_ne {p q : P} {h x : Fd} {o : Option (Description F)} {k : Kernel P F}
    (hne : ¬ (q = p ∧ x = h)) : (k.setFd p h o).fd q x = k.fd q x := by
  by_cases hq : q = p
  · subst hq
    have hx : x ≠ h := fun hx => hne ⟨rfl, hx⟩
    simp [setFd, hx]
  · simp [setFd, hq]

theorem same_setFd {p : P} {h : Fd} {o : Description F} {k : Kernel P F}
    (ho : k.fd p h = some o) (pos : Nat) : Same k (k.setFd p h (some { o with pos := pos })) where
  target q x := by
    by_cases hqx : q = p ∧ x = h
    · rw [hqx.1, hqx.2, setFd_self, ho]
      rfl
    · rw [setFd_of_ne hqx]
  locks := rfl
  name := rfl
  unborn := rfl
  memory := rfl

def lseek (p : P) (h : Fd) (off : Int) : Kernel P F → Except Errno Unit × Kernel P F :=
  onFd p h fun _ o k =>
    if off < 0 then (.error einval, k)
    else (.ok (), k.setFd p h (some { o with pos := off.toNat }))

/-- At least one byte, if there is one. -/
def read (p : P) (h : Fd) (cnt : Nat) : Kernel P F → Except Errno (List Byte) × Kernel P F :=
  onFd p h fun t o k =>
    let cnt := match t with
      | .short n => min cnt (n + 1)
      | _ => cnt
    let got := FileData.readAt (k.data o.file) o.pos cnt
    (.ok got, k.setFd p h (some { o with pos := o.pos + got.length }))

/-- The file itself; its size is that of its data. -/
def fstat (p : P) (h : Fd) (k : Kernel P F) : Except Errno F × Kernel P F :=
  let k' := { k with statTrouble := k.statTrouble.tail }
  match k.statTrouble.headD none, k.fd p h with
  | some e, _ => (.error e, k')
  | none, none => (.error ebadf, k')
  | none, some o => (.ok o.file, k')

/-- `MAP_FAILED`, where there is no room. -/
def mmap (p : P) (h : Fd) (n : Nat) (k : Kernel P F) : BitVec 64 × Kernel P F :=
  let v := k.places.headD 0
  let k' := { k with places := k.places.tail }
  match k.fd p h with
  | none => (-1, k')
  | some o =>
    if 0 < n ∧ k.memory.Free p v n then
      (BitVec.ofNat 64 (v * k.memory.pageSize), { k' with memory := k.memory.map p v n o.file 0 })
    else (-1, k')

/-- Whole pages, from one that begins at `a`. -/
def munmap (p : P) (a : BitVec 64) (n : Nat) (k : Kernel P F) : Kernel P F :=
  match k.trouble.headD .fine with
  | .errno _ => k.next
  | _ =>
    if k.memory.pageSize ∣ a.toNat ∧ 0 < n then
      { k.next with memory := k.memory.unmap p (a.toNat / k.memory.pageSize) n }
    else k.next

/-- `F_GETLK`: whether a lock of another process is in the way. -/
def getlk [Fintype P] (p : P) (h : Fd) (m : Mode) (r : Range) :
    Kernel P F → Except Errno Bool × Kernel P F :=
  onFd p h fun _ o k => (.ok (decide ¬ (k.locks o.file).Free p m r), k)

section

variable (p : P) (h : Fd) (k : Kernel P F)

theorem mmap_cases (n : Nat) : (∃ places, k.mmap p h n = (-1, { k with places })) ∨
    ∃ v places o, k.fd p h = some o ∧ 0 < n ∧ k.memory.Free p v n ∧
      k.mmap p h n = (BitVec.ofNat 64 (v * k.memory.pageSize),
        { k with places, memory := k.memory.map p v n o.file 0 }) := by
  rw [mmap]
  rcases hfd : k.fd p h with _ | o
  · exact .inl ⟨_, rfl⟩
  · by_cases hroom : 0 < n ∧ k.memory.Free p (k.places.headD 0) n
    · exact .inr ⟨_, _, o, rfl, hroom.1, hroom.2, if_pos hroom⟩
    · exact .inl ⟨_, if_neg hroom⟩

theorem munmap_keeps (a : BitVec 64) (n : Nat) :
    Kept k (k.munmap p a n) ∧ (k.munmap p a n).data = k.data ∧
      (k.munmap p a n).memory.pageSize = k.memory.pageSize ∧
      ∀ v, (k.munmap p a n).memory.page p v = k.memory.page p v ∨
        (k.munmap p a n).memory.page p v = none := by
  rw [munmap]
  split
  · exact ⟨⟨fun _ _ => rfl, rfl, rfl, rfl⟩, rfl, rfl, fun _ => .inl rfl⟩
  · split
    · exact ⟨⟨fun _ _ => rfl, rfl, rfl, rfl⟩, rfl, rfl, PageTable.unmap_page _ _⟩
    · exact ⟨⟨fun _ _ => rfl, rfl, rfl, rfl⟩, rfl, rfl, fun _ => .inl rfl⟩

omit [DecidableEq P] in
theorem fstat_keeps {r : Except Errno F} {k' : Kernel P F} (hk : k.fstat p h = (r, k')) :
    Same k k' ∧ k'.data = k.data ∧ ∀ f, r = .ok f → k.Opens p h f := by
  rw [fstat] at hk
  split at hk
  · cases hk
    exact ⟨⟨⟨fun _ _ => rfl, rfl, rfl, rfl⟩, rfl⟩, rfl, nofun⟩
  · cases hk
    exact ⟨⟨⟨fun _ _ => rfl, rfl, rfl, rfl⟩, rfl⟩, rfl, nofun⟩
  · next o _ hfd =>
    cases hk
    exact ⟨⟨⟨fun _ _ => rfl, rfl, rfl, rfl⟩, rfl⟩, rfl, fun f hf => ⟨o, hfd, Except.ok.inj hf⟩⟩

theorem lseek_cases (off : Int) : (∃ e, k.lseek p h off = (.error e, k.next)) ∨
    ∃ o, k.fd p h = some o ∧ 0 ≤ off ∧
      k.lseek p h off = (.ok (), k.next.setFd p h (some { o with pos := off.toNat })) := by
  rcases onFd_cases p h _ k with ⟨e, he, -⟩ | ⟨t, o, hfd, ho⟩
  · exact .inl ⟨e, he⟩
  · by_cases hoff : off < 0
    · exact .inl ⟨einval, ho.trans (if_pos hoff)⟩
    · exact .inr ⟨o, hfd, not_lt.mp hoff, ho.trans (if_neg hoff)⟩

theorem read_cases (cnt : Nat) :
    (∃ e, k.read p h cnt = (.error e, k.next) ∧ (e = eintr → k.trouble ≠ [])) ∨
      ∃ o n, k.fd p h = some o ∧ n ≤ cnt ∧ (n = 0 → cnt = 0) ∧
        k.read p h cnt = (.ok (FileData.readAt (k.data o.file) o.pos n),
          k.next.setFd p h (some { o with
            pos := o.pos + (FileData.readAt (k.data o.file) o.pos n).length })) := by
  rcases onFd_cases p h _ k with ⟨e, he, hcase⟩ | ⟨t, o, hfd, ho⟩
  · refine .inl ⟨e, he, fun hintr => hcase.resolve_left ?_⟩
    rw [hintr]
    decide
  · cases t with
    | short n => exact .inr ⟨o, min cnt (n + 1), hfd, min_le_left _ _, by omega, ho⟩
    | _ => exact .inr ⟨o, cnt, hfd, le_rfl, id, ho⟩

variable {p h k}

theorem lseek_keeps {f : F} (hf : k.Opens p h f) {off : Int} {r : Except Errno Unit}
    {k' : Kernel P F} (hk : k.lseek p h off = (r, k')) :
    Same k k' ∧ k'.data = k.data ∧
      (r = .ok () → ∃ o, k'.fd p h = some o ∧ o.file = f ∧ o.pos = off.toNat) := by
  rcases lseek_cases p h k off with ⟨e, he⟩ | ⟨o, hfd, -, ho⟩
  · obtain ⟨rfl, rfl⟩ := Prod.mk.inj (he.symm.trans hk)
    exact ⟨same_next k, rfl, nofun⟩
  · obtain ⟨rfl, rfl⟩ := Prod.mk.inj (ho.symm.trans hk)
    obtain ⟨o', hfd', hfile⟩ := hf
    obtain rfl := Option.some.inj (hfd.symm.trans hfd')
    exact ⟨(same_next k).trans (same_setFd (k := k.next) hfd _), rfl,
      fun _ => ⟨_, setFd_self, hfile, rfl⟩⟩

theorem read_keeps {cnt : Nat} {r : Except Errno (List Byte)} {o : Description F}
    (hfd : k.fd p h = some o) {k' : Kernel P F} (hk : k.read p h cnt = (r, k')) :
    Same k k' ∧ k'.data = k.data ∧ ∀ data, r = .ok data →
      ∃ n ≤ cnt, (n = 0 → cnt = 0) ∧ data = FileData.readAt (k.data o.file) o.pos n := by
  rcases read_cases p h k cnt with ⟨e, he, -⟩ | ⟨o', n, hfd', hn, h0, ho⟩
  · obtain ⟨rfl, rfl⟩ := Prod.mk.inj (he.symm.trans hk)
    exact ⟨same_next k, rfl, nofun⟩
  · obtain ⟨rfl, rfl⟩ := Prod.mk.inj (ho.symm.trans hk)
    obtain rfl := Option.some.inj (hfd.symm.trans hfd')
    exact ⟨(same_next k).trans (same_setFd (k := k.next) hfd _), rfl,
      fun data hdata => ⟨n, hn, h0, (Except.ok.inj hdata).symm⟩⟩

theorem lseek_trouble {off : Int} {r : Except Errno Unit} {k' : Kernel P F}
    (hk : k.lseek p h off = (r, k')) : k'.trouble.length ≤ k.trouble.length := by
  refine (trouble_of_next ?_).1
  rcases lseek_cases p h k off with ⟨e, he⟩ | ⟨o, -, -, ho⟩
  · rw [← (Prod.mk.inj (he.symm.trans hk)).2]
  · rw [← (Prod.mk.inj (ho.symm.trans hk)).2]
    rfl

theorem read_trouble {cnt : Nat} {r : Except Errno (List Byte)} {k' : Kernel P F}
    (hk : k.read p h cnt = (r, k')) :
    k'.trouble.length ≤ k.trouble.length ∧
      (r = .error eintr → k'.trouble.length < k.trouble.length) ∧
      ∀ data, r = .ok data → data.length ≤ cnt := by
  rcases read_cases p h k cnt with ⟨e, he, hintr⟩ | ⟨o, n, -, hn, -, ho⟩
  · obtain ⟨rfl, rfl⟩ := Prod.mk.inj (he.symm.trans hk)
    refine ⟨(trouble_of_next rfl).1, fun h => (trouble_of_next rfl).2 ?_, nofun⟩
    exact hintr (Except.error.inj h)
  · obtain ⟨rfl, rfl⟩ := Prod.mk.inj (ho.symm.trans hk)
    refine ⟨(trouble_of_next rfl).1, nofun, fun data hdata => ?_⟩
    rw [← Except.ok.inj hdata, FileData.length_readAt]
    exact (min_le_left _ _).trans hn

end

/-! ## Calls that change a file -/

variable [DecidableEq F]

def setData (f : F) (d : List Byte) (k : Kernel P F) : Kernel P F :=
  { k with data := Function.update k.data f d }

def setLocks (f : F) (t : Locks P) (k : Kernel P F) : Kernel P F :=
  { k with locks := Function.update k.locks f t }

/-- With `MREMAP_MAYMOVE`. `MAP_FAILED` where the old pages are not those of one file, one after the
other, or where there is no room once they have gone. -/
def mremap (p : P) (a : BitVec 64) (old new : Nat) (k : Kernel P F) : BitVec 64 × Kernel P F :=
  let v := k.places.headD 0
  let k' := { k with places := k.places.tail }
  let w := a.toNat / k.memory.pageSize
  let rest := k.memory.unmap p w old
  match k.memory.page p w with
  | none => (-1, k')
  | some (f, j) =>
    if k.memory.pageSize ∣ a.toNat ∧ 0 < new ∧
        (∀ i < k.memory.pagesOf old, k.memory.page p (w + i) = some (f, j + i)) ∧
        rest.Free p v new then
      (BitVec.ofNat 64 (v * k.memory.pageSize), { k' with memory := rest.map p v new f j })
    else (-1, k')

def write (p : P) (h : Fd) (buf : List Byte) : Kernel P F → Except Errno Nat × Kernel P F :=
  onFd p h fun t o k =>
    if o.writable = false then (.error ebadf, k)
    else
      let part := match t with
        | .short n => buf.take n
        | _ => buf
      (.ok part.length, (k.setFd p h (some { o with pos := o.pos + part.length })).setData o.file
        (FileData.writeAt (k.data o.file) o.pos part))

def ftruncate (p : P) (h : Fd) (n : Int) : Kernel P F → Except Errno Unit × Kernel P F :=
  onFd p h fun _ o k =>
    if o.writable = false ∨ n < 0 then (.error einval, k)
    else (.ok (), k.setData o.file (FileData.resize (k.data o.file) n.toNat))

/-- `F_SETLK`. No mode means unlock. -/
def setlk [Fintype P] (p : P) (h : Fd) (m : Option Mode) (r : Range) :
    Kernel P F → Except Errno Unit × Kernel P F :=
  onFd p h fun _ o k =>
    let t := k.locks o.file
    match m with
    | none => (.ok (), k.setLocks o.file (t.set p r none))
    | some m =>
      if m = .write ∧ o.writable = false then (.error ebadf, k)
      else if t.Free p m r then (.ok (), k.setLocks o.file (t.set p r (some m)))
      else (.error eagain, k)

/-- With the descriptor go all locks that the process has on the file. -/
def close (p : P) (h : Fd) (k : Kernel P F) : Kernel P F :=
  match k.fd p h with
  | none => k
  | some o => (k.setFd p h none).setLocks o.file ((k.locks o.file).drop p)

section

variable (p : P) (h : Fd) (k : Kernel P F)

theorem mremap_cases (a : BitVec 64) (old new : Nat) :
    (∃ places, k.mremap p a old new = (-1, { k with places })) ∨
    ∃ v places f j, k.memory.page p (a.toNat / k.memory.pageSize) = some (f, j) ∧ 0 < new ∧
      (k.memory.unmap p (a.toNat / k.memory.pageSize) old).Free p v new ∧
      k.mremap p a old new = (BitVec.ofNat 64 (v * k.memory.pageSize), { k with
        places
        memory := (k.memory.unmap p (a.toNat / k.memory.pageSize) old).map p v new f j }) := by
  rw [mremap]
  rcases hpage : k.memory.page p (a.toNat / k.memory.pageSize) with _ | ⟨f, j⟩
  · exact .inl ⟨_, rfl⟩
  · dsimp only
    split
    · next hroom => exact .inr ⟨_, _, f, j, rfl, hroom.2.1, hroom.2.2.2, rfl⟩
    · exact .inl ⟨_, rfl⟩

theorem write_cases (buf : List Byte) :
    (∃ e, k.write p h buf = (.error e, k.next) ∧ (e = eintr → k.trouble ≠ [])) ∨
      ∃ o n, k.fd p h = some o ∧ o.writable = true ∧ n ≤ buf.length ∧
        k.write p h buf = (.ok n, (k.next.setFd p h
          (some { o with pos := o.pos + n })).setData o.file
          (FileData.writeAt (k.data o.file) o.pos (buf.take n))) := by
  rcases onFd_cases p h _ k with ⟨e, he, hcase⟩ | ⟨t, o, hfd, ho⟩
  · refine .inl ⟨e, he, fun hintr => hcase.resolve_left ?_⟩
    rw [hintr]
    decide
  · by_cases hw : o.writable = false
    · exact .inl ⟨ebadf, ho.trans (if_pos hw), fun h => absurd h (by decide)⟩
    · rw [if_neg hw] at ho
      have hw : o.writable = true := by simpa using hw
      cases t with
      | short n =>
        refine .inr ⟨o, min n buf.length, hfd, hw, min_le_right _ _, ho.trans ?_⟩
        rw [← List.take_eq_take_min]
        simp [next]
      | _ => exact .inr ⟨o, buf.length, hfd, hw, le_rfl, by rw [List.take_length]; exact ho⟩

variable {p h k} in
theorem write_keeps {buf : List Byte} {r : Except Errno Nat} {o : Description F}
    (hfd : k.fd p h = some o) {k' : Kernel P F} (hk : k.write p h buf = (r, k')) :
    Same k k' ∧ ((∃ e, r = .error e ∧ k'.data = k.data) ∨ ∃ n ≤ buf.length, r = .ok n ∧
      k'.data = Function.update k.data o.file
        (FileData.writeAt (k.data o.file) o.pos (buf.take n))) := by
  rcases write_cases p h k buf with ⟨e, he, -⟩ | ⟨o', n, hfd', -, hn, ho⟩
  · obtain ⟨rfl, rfl⟩ := Prod.mk.inj (he.symm.trans hk)
    exact ⟨same_next k, .inl ⟨e, rfl, rfl⟩⟩
  · obtain ⟨rfl, rfl⟩ := Prod.mk.inj (ho.symm.trans hk)
    obtain rfl := Option.some.inj (hfd.symm.trans hfd')
    have hsame := (same_next k).trans (same_setFd (k := k.next) hfd (o.pos + n))
    exact ⟨⟨⟨hsame.target, hsame.locks, hsame.name, hsame.unborn⟩, hsame.memory⟩,
      .inr ⟨n, hn, rfl, rfl⟩⟩

variable {p h k} in
theorem write_trouble {buf : List Byte} {r : Except Errno Nat} {k' : Kernel P F}
    (hk : k.write p h buf = (r, k')) : k'.trouble.length ≤ k.trouble.length ∧
      (r = .error eintr → k'.trouble.length < k.trouble.length) := by
  rcases write_cases p h k buf with ⟨e, he, hintr⟩ | ⟨o, n, -, -, -, ho⟩
  · obtain ⟨rfl, rfl⟩ := Prod.mk.inj (he.symm.trans hk)
    exact ⟨(trouble_of_next rfl).1, fun h => (trouble_of_next rfl).2 (hintr (Except.error.inj h))⟩
  · obtain ⟨rfl, rfl⟩ := Prod.mk.inj (ho.symm.trans hk)
    exact ⟨(trouble_of_next rfl).1, nofun⟩

omit [DecidableEq P] in
theorem ftruncate_cases (n : Int) :
    (∃ e, k.ftruncate p h n = (.error e, k.next) ∧ (e = eintr → k.trouble ≠ [])) ∨
      ∃ o, k.fd p h = some o ∧ o.writable = true ∧ 0 ≤ n ∧
        k.ftruncate p h n =
          (.ok (), k.next.setData o.file (FileData.resize (k.data o.file) n.toNat)) := by
  rcases onFd_cases p h _ k with ⟨e, he, hcase⟩ | ⟨t, o, hfd, ho⟩
  · refine .inl ⟨e, he, fun hintr => hcase.resolve_left ?_⟩
    rw [hintr]
    decide
  · by_cases hw : o.writable = false ∨ n < 0
    · exact .inl ⟨einval, ho.trans (if_pos hw), fun h => absurd h (by decide)⟩
    · rw [if_neg hw] at ho
      obtain ⟨hw, hn⟩ := not_or.mp hw
      exact .inr ⟨o, hfd, by simpa using hw, not_lt.mp hn, ho⟩

variable {p h k} in
omit [DecidableEq P] in
theorem ftruncate_keeps {n : Int} {r : Except Errno Unit} {f : F} (hf : k.Opens p h f)
    {k' : Kernel P F} (hk : k.ftruncate p h n = (r, k')) :
    Same k k' ∧ ((∃ e, r = .error e ∧ k'.data = k.data) ∨ 0 ≤ n ∧ r = .ok () ∧
      k'.data = Function.update k.data f (FileData.resize (k.data f) n.toNat)) := by
  rcases ftruncate_cases p h k n with ⟨e, he, -⟩ | ⟨o, hfd, -, hn, ho⟩
  · obtain ⟨rfl, rfl⟩ := Prod.mk.inj (he.symm.trans hk)
    exact ⟨same_next k, .inl ⟨e, rfl, rfl⟩⟩
  · obtain ⟨rfl, rfl⟩ := Prod.mk.inj (ho.symm.trans hk)
    obtain ⟨o', hfd', rfl⟩ := hf
    obtain rfl := Option.some.inj (hfd.symm.trans hfd')
    exact ⟨⟨⟨fun _ _ => rfl, rfl, rfl, rfl⟩, rfl⟩, .inr ⟨hn, rfl, rfl⟩⟩

variable {p h k} in
omit [DecidableEq P] in
theorem ftruncate_trouble {n : Int} {k' : Kernel P F}
    (hk : k.ftruncate p h n = (.error eintr, k')) :
    k'.trouble.length < k.trouble.length := by
  rcases ftruncate_cases p h k n with ⟨e, he, hintr⟩ | ⟨o, -, -, -, ho⟩
  · obtain ⟨h, rfl⟩ := Prod.mk.inj (he.symm.trans hk)
    exact (trouble_of_next rfl).2 (hintr (Except.error.inj h))
  · cases ho.symm.trans hk

end

/-! ## Calls on names -/

structure OpenFlags where
  write : Bool
  create : Bool
  exclusive : Bool
  deriving DecidableEq

/-- The limit on descriptors of a process. -/
def openMax : Nat := 1024

/-- The lowest descriptor that is not used. 0, 1 and 2 are. -/
def freeFd (p : P) (k : Kernel P F) : Option Fd :=
  ((List.range' 3 (openMax - 3)).map (BitVec.ofNat 32)).find? fun h => (k.fd p h).isNone

/-- The file that an `open` is for, and whether it is new. -/
def lookup (path : List Byte) (flags : OpenFlags) (k : Kernel P F) :
    Except Errno F × Kernel P F :=
  match k.name path, k.unborn with
  | some f, _ => if flags.create ∧ flags.exclusive then (.error eexist, k) else (.ok f, k)
  | none, fs =>
    if flags.create = false then (.error enoent, k)
    else match fs with
      | [] => (.error enospc, k)
      | f :: fs => (.ok f, { k with name := Function.update k.name path (some f), unborn := fs })

def open_ (p : P) (path : List Byte) (flags : OpenFlags) (k : Kernel P F) :
    Except Errno Fd × Kernel P F :=
  match k.trouble.headD .fine, k.freeFd p with
  | .errno e, _ => (.error e, k.next)
  | _, none => (.error emfile, k.next)
  | _, some h =>
    match k.next.lookup path flags with
    | (.error e, k) => (.error e, k)
    | (.ok f, k) => (.ok h, k.setFd p h (some ⟨f, 0, flags.write⟩))

def stat (path : List Byte) (k : Kernel P F) : Except Errno F × Kernel P F :=
  match k.trouble.headD .fine, k.name path with
  | .errno e, _ => (.error e, k.next)
  | _, none => (.error enoent, k.next)
  | _, some f => (.ok f, k.next)

def unlink (path : List Byte) (k : Kernel P F) : Except Errno Unit × Kernel P F :=
  match k.trouble.headD .fine, k.name path with
  | .errno e, _ => (.error e, k.next)
  | _, none => (.error enoent, k.next)
  | _, some _ => (.ok (), { k.next with name := Function.update k.name path none })

end Kernel

end Posix
