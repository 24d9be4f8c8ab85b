import RemoteVfs.Process.Shape

/-!
# The books of a process

For each inode they are right, and what they say is backed by locks.
-/

open CMem Locking Posix

namespace RemoteVfs

open LockCalls

variable {H F : Type} [DecidableEq F]

/-! ## Memory -/

/-- The same locks on every file. -/
structure SameLocks (m m' : Memory F) : Prop where
  lock : m'.own.lock = m.own.lock
  closed : ∀ f, dbGate.Closed f m.log → dbGate.Closed f m'.log
  guards : dbGate.Guards m.log → dbGate.Guards m'.log

/-- Nothing to speak of has happened. -/
structure Quiet (m m' : Memory F) : Prop extends SameLocks m m' where
  inodeList : m'.inodeList = m.inodeList
  unused : m'.unused = m.unused
  heap : m'.heap = m.heap
  fd : m'.own.fd = m.own.fd

theorem SameLocks.refl (m : Memory F) : SameLocks m m := ⟨rfl, fun _ h => h, id⟩

theorem SameLocks.trans {m m' m'' : Memory F} (h : SameLocks m m') (h' : SameLocks m' m'') :
    SameLocks m m'' :=
  ⟨h'.lock.trans h.lock, fun f hf => h'.closed f (h.closed f hf), fun hg => h'.guards (h.guards hg)⟩

theorem SameLocks.did {m : Memory F} {e : Syscall F} (hlock : (m.own.act e).lock = m.own.lock)
    (hallows : dbGate.Allows m.own e) : SameLocks m (m.did e) := by
  refine ⟨hlock, fun f hf => ⟨?_, .inl hf⟩, fun hg => ⟨hg, hallows⟩⟩
  change (m.own.act e).lock f _ = _
  rw [hlock]
  exact hf.byte

theorem Backed.sameLocks {f : F} {m m' : Memory F} {top : Nat} (hb : Backed f m top)
    (h : SameLocks m m') : Backed f m' top :=
  ⟨by rw [h.lock]; exact hb.shared, by rw [h.lock]; exact hb.reserved,
    by rw [h.lock]; exact hb.pending, fun htop => h.closed f (hb.exclusive htop)⟩

theorem Quiet.refl (m : Memory F) : Quiet m m := ⟨.refl m, rfl, rfl, rfl, rfl⟩

theorem Quiet.trans {m m' m'' : Memory F} (h : Quiet m m') (h' : Quiet m' m'') : Quiet m m'' :=
  ⟨h.toSameLocks.trans h'.toSameLocks, h'.inodeList.trans h.inodeList, h'.unused.trans h.unused,
    h'.heap.trans h.heap, h'.fd.trans h.fd⟩

theorem Quiet.did {m : Memory F} {e : Syscall F} (hact : m.own.act e = m.own)
    (hallows : dbGate.Allows m.own e) : Quiet m (m.did e) :=
  ⟨.did (by rw [hact]) hallows, rfl, rfl, rfl, congrArg Own.fd hact⟩

/-! ## Books -/

/-- It is there for the files on it, and not for "unix-excl". -/
def UnixInodeInfo.Live (p : UnixInodeInfo) : Prop := 0 < p.nRef ∧ p.bProcessLock = 0

/-- A descriptor waits for as long as there are locks on its inode. -/
def LockOs.Tidy {W : Type} (os : LockOs W) : Prop :=
  ∀ a, (os.inode a).nLock = 0 → (os.inode a).pUnused = []

theorem LockOs.Tidy.setInode {W : Type} {os : LockOs W} (h : os.Tidy) {a : Ptr}
    {info : UnixInodeInfo} (hinfo : info.nLock = 0 → info.pUnused = []) :
    (os.setInode a info).Tidy := by
  intro a' h0
  by_cases hne : a' = a
  · subst hne
    rw [LockOs.setInode_inode] at h0 ⊢
    exact hinfo h0
  · simp only [LockOs.setInode, Function.update_of_ne hne] at h0 ⊢
    exact h a' h0

variable [Fintype H]

structure Process.Books (s : Process H F) : Prop where
  accounts : ∀ a f, (a, f) ∈ s.os.rest.inodeList →
    Accounts (s.os.ledger a) fun h => (s.slot h).level a
  backed : ∀ a f, (a, f) ∈ s.os.rest.inodeList → Backed f s.os.rest (s.os.ledger a).top
  guards : dbGate.Guards s.os.rest.log

namespace Process

/-- What holds after every step. -/
structure Inv (s : Process H F) : Prop where
  shape : s.Shape
  books : s.Books
  live : ∀ a f, (a, f) ∈ s.os.rest.inodeList → (s.os.inode a).Live

variable {s : Process H F} {os' : LockOs (Memory F)} {slot' : H → Slot} {a : Ptr} {f : F}

namespace Books

theorem frame (hb : s.Books) (hlist : ∀ x ∈ os'.rest.inodeList, x ∈ s.os.rest.inodeList)
    (hledger : ∀ a, os'.ledger a = s.os.ledger a)
    (hlevel : ∀ a ≠ 0, ∀ h, (slot' h).level a = (s.slot h).level a)
    (hs : s.Shape) (hlocks : SameLocks s.os.rest os'.rest) : Process.Books ⟨os', slot'⟩ where
  accounts a f ha := by
    simp only [hlevel a (hs.node a f (hlist _ ha)).1, hledger]
    exact hb.accounts a f (hlist _ ha)
  backed a f ha := by
    rw [hledger]
    exact (hb.backed a f (hlist _ ha)).sameLocks hlocks
  guards := hlocks.guards hb.guards

theorem change (hb : s.Books) (hlist : ∀ x ∈ os'.rest.inodeList, x ∈ s.os.rest.inodeList)
    (hledger : ∀ a, os'.ledger a = s.os.ledger a)
    (hlevel : ∀ a ≠ 0, ∀ h, (slot' h).level a = (s.slot h).level a)
    (hs : s.Shape) (he : Elsewhere f s.os.rest os'.rest)
    (hguards : dbGate.Guards s.os.rest.log → dbGate.Guards os'.rest.log)
    (hf : ∀ a, (a, f) ∈ os'.rest.inodeList → Backed f os'.rest (s.os.ledger a).top) :
    Process.Books ⟨os', slot'⟩ where
  accounts a f ha := by
    simp only [hlevel a (hs.node a f (hlist _ ha)).1, hledger]
    exact hb.accounts a f (hlist _ ha)
  backed a f' ha := by
    rw [hledger]
    by_cases hff : f' = f
    · subst hff
      exact hf a ha
    · exact (hb.backed a f' (hlist _ ha)).elsewhere he hff
  guards := hguards hb.guards

theorem top_eq_zero (hb : s.Books) (ha : (a, f) ∈ s.os.rest.inodeList)
    (h0 : (s.os.inode a).nLock = 0) : (s.os.ledger a).top = 0 := by
  have hacc := hb.accounts a f ha
  have hcount : count (fun h => (s.slot h).level a) = 0 := hacc.locks.symm.trans h0
  rcases hacc.attained with h | ⟨h, hh⟩
  · exact h
  · rw [← hh]
    exact eq_zero_of_count_eq_zero hcount h

end Books

end Process

end RemoteVfs
