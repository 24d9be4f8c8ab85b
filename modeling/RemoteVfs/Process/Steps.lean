import RemoteVfs.Process
import RemoteVfs.Process.Books

/-!
# What every request of a process keeps
-/

open CMem Locking Posix

namespace RemoteVfs

open LockCalls

namespace Process

variable {H F : Type} [DecidableEq F] [Fintype H] {s : Process H F} {h : H}
  {image g : UnixFile} {style : LockingStyle} {os' : LockOs (Memory F)} {a : Ptr} {f : F} {v : Slot}

/-! ## Small changes -/

theorem Same.of_quiet {m : Memory F} (hm : Quiet s.os.rest m) :
    s.Same { s.os with rest := m } where
  inodeList := hm.inodeList
  unused _ _ := by rw [hm.unused]
  heap p hp := by rwa [hm.heap]
  fd := hm.fd
  inode _ := ⟨rfl, rfl⟩

theorem Inv.quiet (hs : s.Inv) {m : Memory F} (hm : Quiet s.os.rest m) :
    Process.Inv ⟨{ s.os with rest := m }, s.slot⟩ where
  shape := hs.shape.same (.of_quiet hm)
  books := hs.books.frame (fun _ hx => hm.inodeList ▸ hx) (fun _ => rfl) (fun _ _ _ => rfl) hs.shape
    hm.toSameLocks
  live a f ha := hs.live a f (hm.inodeList ▸ ha)

variable [DecidableEq H]

omit [DecidableEq F] [Fintype H] in
theorem level_update (hv : ∀ a ≠ 0, v.level a = (s.slot h).level a) :
    ∀ a ≠ 0, ∀ x, (Function.update s.slot h v x).level a = (s.slot x).level a := by
  intro a ha x
  by_cases hx : x = h
  · subst hx
    rw [Function.update_self, hv a ha]
  · rw [Function.update_of_ne hx]

theorem Inv.relabel (hs : s.Inv) (hslot : s.slot h = .opened image style)
    (hg : image.SameHandle g) :
    Process.Inv ⟨s.os, Function.update s.slot h (.opened g style)⟩ := by
  obtain ⟨hh, hino, hlevel, hpre, hlocked⟩ := hg
  refine ⟨hs.shape.relabel hslot hh hino fun _ => ⟨hpre, hlocked⟩, ?_, hs.live⟩
  refine hs.books.frame (fun _ hx => hx) (fun _ => rfl) (level_update fun a _ => ?_) hs.shape
    (.refl _)
  rw [hslot]
  cases style <;> simp [Slot.level, hino, hlevel]

/-! ## Locks -/

omit [DecidableEq H] in
theorem Inv.backed_at (hs : s.Inv) (hslot : s.slot h = .opened image .posix) :
    ∃ f w, Located s.os.rest image f ∧ s.os.rest.own.fd image.h = some (f, w) ∧
      Backed f s.os.rest (s.os.ledger image.pInode).top ∧
      image.eFileLock.toNat ≤ (s.os.ledger image.pInode).top := by
  obtain ⟨f, hloc⟩ := hslot ▸ hs.shape.fits h
  refine ⟨f, _, hloc, hloc.h ▸ hloc.holds.fd, hs.books.backed _ f hloc.listed, ?_⟩
  have hle := (hs.books.accounts _ f hloc.listed).le_top h
  simpa only [hslot, Slot.level, if_true] using hle

theorem Inv.relock (hs : s.Inv) (hslot : s.slot h = .opened image .posix)
    (hloc : Located s.os.rest image f) (hbacks : StaysBacked f image g s.os os')
    (hacc : Accounted image g s.os os') :
    Process.Inv ⟨os', Function.update s.slot h (.opened g .posix)⟩ := by
  obtain ⟨hlist, hunused, hheap⟩ := hbacks.asks.memory
  obtain ⟨e, err, hg⟩ := hbacks.handle
  obtain ⟨nShared, nLock, top, hinode⟩ := hbacks.books
  have hsame : s.Same os' := by
    refine ⟨hlist, fun _ _ => by rw [hunused], fun _ hp => by rwa [hheap], hbacks.asks.fd,
      fun a => ?_⟩
    rw [hinode]
    by_cases ha : a = image.pInode
    · subst ha
      rw [Function.update_self]
      exact ⟨rfl, rfl⟩
    · rw [Function.update_of_ne ha]
      exact ⟨rfl, rfl⟩
  have hledger (a : Ptr) (ha : a ≠ image.pInode) : os'.ledger a = s.os.ledger a := by
    rw [LockOs.ledger, hinode, Function.update_of_ne ha, LockOs.ledger]
  have hlevels (a : Ptr) : (fun x => (Function.update s.slot h (.opened g .posix) x).level a) =
      Function.update (fun x => (s.slot x).level a) h
        (if image.pInode = a then g.eFileLock.toNat else 0) := by
    funext x
    by_cases hx : x = h
    · subst hx
      rw [Function.update_self, Function.update_self, Slot.level, hacc.pInode]
    · rw [Function.update_of_ne hx, Function.update_of_ne hx]
  have hwfd := hloc.h ▸ hloc.holds.fd
  have hshape := (hs.shape.same hsame).relabel (g := g) hslot (by rw [hg]) hacc.pInode fun _ =>
    ⟨by rw [hg], hacc.locked⟩
  refine ⟨hshape, ⟨?_, ?_, hbacks.guards hs.books.guards⟩, ?_⟩
  · intro a f' ha
    simp only [hlevels]
    rw [hlist] at ha
    have hold := hs.books.accounts a f' ha
    by_cases hne : a = image.pInode
    · subst hne
      rw [if_pos rfl]
      refine hold.moves ?_
      simpa only [hslot, Slot.level, if_true] using hacc.moves
    · rw [if_neg (Ne.symm hne), hledger a hne]
      have hzero : (s.slot h).level a = 0 := by
        rw [hslot, Slot.level, if_neg (Ne.symm hne)]
      rw [← hzero, Function.update_eq_self]
      exact hold
  · intro a f' ha
    rw [hlist] at ha
    by_cases hne : a = image.pInode
    · subst hne
      rw [hs.shape.file_eq ha hloc.listed]
      exact hbacks.backed
    · rw [hledger a hne]
      refine (hs.books.backed a f' ha).elsewhere (hbacks.asks.elsewhere hwfd) fun hff => hne ?_
      subst hff
      exact hs.shape.address_eq ha hloc.listed
  · intro a f' ha
    rw [hlist] at ha
    have hlive := hs.live a f' ha
    dsimp only
    rw [hinode]
    by_cases hne : a = image.pInode
    · subst hne
      rwa [Function.update_self]
    · rwa [Function.update_of_ne hne]

omit [DecidableEq H] in
theorem Inv.closePendingFds (hs : s.Inv) (ω : Answers F) (ha : (g.pInode, f) ∈ s.os.rest.inodeList)
    (h0 : (s.os.inode g.pInode).nLock = 0) :
    Process.Inv ⟨(UnixOpen.calls ω).closePendingFds g s.os, s.slot⟩ := by
  obtain ⟨hlist, -, -⟩ := closeAll_memory (s.os.inode g.pInode).pUnused s.os.rest
  refine ⟨hs.shape.closePendingFds ω ha, ?_, fun a f' ha' => ?_⟩
  · refine hs.books.change (fun _ hx => hlist ▸ hx) closePendingFds_ledger (fun _ _ _ => rfl)
      hs.shape (hs.shape.waits_elsewhere ha) (closeAll_guards _ _) fun a ha' => ?_
    have ha' : (a, f) ∈ s.os.rest.inodeList := hlist ▸ ha'
    rw [hs.shape.address_eq ha' ha, hs.books.top_eq_zero ha h0]
    exact .none f _
  · have hlive := hs.live a f' (hlist ▸ ha')
    dsimp only
    rw [closePendingFds_eq]
    by_cases hne : a = g.pInode
    · subst hne
      rwa [LockOs.setInode_inode]
    · simpa only [LockOs.setInode, Function.update_of_ne hne] using hlive

theorem Inv.unixLock (hs : s.Inv) (hslot : s.slot h = .opened image .posix) (ω : Answers F)
    {eFileLock rc : CInt} (horder : LockOrder image.eFileLock.toNat eFileLock)
    (hlock : (UnixOpen.calls ω).unixLock image eFileLock s.os = some (g, rc, os')) :
    Process.Inv ⟨os', Function.update s.slot h (.opened g .posix)⟩ := by
  obtain ⟨f, w, hloc, hfd, hb, -⟩ := hs.backed_at hslot
  obtain ⟨g', rc', os'', hlock', hacc⟩ := @unixLock_accounted _ (UnixOpen.calls ω) image s.os
    hloc.unlocked (hs.shape.node _ f hloc.listed).1 eFileLock horder
    (hs.books.accounts _ f hloc.listed).holders_eq_zero
  obtain ⟨rfl, rfl, rfl⟩ : g' = g ∧ rc' = rc ∧ os'' = os' := by
    simpa using hlock'.symm.trans hlock
  exact hs.relock hslot hloc (unixLock_backs hloc.unlocked hfd hb horder hlock) hacc

theorem Inv.posixUnlock (hs : s.Inv) (hslot : s.slot h = .opened image .posix) (ω : Answers F)
    {op : Op} {eFileLock rc : CInt} (he : eFileLock = noLock ∨ eFileLock = sharedLock)
    (hunlock : (UnixOpen.calls ω).posixUnlock op image eFileLock s.os = some (g, rc, os')) :
    Process.Inv ⟨os', Function.update s.slot h (.opened g .posix)⟩ := by
  obtain ⟨f, w, hloc, hfd, hb, hle⟩ := hs.backed_at hslot
  obtain ⟨g', rc', os'', hunlock', hacc⟩ := @posixUnlock_accounted _ (UnixOpen.calls ω) image s.os
    op hloc.unlocked (hs.shape.node _ f hloc.listed).1 eFileLock he
  obtain ⟨rfl, rfl, rfl⟩ : g' = g ∧ rc' = rc ∧ os'' = os' := by
    simpa using hunlock'.symm.trans hunlock
  obtain ⟨os₁, hbacks, hos⟩ := posixUnlock_unlocks hloc.unlocked hfd hb hle hunlock
  have hledger : os''.ledger image.pInode = os₁.ledger image.pInode := by
    rcases hos with rfl | ⟨-, rfl⟩
    · rfl
    · exact closePendingFds_ledger _
  have hs₁ := hs.relock hslot hloc hbacks ⟨hacc.pInode, hacc.locked, hledger ▸ hacc.moves⟩
  rcases hos with rfl | ⟨h0, rfl⟩
  · exact hs₁
  · rw [← hacc.pInode] at h0
    have hlisted : (image.pInode, f) ∈ os₁.rest.inodeList := hbacks.asks.memory.1 ▸ hloc.listed
    rw [← hacc.pInode] at hlisted
    have hsame : (UnixOpen.calls ω).closePendingFds image os₁ =
        (UnixOpen.calls ω).closePendingFds g' os₁ := by
      rw [closePendingFds_eq, closePendingFds_eq, hacc.pInode]
    rw [hsame]
    exact hs₁.closePendingFds ω hlisted h0

/-! ## Close -/

/-- The node at an address is no more. -/
def dropNode (a : Ptr) (os : LockOs (Memory F)) : LockOs (Memory F) :=
  { os with rest := { os.rest with inodeList := os.rest.inodeList.eraseP fun node => node.1 = a } }

omit [DecidableEq H] in
/-- An inode without files goes, whatever locks there are: they are gone with the last
descriptor. -/
theorem Inv.of_last (hs : s.Shape) (hb : s.Books) (ω : Answers F)
    (ha : (g.pInode, f) ∈ s.os.rest.inodeList)
    (hlive : ∀ a f, (a, f) ∈ s.os.rest.inodeList → a ≠ g.pInode → (s.os.inode a).Live)
    (h0 : (s.os.inode g.pInode).nRef = 0) :
    Process.Inv ⟨dropNode g.pInode ((UnixOpen.calls ω).closePendingFds g s.os), s.slot⟩ := by
  obtain ⟨hlist, -, -⟩ := closeAll_memory (s.os.inode g.pInode).pUnused s.os.rest
  have hs' := hs.closePendingFds ω ha
  have ha' : (g.pInode, f) ∈ ((UnixOpen.calls ω).closePendingFds g s.os).rest.inodeList :=
    hlist ▸ ha
  have hinode (a : Ptr) (hne : a ≠ g.pInode) :
      ((UnixOpen.calls ω).closePendingFds g s.os).inode a = s.os.inode a := by
    rw [closePendingFds_eq]
    exact Function.update_of_ne hne ..
  have hself : ((UnixOpen.calls ω).closePendingFds g s.os).inode g.pInode =
      { s.os.inode g.pInode with pUnused := [] } := by
    rw [closePendingFds_eq, LockOs.setInode_inode]
  have hmem {x : Ptr × F} (hx : x ∈ (dropNode g.pInode
      ((UnixOpen.calls ω).closePendingFds g s.os)).rest.inodeList) :
      x ∈ s.os.rest.inodeList ∧ x.1 ≠ g.pInode := by
    have hold : x ∈ s.os.rest.inodeList := hlist ▸ List.mem_of_mem_eraseP hx
    refine ⟨hold, fun heq => ?_⟩
    obtain rfl : x = (g.pInode, f) := List.inj_on_of_nodup_map hs.addresses hold ha heq
    have hnodup := (perm_eraseP hs'.addresses ha').nodup_iff.mp (List.Nodup.of_map _ hs'.addresses)
    exact (List.nodup_cons.mp hnodup).1 hx
  refine ⟨hs'.drop ha' (by rw [hself]; exact h0) (by rw [hself]), ?_, fun a f' hx => ?_⟩
  · have helse := hs.waits_elsewhere ha
    refine hb.change (fun _ hx => (hmem hx).1) closePendingFds_ledger (fun _ _ _ => rfl) hs
      ⟨helse.lock, helse.closed⟩ (closeAll_guards _ _) fun a hx => ?_
    exact absurd (hs.address_eq (hmem hx).1 ha) (hmem hx).2
  · obtain ⟨hold, hne⟩ := hmem hx
    change (((UnixOpen.calls ω).closePendingFds g s.os).inode a).Live
    rw [hinode a hne]
    exact hlive a f' hold hne

theorem Inv.release (hs : s.Inv) (hslot : s.slot h = .opened g .nolock)
    (hv : v = .fresh ∨ ∃ g', v = .closed g' ∧ (g'.pInode = 0 ∨ g'.pInode ∈ s.os.rest.heap))
    (hlevel : ∀ a ≠ 0, v.level a = 0)
    (htop : ∀ f w, s.os.rest.own.fd g.h = some (f, w) → ∀ a, (a, f) ∈ s.os.rest.inodeList →
      (s.os.ledger a).top = 0) :
    Process.Inv ⟨{ s.os with rest := s.os.rest.did (.close g.h) }, Function.update s.slot h v⟩ := by
  have hlevels : ∀ a ≠ 0, v.level a = (s.slot h).level a := fun a ha => by
    rw [hlevel a ha, hslot]
    rfl
  refine ⟨hs.shape.release hslot hv, ?_, hs.live⟩
  rcases hfd : s.os.rest.own.fd g.h with _ | ⟨f, w⟩
  · have hquiet : Quiet s.os.rest (s.os.rest.did (.close g.h)) :=
      .did (Own.close_of_none hfd) trivial
    exact hs.books.frame (fun _ hx => hx) (fun _ => rfl) (level_update hlevels) hs.shape
      hquiet.toSameLocks
  · refine hs.books.change (f := f) (fun _ hx => hx) (fun _ => rfl) (level_update hlevels) hs.shape
      (close_elsewhere fun f' w' h' => ?_) (fun hg => ⟨hg, trivial⟩) fun a ha => ?_
    · exact (Prod.mk.inj (Option.some.inj (h'.symm.trans hfd))).1
    · rw [htop f w hfd a ha]
      exact .none f _

omit [Fintype H] [DecidableEq H] [DecidableEq F] in
@[simp] theorem setInode_setInode {W : Type} (os : LockOs W) (p : Ptr) (i j : UnixInodeInfo) :
    (os.setInode p i).setInode p j = os.setInode p j := by
  simp [LockOs.setInode]

/-- What becomes of an inode that has one file less. -/
def leave (ω : Answers F) (g : UnixFile) (os : LockOs (Memory F)) : LockOs (Memory F) :=
  if (os.inode g.pInode).nRef = 0 then dropNode g.pInode ((UnixOpen.calls ω).closePendingFds g os)
  else os

omit [Fintype H] [DecidableEq H] in
theorem leave_frame (ω : Answers F) (g : UnixFile) (os : LockOs (Memory F)) :
    (leave ω g os).rest.heap = os.rest.heap ∧
      (∀ x ∈ (leave ω g os).rest.inodeList, x ∈ os.rest.inodeList) ∧
      (∀ fd x, (leave ω g os).rest.own.fd fd = some x → os.rest.own.fd fd = some x) ∧
      ∀ a, (leave ω g os).ledger a = os.ledger a := by
  obtain ⟨hlist, -, hheap⟩ := closeAll_memory (os.inode g.pInode).pUnused os.rest
  unfold leave
  split
  · refine ⟨hheap, fun x hx => hlist ▸ List.mem_of_mem_eraseP hx, fun fd x hfd => ?_,
      closePendingFds_ledger⟩
    have hall := closeAll_fd (os.inode g.pInode).pUnused os.rest fd
    split at hall
    · exact absurd (hfd.symm.trans hall) nofun
    · exact hall.symm.trans hfd
  · exact ⟨rfl, fun _ hx => hx, fun _ _ hfd => hfd, fun _ => rfl⟩

omit [Fintype H] [DecidableEq H] in
theorem releaseInodeInfo_eq (ω : Answers F) (g : UnixFile) (os : LockOs (Memory F)) :
    UnixOpen.releaseInodeInfo ω g os = leave ω g (os.setInode g.pInode
      { os.inode g.pInode with nRef := (os.inode g.pInode).nRef - 1 }) := by
  unfold leave UnixOpen.releaseInodeInfo LockCalls.releaseInodeInfo
  simp only [LockOs.setInode_inode]
  by_cases h0 : (os.inode g.pInode).nRef - 1 = 0
  · rw [if_pos h0, if_pos h0, closePendingFds_eq]
    simp only [LockOs.setInode_inode, if_pos h0]
    rfl
  · rw [if_neg h0, if_neg h0, LockOs.setInode_inode, if_neg h0]

omit [Fintype H] [DecidableEq H] in
theorem closeUnixFile_eq (ω : Answers F) (g : UnixFile) (os : LockOs (Memory F)) :
    (UnixOpen.calls ω).closeUnixFile g os = (sqliteOk,
      if 0 ≤ g.h.toInt then { os with rest := os.rest.did (.close g.h) } else os) := by
  have hmap : (if g.pMapRegion ≠ 0 then (UnixOpen.calls ω).osMunmap g.pMapRegion g.mmapSizeActual
      os.rest else os.rest) = os.rest := ite_self _
  simp only [closeUnixFile, hmap]
  split <;> rfl

/-- The rest of `unixClose`, once the file is unlocked. -/
def afterUnlock (ω : Answers F) (g : UnixFile) (os : LockOs (Memory F)) : LockOs (Memory F) :=
  let info := os.inode g.pInode
  if info.nLock ≠ 0 then
    leave ω g (os.setInode g.pInode
      { info with nRef := info.nRef - 1, pUnused := g.pPreallocatedUnused :: info.pUnused })
  else
    let os := leave ω g (os.setInode g.pInode { info with nRef := info.nRef - 1 })
    { os with rest := os.rest.did (.close g.h) }

omit [Fintype H] [DecidableEq H] in
theorem unixClose_eq (ω : Answers F) {rc : CInt} {os : LockOs (Memory F)}
    (hclose : UnixOpen.unixClose ω image os = some (g, rc, os')) (hh : 0 ≤ image.h.toInt)
    (hg : ∀ g rc os', (UnixOpen.calls ω).posixUnlock .close image noLock os = some (g, rc, os') →
      g.h = image.h) :
    ∃ rc os₁, (UnixOpen.calls ω).posixUnlock .close image noLock os = some (g, rc, os₁) ∧
      os' = afterUnlock ω g os₁ := by
  obtain ⟨⟨g₁, rc₁, os₁⟩, hunlock, hrest⟩ := Option.bind_eq_some_iff.mp hclose
  rw [← hg g₁ rc₁ os₁ hunlock] at hh
  have hneg : ¬ (0 : Int) ≤ (-1 : CInt).toInt := by decide
  dsimp only at hrest
  split at hrest
  · cases hrest
  · unfold afterUnlock
    by_cases hlock : (os₁.inode g₁.pInode).nLock ≠ 0
    · simp only [if_pos hlock, setPendingFd, closeUnixFile_eq, if_neg hneg, releaseInodeInfo_eq,
        setInode_setInode, LockOs.setInode_inode] at hrest
      cases hrest
      exact ⟨rc₁, os₁, hunlock, (if_pos hlock).symm⟩
    · simp only [if_neg hlock, closeUnixFile_eq, if_pos hh, releaseInodeInfo_eq] at hrest
      cases hrest
      exact ⟨rc₁, os₁, hunlock, (if_neg hlock).symm⟩

omit [DecidableEq H] in
theorem leave_inv (hs : s.Shape) (hb : s.Books) (ω : Answers F)
    (ha : (g.pInode, f) ∈ s.os.rest.inodeList)
    (hlive : ∀ a f, (a, f) ∈ s.os.rest.inodeList → a ≠ g.pInode → (s.os.inode a).Live)
    (hnRef : 0 ≤ (s.os.inode g.pInode).nRef) (hexcl : (s.os.inode g.pInode).bProcessLock = 0) :
    Process.Inv ⟨leave ω g s.os, s.slot⟩ := by
  unfold leave
  split
  · next h0 => exact .of_last hs hb ω ha hlive h0
  · next h0 =>
    refine ⟨hs, hb, fun a f' ha' => ?_⟩
    by_cases hne : a = g.pInode
    · subst hne
      exact ⟨lt_of_le_of_ne hnRef (Ne.symm h0), hexcl⟩
    · exact hlive a f' ha' hne

theorem afterUnlock_inv (hs : s.Inv) (hslot : s.slot h = .opened g .posix) (ω : Answers F) :
    Process.Inv ⟨afterUnlock ω g s.os, Function.update s.slot h (.closed g)⟩ := by
  obtain ⟨f, hloc⟩ := hslot ▸ hs.shape.fits h
  obtain ⟨hpos, hexcl⟩ := hs.live _ f hloc.listed
  have hless {info : UnixInodeInfo} {v : Slot}
      (hshape : Process.Shape ⟨s.os.setInode g.pInode info, Function.update s.slot h v⟩)
      (hinfo : info.nRef = (s.os.inode g.pInode).nRef - 1 ∧
        info.bProcessLock = (s.os.inode g.pInode).bProcessLock)
      (hledger : info.ledger = s.os.ledger g.pInode)
      (hv : ∀ a ≠ 0, v.level a = (s.slot h).level a) :
      Process.Inv ⟨leave ω g (s.os.setInode g.pInode info), Function.update s.slot h v⟩ := by
    refine leave_inv hshape ?_ ω hloc.listed (fun a f' ha hne => ?_) ?_ ?_
    · exact hs.books.frame (fun _ hx => hx) (ledger_setInode_of_eq hledger) (level_update hv)
        hs.shape (.refl _)
    · simp only [LockOs.setInode, Function.update_of_ne hne]
      exact hs.live a f' ha
    · simp only [LockOs.setInode_inode, hinfo]
      omega
    · simp only [LockOs.setInode_inode, hinfo, hexcl]
  unfold afterUnlock
  by_cases hlock : (s.os.inode g.pInode).nLock ≠ 0
  · -- The descriptor waits.
    rw [if_pos hlock]
    exact hless (hs.shape.park hslot rfl) ⟨rfl, rfl⟩ rfl fun a _ => by rw [hslot]; rfl
  · -- No lock is lost with it.
    rw [if_neg hlock]
    have hzero := hs.books.top_eq_zero hloc.listed (not_not.mp hlock)
    have hself : g.eFileLock.toNat = 0 := by
      have hle := (hs.books.accounts _ f hloc.listed).le_top h
      simpa only [hslot, Slot.level, if_true, hzero, Nat.le_zero] using hle
    have hdetach := hs.shape.detach (g := { g with pInode := 0 }) hslot rfl rfl
    have hs₃ := hless hdetach ⟨rfl, rfl⟩ rfl fun a _ => by simp [hslot, Slot.level, hself]
    obtain ⟨hheap, hlist, hfd, hledger⟩ := leave_frame ω g (s.os.setInode g.pInode
      { s.os.inode g.pInode with nRef := (s.os.inode g.pInode).nRef - 1 })
    have hclosed := hs₃.release (g := { g with pInode := 0 }) (v := .closed g)
      (Function.update_self ..) (.inr ⟨g, rfl, .inr ?_⟩) (fun a _ => by simp [Slot.level, hself])
      fun f' w hf' a ha => ?_
    · rwa [Function.update_idem] at hclosed
    · rw [hheap]
      exact (hs.shape.node _ f hloc.listed).2
    · have hw := (hfd _ _ hf').symm.trans (hloc.h ▸ hloc.holds.fd)
      obtain rfl := (Prod.mk.inj (Option.some.inj hw)).1
      rw [hledger, hs.shape.address_eq (hlist _ ha) hloc.listed]
      exact (congrArg Ledger.top (ledger_setInode_of_eq (by rfl) _)).trans hzero

omit [Fintype H] [DecidableEq H] in
theorem posixUnlock_handle {ω : Answers F} {os : LockOs (Memory F)} {w : Bool}
    (hexcl : ¬ processLocked image) (hfd : os.rest.own.fd image.h = some (f, w))
    (hb : Backed f os.rest (os.ledger image.pInode).top)
    (hle : image.eFileLock.toNat ≤ (os.ledger image.pInode).top) {op : Op} {eFileLock rc : CInt}
    (h : (UnixOpen.calls ω).posixUnlock op image eFileLock os = some (g, rc, os')) :
    g.h = image.h := by
  obtain ⟨os₂, hbacks, -⟩ := posixUnlock_unlocks hexcl hfd hb hle h
  obtain ⟨e, err, rfl⟩ := hbacks.handle
  rfl

theorem Inv.unixClose (hs : s.Inv) (hslot : s.slot h = .opened image .posix) (ω : Answers F)
    {rc : CInt} (hclose : UnixOpen.unixClose ω image s.os = some (g, rc, os')) :
    Process.Inv ⟨os', Function.update s.slot h (.closed g)⟩ := by
  obtain ⟨f, w, hloc, hfd, hb, hle⟩ := hs.backed_at hslot
  obtain ⟨rc₁, os₁, hunlock, rfl⟩ := unixClose_eq ω hclose (hloc.h ▸ hloc.holds.nonneg)
    fun g₁ rc₁ os₁ hunlock => posixUnlock_handle hloc.unlocked hfd hb hle hunlock
  have hs₁ := hs.posixUnlock hslot ω (.inl rfl) hunlock
  have hclosed := afterUnlock_inv hs₁ (Function.update_self ..) ω
  rwa [Function.update_idem] at hclosed

theorem Inv.nolockClose (hs : s.Inv) (hslot : s.slot h = .opened image .nolock) (ω : Answers F)
    (hapart : Apart s.os.rest image.h) {rc : CInt}
    (hclose : (UnixOpen.calls ω).nolockClose image s.os = some (rc, os')) :
    Process.Inv ⟨os', Function.update s.slot h (.closed image)⟩ := by
  obtain ⟨h0, hh⟩ : image.pInode = 0 ∧ 0 ≤ image.h.toInt := by
    have hfits := hs.shape.fits h
    rwa [hslot] at hfits
  rw [LockCalls.nolockClose, closeUnixFile_eq, if_pos hh] at hclose
  cases hclose
  refine hs.release hslot (.inr ⟨image, rfl, .inl h0⟩) (fun a ha => if_neg ?_)
    fun f w hfd a ha => ?_
  · rw [h0]
    exact Ne.symm ha
  · exact absurd rfl (hapart f w hfd (a, f) ha)

end Process

end RemoteVfs
