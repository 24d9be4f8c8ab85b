import RemoteVfs.Process.Steps

/-!
# What an open leaves

While `unixOpen` is at work, its descriptor belongs to a file without an inode.
-/

open CMem Locking Posix

namespace RemoteVfs

open LockCalls

/-! ## System calls -/

section Calls

variable {F : Type} [DecidableEq F]

/-- A new descriptor, and nothing else. -/
structure Opens (fd : Fd) (f : F) (w : Bool) (m m' : Memory F) : Prop extends SameLocks m m' where
  nonneg : 0 ≤ fd.toInt
  none : m.own.fd fd = none
  memory : m'.inodeList = m.inodeList ∧ m'.unused = m.unused ∧ m'.heap = m.heap
  fd : m'.own.fd = Function.update m.own.fd fd (some (f, w))

theorem Quiet.opens {fd : Fd} {f : F} {w : Bool} {m m' m'' : Memory F} (h : Quiet m m')
    (h' : Opens fd f w m' m'') : Opens fd f w m m'' where
  toSameLocks := h.toSameLocks.trans h'.toSameLocks
  nonneg := h'.nonneg
  none := h.fd ▸ h'.none
  memory := by
    rw [← h.inodeList, ← h.unused, ← h.heap]
    exact h'.memory
  fd := by rw [h'.fd, h.fd]

namespace UnixOpen

variable {ω : Answers F} {z : List Byte} {flags : CInt} {m : Memory F}

theorem osStat_quiet (ω : Answers F) (z : List Byte) (m : Memory F) : Quiet m (osStat ω z m).2 :=
  .did rfl trivial

theorem osFstat_eq {h : Fd} {f : F} {w : Bool} (hfstat : ω.fstat m.log = none)
    (hfd : m.own.fd h = some (f, w)) :
    osFstat ω h m = (.ok f, m.did (.fstat h (.ok f))) := by
  simp only [osFstat, hfstat, hfd]

theorem getFileMode_quiet (ω : Answers F) (z : List Byte) (m : Memory F) :
    Quiet m (getFileMode ω z m).2 := by
  have hquiet := osStat_quiet ω z m
  unfold getFileMode
  split <;> (next h => rwa [h] at hquiet)

theorem findCreateFileMode_quiet (ω : Answers F) (pVfs : Vfs) (z : List Byte) (flags : CInt)
    (m : Memory F) : Quiet m (findCreateFileMode ω pVfs z flags m).2 := by
  unfold findCreateFileMode
  split
  · split
    · exact getFileMode_quiet ..
    · exact .refl m
  · split
    · exact .refl m
    · split
      · split
        · exact getFileMode_quiet ..
        · exact .refl m
      · exact .refl m

theorem robustOpen_cases (ω : Answers F) (z : List Byte) (f : Kernel.OpenFlags) (m : Memory F) :
    (∃ e m', robustOpen ω z f m = (.error e, m') ∧ Quiet m m') ∨
      ∃ fd file m', robustOpen ω z f m = (.ok fd, m') ∧ Opens fd file f.write m m' := by
  unfold robustOpen
  split
  · exact .inl ⟨_, _, rfl, .did rfl trivial⟩
  · next fd file _ =>
    by_cases hnew : 3 ≤ fd.toInt ∧ m.own.fd fd = none
    · rw [if_pos hnew]
      exact .inr ⟨fd, file, _, rfl, .did rfl trivial, by omega, hnew.2, ⟨rfl, rfl, rfl⟩, rfl⟩
    · rw [if_neg hnew]
      exact .inl ⟨_, _, rfl, .did rfl trivial⟩

/-- The flags that an open reports: those that it is asked for, or those of a file that could be
opened for reading only. -/
def Grants (flags flags' : CInt) : Prop :=
  flags' = flags ∨ isSet flags 0x2 = true ∧ flags' = flags &&& ~~~0x6 ||| 0x1

theorem readonly_flags (flags : CInt) : isSet (flags &&& ~~~0x6 ||| 0x1) 0x2 = false ∧
    eType (flags &&& ~~~0x6 ||| 0x1) = eType flags := by
  have hor (x y : CInt) : (flags &&& x ||| 0x1) &&& y = flags &&& (x &&& y) ||| 0x1 &&& y := by
    rw [BitVec.and_or_distrib_right, BitVec.and_assoc]
  constructor
  · rw [isSet, hor]
    simp
  · rw [eType, hor, eType]
    simp

theorem Grants.eType_eq {flags' : CInt} (h : Grants flags flags') : eType flags' = eType flags := by
  rcases h with rfl | ⟨-, rfl⟩
  · rfl
  · exact (readonly_flags flags).2

theorem openFd_cases (ω : Answers F) (pVfs : Vfs) (z : List Byte) (flags : CInt) (m : Memory F) :
    (∃ rc m', openFd ω pVfs z flags m = (.error rc, m') ∧ Quiet m m') ∨
      ∃ fd f flags' m', openFd ω pVfs z flags m = (.ok (fd, flags'), m') ∧
        Grants flags flags' ∧ Opens fd f (isSet flags' 0x2) m m' := by
  have hmode := findCreateFileMode_quiet ω pVfs z flags m
  rcases hm : findCreateFileMode ω pVfs z flags m with ⟨rc, m₁⟩
  rw [hm] at hmode
  unfold openFd
  simp only [hm]
  split
  · exact .inl ⟨_, _, rfl, hmode⟩
  · rcases robustOpen_cases ω z ⟨isSet flags 0x2, isSet flags 0x4, isSet flags 0x10⟩ m₁ with
      ⟨e, m₂, h₂, hquiet⟩ | ⟨fd, f, m₂, h₂, hopens⟩
    · obtain ⟨missing, m₃, h₃, hquiet₃⟩ : ∃ missing m₃, (if isNewJrnl flags ∧ e = eacces then
          ((osStat ω z m₂).1.toOption.isNone, (osStat ω z m₂).2) else (false, m₂)) =
          (missing, m₃) ∧ Quiet m₂ m₃ := by
        split
        · exact ⟨_, _, rfl, osStat_quiet ω z m₂⟩
        · exact ⟨_, _, rfl, .refl m₂⟩
      simp only [h₂, h₃]
      have hquiet := (hmode.trans hquiet).trans hquiet₃
      split
      · exact .inl ⟨_, _, rfl, hquiet⟩
      · split
        · next hwrite =>
          rcases robustOpen_cases ω z ⟨false, false, isSet flags 0x10⟩ m₃ with
            ⟨e, m₄, h₄, hquiet₄⟩ | ⟨fd, f, m₄, h₄, hopens⟩
          · rw [h₄]
            exact .inl ⟨_, _, rfl, hquiet.trans hquiet₄⟩
          · rw [h₄]
            refine .inr ⟨fd, f, _, _, rfl, .inr ⟨hwrite.2, rfl⟩, hquiet.opens ?_⟩
            rw [(readonly_flags flags).1]
            exact hopens
        · exact .inl ⟨_, _, rfl, hquiet⟩
    · simp only [h₂]
      exact .inr ⟨fd, f, flags, m₂, rfl, .inl rfl, hmode.opens hopens⟩

omit [DecidableEq F] in
theorem malloc_cases (ω : Answers F) (m : Memory F) : sqlite3Malloc64 ω m = (0, m) ∨
    ∃ p, p ≠ 0 ∧ p ∉ m.heap ∧ sqlite3Malloc64 ω m = (p, { m with heap := p :: m.heap }) := by
  unfold sqlite3Malloc64
  dsimp only
  split
  · exact .inl rfl
  · next hp =>
    rw [not_or] at hp
    exact .inr ⟨_, hp.1, hp.2, rfl⟩

theorem findInodeInfo_cases {pFile : UnixFile} {os : LockOs (Memory F)} {f : F} {w : Bool}
    (hfstat : ω.fstat os.rest.log = none) (hfd : os.rest.own.fd pFile.h = some (f, w)) :
    ∃ m, Quiet os.rest m ∧
      ((∃ pInode, (pInode, f) ∈ m.inodeList ∧
        findInodeInfo ω pFile os = ({ pFile with pInode }, sqliteOk, LockOs.setInode
          { os with rest := m } pInode
            { os.inode pInode with nRef := (os.inode pInode).nRef + 1 })) ∨
      (∀ node ∈ m.inodeList, node.2 ≠ f) ∧
        ((∃ pInode, pInode ≠ 0 ∧ pInode ∉ m.heap ∧
          findInodeInfo ω pFile os = ({ pFile with pInode }, sqliteOk, LockOs.setInode
            { os with rest := { m with inodeList := (pInode, f) :: m.inodeList
                                       heap := pInode :: m.heap } } pInode ⟨0, 0, 0, 0, [], 1⟩)) ∨
        ∃ heap, (∀ p ∈ m.heap, p ∈ heap) ∧
          findInodeInfo ω pFile os =
            (pFile, sqliteNomem, { os with rest := { m with heap } }))) := by
  have hquiet : Quiet os.rest (os.rest.did (.fstat pFile.h (.ok f))) := .did rfl trivial
  refine ⟨_, hquiet, ?_⟩
  unfold findInodeInfo
  simp only [osFstat_eq hfstat hfd]
  generalize os.rest.did (.fstat pFile.h (.ok f)) = m
  rcases hfind : m.inodeList.find? (fun node => node.2 = f) with _ | ⟨pInode, f'⟩
  · refine .inr ⟨fun node hnode => by simpa using List.find?_eq_none.mp hfind node hnode, ?_⟩
    rcases malloc_cases ω m with hm | ⟨p, h0, hp, hm⟩
    · simp only [hfind, hm, true_or, if_true]
      exact .inr ⟨_, fun _ hp => hp, rfl⟩
    · simp only [hfind, hm, h0, false_or]
      split
      · exact .inr ⟨_, fun _ hp => List.mem_cons_of_mem _ hp, rfl⟩
      · exact .inl ⟨_, h0, hp, rfl⟩
  · have hf : f' = f := by simpa using List.find?_some hfind
    subst hf
    simp only [hfind]
    exact .inl ⟨pInode, List.mem_of_find?_eq_some hfind, rfl⟩

theorem perm_of_find? {l : List Ptr} {q : Ptr → Bool} {p : Ptr} (hp : l.find? q = some p) :
    l.Perm (p :: l.eraseP q) := by
  obtain ⟨hq, l₁, l₂, hl, hnot⟩ := List.find?_eq_some_iff_append.mp hp
  have hnot' : ∀ x ∈ l₁, ¬ q x = true := fun x hx => by simpa using hnot x hx
  rw [hl, List.eraseP_append_right _ hnot', List.eraseP_cons_of_pos hq]
  exact List.perm_middle

theorem findReusableFd_cases (ω : Answers F) (z : List Byte) (flags : CInt)
    (os : LockOs (Memory F)) :
    ∃ m, Quiet os.rest m ∧ (findReusableFd ω z flags os = (0, { os with rest := m }) ∨
      ∃ a f p l, (a, f) ∈ m.inodeList ∧ (os.inode a).pUnused.Perm (p :: l) ∧
        (m.unused p).flags = flags ∧ findReusableFd ω z flags os =
          (p, LockOs.setInode { os with rest := m } a { os.inode a with pUnused := l })) := by
  have hquiet := osStat_quiet ω z os.rest
  unfold findReusableFd
  split
  · exact ⟨_, .refl _, .inl rfl⟩
  · rcases hstat : osStat ω z os.rest with ⟨answer, m⟩
    rw [hstat] at hquiet
    refine ⟨m, hquiet, ?_⟩
    cases answer with
    | error e => exact .inl rfl
    | ok fileId =>
      dsimp only
      split
      · exact .inl rfl
      · next pInode f hfind =>
        split
        · exact .inl rfl
        · next p hp =>
          have hflags : (m.unused p).flags = flags := by simpa using List.find?_some hp
          exact .inr ⟨pInode, f, p, _, List.mem_of_find?_eq_some hfind, perm_of_find? hp, hflags,
            rfl⟩

theorem fillInUnixFile_eq {pVfs : Vfs} (ω : Answers F) (hexcl : pVfs.excl = false) (h : CInt)
    (pNew : UnixFile) (zFilename : Path) {ctrlFlags : BitVec 16}
    (hflags : ctrlFlags.getLsbD 0 = false) (os : LockOs (Memory F)) :
    ∃ g : UnixFile, (g.h = h ∧ g.pInode = pNew.pInode ∧ g.eFileLock = pNew.eFileLock ∧
        g.pPreallocatedUnused = pNew.pPreallocatedUnused ∧ g.ctrlFlags.getLsbD 0 = false) ∧
      fillInUnixFile ω pVfs h pNew zFilename ctrlFlags os =
        if ctrlFlags &&& unixfileNolock ≠ 0 then (storeLastErrno g 0, sqliteOk, some .nolock, os)
        else
          let r := findInodeInfo ω g os
          if r.2.1 ≠ sqliteOk then
            (storeLastErrno r.1 0, r.2.1, none, { r.2.2 with rest := r.2.2.rest.did (.close h) })
          else (storeLastErrno r.1 0, sqliteOk, some .posix, r.2.2) := by
  refine ⟨_, And.symm ⟨rfl, rfl, rfl, rfl, rfl, ?_⟩⟩
  have hpsow (b : Bool) : (if b then unixfilePsow else 0 : BitVec 16).getLsbD 0 = false := by
    cases b <;> rfl
  dsimp only
  rw [BitVec.getLsbD_or, BitVec.getLsbD_or, hflags, hexcl, hpsow]
  rfl

end UnixOpen

end Calls

/-! ## Small changes -/

namespace Process

variable {H F : Type} [DecidableEq F] [Fintype H] {s : Process H F} {h : H} {image g : UnixFile}
  {m : Memory F} {a p : Ptr} {f : F} {v : Slot}

theorem Inv.scribble (hs : s.Inv) (hlocks : SameLocks s.os.rest m)
    (hlist : m.inodeList = s.os.rest.inodeList) (hfd : m.own.fd = s.os.rest.own.fd)
    (hunused : ∀ p, s.keepers p ≠ 0 → m.unused p = s.os.rest.unused p)
    (hheap : ∀ p ∈ s.os.rest.heap, p ∈ m.heap) :
    Process.Inv ⟨{ s.os with rest := m }, s.slot⟩ where
  shape := hs.shape.same ⟨hlist, hunused, hheap, hfd, fun _ => ⟨rfl, rfl⟩⟩
  books := hs.books.frame (fun _ hx => hlist ▸ hx) (fun _ => rfl) (fun _ _ _ => rfl) hs.shape hlocks
  live a f ha := hs.live a f (hlist ▸ ha)

variable [DecidableEq H]

theorem Inv.acquire (hs : s.Inv) (hslot : s.slot h = .fresh) {w : Bool}
    (hopens : Opens g.h f w s.os.rest m) (h0 : g.pInode = 0) :
    Process.Inv ⟨{ s.os with rest := m }, Function.update s.slot h (.opened g .nolock)⟩ where
  shape := hs.shape.acquire hslot hopens.none hopens.nonneg h0 hopens.memory hopens.fd
  books := hs.books.frame (fun _ hx => hopens.memory.1 ▸ hx) (fun _ => rfl)
    (level_update fun a _ => by rw [hslot]; rfl) hs.shape hopens.toSameLocks
  live a f ha := hs.live a f (hopens.memory.1 ▸ ha)

omit [DecidableEq F] in
theorem live_setInode {os : LockOs (Memory F)} {info : UnixInodeInfo}
    (hlive : ∀ a f, (a, f) ∈ os.rest.inodeList → (os.inode a).Live) (hinfo : info.Live) :
    ∀ a' f, (a', f) ∈ os.rest.inodeList → ((os.setInode a info).inode a').Live := by
  intro a' f ha'
  by_cases hne : a' = a
  · subst hne
    rwa [LockOs.setInode_inode]
  · simp only [LockOs.setInode, Function.update_of_ne hne]
    exact hlive a' f ha'

theorem Inv.unpark (hs : s.Inv) (hslot : s.slot h = .fresh) (ha : (a, f) ∈ s.os.rest.inodeList)
    {l : List Ptr} (hperm : (s.os.inode a).pUnused.Perm (p :: l))
    (hg : g.h = (s.os.rest.unused p).fd) (h0 : g.pInode = 0) :
    Process.Inv ⟨s.os.setInode a { s.os.inode a with pUnused := l },
      Function.update s.slot h (.opened g .nolock)⟩ where
  shape := hs.shape.unpark hslot ha hperm hg h0
  books := hs.books.frame (fun _ hx => hx) (ledger_setInode_of_eq rfl)
    (level_update fun a _ => by rw [hslot]; rfl) hs.shape (.refl _)
  live := live_setInode hs.live (hs.live a f ha)

theorem Inv.attach (hs : s.Inv) (image : UnixFile) (hslot : s.slot h = .opened g .nolock)
    (hg : g.h = image.h) (hloc : Located s.os.rest image f)
    (hfree : s.keepers image.pPreallocatedUnused = 0)
    (hheap : image.pPreallocatedUnused ∈ s.os.rest.heap) (hlevel : image.eFileLock = 0) :
    Process.Inv ⟨s.os.setInode image.pInode
      { s.os.inode image.pInode with nRef := (s.os.inode image.pInode).nRef + 1 },
      Function.update s.slot h (.opened image .posix)⟩ where
  shape := hs.shape.attach hslot hg hloc hfree hheap
  books := hs.books.frame (fun _ hx => hx) (ledger_setInode_of_eq rfl)
    (level_update fun a _ => by simp [hslot, Slot.level, hlevel]) hs.shape (.refl _)
  live := live_setInode hs.live
    ((hs.live _ f hloc.listed).imp_left fun h => Int.lt_add_one_of_le h.le)

theorem Inv.attachNew (hs : s.Inv) (image : UnixFile) (hslot : s.slot h = .opened g .nolock)
    (hg : g.h = image.h) (h0 : image.pInode ≠ 0) (hnew : image.pInode ∉ s.os.rest.heap)
    (hf : ∀ node ∈ s.os.rest.inodeList, node.2 ≠ f)
    (hh : image.h = (s.os.rest.unused image.pPreallocatedUnused).fd)
    (hholds : Holds s.os.rest image.pPreallocatedUnused f) (hunlocked : ¬ processLocked image)
    (hfree : s.keepers image.pPreallocatedUnused = 0)
    (hheap : image.pPreallocatedUnused ∈ s.os.rest.heap) (hlevel : image.eFileLock = 0) :
    Process.Inv ⟨LockOs.setInode { s.os with rest := { s.os.rest with
      inodeList := (image.pInode, f) :: s.os.rest.inodeList
      heap := image.pInode :: s.os.rest.heap } } image.pInode ⟨0, 0, 0, 0, [], 1⟩,
      Function.update s.slot h (.opened image .posix)⟩ := by
  have hlisted : ∀ node ∈ s.os.rest.inodeList, node.1 ≠ image.pInode := fun node hnode heq =>
    hnew (heq ▸ (hs.shape.node node.1 node.2 hnode).2)
  have hlevels :
      ∀ x, (Function.update s.slot h (.opened image .posix) x).level image.pInode = 0 := by
    refine Shape.slot_update (P := fun v => v.level image.pInode = 0) (fun x => ?_) ?_
    · have hfits := hs.shape.fits x
      cases hx : s.slot x with
      | fresh => rfl
      | opened image' style =>
        rw [hx] at hfits
        cases style with
        | posix =>
          obtain ⟨f', hloc⟩ := hfits
          exact if_neg (hlisted _ hloc.listed)
        | nolock => rfl
      | closed image' =>
        rw [hx] at hfits
        refine if_neg fun heq => ?_
        rcases hfits with h | h
        · exact h0 (heq.symm.trans h)
        · exact hnew (heq ▸ h)
    · simp [Slot.level, hlevel]
  have hempty := hs.shape.addNode h0 hnew hf ⟨0, 0, 0, 0, [], 0⟩ rfl rfl
  have hshape := hempty.attach hslot hg (f := f)
    ⟨List.mem_cons_self, hh, ⟨hholds.ne_null, hholds.nonneg, hholds.fd⟩, hunlocked⟩ ?_
    (List.mem_cons_of_mem _ hheap)
  · rw [setInode_setInode, LockOs.setInode_inode] at hshape
    have hold {a : Ptr} {f' : F} (ha : (a, f') ∈ (image.pInode, f) :: s.os.rest.inodeList)
        (hne : a ≠ image.pInode) : (a, f') ∈ s.os.rest.inodeList :=
      (List.mem_cons.mp ha).resolve_left fun heq => hne (Prod.mk.inj heq).1
    have hledger {a : Ptr} (hne : a ≠ image.pInode) (rest : Memory F) (info : UnixInodeInfo) :
        (LockOs.setInode { s.os with rest } image.pInode info).ledger a = s.os.ledger a := by
      simp only [LockOs.ledger, LockOs.setInode, Function.update_of_ne hne]
    refine ⟨hshape, ⟨fun a f' ha => ?_, fun a f' ha => ?_, hs.books.guards⟩, fun a f' ha => ?_⟩
    all_goals by_cases hne : a = image.pInode
    · subst hne
      simp only [hlevels, ledger_setInode]
      exact .none
    · have hlevel' := level_update (s := s) (h := h) (v := .opened image .posix)
        (fun a _ => by simp [hslot, Slot.level, hlevel]) a (hs.shape.node a f' (hold ha hne)).1
      simp only [hlevel', hledger hne]
      exact hs.books.accounts a f' (hold ha hne)
    · subst hne
      rw [ledger_setInode]
      exact .none f' _
    · rw [hledger hne]
      have hb := hs.books.backed a f' (hold ha hne)
      exact ⟨hb.shared, hb.reserved, hb.pending, hb.exclusive⟩
    · subst hne
      rw [LockOs.setInode_inode]
      exact ⟨by decide, rfl⟩
    · simp only [LockOs.setInode, Function.update_of_ne hne]
      exact hs.live a f' (hold ha hne)
  · rw [Process.keepers] at hfree ⊢
    simp only [LockOs.setInode]
    rw [waiting_cons f rfl hlisted]
    exact hfree

theorem Inv.rename (hs : s.Inv) (hslot : s.slot h = .opened g .nolock) (hh : image.h = g.h)
    (h0 : image.pInode = 0) :
    Process.Inv ⟨s.os, Function.update s.slot h (.opened image .nolock)⟩ := by
  have hfits := hs.shape.fits h
  rw [hslot] at hfits
  refine ⟨hs.shape.relabel hslot hh (h0.trans hfits.1.symm) nofun, ?_, hs.live⟩
  exact hs.books.frame (fun _ hx => hx) (fun _ => rfl)
    (level_update fun a _ => by rw [hslot]; rfl) hs.shape (.refl _)

/-! ## The whole of it -/

/-- The memory for a descriptor, while nothing points to it. -/
structure Ready (s : Process H F) (p : Ptr) (fd : Fd) (f : F) : Prop where
  ne_null : p ≠ 0
  free : s.keepers p = 0
  heap : p ∈ s.os.rest.heap
  unused : (s.os.rest.unused p).fd = fd
  own : s.os.rest.own.fd fd = some (f, UnixOpen.isSet (s.os.rest.unused p).flags 0x2)

omit [DecidableEq H] in
theorem Ready.holds {fd : Fd} (hr : s.Ready p fd f) (hfd : 0 ≤ fd.toInt) : Holds s.os.rest p f :=
  ⟨hr.ne_null, hr.unused ▸ hfd, hr.unused ▸ hr.own⟩

omit [DecidableEq H] in
theorem Ready.quiet {fd : Fd} (hr : s.Ready p fd f) (hm : Quiet s.os.rest m) :
    Process.Ready ⟨{ s.os with rest := m }, s.slot⟩ p fd f where
  ne_null := hr.ne_null
  free := by
    have hfree := hr.free
    rw [Process.keepers] at hfree ⊢
    dsimp only
    rwa [hm.inodeList]
  heap := hm.heap ▸ hr.heap
  unused := by
    dsimp only
    rw [hm.unused]
    exact hr.unused
  own := by
    dsimp only
    rw [hm.unused, hm.fd]
    exact hr.own

omit [Fintype H] [DecidableEq F] [DecidableEq H] in
theorem not_processLocked (hflags : image.ctrlFlags.getLsbD 0 = false) : ¬ processLocked image := by
  intro hlocked
  have hbit := congrArg (·.getLsbD 0) hlocked
  simp only [BitVec.getLsbD_and, hflags, Bool.false_and] at hbit
  exact absurd hbit (by decide)

/-- The locks on the files with an inode are as before. -/
def KeepsLocks (m m' : Memory F) : Prop :=
  ∀ a f, (a, f) ∈ m.inodeList → m'.own.lock f = m.own.lock f

omit [Fintype H] [DecidableEq H] in
theorem KeepsLocks.trans {m' m'' : Memory F} (h : m'.own.lock = m.own.lock)
    (hlist : m'.inodeList = m.inodeList) (h' : KeepsLocks m' m'') : KeepsLocks m m'' :=
  fun a f ha => (h' a f (hlist ▸ ha)).trans (by rw [h])

/-- What is to be shown of an open from here on. -/
structure Finishes (s : Process H F) (h : H) (fd : Fd)
    (r : UnixFile × CInt × Option LockingStyle × LockOs (Memory F)) : Prop where
  inv : Process.Inv ⟨r.2.2.2, Function.update s.slot h (r.2.2.1.elim .fresh (.opened r.1))⟩
  fd : r.2.2.1.isSome → r.1.h = fd ∧ r.2.2.2.rest.own.fd = s.os.rest.own.fd
  lock : KeepsLocks s.os.rest r.2.2.2.rest
  tidy : s.os.Tidy → r.2.2.2.Tidy

theorem fillInUnixFile_finishes (hs : s.Inv) (ω : Answers F) (pVfs : Vfs)
    (hslot : s.slot h = .opened g .nolock) (pNew : UnixFile) (h0 : pNew.pInode = 0)
    (hlevel : pNew.eFileLock = 0) (zFilename : Path) {ctrlFlags : BitVec 16}
    (hfstat : ω.fstat s.os.rest.log = none) (hexcl : pVfs.excl = false)
    (hflags : ctrlFlags.getLsbD 0 = false)
    (hready : ctrlFlags &&& UnixOpen.unixfileNolock = 0 →
      s.Ready pNew.pPreallocatedUnused g.h f) :
    s.Finishes h g.h (UnixOpen.fillInUnixFile ω pVfs g.h pNew zFilename ctrlFlags s.os) := by
  obtain ⟨image, ⟨hh, hino, hlock, hpre, hc⟩, heq⟩ :=
    UnixOpen.fillInUnixFile_eq ω hexcl g.h pNew zFilename hflags s.os
  rw [heq]
  by_cases hno : ctrlFlags &&& UnixOpen.unixfileNolock ≠ 0
  · rw [if_pos hno]
    exact ⟨hs.rename hslot hh (hino.trans h0), fun _ => ⟨hh, rfl⟩, fun _ _ _ => rfl, id⟩
  · rw [if_neg hno]
    have hr := hready (not_not.mp hno)
    rw [← hh, ← hpre] at hr
    obtain ⟨m, hquiet, hcases⟩ := UnixOpen.findInodeInfo_cases hfstat hr.own
    have hnonneg : 0 ≤ image.h.toInt :=
      hh ▸ (hslot ▸ hs.shape.fits h : Slot.Fits _ (.opened g .nolock)).2
    have hrm := hr.quiet hquiet
    have hm := hs.quiet hquiet
    rcases hcases with ⟨pInode, ha, heq⟩ | ⟨hnew, ⟨pInode, hp0, hheap, heq⟩ | ⟨heap, hheap, heq⟩⟩
    · simp only [heq, ne_eq, not_true_eq_false, if_false]
      refine ⟨?_, fun _ => ⟨hh, hquiet.fd⟩, fun _ f _ => congrFun hquiet.lock f, fun htidy =>
        LockOs.Tidy.setInode htidy (htidy pInode)⟩
      exact hm.attach (storeLastErrno { image with pInode } 0) hslot hh.symm
        ⟨ha, hrm.unused.symm, hrm.holds hnonneg, not_processLocked hc⟩ hrm.free hrm.heap
        (hlock.trans hlevel)
    · simp only [heq, ne_eq, not_true_eq_false, if_false]
      refine ⟨?_, fun _ => ⟨hh, hquiet.fd⟩, fun _ f _ => congrFun hquiet.lock f, fun htidy =>
        LockOs.Tidy.setInode htidy fun _ => rfl⟩
      exact hm.attachNew (storeLastErrno { image with pInode } 0) hslot hh.symm hp0 hheap hnew
        hrm.unused.symm (hrm.holds hnonneg) (not_processLocked hc) hrm.free hrm.heap
        (hlock.trans hlevel)
    · have hne : sqliteNomem ≠ sqliteOk := by decide
      simp only [heq, hne, ne_eq, not_false_eq_true, if_true]
      have hgrown := hm.scribble (m := { m with heap }) ⟨rfl, fun _ h => h, id⟩ rfl rfl
        (fun _ _ => rfl) hheap
      have hfile : ∀ f' w, m.own.fd g.h = some (f', w) → f' = f := fun f' w hf' =>
        (Prod.mk.inj (Option.some.inj (hf'.symm.trans (hh ▸ hrm.own)))).1
      refine ⟨?_, nofun, fun a f' ha => ?_, id⟩
      · refine hgrown.release hslot (.inl rfl) (fun _ _ => rfl) fun f' w hf' a ha => ?_
        exact absurd (hfile f' w hf') (hnew (a, f') ha)
      · have hne : f' ≠ f := hnew (a, f') (hquiet.inodeList ▸ ha)
        exact ((close_elsewhere hfile).lock f' hne).trans (congrFun hquiet.lock f')

theorem ctrlFlags_spec (isDelete isReadonly isNewJrnl isUri : Bool) (noLock : Prop)
    [Decidable noLock] :
    let ctrlFlags := (if isDelete then UnixOpen.unixfileDelete else 0) |||
      (if isReadonly then unixfileRdonly else 0) |||
      (if noLock then UnixOpen.unixfileNolock else 0) |||
      (if isNewJrnl then UnixOpen.unixfileDirsync else 0) |||
      (if isUri then UnixOpen.unixfileUri else 0)
    ctrlFlags.getLsbD 0 = false ∧ (ctrlFlags &&& UnixOpen.unixfileNolock = 0 → ¬ noLock) := by
  by_cases hno : noLock
  · simp only [hno, if_true]
    revert isDelete isReadonly isNewJrnl isUri
    decide
  · simp only [hno, if_false]
    revert isDelete isReadonly isNewJrnl isUri
    decide

theorem finishOpen_finishes (hs : s.Inv) (ω : Answers F) (pVfs : Vfs)
    (hslot : s.slot h = .opened g .nolock) (zPath : Path) (zName : List Byte)
    (isDelete isNewJrnl : Bool) {flags : CInt}
    (hown : s.os.rest.own.fd g.h = some (f, UnixOpen.isSet flags 0x2))
    (hmain : UnixOpen.eType flags = 0x100 → p ≠ 0)
    (hp : p ≠ 0 → s.keepers p = 0 ∧ p ∈ s.os.rest.heap)
    (hfstat : ∀ log, ω.fstat log = none) (hexcl : pVfs.excl = false) :
    s.Finishes h g.h
      (UnixOpen.finishOpen ω pVfs zPath zName p g.h isDelete isNewJrnl flags s.os) := by
  let m₁ : Memory F := if p ≠ 0 then
    { s.os.rest with unused := Function.update s.os.rest.unused p ⟨g.h, flags⟩ } else s.os.rest
  obtain ⟨hlocks, hlist, hheap, hfd⟩ : SameLocks s.os.rest m₁ ∧
      m₁.inodeList = s.os.rest.inodeList ∧ m₁.heap = s.os.rest.heap ∧
      m₁.own.fd = s.os.rest.own.fd := by
    dsimp only [m₁]
    split
    · exact ⟨⟨rfl, fun _ h => h, id⟩, rfl, rfl, rfl⟩
    · exact ⟨.refl _, rfl, rfl, rfl⟩
  have hquiet : Quiet m₁ (if isDelete then UnixOpen.osUnlink ω zName m₁ else m₁) := by
    split
    · exact .did rfl trivial
    · exact .refl _
  have hs₁ := hs.scribble hlocks hlist hfd (fun q hq => ?_) fun q hq => hheap ▸ hq
  · have hctrl := ctrlFlags_spec isDelete (UnixOpen.isSet flags 0x1) isNewJrnl
      (UnixOpen.isSet flags 0x40) (UnixOpen.eType flags ≠ 0x100)
    have hfill := fillInUnixFile_finishes (f := f) (hs₁.quiet hquiet) ω pVfs hslot
      { UnixFile.zero with pPreallocatedUnused := p } rfl rfl zPath (hfstat _) hexcl hctrl.1
      fun hlock => ?_
    · exact ⟨hfill.inv, fun h => (hfill.fd h).imp_right fun h => h.trans (hquiet.fd.trans hfd),
        .trans (hquiet.lock.trans hlocks.lock) (hquiet.inodeList.trans hlist) hfill.lock,
        hfill.tidy⟩
    · have hp0 := hmain (not_not.mp (hctrl.2 hlock))
      obtain ⟨hfree, hin⟩ := hp hp0
      have hnote : m₁.unused p = ⟨g.h, flags⟩ := by
        dsimp only [m₁]
        rw [if_pos hp0]
        exact Function.update_self ..
      have hr : Process.Ready ⟨{ s.os with rest := m₁ }, s.slot⟩ p g.h f := by
        refine ⟨hp0, ?_, hheap ▸ hin, by rw [hnote], ?_⟩
        · rw [Process.keepers] at hfree ⊢
          dsimp only
          rwa [hlist]
        · dsimp only
          rw [hnote, hfd]
          exact hown
      exact hr.quiet hquiet
  · dsimp only [m₁]
    split
    · next hp0 =>
      refine Function.update_of_ne (fun heq => hq ?_) ..
      rw [heq]
      exact (hp hp0).1
    · rfl

/-- What an open leaves, whether it succeeds or not. -/
structure Opened (s : Process H F) (h : H) (flags : CInt) (r : UnixOpen.Result F) : Prop where
  inv : Process.Inv ⟨r.os, r.style.elim s.slot fun style =>
    Function.update s.slot h (.opened r.image style)⟩
  access : ∀ style, r.style = some style → ∃ flags' f, r.outFlags = some flags' ∧
    UnixOpen.Grants flags flags' ∧
    r.os.rest.own.fd r.image.h = some (f, UnixOpen.isSet flags' 0x2)
  lock : KeepsLocks s.os.rest r.os.rest
  tidy : s.os.Tidy → r.os.Tidy

theorem Opened.of_error {os : LockOs (Memory F)} {flags rc : CInt} {outFlags : Option CInt}
    (hinv : Process.Inv ⟨os, s.slot⟩) (hlock : KeepsLocks s.os.rest os.rest)
    (htidy : s.os.Tidy → os.Tidy) : s.Opened h flags ⟨image, rc, none, outFlags, os⟩ where
  inv := hinv
  access style hstyle := absurd hstyle.symm (Option.some_ne_none style)
  lock := hlock
  tidy := htidy

theorem Opened.of_finishes (hfresh : s.slot h = .fresh) {os : LockOs (Memory F)}
    {r : UnixFile × CInt × Option LockingStyle × LockOs (Memory F)} {fd : Fd} {flags flags' : CInt}
    (hr : Process.Finishes ⟨os, Function.update s.slot h (.opened g .nolock)⟩ h fd r)
    (hgrants : UnixOpen.Grants flags flags')
    (hown : os.rest.own.fd fd = some (f, UnixOpen.isSet flags' 0x2))
    (hlock : os.rest.own.lock = s.os.rest.own.lock)
    (hlist : os.rest.inodeList = s.os.rest.inodeList) (htidy : s.os.Tidy → os.Tidy) :
    s.Opened h flags ⟨r.1, r.2.1, r.2.2.1, some flags', r.2.2.2⟩ := by
  obtain ⟨image, rc, style, os'⟩ := r
  obtain ⟨hinv, hfd, hkeeps, htidies⟩ := hr
  rw [Function.update_idem] at hinv
  refine ⟨?_, fun st hst => ?_, .trans hlock hlist hkeeps, htidies ∘ htidy⟩
  · cases style with
    | none => rwa [Option.elim_none, ← hfresh, Function.update_eq_self] at hinv
    | some style => exact hinv
  · dsimp only at hst hfd ⊢
    subst hst
    obtain ⟨hh, hsame⟩ := hfd rfl
    exact ⟨flags', f, rfl, hgrants, by rw [hh, hsame]; exact hown⟩

theorem openFd_opened (hs : s.Inv) (ω : Answers F) (pVfs : Vfs) (hfresh : s.slot h = .fresh)
    (zPath : Path) (zName : List Byte) (flags : CInt) (isDelete isNewJrnl : Bool)
    (hmain : UnixOpen.eType flags = 0x100 → p ≠ 0)
    (hp : p ≠ 0 → s.keepers p = 0 ∧ p ∈ s.os.rest.heap)
    (hfstat : ∀ log, ω.fstat log = none) (hexcl : pVfs.excl = false) :
    (∃ rc m, UnixOpen.openFd ω pVfs zName flags s.os.rest = (.error rc, m) ∧
      Process.Inv ⟨{ s.os with rest := m }, s.slot⟩ ∧ m.own.lock = s.os.rest.own.lock) ∨
      ∃ fd flags' m, UnixOpen.openFd ω pVfs zName flags s.os.rest = (.ok (fd, flags'), m) ∧
        let r := UnixOpen.finishOpen ω pVfs zPath zName p fd isDelete isNewJrnl flags'
          { s.os with rest := m }
        s.Opened h flags ⟨r.1, r.2.1, r.2.2.1, some flags', r.2.2.2⟩ := by
  rcases UnixOpen.openFd_cases ω pVfs zName flags s.os.rest with
    ⟨rc, m, heq, hquiet⟩ | ⟨fd, f, flags', m, heq, hgrants, hopens⟩
  · exact .inl ⟨rc, m, heq, hs.quiet hquiet, hquiet.lock⟩
  · refine .inr ⟨fd, flags', m, heq, ?_⟩
    have hs₁ := hs.acquire (g := { UnixFile.zero with h := fd }) hfresh hopens rfl
    have hown : m.own.fd fd = some (f, UnixOpen.isSet flags' 0x2) := by
      rw [hopens.fd, Function.update_self]
    refine .of_finishes hfresh (finishOpen_finishes hs₁ ω pVfs (Function.update_self ..) zPath
      zName _ _ hown (fun ht => hmain (hgrants.eType_eq ▸ ht)) (fun h0 => ?_) hfstat hexcl) hgrants
      hown hopens.lock hopens.memory.1 id
    obtain ⟨hfree, hheap⟩ := hp h0
    refine ⟨?_, hopens.memory.2.2 ▸ hheap⟩
    rw [Process.keepers] at hfree ⊢
    dsimp only
    rw [hopens.memory.1, total_update_of_eq (by rw [hfresh]; rfl)]
    exact hfree

theorem Inv.reused_opened (hs : s.Inv) (ω : Answers F) (pVfs : Vfs) (hfresh : s.slot h = .fresh)
    (zPath : Path) (zName : List Byte) {flags : CInt} (isDelete isNewJrnl : Bool)
    (ha : (a, f) ∈ s.os.rest.inodeList) {l : List Ptr}
    (hperm : (s.os.inode a).pUnused.Perm (p :: l)) (hflags : (s.os.rest.unused p).flags = flags)
    (hfstat : ∀ log, ω.fstat log = none) (hexcl : pVfs.excl = false) :
    let r := UnixOpen.finishOpen ω pVfs zPath zName p (s.os.rest.unused p).fd isDelete isNewJrnl
      flags (s.os.setInode a { s.os.inode a with pUnused := l })
    s.Opened h flags ⟨r.1, r.2.1, r.2.2.1, some flags, r.2.2.2⟩ := by
  intro r
  have hp : p ∈ (s.os.inode a).pUnused := hperm.mem_iff.mpr List.mem_cons_self
  have hholds := hs.shape.waits a f ha p hp
  have hs₁ := hs.unpark (g := { UnixFile.zero with h := (s.os.rest.unused p).fd }) hfresh ha hperm
    rfl rfl
  have hown : s.os.rest.own.fd (s.os.rest.unused p).fd = some (f, UnixOpen.isSet flags 0x2) := by
    rw [← hflags]
    exact hholds.fd
  have hfinish := finishOpen_finishes hs₁ ω pVfs (Function.update_self ..) zPath zName isDelete
    isNewJrnl hown (fun _ => hholds.ne_null) (fun _ => ⟨hs.shape.keepers_unpark hfresh ha hperm _,
      hs.shape.allocated p (keepers_of_waits ha hp)⟩) hfstat hexcl
  refine .of_finishes hfresh hfinish (.inl rfl) hown rfl rfl fun htidy =>
    htidy.setInode fun h0 => absurd (htidy a h0) (List.ne_nil_of_mem hp)

theorem unixOpen_opened (hs : s.Inv) (ω : Answers F) (pVfs : Vfs) (hfresh : s.slot h = .fresh)
    (zPath : Path) (flags : CInt) (hfstat : ∀ log, ω.fstat log = none) (hexcl : pVfs.excl = false) :
    s.Opened h flags (UnixOpen.unixOpen ω pVfs zPath flags s.os) := by
  have hneg : (-1 : CInt).toInt < 0 := by decide
  by_cases hmain : UnixOpen.eType flags = 0x100
  · obtain ⟨m, hquiet, hcases⟩ := UnixOpen.findReusableFd_cases ω (zPath.getD []) flags s.os
    have hm := hs.quiet hquiet
    have hof {r : UnixOpen.Result F}
        (hr : Process.Opened ⟨{ s.os with rest := m }, s.slot⟩ h flags r) : s.Opened h flags r :=
      ⟨hr.inv, hr.access, .trans hquiet.lock hquiet.inodeList hr.lock, hr.tidy⟩
    rcases hcases with heq | ⟨a, f, p, l, ha, hperm, hflags, heq⟩
    · rcases UnixOpen.malloc_cases ω m with hp | ⟨p, h0, hnew, hp⟩
      · simp only [UnixOpen.unixOpen, hmain, UnixOpen.preallocate, heq, hp, ne_eq,
          not_true_eq_false, if_true, if_false, true_and]
        exact .of_error hm (fun _ f _ => congrFun hquiet.lock f) id
      · have hgrown := hm.scribble (m := { m with heap := p :: m.heap }) ⟨rfl, fun _ h => h, id⟩ rfl
          rfl (fun _ _ => rfl) fun _ hq => List.mem_cons_of_mem p hq
        have hfree : Process.keepers ⟨{ s.os with rest := m }, s.slot⟩ p = 0 :=
          not_not.mp fun hk => hnew (hm.shape.allocated p hk)
        simp only [UnixOpen.unixOpen, hmain, UnixOpen.preallocate, heq, hp, ne_eq,
          not_true_eq_false, if_true, if_false, true_and, h0, hneg]
        rcases openFd_opened hgrown ω pVfs hfresh zPath (zPath.getD []) flags
          (UnixOpen.isSet flags 0x8) (UnixOpen.isNewJrnl flags) (fun _ => h0)
          (fun _ => ⟨hfree, List.mem_cons_self⟩) hfstat hexcl with
          ⟨rc, m', hfd, hinv, hlock⟩ | ⟨fd, flags', m', hfd, hopened⟩
        · simp only [hfd]
          exact .of_error hinv (fun _ f _ => congrFun (hlock.trans hquiet.lock) f) id
        · simp only [hfd]
          exact hof ⟨hopened.inv, hopened.access, hopened.lock, hopened.tidy⟩
    · have hholds := hm.shape.waits a f ha p (hperm.mem_iff.mpr List.mem_cons_self)
      have hnonneg : ¬ (m.unused p).fd.toInt < 0 := not_lt.mpr hholds.nonneg
      simp only [UnixOpen.unixOpen, hmain, UnixOpen.preallocate, heq, ne_eq, hholds.ne_null,
        not_false_eq_true, if_true, if_false, and_false, LockOs.setInode, hnonneg]
      exact hof (hm.reused_opened ω pVfs hfresh zPath _ _ _ ha hperm hflags hfstat hexcl)
  · simp only [UnixOpen.unixOpen, hmain, if_false, false_and, hneg, if_true]
    cases zPath.elim (ω.unixGetTempname s.os.rest.log) .ok with
    | error rc => exact .of_error hs (fun _ _ _ => rfl) id
    | ok zName =>
      rcases openFd_opened (p := 0) hs ω pVfs hfresh zPath zName flags
        (UnixOpen.isSet flags 0x8) (UnixOpen.isNewJrnl flags) (fun ht => absurd ht hmain)
        (fun h => absurd rfl h) hfstat hexcl with
        ⟨rc, m', hfd, hinv, hlock⟩ | ⟨fd, flags', m', hfd, hopened⟩
      · simp only [hfd]
        exact .of_error hinv (fun _ f _ => congrFun hlock f) id
      · simp only [hfd]
        exact hopened

end Process

end RemoteVfs
