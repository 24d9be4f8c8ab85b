import RemoteVfs.Process.Invariant

/-!
# The descriptors of a process

None is lost and none is used twice, and one that is not in use waits for locks to go.
-/

open CMem Locking Posix

namespace RemoteVfs

open LockCalls

/-! ## Descriptors that wait -/

section Tidy

variable {W : Type} {sys : LockCalls W} {pFile : UnixFile} {os os' : LockOs W}

theorem LockOs.Tidy.congr (h : os.Tidy) (hinode : os'.inode = os.inode) : os'.Tidy := by
  rw [Tidy, hinode]
  exact h

theorem LockOs.Tidy.setLevel (h : os.Tidy) (eFileLock rc : CInt) :
    (LockCalls.setLevel pFile eFileLock rc os).2.2.Tidy :=
  h.setInode (h pFile.pInode)

theorem LockOs.Tidy.closePendingFds (h : os.Tidy) (info : UnixInodeInfo) :
    (sys.closePendingFds pFile (os.setInode pFile.pInode info)).Tidy := by
  unfold LockCalls.closePendingFds
  rw [LockOs.setInode_inode]
  have hempty : (os.setInode pFile.pInode { info with pUnused := [] }).Tidy :=
    h.setInode fun _ => rfl
  refine hempty.congr ?_
  simp only [LockOs.setInode, Function.update_idem]

variable (hexcl : ¬ processLocked pFile)
include hexcl

theorem LockOs.Tidy.lockSystem (h : os.Tidy) (h0 : 0 ≤ (os.inode pFile.pInode).nLock)
    (eFileLock : CInt) : (sys.lockSystem pFile eFileLock os).2.2.Tidy := by
  rcases hp : sys.lockPending pFile eFileLock os with ⟨err, os₁⟩
  have hos₁ := lockPending_inode hexcl hp
  simp only [LockCalls.lockSystem, hp]
  cases err with
  | some err => exact h.congr hos₁
  | none =>
    dsimp only
    split
    · rcases hsh : sys.lockShared pFile os₁ with ⟨rc, tErrno, os₂⟩
      have hos₂ := (lockShared_inode hexcl hsh).trans hos₁
      dsimp only
      split
      · exact h.congr hos₂
      · have hinfo : (os₂.inode pFile.pInode).nLock + 1 ≠ 0 := by
          rw [hos₂]
          omega
        refine LockOs.Tidy.setLevel ((h.congr hos₂).setInode ?_) _ _
        exact fun hzero => absurd hzero hinfo
    · split
      · exact (h.congr hos₁).setLevel _ _
      · rcases hw : sys.lockWrite pFile eFileLock os₁ with ⟨err, os₂⟩
        have hos₂ := (lockWrite_inode hexcl hw).trans hos₁
        cases err with
        | none => exact (h.congr hos₂).setLevel _ _
        | some err =>
          dsimp only
          split
          · exact .setInode (h.congr hos₂) ((h.congr hos₂) _)
          · exact h.congr hos₂

theorem LockOs.Tidy.unixLock (h : os.Tidy) (h0 : 0 ≤ (os.inode pFile.pInode).nLock)
    {g : UnixFile} {eFileLock rc : CInt}
    (hlock : sys.unixLock pFile eFileLock os = some (g, rc, os')) : os'.Tidy := by
  unfold LockCalls.unixLock raiseLock at hlock
  split at hlock
  · cases hlock
    exact h
  · split at hlock
    · cases hlock
    · have hresult := congrArg (fun r => r.2.2) (Option.some.inj hlock)
      dsimp only at hresult
      rw [← hresult]
      split
      · exact h
      · split
        · refine h.setInode fun hzero => ?_
          dsimp only at hzero
          omega
        · exact h.lockSystem hexcl h0 eFileLock

theorem LockOs.Tidy.dropWrite (h : os.Tidy) (op : Op) (eFileLock : CInt) :
    (sys.dropWrite op pFile eFileLock os).2.Tidy := by
  obtain ⟨err, os₁, hfirst, hos₁⟩ : ∃ err os₁, (if eFileLock = sharedLock then
      sys.unixFileLock op pFile ⟨.rdlck, sharedFirst, sharedSize⟩ os else (none, os)) =
      (err, os₁) ∧ os₁.inode = os.inode := by
    split
    · exact ⟨_, _, rfl, unixFileLock_inode hexcl rfl⟩
    · exact ⟨_, _, rfl, rfl⟩
  rcases hsecond : sys.unixFileLock op pFile ⟨.unlck, pendingByte, 2⟩ os₁ with ⟨err₂, os₂⟩
  have hos₂ := (unixFileLock_inode hexcl hsecond).trans hos₁
  simp only [LockCalls.dropWrite, hfirst, hsecond]
  cases err with
  | some err => exact h.congr hos₁
  | none =>
    cases err₂ with
    | some err => exact h.congr hos₂
    | none => exact .setInode (h.congr hos₂) ((h.congr hos₂) _)

theorem LockOs.Tidy.dropLast (h : os.Tidy) (op : Op) : (sys.dropLast op pFile os).2.Tidy := by
  rcases hcall : sys.unixFileLock op pFile ⟨.unlck, 0, 0⟩ os with ⟨err, os₁⟩
  have hos₁ := h.congr (unixFileLock_inode hexcl hcall)
  simp only [LockCalls.dropLast, hcall]
  exact hos₁.setInode (hos₁ pFile.pInode)

theorem LockOs.Tidy.dropShared (h : os.Tidy) (op : Op) : (sys.dropShared op pFile os).2.2.Tidy := by
  obtain ⟨err, os₁, hlast, hos₁⟩ : ∃ err os₁,
      (if (os.inode pFile.pInode).nShared - 1 = 0 then sys.dropLast op pFile
        (os.setInode pFile.pInode
          { os.inode pFile.pInode with nShared := (os.inode pFile.pInode).nShared - 1 })
      else (none, os.setInode pFile.pInode
        { os.inode pFile.pInode with nShared := (os.inode pFile.pInode).nShared - 1 })) =
      (err, os₁) ∧ os₁.Tidy := by
    have hfirst : (os.setInode pFile.pInode { os.inode pFile.pInode with
        nShared := (os.inode pFile.pInode).nShared - 1 }).Tidy := h.setInode (h pFile.pInode)
    split
    · exact ⟨_, _, rfl, hfirst.dropLast hexcl op⟩
    · exact ⟨_, _, rfl, hfirst⟩
  simp only [LockCalls.dropShared, hlast]
  have hall : (if (os₁.inode pFile.pInode).nLock - 1 = 0 then sys.closePendingFds pFile
      (os₁.setInode pFile.pInode
        { os₁.inode pFile.pInode with nLock := (os₁.inode pFile.pInode).nLock - 1 })
      else os₁.setInode pFile.pInode
        { os₁.inode pFile.pInode with nLock := (os₁.inode pFile.pInode).nLock - 1 }).Tidy := by
    split
    · exact hos₁.closePendingFds _
    · next hne => exact hos₁.setInode fun hzero => absurd hzero hne
  cases err <;> exact hall

theorem LockOs.Tidy.posixUnlock (h : os.Tidy) {op : Op} {g : UnixFile} {eFileLock rc : CInt}
    (hunlock : sys.posixUnlock op pFile eFileLock os = some (g, rc, os')) : os'.Tidy := by
  unfold LockCalls.posixUnlock lowerLock at hunlock
  split at hunlock
  · cases hunlock
    exact h
  · split at hunlock
    · cases hunlock
    · obtain ⟨err, os₁, hfirst, hos₁⟩ : ∃ err os₁, (if 1 < pFile.eFileLock then
          sys.dropWrite op pFile eFileLock os else (none, os)) = (err, os₁) ∧ os₁.Tidy := by
        split
        · exact ⟨_, _, rfl, h.dropWrite hexcl op eFileLock⟩
        · exact ⟨_, _, rfl, h⟩
      simp only [hfirst] at hunlock
      have hresult := congrArg (fun r => r.2.2) (Option.some.inj hunlock)
      dsimp only at hresult
      rw [← hresult]
      cases err with
      | some err => exact hos₁
      | none =>
        dsimp only
        split
        · exact hos₁.dropShared hexcl op
        · exact hos₁

end Tidy

namespace Process

section Runs

variable {H F : Type} [DecidableEq F] [Fintype H] [DecidableEq H] {s s' : Process H F} {h : H}
  {image : UnixFile} {a p : Ptr} {f f' : F} {fd : Fd} {pVfs : Vfs} {ω : Answers F} {r : Action H}
  {outcome : Outcome}

omit [Fintype H] [DecidableEq H] in
theorem leave_tidy {os : LockOs (Memory F)} (htidy : os.Tidy) (ω : Answers F) {g : UnixFile}
    {info : UnixInodeInfo} (hinfo : info.nLock = 0 → info.pUnused = []) :
    (leave ω g (os.setInode g.pInode info)).Tidy := by
  unfold leave
  split
  · have hclosed : ((UnixOpen.calls ω).closePendingFds g (os.setInode g.pInode info)).Tidy :=
      htidy.closePendingFds info
    exact LockOs.Tidy.congr hclosed rfl
  · exact htidy.setInode hinfo

omit [Fintype H] [DecidableEq H] in
theorem afterUnlock_tidy {os : LockOs (Memory F)} (htidy : os.Tidy) (ω : Answers F)
    (g : UnixFile) : (afterUnlock ω g os).Tidy := by
  unfold afterUnlock
  dsimp only
  split
  · next hne => exact leave_tidy htidy ω fun hzero => absurd hzero hne
  · have hleft : (leave ω g (os.setInode g.pInode { os.inode g.pInode with
        nRef := (os.inode g.pInode).nRef - 1 })).Tidy := leave_tidy htidy ω (htidy g.pInode)
    exact LockOs.Tidy.congr hleft rfl

theorem Inv.tidy_step (hs : s.Inv) (htidy : s.os.Tidy) (hfstat : ∀ log, ω.fstat log = none)
    (hexcl : pVfs.excl = false) (hstep : s.step pVfs ω r = some (s', outcome)) : s'.os.Tidy := by
  cases r with
  | open_ h zPath flags =>
    rw [Process.step] at hstep
    split at hstep
    · next hfresh =>
      cases hstep
      exact (unixOpen_opened hs ω pVfs hfresh zPath flags hfstat hexcl).tidy htidy
    · cases hstep
  | close h =>
    rw [Process.step] at hstep
    split at hstep
    · next image style hslot =>
      obtain ⟨⟨g, rc, os'⟩, hclose, heq⟩ := Option.bind_eq_some_iff.mp hstep
      cases heq
      cases style with
      | posix =>
        obtain ⟨f, w, hloc, hfd, hb, hle⟩ := hs.backed_at hslot
        obtain ⟨rc₁, os₁, hunlock, rfl⟩ := unixClose_eq ω hclose (hloc.h ▸ hloc.holds.nonneg)
          fun g₁ rc₁ os₁ hunlock => posixUnlock_handle hloc.unlocked hfd hb hle hunlock
        exact afterUnlock_tidy (htidy.posixUnlock hloc.unlocked hunlock) ω g
      | nolock =>
        rw [closeBy] at hclose
        obtain ⟨⟨rc', os''⟩, hclose, heq⟩ := Option.map_eq_some_iff.mp hclose
        cases heq
        rw [LockCalls.nolockClose, closeUnixFile_eq] at hclose
        split at hclose <;> (cases hclose; exact htidy)
    · cases hstep
  | lock h eFileLock =>
    rw [Process.step] at hstep
    split at hstep
    · next image style hslot =>
      obtain ⟨⟨g, rc, os'⟩, hlock, heq⟩ := Option.bind_eq_some_iff.mp hstep
      cases heq
      cases style with
      | posix =>
        obtain ⟨f, w, hloc, -⟩ := hs.backed_at hslot
        have hlocks : (s.os.inode image.pInode).nLock = count _ :=
          (hs.books.accounts _ f hloc.listed).locks
        exact htidy.unixLock hloc.unlocked (by rw [hlocks]; exact Int.natCast_nonneg _) hlock
      | nolock =>
        cases hlock
        exact htidy
    · cases hstep
  | unlock h eFileLock =>
    rw [Process.step] at hstep
    split at hstep
    · next image style hslot =>
      obtain ⟨⟨g, rc, os'⟩, hunlock, heq⟩ := Option.bind_eq_some_iff.mp hstep
      cases heq
      cases style with
      | posix =>
        obtain ⟨f, w, hloc, -⟩ := hs.backed_at hslot
        exact htidy.posixUnlock hloc.unlocked hunlock
      | nolock =>
        cases hunlock
        exact htidy
    · cases hstep
  | checkReservedLock h =>
    rw [Process.step] at hstep
    split at hstep
    · next image style hslot =>
      obtain ⟨⟨g, ret, os'⟩, hcheck, heq⟩ := Option.bind_eq_some_iff.mp hstep
      cases heq
      cases style with
      | posix =>
        obtain ⟨f, w, hloc, -⟩ := hs.backed_at hslot
        rcases unixCheckReservedLock_cases (hs.live _ f hloc.listed).2 hcheck with
          ⟨-, -, -, -, rfl⟩ | ⟨-, answer, m, rfl, -⟩
        · exact htidy
        · exact htidy
      | nolock =>
        cases hcheck
        exact htidy
    · cases hstep
  | data h image writes =>
    rw [Process.step] at hstep
    split at hstep
    · split at hstep
      · cases hstep
        exact htidy
      · cases hstep
    · cases hstep

theorem Reaches.tidy (hs : Reaches pVfs ω s) (hfstat : ∀ log, ω.fstat log = none)
    (hexcl : pVfs.excl = false) : s.os.Tidy := by
  obtain ⟨rs, hok, hrun⟩ := hs
  let both (s : Process H F) : Prop := s.Inv ∧ s.os.Tidy
  have hboth : both s := by
    refine Runs.invariant_of_allowed (fun s r s' hs hr hnext => ?_) hok
      ⟨start_inv, fun _ _ => rfl⟩ hrun
    obtain ⟨⟨s', outcome⟩, hstep, rfl⟩ := Option.map_eq_some_iff.mp hnext
    exact ⟨hs.1.step hfstat hexcl hr hstep, hs.1.tidy_step hs.2 hfstat hexcl hstep⟩
  exact hboth.2

end Runs

end Process

def Slot.IsOpen : Slot → Prop
  | .opened _ _ => True
  | _ => False

instance : DecidablePred Slot.IsOpen
  | .opened _ _ => .isTrue trivial
  | .fresh | .closed _ => .isFalse id

theorem Slot.of_not_isOpen {v : Slot} (hv : ¬ v.IsOpen) :
    (∀ a, v.refs a = 0) ∧ ∀ fd, v.uses fd = 0 := by
  cases v with
  | opened image style => exact absurd trivial hv
  | _ => exact ⟨fun _ => rfl, fun _ => rfl⟩

namespace Process

/-! ## A process in which all goes well -/

section Calm

/-- There is one file, and nothing goes wrong. -/
def calm : Answers Unit where
  setlk _ := none
  getlk _ := .ok false
  open_ log := .ok (BitVec.ofNat 32 (3 + log.countP fun e => e matches .open_ _ _ _), ())
  fstat _ := none
  stat _ := .ok ()
  unlink _ := none
  malloc _ heap := BitVec.ofNat 64 (heap.length + 1)
  sqlite3MutexAlloc _ := true
  unixGetTempname _ := .ok []

/-- "unix" -/
def unixVfs : Vfs := ⟨1, false, 0, fun _ => true, fun _ => none⟩

/-- Two handles on one database. One locks it, and the other is closed. -/
def parting : List (Action Bool) :=
  [.open_ false (some [0x64]) 0x106, .lock false sharedLock, .open_ true (some [0x64]) 0x106,
    .close true]

/-- The image of the one that stays. -/
def stayed : UnixFile :=
  { UnixFile.zero with
    pVfs := 1, pInode := 2, h := 3, eFileLock := 1, ctrlFlags := 0x10, pPreallocatedUnused := 1 }

/-- What the requests lead to. -/
def after (ω : Answers Unit) (rs : List (Action Bool)) : Process Bool Unit :=
  (Runs.run (next unixVfs ω) start rs).getD start

theorem reaches_after {ω : Answers Unit} {rs : List (Action Bool)}
    (hok : Runs.Allowed (next unixVfs ω) Permits (start : Process Bool Unit) rs)
    (hrun : (Runs.run (next unixVfs ω) (start : Process Bool Unit) rs).isSome) :
    Reaches unixVfs ω (after ω rs) := by
  obtain ⟨s, hs⟩ := Option.isSome_iff_exists.mp hrun
  refine ⟨rs, hok, ?_⟩
  rw [after, hs]
  rfl

theorem reaches_parting : Reaches unixVfs calm (after calm parting) :=
  reaches_after (by decide +kernel) (by decide +kernel)

theorem slot_parting : (after calm parting).slot false = .opened stayed .posix := by decide +kernel

theorem exists_step (s : Process Bool Unit) (r : Action Bool) (v : Slot) (outcome : Outcome)
    (hstep : (s.step unixVfs calm r).map (fun x => (x.1.slot false, x.2)) = some (v, outcome)) :
    ∃ s', s.step unixVfs calm r = some (s', outcome) ∧ s'.slot false = v := by
  obtain ⟨⟨s', outcome'⟩, hs, heq⟩ := Option.map_eq_some_iff.mp hstep
  cases heq
  exact ⟨s', hs, rfl⟩

end Calm

/-! ## Owners -/

section Owners

variable {H F : Type} [DecidableEq F] {s s' : Process H F} {h h' : H} {image image' : UnixFile}
  {a p : Ptr} {f f' : F} {fd : Fd} {pVfs : Vfs} {ω : Answers F}

/-- What has a descriptor: the file of a handle, or something that waits at an inode. -/
def Owns (s : Process H F) (fd : Fd) : H ⊕ Ptr → Prop
  | .inl h => ∃ image style, s.slot h = .opened image style ∧ image.h = fd
  | .inr p => (s.os.rest.unused p).fd = fd ∧
    ∃ a f, (a, f) ∈ s.os.rest.inodeList ∧ p ∈ (s.os.inode a).pUnused

omit [DecidableEq F] in
theorem waiting_eq_countP (inode : Ptr → UnixInodeInfo) (g : Ptr → Bool) (nodes : List (Ptr × F)) :
    waiting inode g nodes = (nodes.flatMap fun node => (inode node.1).pUnused).countP g := by
  rw [List.countP_flatMap]
  rfl

theorem two_le_countP {l : List Ptr} {g : Ptr → Bool} {p p' : Ptr} (hp : p ∈ l) (hp' : p' ∈ l)
    (hg : g p = true) (hg' : g p' = true) (hne : p ≠ p') : 2 ≤ l.countP g := by
  have hsub : [p, p'].Subperm (l.filter g) := by
    refine List.subperm_of_subset (by simpa using hne) fun x hx => ?_
    rcases List.mem_pair.mp hx with rfl | rfl
    · exact List.mem_filter.mpr ⟨hp, hg⟩
    · exact List.mem_filter.mpr ⟨hp', hg'⟩
  rw [List.countP_eq_length_filter]
  exact hsub.length_le

omit [DecidableEq F] in
theorem add_le_total [Fintype H] {g : Slot → Nat} (hne : h ≠ h') :
    g (s.slot h) + g (s.slot h') ≤ total g s.slot := by
  classical
  rw [total, ← Finset.sum_pair (f := fun h => g (s.slot h)) hne]
  exact Finset.sum_le_sum_of_subset (Finset.subset_univ _)

omit [DecidableEq F] in
theorem uses_eq_one_iff {v : Slot} :
    v.uses fd = 1 ↔ ∃ image style, v = .opened image style ∧ image.h = fd := by
  cases v with
  | opened image style => simp [Slot.uses]
  | _ => simp [Slot.uses]

omit [DecidableEq F] in
theorem mem_waiting : s.Owns fd (.inr p) ↔ (s.os.rest.unused p).fd = fd ∧
    p ∈ s.os.rest.inodeList.flatMap fun node => (s.os.inode node.1).pUnused := by
  simp [Owns]

variable [Fintype H]

omit [DecidableEq F] in
theorem exists_owns (howned : s.owners fd ≠ 0) : ∃ x, s.Owns fd x := by
  rw [owners, waiting_eq_countP] at howned
  rcases Nat.eq_zero_or_pos (total (Slot.uses fd) s.slot) with htotal | htotal
  · rw [htotal, Nat.zero_add] at howned
    obtain ⟨p, hp, hfd⟩ := List.countP_pos_iff.mp (Nat.pos_of_ne_zero howned)
    exact ⟨.inr p, mem_waiting.mpr ⟨of_decide_eq_true hfd, hp⟩⟩
  · obtain ⟨h, -, hh⟩ := Finset.exists_ne_zero_of_sum_ne_zero htotal.ne'
    refine ⟨.inl h, uses_eq_one_iff.mp ?_⟩
    have hle : (s.slot h).uses fd ≤ 1 := by
      unfold Slot.uses
      split
      · split <;> decide
      · decide
    omega

omit [DecidableEq F] in
theorem owners_pos {x : H ⊕ Ptr} (hx : s.Owns fd x) : 0 < s.owners fd := by
  rw [owners, waiting_eq_countP]
  cases x with
  | inl h =>
    have hle := le_total (Slot.uses fd) s.slot h
    rw [uses_eq_one_iff.mpr hx] at hle
    omega
  | inr p =>
    obtain ⟨hfd, hp⟩ := mem_waiting.mp hx
    exact Nat.add_pos_right _ (List.countP_pos_iff.mpr ⟨p, hp, decide_eq_true hfd⟩)

omit [DecidableEq F] in
theorem owns_unique (hone : s.owners fd ≤ 1) {x y : H ⊕ Ptr} (hx : s.Owns fd x)
    (hy : s.Owns fd y) : x = y := by
  rw [owners, waiting_eq_countP] at hone
  by_contra hne
  have hboth {h : H} {p : Ptr} (hh : s.Owns fd (.inl h)) (hp : s.Owns fd (.inr p)) : False := by
    have hle := le_total (Slot.uses fd) s.slot h
    rw [uses_eq_one_iff.mpr hh] at hle
    obtain ⟨hfd, hp⟩ := mem_waiting.mp hp
    have hpos := List.countP_pos_iff (p := fun p => decide ((s.os.rest.unused p).fd = fd)).mpr
      ⟨p, hp, decide_eq_true hfd⟩
    omega
  rcases x with h | p <;> rcases y with h' | p'
  · have hle := add_le_total (s := s) (g := Slot.uses fd) fun heq => hne (congrArg Sum.inl heq)
    rw [uses_eq_one_iff.mpr hx, uses_eq_one_iff.mpr hy] at hle
    omega
  · exact hboth hx hy
  · exact hboth hy hx
  · obtain ⟨hfd, hp⟩ := mem_waiting.mp hx
    obtain ⟨hfd', hp'⟩ := mem_waiting.mp hy
    have htwo := two_le_countP (g := fun p => decide ((s.os.rest.unused p).fd = fd)) hp hp'
      (decide_eq_true hfd) (decide_eq_true hfd') fun heq => hne (congrArg Sum.inr heq)
    omega

variable [DecidableEq H]

/-- Every descriptor has one owner. If that waits, it is for locks on the same inode. -/
theorem Reaches.owner (hs : Reaches pVfs ω s) (hfstat : ∀ log, ω.fstat log = none)
    (hexcl : pVfs.excl = false) (fd : Fd) :
    ((s.os.rest.own.fd fd).isSome → ∃! x, s.Owns fd x) ∧
      (s.os.rest.own.fd fd = none → ∀ x, ¬ s.Owns fd x) ∧
      ∀ a, ∀ p ∈ (s.os.inode a).pUnused, (s.os.inode a).nLock ≠ 0 := by
  have howners := (hs.inv hfstat hexcl).shape.owners fd
  refine ⟨fun hsome => ?_, fun hnone x hx => ?_, fun a p hp h0 => ?_⟩
  · rw [hsome] at howners
    obtain ⟨x, hx⟩ := exists_owns (howners.trans_ne (by decide))
    exact ⟨x, hx, fun y hy => owns_unique howners.le hy hx⟩
  · have hpos := owners_pos hx
    rw [howners, hnone] at hpos
    exact absurd hpos (lt_irrefl 0)
  · rw [hs.tidy hfstat hexcl a h0] at hp
    exact absurd hp List.not_mem_nil

/-- One handle is open, and the descriptor of another waits. -/
theorem owner_parting : ∃! x, (after calm parting).Owns 3 x :=
  (reaches_parting.owner (fun _ => rfl) rfl 3).1 (by decide +kernel)

/-- With the last file all is given back. -/
theorem Reaches.closed (hs : Reaches pVfs ω s) (hfstat : ∀ log, ω.fstat log = none)
    (hexcl : pVfs.excl = false) (hclosed : ∀ h, ¬ (s.slot h).IsOpen) :
    s.os.rest.inodeList = [] ∧ ∀ fd, s.os.rest.own.fd fd = none := by
  have hinv := hs.inv hfstat hexcl
  have hnone (g : Slot → Nat) (hg : ∀ h, g (s.slot h) = 0) : total g s.slot = 0 :=
    Finset.sum_eq_zero fun h _ => hg h
  have hlist : s.os.rest.inodeList = [] := by
    refine List.eq_nil_iff_forall_not_mem.mpr fun node hnode => ?_
    have hrefs := hinv.shape.refs node.1 node.2 hnode
    rw [hnone _ fun h => (Slot.of_not_isOpen (hclosed h)).1 node.1] at hrefs
    exact absurd hrefs (hinv.live node.1 node.2 hnode).1.ne'
  refine ⟨hlist, fun fd => ?_⟩
  have howners := hinv.shape.owners fd
  rw [owners, hlist, hnone _ fun h => (Slot.of_not_isOpen (hclosed h)).2 fd] at howners
  cases hfd : s.os.rest.own.fd fd with
  | none => rfl
  | some x =>
    rw [hfd] at howners
    cases howners

theorem closed_parting : (after calm (parting ++ [.close false])).os.rest.inodeList = [] ∧
    ∀ fd, (after calm (parting ++ [.close false])).os.rest.own.fd fd = none :=
  (reaches_after (by decide +kernel) (by decide +kernel)).closed (fun _ => rfl) rfl
    (by decide +kernel)

omit [DecidableEq H] in
theorem Shape.pInode_eq_iff (hs : s.Shape) (hslot : s.slot h = .opened image .posix)
    (hslot' : s.slot h' = .opened image' .posix) {w w' : Bool}
    (hfd : s.os.rest.own.fd image.h = some (f, w))
    (hfd' : s.os.rest.own.fd image'.h = some (f', w')) : image.pInode = image'.pInode ↔ f = f' := by
  obtain ⟨f₁, hloc⟩ := hslot ▸ hs.fits h
  obtain ⟨f₂, hloc'⟩ := hslot' ▸ hs.fits h'
  obtain rfl : f₁ = f := (Prod.mk.inj (Option.some.inj ((hloc.h ▸ hloc.holds.fd).symm.trans hfd))).1
  obtain rfl : f₂ = f' :=
    (Prod.mk.inj (Option.some.inj ((hloc'.h ▸ hloc'.holds.fd).symm.trans hfd'))).1
  constructor
  · intro heq
    exact hs.file_eq hloc.listed (heq ▸ hloc'.listed)
  · rintro rfl
    exact hs.address_eq hloc.listed hloc'.listed

/-- Two open files share an inode if and only if they are on one file, and `nRef` counts those that
are. -/
theorem Reaches.inode_shared (hs : Reaches pVfs ω s) (hfstat : ∀ log, ω.fstat log = none)
    (hexcl : pVfs.excl = false) (hslot : s.slot h = .opened image .posix) {w : Bool}
    (hfd : s.os.rest.own.fd image.h = some (f, w)) :
    (∀ h' image' f' w', s.slot h' = .opened image' .posix →
      s.os.rest.own.fd image'.h = some (f', w') → (image.pInode = image'.pInode ↔ f = f')) ∧
      (s.os.inode image.pInode).nRef = {x | ∃ g w, s.slot x = .opened g .posix ∧
        s.os.rest.own.fd g.h = some (f, w)}.ncard := by
  classical
  have hshape := (hs.inv hfstat hexcl).shape
  refine ⟨fun h' image' f' w' hslot' hfd' => hshape.pInode_eq_iff hslot hslot' hfd hfd', ?_⟩
  obtain ⟨f₁, hloc⟩ := hslot ▸ hshape.fits h
  have hcount : total (Slot.refs image.pInode) s.slot = (Finset.univ.filter fun x => ∃ g w,
      s.slot x = .opened g .posix ∧ s.os.rest.own.fd g.h = some (f, w)).card := by
    rw [total, Finset.card_filter]
    refine Finset.sum_congr rfl fun x _ => ?_
    cases hx : s.slot x with
    | fresh => simp [Slot.refs]
    | closed g => simp [Slot.refs]
    | opened g style =>
      cases style with
      | nolock => simp [Slot.refs]
      | posix =>
        obtain ⟨f', hloc'⟩ := hx ▸ hshape.fits x
        have hg := hloc'.h ▸ hloc'.holds.fd
        have hiff := hshape.pInode_eq_iff hx hslot hg hfd
        rw [Slot.refs]
        refine if_congr (hiff.trans ⟨?_, ?_⟩) rfl rfl
        · rintro rfl
          exact ⟨g, _, rfl, hg⟩
        · rintro ⟨g', w', heq, hfd'⟩
          cases heq
          exact (Prod.mk.inj (Option.some.inj (hg.symm.trans hfd'))).1
  rw [hshape.refs _ f₁ hloc.listed, hcount, ← Set.ncard_coe_finset, Finset.coe_filter]
  simp

theorem inode_shared_parting : ((after calm parting).os.inode stayed.pInode).nRef = {x | ∃ g w,
    (after calm parting).slot x = .opened g .posix ∧
      (after calm parting).os.rest.own.fd g.h = some ((), w)}.ncard :=
  (reaches_parting.inode_shared (fun _ => rfl) rfl slot_parting (w := true) (by decide +kernel)).2

/-! ## Opens -/

omit [Fintype H] in
theorem step_open {zPath : Path} {flags : CInt} {outcome : Outcome}
    (hstep : s.step pVfs ω (.open_ h zPath flags) = some (s', outcome)) :
    s.slot h = .fresh ∧ let r := UnixOpen.unixOpen ω pVfs zPath flags s.os
      s'.os = r.os ∧ s'.slot h = r.style.elim .fresh (.opened r.image) ∧
        outcome = .opened r.outFlags r.rc := by
  rw [Process.step] at hstep
  split at hstep
  · next hfresh =>
    cases hstep
    refine ⟨hfresh, rfl, ?_, rfl⟩
    dsimp only
    cases (UnixOpen.unixOpen ω pVfs zPath flags s.os).style with
    | none => exact hfresh
    | some style => exact Function.update_self ..
  · cases hstep

/-- An open file can be written if the flags say so that its open has reported. These are the flags
that have been asked for, unless the file could be opened for reading only. -/
theorem Reaches.open_access (hs : Reaches pVfs ω s) (hfstat : ∀ log, ω.fstat log = none)
    (hexcl : pVfs.excl = false) {zPath : Path} {flags rc : CInt} {pOutFlags : Option CInt}
    (hstep : s.step pVfs ω (.open_ h zPath flags) = some (s', .opened pOutFlags rc))
    {style : LockingStyle} (hslot : s'.slot h = .opened image style) :
    ∃ flags' f, pOutFlags = some flags' ∧ UnixOpen.Grants flags flags' ∧
      s'.os.rest.own.fd image.h = some (f, UnixOpen.isSet flags' 0x2) := by
  obtain ⟨hfresh, hos, hslot', houtcome⟩ := step_open hstep
  cases houtcome
  have hopened := unixOpen_opened (hs.inv hfstat hexcl) ω pVfs hfresh zPath flags hfstat hexcl
  rw [hslot'] at hslot
  rw [hos]
  generalize UnixOpen.unixOpen ω pVfs zPath flags s.os = r at hopened hslot ⊢
  obtain ⟨image', rc, style', outFlags, os⟩ := r
  cases style' with
  | none => cases hslot
  | some style' =>
    cases hslot
    exact hopened.access _ rfl

theorem open_access_start : ∃ s' : Process Bool Unit,
    start.step unixVfs calm (.open_ false (some [0x64]) 0x106) =
      some (s', .opened (some 0x106) sqliteOk) ∧
    ∃ flags' f, some 0x106 = some flags' ∧ UnixOpen.Grants 0x106 flags' ∧
      s'.os.rest.own.fd 3 = some (f, UnixOpen.isSet flags' 0x2) := by
  obtain ⟨s', hstep, hslot⟩ := exists_step start (.open_ false (some [0x64]) 0x106)
    (.opened { stayed with eFileLock := 0 } .posix) (.opened (some 0x106) sqliteOk)
    (by decide +kernel)
  exact ⟨s', hstep, Reaches.open_access ⟨[], trivial, rfl⟩ (fun _ => rfl) rfl hstep hslot⟩

/-- An open takes no lock from the databases that are open, even when it fails and closes a
descriptor. -/
theorem Reaches.open_keeps_locks (hs : Reaches pVfs ω s) (hfstat : ∀ log, ω.fstat log = none)
    (hexcl : pVfs.excl = false) {zPath : Path} {flags : CInt} {outcome : Outcome}
    (hstep : s.step pVfs ω (.open_ h zPath flags) = some (s', outcome)) {x : H}
    (hslot : s.slot x = .opened image .posix) {w : Bool}
    (hfd : s.os.rest.own.fd image.h = some (f, w)) :
    s'.os.rest.own.lock f = s.os.rest.own.lock f := by
  obtain ⟨hfresh, hos, -⟩ := step_open hstep
  have hinv := hs.inv hfstat hexcl
  obtain ⟨f', hloc⟩ := hslot ▸ hinv.shape.fits x
  have hf := (hloc.h ▸ hloc.holds.fd).symm.trans hfd
  obtain rfl : f' = f := (Prod.mk.inj (Option.some.inj hf)).1
  rw [hos]
  exact (unixOpen_opened hinv ω pVfs hfresh zPath flags hfstat hexcl).lock image.pInode f'
    hloc.listed

theorem open_keeps_locks_parting : ∃ s',
    (after calm (parting.take 2)).step unixVfs calm (.open_ true (some [0x64]) 0x106) =
      some (s', .opened (some 0x106) sqliteOk) ∧
    s'.os.rest.own.lock () = (after calm (parting.take 2)).os.rest.own.lock () := by
  obtain ⟨s', hstep, -⟩ := exists_step (after calm (parting.take 2))
    (.open_ true (some [0x64]) 0x106) (.opened stayed .posix) (.opened (some 0x106) sqliteOk)
    (by decide +kernel)
  have hreaches : Reaches unixVfs calm (after calm (parting.take 2)) :=
    reaches_after (by decide +kernel) (by decide +kernel)
  have hslot : (after calm (parting.take 2)).slot false = .opened stayed .posix := by decide +kernel
  exact ⟨s', hstep, hreaches.open_keeps_locks (fun _ => rfl) rfl hstep hslot (w := true)
    (by decide +kernel)⟩

/-! ## Levels -/

omit [DecidableEq H] [DecidableEq F] in
theorem level_eq_top {L : Ledger} {level : H → Nat} (hacc : Accounts L level)
    (hlevel : 2 ≤ level h) : level h = L.top := by
  rcases hacc.attained with h0 | ⟨x, hx⟩
  · have := hacc.le_top h
    omega
  · by_cases hne : x = h
    · rw [← hx, hne]
    · have hle := hacc.one_writer h x (Ne.symm hne) hlevel
      have := hacc.le_top h
      simp only [Locking.shared] at hle
      omega

/-- Behind the level of a file are locks of the process, whatever else it has opened and closed, and
whatever `fcntl` has said. -/
theorem Reaches.level_backed (hs : Reaches pVfs ω s) (hfstat : ∀ log, ω.fstat log = none)
    (hexcl : pVfs.excl = false) (hslot : s.slot h = .opened image .posix) :
    ∃ f w, s.os.rest.own.fd image.h = some (f, w) ∧
      (1 ≤ image.eFileLock.toNat → ∀ b, sharedFirst ≤ b → b < sharedFirst + sharedSize →
        s.os.rest.own.lock f b ≠ none) ∧
      (image.eFileLock.toNat = 2 → s.os.rest.own.lock f reservedByte = some .write) ∧
      (3 ≤ image.eFileLock.toNat → s.os.rest.own.lock f pendingByte = some .write) := by
  have hinv := hs.inv hfstat hexcl
  obtain ⟨f, w, hloc, hfd, hb, hle⟩ := hinv.backed_at hslot
  have hacc := hinv.books.accounts _ f hloc.listed
  have htop (h2 : 2 ≤ image.eFileLock.toNat) :
      image.eFileLock.toNat = (s.os.ledger image.pInode).top := by
    have heq := level_eq_top (h := h) hacc
    simp only [hslot, Slot.level, if_true] at heq
    exact heq h2
  refine ⟨f, w, hfd, fun h1 b hlo hhi => ?_, fun h2 => ?_, fun h3 => ?_⟩
  · exact hb.shared (h1.trans hle) b (mem_dbGate.mpr ⟨hlo, hhi⟩)
  · exact hb.reserved ((htop h2.ge).symm.trans h2)
  · exact hb.pending (h3.trans hle)

theorem level_backed_parting : ∃ f w, (after calm parting).os.rest.own.fd 3 = some (f, w) ∧
    ∀ b, sharedFirst ≤ b → b < sharedFirst + sharedSize →
      (after calm parting).os.rest.own.lock f b ≠ none := by
  obtain ⟨f, w, hfd, hshared, -⟩ := reaches_parting.level_backed (fun _ => rfl) rfl slot_parting
  exact ⟨f, w, hfd, hshared (by decide)⟩

end Owners

end Process

end RemoteVfs
