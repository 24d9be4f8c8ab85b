import RemoteVfs.Locks
import RemoteVfs.UnixOpen

/-!
# What is behind a level

The level of an inode is a number in the memory of a process. Behind it are locks that the kernel
has of the process, and they are there whatever `fcntl` answers, now or later.
-/

open CMem Locking Posix

namespace RemoteVfs

open LockCalls

/-- The pending byte, and the bytes that a shared lock is on. -/
def dbGate : Gate := ⟨pendingByte, ⟨sharedFirst, sharedSize⟩⟩

theorem mem_range {t : LockType} {start len b : Nat} (hlen : len ≠ 0) :
    b ∈ (⟨t, start, len⟩ : Flock).range ↔ start ≤ b ∧ b < start + len := by
  rw [Flock.range, Range.mem_iff, Range.size, if_neg hlen]

section Bytes

variable {t : LockType} {b : Nat}

theorem mem_one {start : Nat} : b ∈ (⟨t, start, 1⟩ : Flock).range ↔ b = start := by
  rw [mem_range (by decide)]
  omega

theorem mem_two : b ∈ (⟨t, pendingByte, 2⟩ : Flock).range ↔ b = pendingByte ∨ b = reservedByte := by
  rw [mem_range (by decide), reservedByte]
  omega

theorem mem_shared : b ∈ (⟨t, sharedFirst, sharedSize⟩ : Flock).range ↔ b ∈ dbGate.range := .rfl

theorem mem_dbGate : b ∈ dbGate.range ↔ sharedFirst ≤ b ∧ b < sharedFirst + sharedSize := .rfl

theorem pendingByte_notMem : pendingByte ∉ dbGate.range := by decide

theorem reservedByte_notMem : reservedByte ∉ dbGate.range := by decide

theorem sharedFirst_mem : sharedFirst ∈ dbGate.range := by decide

end Bytes

variable {F : Type} [DecidableEq F]

/-- The locks of the process on a file, and the level that they are good for. An exclusive lock that
could be given up in part only is still one. -/
structure Backed (f : F) (m : Memory F) (top : Nat) : Prop where
  shared : 1 ≤ top → ∀ b ∈ dbGate.range, m.own.lock f b ≠ none
  reserved : top = 2 → m.own.lock f reservedByte = some .write
  pending : 3 ≤ top → m.own.lock f pendingByte = some .write
  exclusive : top = 4 → dbGate.Closed f m.log

theorem Backed.none (f : F) (m : Memory F) : Backed f m 0 :=
  ⟨nofun, nofun, nofun, nofun⟩

/-! ## Lock calls -/

/-- After one `F_SETLK`. -/
def Memory.asked (m : Memory F) (h : Fd) (lock : Flock) (err : Option CInt) : Memory F :=
  m.did (.setlk h lock.type.mode lock.range (UnixOpen.ofOption err))

/-- Some `F_SETLK` on a descriptor. -/
inductive Asks (h : Fd) (m : Memory F) : Memory F → Prop
  | none : Asks h m m
  | more {m'} (lock : Flock) (err : Option CInt) : Asks h m m' → Asks h m (m'.asked h lock err)

/-- The locks on all files but one are as before. -/
structure Elsewhere (f : F) (m m' : Memory F) : Prop where
  lock : ∀ f', f' ≠ f → m'.own.lock f' = m.own.lock f'
  closed : ∀ f', f' ≠ f → dbGate.Closed f' m.log → dbGate.Closed f' m'.log

theorem Elsewhere.refl (f : F) (m : Memory F) : Elsewhere f m m := ⟨fun _ _ => rfl, fun _ _ h => h⟩

theorem Elsewhere.trans {f : F} {m m' m'' : Memory F} (h : Elsewhere f m m')
    (h' : Elsewhere f m' m'') : Elsewhere f m m'' :=
  ⟨fun x hx => (h'.lock x hx).trans (h.lock x hx),
    fun x hx hc => h'.closed x hx (h.closed x hx hc)⟩

theorem Elsewhere.did {f : F} {m : Memory F} {e : Syscall F}
    (h : ∀ f', f' ≠ f → (m.own.act e).lock f' = m.own.lock f') : Elsewhere f m (m.did e) := by
  refine ⟨h, fun f' hf hc => ⟨?_, .inl hc⟩⟩
  change (m.own.act e).lock f' _ = _
  rw [h f' hf]
  exact hc.byte

theorem close_elsewhere {f : F} {m : Memory F} {h : Fd}
    (hf : ∀ f' w, m.own.fd h = some (f', w) → f' = f) : Elsewhere f m (m.did (.close h)) := by
  refine .did fun f' hne => ?_
  rcases hfd : m.own.fd h with _ | ⟨f₁, w⟩
  · rw [Own.act, Own.close_of_none hfd]
  · exact (Own.close_lock hfd).trans (if_neg fun heq => hne (heq.trans (hf f₁ w hfd)))

theorem Backed.elsewhere {f f' : F} {m m' : Memory F} {top : Nat} (hb : Backed f' m top)
    (he : Elsewhere f m m') (hf : f' ≠ f) : Backed f' m' top where
  shared h b hb' := by
    rw [he.lock f' hf]
    exact hb.shared h b hb'
  reserved h := by
    rw [he.lock f' hf]
    exact hb.reserved h
  pending h := by
    rw [he.lock f' hf]
    exact hb.pending h
  exclusive h := he.closed f' hf (hb.exclusive h)

section Asks

variable {h : Fd} {m m' : Memory F} {f : F} {w : Bool} {lock : Flock} {err : Option CInt}

@[simp] theorem asked_fd : (m.asked h lock err).own.fd = m.own.fd := by
  cases err with
  | some e => rfl
  | none => exact Own.setlk_fd

theorem asked_lock (hfd : m.own.fd h = some (f, w)) {b : Nat} : (m.asked h lock err).own.lock f b =
    if err = none ∧ b ∈ lock.range then lock.type.mode else m.own.lock f b := by
  cases err with
  | some e => exact (if_neg fun h => absurd h.1 nofun).symm
  | none =>
    refine (Own.setlk_lock hfd).trans ?_
    simp

theorem asked_elsewhere (hfd : m.own.fd h = some (f, w)) : Elsewhere f m (m.asked h lock err) := by
  refine .did fun f' hf => ?_
  cases err with
  | some e => rfl
  | none =>
    funext b
    exact (Own.setlk_lock hfd).trans (if_neg fun h => hf h.1)

omit [DecidableEq F] in
theorem Asks.trans {m'' : Memory F} (ha : Asks h m m') (ha' : Asks h m' m'') : Asks h m m'' := by
  induction ha' with
  | none => exact ha
  | more lock err _ ih => exact ih.more lock err

theorem Asks.fd (ha : Asks h m m') : m'.own.fd = m.own.fd := by
  induction ha with
  | none => rfl
  | more lock err _ ih => exact asked_fd.trans ih

omit [DecidableEq F] in
theorem Asks.memory (ha : Asks h m m') :
    m'.inodeList = m.inodeList ∧ m'.unused = m.unused ∧ m'.heap = m.heap := by
  induction ha with
  | none => exact ⟨rfl, rfl, rfl⟩
  | more _ _ _ ih => exact ih

theorem Asks.elsewhere (ha : Asks h m m') (hfd : m.own.fd h = some (f, w)) : Elsewhere f m m' := by
  induction ha with
  | none => exact .refl f m
  | more lock err ha ih => exact ih.trans (asked_elsewhere (by rw [ha.fd]; exact hfd))

theorem Backed.asked {top : Nat} (hb : Backed f m top) (hfd : m.own.fd h = some (f, w))
    (hshared : 1 ≤ top → lock.type.mode ≠ Option.none ∨ ∀ b ∈ dbGate.range, b ∉ lock.range)
    (hreserved : top = 2 → lock.type.mode = some .write ∨ reservedByte ∉ lock.range)
    (hpending : 3 ≤ top → lock.type.mode = some .write ∨ pendingByte ∉ lock.range) :
    Backed f (m.asked h lock err) top := by
  have hpending' : 3 ≤ top → (m.asked h lock err).own.lock f pendingByte = some .write := by
    intro htop
    rw [asked_lock hfd]
    split
    · next hr => exact (hpending htop).resolve_right fun h => h hr.2
    · exact hb.pending htop
  refine ⟨fun htop b hb' => ?_, fun htop => ?_, hpending', fun htop => ?_⟩
  · rw [asked_lock hfd]
    split
    · next hr => exact (hshared htop).resolve_right fun h => h b hb' hr.2
    · exact hb.shared htop b hb'
  · rw [asked_lock hfd]
    split
    · next hr => exact (hreserved htop).resolve_right fun h => h hr.2
    · exact hb.reserved htop
  · exact ⟨hpending' (by omega), .inl (hb.exclusive htop)⟩

theorem Backed.failed {top : Nat} (hb : Backed f m top) (e : CInt) :
    Backed f (m.asked h lock (some e)) top :=
  ⟨hb.shared, hb.reserved, hb.pending, fun htop =>
    ⟨hb.pending (by omega), .inl (hb.exclusive htop)⟩⟩

theorem Backed.lower {top : Nat} (hb : Backed f m top) (htop : 1 ≤ top) : Backed f m 1 :=
  ⟨fun _ => hb.shared htop, nofun, fun h => absurd h (by decide), nofun⟩

theorem Backed.reserve (hb : Backed f m 1) (hlock : m.own.lock f reservedByte = some .write) :
    Backed f m 2 :=
  ⟨fun _ => hb.shared le_rfl, fun _ => hlock, fun h => absurd h (by decide), nofun⟩

theorem Backed.announce {top : Nat} (hb : Backed f m top) (htop : 1 ≤ top)
    (hlock : m.own.lock f pendingByte = some .write) : Backed f m 3 :=
  ⟨fun _ => hb.shared htop, nofun, fun _ => hlock, nofun⟩

theorem Backed.exclude (hb : Backed f m 3) (hclosed : dbGate.Closed f m.log) : Backed f m 4 :=
  ⟨fun _ => hb.shared (by decide), nofun, fun _ => hb.pending le_rfl, fun _ => hclosed⟩

theorem guards_asked (hg : dbGate.Guards m.log) (hfree : ∀ b ∈ lock.range, b ∉ dbGate.range) :
    dbGate.Guards (m.asked h lock err).log := by
  refine ⟨hg, ?_⟩
  cases err with
  | some e => cases lock.type.mode <;> trivial
  | none =>
    cases hmode : lock.type.mode with
    | none => trivial
    | some mode =>
      intro f' w' _ hin
      obtain ⟨b, hb, hb'⟩ := hin
      exact absurd hb' (hfree b hb)

theorem guards_unlock (hg : dbGate.Guards m.log) (hmode : lock.type.mode = none) :
    dbGate.Guards (m.asked h lock err).log := by
  refine ⟨hg, ?_⟩
  rw [hmode]
  cases err <;> trivial

theorem guards_shared (hg : dbGate.Guards m.log) (hfd : m.own.fd h = some (f, w))
    (hheld : m.own.lock f pendingByte ≠ none ∨ ∀ b ∈ dbGate.range, m.own.lock f b ≠ none) :
    dbGate.Guards (m.asked h lock err).log := by
  refine ⟨hg, ?_⟩
  cases err with
  | some e => cases lock.type.mode <;> trivial
  | none =>
    cases hmode : lock.type.mode with
    | none => trivial
    | some mode =>
      intro f' w' hfd' _
      cases hfd.symm.trans hfd'
      exact hheld.imp_right fun h => ⟨sharedFirst, sharedFirst_mem, h _ sharedFirst_mem⟩

end Asks

/-! ## Functions of the lock family -/

/-- What a function leaves that makes lock calls and writes into the books. -/
structure StaysBacked (f : F) (pFile g : UnixFile) (os os' : LockOs (Memory F)) : Prop where
  handle : ∃ eFileLock lastErrno, g = { pFile with eFileLock, lastErrno }
  books : ∃ nShared nLock eFileLock, os'.inode = Function.update os.inode pFile.pInode
    { os.inode pFile.pInode with nShared, nLock, eFileLock }
  asks : Asks pFile.h os.rest os'.rest
  backed : Backed f os'.rest (os'.ledger pFile.pInode).top
  guards : dbGate.Guards os.rest.log → dbGate.Guards os'.rest.log

section Functions

variable {ω : Answers F} {pFile : UnixFile} {os : LockOs (Memory F)} {f : F} {w : Bool}

theorem unixFileLock_asked (hexcl : ¬ processLocked pFile) (op : Op) (lock : Flock)
    (os : LockOs (Memory F)) : ∃ err, (UnixOpen.calls ω).unixFileLock op pFile lock os =
      (err, { os with rest := os.rest.asked pFile.h lock err }) := by
  rw [unixFileLock, if_neg hexcl]
  exact ⟨_, rfl⟩

omit [DecidableEq F] in
theorem books_same (os : LockOs (Memory F)) (p : Ptr) : ∃ nShared nLock eFileLock,
    os.inode = Function.update os.inode p { os.inode p with nShared, nLock, eFileLock } :=
  ⟨_, _, _, (Function.update_eq_self p os.inode).symm⟩

theorem sqliteError_ne_ok (err : CInt) :
    sqliteErrorFromPosixError err sqliteIoerrLock ≠ sqliteOk := by
  unfold sqliteErrorFromPosixError
  split
  · decide
  · split <;> decide

theorem handle_storeUnlessBusy (pFile : UnixFile) (rc err : CInt) : ∃ eFileLock lastErrno,
    storeUnlessBusy pFile rc err = { pFile with eFileLock, lastErrno } := by
  unfold storeUnlessBusy
  split
  · exact ⟨_, err, rfl⟩
  · exact ⟨_, _, rfl⟩

theorem backs_asked {g : UnixFile} {m : Memory F}
    (hg : ∃ eFileLock lastErrno, g = { pFile with eFileLock, lastErrno })
    (hasks : Asks pFile.h os.rest m) (hb : Backed f m (os.ledger pFile.pInode).top)
    (hguards : dbGate.Guards os.rest.log → dbGate.Guards m.log) :
    StaysBacked f pFile g os { os with rest := m } where
  handle := hg
  books := books_same os pFile.pInode
  asks := hasks
  backed := hb
  guards := hguards

theorem backs_setLevel {g : UnixFile} {os' : LockOs (Memory F)} {eFileLock rc : CInt}
    (hg : ∃ eFileLock lastErrno, g = { pFile with eFileLock, lastErrno })
    (hbooks : ∃ nShared nLock eFileLock, os'.inode = Function.update os.inode pFile.pInode
      { os.inode pFile.pInode with nShared, nLock, eFileLock })
    (hasks : Asks pFile.h os.rest os'.rest)
    (hb : Backed f os'.rest (eFileLock.truncate 8).toNat)
    (hguards : dbGate.Guards os.rest.log → dbGate.Guards os'.rest.log) :
    StaysBacked f pFile (setLevel g eFileLock rc os').1 os (setLevel g eFileLock rc os').2.2 := by
  obtain ⟨e, err, rfl⟩ := hg
  obtain ⟨nShared, nLock, e', hinode⟩ := hbooks
  refine ⟨⟨_, _, rfl⟩, ⟨nShared, nLock, eFileLock.truncate 8, ?_⟩, hasks, ?_, hguards⟩
  · simp [setLevel, LockOs.setInode, hinode]
  · simp only [setLevel, ledger_setInode]
    exact hb

theorem shared_asked {h : Fd} {m : Memory F} (hfd : m.own.fd h = some (f, w))
    (err₂ err₃ : Option CInt) :
    let m₁ := m.asked h ⟨.rdlck, pendingByte, 1⟩ none
    let m₂ := m₁.asked h ⟨.rdlck, sharedFirst, sharedSize⟩ err₂
    let m₃ := m₂.asked h ⟨.unlck, pendingByte, 1⟩ err₃
    Asks h m m₃ ∧ (err₂ = none → Backed f m₃ 1) ∧
      (dbGate.Guards m.log → dbGate.Guards m₃.log) := by
  intro m₁ m₂ m₃
  have hfd₁ : m₁.own.fd h = some (f, w) := by rwa [asked_fd]
  have hfd₂ : m₂.own.fd h = some (f, w) := by rwa [asked_fd]
  have hfree (t : LockType) : ∀ b ∈ (⟨t, pendingByte, 1⟩ : Flock).range, b ∉ dbGate.range :=
    fun b hb => mem_one.mp hb ▸ pendingByte_notMem
  refine ⟨.more _ _ (.more _ _ (.more _ _ .none)), fun herr => ?_, fun hg => ?_⟩
  · refine ⟨fun _ b hb => ?_, nofun, fun h => absurd h (by decide), nofun⟩
    rw [asked_lock hfd₂, if_neg fun h => hfree _ b h.2 hb, asked_lock hfd₁, if_pos ⟨herr, hb⟩]
    nofun
  · refine guards_unlock (guards_shared (guards_asked hg (hfree _)) hfd₁ (.inl ?_)) rfl
    rw [asked_lock hfd, if_pos ⟨rfl, mem_one.mpr rfl⟩]
    nofun

theorem lockShared_asked (hexcl : ¬ processLocked pFile) (os : LockOs (Memory F)) :
    ∃ err₂ err₃ rc tErrno, (UnixOpen.calls ω).lockShared pFile os = (rc, tErrno, { os with
      rest := (os.rest.asked pFile.h ⟨.rdlck, sharedFirst, sharedSize⟩ err₂).asked pFile.h
        ⟨.unlck, pendingByte, 1⟩ err₃ }) ∧ (rc = sqliteOk → err₂ = none) := by
  obtain ⟨err₂, h₂⟩ := unixFileLock_asked (ω := ω) hexcl .lock ⟨.rdlck, sharedFirst, sharedSize⟩ os
  generalize hm : os.rest.asked pFile.h ⟨.rdlck, sharedFirst, sharedSize⟩ err₂ = m at h₂
  obtain ⟨err₃, h₃⟩ := unixFileLock_asked (ω := ω) hexcl .lock ⟨.unlck, pendingByte, 1⟩
    { os with rest := m }
  simp only [lockShared, h₂, h₃]
  subst hm
  cases err₂ with
  | none => cases err₃ <;> exact ⟨none, _, _, _, rfl, fun _ => rfl⟩
  | some err =>
    have hne := sqliteError_ne_ok err
    cases err₃ with
    | none => exact ⟨some err, none, _, _, rfl, fun h => absurd h hne⟩
    | some err' => exact ⟨some err, some err', _, err, if_neg hne, fun h => absurd h hne⟩

theorem lockSystem_shared_backs (hexcl : ¬ processLocked pFile)
    (hfd : os.rest.own.fd pFile.h = some (f, w)) (htop : (os.ledger pFile.pInode).top = 0) :
    StaysBacked f pFile ((UnixOpen.calls ω).lockSystem pFile sharedLock os).1 os
      ((UnixOpen.calls ω).lockSystem pFile sharedLock os).2.2 := by
  have hbacked : ∀ m, Backed f m (os.ledger pFile.pInode).top := fun m => by
    rw [htop]
    exact .none f m
  obtain ⟨err₁, h₁⟩ := unixFileLock_asked (ω := ω) hexcl .lock ⟨.rdlck, pendingByte, 1⟩ os
  have hp : (UnixOpen.calls ω).lockPending pFile sharedLock os = _ := (if_pos rfl).trans h₁
  rw [lockSystem, hp]
  cases err₁ with
  | some err =>
    exact backs_asked (handle_storeUnlessBusy _ _ _) (.more _ _ .none) (hbacked _) fun hg =>
      guards_asked hg fun b hb => mem_one.mp hb ▸ pendingByte_notMem
  | none =>
    generalize hm : os.rest.asked pFile.h ⟨.rdlck, pendingByte, 1⟩ none = m
    obtain ⟨err₂, err₃, rc, tErrno, hs, hrc⟩ :=
      lockShared_asked (ω := ω) hexcl { os with rest := m }
    subst hm
    obtain ⟨hasks, hshared, hguards⟩ := shared_asked hfd err₂ err₃
    simp only [if_true, hs]
    by_cases hok : rc ≠ sqliteOk
    · rw [if_pos hok]
      exact backs_asked (handle_storeUnlessBusy _ _ _) hasks (hbacked _) hguards
    · rw [if_neg hok]
      exact backs_setLevel ⟨_, _, rfl⟩ ⟨_, _, _, rfl⟩ hasks (hshared (hrc (not_not.mp hok))) hguards

theorem lockSystem_reserved_backs (hexcl : ¬ processLocked pFile)
    (hfd : os.rest.own.fd pFile.h = some (f, w))
    (hb : Backed f os.rest (os.ledger pFile.pInode).top)
    (htop : (os.ledger pFile.pInode).top = 1) :
    StaysBacked f pFile ((UnixOpen.calls ω).lockSystem pFile reservedLock os).1 os
      ((UnixOpen.calls ω).lockSystem pFile reservedLock os).2.2 := by
  have h1 : reservedLock ≠ sharedLock := by decide
  have h2 : ¬ (reservedLock = exclusiveLock ∧ pFile.eFileLock < 3) :=
    fun h => absurd h.1 (by decide)
  have h3 : ¬ (reservedLock = exclusiveLock ∧ 1 < (os.inode pFile.pInode).nShared) :=
    fun h => absurd h.1 (by decide)
  have h4 : reservedLock ≠ exclusiveLock := by decide
  have hfree : ∀ b ∈ (⟨.wrlck, reservedByte, 1⟩ : Flock).range, b ∉ dbGate.range :=
    fun b hb => mem_one.mp hb ▸ reservedByte_notMem
  obtain ⟨err, hw⟩ := unixFileLock_asked (ω := ω) hexcl .lock ⟨.wrlck, reservedByte, 1⟩ os
  have hb' : Backed f (os.rest.asked pFile.h ⟨.wrlck, reservedByte, 1⟩ err)
      (os.ledger pFile.pInode).top := hb.asked hfd (fun _ => .inl nofun) (fun _ => .inl rfl)
    fun _ => .inl rfl
  have hguards : dbGate.Guards os.rest.log →
      dbGate.Guards (os.rest.asked pFile.h ⟨.wrlck, reservedByte, 1⟩ err).log :=
    fun hg => guards_asked hg hfree
  simp only [lockSystem, lockPending, lockWrite, if_neg h1, if_neg h2, if_neg h3, if_neg h4,
    if_true, hw]
  cases err with
  | some err =>
    exact backs_asked (handle_storeUnlessBusy _ _ _) (.more _ _ .none) hb' hguards
  | none =>
    refine backs_setLevel ⟨_, _, rfl⟩ (books_same os _) (.more _ _ .none) ?_ hguards
    rw [htop] at hb'
    refine hb'.reserve ?_
    rw [asked_lock hfd, if_pos ⟨rfl, mem_one.mpr rfl⟩]
    rfl

theorem exclusive_asked {h : Fd} {m : Memory F} (hfd : m.own.fd h = some (f, w))
    (hb : Backed f m 3) (err : Option CInt) :
    let m' := m.asked h ⟨.wrlck, sharedFirst, sharedSize⟩ err
    Backed f m' 3 ∧ (err = none → Backed f m' 4) ∧
      (dbGate.Guards m.log → dbGate.Guards m'.log) := by
  intro m'
  have hb' : Backed f m' 3 :=
    hb.asked hfd (fun _ => .inl nofun) (fun _ => .inl rfl) fun _ => .inl rfl
  refine ⟨hb', fun herr => hb'.exclude ⟨hb'.pending le_rfl, .inr fun b hb => ?_⟩,
    fun hg => guards_shared hg hfd (.inr (hb.shared (by decide)))⟩
  exact (asked_lock hfd).trans (if_pos ⟨herr, hb⟩)

theorem lockPending_exclusive (hexcl : ¬ processLocked pFile)
    (hfd : os.rest.own.fd pFile.h = some (f, w)) {e : Nat} (he : 1 ≤ e)
    (hlevel : pFile.eFileLock.toNat = e) (hlt : e < 4) (hb : Backed f os.rest e) :
    ∃ err m, (UnixOpen.calls ω).lockPending pFile exclusiveLock os = (err, { os with rest := m }) ∧
      Asks pFile.h os.rest m ∧ Backed f m e ∧ (err = none → Backed f m 3) ∧
      (dbGate.Guards os.rest.log → dbGate.Guards m.log) := by
  have h1 : exclusiveLock ≠ sharedLock := by decide
  rw [lockPending, if_neg h1]
  by_cases hlow : exclusiveLock = exclusiveLock ∧ pFile.eFileLock < 3
  · obtain ⟨err, h⟩ := unixFileLock_asked (ω := ω) hexcl .lock ⟨.wrlck, pendingByte, 1⟩ os
    rw [if_pos hlow, h]
    have hb' : Backed f (os.rest.asked pFile.h ⟨.wrlck, pendingByte, 1⟩ err) e :=
      hb.asked hfd (fun _ => .inl nofun) (fun _ => .inl rfl) fun _ => .inl rfl
    refine ⟨err, _, rfl, .more _ _ .none, hb', fun herr => hb'.announce he ?_, fun hg =>
      guards_asked hg fun b hb => mem_one.mp hb ▸ pendingByte_notMem⟩
    exact (asked_lock hfd).trans (if_pos ⟨herr, mem_one.mpr rfl⟩)
  · rw [if_neg hlow]
    have hthree : e = 3 := by
      have : ¬ pFile.eFileLock < 3 := fun h => hlow ⟨rfl, h⟩
      bv_omega
    exact ⟨none, os.rest, rfl, .none, hb, fun _ => hthree ▸ hb, id⟩

theorem lockSystem_exclusive_backs (hexcl : ¬ processLocked pFile)
    (hfd : os.rest.own.fd pFile.h = some (f, w))
    (hb : Backed f os.rest (os.ledger pFile.pInode).top) (he : 1 ≤ pFile.eFileLock.toNat)
    (hlt : pFile.eFileLock.toNat < 4)
    (htop : (os.ledger pFile.pInode).top = pFile.eFileLock.toNat) :
    StaysBacked f pFile ((UnixOpen.calls ω).lockSystem pFile exclusiveLock os).1 os
      ((UnixOpen.calls ω).lockSystem pFile exclusiveLock os).2.2 := by
  have h1 : exclusiveLock ≠ sharedLock := by decide
  have h2 : exclusiveLock ≠ reservedLock := by decide
  rw [htop] at hb
  obtain ⟨err, m, hp, hasks, hsame, hpend, hguards⟩ :=
    lockPending_exclusive (ω := ω) hexcl hfd he rfl hlt hb
  have hfdm : m.own.fd pFile.h = some (f, w) := by rwa [hasks.fd]
  rw [lockSystem, hp]
  cases err with
  | some err =>
    rw [← htop] at hsame
    exact backs_asked (handle_storeUnlessBusy _ _ _) hasks hsame hguards
  | none =>
    have hthree := hpend rfl
    simp only [if_neg h1]
    split
    · exact backs_setLevel ⟨_, _, rfl⟩ (books_same os _) hasks hthree hguards
    · obtain ⟨err, hw⟩ := unixFileLock_asked (ω := ω) hexcl .lock ⟨.wrlck, sharedFirst, sharedSize⟩
        { os with rest := m }
      obtain ⟨hstill, hfour, hguards'⟩ := exclusive_asked hfdm hthree err
      simp only [lockWrite, if_neg h2, hw]
      cases err with
      | none =>
        exact backs_setLevel ⟨_, _, rfl⟩ (books_same os _) (.more _ _ hasks) (hfour rfl)
          fun hg => hguards' (hguards hg)
      | some err =>
        simp only [if_true]
        exact backs_setLevel (handle_storeUnlessBusy _ _ _) (books_same os _) (.more _ _ hasks)
          hstill fun hg => hguards' (hguards hg)

theorem backs_share (hb : Backed f os.rest (os.ledger pFile.pInode).top) {info : UnixInodeInfo}
    (hinfo : ∃ nShared nLock, info = { os.inode pFile.pInode with nShared, nLock }) :
    StaysBacked f pFile { pFile with eFileLock := 1 } os (os.setInode pFile.pInode info) := by
  obtain ⟨nShared, nLock, rfl⟩ := hinfo
  refine ⟨⟨_, _, rfl⟩, ⟨nShared, nLock, _, rfl⟩, .none, ?_, id⟩
  rw [ledger_setInode]
  exact hb

theorem raiseLock_backs (hexcl : ¬ processLocked pFile)
    (hfd : os.rest.own.fd pFile.h = some (f, w))
    (hb : Backed f os.rest (os.ledger pFile.pInode).top) {eFileLock : CInt}
    (horder : LockOrder pFile.eFileLock.toNat eFileLock)
    (hgt : ¬ eFileLock.toInt ≤ pFile.eFileLock.toNat) :
    StaysBacked f pFile ((UnixOpen.calls ω).raiseLock pFile eFileLock os).1 os
      ((UnixOpen.calls ω).raiseLock pFile eFileLock os).2.2 := by
  unfold raiseLock
  dsimp only
  split
  · exact ⟨⟨_, _, rfl⟩, books_same os _, .none, hb, id⟩
  · next hbusy =>
    split
    · exact backs_share hb ⟨_, _, rfl⟩
    · next hslow =>
      have hsame : sharedLock.toInt < eFileLock.toInt →
          (os.ledger pFile.pInode).top = pFile.eFileLock.toNat := fun hwant =>
        (congrArg BitVec.toNat (not_not.mp fun hne => hbusy ⟨hne, .inr hwant⟩)).symm
      rcases horder with h | ⟨h0, rfl⟩ | ⟨h1, rfl⟩ | ⟨h1, rfl⟩
      · exact absurd h hgt
      · refine lockSystem_shared_backs hexcl hfd ?_
        have hzero : pFile.eFileLock = 0 := BitVec.eq_of_toNat_eq h0
        change (os.inode pFile.pInode).eFileLock.toNat = 0
        simp only [hzero, true_and, not_or, lt_self_iff_false, or_false, not_and] at hbusy hslow
        bv_omega
      · exact lockSystem_reserved_backs hexcl hfd hb ((hsame (by decide)).trans h1)
      · have h4 : exclusiveLock.toInt = 4 := by decide
        exact lockSystem_exclusive_backs hexcl hfd hb h1 (by omega) (hsame (by decide))

theorem unixLock_backs (hexcl : ¬ processLocked pFile)
    (hfd : os.rest.own.fd pFile.h = some (f, w))
    (hb : Backed f os.rest (os.ledger pFile.pInode).top) {eFileLock : CInt}
    (horder : LockOrder pFile.eFileLock.toNat eFileLock) {g : UnixFile} {rc : CInt}
    {os' : LockOs (Memory F)}
    (h : (UnixOpen.calls ω).unixLock pFile eFileLock os = some (g, rc, os')) :
    StaysBacked f pFile g os os' := by
  rw [unixLock] at h
  split at h
  · cases h
    exact ⟨⟨_, _, rfl⟩, books_same os _, .none, hb, id⟩
  · next hgt =>
    split at h
    · cases h
    · have hraise := raiseLock_backs (ω := ω) hexcl hfd hb horder hgt
      rw [Option.some.inj h] at hraise
      exact hraise

/-! ## Unlock -/

theorem unlock_asked {h : Fd} {m : Memory F} (hfd : m.own.fd h = some (f, w)) {top : Nat}
    (hb : Backed f m top) (htop : 1 ≤ top) (err : Option CInt) :
    Backed f (m.asked h ⟨.unlck, pendingByte, 2⟩ err) (if err.isSome then top else 1) := by
  cases err with
  | some e => exact hb.failed e
  | none =>
    refine (hb.lower htop).asked hfd (fun _ => .inr fun b hb' hr => ?_)
      (fun h => absurd h (by decide)) fun h => absurd h (by decide)
    rcases mem_two.mp hr with rfl | rfl
    · exact pendingByte_notMem hb'
    · exact reservedByte_notMem hb'

theorem dropWrite_asked (hexcl : ¬ processLocked pFile) (op : Op)
    (hfd : os.rest.own.fd pFile.h = some (f, w)) {top : Nat} (hb : Backed f os.rest top)
    (htop : 2 ≤ top) (eFileLock : CInt) :
    ∃ err m, (UnixOpen.calls ω).dropWrite op pFile eFileLock os = (err, if err.isSome then
        { os with rest := m } else LockOs.setInode { os with rest := m } pFile.pInode
          { os.inode pFile.pInode with eFileLock := 1 }) ∧
      Asks pFile.h os.rest m ∧ Backed f m (if err.isSome then top else 1) ∧
      (dbGate.Guards os.rest.log → dbGate.Guards m.log) := by
  obtain ⟨err₁, m₁, h₁, hasks₁, hb₁, hguards₁⟩ : ∃ err m, (if eFileLock = sharedLock then
        (UnixOpen.calls ω).unixFileLock op pFile ⟨.rdlck, sharedFirst, sharedSize⟩ os
      else (none, os)) = (err, { os with rest := m }) ∧ Asks pFile.h os.rest m ∧
        Backed f m top ∧ (dbGate.Guards os.rest.log → dbGate.Guards m.log) := by
    split
    · obtain ⟨err, h⟩ := unixFileLock_asked (ω := ω) hexcl op ⟨.rdlck, sharedFirst, sharedSize⟩ os
      rw [h]
      refine ⟨err, _, rfl, .more _ _ .none, ?_, fun hg =>
        guards_shared hg hfd (.inr (hb.shared (by omega)))⟩
      exact hb.asked hfd (fun _ => .inl nofun)
        (fun _ => .inr (mt mem_shared.mp reservedByte_notMem))
        fun _ => .inr (mt mem_shared.mp pendingByte_notMem)
    · exact ⟨none, os.rest, rfl, .none, hb, id⟩
  rw [dropWrite, h₁]
  cases err₁ with
  | some err => exact ⟨some _, m₁, rfl, hasks₁, hb₁, hguards₁⟩
  | none =>
    obtain ⟨err₂, h₂⟩ := unixFileLock_asked (ω := ω) hexcl op ⟨.unlck, pendingByte, 2⟩
      { os with rest := m₁ }
    have hb₂ := unlock_asked (by rwa [hasks₁.fd]) hb₁ (by omega) err₂ (h := pFile.h)
    have hguards₂ (hg : dbGate.Guards os.rest.log) :
        dbGate.Guards (m₁.asked pFile.h ⟨.unlck, pendingByte, 2⟩ err₂).log :=
      guards_unlock (hguards₁ hg) rfl
    simp only [h₂]
    cases err₂ with
    | some err => exact ⟨some _, _, rfl, .more _ _ hasks₁, hb₂, hguards₂⟩
    | none => exact ⟨none, _, rfl, .more _ _ hasks₁, hb₂, hguards₂⟩

theorem StaysBacked.trans {g g' : UnixFile} {os' os'' : LockOs (Memory F)}
    (h : StaysBacked f pFile g os os') (h' : StaysBacked f g g' os' os'') :
    StaysBacked f pFile g' os os'' := by
  obtain ⟨e, err, rfl⟩ := h.handle
  obtain ⟨e', err', rfl⟩ := h'.handle
  obtain ⟨nShared, nLock, l, hinode⟩ := h.books
  obtain ⟨nShared', nLock', l', hinode'⟩ := h'.books
  refine ⟨⟨e', err', rfl⟩, ⟨nShared', nLock', l', ?_⟩, h.asks.trans h'.asks, h'.backed,
    fun hg => h'.guards (h.guards hg)⟩
  rw [hinode', hinode]
  simp

/-- What an unlock leaves: the books and the locks first, then the descriptors that have waited for
the last lock to go. -/
def Unlocks (ω : Answers F) (f : F) (pFile g : UnixFile) (os os' : LockOs (Memory F)) : Prop :=
  ∃ os₁, StaysBacked f pFile g os os₁ ∧ (os' = os₁ ∨ (os₁.inode pFile.pInode).nLock = 0 ∧
    os' = (UnixOpen.calls ω).closePendingFds pFile os₁)

theorem lastLock_asked (hexcl : ¬ processLocked pFile) (op : Op)
    (hb : Backed f os.rest (os.ledger pFile.pInode).top) :
    let info := os.inode pFile.pInode
    let os₁ := os.setInode pFile.pInode { info with nShared := info.nShared - 1 }
    ∃ err m e, (if info.nShared - 1 = 0 then (UnixOpen.calls ω).dropLast op pFile os₁
        else (none, os₁)) =
        (err, LockOs.setInode { os with rest := m } pFile.pInode
          { info with nShared := info.nShared - 1, eFileLock := e }) ∧
      Asks pFile.h os.rest m ∧ Backed f m e.toNat ∧
      (dbGate.Guards os.rest.log → dbGate.Guards m.log) := by
  intro info os₁
  split
  · obtain ⟨err, h⟩ := unixFileLock_asked (ω := ω) hexcl op ⟨.unlck, 0, 0⟩ os₁
    refine ⟨err, os.rest.asked pFile.h ⟨.unlck, 0, 0⟩ err, 0, ?_, .more _ _ .none, .none f _,
      fun hg => guards_unlock hg rfl⟩
    simp only [dropLast, h]
    simp [os₁, info, LockOs.setInode]
  · exact ⟨none, os.rest, info.eFileLock, rfl, .none, hb, id⟩

theorem dropShared_unlocks (hexcl : ¬ processLocked pFile) (op : Op)
    (hb : Backed f os.rest (os.ledger pFile.pInode).top) :
    Unlocks ω f pFile ((UnixOpen.calls ω).dropShared op pFile os).1 os
      ((UnixOpen.calls ω).dropShared op pFile os).2.2 := by
  obtain ⟨err, m, e, h₁, hasks, hb', hguards⟩ := lastLock_asked (ω := ω) hexcl op hb
  let info := os.inode pFile.pInode
  let os₁ := LockOs.setInode { os with rest := m } pFile.pInode
    { info with nShared := info.nShared - 1, nLock := info.nLock - 1, eFileLock := e }
  have hbacks : ∀ g, (∃ eFileLock lastErrno, g = { pFile with eFileLock, lastErrno }) →
      StaysBacked f pFile g os os₁ := fun g hg =>
    ⟨hg, ⟨_, _, _, rfl⟩, hasks, by simp only [os₁, ledger_setInode]; exact hb', hguards⟩
  have hos : ((UnixOpen.calls ω).dropShared op pFile os).2.2 =
      if info.nLock - 1 = 0 then (UnixOpen.calls ω).closePendingFds pFile os₁ else os₁ := by
    simp only [dropShared, h₁]
    cases err <;> simp [os₁, info, LockOs.setInode]
  refine ⟨os₁, ?_, ?_⟩
  · refine hbacks _ ?_
    simp only [dropShared, h₁]
    cases err with
    | none => exact ⟨_, _, rfl⟩
    | some err => exact ⟨_, err, rfl⟩
  · rw [hos]
    split
    · next h0 => exact .inr ⟨by simpa [os₁] using h0, rfl⟩
    · exact .inl rfl

theorem lowerLock_unlocks (hexcl : ¬ processLocked pFile) (op : Op)
    (hfd : os.rest.own.fd pFile.h = some (f, w))
    (hb : Backed f os.rest (os.ledger pFile.pInode).top)
    (hle : pFile.eFileLock.toNat ≤ (os.ledger pFile.pInode).top) (eFileLock : CInt) :
    Unlocks ω f pFile ((UnixOpen.calls ω).lowerLock op pFile eFileLock os).1 os
      ((UnixOpen.calls ω).lowerLock op pFile eFileLock os).2.2 := by
  obtain ⟨err, os₁, h₁, hbacks⟩ : ∃ err os₁, (if 1 < pFile.eFileLock then
      (UnixOpen.calls ω).dropWrite op pFile eFileLock os else (none, os)) = (err, os₁) ∧
      StaysBacked f pFile pFile os os₁ := by
    by_cases hw : 1 < pFile.eFileLock
    · have htop : 2 ≤ (os.ledger pFile.pInode).top := by
        have : 1 < pFile.eFileLock.toNat := hw
        omega
      obtain ⟨err, m, h, hasks, hb', hguards⟩ :=
        dropWrite_asked (ω := ω) hexcl op hfd hb htop eFileLock
      rw [if_pos hw, h]
      refine ⟨err, _, rfl, ?_⟩
      cases err with
      | some err => exact ⟨⟨_, _, rfl⟩, books_same os _, hasks, hb', hguards⟩
      | none =>
        refine ⟨⟨_, _, rfl⟩, ⟨_, _, 1, rfl⟩, hasks, ?_, hguards⟩
        rw [Option.isSome_none, if_neg Bool.false_ne_true, ledger_setInode]
        exact hb'
    · rw [if_neg hw]
      exact ⟨none, os, rfl, ⟨_, _, rfl⟩, books_same os _, .none, hb, id⟩
  have hset (g : UnixFile) (hg : ∃ eFileLock lastErrno, g = { pFile with eFileLock, lastErrno }) :
      StaysBacked f pFile g os os₁ :=
    ⟨hg, hbacks.books, hbacks.asks, hbacks.backed, hbacks.guards⟩
  simp only [lowerLock, h₁]
  cases err with
  | some err => exact ⟨os₁, hset _ ⟨_, err.2, rfl⟩, .inl rfl⟩
  | none =>
    dsimp only
    by_cases hno : eFileLock = noLock
    · rw [if_pos hno]
      obtain ⟨os₂, hbacks₂, hclose⟩ :=
        dropShared_unlocks (ω := ω) hexcl op hbacks.backed
      exact ⟨os₂, hbacks.trans hbacks₂, hclose⟩
    · rw [if_neg hno]
      exact ⟨os₁, hset _ ⟨_, _, rfl⟩, .inl rfl⟩

theorem posixUnlock_unlocks (hexcl : ¬ processLocked pFile) {op : Op}
    (hfd : os.rest.own.fd pFile.h = some (f, w))
    (hb : Backed f os.rest (os.ledger pFile.pInode).top)
    (hle : pFile.eFileLock.toNat ≤ (os.ledger pFile.pInode).top) {eFileLock : CInt}
    {g : UnixFile} {rc : CInt} {os' : LockOs (Memory F)}
    (h : (UnixOpen.calls ω).posixUnlock op pFile eFileLock os = some (g, rc, os')) :
    Unlocks ω f pFile g os os' := by
  rw [posixUnlock] at h
  split at h
  · cases h
    exact ⟨_, ⟨⟨_, _, rfl⟩, books_same os _, .none, hb, id⟩, .inl rfl⟩
  · split at h
    · cases h
    · have hlower := lowerLock_unlocks (ω := ω) hexcl op hfd hb hle eFileLock
      rw [Option.some.inj h] at hlower
      exact hlower

end Functions

end RemoteVfs
