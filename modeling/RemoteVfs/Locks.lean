import RemoteVfs.UnixLock

/-!
# What a lock request does to the books

Every way through `unixLock`, `posixUnlock` and `unixClose` is one move of the ledger,
whatever `fcntl` says.
-/

open CMem Locking

namespace RemoteVfs

variable {W : Type} {sys : LockCalls W} {pFile : UnixFile} {os : LockOs W}

/-- The books of an inode. -/
def UnixInodeInfo.ledger (p : UnixInodeInfo) : Ledger := ⟨p.nShared, p.nLock, p.eFileLock.toNat⟩

/-- The books of the inode at an address. -/
def LockOs.ledger (os : LockOs W) (p : Ptr) : Ledger := (os.inode p).ledger

namespace LockCalls

/-! ## The system calls -/

section Calls

variable {op : Op} {lock : Flock} {err : Option CInt} {os' : LockOs W} {eFileLock : CInt}
  (hexcl : ¬ processLocked pFile)
include hexcl

theorem unixFileLock_inode (h : sys.unixFileLock op pFile lock os = (err, os')) :
    os'.inode = os.inode := by
  rw [unixFileLock, if_neg hexcl] at h
  cases h
  rfl

theorem lockPending_inode (h : sys.lockPending pFile eFileLock os = (err, os')) :
    os'.inode = os.inode := by
  unfold lockPending at h
  split at h
  · exact unixFileLock_inode hexcl h
  · split at h
    · exact unixFileLock_inode hexcl h
    · cases h
      rfl

theorem lockWrite_inode (h : sys.lockWrite pFile eFileLock os = (err, os')) :
    os'.inode = os.inode := by
  unfold lockWrite at h
  split at h <;> exact unixFileLock_inode hexcl h

theorem lockShared_inode {rc tErrno : CInt} (h : sys.lockShared pFile os = (rc, tErrno, os')) :
    os'.inode = os.inode := by
  rcases h₁ : sys.unixFileLock .lock pFile ⟨.rdlck, sharedFirst, sharedSize⟩ os with ⟨err₁, os₁⟩
  rcases h₂ : sys.unixFileLock .lock pFile ⟨.unlck, pendingByte, 1⟩ os₁ with ⟨err₂, os₂⟩
  have hos : os₂.inode = os.inode :=
    (unixFileLock_inode hexcl h₂).trans (unixFileLock_inode hexcl h₁)
  simp only [lockShared, h₁, h₂] at h
  rcases err₂ with _ | err
  · cases h
    exact hos
  · rcases err₁ with _ | err'
    all_goals
      dsimp only at h
      split at h
      all_goals
        cases h
        exact hos

end Calls

/-! ## The books -/

@[simp] theorem ledger_setInode (os : LockOs W) (p : Ptr) (info : UnixInodeInfo) :
    (os.setInode p info).ledger p = info.ledger := by
  rw [LockOs.ledger, LockOs.setInode_inode]

theorem ledger_setInode_of_eq {p : Ptr} {info : UnixInodeInfo} (h : info.ledger = os.ledger p)
    (q : Ptr) : (os.setInode p info).ledger q = os.ledger q := by
  by_cases hq : q = p
  · rw [hq, ledger_setInode, h]
  · simp only [LockOs.ledger, LockOs.setInode, Function.update_of_ne hq]

theorem ledger_congr {os' : LockOs W} (h : os'.inode = os.inode) (p : Ptr) :
    os'.ledger p = os.ledger p := by
  rw [LockOs.ledger, h, LockOs.ledger]

/-- What a function leaves of a file and of the books of its inode: one move. -/
structure Accounted (pFile g : UnixFile) (os os' : LockOs W) : Prop where
  pInode : g.pInode = pFile.pInode
  locked : processLocked g ↔ processLocked pFile
  moves : Moves (os.ledger pFile.pInode) pFile.eFileLock.toNat g.eFileLock.toNat
    (os'.ledger pFile.pInode)

theorem Accounted.stay {g : UnixFile} {os' : LockOs W} (hp : g.pInode = pFile.pInode)
    (hc : processLocked g ↔ processLocked pFile) (he : g.eFileLock = pFile.eFileLock)
    (hos : os'.inode = os.inode) : Accounted pFile g os os' :=
  ⟨hp, hc, by rw [he, ledger_congr hos]; exact .stay _ _⟩

theorem accounted_storeUnlessBusy {os' : LockOs W} (rc err : CInt) (hos : os'.inode = os.inode) :
    Accounted pFile (storeUnlessBusy pFile rc err) os os' := by
  unfold storeUnlessBusy
  split <;> exact .stay rfl .rfl rfl hos

theorem setLevel_accounted {g : UnixFile} {os₁ : LockOs W} (eFileLock rc : CInt)
    (hp : g.pInode = pFile.pInode) (hc : processLocked g ↔ processLocked pFile) {L : Ledger}
    (hos : os₁.ledger pFile.pInode = L)
    (h : Moves (os.ledger pFile.pInode) pFile.eFileLock.toNat (eFileLock.truncate 8).toNat
      { L with top := (eFileLock.truncate 8).toNat }) :
    Accounted pFile (setLevel g eFileLock rc os₁).1 os (setLevel g eFileLock rc os₁).2.2 := by
  refine ⟨hp, hc, ?_⟩
  rw [← hos] at h
  simp only [setLevel, hp, ledger_setInode]
  exact h

/-! ## Lock -/

/-- The order that `unixLock` asserts. -/
def LockOrder (level : Nat) (eFileLock : CInt) : Prop :=
  eFileLock.toInt ≤ level ∨ level = 0 ∧ eFileLock = sharedLock ∨
    level = 1 ∧ eFileLock = reservedLock ∨ 1 ≤ level ∧ eFileLock = exclusiveLock

instance (level : Nat) (eFileLock : CInt) : Decidable (LockOrder level eFileLock) :=
  inferInstanceAs (Decidable (_ ∨ _))

section Lock

variable (hexcl : ¬ processLocked pFile)
include hexcl

theorem lockSystem_shared (he : pFile.eFileLock = 0) (htop : (os.ledger pFile.pInode).top = 0)
    (hholders : (os.ledger pFile.pInode).holders = 0) :
    Accounted pFile (sys.lockSystem pFile sharedLock os).1 os
      (sys.lockSystem pFile sharedLock os).2.2 := by
  rcases hp : sys.lockPending pFile sharedLock os with ⟨err, os₁⟩
  have hos₁ := lockPending_inode hexcl hp
  rw [lockSystem, hp]
  cases err with
  | some err => exact accounted_storeUnlessBusy _ _ hos₁
  | none =>
    rcases hs : sys.lockShared pFile os₁ with ⟨rc, tErrno, os₂⟩
    have hos₂ := (lockShared_inode hexcl hs).trans hos₁
    simp only [if_true, hs]
    split
    · exact accounted_storeUnlessBusy _ _ hos₂
    · refine setLevel_accounted _ _ rfl .rfl (ledger_setInode _ _ _) ?_
      have hinode : os₂.inode pFile.pInode = os.inode pFile.pInode := congrFun hos₂ _
      have hmove := Moves.share (os.ledger pFile.pInode) (htop.trans_le (Nat.zero_le _))
      rw [hholders, htop] at hmove
      rw [he, hinode]
      exact hmove

theorem lockSystem_reserved (he : pFile.eFileLock = 1)
    (htop : (os.ledger pFile.pInode).top = 1) :
    Accounted pFile (sys.lockSystem pFile reservedLock os).1 os
      (sys.lockSystem pFile reservedLock os).2.2 := by
  rcases hp : sys.lockPending pFile reservedLock os with ⟨err, os₁⟩
  have hos₁ := lockPending_inode hexcl hp
  rw [lockSystem, hp]
  cases err with
  | some err => exact accounted_storeUnlessBusy _ _ hos₁
  | none =>
    rcases hw : sys.lockWrite pFile reservedLock os₁ with ⟨err, os₂⟩
    have hos₂ := (lockWrite_inode hexcl hw).trans hos₁
    have h1 : reservedLock ≠ sharedLock := by decide
    have h2 : ¬ (reservedLock = exclusiveLock ∧ 1 < (os₁.inode pFile.pInode).nShared) :=
      fun h => absurd h.1 (by decide)
    simp only [if_neg h1, if_neg h2, hw]
    cases err with
    | none =>
      refine setLevel_accounted _ _ rfl .rfl (ledger_congr hos₂ _) ?_
      rw [he]
      exact .reserve _ htop
    | some err => exact accounted_storeUnlessBusy _ _ hos₂

theorem lockSystem_exclusive (he : 1 ≤ pFile.eFileLock.toNat) (hlt : pFile.eFileLock.toNat < 4)
    (htop : (os.ledger pFile.pInode).top = pFile.eFileLock.toNat) :
    Accounted pFile (sys.lockSystem pFile exclusiveLock os).1 os
      (sys.lockSystem pFile exclusiveLock os).2.2 := by
  rcases hp : sys.lockPending pFile exclusiveLock os with ⟨err, os₁⟩
  have hos₁ := lockPending_inode hexcl hp
  have hpend : Moves (os.ledger pFile.pInode) pFile.eFileLock.toNat pending
      { os.ledger pFile.pInode with top := pending } :=
    .announce _ _ he (Nat.lt_succ_iff.mp hlt) htop
  rw [lockSystem, hp]
  cases err with
  | some err => exact accounted_storeUnlessBusy _ _ hos₁
  | none =>
    have h1 : exclusiveLock ≠ sharedLock := by decide
    simp only [if_neg h1]
    split
    · exact setLevel_accounted _ _ rfl .rfl (ledger_congr hos₁ _) hpend
    · next hshared =>
      rcases hw : sys.lockWrite pFile exclusiveLock os₁ with ⟨err, os₂⟩
      have hos₂ := (lockWrite_inode hexcl hw).trans hos₁
      cases err with
      | none =>
        refine setLevel_accounted _ _ rfl .rfl (ledger_congr hos₂ _) ?_
        refine .exclude _ _ he hlt htop ?_
        rw [← ledger_congr hos₁]
        exact not_lt.mp fun h => hshared ⟨trivial, h⟩
      | some err =>
        have hkeep : Accounted pFile _ os os₂ :=
          accounted_storeUnlessBusy (sqliteErrorFromPosixError err sqliteIoerrLock) err hos₂
        simp only [if_true]
        exact setLevel_accounted _ _ hkeep.pInode hkeep.locked (ledger_congr hos₂ _) hpend

theorem raiseLock_shared (he : pFile.eFileLock = 0)
    (hholders : (os.ledger pFile.pInode).top = 0 → (os.ledger pFile.pInode).holders = 0) :
    Accounted pFile (sys.raiseLock pFile sharedLock os).1 os
      (sys.raiseLock pFile sharedLock os).2.2 := by
  unfold raiseLock
  dsimp only
  split
  · exact .stay rfl .rfl rfl rfl
  · next hbusy =>
    rw [he] at hbusy
    split
    · next hfast =>
      have htop : 1 ≤ (os.ledger pFile.pInode).top ∧ (os.ledger pFile.pInode).top ≤ 2 := by
        change 1 ≤ (os.inode pFile.pInode).eFileLock.toNat ∧
          (os.inode pFile.pInode).eFileLock.toNat ≤ 2
        rcases hfast.2 with h | h <;> rw [h] <;> decide
      have hmax : max (os.ledger pFile.pInode).top shared = (os.ledger pFile.pInode).top :=
        max_eq_left htop.1
      have hmove := Moves.share (os.ledger pFile.pInode) htop.2
      rw [hmax] at hmove
      refine ⟨rfl, .rfl, ?_⟩
      rw [ledger_setInode, he]
      exact hmove
    · next hslow =>
      have htop : (os.ledger pFile.pInode).top = 0 := by
        change (os.inode pFile.pInode).eFileLock.toNat = 0
        simp only [true_and, not_or, lt_self_iff_false, or_false, not_and] at hbusy hslow
        bv_omega
      exact lockSystem_shared hexcl he htop (hholders htop)

omit hexcl in
theorem raiseLock_top {eFileLock : CInt} (hgt : sharedLock.toInt < eFileLock.toInt)
    (hsystem : (os.ledger pFile.pInode).top = pFile.eFileLock.toNat →
      Accounted pFile (sys.lockSystem pFile eFileLock os).1 os
        (sys.lockSystem pFile eFileLock os).2.2) :
    Accounted pFile (sys.raiseLock pFile eFileLock os).1 os
      (sys.raiseLock pFile eFileLock os).2.2 := by
  unfold raiseLock
  dsimp only
  split
  · exact .stay rfl .rfl rfl rfl
  · next hbusy =>
    have heq : pFile.eFileLock = (os.inode pFile.pInode).eFileLock :=
      not_not.mp fun hne => hbusy ⟨hne, .inr hgt⟩
    have hne : ¬ (eFileLock = sharedLock ∧ ((os.inode pFile.pInode).eFileLock = 1 ∨
        (os.inode pFile.pInode).eFileLock = 2)) := by
      rintro ⟨rfl, -⟩
      exact lt_irrefl _ hgt
    rw [if_neg hne]
    exact hsystem (congrArg BitVec.toNat heq).symm

theorem unixLock_accounted (hino : pFile.pInode ≠ 0) {eFileLock : CInt}
    (horder : LockOrder pFile.eFileLock.toNat eFileLock)
    (hholders : (os.ledger pFile.pInode).top = 0 → (os.ledger pFile.pInode).holders = 0) :
    ∃ g rc os', sys.unixLock pFile eFileLock os = some (g, rc, os') ∧
      Accounted pFile g os os' := by
  rw [unixLock]
  by_cases hle : eFileLock.toInt ≤ pFile.eFileLock.toNat
  · rw [if_pos hle]
    exact ⟨pFile, sqliteOk, os, rfl, .stay rfl .rfl rfl rfl⟩
  · rw [if_neg hle, if_neg hino]
    refine ⟨_, _, _, rfl, ?_⟩
    rcases horder with h | ⟨h0, rfl⟩ | ⟨h1, rfl⟩ | ⟨h1, rfl⟩
    · exact absurd h hle
    · exact raiseLock_shared hexcl (BitVec.eq_of_toNat_eq h0) hholders
    · refine raiseLock_top (by decide) fun htop => ?_
      exact lockSystem_reserved hexcl (BitVec.eq_of_toNat_eq h1) (htop.trans h1)
    · refine raiseLock_top (by decide) fun htop => ?_
      have h4 : exclusiveLock.toInt = 4 := by decide
      exact lockSystem_exclusive hexcl h1 (by omega) htop

end Lock

/-! ## Unlock -/

theorem closePendingFds_ledger (p : Ptr) :
    (sys.closePendingFds pFile os).ledger p = os.ledger p := by
  exact (ledger_setInode_of_eq (by rfl) p).trans rfl

section Unlock

variable {op : Op} (hexcl : ¬ processLocked pFile)
include hexcl

theorem dropWrite_ledger {eFileLock : CInt} {err : Option (CInt × CInt)} {os' : LockOs W}
    (h : sys.dropWrite op pFile eFileLock os = (err, os')) :
    os'.ledger pFile.pInode = if err.isSome then os.ledger pFile.pInode
      else { os.ledger pFile.pInode with top := shared } := by
  rcases h₁ : (if eFileLock = sharedLock then
      sys.unixFileLock op pFile ⟨.rdlck, sharedFirst, sharedSize⟩ os else (none, os))
    with ⟨err₁, os₁⟩
  have hos₁ : os₁.inode = os.inode := by
    split at h₁
    · exact unixFileLock_inode hexcl h₁
    · exact congrArg LockOs.inode (Prod.mk.inj h₁).2.symm
  simp only [dropWrite, h₁] at h
  cases err₁ with
  | some err₁ =>
    cases h
    exact ledger_congr hos₁ _
  | none =>
    rcases h₂ : sys.unixFileLock op pFile ⟨.unlck, pendingByte, 2⟩ os₁ with ⟨err₂, os₂⟩
    have hos₂ := (unixFileLock_inode hexcl h₂).trans hos₁
    simp only [h₂] at h
    cases err₂ with
    | some err₂ =>
      cases h
      exact ledger_congr hos₂ _
    | none =>
      cases h
      rw [ledger_setInode, UnixInodeInfo.ledger, congrFun hos₂]
      rfl

theorem dropLast_ledger {err : Option CInt} {os' : LockOs W}
    (h : sys.dropLast op pFile os = (err, os')) :
    os'.ledger pFile.pInode = { os.ledger pFile.pInode with top := 0 } := by
  rcases h₁ : sys.unixFileLock op pFile ⟨.unlck, 0, 0⟩ os with ⟨err₁, os₁⟩
  have hos₁ := unixFileLock_inode hexcl h₁
  simp only [dropLast, h₁] at h
  cases h
  rw [ledger_setInode, UnixInodeInfo.ledger, congrFun hos₁]
  rfl

/-- A shared lock goes even when `fcntl` fails. -/
theorem dropShared_left :
    let r := sys.dropShared op pFile os
    r.1.pInode = pFile.pInode ∧ (processLocked r.1 ↔ processLocked pFile) ∧ r.1.eFileLock = 0 ∧
      r.2.2.ledger pFile.pInode =
        let L := os.ledger pFile.pInode
        ⟨L.holders - 1, L.locks - 1, if L.holders - 1 = 0 then 0 else L.top⟩ := by
  let os₁ := os.setInode pFile.pInode
    { os.inode pFile.pInode with nShared := (os.inode pFile.pInode).nShared - 1 }
  rcases h₂ : (if (os.inode pFile.pInode).nShared - 1 = 0 then sys.dropLast op pFile os₁
    else (none, os₁)) with ⟨err, os₂⟩
  have hos₂ : os₂.ledger pFile.pInode =
      let L := os.ledger pFile.pInode
      ⟨L.holders - 1, L.locks, if L.holders - 1 = 0 then 0 else L.top⟩ := by
    split at h₂
    · next h0 =>
      have hlast : (os.ledger pFile.pInode).holders - 1 = 0 := h0
      simp only [dropLast_ledger hexcl h₂, os₁, ledger_setInode, if_pos hlast]
      rfl
    · next h0 =>
      have hmore : ¬ (os.ledger pFile.pInode).holders - 1 = 0 := h0
      simp only [← (Prod.mk.inj h₂).2, os₁, ledger_setInode, if_neg hmore]
      rfl
  let os₃ := os₂.setInode pFile.pInode
    { os₂.inode pFile.pInode with nLock := (os₂.inode pFile.pInode).nLock - 1 }
  let os₄ := if (os₂.inode pFile.pInode).nLock - 1 = 0 then sys.closePendingFds pFile os₃ else os₃
  have hos₄ : os₄.ledger pFile.pInode =
      { os₂.ledger pFile.pInode with locks := (os₂.ledger pFile.pInode).locks - 1 } := by
    have hos₃ := ledger_setInode os₂ pFile.pInode
      { os₂.inode pFile.pInode with nLock := (os₂.inode pFile.pInode).nLock - 1 }
    dsimp only [os₄]
    split
    · rw [closePendingFds_ledger, hos₃]
      rfl
    · exact hos₃
  rw [hos₂] at hos₄
  dsimp only [dropShared]
  rw [h₂]
  cases err with
  | none => exact ⟨rfl, .rfl, rfl, hos₄⟩
  | some err => exact ⟨rfl, .rfl, rfl, hos₄⟩

theorem lowerLock_accounted {eFileLock : CInt} (he : eFileLock = noLock ∨ eFileLock = sharedLock)
    (hlt : eFileLock.toInt < pFile.eFileLock.toNat) :
    Accounted pFile (sys.lowerLock op pFile eFileLock os).1 os
      (sys.lowerLock op pFile eFileLock os).2.2 := by
  rcases h₁ : (if 1 < pFile.eFileLock then sys.dropWrite op pFile eFileLock os else (none, os))
    with ⟨err, os₁⟩
  simp only [lowerLock, h₁]
  have hheld : shared ≤ pFile.eFileLock.toNat := by
    have h0 : noLock.toInt = 0 := by decide
    have h1 : sharedLock.toInt = 1 := by decide
    rcases he with rfl | rfl <;> simp only [shared] <;> omega
  have htop : os₁.ledger pFile.pInode = if err.isSome then os.ledger pFile.pInode
      else { os.ledger pFile.pInode with top := if reserved ≤ pFile.eFileLock.toNat then shared
        else (os.ledger pFile.pInode).top } := by
    split at h₁
    · next hw =>
      rw [dropWrite_ledger hexcl h₁, if_pos (show reserved ≤ _ from hw)]
    · next hw =>
      obtain ⟨rfl, rfl⟩ := Prod.mk.inj h₁
      rw [if_neg (show ¬ reserved ≤ _ from hw)]
      rfl
  cases err with
  | some err =>
    refine ⟨rfl, .rfl, ?_⟩
    rw [htop]
    exact .stay _ _
  | none =>
    rw [Option.isSome_none, if_neg Bool.false_ne_true] at htop
    rcases he with rfl | rfl
    · obtain ⟨hp, hc, hlevel, hleft⟩ := @dropShared_left _ sys pFile os₁ op hexcl
      rw [if_pos rfl]
      refine ⟨hp, hc, ?_⟩
      rw [hlevel, hleft, htop]
      exact .release _ _ hheld
    · have hw : reserved ≤ pFile.eFileLock.toNat := by
        have h1 : sharedLock.toInt = 1 := by decide
        simp only [reserved]
        omega
      have hne : sharedLock ≠ noLock := by decide
      simp only [if_neg hne]
      refine ⟨rfl, .rfl, ?_⟩
      rw [htop, if_pos hw]
      exact .lower _ _ hw

theorem posixUnlock_accounted (hino : pFile.pInode ≠ 0) {eFileLock : CInt}
    (he : eFileLock = noLock ∨ eFileLock = sharedLock) :
    ∃ g rc os', sys.posixUnlock op pFile eFileLock os = some (g, rc, os') ∧
      Accounted pFile g os os' := by
  rw [posixUnlock]
  by_cases hle : (pFile.eFileLock.toNat : Int) ≤ eFileLock.toInt
  · rw [if_pos hle]
    exact ⟨pFile, sqliteOk, os, rfl, .stay rfl .rfl rfl rfl⟩
  · rw [if_neg hle, if_neg hino]
    exact ⟨_, _, _, rfl, lowerLock_accounted hexcl he (not_le.mp hle)⟩

end Unlock

/-- Requests for which no lock call fails. -/
def FcntlSucceeds (sys : LockCalls W) (op : Op) : Prop :=
  ∀ h lock w, (sys.osFcntl op h lock w).1 = none

section Succeeds

variable {op : Op} (hexcl : ¬ processLocked pFile) (hfcntl : sys.FcntlSucceeds op)
include hexcl hfcntl

theorem unixFileLock_succeeds (lock : Flock) (os : LockOs W) :
    (sys.unixFileLock op pFile lock os).1 = none := by
  rw [unixFileLock, if_neg hexcl]
  exact hfcntl _ _ _

theorem dropWrite_succeeds (os : LockOs W) : (sys.dropWrite op pFile noLock os).1 = none := by
  have hne : noLock ≠ sharedLock := by decide
  have hunlock := unixFileLock_succeeds hexcl hfcntl ⟨.unlck, pendingByte, 2⟩ os
  rcases h : sys.unixFileLock op pFile ⟨.unlck, pendingByte, 2⟩ os with ⟨err, os'⟩
  rw [h] at hunlock
  obtain rfl : err = none := hunlock
  simp only [dropWrite, if_neg hne, h]

theorem lowerLock_succeeds (os : LockOs W) :
    (sys.lowerLock op pFile noLock os).1.eFileLock = 0 := by
  rcases h : (if 1 < pFile.eFileLock then sys.dropWrite op pFile noLock os else (none, os))
    with ⟨err, os₁⟩
  obtain rfl : err = none := by
    split at h
    · rw [← dropWrite_succeeds hexcl hfcntl os, h]
    · exact (Prod.mk.inj h).1.symm
  simp only [lowerLock, h, if_true]
  exact (dropShared_left hexcl).2.2.1

theorem posixUnlock_succeeds (hino : pFile.pInode ≠ 0) :
    ∃ g rc os', sys.posixUnlock op pFile noLock os = some (g, rc, os') ∧
      Accounted pFile g os os' ∧ g.eFileLock = 0 := by
  obtain ⟨g, rc, os', h, hacc⟩ :=
    @posixUnlock_accounted _ sys pFile os op hexcl hino noLock (.inl rfl)
  refine ⟨g, rc, os', h, hacc, ?_⟩
  rw [posixUnlock] at h
  split at h
  · next hle =>
    obtain rfl := (Prod.mk.inj (Option.some.inj h)).1
    have h0 : noLock.toInt = 0 := by decide
    exact BitVec.eq_of_toNat_eq (Nat.le_zero.mp (by omega))
  · rw [← (Prod.mk.inj (Option.some.inj h)).1]
    exact lowerLock_succeeds hexcl hfcntl os

end Succeeds

/-! ## CheckReservedLock and Close -/

theorem unixCheckReservedLock_accounted (hino : pFile.pInode ≠ 0) :
    ∃ g ret os', sys.unixCheckReservedLock pFile os = some (g, ret, os') ∧
      Accounted pFile g os os' := by
  rw [unixCheckReservedLock, if_neg hino]
  dsimp only
  split
  · exact ⟨_, _, _, rfl, .stay rfl .rfl rfl rfl⟩
  · split
    · split <;> exact ⟨_, _, _, rfl, .stay rfl .rfl rfl rfl⟩
    · exact ⟨_, _, _, rfl, .stay rfl .rfl rfl rfl⟩

theorem releaseInodeInfo_ledger (p : Ptr) :
    (sys.releaseInodeInfo pFile os).ledger p = os.ledger p := by
  have hset := @ledger_setInode_of_eq _ os pFile.pInode
    { os.inode pFile.pInode with nRef := (os.inode pFile.pInode).nRef - 1 } rfl p
  rw [releaseInodeInfo]
  split
  · rw [closePendingFds_ledger, hset]
  · exact hset

theorem unixClose_moves (hexcl : ¬ processLocked pFile) (hfcntl : sys.FcntlSucceeds .close)
    (hino : pFile.pInode ≠ 0) :
    ∃ rc os', sys.unixClose pFile os = some (rc, os') ∧
      Moves (os.ledger pFile.pInode) pFile.eFileLock.toNat 0 (os'.ledger pFile.pInode) := by
  obtain ⟨g, rc, os₁, h, hacc, hlevel⟩ := @posixUnlock_succeeds _ sys pFile os _ hexcl hfcntl hino
  have hmoves := hacc.moves
  rw [hlevel, ← hacc.pInode] at hmoves
  rw [← hacc.pInode] at hino
  rcases hpend : (if (os₁.inode g.pInode).nLock ≠ 0 then setPendingFd g os₁ else (g, os₁))
    with ⟨g', os₂⟩
  have hos₂ : ∀ p, os₂.ledger p = os₁.ledger p := by
    intro p
    split at hpend
    · rw [← (Prod.mk.inj hpend).2]
      exact ledger_setInode_of_eq (by rfl) p
    · rw [(Prod.mk.inj hpend).2]
  have hclose : sys.unixClose pFile os =
      some (sys.closeUnixFile g' (sys.releaseInodeInfo g' os₂)) := by
    simp only [unixClose, h, Option.bind_eq_bind, Option.bind_some, if_neg hino, hpend]
    rfl
  refine ⟨_, _, hclose, ?_⟩
  rw [← hacc.pInode]
  have hleft := (@releaseInodeInfo_ledger _ sys g' os₂ g.pInode).trans (hos₂ g.pInode)
  rw [← hleft] at hmoves
  exact hmoves

end LockCalls

end RemoteVfs
