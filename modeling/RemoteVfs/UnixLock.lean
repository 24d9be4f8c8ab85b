import RemoteVfs.Ledger
import RemoteVfs.Server

/-!
# The locks of `os_unix.c`

Half of a lock is in the `unixFile` (`eFileLock`), the other half in the
`unixInodeInfo` that all files on one inode share.
-/

open CMem Locking

namespace RemoteVfs

/-! ## Locks, inodes and the system -/

def noLock : CInt := 0
def sharedLock : CInt := 1
def reservedLock : CInt := 2
def pendingLock : CInt := 3
def exclusiveLock : CInt := 4

/-- `SQLITE_PERM` -/
def sqlitePerm : CInt := 3
/-- `SQLITE_BUSY` -/
def sqliteBusy : CInt := 5
/-- `SQLITE_IOERR_UNLOCK` -/
def sqliteIoerrUnlock : CInt := 2058
/-- `SQLITE_IOERR_RDLOCK` -/
def sqliteIoerrRdlock : CInt := 2314
/-- `SQLITE_IOERR_CHECKRESERVEDLOCK` -/
def sqliteIoerrCheckReservedLock : CInt := 3594
/-- `SQLITE_IOERR_LOCK` -/
def sqliteIoerrLock : CInt := 3850

/-- `struct unixInodeInfo`. The counters stay below the number of descriptors. -/
structure UnixInodeInfo where
  nShared : Int
  nLock : Int
  eFileLock : BitVec 8
  bProcessLock : BitVec 8
  pUnused : List Ptr
  nRef : Int

inductive LockType
  | rdlck | wrlck | unlck

/-- `struct flock`, from `SEEK_SET` on. -/
structure Flock where
  type : LockType
  start : Nat
  len : Nat

def pendingByte : Nat := 0x40000000
def reservedByte : Nat := pendingByte + 1
def sharedFirst : Nat := pendingByte + 2
def sharedSize : Nat := 510

/-- The inodes, and everything else. -/
structure LockOs (W : Type) where
  inode : Ptr → UnixInodeInfo
  rest : W

/-- The system calls. What they do may depend on the request that is being served. -/
structure LockCalls (W : Type) where
  /-- `fcntl(h, F_SETLK, lock)`: `errno` if it fails. -/
  osFcntl : Op → CInt → Flock → W → Option CInt × W
  /-- `fcntl(h, F_GETLK, lock)`: `errno` if it fails, and whether there is a lock. -/
  osGetlk : CInt → Flock → W → Option CInt × Bool × W
  osClose : CInt → W → W
  osMunmap : Ptr → I64 → W → W
  /-- The `fd` member of the `UnixUnusedFd` at an address. -/
  unusedFd : Ptr → W → CInt

namespace LockOs

variable {W : Type}

def setInode (os : LockOs W) (p : Ptr) (info : UnixInodeInfo) : LockOs W :=
  { os with inode := Function.update os.inode p info }

@[simp] theorem setInode_inode (os : LockOs W) (p : Ptr) (info : UnixInodeInfo) :
    (os.setInode p info).inode p = info := Function.update_self ..

end LockOs

def sqliteErrorFromPosixError (posixError sqliteIOErr : CInt) : CInt :=
  -- EACCES, EAGAIN, ETIMEDOUT, EBUSY, EINTR, ENOLCK
  if posixError = 13 ∨ posixError = 11 ∨ posixError = 110 ∨ posixError = 16 ∨ posixError = 4 ∨
      posixError = 37 then sqliteBusy
  -- EPERM
  else if posixError = 1 then sqlitePerm
  else sqliteIOErr

namespace LockCalls

variable {W : Type} (sys : LockCalls W)

/-- `UNIXFILE_EXCL` -/
def unixfileExcl : BitVec 16 := 0x01
/-- `UNIXFILE_RDONLY` -/
def unixfileRdonly : BitVec 16 := 0x02

/-- `pFile` is on "unix-excl", and may be written. -/
def processLocked (pFile : UnixFile) : Prop :=
  pFile.ctrlFlags &&& (unixfileExcl ||| unixfileRdonly) = unixfileExcl

instance (pFile : UnixFile) : Decidable (processLocked pFile) :=
  inferInstanceAs (Decidable (_ = _))

/-- `osSetPosixAdvisoryLock` for the request `op`. -/
def setLock (op : Op) (pFile : UnixFile) (lock : Flock) (os : LockOs W) :
    Option CInt × LockOs W :=
  let (err, rest) := sys.osFcntl op pFile.h lock os.rest
  (err, { os with rest := rest })

/-- `errno` if it fails. -/
def unixFileLock (op : Op) (pFile : UnixFile) (lock : Flock) (os : LockOs W) :
    Option CInt × LockOs W :=
  if processLocked pFile then
    if (os.inode pFile.pInode).bProcessLock = 0 then
      match sys.setLock op pFile ⟨.wrlck, sharedFirst, sharedSize⟩ os with
      | (some err, os) => (some err, os)
      | (none, os) =>
        let pInode := os.inode pFile.pInode
        (none, os.setInode pFile.pInode
          { pInode with bProcessLock := 1, nLock := pInode.nLock + 1 })
    else (none, os)
  else sys.setLock op pFile lock os

def storeLastErrno (pFile : UnixFile) (error : CInt) : UnixFile :=
  { pFile with lastErrno := error }

/-- `if( rc!=SQLITE_BUSY ) storeLastErrno(pFile, tErrno);` -/
def storeUnlessBusy (pFile : UnixFile) (rc tErrno : CInt) : UnixFile :=
  if rc ≠ sqliteBusy then storeLastErrno pFile tErrno else pFile

/-! ## Lock -/

/-- The lock on the pending byte, where one is needed. -/
def lockPending (pFile : UnixFile) (eFileLock : CInt) (os : LockOs W) : Option CInt × LockOs W :=
  if eFileLock = sharedLock then sys.unixFileLock .lock pFile ⟨.rdlck, pendingByte, 1⟩ os
  else if eFileLock = exclusiveLock ∧ pFile.eFileLock < 3 then
    sys.unixFileLock .lock pFile ⟨.wrlck, pendingByte, 1⟩ os
  else (none, os)

/-- The read-lock, and the end of the pending one: `rc` and `tErrno`. -/
def lockShared (pFile : UnixFile) (os : LockOs W) : CInt × CInt × LockOs W :=
  let (err, os) := sys.unixFileLock .lock pFile ⟨.rdlck, sharedFirst, sharedSize⟩ os
  let (rc, tErrno) := match err with
    | some err => (sqliteErrorFromPosixError err sqliteIoerrLock, err)
    | none => (sqliteOk, 0)
  let (err, os) := sys.unixFileLock .lock pFile ⟨.unlck, pendingByte, 1⟩ os
  match err with
  | some err => if rc = sqliteOk then (sqliteIoerrUnlock, err, os) else (rc, tErrno, os)
  | none => (rc, tErrno, os)

/-- The write-lock for RESERVED or EXCLUSIVE. -/
def lockWrite (pFile : UnixFile) (eFileLock : CInt) (os : LockOs W) : Option CInt × LockOs W :=
  if eFileLock = reservedLock then sys.unixFileLock .lock pFile ⟨.wrlck, reservedByte, 1⟩ os
  else sys.unixFileLock .lock pFile ⟨.wrlck, sharedFirst, sharedSize⟩ os

/-- `pFile->eFileLock = pInode->eFileLock = eFileLock` -/
def setLevel (pFile : UnixFile) (eFileLock : CInt) (rc : CInt) (os : LockOs W) :
    UnixFile × CInt × LockOs W :=
  ({ pFile with eFileLock := eFileLock.truncate 8 }, rc, os.setInode pFile.pInode
    { os.inode pFile.pInode with eFileLock := eFileLock.truncate 8 })

/-- Once nothing has precluded the lock. -/
def lockSystem (pFile : UnixFile) (eFileLock : CInt) (os : LockOs W) :
    UnixFile × CInt × LockOs W :=
  match sys.lockPending pFile eFileLock os with
  | (some err, os) =>
    let rc := sqliteErrorFromPosixError err sqliteIoerrLock
    (storeUnlessBusy pFile rc err, rc, os)
  | (none, os) =>
    if eFileLock = sharedLock then
      let (rc, tErrno, os) := sys.lockShared pFile os
      if rc ≠ sqliteOk then (storeUnlessBusy pFile rc tErrno, rc, os)
      else
        let pInode := os.inode pFile.pInode
        setLevel pFile eFileLock sqliteOk (os.setInode pFile.pInode
          { pInode with nLock := pInode.nLock + 1, nShared := 1 })
    else if eFileLock = exclusiveLock ∧ 1 < (os.inode pFile.pInode).nShared then
      setLevel pFile pendingLock sqliteBusy os
    else
      match sys.lockWrite pFile eFileLock os with
      | (none, os) => setLevel pFile eFileLock sqliteOk os
      | (some err, os) =>
        let rc := sqliteErrorFromPosixError err sqliteIoerrLock
        let pFile := storeUnlessBusy pFile rc err
        if eFileLock = exclusiveLock then setLevel pFile pendingLock rc os
        else (pFile, rc, os)

/-- What follows when the lock is higher than the one that the file has. -/
def raiseLock (pFile : UnixFile) (eFileLock : CInt) (os : LockOs W) : UnixFile × CInt × LockOs W :=
  let pInode := os.inode pFile.pInode
  if pFile.eFileLock ≠ pInode.eFileLock ∧
      (3 ≤ pInode.eFileLock ∨ sharedLock.toInt < eFileLock.toInt) then (pFile, sqliteBusy, os)
  else if eFileLock = sharedLock ∧ (pInode.eFileLock = 1 ∨ pInode.eFileLock = 2) then
    ({ pFile with eFileLock := 1 }, sqliteOk, os.setInode pFile.pInode
      { pInode with nShared := pInode.nShared + 1, nLock := pInode.nLock + 1 })
  else sys.lockSystem pFile eFileLock os

/-- `none` where `pInode` is NULL and dereferenced. -/
def unixLock (pFile : UnixFile) (eFileLock : CInt) (os : LockOs W) :
    Option (UnixFile × CInt × LockOs W) :=
  if eFileLock.toInt ≤ pFile.eFileLock.toNat then some (pFile, sqliteOk, os)
  else if pFile.pInode = 0 then none
  else some (sys.raiseLock pFile eFileLock os)

/-! ## Unlock -/

def closePendingFds (pFile : UnixFile) (os : LockOs W) : LockOs W :=
  let pInode := os.inode pFile.pInode
  let rest := pInode.pUnused.foldl (fun w p => sys.osClose (sys.unusedFd p w) w) os.rest
  { os with rest := rest }.setInode pFile.pInode { pInode with pUnused := [] }

/-- From above SHARED down to SHARED: `rc` and `errno` if that fails. -/
def dropWrite (op : Op) (pFile : UnixFile) (eFileLock : CInt) (os : LockOs W) :
    Option (CInt × CInt) × LockOs W :=
  let (err, os) :=
    if eFileLock = sharedLock then
      sys.unixFileLock op pFile ⟨.rdlck, sharedFirst, sharedSize⟩ os
    else (none, os)
  match err with
  | some err => (some (sqliteIoerrRdlock, err), os)
  | none =>
    match sys.unixFileLock op pFile ⟨.unlck, pendingByte, 2⟩ os with
    | (some err, os) => (some (sqliteIoerrUnlock, err), os)
    | (none, os) =>
      (none, os.setInode pFile.pInode { os.inode pFile.pInode with eFileLock := 1 })

/-- The last one to leave gives up the locks of the process: `errno` if that fails. -/
def dropLast (op : Op) (pFile : UnixFile) (os : LockOs W) : Option CInt × LockOs W :=
  let (err, os) := sys.unixFileLock op pFile ⟨.unlck, 0, 0⟩ os
  (err, os.setInode pFile.pInode { os.inode pFile.pInode with eFileLock := 0 })

/-- From SHARED to no lock. -/
def dropShared (op : Op) (pFile : UnixFile) (os : LockOs W) : UnixFile × CInt × LockOs W :=
  let pInode := os.inode pFile.pInode
  let os := os.setInode pFile.pInode { pInode with nShared := pInode.nShared - 1 }
  let (err, os) := if pInode.nShared - 1 = 0 then sys.dropLast op pFile os else (none, os)
  let pInode := os.inode pFile.pInode
  let os := os.setInode pFile.pInode { pInode with nLock := pInode.nLock - 1 }
  let os := if pInode.nLock - 1 = 0 then sys.closePendingFds pFile os else os
  match err with
  | some err => ({ storeLastErrno pFile err with eFileLock := 0 }, sqliteIoerrUnlock, os)
  | none => ({ pFile with eFileLock := 0 }, sqliteOk, os)

def lowerLock (op : Op) (pFile : UnixFile) (eFileLock : CInt) (os : LockOs W) :
    UnixFile × CInt × LockOs W :=
  let (err, os) := if 1 < pFile.eFileLock then sys.dropWrite op pFile eFileLock os else (none, os)
  match err with
  | some (rc, err) => (storeLastErrno pFile err, rc, os)
  | none =>
    if eFileLock = noLock then sys.dropShared op pFile os
    else ({ pFile with eFileLock := eFileLock.truncate 8 }, sqliteOk, os)

/-- For the request `op`. `none` where `pInode` is NULL and dereferenced. -/
def posixUnlock (op : Op) (pFile : UnixFile) (eFileLock : CInt) (os : LockOs W) :
    Option (UnixFile × CInt × LockOs W) :=
  if (pFile.eFileLock.toNat : Int) ≤ eFileLock.toInt then some (pFile, sqliteOk, os)
  else if pFile.pInode = 0 then none
  else some (sys.lowerLock op pFile eFileLock os)

def unixUnlock (pFile : UnixFile) (eFileLock : CInt) (os : LockOs W) :
    Option (UnixFile × CInt × LockOs W) := sys.posixUnlock .unlock pFile eFileLock os

/-! ## CheckReservedLock -/

/-- The file, `*pResOut` and `rc`. -/
def unixCheckReservedLock (pFile : UnixFile) (os : LockOs W) :
    Option (UnixFile × (CInt × CInt) × LockOs W) :=
  if pFile.pInode = 0 then none
  else
    let pInode := os.inode pFile.pInode
    if 1 < pInode.eFileLock then some (pFile, (1, sqliteOk), os)
    else if pInode.bProcessLock = 0 then
      let (err, locked, rest) := sys.osGetlk pFile.h ⟨.wrlck, reservedByte, 1⟩ os.rest
      let os := { os with rest := rest }
      match err with
      | some err => some (storeLastErrno pFile err, (0, sqliteIoerrCheckReservedLock), os)
      | none => some (pFile, (if locked then 1 else 0, sqliteOk), os)
    else some (pFile, (0, sqliteOk), os)

/-! ## Close -/

/-- The preallocated `UnixUnusedFd` is there since the file was opened. -/
def setPendingFd (pFile : UnixFile) (os : LockOs W) : UnixFile × LockOs W :=
  let pInode := os.inode pFile.pInode
  ({ pFile with h := -1, pPreallocatedUnused := 0 }, os.setInode pFile.pInode
    { pInode with pUnused := pFile.pPreallocatedUnused :: pInode.pUnused })

def releaseInodeInfo (pFile : UnixFile) (os : LockOs W) : LockOs W :=
  let pInode := os.inode pFile.pInode
  let os := os.setInode pFile.pInode { pInode with nRef := pInode.nRef - 1 }
  if pInode.nRef - 1 = 0 then sys.closePendingFds pFile os else os

def closeUnixFile (pFile : UnixFile) (os : LockOs W) : CInt × LockOs W :=
  let rest :=
    if pFile.pMapRegion ≠ 0 then sys.osMunmap pFile.pMapRegion pFile.mmapSizeActual os.rest
    else os.rest
  let rest := if 0 ≤ pFile.h.toInt then sys.osClose pFile.h rest else rest
  (sqliteOk, { os with rest := rest })

def unixClose (pFile : UnixFile) (os : LockOs W) : Option (CInt × LockOs W) := do
  let (pFile, _, os) ← sys.posixUnlock .close pFile noLock os
  if pFile.pInode = 0 then none
  let (pFile, os) :=
    if (os.inode pFile.pInode).nLock ≠ 0 then setPendingFd pFile os else (pFile, os)
  let os := sys.releaseInodeInfo pFile os
  return sys.closeUnixFile pFile os

/-! ## Without locks -/

def nolockCheckReservedLock (pFile : UnixFile) (os : LockOs W) :
    Option (UnixFile × (CInt × CInt) × LockOs W) := some (pFile, (0, sqliteOk), os)

def nolockLock (pFile : UnixFile) (_ : CInt) (os : LockOs W) :
    Option (UnixFile × CInt × LockOs W) := some (pFile, sqliteOk, os)

def nolockUnlock (pFile : UnixFile) (_ : CInt) (os : LockOs W) :
    Option (UnixFile × CInt × LockOs W) := some (pFile, sqliteOk, os)

def nolockClose (pFile : UnixFile) (os : LockOs W) : Option (CInt × LockOs W) :=
  some (sys.closeUnixFile pFile os)

end LockCalls

end RemoteVfs
