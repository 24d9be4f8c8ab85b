import RemoteVfs.FileControl
import RemoteVfs.FullPathname
import RemoteVfs.Posix.History
import RemoteVfs.UnixLock

/-!
# Opening and closing in `os_unix.c`

All descriptors of a process on one file share an inode, for a `close` gives up the locks of the
process on the file, whichever descriptor they have been made with. So a descriptor that cannot be
closed yet waits in the list of its inode, and may be used again.
-/

open CMem Posix

namespace RemoteVfs

/-! ## A process and its system calls -/

/-- `struct UnixUnusedFd`. `pNext` is in the lists. -/
structure UnixUnusedFd where
  fd : CInt
  flags : CInt

/-- What a process has in memory besides its inodes, and what it has asked the kernel. -/
structure Memory (F : Type) where
  /-- The addresses of the inodes, with `fileId`. -/
  inodeList : List (Ptr × F)
  unused : Ptr → UnixUnusedFd
  /-- The addresses that have been given out. -/
  heap : List Ptr
  log : List (Syscall F)

/-- The answers of the world outside, from what has been asked so far. -/
structure Answers (F : Type) where
  setlk : List (Syscall F) → Option Errno
  getlk : List (Syscall F) → Except Errno Bool
  open_ : List (Syscall F) → Except Errno (Fd × F)
  fstat : List (Syscall F) → Option Errno
  stat : List (Syscall F) → Except Errno F
  unlink : List (Syscall F) → Option Errno
  malloc : List (Syscall F) → List Ptr → Ptr
  sqlite3MutexAlloc : List (Syscall F) → Bool
  unixGetTempname : List (Syscall F) → Except CInt (List Byte)

/-- `sqlite3_vfs` and the configuration, as far as an open looks at them. -/
structure Vfs where
  address : Ptr
  /-- `zName` is "unix-excl". -/
  excl : Bool
  /-- `sqlite3GlobalConfig.szMmap` -/
  szMmap : I64
  /-- `sqlite3_uri_boolean(zFilename, "psow", 1)` -/
  psow : Path → Bool
  /-- `sqlite3_uri_parameter(zPath, "modeof")` -/
  modeof : List Byte → Path

/-- `EACCES` -/
def eacces : Errno := 13
/-- `EISDIR` -/
def eisdir : Errno := 21

/-- `SQLITE_IOERR` -/
def sqliteIoerr : CInt := 10
/-- `SQLITE_READONLY_DIRECTORY` -/
def sqliteReadonlyDirectory : CInt := 1544

def LockType.mode : LockType → Option Mode
  | .rdlck => some .read
  | .wrlck => some .write
  | .unlck => none

def Flock.range (lock : Flock) : Range := ⟨lock.start, lock.len⟩

namespace Memory

variable {F : Type} [DecidableEq F]

def own (m : Memory F) : Own F := .of m.log

def did (m : Memory F) (e : Syscall F) : Memory F := { m with log := e :: m.log }

end Memory

namespace UnixOpen

open LockCalls (storeLastErrno)

variable {F : Type} [DecidableEq F] (ω : Answers F)

def ofOption : Option Errno → Except Errno Unit
  | some errno => .error errno
  | none => .ok ()

/-- `F_SETLK` on a descriptor that is not open fails. -/
def osFcntl (h : CInt) (lock : Flock) (m : Memory F) : Option CInt × Memory F :=
  let err := if (m.own.fd h).isSome then ω.setlk m.log else some ebadf
  (err, m.did (.setlk h lock.type.mode lock.range (ofOption err)))

def osGetlk (h : CInt) (lock : Flock) (m : Memory F) : Option CInt × Bool × Memory F :=
  let answer := if (m.own.fd h).isSome then ω.getlk m.log else .error ebadf
  let m := m.did (.getlk h (lock.type.mode.getD .write) lock.range answer)
  match answer with
  | .error errno => (some errno, false, m)
  | .ok locked => (none, locked, m)

def osFstat (h : CInt) (m : Memory F) : Except Errno F × Memory F :=
  let answer := match ω.fstat m.log, m.own.fd h with
    | some errno, _ => .error errno
    | none, none => .error ebadf
    | none, some (f, _) => .ok f
  (answer, m.did (.fstat h answer))

def osStat (zPath : List Byte) (m : Memory F) : Except Errno F × Memory F :=
  let answer := ω.stat m.log
  (answer, m.did (.stat zPath answer))

/-- A new descriptor is one that has not been open. An interrupted call is made again. Descriptors
0, 1 and 2 are in use already, so that none below `SQLITE_MINIMUM_FILE_DESCRIPTOR` is given. -/
def robustOpen (z : List Byte) (f : Kernel.OpenFlags) (m : Memory F) :
    Except Errno Fd × Memory F :=
  let answer := match ω.open_ m.log with
    | .error errno => .error errno
    | .ok (fd, file) =>
      if 3 ≤ fd.toInt ∧ m.own.fd fd = none then .ok (fd, file) else .error emfile
  (answer.map Prod.fst, m.did (.open_ z f answer))

def osUnlink (zPath : List Byte) (m : Memory F) : Memory F :=
  m.did (.unlink zPath (ofOption (ω.unlink m.log)))

/-- NULL, or an address that has not been given out. -/
def sqlite3Malloc64 (m : Memory F) : Ptr × Memory F :=
  let p := ω.malloc m.log m.heap
  if p = 0 ∨ p ∈ m.heap then (0, m) else (p, { m with heap := p :: m.heap })

def calls : LockCalls (Memory F) where
  osFcntl _ := osFcntl ω
  osGetlk := osGetlk ω
  osClose h m := m.did (.close h)
  osMunmap _ _ m := m
  unusedFd p m := (m.unused p).fd

/-! ## Inodes -/

/-- The file, `*ppInode` in it, and the result. -/
def findInodeInfo (pFile : UnixFile) (os : LockOs (Memory F)) :
    UnixFile × CInt × LockOs (Memory F) :=
  match osFstat ω pFile.h os.rest with
  | (.error errno, rest) => (storeLastErrno pFile errno, sqliteIoerr, { os with rest })
  | (.ok fileId, rest) =>
    match rest.inodeList.find? fun node => node.2 = fileId with
    | some (pInode, _) =>
      ({ pFile with pInode }, sqliteOk, { os with rest }.setInode pInode
        { os.inode pInode with nRef := (os.inode pInode).nRef + 1 })
    | none =>
      let (pInode, rest) := sqlite3Malloc64 ω rest
      if pInode = 0 ∨ ω.sqlite3MutexAlloc rest.log = false then
        (pFile, sqliteNomem, { os with rest })
      else
        ({ pFile with pInode }, sqliteOk,
          { os with rest := { rest with inodeList := (pInode, fileId) :: rest.inodeList } }.setInode
            pInode ⟨0, 0, 0, 0, [], 1⟩)

/-- The inode goes with its last file. -/
def releaseInodeInfo (pFile : UnixFile) (os : LockOs (Memory F)) : LockOs (Memory F) :=
  let os := (calls ω).releaseInodeInfo pFile os
  if (os.inode pFile.pInode).nRef = 0 then
    { os with rest := { os.rest with
      inodeList := os.rest.inodeList.eraseP fun node => node.1 = pFile.pInode } }
  else os

/-- NULL if there is none. -/
def findReusableFd (zPath : List Byte) (flags : CInt) (os : LockOs (Memory F)) :
    Ptr × LockOs (Memory F) :=
  if os.rest.inodeList = [] then (0, os)
  else
    match osStat ω zPath os.rest with
    | (.error _, rest) => (0, { os with rest })
    | (.ok fileId, rest) =>
      match rest.inodeList.find? fun node => node.2 = fileId with
      | none => (0, { os with rest })
      | some (pInode, _) =>
        let pUnused := (os.inode pInode).pUnused
        let matches_ := fun p => decide ((rest.unused p).flags = flags)
        match pUnused.find? matches_ with
        | none => (0, { os with rest })
        | some p => (p, { os with rest }.setInode pInode
            { os.inode pInode with pUnused := pUnused.eraseP matches_ })

/-! ## Open -/

/-- `UNIXFILE_DIRSYNC` -/
def unixfileDirsync : BitVec 16 := 0x08
/-- `UNIXFILE_DELETE` -/
def unixfileDelete : BitVec 16 := 0x20
/-- `UNIXFILE_URI` -/
def unixfileUri : BitVec 16 := 0x40
/-- `UNIXFILE_NOLOCK` -/
def unixfileNolock : BitVec 16 := 0x80

/-- The file, the result, and the table of methods. -/
def fillInUnixFile (pVfs : Vfs) (h : CInt) (pNew : UnixFile) (zFilename : Path)
    (ctrlFlags : BitVec 16) (os : LockOs (Memory F)) :
    UnixFile × CInt × Option LockingStyle × LockOs (Memory F) :=
  let psow := pVfs.psow (if ctrlFlags &&& unixfileUri ≠ 0 then zFilename else none)
  let pNew := { pNew with
    h
    pVfs := pVfs.address
    ctrlFlags := ctrlFlags ||| (if psow then unixfilePsow else 0) |||
      (if pVfs.excl then LockCalls.unixfileExcl else 0)
    mmapSizeMax := pVfs.szMmap }
  if ctrlFlags &&& unixfileNolock ≠ 0 then (storeLastErrno pNew 0, sqliteOk, some .nolock, os)
  else
    let (pNew, rc, os) := findInodeInfo ω pNew os
    if rc ≠ sqliteOk then
      (storeLastErrno pNew 0, rc, none, { os with rest := os.rest.did (.close h) })
    else (storeLastErrno pNew 0, sqliteOk, some .posix, os)

/-- The database that a journal or WAL belongs to: the part before the last "-". -/
def databaseOf (zPath : List Byte) : Path :=
  let rec go : List Byte → Path
    | [] => none
    | c :: rest =>
      if c = 0x2d then some rest.reverse else if rest = [] ∨ c = 0x2e then none else go rest
  go zPath.reverse

def getFileMode (zFile : List Byte) (m : Memory F) : CInt × Memory F :=
  match osStat ω zFile m with
  | (.error _, m) => (sqliteIoerrFstat, m)
  | (.ok _, m) => (sqliteOk, m)

def isSet (flags mask : CInt) : Bool := flags &&& mask ≠ 0

/-- The result only: permissions and owners are not in the model. -/
def findCreateFileMode (pVfs : Vfs) (zPath : List Byte) (flags : CInt) (m : Memory F) :
    CInt × Memory F :=
  -- SQLITE_OPEN_WAL, SQLITE_OPEN_MAIN_JOURNAL
  if isSet flags 0x80800 then
    match databaseOf zPath with
    | some zDb => getFileMode ω zDb m
    | none => (sqliteOk, m)
  -- SQLITE_OPEN_DELETEONCLOSE
  else if isSet flags 0x8 then (sqliteOk, m)
  -- SQLITE_OPEN_URI
  else if isSet flags 0x40 then
    match pVfs.modeof zPath with
    | some z => getFileMode ω z m
    | none => (sqliteOk, m)
  else (sqliteOk, m)

/-- The kinds of files. -/
def eType (flags : CInt) : CInt := flags &&& 0xFFFFFF00

/-- A journal is created: a master journal, a main journal, or a WAL. -/
def isNewJrnl (flags : CInt) : Bool :=
  isSet flags 0x4 ∧ (eType flags = 0x4000 ∨ eType flags = 0x800 ∨ eType flags = 0x80000)

/-- The descriptor, and the flags that it is opened with in the end. -/
def openFd (pVfs : Vfs) (zName : List Byte) (flags : CInt) (m : Memory F) :
    Except CInt (Fd × CInt) × Memory F :=
  let (rc, m) := findCreateFileMode ω pVfs zName flags m
  if rc ≠ sqliteOk then (.error rc, m)
  else
    let exclusive := isSet flags 0x10
    match robustOpen ω zName ⟨isSet flags 0x2, isSet flags 0x4, exclusive⟩ m with
    | (.ok fd, m) => (.ok (fd, flags), m)
    | (.error errno, m) =>
      -- `osAccess(zName, F_OK)`
      let (missing, m) := if isNewJrnl flags ∧ errno = eacces then
        let (answer, m) := osStat ω zName m
        (answer.toOption.isNone, m) else (false, m)
      if missing then (.error sqliteReadonlyDirectory, m)
      else if errno ≠ eisdir ∧ isSet flags 0x2 then
        -- Failed to open the file for read/write access. Try read-only.
        match robustOpen ω zName ⟨false, false, exclusive⟩ m with
        | (.ok fd, m) => (.ok (fd, flags &&& ~~~0x6 ||| 0x1), m)
        | (.error _, m) => (.error sqliteCantopen, m)
      else (.error sqliteCantopen, m)

/-- Of a main database: `pPreallocatedUnused`, and the descriptor if there is one already. -/
def preallocate (zName : List Byte) (flags : CInt) (os : LockOs (Memory F)) :
    Ptr × CInt × LockOs (Memory F) :=
  let (pUnused, os) := findReusableFd ω zName flags os
  if pUnused ≠ 0 then (pUnused, (os.rest.unused pUnused).fd, os)
  else
    let (pUnused, rest) := sqlite3Malloc64 ω os.rest
    (pUnused, -1, { os with rest })

/-- Once there is a descriptor. -/
def finishOpen (pVfs : Vfs) (zPath : Path) (zName : List Byte) (pUnused : Ptr) (fd : Fd)
    (isDelete isNewJrnl : Bool) (flags : CInt) (os : LockOs (Memory F)) :
    UnixFile × CInt × Option LockingStyle × LockOs (Memory F) :=
  let rest := os.rest
  let rest := if pUnused ≠ 0 then
    { rest with unused := Function.update rest.unused pUnused ⟨fd, flags⟩ } else rest
  let rest := if isDelete then osUnlink ω zName rest else rest
  let ctrlFlags := (if isDelete then unixfileDelete else 0) |||
    (if isSet flags 0x1 then LockCalls.unixfileRdonly else 0) |||
    (if eType flags ≠ 0x100 then unixfileNolock else 0) |||
    (if isNewJrnl then unixfileDirsync else 0) ||| (if isSet flags 0x40 then unixfileUri else 0)
  fillInUnixFile ω pVfs fd { UnixFile.zero with pPreallocatedUnused := pUnused } zPath ctrlFlags
    { os with rest }

/-- What an open gives. -/
structure Result (F : Type) where
  image : UnixFile
  rc : CInt
  style : Option LockingStyle
  /-- `*pOutFlags`, once it is known. -/
  outFlags : Option CInt
  os : LockOs (Memory F)

/-- A main database has a name. -/
def unixOpen (pVfs : Vfs) (zPath : Path) (flags : CInt) (os : LockOs (Memory F)) : Result F :=
  let isMainDb := eType flags = 0x100
  let (pUnused, fd, os) :=
    if isMainDb then preallocate ω (zPath.getD []) flags os else (0, -1, os)
  if isMainDb ∧ pUnused = 0 then ⟨.zero, sqliteNomem, none, none, os⟩
  else
    let p := { UnixFile.zero with pPreallocatedUnused := pUnused }
    match if isMainDb then .ok (zPath.getD []) else
      zPath.elim (ω.unixGetTempname os.rest.log) .ok with
    | .error rc => ⟨p, rc, none, none, os⟩
    | .ok zName =>
      let (opened, rest) :=
        if fd.toInt < 0 then openFd ω pVfs zName flags os.rest else (.ok (fd, flags), os.rest)
      match opened with
      | .error rc => ⟨p, rc, none, none, { os with rest }⟩
      | .ok (fd, flags') =>
        let (image, rc, style, os) := finishOpen ω pVfs zPath zName pUnused fd (isSet flags 0x8)
          (isNewJrnl flags) flags' { os with rest }
        ⟨image, rc, style, some flags', os⟩

/-! ## Close -/

/-- The file as the unlock has left it, and the result. -/
def unixClose (pFile : UnixFile) (os : LockOs (Memory F)) :
    Option (UnixFile × CInt × LockOs (Memory F)) := do
  let (pFile, _, os) ← (calls ω).posixUnlock .close pFile noLock os
  if pFile.pInode = 0 then none
  let (pFile', os) :=
    if (os.inode pFile.pInode).nLock ≠ 0 then LockCalls.setPendingFd pFile os else (pFile, os)
  let os := releaseInodeInfo ω pFile' os
  let (rc, os) := (calls ω).closeUnixFile pFile' os
  return (pFile, rc, os)

end UnixOpen

end RemoteVfs
