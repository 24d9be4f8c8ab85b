import RemoteVfs.UnixFile

/-!
# The converters of `os_arg_convert.c`

Four for each operation. The client packs the arguments (`ConvertArgInToChar`),
the server unpacks them (`ConvertCharToArgIn`), packs what it returns
(`ConvertReturnToChar`), and the client unpacks that (`ConvertCharToReturn`).
-/

open CMem

namespace RemoteVfs

/-- The operations of the service that have a converter of their own. -/
inductive Op
  | open_ | delete | access | fullPathname | getLastError
  | write | read | truncate | sync | fileSize | fileControl | sectorSize
  | deviceCharacteristics | close | lock | unlock | checkReservedLock | fetch | unfetch
  deriving DecidableEq

/-! ## The message structs -/

namespace Op

open Member

/-- The members of `struct ArgIn<Op>`. `ArgInFullPathname` is commented out in
the source: its length is `getFullPathname_ARG_LEN`. -/
def argInMembers : Op → List Member
  | open_ => [chars 512, chars sizeUnixFile, int, int]
  | delete => [chars 512, int]
  | access => [chars 512, int, int]
  | fullPathname => []
  | getLastError => [int, chars 2]
  | write | read => [chars sizeUnixFile, chars maxSize, int, i64]
  | truncate | fileSize => [chars sizeUnixFile, i64]
  | sync | lock | unlock | checkReservedLock => [chars sizeUnixFile, int]
  | fileControl => [chars sizeUnixFile, int, chars 512, int]
  | sectorSize | deviceCharacteristics | close => [chars sizeUnixFile]
  | fetch => [chars sizeUnixFile, i64, int, chars maxSize]
  | unfetch => [chars sizeUnixFile, i64, int]

/-- The members of `struct Return<Op>`. -/
def returnMembers : Op → List Member
  | open_ => [chars sizeUnixFile, int, int]
  | delete | getLastError => [int]
  | access => [int, int]
  | fullPathname => []
  | write | read | fetch => [chars sizeUnixFile, chars maxSize, int]
  | truncate | sync | sectorSize | deviceCharacteristics | close | lock | unlock | unfetch =>
    [chars sizeUnixFile, int]
  | fileSize => [chars sizeUnixFile, i64, int]
  | fileControl => [chars sizeUnixFile, chars 512, int, int]
  | checkReservedLock => [chars sizeUnixFile, int, int]

/-- `sizeof(ArgIn<Op>)` -/
def argInSize (op : Op) : Nat := structSize op.argInMembers

/-- `sizeof(Return<Op>)` -/
def returnSize (op : Op) : Nat := structSize op.returnMembers

end Op

/-! ## Pointers to method tables -/

/-- Where the linker and the allocator put what the images point to. -/
structure Addresses where
  /-- On the client. -/
  remotePosixIoMethods : Ptr
  /-- On the server. -/
  posixIoMethods : Ptr
  nolockIoMethods : Ptr
  /-- The `path` member of the node at an address of the list. -/
  nodePath : Nat → Ptr
  remote_ne_null : remotePosixIoMethods ≠ 0
  posix_ne_null : posixIoMethods ≠ 0
  nolock_ne_null : nolockIoMethods ≠ 0
  posix_ne_nolock : posixIoMethods ≠ nolockIoMethods

/-- One layout, to run the model with. -/
def Addresses.flat : Addresses where
  remotePosixIoMethods := 0x1000
  posixIoMethods := 0x2000
  nolockIoMethods := 0x3000
  nodePath a := BitVec.ofNat 64 (0x4000 + 544 * a)
  remote_ne_null := by decide
  posix_ne_null := by decide
  nolock_ne_null := by decide
  posix_ne_nolock := by decide

variable (A : Addresses) {n k : Nat}

/-- The client's version, in `os_remote_init.c`. -/
def setClientRemotePMethods (pf : UnixFile) : UnixFile :=
  if pf.pMethod ≠ 0 then { pf with pMethod := A.remotePosixIoMethods } else pf

/-! ## Shapes that many converters share -/

section Shapes

variable {α : Type} [CType α]

/-- The image, then `x`. -/
def putImageAnd (id : UnixFile) (x : α) (arg : Buf n) : Option (Buf n) := do
  let arg ← arg.put 0 id
  arg.put sizeUnixFile x

def getImageAnd (α : Type) [CType α] (arg : Buf n) : Option (UnixFile × α) := do
  let id ← arg.get UnixFile 0
  let x ← arg.get α sizeUnixFile
  return (id, x)

/-- The reply of the image and one `int`, on the client. -/
def returnImageAndInt (arg : Buf n) : Option (UnixFile × CInt) := do
  let (id, rc) ← getImageAnd CInt arg
  return (setClientRemotePMethods A id, rc)

/-- The image, then an output `x`, then `rc`. -/
def putImageOutRc (id : UnixFile) (x : α) (rc : CInt) (arg : Buf n) : Option (Buf n) := do
  let arg ← putImageAnd id x arg
  arg.put (sizeUnixFile + sizeof α) rc

def returnImageOutRc (α : Type) [CType α] (arg : Buf n) : Option (UnixFile × α × CInt) := do
  let (id, x) ← getImageAnd α arg
  let rc ← arg.get CInt (sizeUnixFile + sizeof α)
  return (setClientRemotePMethods A id, x, rc)

/-- The payload block: `amt` bytes right after the image. -/
def putPayload (id : UnixFile) (pBuf : Buf k) (amt : CInt) (arg : Buf n) : Option (Buf n) := do
  let arg ← arg.put 0 id
  arg.write sizeUnixFile (← pBuf.read 0 (sizeT amt))

end Shapes

/-! ## unixOpen -/

/-- `none` for `zPath` is a NULL pointer, and so for `pOutFlags`. -/
def unixOpenConvertArgInToChar (zPath : Option (List Byte)) (pFile : UnixFile) (flags : CInt)
    (pOutFlags : Option CInt) (arg : Buf n) : Option (Buf n) := do
  let arg ← arg.strcpy (← zPath)
  let arg ← arg.put 512 pFile
  let arg ← arg.put (512 + sizeUnixFile) flags
  arg.put (512 + sizeUnixFile + sizeof CInt) (pOutFlags.getD (-1))

def unixOpenConvertCharToReturn (arg : Buf n) (pOutFlags : Option CInt) :
    Option (UnixFile × Option CInt × CInt) := do
  let pFile ← arg.get UnixFile 0
  let temp ← arg.get CInt sizeUnixFile
  let rc ← arg.get CInt (sizeUnixFile + sizeof CInt)
  if temp = -1 then
    return (setClientRemotePMethods A pFile, pOutFlags, rc)
  else
    -- A store through `pOutFlags`.
    let _ ← pOutFlags
    return (setClientRemotePMethods A pFile, some temp, rc)

def unixOpenConvertCharToArgIn (arg : Buf n) (zPath : Buf k) :
    Option (Buf k × UnixFile × CInt × CInt) := do
  let zPath ← zPath.strcpy arg.val
  let pFile ← arg.get UnixFile 512
  let flags ← arg.get CInt (512 + sizeUnixFile)
  let outFlags ← arg.get CInt (512 + sizeUnixFile + sizeof CInt)
  return (zPath, pFile, flags, outFlags)

def unixOpenConvertReturnToChar (pFile : UnixFile) (outFlags rc : CInt) (arg : Buf n) :
    Option (Buf n) := putImageOutRc pFile outFlags rc arg

/-! ## unixDelete -/

def unixDeleteConvertArgInToChar (zPath : List Byte) (dirSync : CInt) (arg : Buf n) :
    Option (Buf n) := do
  let arg ← arg.strcpy zPath
  arg.put 512 dirSync

def unixDeleteConvertCharToReturn (arg : Buf n) : Option CInt := arg.get CInt 0

def unixDeleteConvertCharToArgIn (arg : Buf n) (zPath : Buf k) : Option (Buf k × CInt) := do
  let zPath ← zPath.strcpy arg.val
  let dirSync ← arg.get CInt 512
  return (zPath, dirSync)

def unixDeleteConvertReturnToChar (rc : CInt) (arg : Buf n) : Option (Buf n) := arg.put 0 rc

/-! ## unixAccess -/

def unixAccessConvertArgInToChar (zPath : List Byte) (flags resOut : CInt) (arg : Buf n) :
    Option (Buf n) := do
  let arg ← arg.strcpy zPath
  let arg ← arg.put 512 flags
  arg.put (512 + sizeof CInt) resOut

def unixAccessConvertCharToReturn (arg : Buf n) : Option (CInt × CInt) := do
  let resOut ← arg.get CInt 0
  let rc ← arg.get CInt (sizeof CInt)
  return (resOut, rc)

def unixAccessConvertCharToArgIn (arg : Buf n) (zPath : Buf k) :
    Option (Buf k × CInt × CInt) := do
  let zPath ← zPath.strcpy arg.val
  let flags ← arg.get CInt 512
  let resOut ← arg.get CInt (512 + sizeof CInt)
  return (zPath, flags, resOut)

def unixAccessConvertReturnToChar (resOut rc : CInt) (arg : Buf n) : Option (Buf n) := do
  let arg ← arg.put 0 resOut
  arg.put (sizeof CInt) rc

/-! ## unixFullPathname -/

def getFullPathnameArgLen (nOut : CInt) : CInt := BitVec.ofNat 32 (sizeof CInt) + nOut

def getFullPathnameReturnLen (nOut : CInt) : CInt := BitVec.ofNat 32 (sizeof CInt) + nOut

def getFullPathnameOutLen (arg : Buf n) : Option CInt := arg.get CInt 0

/-- `zPath` is copied by length, NUL or not. -/
def unixFullPathnameConvertArgInToChar (zPath : Buf k) (nOut : CInt) (arg : Buf n) :
    Option (Buf n) := do
  let arg ← arg.put 0 nOut
  arg.write (sizeof CInt) (← zPath.read 0 (sizeT nOut))

def unixFullPathnameConvertCharToReturn (arg : Buf n) (nOut : CInt) (zOut : Buf k) :
    Option (Buf k × CInt) := do
  let zOut ← zOut.write 0 (← arg.read 0 (sizeT nOut))
  let rc ← arg.get CInt (sizeT nOut)
  return (zOut, rc)

def unixFullPathnameConvertCharToArgIn (arg : Buf n) (zPath : Buf k) :
    Option (Buf k × CInt) := do
  let nOut ← getFullPathnameOutLen arg
  let zPath ← zPath.strcpy (arg.val.drop (sizeof CInt))
  return (zPath, nOut)

def unixFullPathnameConvertReturnToChar (nOut : CInt) (zOut : Buf k) (rc : CInt) (arg : Buf n) :
    Option (Buf n) := do
  let arg ← arg.strcpy zOut.val
  arg.put (sizeT nOut) rc

/-! ## unixGetLastError -/

def unixGetLastErrorConvertArgInToChar (arg : Buf n) : Option (Buf n) := some arg

def unixGetLastErrorConvertCharToReturn (arg : Buf n) : Option CInt := arg.get CInt 0

def unixGetLastErrorConvertReturnToChar (rcErrno : CInt) (arg : Buf n) : Option (Buf n) :=
  arg.put 0 rcErrno

/-! ## unixRead and unixWrite -/

def unixReadConvertArgInToChar (id : UnixFile) (pBuf : Buf k) (amt : CInt) (offset : I64)
    (arg : Buf n) : Option (Buf n) := do
  let arg ← putPayload id pBuf amt arg
  let arg ← arg.put (sizeUnixFile + maxSize) amt
  arg.put (sizeUnixFile + maxSize + sizeof CInt) offset

def unixReadConvertCharToReturn (arg : Buf n) (pBuf : Buf k) (amt : CInt) :
    Option (UnixFile × Buf k × CInt) := do
  let id ← arg.get UnixFile 0
  let pBuf ← pBuf.write 0 (← arg.read sizeUnixFile (sizeT amt))
  let rc ← arg.get CInt (sizeUnixFile + maxSize)
  return (setClientRemotePMethods A id, pBuf, rc)

def unixReadConvertCharToArgIn (arg : Buf n) (pBuf : Buf k) :
    Option (UnixFile × Buf k × CInt × I64) := do
  let id ← arg.get UnixFile 0
  let amt ← arg.get CInt (sizeUnixFile + maxSize)
  let pBuf ← pBuf.write 0 (← arg.read sizeUnixFile (sizeT amt))
  let offset ← arg.get I64 (sizeUnixFile + maxSize + sizeof CInt)
  return (id, pBuf, amt, offset)

def unixReadConvertReturnToChar (id : UnixFile) (pBuf : Buf k) (amt rc : CInt) (arg : Buf n) :
    Option (Buf n) := do
  let arg ← putPayload id pBuf amt arg
  arg.put (sizeUnixFile + maxSize) rc

def unixWriteConvertArgInToChar (id : UnixFile) (pBuf : Buf k) (amt : CInt) (offset : I64)
    (arg : Buf n) : Option (Buf n) := unixReadConvertArgInToChar id pBuf amt offset arg

def unixWriteConvertCharToReturn (arg : Buf n) : Option (UnixFile × CInt) := do
  let id ← arg.get UnixFile 0
  let rc ← arg.get CInt (sizeUnixFile + maxSize)
  return (setClientRemotePMethods A id, rc)

def unixWriteConvertCharToArgIn (arg : Buf n) (pBuf : Buf k) :
    Option (UnixFile × Buf k × CInt × I64) := unixReadConvertCharToArgIn arg pBuf

/-- The payload block of a Write reply is not written. -/
def unixWriteConvertReturnToChar (id : UnixFile) (rc : CInt) (arg : Buf n) : Option (Buf n) := do
  let arg ← arg.put 0 id
  arg.put (sizeUnixFile + maxSize) rc

/-! ## unixTruncate, unixSync, unixFileSize -/

def unixTruncateConvertArgInToChar (id : UnixFile) (nByte : I64) (arg : Buf n) :
    Option (Buf n) := putImageAnd id nByte arg
def unixTruncateConvertCharToReturn (arg : Buf n) : Option (UnixFile × CInt) :=
  returnImageAndInt A arg
def unixTruncateConvertCharToArgIn (arg : Buf n) : Option (UnixFile × I64) := getImageAnd I64 arg
def unixTruncateConvertReturnToChar (id : UnixFile) (rc : CInt) (arg : Buf n) : Option (Buf n) :=
  putImageAnd id rc arg

def unixSyncConvertArgInToChar (id : UnixFile) (flags : CInt) (arg : Buf n) : Option (Buf n) :=
  putImageAnd id flags arg
def unixSyncConvertCharToReturn (arg : Buf n) : Option (UnixFile × CInt) := returnImageAndInt A arg
def unixSyncConvertCharToArgIn (arg : Buf n) : Option (UnixFile × CInt) := getImageAnd CInt arg
def unixSyncConvertReturnToChar (id : UnixFile) (rc : CInt) (arg : Buf n) : Option (Buf n) :=
  putImageAnd id rc arg

def unixFileSizeConvertArgInToChar (id : UnixFile) (pSize : I64) (arg : Buf n) : Option (Buf n) :=
  putImageAnd id pSize arg
def unixFileSizeConvertCharToReturn (arg : Buf n) : Option (UnixFile × I64 × CInt) :=
  returnImageOutRc A I64 arg
def unixFileSizeConvertCharToArgIn (arg : Buf n) : Option (UnixFile × I64) := getImageAnd I64 arg
def unixFileSizeConvertReturnToChar (id : UnixFile) (pSize : I64) (rc : CInt) (arg : Buf n) :
    Option (Buf n) := putImageOutRc id pSize rc arg

/-! ## unixFileControl -/

/-- `SQLITE_FCNTL_*` -/
def controlType (op : CInt) : Nat :=
  -- LOCKSTATE, LAST_ERRNO, CHUNK_SIZE, PERSIST_WAL, POWERSAFE_OVERWRITE, HAS_MOVED, LOCK_TIMEOUT
  if op = 1 ∨ op = 4 ∨ op = 6 ∨ op = 10 ∨ op = 13 ∨ op = 20 ∨ op = 34 then 1
  -- SIZE_HINT, MMAP_SIZE, PDB, BUSYHANDLER, CHUNK_SIZE, PERSIST_WAL
  else if op = 5 ∨ op = 18 ∨ op = 30 ∨ op = 15 ∨ op = 6 ∨ op = 10 then 2
  -- VFSNAME, TEMPFILENAME, GET_LOCKPROXYFILE
  else if op = 12 ∨ op = 16 ∨ op = 2 then 3
  else 0

/-- `pArg` is NULL, or the bytes of the object it points to. `strlen` measures the
strings of the memory that `pArg` lives in. -/
def lenFileControlPArg (strlen : Ptr → Option Nat) (op : CInt) (pArg : Option (List Byte)) :
    Option CInt :=
  match pArg with
  | none => some 0
  | some obj =>
    if controlType op = 1 then some (BitVec.ofNat 32 (sizeof CInt))
    else if controlType op = 2 then some (BitVec.ofNat 32 (sizeof I64))
    else if controlType op = 3 then do
      let z ← (Buf.ofObject obj).get Ptr 0
      let len ← strlen z
      return BitVec.ofNat 32 len
    else some 0

def unixFileControlConvertArgInToChar (id : UnixFile) (op : CInt) (pArg : Option (List Byte))
    (arg : Buf n) (size : CInt) : Option (Buf n) := do
  let arg ← arg.put 0 id
  let arg ← arg.put sizeUnixFile op
  let arg ←
    if 0 < size.toInt then do
      let obj ← pArg
      arg.write (sizeUnixFile + sizeof CInt) (← (Buf.ofObject obj).read 0 (sizeT size))
    else some arg
  arg.put (sizeUnixFile + sizeof CInt + 512) size

def unixFileControlConvertCharToReturn (arg : Buf n) (pArg : Option (List Byte)) :
    Option (UnixFile × Option (List Byte) × CInt) := do
  let size ← arg.get CInt (sizeUnixFile + 512 + sizeof CInt)
  let id ← arg.get UnixFile 0
  let pArg ←
    if 0 < size.toInt then do
      let obj ← pArg
      let obj ← (Buf.ofObject obj).write 0 (← arg.read sizeUnixFile (sizeT size))
      pure (some obj.val)
    else some pArg
  let rc ← arg.get CInt (sizeUnixFile + 512)
  return (setClientRemotePMethods A id, pArg, rc)

def unixFileControlConvertCharToArgIn (arg : Buf n) (pArg : Buf k) :
    Option (UnixFile × CInt × Buf k × CInt) := do
  let size ← arg.get CInt (sizeUnixFile + sizeof CInt + 512)
  let id ← arg.get UnixFile 0
  let op ← arg.get CInt sizeUnixFile
  let pArg ←
    if 0 < size.toInt then do
      pArg.write 0 (← arg.read (sizeUnixFile + sizeof CInt) (sizeT size))
    else some pArg
  return (id, op, pArg, size)

def unixFileControlConvertReturnToChar (id : UnixFile) (pArg : Buf k) (rc : CInt) (arg : Buf n)
    (size : CInt) : Option (Buf n) := do
  let arg ← arg.put (sizeUnixFile + 512 + sizeof CInt) size
  let arg ← arg.put 0 id
  let arg ←
    if 0 < size.toInt then do
      arg.write sizeUnixFile (← pArg.read 0 (sizeT size))
    else some arg
  arg.put (sizeUnixFile + 512) rc

/-! ## unixSectorSize, unixDeviceCharacteristics -/

def unixSectorSizeConvertArgInToChar (id : UnixFile) (arg : Buf n) : Option (Buf n) := arg.put 0 id
def unixSectorSizeConvertCharToReturn (arg : Buf n) : Option (UnixFile × CInt) :=
  returnImageAndInt A arg
def unixSectorSizeConvertCharToArgIn (arg : Buf n) : Option UnixFile := arg.get UnixFile 0
def unixSectorSizeConvertReturnToChar (id : UnixFile) (sectorSize : CInt) (arg : Buf n) :
    Option (Buf n) := putImageAnd id sectorSize arg

def unixDeviceCharacteristicsConvertArgInToChar (id : UnixFile) (arg : Buf n) : Option (Buf n) :=
  arg.put 0 id
def unixDeviceCharacteristicsConvertCharToReturn (arg : Buf n) : Option (UnixFile × CInt) :=
  returnImageAndInt A arg
def unixDeviceCharacteristicsConvertCharToArgIn (arg : Buf n) : Option UnixFile :=
  arg.get UnixFile 0
def unixDeviceCharacteristicsConvertReturnToChar (id : UnixFile) (deviceCharacteristics : CInt)
    (arg : Buf n) : Option (Buf n) := putImageAnd id deviceCharacteristics arg

/-! ## unixClose -/

def unixCloseConvertArgInToChar (id : UnixFile) (arg : Buf n) : Option (Buf n) := arg.put 0 id

/-- The copy of the image is commented out on both sides. -/
def unixCloseConvertCharToReturn (arg : Buf n) (id : UnixFile) : Option (UnixFile × CInt) := do
  let rc ← arg.get CInt sizeUnixFile
  return (setClientRemotePMethods A id, rc)

def unixCloseConvertCharToArgIn (arg : Buf n) : Option UnixFile := arg.get UnixFile 0

def unixCloseConvertReturnToChar (rc : CInt) (arg : Buf n) : Option (Buf n) :=
  arg.put sizeUnixFile rc

/-! ## unixLock, unixUnlock, unixCheckReservedLock -/

def unixLockConvertArgInToChar (id : UnixFile) (eFileLock : CInt) (arg : Buf n) : Option (Buf n) :=
  putImageAnd id eFileLock arg
def unixLockConvertCharToReturn (arg : Buf n) : Option (UnixFile × CInt) := returnImageAndInt A arg
def unixLockConvertCharToArgIn (arg : Buf n) : Option (UnixFile × CInt) := getImageAnd CInt arg
def unixLockConvertReturnToChar (id : UnixFile) (rc : CInt) (arg : Buf n) : Option (Buf n) :=
  putImageAnd id rc arg

def unixUnlockConvertArgInToChar (id : UnixFile) (eFileLock : CInt) (arg : Buf n) :
    Option (Buf n) := putImageAnd id eFileLock arg
def unixUnlockConvertCharToReturn (arg : Buf n) : Option (UnixFile × CInt) :=
  returnImageAndInt A arg
def unixUnlockConvertCharToArgIn (arg : Buf n) : Option (UnixFile × CInt) := getImageAnd CInt arg
def unixUnlockConvertReturnToChar (id : UnixFile) (rc : CInt) (arg : Buf n) : Option (Buf n) :=
  putImageAnd id rc arg

def unixCheckReservedLockConvertArgInToChar (id : UnixFile) (resOut : CInt) (arg : Buf n) :
    Option (Buf n) := putImageAnd id resOut arg
def unixCheckReservedLockConvertCharToReturn (arg : Buf n) : Option (UnixFile × CInt × CInt) :=
  returnImageOutRc A CInt arg
def unixCheckReservedLockConvertCharToArgIn (arg : Buf n) : Option (UnixFile × CInt) :=
  getImageAnd CInt arg
def unixCheckReservedLockConvertReturnToChar (id : UnixFile) (resOut rc : CInt) (arg : Buf n) :
    Option (Buf n) := putImageOutRc id resOut rc arg

/-! ## unixFetch and unixUnfetch -/

def unixFetchConvertArgInToChar (fd : UnixFile) (iOff : I64) (nAmt : CInt) (arg : Buf n) :
    Option (Buf n) := putImageOutRc fd iOff nAmt arg

def unixFetchConvertCharToReturn (arg : Buf n) (pp : Buf k) (nAmt : CInt) :
    Option (UnixFile × Buf k × CInt) := unixReadConvertCharToReturn A arg pp nAmt

def unixFetchConvertCharToArgIn (arg : Buf n) : Option (UnixFile × I64 × CInt) := do
  let (fd, iOff) ← getImageAnd I64 arg
  let nAmt ← arg.get CInt (sizeUnixFile + sizeof I64)
  return (fd, iOff, nAmt)

/-- `unixFetchsConvertReturnToChar`. `pp` is NULL, or the mapped bytes from it on. -/
def unixFetchsConvertReturnToChar (fd : UnixFile) (pp : Option (List Byte)) (nAmt rc : CInt)
    (arg : Buf n) : Option (Buf n) := do
  let pp ← pp
  unixReadConvertReturnToChar fd (Buf.ofObject pp) nAmt rc arg

def unixUnfetchConvertArgInToChar (fd : UnixFile) (iOff : I64) (pFlag : CInt) (arg : Buf n) :
    Option (Buf n) := putImageOutRc fd iOff pFlag arg

/-- `sizeof(SIZE_UNIXFILE)` is the size of a `size_t`. -/
def sizeofSizeUnixFile : Nat := 8

def unixUnfetchConvertCharToReturn (arg : Buf n) (fd : UnixFile) : Option (UnixFile × CInt) := do
  let fd := fd.overwrite (← arg.read 0 sizeofSizeUnixFile)
  let rc ← arg.get CInt sizeUnixFile
  return (setClientRemotePMethods A fd, rc)

def unixUnfetchConvertCharToArgIn (arg : Buf n) : Option (UnixFile × I64 × CInt) :=
  unixFetchConvertCharToArgIn arg

def unixUnfetchConvertReturnToChar (fd : UnixFile) (rc : CInt) (arg : Buf n) : Option (Buf n) :=
  putImageAnd fd rc arg

end RemoteVfs
