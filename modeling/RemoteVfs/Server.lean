import RemoteVfs.FdTable

/-!
# The server: the wrappers of `os_server_wrap.c`

The functions of `os_unix.c` are parameters. A file method is given the image
without `pMethod` and `zPath`, the string behind `zPath`, its arguments and the
state `OS` that all of them share.
-/

open CMem

namespace RemoteVfs

/-- What a locking style stands for: the table of methods that `unixOpen` chooses. -/
inductive LockingStyle
  | posix | nolock
  deriving DecidableEq

def Addresses.ioMethods (A : Addresses) : LockingStyle → Ptr
  | .posix => A.posixIoMethods
  | .nolock => A.nolockIoMethods

theorem Addresses.ioMethods_ne_null (A : Addresses) (style : LockingStyle) :
    A.ioMethods style ≠ 0 := by
  cases style with
  | posix => exact A.posix_ne_null
  | nolock => exact A.nolock_ne_null

/-- `pMethod` after `unixOpen`: NULL when it failed. -/
def Addresses.openedMethod (A : Addresses) (style : Option LockingStyle) : Ptr :=
  (style.map A.ioMethods).getD 0

def sqliteOk : CInt := 0

/-- What `unixOpen` leaves behind. -/
structure Opened (OS : Type) where
  rc : CInt
  image : UnixFile
  style : Option LockingStyle
  /-- What it stored through `pOutFlags`, if it did. -/
  outFlags : Option CInt
  os : OS
  sets_method : style.isSome = true ↔ rc = sqliteOk

/-- The string behind `zPath`, if there is one. -/
abbrev Path := Option (List Byte)

/-- How many bytes `unixFileControl` uses behind `pArg`. -/
def argLen (op : CInt) : Nat :=
  if controlType op = 1 then sizeof CInt
  else if controlType op = 2 then sizeof I64
  else if controlType op = 3 then sizeof Ptr
  else 0

/-- The functions of `os_unix.c` on the server. -/
structure UnixFns (OS : Type) where
  unixOpen : UnixFile → List Byte → CInt → Option CInt → OS → Opened OS
  unixDelete : List Byte → CInt → OS → CInt × OS
  unixAccess : List Byte → CInt → CInt → OS → CInt × CInt × OS
  unixFullPathname : {k : Nat} → List Byte → Buf k → OS → Buf k × CInt × OS
  unixGetLastError : OS → CInt
  unixWrite : UnixFile → Path → List Byte → I64 → OS → UnixFile × CInt × OS
  unixRead : {k : Nat} → UnixFile → Path → Buf k → I64 → OS → UnixFile × Buf k × CInt × OS
  unixTruncate : UnixFile → Path → I64 → OS → UnixFile × CInt × OS
  unixSync : UnixFile → Path → CInt → OS → UnixFile × CInt × OS
  unixFileSize : UnixFile → Path → I64 → OS → UnixFile × (I64 × CInt) × OS
  unixFileControl : UnixFile → Path → (op : CInt) → Option (Buf (argLen op)) → OS →
    UnixFile × Option (Buf (argLen op)) × CInt × OS
  unixSectorSize : UnixFile → Path → OS → UnixFile × CInt × OS
  unixDeviceCharacteristics : UnixFile → Path → OS → UnixFile × CInt × OS
  unixClose : UnixFile → Path → OS → CInt × OS
  nolockClose : UnixFile → Path → OS → CInt × OS
  unixLock : UnixFile → Path → CInt → OS → UnixFile × CInt × OS
  unixUnlock : UnixFile → Path → CInt → OS → UnixFile × CInt × OS
  unixCheckReservedLock : UnixFile → Path → CInt → OS → UnixFile × (CInt × CInt) × OS
  /-- `none` for a NULL `pp`, else the bytes from it on. -/
  unixFetch : UnixFile → Path → I64 → CInt → OS → UnixFile × Option (List Byte) × CInt × OS
  /-- `p` counts only as NULL or not. -/
  unixUnfetch : UnixFile → Path → I64 → Bool → OS → UnixFile × CInt × OS
  /-- The bytes from an address outside of the list on. -/
  memory : OS → Ptr → Option (List Byte)

structure Server (OS : Type) where
  table : FdTable
  os : OS

/-- A wrapper fills `argOut`, or it accesses memory that is not there. -/
abbrev Wrapper (OS : Type) (m : Nat) := Buf m → Server OS → Option (Buf m × Server OS)

variable {OS : Type} (fns : UnixFns OS) (A : Addresses) (garbage : Nat → Byte) {n m : Nat}

/-! ## File methods -/

/-- The memory that `zPath` leads to, with `node` from `getServicePath`. -/
def zPathMemory (t : FdTable) (os : OS) (id : UnixFile) (node : Option Nat) : Option (List Byte) :=
  match node with
  | none => fns.memory os id.zPath
  | some a => some (t.mem a).path.val

/-- The shape of the wrappers of the file methods. -/
def wrapFile {α β : Type} (charToArgIn : Option (UnixFile × α))
    (method : UnixFile → Path → α → OS → Option (UnixFile × β × OS))
    (returnToChar : UnixFile → β → Buf m → Option (Buf m)) : Wrapper OS m := fun argOut s => do
  let (id, args) ← charToArgIn
  let (t, id) ← s.table.getServerUnixPMethods A id.h id
  let (t, id, node) ← t.getServicePath A id.h id
  let zPath := (zPathMemory fns t s.os id node).bind cstr
  let (g, ret, os) ← method id.core zPath args s.os
  let id := id.keep g
  let t ← t.setServerUnixPMethods id.h id
  let t ← t.setServicePath id.h (← zPathMemory fns t os id node)
  let argOut ← returnToChar id ret argOut
  return (argOut, ⟨t, os⟩)

/-- A method that touches no memory of its caller. -/
def direct {α β : Type} (f : UnixFile → Path → α → OS → UnixFile × β × OS) :
    UnixFile → Path → α → OS → Option (UnixFile × β × OS) :=
  fun id zPath x os => some (f id zPath x os)

/-- `unixWrite` on the local `pBuf`. -/
def runWrite (id : UnixFile) (zPath : Path) (args : Buf 8192 × CInt × I64) (os : OS) :
    Option (UnixFile × CInt × OS) := do
  let (pBuf, amt, offset) := args
  let data ← pBuf.read 0 (sizeT amt)
  return fns.unixWrite id zPath data offset os

def wrapWrite (argIn : Buf n) : Wrapper OS m :=
  wrapFile fns A (unixWriteConvertCharToArgIn argIn (Buf.uninit garbage 8192)) (runWrite fns)
    unixWriteConvertReturnToChar

/-- `unixRead` into the local `pBuf`. -/
def runRead (id : UnixFile) (zPath : Path) (args : Buf 8192 × CInt × I64) (os : OS) :
    Option (UnixFile × (Buf 8192 × CInt × CInt) × OS) := do
  let (pBuf, amt, offset) := args
  let (id, data, rc, os) := fns.unixRead id zPath (← pBuf.take (sizeT amt)) offset os
  let pBuf ← pBuf.write 0 data.val
  return (id, (pBuf, amt, rc), os)

def wrapRead (argIn : Buf n) : Wrapper OS m :=
  wrapFile fns A (unixReadConvertCharToArgIn argIn (Buf.uninit garbage 8192)) (runRead fns)
    fun id ret => unixReadConvertReturnToChar id ret.1 ret.2.1 ret.2.2

def wrapTruncate (argIn : Buf n) : Wrapper OS m :=
  wrapFile fns A (unixTruncateConvertCharToArgIn argIn) (direct fns.unixTruncate)
    unixTruncateConvertReturnToChar

def wrapSync (argIn : Buf n) : Wrapper OS m :=
  wrapFile fns A (unixSyncConvertCharToArgIn argIn) (direct fns.unixSync)
    unixSyncConvertReturnToChar

def wrapFileSize (argIn : Buf n) : Wrapper OS m :=
  wrapFile fns A (unixFileSizeConvertCharToArgIn argIn) (direct fns.unixFileSize)
    fun id ret => unixFileSizeConvertReturnToChar id ret.1 ret.2

/-- `unixFileControl` on the local `pArg`, or on NULL. -/
def runFileControl (id : UnixFile) (zPath : Path) (args : CInt × Buf 512 × CInt) (os : OS) :
    Option (UnixFile × (CInt × Buf 512 × CInt × OS) × OS) := do
  let (op, pArg, size) := args
  let arg ← if 0 < size.toInt then (pArg.take (argLen op)).map some else some none
  let (id, arg, rc, os) := fns.unixFileControl id zPath op arg os
  let pArg ← match arg with
    | none => some pArg
    | some arg => pArg.write 0 arg.val
  return (id, (op, pArg, rc, os), os)

/-- The new size is that of the argument as it is now. -/
def returnFileControl (id : UnixFile) (ret : CInt × Buf 512 × CInt × OS) (argOut : Buf m) :
    Option (Buf m) := do
  let (op, pArg, rc, os) := ret
  let strlen := fun z => ((fns.memory os z).bind cstr).map List.length
  let size ← lenFileControlPArg strlen op (some pArg.val)
  unixFileControlConvertReturnToChar id pArg rc argOut size

def wrapFileControl (argIn : Buf n) : Wrapper OS m :=
  wrapFile fns A (unixFileControlConvertCharToArgIn argIn (Buf.uninit garbage 512))
    (runFileControl fns) (returnFileControl fns)

def wrapSectorSize (argIn : Buf n) : Wrapper OS m :=
  wrapFile fns A ((unixSectorSizeConvertCharToArgIn argIn).map (·, ()))
    (direct fun id zPath _ => fns.unixSectorSize id zPath) unixSectorSizeConvertReturnToChar

def wrapDeviceCharacteristics (argIn : Buf n) : Wrapper OS m :=
  wrapFile fns A ((unixDeviceCharacteristicsConvertCharToArgIn argIn).map (·, ()))
    (direct fun id zPath _ => fns.unixDeviceCharacteristics id zPath)
    unixDeviceCharacteristicsConvertReturnToChar

def wrapLock (argIn : Buf n) : Wrapper OS m :=
  wrapFile fns A (unixLockConvertCharToArgIn argIn) (direct fns.unixLock)
    unixLockConvertReturnToChar

def wrapUnlock (argIn : Buf n) : Wrapper OS m :=
  wrapFile fns A (unixUnlockConvertCharToArgIn argIn) (direct fns.unixUnlock)
    unixUnlockConvertReturnToChar

def wrapCheckReservedLock (argIn : Buf n) : Wrapper OS m :=
  wrapFile fns A (unixCheckReservedLockConvertCharToArgIn argIn)
    (direct fns.unixCheckReservedLock)
    fun id ret => unixCheckReservedLockConvertReturnToChar id ret.1 ret.2

/-- `unixFetch`, with `nAmt` for the reply. -/
def runFetch (id : UnixFile) (zPath : Path) (args : I64 × CInt) (os : OS) :
    UnixFile × (Option (List Byte) × CInt × CInt) × OS :=
  let (iOff, nAmt) := args
  let (id, pData, rc, os) := fns.unixFetch id zPath iOff nAmt os
  (id, (pData, nAmt, rc), os)

def wrapFetch (argIn : Buf n) : Wrapper OS m :=
  wrapFile fns A (unixFetchConvertCharToArgIn argIn) (direct (runFetch fns))
    fun id ret => unixFetchsConvertReturnToChar id ret.1 ret.2.1 ret.2.2

/-- `pData` is NULL when `pFlag` is 0. -/
def runUnfetch (id : UnixFile) (zPath : Path) (args : I64 × CInt) : OS → UnixFile × CInt × OS :=
  fns.unixUnfetch id zPath args.1 (args.2 ≠ 0)

def wrapUnfetch (argIn : Buf n) : Wrapper OS m :=
  wrapFile fns A (unixUnfetchConvertCharToArgIn argIn) (direct (runUnfetch fns))
    unixUnfetchConvertReturnToChar

/-! ## Close and Open -/

/-- `pId->pMethods->xClose(pId)`. `none` is a jump to a foreign address. -/
def xClose (pMethod : Ptr) (id : UnixFile) (zPath : Path) (os : OS) : Option (CInt × OS) :=
  if pMethod = A.posixIoMethods then some (fns.unixClose id zPath os)
  else if pMethod = A.nolockIoMethods then some (fns.nolockClose id zPath os)
  else none

/-- Nothing is written back to the table. -/
def wrapClose (argIn : Buf n) : Wrapper OS m := fun argOut s => do
  let id ← unixCloseConvertCharToArgIn argIn
  let (t, id) ← s.table.getServerUnixPMethods A id.h id
  let (t, id, node) ← t.getServicePath A id.h id
  let zPath := (zPathMemory fns t s.os id node).bind cstr
  let (rc, os) ←
    if id.pMethod ≠ 0 then xClose fns A id.pMethod id.core zPath s.os
    else some (ofBytes (Buf.uninit garbage 4).val, s.os)
  let argOut ← unixCloseConvertReturnToChar rc argOut
  return (argOut, ⟨t, os⟩)

/-- The flags that may pass down into the VFS. -/
def openMask : CInt := 0x87f7f

def wrapOpen (argIn : Buf n) : Wrapper OS m := fun argOut s => do
  let (path, id, inFlags, outFlags) ←
    unixOpenConvertCharToArgIn argIn (Buf.uninit garbage 512)
  let (t, id) ← s.table.getServerUnixPMethods A id.h id
  let (t, id, _) ← t.getServicePath A id.h id
  let zPath ← cstr path.val
  let r := fns.unixOpen id.core zPath (inFlags &&& openMask)
    (if outFlags = -1 then none else some outFlags) s.os
  let id := { r.image with pMethod := A.openedMethod r.style }
  let outFlags := if outFlags = -1 then outFlags else r.outFlags.getD outFlags
  let t ← t.setServerUnixPMethods id.h id
  let t ← t.setServicePath id.h path.val
  let argOut ← unixOpenConvertReturnToChar id outFlags r.rc argOut
  return (argOut, ⟨t, r.os⟩)

/-! ## Without a handle -/

def wrapDelete (argIn : Buf n) : Wrapper OS m := fun argOut s => do
  let (path, dirSync) ← unixDeleteConvertCharToArgIn argIn (Buf.uninit garbage 512)
  let (rc, os) := fns.unixDelete (← cstr path.val) dirSync s.os
  let argOut ← unixDeleteConvertReturnToChar rc argOut
  return (argOut, { s with os := os })

def wrapAccess (argIn : Buf n) : Wrapper OS m := fun argOut s => do
  let (path, flags, res) ← unixAccessConvertCharToArgIn argIn (Buf.uninit garbage 512)
  let (res, rc, os) := fns.unixAccess (← cstr path.val) flags res s.os
  let argOut ← unixAccessConvertReturnToChar res rc argOut
  return (argOut, { s with os := os })

/-- A negative `nOut` makes `malloc` fail. -/
def wrapFullPathname (argIn : Buf n) : Wrapper OS m := fun argOut s => do
  let nOut ← getFullPathnameOutLen argIn
  if nOut.toInt < 0 then none
  let path := Buf.uninit garbage (sizeT nOut)
  let zOut := Buf.uninit (fun i => garbage (sizeT nOut + i)) (sizeT nOut)
  let (path, nOut) ← unixFullPathnameConvertCharToArgIn argIn path
  let (zOut, rc, os) := fns.unixFullPathname (← cstr path.val) zOut s.os
  let argOut ← unixFullPathnameConvertReturnToChar nOut zOut rc argOut
  return (argOut, { s with os := os })

def wrapGetLastError (_argIn : Buf n) : Wrapper OS m := fun argOut s => do
  let argOut ← unixGetLastErrorConvertReturnToChar (fns.unixGetLastError s.os) argOut
  return (argOut, s)

/-- The handler that the service runs for a request. -/
def serve (op : Op) (argIn : Buf n) : Wrapper OS m :=
  match op with
  | .open_ => wrapOpen fns A garbage argIn
  | .delete => wrapDelete fns garbage argIn
  | .access => wrapAccess fns garbage argIn
  | .fullPathname => wrapFullPathname fns garbage argIn
  | .getLastError => wrapGetLastError fns argIn
  | .write => wrapWrite fns A garbage argIn
  | .read => wrapRead fns A garbage argIn
  | .truncate => wrapTruncate fns A argIn
  | .sync => wrapSync fns A argIn
  | .fileSize => wrapFileSize fns A argIn
  | .fileControl => wrapFileControl fns A garbage argIn
  | .sectorSize => wrapSectorSize fns A argIn
  | .deviceCharacteristics => wrapDeviceCharacteristics fns A argIn
  | .close => wrapClose fns A garbage argIn
  | .lock => wrapLock fns A argIn
  | .unlock => wrapUnlock fns A argIn
  | .checkReservedLock => wrapCheckReservedLock fns A argIn
  | .fetch => wrapFetch fns A argIn
  | .unfetch => wrapUnfetch fns A argIn

end RemoteVfs
