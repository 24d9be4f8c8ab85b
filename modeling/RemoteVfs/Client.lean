import RemoteVfs.Convert.Reply

/-!
# The client: the operations of `os_remote_client.c`

An operation fills a request, waits for the stub, and reads the reply.
-/

open CMem

namespace RemoteVfs

/-- A remote operation, cut at the call of the stub. -/
structure RemoteCall (op : Op) (β : Type) where
  /-- `argInChar`, filled. `none` when that touches memory that is not there. -/
  argInChar : Option (Buf op.argInSize)
  /-- What follows the call, on `argOutChar`. -/
  charToReturn : Buf op.returnSize → Option β

namespace RemoteCall

variable {op : Op} {β γ : Type}

/-- `outarg` is the reply. When the status of the call is not OK the stub writes
nothing and `argOutChar` stays as `memset` left it. -/
def finish (r : RemoteCall op β) (outarg : Option (Buf op.returnSize)) : Option β :=
  r.charToReturn (outarg.getD (Buf.zeros op.returnSize))

def run (r : RemoteCall op β) (rpc : Buf op.argInSize → Option (Buf op.returnSize)) :
    Option β := do
  let argIn ← r.argInChar
  r.finish (rpc argIn)

def map (f : β → γ) (r : RemoteCall op β) : RemoteCall op γ :=
  ⟨r.argInChar, fun out => (r.charToReturn out).map f⟩

end RemoteCall

variable (A : Addresses)

def remoteOpen (zPath : Option (List Byte)) (pFile : UnixFile) (flags : CInt)
    (pOutFlags : Option CInt) : RemoteCall .open_ (UnixFile × Option CInt × CInt) where
  argInChar := unixOpenConvertArgInToChar zPath pFile flags pOutFlags (Buf.zeros _)
  charToReturn out := unixOpenConvertCharToReturn A out pOutFlags

def remoteDelete (zPath : List Byte) (dirSync : CInt) : RemoteCall .delete CInt where
  argInChar := unixDeleteConvertArgInToChar zPath dirSync (Buf.zeros _)
  charToReturn := unixDeleteConvertCharToReturn

def remoteAccess (zPath : List Byte) (flags resOut : CInt) :
    RemoteCall .access (CInt × CInt) where
  argInChar := unixAccessConvertArgInToChar zPath flags resOut (Buf.zeros _)
  charToReturn := unixAccessConvertCharToReturn

def remoteGetLastError : RemoteCall .getLastError CInt where
  argInChar := unixGetLastErrorConvertArgInToChar (Buf.zeros _)
  charToReturn := unixGetLastErrorConvertCharToReturn

def remoteWrite (id : UnixFile) (pBuf : List Byte) (amt : CInt) (offset : I64) :
    RemoteCall .write (UnixFile × CInt) where
  argInChar := unixWriteConvertArgInToChar id (Buf.ofObject pBuf) amt offset (Buf.zeros _)
  charToReturn := unixWriteConvertCharToReturn A

def remoteRead (id : UnixFile) (pBuf : List Byte) (amt : CInt) (offset : I64) :
    RemoteCall .read (UnixFile × Buf pBuf.length × CInt) where
  argInChar := unixReadConvertArgInToChar id (Buf.ofObject pBuf) amt offset (Buf.zeros _)
  charToReturn out := unixReadConvertCharToReturn A out (Buf.ofObject pBuf) amt

def remoteTruncate (id : UnixFile) (nByte : I64) : RemoteCall .truncate (UnixFile × CInt) where
  argInChar := unixTruncateConvertArgInToChar id nByte (Buf.zeros _)
  charToReturn := unixTruncateConvertCharToReturn A

def remoteSync (id : UnixFile) (flags : CInt) : RemoteCall .sync (UnixFile × CInt) where
  argInChar := unixSyncConvertArgInToChar id flags (Buf.zeros _)
  charToReturn := unixSyncConvertCharToReturn A

def remoteFileSize (id : UnixFile) (pSize : I64) :
    RemoteCall .fileSize (UnixFile × I64 × CInt) where
  argInChar := unixFileSizeConvertArgInToChar id pSize (Buf.zeros _)
  charToReturn := unixFileSizeConvertCharToReturn A

/-- `strlen` measures the strings of the client's memory. -/
def remoteFileControl (strlen : Ptr → Option Nat) (id : UnixFile) (op : CInt)
    (pArg : Option (List Byte)) :
    RemoteCall .fileControl (UnixFile × Option (List Byte) × CInt) where
  argInChar := do
    let size ← lenFileControlPArg strlen op pArg
    unixFileControlConvertArgInToChar id op pArg (Buf.zeros _) size
  charToReturn out := unixFileControlConvertCharToReturn A out pArg

def remoteSectorSize (id : UnixFile) : RemoteCall .sectorSize (UnixFile × CInt) where
  argInChar := unixSectorSizeConvertArgInToChar id (Buf.zeros _)
  charToReturn := unixSectorSizeConvertCharToReturn A

def remoteDeviceCharacteristics (id : UnixFile) :
    RemoteCall .deviceCharacteristics (UnixFile × CInt) where
  argInChar := unixDeviceCharacteristicsConvertArgInToChar id (Buf.zeros _)
  charToReturn := unixDeviceCharacteristicsConvertCharToReturn A

def remoteClose (id : UnixFile) : RemoteCall .close (UnixFile × CInt) where
  argInChar := unixCloseConvertArgInToChar id (Buf.zeros _)
  charToReturn out := unixCloseConvertCharToReturn A out id

def remoteLock (id : UnixFile) (eFileLock : CInt) : RemoteCall .lock (UnixFile × CInt) where
  argInChar := unixLockConvertArgInToChar id eFileLock (Buf.zeros _)
  charToReturn := unixLockConvertCharToReturn A

def remoteUnlock (id : UnixFile) (eFileLock : CInt) : RemoteCall .unlock (UnixFile × CInt) where
  argInChar := unixUnlockConvertArgInToChar id eFileLock (Buf.zeros _)
  charToReturn := unixUnlockConvertCharToReturn A

def remoteCheckReservedLock (id : UnixFile) (resOut : CInt) :
    RemoteCall .checkReservedLock (UnixFile × CInt × CInt) where
  argInChar := unixCheckReservedLockConvertArgInToChar id resOut (Buf.zeros _)
  charToReturn := unixCheckReservedLockConvertCharToReturn A

/-- `str` is a local array of `nAmt` bytes, and `*pp` points to it at the return. -/
def remoteFetch (stack : Nat → Byte) (fd : UnixFile) (iOff : I64) (nAmt : CInt) :
    RemoteCall .fetch (UnixFile × Buf (sizeT nAmt) × CInt) where
  argInChar := unixFetchConvertArgInToChar fd iOff nAmt (Buf.zeros _)
  charToReturn out :=
    if nAmt.toInt ≤ 0 then none
    else unixFetchConvertCharToReturn A out (Buf.uninit stack (sizeT nAmt)) nAmt

def remoteUnfetch (fd : UnixFile) (iOff : I64) (p : Ptr) :
    RemoteCall .unfetch (UnixFile × CInt) where
  argInChar := unixUnfetchConvertArgInToChar fd iOff (if p = 0 then 0 else 1) (Buf.zeros _)
  charToReturn out := unixUnfetchConvertCharToReturn A out fd

/-- `outarg` is a local array that nothing has written, of a length that must be
positive. -/
def remoteFullPathname (stack : Nat → Byte) (zPath : List Byte) (nOut : CInt) (zOut : List Byte)
    (rpc : {n m : Nat} → Buf n → Option (Buf m)) : Option (List Byte × CInt) := do
  let argLen := getFullPathnameArgLen nOut
  let returnLen := getFullPathnameReturnLen nOut
  if argLen.toInt ≤ 0 then none
  let argIn ← unixFullPathnameConvertArgInToChar (Buf.ofObject zPath) nOut
    (Buf.zeros (sizeT argLen))
  let outarg := (rpc argIn).getD (Buf.uninit stack (sizeT returnLen))
  let (zOut, rc) ← unixFullPathnameConvertCharToReturn outarg nOut (Buf.ofObject zOut)
  return (zOut.val, rc)

/-! ## Calls -/

/-- A call of a method of the client's VFS or of one of its files, with what the
pointers among its arguments lead to. -/
inductive Call
  | xOpen (zPath : Option (List Byte)) (pFile : UnixFile) (flags : CInt)
      (pOutFlags : Option CInt)
  | xDelete (zPath : List Byte) (dirSync : CInt)
  | xAccess (zPath : List Byte) (flags resOut : CInt)
  | xGetLastError
  | xWrite (pBuf : List Byte) (amt : CInt) (offset : I64)
  | xRead (pBuf : List Byte) (amt : CInt) (offset : I64)
  | xTruncate (nByte : I64)
  | xSync (flags : CInt)
  | xFileSize (pSize : I64)
  | xFileControl (op : CInt) (pArg : Option (List Byte))
  | xSectorSize
  | xDeviceCharacteristics
  | xClose
  | xLock (eFileLock : CInt)
  | xUnlock (eFileLock : CInt)
  | xCheckReservedLock (resOut : CInt)
  | xFetch (iOff : I64) (nAmt : CInt)
  | xUnfetch (iOff : I64) (p : Ptr)

/-- What a call stored through its pointers. -/
inductive Out
  | nothing
  | flags (pOutFlags : Option CInt)
  | int (x : CInt)
  | i64 (x : I64)
  | bytes (data : List Byte)
  | object (pArg : Option (List Byte))

structure Result where
  rc : CInt
  out : Out

/-- The image, and a result that is `rc` only. -/
def rcOnly (r : UnixFile × CInt) : UnixFile × Result := (r.1, ⟨r.2, .nothing⟩)

/-- The image, and a result with an output. -/
def outRc {α : Type} (out : α → Out) (r : UnixFile × α × CInt) : UnixFile × Result :=
  (r.1, ⟨r.2.2, out r.2.1⟩)

/-- A buffer as an output. -/
def Out.ofBuf {k : Nat} (b : Buf k) : Out := .bytes b.val

namespace Call

def op : Call → Op
  | xOpen .. => .open_
  | xDelete .. => .delete
  | xAccess .. => .access
  | xGetLastError => .getLastError
  | xWrite .. => .write
  | xRead .. => .read
  | xTruncate _ => .truncate
  | xSync _ => .sync
  | xFileSize _ => .fileSize
  | xFileControl .. => .fileControl
  | xSectorSize => .sectorSize
  | xDeviceCharacteristics => .deviceCharacteristics
  | xClose => .close
  | xLock _ => .lock
  | xUnlock _ => .unlock
  | xCheckReservedLock _ => .checkReservedLock
  | xFetch .. => .fetch
  | xUnfetch .. => .unfetch

/-- The image in the caller's memory when the call begins. `xOpen` brings its own. -/
def imageBefore (id : UnixFile) : Call → UnixFile
  | xOpen _ pFile _ _ => pFile
  | _ => id

theorem imageBefore_eq {c : Call} (id : UnixFile) (h : c.op ≠ .open_) : c.imageBefore id = id := by
  cases c with
  | xOpen => exact absurd rfl h
  | _ => rfl

/-- What the call's pointers lead to when it begins. -/
def outBefore : Call → Out
  | xOpen _ _ _ pOutFlags => .flags pOutFlags
  | xAccess _ _ resOut | xCheckReservedLock resOut => .int resOut
  | xRead pBuf _ _ => .bytes pBuf
  | xFileSize pSize => .i64 pSize
  | xFileControl _ pArg => .object pArg
  | _ => .nothing

/-- The call as the client's VFS makes it on a handle whose image is `id`: the
image and the result that it leaves. -/
def remote (strlen : Ptr → Option Nat) (stack : Nat → Byte) (id : UnixFile) :
    (c : Call) → RemoteCall c.op (UnixFile × Result)
  | xOpen zPath pFile flags pOutFlags =>
    (remoteOpen A zPath pFile flags pOutFlags).map (outRc .flags)
  | xDelete zPath dirSync => (remoteDelete zPath dirSync).map fun rc => (id, ⟨rc, .nothing⟩)
  | xAccess zPath flags resOut => (remoteAccess zPath flags resOut).map
      fun r => (id, ⟨r.2, .int r.1⟩)
  | xGetLastError => remoteGetLastError.map fun rc => (id, ⟨rc, .nothing⟩)
  | xWrite pBuf amt offset => (remoteWrite A id pBuf amt offset).map rcOnly
  | xRead pBuf amt offset => (remoteRead A id pBuf amt offset).map (outRc .ofBuf)
  | xTruncate nByte => (remoteTruncate A id nByte).map rcOnly
  | xSync flags => (remoteSync A id flags).map rcOnly
  | xFileSize pSize => (remoteFileSize A id pSize).map (outRc .i64)
  | xFileControl op pArg => (remoteFileControl A strlen id op pArg).map (outRc .object)
  | xSectorSize => (remoteSectorSize A id).map rcOnly
  | xDeviceCharacteristics => (remoteDeviceCharacteristics A id).map rcOnly
  | xClose => (remoteClose A id).map rcOnly
  | xLock eFileLock => (remoteLock A id eFileLock).map rcOnly
  | xUnlock eFileLock => (remoteUnlock A id eFileLock).map rcOnly
  | xCheckReservedLock resOut => (remoteCheckReservedLock A id resOut).map (outRc .int)
  | xFetch iOff nAmt => (remoteFetch A stack id iOff nAmt).map (outRc .ofBuf)
  | xUnfetch iOff p => (remoteUnfetch A id iOff p).map rcOnly

end Call

end RemoteVfs
