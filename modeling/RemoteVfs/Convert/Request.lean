import RemoteVfs.Convert
import RemoteVfs.Memory.Bounds

/-!
# Requests: the server reads what the client wrote

`arg` is the request buffer with whatever it held before. `some` says that no
copy left it.
-/

open CMem

namespace RemoteVfs

variable {n k : Nat} {α : Type} [CType α]

/-! ## When an image fits -/

section Fits

variable {argIn arg : Buf n} {id : UnixFile} {x : α} {rc : CInt}

theorem isSome_getImageAnd : (getImageAnd α argIn).isSome ↔ 120 + sizeof α ≤ n := by
  unfold getImageAnd
  rw [Option.bind_eq_bind, isSome_bind (Q := 120 + sizeof α ≤ n) fun _ _ => ?_]
  · simp
    omega
  · rw [Option.bind_eq_bind, isSome_bind (Q := True) fun _ _ => by simp]
    simp

theorem isSome_putImageAnd : (putImageAnd id x arg).isSome ↔ 120 + sizeof α ≤ n := by
  unfold putImageAnd
  rw [Option.bind_eq_bind, isSome_bind fun _ _ => Buf.isSome_put]
  simp
  omega

theorem isSome_putImageOutRc : (putImageOutRc id x rc arg).isSome ↔ 124 + sizeof α ≤ n := by
  unfold putImageOutRc
  rw [Option.bind_eq_bind, isSome_bind fun _ _ => Buf.isSome_put, isSome_putImageAnd]
  simp
  omega

end Fits

/-! ## By shape -/

theorem getImage_put (id : UnixFile) (arg : Buf n) (h : 120 ≤ n) :
    (arg.put 0 id).bind (·.get UnixFile 0) = some id := by
  simp [h]

theorem getImageUnit_put (id : UnixFile) (arg : Buf n) (h : 120 ≤ n) :
    ((arg.put 0 id).bind fun arg => (arg.get UnixFile 0).map (·, ())) = some (id, ()) :=
  Option.map_bind.symm.trans (congrArg _ (getImage_put id arg h))

theorem getImageAnd_put (id : UnixFile) (x : α) (arg : Buf n) (h : 120 + sizeof α ≤ n) :
    (putImageAnd id x arg).bind (getImageAnd α) = some (id, x) := by
  simp (disch := first | omega | (simp <;> omega) | fail) [putImageAnd, getImageAnd]

theorem getImageAnd_of_put {id : UnixFile} {x : α} {arg arg' : Buf n} (h : 120 + sizeof α ≤ n)
    (hput : putImageAnd id x arg = some arg') : getImageAnd α arg' = some (id, x) := by
  have hget := getImageAnd_put id x arg h
  rwa [hput] at hget

theorem unixFetch_request (fd : UnixFile) (iOff : I64) (nAmt : CInt) (arg : Buf n)
    (h : 132 ≤ n) : (unixFetchConvertArgInToChar fd iOff nAmt arg).bind
      unixFetchConvertCharToArgIn = some (fd, iOff, nAmt) := by
  simp (disch := first | omega | (simp <;> omega) | fail) [unixFetchConvertArgInToChar,
    unixFetchConvertCharToArgIn, putImageOutRc, putImageAnd, getImageAnd]

theorem unixRead_request (id : UnixFile) (pBuf : Buf k) (amt : CInt) (offset : I64) (arg : Buf n)
    (h : 8324 ≤ n) (hamt : sizeT amt ≤ 8192) (hk : sizeT amt ≤ k) (local_ : Buf 8192) :
    (unixReadConvertArgInToChar id pBuf amt offset arg).bind
      (unixReadConvertCharToArgIn · local_) =
        some (id, local_.splice 0 (pBuf.slice 0 (sizeT amt)), amt, offset) := by
  have hlen := Buf.slice_length pBuf 0 (sizeT amt) (by omega)
  simp (disch := first | omega | (simp [hlen] <;> omega) | fail) [unixReadConvertArgInToChar,
    unixReadConvertCharToArgIn, putPayload]

/-! ## With a path -/

section Path

variable {zPath p : List Byte} (hz : cstr zPath = some p) (hp : p.length ≤ 511)
include hz hp

theorem unixOpen_request (pFile : UnixFile) (flags : CInt) (pOutFlags : Option CInt)
    (arg : Buf n) (h : 640 ≤ n) (path : Buf 512) :
    (unixOpenConvertArgInToChar (some zPath) pFile flags pOutFlags arg).bind
      (unixOpenConvertCharToArgIn · path) =
        some (path.splice 0 (p ++ [0]), pFile, flags, pOutFlags.getD (-1)) := by
  have h0 := (cstr_eq_some hz).1
  simp (disch := first | omega | (simp <;> omega) | fail)
    [unixOpenConvertArgInToChar, unixOpenConvertCharToArgIn, Buf.strcpy_eq _ hz]
  rw [Buf.strcpy_of_slice path _ h0 (by omega)]
  · rfl
  · simp (disch := first | omega | (simp <;> omega) | fail)

theorem unixDelete_request (dirSync : CInt) (arg : Buf n) (h : 516 ≤ n) (path : Buf 512) :
    (unixDeleteConvertArgInToChar zPath dirSync arg).bind (unixDeleteConvertCharToArgIn · path) =
      some (path.splice 0 (p ++ [0]), dirSync) := by
  have h0 := (cstr_eq_some hz).1
  simp (disch := first | omega | (simp <;> omega) | fail)
    [unixDeleteConvertArgInToChar, unixDeleteConvertCharToArgIn, Buf.strcpy_eq _ hz]
  rw [Buf.strcpy_of_slice path _ h0 (by omega)]
  · rfl
  · simp (disch := first | omega | (simp <;> omega) | fail)

theorem unixAccess_request (flags resOut : CInt) (arg : Buf n) (h : 520 ≤ n) (path : Buf 512) :
    (unixAccessConvertArgInToChar zPath flags resOut arg).bind
      (unixAccessConvertCharToArgIn · path) =
        some (path.splice 0 (p ++ [0]), flags, resOut) := by
  have h0 := (cstr_eq_some hz).1
  simp (disch := first | omega | (simp <;> omega) | fail)
    [unixAccessConvertArgInToChar, unixAccessConvertCharToArgIn, Buf.strcpy_eq _ hz]
  rw [Buf.strcpy_of_slice path _ h0 (by omega)]
  · rfl
  · simp (disch := first | omega | (simp <;> omega) | fail)

end Path

/-! ## FileControl -/

theorem unixFileControl_request (id : UnixFile) (op : CInt) (obj : List Byte) (size : CInt)
    (arg : Buf n) (h : 640 ≤ n) (hsize : sizeT size ≤ 512) (hobj : sizeT size ≤ obj.length)
    (hpos : 0 < size.toInt) (pArg : Buf 512) :
    (unixFileControlConvertArgInToChar id op (some obj) arg size).bind
      (unixFileControlConvertCharToArgIn · pArg) =
        some (id, op, pArg.splice 0 ((Buf.ofObject obj).slice 0 (sizeT size)), size) := by
  have hlen := Buf.slice_length (Buf.ofObject obj) 0 (sizeT size) (by omega)
  simp (disch := first | omega | (simp [hlen] <;> omega) | fail) [hpos,
    unixFileControlConvertArgInToChar, unixFileControlConvertCharToArgIn]

theorem unixFileControl_request_empty (id : UnixFile) (op : CInt) (obj : Option (List Byte))
    (size : CInt) (arg : Buf n) (h : 640 ≤ n) (hpos : ¬ 0 < size.toInt) (pArg : Buf 512) :
    (unixFileControlConvertArgInToChar id op obj arg size).bind
      (unixFileControlConvertCharToArgIn · pArg) = some (id, op, pArg, size) := by
  simp (disch := first | omega | (simp <;> omega) | fail) [hpos,
    unixFileControlConvertArgInToChar, unixFileControlConvertCharToArgIn]

/-! ## Every request -/

/-- The values that travel in a request. A path is the bytes before its NUL, a
payload the bytes that its length counts. -/
inductive ArgIn
  | open_ (zPath : List Byte) (pFile : UnixFile) (flags : CInt) (pOutFlags : Option CInt)
  | delete (zPath : List Byte) (dirSync : CInt)
  | access (zPath : List Byte) (flags resOut : CInt)
  | read (id : UnixFile) (pBuf : List Byte) (amt : CInt) (offset : I64)
  | write (id : UnixFile) (pBuf : List Byte) (amt : CInt) (offset : I64)
  | truncate (id : UnixFile) (nByte : I64)
  | sync (id : UnixFile) (flags : CInt)
  | fileSize (id : UnixFile) (pSize : I64)
  | fileControl (id : UnixFile) (op : CInt) (pArg : List Byte) (size : CInt)
  | sectorSize (id : UnixFile)
  | deviceCharacteristics (id : UnixFile)
  | close (id : UnixFile)
  | lock (id : UnixFile) (eFileLock : CInt)
  | unlock (id : UnixFile) (eFileLock : CInt)
  | checkReservedLock (id : UnixFile) (resOut : CInt)
  | fetch (fd : UnixFile) (iOff : I64) (nAmt : CInt)
  | unfetch (fd : UnixFile) (iOff : I64) (pFlag : CInt)

namespace ArgIn

def op : ArgIn → Op
  | open_ .. => .open_
  | delete .. => .delete
  | access .. => .access
  | read .. => .read
  | write .. => .write
  | truncate .. => .truncate
  | sync .. => .sync
  | fileSize .. => .fileSize
  | fileControl .. => .fileControl
  | sectorSize .. => .sectorSize
  | deviceCharacteristics .. => .deviceCharacteristics
  | close .. => .close
  | lock .. => .lock
  | unlock .. => .unlock
  | checkReservedLock .. => .checkReservedLock
  | fetch .. => .fetch
  | unfetch .. => .unfetch

/-- The sizes that the message structs have room for. -/
def Sized : ArgIn → Prop
  | open_ zPath .. | delete zPath _ | access zPath .. => 0 ∉ zPath ∧ zPath.length ≤ 511
  | read _ pBuf amt _ | write _ pBuf amt _ =>
    0 ≤ amt.toInt ∧ amt.toInt ≤ maxSize ∧ pBuf.length = amt.toInt
  | fileControl _ _ pArg size => 0 ≤ size.toInt ∧ size.toInt ≤ 512 ∧ pArg.length = size.toInt
  | _ => True

/-- The client's converter. `rest` is the memory behind a string or a payload. -/
def toChar (rest : List Byte) (a : ArgIn) (arg : Buf n) : Option (Buf n) :=
  match a with
  | open_ zPath pFile flags pOutFlags =>
    unixOpenConvertArgInToChar (some (zPath ++ 0 :: rest)) pFile flags pOutFlags arg
  | delete zPath dirSync => unixDeleteConvertArgInToChar (zPath ++ 0 :: rest) dirSync arg
  | access zPath flags resOut =>
    unixAccessConvertArgInToChar (zPath ++ 0 :: rest) flags resOut arg
  | read id pBuf amt offset =>
    unixReadConvertArgInToChar id (Buf.ofObject (pBuf ++ rest)) amt offset arg
  | write id pBuf amt offset =>
    unixWriteConvertArgInToChar id (Buf.ofObject (pBuf ++ rest)) amt offset arg
  | truncate id nByte => unixTruncateConvertArgInToChar id nByte arg
  | sync id flags => unixSyncConvertArgInToChar id flags arg
  | fileSize id pSize => unixFileSizeConvertArgInToChar id pSize arg
  | fileControl id op pArg size =>
    unixFileControlConvertArgInToChar id op (some (pArg ++ rest)) arg size
  | sectorSize id => unixSectorSizeConvertArgInToChar id arg
  | deviceCharacteristics id => unixDeviceCharacteristicsConvertArgInToChar id arg
  | close id => unixCloseConvertArgInToChar id arg
  | lock id eFileLock => unixLockConvertArgInToChar id eFileLock arg
  | unlock id eFileLock => unixUnlockConvertArgInToChar id eFileLock arg
  | checkReservedLock id resOut => unixCheckReservedLockConvertArgInToChar id resOut arg
  | fetch fd iOff nAmt => unixFetchConvertArgInToChar fd iOff nAmt arg
  | unfetch fd iOff pFlag => unixUnfetchConvertArgInToChar fd iOff pFlag arg

/-- The server's converter, on locals that nothing has written yet, and what the
locals hold then. -/
def ofChar (garbage : Nat → Byte) (op : Op) (arg : Buf n) : Option ArgIn :=
  match op with
  | .open_ => do
    let (path, pFile, flags, outFlags) ←
      unixOpenConvertCharToArgIn arg (Buf.uninit garbage 512)
    return open_ (← cstr path.val) pFile flags (some outFlags)
  | .delete => do
    let (path, dirSync) ← unixDeleteConvertCharToArgIn arg (Buf.uninit garbage 512)
    return delete (← cstr path.val) dirSync
  | .access => do
    let (path, flags, resOut) ← unixAccessConvertCharToArgIn arg (Buf.uninit garbage 512)
    return access (← cstr path.val) flags resOut
  | .read => do
    let (id, pBuf, amt, offset) ← unixReadConvertCharToArgIn arg (Buf.uninit garbage 8192)
    return read id (← pBuf.read 0 (sizeT amt)) amt offset
  | .write => do
    let (id, pBuf, amt, offset) ← unixWriteConvertCharToArgIn arg (Buf.uninit garbage 8192)
    return write id (← pBuf.read 0 (sizeT amt)) amt offset
  | .truncate => (unixTruncateConvertCharToArgIn arg).map fun (id, nByte) => truncate id nByte
  | .sync => (unixSyncConvertCharToArgIn arg).map fun (id, flags) => sync id flags
  | .fileSize => (unixFileSizeConvertCharToArgIn arg).map fun (id, pSize) => fileSize id pSize
  | .fileControl => do
    let (id, op, pArg, size) ← unixFileControlConvertCharToArgIn arg (Buf.uninit garbage 512)
    return fileControl id op (← pArg.read 0 (sizeT size)) size
  | .sectorSize => (unixSectorSizeConvertCharToArgIn arg).map sectorSize
  | .deviceCharacteristics =>
    (unixDeviceCharacteristicsConvertCharToArgIn arg).map deviceCharacteristics
  | .close => (unixCloseConvertCharToArgIn arg).map close
  | .lock => (unixLockConvertCharToArgIn arg).map fun (id, e) => lock id e
  | .unlock => (unixUnlockConvertCharToArgIn arg).map fun (id, e) => unlock id e
  | .checkReservedLock =>
    (unixCheckReservedLockConvertCharToArgIn arg).map fun (id, r) => checkReservedLock id r
  | .fetch => (unixFetchConvertCharToArgIn arg).map fun (fd, iOff, nAmt) => fetch fd iOff nAmt
  | .unfetch => (unixUnfetchConvertCharToArgIn arg).map fun (fd, iOff, p) => unfetch fd iOff p
  | .fullPathname | .getLastError => none

/-- A NULL `pOutFlags` is read back as -1. -/
def received : ArgIn → ArgIn
  | open_ zPath pFile flags pOutFlags => open_ zPath pFile flags (some (pOutFlags.getD (-1)))
  | a => a

theorem sizeT_of_length {data : List Byte} {amt : CInt} (h : 0 ≤ amt.toInt)
    (hlen : data.length = amt.toInt) : sizeT amt = data.length := by
  rw [sizeT_of_nonneg amt h]
  omega

theorem slice_ofObject (data rest : List Byte) :
    (Buf.ofObject (data ++ rest)).slice 0 data.length = data := by
  simp [Buf.slice, Buf.ofObject]

theorem read_uninit (garbage : Nat → Byte) (data : List Byte) (h : data.length ≤ n) :
    ((Buf.uninit garbage n).splice 0 data).read 0 data.length = some data := by
  rw [Buf.read_eq _ (by omega), Buf.slice_splice _ _ rfl (by omega)]

/-- Whatever the request buffer held before, and whatever the server's locals hold. -/
theorem request_round_trip (a : ArgIn) (h : a.Sized) (rest : List Byte) (garbage : Nat → Byte)
    (arg : Buf a.op.argInSize) :
    (a.toChar rest arg).bind (ofChar garbage a.op) = some a.received := by
  cases a with
  | open_ zPath pFile flags pOutFlags =>
    change Buf (Op.argInSize .open_) at arg
    have key := unixOpen_request (cstr_append zPath rest h.1) h.2 pFile flags pOutFlags arg
      (by decide) (Buf.uninit garbage 512)
    refine (bind_bind_eq key _).trans ?_
    simp only [Buf.cstr_splice _ h.1 (Nat.succ_le_succ h.2)]
    rfl
  | delete zPath dirSync =>
    change Buf (Op.argInSize .delete) at arg
    have key := unixDelete_request (cstr_append zPath rest h.1) h.2 dirSync arg (by decide)
      (Buf.uninit garbage 512)
    refine (bind_bind_eq key _).trans ?_
    simp only [Buf.cstr_splice _ h.1 (Nat.succ_le_succ h.2)]
    rfl
  | access zPath flags resOut =>
    change Buf (Op.argInSize .access) at arg
    have key := unixAccess_request (cstr_append zPath rest h.1) h.2 flags resOut arg (by decide)
      (Buf.uninit garbage 512)
    refine (bind_bind_eq key _).trans ?_
    simp only [Buf.cstr_splice _ h.1 (Nat.succ_le_succ h.2)]
    rfl
  | read id pBuf amt offset | write id pBuf amt offset =>
    obtain ⟨h0, hmax, hlen⟩ := h
    have hsize := sizeT_of_length h0 hlen
    have hfit : pBuf.length ≤ 8192 := by
      simp only [maxSize_eq, Nat.cast_ofNat] at hmax
      omega
    change Buf (Op.argInSize .read) at arg
    have key := unixRead_request id (Buf.ofObject (pBuf ++ rest)) amt offset arg (by decide)
      (by omega) (by simp [hsize]) (Buf.uninit garbage 8192)
    refine (bind_bind_eq key _).trans ?_
    simp only [hsize, slice_ofObject, read_uninit garbage pBuf hfit]
    rfl
  | fileControl id op pArg size =>
    obtain ⟨h0, hmax, hlen⟩ := h
    have hsize := sizeT_of_length h0 hlen
    have hfit : pArg.length ≤ 512 := by omega
    change Buf (Op.argInSize .fileControl) at arg
    by_cases hpos : 0 < size.toInt
    · have key := unixFileControl_request id op (pArg ++ rest) size arg (by decide) (by omega)
        (by simp [hsize]) hpos (Buf.uninit garbage 512)
      refine (bind_bind_eq key _).trans ?_
      simp only [hsize, slice_ofObject, read_uninit garbage pArg hfit]
      rfl
    · have key := unixFileControl_request_empty id op (some (pArg ++ rest)) size arg (by decide)
        hpos (Buf.uninit garbage 512)
      obtain rfl : pArg = [] := List.eq_nil_of_length_eq_zero (by omega)
      refine (bind_bind_eq key _).trans ?_
      simp [hsize, Buf.slice, received]
  | truncate id x | fileSize id x =>
    change Buf (Op.argInSize .truncate) at arg
    have key := getImageAnd_put id x arg (by decide)
    exact (Option.map_bind ..).symm.trans (congrArg (Option.map _) key)
  | sync id x | lock id x | unlock id x | checkReservedLock id x =>
    change Buf (Op.argInSize .sync) at arg
    have key := getImageAnd_put id x arg (by decide)
    exact (Option.map_bind ..).symm.trans (congrArg (Option.map _) key)
  | sectorSize id | deviceCharacteristics id | close id =>
    change Buf (Op.argInSize .close) at arg
    have key := getImage_put id arg (by decide)
    exact (Option.map_bind ..).symm.trans (congrArg (Option.map _) key)
  | fetch fd iOff x =>
    change Buf (Op.argInSize .fetch) at arg
    have key := unixFetch_request fd iOff x arg (by decide)
    exact (Option.map_bind ..).symm.trans (congrArg (Option.map _) key)
  | unfetch fd iOff x =>
    change Buf (Op.argInSize .unfetch) at arg
    have key := unixFetch_request fd iOff x arg (by decide)
    exact (Option.map_bind ..).symm.trans (congrArg (Option.map _) key)

theorem request_round_trip_write :
    ((write UnixFile.zero [7, 0, 9] 3 4096).toChar [5] (Buf.zeros (Op.argInSize .write))).bind
      (ofChar (fun _ => 1) .write) = some (write UnixFile.zero [7, 0, 9] 3 4096) :=
  request_round_trip (write UnixFile.zero [7, 0, 9] 3 4096) ⟨by decide, by decide, by decide⟩ [5]
    (fun _ => 1) (Buf.zeros (Op.argInSize .write))

end ArgIn

end RemoteVfs
