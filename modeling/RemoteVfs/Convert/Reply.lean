import RemoteVfs.Convert.Request

/-!
# Replies: the client reads what the server wrote

`out` is `out_struct`, which the server never clears. No result depends on it.
-/

open CMem

namespace RemoteVfs

variable (A : Addresses) {n k l : Nat} {α : Type} [CType α]

/-! ## By shape -/

theorem getRc_put (rc : CInt) (out : Buf n) (h : 4 ≤ n) :
    (out.put 0 rc).bind (·.get CInt 0) = some rc := by
  simp [h]

theorem returnImageAndInt_put (id : UnixFile) (rc : CInt) (out : Buf n) (h : 124 ≤ n) :
    (putImageAnd id rc out).bind (returnImageAndInt A) =
      some (setClientRemotePMethods A id, rc) := by
  refine (Option.bind_assoc _ _ _).symm.trans ?_
  rw [getImageAnd_put id rc out (by simpa using h)]
  rfl

theorem returnImageOutRc_put (id : UnixFile) (x : α) (rc : CInt) (out : Buf n)
    (h : 124 + sizeof α ≤ n) : (putImageOutRc id x rc out).bind (returnImageOutRc A α) =
      some (setClientRemotePMethods A id, x, rc) := by
  simp (disch := first | omega | (simp <;> omega) | fail) [putImageOutRc, returnImageOutRc,
    putImageAnd, getImageAnd]

/-! ## By operation -/

theorem unixOpen_reply (pFile : UnixFile) (outFlags rc : CInt) (out : Buf n) (h : 128 ≤ n)
    (pOutFlags : Option CInt) (hp : outFlags = -1 ∨ pOutFlags.isSome) :
    (unixOpenConvertReturnToChar pFile outFlags rc out).bind
      (unixOpenConvertCharToReturn A · pOutFlags) = some (setClientRemotePMethods A pFile,
        if outFlags = -1 then pOutFlags else some outFlags, rc) := by
  simp (disch := first | omega | (simp <;> omega) | fail) [unixOpenConvertReturnToChar,
    unixOpenConvertCharToReturn, putImageOutRc, putImageAnd]
  split
  · rfl
  · next hne =>
    obtain ⟨old, rfl⟩ := Option.isSome_iff_exists.mp (hp.resolve_left hne)
    rfl

theorem unixAccess_reply (resOut rc : CInt) (out : Buf n) (h : 8 ≤ n) :
    (unixAccessConvertReturnToChar resOut rc out).bind unixAccessConvertCharToReturn =
      some (resOut, rc) := by
  simp (disch := first | omega | (simp <;> omega) | fail) [unixAccessConvertReturnToChar,
    unixAccessConvertCharToReturn]

theorem unixRead_reply (id : UnixFile) (pBuf : Buf k) (amt rc : CInt) (out : Buf n)
    (h : 8316 ≤ n) (hamt : sizeT amt ≤ 8192) (hk : sizeT amt ≤ k) (dst : Buf l)
    (hl : sizeT amt ≤ l) : (unixReadConvertReturnToChar id pBuf amt rc out).bind
      (unixReadConvertCharToReturn A · dst amt) = some (setClientRemotePMethods A id,
        dst.splice 0 (pBuf.slice 0 (sizeT amt)), rc) := by
  have hlen := Buf.slice_length pBuf 0 (sizeT amt) (by omega)
  simp (disch := first | omega | (simp [hlen] <;> omega) | fail) [unixReadConvertReturnToChar,
    unixReadConvertCharToReturn, putPayload]

theorem unixWrite_reply (id : UnixFile) (rc : CInt) (out : Buf n) (h : 8316 ≤ n) :
    (unixWriteConvertReturnToChar id rc out).bind (unixWriteConvertCharToReturn A) =
      some (setClientRemotePMethods A id, rc) := by
  simp (disch := first | omega | (simp <;> omega) | fail) [unixWriteConvertReturnToChar,
    unixWriteConvertCharToReturn]

theorem unixFileControl_reply (id : UnixFile) (pArg : Buf k) (rc size : CInt) (out : Buf n)
    (h : 640 ≤ n) (hsize : sizeT size ≤ 512) (hk : sizeT size ≤ k) (hpos : 0 < size.toInt)
    (obj : List Byte) (hobj : sizeT size ≤ obj.length) :
    (unixFileControlConvertReturnToChar id pArg rc out size).bind
      (unixFileControlConvertCharToReturn A · (some obj)) = some (setClientRemotePMethods A id,
        some ((Buf.ofObject obj).splice 0 (pArg.slice 0 (sizeT size))).val, rc) := by
  have hlen := Buf.slice_length pArg 0 (sizeT size) (by omega)
  simp (disch := first | omega | (simp [hlen] <;> omega) | fail) [hpos,
    unixFileControlConvertReturnToChar, unixFileControlConvertCharToReturn]

theorem unixFileControl_reply_empty (id : UnixFile) (pArg : Buf k) (rc size : CInt) (out : Buf n)
    (h : 640 ≤ n) (hpos : ¬ 0 < size.toInt) (obj : Option (List Byte)) :
    (unixFileControlConvertReturnToChar id pArg rc out size).bind
      (unixFileControlConvertCharToReturn A · obj) =
        some (setClientRemotePMethods A id, obj, rc) := by
  simp (disch := first | omega | (simp <;> omega) | fail) [hpos,
    unixFileControlConvertReturnToChar, unixFileControlConvertCharToReturn]

theorem unixClose_reply (rc : CInt) (out : Buf n) (h : 124 ≤ n) (id : UnixFile) :
    (unixCloseConvertReturnToChar rc out).bind (unixCloseConvertCharToReturn A · id) =
      some (setClientRemotePMethods A id, rc) := by
  simp (disch := first | omega | (simp <;> omega) | fail) [unixCloseConvertReturnToChar,
    unixCloseConvertCharToReturn]

theorem unixUnfetch_reply (id : UnixFile) (rc : CInt) (out : Buf n) (h : 124 ≤ n)
    (fd : UnixFile) : (unixUnfetchConvertReturnToChar id rc out).bind
      (unixUnfetchConvertCharToReturn A · fd) =
        some (setClientRemotePMethods A { fd with pMethod := id.pMethod }, rc) := by
  have h8 : (out.splice 0 (toBytes id)).slice 0 8 = (toBytes id).take 8 :=
    Buf.slice_splice_prefix out (toBytes id) (by simp) (by simp; omega)
  simp (disch := first | omega | (simp <;> omega) | fail) [unixUnfetchConvertReturnToChar,
    unixUnfetchConvertCharToReturn, putImageAnd, sizeofSizeUnixFile, h8, UnixFile.overwrite_eight]

theorem unixFetch_reply (fd : UnixFile) (pp : List Byte) (nAmt rc : CInt) (out : Buf n)
    (h : 8316 ≤ n) (hamt : sizeT nAmt ≤ 8192) (hk : sizeT nAmt ≤ pp.length) (dst : Buf l)
    (hl : sizeT nAmt ≤ l) : (unixFetchsConvertReturnToChar fd (some pp) nAmt rc out).bind
      (unixFetchConvertCharToReturn A · dst nAmt) = some (setClientRemotePMethods A fd,
        dst.splice 0 ((Buf.ofObject pp).slice 0 (sizeT nAmt)), rc) :=
  unixRead_reply A fd (Buf.ofObject pp) nAmt rc out h hamt hk dst hl

/-! ## Every reply that carries the whole result -/

/-- The values that travel in a reply. -/
inductive Reply
  | open_ (pFile : UnixFile) (outFlags rc : CInt)
  | delete (rc : CInt)
  | access (resOut rc : CInt)
  | getLastError (rcErrno : CInt)
  | read (id : UnixFile) (pBuf : List Byte) (amt rc : CInt)
  | write (id : UnixFile) (rc : CInt)
  | truncate (id : UnixFile) (rc : CInt)
  | sync (id : UnixFile) (rc : CInt)
  | fileSize (id : UnixFile) (pSize : I64) (rc : CInt)
  | fileControl (id : UnixFile) (pArg : List Byte) (size rc : CInt)
  | sectorSize (id : UnixFile) (rc : CInt)
  | deviceCharacteristics (id : UnixFile) (rc : CInt)
  | lock (id : UnixFile) (rc : CInt)
  | unlock (id : UnixFile) (rc : CInt)
  | checkReservedLock (id : UnixFile) (resOut rc : CInt)

/-- What the caller's pointers lead to, `amt`, and the result. -/
structure Caller where
  id : UnixFile
  pOutFlags : Option CInt
  pBuf : List Byte
  amt : CInt
  pArg : Option (List Byte)
  pSize : I64
  pResOut : CInt
  rc : CInt

namespace Reply

def op : Reply → Op
  | open_ .. => .open_
  | delete .. => .delete
  | access .. => .access
  | getLastError .. => .getLastError
  | read .. => .read
  | write .. => .write
  | truncate .. => .truncate
  | sync .. => .sync
  | fileSize .. => .fileSize
  | fileControl .. => .fileControl
  | sectorSize .. => .sectorSize
  | deviceCharacteristics .. => .deviceCharacteristics
  | lock .. => .lock
  | unlock .. => .unlock
  | checkReservedLock .. => .checkReservedLock

/-- The caller has room for the reply. -/
def Fits (c : Caller) : Reply → Prop
  | open_ _ outFlags _ => outFlags = -1 ∨ c.pOutFlags.isSome
  | read _ pBuf amt _ => 0 ≤ amt.toInt ∧ amt.toInt ≤ maxSize ∧ pBuf.length = amt.toInt ∧
    c.amt = amt ∧ pBuf.length ≤ c.pBuf.length
  | fileControl _ pArg size _ => 0 ≤ size.toInt ∧ size.toInt ≤ 512 ∧ pArg.length = size.toInt ∧
    (0 < size.toInt → ∃ obj, c.pArg = some obj ∧ pArg.length ≤ obj.length)
  | _ => True

/-- The server's converter. `rest` is the memory behind a payload. -/
def toChar (rest : List Byte) (r : Reply) (out : Buf n) : Option (Buf n) :=
  match r with
  | open_ pFile outFlags rc => unixOpenConvertReturnToChar pFile outFlags rc out
  | delete rc => unixDeleteConvertReturnToChar rc out
  | access resOut rc => unixAccessConvertReturnToChar resOut rc out
  | getLastError rcErrno => unixGetLastErrorConvertReturnToChar rcErrno out
  | read id pBuf amt rc => unixReadConvertReturnToChar id (Buf.ofObject (pBuf ++ rest)) amt rc out
  | write id rc => unixWriteConvertReturnToChar id rc out
  | truncate id rc => unixTruncateConvertReturnToChar id rc out
  | sync id rc => unixSyncConvertReturnToChar id rc out
  | fileSize id pSize rc => unixFileSizeConvertReturnToChar id pSize rc out
  | fileControl id pArg size rc =>
    unixFileControlConvertReturnToChar id (Buf.ofObject (pArg ++ rest)) rc out size
  | sectorSize id rc => unixSectorSizeConvertReturnToChar id rc out
  | deviceCharacteristics id rc => unixDeviceCharacteristicsConvertReturnToChar id rc out
  | lock id rc => unixLockConvertReturnToChar id rc out
  | unlock id rc => unixUnlockConvertReturnToChar id rc out
  | checkReservedLock id resOut rc => unixCheckReservedLockConvertReturnToChar id resOut rc out

/-- The client's converter, on the memory of the caller. -/
def ofChar (c : Caller) (op : Op) (out : Buf n) : Option Caller :=
  match op with
  | .open_ => (unixOpenConvertCharToReturn A out c.pOutFlags).map
      fun (id, pOutFlags, rc) => { c with id := id, pOutFlags := pOutFlags, rc := rc }
  | .delete => (unixDeleteConvertCharToReturn out).map fun rc => { c with rc := rc }
  | .access => (unixAccessConvertCharToReturn out).map
      fun (resOut, rc) => { c with pResOut := resOut, rc := rc }
  | .getLastError => (unixGetLastErrorConvertCharToReturn out).map fun rc => { c with rc := rc }
  | .read => (unixReadConvertCharToReturn A out (Buf.ofObject c.pBuf) c.amt).map
      fun (id, pBuf, rc) => { c with id := id, pBuf := pBuf.val, rc := rc }
  | .write => (unixWriteConvertCharToReturn A out).map fun (id, rc) => { c with id := id, rc := rc }
  | .truncate =>
    (unixTruncateConvertCharToReturn A out).map fun (id, rc) => { c with id := id, rc := rc }
  | .sync => (unixSyncConvertCharToReturn A out).map fun (id, rc) => { c with id := id, rc := rc }
  | .fileSize => (unixFileSizeConvertCharToReturn A out).map
      fun (id, pSize, rc) => { c with id := id, pSize := pSize, rc := rc }
  | .fileControl => (unixFileControlConvertCharToReturn A out c.pArg).map
      fun (id, pArg, rc) => { c with id := id, pArg := pArg, rc := rc }
  | .sectorSize =>
    (unixSectorSizeConvertCharToReturn A out).map fun (id, rc) => { c with id := id, rc := rc }
  | .deviceCharacteristics =>
    (unixDeviceCharacteristicsConvertCharToReturn A out).map
      fun (id, rc) => { c with id := id, rc := rc }
  | .lock => (unixLockConvertCharToReturn A out).map fun (id, rc) => { c with id := id, rc := rc }
  | .unlock =>
    (unixUnlockConvertCharToReturn A out).map fun (id, rc) => { c with id := id, rc := rc }
  | .checkReservedLock => (unixCheckReservedLockConvertCharToReturn A out).map
      fun (id, resOut, rc) => { c with id := id, pResOut := resOut, rc := rc }
  | .fullPathname | .close | .fetch | .unfetch => none

/-- The caller's memory with the values of the reply in it. -/
def stored (c : Caller) : Reply → Caller
  | open_ pFile outFlags rc =>
    { c with
      id := setClientRemotePMethods A pFile
      pOutFlags := if outFlags = -1 then c.pOutFlags else some outFlags
      rc := rc }
  | delete rc | getLastError rc => { c with rc := rc }
  | access resOut rc => { c with pResOut := resOut, rc := rc }
  | read id pBuf _ rc =>
    { c with
      id := setClientRemotePMethods A id
      pBuf := pBuf ++ c.pBuf.drop pBuf.length
      rc := rc }
  | write id rc | truncate id rc | sync id rc | sectorSize id rc | deviceCharacteristics id rc
  | lock id rc | unlock id rc => { c with id := setClientRemotePMethods A id, rc := rc }
  | fileSize id pSize rc => { c with id := setClientRemotePMethods A id, pSize := pSize, rc := rc }
  | fileControl id pArg _ rc =>
    { c with
      id := setClientRemotePMethods A id
      pArg := c.pArg.map fun obj => pArg ++ obj.drop pArg.length
      rc := rc }
  | checkReservedLock id resOut rc =>
    { c with id := setClientRemotePMethods A id, pResOut := resOut, rc := rc }

theorem splice_ofObject (obj data : List Byte) (h : data.length ≤ obj.length) :
    ((Buf.ofObject obj).splice 0 data).val = data ++ obj.drop data.length := by
  rw [Buf.splice_val _ _ _ (by omega)]
  simp [Buf.ofObject]

/-- From any garbage in the reply buffer. -/
theorem reply_round_trip (c : Caller) (r : Reply) (h : r.Fits c) (rest : List Byte)
    (out : Buf r.op.returnSize) :
    (r.toChar rest out).bind (ofChar A c r.op) = some (r.stored A c) := by
  cases r with
  | open_ pFile outFlags rc =>
    change Buf (Op.returnSize .open_) at out
    have key := unixOpen_reply A pFile outFlags rc out (by decide) c.pOutFlags h
    exact (Option.map_bind ..).symm.trans (congrArg (Option.map _) key)
  | delete rc | getLastError rc =>
    change Buf (Op.returnSize .delete) at out
    have key := getRc_put rc out (by decide)
    exact (Option.map_bind ..).symm.trans (congrArg (Option.map _) key)
  | access resOut rc =>
    change Buf (Op.returnSize .access) at out
    have key := unixAccess_reply resOut rc out (by decide)
    exact (Option.map_bind ..).symm.trans (congrArg (Option.map _) key)
  | read id pBuf amt rc =>
    obtain ⟨h0, hmax, hlen, rfl, hroom⟩ := h
    have hsize := ArgIn.sizeT_of_length h0 hlen
    change Buf (Op.returnSize .read) at out
    have key := unixRead_reply A id (Buf.ofObject (pBuf ++ rest)) c.amt rc out (by decide)
      (by simp only [maxSize_eq, Nat.cast_ofNat] at hmax; omega) (by simp [hsize])
      (Buf.ofObject c.pBuf) (by omega)
    rw [hsize, ArgIn.slice_ofObject] at key
    refine (Option.map_bind ..).symm.trans ((congrArg (Option.map _) key).trans ?_)
    simp only [Option.map_some, splice_ofObject _ _ hroom]
    rfl
  | fileControl id pArg size rc =>
    obtain ⟨h0, hmax, hlen, hroom⟩ := h
    have hsize := ArgIn.sizeT_of_length h0 hlen
    change Buf (Op.returnSize .fileControl) at out
    refine (Option.map_bind ..).symm.trans ?_
    by_cases hpos : 0 < size.toInt
    · obtain ⟨obj, hobj, hle⟩ := hroom hpos
      have key := unixFileControl_reply A id (Buf.ofObject (pArg ++ rest)) rc size out (by decide)
        (by omega) (by simp [hsize]) hpos obj (by omega)
      rw [hsize, ArgIn.slice_ofObject, splice_ofObject _ _ hle] at key
      rw [hobj]
      refine (congrArg (Option.map _) key).trans ?_
      simp [stored, hobj]
    · have key := unixFileControl_reply_empty A id (Buf.ofObject (pArg ++ rest)) rc size out
        (by decide) hpos c.pArg
      obtain rfl : pArg = [] := List.eq_nil_of_length_eq_zero (by omega)
      refine (congrArg (Option.map _) key).trans ?_
      simp [stored]
  | write id rc =>
    change Buf (Op.returnSize .write) at out
    have key := unixWrite_reply A id rc out (by decide)
    exact (Option.map_bind ..).symm.trans (congrArg (Option.map _) key)
  | fileSize id pSize rc =>
    change Buf (Op.returnSize .fileSize) at out
    have key := returnImageOutRc_put A id pSize rc out (by decide)
    exact (Option.map_bind ..).symm.trans (congrArg (Option.map _) key)
  | checkReservedLock id resOut rc =>
    change Buf (Op.returnSize .checkReservedLock) at out
    have key := returnImageOutRc_put A id resOut rc out (by decide)
    exact (Option.map_bind ..).symm.trans (congrArg (Option.map _) key)
  | truncate id rc | sync id rc | sectorSize id rc | deviceCharacteristics id rc | lock id rc
  | unlock id rc =>
    change Buf (Op.returnSize .sync) at out
    have key := returnImageAndInt_put A id rc out (by decide)
    exact (Option.map_bind ..).symm.trans (congrArg (Option.map _) key)

theorem reply_round_trip_read :
    ((read UnixFile.zero [7, 9] 2 0).toChar [5]
        (Buf.uninit (fun _ => 3) (Op.returnSize .read))).bind
      (ofChar Addresses.flat ⟨UnixFile.zero, none, [0, 0, 8], 2, none, 0, 0, 0⟩ .read) =
        some ⟨UnixFile.zero, none, [7, 9, 8], 2, none, 0, 0, 0⟩ :=
  reply_round_trip Addresses.flat ⟨UnixFile.zero, none, [0, 0, 8], 2, none, 0, 0, 0⟩
    (read UnixFile.zero [7, 9] 2 0) ⟨by decide, by decide, by decide, rfl, by decide⟩ [5]
    (Buf.uninit (fun _ => 3) (Op.returnSize .read))

end Reply

end RemoteVfs
