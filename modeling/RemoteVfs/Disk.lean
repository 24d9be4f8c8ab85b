import RemoteVfs.Local

/-!
# A disk with one file

One instance of the functions of `os_unix.c`, to run the model with.
-/

open CMem

namespace RemoteVfs

/-- The bytes of the file, and the descriptor that the next `open` gives. -/
structure Disk where
  data : List Byte
  nextFd : CInt

namespace Disk

/-- `SQLITE_CANTOPEN` -/
def cantOpen : CInt := 14
/-- `SQLITE_IOERR_SHORT_READ` -/
def shortRead : CInt := 522
/-- `SQLITE_NOTFOUND` -/
def notFound : CInt := 12

theorem cantOpen_style : (none : Option LockingStyle).isSome = true ↔ cantOpen = sqliteOk := by
  decide

/-- No file has an empty name. -/
def unixOpen (p : List Byte) (flags : CInt) (pOutFlags : Option CInt) (d : Disk) : Opened Disk :=
  if p = [] then
    { rc := cantOpen, image := .zero, style := none, outFlags := none, os := d,
      sets_method := cantOpen_style }
  else
    { rc := sqliteOk
      image := { UnixFile.zero with h := d.nextFd }
      style := some (if flags &&& 0xFFFFFF00 = 0x100 then .posix else .nolock)
      outFlags := pOutFlags.map fun _ => flags
      os := { d with nextFd := d.nextFd + 1 }
      sets_method := ⟨fun _ => rfl, fun _ => rfl⟩ }

/-- Bytes behind the end of the file are read as zeros. -/
def unixRead {k : Nat} (id : UnixFile) (offset : I64) (d : Disk) :
    UnixFile × Buf k × CInt × Disk :=
  let got := (d.data.drop offset.toNat).take k
  (id, ⟨got ++ List.replicate (k - got.length) 0, by simp [got]⟩,
    if got.length = k then sqliteOk else shortRead, d)

def unixWrite (id : UnixFile) (data : List Byte) (offset : I64) (d : Disk) :
    UnixFile × CInt × Disk :=
  let head := d.data.take offset.toNat
  let head := head ++ List.replicate (offset.toNat - head.length) 0
  (id, sqliteOk, { d with data := head ++ data ++ d.data.drop (offset.toNat + data.length) })

/-- Only the lock that the file holds is told. -/
def unixFileControl (id : UnixFile) (op : CInt) (arg : Option (Buf (argLen op))) (d : Disk) :
    UnixFile × Option (Buf (argLen op)) × CInt × Disk :=
  if op = 1 then
    (id, arg.map (·.splice 0 (toBytes (id.eFileLock.zeroExtend 32))), sqliteOk, d)
  else (id, arg, notFound, d)

/-- Locks are always granted. -/
def setLock (id : UnixFile) (eFileLock : CInt) (d : Disk) : UnixFile × CInt × Disk :=
  ({ id with eFileLock := eFileLock.truncate 8 }, sqliteOk, d)

def fns : UnixFns Disk where
  unixOpen _ p flags pOutFlags d := unixOpen p flags pOutFlags d
  unixDelete _ _ d := (sqliteOk, { d with data := [] })
  unixAccess _ _ _ d := (1, sqliteOk, d)
  unixFullPathname _ zOut d := (zOut, sqliteOk, d)
  unixGetLastError _ := 0
  unixWrite id _ data offset d := unixWrite id data offset d
  unixRead id _ _ offset d := unixRead id offset d
  unixTruncate id _ nByte d := (id, sqliteOk, { d with data := d.data.take nByte.toNat })
  unixSync id _ _ d := (id, sqliteOk, d)
  unixFileSize id _ _ d := (id, (BitVec.ofNat 64 d.data.length, sqliteOk), d)
  unixFileControl id _ op arg d := unixFileControl id op arg d
  unixSectorSize id _ d := (id, 4096, d)
  unixDeviceCharacteristics id _ d := (id, 0, d)
  unixClose _ _ d := (sqliteOk, d)
  nolockClose _ _ d := (sqliteOk, d)
  unixLock id _ eFileLock d := setLock id eFileLock d
  unixUnlock id _ eFileLock d := setLock id eFileLock d
  unixCheckReservedLock id _ _ d := (id, (0, sqliteOk), d)
  unixFetch id _ _ _ d := (id, none, sqliteOk, d)
  unixUnfetch id _ _ _ d := (id, sqliteOk, d)
  memory _ _ := none

theorem masked_ne (flags : CInt) : flags &&& openMask ≠ -1 := by
  intro h
  have hbit := congrArg (BitVec.getLsbD · 31) h
  simp [openMask] at hbit

theorem opensFiles : fns.OpensFiles where
  main_db id p flags pOutFlags d style hdb hstyle := by
    simp only [openOn, fns, unixOpen] at hstyle
    split at hstyle
    · cases hstyle
    · unfold isMainDb at hdb
      simp only [hdb, if_true] at hstyle
      exact (Option.some.inj hstyle).symm
  outFlags id p flags pOutFlags d := by
    simp only [openOn, fns, unixOpen]
    split
    · simp
    · cases pOutFlags with
      | none => simp
      | some old => exact fun h => masked_ne flags (Option.some.inj h)

/-- The table before the first request. -/
def table : FdTable := ⟨fun _ => ⟨0, 0, Buf.zeros 512, none⟩, 0, none⟩

def env : Env Disk := ⟨fns, Addresses.flat, fun _ => none, fun _ => 0⟩

end Disk

/-! ## Runs of two clients -/

/-- Two clients open one file, and the first writes to it. -/
def System.bothOpen : List (Event (Fin 2)) :=
  let open_ := Call.xOpen (some [97, 0]) UnixFile.zero 0x106 (some 0x106)
  [.send 0 open_, .send 1 open_, .serve 0 (fun _ => 1) (fun _ => 2), .recv 0,
    .serve 1 (fun _ => 3) (fun _ => 4), .recv 1,
    .send 0 (.xWrite [7, 8] 2 0), .serve 0 (fun _ => 5) (fun _ => 6), .recv 0]

/-- Client 0 opens a main database and writes to it, client 1 opens it too. -/
def openWriteOpen : List (Event (Fin 2)) :=
  let open_ := Call.xOpen (some [97, 0]) UnixFile.zero 0x106 (some 0x106)
  [.send 0 open_, .send 1 open_, .serve 0 (fun _ => 1) (fun _ => 2), .recv 0,
    .send 0 (.xWrite [7, 8] 2 0), .serve 1 (fun _ => 3) (fun _ => 4),
    .serve 0 (fun _ => 5) (fun _ => 6), .recv 1, .recv 0]

end RemoteVfs
