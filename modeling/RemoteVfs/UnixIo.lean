import RemoteVfs.Mmap
import RemoteVfs.Posix
import RemoteVfs.UnixLock

/-!
# Reading and writing

The data methods of `os_unix.c`. A system call may be interrupted, fail, or transfer
a part; what the methods make of that is the same on every way through their loops.
-/

open CMem Posix FileData

namespace RemoteVfs

open LockCalls (storeLastErrno)

/-- `SQLITE_FULL` -/
def sqliteFull : CInt := 13
/-- `SQLITE_IOERR_READ` -/
def sqliteIoerrRead : CInt := 266
/-- `SQLITE_IOERR_SHORT_READ` -/
def sqliteIoerrShortRead : CInt := 522
/-- `SQLITE_IOERR_WRITE` -/
def sqliteIoerrWrite : CInt := 778
/-- `SQLITE_IOERR_TRUNCATE` -/
def sqliteIoerrTruncate : CInt := 1546

namespace UnixIo

variable {P F : Type} [DecidableEq P] (p : P)

/-! ## Read -/

/-- `prior` is what has been read so far. The file, what is returned, and the buffer. -/
def seekAndRead (id : UnixFile) (offset : Int) (cnt : Nat) (prior : List Byte)
    (k : Kernel P F) : UnixFile × Int × List Byte × Kernel P F :=
  match hseek : k.lseek p id.h offset with
  | (.error errno, k) => (storeLastErrno id errno, -1, prior, k)
  | (.ok _, k₁) =>
    match hread : k₁.read p id.h cnt with
    | (.error errno, k₂) =>
      -- `got = 1; continue;`
      if errno = eintr then seekAndRead id offset cnt prior k₂
      else (storeLastErrno id errno, -1, prior, k₂)
    | (.ok data, k₂) =>
      if data.length = cnt ∨ data = [] then
        (id, (prior ++ data).length, prior ++ data, k₂)
      else seekAndRead id (offset + data.length) (cnt - data.length) (prior ++ data) k₂
termination_by k.trouble.length + cnt
decreasing_by
  all_goals
    have hseek := Kernel.lseek_trouble hseek
    have hread := Kernel.read_trouble hread
  · have := hread.2.1 (by rename_i h; rw [h])
    omega
  · rename_i hend
    have hle := hread.2.2 data rfl
    have hpos := List.length_pos_iff.mpr (not_or.mp hend).2
    have := (not_or.mp hend).1
    omega

/-- Once the mapping has given what it has: `filled` is in the buffer already. -/
def readRest {n : Nat} (id : UnixFile) (pBuf : Buf n) (filled : List Byte) (offset : Int)
    (k : Kernel P F) : UnixFile × Buf n × CInt × Kernel P F :=
  let amt := n - filled.length
  let (id, got, data, k) := seekAndRead p id offset amt [] k
  let pBuf := (pBuf.splice 0 filled).splice filled.length data
  if got = amt then (id, pBuf, sqliteOk, k)
  else if got < 0 then (id, pBuf, sqliteIoerrRead, k)
  else
    (storeLastErrno id 0,
      pBuf.splice (filled.length + data.length) (List.replicate (amt - data.length) 0),
      sqliteIoerrShortRead, k)

/-- `amt` is the size of the buffer. -/
def unixRead {n : Nat} (id : UnixFile) (pBuf : Buf n) (offset : I64) (k : Kernel P F) :
    Option (UnixFile × Buf n × CInt × Kernel P F) :=
  if offset.toInt < id.mmapSize.toInt then
    if offset.toInt + n ≤ id.mmapSize.toInt then do
      let data ← k.bytesAt p (id.pMapRegion + offset) n
      return (id, pBuf.splice 0 data, sqliteOk, k)
    else do
      let nCopy := (id.mmapSize.toInt - offset.toInt).toNat
      let data ← k.bytesAt p (id.pMapRegion + offset) nCopy
      return readRest p id pBuf data (offset.toInt + nCopy) k
  else some (readRest p id pBuf [] offset.toInt k)

/-! ## Write -/

variable [DecidableEq F]

/-- What `write` returns, once it has not been interrupted. -/
def seekAndWriteFd (fd : CInt) (iOff : Int) (pBuf : List Byte) (k : Kernel P F) :
    Except Errno Nat × Kernel P F :=
  let buf := pBuf.take (pBuf.length % 0x20000)
  match _hseek : k.lseek p fd iOff with
  | (.error errno, k) => (.error errno, k)
  | (.ok _, k₁) =>
    match _hwrite : k₁.write p fd buf with
    | (.error errno, k₂) =>
      if errno = eintr then seekAndWriteFd fd iOff pBuf k₂ else (.error errno, k₂)
    | (.ok n, k₂) => (.ok n, k₂)
termination_by k.trouble.length
decreasing_by
  have hseek := Kernel.lseek_trouble _hseek
  have hwrite := (Kernel.write_trouble _hwrite).2 (by rename_i h; rw [h])
  omega

def unixWrite (id : UnixFile) (pBuf : List Byte) (offset : Int) (k : Kernel P F) :
    UnixFile × CInt × Kernel P F :=
  match seekAndWriteFd p id.h offset pBuf k with
  | (.error errno, k) =>
    if errno ≠ enospc then (storeLastErrno id errno, sqliteIoerrWrite, k)
    else (storeLastErrno id 0, sqliteFull, k)
  | (.ok wrote, k) =>
    if wrote < pBuf.length ∧ 0 < wrote then
      unixWrite id (pBuf.drop wrote) (offset + wrote) k
    else if wrote < pBuf.length then (storeLastErrno id 0, sqliteFull, k)
    else (id, sqliteOk, k)
termination_by pBuf.length
decreasing_by
  rw [List.length_drop]
  omega

/-! ## Truncate and size -/

def robustFtruncate (h : CInt) (sz : Int) (k : Kernel P F) : Except Errno Unit × Kernel P F :=
  match _htrunc : k.ftruncate p h sz with
  | (.error errno, k₁) =>
    if _hintr : errno = eintr then robustFtruncate h sz k₁ else (.error errno, k₁)
  | (.ok _, k₁) => (.ok (), k₁)
termination_by k.trouble.length
decreasing_by
  subst _hintr
  exact Kernel.ftruncate_trouble _htrunc

/-- A whole number of chunks. -/
def roundUp (szChunk : CInt) (nByte : Int) : Int :=
  (nByte + szChunk.toInt - 1).tdiv szChunk.toInt * szChunk.toInt

def unixTruncate (id : UnixFile) (nByte : I64) (k : Kernel P F) :
    UnixFile × CInt × Kernel P F :=
  let nByte := if 0 < id.szChunk.toInt then roundUp id.szChunk nByte.toInt else nByte.toInt
  match robustFtruncate p id.h nByte k with
  | (.error errno, k) => (storeLastErrno id errno, sqliteIoerrTruncate, k)
  | (.ok _, k) =>
    (if nByte < id.mmapSize.toInt then { id with mmapSize := BitVec.ofInt 64 nByte } else id,
      sqliteOk, k)

/-- The file, `*pSize` and the result. -/
def unixFileSize (id : UnixFile) (pSize : I64) (k : Kernel P F) :
    UnixFile × (I64 × CInt) × Kernel P F :=
  match k.fstat p id.h with
  | (.error errno, k) => (storeLastErrno id errno, (pSize, sqliteIoerrFstat), k)
  | (.ok f, k) =>
    let size := (k.data f).length
    (id, (BitVec.ofNat 64 (if size = 1 then 0 else size), sqliteOk), k)

/-! ## The size hint -/

/-- One byte at the end of each block. `false` when a write fails. -/
def writeBlocks (id : UnixFile) (nSize nBlk : Nat) (hBlk : 0 < nBlk) (iWrite : Nat)
    (k : Kernel P F) : UnixFile × Bool × Kernel P F :=
  if iWrite < nSize + nBlk - 1 then
    let iWrite' := if nSize ≤ iWrite then nSize - 1 else iWrite
    match seekAndWriteFd p id.h iWrite' [0] k with
    | (.error errno, k) => (storeLastErrno id errno, false, k)
    | (.ok nWrite, k) =>
      if nWrite ≠ 1 then (id, false, k)
      else writeBlocks id nSize nBlk hBlk (iWrite' + nBlk) k
  else (id, true, k)
termination_by nSize + nBlk - 1 - iWrite
decreasing_by
  split <;> omega

/-- The part of `fcntlSizeHint` for a file with a chunk size. -/
def enlarge (id : UnixFile) (nByte : Int) (k : Kernel P F) : UnixFile × CInt × Kernel P F :=
  match k.fstat p id.h with
  | (.error _, k) => (id, sqliteIoerrFstat, k)
  | (.ok f, k) =>
    let size := (k.data f).length
    let nSize := roundUp id.szChunk nByte
    if (size : Int) < nSize then
      let nBlk := k.blksize
      let (id, done, k) := writeBlocks p id nSize.toNat nBlk k.blksize_pos
        (size / nBlk * nBlk + nBlk - 1) k
      (id, if done then sqliteOk else sqliteIoerrWrite, k)
    else (id, sqliteOk, k)

/-- The calls behind a mapping. -/
def mmapCalls : MmapCalls (Kernel P F) where
  osFstat h k :=
    match k.fstat p h with
    | (.error _, k) => (none, k)
    | (.ok f, k) => (some (BitVec.ofNat 64 (k.data f).length), k)
  osMmap n h k := k.mmap p h n.toNat
  osMremap a old new k := k.mremap p a old.toNat new.toNat
  osMunmap a n k := k.munmap p a n.toNat

def fcntlSizeHint (id : UnixFile) (nByte : I64) (k : Kernel P F) :
    UnixFile × CInt × Kernel P F :=
  let (id, rc, k) :=
    if 0 < id.szChunk.toInt then enlarge p id nByte.toInt k else (id, sqliteOk, k)
  if rc ≠ sqliteOk then (id, rc, k)
  else if 0 < id.mmapSizeMax.toInt ∧ id.mmapSize.toInt < nByte.toInt then
    let (err, k) :=
      if id.szChunk.toInt ≤ 0 then robustFtruncate p id.h nByte.toInt k else (.ok (), k)
    match err with
    | .error errno => (storeLastErrno id errno, sqliteIoerrTruncate, k)
    | .ok _ =>
      let (rc, id, k) := (mmapCalls p).unixMapfile id nByte k
      (id, rc, k)
  else (id, sqliteOk, k)

end UnixIo

end RemoteVfs
