import RemoteVfs.Memory.Buf

/-!
# The image: one `unixFile`, as it travels in every message

Sizes and offsets are those of a 64-bit Linux build with
`SQLITE_MAX_MMAP_SIZE > 0`, where `sizeof(unixFile)` is 120.
-/

open CMem

namespace RemoteVfs

/-- `int` -/
abbrev CInt := BitVec 32
/-- `i64`, `sqlite3_int64` -/
abbrev I64 := BitVec 64
/-- An address, as a word. NULL is 0. -/
abbrev Ptr := BitVec 64

/-- A negative `int` becomes a huge `size_t`. -/
def sizeT (n : CInt) : Nat := (n.signExtend 64).toNat

theorem sizeT_of_nonneg (n : CInt) (h : 0 ≤ n.toInt) : sizeT n = n.toInt.toNat := by
  have hmsb : n.msb = false := by rw [BitVec.msb_eq_toInt]; simpa using h
  rw [sizeT, BitVec.toNat_signExtend, hmsb, BitVec.toInt_eq_toNat_of_msb hmsb]
  simp [BitVec.toNat_setWidth]
  omega

/-- `struct unixFile`. The two padding members are bytes of the image too. -/
structure UnixFile where
  pMethod : Ptr
  pVfs : Ptr
  pInode : Ptr
  h : CInt
  eFileLock : BitVec 8
  padFileLock : BitVec 8
  ctrlFlags : BitVec 16
  lastErrno : CInt
  padErrno : BitVec 32
  lockingContext : Ptr
  pPreallocatedUnused : Ptr
  zPath : Ptr
  pShm : Ptr
  szChunk : CInt
  nFetchOut : CInt
  mmapSize : I64
  mmapSizeActual : I64
  mmapSizeMax : I64
  pMapRegion : Ptr
  sectorSize : CInt
  deviceCharacteristics : CInt
  deriving DecidableEq

namespace UnixFile

/-- The members after `pMethod`, in order. -/
abbrev Tail := Ptr × Ptr × CInt × BitVec 8 × BitVec 8 × BitVec 16 × CInt × BitVec 32 × Ptr × Ptr ×
  Ptr × Ptr × CInt × CInt × I64 × I64 × I64 × Ptr × CInt × CInt

def members : UnixFile ≃ Ptr × Tail where
  toFun f := (f.pMethod, f.pVfs, f.pInode, f.h, f.eFileLock, f.padFileLock, f.ctrlFlags,
    f.lastErrno, f.padErrno, f.lockingContext, f.pPreallocatedUnused, f.zPath, f.pShm, f.szChunk,
    f.nFetchOut, f.mmapSize, f.mmapSizeActual, f.mmapSizeMax, f.pMapRegion, f.sectorSize,
    f.deviceCharacteristics)
  invFun := fun (pMethod, pVfs, pInode, h, eFileLock, padFileLock, ctrlFlags, lastErrno, padErrno,
      lockingContext, pPreallocatedUnused, zPath, pShm, szChunk, nFetchOut, mmapSize,
      mmapSizeActual, mmapSizeMax, pMapRegion, sectorSize, deviceCharacteristics) =>
    { pMethod, pVfs, pInode, h, eFileLock, padFileLock, ctrlFlags, lastErrno, padErrno,
      lockingContext, pPreallocatedUnused, zPath, pShm, szChunk, nFetchOut, mmapSize,
      mmapSizeActual, mmapSizeMax, pMapRegion, sectorSize, deviceCharacteristics }
  left_inv _ := rfl
  right_inv _ := rfl

instance : CType UnixFile := CType.ofEquiv members

/-- `memset(p, 0, sizeof(unixFile))` -/
def zero : UnixFile :=
  ⟨0, 0, 0, 0, 0, 0, 0, 0, 0, 0, 0, 0, 0, 0, 0, 0, 0, 0, 0, 0, 0⟩

end UnixFile

/-- `SIZE_UNIXFILE` -/
def sizeUnixFile : Nat := sizeof UnixFile

@[simp] theorem sizeUnixFile_eq : sizeUnixFile = 120 := rfl
@[simp] theorem sizeof_unixFile : sizeof UnixFile = 120 := rfl

/-- `MAX_SIZE` -/
def maxSize : Nat := 8192

@[simp] theorem maxSize_eq : maxSize = 8192 := rfl

namespace UnixFile

/-- `memcpy(fd, src, …)` over the first bytes of the image. -/
def overwrite (fd : UnixFile) (src : List Byte) : UnixFile :=
  ofBytes (src ++ (toBytes fd).drop src.length)

theorem toBytes_eq (f : UnixFile) : toBytes f = toBytes f.pMethod ++ toBytes (members f).2 := rfl

theorem overwrite_eight (fd g : UnixFile) :
    fd.overwrite ((toBytes g).take 8) = { fd with pMethod := g.pMethod } := by
  have hlen (f : UnixFile) : (toBytes f.pMethod).length = 8 := CType.length_toBytes f.pMethod
  have hnew : toBytes g.pMethod ++ toBytes (members fd).2 =
      toBytes { fd with pMethod := g.pMethod } := (toBytes_eq { fd with pMethod := g.pMethod }).symm
  rw [overwrite, toBytes_eq g, List.take_left' (hlen g), hlen, toBytes_eq fd,
    List.drop_left' (hlen fd), hnew, CType.ofBytes_toBytes]

/-! ## What a file method works on -/

/-- The image without its two pointers that mean something else on each side. -/
def core (f : UnixFile) : UnixFile := { f with pMethod := 0, zPath := 0 }

/-- What a file method leaves in `f` when it computes `g`: it assigns neither
`pMethod`, nor `zPath`, nor `h`. -/
def keep (f g : UnixFile) : UnixFile := { g with pMethod := f.pMethod, zPath := f.zPath, h := f.h }

@[simp] theorem core_h (f : UnixFile) : f.core.h = f.h := rfl

theorem core_keep (f f' g : UnixFile) (h : f.h = f'.h) : (f.keep g).core = (f'.keep g).core := by
  simp [core, keep, h]

end UnixFile

end RemoteVfs
