import RemoteVfs.FileControl
import RemoteVfs.UnixIo.Size

/-!
# An open file is a sequence of bytes

Through any run of its data methods. Where the bytes come from, `read` or a mapping, and what the
system calls go through on the way cannot be seen.
-/

open CMem Posix FileData

namespace RemoteVfs

namespace UnixIo

variable {P F : Type} [DecidableEq P] [DecidableEq F]

/-! ## The methods -/

/-- A call of a data method. The `pArg` of a file control is the object behind it. -/
inductive DataCall
  | read (n : Nat) (pBuf : Buf n) (offset : I64)
  | write (pBuf : List Byte) (offset : I64)
  | truncate (nByte : I64)
  | fileSize (pSize : I64)
  | fileControl (op : CInt) (pArg : List Byte)
  | fetch (iOff : I64) (nAmt : CInt)
  | unfetch (isPage : Bool)

/-- What its caller sees. -/
inductive DataReply
  | done (rc : CInt)
  | bytes (buf : List Byte) (rc : CInt)
  | size (pSize : I64) (rc : CInt)
  | object (pArg : Option (List Byte)) (rc : CInt)
  | page (data : Option (List Byte)) (rc : CInt)

/-- The calls behind a file control. -/
def fileControlCalls (p : P) (rest : FileControlCalls (Kernel P F)) :
    FileControlCalls (Kernel P F) :=
  { rest with toMmapCalls := mmapCalls p, fcntlSizeHint := fcntlSizeHint p }

/-- The bytes that a fetched pointer leads to. -/
def page (p : P) (nAmt : CInt) : UnixFile × Ptr × CInt × Kernel P F →
    Option (DataReply × UnixFile × Kernel P F)
  | (id, pp, rc, k) =>
    if pp = 0 then some (.page none rc, id, k)
    else do
      let data ← k.bytesAt p pp nAmt.toInt.toNat
      return (.page (some data) rc, id, k)

def DataCall.exec (p : P) (rest : FileControlCalls (Kernel P F)) (id : UnixFile)
    (k : Kernel P F) : DataCall → Option (DataReply × UnixFile × Kernel P F)
  | .read _ pBuf offset => do
    let (id, buf, rc, k) ← unixRead p id pBuf offset k
    return (.bytes buf.val rc, id, k)
  | .write pBuf offset =>
    let (id, rc, k) := unixWrite p id pBuf offset.toInt k
    some (.done rc, id, k)
  | .truncate nByte =>
    let (id, rc, k) := unixTruncate p id nByte k
    some (.done rc, id, k)
  | .fileSize pSize =>
    let (id, (pSize, rc), k) := unixFileSize p id pSize k
    some (.size pSize rc, id, k)
  | .fileControl op pArg => do
    let (id, pArg, rc, k) ← (fileControlCalls p rest).unixFileControl id op (some pArg) k
    return (.object pArg rc, id, k)
  | .fetch iOff nAmt => page p nAmt ((mmapCalls p).unixFetch id iOff nAmt k)
  | .unfetch isPage =>
    let (id, rc, k) := (mmapCalls p).unixUnfetch id isPage k
    some (.done rc, id, k)

/-- The calls of a run, one after the other. -/
def runCalls (p : P) (rest : FileControlCalls (Kernel P F)) :
    List DataCall → UnixFile → Kernel P F → Option (List DataReply × UnixFile × Kernel P F)
  | [], id, k => some ([], id, k)
  | c :: cs, id, k => do
    let (r, id, k) ← c.exec p rest id k
    let (rs, id, k) ← runCalls p rest cs id k
    return (r :: rs, id, k)

/-- What SQLite asks for. -/
def DataCall.Permitted : DataCall → Prop
  | .read n _ offset => 0 < n ∧ 0 ≤ offset.toInt
  | .write pBuf offset => 0 < pBuf.length ∧ pBuf.length < 0x20000 ∧ 0 ≤ offset.toInt
  | .fileControl op pArg => argLen op ≤ pArg.length
  | .fetch iOff nAmt => 0 ≤ iOff.toInt ∧ 0 ≤ nAmt.toInt ∧ iOff.toInt + nAmt.toInt < 2 ^ 63
  | .truncate _ | .fileSize _ | .unfetch _ => True

/-! ## The byte sequence -/

structure ByteFile where
  data : List Byte
  /-- `SQLITE_FCNTL_CHUNK_SIZE` -/
  chunk : CInt

namespace ByteFile

/-- A failed write has written a prefix. -/
def Write (s s' : ByteFile) (pBuf : List Byte) (offset : Nat) (rc : CInt) : Prop :=
  ∃ n ≤ pBuf.length, s' = { s with data := writeAt s.data offset (pBuf.take n) } ∧
    (rc = sqliteOk ↔ n = pBuf.length)

def Truncate (s s' : ByteFile) (nByte : Int) (rc : CInt) : Prop :=
  rc = sqliteIoerrTruncate ∧ s' = s ∨
    rc = sqliteOk ∧ ∃ n : Nat, (n : Int) = (if 0 < s.chunk.toInt then roundUp s.chunk nByte
      else nByte) ∧ s' = { s with data := resize s.data n }

/-- The bytes before the hint stay. With a chunk size all do, and the file ends with a whole
chunk or further on. -/
def Hint (s s' : ByteFile) (nByte : Int) (rc : CInt) : Prop :=
  ∃ n, s' = { s with data := resize s.data n } ∧ min (s.data.length : Int) nByte ≤ n ∧
    (0 < s.chunk.toInt → s.data.length ≤ n ∧
      (rc = sqliteOk → (n : Int) = max (s.data.length : Int) (roundUp s.chunk nByte)))

/-- A file of one byte has size 0. -/
def size (s : ByteFile) : I64 := BitVec.ofNat 64 (if s.data.length = 1 then 0 else s.data.length)

/-- What a call may answer, and what it leaves. -/
def Step (s s' : ByteFile) : DataCall → DataReply → Prop
  | .read n _ offset, .bytes buf rc =>
    s' = s ∧ (Gives s.data offset.toInt.toNat n buf rc ∨ rc = sqliteIoerrRead)
  | .write pBuf offset, .done rc => s.Write s' pBuf offset.toInt.toNat rc
  | .truncate nByte, .done rc => s.Truncate s' nByte.toInt rc
  | .fileSize _, .size pSize rc => s' = s ∧ (rc = sqliteOk → pSize = s.size)
  | .fileControl op pArg, .object _ rc =>
    if op = 6 then ∃ chunk, load CInt pArg = some chunk ∧ s' = { s with chunk }
    else if op = 5 then ∃ nByte : I64, load I64 pArg = some nByte ∧ s.Hint s' nByte.toInt rc
    else s' = s
  | .fetch iOff nAmt, .page page _ =>
    s' = s ∧ ∀ data, page = some data →
      data = readAt s.data iOff.toInt.toNat nAmt.toInt.toNat ∧ data.length = nAmt.toInt.toNat
  | .unfetch _, .done _ => s' = s
  | _, _ => False

inductive Run : ByteFile → List DataCall → List DataReply → ByteFile → Prop
  | nil (s) : Run s [] [] s
  | cons {s s' s'' c r cs rs} : Step s s' c r → Run s' cs rs s'' → Run s (c :: cs) (r :: rs) s''

end ByteFile

/-- The file behind a handle. -/
def byteFile (id : UnixFile) (f : F) (k : Kernel P F) : ByteFile := ⟨k.data f, id.szChunk⟩

/-- The handle is open on the file, and so is its mapping. -/
structure Handle (p : P) (id : UnixFile) (f : F) (k : Kernel P F) : Prop where
  opens : k.Opens p id.h f
  inFile : InFile p id f k

/-- What a method on a handle keeps: other files, all locks and names, and the handle. -/
structure Keeps (p : P) (f : F) (k : Kernel P F) (id' : UnixFile) (k' : Kernel P F) : Prop where
  kept : Kernel.Kept k k'
  others : ∀ g, g ≠ f → k'.data g = k.data g
  handle : Handle p id' f k'

/-- The file controls that look elsewhere leave the files alone. -/
structure Aside (rest : FileControlCalls (Kernel P F)) : Prop where
  mprintf : ∀ id k, Kernel.Same k (rest.sqlite3Mprintf id k).2 ∧
    (rest.sqlite3Mprintf id k).2.data = k.data
  tempname : ∀ id k, Kernel.Same k (rest.unixGetTempname id k).2 ∧
    (rest.unixGetTempname id k).2.data = k.data
  moved : ∀ id k, Kernel.Same k (rest.fileHasMoved id k).2 ∧
    (rest.fileHasMoved id k).2.data = k.data

/-! ## One call -/

section Call

variable {p : P} {id id' : UnixFile} {k k' : Kernel P F} {f : F}

omit [DecidableEq P] [DecidableEq F] in
theorem Keeps.trans {id₁ id₂ : UnixFile} {k₁ k₂ : Kernel P F} (h₁ : Keeps p f k id₁ k₁)
    (h₂ : Keeps p f k₁ id₂ k₂) : Keeps p f k id₂ k₂ :=
  ⟨h₁.kept.trans h₂.kept, fun g hg => (h₂.others g hg).trans (h₁.others g hg), h₂.handle⟩

omit [DecidableEq P] [DecidableEq F] in
theorem Handle.same (hh : Handle p id f k) (hsame : Kernel.Same k k') (hdata : k'.data = k.data)
    (hh' : id'.h = id.h) (hregion : id'.pMapRegion = id.pMapRegion)
    (hsize : id'.mmapSize = id.mmapSize) (hactual : id'.mmapSizeActual = id.mmapSizeActual) :
    Keeps p f k id' k' where
  kept := hsame.toKept
  others g _ := by rw [hdata]
  handle := ⟨hh' ▸ hsame.opens hh.opens,
    hh.inFile.of_le hregion hsize hactual hsame.memory (by rw [hdata]; exact fun h => h)⟩

omit [DecidableEq P] [DecidableEq F] in
theorem Handle.remapped (hh : Handle p id f k) (hkept : Kernel.Kept k k')
    (hdata : k'.data = k.data) (hid : Remapped id id') (hin : InFile p id' f k') :
    Keeps p f k id' k' ∧ byteFile id' f k' = byteFile id f k := by
  obtain ⟨_, _, _, _, rfl⟩ := hid
  exact ⟨⟨hkept, fun g _ => by rw [hdata], hkept.opens hh.opens, hin⟩,
    by rw [byteFile, byteFile, hdata]⟩

omit [DecidableEq P] in
theorem Handle.update (hh : Handle p id f k) (hkept : Kernel.Kept k k') {d : List Byte}
    (hdata : k'.data = Function.update k.data f d) (hh' : id'.h = id.h)
    (hin : InFile p id' f k') : Keeps p f k id' k' where
  kept := hkept
  others g hg := by rw [hdata, Function.update_of_ne hg]
  handle := ⟨hh' ▸ hkept.opens hh.opens, hin⟩

omit [DecidableEq P] in
theorem Handle.longer (hh : Handle p id f k) (hsame : Kernel.Same k k') {d : List Byte}
    (hdata : k'.data = Function.update k.data f d) (hle : (k.data f).length ≤ d.length)
    (hid : id' = id ∨ ∃ errno, id' = LockCalls.storeLastErrno id errno) :
    Keeps p f k id' k' ∧ byteFile id' f k' = ⟨d, id.szChunk⟩ := by
  have hd : k'.data f = d := by rw [hdata, Function.update_self]
  obtain ⟨hh', hregion, hsize, hactual, hchunk⟩ : id'.h = id.h ∧
      id'.pMapRegion = id.pMapRegion ∧ id'.mmapSize = id.mmapSize ∧
      id'.mmapSizeActual = id.mmapSizeActual ∧ id'.szChunk = id.szChunk := by
    rcases hid with rfl | ⟨errno, rfl⟩ <;> exact ⟨rfl, rfl, rfl, rfl, rfl⟩
  refine ⟨hh.update hsame.toKept hdata hh' ?_, by rw [byteFile, hd, hchunk]⟩
  refine hh.inFile.of_le hregion hsize hactual hsame.memory fun h => h.trans ?_
  rw [hd]
  exact_mod_cast hle

omit [DecidableEq P] in
theorem Handle.errno (hh : Handle p id f k) (hsame : Kernel.Same k k') (hdata : k'.data = k.data)
    (hid : id' = id ∨ ∃ errno, id' = LockCalls.storeLastErrno id errno) :
    Keeps p f k id' k' ∧ byteFile id' f k' = byteFile id f k :=
  hh.longer hsame (by rw [hdata, Function.update_eq_self]) le_rfl hid

/-- A call goes through, keeps what it has to, and answers as it should. -/
def Does (p : P) (rest : FileControlCalls (Kernel P F)) (f : F) (id : UnixFile) (k : Kernel P F)
    (c : DataCall) : Prop :=
  ∃ r id' k', c.exec p rest id k = some (r, id', k') ∧ Keeps p f k id' k' ∧
    (byteFile id f k).Step (byteFile id' f k') c r

variable {rest : FileControlCalls (Kernel P F)}

theorem read_does (hh : Handle p id f k) {n : Nat} {pBuf : Buf n} {offset : I64} (hn : 0 < n)
    (hoff : 0 ≤ offset.toInt) : Does p rest f id k (.read n pBuf offset) := by
  obtain ⟨id', buf, rc, k', hread, hsame, hdata, hid, hgives⟩ :=
    unixRead_spec pBuf hh.opens hh.inFile hoff hn
  obtain ⟨hkeeps, hfile⟩ := hh.errno hsame hdata hid
  refine ⟨.bytes buf.val rc, id', k', ?_, hkeeps, hfile, hgives⟩
  simp [DataCall.exec, hread]

theorem write_does (hh : Handle p id f k) {pBuf : List Byte} {offset : I64}
    (hpos : 0 < pBuf.length) (hlen : pBuf.length < 0x20000) (hoff : 0 ≤ offset.toInt) :
    Does p rest f id k (.write pBuf offset) := by
  rcases hwrite : unixWrite p id pBuf offset.toInt k with ⟨id', rc, k'⟩
  obtain ⟨n, hn, ⟨hsame, hdata⟩, hcase⟩ := unixWrite_spec hh.opens hoff hpos hlen hwrite
  have hid : id' = id ∨ ∃ errno, id' = LockCalls.storeLastErrno id errno := by
    rcases hcase with ⟨-, -, hid⟩ | ⟨-, ⟨-, hid⟩ | ⟨-, errno, -, hid⟩⟩
    · exact .inl hid
    · exact .inr ⟨0, hid⟩
    · exact .inr ⟨errno, hid⟩
  have hrc : rc = sqliteOk ↔ n = pBuf.length := by
    rcases hcase with ⟨rfl, hn, -⟩ | ⟨hlt, ⟨rfl, -⟩ | ⟨rfl, -⟩⟩
    · exact iff_of_true rfl hn
    · exact iff_of_false (by decide) (by omega)
    · exact iff_of_false (by decide) (by omega)
  obtain ⟨hkeeps, hfile⟩ := hh.longer hsame hdata le_length_writeAt hid
  exact ⟨.done rc, id', k', by simp only [DataCall.exec, hwrite], hkeeps, n, hn, hfile, hrc⟩

theorem truncate_does (hh : Handle p id f k) {nByte : I64} :
    Does p rest f id k (.truncate nByte) := by
  rcases htrunc : unixTruncate p id nByte k with ⟨id', rc, k'⟩
  obtain ⟨hsame, ⟨errno, rfl, rfl, hdata⟩ | ⟨n, hn, rfl, hdata, hid⟩⟩ :=
    unixTruncate_spec hh.opens htrunc
  · obtain ⟨hkeeps, hfile⟩ := hh.errno hsame hdata (.inr ⟨errno, rfl⟩)
    exact ⟨.done sqliteIoerrTruncate, _, k', by simp only [DataCall.exec, htrunc], hkeeps,
      .inl ⟨rfl, hfile⟩⟩
  · have hd : k'.data f = resize (k.data f) n := by rw [hdata, Function.update_self]
    have hlen : (k'.data f).length = n := by rw [hd, length_resize]
    have hin := hh.inFile
    obtain ⟨hh', hchunk, hin'⟩ : id'.h = id.h ∧ id'.szChunk = id.szChunk ∧ InFile p id' f k' := by
      rw [hid]
      by_cases hlt : (n : Int) < id.mmapSize.toInt
      · rw [if_pos hlt]
        have hregion : id.pMapRegion ≠ 0 := fun h0 => by have := hin.unmapped h0; omega
        have hle : (BitVec.ofInt 64 n).toInt ≤ n := BitVec.ofInt_natCast 64 n ▸ toInt_ofNat_le n
        refine ⟨rfl, rfl, fun h0 => ?_, fun h0 => ?_, fun h0 => absurd h0 hregion, ?_⟩
        · rw [hsame.memory]
          exact hin.region h0
        · exact hle.trans (hlt.le.trans (hin.actual h0))
        · rw [hlen]
          exact hle
      · rw [if_neg hlt]
        exact ⟨rfl, rfl, hin.of_le rfl rfl rfl hsame.memory fun _ => by omega⟩
    refine ⟨.done sqliteOk, id', k', by simp only [DataCall.exec, htrunc],
      hh.update hsame.toKept hdata hh' hin', .inr ⟨rfl, n, hn, ?_⟩⟩
    rw [byteFile, hd, hchunk, byteFile]

theorem fileSize_does (hh : Handle p id f k) {pSize : I64} :
    Does p rest f id k (.fileSize pSize) := by
  rcases hstat : k.fstat p id.h with ⟨r, k'⟩
  obtain ⟨hsame, hdata, hopens⟩ := Kernel.fstat_keeps p id.h k hstat
  cases r with
  | error errno =>
    obtain ⟨hkeeps, hfile⟩ := hh.errno hsame hdata (.inr ⟨errno, rfl⟩)
    exact ⟨.size pSize sqliteIoerrFstat, _, k', by simp only [DataCall.exec, unixFileSize, hstat],
      hkeeps, hfile, fun h => absurd h (by decide)⟩
  | ok f' =>
    obtain rfl := (hopens f' rfl).unique hh.opens
    obtain ⟨hkeeps, hfile⟩ := hh.errno hsame hdata (.inl rfl)
    refine ⟨.size (byteFile id f' k').size sqliteOk, id, k', ?_, hkeeps, hfile,
      fun _ => by rw [hfile]⟩
    simp only [DataCall.exec, unixFileSize, hstat]
    rfl

theorem add_toInt {iOff : I64} {nAmt : CInt} (hoff : 0 ≤ iOff.toInt) (hamt : 0 ≤ nAmt.toInt)
    (hsum : iOff.toInt + nAmt.toInt < 2 ^ 63) :
    (iOff + nAmt.signExtend 64).toInt = iOff.toInt + nAmt.toInt := by
  rw [BitVec.toInt_add, BitVec.toInt_signExtend_of_le (by decide)]
  exact Int.bmod_eq_of_le (by omega) (by omega)

theorem unixFetch_spec (hh : Handle p id f k) {iOff : I64} {nAmt : CInt} {pp : Ptr} {rc : CInt}
    (hoff : 0 ≤ iOff.toInt) (hamt : 0 ≤ nAmt.toInt) (hsum : iOff.toInt + nAmt.toInt < 2 ^ 63)
    (h : (mmapCalls p).unixFetch id iOff nAmt k = (id', pp, rc, k')) :
    Keeps p f k id' k' ∧ byteFile id' f k' = byteFile id f k ∧
      (pp ≠ 0 → pp = id'.pMapRegion + iOff ∧ id'.pMapRegion ≠ 0 ∧
        iOff.toInt + nAmt.toInt ≤ id'.mmapSize.toInt) := by
  rw [MmapCalls.unixFetch] at h
  by_cases hmax : 0 < id.mmapSizeMax.toInt
  · rw [if_pos hmax] at h
    rcases hm : (if id.pMapRegion = 0 then (mmapCalls p).unixMapfile id (-1) k
      else (sqliteOk, id, k)) with ⟨rc₁, id₁, k₁⟩
    rw [hm] at h
    obtain ⟨hkeeps, hfile⟩ : Keeps p f k id₁ k₁ ∧ byteFile id₁ f k₁ = byteFile id f k := by
      split at hm
      · have hneg : (-1 : I64).toInt ≤ (k.data f).length := by
          rw [show (-1 : I64).toInt = -1 by decide]
          omega
        obtain ⟨hkept, hdata, hid, hin⟩ := unixMapfile_spec hh.opens hh.inFile hneg hm
        exact hh.remapped hkept hdata hid hin
      · cases hm
        exact ⟨hh.same (.refl k) rfl rfl rfl rfl rfl, rfl⟩
    have hin := hkeeps.handle.inFile
    dsimp only at h
    by_cases hrc : rc₁ ≠ sqliteOk
    · rw [if_pos hrc] at h
      cases h
      exact ⟨hkeeps, hfile, fun h => absurd rfl h⟩
    · rw [if_neg hrc, add_toInt hoff hamt hsum] at h
      by_cases hsize : iOff.toInt + nAmt.toInt ≤ id₁.mmapSize.toInt
      · rw [if_pos hsize] at h
        cases h
        refine ⟨⟨hkeeps.kept, hkeeps.others, hkeeps.handle.opens, hin.region, hin.actual,
          hin.unmapped, hin.size⟩, hfile, fun hpp => ⟨rfl, fun h0 => hpp ?_, hsize⟩⟩
        -- Without a mapping there is only the empty page at 0.
        have hzero : iOff.toInt = (0 : I64).toInt := by
          have := hin.unmapped h0
          rw [show (0 : I64).toInt = 0 by decide]
          omega
        change id₁.pMapRegion = 0 at h0
        rw [h0, BitVec.toInt_inj.mp hzero]
        rfl
      · rw [if_neg hsize] at h
        cases h
        exact ⟨hkeeps, hfile, fun h => absurd rfl h⟩
  · rw [if_neg hmax] at h
    cases h
    exact ⟨hh.same (.refl k) rfl rfl rfl rfl rfl, rfl, fun h => absurd rfl h⟩

theorem fetch_does (hh : Handle p id f k) {iOff : I64} {nAmt : CInt}
    (hoff : 0 ≤ iOff.toInt) (hamt : 0 ≤ nAmt.toInt) (hsum : iOff.toInt + nAmt.toInt < 2 ^ 63) :
    Does p rest f id k (.fetch iOff nAmt) := by
  rcases hfetch : (mmapCalls p).unixFetch id iOff nAmt k with ⟨id', pp, rc, k'⟩
  obtain ⟨hkeeps, hfile, hpage⟩ := unixFetch_spec hh hoff hamt hsum hfetch
  by_cases hpp : pp = 0
  · refine ⟨.page none rc, id', k', ?_, hkeeps, hfile, nofun⟩
    simp only [DataCall.exec, hfetch, page, if_pos hpp]
  · obtain ⟨rfl, hregion, hsize⟩ := hpage hpp
    have hin := hkeeps.handle.inFile
    have hbytes := hin.bytesAt (n := nAmt.toInt.toNat) hoff hregion (by omega)
    have hlen : iOff.toInt.toNat + nAmt.toInt.toNat ≤ (k'.data f).length := by
      have := hin.size
      omega
    have hdata : k'.data f = k.data f := congrArg ByteFile.data hfile
    refine ⟨.page (some (readAt (k'.data f) iOff.toInt.toNat nAmt.toInt.toNat)) rc, id', k', ?_,
      hkeeps, hfile, ?_⟩
    · simp only [DataCall.exec, hfetch, page, if_neg hpp, hbytes, Option.bind_eq_bind,
        Option.bind_some, Option.pure_def]
    · rintro data h
      cases h
      rw [length_readAt, hdata]
      exact ⟨rfl, by rw [hdata] at hlen; omega⟩

theorem unfetch_does (hh : Handle p id f k) {isPage : Bool} :
    Does p rest f id k (.unfetch isPage) := by
  cases isPage with
  | true => exact ⟨.done sqliteOk, _, k, rfl, hh.same (.refl k) rfl rfl rfl rfl rfl, rfl⟩
  | false =>
    rcases hunmap : (mmapCalls p).unixUnmapfile id k with ⟨id', k'⟩
    obtain ⟨hkept, hdata, hid, hin⟩ := unixUnmapfile_spec hh.inFile hunmap
    obtain ⟨hkeeps, hfile⟩ := hh.remapped hkept hdata hid hin
    refine ⟨.done sqliteOk, id', k', ?_, hkeeps, hfile⟩
    simp [DataCall.exec, MmapCalls.unixUnfetch, hunmap]

/-! ## File controls -/

theorem setMmapSize_spec (hh : Handle p id f k) {newLimit : I64} {rc : CInt}
    (h : (fileControlCalls p rest).setMmapSize id newLimit k = (id', rc, k')) :
    Keeps p f k id' k' ∧ byteFile id' f k' = byteFile id f k := by
  rw [FileControlCalls.setMmapSize] at h
  dsimp only at h
  generalize (if (fileControlCalls p rest).mxMmap.toInt < newLimit.toInt then
    (fileControlCalls p rest).mxMmap else newLimit) = limit at h
  split at h
  · have hh' : Handle p { id with mmapSizeMax := limit } f k :=
      ⟨hh.opens, hh.inFile.region, hh.inFile.actual, hh.inFile.unmapped, hh.inFile.size⟩
    split at h
    · rcases hunmap : (mmapCalls p).unixUnmapfile { id with mmapSizeMax := limit } k with ⟨id₁, k₁⟩
      obtain ⟨hkept₁, hdata₁, hid₁, hin₁⟩ := unixUnmapfile_spec hh'.inFile hunmap
      obtain ⟨hkeeps₁, hfile₁⟩ := hh'.remapped hkept₁ hdata₁ hid₁ hin₁
      rcases hmap : (mmapCalls p).unixMapfile id₁ (-1) k₁ with ⟨rc₂, id₂, k₂⟩
      have hneg : (-1 : I64).toInt ≤ (k₁.data f).length := by
        rw [show (-1 : I64).toInt = -1 by decide]
        omega
      obtain ⟨hkept₂, hdata₂, hid₂, hin₂⟩ := unixMapfile_spec hkeeps₁.handle.opens hin₁ hneg hmap
      obtain ⟨hkeeps₂, hfile₂⟩ := hkeeps₁.handle.remapped hkept₂ hdata₂ hid₂ hin₂
      simp only [fileControlCalls, hunmap, hmap] at h
      cases h
      exact ⟨hkeeps₁.trans hkeeps₂, hfile₂.trans hfile₁⟩
    · cases h
      exact ⟨hh'.same (.refl k) rfl rfl rfl rfl rfl, rfl⟩
  · cases h
    exact ⟨hh.same (.refl k) rfl rfl rfl rfl rfl, rfl⟩

theorem step_other {s : ByteFile} {op : CInt} (h6 : op ≠ 6) (h5 : op ≠ 5) {pArg : List Byte}
    {obj : Option (List Byte)} {rc : CInt} :
    s.Step s (.fileControl op pArg) (.object obj rc) := by
  simp only [ByteFile.Step, if_neg h6, if_neg h5]

theorem fileControl_through {op : CInt} {pArg obj : List Byte} {rc : CInt}
    {case : List Byte → Option (UnixFile × List Byte × CInt × Kernel P F)}
    (hrun : ∀ pArg, (fileControlCalls p rest).unixFileControl id op pArg k =
      FileControlCalls.throughArg pArg case)
    (hcase : case pArg = some (id', obj, rc, k')) (hkeeps : Keeps p f k id' k')
    (hstep : (byteFile id f k).Step (byteFile id' f k') (.fileControl op pArg)
      (.object (some obj) rc)) : Does p rest f id k (.fileControl op pArg) := by
  refine ⟨.object (some obj) rc, id', k', ?_, hkeeps, hstep⟩
  simp only [DataCall.exec, hrun, FileControlCalls.throughArg, Option.bind_eq_bind,
    Option.bind_some, hcase, Option.pure_def]

theorem unixModeBit_spec (id : UnixFile) (mask : BitVec 16) {pArg : List Byte}
    (hlen : 4 ≤ pArg.length) :
    ∃ ctrlFlags obj, unixModeBit id mask pArg = some ({ id with ctrlFlags }, obj) := by
  have hstore : store pArg (if id.ctrlFlags &&& mask ≠ 0 then 1 else 0 : CInt) = _ :=
    store_eq _ hlen
  have hload : load CInt pArg = some (ofBytes (pArg.take (sizeof CInt))) := load_eq hlen
  simp only [unixModeBit, hload, hstore, Option.bind_eq_bind, Option.bind_some, Option.pure_def]
  split
  · exact ⟨_, _, rfl⟩
  · split <;> exact ⟨_, _, rfl⟩

theorem modeBit_does (hh : Handle p id f k) {op : CInt} {pArg : List Byte} {mask : BitVec 16}
    (hlen : 4 ≤ pArg.length) (h6 : op ≠ 6) (h5 : op ≠ 5)
    (hrun : ∀ pArg, (fileControlCalls p rest).unixFileControl id op pArg k =
      FileControlCalls.throughArg pArg (FileControlCalls.modeBit id k · mask)) :
    Does p rest f id k (.fileControl op pArg) := by
  obtain ⟨ctrlFlags, obj, hmode⟩ := unixModeBit_spec id mask hlen
  have hcase : FileControlCalls.modeBit id k pArg mask =
      some ({ id with ctrlFlags }, obj, sqliteOk, k) := by
    rw [FileControlCalls.modeBit, hmode]
    rfl
  exact fileControl_through hrun hcase (hh.same (.refl k) rfl rfl rfl rfl rfl) (step_other h6 h5)

theorem store_does (hh : Handle p id f k) (hsame : Kernel.Same k k') (hdata : k'.data = k.data)
    {op : CInt} {pArg : List Byte} {α : Type} [CType α] (x : α) (hlen : sizeof α ≤ pArg.length)
    (h6 : op ≠ 6) (h5 : op ≠ 5)
    {case : List Byte → Option (UnixFile × List Byte × CInt × Kernel P F)}
    (hrun : ∀ pArg, (fileControlCalls p rest).unixFileControl id op pArg k =
      FileControlCalls.throughArg pArg case)
    (hcase : ∀ obj, case obj = do return (id, ← store obj x, sqliteOk, k')) :
    Does p rest f id k (.fileControl op pArg) := by
  obtain ⟨hkeeps, hfile⟩ := hh.errno hsame hdata (.inl rfl)
  have hstored : case pArg = some (id, toBytes x ++ pArg.drop (sizeof α), sqliteOk, k') := by
    rw [hcase, store_eq x hlen]
    rfl
  refine fileControl_through hrun hstored hkeeps ?_
  rw [hfile]
  exact step_other h6 h5

theorem tempfilename_does (ha : Aside rest) (hh : Handle p id f k) {pArg : List Byte}
    (hlen : 8 ≤ pArg.length) : Does p rest f id k (.fileControl 16 pArg) := by
  obtain ⟨hsame, hdata⟩ := ha.tempname id k
  rcases htemp : rest.unixGetTempname id k with ⟨z, k'⟩
  rw [htemp] at hsame hdata
  obtain ⟨hkeeps, hfile⟩ := hh.errno hsame hdata (.inl rfl)
  have hrun : (fileControlCalls p rest).unixFileControl id 16 (some pArg) k =
      if z = 0 then some (id, some pArg, sqliteOk, k')
      else FileControlCalls.throughArg (some pArg) fun obj => do
        return (id, ← store obj z, sqliteOk, k') := by
    change (fileControlCalls p rest).tempfilename id (some pArg) k = _
    simp only [FileControlCalls.tempfilename, fileControlCalls, htemp]
  by_cases hz : z = 0
  · rw [if_pos hz] at hrun
    refine ⟨.object (some pArg) sqliteOk, id, k', ?_, hkeeps, ?_⟩
    · simp only [DataCall.exec, hrun, Option.bind_eq_bind, Option.bind_some, Option.pure_def]
    · rw [hfile]
      exact step_other (by decide) (by decide)
  · rw [if_neg hz] at hrun
    refine ⟨.object (some (toBytes z ++ pArg.drop (sizeof Ptr))) sqliteOk, id, k', ?_, hkeeps, ?_⟩
    · simp only [DataCall.exec, hrun, FileControlCalls.throughArg, store_eq z hlen,
        Option.bind_eq_bind, Option.bind_some, Option.pure_def]
    · rw [hfile]
      exact step_other (by decide) (by decide)

theorem chunkSize_does (hh : Handle p id f k) {pArg : List Byte} (hlen : 4 ≤ pArg.length) :
    Does p rest f id k (.fileControl 6 pArg) := by
  have hload : load CInt pArg = some (ofBytes (pArg.take (sizeof CInt))) := load_eq hlen
  have hcase : FileControlCalls.chunkSize id k pArg =
      some ({ id with szChunk := ofBytes (pArg.take (sizeof CInt)) }, pArg, sqliteOk, k) := by
    rw [FileControlCalls.chunkSize, hload]
    rfl
  exact fileControl_through (fun _ => rfl) hcase (hh.same (.refl k) rfl rfl rfl rfl rfl)
    ⟨_, hload, rfl⟩

theorem sizeHint_does (hh : Handle p id f k) {pArg : List Byte} (hlen : 8 ≤ pArg.length) :
    Does p rest f id k (.fileControl 5 pArg) := by
  have hload : load I64 pArg = some (ofBytes (pArg.take (sizeof I64))) := load_eq hlen
  rcases hhint : fcntlSizeHint p id (ofBytes (pArg.take (sizeof I64))) k with ⟨id', rc, k'⟩
  obtain ⟨n, ⟨hkept, hdata⟩, hmin, hchunk, hh', hszChunk, hin⟩ :=
    fcntlSizeHint_spec hh.opens hh.inFile hhint
  have hcase : (fileControlCalls p rest).sizeHint id k pArg = some (id', pArg, rc, k') := by
    simp only [FileControlCalls.sizeHint, hload, fileControlCalls, Option.bind_eq_bind,
      Option.bind_some, hhint, Option.pure_def]
  refine fileControl_through (fun _ => rfl) hcase (hh.update hkept hdata hh' hin)
    ⟨_, hload, n, ?_, hmin, hchunk⟩
  rw [byteFile, hdata, Function.update_self, hszChunk, byteFile]

theorem mmapSize_does (hh : Handle p id f k) {pArg : List Byte} (hlen : 8 ≤ pArg.length) :
    Does p rest f id k (.fileControl 18 pArg) := by
  have hload : load I64 pArg = some (ofBytes (pArg.take (sizeof I64))) := load_eq hlen
  rcases hset : (fileControlCalls p rest).setMmapSize id (ofBytes (pArg.take (sizeof I64))) k
    with ⟨id', rc, k'⟩
  obtain ⟨hkeeps, hfile⟩ := setMmapSize_spec hh hset
  have hstore : store pArg id.mmapSizeMax = _ := store_eq _ hlen
  have hcase : (fileControlCalls p rest).mmapSize id k pArg =
      some (id', toBytes id.mmapSizeMax ++ pArg.drop (sizeof I64), rc, k') := by
    simp only [FileControlCalls.mmapSize, hload, hstore, Option.bind_eq_bind, Option.bind_some,
      hset, Option.pure_def]
  refine fileControl_through (fun _ => rfl) hcase hkeeps ?_
  rw [hfile]
  exact step_other (by decide) (by decide)

theorem fileControl_does (ha : Aside rest) (hh : Handle p id f k) {op : CInt} {pArg : List Byte}
    (hlen : argLen op ≤ pArg.length) : Does p rest f id k (.fileControl op pArg) := by
  by_cases huses : usesArg op
  · rcases huses with rfl | rfl | rfl | rfl | rfl | rfl | rfl | rfl | rfl | rfl
    · exact store_does hh (.refl k) rfl (id.eFileLock.zeroExtend 32 : CInt) hlen (by decide)
        (by decide) (fun _ => rfl) fun _ => rfl
    · exact store_does hh (.refl k) rfl id.lastErrno hlen (by decide) (by decide) (fun _ => rfl)
        fun _ => rfl
    · exact chunkSize_does hh hlen
    · exact sizeHint_does hh hlen
    · exact modeBit_does hh hlen (by decide) (by decide) fun _ => rfl
    · exact modeBit_does hh hlen (by decide) (by decide) fun _ => rfl
    · exact store_does hh (ha.mprintf id k).1 (ha.mprintf id k).2 (rest.sqlite3Mprintf id k).1 hlen
        (by decide) (by decide) (fun _ => rfl) fun _ => rfl
    · exact tempfilename_does ha hh hlen
    · exact store_does hh (ha.moved id k).1 (ha.moved id k).2 (rest.fileHasMoved id k).1 hlen
        (by decide) (by decide) (fun _ => rfl) fun _ => rfl
    · exact mmapSize_does hh hlen
  · have hother := unixFileControl_other (fileControlCalls p rest) huses id (some pArg) k
    refine ⟨.object (some pArg) sqliteNotfound, id, k, ?_, hh.same (.refl k) rfl rfl rfl rfl rfl,
      step_other ?_ ?_⟩
    · simp only [DataCall.exec, hother, Option.bind_eq_bind, Option.bind_some, Option.pure_def]
    · rintro rfl
      exact huses (by decide)
    · rintro rfl
      exact huses (by decide)

/-! ## A run -/

theorem exec_does (ha : Aside rest) (hh : Handle p id f k) {c : DataCall} (hc : c.Permitted) :
    Does p rest f id k c := by
  cases c with
  | read n pBuf offset => exact read_does hh hc.1 hc.2
  | write pBuf offset => exact write_does hh hc.1 hc.2.1 hc.2.2
  | truncate nByte => exact truncate_does hh
  | fileSize pSize => exact fileSize_does hh
  | fileControl op pArg => exact fileControl_does ha hh hc
  | fetch iOff nAmt => exact fetch_does hh hc.1 hc.2.1 hc.2.2
  | unfetch isPage => exact unfetch_does hh

/-- One file, open as descriptor 3. The first write is interrupted, the next one is of one byte, and
there is room for two mappings. -/
def oneFile : Kernel Unit Unit where
  fd _ h := if h = 3 then some ⟨(), 0, true⟩ else none
  memory := .empty
  data _ := [1, 2, 3, 4]
  locks _ _ _ := none
  name _ := none
  unborn := []
  trouble := [.fine, .errno eintr, .fine, .short 1]
  statTrouble := []
  places := [1, 7]
  blksize := 512
  blksize_pos := by decide

def noCalls : FileControlCalls (Kernel Unit Unit) where
  toMmapCalls := mmapCalls ()
  fcntlSizeHint id _ k := (id, sqliteOk, k)
  sqlite3Mprintf _ k := (0, k)
  unixGetTempname _ k := (0, k)
  fileHasMoved _ k := (0, k)
  mxMmap := 4096

end Call

end UnixIo

end RemoteVfs
