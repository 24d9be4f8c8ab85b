import RemoteVfs.Disk

/-!
# Limits of the messages

A payload block has room for `MAX_SIZE` bytes and a path field for 511 bytes and
their NUL. Nothing compares a transfer or a name with them: what is longer leaves
a buffer on one side or the other.
-/

open CMem

namespace RemoteVfs

/-! ## Transfers -/

section Transfers

variable (A : Addresses) (id : UnixFile) (pBuf : List Byte) (amt : CInt) (offset : I64)

/-- `WrapWrite` decodes what `remoteWrite` was asked to write. -/
def WriteArrives : Prop :=
  ∀ garbage, ∃ argIn pBuf', (remoteWrite A id pBuf amt offset).argInChar = some argIn ∧
    unixWriteConvertCharToArgIn argIn (Buf.uninit garbage 8192) = some (id, pBuf', amt, offset) ∧
    pBuf'.read 0 (sizeT amt) = some pBuf

/-- `WrapRead` decodes what `remoteRead` was asked to read. -/
def ReadArrives : Prop :=
  ∀ garbage, ∃ argIn pBuf', (remoteRead A id pBuf amt offset).argInChar = some argIn ∧
    unixReadConvertCharToArgIn argIn (Buf.uninit garbage 8192) = some (id, pBuf', amt, offset) ∧
    pBuf'.read 0 (sizeT amt) = some pBuf

/-- `remoteRead` decodes what `WrapRead` has in its `pBuf`, and `rc`. -/
def ReadReturns : Prop :=
  ∀ (id' : UnixFile) (pBuf' : Buf 8192) (rc : CInt) (out : Buf (Op.returnSize .read)),
    ∃ outarg data, unixReadConvertReturnToChar id' pBuf' amt rc out = some outarg ∧
      pBuf'.read 0 (sizeT amt) = some data.val ∧
      (remoteRead A id pBuf amt offset).charToReturn outarg =
        some (setClientRemotePMethods A id', data, rc)

variable {A id pBuf amt offset}

/-- The server copies a payload into its local before anything looks at its size. -/
theorem unixRead_decoded_le {n : Nat} {argIn : Buf n} {local_ pBuf' : Buf 8192}
    (h : unixReadConvertCharToArgIn argIn local_ = some (id, pBuf', amt, offset)) :
    sizeT amt ≤ 8192 := by
  obtain ⟨id', -, h⟩ := Option.bind_eq_some_iff.mp h
  obtain ⟨amt', -, h⟩ := Option.bind_eq_some_iff.mp h
  obtain ⟨data, hdata, h⟩ := Option.bind_eq_some_iff.mp h
  obtain ⟨copied, hcopied, h⟩ := Option.bind_eq_some_iff.mp h
  obtain ⟨offset', -, h⟩ := Option.bind_eq_some_iff.mp h
  obtain ⟨-, -, rfl, -⟩ : id' = id ∧ copied = pBuf' ∧ amt' = amt ∧ offset' = offset := by
    simpa using h
  obtain ⟨hle, rfl⟩ := Buf.read_eq_some hdata
  have hroom := (Buf.write_eq_some hcopied).1
  rw [Buf.slice_length _ _ _ hle] at hroom
  omega

theorem unixRead_replied_le {n : Nat} {pBuf' : Buf 8192} {rc : CInt} {out outarg : Buf n}
    (h : unixReadConvertReturnToChar id pBuf' amt rc out = some outarg) : sizeT amt ≤ 8192 := by
  obtain ⟨arg, harg, -⟩ := Option.bind_eq_some_iff.mp h
  obtain ⟨_, -, harg⟩ := Option.bind_eq_some_iff.mp harg
  obtain ⟨data, hdata, -⟩ := Option.bind_eq_some_iff.mp harg
  have := (Buf.read_eq_some hdata).1
  omega

theorem readArrives (h : sizeT amt ≤ 8192) (hlen : pBuf.length = sizeT amt) :
    ReadArrives A id pBuf amt offset := by
  intro garbage
  have key := unixRead_request id (Buf.ofObject pBuf) amt offset
    (Buf.zeros (Op.argInSize .read)) (by decide) h hlen.ge (Buf.uninit garbage 8192)
  obtain ⟨argIn, hargIn, hdec⟩ := Option.bind_eq_some_iff.mp key
  have hdata : (Buf.ofObject pBuf).slice 0 (sizeT amt) = pBuf := by
    rw [Buf.slice, List.drop_zero, ← hlen]
    exact List.take_length
  rw [hdata] at hdec
  exact ⟨argIn, _, hargIn, hdec, by
    rw [← hlen]
    exact ArgIn.read_uninit garbage pBuf (by omega)⟩

theorem readReturns (h : sizeT amt ≤ 8192) (hlen : pBuf.length = sizeT amt) :
    ReadReturns A id pBuf amt offset := by
  intro id' pBuf' rc out
  have key := unixRead_reply A id' pBuf' amt rc out (by decide) h h (Buf.ofObject pBuf) hlen.ge
  obtain ⟨outarg, hout, hret⟩ := Option.bind_eq_some_iff.mp key
  have hlen' := Buf.slice_length pBuf' 0 (sizeT amt) (by omega)
  have hval : ((Buf.ofObject pBuf).splice 0 (pBuf'.slice 0 (sizeT amt))).val =
      pBuf'.slice 0 (sizeT amt) := by
    rw [Reply.splice_ofObject _ _ (by omega)]
    rw [hlen', ← hlen, List.drop_length, List.append_nil]
  exact ⟨outarg, _, hout, by rw [Buf.read_eq _ (by omega), hval], hret⟩

variable (A id pBuf amt offset) in
/-- Transfers of more than `MAX_SIZE` bytes do not fit, in any of the three messages. -/
theorem transfer_arrives_iff (hpos : 1 ≤ amt.toInt) (hlen : pBuf.length = amt.toInt) :
    (WriteArrives A id pBuf amt offset ↔ amt.toInt ≤ maxSize) ∧
    (ReadArrives A id pBuf amt offset ↔ amt.toInt ≤ maxSize) ∧
    (ReadReturns A id pBuf amt offset ↔ amt.toInt ≤ maxSize) := by
  have hsize := ArgIn.sizeT_of_length (by omega) hlen
  have hfits : sizeT amt ≤ 8192 ↔ amt.toInt ≤ maxSize := by
    simp only [maxSize_eq, Nat.cast_ofNat]
    omega
  have harrives : ReadArrives A id pBuf amt offset ↔ amt.toInt ≤ maxSize := by
    refine ⟨fun h => ?_, fun h => readArrives (hfits.mpr h) hsize.symm⟩
    obtain ⟨argIn, pBuf', -, hdec, -⟩ := h fun _ => 0
    exact hfits.mp (unixRead_decoded_le hdec)
  refine ⟨harrives, harrives, fun h => ?_, fun h => readReturns (hfits.mpr h) hsize.symm⟩
  obtain ⟨outarg, data, hout, -⟩ := h id (Buf.zeros 8192) 0 (Buf.zeros _)
  exact hfits.mp (unixRead_replied_le hout)

theorem transfer_arrives_iff_three :
    WriteArrives Addresses.flat UnixFile.zero [7, 0, 9] 3 4096 :=
  (transfer_arrives_iff Addresses.flat UnixFile.zero [7, 0, 9] 3 4096 (by decide)
    (by decide)).1.mpr (by decide)

/-- One page of 16384 bytes. -/
theorem transfer_too_long :
    ¬ WriteArrives Addresses.flat UnixFile.zero (List.replicate 16384 0) 16384 0 := by
  intro h
  obtain ⟨argIn, pBuf', -, hdec, -⟩ := h fun _ => 0
  exact absurd (unixRead_decoded_le hdec) (by decide)

end Transfers

/-! ## Path names -/

section Paths

variable {OS : Type} (fns : UnixFns OS) (A : Addresses) (zPath p : List Byte)

/-- `WrapOpen` decodes the name, and all the rest as it was sent. Afterwards the table
has the name for the descriptor in the image, and for the others what it had. -/
def OpenArrives (pFile : UnixFile) (flags : CInt) (pOutFlags : Option CInt) (s : Server OS) :
    Prop :=
  ∀ garbage out, ∃ argIn path outarg s',
    (remoteOpen A (some zPath) pFile flags pOutFlags).argInChar = some argIn ∧
    unixOpenConvertCharToArgIn argIn (Buf.uninit garbage 512) =
      some (path, pFile, flags, pOutFlags.getD (-1)) ∧
    cstr path.val = some p ∧
    wrapOpen fns A garbage argIn out s = some ((outarg : Buf (Op.returnSize .open_)), s') ∧
    s'.table.Valid ∧ ∃ fd method, s'.table.Holds fd method p ∧
      fd = (openOn fns pFile p flags
        (if pOutFlags.getD (-1) = -1 then none else some (pOutFlags.getD (-1))) s.os).image.h ∧
      ∀ fd' ≠ fd, s'.table.lookup fd' = s.table.lookup fd'

def DeleteArrives (dirSync : CInt) : Prop :=
  ∀ garbage, ∃ argIn path, (remoteDelete zPath dirSync).argInChar = some argIn ∧
    unixDeleteConvertCharToArgIn argIn (Buf.uninit garbage 512) = some (path, dirSync) ∧
    cstr path.val = some p

def AccessArrives (flags resOut : CInt) : Prop :=
  ∀ garbage, ∃ argIn path, (remoteAccess zPath flags resOut).argInChar = some argIn ∧
    unixAccessConvertCharToArgIn argIn (Buf.uninit garbage 512) = some (path, flags, resOut) ∧
    cstr path.val = some p

variable {fns A zPath p} (hz : cstr zPath = some p)
include hz

/-- A name of 512 bytes or more has no NUL in the path field of the request: what follows
the field has overwritten it. -/
theorem strcpy_short {n : Nat} {arg arg₁ arg' : Buf n} (h : arg.strcpy zPath = some arg₁)
    (hframe : arg'.slice 0 512 = arg₁.slice 0 512) {path path' : Buf 512}
    (hdec : path.strcpy arg'.val = some path') : p.length ≤ 511 := by
  obtain ⟨q, hq, rfl⟩ := Buf.strcpy_eq_some.mp h
  obtain ⟨hq, hlt⟩ := cstr_take.mp hq
  obtain rfl := Option.some.inj (hz.symm.trans hq)
  by_contra hlong
  have hfield : arg'.val.take 512 = p.take 512 := by
    rw [Buf.slice_splice_prefix arg _ (by simp; omega) (by simp; omega),
      List.take_append_of_le_length (by omega)] at hframe
    simpa [Buf.slice] using hframe
  have hnone : path.strcpy arg'.val = none := by
    refine Buf.strcpy_eq_none path ?_
    rw [hfield]
    exact fun h0 => (cstr_eq_some hz).1 (List.mem_of_mem_take h0)
  rw [hnone] at hdec
  cases hdec

theorem open_short {pFile : UnixFile} {flags : CInt} {pOutFlags : Option CInt}
    {argIn : Buf (Op.argInSize .open_)} {path path' : Buf 512} {r : UnixFile × CInt × CInt}
    (hargIn : (remoteOpen A (some zPath) pFile flags pOutFlags).argInChar = some argIn)
    (hdec : unixOpenConvertCharToArgIn argIn path = some (path', r)) : p.length ≤ 511 := by
  obtain ⟨arg₁, harg₁, hargIn⟩ := Option.bind_eq_some_iff.mp hargIn
  obtain ⟨arg₂, harg₂, hargIn⟩ := Option.bind_eq_some_iff.mp hargIn
  obtain ⟨arg₃, harg₃, hargIn⟩ := Option.bind_eq_some_iff.mp hargIn
  obtain ⟨copied, hcopied, -⟩ := Option.bind_eq_some_iff.mp hdec
  refine strcpy_short hz harg₁ ?_ hcopied
  rw [Buf.slice_of_put hargIn (.inl (by decide)), Buf.slice_of_put harg₃ (.inl (by decide)),
    Buf.slice_of_put harg₂ (.inl (by decide))]

theorem openArrives_iff {s : Server OS} (hv : s.table.Valid) (pFile : UnixFile) (flags : CInt)
    (pOutFlags : Option CInt) :
    OpenArrives fns A zPath p pFile flags pOutFlags s ↔ p.length ≤ 511 := by
  have h0 := (cstr_eq_some hz).1
  refine ⟨fun h => ?_, fun hp garbage out => ?_⟩
  · obtain ⟨argIn, path, -, -, hargIn, hdec, -⟩ := h (fun _ => 0) (Buf.zeros _)
    exact open_short hz hargIn hdec
  · obtain ⟨argIn, hargIn, hdec⟩ := Option.bind_eq_some_iff.mp
      (unixOpen_request hz hp pFile flags pOutFlags (Buf.zeros (Op.argInSize .open_)) (by decide)
        (Buf.uninit garbage 512))
    have hpath := Buf.cstr_splice (Buf.uninit garbage 512) h0 (Nat.succ_le_succ hp)
    obtain ⟨t', hvt, hholds, hother, hwrap⟩ := wrapOpen_decoded fns A (m := Op.returnSize .open_)
      (n := Op.argInSize .open_) hv h0 hp (openOn fns pFile p flags
        (if pOutFlags.getD (-1) = -1 then none else some (pOutFlags.getD (-1))) s.os)
    have hserve := hwrap garbage argIn _ pFile flags _ hdec hpath rfl out
    obtain ⟨outarg, hout, -⟩ := Option.bind_eq_some_iff.mp
      (returnImageOutRc_put A (Opened.file A _) _ _ out
        (show 124 + sizeof CInt ≤ Op.returnSize .open_ by decide))
    rw [unixOpenConvertReturnToChar, hout, Option.map_some] at hserve
    exact ⟨argIn, _, _, _, hargIn, hdec, hpath, hserve, hvt, _, _, hholds, rfl, hother⟩

theorem deleteArrives_iff (dirSync : CInt) : DeleteArrives zPath p dirSync ↔ p.length ≤ 511 := by
  refine ⟨fun h => ?_, fun hp garbage => ?_⟩
  · obtain ⟨argIn, path, hargIn, hdec, -⟩ := h fun _ => 0
    obtain ⟨arg₁, harg₁, hargIn⟩ := Option.bind_eq_some_iff.mp hargIn
    obtain ⟨path', hpath', -⟩ := Option.bind_eq_some_iff.mp hdec
    exact strcpy_short hz harg₁ (Buf.slice_of_put hargIn (.inl (by decide))) hpath'
  · obtain ⟨argIn, hargIn, hdec⟩ := Option.bind_eq_some_iff.mp
      (unixDelete_request hz hp dirSync (Buf.zeros (Op.argInSize .delete)) (by decide)
        (Buf.uninit garbage 512))
    exact ⟨argIn, _, hargIn, hdec,
      Buf.cstr_splice _ (cstr_eq_some hz).1 (Nat.succ_le_succ hp)⟩

theorem accessArrives_iff (flags resOut : CInt) :
    AccessArrives zPath p flags resOut ↔ p.length ≤ 511 := by
  refine ⟨fun h => ?_, fun hp garbage => ?_⟩
  · obtain ⟨argIn, path, hargIn, hdec, -⟩ := h fun _ => 0
    obtain ⟨arg₁, harg₁, hargIn⟩ := Option.bind_eq_some_iff.mp hargIn
    obtain ⟨arg₂, harg₂, hargIn⟩ := Option.bind_eq_some_iff.mp hargIn
    obtain ⟨path', hpath', -⟩ := Option.bind_eq_some_iff.mp hdec
    refine strcpy_short hz harg₁ ?_ hpath'
    rw [Buf.slice_of_put hargIn (.inl (by decide)), Buf.slice_of_put harg₂ (.inl (by decide))]
  · obtain ⟨argIn, hargIn, hdec⟩ := Option.bind_eq_some_iff.mp
      (unixAccess_request hz hp flags resOut (Buf.zeros (Op.argInSize .access)) (by decide)
        (Buf.uninit garbage 512))
    exact ⟨argIn, _, hargIn, hdec,
      Buf.cstr_splice _ (cstr_eq_some hz).1 (Nat.succ_le_succ hp)⟩

variable (fns A) in
/-- A name of 512 bytes arrives nowhere, though `mxPathname` admits it. -/
theorem path_arrives_iff {s : Server OS} (hv : s.table.Valid) (pFile : UnixFile)
    (flags dirSync resOut : CInt) (pOutFlags : Option CInt) :
    (OpenArrives fns A zPath p pFile flags pOutFlags s ↔ p.length ≤ 511) ∧
    (DeleteArrives zPath p dirSync ↔ p.length ≤ 511) ∧
    (AccessArrives zPath p flags resOut ↔ p.length ≤ 511) :=
  ⟨openArrives_iff hz hv pFile flags pOutFlags, deleteArrives_iff hz dirSync,
    accessArrives_iff hz flags resOut⟩

omit hz

theorem path_arrives_iff_short :
    OpenArrives Disk.fns Addresses.flat [97, 0] [97] UnixFile.zero 0x106 none
      ⟨Disk.table, ⟨[], 3⟩⟩ :=
  (path_arrives_iff Disk.fns Addresses.flat (by decide) (.inl rfl) UnixFile.zero 0x106 0 0
    none).1.mpr (by decide)

/-- A journal of 512 bytes that is to be deleted. -/
theorem path_too_long :
    ¬ DeleteArrives (List.replicate 512 97 ++ [0]) (List.replicate 512 97) 0 := by
  have h0 : (0 : Byte) ∉ List.replicate 512 97 :=
    fun h => absurd (List.eq_of_mem_replicate h) (by decide)
  rw [deleteArrives_iff (cstr_append _ [] h0), List.length_replicate]
  decide

end Paths

end RemoteVfs
