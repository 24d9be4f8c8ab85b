import RemoteVfs.FileName
import RemoteVfs.Malformed
import RemoteVfs.Memory.Coverage

/-!
# What a reply shows of the memory of the server

The handler sends all of `out_struct`. What the wrapper did not write, and what it
copied out of a local that the request did not fill, is whatever the memory held.
-/

open CMem

namespace RemoteVfs

/-! ## What the converters write -/

section Converters

variable {m k : Nat} {id : UnixFile} {rc amt : CInt} {α : Type} [CType α] {x : α}

theorem writes_imageAnd : Writes (putImageAnd (n := m) id x) (Set.Ico 0 (120 + sizeof α)) := by
  refine ((Writes.put 0 id).bind (Writes.put sizeUnixFile x)).of_iff fun i => ?_
  simp

theorem writes_outRc :
    Writes (putImageOutRc (n := m) id x rc) (Set.Ico 0 (124 + sizeof α)) := by
  refine (writes_imageAnd.bind (Writes.put (sizeUnixFile + sizeof α) rc)).of_iff fun i => ?_
  simp
  omega

theorem writes_slice {pBuf : Buf k} {off len : Nat} :
    Writes (fun b : Buf m => (pBuf.read 0 len).bind fun data => b.write off data)
      (Set.Ico off (off + len)) := by
  refine Writes.of_bind fun data hdata => ?_
  obtain ⟨hle, rfl⟩ := Buf.read_eq_some hdata
  have hwrite := Writes.write (n := m) off (pBuf.slice 0 len)
  rw [Buf.slice_length _ _ _ hle] at hwrite
  exact hwrite

theorem writes_read {pBuf : Buf k} : Writes (unixReadConvertReturnToChar (n := m) id pBuf amt rc)
    (Set.Ico 0 (120 + sizeT amt) ∪ Set.Ico 8312 8316) := by
  have hpayload : Writes (putPayload (n := m) id pBuf amt) (Set.Ico 0 (120 + sizeT amt)) := by
    refine ((Writes.put 0 id).bind writes_slice).of_iff fun i => ?_
    simp
  exact hpayload.bind (Writes.put (sizeUnixFile + maxSize) rc)

theorem writes_write : Writes (unixWriteConvertReturnToChar (n := m) id rc)
    (Set.Ico 0 120 ∪ Set.Ico 8312 8316) :=
  (Writes.put 0 id).bind (Writes.put (sizeUnixFile + maxSize) rc)

/-- The image, `size` bytes of the block of 512, and two numbers. -/
def controlBytes (size : CInt) : Set Nat :=
  Set.Ico 0 (120 + if 0 < size.toInt then sizeT size else 0) ∪ Set.Ico 632 640

theorem writes_fileControl {pArg : Buf k} {size : CInt} :
    Writes (fun b : Buf m => unixFileControlConvertReturnToChar id pArg rc b size)
      (controlBytes size) := by
  have hrc := Writes.put (n := m) (sizeUnixFile + 512) rc
  have harg : Writes (fun b : Buf m => if 0 < size.toInt then
      (pArg.read 0 (sizeT size)).bind fun data =>
        (b.write sizeUnixFile data).bind fun b => b.put (sizeUnixFile + 512) rc
      else (some b).bind fun b => b.put (sizeUnixFile + 512) rc)
      (Set.Ico 120 (120 + if 0 < size.toInt then sizeT size else 0) ∪ Set.Ico 632 636) := by
    split_ifs
    · simp only [← Option.bind_assoc]
      exact writes_slice.bind hrc
    · refine hrc.of_iff fun i => ?_
      simp
  refine ((Writes.put (sizeUnixFile + 512 + sizeof CInt) size).bind
    ((Writes.put 0 id).bind harg)).of_iff fun i => ?_
  simp [controlBytes]
  omega

theorem writes_fullPathname {zOut : Buf k} {nOut : CInt} {p : List Byte}
    (hp : cstr zOut.val = some p) :
    Writes (unixFullPathnameConvertReturnToChar (n := m) nOut zOut rc)
      (Set.Ico 0 (p.length + 1) ∪ Set.Ico (sizeT nOut) (sizeT nOut + 4)) :=
  (Writes.strcpy hp).bind (Writes.put (sizeT nOut) rc)

end Converters

/-! ## Executions that differ in uninitialised memory -/

/-- `SQLITE_OPEN_URI` -/
def openUri : CInt := 0x40

/-- `unixOpen`. With `SQLITE_OPEN_URI` it asks `sqlite3_uri_parameter` for parameters. -/
abbrev OpenFn (OS : Type) :=
  UnixFile → List Byte → Option (List Byte → Option Path) → CInt → Option CInt → OS → Opened OS

variable {OS : Type} (fns : UnixFns OS) (unixOpen : OpenFn OS) (A : Addresses) {n outlen : Nat}

/-- The functions, with `unixOpen` on a name that has these parameters. -/
def UnixFns.opening (parameter : List Byte → Option Path) : UnixFns OS :=
  { fns with
    unixOpen := fun id zName flags pOutFlags os =>
      let found := if flags &&& openUri = 0 then none else some parameter
      unixOpen id zName found flags pOutFlags os }

/-- The functions, with `unixOpen` on the local `path` of `WrapOpen`. -/
def UnixFns.openingAt (path : Buf 512) : UnixFns OS :=
  fns.opening unixOpen (sqlite3UriParameter (some path.val))

/-- `path` after the request is unpacked. -/
def localPath (garbage : Nat → Byte) (argIn : Buf n) : Buf 512 :=
  let path := Buf.uninit garbage 512
  (path.strcpy argIn.val).getD path

/-- The `outarg` of a reply. The locals of the wrapper and the blocks that it allocates hold
`garbage` at first. -/
def reply (op : Op) (argIn : Buf n) (s : Server OS) (garbage : Nat → Byte)
    (outStruct : Buf outlen) : Option (Buf outlen) :=
  (serve (fns.openingAt unixOpen (localPath garbage argIn)) A garbage op argIn outStruct s).map
    Prod.fst

/-- The reply is the same over any two contents of the uninitialised memory. -/
def DisclosesNothing (op : Op) (argIn : Buf n) (outlen : Nat) (s : Server OS) : Prop :=
  ∀ garbage garbage' (outStruct outStruct' : Buf outlen),
    reply fns unixOpen A op argIn s garbage outStruct =
      reply fns unixOpen A op argIn s garbage' outStruct'

/-- `outlen` is the length of the operation's reply. -/
def ReplyLength (op : Op) (argIn : Buf n) (outlen : Nat) : Prop :=
  match op with
  | .fullPathname => ∀ nOut, getFullPathnameOutLen argIn = some nOut → outlen = sizeT nOut + 4
  | op => outlen = op.returnSize

/-- A request that is answered, on a descriptor of the table if it is on a file. -/
structure WellFormed (op : Op) (argIn : Buf n) (outlen : Nat) (s : Server OS) : Prop where
  length : ReplyLength op argIn outlen
  known : Known op argIn s.table
  answered : ∃ garbage, ∃ outStruct : Buf outlen,
    (reply fns unixOpen A op argIn s garbage outStruct).isSome

/-! ## The condition -/

/-- What an Open puts into its reply. -/
def openValues (id : UnixFile) (zName : List Byte) (flags outFlags : CInt) (os : OS)
    (parameter : List Byte → Option Path) : UnixFile × CInt × CInt :=
  let r := openOn (fns.opening unixOpen parameter) id zName flags
    (if outFlags = -1 then none else some outFlags) os
  (r.file A, if outFlags = -1 then outFlags else r.outFlags.getD outFlags, r.rc)

/-- What `sqlite3_uri_parameter` may find behind a name in a buffer of 512 bytes. -/
def Findable (zName : List Byte) (parameter : List Byte → Option Path) : Prop :=
  ∃ path : Buf 512, cstr path.val = some zName ∧ sqlite3UriParameter (some path.val) = parameter

/-- Every byte of the reply is one that the wrapper writes, and none of them comes from what it
did not write. -/
def Covered (op : Op) (argIn : Buf n) (s : Server OS) : Prop :=
  match op with
  -- The payload block, the padding of the struct, the image.
  | .write | .fileSize | .close => False
  | .read => ∀ amt, argIn.get CInt (sizeUnixFile + maxSize) = some amt → maxSize ≤ sizeT amt
  | .fetch => ∀ nAmt, argIn.get CInt (sizeUnixFile + sizeof I64) = some nAmt →
    maxSize ≤ sizeT nAmt
  | .fileControl =>
    (∀ size, argIn.get CInt (sizeUnixFile + sizeof CInt + 512) = some size → size = 512) ∧
    ControlMeasures fns (· = 512) argIn s
  | .open_ => ∀ zPath id flags outFlags zName,
    unixOpenConvertCharToArgIn argIn (Buf.zeros 512) = some (zPath, id, flags, outFlags) →
    cstr zPath.val = some zName → flags &&& openUri = 0 ∨
      ∀ parameter parameter', Findable zName parameter → Findable zName parameter' →
        openValues fns unixOpen A id zName flags outFlags s.os parameter =
          openValues fns unixOpen A id zName flags outFlags s.os parameter'
  | .fullPathname => ∀ nOut path, getFullPathnameOutLen argIn = some nOut →
    cstr (argIn.val.drop 4) = some path → ∃ p rc, p.length + 1 = sizeT nOut ∧
      ∀ zOut : Buf (sizeT nOut), cstr (fns.unixFullPathname path zOut s.os).1.val = some p ∧
        (fns.unixFullPathname path zOut s.os).2.1 = rc
  | _ => True

variable {fns unixOpen A} {s : Server OS} {argIn : Buf n} {op : Op}

theorem reply_eq (hop : op ≠ .open_) (garbage : Nat → Byte) (outStruct : Buf outlen) :
    reply fns unixOpen A op argIn s garbage outStruct =
      (serve fns A garbage op argIn outStruct s).map Prod.fst := by
  cases op with
  | open_ => exact absurd rfl hop
  | _ => rfl

/-- A byte that is not written shows what was in `out_struct`. -/
theorem DisclosesNothing.cover (h : DisclosesNothing fns unixOpen A op argIn outlen s)
    {garbage : Nat → Byte} {f : Buf outlen → Option (Buf outlen)}
    (hreply : ∀ out, reply fns unixOpen A op argIn s garbage out = f out) {I : Set Nat}
    (hw : Writes f I) {outStruct : Buf outlen} (hsome : (f outStruct).isSome) :
    ∀ i < outlen, i ∈ I :=
  hw.cover_of_const hsome fun out out' => by
    rw [← hreply, ← hreply]
    exact h garbage garbage out out'

theorem disclosesNothing_iff_cover {f : Buf outlen → Option (Buf outlen)}
    (hreply : ∀ garbage out, reply fns unixOpen A op argIn s garbage out = f out) {I : Set Nat}
    (hw : Writes f I) (hr : WellFormed fns unixOpen A op argIn outlen s) :
    DisclosesNothing fns unixOpen A op argIn outlen s ↔ ∀ i < outlen, i ∈ I := by
  constructor
  · intro h
    obtain ⟨garbage, outStruct, hsome⟩ := hr.answered
    exact h.cover (hreply garbage) hw (hreply garbage outStruct ▸ hsome)
  · intro hcover garbage garbage' outStruct outStruct'
    rw [hreply, hreply]
    exact hw.const hcover outStruct outStruct'

/-! ## The operations on a file -/

theorem writes_wrapFile {α β : Type} (hs : s.table.Sound A) {decoded : Option (UnixFile × α)}
    (hknown : ∀ x, decoded = some x → (s.table.lookup x.1.h).isSome)
    {method : UnixFile → Path → α → OS → Option (UnixFile × β × OS)}
    {returnToChar : UnixFile → β → Buf outlen → Option (Buf outlen)} {I : Set Nat}
    (hret : ∀ id args g ret os, decoded = some (id, args) →
      method id.core (s.table.pathOf id.h) args s.os = some (g, ret, os) →
      ∀ id', Writes (returnToChar id' ret) I) :
    Writes (fun out => (wrapFile fns A decoded method returnToChar out s).map Prod.fst) I := by
  cases hdec : decoded with
  | none => exact Writes.of_bind (x := (none : Option Unit)) (f := fun _ _ => none) nofun
  | some x =>
    obtain ⟨image, hwrap⟩ := @wrapFile_known _ fns _ _ hs _ (hknown x hdec)
    have heq : (fun out => (wrapFile fns A (some x) method returnToChar out s).map Prod.fst) =
        fun out => (method x.1.core (s.table.pathOf x.1.h) x.2 s.os).bind fun y =>
          returnToChar (image y.1) y.2.1 out := funext (hwrap x.2 method returnToChar)
    rw [heq]
    exact Writes.of_bind fun y hy => hret x.1 x.2 y.1 y.2.1 y.2.2 hdec hy (image y.1)

theorem exists_decoded {α β : Type} {decoded : Option (UnixFile × α)}
    {method : UnixFile → Path → α → OS → Option (UnixFile × β × OS)}
    {returnToChar : UnixFile → β → Buf outlen → Option (Buf outlen)} {out : Buf outlen}
    (h : ((wrapFile fns A decoded method returnToChar out s).map Prod.fst).isSome) :
    ∃ x, decoded = some x := by
  rw [Option.isSome_map] at h
  obtain ⟨x, hx, -⟩ := isSome_bind_iff.mp h
  exact ⟨x, hx⟩

theorem readRequest_full {amt : CInt} (hamt : argIn.get CInt (sizeUnixFile + maxSize) = some amt)
    (hfull : maxSize ≤ sizeT amt) (pBuf pBuf' : Buf 8192) :
    unixReadConvertCharToArgIn argIn pBuf = unixReadConvertCharToArgIn argIn pBuf' := by
  rw [maxSize_eq] at hfull
  unfold unixReadConvertCharToArgIn
  rw [hamt]
  simp only [Option.bind_eq_bind, Option.bind_some]
  congr 1
  funext id
  exact Writes.copy_full hfull _ pBuf pBuf'

theorem nAmt_of_decoded {id : UnixFile} {iOff : I64} {nAmt : CInt}
    (h : unixFetchConvertCharToArgIn argIn = some (id, iOff, nAmt)) :
    argIn.get CInt (sizeUnixFile + sizeof I64) = some nAmt := by
  obtain ⟨x, -, h⟩ := Option.bind_eq_some_iff.mp h
  obtain ⟨nAmt', hnAmt, h⟩ := Option.bind_eq_some_iff.mp h
  simp only [Option.pure_def, Option.some.injEq, Prod.mk.injEq] at h
  rw [hnAmt, h.2.2]

theorem cover_payload (hlen : outlen = 8316) {k : Nat} :
    (∀ i < outlen, i ∈ Set.Ico 0 (120 + k) ∪ Set.Ico 8312 8316) ↔ maxSize ≤ k := by
  rw [maxSize_eq]
  constructor
  · intro h
    have hlast := h 8311 (by omega)
    simp at hlast
    omega
  · intro hk i hi
    simp
    omega

theorem disclosesNothing_direct {α β : Type} (hs : s.table.Sound A)
    (hr : WellFormed fns unixOpen A op argIn outlen s) (hop : op.OnFile)
    (hclose : op ≠ .close) {charToArgIn : Buf n → Option (UnixFile × α)}
    (htakes : TakesImage charToArgIn) {f : UnixFile → Path → α → OS → UnixFile × β × OS}
    {returnToChar : UnixFile → β → Buf outlen → Option (Buf outlen)} {I : Set Nat}
    (hserve : ∀ garbage, serve fns A garbage op argIn =
      wrapFile fns A (charToArgIn argIn) (direct f) returnToChar)
    (hret : ∀ id args ret, charToArgIn argIn = some (id, args) →
      (∃ id' zPath os, ret = (f id' zPath args os).2.1) →
      ∀ id', Writes (returnToChar id' ret) I) :
    DisclosesNothing fns unixOpen A op argIn outlen s ↔ ∀ i < outlen, i ∈ I := by
  have hopen : op ≠ .open_ := by
    rintro rfl
    exact hop
  have hw : Writes (fun out => (wrapFile fns A (charToArgIn argIn) (direct f) returnToChar
      out s).map Prod.fst) I := by
    refine writes_wrapFile hs (hr.known.decoded hop hclose htakes)
      fun id args g ret os hdec hf => hret id args ret hdec ⟨id.core, s.table.pathOf id.h, s.os, ?_⟩
    rw [Option.some.inj hf]
  refine disclosesNothing_iff_cover (fun garbage out => ?_) hw hr
  rw [reply_eq hopen, hserve]

section EachOperation

variable (hs : s.table.Sound A)
include hs

theorem disclosesNothing_imageAndInt (hop : op = .truncate ∨ op = .sync ∨ op = .sectorSize ∨
    op = .deviceCharacteristics ∨ op = .lock ∨ op = .unlock ∨ op = .unfetch)
    (hr : WellFormed fns unixOpen A op argIn outlen s) :
    DisclosesNothing fns unixOpen A op argIn outlen s := by
  have hcover : outlen = 124 → ∀ i < outlen, i ∈ Set.Ico 0 (120 + sizeof CInt) := by
    rintro rfl i hi
    exact ⟨Nat.zero_le i, hi⟩
  have hlen := hr.length
  rcases hop with rfl | rfl | rfl | rfl | rfl | rfl | rfl
  · exact (disclosesNothing_direct hs hr trivial nofun takesImage_getImageAnd (fun _ => rfl)
      (fun _ _ _ _ _ _ => writes_imageAnd)).mpr (hcover hlen)
  · exact (disclosesNothing_direct hs hr trivial nofun takesImage_getImageAnd (fun _ => rfl)
      (fun _ _ _ _ _ _ => writes_imageAnd)).mpr (hcover hlen)
  · exact (disclosesNothing_direct hs hr trivial nofun takesImage_unit (fun _ => rfl)
      (fun _ _ _ _ _ _ => writes_imageAnd)).mpr (hcover hlen)
  · exact (disclosesNothing_direct hs hr trivial nofun takesImage_unit (fun _ => rfl)
      (fun _ _ _ _ _ _ => writes_imageAnd)).mpr (hcover hlen)
  · exact (disclosesNothing_direct hs hr trivial nofun takesImage_getImageAnd (fun _ => rfl)
      (fun _ _ _ _ _ _ => writes_imageAnd)).mpr (hcover hlen)
  · exact (disclosesNothing_direct hs hr trivial nofun takesImage_getImageAnd (fun _ => rfl)
      (fun _ _ _ _ _ _ => writes_imageAnd)).mpr (hcover hlen)
  · exact (disclosesNothing_direct hs hr trivial nofun takesImage_fetch (fun _ => rfl)
      (fun _ _ _ _ _ _ => writes_imageAnd)).mpr (hcover hlen)

theorem disclosesNothing_checkReservedLock
    (hr : WellFormed fns unixOpen A .checkReservedLock argIn outlen s) :
    DisclosesNothing fns unixOpen A .checkReservedLock argIn outlen s := by
  have hserve : ∀ garbage, serve (m := outlen) fns A garbage .checkReservedLock argIn =
      wrapFile fns A (getImageAnd CInt argIn) (direct fns.unixCheckReservedLock)
        fun id ret => putImageOutRc id ret.1 ret.2 := fun _ => rfl
  have hlen : outlen = 128 := hr.length
  refine (disclosesNothing_direct hs hr trivial nofun takesImage_getImageAnd hserve
    fun _ _ _ _ _ _ => writes_outRc).mpr fun i hi => ⟨Nat.zero_le i, ?_⟩
  simp
  omega

/-- Behind the result code there are four bytes of padding. -/
theorem discloses_fileSize (hr : WellFormed fns unixOpen A .fileSize argIn outlen s) :
    ¬ DisclosesNothing fns unixOpen A .fileSize argIn outlen s := by
  have hserve : ∀ garbage, serve (m := outlen) fns A garbage .fileSize argIn =
      wrapFile fns A (getImageAnd I64 argIn) (direct fns.unixFileSize)
        fun id ret => putImageOutRc id ret.1 ret.2 := fun _ => rfl
  have hlen : outlen = 136 := hr.length
  intro h
  have hcover := (disclosesNothing_direct hs hr trivial nofun takesImage_getImageAnd hserve
    fun _ _ _ _ _ _ => writes_outRc).mp h
  have hpad := (hcover 132 (by omega)).2
  simp at hpad

/-- The payload block of the reply to a Write is not written. -/
theorem discloses_write (hr : WellFormed fns unixOpen A .write argIn outlen s) :
    ¬ DisclosesNothing fns unixOpen A .write argIn outlen s := by
  have hlen : outlen = 8316 := hr.length
  obtain ⟨garbage, outStruct, hsome⟩ := hr.answered
  intro h
  have hdec := hr.known.decoded trivial nofun (takesImage_read (Buf.uninit garbage 8192))
  have hw : Writes (fun out : Buf outlen => (wrapWrite fns A garbage argIn out s).map Prod.fst)
      (Set.Ico 0 120 ∪ Set.Ico 8312 8316) :=
    writes_wrapFile hs hdec fun _ _ _ _ _ _ _ _ => writes_write
  have hbyte := h.cover (fun _ => rfl) hw hsome 120 (by omega)
  simp at hbyte

theorem disclosesNothing_fetch (hr : WellFormed fns unixOpen A .fetch argIn outlen s) :
    DisclosesNothing fns unixOpen A .fetch argIn outlen s ↔
      Covered fns unixOpen A .fetch argIn s := by
  have hlen : outlen = 8316 := hr.length
  have hserve : ∀ garbage, serve (m := outlen) fns A garbage .fetch argIn =
      wrapFile fns A (unixFetchConvertCharToArgIn argIn) (direct (runFetch fns))
        fun id ret => unixFetchsConvertReturnToChar id ret.1 ret.2.1 ret.2.2 := fun _ => rfl
  obtain ⟨garbage, outStruct, hsome⟩ := hr.answered
  rw [reply_eq (by decide : Op.fetch ≠ .open_), hserve] at hsome
  obtain ⟨⟨id, iOff, nAmt⟩, hdec⟩ := exists_decoded hsome
  have hnAmt := nAmt_of_decoded hdec
  have hret : ∀ id₁ args ret, unixFetchConvertCharToArgIn argIn = some (id₁, args) →
      (∃ id' zPath os, ret = (runFetch fns id' zPath args os).2.1) → ∀ id',
      Writes (n := outlen) (unixFetchsConvertReturnToChar id' ret.1 ret.2.1 ret.2.2)
        (Set.Ico 0 (120 + sizeT nAmt) ∪ Set.Ico 8312 8316) := by
    rintro id₁ args ret hdec₁ ⟨id', zPath, os, rfl⟩ id'
    obtain ⟨rfl, rfl⟩ := Prod.mk.inj (Option.some.inj (hdec.symm.trans hdec₁))
    exact Writes.of_bind fun pp _ => writes_read
  rw [disclosesNothing_direct hs hr trivial nofun takesImage_fetch hserve hret,
    cover_payload hlen]
  constructor
  · intro h nAmt' hnAmt'
    exact Option.some.inj (hnAmt.symm.trans hnAmt') ▸ h
  · intro h
    exact h nAmt hnAmt

theorem writes_wrapRead {amt : CInt} (hamt : argIn.get CInt (sizeUnixFile + maxSize) = some amt)
    (hknown : Known .read argIn s.table) (garbage : Nat → Byte) :
    Writes (n := outlen) (fun out => (wrapRead fns A garbage argIn out s).map Prod.fst)
      (Set.Ico 0 (120 + sizeT amt) ∪ Set.Ico 8312 8316) := by
  have hdecoded := hknown.decoded trivial nofun (takesImage_read (Buf.uninit garbage 8192))
  refine writes_wrapFile hs hdecoded fun id args g ret os hdec hrun id' => ?_
  obtain ⟨pBuf, amt', offset⟩ := args
  obtain rfl := Option.some.inj (hamt.symm.trans (amt_of_readRequest hdec))
  obtain ⟨g', pBuf', rc, os', hrun'⟩ :=
    @exists_runRead _ fns id.core (s.table.pathOf id.h) s.os (pBuf, amt, offset)
      (amt_of_decoded hdec)
  have hret := hrun.symm.trans hrun'
  simp only [Option.some.injEq, Prod.mk.injEq] at hret
  rw [hret.2.1]
  exact writes_read

theorem disclosesNothing_read (hr : WellFormed fns unixOpen A .read argIn outlen s) :
    DisclosesNothing fns unixOpen A .read argIn outlen s ↔
      Covered fns unixOpen A .read argIn s := by
  have hlen : outlen = 8316 := hr.length
  have hreply : ∀ garbage (out : Buf outlen), reply fns unixOpen A .read argIn s garbage out =
      (wrapRead fns A garbage argIn out s).map Prod.fst := fun _ _ => rfl
  obtain ⟨garbage, outStruct, hsome⟩ := hr.answered
  rw [hreply] at hsome
  obtain ⟨⟨id, pBuf, amt, offset⟩, hdec⟩ := exists_decoded hsome
  have hamt := amt_of_readRequest hdec
  have hw := @writes_wrapRead _ fns _ _ outlen _ _ hs _ hamt hr.known garbage
  constructor
  · intro h amt' hamt'
    obtain rfl := Option.some.inj (hamt.symm.trans hamt')
    exact (cover_payload hlen).mp (h.cover (hreply garbage) hw hsome)
  · intro h
    have hfull : maxSize ≤ sizeT amt := h amt hamt
    refine (disclosesNothing_iff_cover (fun garbage' out => ?_) hw hr).mpr
      ((cover_payload hlen).mpr hfull)
    rw [hreply]
    unfold wrapRead
    rw [readRequest_full hamt hfull]

end EachOperation

/-! ## FileControl -/

section FileControl

variable {k : Nat} {pArg pArg' : Buf 512} {id : UnixFile} {op : CInt} {rc size : CInt}
  {garbage : Nat → Byte} {outStruct outarg : Buf outlen}

theorem controlRequest_full
    (hsize : argIn.get CInt (sizeUnixFile + sizeof CInt + 512) = some 512) (pArg pArg' : Buf 512) :
    unixFileControlConvertCharToArgIn argIn pArg =
      unixFileControlConvertCharToArgIn argIn pArg' := by
  have hpos : 0 < (512 : CInt).toInt := by decide
  unfold unixFileControlConvertCharToArgIn
  rw [hsize]
  simp only [Option.bind_eq_bind, Option.bind_some, if_pos hpos]
  congr 1
  funext id
  congr 1
  funext op
  exact Writes.copy_full (by decide) _ pArg pArg'

theorem last_of_controlRequest (hsize : size ≠ 512)
    (h : unixFileControlConvertCharToArgIn argIn pArg = some (id, op, pArg', size)) :
    pArg'.val[511]? = pArg.val[511]? := by
  have hle := (isSome_sizedRequest.mp (Option.isSome_of_eq_some h)).2
  obtain ⟨size', hget, h⟩ := Option.bind_eq_some_iff.mp h
  obtain ⟨id', -, h⟩ := Option.bind_eq_some_iff.mp h
  obtain ⟨op', -, h⟩ := Option.bind_eq_some_iff.mp h
  split at h
  · next hpos =>
    obtain ⟨data, hdata, h⟩ := Option.bind_eq_some_iff.mp h
    obtain ⟨pArg₁, hwrite, h⟩ := Option.bind_eq_some_iff.mp h
    simp only [Option.pure_def, Option.some.injEq, Prod.mk.injEq] at h
    obtain ⟨rfl, rfl, rfl, rfl⟩ := h
    obtain ⟨hle', rfl⟩ := Buf.read_eq_some hdata
    obtain ⟨hin, rfl⟩ := Buf.write_eq_some hwrite
    have hlen := Buf.slice_length argIn _ _ hle'
    have hlt : sizeT size' < 512 := by
      have hne : size'.toInt ≠ 512 := fun h => hsize (BitVec.eq_of_toInt_eq h)
      have hmax := hle size' hget
      have hnat := sizeT_of_nonneg size' (by omega)
      omega
    rw [Buf.getElem?_splice _ hin, if_neg (by omega)]
  · simp only [Option.pure_def, Option.bind_eq_bind, Option.bind_some, Option.some.injEq,
      Prod.mk.injEq] at h
    obtain ⟨-, -, rfl, -⟩ := h
    rfl

theorem argLen_lt (op : CInt) : argLen op < 511 := by
  unfold argLen
  split_ifs <;> decide

theorem last_of_runFileControl {zPath : Path} {os os' : OS} {g : UnixFile} {op' : CInt}
    (h : runFileControl fns id zPath (op, pArg, size) os = some (g, (op', pArg', rc, os'), os')) :
    pArg'.val[511]? = pArg.val[511]? := by
  have hlt := argLen_lt op
  unfold runFileControl at h
  simp only [Option.bind_eq_bind] at h
  split at h
  all_goals
    obtain ⟨arg, -, h⟩ := Option.bind_eq_some_iff.mp h
    split at h
    · simp only [Option.pure_def, Option.bind_some, Option.some.injEq, Prod.mk.injEq] at h
      rw [h.2.1.2.1]
    · next arg₁ _ =>
      obtain ⟨pArg₁, hwrite, h⟩ := Option.bind_eq_some_iff.mp h
      obtain ⟨hin, rfl⟩ := Buf.write_eq_some hwrite
      have hlen := arg₁.property
      simp only [Option.pure_def, Option.some.injEq, Prod.mk.injEq] at h
      rw [← h.2.1.2.1, Buf.getElem?_splice _ hin, if_neg (by omega)]

theorem last_of_controlReply
    (h : unixFileControlConvertReturnToChar id pArg rc outStruct 512 = some outarg) :
    outarg.val[631]? = pArg.val[511]? := by
  obtain ⟨out₁, -, h⟩ := Option.bind_eq_some_iff.mp h
  obtain ⟨out₂, -, h⟩ := Option.bind_eq_some_iff.mp h
  rw [if_pos (by decide)] at h
  obtain ⟨data, hdata, h⟩ := Option.bind_eq_some_iff.mp h
  obtain ⟨out₃, hwrite, h⟩ := Option.bind_eq_some_iff.mp h
  obtain ⟨hle, rfl⟩ := Buf.read_eq_some hdata
  obtain ⟨hin, rfl⟩ := Buf.write_eq_some hwrite
  obtain ⟨hin', rfl⟩ := Buf.write_eq_some h
  have hlen : (pArg.slice 0 (sizeT 512)).length = 512 := Buf.slice_length _ _ _ hle
  rw [Buf.getElem?_splice _ hin', if_neg (by simp), Buf.getElem?_splice _ hin,
    if_pos (by rw [hlen]; decide), Buf.slice, List.drop_zero]
  exact List.getElem?_take_of_lt (by decide)

variable (fns s argIn garbage) in
/-- A `FileControl` that is answered, from the request to the length of its reply. -/
structure ControlRun where
  id : UnixFile
  op : CInt
  pArg : Buf 512
  size : CInt
  g : UnixFile
  pArg' : Buf 512
  rc : CInt
  os : OS
  len : CInt
  decoded : unixFileControlConvertCharToArgIn argIn (Buf.uninit garbage 512) =
    some (id, op, pArg, size)
  run : runFileControl fns id.core (s.table.pathOf id.h) (op, pArg, size) s.os =
    some (g, (op, pArg', rc, os), os)
  measured : lenFileControlPArg (fun z => ((fns.memory os z).bind cstr).map List.length) op
    (some pArg'.val) = some len
  le : len.toInt ≤ 512

theorem exists_controlRun (hs : s.table.Sound A) (hknown : Known .fileControl argIn s.table)
    (h : ((wrapFileControl fns A garbage argIn outStruct s).map Prod.fst).isSome) :
    ∃ (r : ControlRun fns s argIn garbage) (image : UnixFile), ∀ out : Buf outlen,
      (wrapFileControl fns A garbage argIn out s).map Prod.fst =
        unixFileControlConvertReturnToChar image r.pArg' r.rc out r.len := by
  obtain ⟨⟨id, op, pArg, size⟩, hdec⟩ := exists_decoded h
  have hfd := hknown.decoded trivial nofun (takesImage_fileControl (Buf.uninit garbage 512)) _ hdec
  obtain ⟨image, hwrap⟩ := @wrapFile_known _ fns _ _ hs _ hfd
  obtain ⟨g, pArg', rc, os, hrun⟩ := @exists_runFileControl _ fns id.core
    (s.table.pathOf id.h) s.os op pArg size
  have hreply : ∀ out : Buf outlen, (wrapFileControl fns A garbage argIn out s).map Prod.fst =
      returnFileControl fns (image g) (op, pArg', rc, os) out := fun out => by
    unfold wrapFileControl
    rw [hdec, hwrap, hrun, Option.bind_some]
  rw [hreply, isSome_returnFileControl] at h
  obtain ⟨-, len, hlen, hle⟩ := h
  refine ⟨⟨id, op, pArg, size, g, pArg', rc, os, len, hdec, hrun, hlen, hle⟩, image g,
    fun out => ?_⟩
  rw [hreply]
  unfold returnFileControl
  simp only [hlen, Option.bind_eq_bind, Option.bind_some]

namespace ControlRun

theorem size_eq (r : ControlRun fns s argIn garbage) :
    argIn.get CInt (sizeUnixFile + sizeof CInt + 512) = some r.size := by
  obtain ⟨size, hsize, h⟩ := Option.bind_eq_some_iff.mp r.decoded
  obtain ⟨id, -, h⟩ := Option.bind_eq_some_iff.mp h
  obtain ⟨op, -, h⟩ := Option.bind_eq_some_iff.mp h
  split at h
  · obtain ⟨data, -, h⟩ := Option.bind_eq_some_iff.mp h
    obtain ⟨pArg, -, h⟩ := Option.bind_eq_some_iff.mp h
    simp only [Option.pure_def, Option.some.injEq, Prod.mk.injEq] at h
    rw [hsize, h.2.2.2]
  · simp only [Option.pure_def, Option.bind_eq_bind, Option.bind_some, Option.some.injEq,
      Prod.mk.injEq] at h
    rw [hsize, h.2.2.2]

theorem len_eq (r : ControlRun fns s argIn garbage)
    (h : 631 ∈ controlBytes r.len) : r.len = 512 := by
  have hle := r.le
  simp only [controlBytes, Set.mem_union, Set.mem_Ico] at h
  refine BitVec.eq_of_toInt_eq (le_antisymm hle ?_)
  split_ifs at h with hpos
  · have hsize := sizeT_of_nonneg r.len (by omega)
    have hmin : 512 ≤ r.len.toInt := by omega
    exact hmin
  · omega

theorem measures {P : CInt → Prop} (h : ∀ garbage, ∃ r : ControlRun fns s argIn garbage, P r.len) :
    ControlMeasures fns P argIn s := by
  intro garbage id op pArg size hdec g pArg' rc os hrun
  obtain ⟨r, hr⟩ := h garbage
  have hsame := r.decoded.symm.trans hdec
  simp only [Option.some.injEq, Prod.mk.injEq] at hsame
  obtain ⟨rfl, rfl, rfl, rfl⟩ := hsame
  have hsame' := r.run.symm.trans hrun
  simp only [Option.some.injEq, Prod.mk.injEq, true_and] at hsame'
  obtain ⟨-, ⟨rfl, -, -⟩, rfl⟩ := hsame'
  exact ⟨r.len, r.measured, hr⟩

end ControlRun

theorem disclosesNothing_fileControl (hs : s.table.Sound A)
    (hr : WellFormed fns unixOpen A .fileControl argIn outlen s) :
    DisclosesNothing fns unixOpen A .fileControl argIn outlen s ↔
      Covered fns unixOpen A .fileControl argIn s := by
  have hlen : outlen = 640 := hr.length
  have hreply : ∀ garbage (out : Buf outlen),
      reply fns unixOpen A .fileControl argIn s garbage out =
        (wrapFileControl fns A garbage argIn out s).map Prod.fst := fun _ _ => rfl
  obtain ⟨garbage₀, outStruct₀, hsome₀⟩ := hr.answered
  constructor
  · intro h
    obtain ⟨outarg, hout⟩ := Option.isSome_iff_exists.mp hsome₀
    have hfull : ∀ garbage, ∃ r : ControlRun fns s argIn garbage, r.len = 512 ∧
        outarg.val[631]? = r.pArg'.val[511]? := by
      intro garbage
      have hsame := (h garbage garbage₀ outStruct₀ outStruct₀).trans hout
      rw [hreply] at hsame
      obtain ⟨r, image, hrun⟩ := exists_controlRun hs hr.known (Option.isSome_of_eq_some hsame)
      have hbyte := h.cover (fun out => (hreply garbage out).trans (hrun out)) writes_fileControl
        (hrun outStruct₀ ▸ Option.isSome_of_eq_some hsame) 631 (by omega)
      have hlast := (hrun outStruct₀).symm.trans hsame
      rw [r.len_eq hbyte] at hlast
      exact ⟨r, r.len_eq hbyte, last_of_controlReply hlast⟩
    refine ⟨fun size hsize => ?_, ControlRun.measures fun garbage => ?_⟩
    · by_contra hne
      have hlast : ∀ x : Byte, outarg.val[631]? = some x := fun x => by
        obtain ⟨r, -, hr⟩ := hfull fun _ => x
        obtain rfl := Option.some.inj (hsize.symm.trans r.size_eq)
        rw [hr, last_of_runFileControl r.run, last_of_controlRequest hne r.decoded,
          Buf.getElem?_uninit _ (by decide)]
      exact absurd ((hlast 0).symm.trans (hlast 1)) (by decide)
    · obtain ⟨r, hr, -⟩ := hfull garbage
      exact ⟨r, hr⟩
  · rintro ⟨hsize, hmeasured⟩
    rw [hreply] at hsome₀
    obtain ⟨r, image, hrun⟩ := exists_controlRun hs hr.known hsome₀
    have h512 : r.len = 512 := by
      obtain ⟨len, hlen', rfl⟩ := hmeasured garbage₀ _ _ _ _ r.decoded _ _ _ _ r.run
      exact Option.some.inj (r.measured.symm.trans hlen')
    have hsame : ∀ garbage (out : Buf outlen),
        reply fns unixOpen A .fileControl argIn s garbage out =
          unixFileControlConvertReturnToChar image r.pArg' r.rc out r.len := fun garbage out => by
      rw [hreply, ← hrun]
      unfold wrapFileControl
      rw [controlRequest_full (hsize _ r.size_eq ▸ r.size_eq)]
    refine (disclosesNothing_iff_cover hsame writes_fileControl hr).mpr fun i hi => ?_
    have hpos : 0 < (512 : CInt).toInt := by decide
    have h512' : sizeT 512 = 512 := by decide
    rw [h512, controlBytes, if_pos hpos, h512']
    simp
    omega

end FileControl

/-! ## Close, and the calls without a handle -/

/-- Of the reply to a Close only the result code is written. -/
theorem discloses_close (hr : WellFormed fns unixOpen A .close argIn outlen s) :
    ¬ DisclosesNothing fns unixOpen A .close argIn outlen s := by
  have hlen : outlen = 124 := hr.length
  obtain ⟨garbage, outStruct, hsome⟩ := hr.answered
  have hw : Writes (fun out : Buf outlen => (wrapClose fns A garbage argIn out s).map Prod.fst)
      (Set.Ico 120 124) := by
    simp only [wrapClose, Option.bind_eq_bind, Option.map_bind, Function.comp_def]
    refine Writes.of_bind fun id _ => Writes.of_bind fun x _ => Writes.of_bind fun y _ => ?_
    split_ifs
    all_goals simp only [Option.map_bind, Function.comp_def, Option.pure_def, Option.map_some,
      Option.bind_fun_some, Option.bind_some]
    · exact Writes.of_bind fun z _ => Writes.put sizeUnixFile z.1
    · exact Writes.put sizeUnixFile _
  intro h
  have hbyte := h.cover (fun _ => rfl) hw hsome 0 (by omega)
  simp at hbyte

theorem reply_delete (garbage : Nat → Byte) (out : Buf outlen) :
    reply fns unixOpen A .delete argIn s garbage out =
      (cstr (argIn.val.take 512)).bind fun p => (argIn.get CInt 512).bind fun dirSync =>
        unixDeleteConvertReturnToChar (fns.unixDelete p dirSync s.os).1 out := by
  change (wrapDelete fns garbage argIn out s).map Prod.fst = _
  simp only [wrapDelete, unixDeleteConvertCharToArgIn, Option.bind_eq_bind, Option.pure_def,
    Option.bind_assoc, Option.bind_some, Option.map_bind, Function.comp_def, Option.map_some]
  refine Buf.bind_strcpy fun path p hp => ?_
  simp only [hp, Option.bind_some, Option.bind_fun_some]

theorem disclosesNothing_delete (hr : WellFormed fns unixOpen A .delete argIn outlen s) :
    DisclosesNothing fns unixOpen A .delete argIn outlen s := by
  have hlen : outlen = 4 := hr.length
  refine (disclosesNothing_iff_cover reply_delete (Writes.of_bind fun p _ =>
    Writes.of_bind fun dirSync _ => Writes.put 0 _) hr).mpr fun i hi => ⟨Nat.zero_le i, ?_⟩
  simp
  omega

theorem reply_access (garbage : Nat → Byte) (out : Buf outlen) :
    reply fns unixOpen A .access argIn s garbage out =
      (cstr (argIn.val.take 512)).bind fun p => (argIn.get CInt 512).bind fun flags =>
        (argIn.get CInt (512 + sizeof CInt)).bind fun res =>
          unixAccessConvertReturnToChar (fns.unixAccess p flags res s.os).1
            (fns.unixAccess p flags res s.os).2.1 out := by
  change (wrapAccess fns garbage argIn out s).map Prod.fst = _
  simp only [wrapAccess, unixAccessConvertCharToArgIn, Option.bind_eq_bind, Option.pure_def,
    Option.bind_assoc, Option.bind_some, Option.map_bind, Function.comp_def, Option.map_some]
  refine Buf.bind_strcpy fun path p hp => ?_
  simp only [hp, Option.bind_some, Option.bind_fun_some]

theorem disclosesNothing_access (hr : WellFormed fns unixOpen A .access argIn outlen s) :
    DisclosesNothing fns unixOpen A .access argIn outlen s := by
  have hlen : outlen = 8 := hr.length
  refine (disclosesNothing_iff_cover reply_access (Writes.of_bind fun p _ => Writes.of_bind
    fun flags _ => Writes.of_bind fun res _ => (Writes.put 0 _).bind (Writes.put (sizeof CInt) _))
    hr).mpr fun i hi => ?_
  simp
  omega

theorem disclosesNothing_getLastError
    (hr : WellFormed fns unixOpen A .getLastError argIn outlen s) :
    DisclosesNothing fns unixOpen A .getLastError argIn outlen s := by
  have hlen : outlen = 4 := hr.length
  have hreply : ∀ garbage (out : Buf outlen),
      reply fns unixOpen A .getLastError argIn s garbage out =
        unixGetLastErrorConvertReturnToChar (fns.unixGetLastError s.os) out := fun garbage out => by
    change (wrapGetLastError fns argIn out s).map Prod.fst = _
    simp only [wrapGetLastError, Option.bind_eq_bind, Option.pure_def, Option.map_bind,
      Function.comp_def, Option.map_some, Option.bind_fun_some]
  refine (disclosesNothing_iff_cover hreply (Writes.put 0 _) hr).mpr fun i hi => ?_
  simp
  omega

/-! ## FullPathname -/

theorem reply_fullPathname {nOut : CInt} (hnOut : getFullPathnameOutLen argIn = some nOut)
    (hpos : 0 ≤ nOut.toInt) {path : List Byte}
    (hpath : cstr ((argIn.val.drop 4).take (sizeT nOut)) = some path) (garbage : Nat → Byte)
    {zOut : Buf (sizeT nOut)}
    (hzOut : Buf.uninit (fun i => garbage (sizeT nOut + i)) (sizeT nOut) = zOut)
    (out : Buf outlen) : reply fns unixOpen A .fullPathname argIn s garbage out =
      unixFullPathnameConvertReturnToChar nOut (fns.unixFullPathname path zOut s.os).1
        (fns.unixFullPathname path zOut s.os).2.1 out := by
  change (wrapFullPathname fns garbage argIn out s).map Prod.fst = _
  have hneg : ¬ nOut.toInt < 0 := not_lt.mpr hpos
  simp only [wrapFullPathname, unixFullPathnameConvertCharToArgIn, hnOut, hneg, if_false,
    Option.bind_eq_bind, Option.pure_def, Option.bind_assoc, Option.bind_some, Option.map_bind,
    Function.comp_def, Option.map_some, hzOut]
  refine (Buf.bind_strcpy (g := fun path => unixFullPathnameConvertReturnToChar nOut
    (fns.unixFullPathname path zOut s.os).1 (fns.unixFullPathname path zOut s.os).2.1 out)
    fun path' p hp => ?_).trans ?_
  · simp only [hp, Option.bind_some, Option.bind_fun_some]
  · exact congrArg (Option.bind · _) hpath

theorem fullPathnameReply_congr {nOut rc : CInt} {zOut zOut' : Buf (sizeT nOut)} {p : List Byte}
    (hp : cstr zOut.val = some p) (hp' : cstr zOut'.val = some p) (out : Buf outlen) :
    unixFullPathnameConvertReturnToChar nOut zOut rc out =
      unixFullPathnameConvertReturnToChar nOut zOut' rc out := by
  unfold unixFullPathnameConvertReturnToChar Buf.strcpy
  rw [hp, hp']

theorem of_fullPathnameReply {nOut rc : CInt} {zOut : Buf (sizeT nOut)} {out outarg : Buf outlen}
    (h : unixFullPathnameConvertReturnToChar nOut zOut rc out = some outarg) {p : List Byte}
    (hp : cstr zOut.val = some p) (hfull : p.length + 1 = sizeT nOut) :
    outarg.slice 0 (sizeT nOut) = p ++ [0] ∧ outarg.get CInt (sizeT nOut) = some rc := by
  obtain ⟨out₁, hcopy, hput⟩ := Option.bind_eq_some_iff.mp h
  refine ⟨?_, Buf.get_of_put hput⟩
  obtain ⟨p', hp', hcopy⟩ := Option.bind_eq_some_iff.mp hcopy
  obtain rfl := Option.some.inj (hp.symm.trans hp')
  obtain ⟨hle, rfl⟩ := Buf.write_eq_some hcopy
  rw [Buf.slice_of_put hput (.inl (by omega))]
  exact Buf.slice_splice out _ (by simp [hfull]) (by simpa [hfull] using hle)

theorem disclosesNothing_fullPathname
    (hr : WellFormed fns unixOpen A .fullPathname argIn outlen s) :
    DisclosesNothing fns unixOpen A .fullPathname argIn outlen s ↔
      Covered fns unixOpen A .fullPathname argIn s := by
  obtain ⟨garbage₀, outStruct₀, hsome₀⟩ := hr.answered
  have hsome : (wrapFullPathname fns garbage₀ argIn outStruct₀ s).isSome := by
    rw [← @Option.isSome_map _ _ Prod.fst]
    exact hsome₀
  obtain ⟨nOut, hnOut, hpos, path, hpath, -⟩ := (isSome_wrapFullPathname outStruct₀).mp hsome
  have hlen : outlen = sizeT nOut + 4 := hr.length nOut hnOut
  have hreply : ∀ garbage (zOut : Buf (sizeT nOut)) (out : Buf outlen),
      Buf.uninit (fun i => garbage (sizeT nOut + i)) (sizeT nOut) = zOut →
      reply fns unixOpen A .fullPathname argIn s garbage out =
        unixFullPathnameConvertReturnToChar nOut (fns.unixFullPathname path zOut s.os).1
          (fns.unixFullPathname path zOut s.os).2.1 out :=
    fun garbage zOut out hzOut => reply_fullPathname hnOut hpos hpath garbage hzOut out
  constructor
  · intro h nOut' path' hnOut' hpath'
    obtain rfl := Option.some.inj (hnOut.symm.trans hnOut')
    obtain rfl := Option.some.inj ((cstr_take.mp hpath).1.symm.trans hpath')
    obtain ⟨outarg, hout⟩ := Option.isSome_iff_exists.mp hsome₀
    have hfull : ∀ zOut : Buf (sizeT nOut), ∃ p,
        cstr (fns.unixFullPathname path zOut s.os).1.val = some p ∧ p.length + 1 = sizeT nOut ∧
          outarg.slice 0 (sizeT nOut) = p ++ [0] ∧
          outarg.get CInt (sizeT nOut) = some (fns.unixFullPathname path zOut s.os).2.1 := by
      intro zOut
      obtain ⟨garbage, hzOut⟩ := Buf.uninit_eq zOut (sizeT nOut)
      have hsame := (hreply garbage zOut outStruct₀ hzOut).symm.trans
        ((h garbage garbage₀ outStruct₀ outStruct₀).trans hout)
      obtain ⟨out₁, hcopy, -⟩ := Option.bind_eq_some_iff.mp hsame
      obtain ⟨p, hp, -⟩ := Buf.cstr_of_strcpy hcopy
      have hroom := Buf.length_of_cstr hp
      have hbyte := h.cover (fun out => hreply garbage zOut out hzOut) (writes_fullPathname hp)
        (Option.isSome_of_eq_some hsame) (sizeT nOut - 1) (by omega)
      have hfit : p.length + 1 = sizeT nOut := by
        simp at hbyte
        omega
      exact ⟨p, hp, hfit, of_fullPathnameReply hsame hp hfit⟩
    obtain ⟨p, -, hfit, hslice, hrc⟩ := hfull (Buf.zeros (sizeT nOut))
    refine ⟨p, (fns.unixFullPathname path (Buf.zeros (sizeT nOut)) s.os).2.1, hfit, fun zOut => ?_⟩
    obtain ⟨p', hp', -, hslice', hrc'⟩ := hfull zOut
    have hpp : p' = p := List.append_cancel_right (hslice'.symm.trans hslice)
    exact ⟨hpp ▸ hp', Option.some.inj (hrc'.symm.trans hrc)⟩
  · intro h
    obtain ⟨p, rc, hfit, hsame⟩ := h nOut path hnOut (cstr_take.mp hpath).1
    obtain ⟨hp₀, -⟩ := hsame (Buf.zeros (sizeT nOut))
    have hconst : ∀ garbage (out : Buf outlen),
        reply fns unixOpen A .fullPathname argIn s garbage out =
          unixFullPathnameConvertReturnToChar nOut
            (fns.unixFullPathname path (Buf.zeros (sizeT nOut)) s.os).1 rc out :=
      fun garbage out => by
        obtain ⟨hp, hrc⟩ := hsame (Buf.uninit (fun i => garbage (sizeT nOut + i)) (sizeT nOut))
        rw [hreply garbage _ out rfl, hrc]
        exact fullPathnameReply_congr hp hp₀ out
    refine (disclosesNothing_iff_cover hconst (writes_fullPathname hp₀) hr).mpr fun i hi => ?_
    simp
    omega

/-! ## Open -/

theorem openRequest_iff {path₀ path : Buf 512} {id : UnixFile} {flags outFlags : CInt} :
    unixOpenConvertCharToArgIn argIn path₀ = some (path, id, flags, outFlags) ↔
      path₀.strcpy argIn.val = some path ∧ argIn.get UnixFile 512 = some id ∧
        argIn.get CInt (512 + sizeUnixFile) = some flags ∧
        argIn.get CInt (512 + sizeUnixFile + sizeof CInt) = some outFlags := by
  simp only [unixOpenConvertCharToArgIn, Option.bind_eq_bind, Option.pure_def,
    Option.bind_eq_some_iff, Option.some.injEq, Prod.mk.injEq]
  constructor
  · rintro ⟨_, hpath, _, hid, _, hflags, _, hout, rfl, rfl, rfl, rfl⟩
    exact ⟨hpath, hid, hflags, hout⟩
  · rintro ⟨hpath, hid, hflags, hout⟩
    exact ⟨path, hpath, id, hid, flags, hflags, outFlags, hout, rfl, rfl, rfl, rfl⟩

theorem strcpy_over {k : Nat} {path : Buf k} {src p : List Byte} (hsrc : cstr src = some p)
    (hp : cstr path.val = some p) : path.strcpy src = some path := by
  have hself := Buf.strcpy_self path hp
  rw [Buf.strcpy] at hself ⊢
  rwa [hsrc, ← hp]

theorem reply_open (hv : s.table.Valid) {garbage : Nat → Byte} {path : Buf 512} {id : UnixFile}
    {flags outFlags : CInt} {p : List Byte}
    (hdec : unixOpenConvertCharToArgIn argIn (Buf.uninit garbage 512) =
      some (path, id, flags, outFlags)) (hp : cstr path.val = some p)
    {v : UnixFile × CInt × CInt} (hopen : openValues fns unixOpen A id p flags outFlags s.os
      (sqlite3UriParameter (some path.val)) = v) (out : Buf outlen) :
    reply fns unixOpen A .open_ argIn s garbage out =
      unixOpenConvertReturnToChar v.1 v.2.1 v.2.2 out := by
  have hlocal : localPath garbage argIn = path := by
    rw [localPath, (openRequest_iff.mp hdec).1, Option.getD_some]
  obtain ⟨t', -, -, -, hwrap⟩ := wrapOpen_decoded (fns.openingAt unixOpen path) A (m := outlen)
    (n := n) hv (cstr_eq_some hp).1 (FdTable.path_length hp)
    (openOn (fns.openingAt unixOpen path) id p flags
      (if outFlags = -1 then none else some outFlags) s.os)
  change (wrapOpen (fns.openingAt unixOpen (localPath garbage argIn)) A garbage argIn out s).map
    Prod.fst = _
  rw [hlocal, hwrap garbage argIn path id flags outFlags hdec hp rfl out, Option.map_map, ← hopen]
  exact Option.map_id'

theorem openValues_of_no_uri {id : UnixFile} {p : List Byte} {flags outFlags : CInt} {os : OS}
    (h : flags &&& openUri = 0) (parameter parameter' : List Byte → Option Path) :
    openValues fns unixOpen A id p flags outFlags os parameter =
      openValues fns unixOpen A id p flags outFlags os parameter' := by
  have hmask : flags &&& openMask &&& openUri = 0 := by
    rw [BitVec.and_assoc, show openMask &&& openUri = openUri by decide, h]
  unfold openValues openOn UnixFns.opening
  simp only [hmask, if_true]

theorem openReply_inj {v v' : UnixFile × CInt × CInt} {out outarg : Buf outlen}
    (h : unixOpenConvertReturnToChar v.1 v.2.1 v.2.2 out = some outarg)
    (h' : unixOpenConvertReturnToChar v'.1 v'.2.1 v'.2.2 out = some outarg) : v = v' := by
  have hfields : ∀ v : UnixFile × CInt × CInt,
      unixOpenConvertReturnToChar v.1 v.2.1 v.2.2 out = some outarg →
        outarg.get UnixFile 0 = some v.1 ∧ outarg.get CInt sizeUnixFile = some v.2.1 ∧
          outarg.get CInt (sizeUnixFile + sizeof CInt) = some v.2.2 := by
    intro v h
    refine ⟨leavesImage_outRc v.1 v.2 out outarg h, ?_, getRc_of_outRc h⟩
    obtain ⟨out₁, h₁, h₂⟩ := Option.bind_eq_some_iff.mp h
    obtain ⟨out₂, -, h₁⟩ := Option.bind_eq_some_iff.mp h₁
    rw [Buf.get_of_write_disjoint h₂ (.inl le_rfl), Buf.get_of_put h₁]
  obtain ⟨hid, hflags, hrc⟩ := hfields v h
  obtain ⟨hid', hflags', hrc'⟩ := hfields v' h'
  exact Prod.ext (Option.some.inj (hid.symm.trans hid'))
    (Prod.ext (Option.some.inj (hflags.symm.trans hflags'))
      (Option.some.inj (hrc.symm.trans hrc')))

theorem disclosesNothing_open (hs : s.table.Sound A)
    (hr : WellFormed fns unixOpen A .open_ argIn outlen s) :
    DisclosesNothing fns unixOpen A .open_ argIn outlen s ↔
      Covered fns unixOpen A .open_ argIn s := by
  have hlen : outlen = 128 := hr.length
  obtain ⟨garbage₀, outStruct₀, hsome₀⟩ := hr.answered
  obtain ⟨outarg, hout⟩ := Option.isSome_iff_exists.mp hsome₀
  obtain ⟨⟨outarg', s'⟩, hwrap, -⟩ := Option.map_eq_some_iff.mp hout
  obtain ⟨⟨path₀, id, flags, outFlags⟩, hdec₀, -⟩ := Option.bind_eq_some_iff.mp hwrap
  obtain ⟨hcopy₀, hid, hflags, houtFlags⟩ := openRequest_iff.mp hdec₀
  obtain ⟨p, hsrc, hp₀, hroom⟩ := Buf.cstr_of_strcpy hcopy₀
  -- The request unpacked over any content of `path`.
  have hdec : ∀ path, ∃ path', unixOpenConvertCharToArgIn argIn path =
      some (path', id, flags, outFlags) ∧ cstr path'.val = some p := fun path => by
    have hcopy := Buf.strcpy_eq path hsrc hroom
    exact ⟨_, openRequest_iff.mpr ⟨hcopy, hid, hflags, houtFlags⟩,
      Buf.cstr_splice path (cstr_eq_some hp₀).1 hroom⟩
  constructor
  · intro h zPath id' flags' outFlags' zName hdec' hname
    obtain ⟨path', hpath', hp'⟩ := hdec (Buf.zeros 512)
    have hsame := hpath'.symm.trans hdec'
    simp only [Option.some.injEq, Prod.mk.injEq] at hsame
    obtain ⟨rfl, rfl, rfl, rfl⟩ := hsame
    obtain rfl := Option.some.inj (hp'.symm.trans hname)
    have hshown : ∀ parameter v, Findable p parameter →
        openValues fns unixOpen A id p flags outFlags s.os parameter = v →
        unixOpenConvertReturnToChar v.1 v.2.1 v.2.2 outStruct₀ = some outarg := by
      rintro parameter v ⟨path, hp, rfl⟩ hv
      obtain ⟨garbage, hpath⟩ := Buf.uninit_eq path 0
      have hover : unixOpenConvertCharToArgIn argIn
          (Buf.uninit (fun i => garbage (0 + i)) 512) = some (path, id, flags, outFlags) := by
        rw [hpath]
        exact openRequest_iff.mpr ⟨strcpy_over hsrc hp, hid, hflags, houtFlags⟩
      exact (reply_open hs.valid hover hp hv outStruct₀).symm.trans ((h _ _ _ _).trans hout)
    exact .inr fun parameter parameter' hfind hfind' =>
      openReply_inj (hshown parameter _ hfind rfl) (hshown parameter' _ hfind' rfl)
  · intro h
    obtain ⟨path', hpath', hp'⟩ := hdec (Buf.zeros 512)
    have hvalues : ∀ path : Buf 512, cstr path.val = some p →
        openValues fns unixOpen A id p flags outFlags s.os (sqlite3UriParameter (some path.val)) =
          openValues fns unixOpen A id p flags outFlags s.os
            (sqlite3UriParameter (some path₀.val)) :=
      fun path hp => by
        rcases h path' id flags outFlags p hpath' hp' with huri | hsame
        · exact openValues_of_no_uri huri _ _
        · exact hsame _ _ ⟨path, hp, rfl⟩ ⟨path₀, hp₀, rfl⟩
    obtain ⟨v, hv⟩ : ∃ v, openValues fns unixOpen A id p flags outFlags s.os
        (sqlite3UriParameter (some path₀.val)) = v := ⟨_, rfl⟩
    have hreply : ∀ garbage (out : Buf outlen), reply fns unixOpen A .open_ argIn s garbage out =
        unixOpenConvertReturnToChar v.1 v.2.1 v.2.2 out := fun garbage out => by
      obtain ⟨path, hpath, hp⟩ := hdec (Buf.uninit garbage 512)
      exact reply_open hs.valid hpath hp ((hvalues path hp).trans hv) out
    refine (disclosesNothing_iff_cover hreply writes_outRc hr).mpr fun i hi => ?_
    simp
    omega

/-! ## Every operation, in every reachable state -/

theorem disclosesNothing_iff (hs : s.table.Sound A)
    (hr : WellFormed fns unixOpen A op argIn outlen s) :
    DisclosesNothing fns unixOpen A op argIn outlen s ↔ Covered fns unixOpen A op argIn s := by
  cases op with
  | open_ => exact disclosesNothing_open hs hr
  | delete => exact iff_of_true (disclosesNothing_delete hr) trivial
  | access => exact iff_of_true (disclosesNothing_access hr) trivial
  | fullPathname => exact disclosesNothing_fullPathname hr
  | getLastError => exact iff_of_true (disclosesNothing_getLastError hr) trivial
  | write => exact iff_of_false (discloses_write hs hr) id
  | read => exact disclosesNothing_read hs hr
  | fileSize => exact iff_of_false (discloses_fileSize hs hr) id
  | fileControl => exact disclosesNothing_fileControl hs hr
  | close => exact iff_of_false (discloses_close hr) id
  | checkReservedLock => exact iff_of_true (disclosesNothing_checkReservedLock hs hr) trivial
  | fetch => exact disclosesNothing_fetch hs hr
  | truncate | sync | sectorSize | deviceCharacteristics | lock | unlock | unfetch =>
    exact iff_of_true (disclosesNothing_imageAndInt hs (by simp) hr) trivial

section Handlers

variable (sqlite3OsInit : OS → CInt × OS)

variable (fns unixOpen A) in
/-- The server after any message, over any content of its uninitialised memory. -/
def Message.answer (s : Server OS) : Message → Option (Server OS)
  | .init argOut => (wrapInit sqlite3OsInit argOut s).map Prod.snd
  | .request r => r.handle (fns.openingAt unixOpen (localPath r.garbage r.argIn)) A s

theorem sound_answers {table : FdTable} (hempty : table.listHead = none) {os : OS}
    {msgs : List Message}
    (hrun : Runs.run (Message.answer fns unixOpen A sqlite3OsInit) ⟨table, os⟩ msgs = some s) :
    s.table.Sound A := by
  have hstep : ∀ s msg s', s.table.Sound A →
      Message.answer fns unixOpen A sqlite3OsInit s msg = some s' → s'.table.Sound A := by
    intro s msg s' hs h
    cases msg with
    | init argOut => exact sound_init sqlite3OsInit hs h
    | request r => exact sound_request hs r h
  exact Runs.invariant hstep (.empty hempty) hrun

namespace Rpc

variable (rpc : Rpc)

variable (fns unixOpen A) in
/-- `reply`, of any operation. -/
def reply (argIn : Buf n) (s : Server OS) (garbage : Nat → Byte) (outStruct : Buf outlen) :
    Option (Buf outlen) :=
  match rpc with
  | .init => (wrapInit sqlite3OsInit outStruct s).map Prod.fst
  | .call op => RemoteVfs.reply fns unixOpen A op argIn s garbage outStruct

variable (fns unixOpen A) in
/-- The reply is the same over any two contents of the uninitialised memory. -/
def DisclosesNothing (argIn : Buf n) (outlen : Nat) (s : Server OS) : Prop :=
  ∀ garbage garbage' (outStruct outStruct' : Buf outlen),
    rpc.reply fns unixOpen A sqlite3OsInit argIn s garbage outStruct =
      rpc.reply fns unixOpen A sqlite3OsInit argIn s garbage' outStruct'

variable (fns unixOpen A) in
/-- `WellFormed`, of any operation. -/
def WellFormed (argIn : Buf n) (outlen : Nat) (s : Server OS) : Prop :=
  match rpc with
  | .init => outlen = 4
  | .call op => RemoteVfs.WellFormed fns unixOpen A op argIn outlen s

variable (fns unixOpen A) in
/-- `Covered`, of any operation. -/
def Covered (argIn : Buf n) (s : Server OS) : Prop :=
  match rpc with
  | .init => True
  | .call op => RemoteVfs.Covered fns unixOpen A op argIn s

end Rpc

theorem disclosesNothing_init (garbage garbage' : Nat → Byte) (outStruct outStruct' : Buf 4) :
    Rpc.init.reply fns unixOpen A sqlite3OsInit argIn s garbage outStruct =
      Rpc.init.reply fns unixOpen A sqlite3OsInit argIn s garbage' outStruct' := by
  have hreply : ∀ out : Buf 4, (wrapInit sqlite3OsInit out s).map Prod.fst =
      out.put 0 (sqlite3OsInit s.os).1 := fun out => by
    simp only [wrapInit, Option.bind_eq_bind, Option.pure_def, Option.map_bind,
      Function.comp_def, Option.map_some, Option.bind_fun_some]
  unfold Rpc.reply
  rw [hreply, hreply]
  refine (Writes.put 0 _).const (fun i hi => ⟨Nat.zero_le i, ?_⟩) outStruct outStruct'
  simpa using hi

variable (fns unixOpen A) in
/-- A reply discloses nothing exactly when the wrapper has written all of it. -/
theorem disclosesNothing_iff_covered {table : FdTable} (hempty : table.listHead = none) (os : OS)
    {msgs : List Message}
    (hrun : Runs.run (Message.answer fns unixOpen A sqlite3OsInit) ⟨table, os⟩ msgs = some s)
    {rpc : Rpc} {argIn : Buf n} {outlen : Nat}
    (hr : rpc.WellFormed fns unixOpen A argIn outlen s) :
    rpc.DisclosesNothing fns unixOpen A sqlite3OsInit argIn outlen s ↔
      rpc.Covered fns unixOpen A argIn s := by
  cases rpc with
  | init =>
    obtain rfl : outlen = 4 := hr
    exact iff_of_true (disclosesNothing_init sqlite3OsInit) trivial
  | call op => exact disclosesNothing_iff (sound_answers sqlite3OsInit hempty hrun) hr

end Handlers

/-- Names have no parameters on the disk. -/
def Disk.openFn : OpenFn Disk :=
  fun _ p _ flags pOutFlags d => Disk.unixOpen p flags pOutFlags d

/-- The disk after the Open of a file. -/
def Disk.opened : Option (Server Disk) :=
  Runs.run (Message.answer Disk.fns Disk.openFn .flat Disk.sqlite3OsInit) ⟨Disk.table, ⟨[], 3⟩⟩
    [.request Tracked.openRequest]

/-- The Lock of descriptor 3. -/
def Disk.lockArg : Buf 124 := (Buf.zeros 124).splice 24 [3]

theorem disclosesNothing_iff_covered_lock : ∃ s, Disk.opened = some s ∧
    Rpc.DisclosesNothing Disk.fns Disk.openFn .flat Disk.sqlite3OsInit (.call .lock)
      Disk.lockArg 124 s := by
  obtain ⟨s, hs⟩ := Option.isSome_iff_exists.mp (by decide +kernel : Disk.opened.isSome)
  have hknown : Disk.opened.all fun s => (s.table.lookup 3).isSome := by decide +kernel
  have hanswered : Disk.opened.all fun s => (reply Disk.fns Disk.openFn .flat .lock Disk.lockArg s
    (fun _ => 0) (Buf.zeros 124)).isSome := by decide +kernel
  have hfd : (Disk.lockArg.get UnixFile 0).map (·.h) = some 3 := by decide +kernel
  rw [hs] at hknown hanswered
  have hlock : WellFormed Disk.fns Disk.openFn .flat .lock Disk.lockArg 124 s := by
    refine ⟨rfl, fun _ _ id hid => ?_, _, _, hanswered⟩
    rw [hid] at hfd
    have hh : id.h = 3 := Option.some.inj hfd
    rw [hh]
    exact hknown
  have hr : Rpc.WellFormed Disk.fns Disk.openFn .flat (.call .lock) Disk.lockArg 124 s := hlock
  exact ⟨s, hs, (disclosesNothing_iff_covered Disk.fns Disk.openFn .flat Disk.sqlite3OsInit rfl
    ⟨[], 3⟩ hs hr).mpr trivial⟩

/-- A Close sends back the memory in front of its result code. -/
theorem not_disclosesNothing : ¬ ∀ s, Disk.opened = some s →
    ∀ rpc n (argIn : Buf n) outlen, Rpc.WellFormed Disk.fns Disk.openFn .flat rpc argIn outlen s →
      Rpc.DisclosesNothing Disk.fns Disk.openFn .flat Disk.sqlite3OsInit rpc argIn outlen s := by
  intro hall
  obtain ⟨s, hs⟩ := Option.isSome_iff_exists.mp (by decide +kernel : Disk.opened.isSome)
  have hanswered : Disk.opened.all fun s => (reply Disk.fns Disk.openFn .flat .close
    Tracked.closeRequest.argIn s (fun _ => 0) (Buf.zeros 124)).isSome := by decide +kernel
  rw [hs] at hanswered
  have hr : WellFormed Disk.fns Disk.openFn .flat .close Tracked.closeRequest.argIn 124 s :=
    ⟨rfl, fun _ hclose => absurd rfl hclose, _, _, hanswered⟩
  exact discloses_close hr (hall s hs (.call .close) _ _ _ hr)

end RemoteVfs
