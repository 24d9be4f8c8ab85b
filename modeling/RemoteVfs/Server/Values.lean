import RemoteVfs.Client
import RemoteVfs.Server

/-!
# What a wrapper does, in values

For a descriptor that the table binds, a request that arrives makes the server
run its function on the image and the path, and the client gets what it left.
-/

open CMem

namespace RemoteVfs

/-- The node `a` says that `fd` belongs to `method` and to the file at `p`. -/
structure FdTable.Binds (t : FdTable) (fd : CInt) (a : Nat) (method : Ptr) (p : List Byte) :
    Prop where
  node : t.node? fd = some a
  method_eq : (t.mem a).method = method
  method_ne : method ≠ 0
  path : cstr (t.mem a).path.val = some p

namespace FdTable.Binds

variable {t : FdTable} {fd : CInt} {a : Nat} {method : Ptr} {p : List Byte}
  (h : t.Binds fd a method p)
include h

theorem lookup : t.lookup fd = some (method, (t.mem a).path) := by
  rw [FdTable.lookup, h.node, Option.map_some, h.method_eq]

theorem getServerUnixPMethods (hv : t.Valid) (A : Addresses) (pf : UnixFile) :
    t.getServerUnixPMethods A fd pf = some (t, { pf with pMethod := method }) := by
  have hmethod : serverMethod A (t.lookup fd) = method := by
    rw [h.lookup]
    exact if_neg h.method_ne
  rw [hv.getServerUnixPMethods, ensureList_of_node? h.node, hmethod]

theorem getServicePath (hv : t.Valid) (A : Addresses) (id : UnixFile) :
    t.getServicePath A fd id = some (t, { id with zPath := A.nodePath a }, some a) := by
  rw [hv.getServicePath, ensureList_of_node? h.node, h.node]
  rfl

end FdTable.Binds

variable {OS : Type} (fns : UnixFns OS) (A : Addresses) {m : Nat}

/-- The image after a file method that computed `g`, in the hands of the server. -/
def boundImage (a : Nat) (method : Ptr) (id g : UnixFile) : UnixFile :=
  { id.keep g with pMethod := method, zPath := A.nodePath a }

theorem wrapFile_bound {α β : Type} {id : UnixFile} (args : α)
    (method : UnixFile → Path → α → OS → Option (UnixFile × β × OS))
    (returnToChar : UnixFile → β → Buf m → Option (Buf m)) (argOut : Buf m) {s : Server OS}
    (hv : s.table.Valid) {a : Nat} {pm : Ptr} {p : List Byte} (hb : s.table.Binds id.h a pm p) :
    wrapFile fns A (some (id, args)) method returnToChar argOut s =
      (method id.core (some p) args s.os).bind fun (g, ret, os) =>
        (returnToChar (boundImage A a pm id g) ret argOut).map (·, ⟨s.table, os⟩) := by
  simp only [wrapFile, Option.bind_eq_bind, Option.bind_some, hb.getServerUnixPMethods hv,
    hb.getServicePath hv, zPathMemory, hb.path]
  have hcore : UnixFile.core { id with pMethod := pm, zPath := A.nodePath a } = id.core := rfl
  rw [hcore]
  congr 1
  funext ⟨g, ret, os⟩
  have hset : s.table.setServerUnixPMethods id.h (boundImage A a pm id g) = some s.table :=
    hv.addNode_same hb.lookup
  have hpath := hv.setServicePath_same hb.node hb.path
  have himage : UnixFile.keep { id with pMethod := pm, zPath := A.nodePath a } g =
      boundImage A a pm id g := rfl
  have hfd : (boundImage A a pm id g).h = id.h := rfl
  simp only [himage, hfd, hset, Option.bind_some, hpath]
  cases returnToChar (boundImage A a pm id g) ret argOut <;> rfl

theorem serve_file {n : Nat} {α β γ δ : Type} {s : Server OS} {img g : UnixFile} {args : α}
    {ret : β} {os : OS} {v : γ} (hv : s.table.Valid) {a : Nat} {pm : Ptr} {p : List Byte}
    (hb : s.table.Binds img.h a pm p) {request : Option (Buf n)}
    {charToArgIn : Buf n → Option (UnixFile × α)}
    (hreq : request.bind charToArgIn = some (img, args))
    (method : UnixFile → Path → α → OS → Option (UnixFile × β × OS))
    (hmethod : method img.core (some p) args s.os = some (g, ret, os))
    (returnToChar : UnixFile → β → Buf m → Option (Buf m)) {out : Buf m}
    {charToReturn : Buf m → Option γ}
    (hrep : (returnToChar (boundImage A a pm img g) ret out).bind charToReturn = some v)
    (f : γ → δ) : ∃ argIn outarg, request = some argIn ∧
      wrapFile fns A (charToArgIn argIn) method returnToChar out s =
        some (outarg, ⟨s.table, os⟩) ∧
      (charToReturn outarg).map f = some (f v) := by
  obtain ⟨argIn, hargIn, hdec⟩ := Option.bind_eq_some_iff.mp hreq
  obtain ⟨outarg, hout, hconv⟩ := Option.bind_eq_some_iff.mp hrep
  refine ⟨argIn, outarg, hargIn, ?_, by rw [hconv, Option.map_some]⟩
  rw [hdec, wrapFile_bound fns A args method returnToChar out hv hb, hmethod]
  simp only [Option.bind_some, hout, Option.map_some]

/-- The close routine of a locking style. -/
def UnixFns.closeMethod : LockingStyle → UnixFile → Path → OS → CInt × OS
  | .posix => fns.unixClose
  | .nolock => fns.nolockClose

theorem xClose_ioMethods (style : LockingStyle) (id : UnixFile) (zPath : Path) (os : OS) :
    xClose fns A (A.ioMethods style) id zPath os = some (fns.closeMethod style id zPath os) := by
  cases style with
  | posix => exact if_pos rfl
  | nolock => exact (if_neg A.posix_ne_nolock.symm).trans (if_pos rfl)

theorem wrapClose_bound (garbage : Nat → Byte) {n : Nat} {argIn : Buf n} {id : UnixFile}
    (hdec : argIn.get UnixFile 0 = some id) {s : Server OS} (hv : s.table.Valid) {a : Nat}
    {style : LockingStyle} {p : List Byte}
    (hb : s.table.Binds id.h a (A.ioMethods style) p) (argOut : Buf m) :
    wrapClose fns A garbage argIn argOut s =
      (unixCloseConvertReturnToChar (fns.closeMethod style id.core (some p) s.os).1 argOut).map
        (·, ⟨s.table, (fns.closeMethod style id.core (some p) s.os).2⟩) := by
  have hcore : UnixFile.core { id with pMethod := A.ioMethods style, zPath := A.nodePath a } =
      id.core := rfl
  simp only [wrapClose, unixCloseConvertCharToArgIn, hdec, Option.bind_eq_bind, Option.bind_some,
    hb.getServerUnixPMethods hv, hb.getServicePath hv, zPathMemory, hb.path, if_pos hb.method_ne,
    hcore, xClose_ioMethods]
  cases unixCloseConvertReturnToChar _ argOut <;> rfl

/-! ## Calls on an open file -/

/-- What the function of a call does on the server. `none` where the call has no
file, or touches memory that is not there. -/
def Call.unixMethod (style : LockingStyle) (id : UnixFile) (zPath : Path) (os : OS) :
    Call → Option (UnixFile × Result × OS)
  | .xWrite pBuf amt offset => do
    let data ← (Buf.ofObject pBuf).read 0 (sizeT amt)
    let (id, rc, os) := fns.unixWrite id zPath data offset os
    return (id, ⟨rc, .nothing⟩, os)
  | .xRead pBuf amt offset => do
    let data ← (Buf.ofObject pBuf).take (sizeT amt)
    let (id, data, rc, os) := fns.unixRead id zPath data offset os
    return (id, ⟨rc, .bytes ((Buf.ofObject pBuf).splice 0 data.val).val⟩, os)
  | .xTruncate nByte =>
    let (id, rc, os) := fns.unixTruncate id zPath nByte os
    some (id, ⟨rc, .nothing⟩, os)
  | .xSync flags =>
    let (id, rc, os) := fns.unixSync id zPath flags os
    some (id, ⟨rc, .nothing⟩, os)
  | .xFileSize pSize =>
    let (id, (pSize, rc), os) := fns.unixFileSize id zPath pSize os
    some (id, ⟨rc, .i64 pSize⟩, os)
  | .xFileControl op pArg =>
    if controlType op = 0 then
      let (id, _, rc, os) := fns.unixFileControl id zPath op none os
      some (id, ⟨rc, .object pArg⟩, os)
    else do
      let obj ← pArg
      let arg ← (Buf.ofObject obj).take (argLen op)
      let (id, arg', rc, os) := fns.unixFileControl id zPath op (some arg) os
      return (id, ⟨rc, .object (some ((Buf.ofObject obj).splice 0 (arg'.getD arg).val).val)⟩, os)
  | .xSectorSize =>
    let (id, rc, os) := fns.unixSectorSize id zPath os
    some (id, ⟨rc, .nothing⟩, os)
  | .xDeviceCharacteristics =>
    let (id, rc, os) := fns.unixDeviceCharacteristics id zPath os
    some (id, ⟨rc, .nothing⟩, os)
  | .xClose =>
    let (rc, os) := fns.closeMethod style id zPath os
    some (id, ⟨rc, .nothing⟩, os)
  | .xLock eFileLock =>
    let (id, rc, os) := fns.unixLock id zPath eFileLock os
    some (id, ⟨rc, .nothing⟩, os)
  | .xUnlock eFileLock =>
    let (id, rc, os) := fns.unixUnlock id zPath eFileLock os
    some (id, ⟨rc, .nothing⟩, os)
  | .xCheckReservedLock resOut =>
    let (id, (resOut, rc), os) := fns.unixCheckReservedLock id zPath resOut os
    some (id, ⟨rc, .int resOut⟩, os)
  | .xFetch iOff nAmt => do
    let (id, pData, rc, os) := fns.unixFetch id zPath iOff nAmt os
    let data ← (Buf.ofObject (← pData)).read 0 (sizeT nAmt)
    return (id, ⟨rc, .bytes data⟩, os)
  | .xUnfetch iOff p =>
    let (id, rc, os) := fns.unixUnfetch id zPath iOff (p ≠ 0) os
    some (id, ⟨rc, .nothing⟩, os)
  | .xOpen .. | .xDelete .. | .xAccess .. | .xGetLastError => none

/-- Transfers that the messages have room for, and arguments that they carry. -/
def Call.Sized : Call → Prop
  | .xWrite _ amt _ | .xRead _ amt _ => 0 ≤ amt.toInt ∧ amt.toInt ≤ maxSize
  | .xFetch _ nAmt => 0 < nAmt.toInt ∧ nAmt.toInt ≤ maxSize
  | .xFileControl op pArg => controlType op = 0 ∨ controlType op ≤ 2 ∧ pArg.isSome
  | _ => True

/-- The client's image after the call, when the server's function left `left`. -/
def Call.imageAfter (id left : UnixFile) : Call → UnixFile
  | .xClose => setClientRemotePMethods A id
  | .xUnfetch .. => setClientRemotePMethods A { id with pMethod := left.pMethod }
  | _ => setClientRemotePMethods A left

theorem sizeT_le_of_sized {amt : CInt} (h : 0 ≤ amt.toInt ∧ amt.toInt ≤ maxSize) :
    sizeT amt ≤ 8192 := by
  rw [sizeT_of_nonneg amt h.1]
  have := h.2
  simp only [maxSize_eq, Nat.cast_ofNat] at this
  omega

theorem lenFileControlPArg_eq (strlen : Ptr → Option Nat) {op : CInt}
    (h : controlType op = 1 ∨ controlType op = 2) (obj : List Byte) :
    lenFileControlPArg strlen op (some obj) = some (BitVec.ofNat 32 (argLen op)) := by
  rcases h with h | h <;> simp [lenFileControlPArg, argLen, h]

theorem lenFileControlPArg_zero (strlen : Ptr → Option Nat) {op : CInt}
    (h : controlType op = 0) (pArg : Option (List Byte)) :
    lenFileControlPArg strlen op pArg = some 0 := by
  cases pArg <;> simp [lenFileControlPArg, h]

theorem argLen_size {op : CInt} (h : controlType op = 1 ∨ controlType op = 2) :
    sizeT (BitVec.ofNat 32 (argLen op)) = argLen op ∧ argLen op ≤ 8 ∧
      0 < (BitVec.ofNat 32 (argLen op)).toInt := by
  rcases h with h | h <;> simp [argLen, h] <;> decide

/-- A call that goes all the way: the request is filled, the server in state `s`
answers it and is in state `s'` then, and the client reads `img'` and `res`. -/
def Call.Carried (c : Call) (strlen : Ptr → Option Nat) (garbage stack : Nat → Byte)
    (out : Buf c.op.returnSize) (img img' : UnixFile) (s s' : Server OS) (res : Result) : Prop :=
  ∃ argIn outarg, (c.remote A strlen stack img).argInChar = some argIn ∧
    serve fns A garbage c.op argIn out s = some (outarg, s') ∧
    (c.remote A strlen stack img).charToReturn outarg = some (img', res)

section Carried

variable {fns A} {img g : UnixFile} {s : Server OS} {a : Nat} {style : LockingStyle}
  {p : List Byte} {res : Result} {os : OS} (hv : s.table.Valid)
  (hb : s.table.Binds img.h a (A.ioMethods style) p)
  (strlen : Ptr → Option Nat) (garbage stack : Nat → Byte)
include hv hb

theorem xWrite_carried {pBuf : List Byte} {amt : CInt} {offset : I64}
    (hsized : (Call.xWrite pBuf amt offset).Sized)
    (hrun : (Call.xWrite pBuf amt offset).unixMethod fns style img.core (some p) s.os =
      some (g, res, os)) (out : Buf (Op.returnSize .write)) :
    (Call.xWrite pBuf amt offset).Carried fns A strlen garbage stack out img
      (setClientRemotePMethods A (boundImage A a (A.ioMethods style) img g)) s ⟨s.table, os⟩
      res := by
  obtain ⟨data, hdata, hrun⟩ := Option.bind_eq_some_iff.mp hrun
  obtain ⟨hle, rfl⟩ := Buf.read_eq_some hdata
  rcases hr : fns.unixWrite img.core (some p) ((Buf.ofObject pBuf).slice 0 (sizeT amt)) offset s.os
    with ⟨g', rc, os'⟩
  simp only [hr, Option.pure_def, Option.some.injEq, Prod.mk.injEq] at hrun
  obtain ⟨rfl, rfl, rfl⟩ := hrun
  have hamt := sizeT_le_of_sized hsized
  have hreq := unixRead_request img (Buf.ofObject pBuf) amt offset
    (Buf.zeros (Op.argInSize .write)) (by decide) hamt (by omega) (Buf.uninit garbage 8192)
  have hlen := Buf.slice_length (Buf.ofObject pBuf) 0 (sizeT amt) hle
  have hmethod : runWrite fns img.core (some p) ((Buf.uninit garbage 8192).splice 0
      ((Buf.ofObject pBuf).slice 0 (sizeT amt)), amt, offset) s.os = some (g', rc, os') := by
    simp [runWrite, hamt, hlen, hr]
  have hrep := unixWrite_reply A (boundImage A a (A.ioMethods style) img g') rc out (by decide)
  exact serve_file fns A hv hb hreq (runWrite fns) hmethod unixWriteConvertReturnToChar hrep rcOnly

theorem xRead_carried {pBuf : List Byte} {amt : CInt} {offset : I64}
    (hsized : (Call.xRead pBuf amt offset).Sized)
    (hrun : (Call.xRead pBuf amt offset).unixMethod fns style img.core (some p) s.os =
      some (g, res, os)) (out : Buf (Op.returnSize .read)) :
    (Call.xRead pBuf amt offset).Carried fns A strlen garbage stack out img
      (setClientRemotePMethods A (boundImage A a (A.ioMethods style) img g)) s ⟨s.table, os⟩
      res := by
  obtain ⟨data, hdata, hrun⟩ := Option.bind_eq_some_iff.mp hrun
  obtain ⟨hle, hslice⟩ := Buf.take_eq_some hdata
  rcases hr : fns.unixRead img.core (some p) data offset s.os with ⟨g', data', rc, os'⟩
  simp only [hr, Option.pure_def, Option.some.injEq, Prod.mk.injEq] at hrun
  obtain ⟨rfl, rfl, rfl⟩ := hrun
  have hamt := sizeT_le_of_sized hsized
  have hreq := unixRead_request img (Buf.ofObject pBuf) amt offset
    (Buf.zeros (Op.argInSize .read)) (by decide) hamt hle (Buf.uninit garbage 8192)
  rw [hslice] at hreq
  have htake : ((Buf.uninit garbage 8192).splice 0 data.val).take (sizeT amt) = some data := by
    rw [Buf.take_eq _ hamt]
    exact congrArg some (Subtype.ext (Buf.slice_splice _ _ data.property (by omega)))
  have hwrite : ∀ b : Buf 8192, b.write 0 data'.val = some (b.splice 0 data'.val) :=
    fun b => Buf.write_eq b (by rw [data'.property]; omega)
  have hmethod : runRead fns img.core (some p)
      ((Buf.uninit garbage 8192).splice 0 data.val, amt, offset) s.os = some (g',
        (((Buf.uninit garbage 8192).splice 0 data.val).splice 0 data'.val, amt, rc), os') := by
    simp only [runRead, htake, Option.bind_eq_bind, Option.bind_some, hr, hwrite, Option.pure_def]
  have hrep := unixRead_reply A (boundImage A a (A.ioMethods style) img g')
    (((Buf.uninit garbage 8192).splice 0 data.val).splice 0 data'.val) amt rc out (by decide) hamt
    hamt (Buf.ofObject pBuf) hle
  rw [Buf.slice_splice _ _ data'.property (by omega)] at hrep
  exact serve_file fns A hv hb hreq (runRead fns) hmethod
    (fun id ret => unixReadConvertReturnToChar id ret.1 ret.2.1 ret.2.2) hrep (outRc .ofBuf)

theorem xFileControl_carried {op : CInt} {obj : List Byte}
    (hop : controlType op = 1 ∨ controlType op = 2)
    (hrun : (Call.xFileControl op (some obj)).unixMethod fns style img.core (some p) s.os =
      some (g, res, os)) (out : Buf (Op.returnSize .fileControl)) :
    (Call.xFileControl op (some obj)).Carried fns A strlen garbage stack out img
      (setClientRemotePMethods A (boundImage A a (A.ioMethods style) img g)) s ⟨s.table, os⟩
      res := by
  have hne : controlType op ≠ 0 := by rcases hop with h | h <;> simp [h]
  obtain ⟨hsize, hle8, hpos⟩ := argLen_size hop
  simp only [Call.unixMethod, if_neg hne, Option.bind_eq_bind, Option.bind_some] at hrun
  obtain ⟨arg, harg, hrun⟩ := Option.bind_eq_some_iff.mp hrun
  obtain ⟨hle, hslice⟩ := Buf.take_eq_some harg
  rcases hr : fns.unixFileControl img.core (some p) op (some arg) s.os with ⟨g', arg', rc, os'⟩
  simp only [hr, Option.pure_def, Option.some.injEq, Prod.mk.injEq] at hrun
  obtain ⟨rfl, rfl, rfl⟩ := hrun
  have hreq := unixFileControl_request img op obj (BitVec.ofNat 32 (argLen op))
    (Buf.zeros (Op.argInSize .fileControl)) (by decide) (by omega) (by omega) hpos
    (Buf.uninit garbage 512)
  rw [hsize, hslice] at hreq
  have hfill : (do
      let size ← lenFileControlPArg strlen op (some obj)
      unixFileControlConvertArgInToChar img op (some obj)
        (Buf.zeros (Op.argInSize .fileControl)) size) =
      unixFileControlConvertArgInToChar img op (some obj)
        (Buf.zeros (Op.argInSize .fileControl)) (BitVec.ofNat 32 (argLen op)) := by
    rw [lenFileControlPArg_eq strlen hop]
    rfl
  rw [← hfill] at hreq
  let pArg := (Buf.uninit garbage 512).splice 0 arg.val
  let pArg' := arg'.elim pArg fun b => pArg.splice 0 b.val
  have htake : pArg.take (argLen op) = some arg := by
    rw [Buf.take_eq _ (by omega)]
    exact congrArg some (Subtype.ext (Buf.slice_splice _ _ arg.property (by omega)))
  have hmethod : runFileControl fns img.core (some p)
      (op, pArg, BitVec.ofNat 32 (argLen op)) s.os = some (g', (op, pArg', rc, os'), os') := by
    have hwrite : ∀ b : Buf (argLen op), pArg.write 0 b.val = some (pArg.splice 0 b.val) :=
      fun b => Buf.write_eq pArg (by rw [b.property]; omega)
    simp only [runFileControl, if_pos hpos, htake, Option.map_some, Option.bind_eq_bind,
      Option.bind_some, hr, Option.pure_def]
    cases arg' with
    | none => rfl
    | some b =>
      simp only [hwrite]
      rfl
  have hpayload : pArg'.slice 0 (argLen op) = (arg'.getD arg).val := by
    cases arg' with
    | none => exact Buf.slice_splice _ _ arg.property (by omega)
    | some b => exact Buf.slice_splice _ _ b.property (by omega)
  have hrep := unixFileControl_reply A (boundImage A a (A.ioMethods style) img g') pArg' rc
    (BitVec.ofNat 32 (argLen op)) out (by decide) (by omega) (by omega) hpos obj (by omega)
  rw [hsize, hpayload] at hrep
  have hlen : ∀ image out, returnFileControl fns image (op, pArg', rc, os') out =
      unixFileControlConvertReturnToChar image pArg' rc (out : Buf (Op.returnSize .fileControl))
        (BitVec.ofNat 32 (argLen op)) := by
    intro image out
    simp only [returnFileControl, lenFileControlPArg_eq _ hop, Option.bind_eq_bind,
      Option.bind_some]
  rw [← hlen] at hrep
  exact serve_file fns A hv hb hreq (runFileControl fns) hmethod (returnFileControl fns) hrep
    (outRc .object)

theorem xFileControl_carried_zero {op : CInt} {pArg : Option (List Byte)}
    (hop : controlType op = 0)
    (hrun : (Call.xFileControl op pArg).unixMethod fns style img.core (some p) s.os =
      some (g, res, os)) (out : Buf (Op.returnSize .fileControl)) :
    (Call.xFileControl op pArg).Carried fns A strlen garbage stack out img
      (setClientRemotePMethods A (boundImage A a (A.ioMethods style) img g)) s ⟨s.table, os⟩
      res := by
  have hlen0 : argLen op = 0 := by simp [argLen, hop]
  rcases hr : fns.unixFileControl img.core (some p) op none s.os with ⟨g', arg', rc, os'⟩
  rw [Call.unixMethod, if_pos hop] at hrun
  simp only [hr, Option.some.injEq, Prod.mk.injEq] at hrun
  obtain ⟨rfl, rfl, rfl⟩ := hrun
  have hreq := unixFileControl_request_empty img op pArg 0
    (Buf.zeros (Op.argInSize .fileControl)) (by decide) (by decide) (Buf.uninit garbage 512)
  have hfill : (do
      let size ← lenFileControlPArg strlen op pArg
      unixFileControlConvertArgInToChar img op pArg (Buf.zeros (Op.argInSize .fileControl)) size) =
      unixFileControlConvertArgInToChar img op pArg (Buf.zeros (Op.argInSize .fileControl)) 0 := by
    rw [lenFileControlPArg_zero strlen hop]
    rfl
  rw [← hfill] at hreq
  let local_ := Buf.uninit garbage 512
  let local' := arg'.elim local_ fun b => local_.splice 0 b.val
  have hmethod : runFileControl fns img.core (some p) (op, local_, 0) s.os =
      some (g', (op, local', rc, os'), os') := by
    have hwrite : ∀ b : Buf (argLen op), local_.write 0 b.val = some (local_.splice 0 b.val) :=
      fun b => Buf.write_eq local_ (by rw [b.property]; omega)
    have h0 : ¬ 0 < (0 : CInt).toInt := by decide
    simp only [runFileControl, if_neg h0, Option.bind_eq_bind, Option.bind_some, hr,
      Option.pure_def]
    cases arg' with
    | none => rfl
    | some b =>
      simp only [hwrite]
      rfl
  have hrep := unixFileControl_reply_empty A (boundImage A a (A.ioMethods style) img g') local' rc
    0 out (by decide) (by decide) pArg
  have hlen : ∀ image out, returnFileControl fns image (op, local', rc, os') out =
      unixFileControlConvertReturnToChar image local' rc (out : Buf (Op.returnSize .fileControl))
        0 := by
    intro image out
    simp only [returnFileControl, lenFileControlPArg_zero _ hop, Option.bind_eq_bind,
      Option.bind_some]
  rw [← hlen] at hrep
  exact serve_file fns A hv hb hreq (runFileControl fns) hmethod (returnFileControl fns) hrep
    (outRc .object)

theorem xFetch_carried {iOff : I64} {nAmt : CInt} (hsized : (Call.xFetch iOff nAmt).Sized)
    (hrun : (Call.xFetch iOff nAmt).unixMethod fns style img.core (some p) s.os =
      some (g, res, os)) (out : Buf (Op.returnSize .fetch)) :
    (Call.xFetch iOff nAmt).Carried fns A strlen garbage stack out img
      (setClientRemotePMethods A (boundImage A a (A.ioMethods style) img g)) s ⟨s.table, os⟩
      res := by
  rcases hr : fns.unixFetch img.core (some p) iOff nAmt s.os with ⟨g', pData, rc, os'⟩
  simp only [Call.unixMethod, hr, Option.bind_eq_bind] at hrun
  obtain ⟨pp, hpp, hrun⟩ := Option.bind_eq_some_iff.mp hrun
  obtain ⟨data, hdata, hrun⟩ := Option.bind_eq_some_iff.mp hrun
  obtain ⟨hle, hslice⟩ := Buf.read_eq_some hdata
  simp only [Option.pure_def, Option.some.injEq, Prod.mk.injEq] at hrun
  obtain ⟨rfl, rfl, rfl⟩ := hrun
  subst hpp
  have hpos : ¬ nAmt.toInt ≤ 0 := by
    have := hsized.1
    omega
  have hamt := sizeT_le_of_sized ⟨hsized.1.le, hsized.2⟩
  have hreq := unixFetch_request img iOff nAmt (Buf.zeros (Op.argInSize .fetch)) (by decide)
  have hmethod : direct (runFetch fns) img.core (some p) (iOff, nAmt) s.os =
      some (g', (some pp, nAmt, rc), os') := by
    simp only [direct, runFetch, hr]
  have hrep := unixFetch_reply A (boundImage A a (A.ioMethods style) img g') pp nAmt rc out
    (by decide) hamt (by omega) (Buf.uninit stack (sizeT nAmt)) le_rfl
  have hconv : (remoteFetch A stack img iOff nAmt).charToReturn =
      (unixFetchConvertCharToReturn A · (Buf.uninit stack (sizeT nAmt)) nAmt) := by
    funext out
    exact if_neg hpos
  rw [← hconv, hslice] at hrep
  have hlen : data.length = sizeT nAmt := hslice ▸ Buf.slice_length _ _ _ hle
  have hout : ((Buf.uninit stack (sizeT nAmt)).splice 0 data).val = data := by
    rw [Buf.splice_val _ _ _ (by omega)]
    simp [Buf.uninit, hlen]
  have hres := serve_file fns A hv hb hreq (direct (runFetch fns)) hmethod
    (fun id ret => unixFetchsConvertReturnToChar id ret.1 ret.2.1 ret.2.2) hrep (outRc .ofBuf)
  simp only [outRc, Out.ofBuf, hout] at hres
  exact hres

theorem xClose_carried
    (hrun : Call.xClose.unixMethod fns style img.core (some p) s.os = some (g, res, os))
    (out : Buf (Op.returnSize .close)) : Call.xClose.Carried fns A strlen garbage stack out img
      (setClientRemotePMethods A img) s ⟨s.table, os⟩ res := by
  simp only [Call.unixMethod, Option.some.injEq, Prod.mk.injEq] at hrun
  obtain ⟨-, rfl, rfl⟩ := hrun
  obtain ⟨argIn, hargIn, hdec⟩ := Option.bind_eq_some_iff.mp
    (getImage_put img (Buf.zeros (Op.argInSize .close)) (by decide))
  obtain ⟨outarg, hout, hconv⟩ := Option.bind_eq_some_iff.mp
    (unixClose_reply A (fns.closeMethod style img.core (some p) s.os).1 out (by decide) img)
  refine ⟨argIn, outarg, hargIn, ?_, congrArg (Option.map rcOnly) hconv⟩
  exact (wrapClose_bound fns A garbage hdec hv hb out).trans (congrArg (Option.map _) hout)

theorem xUnfetch_carried {iOff : I64} {pData : Ptr}
    (hrun : (Call.xUnfetch iOff pData).unixMethod fns style img.core (some p) s.os =
      some (g, res, os)) (out : Buf (Op.returnSize .unfetch)) :
    (Call.xUnfetch iOff pData).Carried fns A strlen garbage stack out img
      (setClientRemotePMethods A
        { img with pMethod := (boundImage A a (A.ioMethods style) img g).pMethod })
      s ⟨s.table, os⟩ res := by
  have hflag : ((if pData = 0 then (0 : CInt) else 1) ≠ 0) ↔ pData ≠ 0 := by
    split <;> simp_all
  rcases hr : fns.unixUnfetch img.core (some p) iOff (pData ≠ 0) s.os with ⟨g', rc, os'⟩
  simp only [Call.unixMethod, hr, Option.some.injEq, Prod.mk.injEq] at hrun
  obtain ⟨rfl, rfl, rfl⟩ := hrun
  have hreq := unixFetch_request img iOff (if pData = 0 then 0 else 1)
    (Buf.zeros (Op.argInSize .unfetch)) (by decide)
  have hmethod : direct (runUnfetch fns) img.core (some p)
      (iOff, if pData = 0 then 0 else 1) s.os = some (g', rc, os') := by
    simp only [direct, runUnfetch, hflag, hr]
  have hrep := unixUnfetch_reply A (boundImage A a (A.ioMethods style) img g') rc out
    (by decide) img
  exact serve_file fns A hv hb hreq (direct (runUnfetch fns)) hmethod putImageAnd hrep rcOnly

section Shapes

variable {n k : Nat} {α : Type} {args : α} {request : Option (Buf n)} {out : Buf k}
  {charToArgIn : Buf n → Option (UnixFile × α)}
  (hreq : request.bind charToArgIn = some (img, args))
include hreq

omit strlen garbage stack in
theorem carried_rcOnly (method : UnixFile → Path → α → OS → UnixFile × CInt × OS)
    (hrun : (direct method img.core (some p) args s.os).map
      (fun r => (r.1, (⟨r.2.1, .nothing⟩ : Result), r.2.2)) = some (g, res, os))
    (hk : 124 ≤ k) : ∃ argIn outarg, request = some argIn ∧
      wrapFile fns A (charToArgIn argIn) (direct method) putImageAnd out s =
        some (outarg, ⟨s.table, os⟩) ∧
      (returnImageAndInt A outarg).map rcOnly =
        some (setClientRemotePMethods A (boundImage A a (A.ioMethods style) img g), res) := by
  obtain ⟨⟨g', rc, os'⟩, hr, hrun⟩ := Option.map_eq_some_iff.mp hrun
  obtain ⟨rfl, rfl, rfl⟩ := hrun
  have hrep := returnImageAndInt_put A (boundImage A a (A.ioMethods style) img g') rc out hk
  exact serve_file fns A hv hb hreq (direct method) hr putImageAnd hrep rcOnly

omit strlen garbage stack in
theorem carried_outRc {β : Type} [CType β] {f : β → Out}
    (method : UnixFile → Path → α → OS → UnixFile × (β × CInt) × OS)
    (hrun : (direct method img.core (some p) args s.os).map
      (fun r => (r.1, (⟨r.2.1.2, f r.2.1.1⟩ : Result), r.2.2)) = some (g, res, os))
    (hk : 124 + sizeof β ≤ k) : ∃ argIn outarg, request = some argIn ∧
      wrapFile fns A (charToArgIn argIn) (direct method)
        (fun id ret => putImageOutRc id ret.1 ret.2) out s = some (outarg, ⟨s.table, os⟩) ∧
      (returnImageOutRc A β outarg).map (outRc f) =
        some (setClientRemotePMethods A (boundImage A a (A.ioMethods style) img g), res) := by
  obtain ⟨⟨g', ⟨x, rc⟩, os'⟩, hr, hrun⟩ := Option.map_eq_some_iff.mp hrun
  obtain ⟨rfl, rfl, rfl⟩ := hrun
  have hrep := returnImageOutRc_put A (boundImage A a (A.ioMethods style) img g') x rc out hk
  exact serve_file fns A hv hb hreq (direct method) hr (fun id ret => putImageOutRc id ret.1 ret.2)
    hrep (outRc f)

end Shapes

end Carried

theorem Call.carried {c : Call} (hsized : c.Sized) {img g : UnixFile} {s : Server OS}
    (hv : s.table.Valid) {a : Nat} {style : LockingStyle} {p : List Byte}
    (hb : s.table.Binds img.h a (A.ioMethods style) p) {res : Result} {os : OS}
    (hrun : c.unixMethod fns style img.core (some p) s.os = some (g, res, os))
    (strlen : Ptr → Option Nat) (garbage stack : Nat → Byte) (out : Buf c.op.returnSize) :
    c.Carried fns A strlen garbage stack out img
      (c.imageAfter A img (boundImage A a (A.ioMethods style) img g)) s ⟨s.table, os⟩ res := by
  cases c with
  | xOpen zPath pFile flags pOutFlags | xDelete zPath dirSync | xAccess zPath flags resOut
  | xGetLastError => cases hrun
  | xWrite pBuf amt offset => exact xWrite_carried hv hb strlen garbage stack hsized hrun out
  | xRead pBuf amt offset => exact xRead_carried hv hb strlen garbage stack hsized hrun out
  | xFetch iOff nAmt => exact xFetch_carried hv hb strlen garbage stack hsized hrun out
  | xClose => exact xClose_carried hv hb strlen garbage stack hrun out
  | xUnfetch iOff pData => exact xUnfetch_carried hv hb strlen garbage stack hrun out
  | xFileControl op pArg =>
    rcases hsized with hop | ⟨hle, hsome⟩
    · exact xFileControl_carried_zero hv hb strlen garbage stack hop hrun out
    · by_cases hop : controlType op = 0
      · exact xFileControl_carried_zero hv hb strlen garbage stack hop hrun out
      · obtain ⟨obj, rfl⟩ := Option.isSome_iff_exists.mp hsome
        exact xFileControl_carried hv hb strlen garbage stack (by omega) hrun out
  | xTruncate nByte =>
    have hreq := getImageAnd_put img nByte (Buf.zeros (Op.argInSize .truncate)) (by decide)
    exact carried_rcOnly hv hb hreq fns.unixTruncate hrun
      (by decide : 124 ≤ Op.returnSize .truncate)
  | xSync flags =>
    have hreq := getImageAnd_put img flags (Buf.zeros (Op.argInSize .sync)) (by decide)
    exact carried_rcOnly hv hb hreq fns.unixSync hrun (by decide : 124 ≤ Op.returnSize .sync)
  | xLock eFileLock =>
    have hreq := getImageAnd_put img eFileLock (Buf.zeros (Op.argInSize .lock)) (by decide)
    exact carried_rcOnly hv hb hreq fns.unixLock hrun (by decide : 124 ≤ Op.returnSize .lock)
  | xUnlock eFileLock =>
    have hreq := getImageAnd_put img eFileLock (Buf.zeros (Op.argInSize .unlock)) (by decide)
    exact carried_rcOnly hv hb hreq fns.unixUnlock hrun (by decide : 124 ≤ Op.returnSize .unlock)
  | xSectorSize =>
    have hreq := getImageUnit_put img (Buf.zeros (Op.argInSize .sectorSize)) (by decide)
    exact carried_rcOnly hv hb hreq (fun id zPath _ => fns.unixSectorSize id zPath) hrun
      (by decide : 124 ≤ Op.returnSize .sectorSize)
  | xDeviceCharacteristics =>
    have hreq := getImageUnit_put img (Buf.zeros (Op.argInSize .deviceCharacteristics)) (by decide)
    exact carried_rcOnly hv hb hreq (fun id zPath _ => fns.unixDeviceCharacteristics id zPath) hrun
      (by decide : 124 ≤ Op.returnSize .deviceCharacteristics)
  | xFileSize pSize =>
    have hreq := getImageAnd_put img pSize (Buf.zeros (Op.argInSize .fileSize)) (by decide)
    exact carried_outRc hv hb hreq fns.unixFileSize hrun
      (by decide : 124 + sizeof I64 ≤ Op.returnSize .fileSize)
  | xCheckReservedLock resOut =>
    have hreq := getImageAnd_put img resOut (Buf.zeros (Op.argInSize .checkReservedLock))
      (by decide)
    exact carried_outRc hv hb hreq fns.unixCheckReservedLock hrun
      (by decide : 124 + sizeof CInt ≤ Op.returnSize .checkReservedLock)

end RemoteVfs
