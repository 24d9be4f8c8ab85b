import RemoteVfs.Client
import RemoteVfs.Server.Shape

/-!
# Requests and replies on the client

A request on a file begins with the image. Most replies begin with one too, and the
client takes it, with a pointer of its own in `pMethod`.
-/

open CMem

namespace RemoteVfs

variable {A : Addresses} {n : Nat}

/-! ## Requests -/

theorem putImage_read {k : Nat} {id : UnixFile} {pBuf : Buf k} {amt : CInt} {offset : I64}
    {arg arg' : Buf n} (h : unixReadConvertArgInToChar id pBuf amt offset arg = some arg') :
    arg'.get UnixFile 0 = some id := by
  obtain ⟨arg₁, h₁, h⟩ := Option.bind_eq_some_iff.mp h
  obtain ⟨arg₂, h₂, h⟩ := Option.bind_eq_some_iff.mp h
  obtain ⟨arg₃, h₃, h₁⟩ := Option.bind_eq_some_iff.mp h₁
  obtain ⟨data, -, h₁⟩ := Option.bind_eq_some_iff.mp h₁
  rw [Buf.get_of_write h (by simp), Buf.get_of_write h₂ (by simp), Buf.get_of_write h₁ (by simp),
    Buf.get_of_put h₃]

theorem putImage_fileControl {id : UnixFile} {op size : CInt} {pArg : Option (List Byte)}
    {arg arg' : Buf n} (h : unixFileControlConvertArgInToChar id op pArg arg size = some arg') :
    arg'.get UnixFile 0 = some id := by
  obtain ⟨arg₁, h₁, h⟩ := Option.bind_eq_some_iff.mp h
  obtain ⟨arg₂, h₂, h⟩ := Option.bind_eq_some_iff.mp h
  have himage : arg₂.get UnixFile 0 = some id := by
    rw [Buf.get_of_write h₂ (by simp), Buf.get_of_put h₁]
  split at h
  · obtain ⟨obj, -, h⟩ := Option.bind_eq_some_iff.mp h
    obtain ⟨data, -, h⟩ := Option.bind_eq_some_iff.mp h
    obtain ⟨arg₃, h₃, h⟩ := Option.bind_eq_some_iff.mp h
    rw [Buf.get_of_write h (by simp), Buf.get_of_write h₃ (by simp), himage]
  · rw [Buf.get_of_write h (by simp), himage]

theorem putImage_word {α : Type} [CType α] {id : UnixFile} {x : α} {arg arg' : Buf n}
    (h : putImageAnd id x arg = some arg') : arg'.get UnixFile 0 = some id :=
  leavesImage_put le_rfl id x arg arg' h

/-! ## Replies -/

@[simp] theorem setClientRemotePMethods_core (A : Addresses) (pf : UnixFile) :
    (setClientRemotePMethods A pf).core = pf.core := by
  unfold setClientRemotePMethods
  split <;> rfl

variable {β γ : Type}

/-- A decoder that takes `rc` from the reply. -/
def ReadsRc (rc : β → CInt) (charToReturn : Buf n → Option β) : Prop :=
  ∀ out r, charToReturn out = some r → ∃ off, out.get CInt off = some (rc r)

/-- One that takes the image too. -/
def ReadsReply (A : Addresses) (rc : UnixFile × β → CInt)
    (charToReturn : Buf n → Option (UnixFile × β)) : Prop :=
  ∀ out r, charToReturn out = some r →
    (∃ id, out.get UnixFile 0 = some id ∧ r.1 = setClientRemotePMethods A id) ∧
    ∃ off, out.get CInt off = some (rc r)

theorem ReadsRc.map {rc : β → CInt} {charToReturn : Buf n → Option β}
    (h : ReadsRc rc charToReturn) (f : β → γ) {rc' : γ → CInt} (hf : ∀ r, rc' (f r) = rc r) :
    ReadsRc rc' fun out => (charToReturn out).map f := by
  intro out r hr
  obtain ⟨r', hr', rfl⟩ := Option.map_eq_some_iff.mp hr
  rw [hf]
  exact h out r' hr'

theorem ReadsReply.map {rc : UnixFile × β → CInt}
    {charToReturn : Buf n → Option (UnixFile × β)} (h : ReadsReply A rc charToReturn)
    (f : UnixFile × β → UnixFile × γ) {rc' : UnixFile × γ → CInt}
    (hf : ∀ r, (f r).1 = r.1 ∧ rc' (f r) = rc r) :
    ReadsReply A rc' fun out => (charToReturn out).map f := by
  intro out r hr
  obtain ⟨r', hr', rfl⟩ := Option.map_eq_some_iff.mp hr
  rw [(hf r').1, (hf r').2]
  exact h out r' hr'

theorem ReadsReply.readsRc {rc : UnixFile × β → CInt}
    {charToReturn : Buf n → Option (UnixFile × β)} (h : ReadsReply A rc charToReturn) :
    ReadsRc rc charToReturn := fun out r hr => (h out r hr).2

theorem readsReply_int : ReadsReply (n := n) A (·.2) (returnImageAndInt A) := by
  intro out r hr
  obtain ⟨x, hx, hr⟩ := Option.bind_eq_some_iff.mp hr
  obtain ⟨id, hid, hx⟩ := Option.bind_eq_some_iff.mp hx
  obtain ⟨rc, hrc, hx⟩ := Option.bind_eq_some_iff.mp hx
  rw [← Option.some.inj hr, ← Option.some.inj hx]
  exact ⟨⟨id, hid, rfl⟩, _, hrc⟩

theorem readsReply_outRc {α : Type} [CType α] :
    ReadsReply (n := n) A (·.2.2) (returnImageOutRc A α) := by
  intro out r hr
  obtain ⟨x, hx, hr⟩ := Option.bind_eq_some_iff.mp hr
  obtain ⟨rc, hrc, hr⟩ := Option.bind_eq_some_iff.mp hr
  rw [← Option.some.inj hr]
  exact ⟨⟨x.1, takesImage_getImageAnd.image out x hx, rfl⟩, _, hrc⟩

theorem readsReply_read {k : Nat} (pBuf : Buf k) (amt : CInt) :
    ReadsReply (n := n) A (·.2.2) (unixReadConvertCharToReturn A · pBuf amt) := by
  intro out r hr
  obtain ⟨id, hid, hr⟩ := Option.bind_eq_some_iff.mp hr
  obtain ⟨data, -, hr⟩ := Option.bind_eq_some_iff.mp hr
  obtain ⟨pBuf', -, hr⟩ := Option.bind_eq_some_iff.mp hr
  obtain ⟨rc, hrc, hr⟩ := Option.bind_eq_some_iff.mp hr
  rw [← Option.some.inj hr]
  exact ⟨⟨id, hid, rfl⟩, _, hrc⟩

theorem readsReply_write : ReadsReply (n := n) A (·.2) (unixWriteConvertCharToReturn A) := by
  intro out r hr
  obtain ⟨id, hid, hr⟩ := Option.bind_eq_some_iff.mp hr
  obtain ⟨rc, hrc, hr⟩ := Option.bind_eq_some_iff.mp hr
  rw [← Option.some.inj hr]
  exact ⟨⟨id, hid, rfl⟩, _, hrc⟩

theorem readsReply_open (pOutFlags : Option CInt) :
    ReadsReply (n := n) A (·.2.2) (unixOpenConvertCharToReturn A · pOutFlags) := by
  intro out r hr
  obtain ⟨id, hid, hr⟩ := Option.bind_eq_some_iff.mp hr
  obtain ⟨temp, -, hr⟩ := Option.bind_eq_some_iff.mp hr
  obtain ⟨rc, hrc, hr⟩ := Option.bind_eq_some_iff.mp hr
  split at hr
  · rw [← Option.some.inj hr]
    exact ⟨⟨id, hid, rfl⟩, _, hrc⟩
  · obtain ⟨old, -, hr⟩ := Option.bind_eq_some_iff.mp hr
    rw [← Option.some.inj hr]
    exact ⟨⟨id, hid, rfl⟩, _, hrc⟩

theorem readsReply_fileControl (pArg : Option (List Byte)) :
    ReadsReply (n := n) A (·.2.2) (unixFileControlConvertCharToReturn A · pArg) := by
  intro out r hr
  obtain ⟨size, -, hr⟩ := Option.bind_eq_some_iff.mp hr
  obtain ⟨id, hid, hr⟩ := Option.bind_eq_some_iff.mp hr
  split at hr
  · obtain ⟨obj, -, hr⟩ := Option.bind_eq_some_iff.mp hr
    obtain ⟨data, -, hr⟩ := Option.bind_eq_some_iff.mp hr
    obtain ⟨obj', -, hr⟩ := Option.bind_eq_some_iff.mp hr
    obtain ⟨pArg', -, hr⟩ := Option.bind_eq_some_iff.mp hr
    obtain ⟨rc, hrc, hr⟩ := Option.bind_eq_some_iff.mp hr
    rw [← Option.some.inj hr]
    exact ⟨⟨id, hid, rfl⟩, _, hrc⟩
  · obtain ⟨pArg', -, hr⟩ := Option.bind_eq_some_iff.mp hr
    obtain ⟨rc, hrc, hr⟩ := Option.bind_eq_some_iff.mp hr
    rw [← Option.some.inj hr]
    exact ⟨⟨id, hid, rfl⟩, _, hrc⟩

theorem readsRc_get : ReadsRc (fun rc => rc) fun out : Buf n => out.get CInt 0 :=
  fun _ _ hr => ⟨0, hr⟩

theorem readsRc_access : ReadsRc (n := n) (·.2) unixAccessConvertCharToReturn := by
  intro out r hr
  obtain ⟨resOut, -, hr⟩ := Option.bind_eq_some_iff.mp hr
  obtain ⟨rc, hrc, hr⟩ := Option.bind_eq_some_iff.mp hr
  rw [← Option.some.inj hr]
  exact ⟨_, hrc⟩

theorem close_reply {id : UnixFile} {out : Buf n} {r : UnixFile × CInt}
    (h : unixCloseConvertCharToReturn A out id = some r) :
    r.1 = setClientRemotePMethods A id ∧ ∃ off, out.get CInt off = some r.2 := by
  obtain ⟨rc, hrc, h⟩ := Option.bind_eq_some_iff.mp h
  rw [← Option.some.inj h]
  exact ⟨rfl, _, hrc⟩

/-- Eight bytes of an Unfetch reply reach the image, which makes `pMethod`. -/
theorem unfetch_reply {fd : UnixFile} {out : Buf n} {r : UnixFile × CInt}
    (h : unixUnfetchConvertCharToReturn A out fd = some r) :
    (∃ id, out.get UnixFile 0 = some id ∧
      r.1 = setClientRemotePMethods A { fd with pMethod := id.pMethod }) ∧
    ∃ off, out.get CInt off = some r.2 := by
  obtain ⟨data, hdata, h⟩ := Option.bind_eq_some_iff.mp h
  obtain ⟨rc, hrc, h⟩ := Option.bind_eq_some_iff.mp h
  obtain ⟨raw, hraw, -⟩ := Option.map_eq_some_iff.mp hrc
  have hle : 0 + sizeof UnixFile ≤ n := by
    have := (Buf.read_eq_some hraw).1
    simp at this ⊢
    omega
  have hlen := Buf.slice_length out 0 120 hle
  have htake : (toBytes (ofBytes (out.slice 0 120) : UnixFile)).take 8 = data := by
    rw [CType.toBytes_ofBytes _ hlen, ← (Buf.read_eq_some hdata).2]
    simp [Buf.slice, List.take_take, sizeofSizeUnixFile]
  refine ⟨⟨_, Buf.get_eq out hle, ?_⟩, _, hrc.trans (by rw [← Option.some.inj h])⟩
  rw [← Option.some.inj h, ← htake, UnixFile.overwrite_eight]
  rfl

/-! ## Calls -/

variable (strlen : Ptr → Option Nat) (stack : Nat → Byte) (id : UnixFile)

theorem remote_putsImage {c : Call} (hop : c.op.OnFile) {argIn : Buf c.op.argInSize}
    (h : (c.remote A strlen stack id).argInChar = some argIn) :
    argIn.get UnixFile 0 = some id := by
  cases c with
  | xOpen | xDelete | xAccess | xGetLastError => cases hop
  | xWrite | xRead => exact putImage_read h
  | xFileControl op pArg =>
    obtain ⟨size, -, h⟩ := Option.bind_eq_some_iff.mp h
    exact putImage_fileControl h
  | xSectorSize | xDeviceCharacteristics | xClose => exact Buf.get_of_put h
  | xFetch iOff nAmt => exact leavesImage_outRc id (iOff, nAmt) _ _ h
  | xUnfetch iOff p => exact leavesImage_outRc id (iOff, _) _ _ h
  | _ => exact putImage_word h

theorem remote_readsReply {c : Call} (hop : c.op.OnFile ∨ c.op = .open_) (hclose : c.op ≠ .close)
    (hunfetch : c.op ≠ .unfetch) :
    ReadsReply A (·.2.rc) (c.remote A strlen stack id).charToReturn := by
  cases c with
  | xDelete | xAccess | xGetLastError => rcases hop with h | h <;> cases h
  | xClose => exact absurd rfl hclose
  | xUnfetch => exact absurd rfl hunfetch
  | xOpen zPath pFile flags pOutFlags =>
    exact (readsReply_open pOutFlags).map (outRc .flags) fun _ => ⟨rfl, rfl⟩
  | xRead pBuf amt =>
    exact (readsReply_read (Buf.ofObject pBuf) amt).map (outRc .ofBuf) fun _ => ⟨rfl, rfl⟩
  | xFetch iOff nAmt =>
    intro out r hr
    obtain ⟨r', hr', rfl⟩ := Option.map_eq_some_iff.mp hr
    simp only [remoteFetch] at hr'
    split at hr'
    · cases hr'
    · exact readsReply_read _ nAmt out r' hr'
  | xWrite =>
    exact (readsReply_write (n := Op.returnSize .write)).map rcOnly fun _ => ⟨rfl, rfl⟩
  | xFileControl op pArg =>
    exact (readsReply_fileControl pArg).map (outRc .object) fun _ => ⟨rfl, rfl⟩
  | xFileSize =>
    exact (readsReply_outRc (n := Op.returnSize .fileSize)).map (outRc .i64)
      fun _ => ⟨rfl, rfl⟩
  | xCheckReservedLock =>
    exact (readsReply_outRc (n := Op.returnSize .checkReservedLock)).map (outRc .int)
      fun _ => ⟨rfl, rfl⟩
  | _ => exact (readsReply_int (n := Op.returnSize .sync)).map rcOnly fun _ => ⟨rfl, rfl⟩

theorem remote_close {out : Buf (Op.returnSize .close)} {r : UnixFile × Result}
    (h : (Call.xClose.remote A strlen stack id).charToReturn out = some r) :
    r.1 = setClientRemotePMethods A id ∧ ∃ off, out.get CInt off = some r.2.rc := by
  simp only [Call.remote, RemoteCall.map] at h
  obtain ⟨r', h', rfl⟩ := Option.map_eq_some_iff.mp h
  exact close_reply h'

theorem remote_unfetch {iOff : I64} {p : Ptr} {out : Buf (Op.returnSize .unfetch)}
    {r : UnixFile × Result}
    (h : ((Call.xUnfetch iOff p).remote A strlen stack id).charToReturn out = some r) :
    (∃ id', out.get UnixFile 0 = some id' ∧
      r.1 = setClientRemotePMethods A { id with pMethod := id'.pMethod }) ∧
    ∃ off, out.get CInt off = some r.2.rc := by
  simp only [Call.remote, RemoteCall.map] at h
  obtain ⟨r', h', rfl⟩ := Option.map_eq_some_iff.mp h
  exact unfetch_reply h'

theorem remote_image {c : Call} {out : Buf c.op.returnSize} {img : UnixFile} {res : Result}
    (hop : ¬ c.op.OnFile) (hopen : c.op ≠ .open_)
    (hr : (c.remote A strlen stack id).charToReturn out = some (img, res)) : img = id := by
  cases c with
  | xDelete | xAccess | xGetLastError =>
    simp only [Call.remote, RemoteCall.map] at hr
    obtain ⟨r, -, heq⟩ := Option.map_eq_some_iff.mp hr
    exact (Prod.mk.inj heq).1.symm
  | xOpen => exact absurd rfl hopen
  | _ => exact absurd trivial hop

theorem remote_readsRc (c : Call) :
    ReadsRc (·.2.rc) (c.remote A strlen stack id).charToReturn := by
  by_cases hclose : c.op = .close
  · cases c with
    | xClose => exact fun out r hr => (remote_close strlen stack id hr).2
    | _ => cases hclose
  · by_cases hunfetch : c.op = .unfetch
    · cases c with
      | xUnfetch => exact fun out r hr => (remote_unfetch strlen stack id hr).2
      | _ => cases hunfetch
    · by_cases hop : c.op.OnFile ∨ c.op = .open_
      · exact (remote_readsReply strlen stack id hop hclose hunfetch).readsRc
      · cases c with
        | xDelete =>
          exact (readsRc_get (n := Op.returnSize .delete)).map
            (fun rc => (id, (⟨rc, .nothing⟩ : Result))) fun _ => rfl
        | xGetLastError =>
          exact (readsRc_get (n := Op.returnSize .getLastError)).map
            (fun rc => (id, (⟨rc, .nothing⟩ : Result))) fun _ => rfl
        | xAccess =>
          exact (readsRc_access (n := Op.returnSize .access)).map
            (fun r => (id, (⟨r.2, .int r.1⟩ : Result))) fun _ => rfl
        | xOpen => exact absurd (.inr rfl) hop
        | _ => exact absurd (.inl trivial) hop

end RemoteVfs
