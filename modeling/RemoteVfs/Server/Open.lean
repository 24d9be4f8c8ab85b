import RemoteVfs.Server.Values

/-!
# Open on the server, and the calls without a handle

`WrapOpen` registers whatever descriptor `unixOpen` leaves in the image, also when
`unixOpen` fails.
-/

open CMem

namespace RemoteVfs

/-! ## Registering a descriptor -/

namespace FdTable

/-- The table says that `fd` belongs to `method` and to the file at `p`. -/
def Holds (t : FdTable) (fd : CInt) (method : Ptr) (p : List Byte) : Prop :=
  ∃ path, t.lookup fd = some (method, path) ∧ cstr path.val = some p

variable {t : FdTable} {fd : CInt} {method : Ptr} {p : List Byte}

theorem Holds.binds (h : t.Holds fd method p) (hne : method ≠ 0) :
    ∃ a, t.Binds fd a method p := by
  obtain ⟨path, hl, hp⟩ := h
  obtain ⟨a, hn, hval⟩ := Option.map_eq_some_iff.mp hl
  obtain ⟨rfl, rfl⟩ := Prod.mk.inj hval
  exact ⟨a, hn, rfl, hne, hp⟩

theorem Holds.of_lookup {t' : FdTable} (h : t.Holds fd method p)
    (heq : t'.lookup fd = t.lookup fd) : t'.Holds fd method p := by
  obtain ⟨path, hl, hp⟩ := h
  exact ⟨path, heq.trans hl, hp⟩

/-- Of the nodes in the list, `a` is the one of `fd`. -/
def NodeOf (t : FdTable) (fd : CInt) (a : Nat) : Prop :=
  ∃ head l, Chain t.next t.listHead (head :: l) ∧ a ∈ l ∧ ∀ b ∈ l, (t.mem b).fd = fd ↔ b = a

theorem Valid.nodeOf (h : t.Valid) {a : Nat} (hn : t.node? fd = some a) : t.NodeOf fd a := by
  obtain ⟨head, l, hw⟩ := h.wf_of_node? hn
  have ha : a ∈ l := by
    rw [hw.node?] at hn
    exact List.mem_of_find?_eq_some hn
  have hfd := hw.node?_fd hn
  refine ⟨head, l, hw.listHead ▸ hw.chain, ha, fun b hb => ⟨fun heq => ?_, fun heq => heq ▸ hfd⟩⟩
  exact List.inj_on_of_nodup_map hw.distinct hb ha (heq.trans hfd.symm)

theorem path_length {path : Buf 512} (h : cstr path.val = some p) : p.length ≤ 511 := by
  obtain ⟨-, rest, hval⟩ := cstr_eq_some h
  have := path.property
  rw [hval] at this
  simp at this
  omega

theorem Valid.register (h : t.Valid) (fd : CInt) (method : Ptr) (h0 : 0 ∉ p)
    (hp : p.length ≤ 511) :
    ∃ t₁ t', t.addNode fd method = some t₁ ∧
      (∀ src, cstr src = some p → t₁.setServicePath fd src = some t') ∧
      t'.Valid ∧ t'.Holds fd method p ∧ ∀ fd' ≠ fd, t'.lookup fd' = t.lookup fd' := by
  obtain ⟨t₁, old, hadd, hv₁, hl₁, -⟩ := h.addNode fd method
  have hl : t₁.lookup fd = some (method, old) := by rw [hl₁, if_pos rfl]
  obtain ⟨t', path', hset, hv', hp', hl'⟩ := hv₁.setServicePath hl h0 hp
  refine ⟨t₁, t', hadd, hset, hv', ⟨path', by rw [hl', if_pos rfl], hp'⟩, fun fd' hne => ?_⟩
  rw [hl', if_neg hne, hl₁, if_neg hne]

end FdTable

variable {OS : Type} (fns : UnixFns OS) (A : Addresses) {n m : Nat}

/-! ## WrapOpen -/

/-- The call of `unixOpen` in `WrapOpen`. Its mask on the flags is that of `sqlite3OsOpen`. -/
def openOn (pFile : UnixFile) (p : List Byte) (flags : CInt) (pOutFlags : Option CInt) (os : OS) :
    Opened OS :=
  fns.unixOpen pFile.core p (flags &&& openMask) pOutFlags os

/-- The image after `unixOpen`, in the hands of the server. -/
def Opened.file (r : Opened OS) : UnixFile := { r.image with pMethod := A.openedMethod r.style }

/-- Whatever the outcome, the table holds the descriptor in the image afterwards,
with the path of the request. -/
theorem wrapOpen_decoded {s : Server OS} (hv : s.table.Valid) {p : List Byte} (h0 : 0 ∉ p)
    (hp : p.length ≤ 511) (r : Opened OS) :
    ∃ t', t'.Valid ∧ t'.Holds r.image.h (A.openedMethod r.style) p ∧
      (∀ fd ≠ r.image.h, t'.lookup fd = s.table.lookup fd) ∧
      ∀ (garbage : Nat → Byte) (argIn : Buf n) (path : Buf 512) (pFile : UnixFile)
        (flags outFlags : CInt),
        unixOpenConvertCharToArgIn argIn (Buf.uninit garbage 512) =
          some (path, pFile, flags, outFlags) → cstr path.val = some p →
        openOn fns pFile p flags (if outFlags = -1 then none else some outFlags) s.os = r →
        ∀ argOut : Buf m, wrapOpen fns A garbage argIn argOut s =
          (unixOpenConvertReturnToChar (r.file A)
            (if outFlags = -1 then outFlags else r.outFlags.getD outFlags) r.rc argOut).map
            (·, ⟨t', r.os⟩) := by
  obtain ⟨head, l, hw, -⟩ := hv.ensureList
  have hv' : s.table.ensureList.Valid := .inr ⟨head, l, hw⟩
  obtain ⟨t₁, t', hadd, hset, hvt, hholds, hother⟩ :=
    hv'.register r.image.h (A.openedMethod r.style) h0 hp
  refine ⟨t', hvt, hholds, fun fd hne => ?_, ?_⟩
  · rw [hother fd hne, hv.lookup_ensureList]
  · intro garbage argIn path pFile flags outFlags hdec hpath hr argOut
    have hcore : ∀ pMethod zPath, UnixFile.core { pFile with pMethod, zPath } = pFile.core :=
      fun _ _ => rfl
    rw [openOn] at hr
    simp only [wrapOpen, hdec, Option.bind_eq_bind, Option.bind_some, hv.getServerUnixPMethods,
      hv'.getServicePath, FdTable.ensureList_idem, hpath, hcore, hr]
    have hpm : s.table.ensureList.setServerUnixPMethods r.image.h (r.file A) = some t₁ := hadd
    simp only [Opened.file] at hpm ⊢
    simp only [hpm, hset _ hpath, Option.bind_some]
    cases unixOpenConvertReturnToChar _ _ r.rc argOut <;> rfl

/-! ## The calls, from the client and back -/

section Carried

variable {fns A} {s : Server OS} {zPath p : List Byte} (hz : cstr zPath = some p)
  (hp : p.length ≤ 511) (strlen : Ptr → Option Nat) (garbage stack : Nat → Byte) (id : UnixFile)
include hz hp

/-- What an Open leaves behind `pOutFlags`. -/
def Opened.flagsOut (r : Opened OS) (pOutFlags : Option CInt) : Option CInt :=
  pOutFlags.map r.outFlags.getD

theorem xOpen_carried (hv : s.table.Valid) (pFile : UnixFile) (flags : CInt)
    {pOutFlags : Option CInt} (hflags : pOutFlags ≠ some (-1)) {r : Opened OS}
    (hr : openOn fns pFile p flags pOutFlags s.os = r) (hout : r.outFlags ≠ some (-1)) :
    ∃ t', t'.Valid ∧ t'.Holds r.image.h (A.openedMethod r.style) p ∧
      (∀ fd ≠ r.image.h, t'.lookup fd = s.table.lookup fd) ∧
      ∀ strlen garbage stack out,
        (Call.xOpen (some zPath) pFile flags pOutFlags).Carried fns A strlen garbage stack out id
          (setClientRemotePMethods A (r.file A)) s ⟨t', r.os⟩
          ⟨r.rc, .flags (r.flagsOut pOutFlags)⟩ := by
  have h0 := (cstr_eq_some hz).1
  have harg : (if pOutFlags.getD (-1) = -1 then none else some (pOutFlags.getD (-1))) =
      pOutFlags := by
    cases pOutFlags with
    | none => rfl
    | some old => exact if_neg fun h => hflags (congrArg some h)
  rw [← harg] at hr
  obtain ⟨t', hvt, hholds, hother, hwrap⟩ := wrapOpen_decoded fns A (m := Op.returnSize .open_)
    (n := Op.argInSize .open_) hv h0 hp r
  refine ⟨t', hvt, hholds, hother,
    fun strlen garbage stack (out : Buf (Op.returnSize .open_)) => ?_⟩
  obtain ⟨argIn, hargIn, hdec⟩ := Option.bind_eq_some_iff.mp
    (unixOpen_request hz hp pFile flags pOutFlags (Buf.zeros (Op.argInSize .open_)) (by decide)
      (Buf.uninit garbage 512))
  have hpath := Buf.cstr_splice (Buf.uninit garbage 512) h0 (Nat.succ_le_succ hp)
  have hrep := unixOpen_reply A (r.file A) (if pOutFlags.getD (-1) = -1 then pOutFlags.getD (-1)
    else r.outFlags.getD (pOutFlags.getD (-1))) r.rc out (by decide) pOutFlags
    (by cases pOutFlags <;> simp)
  obtain ⟨outarg, hconv, hread⟩ := Option.bind_eq_some_iff.mp hrep
  refine ⟨argIn, outarg, hargIn, ?_, ?_⟩
  · exact (hwrap garbage argIn _ pFile flags _ hdec hpath hr out).trans
      (congrArg (Option.map _) hconv)
  · refine (congrArg (Option.map (outRc .flags)) hread).trans ?_
    rw [Option.map_some, outRc, Opened.flagsOut]
    cases pOutFlags with
    | none => rfl
    | some old =>
      have hold : old ≠ -1 := fun h => hflags (congrArg some h)
      have hne : r.outFlags.getD old ≠ -1 := by
        cases hf : r.outFlags with
        | none => exact hold
        | some new => exact fun h => hout (hf.trans (congrArg some h))
      simp only [Option.getD_some, if_neg hold, if_neg hne, Option.map_some]

theorem xDelete_carried (dirSync : CInt) {rc : CInt} {os : OS}
    (hr : fns.unixDelete p dirSync s.os = (rc, os)) (out : Buf (Op.returnSize .delete)) :
    (Call.xDelete zPath dirSync).Carried fns A strlen garbage stack out id id s
      { s with os := os } ⟨rc, .nothing⟩ := by
  obtain ⟨argIn, hargIn, hdec⟩ := Option.bind_eq_some_iff.mp
    (unixDelete_request hz hp dirSync (Buf.zeros (Op.argInSize .delete)) (by decide)
      (Buf.uninit garbage 512))
  have hpath := Buf.cstr_splice (Buf.uninit garbage 512) (cstr_eq_some hz).1 (Nat.succ_le_succ hp)
  obtain ⟨outarg, hconv, hread⟩ := Option.bind_eq_some_iff.mp (getRc_put rc out (by decide))
  refine ⟨argIn, outarg, hargIn, ?_,
    congrArg (Option.map fun rc => (id, Result.mk rc .nothing)) hread⟩
  change wrapDelete fns garbage argIn out s = _
  simp only [wrapDelete, hdec, Option.bind_eq_bind, Option.bind_some, hpath, hr]
  exact congrArg (Option.bind · _) hconv

theorem xAccess_carried (flags resOut : CInt) {res rc : CInt} {os : OS}
    (hr : fns.unixAccess p flags resOut s.os = (res, rc, os))
    (out : Buf (Op.returnSize .access)) :
    (Call.xAccess zPath flags resOut).Carried fns A strlen garbage stack out id id s
      { s with os := os } ⟨rc, .int res⟩ := by
  obtain ⟨argIn, hargIn, hdec⟩ := Option.bind_eq_some_iff.mp
    (unixAccess_request hz hp flags resOut (Buf.zeros (Op.argInSize .access)) (by decide)
      (Buf.uninit garbage 512))
  have hpath := Buf.cstr_splice (Buf.uninit garbage 512) (cstr_eq_some hz).1 (Nat.succ_le_succ hp)
  obtain ⟨outarg, hconv, hread⟩ := Option.bind_eq_some_iff.mp
    (unixAccess_reply res rc out (by decide))
  refine ⟨argIn, outarg, hargIn, ?_,
    congrArg (Option.map fun r : CInt × CInt => (id, Result.mk r.2 (.int r.1))) hread⟩
  change wrapAccess fns garbage argIn out s = _
  simp only [wrapAccess, hdec, Option.bind_eq_bind, Option.bind_some, hpath, hr]
  exact congrArg (Option.bind · _) hconv

end Carried

end RemoteVfs
