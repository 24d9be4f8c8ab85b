import RemoteVfs.Server.Shape

/-!
# What a function leaves behind

The server hands a function the image of the request, and the image that the function
leaves goes into the reply.
-/

open CMem

namespace RemoteVfs

variable {OS : Type} {fns : UnixFns OS} {A : Addresses} {garbage : Nat → Byte} {n m : Nat}
  {s s' : Server OS} {argOut outarg : Buf m}

theorem FdTable.getServerUnixPMethods_core {t t' : FdTable} {fd : CInt} {pf pf' : UnixFile}
    (h : t.getServerUnixPMethods A fd pf = some (t', pf')) : pf'.core = pf.core ∧ pf'.h = pf.h := by
  obtain ⟨⟨t₁, node, pre⟩, -, h⟩ := Option.bind_eq_some_iff.mp h
  cases node with
  | none =>
    obtain ⟨-, rfl⟩ := Prod.mk.inj (Option.some.inj h)
    exact ⟨rfl, rfl⟩
  | some node =>
    dsimp only at h
    split at h
    all_goals
      obtain ⟨-, rfl⟩ := Prod.mk.inj (Option.some.inj h)
      exact ⟨rfl, rfl⟩

theorem FdTable.getServicePath_core {t t' : FdTable} {fd : CInt} {id id' : UnixFile}
    {node : Option Nat} (h : t.getServicePath A fd id = some (t', id', node)) :
    id'.core = id.core ∧ id'.h = id.h := by
  obtain ⟨⟨t₁, node', pre⟩, -, h⟩ := Option.bind_eq_some_iff.mp h
  cases node' with
  | none =>
    obtain ⟨-, h⟩ := Prod.mk.inj (Option.some.inj h)
    obtain ⟨rfl, -⟩ := Prod.mk.inj h
    exact ⟨rfl, rfl⟩
  | some node' =>
    obtain ⟨-, h⟩ := Prod.mk.inj (Option.some.inj h)
    obtain ⟨rfl, -⟩ := Prod.mk.inj h
    exact ⟨rfl, rfl⟩

theorem wrapFile_left {α β : Type} {decoded : Option (UnixFile × α)}
    {method : UnixFile → Path → α → OS → Option (UnixFile × β × OS)}
    {returnToChar : UnixFile → β → Buf m → Option (Buf m)}
    (h : wrapFile fns A decoded method returnToChar argOut s = some (outarg, s')) :
    ∃ id args zPath g ret id', decoded = some (id, args) ∧
      method id.core zPath args s.os = some (g, ret, s'.os) ∧
      returnToChar id' ret argOut = some outarg ∧ id'.core = (id.keep g).core := by
  obtain ⟨⟨id, args⟩, hid, h⟩ := Option.bind_eq_some_iff.mp h
  obtain ⟨⟨t₁, id₁⟩, h₁, h⟩ := Option.bind_eq_some_iff.mp h
  obtain ⟨⟨t₂, id₂, node⟩, h₂, h⟩ := Option.bind_eq_some_iff.mp h
  obtain ⟨⟨g, ret, os⟩, hmethod, h⟩ := Option.bind_eq_some_iff.mp h
  obtain ⟨t₃, -, h⟩ := Option.bind_eq_some_iff.mp h
  obtain ⟨src, -, h⟩ := Option.bind_eq_some_iff.mp h
  obtain ⟨t₄, -, h⟩ := Option.bind_eq_some_iff.mp h
  obtain ⟨out, hout, h⟩ := Option.bind_eq_some_iff.mp h
  obtain ⟨rfl, rfl⟩ := Prod.mk.inj (Option.some.inj h)
  obtain ⟨hcore₁, hh₁⟩ := FdTable.getServerUnixPMethods_core h₁
  obtain ⟨hcore₂, hh₂⟩ := FdTable.getServicePath_core h₂
  rw [hcore₂, hcore₁] at hmethod
  exact ⟨id, args, _, g, ret, _, hid, hmethod, hout, UnixFile.core_keep _ _ _ (hh₂.trans hh₁)⟩

/-! ## Every function but those of Open and Close -/

/-- The image that a function is given, the OS, the image that it leaves, and the OS then. -/
abbrev Effect (OS : Type) := UnixFile → OS → UnixFile → OS → Prop

/-- The function of an operation has no other effects than `R`. -/
def Op.Within (fns : UnixFns OS) (R : Effect OS) : Op → Prop
  | .write => ∀ id zPath data offset os,
    let r := fns.unixWrite id zPath data offset os
    R id os r.1 r.2.2
  | .read => ∀ id zPath (k : Nat) (data : Buf k) offset os,
    let r := fns.unixRead id zPath data offset os
    R id os r.1 r.2.2.2
  | .truncate => ∀ id zPath nByte os,
    let r := fns.unixTruncate id zPath nByte os
    R id os r.1 r.2.2
  | .sync => ∀ id zPath flags os,
    let r := fns.unixSync id zPath flags os
    R id os r.1 r.2.2
  | .fileSize => ∀ id zPath pSize os,
    let r := fns.unixFileSize id zPath pSize os
    R id os r.1 r.2.2
  | .fileControl => ∀ id zPath op arg os,
    let r := fns.unixFileControl id zPath op arg os
    R id os r.1 r.2.2.2
  | .sectorSize => ∀ id zPath os,
    let r := fns.unixSectorSize id zPath os
    R id os r.1 r.2.2
  | .deviceCharacteristics => ∀ id zPath os,
    let r := fns.unixDeviceCharacteristics id zPath os
    R id os r.1 r.2.2
  | .lock => ∀ id zPath eFileLock os,
    let r := fns.unixLock id zPath eFileLock os
    R id os r.1 r.2.2
  | .unlock => ∀ id zPath eFileLock os,
    let r := fns.unixUnlock id zPath eFileLock os
    R id os r.1 r.2.2
  | .checkReservedLock => ∀ id zPath resOut os,
    let r := fns.unixCheckReservedLock id zPath resOut os
    R id os r.1 r.2.2
  | .fetch => ∀ id zPath iOff nAmt os,
    let r := fns.unixFetch id zPath iOff nAmt os
    R id os r.1 r.2.2.2
  | .unfetch => ∀ id zPath iOff p os,
    let r := fns.unixUnfetch id zPath iOff p os
    R id os r.1 r.2.2
  | .open_ | .delete | .access | .fullPathname | .getLastError | .close => True

/-- The functions, with a note of the image that the last one left. -/
def UnixFns.recording (fns : UnixFns OS) : UnixFns (OS × UnixFile) where
  unixOpen id zPath flags pOutFlags os :=
    let r := fns.unixOpen id zPath flags pOutFlags os.1
    { r with os := (r.os, r.image) }
  unixDelete zPath dirSync os :=
    let (rc, s) := fns.unixDelete zPath dirSync os.1
    (rc, s, os.2)
  unixAccess zPath flags resOut os :=
    let (resOut, rc, s) := fns.unixAccess zPath flags resOut os.1
    (resOut, rc, s, os.2)
  unixFullPathname zPath zOut os :=
    let (zOut, rc, s) := fns.unixFullPathname zPath zOut os.1
    (zOut, rc, s, os.2)
  unixGetLastError os := fns.unixGetLastError os.1
  unixWrite id zPath data offset os :=
    let (g, rc, s) := fns.unixWrite id zPath data offset os.1
    (g, rc, s, g)
  unixRead id zPath data offset os :=
    let (g, data, rc, s) := fns.unixRead id zPath data offset os.1
    (g, data, rc, s, g)
  unixTruncate id zPath nByte os :=
    let (g, rc, s) := fns.unixTruncate id zPath nByte os.1
    (g, rc, s, g)
  unixSync id zPath flags os :=
    let (g, rc, s) := fns.unixSync id zPath flags os.1
    (g, rc, s, g)
  unixFileSize id zPath pSize os :=
    let (g, r, s) := fns.unixFileSize id zPath pSize os.1
    (g, r, s, g)
  unixFileControl id zPath op arg os :=
    let (g, arg, rc, s) := fns.unixFileControl id zPath op arg os.1
    (g, arg, rc, s, g)
  unixSectorSize id zPath os :=
    let (g, rc, s) := fns.unixSectorSize id zPath os.1
    (g, rc, s, g)
  unixDeviceCharacteristics id zPath os :=
    let (g, rc, s) := fns.unixDeviceCharacteristics id zPath os.1
    (g, rc, s, g)
  unixClose id zPath os :=
    let (rc, s) := fns.unixClose id zPath os.1
    (rc, s, os.2)
  nolockClose id zPath os :=
    let (rc, s) := fns.nolockClose id zPath os.1
    (rc, s, os.2)
  unixLock id zPath eFileLock os :=
    let (g, rc, s) := fns.unixLock id zPath eFileLock os.1
    (g, rc, s, g)
  unixUnlock id zPath eFileLock os :=
    let (g, rc, s) := fns.unixUnlock id zPath eFileLock os.1
    (g, rc, s, g)
  unixCheckReservedLock id zPath resOut os :=
    let (g, r, s) := fns.unixCheckReservedLock id zPath resOut os.1
    (g, r, s, g)
  unixFetch id zPath iOff nAmt os :=
    let (g, pp, rc, s) := fns.unixFetch id zPath iOff nAmt os.1
    (g, pp, rc, s, g)
  unixUnfetch id zPath iOff p os :=
    let (g, rc, s) := fns.unixUnfetch id zPath iOff p os.1
    (g, rc, s, g)
  memory os := fns.memory os.1

theorem Op.Within.recording {R : Effect OS} {op : Op} (h : op.Within fns R) (hop : op.OnFile)
    (hclose : op ≠ .close) :
    op.Within fns.recording fun id os g os' => os'.2 = g ∧ R id os.1 g os'.1 := by
  cases op with
  | open_ | delete | access | fullPathname | getLastError => cases hop
  | close => exact absurd rfl hclose
  | sectorSize | deviceCharacteristics => exact fun id zPath os => ⟨rfl, h id zPath os.1⟩
  | read => exact fun id zPath k data offset os => ⟨rfl, h id zPath k data offset os.1⟩
  | truncate | sync | fileSize | lock | unlock | checkReservedLock =>
    exact fun id zPath x os => ⟨rfl, h id zPath x os.1⟩
  | write | fileControl | fetch | unfetch =>
    exact fun id zPath x y os => ⟨rfl, h id zPath x y os.1⟩

section Serve

variable {op : Op} {R : Effect OS} {argIn : Buf n}

theorem wrapFile_within {α β : Type} {charToArgIn : Buf n → Option (UnixFile × α)}
    {method : UnixFile → Path → α → OS → Option (UnixFile × β × OS)}
    {returnToChar : UnixFile → β → Buf m → Option (Buf m)} (htakes : TakesImage charToArgIn)
    (hleaves : LeavesImage returnToChar)
    (hR : ∀ id zPath args os g ret os', method id zPath args os = some (g, ret, os') →
      R id os g os')
    (h : wrapFile fns A (charToArgIn argIn) method returnToChar argOut s = some (outarg, s')) :
    ∃ id g id', argIn.get UnixFile 0 = some id ∧ R id.core s.os g s'.os ∧
      outarg.get UnixFile 0 = some id' ∧ id'.core = (id.keep g).core := by
  obtain ⟨id, args, zPath, g, ret, id', hid, hmethod, hout, hcore⟩ := wrapFile_left h
  exact ⟨id, g, id', htakes.image _ _ hid, hR _ _ _ _ _ _ _ hmethod, hleaves _ _ _ _ hout,
    hcore⟩

theorem direct_within {α β : Type} {f : UnixFile → Path → α → OS → UnixFile × β × OS}
    (hR : ∀ id zPath x os, R id os (f id zPath x os).1 (f id zPath x os).2.2)
    (id : UnixFile) (zPath : Path) (args : α) (os : OS) (g : UnixFile) (ret : β) (os' : OS)
    (h : direct f id zPath args os = some (g, ret, os')) : R id os g os' := by
  have heff := hR id zPath args os
  rwa [Option.some.inj h] at heff

theorem serve_within (hop : op.OnFile) (hclose : op ≠ .close) (hR : op.Within fns R)
    (h : serve fns A garbage op argIn argOut s = some (outarg, s')) :
    ∃ id g id', argIn.get UnixFile 0 = some id ∧ R id.core s.os g s'.os ∧
      outarg.get UnixFile 0 = some id' ∧ id'.core = (id.keep g).core := by
  cases op with
  | open_ | delete | access | fullPathname | getLastError => cases hop
  | close => exact absurd rfl hclose
  | truncate | sync | lock | unlock =>
    exact wrapFile_within takesImage_getImageAnd (leavesImage_put le_rfl) (direct_within hR) h
  | fileSize | checkReservedLock =>
    exact wrapFile_within takesImage_getImageAnd leavesImage_outRc (direct_within hR) h
  | sectorSize | deviceCharacteristics =>
    exact wrapFile_within takesImage_unit (leavesImage_put le_rfl)
      (direct_within fun id zPath _ os => hR id zPath os) h
  | unfetch =>
    exact wrapFile_within takesImage_fetch (leavesImage_put le_rfl)
      (direct_within fun id zPath args os => hR id zPath args.1 _ os) h
  | fetch =>
    exact wrapFile_within takesImage_fetch leavesImage_fetch
      (direct_within fun id zPath args os => hR id zPath args.1 args.2 os) h
  | write =>
    refine wrapFile_within (takesImage_read _) (leavesImage_put (by decide)) ?_ h
    intro id zPath args os g ret os' hrun
    obtain ⟨data, -, hrun⟩ := Option.bind_eq_some_iff.mp hrun
    have heff := hR id zPath data args.2.2 os
    rwa [Option.some.inj hrun] at heff
  | read =>
    refine wrapFile_within (takesImage_read _) leavesImage_read ?_ h
    intro id zPath args os g ret os' hrun
    obtain ⟨data, -, hrun⟩ := Option.bind_eq_some_iff.mp hrun
    obtain ⟨pBuf, -, hrun⟩ := Option.bind_eq_some_iff.mp hrun
    obtain ⟨hg, hpair⟩ := Prod.mk.inj (Option.some.inj hrun)
    obtain ⟨-, hos⟩ := Prod.mk.inj hpair
    exact hg ▸ hos ▸ hR id zPath _ data args.2.2 os
  | fileControl =>
    refine wrapFile_within (takesImage_fileControl _) (leavesImage_fileControl fns) ?_ h
    rintro id zPath ⟨op, pArg, size⟩ os g ret os' hrun
    simp only [runFileControl] at hrun
    split at hrun
    all_goals
      obtain ⟨arg, -, hrun⟩ := Option.bind_eq_some_iff.mp hrun
      split at hrun
      all_goals
        obtain ⟨pArg', -, hrun⟩ := Option.bind_eq_some_iff.mp hrun
        obtain ⟨hg, hpair⟩ := Prod.mk.inj (Option.some.inj hrun)
        obtain ⟨-, hos⟩ := Prod.mk.inj hpair
        exact hg ▸ hos ▸ hR id zPath op arg os

theorem serve_fetch (h : serve fns A garbage .fetch argIn argOut s = some (outarg, s')) :
    ∃ id zPath iOff nAmt g pData rc id',
      unixFetchConvertCharToArgIn argIn = some (id, iOff, nAmt) ∧
      fns.unixFetch id.core zPath iOff nAmt s.os = (g, some pData, rc, s'.os) ∧
      outarg.get UnixFile 0 = some id' ∧ id'.core = (id.keep g).core := by
  change wrapFetch fns A argIn argOut s = _ at h
  rw [wrapFetch] at h
  obtain ⟨id, ⟨iOff, nAmt⟩, zPath, g, ⟨pData, nAmt', rc⟩, id', hid, hmethod, hout, hcore⟩ :=
    wrapFile_left h
  have himage := leavesImage_fetch _ _ _ _ hout
  obtain ⟨data, rfl, -⟩ := Option.bind_eq_some_iff.mp hout
  refine ⟨id, zPath, iOff, nAmt, g, data, rc, id', hid, ?_, himage, hcore⟩
  simp only [direct, runFetch, Option.some.injEq, Prod.mk.injEq] at hmethod
  obtain ⟨rfl, ⟨hdata, -, rfl⟩, hos⟩ := hmethod
  rw [← hdata, ← hos]

theorem wrapFile_direct {α β : Type} {decoded : Option (UnixFile × α)}
    {f : UnixFile → Path → α → OS → UnixFile × β × OS}
    {returnToChar : UnixFile → β → Buf m → Option (Buf m)} (hleaves : LeavesImage returnToChar)
    (h : wrapFile fns A decoded (direct f) returnToChar argOut s = some (outarg, s')) :
    ∃ id args zPath g ret id', decoded = some (id, args) ∧
      f id.core zPath args s.os = (g, ret, s'.os) ∧
      outarg.get UnixFile 0 = some id' ∧ id'.core = (id.keep g).core := by
  obtain ⟨id, args, zPath, g, ret, id', hid, hmethod, hout, hcore⟩ := wrapFile_left h
  exact ⟨id, args, zPath, g, ret, id', hid, Option.some.inj hmethod, hleaves _ _ _ _ hout, hcore⟩

theorem serve_unfetch (h : serve fns A garbage .unfetch argIn argOut s = some (outarg, s')) :
    ∃ id args zPath g rc id', unixUnfetchConvertCharToArgIn argIn = some (id, args) ∧
      fns.unixUnfetch id.core zPath args.1 (args.2 ≠ 0) s.os = (g, rc, s'.os) ∧
      outarg.get UnixFile 0 = some id' ∧ id'.core = (id.keep g).core :=
  wrapFile_direct (leavesImage_put le_rfl) h

theorem serve_lock (h : serve fns A garbage .lock argIn argOut s = some (outarg, s')) :
    ∃ id eFileLock zPath g rc id', unixLockConvertCharToArgIn argIn = some (id, eFileLock) ∧
      fns.unixLock id.core zPath eFileLock s.os = (g, rc, s'.os) ∧
      outarg.get UnixFile 0 = some id' ∧ id'.core = (id.keep g).core :=
  wrapFile_direct (leavesImage_put le_rfl) h

theorem serve_unlock (h : serve fns A garbage .unlock argIn argOut s = some (outarg, s')) :
    ∃ id eFileLock zPath g rc id', unixUnlockConvertCharToArgIn argIn = some (id, eFileLock) ∧
      fns.unixUnlock id.core zPath eFileLock s.os = (g, rc, s'.os) ∧
      outarg.get UnixFile 0 = some id' ∧ id'.core = (id.keep g).core :=
  wrapFile_direct (leavesImage_put le_rfl) h

theorem serve_checkReservedLock
    (h : serve fns A garbage .checkReservedLock argIn argOut s = some (outarg, s')) :
    ∃ id resOut zPath g ret id',
      unixCheckReservedLockConvertCharToArgIn argIn = some (id, resOut) ∧
      fns.unixCheckReservedLock id.core zPath resOut s.os = (g, ret, s'.os) ∧
      outarg.get UnixFile 0 = some id' ∧ id'.core = (id.keep g).core :=
  wrapFile_direct leavesImage_outRc h

end Serve

end RemoteVfs
