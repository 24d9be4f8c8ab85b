import RemoteVfs.Client.Shape
import RemoteVfs.Disk
import RemoteVfs.Server.Effect

/-!
# The mapping of an open file

The state of the mapping is in the image and nowhere else. So it is right only as
long as each reply brings back what the server's function left.
-/

open CMem

namespace RemoteVfs

/-! ## The functions of `os_unix.c` -/

/-- The system calls behind a mapping. `osFstat` gives the size, if it can. -/
structure MmapCalls (OS : Type) where
  osFstat : CInt → OS → Option I64 × OS
  osMmap : I64 → CInt → OS → Ptr × OS
  osMremap : Ptr → I64 → I64 → OS → Ptr × OS
  osMunmap : Ptr → I64 → OS → OS

/-- `MAP_FAILED` -/
def mapFailed : Ptr := -1

/-- `SQLITE_IOERR_FSTAT` -/
def sqliteIoerrFstat : CInt := 1802

namespace MmapCalls

variable {OS : Type} (sys : MmapCalls OS)

def unixUnmapfile (pFd : UnixFile) (os : OS) : UnixFile × OS :=
  if pFd.pMapRegion ≠ 0 then
    ({ pFd with pMapRegion := 0, mmapSize := 0, mmapSizeActual := 0 },
      sys.osMunmap pFd.pMapRegion pFd.mmapSizeActual os)
  else (pFd, os)

/-- The region that `unixRemapfile` gets, with `HAVE_MREMAP`. -/
def remapRegion (pFd : UnixFile) (nNew : I64) (os : OS) : Ptr × OS :=
  let pOrig := pFd.pMapRegion
  let nOrig := pFd.mmapSizeActual
  let nReuse := pFd.mmapSize
  let (pNew, os) :=
    if pOrig ≠ 0 then
      let os := if nReuse ≠ nOrig then sys.osMunmap (pOrig + nReuse) (nOrig - nReuse) os else os
      let (pNew, os) := sys.osMremap pOrig nReuse nNew os
      (pNew, if pNew = mapFailed ∨ pNew = 0 then sys.osMunmap pOrig nReuse os else os)
    else (0, os)
  if pNew = 0 then sys.osMmap nNew pFd.h os else (pNew, os)

def unixRemapfile (pFd : UnixFile) (nNew : I64) (os : OS) : UnixFile × OS :=
  let (pNew, os) := remapRegion sys pFd nNew os
  if pNew = mapFailed then
    ({ pFd with mmapSizeMax := 0, pMapRegion := 0, mmapSize := 0, mmapSizeActual := 0 }, os)
  else ({ pFd with pMapRegion := pNew, mmapSize := nNew, mmapSizeActual := nNew }, os)

def unixMapfile (pFd : UnixFile) (nMap : I64) (os : OS) : CInt × UnixFile × OS :=
  if 0 < pFd.nFetchOut.toInt then (sqliteOk, pFd, os)
  else
    let (nMap, os) := if nMap.toInt < 0 then sys.osFstat pFd.h os else (some nMap, os)
    match nMap with
    | none => (sqliteIoerrFstat, pFd, os)
    | some nMap =>
      let nMap := if pFd.mmapSizeMax.toInt < nMap.toInt then pFd.mmapSizeMax else nMap
      if nMap ≠ pFd.mmapSize then (sqliteOk, unixRemapfile sys pFd nMap os)
      else (sqliteOk, pFd, os)

/-- The file, `*pp`, the result, and the OS. -/
def unixFetch (pFd : UnixFile) (iOff : I64) (nAmt : CInt) (os : OS) :
    UnixFile × Ptr × CInt × OS :=
  if 0 < pFd.mmapSizeMax.toInt then
    let (rc, pFd, os) :=
      if pFd.pMapRegion = 0 then unixMapfile sys pFd (-1) os else (sqliteOk, pFd, os)
    if rc ≠ sqliteOk then (pFd, 0, rc, os)
    else if (iOff + nAmt.signExtend 64).toInt ≤ pFd.mmapSize.toInt then
      ({ pFd with nFetchOut := pFd.nFetchOut + 1 }, pFd.pMapRegion + iOff, sqliteOk, os)
    else (pFd, 0, sqliteOk, os)
  else (pFd, 0, sqliteOk, os)

/-- `p` is whether the pointer is there. -/
def unixUnfetch (pFd : UnixFile) (p : Bool) (os : OS) : UnixFile × CInt × OS :=
  if p then ({ pFd with nFetchOut := pFd.nFetchOut - 1 }, sqliteOk, os)
  else
    let (pFd, os) := unixUnmapfile sys pFd os
    (pFd, sqliteOk, os)

variable {sys}

theorem unixRemapfile_nFetchOut (pFd : UnixFile) (nNew : I64) (os : OS) :
    (unixRemapfile sys pFd nNew os).1.nFetchOut = pFd.nFetchOut := by
  unfold unixRemapfile
  dsimp only
  split <;> rfl

theorem unixMapfile_nFetchOut (pFd : UnixFile) (nMap : I64) (os : OS) :
    (unixMapfile sys pFd nMap os).2.1.nFetchOut = pFd.nFetchOut := by
  unfold unixMapfile
  split
  · rfl
  · dsimp only
    split
    · rfl
    · split <;> split
      all_goals first
        | exact unixRemapfile_nFetchOut ..
        | rfl

theorem unixFetch_nFetchOut (sys : MmapCalls OS) (pFd : UnixFile) (iOff : I64) (nAmt : CInt)
    (os : OS) (h : (unixFetch sys pFd iOff nAmt os).2.1 ≠ 0) :
    (unixFetch sys pFd iOff nAmt os).1.nFetchOut = pFd.nFetchOut + 1 := by
  rcases hm : (if pFd.pMapRegion = 0 then unixMapfile sys pFd (-1) os else (sqliteOk, pFd, os))
    with ⟨rc, pFd', os'⟩
  have hmap : pFd'.nFetchOut = pFd.nFetchOut := by
    split at hm
    · rw [← unixMapfile_nFetchOut pFd (-1) os, hm]
    · rw [(Prod.mk.inj (Prod.mk.inj hm).2).1]
  simp only [unixFetch, hm] at h ⊢
  by_cases hmax : 0 < pFd.mmapSizeMax.toInt
  · rw [if_pos hmax] at h ⊢
    by_cases hrc : rc ≠ sqliteOk
    · rw [if_pos hrc] at h
      exact absurd rfl h
    · rw [if_neg hrc] at h ⊢
      split at h
      · next hsize =>
        rw [if_pos hsize]
        exact congrArg (· + 1) hmap
      · exact absurd rfl h
  · rw [if_neg hmax] at h
    exact absurd rfl h

theorem unixUnfetch_null (pFd : UnixFile) (h : pFd.pMapRegion = 0) (os : OS) :
    (sys.unixUnfetch pFd false os).1 = pFd := by
  simp [unixUnfetch, unixUnmapfile, h]

end MmapCalls

/-- The server's functions, as far as mappings are concerned. -/
structure UnixFns.Maps {OS : Type} (fns : UnixFns OS) (sys : MmapCalls OS) : Prop where
  fetch : ∀ id zPath iOff nAmt os, fns.unixFetch id zPath iOff nAmt os =
    let (pFd, pp, rc, os) := sys.unixFetch id iOff nAmt os
    (pFd, if pp = 0 then none else fns.memory os pp, rc, os)
  unfetch : ∀ id zPath iOff p os, fns.unixUnfetch id zPath iOff p os = sys.unixUnfetch id p os
  /-- No other function assigns `nFetchOut`. -/
  others : ∀ op : Op, op ≠ .fetch → op ≠ .unfetch →
    op.Within fns fun id _ g _ => g.nFetchOut = id.nFetchOut

/-- What an image says about the mapping. -/
def UnixFile.mapping (f : UnixFile) : CInt × I64 × I64 × I64 × Ptr :=
  (f.nFetchOut, f.mmapSize, f.mmapSizeActual, f.mmapSizeMax, f.pMapRegion)

@[simp] theorem setClientRemotePMethods_mapping (A : Addresses) (pf : UnixFile) :
    (setClientRemotePMethods A pf).mapping = pf.mapping := by
  unfold setClientRemotePMethods
  split <;> rfl

theorem UnixFile.mapping_eq_of_core {id id' g : UnixFile} (h : id'.core = (id.keep g).core) :
    id'.mapping = g.mapping := by
  change id'.core.mapping = (id.keep g).core.mapping
  rw [h]

/-! ## The calls of one handle -/

variable {OS : Type}

/-- The second part of the server's state is the image that its last function on this file
has left. `refs` counts Fetches, less Unfetches of a pointer. -/
structure Mapped (OS : Type) where
  image : UnixFile
  server : Server (OS × UnixFile)
  refs : Int
  last : Option Call

inductive MappedEvent (OS : Type)
  /-- A call, from start to end. -/
  | call (c : Call) (garbage outStruct : Nat → Byte)
  /-- The server has answered other clients. -/
  | others (server : Server OS)

def Call.refs : Call → Int
  | .xFetch .. => 1
  | .xUnfetch _ p => if p = 0 then 0 else -1
  | _ => 0

namespace Mapped

def step (env : Env OS) (s : Mapped OS) (e : MappedEvent OS) : Option (Mapped OS) :=
  match e with
  | .call c garbage outStruct => do
    let r := c.remote env.addresses env.strlen env.stack s.image
    let argIn ← r.argInChar
    let (outarg, server) ← serve env.fns.recording env.addresses garbage c.op argIn
      (Buf.uninit outStruct c.op.returnSize) s.server
    let (image, _) ← r.charToReturn outarg
    return ⟨image, server, s.refs + c.refs, some c⟩
  | .others server => some { s with server := ⟨server.table, server.os, s.server.os.2⟩ }

/-- A call on the open file. -/
def OnHandle (_ : Mapped OS) : MappedEvent OS → Prop
  | .call c _ _ => c.op.OnFile ∧ c.op ≠ .close
  | .others _ => True

/-- The client's image agrees with the server's function. -/
structure InStep (s : Mapped OS) : Prop where
  agree : s.image.mapping = s.server.os.2.mapping
  refs : s.image.nFetchOut = BitVec.ofInt 32 s.refs
  unmapped : ∀ iOff, s.last = some (.xUnfetch iOff 0) →
    s.image.pMapRegion = 0 ∧ s.image.mmapSize = 0

/-- Not an Unfetch, or one that has nothing to do. -/
def Harmless (s : Mapped OS) : MappedEvent OS → Prop
  | .call (.xUnfetch _ p) _ _ => p = 0 ∧ s.image.pMapRegion = 0 ∧ s.image.mmapSize = 0
  | _ => True

variable {env : Env OS} {sys : MmapCalls OS} {s s' : Mapped OS} {c : Call}
  {garbage outStruct : Nat → Byte}

theorem step_call (h : s.step env (.call c garbage outStruct) = some s') :
    ∃ argIn outarg res,
      (c.remote env.addresses env.strlen env.stack s.image).argInChar = some argIn ∧
      serve env.fns.recording env.addresses garbage c.op argIn
        (Buf.uninit outStruct c.op.returnSize) s.server = some (outarg, s'.server) ∧
      (c.remote env.addresses env.strlen env.stack s.image).charToReturn outarg =
        some (s'.image, res) ∧
      s'.refs = s.refs + c.refs ∧ s'.last = some c := by
  obtain ⟨argIn, hargIn, h⟩ := Option.bind_eq_some_iff.mp h
  obtain ⟨⟨outarg, server⟩, hserve, h⟩ := Option.bind_eq_some_iff.mp h
  obtain ⟨⟨image, res⟩, hret, h⟩ := Option.bind_eq_some_iff.mp h
  obtain rfl := Option.some.inj h
  exact ⟨argIn, outarg, res, hargIn, hserve, hret, rfl, rfl⟩

theorem image_of_reply {out : Buf c.op.returnSize} {id id' g img : UnixFile} {res : Result}
    (hop : c.op.OnFile) (hclose : c.op ≠ .close) (hunfetch : c.op ≠ .unfetch)
    (hout : out.get UnixFile 0 = some id') (hcore : id'.core = (id.keep g).core)
    (hret : (c.remote env.addresses env.strlen env.stack s.image).charToReturn out =
      some (img, res)) : img.mapping = g.mapping := by
  obtain ⟨⟨id'', hid'', himg : img = _⟩, -⟩ := remote_readsReply env.strlen env.stack s.image
    (.inl hop) hclose hunfetch out _ hret
  obtain rfl := Option.some.inj (hout.symm.trans hid'')
  rw [himg, setClientRemotePMethods_mapping, UnixFile.mapping_eq_of_core hcore]

theorem step_fetch (hmaps : env.fns.Maps sys) {iOff : I64} {nAmt : CInt} (hs : InStep s)
    (h : s.step env (.call (.xFetch iOff nAmt) garbage outStruct) = some s') : InStep s' := by
  obtain ⟨argIn, outarg, res, hargIn, hserve, hret, hrefs, hlast⟩ := step_call h
  obtain ⟨id, zPath, iOff', nAmt', g, pData, rc, id', hid, hfetch, hout, hcore⟩ :=
    serve_fetch hserve
  obtain rfl := Option.some.inj
    ((remote_putsImage env.strlen env.stack s.image (by trivial) hargIn).symm.trans
      (takesImage_fetch.image _ _ hid))
  have himage := image_of_reply (c := .xFetch iOff nAmt) trivial nofun nofun hout hcore hret
  rcases hr : sys.unixFetch s.image.core iOff' nAmt' s.server.os.1 with ⟨pFd, pp, rc', os⟩
  simp only [UnixFns.recording, hmaps.fetch, hr, Prod.mk.injEq] at hfetch
  obtain ⟨rfl, hpp, -, hos⟩ := hfetch
  have hne : pp ≠ 0 := by
    rintro rfl
    cases hpp
  have hcount : pFd.nFetchOut = s.image.nFetchOut + 1 := by
    have hcount := MmapCalls.unixFetch_nFetchOut sys s.image.core iOff' nAmt' s.server.os.1
      (by rw [hr]; exact hne)
    rwa [hr] at hcount
  refine ⟨by rw [himage, ← hos], ?_, fun iOff' hl => ?_⟩
  · calc s'.image.nFetchOut = pFd.nFetchOut := congrArg Prod.fst himage
      _ = BitVec.ofInt 32 s.refs + 1 := by rw [hcount, hs.refs]
      _ = BitVec.ofInt 32 s'.refs := by
        rw [hrefs, show (Call.xFetch iOff nAmt).refs = 1 from rfl, BitVec.ofInt_add]
        rfl
  · rw [hlast] at hl
    cases hl

theorem step_other (hmaps : env.fns.Maps sys) (hop : c.op.OnFile) (hclose : c.op ≠ .close)
    (hfetch : c.op ≠ .fetch) (hunfetch : c.op ≠ .unfetch) (hs : InStep s)
    (h : s.step env (.call c garbage outStruct) = some s') : InStep s' := by
  obtain ⟨argIn, outarg, res, hargIn, hserve, hret, hrefs, hlast⟩ := step_call h
  obtain ⟨id, g, id', hid, ⟨hleft, hsame⟩, hout, hcore⟩ := serve_within hop hclose
    ((hmaps.others c.op hfetch hunfetch).recording hop hclose) hserve
  obtain rfl := Option.some.inj
    ((remote_putsImage env.strlen env.stack s.image hop hargIn).symm.trans hid)
  have himage := image_of_reply hop hclose hunfetch hout hcore hret
  have hzero : c.refs = 0 := by
    cases c with
    | xFetch => exact absurd rfl hfetch
    | xUnfetch => exact absurd rfl hunfetch
    | _ => rfl
  have hcount : s'.image.nFetchOut = s.image.nFetchOut :=
    (congrArg Prod.fst himage).trans hsame
  refine ⟨by rw [himage, hleft], by rw [hcount, hs.refs, hrefs, hzero, add_zero], fun iOff hl => ?_⟩
  rw [hlast] at hl
  obtain rfl := Option.some.inj hl
  exact absurd rfl hunfetch

/-- An Unfetch leaves the client's image alone, whatever it does on the server. -/
theorem step_unfetch (hmaps : env.fns.Maps sys) {iOff : I64} {p : Ptr}
    (h : s.step env (.call (.xUnfetch iOff p) garbage outStruct) = some s') :
    s'.image.mapping = s.image.mapping ∧ s'.server.os.2 =
      (sys.unixUnfetch s.image.core (p ≠ 0) s.server.os.1).1 ∧
    s'.refs = s.refs + (Call.xUnfetch iOff p).refs ∧ s'.last = some (.xUnfetch iOff p) := by
  obtain ⟨argIn, outarg, res, hargIn, hserve, hret, hrefs, hlast⟩ := step_call h
  obtain ⟨id, ⟨iOff', pFlag⟩, zPath, g, rc, id', hdec, hunfetch, -⟩ := serve_unfetch hserve
  have hreq := unixFetch_request s.image iOff (if p = 0 then 0 else 1)
    (Buf.zeros (Op.argInSize .unfetch)) (by decide)
  obtain ⟨argIn', hargIn', hdec'⟩ := Option.bind_eq_some_iff.mp hreq
  obtain rfl : argIn' = argIn := Option.some.inj (hargIn'.symm.trans hargIn)
  obtain ⟨rfl, hargs⟩ := Prod.mk.inj (Option.some.inj (hdec.symm.trans hdec'))
  obtain ⟨-, rfl⟩ := Prod.mk.inj hargs
  have hflag : ((if p = 0 then (0 : CInt) else 1) ≠ 0) ↔ p ≠ 0 := by
    split <;> simp_all
  obtain ⟨⟨id', -, himage : s'.image = _⟩, -⟩ := remote_unfetch env.strlen env.stack s.image hret
  refine ⟨by rw [himage, setClientRemotePMethods_mapping]; rfl, ?_, hrefs, hlast⟩
  simp only [UnixFns.recording, hmaps.unfetch, hflag, Prod.mk.injEq] at hunfetch
  obtain ⟨rfl, -, hos⟩ := hunfetch
  rw [← hos]

theorem step_unfetch_iff (hmaps : env.fns.Maps sys) {iOff : I64} {p : Ptr} (hs : InStep s)
    (h : s.step env (.call (.xUnfetch iOff p) garbage outStruct) = some s') :
    InStep s' ↔ p = 0 ∧ s.image.pMapRegion = 0 ∧ s.image.mmapSize = 0 := by
  obtain ⟨hmap, hleft, hrefs, hlast⟩ := step_unfetch hmaps h
  have hregion : s'.image.pMapRegion = s.image.pMapRegion :=
    congrArg (fun m => m.2.2.2.2) hmap
  have hsize : s'.image.mmapSize = s.image.mmapSize := congrArg (fun m => m.2.1) hmap
  constructor
  · intro hs'
    have hp : p = 0 := by
      by_contra hp
      have hcount : s.image.nFetchOut = s.image.nFetchOut - 1 := by
        have hagree := congrArg Prod.fst (hmap.symm.trans hs'.agree)
        rwa [hleft, MmapCalls.unixUnfetch, if_pos (decide_eq_true hp)] at hagree
      bv_omega
    subst hp
    have hun := hs'.unmapped iOff hlast
    rw [hregion, hsize] at hun
    exact ⟨rfl, hun⟩
  · rintro ⟨rfl, hnull, hzero⟩
    refine ⟨?_, ?_, fun _ _ => ⟨hregion.trans hnull, hsize.trans hzero⟩⟩
    · have hleft : s'.server.os.2 = s.image.core := by
        rw [hleft, decide_eq_false (by simp)]
        exact sys.unixUnfetch_null s.image.core hnull _
      rw [hmap, hleft]
      rfl
    · have hcount : s'.image.nFetchOut = s.image.nFetchOut := congrArg Prod.fst hmap
      rw [hcount, hs.refs, hrefs, show (Call.xUnfetch iOff 0).refs = 0 from rfl, add_zero]

theorem inStep_step (hmaps : env.fns.Maps sys) {e : MappedEvent OS} (hs : InStep s)
    (hok : s.OnHandle e) (h : s.step env e = some s') : InStep s' ↔ s.Harmless e := by
  cases e with
  | others server =>
    obtain rfl := Option.some.inj h
    exact ⟨fun _ => trivial, fun _ => ⟨hs.agree, hs.refs, hs.unmapped⟩⟩
  | call c garbage outStruct =>
    obtain ⟨hop, hclose⟩ := hok
    by_cases hunfetch : c.op = .unfetch
    · cases c with
      | xUnfetch iOff p => exact step_unfetch_iff hmaps hs h
      | _ => cases hunfetch
    · have hharmless : s.Harmless (.call c garbage outStruct) := by
        cases c with
        | xUnfetch => exact absurd rfl hunfetch
        | _ => trivial
      refine ⟨fun _ => hharmless, fun _ => ?_⟩
      by_cases hfetch : c.op = .fetch
      · cases c with
        | xFetch iOff nAmt => exact step_fetch hmaps hs h
        | _ => cases hfetch
      · exact step_other hmaps hop hclose hfetch hunfetch hs h

variable (env) in
/-- The client stays in step exactly as long as no Unfetch has anything to do. -/
theorem in_step_iff (hmaps : env.fns.Maps sys) {s s' : Mapped OS} (hs : InStep s)
    {es : List (MappedEvent OS)} (hok : Runs.Allowed (step env) OnHandle s es)
    (hrun : Runs.run (step env) s es = some s') :
    Runs.Along (step env) InStep s es ↔ Runs.Allowed (step env) Harmless s es :=
  @Runs.along_iff_allowed _ _ _ (fun _ => True) _ _ _
    (fun _ _ _ _ hok hs h => ⟨trivial, inStep_step hmaps hs hok h⟩) _ _ _ hok trivial hs hrun

end Mapped

/-! ## On the disk of the examples -/

namespace Disk

/-- Every mapping is at one address. -/
def mmapCalls : MmapCalls Disk where
  osFstat _ d := (some (BitVec.ofNat 64 d.data.length), d)
  osMmap _ _ d := (0x10000, d)
  osMremap _ _ _ d := (0x10000, d)
  osMunmap _ _ d := d

def mappedFns : UnixFns Disk where
  __ := fns
  unixFetch id _ iOff nAmt d :=
    let (pFd, pp, rc, d) := mmapCalls.unixFetch id iOff nAmt d
    (pFd, if pp = 0 then none else some (d.data.drop (pp.toNat - 0x10000)), rc, d)
  unixUnfetch id _ _ p d := mmapCalls.unixUnfetch id p d
  memory d p := some (d.data.drop (p.toNat - 0x10000))

def mappedEnv : Env Disk := ⟨mappedFns, Addresses.flat, fun _ => none, fun _ => 0⟩

theorem maps : mappedFns.Maps mmapCalls where
  fetch _ _ _ _ _ := rfl
  unfetch _ _ _ _ _ := rfl
  others op hfetch hunfetch := by
    cases op with
    | fetch => exact absurd rfl hfetch
    | unfetch => exact absurd rfl hunfetch
    | sectorSize | deviceCharacteristics => exact fun _ _ _ => rfl
    | truncate | sync | fileSize | lock | unlock | checkReservedLock => exact fun _ _ _ _ => rfl
    | write => exact fun _ _ _ _ _ => rfl
    | read => exact fun _ _ _ _ _ _ => rfl
    | fileControl =>
      intro id zPath op arg os
      change (unixFileControl id op arg os).1.nFetchOut = id.nFetchOut
      unfold unixFileControl
      split <;> rfl
    | _ => trivial

/-- An open file of four bytes that may be mapped. -/
def mappedFile : Mapped Disk :=
  let image := { UnixFile.zero with h := 3, mmapSizeMax := 0x1000 }
  let t := (table.addNode 3 Addresses.flat.posixIoMethods).getD table
  ⟨image, ⟨t, ⟨[1, 2, 3, 4], 4⟩, image⟩, 0, none⟩

theorem mappedFile_inStep : mappedFile.InStep := ⟨rfl, rfl, nofun⟩

def fetchUnfetch : List (MappedEvent Disk) :=
  [.call (.xFetch 0 4) (fun _ => 1) (fun _ => 2),
    .call (.xUnfetch 0 0x10000) (fun _ => 3) (fun _ => 4)]

end Disk

namespace Mapped

theorem onHandle_fetchUnfetch (s : Mapped Disk) :
    Runs.Allowed (step Disk.mappedEnv) OnHandle s Disk.fetchUnfetch :=
  .of_mem (fun e he s => by
    rcases List.mem_cons.mp he with rfl | he
    · exact ⟨trivial, nofun⟩
    · obtain rfl := List.mem_singleton.mp he
      exact ⟨trivial, nofun⟩) s

theorem in_step_iff_fetchUnfetch :
    ¬ Runs.Along (step Disk.mappedEnv) InStep Disk.mappedFile Disk.fetchUnfetch := by
  obtain ⟨s, hs⟩ := Option.isSome_iff_exists.mp (by decide +kernel :
    (Runs.run (step Disk.mappedEnv) Disk.mappedFile Disk.fetchUnfetch).isSome)
  rw [in_step_iff Disk.mappedEnv Disk.maps Disk.mappedFile_inStep (onHandle_fetchUnfetch _) hs]
  rintro ⟨-, h⟩
  obtain ⟨m, hm, -⟩ := Runs.run_cons_eq_some.mp hs
  obtain ⟨hp, -⟩ := (h m hm).1
  exact absurd hp (by decide)

/-- The server has released the mapping, and the client has not. -/
theorem not_in_step :
    ∃ s, Runs.run (step Disk.mappedEnv) Disk.mappedFile Disk.fetchUnfetch = some s ∧
      ¬ InStep s := by
  obtain ⟨s, hs⟩ := Option.isSome_iff_exists.mp (by decide +kernel :
    (Runs.run (step Disk.mappedEnv) Disk.mappedFile Disk.fetchUnfetch).isSome)
  have hcount : (Runs.run (step Disk.mappedEnv) Disk.mappedFile Disk.fetchUnfetch).map
      (fun s => (s.image.nFetchOut, s.server.os.2.nFetchOut)) = some (1, 0) := by decide +kernel
  rw [hs, Option.map_some, Option.some.injEq, Prod.mk.injEq] at hcount
  refine ⟨s, hs, fun hstep => ?_⟩
  have hagree := congrArg Prod.fst hstep.agree
  change s.image.nFetchOut = s.server.os.2.nFetchOut at hagree
  rw [hcount.1, hcount.2] at hagree
  cases hagree

end Mapped

end RemoteVfs
