import RemoteVfs.Client.Shape
import RemoteVfs.Disk

/-!
# The remote VFS refines the local one

The server keeps no state for a handle besides the table. The rest travels in the
client's image, and the simulation says that the image is always up to date.
-/

open CMem

namespace RemoteVfs

variable {OS : Type} {fns : UnixFns OS} (A : Addresses)

/-- The client's image, where a file is open. -/
def Mirrors (file : Option LocalFile) (img : UnixFile) : Prop :=
  ∀ f, file = some f → img.core = f.image

/-- The table has what the image lacks of an open file. -/
def Backs (t : FdTable) (file : Option LocalFile) : Prop :=
  ∀ f, file = some f → t.Holds f.image.h (A.ioMethods f.style) f.path ∧
    (isMainDb f.flags → f.style = .posix)

theorem Backs.of_lookup {t t' : FdTable} {file : Option LocalFile} (h : Backs A t file)
    (heq : ∀ f, file = some f → t'.lookup f.image.h = t.lookup f.image.h) : Backs A t' file :=
  fun f hf => ⟨(h f hf).1.of_lookup (heq f hf), (h f hf).2⟩

/-! ## One call -/

namespace Call

variable {c : Call} {f : LocalFile}

/-- The calls that work on a file. -/
def OnFile : Call → Prop
  | .xOpen .. | .xDelete .. | .xAccess .. | .xGetLastError => False
  | _ => True

theorem Permitted.sized {file : Option LocalFile} (h : c.Permitted file) : c.Sized := by
  cases c with
  | xWrite pBuf amt offset | xRead pBuf amt offset => exact ⟨h.2.1.le, h.2.2.1⟩
  | xFileControl op pArg =>
    obtain ⟨-, hop, obj, rfl, -⟩ := h
    exact .inr ⟨by omega, rfl⟩
  | xFetch | xUnfetch => cases h
  | _ => trivial

theorem Permitted.unixMethod_eq_some (fns : UnixFns OS) (os : OS) (h : c.Permitted (some f))
    (hc : c.OnFile) (style : LockingStyle) :
    ∃ r, c.unixMethod fns style f.image (some f.path) os = some r := by
  cases c with
  | xOpen | xDelete | xAccess | xGetLastError => cases hc
  | xFetch | xUnfetch => cases h
  | xWrite pBuf amt offset =>
    have hle : 0 + sizeT amt ≤ pBuf.length := by
      rw [sizeT_of_nonneg amt h.2.1.le]
      have := h.2.2.2
      omega
    exact ⟨_, by
      simp only [unixMethod, Buf.read_eq _ hle, Option.bind_eq_bind, Option.bind_some]
      rfl⟩
  | xRead pBuf amt offset =>
    have hle : sizeT amt ≤ pBuf.length := by
      rw [sizeT_of_nonneg amt h.2.1.le]
      have := h.2.2.2
      omega
    exact ⟨_, by
      simp only [unixMethod, Buf.take_eq _ hle, Option.bind_eq_bind, Option.bind_some]
      rfl⟩
  | xFileControl op pArg =>
    obtain ⟨-, hop, obj, rfl, hle⟩ := h
    have hne : controlType op ≠ 0 := by omega
    exact ⟨_, by simp only [unixMethod, if_neg hne, Buf.take_eq _ hle, Option.bind_eq_bind,
      Option.bind_some]; rfl⟩
  | _ => exact ⟨_, rfl⟩

theorem Permitted.call_eq (h : c.Permitted (some f)) (hdb : isMainDb f.flags → f.style = .posix) :
    f.call fns c os = c.unixMethod fns f.style f.image (some f.path) os := by
  obtain ⟨image, style, path, flags⟩ := f
  cases style with
  | posix => rfl
  | nolock =>
    cases c with
    | xLock | xUnlock | xCheckReservedLock =>
      obtain ⟨f', hf', hmain⟩ := h
      obtain rfl := Option.some.inj hf'
      cases hdb hmain
    | _ => rfl

theorem mirrors_imageAfter {file : Option LocalFile} (h : c.Permitted file) {img g : UnixFile}
    (hm : img.core = f.image) (a : Nat) (pm : Ptr) :
    Mirrors (c.fileAfter f g) (c.imageAfter A img (boundImage A a pm img g)) := by
  intro f' hf'
  cases c with
  | xUnfetch => cases h
  | xClose => cases hf'
  | _ =>
    obtain rfl := Option.some.inj hf'
    exact (setClientRemotePMethods_core A _).trans (hm ▸ rfl)

theorem fileAfter_h {g : UnixFile} {f' : LocalFile} (h : c.fileAfter f g = some f') :
    f'.image.h = f.image.h ∧ f'.style = f.style ∧ f'.path = f.path ∧ f'.flags = f.flags := by
  cases c with
  | xClose => cases h
  | _ =>
    obtain rfl := Option.some.inj h
    exact ⟨rfl, rfl, rfl, rfl⟩

variable (fns) in
/-- What the remote VFS does with a call, next to what the local one does. -/
structure Follows (c : Call) (s : Server OS) (file : Option LocalFile) (img : UnixFile)
    (file' : Option LocalFile) (img' : UnixFile) (t' : FdTable) (os' : OS) (res : Result) :
    Prop where
  exec : c.exec fns file s.os = some (file', res, os')
  carried : ∀ strlen garbage stack out,
    c.Carried fns A strlen garbage stack out img img' s ⟨t', os'⟩ res
  mirrors : Mirrors file' img'
  valid : t'.Valid
  backs : Backs A t' file'
  /-- Only an Open brings a new descriptor. -/
  descriptor : ∀ f', file' = some f' →
    c.opens fns s.os = some f'.image.h ∨ ∃ f, file = some f ∧ f'.image.h = f.image.h
  frame : ∀ fd, c.opens fns s.os ≠ some fd → t'.lookup fd = s.table.lookup fd

variable {A} {s : Server OS} {img : UnixFile} {file : Option LocalFile}

theorem follows_file (hp : c.Permitted (some f)) (hc : c.OnFile) (hv : s.table.Valid)
    (hb : Backs A s.table (some f)) (hm : img.core = f.image)
    (hexec : c.exec fns (some f) s.os = (f.call fns c s.os).bind fun (image, result, os) =>
      some (c.fileAfter f image, result, os)) :
    ∃ file' img' os' res, c.Follows fns A s (some f) img file' img' s.table os' res := by
  obtain ⟨hholds, hdb⟩ := hb f rfl
  obtain ⟨⟨g, res, os'⟩, hrun⟩ := hp.unixMethod_eq_some fns s.os hc f.style
  obtain ⟨a, hbinds⟩ := hholds.binds (A.ioMethods_ne_null f.style)
  rw [hp.call_eq hdb, hrun] at hexec
  have hfd : img.h = f.image.h := by rw [← hm, UnixFile.core_h]
  rw [← hm] at hrun
  refine ⟨_, c.imageAfter A img (boundImage A a (A.ioMethods f.style) img g), os', res, hexec,
    fun strlen garbage stack out => ?_, mirrors_imageAfter A hp hm a _, hv, ?_, ?_, fun _ _ => rfl⟩
  · exact c.carried fns A hp.sized hv (hfd ▸ hbinds) hrun strlen garbage stack out
  · intro f' hf'
    obtain ⟨hh, hstyle, hpath, hflags⟩ := fileAfter_h hf'
    rw [hh, hstyle, hpath, hflags]
    exact ⟨hholds, hdb⟩
  · intro f' hf'
    exact .inr ⟨f, rfl, (fileAfter_h hf').1⟩

theorem follows_open (hfns : fns.OpensFiles) {zPath : Option (List Byte)} {pFile : UnixFile}
    {flags : CInt} {pOutFlags : Option CInt}
    (hp : (xOpen zPath pFile flags pOutFlags).Permitted file) (hv : s.table.Valid) :
    ∃ file' img' t' os' res, (xOpen zPath pFile flags pOutFlags).Follows fns A s file img
      file' img' t' os' res := by
  obtain ⟨⟨z, rfl, p, hz, hlen⟩, hflags⟩ := hp
  obtain ⟨t', hv', hholds, hother, hcarried⟩ := xOpen_carried (A := A) hz hlen img hv pFile flags
    hflags (r := openOn fns pFile p flags pOutFlags s.os) rfl (hfns.outFlags _ _ _ _ _)
  let r := openOn fns pFile p flags pOutFlags s.os
  have hopens : (xOpen (some z) pFile flags pOutFlags).opens fns s.os = some r.image.h := by
    rw [opens, Option.bind_some, hz]
    rfl
  have hfile : ∀ f', r.style.map (LocalFile.mk r.image.core · p flags) = some f' →
      ∃ style, r.style = some style ∧ f' = ⟨r.image.core, style, p, flags⟩ := by
    intro f' hf'
    obtain ⟨style, hstyle, rfl⟩ := Option.map_eq_some_iff.mp hf'
    exact ⟨style, hstyle, rfl⟩
  refine ⟨r.style.map (LocalFile.mk r.image.core · p flags), setClientRemotePMethods A (r.file A),
    t', r.os, _, ?_, hcarried, ?_, hv', ?_, ?_, ?_⟩
  · rw [exec, Option.bind_some, hz]
    rfl
  · intro f' hf'
    obtain ⟨style, -, rfl⟩ := hfile f' hf'
    exact setClientRemotePMethods_core A _
  · intro f' hf'
    obtain ⟨style, hstyle, rfl⟩ := hfile f' hf'
    refine ⟨?_, fun hdb => hfns.main_db _ _ _ _ _ _ hdb hstyle⟩
    rw [Addresses.openedMethod, hstyle] at hholds
    exact hholds
  · intro f' hf'
    obtain ⟨style, -, rfl⟩ := hfile f' hf'
    exact .inl hopens
  · intro fd hfd
    exact hother fd fun heq => hfd (heq ▸ hopens)

theorem follows (hfns : fns.OpensFiles) (hp : c.Permitted file) (hv : s.table.Valid)
    (hb : Backs A s.table file) (hm : c.op ≠ .open_ → Mirrors file img) :
    ∃ file' img' t' os' res, c.Follows fns A s file img file' img' t' os' res := by
  cases c with
  | xGetLastError | xFetch | xUnfetch => cases hp
  | xOpen => exact follows_open hfns hp hv
  | xDelete zPath dirSync =>
    obtain ⟨p, hz, hlen⟩ := hp
    rcases hr : fns.unixDelete p dirSync s.os with ⟨rc, os⟩
    refine ⟨file, img, s.table, os, ⟨rc, .nothing⟩, ?_, fun strlen garbage stack out => ?_,
      hm nofun, hv, hb, fun f hf => .inr ⟨f, hf, rfl⟩, fun _ _ => rfl⟩
    · simp only [exec, hz, Option.bind_eq_bind, Option.bind_some, hr]
      rfl
    · exact xDelete_carried hz hlen strlen garbage stack img dirSync hr out
  | xAccess zPath flags resOut =>
    obtain ⟨p, hz, hlen⟩ := hp
    rcases hr : fns.unixAccess p flags resOut s.os with ⟨res, rc, os⟩
    refine ⟨file, img, s.table, os, ⟨rc, .int res⟩, ?_, fun strlen garbage stack out => ?_,
      hm nofun, hv, hb, fun f hf => .inr ⟨f, hf, rfl⟩, fun _ _ => rfl⟩
    · simp only [exec, hz, Option.bind_eq_bind, Option.bind_some, hr]
      rfl
    · exact xAccess_carried hz hlen strlen garbage stack img flags resOut hr out
  | xLock | xUnlock | xCheckReservedLock =>
    obtain ⟨f, rfl, -⟩ := id hp
    obtain ⟨file', img', os', res, h⟩ := follows_file hp trivial hv hb (hm nofun f rfl) rfl
    exact ⟨file', img', s.table, os', res, h⟩
  | xWrite | xRead | xFileControl =>
    obtain ⟨f, rfl⟩ := Option.isSome_iff_exists.mp hp.1
    obtain ⟨file', img', os', res, h⟩ := follows_file hp trivial hv hb (hm nofun f rfl) rfl
    exact ⟨file', img', s.table, os', res, h⟩
  | xTruncate | xSync | xFileSize | xSectorSize | xDeviceCharacteristics | xClose =>
    obtain ⟨f, rfl⟩ := Option.isSome_iff_exists.mp hp
    obtain ⟨file', img', os', res, h⟩ := follows_file hp trivial hv hb (hm nofun f rfl) rfl
    exact ⟨file', img', s.table, os', res, h⟩

@[simp] theorem remote_imageBefore (A : Addresses) (strlen : Ptr → Option Nat)
    (stack : Nat → Byte) (id : UnixFile) (c : Call) :
    c.remote A strlen stack (c.imageBefore id) = c.remote A strlen stack id := by
  cases c <;> rfl

end Call

/-! ## Any number of clients -/

variable {H : Type} (env : Env OS)

/-- A handle of the remote VFS, and the same handle of the local one. -/
inductive Linked (img : UnixFile) (file : Option LocalFile) : Phase → LocalPhase → Prop
  | idle (mirrors : Mirrors file img) : Linked img file .idle .idle
  | called (c : Call) (argIn : Buf c.op.argInSize) (permitted : c.Permitted file)
      (request : (c.remote env.addresses env.strlen env.stack img).argInChar = some argIn)
      (mirrors : c.op ≠ .open_ → Mirrors file img) : Linked img file (.sent c argIn) (.called c)
  | done (c : Call) (outarg : Buf c.op.returnSize) (img' : UnixFile) (result : Result)
      (reply : (c.remote env.addresses env.strlen env.stack img).charToReturn outarg =
        some (img', result))
      (mirrors : Mirrors file img') : Linked img file (.served c outarg) (.done c result)

structure Refines (l : LocalVfs OS H) (s : System OS H) : Prop where
  os : s.server.os = l.os
  trace : s.trace.map (fun e => (e.handle, e.call, e.result)) = l.trace
  valid : s.server.table.Valid
  backs : ∀ h, Backs env.addresses s.server.table (l.file h)
  distinct : ∀ h h' f f', l.file h = some f → l.file h' = some f' → h' ≠ h →
    f'.image.h ≠ f.image.h
  linked : ∀ h, Linked env (s.image h) (l.file h) (s.phase h) (l.phase h)

variable {env} {l : LocalVfs OS H} {s : System OS H} {h : H}

theorem refines_init (image : H → UnixFile) {table : FdTable} (hv : table.Valid) (os : OS) :
    Refines env (LocalVfs.init os) (System.init image table os) where
  os := rfl
  trace := rfl
  valid := hv
  backs _ _ hf := by cases hf
  distinct _ _ _ _ hf := by cases hf
  linked _ := .idle fun _ hf => by cases hf

/-- The same results in the same order, the same OS, and up-to-date images. -/
structure SameView (l : LocalVfs OS H) (s : System OS H) : Prop where
  trace : s.trace.map (fun e => (e.handle, e.call, e.result)) = l.trace
  os : s.server.os = l.os
  image : ∀ h f, l.phase h = .idle → l.file h = some f → (s.image h).core = f.image

theorem Refines.sameView (hR : Refines env l s) : SameView l s where
  trace := hR.trace
  os := hR.os
  image h f hidle hf := by
    have hl := hR.linked h
    rw [hidle] at hl
    generalize s.phase h = sp at hl
    cases hl with
    | idle mirrors => exact mirrors f hf

/-! ## Step by step -/

variable [DecidableEq H]

theorem Refines.send (hfns : env.fns.OpensFiles) (hR : Refines env l s) {c : Call}
    (hp : c.Permitted (l.file h)) :
    Option.Rel (Refines env) (l.step env.fns (.send h c)) (s.step env (.send h c)) := by
  have hl := hR.linked h
  generalize hlp : l.phase h = lp at hl
  generalize hsp : s.phase h = sp at hl
  cases hl with
  | called | done =>
    simp only [LocalVfs.step, System.step, hlp, hsp]
    exact .none
  | idle mirrors =>
    obtain ⟨file', img', t', os', res, hf⟩ := Call.follows hfns hp hR.valid (hR.backs h)
      fun _ => mirrors
    obtain ⟨argIn, -, hargIn, -⟩ := hf.carried env.strlen env.stack env.stack (Buf.zeros _)
    simp only [LocalVfs.step, System.step, hlp, hsp, hargIn]
    refine .some ⟨hR.os, hR.trace, hR.valid, hR.backs, hR.distinct, fun h' => ?_⟩
    by_cases hh : h' = h
    · subst hh
      simp only [Function.update_self]
      refine .called c argIn hp (by rw [Call.remote_imageBefore, hargIn]) fun hc => ?_
      rw [Call.imageBefore_eq _ hc]
      exact mirrors
    · simp only [Function.update_of_ne hh]
      exact hR.linked h'

theorem Refines.serve (hfns : env.fns.OpensFiles) (hR : Refines env l s)
    {garbage outStruct : Nat → Byte} (hok : l.Scheduled env.fns (.serve h garbage outStruct)) :
    Option.Rel (Refines env) (l.step env.fns (.serve h garbage outStruct))
      (s.step env (.serve h garbage outStruct)) := by
  have hl := hR.linked h
  generalize hlp : l.phase h = lp at hl
  generalize hsp : s.phase h = sp at hl
  cases hl with
  | idle | done =>
    simp only [LocalVfs.step, System.step, hlp, hsp]
    exact .none
  | called c argIn permitted request mirrors =>
    obtain ⟨file', img', t', os', res, hf⟩ := Call.follows hfns permitted hR.valid (hR.backs h)
      mirrors
    obtain ⟨argIn', outarg, hargIn, hserve, hreply⟩ := hf.carried env.strlen garbage env.stack
      (Buf.uninit outStruct c.op.returnSize)
    obtain rfl : argIn' = argIn := Option.some.inj (hargIn.symm.trans request)
    have hexec := hf.exec
    rw [hR.os] at hexec
    simp only [LocalVfs.step, System.step, hlp, hsp, hexec, hserve]
    have hfresh : ∀ h' f, l.file h' = some f → h' ≠ h → c.opens env.fns s.server.os ≠
        some f.image.h := fun h' f hfile hne heq =>
      hok c _ hlp (hR.os ▸ heq) h' f hfile hne rfl
    have hfd : ∀ f', file' = some f' → ∀ h' f, l.file h' = some f → h' ≠ h →
        f.image.h ≠ f'.image.h := by
      intro f' hf' h' f hfile hne heq
      rcases hf.descriptor f' hf' with hopen | ⟨f₀, hf₀, hsame⟩
      · exact hfresh h' f hfile hne (heq ▸ hopen)
      · exact hR.distinct h h' f₀ f hf₀ hfile hne (heq.trans hsame)
    refine .some ⟨rfl, hR.trace, hf.valid, fun h' => ?_, fun h₁ h₂ f₁ f₂ h₁f h₂f hne => ?_,
      fun h' => ?_⟩
    · by_cases hh : h' = h
      · subst hh
        simpa only [Function.update_self] using hf.backs
      · simp only [Function.update_of_ne hh]
        exact (hR.backs h').of_lookup _ fun f hfile => hf.frame _ (hfresh h' f hfile hh)
    · dsimp only at h₁f h₂f
      by_cases hh₁ : h₁ = h
      · subst hh₁
        rw [Function.update_self] at h₁f
        rw [Function.update_of_ne hne] at h₂f
        exact hfd f₁ h₁f h₂ f₂ h₂f hne
      · rw [Function.update_of_ne hh₁] at h₁f
        by_cases hh₂ : h₂ = h
        · subst hh₂
          rw [Function.update_self] at h₂f
          exact (hfd f₂ h₂f h₁ f₁ h₁f hh₁).symm
        · rw [Function.update_of_ne hh₂] at h₂f
          exact hR.distinct h₁ h₂ f₁ f₂ h₁f h₂f hne
    · by_cases hh : h' = h
      · subst hh
        simp only [Function.update_self]
        exact .done c outarg img' res hreply hf.mirrors
      · simp only [Function.update_of_ne hh]
        exact hR.linked h'

theorem Refines.recv (hR : Refines env l s) :
    Option.Rel (Refines env) (l.step env.fns (.recv h)) (s.step env (.recv h)) := by
  have hl := hR.linked h
  generalize hlp : l.phase h = lp at hl
  generalize hsp : s.phase h = sp at hl
  cases hl with
  | idle | called =>
    simp only [LocalVfs.step, System.step, hlp, hsp]
    exact .none
  | done c outarg img' result reply mirrors =>
    have hfinish : (c.remote env.addresses env.strlen env.stack (s.image h)).finish (some outarg) =
        some (img', result) := reply
    simp only [LocalVfs.step, System.step, hlp, hsp, System.finish, hfinish]
    refine .some ⟨hR.os, ?_, hR.valid, hR.backs, hR.distinct, fun h' => ?_⟩
    · rw [List.map_cons, hR.trace]
    · by_cases hh : h' = h
      · subst hh
        simp only [Function.update_self]
        exact .idle mirrors
      · simp only [Function.update_of_ne hh]
        exact hR.linked h'

theorem Refines.step (hfns : env.fns.OpensFiles) (hR : Refines env l s) {e : Event H}
    (hok : l.Scheduled env.fns e) :
    Option.Rel (Refines env) (l.step env.fns e) (s.step env e) := by
  cases e with
  | send h c => exact hR.send hfns hok
  | serve h garbage outStruct => exact hR.serve hfns hok
  | recv h => exact hR.recv
  | fail h => cases hok

variable (env) in
/-- A schedule gets stuck on neither VFS, or on both; and nobody can tell them apart. -/
theorem remote_refines_local (hfns : env.fns.OpensFiles) (image : H → UnixFile) {table : FdTable}
    (hempty : table.listHead = none) (os : OS) {es : List (Event H)}
    (hok : Runs.Allowed (LocalVfs.step env.fns) (LocalVfs.Scheduled env.fns) (LocalVfs.init os)
      es) :
    Option.Rel SameView (Runs.run (LocalVfs.step env.fns) (LocalVfs.init os) es)
      (Runs.run (System.step env) (System.init image table os) es) := by
  have hrel := Runs.bisimulation (fun l s e hR hok => Refines.step hfns hR hok) hok
    (refines_init image (.inl hempty) os)
  exact Runs.rel_mono (fun l s hR => hR.sameView) hrel

theorem remote_refines_local_openWriteOpen :
    Option.Rel SameView
      (Runs.run (LocalVfs.step Disk.fns) (LocalVfs.init ⟨[], 3⟩) openWriteOpen)
      (Runs.run (System.step Disk.env)
        (System.init (fun _ => UnixFile.zero) Disk.table ⟨[], 3⟩) openWriteOpen) := by
  have hpath : PathFits [97, 0] := ⟨[97], by decide, by decide⟩
  have hopen : ∀ file, (Call.xOpen (some [97, 0]) UnixFile.zero 0x106 (some 0x106)).Permitted
      file := fun file => ⟨⟨_, rfl, hpath⟩, by decide⟩
  refine remote_refines_local Disk.env Disk.opensFiles _ rfl _ ?_
  refine .cons ?_ rfl (.cons ?_ rfl (.cons ?_ rfl (.cons trivial rfl (.cons ?_ rfl
    (.cons ?_ rfl (.cons ?_ rfl (.cons trivial rfl (.cons trivial rfl trivial))))))))
  · exact hopen none
  · exact hopen none
  · intro c fd hc hfd h' f hf
    cases hf
  · exact ⟨rfl, by decide, by decide, by decide⟩
  · intro c fd hc hfd h' f hf hne
    obtain rfl := LocalPhase.called.inj hc
    obtain rfl := Option.some.inj hfd
    have h0 : h' = 0 := by omega
    subst h0
    obtain rfl := Option.some.inj hf
    decide
  · intro c fd hc hfd
    obtain rfl := LocalPhase.called.inj hc
    cases hfd
end RemoteVfs
