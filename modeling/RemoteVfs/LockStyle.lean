import RemoteVfs.Accounting
import RemoteVfs.Binding

/-!
# Which lock method a request runs

Open records a table of methods for its descriptor. `WrapClose` calls through it. The
wrappers of the other three always call the functions for POSIX locks, also where there
is no inode.
-/

open CMem

namespace RemoteVfs

open LockCalls

/-! ## Tables of methods -/

theorem LockingStyle.eq_nolock {style : LockingStyle} (h : style ≠ .posix) : style = .nolock := by
  cases style with
  | posix => exact absurd rfl h
  | nolock => rfl

/-- The lock family of an `io_methods` table. `none` where a NULL is dereferenced. -/
structure LockMethods (W : Type) where
  xClose : UnixFile → LockOs W → Option (CInt × LockOs W)
  xLock : UnixFile → CInt → LockOs W → Option (UnixFile × CInt × LockOs W)
  xUnlock : UnixFile → CInt → LockOs W → Option (UnixFile × CInt × LockOs W)
  xCheckReservedLock : UnixFile → LockOs W → Option (UnixFile × (CInt × CInt) × LockOs W)

namespace LockCalls

variable {W : Type} (sys : LockCalls W)

def posixIoMethods : LockMethods W :=
  ⟨sys.unixClose, sys.unixLock, sys.unixUnlock, sys.unixCheckReservedLock⟩

def nolockIoMethods : LockMethods W :=
  ⟨sys.nolockClose, nolockLock, nolockUnlock, nolockCheckReservedLock⟩

def ioMethods : LockingStyle → LockMethods W
  | .posix => sys.posixIoMethods
  | .nolock => sys.nolockIoMethods

end LockCalls

/-- The requests of the lock family. -/
def Op.OnLock : Op → Prop
  | .lock | .unlock | .checkReservedLock | .close => True
  | _ => False

/-! ## Handlers -/

section Handlers

variable {W : Type} (fns : UnixFns (LockOs W)) (sys : LockCalls W) (A : Addresses)
  (garbage : Nat → Byte) {n m : Nat}

/-- `WrapClose`, where a pointer to methods leads to `xClose`. -/
def closeThrough (xClose : Ptr → UnixFile → Path → LockOs W → Option (CInt × LockOs W))
    (argIn : Buf n) : Wrapper (LockOs W) m := fun argOut s => do
  let id ← unixCloseConvertCharToArgIn argIn
  let (t, id) ← s.table.getServerUnixPMethods A id.h id
  let (t, id, node) ← t.getServicePath A id.h id
  let zPath := (zPathMemory fns t s.os id node).bind cstr
  let (rc, os) ←
    if id.pMethod ≠ 0 then xClose id.pMethod id.core zPath s.os
    else some (ofBytes (Buf.uninit garbage 4).val, s.os)
  let argOut ← unixCloseConvertReturnToChar rc argOut
  return (argOut, ⟨t, os⟩)

/-- The answer to a request when the methods are those of `M`. -/
def answerBy (M : LockMethods W) (op : Op) (argIn : Buf n) : Wrapper (LockOs W) m :=
  match op with
  | .lock => wrapFile fns A (unixLockConvertCharToArgIn argIn)
    (fun id _ eFileLock os => M.xLock id eFileLock os) unixLockConvertReturnToChar
  | .unlock => wrapFile fns A (unixUnlockConvertCharToArgIn argIn)
    (fun id _ eFileLock os => M.xUnlock id eFileLock os) unixUnlockConvertReturnToChar
  | .checkReservedLock => wrapFile fns A (unixCheckReservedLockConvertCharToArgIn argIn)
    (fun id _ _ os => M.xCheckReservedLock id os)
    fun id ret => unixCheckReservedLockConvertReturnToChar id ret.1 ret.2
  | .close => closeThrough fns A garbage (fun _ id _ os => M.xClose id os) argIn
  | _ => fun _ _ => none

/-- What `pMethod` says of `xClose`. -/
def xCloseAt (pMethod : Ptr) (id : UnixFile) (_ : Path) (os : LockOs W) :
    Option (CInt × LockOs W) :=
  if pMethod = A.posixIoMethods then sys.posixIoMethods.xClose id os
  else if pMethod = A.nolockIoMethods then sys.nolockIoMethods.xClose id os
  else none

/-- The answer of the wrappers. -/
def answerLock (op : Op) (argIn : Buf n) : Wrapper (LockOs W) m :=
  match op with
  | .close => closeThrough fns A garbage (xCloseAt sys A) argIn
  | op => answerBy fns A garbage sys.posixIoMethods op argIn

/-- There is an answer, and it is the one that the recorded methods give. -/
def FollowsStyle (style : LockingStyle) (op : Op) (argIn : Buf n) (argOut : Buf m)
    (s : Server (LockOs W)) : Prop :=
  ∃ r, answerBy fns A garbage (sys.ioMethods style) op argIn argOut s = some r ∧
    answerLock fns sys A garbage op argIn argOut s = some r

/-- POSIX locks are called for, or the call has nothing to do. -/
def SameMethod (style : LockingStyle) (op : Op) (argIn : Buf n) : Prop :=
  style = .posix ∨ op = .close ∨
    (op = .lock ∧ ∃ id eFileLock, unixLockConvertCharToArgIn argIn = some (id, eFileLock) ∧
      eFileLock.toInt ≤ id.eFileLock.toNat) ∨
    (op = .unlock ∧ ∃ id eFileLock, unixUnlockConvertCharToArgIn argIn = some (id, eFileLock) ∧
      id.eFileLock.toNat ≤ eFileLock.toInt)

end Handlers

/-! ## Where the methods stop -/

namespace LockCalls

variable {W : Type} {sys : LockCalls W} {pFile : UnixFile} {os : LockOs W}

theorem lowerLock_pInode (op : Op) (eFileLock : CInt) :
    (sys.lowerLock op pFile eFileLock os).1.pInode = pFile.pInode := by
  unfold lowerLock
  dsimp only
  split
  · rfl
  · split
    · unfold dropShared
      dsimp only
      split <;> rfl
    · rfl

theorem unixClose_isSome (hino : pFile.pInode ≠ 0) : ∃ r, sys.unixClose pFile os = some r := by
  have hunlock : ∃ g rc os', sys.posixUnlock .close pFile noLock os = some (g, rc, os') ∧
      g.pInode = pFile.pInode := by
    rw [posixUnlock]
    split
    · exact ⟨_, _, _, rfl, rfl⟩
    · exact ⟨_, _, _, rfl, lowerLock_pInode ..⟩
  obtain ⟨g, rc, os', h, hg⟩ := hunlock
  have hino' : g.pInode ≠ 0 := hg ▸ hino
  simp only [unixClose, h, Option.bind_eq_bind, Option.bind_some, if_neg hino']
  exact ⟨_, rfl⟩

theorem xLock_same {style : LockingStyle} (hinode : pFile.pInode = 0 ↔ style = .nolock)
    {eFileLock : CInt} (h : style = .posix ∨ eFileLock.toInt ≤ pFile.eFileLock.toNat) :
    ∃ r, (sys.ioMethods style).xLock pFile eFileLock os = some r ∧
      sys.unixLock pFile eFileLock os = some r := by
  cases style with
  | posix =>
    have hino : pFile.pInode ≠ 0 := by
      intro h0
      cases hinode.mp h0
    change ∃ r, sys.unixLock pFile eFileLock os = some r ∧ _
    rw [unixLock, if_neg hino]
    split <;> exact ⟨_, rfl, rfl⟩
  | nolock =>
    refine ⟨_, rfl, ?_⟩
    rw [unixLock, if_pos (h.resolve_left (by decide))]

theorem xUnlock_same {style : LockingStyle} (hinode : pFile.pInode = 0 ↔ style = .nolock)
    {eFileLock : CInt} (h : style = .posix ∨ pFile.eFileLock.toNat ≤ eFileLock.toInt) :
    ∃ r, (sys.ioMethods style).xUnlock pFile eFileLock os = some r ∧
      sys.unixUnlock pFile eFileLock os = some r := by
  cases style with
  | posix =>
    have hino : pFile.pInode ≠ 0 := by
      intro h0
      cases hinode.mp h0
    change ∃ r, sys.unixUnlock pFile eFileLock os = some r ∧ _
    rw [unixUnlock, posixUnlock, if_neg hino]
    split <;> exact ⟨_, rfl, rfl⟩
  | nolock =>
    refine ⟨_, rfl, ?_⟩
    rw [unixUnlock, posixUnlock, if_pos (h.resolve_left (by decide))]

theorem unixLock_stops (hnull : pFile.pInode = 0) {eFileLock : CInt}
    (hlt : ¬ eFileLock.toInt ≤ pFile.eFileLock.toNat) :
    sys.unixLock pFile eFileLock os = none := by
  rw [unixLock, if_neg hlt, if_pos hnull]

theorem unixUnlock_stops (hnull : pFile.pInode = 0) {eFileLock : CInt}
    (hlt : ¬ pFile.eFileLock.toNat ≤ eFileLock.toInt) :
    sys.unixUnlock pFile eFileLock os = none := by
  rw [unixUnlock, posixUnlock, if_neg hlt, if_pos hnull]

theorem xCheckReservedLock_same {style : LockingStyle} (hino : pFile.pInode ≠ 0)
    (h : style = .posix) : ∃ r, (sys.ioMethods style).xCheckReservedLock pFile os = some r ∧
      sys.unixCheckReservedLock pFile os = some r := by
  obtain ⟨g, ret, os', hcheck, -⟩ := @unixCheckReservedLock_accounted _ sys pFile os hino
  subst h
  exact ⟨_, hcheck, hcheck⟩

theorem xClose_isSome {style : LockingStyle} (hinode : pFile.pInode = 0 ↔ style = .nolock) :
    ∃ r, (sys.ioMethods style).xClose pFile os = some r := by
  cases style with
  | posix => exact unixClose_isSome fun h0 => nomatch hinode.mp h0
  | nolock => exact ⟨_, rfl⟩

end LockCalls

/-! ## One request -/

section Requests

variable {W : Type} {fns : UnixFns (LockOs W)} {sys : LockCalls W} {A : Addresses}
  {garbage : Nat → Byte} {n m : Nat} {id : UnixFile} {s : Server (LockOs W)} {a : Nat}
  {style : LockingStyle} {p : List Byte} {argOut : Buf m}

theorem closeThrough_bound (hv : s.table.Valid)
    (hb : s.table.Binds id.h a (A.ioMethods style) p) {argIn : Buf n}
    (hid : argIn.get UnixFile 0 = some id)
    (xClose : Ptr → UnixFile → Path → LockOs W → Option (CInt × LockOs W)) :
    closeThrough fns A garbage xClose argIn argOut s =
      (xClose (A.ioMethods style) id.core (some p) s.os).bind fun (rc, os) =>
        (unixCloseConvertReturnToChar rc argOut).map (·, ⟨s.table, os⟩) := by
  simp only [closeThrough, unixCloseConvertCharToArgIn, hid, Option.bind_eq_bind,
    Option.bind_some, hb.getServerUnixPMethods hv, hb.getServicePath hv, zPathMemory, hb.path,
    if_pos hb.method_ne]
  congr 1
  funext r
  obtain ⟨rc, os⟩ := r
  cases unixCloseConvertReturnToChar rc argOut <;> rfl

section Bound

variable {α β : Type} {args : α} {decoded : Option (UnixFile × α)}
  {returnToChar : UnixFile → β → Buf m → Option (Buf m)}
  (hv : s.table.Valid) (hb : s.table.Binds id.h a (A.ioMethods style) p)
  (hdec : decoded = some (id, args))
include hv hb hdec

theorem wrapFile_same_iff (hput : ∀ id ret, (returnToChar id ret argOut).isSome)
    {f g : UnixFile → Path → α → LockOs W → Option (UnixFile × β × LockOs W)} {C : Prop}
    (hsame : C → ∃ r, f id.core (some p) args s.os = some r ∧
      g id.core (some p) args s.os = some r)
    (hstops : ¬ C → g id.core (some p) args s.os = none) :
    (∃ r, wrapFile fns A decoded f returnToChar argOut s = some r ∧
      wrapFile fns A decoded g returnToChar argOut s = some r) ↔ C := by
  rw [hdec, wrapFile_bound fns A args f returnToChar argOut hv hb,
    wrapFile_bound fns A args g returnToChar argOut hv hb]
  by_cases hC : C
  · obtain ⟨⟨img, ret, os⟩, hf, hg⟩ := hsame hC
    obtain ⟨out, hout⟩ := Option.isSome_iff_exists.mp
      (hput (boundImage A a (A.ioMethods style) id img) ret)
    refine iff_of_true ⟨(out, ⟨s.table, os⟩), ?_, ?_⟩ hC
    · simp only [hf, Option.bind_some, hout, Option.map_some]
    · simp only [hg, Option.bind_some, hout, Option.map_some]
  · refine iff_of_false ?_ hC
    rintro ⟨r, -, hr⟩
    rw [hstops hC, Option.bind_none] at hr
    cases hr

end Bound

theorem getImageAnd_of_image {α : Type} [CType α] {argIn : Buf n} (h : 120 + sizeof α ≤ n)
    (hid : argIn.get UnixFile 0 = some id) : ∃ x, getImageAnd α argIn = some (id, x) := by
  have hx : argIn.get α sizeUnixFile = some _ := Buf.get_eq argIn (by simpa using h)
  exact ⟨_, by rw [getImageAnd, hid, hx]; rfl⟩

section Followed

variable (hv : s.table.Valid) (hb : s.table.Binds id.h a (A.ioMethods style) p)
  (hinode : id.pInode = 0 ↔ style = .nolock)
include hv hb hinode

theorem followsStyle_lock {argIn : Buf (Op.argInSize .lock)}
    (hid : argIn.get UnixFile 0 = some id) (argOut : Buf (Op.returnSize .lock)) :
    FollowsStyle fns sys A garbage style .lock argIn argOut s ↔ SameMethod style .lock argIn := by
  obtain ⟨e, hdec⟩ : ∃ e, unixLockConvertCharToArgIn argIn = some (id, e) :=
    getImageAnd_of_image (by decide) hid
  have hsame : SameMethod style .lock argIn ↔
      style = .posix ∨ e.toInt ≤ id.eFileLock.toNat := by
    simp [SameMethod, hdec]
  have hput : ∀ id rc, (unixLockConvertReturnToChar id rc argOut).isSome :=
    fun _ _ => isSome_putImageAnd.mpr (by decide)
  rw [hsame]
  refine wrapFile_same_iff hv hb hdec hput
    (f := fun id _ e os => (sys.ioMethods style).xLock id e os)
    (g := fun id _ e os => sys.unixLock id e os)
    (@xLock_same _ sys id.core s.os style hinode e) fun h => ?_
  obtain ⟨hstyle, hlt⟩ := not_or.mp h
  exact @unixLock_stops _ sys id.core s.os (hinode.mpr (LockingStyle.eq_nolock hstyle)) e hlt

theorem followsStyle_unlock {argIn : Buf (Op.argInSize .unlock)}
    (hid : argIn.get UnixFile 0 = some id) (argOut : Buf (Op.returnSize .unlock)) :
    FollowsStyle fns sys A garbage style .unlock argIn argOut s ↔
      SameMethod style .unlock argIn := by
  obtain ⟨e, hdec⟩ : ∃ e, unixUnlockConvertCharToArgIn argIn = some (id, e) :=
    getImageAnd_of_image (by decide) hid
  have hsame : SameMethod style .unlock argIn ↔
      style = .posix ∨ id.eFileLock.toNat ≤ e.toInt := by
    simp [SameMethod, hdec]
  have hput : ∀ id rc, (unixUnlockConvertReturnToChar id rc argOut).isSome :=
    fun _ _ => isSome_putImageAnd.mpr (by decide)
  rw [hsame]
  refine wrapFile_same_iff hv hb hdec hput
    (f := fun id _ e os => (sys.ioMethods style).xUnlock id e os)
    (g := fun id _ e os => sys.unixUnlock id e os)
    (@xUnlock_same _ sys id.core s.os style hinode e) fun h => ?_
  obtain ⟨hstyle, hlt⟩ := not_or.mp h
  exact @unixUnlock_stops _ sys id.core s.os (hinode.mpr (LockingStyle.eq_nolock hstyle)) e hlt

theorem followsStyle_checkReservedLock {argIn : Buf (Op.argInSize .checkReservedLock)}
    (hid : argIn.get UnixFile 0 = some id) (argOut : Buf (Op.returnSize .checkReservedLock)) :
    FollowsStyle fns sys A garbage style .checkReservedLock argIn argOut s ↔
      SameMethod style .checkReservedLock argIn := by
  obtain ⟨x, hdec⟩ : ∃ x, unixCheckReservedLockConvertCharToArgIn argIn = some (id, x) :=
    getImageAnd_of_image (by decide) hid
  have hsame : SameMethod style .checkReservedLock argIn ↔ style = .posix := by
    simp [SameMethod]
  have hput : ∀ (id : UnixFile) (ret : CInt × CInt),
      (unixCheckReservedLockConvertReturnToChar id ret.1 ret.2 argOut).isSome :=
    fun _ _ => isSome_putImageOutRc.mpr (by decide)
  rw [hsame]
  refine wrapFile_same_iff hv hb hdec hput
    (f := fun id _ _ os => (sys.ioMethods style).xCheckReservedLock id os)
    (g := fun id _ _ os => sys.unixCheckReservedLock id os)
    (fun h => xCheckReservedLock_same (fun h0 => ?_) h) fun h => ?_
  · rw [hinode.mp h0] at h
    cases h
  · exact if_pos (hinode.mpr (LockingStyle.eq_nolock h))

theorem followsStyle_close {argIn : Buf (Op.argInSize .close)}
    (hid : argIn.get UnixFile 0 = some id) (argOut : Buf (Op.returnSize .close)) :
    FollowsStyle fns sys A garbage style .close argIn argOut s := by
  obtain ⟨⟨rc, os⟩, hclose⟩ := @xClose_isSome _ sys id.core s.os style hinode
  have hat : xCloseAt sys A (A.ioMethods style) id.core (some p) s.os = some (rc, os) := by
    cases style with
    | posix => exact (if_pos rfl).trans hclose
    | nolock => exact ((if_neg A.posix_ne_nolock.symm).trans (if_pos rfl)).trans hclose
  obtain ⟨out, hput⟩ : ∃ out, unixCloseConvertReturnToChar rc argOut = some out :=
    ⟨_, Buf.put_eq argOut rc (by decide)⟩
  have hanswer : ∀ xClose, xClose (A.ioMethods style) id.core (some p) s.os = some (rc, os) →
      closeThrough fns A garbage xClose argIn argOut s = some (out, ⟨s.table, os⟩) := by
    intro xClose hx
    simp only [closeThrough_bound hv hb hid, hx, Option.bind_some, hput, Option.map_some]
  exact ⟨_, hanswer (fun _ id _ os => (sys.ioMethods style).xClose id os) hclose,
    hanswer (xCloseAt sys A) hat⟩

end Followed

theorem wrapFile_mono {α β : Type} {decoded : Option (UnixFile × α)}
    {returnToChar : UnixFile → β → Buf m → Option (Buf m)}
    {f g : UnixFile → Path → α → LockOs W → Option (UnixFile × β × LockOs W)}
    (hfg : ∀ id zPath args os r, f id zPath args os = some r → g id zPath args os = some r)
    {r : Buf m × Server (LockOs W)}
    (h : wrapFile fns A decoded f returnToChar argOut s = some r) :
    wrapFile fns A decoded g returnToChar argOut s = some r := by
  obtain ⟨x, hx, h⟩ := Option.bind_eq_some_iff.mp h
  obtain ⟨y, hy, h⟩ := Option.bind_eq_some_iff.mp h
  obtain ⟨z, hz, h⟩ := Option.bind_eq_some_iff.mp h
  obtain ⟨ret, hret, h⟩ := Option.bind_eq_some_iff.mp h
  refine Option.bind_eq_some_iff.mpr ⟨x, hx, Option.bind_eq_some_iff.mpr ⟨y, hy, ?_⟩⟩
  exact Option.bind_eq_some_iff.mpr ⟨z, hz,
    Option.bind_eq_some_iff.mpr ⟨ret, hfg _ _ _ _ _ hret, h⟩⟩

theorem closeThrough_mono {argIn : Buf n}
    {f g : Ptr → UnixFile → Path → LockOs W → Option (CInt × LockOs W)}
    (hfg : ∀ p id zPath os r, f p id zPath os = some r → g p id zPath os = some r)
    {r : Buf m × Server (LockOs W)} (h : closeThrough fns A garbage f argIn argOut s = some r) :
    closeThrough fns A garbage g argIn argOut s = some r := by
  obtain ⟨x, hx, h⟩ := Option.bind_eq_some_iff.mp h
  obtain ⟨y, hy, h⟩ := Option.bind_eq_some_iff.mp h
  obtain ⟨z, hz, h⟩ := Option.bind_eq_some_iff.mp h
  refine Option.bind_eq_some_iff.mpr ⟨x, hx, Option.bind_eq_some_iff.mpr ⟨y, hy,
    Option.bind_eq_some_iff.mpr ⟨z, hz, ?_⟩⟩⟩
  dsimp only at h ⊢
  split at h
  · next hne =>
    obtain ⟨ret, hret, h⟩ := Option.bind_eq_some_iff.mp h
    rw [if_pos hne]
    exact Option.bind_eq_some_iff.mpr ⟨ret, hfg _ _ _ _ _ hret, h⟩
  · next heq =>
    rw [if_neg heq]
    exact h

theorem serve_of_answerLock (hlocks : fns.Locks sys)
    (hnolock : ∀ id zPath os, fns.nolockClose id zPath os = sys.closeUnixFile id os) {op : Op}
    (hop : op.OnLock) {argIn : Buf n} {r : Buf m × Server (LockOs W)}
    (h : answerLock fns sys A garbage op argIn argOut s = some r) :
    serve fns A garbage op argIn argOut s = some r := by
  cases op with
  | lock =>
    refine wrapFile_mono (f := fun id _ eFileLock os => sys.unixLock id eFileLock os)
      (g := direct fns.unixLock) (fun id zPath eFileLock os r hr => ?_) h
    rw [direct, hlocks.lock _ zPath _ _ _ hr]
  | unlock =>
    refine wrapFile_mono (f := fun id _ eFileLock os => sys.unixUnlock id eFileLock os)
      (g := direct fns.unixUnlock) (fun id zPath eFileLock os r hr => ?_) h
    rw [direct, hlocks.unlock _ zPath _ _ _ hr]
  | checkReservedLock =>
    change wrapCheckReservedLock fns A argIn argOut s = some r
    rw [wrapCheckReservedLock]
    refine wrapFile_mono (f := fun id _ _ os => sys.unixCheckReservedLock id os)
      (fun id zPath resOut os r hr => ?_) h
    rw [direct, hlocks.checkReservedLock _ zPath resOut _ _ hr]
  | close =>
    refine closeThrough_mono (fun pMethod id zPath os r hr => ?_) h
    unfold xCloseAt at hr
    unfold xClose
    split at hr
    · next hp => exact (if_pos hp).trans (congrArg some (hlocks.close _ zPath _ _ hr))
    · next hp =>
      rw [if_neg hp, hnolock]
      exact hr
  | _ => exact hop.elim

theorem followsStyle_iff {op : Op} (hop : op.OnLock) (hv : s.table.Valid)
    (hb : s.table.Binds id.h a (A.ioMethods style) p)
    (hinode : id.pInode = 0 ↔ style = .nolock) {argIn : Buf op.argInSize}
    (hid : argIn.get UnixFile 0 = some id) (argOut : Buf op.returnSize) :
    FollowsStyle fns sys A garbage style op argIn argOut s ↔ SameMethod style op argIn := by
  cases op with
  | lock => exact followsStyle_lock hv hb hinode hid argOut
  | unlock => exact followsStyle_unlock hv hb hinode hid argOut
  | checkReservedLock => exact followsStyle_checkReservedLock hv hb hinode hid argOut
  | close =>
    exact iff_of_true (followsStyle_close hv hb hinode hid argOut) (.inr (.inl rfl))
  | _ => exact hop.elim

end Requests

/-! ## Every reachable state -/

namespace Tracked

variable {W : Type} {fns : UnixFns (LockOs W)} {A : Addresses} {s : Tracked (LockOs W)}

variable (fns A) in
/-- In every reachable state a request of the lock family follows the style of its Open
exactly where that is the POSIX style, or where the POSIX method does nothing. -/
theorem follows_style_iff (sys : LockCalls W) {table : FdTable} (hempty : table.listHead = none)
    (os : LockOs W) {rs : List Request}
    (hok : Runs.Allowed (step fns A) (Proper fns) (init table os) rs)
    (hrun : Runs.run (step fns A) (init table os) rs = some s) {style : LockingStyle}
    {p : List Byte} {op : Op} (hop : op.OnLock) {argIn : Buf op.argInSize} {id : UnixFile}
    (hid : argIn.get UnixFile 0 = some id) (hlive : s.live id.h = some (style, p))
    (hinode : id.pInode = 0 ↔ style = .nolock) (garbage : Nat → Byte)
    (argOut : Buf op.returnSize) :
    FollowsStyle fns sys A garbage style op argIn argOut s.server ↔
      SameMethod style op argIn := by
  have hs := registered_run (registered_init (.inl hempty) os) hok hrun
  obtain ⟨a, hb⟩ := (hs.holds _ style p hlive).binds (A.ioMethods_ne_null style)
  exact followsStyle_iff hop hs.valid hb hinode hid argOut

/-! ## A journal -/

/-- On the disk of the examples, where a main database has an inode. -/
def styleFns : UnixFns (LockOs Disk) where
  __ := (granting Disk).fns
  unixOpen _ p flags pOutFlags os :=
    let r := Disk.unixOpen p flags pOutFlags os.rest
    { rc := r.rc
      image := { r.image with pInode := if r.style = some .posix then 1 else 0 }
      style := r.style
      outFlags := r.outFlags
      os := { os with rest := r.os }
      sets_method := r.sets_method }

def styleOs : LockOs Disk := ⟨fun _ => ⟨0, 0, 0, 0, [], 1⟩, ⟨[], 3⟩⟩

/-- An Open of a journal. -/
def journalRequest : Request :=
  { openRequest with
    n := Op.argInSize .open_
    argIn := ((Buf.zeros _).splice 0 [97]).splice 632 (toBytes (0x806 : CInt)) }

def journalImage : UnixFile := { UnixFile.zero with h := 3 }

/-- A Lock of it. -/
def journalLock : Buf (Op.argInSize .lock) :=
  (unixLockConvertArgInToChar journalImage sharedLock (Buf.zeros _)).getD (Buf.zeros _)

theorem journalLock_image : journalLock.get UnixFile 0 = some journalImage := by decide +kernel

theorem journalRequest_proper :
    Runs.Allowed (step styleFns Addresses.flat) (Proper styleFns) (init Disk.table styleOs)
      [journalRequest] := by decide +kernel

theorem journal_live : ∃ s,
    Runs.run (step styleFns Addresses.flat) (init Disk.table styleOs) [journalRequest] = some s ∧
    s.live 3 = some (.nolock, [97]) := by
  obtain ⟨s, hs⟩ := Option.isSome_iff_exists.mp (by decide +kernel :
    (Runs.run (step styleFns Addresses.flat) (init Disk.table styleOs) [journalRequest]).isSome)
  have hlive : (Runs.run (step styleFns Addresses.flat) (init Disk.table styleOs)
      [journalRequest]).map (·.live 3) = some (some (.nolock, [97])) := by decide +kernel
  rw [hs, Option.map_some, Option.some.injEq] at hlive
  exact ⟨s, hs, hlive⟩

/-- The Unlock of a journal that has no lock. -/
theorem follows_style_iff_journal : ∃ s,
    Runs.run (step styleFns Addresses.flat) (init Disk.table styleOs) [journalRequest] = some s ∧
    FollowsStyle styleFns (granting Disk) Addresses.flat (fun _ => 7) .nolock .unlock
      (requestOn .unlock 3).argIn (Buf.zeros (Op.returnSize .unlock)) s.server := by
  obtain ⟨s, hs, hlive⟩ := journal_live
  have hop : Op.unlock.OnLock := trivial
  have himage : (requestOn .unlock 3).argIn.get UnixFile 0 = some journalImage := by
    decide +kernel
  have hnone : unixUnlockConvertCharToArgIn (requestOn .unlock 3).argIn =
      some (journalImage, noLock) := by decide +kernel
  exact ⟨s, hs, (follows_style_iff styleFns Addresses.flat (granting Disk) rfl styleOs
    journalRequest_proper hs hop himage hlive (iff_of_true rfl rfl) _ _).mpr
      (.inr (.inr (.inr ⟨rfl, journalImage, noLock, hnone, by decide⟩)))⟩

/-- The Lock of a journal finds no inode. -/
theorem not_follows_style : ¬ ∀ rs s,
    Runs.Allowed (step styleFns Addresses.flat) (Proper styleFns) (init Disk.table styleOs) rs →
    Runs.run (step styleFns Addresses.flat) (init Disk.table styleOs) rs = some s →
    ∀ style p (argIn : Buf (Op.argInSize .lock)) id, argIn.get UnixFile 0 = some id →
      s.live id.h = some (style, p) → (id.pInode = 0 ↔ style = .nolock) →
      ∀ garbage argOut, FollowsStyle styleFns (granting Disk) Addresses.flat garbage style .lock
        argIn (argOut : Buf (Op.returnSize .lock)) s.server := by
  intro hall
  obtain ⟨s, hs, hlive⟩ := journal_live
  obtain ⟨r, -, hr⟩ := hall _ s journalRequest_proper hs .nolock [97] journalLock journalImage
    journalLock_image hlive (iff_of_true rfl rfl) (fun _ => 7) (Buf.zeros _)
  have hstops : (Runs.run (step styleFns Addresses.flat) (init Disk.table styleOs)
      [journalRequest]).map (fun s => (answerLock styleFns (granting Disk) Addresses.flat
        (fun _ => 7) .lock journalLock (Buf.zeros (Op.returnSize .lock)) s.server).isSome) =
          some false := by decide +kernel
  rw [hs, Option.map_some, hr] at hstops
  cases hstops

end Tracked

end RemoteVfs
