import RemoteVfs.LockStyle
import RemoteVfs.UnixOpen

/-!
# A process with open files

One process after the other answers of the kernel: it opens files, locks and unlocks them, closes
them, in any order. A handle is used for one file only, so that a file can be told from the next.
-/

open CMem Posix

namespace RemoteVfs

/-! ## States -/

/-- What has become of a handle. -/
inductive Slot
  | fresh
  | opened (image : UnixFile) (style : LockingStyle)
  /-- The image is that which the last unlock has left. -/
  | closed (image : UnixFile)
  deriving DecidableEq

structure Process (H F : Type) where
  os : LockOs (Memory F)
  slot : H → Slot

inductive Action (H : Type)
  | open_ (h : H) (zPath : Path) (flags : CInt)
  | close (h : H)
  | lock (h : H) (eFileLock : CInt)
  | unlock (h : H) (eFileLock : CInt)
  | checkReservedLock (h : H)
  /-- A method that has to do with data, and leaves this image. -/
  | data (h : H) (image : UnixFile) (writes : Bool)

inductive Outcome
  | opened (pOutFlags : Option CInt) (rc : CInt)
  | done (rc : CInt)
  | reserved (pResOut rc : CInt)
  deriving DecidableEq

/-- What of an image is no business of a method for data. -/
def UnixFile.SameHandle (f g : UnixFile) : Prop :=
  g.h = f.h ∧ g.pInode = f.pInode ∧ g.eFileLock = f.eFileLock ∧
    g.pPreallocatedUnused = f.pPreallocatedUnused ∧
    (LockCalls.processLocked g ↔ LockCalls.processLocked f)

instance (f g : UnixFile) : Decidable (f.SameHandle g) := inferInstanceAs (Decidable (_ ∧ _))

namespace Process

variable {H F : Type} [DecidableEq H] [DecidableEq F]

def start : Process H F :=
  ⟨⟨fun _ => ⟨0, 0, 0, 0, [], 0⟩, ⟨[], fun _ => ⟨0, 0⟩, [], []⟩⟩, fun _ => .fresh⟩

/-! ## Steps -/

section Step

variable (pVfs : Vfs) (ω : Answers F)

def closeBy (style : LockingStyle) (image : UnixFile) (os : LockOs (Memory F)) :
    Option (UnixFile × CInt × LockOs (Memory F)) :=
  match style with
  | .posix => UnixOpen.unixClose ω image os
  | .nolock => ((UnixOpen.calls ω).nolockClose image os).map fun (rc, os) => (image, rc, os)

/-- `none` where the handle is not one for the request. -/
def step (s : Process H F) : Action H → Option (Process H F × Outcome)
  | .open_ h zPath flags =>
    match s.slot h with
    | .fresh =>
      let r := UnixOpen.unixOpen ω pVfs zPath flags s.os
      let slot := r.style.elim s.slot fun style =>
        Function.update s.slot h (.opened r.image style)
      some (⟨r.os, slot⟩, .opened r.outFlags r.rc)
    | _ => none
  | .close h =>
    match s.slot h with
    | .opened image style => do
      let (g, rc, os) ← closeBy ω style image s.os
      return (⟨os, Function.update s.slot h (.closed g)⟩, .done rc)
    | _ => none
  | .lock h eFileLock =>
    match s.slot h with
    | .opened image style => do
      let (g, rc, os) ← ((UnixOpen.calls ω).ioMethods style).xLock image eFileLock s.os
      return (⟨os, Function.update s.slot h (.opened g style)⟩, .done rc)
    | _ => none
  | .unlock h eFileLock =>
    match s.slot h with
    | .opened image style => do
      let (g, rc, os) ← ((UnixOpen.calls ω).ioMethods style).xUnlock image eFileLock s.os
      return (⟨os, Function.update s.slot h (.opened g style)⟩, .done rc)
    | _ => none
  | .checkReservedLock h =>
    match s.slot h with
    | .opened image style => do
      let (g, (resOut, rc), os) ←
        ((UnixOpen.calls ω).ioMethods style).xCheckReservedLock image s.os
      return (⟨os, Function.update s.slot h (.opened g style)⟩, .reserved resOut rc)
    | _ => none
  | .data h image writes =>
    match s.slot h with
    | .opened old style =>
      if old.SameHandle image then
        some (⟨{ s.os with rest := s.os.rest.did (.data old.h writes) },
          Function.update s.slot h (.opened image style)⟩, .done sqliteOk)
      else none
    | _ => none

end Step

/-- No database is open on the file of a descriptor. -/
def Apart (m : Memory F) (h : Fd) : Prop :=
  ∀ f w, m.own.fd h = some (f, w) → ∀ node ∈ m.inodeList, node.2 ≠ f

/-- The order that SQLite keeps to. A file without locks is not one of the databases. -/
def Permits (s : Process H F) : Action H → Prop
  | .lock h eFileLock => ∀ image, s.slot h = .opened image .posix →
    LockCalls.LockOrder image.eFileLock.toNat eFileLock
  | .unlock _ eFileLock => eFileLock = noLock ∨ eFileLock = sharedLock
  | .close h => ∀ image, s.slot h = .opened image .nolock → Apart s.os.rest image.h
  | _ => True

instance (s : Process H F) : DecidablePred s.Permits
  | .lock h eFileLock =>
    match hslot : s.slot h with
    | .opened image .posix =>
      decidable_of_iff (LockCalls.LockOrder image.eFileLock.toNat eFileLock)
        ⟨fun h image' hs => by cases hslot.symm.trans hs; exact h, fun h => h image hslot⟩
    | .opened _ .nolock => .isTrue fun _ hs => nomatch hslot.symm.trans hs
    | .fresh => .isTrue fun _ hs => nomatch hslot.symm.trans hs
    | .closed _ => .isTrue fun _ hs => nomatch hslot.symm.trans hs
  | .unlock _ _ => inferInstanceAs (Decidable (_ ∨ _))
  | .close h =>
    match hslot : s.slot h with
    | .opened image .nolock =>
      match hfd : s.os.rest.own.fd image.h with
      | none => .isTrue fun image' hs => by
        cases hslot.symm.trans hs
        exact fun f w h => nomatch hfd.symm.trans h
      | some (f, w) =>
        decidable_of_iff (∀ node ∈ s.os.rest.inodeList, node.2 ≠ f)
          ⟨fun h image' hs f' w' hfd' => by
            cases hslot.symm.trans hs
            cases hfd.symm.trans hfd'
            exact h, fun h => h image hslot f w hfd⟩
    | .opened _ .posix => .isTrue fun _ hs => nomatch hslot.symm.trans hs
    | .fresh => .isTrue fun _ hs => nomatch hslot.symm.trans hs
    | .closed _ => .isTrue fun _ hs => nomatch hslot.symm.trans hs
  | .open_ _ _ _ | .checkReservedLock _ | .data _ _ _ => .isTrue trivial

/-- One step, without what it gives. -/
def next (pVfs : Vfs) (ω : Answers F) (s : Process H F) (r : Action H) : Option (Process H F) :=
  (s.step pVfs ω r).map Prod.fst

/-- What a process can come to. -/
def Reaches (pVfs : Vfs) (ω : Answers F) (s : Process H F) : Prop :=
  ∃ rs, Runs.Allowed (next pVfs ω) Permits start rs ∧ Runs.run (next pVfs ω) start rs = some s

end Process

end RemoteVfs
