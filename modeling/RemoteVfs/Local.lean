import RemoteVfs.Server.Open
import RemoteVfs.System

/-!
# The local VFS

What the remote VFS stands in for: the same calls, made on the functions of
`os_unix.c` directly, and on `unixOpen` with the flags that `sqlite3OsOpen` lets through.
A call takes effect at one moment between its start and its return.
-/

open CMem

namespace RemoteVfs

/-- An open file, with the flags of its `xOpen`. -/
structure LocalFile where
  image : UnixFile
  style : LockingStyle
  path : List Byte
  flags : CInt

variable {OS H : Type} (fns : UnixFns OS)

/-- `SQLITE_OPEN_MAIN_DB` is the only type among the flags. -/
def isMainDb (flags : CInt) : Prop := flags &&& openMask &&& 0xFFFFFF00 = 0x100

/-- What the file's table of methods does. With `nolockIoMethods` locks are void. -/
def LocalFile.call (f : LocalFile) (c : Call) (os : OS) : Option (UnixFile × Result × OS) :=
  match f.style, c with
  | .nolock, .xLock _ | .nolock, .xUnlock _ => some (f.image, ⟨sqliteOk, .nothing⟩, os)
  | .nolock, .xCheckReservedLock _ => some (f.image, ⟨sqliteOk, .int 0⟩, os)
  | style, c => c.unixMethod fns style f.image (some f.path) os

/-- The file once its method has left `image`. -/
def Call.fileAfter (f : LocalFile) (image : UnixFile) : Call → Option LocalFile
  | .xClose => none
  | _ => some { f with image := f.image.keep image }

/-- The place of a file, the result, and what the OS is then. -/
def Call.exec (file : Option LocalFile) (os : OS) :
    Call → Option (Option LocalFile × Result × OS)
  | .xOpen zPath pFile flags pOutFlags => do
    let p ← zPath.bind cstr
    let r := openOn fns pFile p flags pOutFlags os
    return (r.style.map (LocalFile.mk r.image.core · p flags),
      ⟨r.rc, .flags (r.flagsOut pOutFlags)⟩, r.os)
  | .xDelete zPath dirSync => do
    let (rc, os) := fns.unixDelete (← cstr zPath) dirSync os
    return (file, ⟨rc, .nothing⟩, os)
  | .xAccess zPath flags resOut => do
    let (resOut, rc, os) := fns.unixAccess (← cstr zPath) flags resOut os
    return (file, ⟨rc, .int resOut⟩, os)
  | .xGetLastError => some (file, ⟨fns.unixGetLastError os, .nothing⟩, os)
  | c => do
    let f ← file
    let (image, result, os) ← f.call fns c os
    return (c.fileAfter f image, result, os)

inductive LocalPhase
  | idle
  | called (c : Call)
  | done (c : Call) (result : Result)

/-- `trace` lists the calls that have returned, the last one first. -/
structure LocalVfs (OS H : Type) where
  file : H → Option LocalFile
  phase : H → LocalPhase
  os : OS
  trace : List (H × Call × Result)

namespace LocalVfs

variable [DecidableEq H]

/-- No file is open. -/
def init (os : OS) : LocalVfs OS H := ⟨fun _ => none, fun _ => .idle, os, []⟩

def step (l : LocalVfs OS H) (e : Event H) : Option (LocalVfs OS H) :=
  match e with
  | .send h c =>
    match l.phase h with
    | .idle => some { l with phase := Function.update l.phase h (.called c) }
    | _ => none
  | .serve h _ _ =>
    match l.phase h with
    | .called c => do
      let (file, result, os) ← c.exec fns (l.file h) l.os
      return { l with
        file := Function.update l.file h file
        phase := Function.update l.phase h (.done c result)
        os := os }
    | _ => none
  | .recv h =>
    match l.phase h with
    | .done c result =>
      some { l with
        phase := Function.update l.phase h .idle
        trace := (h, c, result) :: l.trace }
    | _ => none
  | .fail _ => none

end LocalVfs

/-! ## The schedules under consideration -/

/-- A path that a message has room for. -/
def PathFits (zPath : List Byte) : Prop := ∃ p, cstr zPath = some p ∧ p.length ≤ 511

/-- What the caller of a method promises. -/
def Call.Permitted (file : Option LocalFile) : Call → Prop
  | .xOpen zPath _ _ pOutFlags => (∃ z, zPath = some z ∧ PathFits z) ∧ pOutFlags ≠ some (-1)
  | .xDelete zPath _ | .xAccess zPath _ _ => PathFits zPath
  | .xWrite pBuf amt _ | .xRead pBuf amt _ =>
    file.isSome ∧ 0 < amt.toInt ∧ amt.toInt ≤ maxSize ∧ amt.toInt ≤ pBuf.length
  | .xFileControl op pArg => file.isSome ∧ (controlType op = 1 ∨ controlType op = 2) ∧
    ∃ obj, pArg = some obj ∧ argLen op ≤ obj.length
  | .xLock _ | .xUnlock _ | .xCheckReservedLock _ => ∃ f, file = some f ∧ isMainDb f.flags
  | .xTruncate _ | .xSync _ | .xFileSize _ | .xSectorSize | .xDeviceCharacteristics | .xClose =>
    file.isSome
  | .xGetLastError | .xFetch .. | .xUnfetch .. => False

/-- The descriptor that an Open leaves in the image. -/
def Call.opens (os : OS) : Call → Option CInt
  | .xOpen zPath pFile flags pOutFlags =>
    (zPath.bind cstr).map fun p => (openOn fns pFile p flags pOutFlags os).image.h
  | _ => none

/-- No RPC fails, calls are permitted when they start, and an Open does not leave
the descriptor of a file that is open. -/
def LocalVfs.Scheduled (l : LocalVfs OS H) : Event H → Prop
  | .send h c => c.Permitted (l.file h)
  | .serve h _ _ => ∀ c fd, l.phase h = .called c → c.opens fns l.os = some fd →
    ∀ h' f, l.file h' = some f → h' ≠ h → f.image.h ≠ fd
  | .recv _ => True
  | .fail _ => False

/-- What `unixOpen` of `os_unix.c` guarantees. -/
structure UnixFns.OpensFiles : Prop where
  /-- A main database is locked with POSIX locks. -/
  main_db : ∀ id p flags pOutFlags os style, isMainDb flags →
    (openOn fns id p flags pOutFlags os).style = some style → style = .posix
  /-- A set of flags is not -1. -/
  outFlags : ∀ id p flags pOutFlags os,
    (openOn fns id p flags pOutFlags os).outFlags ≠ some (-1)

end RemoteVfs
