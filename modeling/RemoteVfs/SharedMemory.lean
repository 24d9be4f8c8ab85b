import RemoteVfs.Runs
import RemoteVfs.UnixOpen

/-!
# The locks of the shared memory

Of the wal-index. The connections of a process share a node, and the node has the locks of all of
them: for a process loses its locks on a byte when it unlocks that once. The first process to come
truncates the file. A byte of its own, the deadman switch, tells who is first.
-/

open CMem Posix

namespace RemoteVfs

/-! ## Data -/

/-- `SQLITE_SHM_NLOCK` -/
def sqliteShmNlock : Nat := 8
/-- `UNIX_SHM_BASE` -/
def unixShmBase : Nat := (22 + sqliteShmNlock) * 4
/-- `UNIX_SHM_DMS` -/
def unixShmDms : Nat := unixShmBase + sqliteShmNlock

/-- `SQLITE_READONLY_CANTINIT` -/
def sqliteReadonlyCantinit : CInt := 1288
/-- `SQLITE_IOERR_SHMOPEN` -/
def sqliteIoerrShmopen : CInt := 4618

/-- `struct unixShm`: what a connection has locked. -/
structure UnixShm where
  sharedMask : BitVec 16
  exclMask : BitVec 16
  deriving DecidableEq

/-- `struct unixShmNode`. `nRef` is the length of the list. -/
structure UnixShmNode (C : Type) where
  isReadonly : Bool
  isUnlocked : Bool
  pFirst : List C
  pShm : C → UnixShm

/-- Where `unixLockSharedMemory` has come to. -/
inductive ShmCall
  | getlk
  | exclusive
  | truncate
  | shared

/-- `pShmNode` of a process. -/
inductive ShmProcess (C : Type)
  | absent
  /-- Under the mutex: for a new connection, or for `unixShmMap`. -/
  | locking (node : UnixShmNode C) (p : Option C) (call : ShmCall)
  | ready (node : UnixShmNode C)

/-- The file, and the processes that have it open. Nobody unlinks it. -/
structure Shm (P C : Type) where
  locks : Locks P
  size : Nat
  process : P → ShmProcess C

inductive ShmAction (P C : Type)
  /-- `unixOpenSharedMemory`, once the file is open. -/
  | attach (p : P) (c : C) (isReadonly : Bool)
  /-- `unixShmMap`, when there is no lock yet. -/
  | relock (p : P)
  /-- The next system call of `unixLockSharedMemory`. -/
  | advance (p : P) (fails : Bool)
  /-- `unixShmMap` extends the file. -/
  | extend (p : P) (nByte : Nat)
  | lock (p : P) (c : C) (ofst n : Nat) (flags : CInt) (fails : Bool)
  | unmap (p : P) (c : C)

/-- The bits `ofst` to `ofst + n - 1`. -/
def shmMask (ofst n : Nat) : BitVec 16 := (1 <<< (ofst + n)) - (1 <<< ofst)

namespace UnixShmNode

variable {C : Type}

/-- What these connections have locked SHARED. -/
def sharedBy (node : UnixShmNode C) (l : List C) : BitVec 16 :=
  l.foldl (fun mask pX => mask ||| (node.pShm pX).sharedMask) 0

def setMasks [DecidableEq C] (node : UnixShmNode C) (p : C) (masks : UnixShm) : UnixShmNode C :=
  { node with pShm := Function.update node.pShm p masks }

end UnixShmNode

/-! ## Functions -/

section Functions

variable {P C : Type} [Fintype P] [DecidableEq P] [DecidableEq C]

/-- `fcntl` can fail although no lock is in the way. The node has a file: it has none under the VFS
"unix-excl" only. -/
def unixShmSystemLock (p : P) (fails : Bool) (lockType : LockType) (ofst n : Nat) (t : Locks P) :
    CInt × Locks P :=
  if fails then (sqliteBusy, t)
  else
    match lockType.mode with
    | none => (sqliteOk, t.set p ⟨ofst, n⟩ none)
    | some m =>
      if t.Free p m ⟨ofst, n⟩ then (sqliteOk, t.set p ⟨ofst, n⟩ (some m)) else (sqliteBusy, t)

/-- `flags` are `SQLITE_SHM_UNLOCK` (1) or `SQLITE_SHM_LOCK` (2), and `SQLITE_SHM_SHARED` (4) or
`SQLITE_SHM_EXCLUSIVE` (8). -/
def unixShmLock (pid : P) (fails : Bool) (p : C) (ofst n : Nat) (flags : CInt)
    (node : UnixShmNode C) (t : Locks P) : CInt × UnixShmNode C × Locks P :=
  let mask := shmMask ofst n
  let masks := node.pShm p
  if flags &&& 1 ≠ 0 then
    let allMask := node.sharedBy (node.pFirst.filter fun pX => pX ≠ p)
    let (rc, t) := if mask &&& allMask = 0 then
      unixShmSystemLock pid fails .unlck (ofst + unixShmBase) n t else (sqliteOk, t)
    if rc = sqliteOk then
      (rc, node.setMasks p ⟨masks.sharedMask &&& ~~~mask, masks.exclMask &&& ~~~mask⟩, t)
    else (rc, node, t)
  else if flags &&& 4 ≠ 0 then
    if node.pFirst.any fun pX => (node.pShm pX).exclMask &&& mask ≠ 0 then (sqliteBusy, node, t)
    else
      let (rc, t) := if node.sharedBy node.pFirst &&& mask = 0 then
        unixShmSystemLock pid fails .rdlck (ofst + unixShmBase) n t else (sqliteOk, t)
      if rc = sqliteOk then
        (rc, node.setMasks p { masks with sharedMask := masks.sharedMask ||| mask }, t)
      else (rc, node, t)
  else if node.pFirst.any fun pX =>
      (node.pShm pX).exclMask &&& mask ≠ 0 ∨ (node.pShm pX).sharedMask &&& mask ≠ 0 then
    (sqliteBusy, node, t)
  else
    let (rc, t) := unixShmSystemLock pid fails .wrlck (ofst + unixShmBase) n t
    if rc = sqliteOk then
      (rc, node.setMasks p { masks with exclMask := masks.exclMask ||| mask }, t)
    else (rc, node, t)

/-- What `F_GETLK` says of the deadman switch. -/
def osGetlkDms (p : P) (t : Locks P) : LockType :=
  if ∃ q, q ≠ p ∧ t q unixShmDms = some .write then .wrlck
  else if ∃ q, q ≠ p ∧ t q unixShmDms = some .read then .rdlck
  else .unlck

namespace Shm

def setProcess (s : Shm P C) (p : P) (a : ShmProcess C) : Shm P C :=
  { s with process := Function.update s.process p a }

/-- `unixOpenSharedMemory` purges the node that it has made; the descriptor goes with it. -/
def fail (s : Shm P C) (p : P) (node : UnixShmNode C) : Option C → Shm P C
  | some _ => { s with locks := s.locks.drop p }.setProcess p .absent
  | none => s.setProcess p (.ready node)

/-- The new connection comes first. -/
def finish (s : Shm P C) (p : P) (node : UnixShmNode C) : Option C → Shm P C
  | some c => s.setProcess p (.ready { node with
      pFirst := c :: node.pFirst, pShm := Function.update node.pShm c ⟨0, 0⟩ })
  | none => s.setProcess p (.ready node)

/-- One system call of `unixLockSharedMemory`, and the result if that is the last one. -/
def lockSharedMemory (s : Shm P C) (p : P) (fails : Bool) (node : UnixShmNode C) (c : Option C) :
    ShmCall → Shm P C × Option CInt
  | .getlk =>
    if fails then (s.fail p node c, some sqliteIoerrLock)
    else
      match osGetlkDms p s.locks with
      | .unlck =>
        if node.isReadonly then
          (s.finish p { node with isUnlocked := true } c, some sqliteReadonlyCantinit)
        else (s.setProcess p (.locking node c .exclusive), none)
      | .wrlck => (s.fail p node c, some sqliteBusy)
      | .rdlck => (s.setProcess p (.locking node c .shared), none)
  | .exclusive =>
    let (rc, locks) := unixShmSystemLock p fails .wrlck unixShmDms 1 s.locks
    if rc = sqliteOk then
      ({ s with locks }.setProcess p (.locking node c .truncate), none)
    else (s.fail p node c, some rc)
  | .truncate =>
    if fails then (s.fail p node c, some sqliteIoerrShmopen)
    else ({ s with size := 3 }.setProcess p (.locking node c .shared), none)
  | .shared =>
    let (rc, locks) := unixShmSystemLock p fails .rdlck unixShmDms 1 s.locks
    if rc = sqliteOk then
      ({ s with locks }.finish p { node with isUnlocked := false } c, some rc)
    else (s.fail p node c, some rc)

/-- `none` where a process is in the middle of something else. -/
def step (s : Shm P C) : ShmAction P C → Option (Shm P C × Option CInt)
  | .attach p c isReadonly =>
    match s.process p with
    | .absent => some (s.setProcess p
        (.locking ⟨isReadonly, false, [], fun _ => ⟨0, 0⟩⟩ (some c) .getlk), none)
    | .ready node =>
      if c ∈ node.pFirst then none else some (s.finish p node (some c), some sqliteOk)
    | .locking _ _ _ => none
  | .relock p =>
    match s.process p with
    | .ready node =>
      if node.isUnlocked then some (s.setProcess p (.locking node none .getlk), none) else none
    | _ => none
  | .advance p fails =>
    match s.process p with
    | .locking node c call => some (s.lockSharedMemory p fails node c call)
    | _ => none
  | .extend p nByte =>
    match s.process p with
    | .ready _ => some ({ s with size := max s.size nByte }, none)
    | _ => none
  | .lock p c ofst n flags fails =>
    match s.process p with
    | .ready node =>
      if c ∈ node.pFirst then
        let (rc, node, locks) := unixShmLock p fails c ofst n flags node s.locks
        some ({ s with locks }.setProcess p (.ready node), some rc)
      else none
    | _ => none
  | .unmap p c =>
    match s.process p with
    | .ready node =>
      if c ∈ node.pFirst then
        let node := { node with pFirst := node.pFirst.erase c }
        some (if node.pFirst = [] then { s with locks := s.locks.drop p }.setProcess p .absent
          else s.setProcess p (.ready node), some sqliteOk)
      else none
    | _ => none

end Shm

end Functions

end RemoteVfs
