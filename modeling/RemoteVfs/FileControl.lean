import RemoteVfs.Limits
import RemoteVfs.Mmap

/-!
# File controls

What is behind `pArg` depends on the operation. The client guesses how many bytes it sends
from the operation alone, and the server guesses again how many it sends back.
-/

open CMem

namespace RemoteVfs

/-! ## `unixFileControl` of `os_unix.c` -/

/-- `*(T*)pArg` -/
def load (α : Type) [CType α] (obj : List Byte) : Option α := (Buf.ofObject obj).get α 0

/-- `*(T*)pArg = x` -/
def store {α : Type} [CType α] (obj : List Byte) (x : α) : Option (List Byte) :=
  ((Buf.ofObject obj).put 0 x).map (·.val)

/-- What is behind the operations that ask more than the image. -/
structure FileControlCalls (OS : Type) extends MmapCalls OS where
  fcntlSizeHint : UnixFile → I64 → OS → UnixFile × CInt × OS
  /-- `sqlite3_mprintf("%s", pVfs->zName)` -/
  sqlite3Mprintf : UnixFile → OS → Ptr × OS
  /-- `sqlite3_malloc64`, and `unixGetTempname` into what it gives. -/
  unixGetTempname : UnixFile → OS → Ptr × OS
  fileHasMoved : UnixFile → OS → CInt × OS
  /-- `sqlite3GlobalConfig.mxMmap` -/
  mxMmap : I64

/-- `SQLITE_NOTFOUND` -/
def sqliteNotfound : CInt := 12
/-- `UNIXFILE_PERSIST_WAL` -/
def unixfilePersistWal : BitVec 16 := 4
/-- `UNIXFILE_PSOW` -/
def unixfilePsow : BitVec 16 := 16

def unixModeBit (pFile : UnixFile) (mask : BitVec 16) (obj : List Byte) :
    Option (UnixFile × List Byte) := do
  let arg ← load CInt obj
  if arg.toInt < 0 then
    return (pFile, ← store obj (if pFile.ctrlFlags &&& mask ≠ 0 then 1 else 0 : CInt))
  else if arg = 0 then return ({ pFile with ctrlFlags := pFile.ctrlFlags &&& ~~~mask }, obj)
  else return ({ pFile with ctrlFlags := pFile.ctrlFlags ||| mask }, obj)

namespace FileControlCalls

variable {OS : Type} (sys : FileControlCalls OS)

/-- `SQLITE_FCNTL_MMAP_SIZE`, once `newLimit` has been read and `mmapSizeMax` written. -/
def setMmapSize (pFile : UnixFile) (newLimit : I64) (os : OS) : UnixFile × CInt × OS :=
  let newLimit := if sys.mxMmap.toInt < newLimit.toInt then sys.mxMmap else newLimit
  if 0 ≤ newLimit.toInt ∧ newLimit ≠ pFile.mmapSizeMax ∧ pFile.nFetchOut = 0 then
    let pFile := { pFile with mmapSizeMax := newLimit }
    if 0 < pFile.mmapSize.toInt then
      let (pFile, os) := sys.unixUnmapfile pFile os
      let (rc, pFile, os) := sys.unixMapfile pFile (-1) os
      (pFile, rc, os)
    else (pFile, sqliteOk, os)
  else (pFile, sqliteOk, os)

/-! The cases of the switch that use the object behind `pArg`. -/

section Cases

variable (pFile : UnixFile) (os : OS) (obj : List Byte)

def lockstate : Option (UnixFile × List Byte × CInt × OS) := do
  return (pFile, ← store obj (pFile.eFileLock.zeroExtend 32), sqliteOk, os)

def lastErrno : Option (UnixFile × List Byte × CInt × OS) := do
  return (pFile, ← store obj pFile.lastErrno, sqliteOk, os)

def chunkSize : Option (UnixFile × List Byte × CInt × OS) := do
  return ({ pFile with szChunk := ← load CInt obj }, obj, sqliteOk, os)

def sizeHint : Option (UnixFile × List Byte × CInt × OS) := do
  let (pFile, rc, os) := sys.fcntlSizeHint pFile (← load I64 obj) os
  return (pFile, obj, rc, os)

def modeBit (mask : BitVec 16) : Option (UnixFile × List Byte × CInt × OS) := do
  let (pFile, obj) ← unixModeBit pFile mask obj
  return (pFile, obj, sqliteOk, os)

def vfsname : Option (UnixFile × List Byte × CInt × OS) := do
  let (z, os) := sys.sqlite3Mprintf pFile os
  return (pFile, ← store obj z, sqliteOk, os)

def hasMoved : Option (UnixFile × List Byte × CInt × OS) := do
  let (moved, os) := sys.fileHasMoved pFile os
  return (pFile, ← store obj moved, sqliteOk, os)

def mmapSize : Option (UnixFile × List Byte × CInt × OS) := do
  let newLimit ← load I64 obj
  let obj ← store obj pFile.mmapSizeMax
  let (pFile, rc, os) := sys.setMmapSize pFile newLimit os
  return (pFile, obj, rc, os)

end Cases

/-- Through NULL there is no case. -/
def throughArg (pArg : Option (List Byte))
    (case : List Byte → Option (UnixFile × List Byte × CInt × OS)) :
    Option (UnixFile × Option (List Byte) × CInt × OS) := do
  let (pFile, obj, rc, os) ← case (← pArg)
  return (pFile, some obj, rc, os)

/-- The file name, once there is memory for it. -/
def tempfilename (pFile : UnixFile) (pArg : Option (List Byte)) (os : OS) :
    Option (UnixFile × Option (List Byte) × CInt × OS) :=
  let (zTFile, os) := sys.unixGetTempname pFile os
  if zTFile = 0 then some (pFile, pArg, sqliteOk, os)
  else throughArg pArg fun obj => do
    return (pFile, ← store obj zTFile, sqliteOk, os)

/-- The switch, with the number of each `SQLITE_FCNTL` operation. -/
def unixFileControl (pFile : UnixFile) (op : CInt) (pArg : Option (List Byte)) (os : OS) :
    Option (UnixFile × Option (List Byte) × CInt × OS) :=
  if op = 1 then throughArg pArg (lockstate pFile os)
  else if op = 4 then throughArg pArg (lastErrno pFile os)
  else if op = 6 then throughArg pArg (chunkSize pFile os)
  else if op = 5 then throughArg pArg (sys.sizeHint pFile os)
  else if op = 10 then throughArg pArg (modeBit pFile os · unixfilePersistWal)
  else if op = 13 then throughArg pArg (modeBit pFile os · unixfilePsow)
  else if op = 12 then throughArg pArg (sys.vfsname pFile os)
  else if op = 16 then sys.tempfilename pFile pArg os
  else if op = 20 then throughArg pArg (sys.hasMoved pFile os)
  else if op = 18 then throughArg pArg (sys.mmapSize pFile os)
  else some (pFile, pArg, sqliteNotfound, os)

end FileControlCalls

/-! ## How far it looks -/

section Prefix

variable {OS : Type} {k : Nat} {obj : List Byte} {α : Type} [CType α]

/-- A case that uses only the first `k` bytes of its object. -/
def OnPrefix (k : Nat) (case : List Byte → Option (UnixFile × List Byte × CInt × OS)) : Prop :=
  ∀ obj g obj' rc os, k ≤ obj.length → case obj = some (g, obj', rc, os) →
    ∃ arg, case (obj.take k) = some (g, arg, rc, os) ∧ arg.length = k ∧ obj' = arg ++ obj.drop k

theorem load_eq (h : sizeof α ≤ obj.length) :
    load α obj = some (ofBytes (obj.take (sizeof α))) := by
  rw [load, Buf.get_eq _ (by omega)]
  rfl

theorem load_take (h : sizeof α ≤ k) (hk : k ≤ obj.length) : load α (obj.take k) = load α obj := by
  rw [load_eq (by rw [List.length_take]; omega), load_eq (by omega), List.take_take,
    min_eq_left h]

theorem store_eq (x : α) (h : sizeof α ≤ obj.length) :
    store obj x = some (toBytes x ++ obj.drop (sizeof α)) := by
  rw [store, Buf.put_eq _ x (by omega), Option.map_some,
    Buf.splice_val _ _ _ (by rw [CType.length_toBytes]; omega), CType.length_toBytes, Nat.zero_add]
  rfl

theorem onPrefix_same (g : UnixFile) (rc : CInt) (os : OS) :
    OnPrefix k fun obj => some (g, obj, rc, os) := by
  intro obj g' obj' rc' os' hk h
  cases h
  exact ⟨obj.take k, rfl, by rw [List.length_take]; omega, (List.take_append_drop k obj).symm⟩

theorem onPrefix_store (hk : sizeof α ≤ k) (g : UnixFile) (x : α) (rc : CInt) (os : OS) :
    OnPrefix k fun obj => do return (g, ← store obj x, rc, os) := by
  intro obj g' obj' rc' os' hle h
  simp only [store_eq x (by omega : sizeof α ≤ obj.length), Option.bind_eq_bind, Option.bind_some,
    Option.pure_def] at h
  cases h
  refine ⟨toBytes x ++ (obj.take k).drop (sizeof α), ?_, ?_, ?_⟩
  · simp only [store_eq x (by rw [List.length_take]; omega : sizeof α ≤ (obj.take k).length),
      Option.bind_eq_bind, Option.bind_some, Option.pure_def]
  · simp
    omega
  · rw [List.append_assoc, ← List.drop_append_of_le_length (by rw [List.length_take]; omega),
      List.take_append_drop]

theorem onPrefix_load (hk : sizeof α ≤ k)
    {case : α → List Byte → Option (UnixFile × List Byte × CInt × OS)}
    (h : ∀ x, OnPrefix k (case x)) : OnPrefix k fun obj => (load α obj).bind (case · obj) := by
  intro obj g obj' rc os hle hrun
  obtain ⟨x, hx, hrun⟩ := Option.bind_eq_some_iff.mp hrun
  obtain ⟨arg, harg, hlen, rfl⟩ := h x obj g obj' rc os hle hrun
  exact ⟨arg, by simp only [load_take hk hle, hx, Option.bind_some, harg], hlen, rfl⟩

theorem onPrefix_modeBit (hk : 4 ≤ k) (pFile : UnixFile) (os : OS) (mask : BitVec 16) :
    OnPrefix k (FileControlCalls.modeBit pFile os · mask) := by
  have hcases : (FileControlCalls.modeBit pFile os · mask) = fun obj =>
      (load CInt obj).bind fun arg =>
        if arg.toInt < 0 then do
          return (pFile, ← store obj (if pFile.ctrlFlags &&& mask ≠ 0 then 1 else 0 : CInt),
            sqliteOk, os)
        else if arg = 0 then
          some ({ pFile with ctrlFlags := pFile.ctrlFlags &&& ~~~mask }, obj, sqliteOk, os)
        else some ({ pFile with ctrlFlags := pFile.ctrlFlags ||| mask }, obj, sqliteOk, os) := by
    funext obj
    simp only [FileControlCalls.modeBit, unixModeBit, Option.bind_eq_bind, Option.bind_assoc]
    congr 1
    funext arg
    split
    · simp only [Option.bind_assoc]
      rfl
    · split <;> rfl
  rw [hcases]
  refine onPrefix_load hk fun arg => ?_
  by_cases hneg : arg.toInt < 0
  · simp only [if_pos hneg]
    exact onPrefix_store hk _ _ _ _
  · simp only [if_neg hneg]
    split
    · exact onPrefix_same _ _ _
    · exact onPrefix_same _ _ _

theorem throughArg_eq_some {pArg pArg' : Option (List Byte)} {g : UnixFile} {rc : CInt} {os : OS}
    {case : List Byte → Option (UnixFile × List Byte × CInt × OS)}
    (h : FileControlCalls.throughArg pArg case = some (g, pArg', rc, os)) :
    ∃ obj obj', pArg = some obj ∧ pArg' = some obj' ∧ case obj = some (g, obj', rc, os) := by
  obtain ⟨obj, hobj, h⟩ := Option.bind_eq_some_iff.mp h
  obtain ⟨⟨g', obj', rc', os'⟩, hcase, h⟩ := Option.bind_eq_some_iff.mp h
  cases h
  exact ⟨obj, obj', hobj, rfl, hcase⟩

theorem throughArg_null (case : List Byte → Option (UnixFile × List Byte × CInt × OS))
    (r : UnixFile × Option (List Byte) × CInt × OS) :
    FileControlCalls.throughArg none case ≠ some r := nofun

theorem OnPrefix.throughArg {case : List Byte → Option (UnixFile × List Byte × CInt × OS)}
    (hcase : OnPrefix k case) {pArg : Option (List Byte)} {g : UnixFile} {rc : CInt} {os : OS}
    (hk : k ≤ obj.length)
    (h : FileControlCalls.throughArg (some obj) case = some (g, pArg, rc, os)) :
    ∃ arg, FileControlCalls.throughArg (some (obj.take k)) case = some (g, some arg, rc, os) ∧
      arg.length = k ∧ pArg = some (arg ++ obj.drop k) := by
  obtain ⟨obj₁, obj', hobj, rfl, hrun⟩ := throughArg_eq_some h
  cases hobj
  obtain ⟨arg, harg, hlen, rfl⟩ := hcase obj g obj' rc os hk hrun
  refine ⟨arg, ?_, hlen, rfl⟩
  simp only [FileControlCalls.throughArg, Option.bind_eq_bind, Option.bind_some, harg,
    Option.pure_def]

theorem untouched_take {g pFile : UnixFile} {pArg : Option (List Byte)} {rc rc' : CInt}
    {os os' : OS} (hk : k ≤ obj.length)
    (h : some (pFile, some obj, rc, os) = some (g, pArg, rc', os')) :
    ∃ arg, some (pFile, some (obj.take k), rc, os) = some (g, some arg, rc', os') ∧
      arg.length = k ∧ pArg = some (arg ++ obj.drop k) := by
  cases h
  exact ⟨obj.take k, rfl, by rw [List.length_take]; omega, by rw [List.take_append_drop]⟩

theorem tempfilename_take (sys : FileControlCalls OS) {pFile g : UnixFile}
    {pArg : Option (List Byte)} {rc : CInt} {os os' : OS} (hsize : sizeof Ptr ≤ k)
    (hk : k ≤ obj.length) (h : sys.tempfilename pFile (some obj) os = some (g, pArg, rc, os')) :
    ∃ arg, sys.tempfilename pFile (some (obj.take k)) os = some (g, some arg, rc, os') ∧
      arg.length = k ∧ pArg = some (arg ++ obj.drop k) := by
  unfold FileControlCalls.tempfilename at h ⊢
  dsimp only at h ⊢
  split at h
  · next hz =>
    rw [if_pos hz]
    exact untouched_take hk h
  · next hz =>
    rw [if_neg hz]
    exact (onPrefix_store hsize _ _ _ _).throughArg hk h

/-- Whether the switch has a case for the operation. All of them store or read through
`pArg`. -/
def usesArg (op : CInt) : Prop :=
  op = 1 ∨ op = 4 ∨ op = 6 ∨ op = 5 ∨ op = 10 ∨ op = 13 ∨ op = 12 ∨ op = 16 ∨ op = 20 ∨ op = 18

instance (op : CInt) : Decidable (usesArg op) := inferInstanceAs (Decidable (_ ∨ _))

theorem unixFileControl_other (sys : FileControlCalls OS) {op : CInt} (h : ¬ usesArg op)
    (pFile : UnixFile) (pArg : Option (List Byte)) (os : OS) :
    sys.unixFileControl pFile op pArg os = some (pFile, pArg, sqliteNotfound, os) := by
  simp only [usesArg, not_or] at h
  obtain ⟨h1, h4, h6, h5, h10, h13, h12, h16, h20, h18⟩ := h
  rw [FileControlCalls.unixFileControl, if_neg h1, if_neg h4, if_neg h6, if_neg h5, if_neg h10,
    if_neg h13, if_neg h12, if_neg h16, if_neg h20, if_neg h18]

open FileControlCalls in
theorem unixFileControl_cases (sys : FileControlCalls OS) (pFile : UnixFile) (op : CInt)
    (os : OS) :
    (∃ case, OnPrefix (argLen op) case ∧
      ∀ pArg, sys.unixFileControl pFile op pArg os = throughArg pArg case) ∨
    (op = 16 ∧ ∀ pArg, sys.unixFileControl pFile op pArg os = sys.tempfilename pFile pArg os) ∨
    (¬ usesArg op ∧ ∀ pArg,
      sys.unixFileControl pFile op pArg os = some (pFile, pArg, sqliteNotfound, os)) := by
  by_cases h : usesArg op
  · rcases h with rfl | rfl | rfl | rfl | rfl | rfl | rfl | rfl | rfl | rfl
    · exact .inl ⟨lockstate pFile os, onPrefix_store (by decide) _ _ _ _, fun _ => rfl⟩
    · exact .inl ⟨lastErrno pFile os, onPrefix_store (by decide) _ _ _ _, fun _ => rfl⟩
    · refine .inl ⟨chunkSize pFile os, ?_, fun _ => rfl⟩
      exact onPrefix_load (by decide) fun _ => onPrefix_same _ _ _
    · refine .inl ⟨sys.sizeHint pFile os, ?_, fun _ => rfl⟩
      exact onPrefix_load (by decide) fun _ => onPrefix_same _ _ _
    · exact .inl ⟨_, onPrefix_modeBit (by decide) pFile os unixfilePersistWal, fun _ => rfl⟩
    · exact .inl ⟨_, onPrefix_modeBit (by decide) pFile os unixfilePsow, fun _ => rfl⟩
    · exact .inl ⟨sys.vfsname pFile os, onPrefix_store (by decide) _ _ _ _, fun _ => rfl⟩
    · exact .inr (.inl ⟨rfl, fun _ => rfl⟩)
    · exact .inl ⟨sys.hasMoved pFile os, onPrefix_store (by decide) _ _ _ _, fun _ => rfl⟩
    · have hsize : sizeof I64 ≤ argLen 18 := by decide
      refine .inl ⟨sys.mmapSize pFile os, ?_, fun _ => rfl⟩
      exact onPrefix_load hsize fun _ => onPrefix_store hsize _ _ _ _
  · exact .inr (.inr ⟨h, fun pArg => unixFileControl_other sys h pFile pArg os⟩)

theorem unixFileControl_take (sys : FileControlCalls OS) {pFile g : UnixFile} {op : CInt}
    {pArg : Option (List Byte)} {rc : CInt} {os os' : OS} (hk : argLen op ≤ obj.length)
    (h : sys.unixFileControl pFile op (some obj) os = some (g, pArg, rc, os')) :
    ∃ arg, sys.unixFileControl pFile op (some (obj.take (argLen op))) os =
        some (g, some arg, rc, os') ∧
      arg.length = argLen op ∧ pArg = some (arg ++ obj.drop (argLen op)) := by
  rcases unixFileControl_cases sys pFile op os with ⟨case, hcase, hrun⟩ | ⟨rfl, hrun⟩ | ⟨-, hrun⟩
  · rw [hrun] at h ⊢
    exact hcase.throughArg hk h
  · rw [hrun] at h ⊢
    exact tempfilename_take sys (by decide) hk h
  · rw [hrun] at h ⊢
    exact untouched_take hk h

theorem unixFileControl_null (sys : FileControlCalls OS) {pFile g : UnixFile} {op : CInt}
    {pArg : Option (List Byte)} {rc : CInt} {os os' : OS}
    (h : sys.unixFileControl pFile op none os = some (g, pArg, rc, os')) : pArg = none := by
  rcases unixFileControl_cases sys pFile op os with ⟨case, -, hrun⟩ | ⟨rfl, hrun⟩ | ⟨-, hrun⟩
  · rw [hrun] at h
    exact absurd h (throughArg_null _ _)
  · rw [hrun] at h
    unfold FileControlCalls.tempfilename at h
    dsimp only at h
    split at h
    · cases h
      rfl
    · exact absurd h (throughArg_null _ _)
  · rw [hrun] at h
    cases h
    rfl

theorem controlType_ne_zero {op : CInt} (h : usesArg op) : controlType op ≠ 0 := by
  rcases h with rfl | rfl | rfl | rfl | rfl | rfl | rfl | rfl | rfl | rfl <;> decide

end Prefix

/-! ## Across the wire -/

section Wire

variable {OS : Type}

/-- On the server, `unixFileControl` is the one above, where that is defined. -/
def UnixFns.FileControls (fns : UnixFns OS) (sys : FileControlCalls OS) : Prop :=
  ∀ id zPath op (arg : Option (Buf (argLen op))) os g pArg rc os',
    sys.unixFileControl id op (arg.map Subtype.val) os = some (g, pArg, rc, os') →
    ∃ arg', fns.unixFileControl id zPath op arg os = (g, arg', rc, os') ∧
      pArg = arg'.map Subtype.val

/-- What SQLite passes: an object of the operation's type, or NULL where nothing is stored or
read through it. -/
structure Passable (op : CInt) (pArg : Option (List Byte)) : Prop where
  object : ∀ obj, pArg = some obj → argLen op ≤ obj.length
  null : pArg = none → ¬ usesArg op

/-- Two pointers to the same string, each in the memory of its own process. -/
def SameString (memory₁ memory₂ : Ptr → Option (List Byte)) (obj₁ obj₂ : List Byte) : Prop :=
  ∃ z₁ z₂, load Ptr obj₁ = some z₁ ∧ load Ptr obj₂ = some z₂ ∧ (z₁ = 0 ↔ z₂ = 0) ∧
    ∀ str, (memory₁ z₁).bind cstr = some str → (memory₂ z₂).bind cstr = some str

/-- What the caller finds behind `pArg` is what the local call leaves there. A string that has
been stored counts by its characters. -/
def SameObject (op : CInt) (memory₁ memory₂ : Ptr → Option (List Byte))
    (pArg pArg₁ pArg₂ : Option (List Byte)) : Prop :=
  pArg₂ = pArg₁ ∧ (controlType op = 3 → pArg₁ = pArg) ∨
    controlType op = 3 ∧ ∃ obj₁ obj₂, pArg₁ = some obj₁ ∧ pArg₂ = some obj₂ ∧
      SameString memory₁ memory₂ obj₁ obj₂

/-- `strlen`, in a memory. -/
def strlenIn (memory : Ptr → Option (List Byte)) (z : Ptr) : Option Nat :=
  ((memory z).bind cstr).map List.length

/-- The size in a request, and in a reply. -/
def sentSize (argIn : Buf (Op.argInSize .fileControl)) : Option CInt :=
  argIn.get CInt (sizeUnixFile + sizeof CInt + 512)

def backSize (outarg : Buf (Op.returnSize .fileControl)) : Option CInt :=
  outarg.get CInt (sizeUnixFile + 512 + sizeof CInt)

/-- On every server, every open file and whatever the memory of either side holds: the call goes
through and does what the local one does. That it goes through also says that nothing is written
through NULL or behind the object. -/
def FileControlFaithful (op : CInt) (pArg : Option (List Byte)) : Prop :=
  ∀ (OS : Type) (sys : FileControlCalls OS) (fns : UnixFns OS) (A : Addresses)
    (memory : Ptr → Option (List Byte)) (garbage : Nat → Byte)
    (out : Buf (Op.returnSize .fileControl)) (img : UnixFile) (s : Server OS) (a : Nat)
    (style : LockingStyle) (p : List Byte) (g : UnixFile) (pArg₁ : Option (List Byte)) (rc : CInt)
    (os : OS), fns.FileControls sys → s.table.Valid →
    s.table.Binds img.h a (A.ioMethods style) p →
    sys.unixFileControl img.core op pArg s.os = some (g, pArg₁, rc, os) →
    ∃ argIn outarg s' img' pArg₂ sent back,
      (remoteFileControl A (strlenIn memory) img op pArg).argInChar = some argIn ∧
      serve fns A garbage .fileControl argIn out s = some (outarg, s') ∧
      (remoteFileControl A (strlenIn memory) img op pArg).charToReturn outarg =
        some (img', pArg₂, rc) ∧
      SameObject op (fns.memory os) memory pArg pArg₁ pArg₂ ∧
      sentSize argIn = some sent ∧ backSize outarg = some back ∧ back.toInt ≤ sent.toInt ∧
      back.toInt ≤ 512

section Sizes

variable {fns : UnixFns OS} {A : Addresses} {garbage : Nat → Byte} {s s' : Server OS}
  {argIn : Buf (Op.argInSize .fileControl)} {out outarg : Buf (Op.returnSize .fileControl)}
  {op : CInt} {pArg : Option (List Byte)} {img : UnixFile}

theorem fileControl_sent {strlen : Ptr → Option Nat}
    (h : (remoteFileControl A strlen img op pArg).argInChar = some argIn) :
    argIn.get CInt sizeUnixFile = some op ∧ sentSize argIn = lenFileControlPArg strlen op pArg := by
  obtain ⟨size, hsize, h⟩ := Option.bind_eq_some_iff.mp h
  rw [unixFileControlConvertArgInToChar] at h
  obtain ⟨b₁, -, h⟩ := Option.bind_eq_some_iff.mp h
  obtain ⟨b₂, hop, h⟩ := Option.bind_eq_some_iff.mp h
  split at h
  · obtain ⟨obj, -, h⟩ := Option.bind_eq_some_iff.mp h
    obtain ⟨data, hdata, h⟩ := Option.bind_eq_some_iff.mp h
    obtain ⟨b₃, hcopy, hput⟩ := Option.bind_eq_some_iff.mp h
    refine ⟨?_, (Buf.get_of_put hput).trans hsize.symm⟩
    rw [Buf.get_of_write_disjoint hput (.inl (by decide)),
      Buf.get_of_write_disjoint hcopy (.inl (by decide)), Buf.get_of_put hop]
  · have hput : b₂.put (sizeUnixFile + sizeof CInt + 512) size = some argIn := h
    refine ⟨?_, (Buf.get_of_put hput).trans hsize.symm⟩
    rw [Buf.get_of_write_disjoint hput (.inl (by decide)), Buf.get_of_put hop]

theorem serve_fileControl
    (h : serve fns A garbage .fileControl argIn out s = some (outarg, s')) :
    ∃ op pArg size, argIn.get CInt sizeUnixFile = some op ∧
      lenFileControlPArg (strlenIn (fns.memory s'.os)) op (some pArg) = some size ∧
      backSize outarg = some size := by
  change wrapFileControl fns A garbage argIn out s = _ at h
  rw [wrapFileControl] at h
  obtain ⟨id, ⟨op, pArg₀, size₀⟩, zPath, g, ⟨op', pArg, rc, os⟩, id', hdec, hrun, hret, -⟩ :=
    wrapFile_left h
  have hop : argIn.get CInt sizeUnixFile = some op := by
    rw [unixFileControlConvertCharToArgIn] at hdec
    obtain ⟨_, -, hdec⟩ := Option.bind_eq_some_iff.mp hdec
    obtain ⟨_, -, hdec⟩ := Option.bind_eq_some_iff.mp hdec
    obtain ⟨op₁, hop, hdec⟩ := Option.bind_eq_some_iff.mp hdec
    split at hdec
    · obtain ⟨_, -, hdec⟩ := Option.bind_eq_some_iff.mp hdec
      obtain ⟨_, -, hdec⟩ := Option.bind_eq_some_iff.mp hdec
      rw [hop, (Prod.mk.inj (Prod.mk.inj (Option.some.inj hdec)).2).1]
    · obtain ⟨_, -, hdec⟩ := Option.bind_eq_some_iff.mp hdec
      rw [hop, (Prod.mk.inj (Prod.mk.inj (Option.some.inj hdec)).2).1]
  obtain ⟨rfl, rfl⟩ : op' = op ∧ os = s'.os := by
    rw [runFileControl] at hrun
    split at hrun
    all_goals
      obtain ⟨_, -, hrun⟩ := Option.bind_eq_some_iff.mp hrun
      dsimp only at hrun
      split at hrun
      all_goals
        obtain ⟨_, -, hrun⟩ := Option.bind_eq_some_iff.mp hrun
        simp only [Option.pure_def, Option.some.injEq, Prod.mk.injEq] at hrun
        exact ⟨hrun.2.1.1.symm, hrun.2.1.2.2.2.symm.trans hrun.2.2⟩
  obtain ⟨size, hsize, hret⟩ := Option.bind_eq_some_iff.mp hret
  refine ⟨op', pArg.val, size, hop, hsize, ?_⟩
  rw [unixFileControlConvertReturnToChar] at hret
  obtain ⟨b₁, hput, hret⟩ := Option.bind_eq_some_iff.mp hret
  obtain ⟨b₂, himage, hret⟩ := Option.bind_eq_some_iff.mp hret
  have hback : b₂.get CInt (sizeUnixFile + 512 + sizeof CInt) = some size := by
    rw [Buf.get_of_write_disjoint himage (.inr (by simp)), Buf.get_of_put hput]
  split at hret
  · obtain ⟨data, hdata, hret⟩ := Option.bind_eq_some_iff.mp hret
    obtain ⟨b₃, hcopy, hrc⟩ := Option.bind_eq_some_iff.mp hret
    obtain ⟨hlen, rfl⟩ := Buf.read_eq_some hdata
    rw [backSize, Buf.get_of_write_disjoint hrc (.inr (by simp)),
      Buf.get_of_write_disjoint hcopy (.inr ?_), hback]
    rw [Buf.slice_length _ _ _ hlen, sizeUnixFile_eq, sizeof_word32]
    omega
  · have hrc : b₂.put (sizeUnixFile + 512) rc = some outarg := hret
    rw [backSize, Buf.get_of_write_disjoint hrc (.inr (by simp)), hback]

end Sizes

theorem fileControl_faithful {op : CInt} {pArg : Option (List Byte)} (hpass : Passable op pArg)
    (h : controlType op = 0 ∨ (controlType op = 1 ∨ controlType op = 2) ∧ pArg ≠ none) :
    FileControlFaithful op pArg := by
  intro OS sys fns A memory garbage out img s a style p g pArg₁ rc os hfns hv hb hlocal
  have hcarried : ∃ img', (Call.xFileControl op pArg).Carried fns A (strlenIn memory) garbage
      (fun _ => 0) out img img' s ⟨s.table, os⟩ ⟨rc, .object pArg₁⟩ := by
    rcases h with h0 | ⟨hop, hne⟩
    · have hother : ¬ usesArg op := fun h => controlType_ne_zero h h0
      rw [unixFileControl_other sys hother] at hlocal
      obtain ⟨arg', hserver, -⟩ := hfns img.core (some p) op none s.os _ _ _ _
        (unixFileControl_other sys hother _ _ _)
      cases hlocal
      have hrun : (Call.xFileControl op pArg).unixMethod fns style img.core (some p) s.os =
          some (img.core, ⟨sqliteNotfound, .object pArg⟩, s.os) := by
        simp only [Call.unixMethod, if_pos h0, hserver]
      exact ⟨_, xFileControl_carried_zero hv hb _ garbage _ h0 hrun out⟩
    · obtain ⟨obj, rfl⟩ := Option.ne_none_iff_exists'.mp hne
      have hlen := hpass.object obj rfl
      obtain ⟨arg, harg, harglen, rfl⟩ := unixFileControl_take sys hlen hlocal
      have htake := (Buf.ofObject obj).take_eq hlen
      obtain ⟨arg', hserver, hval⟩ := hfns img.core (some p) op (some ⟨obj.take (argLen op), by
        rw [List.length_take]; omega⟩) s.os _ _ _ _ harg
      obtain ⟨b, rfl, rfl⟩ := Option.map_eq_some_iff.mp hval.symm
      have hrun : (Call.xFileControl op (some obj)).unixMethod fns style img.core (some p) s.os =
          some (g, ⟨rc, .object (some (b.val ++ obj.drop (argLen op)))⟩, os) := by
        have hne : controlType op ≠ 0 := by rcases hop with h | h <;> simp [h]
        have hslice : (⟨(Buf.ofObject obj).slice 0 (argLen op), _⟩ : Buf (argLen op)) =
            ⟨obj.take (argLen op), by rw [List.length_take]; omega⟩ := rfl
        rw [hslice] at htake
        simp only [Call.unixMethod, if_neg hne, Option.bind_eq_bind, Option.bind_some, htake,
          hserver, Option.getD_some, Option.pure_def]
        rw [Buf.splice_val _ _ _ (by rw [b.property]; omega), b.property, List.take_zero,
          List.nil_append, Nat.zero_add]
        rfl
      exact ⟨_, xFileControl_carried hv hb _ garbage _ hop hrun out⟩
  obtain ⟨img', argIn, outarg, hargIn, hserve, hret⟩ := hcarried
  obtain ⟨⟨img₂, pArg₂, rc₂⟩, hback, heq⟩ := Option.map_eq_some_iff.mp hret
  cases heq
  have hne3 : controlType op ≠ 3 := by rcases h with h | ⟨h | h, -⟩ <;> simp [h]
  have hfill : (remoteFileControl A (strlenIn memory) img op pArg).argInChar = some argIn := hargIn
  obtain ⟨hop, hsent⟩ := fileControl_sent hfill
  obtain ⟨op', pArg', size, hop', hsize, hreply⟩ := serve_fileControl hserve
  obtain rfl := Option.some.inj (hop'.symm.trans hop)
  obtain ⟨hsame, hle⟩ : lenFileControlPArg (strlenIn memory) op' pArg = some size ∧
      size.toInt ≤ 512 := by
    rcases h with h0 | ⟨h12, hne⟩
    · rw [lenFileControlPArg_zero _ h0, Option.some.injEq] at hsize ⊢
      exact ⟨hsize, hsize ▸ by decide⟩
    · obtain ⟨obj, rfl⟩ := Option.ne_none_iff_exists'.mp hne
      rw [lenFileControlPArg_eq _ h12, Option.some.injEq] at hsize ⊢
      refine ⟨hsize, hsize ▸ ?_⟩
      rcases h12 with h | h <;> simp [argLen, h]
  exact ⟨argIn, outarg, _, _, _, size, size, hargIn, hserve, hback,
    .inl ⟨rfl, fun h => absurd h hne3⟩, hsent.trans hsame, hreply, le_rfl, hle⟩

/-! ## Where it goes wrong -/

/-- NULL is written through once the server has measured its own argument. -/
theorem charToReturn_null {A : Addresses} {strlen : Ptr → Option Nat} {img : UnixFile} {op : CInt}
    {outarg : Buf (Op.returnSize .fileControl)} {size : CInt} (hback : backSize outarg = some size)
    (hpos : 0 < size.toInt) :
    (remoteFileControl A strlen img op none).charToReturn outarg = none := by
  change unixFileControlConvertCharToReturn A outarg none = none
  rw [unixFileControlConvertCharToReturn, show outarg.get CInt _ = _ from hback]
  simp only [Option.bind_eq_bind, Option.bind_some, if_pos hpos, Option.bind_none]
  cases outarg.get UnixFile 0 <;> rfl

end Wire

namespace Disk

def controls : FileControlCalls Disk where
  osFstat _ d := (none, d)
  osMmap _ _ d := (mapFailed, d)
  osMremap _ _ _ d := (mapFailed, d)
  osMunmap _ _ d := d
  fcntlSizeHint id _ d := (id, sqliteOk, d)
  sqlite3Mprintf _ d := (0x5000, d)
  unixGetTempname _ d := (0x6000, d)
  fileHasMoved _ d := (0, d)
  mxMmap := 0

/-- A server on which nothing can be read outside of the list. -/
def controlFns : UnixFns Disk :=
  { fns with
    unixFileControl := fun id _ op arg d =>
      match controls.unixFileControl id op (arg.map Subtype.val) d with
      | some (g, pArg, rc, d) => (g, arg.map (·.splice 0 (pArg.getD [])), rc, d)
      | none => (id, arg, sqliteOk, d) }

theorem controlFns_fileControls : controlFns.FileControls controls := by
  intro id zPath op arg os g pArg rc os' h
  refine ⟨arg.map (·.splice 0 (pArg.getD [])), ?_, ?_⟩
  · simp only [controlFns, h]
  · cases arg with
    | none => exact unixFileControl_null controls h
    | some b =>
      obtain ⟨arg, -, hlen, rfl⟩ := unixFileControl_take controls b.property.ge h
      have hdrop : b.val.drop (argLen op) = [] := List.drop_eq_nil_of_le b.property.le
      rw [hdrop, List.append_nil, Option.getD_some, Option.map_some, Option.map_some,
        Buf.splice_val b 0 arg (by omega), hlen, Nat.zero_add, hdrop]
      simp

theorem exists_live : ∃ (t : FdTable) (a : Nat) (p : List Byte), t.Valid ∧
    t.Binds 3 a (Addresses.flat.ioMethods .posix) p := by
  have hv : table.Valid := .inl rfl
  obtain ⟨t₁, t, -, -, ht, hholds, -⟩ := hv.register 3 (Addresses.flat.ioMethods .posix)
    (by decide : 0 ∉ ([97] : List Byte)) (by decide)
  obtain ⟨a, hbinds⟩ := hholds.binds (by decide)
  exact ⟨t, a, _, ht, hbinds⟩

theorem not_fileControlFaithful {op : CInt} {pArg : Option (List Byte)}
    (hlocal : ∀ img os, (controls.unixFileControl img op pArg os).isSome)
    (hstuck : ∀ (img : UnixFile) (s s' : Server Disk) (memory : Ptr → Option (List Byte))
      (argIn : Buf (Op.argInSize .fileControl)) (outarg : Buf (Op.returnSize .fileControl)) r,
      (remoteFileControl Addresses.flat (strlenIn memory) img op pArg).argInChar = some argIn →
      serve controlFns Addresses.flat (fun _ => 1) .fileControl argIn (Buf.zeros _) s =
        some (outarg, s') →
      (remoteFileControl Addresses.flat (strlenIn memory) img op pArg).charToReturn outarg ≠
        some r) : ¬ FileControlFaithful op pArg := by
  intro h
  obtain ⟨t, a, p, ht, hbinds⟩ := exists_live
  obtain ⟨⟨g, pArg₁, rc, os⟩, hlocal⟩ :=
    Option.isSome_iff_exists.mp (hlocal (UnixFile.core { UnixFile.zero with h := 3 }) ⟨[], 4⟩)
  obtain ⟨argIn, outarg, s', img', pArg₂, sent, back, hargIn, hserve, hret, -⟩ :=
    h Disk controls controlFns Addresses.flat (fun _ => none) (fun _ => 1) (Buf.zeros _)
      { UnixFile.zero with h := 3 } ⟨t, ⟨[], 4⟩⟩ a .posix p g pArg₁ rc os controlFns_fileControls
      ht hbinds hlocal
  exact hstuck _ _ _ _ _ _ _ hargIn hserve hret

end Disk

theorem not_faithful_null {op : CInt} (h : controlType op = 1 ∨ controlType op = 2)
    (hpass : Passable op none) : ¬ FileControlFaithful op none := by
  refine Disk.not_fileControlFaithful (fun img os => ?_) fun img s s' memory argIn outarg r hargIn
    hserve hret => ?_
  · rw [unixFileControl_other _ (hpass.null rfl)]
    rfl
  · obtain ⟨op', pArg, size, hop', hsize, hback⟩ := serve_fileControl hserve
    obtain rfl := Option.some.inj (hop'.symm.trans (fileControl_sent hargIn).1)
    rw [lenFileControlPArg_eq _ h, Option.some.injEq] at hsize
    rw [charToReturn_null hback (hsize ▸ (argLen_size h).2.2)] at hret
    cases hret

theorem controlType_cases (op : CInt) :
    controlType op = 0 ∨ (controlType op = 1 ∨ controlType op = 2) ∨ controlType op = 3 := by
  unfold controlType
  split_ifs <;> simp

theorem controls_defined_string {op : CInt} {pArg : Option (List Byte)} (h : controlType op = 3)
    (hpass : Passable op pArg) (img : UnixFile) (os : Disk) :
    (Disk.controls.unixFileControl img op pArg os).isSome := by
  have hop : op = 12 ∨ op = 16 ∨ op = 2 := by
    unfold controlType at h
    split_ifs at h with h1 h2 h3
    all_goals first
      | exact h3
      | omega
  rcases hop with rfl | rfl | rfl
  · obtain ⟨obj, rfl⟩ := Option.ne_none_iff_exists'.mp fun hnull => hpass.null hnull (by decide)
    have hstore := store_eq 0x5000#64 (hpass.object obj rfl)
    simp [FileControlCalls.unixFileControl, FileControlCalls.throughArg, FileControlCalls.vfsname,
      Disk.controls, hstore]
  · obtain ⟨obj, rfl⟩ := Option.ne_none_iff_exists'.mp fun hnull => hpass.null hnull (by decide)
    have hstore := store_eq 0x6000#64 (hpass.object obj rfl)
    simp [FileControlCalls.unixFileControl, FileControlCalls.throughArg,
      FileControlCalls.tempfilename, Disk.controls, hstore]
  · rw [unixFileControl_other _ (by decide)]
    rfl

theorem not_faithful_string {op : CInt} {pArg : Option (List Byte)} (h : controlType op = 3)
    (hpass : Passable op pArg) : ¬ FileControlFaithful op pArg := by
  refine Disk.not_fileControlFaithful (fun img os => ?_) fun img s s' memory argIn outarg r hargIn
    hserve hret => ?_
  · exact controls_defined_string h hpass img os
  · obtain ⟨op', pArg, size, hop', hsize, hback⟩ := serve_fileControl hserve
    obtain rfl := Option.some.inj (hop'.symm.trans (fileControl_sent hargIn).1)
    have hnone : lenFileControlPArg (strlenIn (Disk.controlFns.memory s'.os)) op' (some pArg) =
        none := by
      simp only [lenFileControlPArg, h, if_true, strlenIn]
      cases (Buf.ofObject pArg).get Ptr 0 <;> rfl
    rw [hnone] at hsize
    cases hsize

/-- A file control agrees exactly when the operation has no argument, or a number behind a
pointer that is there. -/
theorem fileControl_faithful_iff {op : CInt} {pArg : Option (List Byte)}
    (hpass : Passable op pArg) : FileControlFaithful op pArg ↔
      controlType op = 0 ∨ (controlType op = 1 ∨ controlType op = 2) ∧ pArg ≠ none := by
  refine ⟨fun h => ?_, fileControl_faithful hpass⟩
  rcases controlType_cases op with h0 | h12 | h3
  · exact .inl h0
  · refine .inr ⟨h12, ?_⟩
    rintro rfl
    exact not_faithful_null h12 hpass h
  · exact absurd h (not_faithful_string h3 hpass)

theorem passable_object {op : CInt} {obj : List Byte} (h : argLen op ≤ obj.length) :
    Passable op (some obj) where
  object _ heq := by
    cases heq
    exact h
  null := nofun

theorem fileControl_faithful_lockstate : FileControlFaithful 1 (some [0, 0, 0, 0]) :=
  (fileControl_faithful_iff (passable_object (by decide))).mpr
    (.inr ⟨.inl (by decide), Option.some_ne_none _⟩)

/-- The name of the VFS, into a pointer that is NULL. -/
theorem fileControl_vfsname_fails : ¬ FileControlFaithful 12 (some (List.replicate 8 0)) :=
  not_faithful_string (by decide) (passable_object (by decide))

end RemoteVfs
