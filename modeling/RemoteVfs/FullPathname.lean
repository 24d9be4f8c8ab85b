import RemoteVfs.Failure
import RemoteVfs.Limits

/-!
# Full path names

The only message with a length of the caller's choice. The client copies the path by
that length, the server as a string, and the reply is a string in a buffer that nothing
has cleared.
-/

open CMem

namespace RemoteVfs

/-! ## `unixFullPathname` of `os_unix.c` -/

/-- What `osLstat` finds. -/
inductive Lstat
  | link | other | enoent | failed

/-- The system calls behind a path name, and whether the build has the last two of them. -/
structure PathCalls (OS : Type) where
  /-- `defined(HAVE_READLINK) && defined(HAVE_LSTAT)` -/
  haveReadlink : Bool
  /-- The name of the directory, when it fits into so many bytes with its NUL. -/
  osGetcwd : Nat → OS → Option (List Byte) × OS
  osLstat : List Byte → OS → Lstat × OS
  osReadlink : List Byte → Nat → OS → Option (List Byte) × OS
  /-- Whether there is memory left. -/
  sqlite3Malloc : Nat → OS → Bool × OS
  getcwd_fits : ∀ size os cwd os', osGetcwd size os = (some cwd, os') →
    0 ∉ cwd ∧ cwd.length + 1 ≤ size ∧ cwd.length < 2 ^ 30
  readlink_fits : ∀ p size os target os', osReadlink p size os = (some target, os') →
    0 ∉ target ∧ target.length ≤ size

/-- `SQLITE_CANTOPEN_BKPT` -/
def sqliteCantopen : CInt := 14
/-- `SQLITE_NOMEM_BKPT` -/
def sqliteNomem : CInt := 7
/-- `SQLITE_MAX_SYMLINKS` -/
def sqliteMaxSymlinks : Nat := 100

def slash : Byte := 47

def sqlite3Strlen30 (z : List Byte) : Nat := z.length % 2 ^ 30

namespace PathCalls

variable {OS : Type} (sys : PathCalls OS) {k : Nat}

/-- `mkFullPathname`, from where the path itself is written on. -/
def appendPath (zPath : List Byte) (iOff : Nat) (zOut : Buf k) (os : OS) :
    Option (Buf k × CInt × OS) :=
  if k < iOff + sqlite3Strlen30 zPath + 1 then do
    return (← zOut.write iOff [0], sqliteCantopen, os)
  else do
    -- `sqlite3_snprintf` cuts the string at the end of the buffer.
    return (← zOut.write iOff (zPath.take (k - iOff - 1) ++ [0]), sqliteOk, os)

/-- `mkFullPathname`, on a buffer of `nOut` bytes. -/
def mkFullPathname (zPath : List Byte) (zOut : Buf k) (os : OS) : Option (Buf k × CInt × OS) :=
  if zPath.head? = some slash then appendPath zPath 0 zOut os
  else
    match sys.osGetcwd (sizeT (BitVec.ofNat 32 k - 2)) os with
    | (none, os) => some (zOut, sqliteCantopen, os)
    | (some cwd, os) => do
      let zOut ← zOut.write 0 (cwd ++ [0])
      let zOut ← zOut.write (sqlite3Strlen30 cwd) [slash]
      appendPath zPath (sqlite3Strlen30 cwd + 1) zOut os

/-- The name that a link stands for, in `zDel`. `hasDel` is whether `zDel` is there. -/
def followLink (zIn : List Byte) (hasDel : Bool) (nOut : Nat) (os : OS) :
    Except CInt (List Byte) × OS :=
  let (room, os) := if hasDel then (true, os) else sys.sqlite3Malloc nOut os
  if room then
    match sys.osReadlink zIn (nOut - 1) os with
    | (none, os) => (.error sqliteCantopen, os)
    | (some target, os) =>
      if target.head? = some slash then (.ok target, os)
      else
        -- The directory that the link lies in.
        let dir := (zIn.reverse.dropWhile (· ≠ slash)).reverse
        if nOut < target.length + dir.length + 1 then (.error sqliteCantopen, os)
        else (.ok (dir ++ target), os)
  else (.error sqliteNomem, os)

/-- The loop of `unixFullPathname`. `left` links may still be followed, and `atOut` is
whether `zIn` is `zOut`. -/
def followLinks (left : Nat) (zIn : List Byte) (atOut hasDel : Bool) (zOut : Buf k) (os : OS) :
    Option (Buf k × CInt × OS) :=
  match sys.osLstat zIn os with
  | (.failed, os) => some (zOut, sqliteCantopen, os)
  | (.enoent, os) | (.other, os) =>
    if atOut then some (zOut, sqliteOk, os) else sys.mkFullPathname zIn zOut os
  | (.link, os) =>
    match left with
    | 0 => some (zOut, sqliteCantopen, os)
    | left + 1 =>
      match sys.followLink zIn hasDel k os with
      | (.error rc, os) => some (zOut, rc, os)
      | (.ok zDel, os) => do
        let (zOut, rc, os) ← sys.mkFullPathname zDel zOut os
        if rc = sqliteOk then followLinks left (← cstr zOut.val) true true zOut os
        else return (zOut, rc, os)

def unixFullPathname (zPath : List Byte) (zOut : Buf k) (os : OS) :
    Option (Buf k × CInt × OS) :=
  if sys.haveReadlink then sys.followLinks sqliteMaxSymlinks zPath false false zOut os
  else sys.mkFullPathname zPath zOut os

/-! ## What becomes of `zOut` -/

/-- `getcwd` fails where `mkFullPathname` needs it. -/
def noCwd (zPath : List Byte) (k : Nat) (os : OS) : Bool :=
  zPath.head? ≠ some slash && (sys.osGetcwd (sizeT (BitVec.ofNat 32 k - 2)) os).1.isNone

/-- A system call fails before anything is in `zOut`. -/
def failsUnwritten (zPath : List Byte) (k : Nat) (os : OS) : Bool :=
  if sys.haveReadlink then
    match sys.osLstat zPath os with
    | (.failed, _) => true
    | (.enoent, os) | (.other, os) => sys.noCwd zPath k os
    | (.link, os) =>
      match sys.followLink zPath false k os with
      | (.error _, _) => true
      | (.ok zDel, os) => sys.noCwd zDel k os
  else sys.noCwd zPath k os

variable {sys}

/-- The string that is left, the code and the environment do not depend on the bytes that
were in the buffer. -/
def Settles (P : Buf k → Prop) (f : Buf k → Option (Buf k × CInt × OS)) : Prop :=
  (∀ b, P b → f b = none) ∨
  ∃ s rc os, ∀ b, P b → ∃ b', f b = some (b', rc, os) ∧ cstr b'.val = some s

theorem take_of_write {b b' : Buf k} {pre src : List Byte} (hpre : b.val.take pre.length = pre)
    (h : b.write pre.length src = some b') : b'.val.take (pre ++ src).length = pre ++ src := by
  obtain ⟨hle, rfl⟩ := Buf.write_eq_some h
  rw [Buf.splice_val b _ _ hle, hpre]
  exact List.take_left' rfl

theorem cstr_of_write {b b' : Buf k} {pre src : List Byte} (hpre : b.val.take pre.length = pre)
    (h0 : 0 ∉ pre) (hsrc : 0 ∉ src) (h : b.write pre.length (src ++ [0]) = some b') :
    cstr b'.val = some (pre ++ src) := by
  refine Buf.cstr_of_slice b' _ (fun h => (List.mem_append.mp h).elim h0 hsrc) ?_
  have htake := take_of_write hpre h
  rwa [← List.append_assoc, List.length_append] at htake

theorem write_settles (pre src : List Byte) (h0 : 0 ∉ pre) (hsrc : 0 ∉ src) (rc : CInt)
    (os : OS) : Settles (fun b : Buf k => b.val.take pre.length = pre)
      (fun b => do return (← b.write pre.length (src ++ [0]), rc, os)) := by
  by_cases hle : pre.length + (src ++ [0]).length ≤ k
  · refine .inr ⟨pre ++ src, rc, os, fun b hb => ⟨b.splice pre.length (src ++ [0]), ?_, ?_⟩⟩
    · simp only [Buf.write_eq b hle, Option.bind_eq_bind, Option.bind_some, Option.pure_def]
    · exact cstr_of_write hb h0 hsrc (Buf.write_eq b hle)
  · refine .inl fun b _ => ?_
    have hnone : b.write pre.length (src ++ [0]) = none := if_neg hle
    simp only [hnone, Option.bind_eq_bind, Option.bind_none]

theorem appendPath_settles (zPath pre : List Byte) (h0 : 0 ∉ pre) (hp : 0 ∉ zPath) (os : OS) :
    Settles (fun b : Buf k => b.val.take pre.length = pre)
      (fun b => appendPath zPath pre.length b os) := by
  unfold appendPath
  split
  · exact write_settles pre [] h0 (List.not_mem_nil) sqliteCantopen os
  · exact write_settles pre _ h0 (fun h => hp (List.mem_of_mem_take h)) sqliteOk os

theorem Settles.mono {P Q : Buf k → Prop} {f : Buf k → Option (Buf k × CInt × OS)}
    (h : Settles Q f) (hPQ : ∀ b, P b → Q b) : Settles P f := by
  rcases h with h | ⟨s, rc, os, h⟩
  · exact .inl fun b hb => h b (hPQ b hb)
  · exact .inr ⟨s, rc, os, fun b hb => h b (hPQ b hb)⟩

theorem Settles.bind {Q : Buf k → Prop} {g : Buf k → Option (Buf k)}
    {f : Buf k → Option (Buf k × CInt × OS)} (hf : Settles Q f)
    (hg : (∀ b, g b = none) ∨ ∀ b, ∃ b', g b = some b' ∧ Q b') :
    Settles (fun _ => True) (fun b => (g b).bind f) := by
  rcases hg with hg | hg
  · exact .inl fun b _ => by simp only [hg b, Option.bind_none]
  · rcases hf with hf | ⟨s, rc, os, hf⟩
    · refine .inl fun b _ => ?_
      obtain ⟨b', hb', hQ⟩ := hg b
      simp only [hb', Option.bind_some, hf b' hQ]
    · refine .inr ⟨s, rc, os, fun b _ => ?_⟩
      obtain ⟨b', hb', hQ⟩ := hg b
      simpa only [hb', Option.bind_some] using hf b' hQ

theorem write_cwd (cwd : List Byte) :
    (∀ b : Buf k, (b.write 0 (cwd ++ [0])).bind (·.write cwd.length [slash]) = none) ∨
    ∀ b : Buf k, ∃ b', (b.write 0 (cwd ++ [0])).bind (·.write cwd.length [slash]) = some b' ∧
      b'.val.take (cwd ++ [slash]).length = cwd ++ [slash] := by
  by_cases hle : 0 + (cwd ++ [0]).length ≤ k
  · refine .inr fun b => ?_
    have hw := Buf.write_eq b hle
    have htake := @take_of_write k b _ [] _ List.take_zero hw
    have hcwd := congrArg (List.take cwd.length) htake
    simp only [List.nil_append, List.take_left', List.take_take] at hcwd
    rw [min_eq_left (by simp)] at hcwd
    have hle' : cwd.length + [slash].length ≤ k := by simpa using hle
    have hw' := Buf.write_eq (b.splice 0 (cwd ++ [0])) hle'
    exact ⟨_, by rw [hw, Option.bind_some, hw'], take_of_write hcwd hw'⟩
  · refine .inl fun b => ?_
    rw [show b.write 0 (cwd ++ [0]) = none from if_neg hle, Option.bind_none]

theorem mkFullPathname_settles {zPath : List Byte} (hp : 0 ∉ zPath) {os : OS}
    (h : sys.noCwd zPath k os = false) :
    Settles (fun _ : Buf k => True) (fun b => sys.mkFullPathname zPath b os) := by
  by_cases habs : zPath.head? = some slash
  · simp only [mkFullPathname, if_pos habs]
    exact (appendPath_settles zPath [] List.not_mem_nil hp os).mono fun b _ => List.take_zero
  · rcases hcwd : sys.osGetcwd (sizeT (BitVec.ofNat 32 k - 2)) os with ⟨cwd, os'⟩
    cases cwd with
    | none =>
      rw [noCwd, hcwd] at h
      simp [habs] at h
    | some cwd =>
      obtain ⟨h0, -, hlt⟩ := sys.getcwd_fits _ _ _ _ hcwd
      have hstrlen : sqlite3Strlen30 cwd = cwd.length := Nat.mod_eq_of_lt hlt
      simp only [mkFullPathname, if_neg habs, hcwd, hstrlen]
      have hpre : 0 ∉ cwd ++ [slash] := fun h => (List.mem_append.mp h).elim h0 (by decide)
      have hrest := (appendPath_settles (k := k) _ _ hpre hp os').bind (write_cwd cwd)
      simpa only [List.length_append, List.length_singleton, Option.bind_assoc,
        Option.bind_eq_bind] using hrest

theorem mkFullPathname_noCwd {zPath : List Byte} {os : OS} (h : sys.noCwd zPath k os = true) :
    ∃ os', ∀ b : Buf k, sys.mkFullPathname zPath b os = some (b, sqliteCantopen, os') := by
  rcases hcwd : sys.osGetcwd (sizeT (BitVec.ofNat 32 k - 2)) os with ⟨cwd, os'⟩
  rw [noCwd, hcwd] at h
  cases cwd with
  | some cwd => simp at h
  | none =>
    have habs : ¬ zPath.head? = some slash := by simpa using h
    exact ⟨os', fun b => by simp only [mkFullPathname, if_neg habs, hcwd]⟩

theorem followLink_ok {zIn zDel : List Byte} {hasDel : Bool} {nOut : Nat} {os os' : OS}
    (h0 : 0 ∉ zIn) (h : sys.followLink zIn hasDel nOut os = (.ok zDel, os')) : 0 ∉ zDel := by
  rw [followLink] at h
  rcases hm : (if hasDel then (true, os) else sys.sqlite3Malloc nOut os) with ⟨room, os₁⟩
  rcases hlink : sys.osReadlink zIn (nOut - 1) os₁ with ⟨target, os₂⟩
  simp only [hm, hlink] at h
  split at h
  · cases target with
    | none => cases h
    | some target =>
      have htarget := (sys.readlink_fits _ _ _ _ _ hlink).1
      dsimp only at h
      split at h
      · cases h
        exact htarget
      · split at h
        · cases h
        · cases h
          simp only [List.mem_append, List.mem_reverse, not_or]
          refine ⟨fun hdir => h0 ?_, htarget⟩
          exact List.mem_reverse.mp ((List.dropWhile_sublist _).subset hdir)
  · cases h

theorem followLinks_link {left : Nat} {zIn : List Byte} {atOut hasDel : Bool} {os os₁ os₂ : OS}
    {zDel : List Byte} (hlink : sys.osLstat zIn os = (.link, os₁))
    (hread : sys.followLink zIn hasDel k os₁ = (.ok zDel, os₂)) (zOut : Buf k) :
    sys.followLinks (left + 1) zIn atOut hasDel zOut os =
      (sys.mkFullPathname zDel zOut os₂).bind fun (zOut, rc, os) =>
        if rc = sqliteOk then (cstr zOut.val).bind fun s =>
          sys.followLinks left s true true zOut os
        else some (zOut, rc, os) := by
  rw [followLinks]
  simp only [hlink, hread]
  rfl

theorem Settles.andThen {P : Buf k → Prop} {f : Buf k → Option (Buf k × CInt × OS)}
    {g : Buf k × CInt × OS → Option (Buf k × CInt × OS)} (hf : Settles P f)
    (hg : ∀ s rc os, 0 ∉ s →
      Settles (fun b : Buf k => cstr b.val = some s) (fun b => g (b, rc, os))) :
    Settles P (fun b => (f b).bind g) := by
  rcases hf with hf | ⟨s, rc, os, hf⟩
  · exact .inl fun b hb => by simp only [hf b hb, Option.bind_none]
  · by_cases h0 : 0 ∈ s
    · refine .inl fun b hb => ?_
      obtain ⟨b', -, hs⟩ := hf b hb
      exact absurd h0 (cstr_eq_some hs).1
    · rcases hg s rc os h0 with hg | ⟨s', rc', os', hg⟩
      · refine .inl fun b hb => ?_
        obtain ⟨b', hb', hs⟩ := hf b hb
        simp only [hb', Option.bind_some, hg b' hs]
      · refine .inr ⟨s', rc', os', fun b hb => ?_⟩
        obtain ⟨b', hb', hs⟩ := hf b hb
        simpa only [hb', Option.bind_some] using hg b' hs

theorem Settles.congr {P : Buf k → Prop} {f g : Buf k → Option (Buf k × CInt × OS)}
    (h : Settles P g) (hfg : ∀ b, P b → f b = g b) : Settles P f := by
  rcases h with h | ⟨s, rc, os, h⟩
  · exact .inl fun b hb => by rw [hfg b hb, h b hb]
  · exact .inr ⟨s, rc, os, fun b hb => by rw [hfg b hb]; exact h b hb⟩

theorem settles_self (s : List Byte) (rc : CInt) (os : OS) :
    Settles (fun b : Buf k => cstr b.val = some s) (fun b => some (b, rc, os)) :=
  .inr ⟨s, rc, os, fun b hb => ⟨b, rfl, hb⟩⟩

theorem linkNext_settles {left : Nat} (ih : ∀ (s : List Byte) (hasDel : Bool) (os : OS), 0 ∉ s →
    Settles (fun b : Buf k => cstr b.val = some s)
      (fun b => sys.followLinks left s true hasDel b os))
    (s : List Byte) (rc : CInt) (os : OS) (h0 : 0 ∉ s) :
    Settles (fun b : Buf k => cstr b.val = some s) (fun b =>
      if rc = sqliteOk then (cstr b.val).bind fun s => sys.followLinks left s true true b os
      else some (b, rc, os)) := by
  by_cases hrc : rc = sqliteOk
  · simp only [if_pos hrc]
    exact (ih s true os h0).congr fun b hb => by rw [hb, Option.bind_some]
  · simp only [if_neg hrc]
    exact settles_self s rc os

theorem followLinks_settles (left : Nat) : ∀ (s : List Byte) (hasDel : Bool) (os : OS), 0 ∉ s →
    Settles (fun b : Buf k => cstr b.val = some s)
      (fun b => sys.followLinks left s true hasDel b os) := by
  induction left with
  | zero =>
    intro s hasDel os h0
    rcases hlstat : sys.osLstat s os with ⟨l, os₁⟩
    simp only [followLinks, hlstat]
    cases l <;> exact settles_self s _ os₁
  | succ left ih =>
    intro s hasDel os h0
    rcases hlstat : sys.osLstat s os with ⟨l, os₁⟩
    cases l with
    | link =>
      rcases hread : sys.followLink s hasDel k os₁ with ⟨r, os₂⟩
      cases r with
      | error rc =>
        unfold followLinks
        simp only [hlstat, hread]
        exact settles_self s rc os₂
      | ok zDel =>
        simp only [followLinks_link hlstat hread]
        cases hcwd : sys.noCwd zDel k os₂ with
        | false =>
          have hmk := mkFullPathname_settles (followLink_ok h0 hread) hcwd
          exact (hmk.mono fun _ _ => trivial).andThen (linkNext_settles ih)
        | true =>
          obtain ⟨os₃, hmk⟩ := mkFullPathname_noCwd (k := k) hcwd
          simp only [hmk, Option.bind_some]
          exact settles_self s sqliteCantopen os₃
    | other | enoent | failed =>
      unfold followLinks
      simp only [hlstat]
      exact settles_self s _ os₁

theorem unixFullPathname_settles {zPath : List Byte} (hp : 0 ∉ zPath) {os : OS}
    (h : sys.failsUnwritten zPath k os = false) :
    Settles (fun _ : Buf k => True) (fun b => sys.unixFullPathname zPath b os) := by
  unfold unixFullPathname
  unfold failsUnwritten at h
  by_cases hlinks : sys.haveReadlink
  · simp only [if_pos hlinks] at h ⊢
    rcases hlstat : sys.osLstat zPath os with ⟨l, os₁⟩
    rw [hlstat] at h
    cases l with
    | failed => cases h
    | enoent | other =>
      unfold followLinks
      simp only [hlstat]
      exact mkFullPathname_settles hp h
    | link =>
      rcases hread : sys.followLink zPath false k os₁ with ⟨r, os₂⟩
      dsimp only at h
      rw [hread] at h
      cases r with
      | error rc => cases h
      | ok zDel =>
        simp only [sqliteMaxSymlinks, followLinks_link hlstat hread]
        have hmk := mkFullPathname_settles (followLink_ok hp hread) h
        exact hmk.andThen (linkNext_settles (followLinks_settles 99))
  · simp only [if_neg hlinks] at h ⊢
    exact mkFullPathname_settles hp h

/-- And if one does, the buffer stays. -/
theorem unixFullPathname_unwritten {zPath : List Byte} {os : OS}
    (h : sys.failsUnwritten zPath k os = true) :
    ∃ rc os', ∀ b : Buf k, sys.unixFullPathname zPath b os = some (b, rc, os') := by
  unfold unixFullPathname
  unfold failsUnwritten at h
  by_cases hlinks : sys.haveReadlink
  · simp only [if_pos hlinks] at h ⊢
    rcases hlstat : sys.osLstat zPath os with ⟨l, os₁⟩
    rw [hlstat] at h
    cases l with
    | failed =>
      unfold followLinks
      simp only [hlstat]
      exact ⟨_, _, fun _ => rfl⟩
    | enoent | other =>
      unfold followLinks
      simp only [hlstat]
      obtain ⟨os₂, hmk⟩ := mkFullPathname_noCwd (k := k) h
      exact ⟨_, os₂, hmk⟩
    | link =>
      rcases hread : sys.followLink zPath false k os₁ with ⟨r, os₂⟩
      dsimp only at h
      rw [hread] at h
      cases r with
      | error rc =>
        unfold followLinks
        simp only [hlstat, sqliteMaxSymlinks, hread]
        exact ⟨_, _, fun _ => rfl⟩
      | ok zDel =>
        obtain ⟨os₃, hmk⟩ := mkFullPathname_noCwd (k := k) h
        simp only [sqliteMaxSymlinks, followLinks_link hlstat hread, hmk]
        exact ⟨_, os₃, fun _ => rfl⟩
  · simp only [if_neg hlinks] at h ⊢
    obtain ⟨os', hmk⟩ := mkFullPathname_noCwd (k := k) h
    exact ⟨_, os', hmk⟩

end PathCalls

/-! ## Across the wire -/

section Wire

variable {OS : Type} (sys : PathCalls OS) (env : Env OS)

/-- On the server, `unixFullPathname` is the one above, where that is defined. -/
def UnixFns.FullPathnames (fns : UnixFns OS) (sys : PathCalls OS) : Prop :=
  ∀ (k : Nat) (zPath : List Byte) (zOut : Buf k) (os : OS) (r : Buf k × CInt × OS),
    sys.unixFullPathname zPath zOut os = some r → fns.unixFullPathname zPath zOut os = r

/-- The RPC of a path name, with what the memory of the server holds. -/
def rpcFullPathname (garbage out : Nat → Byte) (s : Server OS) {n m : Nat} (argIn : Buf n) :
    Option (Buf m) :=
  (serve env.fns env.addresses garbage .fullPathname argIn (Buf.uninit out m) s).map (·.1)

/-- The call goes through with two messages of `nOut + 4` bytes, the server resolves the
string, and the caller has the code and the string of a local call. -/
def FullPathnameFaithful (zPath : List Byte) (nOut : CInt) (s : Server OS) : Prop :=
  sizeT (getFullPathnameArgLen nOut) = sizeT nOut + 4 ∧
  ∀ (stack garbage out : Nat → Byte) (zOut : Buf (sizeT nOut)), cstr zOut.val = some [] →
    ∃ argIn : Buf (sizeT (getFullPathnameArgLen nOut)),
      unixFullPathnameConvertArgInToChar (Buf.ofObject (zPath ++ [0])) nOut (Buf.zeros _) =
        some argIn ∧
      (∃ path, unixFullPathnameConvertCharToArgIn argIn (Buf.uninit garbage (sizeT nOut)) =
        some (path, nOut) ∧ cstr path.val = some zPath) ∧
      ∀ zOut₁ rc os', sys.unixFullPathname zPath zOut s.os = some (zOut₁, rc, os') →
        ∃ (outarg : Buf (sizeT (getFullPathnameReturnLen nOut))) (zOut₂ : List Byte),
          serve env.fns env.addresses garbage .fullPathname argIn (Buf.uninit out _) s =
            some (outarg, { s with os := os' }) ∧
          remoteFullPathname stack (zPath ++ [0]) nOut zOut.val
            (rpcFullPathname env garbage out s) = some (zOut₂, rc) ∧
          cstr zOut₂ = cstr zOut₁.val

variable {sys env} {n m : Nat} {zPath : List Byte} {nOut : CInt}

theorem fullPathname_request (h0 : 0 ∉ zPath) (hN : sizeT nOut = zPath.length + 1)
    (hn : n = sizeT nOut + 4) (garbage : Nat → Byte) :
    ∃ argIn : Buf n, unixFullPathnameConvertArgInToChar
        (Buf.ofObject (zPath ++ [0])) nOut (Buf.zeros n) = some argIn ∧
      getFullPathnameOutLen argIn = some nOut ∧
      ∃ path, unixFullPathnameConvertCharToArgIn argIn (Buf.uninit garbage (sizeT nOut)) =
        some (path, nOut) ∧ cstr path.val = some zPath := by
  have hlen : (zPath ++ [0]).length = zPath.length + 1 := by simp
  have hread : (Buf.ofObject (zPath ++ [0])).read 0 (sizeT nOut) = some (zPath ++ [0]) := by
    rw [Buf.read_eq _ (by simp [hN])]
    simp [Buf.slice, Buf.ofObject, hN]
  set b := (Buf.zeros n).splice 0 (toBytes nOut) with hb
  have hput : (Buf.zeros n).put 0 nOut = some b := Buf.put_eq _ _ (by rw [sizeof_word32]; omega)
  have hwrite : b.write (sizeof CInt) (zPath ++ [0]) = some (b.splice 4 (zPath ++ [0])) :=
    Buf.write_eq _ (by rw [sizeof_word32]; omega)
  have hout : getFullPathnameOutLen (b.splice 4 (zPath ++ [0])) = some nOut := by
    rw [getFullPathnameOutLen, Buf.get_eq _ (by rw [sizeof_word32]; omega),
      Buf.slice_splice_of_disjoint b _ (by simp), hb,
      Buf.slice_splice _ _ (by simp) (by rw [sizeof_word32]; omega), CType.ofBytes_toBytes]
  have hcstr : cstr ((b.splice 4 (zPath ++ [0])).val.drop 4) = some zPath := by
    have hslice := Buf.slice_splice b (zPath ++ [0]) hlen (by omega : 4 + (zPath.length + 1) ≤ n)
    rw [Buf.slice] at hslice
    exact (cstr_take.mp ((congrArg cstr hslice).trans (cstr_append zPath [] h0))).1
  refine ⟨b.splice 4 (zPath ++ [0]), ?_, hout,
    (Buf.uninit garbage (sizeT nOut)).splice 0 (zPath ++ [0]), ?_, Buf.cstr_splice _ h0 (by omega)⟩
  · rw [unixFullPathnameConvertArgInToChar, hput, hread]
    exact hwrite
  · rw [unixFullPathnameConvertCharToArgIn, hout, Option.bind_eq_bind, Option.bind_some,
      sizeof_word32, Buf.strcpy_eq _ hcstr (by omega)]
    rfl

theorem fullPathname_reply {str : List Byte} {zOut : Buf (sizeT nOut)} (rc : CInt) (out : Buf n)
    (dst : Buf m) (hs : cstr zOut.val = some str) (hn : n = sizeT nOut + 4)
    (hm : sizeT nOut ≤ m) :
    ∃ outarg dst', unixFullPathnameConvertReturnToChar nOut zOut rc out = some outarg ∧
      unixFullPathnameConvertCharToReturn outarg nOut dst = some (dst', rc) ∧
      cstr dst'.val = some str := by
  have h0 := (cstr_eq_some hs).1
  have hlen := Buf.length_of_cstr hs
  set b := out.splice 0 (str ++ [0]) with hb
  have hstr : (b.splice (sizeT nOut) (toBytes rc)).slice 0 (str.length + 1) = str ++ [0] := by
    rw [Buf.slice_splice_of_disjoint b _ (by omega), hb,
      Buf.slice_splice out _ (by simp) (by omega)]
  have hread : (b.splice (sizeT nOut) (toBytes rc)).read 0 (sizeT nOut) = _ :=
    Buf.read_eq _ (by omega)
  have hN := Buf.slice_length (b.splice (sizeT nOut) (toBytes rc)) 0 (sizeT nOut) (by omega)
  refine ⟨b.splice (sizeT nOut) (toBytes rc),
    dst.splice 0 ((b.splice (sizeT nOut) (toBytes rc)).slice 0 (sizeT nOut)), ?_, ?_, ?_⟩
  · rw [unixFullPathnameConvertReturnToChar, Buf.strcpy_eq out hs (by omega)]
    exact Buf.put_eq b rc (by rw [sizeof_word32]; omega)
  · rw [unixFullPathnameConvertCharToReturn, hread, Option.bind_eq_bind, Option.bind_some,
      Buf.write_eq dst (by rw [hN]; omega), Option.bind_eq_bind, Option.bind_some,
      Buf.get_eq _ (by rw [sizeof_word32]; omega),
      Buf.slice_splice b _ (by simp) (by rw [sizeof_word32]; omega), CType.ofBytes_toBytes]
    rfl
  · refine Buf.cstr_of_slice _ str h0 ?_
    rw [Buf.slice_splice_prefix dst _ (by omega) (by omega), Buf.slice, List.drop_zero,
      List.take_take, min_eq_left hlen]
    simpa [Buf.slice] using hstr

theorem serve_fullPathname {fns : UnixFns OS} (A : Addresses) {garbage : Nat → Byte}
    {argIn : Buf n} (out : Buf m) (s : Server OS) {path zOut : Buf (sizeT nOut)} {rc : CInt}
    {os : OS} (hn : 0 ≤ nOut.toInt) (hout : getFullPathnameOutLen argIn = some nOut)
    (hpath : unixFullPathnameConvertCharToArgIn argIn (Buf.uninit garbage (sizeT nOut)) =
      some (path, nOut)) (hz : cstr path.val = some zPath)
    (hfns : fns.unixFullPathname zPath
      (Buf.uninit (fun i => garbage (sizeT nOut + i)) (sizeT nOut)) s.os = (zOut, rc, os)) :
    serve fns A garbage .fullPathname argIn out s =
      (unixFullPathnameConvertReturnToChar nOut zOut rc out).map (·, { s with os := os }) := by
  rw [serve, wrapFullPathname, hout]
  simp only [Option.bind_eq_bind, Option.bind_some, not_lt.mpr hn, if_false, hpath, hz, hfns]
  cases unixFullPathnameConvertReturnToChar nOut zOut rc out <;> rfl

theorem fullPathname_faithful (hfns : env.fns.FullPathnames sys) (h0 : 0 ∉ zPath)
    (s : Server OS) (hlen : nOut.toInt = zPath.length + 1) (hover : nOut.toInt + 4 < 2 ^ 31)
    (hwritten : sys.failsUnwritten zPath (sizeT nOut) s.os = false) :
    FullPathnameFaithful sys env zPath nOut s := by
  have hN : sizeT nOut = zPath.length + 1 := by rw [sizeT_of_nonneg nOut (by omega)]; omega
  have hfits : FullPathnameFits (zPath ++ [0]) nOut (zPath ++ [0]) :=
    ⟨by omega, hover, by simp; omega, by simp; omega⟩
  have hM : sizeT (getFullPathnameArgLen nOut) = sizeT nOut + 4 := by
    rw [hfits.sizeT_argLen, sizeT_of_nonneg nOut (by omega)]
  refine ⟨hM, fun stack garbage out zOut hempty => ?_⟩
  obtain ⟨argIn, hargIn, hout, path, hpath, hz⟩ := fullPathname_request h0 hN hM garbage
  refine ⟨argIn, hargIn, ⟨path, hpath, hz⟩, fun zOut₁ rc os' hlocal => ?_⟩
  rcases PathCalls.unixFullPathname_settles h0 hwritten with hnone | ⟨str, rc', os₁, hsettles⟩
  · cases (hnone zOut trivial).symm.trans hlocal
  obtain ⟨b, hb, hstr⟩ := hsettles zOut trivial
  obtain ⟨zOut', hzOut', hstr'⟩ :=
    hsettles (Buf.uninit (fun i => garbage (sizeT nOut + i)) (sizeT nOut)) trivial
  obtain ⟨rfl, rfl, rfl⟩ : b = zOut₁ ∧ rc' = rc ∧ os₁ = os' := by
    simpa using hb.symm.trans hlocal
  obtain ⟨outarg, zOut₂, hret, hback, hstr₂⟩ := fullPathname_reply rc'
    (Buf.uninit out (sizeT (getFullPathnameReturnLen nOut))) (Buf.ofObject zOut.val) hstr' hM
    zOut.property.ge
  have hserve := serve_fullPathname env.addresses
    (Buf.uninit out (sizeT (getFullPathnameReturnLen nOut))) s hfits.nonneg hout hpath hz
    (hfns _ _ _ _ _ hzOut')
  rw [hret, Option.map_some] at hserve
  refine ⟨outarg, zOut₂.val, hserve, ?_, hstr₂.trans hstr.symm⟩
  have harg := hfits.argLen
  rw [remoteFullPathname]
  dsimp only
  rw [if_neg (by omega), hargIn, Option.bind_eq_bind, Option.bind_some, rpcFullPathname, hserve,
    Option.map_some, Option.getD_some, hback]
  rfl

theorem fullPathname_no_overflow (hn : 1 ≤ nOut.toInt)
    (h : sizeT (getFullPathnameArgLen nOut) = sizeT nOut + 4) : nOut.toInt + 4 < 2 ^ 31 := by
  have hlt : nOut.toInt < 2 ^ 31 := BitVec.toInt_lt
  rw [sizeT_of_nonneg nOut (by omega)] at h
  by_cases hneg : (getFullPathnameArgLen nOut).toInt < 0
  · have := sizeT_of_neg hneg
    omega
  · have hlt' : (getFullPathnameArgLen nOut).toInt < 2 ^ 31 := BitVec.toInt_lt
    rw [sizeT_of_nonneg _ (not_lt.mp hneg)] at h
    omega

theorem fullPathname_request_le {zPath : List Byte} {arg argIn : Buf n}
    (h : unixFullPathnameConvertArgInToChar (Buf.ofObject zPath) nOut arg = some argIn) :
    sizeT nOut ≤ zPath.length := by
  obtain ⟨b, -, h⟩ := Option.bind_eq_some_iff.mp h
  obtain ⟨data, hdata, -⟩ := Option.bind_eq_some_iff.mp h
  simpa using (Buf.read_eq_some hdata).1

theorem fullPathname_decoded_outLen {argIn : Buf n} {b path : Buf m}
    (h : unixFullPathnameConvertCharToArgIn argIn b = some (path, nOut)) :
    getFullPathnameOutLen argIn = some nOut := by
  obtain ⟨nOut', hout, h⟩ := Option.bind_eq_some_iff.mp h
  obtain ⟨path', -, h⟩ := Option.bind_eq_some_iff.mp h
  cases h
  exact hout

theorem fullPathname_needs (hfns : env.fns.FullPathnames sys) {s : Server OS}
    (hn : 1 ≤ nOut.toInt) (h : FullPathnameFaithful sys env zPath nOut s) :
    nOut.toInt = zPath.length + 1 ∧ nOut.toInt + 4 < 2 ^ 31 ∧
      sys.failsUnwritten zPath (sizeT nOut) s.os = false := by
  obtain ⟨hM, h⟩ := h
  have hN := sizeT_of_nonneg nOut (by omega)
  have hempty : cstr (Buf.zeros (sizeT nOut)).val = some [] := by
    obtain ⟨k, hk⟩ : ∃ k, sizeT nOut = k + 1 := ⟨sizeT nOut - 1, by omega⟩
    simp [Buf.zeros, hk, List.replicate_succ, cstr]
  obtain ⟨argIn, hargIn, ⟨path, hpath, hz⟩, hlocal⟩ :=
    h (fun _ => 0) (fun _ => 1) (fun _ => 0) _ hempty
  have hread := fullPathname_request_le hargIn
  have hroom := Buf.length_of_cstr hz
  rw [List.length_append, List.length_singleton] at hread
  refine ⟨by omega, fullPathname_no_overflow hn hM, ?_⟩
  rw [Bool.eq_false_iff]
  intro hunwritten
  obtain ⟨rc, os', hsame⟩ := PathCalls.unixFullPathname_unwritten (k := sizeT nOut) hunwritten
  obtain ⟨outarg, -, hserve, -⟩ := hlocal _ rc os' (hsame _)
  rw [serve_fullPathname env.addresses _ s (by omega) (fullPathname_decoded_outLen hpath) hpath hz
    (hfns _ _ _ _ _ (hsame _)), Option.map_eq_some_iff] at hserve
  -- The buffer that nothing has written has no NUL to stop at.
  obtain ⟨outarg, hret, -⟩ := hserve
  obtain ⟨b, hb, -⟩ := Option.bind_eq_some_iff.mp hret
  rw [Buf.strcpy_eq_none] at hb
  · cases hb
  · exact fun hmem => Buf.zero_not_mem_ones _ (List.mem_of_mem_take hmem)

end Wire

/-! ## On a disk with one directory -/

namespace Disk

def paths : PathCalls Disk where
  haveReadlink := false
  osGetcwd size d := (if 2 ≤ size then some [slash] else none, d)
  osLstat _ d := (.enoent, d)
  osReadlink _ _ d := (none, d)
  sqlite3Malloc _ d := (true, d)
  getcwd_fits size os cwd os' h := by
    split at h
    · cases h
      exact ⟨by decide, by assumption, by decide⟩
    · cases h
  readlink_fits _ _ _ _ _ h := by cases h

def pathEnv : Env Disk :=
  { env with fns := { fns with
      unixFullPathname := fun zPath zOut d =>
        (paths.unixFullPathname zPath zOut d).getD (zOut, sqliteOk, d) } }

theorem fullPathnames : pathEnv.fns.FullPathnames paths :=
  fun _ _ _ _ _ h => Option.getD_eq_iff.mpr (.inl h)

end Disk

end RemoteVfs
