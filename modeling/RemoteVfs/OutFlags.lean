import RemoteVfs.Disk

/-!
# The output flags of Open

The message has one `int` for `*pOutFlags`, and -1 stands for NULL. The client's
encoder looks at the pointer, the server at the request, and the client's decoder at
the reply.
-/

open CMem

namespace RemoteVfs

variable {OS : Type} (fns : UnixFns OS) (A : Addresses) (zPath p : List Byte) (pFile : UnixFile)
  (flags : CInt) (pOutFlags : Option CInt) (s : Server OS)

/-- The `pOutFlags` that `WrapOpen` gives to `xOpen`. -/
def openPOutFlags {n : Nat} (garbage : Nat → Byte) (argIn : Buf n) : Option (Option CInt) :=
  (unixOpenConvertCharToArgIn argIn (Buf.uninit garbage 512)).map
    fun (_, _, _, outFlags) => if outFlags = -1 then none else some outFlags

/-- What is promised about `pOutFlags`. -/
structure OutFlagsFaithful : Prop where
  /-- The server's `xOpen` gets NULL exactly for NULL. -/
  null : ∀ garbage, ∃ argIn q,
    (remoteOpen A (some zPath) pFile flags pOutFlags).argInChar = some argIn ∧
    openPOutFlags garbage argIn = some q ∧ (q = none ↔ pOutFlags = none)
  /-- The client has what a direct call leaves there, with the flags that `WrapOpen` and
  `sqlite3OsOpen` let through. -/
  value : ∀ garbage (out : Buf (Op.returnSize .open_)), ∃ argIn outarg s' id rc,
    (remoteOpen A (some zPath) pFile flags pOutFlags).argInChar = some argIn ∧
    wrapOpen fns A garbage argIn out s = some (outarg, s') ∧
    (remoteOpen A (some zPath) pFile flags pOutFlags).charToReturn outarg =
      some (id, (openOn fns pFile p flags pOutFlags s.os).flagsOut pOutFlags, rc)
  /-- Nothing is stored through NULL, whatever the reply is. -/
  no_store : pOutFlags = none → ∀ outarg,
    (remoteOpen A (some zPath) pFile flags pOutFlags).charToReturn outarg ≠ none

variable {fns A zPath p s} (hz : cstr zPath = some p) (hp : p.length ≤ 511)
include hz hp

variable (A) in
theorem openPOutFlags_sent (garbage : Nat → Byte) : ∃ argIn,
    (remoteOpen A (some zPath) pFile flags pOutFlags).argInChar = some argIn ∧
    openPOutFlags garbage argIn =
      some (if pOutFlags.getD (-1) = -1 then none else some (pOutFlags.getD (-1))) := by
  obtain ⟨argIn, hargIn, hdec⟩ := Option.bind_eq_some_iff.mp
    (unixOpen_request hz hp pFile flags pOutFlags (Buf.zeros (Op.argInSize .open_)) (by decide)
      (Buf.uninit garbage 512))
  exact ⟨argIn, hargIn, by rw [openPOutFlags, hdec, Option.map_some]⟩

variable (fns A) in
theorem outFlags_returned (hv : s.table.Valid) {old : CInt} (hold : old ≠ -1)
    (garbage : Nat → Byte) (out : Buf (Op.returnSize .open_)) : ∃ argIn outarg s' id rc,
      (remoteOpen A (some zPath) pFile flags (some old)).argInChar = some argIn ∧
      wrapOpen fns A garbage argIn out s = some (outarg, s') ∧
      (remoteOpen A (some zPath) pFile flags (some old)).charToReturn outarg =
        some (id, some (if (openOn fns pFile p flags (some old) s.os).outFlags.getD old = -1
          then old else (openOn fns pFile p flags (some old) s.os).outFlags.getD old), rc) := by
  have h0 := (cstr_eq_some hz).1
  let r := openOn fns pFile p flags (some old) s.os
  obtain ⟨t', -, -, -, hwrap⟩ := wrapOpen_decoded fns A (m := Op.returnSize .open_)
    (n := Op.argInSize .open_) hv h0 hp r
  obtain ⟨argIn, hargIn, hdec⟩ := Option.bind_eq_some_iff.mp
    (unixOpen_request hz hp pFile flags (some old) (Buf.zeros (Op.argInSize .open_)) (by decide)
      (Buf.uninit garbage 512))
  have hpath := Buf.cstr_splice (Buf.uninit garbage 512) h0 (Nat.succ_le_succ hp)
  have hr : openOn fns pFile p flags
      (if (some old).getD (-1) = -1 then none else some ((some old).getD (-1))) s.os = r := by
    rw [Option.getD_some, if_neg hold]
  have hserve := hwrap garbage argIn _ pFile flags _ hdec hpath hr out
  rw [Option.getD_some, if_neg hold] at hserve
  obtain ⟨outarg, hout, hread⟩ := Option.bind_eq_some_iff.mp
    (unixOpen_reply A (r.file A) (r.outFlags.getD old) r.rc out (by decide) (some old) (.inr rfl))
  rw [hout, Option.map_some] at hserve
  refine ⟨argIn, outarg, ⟨t', r.os⟩, setClientRemotePMethods A (r.file A), r.rc, hargIn, hserve,
    hread.trans ?_⟩
  rw [← apply_ite some]

variable (fns A) in
/-- The flags are transmitted exactly when there is a value to transmit, and it is never
the one that stands for NULL. -/
theorem outFlagsFaithful_iff (hv : s.table.Valid) :
    OutFlagsFaithful fns A zPath p pFile flags pOutFlags s ↔
      ∃ old, pOutFlags = some old ∧ old ≠ -1 ∧
        (openOn fns pFile p flags pOutFlags s.os).outFlags ≠ some (-1) := by
  constructor
  · intro h
    obtain ⟨argIn, q, hargIn, hq, hnull⟩ := h.null fun _ => 0
    obtain ⟨argIn', hargIn', hsent⟩ :=
      openPOutFlags_sent A pFile flags pOutFlags hz hp fun _ => 0
    obtain rfl := Option.some.inj (hargIn.symm.trans hargIn')
    obtain rfl := Option.some.inj (hq.symm.trans hsent)
    cases pOutFlags with
    | none => exact absurd rfl (h.no_store rfl (Buf.zeros _))
    | some old =>
      have hold : old ≠ -1 := by
        rintro rfl
        exact absurd (hnull.mp rfl) (by simp)
      refine ⟨old, rfl, hold, fun hneg => ?_⟩
      obtain ⟨argIn₁, outarg₁, s₁, id₁, rc₁, harg₁, hserve₁, hret₁⟩ :=
        h.value (fun _ => 0) (Buf.zeros _)
      obtain ⟨argIn₂, outarg₂, s₂, id₂, rc₂, harg₂, hserve₂, hret₂⟩ :=
        outFlags_returned fns A pFile flags hz hp hv hold (fun _ => 0) (Buf.zeros _)
      obtain rfl := Option.some.inj (harg₁.symm.trans harg₂)
      obtain ⟨rfl, -⟩ := Prod.mk.inj (Option.some.inj (hserve₁.symm.trans hserve₂))
      have hflags := congrArg (fun r => r.2.1) (Option.some.inj (hret₁.symm.trans hret₂))
      simp only [Opened.flagsOut, Option.map_some, hneg, Option.getD_some, if_true,
        Option.some.injEq] at hflags
      exact hold hflags.symm
  · rintro ⟨old, rfl, hold, hout⟩
    refine ⟨fun garbage => ?_, fun garbage out => ?_, fun h => ?_⟩
    · obtain ⟨argIn, hargIn, hsent⟩ :=
        openPOutFlags_sent A pFile flags (some old) hz hp garbage
      rw [Option.getD_some, if_neg hold] at hsent
      exact ⟨argIn, _, hargIn, hsent, by simp⟩
    · obtain ⟨argIn, outarg, s', id, rc, hargIn, hserve, hret⟩ :=
        outFlags_returned fns A pFile flags hz hp hv hold garbage out
      refine ⟨argIn, outarg, s', id, rc, hargIn, hserve, hret.trans ?_⟩
      have hne : (openOn fns pFile p flags (some old) s.os).outFlags.getD old ≠ -1 := by
        cases hr : (openOn fns pFile p flags (some old) s.os).outFlags with
        | none => exact hold
        | some new => exact fun h => hout (hr.trans (congrArg some h))
      rw [if_neg hne, Opened.flagsOut, Option.map_some]
    · cases h

omit hz hp

theorem outFlagsFaithful_iff_open :
    OutFlagsFaithful Disk.fns Addresses.flat [97, 0] [97] UnixFile.zero 0x106 (some 7)
      ⟨Disk.table, ⟨[], 3⟩⟩ :=
  (outFlagsFaithful_iff Disk.fns Addresses.flat UnixFile.zero 0x106 (some 7) (by decide)
    (by decide) (.inl rfl)).mpr ⟨7, rfl, by decide, by decide⟩

/-- The caller's variable happens to hold -1. -/
theorem outFlags_lost :
    ¬ OutFlagsFaithful Disk.fns Addresses.flat [97, 0] [97] UnixFile.zero 0x106 (some (-1))
      ⟨Disk.table, ⟨[], 3⟩⟩ := by
  intro h
  obtain ⟨argIn, q, hargIn, hq, hnull⟩ := h.null fun _ => 0
  obtain ⟨argIn', hargIn', hsent⟩ := openPOutFlags_sent Addresses.flat UnixFile.zero 0x106
    (some (-1)) (by decide : cstr [97, 0] = some [97]) (by decide) fun _ => 0
  obtain rfl := Option.some.inj (hargIn.symm.trans hargIn')
  obtain rfl := Option.some.inj (hq.symm.trans hsent)
  exact absurd (hnull.mp rfl) (by simp)

end RemoteVfs
