import RemoteVfs.Process.Opening

/-!
# Every state that a process can come to
-/

open CMem Locking Posix

namespace RemoteVfs

open LockCalls

namespace Process

variable {H F : Type} [DecidableEq F] [Fintype H] [DecidableEq H] {s s' : Process H F} {h : H}
  {image : UnixFile} {a : Ptr} {f : F} {pVfs : Vfs} {ω : Answers F} {r : Action H}
  {outcome : Outcome}

omit [DecidableEq H] in
theorem start_inv : (start : Process H F).Inv := by
  refine ⟨⟨?_, ?_, nofun, nofun, fun _ => trivial, nofun, fun fd => ?_, fun p => ?_, fun p => ?_⟩,
    ⟨nofun, nofun, trivial⟩, nofun⟩
  · exact List.nodup_nil
  · exact List.nodup_nil
  · exact Finset.sum_const_zero
  · exact (Finset.sum_const_zero (M := Nat)).trans_le (Nat.zero_le 1)
  · exact fun hp => absurd Finset.sum_const_zero hp

omit [Fintype H] [DecidableEq H] in
theorem osGetlk_cases (ω : Answers F) (fd : Fd) (lock : Flock) (m : Memory F) :
    ∃ err locked answer, UnixOpen.osGetlk ω fd lock m =
      (err, locked, m.did (.getlk fd (lock.type.mode.getD .write) lock.range answer)) ∧
        (err = none → answer = .ok locked) := by
  unfold UnixOpen.osGetlk
  dsimp only
  split
  · next errno _ => exact ⟨some errno, false, _, rfl, nofun⟩
  · next locked heq => exact ⟨none, locked, _, rfl, fun _ => heq⟩

omit [Fintype H] [DecidableEq H] in
theorem unixCheckReservedLock_cases {os os' : LockOs (Memory F)} {g : UnixFile} {resOut rc : CInt}
    (hexcl : (os.inode image.pInode).bProcessLock = 0)
    (hcheck : (UnixOpen.calls ω).unixCheckReservedLock image os = some (g, (resOut, rc), os')) :
    (1 < (os.inode image.pInode).eFileLock ∧ g = image ∧ resOut = 1 ∧ rc = sqliteOk ∧ os' = os) ∨
      ¬ 1 < (os.inode image.pInode).eFileLock ∧ ∃ answer m, os' = { os with rest := m } ∧
        m = os.rest.did (.getlk image.h .write (⟨.wrlck, reservedByte, 1⟩ : Flock).range answer) ∧
        ((∃ err, g = storeLastErrno image err ∧ rc = sqliteIoerrCheckReservedLock) ∨
          ∃ locked, answer = .ok locked ∧ g = image ∧ resOut = (if locked then 1 else 0) ∧
            rc = sqliteOk) := by
  have hsys : (UnixOpen.calls ω).osGetlk = UnixOpen.osGetlk ω := rfl
  obtain ⟨err, locked, answer, hgetlk, hanswer⟩ :=
    osGetlk_cases ω image.h ⟨.wrlck, reservedByte, 1⟩ os.rest
  simp only [unixCheckReservedLock, hsys, hgetlk, hexcl, if_true] at hcheck
  split at hcheck
  · cases hcheck
  · split at hcheck
    · next htop =>
      cases hcheck
      exact .inl ⟨htop, rfl, rfl, rfl, rfl⟩
    · next htop =>
      refine .inr ⟨htop, answer, ?_⟩
      cases err with
      | some err =>
        cases hcheck
        exact ⟨_, rfl, rfl, .inl ⟨err, rfl, rfl⟩⟩
      | none =>
        cases hcheck
        exact ⟨_, rfl, rfl, .inr ⟨locked, hanswer rfl, rfl, rfl, rfl⟩⟩

theorem Inv.checkReservedLock (hs : s.Inv) (hslot : s.slot h = .opened image .posix)
    {g : UnixFile} {resOut rc : CInt} {os' : LockOs (Memory F)}
    (hcheck : (UnixOpen.calls ω).unixCheckReservedLock image s.os = some (g, (resOut, rc), os')) :
    Process.Inv ⟨os', Function.update s.slot h (.opened g .posix)⟩ := by
  obtain ⟨f, hloc⟩ := hslot ▸ hs.shape.fits h
  rcases unixCheckReservedLock_cases (hs.live _ f hloc.listed).2 hcheck with
    ⟨-, rfl, -, -, rfl⟩ | ⟨-, answer, m, rfl, rfl, hcases⟩
  · exact hs.relabel hslot ⟨rfl, rfl, rfl, rfl, .rfl⟩
  · have hquiet : Quiet s.os.rest (s.os.rest.did
      (.getlk image.h .write (⟨.wrlck, reservedByte, 1⟩ : Flock).range answer)) := .did rfl trivial
    rcases hcases with ⟨err, rfl, -⟩ | ⟨locked, -, rfl, -, -⟩
    · exact (hs.quiet hquiet).relabel hslot ⟨rfl, rfl, rfl, rfl, .rfl⟩
    · exact (hs.quiet hquiet).relabel hslot ⟨rfl, rfl, rfl, rfl, .rfl⟩

theorem Inv.step (hs : s.Inv) (hfstat : ∀ log, ω.fstat log = none) (hexcl : pVfs.excl = false)
    (hr : s.Permits r) (hstep : s.step pVfs ω r = some (s', outcome)) : s'.Inv := by
  cases r with
  | open_ h zPath flags =>
    rw [Process.step] at hstep
    split at hstep
    · next hfresh =>
      cases hstep
      exact (unixOpen_opened hs ω pVfs hfresh zPath flags hfstat hexcl).inv
    · cases hstep
  | close h =>
    rw [Process.step] at hstep
    split at hstep
    · next image style hslot =>
      obtain ⟨⟨g, rc, os'⟩, hclose, heq⟩ := Option.bind_eq_some_iff.mp hstep
      cases heq
      cases style with
      | posix => exact hs.unixClose hslot ω hclose
      | nolock =>
        rw [closeBy] at hclose
        obtain ⟨⟨rc', os''⟩, hclose, heq⟩ := Option.map_eq_some_iff.mp hclose
        cases heq
        exact hs.nolockClose hslot ω (hr image hslot) hclose
    · cases hstep
  | lock h eFileLock =>
    rw [Process.step] at hstep
    split at hstep
    · next image style hslot =>
      obtain ⟨⟨g, rc, os'⟩, hlock, heq⟩ := Option.bind_eq_some_iff.mp hstep
      cases heq
      cases style with
      | posix => exact hs.unixLock hslot ω (hr image hslot) hlock
      | nolock =>
        cases hlock
        exact hs.relabel hslot ⟨rfl, rfl, rfl, rfl, .rfl⟩
    · cases hstep
  | unlock h eFileLock =>
    rw [Process.step] at hstep
    split at hstep
    · next image style hslot =>
      obtain ⟨⟨g, rc, os'⟩, hunlock, heq⟩ := Option.bind_eq_some_iff.mp hstep
      cases heq
      cases style with
      | posix => exact hs.posixUnlock hslot ω hr hunlock
      | nolock =>
        cases hunlock
        exact hs.relabel hslot ⟨rfl, rfl, rfl, rfl, .rfl⟩
    · cases hstep
  | checkReservedLock h =>
    rw [Process.step] at hstep
    split at hstep
    · next image style hslot =>
      obtain ⟨⟨g, ret, os'⟩, hcheck, heq⟩ := Option.bind_eq_some_iff.mp hstep
      cases heq
      cases style with
      | posix => exact hs.checkReservedLock hslot hcheck
      | nolock =>
        cases hcheck
        exact hs.relabel hslot ⟨rfl, rfl, rfl, rfl, .rfl⟩
    · cases hstep
  | data h image writes =>
    rw [Process.step] at hstep
    split at hstep
    · next old style hslot =>
      split at hstep
      · next hsame =>
        cases hstep
        have hquiet : Quiet s.os.rest (s.os.rest.did (.data old.h writes)) := .did rfl trivial
        exact (hs.quiet hquiet).relabel hslot hsame
      · cases hstep
    · cases hstep

theorem Reaches.inv (hs : Reaches pVfs ω s) (hfstat : ∀ log, ω.fstat log = none)
    (hexcl : pVfs.excl = false) : s.Inv := by
  obtain ⟨rs, hok, hrun⟩ := hs
  refine Runs.invariant_of_allowed (fun s r s' hs hr hnext => ?_) hok start_inv hrun
  obtain ⟨⟨s', outcome⟩, hstep, rfl⟩ := Option.map_eq_some_iff.mp hnext
  exact hs.step hfstat hexcl hr hstep

end Process

end RemoteVfs
