import RemoteVfs.Process.Descriptors

/-!
# Several processes

The locks of SQLite are agreements between processes that know nothing of each other. Each of them
may be anywhere in a request of its own, and the kernel answers one system call after the other.
-/

open CMem Locking Posix

namespace RemoteVfs

open LockCalls

variable {P H F : Type} [DecidableEq F]

/-! ## Processes and a kernel -/

/-- A state that a process can come to, as long as `fstat` does not fail it. -/
def Process.Comes [DecidableEq H] (pVfs : Vfs) (s : Process H F) : Prop :=
  ∃ ω, (∀ log, ω.fstat log = none) ∧ Process.Reaches pVfs ω s

/-- A handle is on a file, and has this level there. -/
def Process.HasLevel (s : Process H F) (h : H) (f : F) (level : Nat) : Prop :=
  ∃ image w, s.slot h = .opened image .posix ∧ s.os.rest.own.fd image.h = some (f, w) ∧
    image.eFileLock.toNat = level

instance [DecidableEq H] (s : Process H F) (h : H) (f : F) (level : Nat) :
    Decidable (s.HasLevel h f level) :=
  match hslot : s.slot h with
  | .opened image .posix => decidable_of_iff
      ((s.os.rest.own.fd image.h).map Prod.fst = some f ∧ image.eFileLock.toNat = level) <| by
    constructor
    · rintro ⟨hfd, hlevel⟩
      obtain ⟨⟨f', w⟩, hsome, rfl⟩ := Option.map_eq_some_iff.mp hfd
      exact ⟨image, w, hslot, hsome, hlevel⟩
    · rintro ⟨image', w, hslot', hfd, hlevel⟩
      cases hslot.symm.trans hslot'
      exact ⟨by rw [hfd]; rfl, hlevel⟩
  | .opened _ .nolock => .isFalse fun ⟨_, _, hs, _⟩ => nomatch hslot.symm.trans hs
  | .fresh => .isFalse fun ⟨_, _, hs, _⟩ => nomatch hslot.symm.trans hs
  | .closed _ => .isFalse fun ⟨_, _, hs, _⟩ => nomatch hslot.symm.trans hs

/-- What has happened is what the processes have done. Each of them may be on the way to its
state. -/
structure Together [Fintype P] [DecidableEq P] [DecidableEq H] (pVfs : Vfs)
    (hist : List (P × Syscall F)) (k : Kernel P F) (S : P → Process H F) : Prop where
  history : ∃ k₀ : Kernel P F, k₀.Idle ∧ Happens k₀ hist k
  comes : ∀ p, (S p).Comes pVfs
  log : ∀ p, logOf p hist <:+ (S p).os.rest.log

/-- A process has come to its state. -/
def Rests [DecidableEq P] (hist : List (P × Syscall F)) (S : P → Process H F) (p : P) : Prop :=
  (S p).os.rest.log = logOf p hist

/-- A process does not write to the file itself, and the others write to it when they have it locked
EXCLUSIVE. -/
def WritesAlone [DecidableEq P] (H : Type) [DecidableEq H] (pVfs : Vfs) (p : P) (f : F)
    (hist new : List (P × Syscall F)) : Prop :=
  ∀ q fd w new₁, (q, Syscall.data fd true) :: new₁ <:+ new →
    (Own.of (logOf q (new₁ ++ hist))).fd fd = some (f, w) →
    q ≠ p ∧ ∃ (s : Process H F) (h : H), s.Comes pVfs ∧
      s.os.rest.log = logOf q (new₁ ++ hist) ∧ s.HasLevel h f 4

/-! ## Two processes -/

section Two

/-- One file, and nobody has opened it. -/
def rested : Kernel Bool Unit where
  fd _ _ := none
  memory := .empty
  data _ := []
  locks _ _ _ := none
  name _ := some ()
  unborn := []
  trouble := []
  statTrouble := []
  places := []
  blksize := 1024
  blksize_pos := by decide

def both (s s' : Process Bool Unit) : Bool → Process Bool Unit
  | false => s
  | true => s'

theorem together_of_replay {s s' : Process Bool Unit} {hist : List (Bool × Syscall Unit)}
    {k : Kernel Bool Unit} (hs : s.Comes Process.unixVfs) (hs' : s'.Comes Process.unixVfs)
    (hk : replay rested hist = some k) (hlog : s.os.rest.log = logOf false hist)
    (hlog' : s'.os.rest.log = logOf true hist) :
    Together Process.unixVfs hist k (both s s') ∧ ∀ p, Rests hist (both s s') p := by
  have hrests : ∀ p, Rests hist (both s s') p := fun p => by
    cases p
    · exact hlog
    · exact hlog'
  refine ⟨⟨⟨rested, ⟨fun _ _ => rfl, fun _ _ _ => rfl⟩, happens_of_replay hk⟩, fun p => ?_,
    fun p => ?_⟩, hrests⟩
  · cases p
    · exact hs
    · exact hs'
  · rw [hrests p]

theorem comes_start : (Process.start : Process Bool Unit).Comes Process.unixVfs :=
  ⟨Process.calm, fun _ => rfl, [], trivial, rfl⟩

/-- The first handle locks the file, up to a level. -/
def locking (levels : List CInt) : List (Action Bool) :=
  .open_ false (some [0x64]) 0x106 :: levels.map (.lock false)

/-- The whole of it has been the doing of one process. -/
def doneBy (p : Bool) (s : Process Bool Unit) : List (Bool × Syscall Unit) :=
  s.os.rest.log.map (Prod.mk p)

theorem comes_after {ω : Answers Unit} {rs : List (Action Bool)}
    (hfstat : ∀ log, ω.fstat log = none)
    (hok : Runs.Allowed (Process.next Process.unixVfs ω) Process.Permits Process.start rs)
    (hrun : (Runs.run (Process.next Process.unixVfs ω) Process.start rs).isSome) :
    (Process.after ω rs).Comes Process.unixVfs :=
  ⟨ω, hfstat, Process.reaches_after hok hrun⟩

/-- It has an EXCLUSIVE lock. -/
def writer : Process Bool Unit :=
  Process.after Process.calm (locking [sharedLock, reservedLock, exclusiveLock])

theorem comes_writer : writer.Comes Process.unixVfs :=
  comes_after (fun _ => rfl) (by decide +kernel) (by decide +kernel)

/-- It has a RESERVED lock with one handle, and a SHARED one with another. -/
def preparer : Process Bool Unit :=
  Process.after Process.calm (locking [sharedLock, reservedLock] ++
    [.open_ true (some [0x64]) 0x106, .lock true sharedLock])

theorem comes_preparer : preparer.Comes Process.unixVfs :=
  comes_after (fun _ => rfl) (by decide +kernel) (by decide +kernel)

/-- It has no lock, for others are in the way. -/
def outsider (levels : List CInt) : Process Bool Unit :=
  Process.after { Process.calm with getlk := fun _ => .ok true, setlk := fun _ => some eagain }
    (locking levels)

theorem comes_outsider : (outsider [sharedLock]).Comes Process.unixVfs :=
  comes_after (fun _ => rfl) (by decide +kernel) (by decide +kernel)

/-- It has a SHARED lock, and others are in the way of RESERVED. -/
def contender : Process Bool Unit :=
  Process.after { Process.calm with
    setlk := fun log => if log.length < 5 then none else some eagain }
    (locking [sharedLock, reservedLock])

theorem comes_contender : contender.Comes Process.unixVfs :=
  comes_after (fun _ => rfl) (by decide +kernel) (by decide +kernel)

end Two

section Locks

variable [Fintype P] [DecidableEq P] [Fintype H] [DecidableEq H] {pVfs : Vfs} {ω : Answers F}
  {hist new : List (P × Syscall F)} {k k' : Kernel P F} {S S' : P → Process H F} {p q : P}
  {s s' : Process H F} {h h' : H} {f : F} {level level' b : Nat} {image : UnixFile}

omit [Fintype P] [DecidableEq P] in
theorem Process.Comes.inv (hs : s.Comes pVfs) (hexcl : pVfs.excl = false) : s.Inv := by
  obtain ⟨ω, hfstat, hreaches⟩ := hs
  exact hreaches.inv hfstat hexcl

omit [DecidableEq H] in
theorem Process.HasLevel.backed (hs : s.Inv) (hlevel : s.HasLevel h f level) :
    ∃ a, (s.slot h).level a = level ∧ (a, f) ∈ s.os.rest.inodeList ∧
      Backed f s.os.rest (s.os.ledger a).top ∧ level ≤ (s.os.ledger a).top ∧
      (2 ≤ level → level = (s.os.ledger a).top) := by
  obtain ⟨image, w, hslot, hfd, rfl⟩ := hlevel
  obtain ⟨f', w', hloc, hfd', hb, hle⟩ := hs.backed_at hslot
  obtain rfl : f' = f := (Prod.mk.inj (Option.some.inj (hfd'.symm.trans hfd))).1
  have hself : (s.slot h).level image.pInode = image.eFileLock.toNat := by
    rw [hslot, Slot.level, if_pos rfl]
  have htop := Process.level_eq_top (h := h) (hs.books.accounts _ f' hloc.listed)
  simp only [hself] at htop
  exact ⟨image.pInode, hself, hloc.listed, hb, hle, htop⟩

namespace Together

theorem guards (ht : Together pVfs hist k S) (hexcl : pVfs.excl = false) (p : P) :
    dbGate.Guards (logOf p hist) :=
  ((ht.comes p).inv hexcl).books.guards.of_suffix (ht.log p)

omit [Fintype H] in
theorem own_eq (ht : Together pVfs hist k S) (hp : Rests hist S p) :
    k.own p = (S p).os.rest.own := by
  obtain ⟨k₀, hi, hhist⟩ := ht.history
  rw [hhist.own hi p, Memory.own, hp]

omit [Fintype H] in
theorem locks_eq (ht : Together pVfs hist k S) (hp : Rests hist S p) :
    k.locks f p = (S p).os.rest.own.lock f :=
  congrFun (congrArg Own.lock (ht.own_eq hp)) f

theorem locked_of_level (ht : Together pVfs hist k S) (hexcl : pVfs.excl = false)
    (hp : Rests hist S p) (hlevel : (S p).HasLevel h f level) (h1 : 1 ≤ level)
    (hb : b ∈ dbGate.range) : k.locks f p b ≠ none := by
  obtain ⟨a, -, -, hbacked, hle, -⟩ := hlevel.backed ((ht.comes p).inv hexcl)
  rw [ht.locks_eq hp]
  exact hbacked.shared (h1.trans hle) b hb

/-! ## Who is alone -/

/-- Beside EXCLUSIVE there is no lock, neither in another process, wherever that may be, nor by
another handle. -/
theorem exclusive_alone (ht : Together pVfs hist k S) (hexcl : pVfs.excl = false)
    (hp : Rests hist S p) (hlevel : (S p).HasLevel h f 4) :
    (∀ q ≠ p, ∀ b, sharedFirst ≤ b → b < sharedFirst + sharedSize → k.locks f q b = none) ∧
      ∀ q h' level, (q, h') ≠ (p, h) → Rests hist S q → (S q).HasLevel h' f level → level = 0 := by
  have hinv := (ht.comes p).inv hexcl
  obtain ⟨a, hself, ha, hbacked, -, htop⟩ := hlevel.backed hinv
  obtain ⟨k₀, hi, hhist⟩ := ht.history
  have hclosed := hbacked.exclusive (htop (by decide)).symm
  rw [hp] at hclosed
  have hfree : ∀ q ≠ p, ∀ b ∈ dbGate.range, k.locks f q b = none := fun q hq b hb => by
    have hnone := hclosed.alone hi hhist (ht.guards hexcl) hq hb
    rwa [← hhist.own hi q] at hnone
  refine ⟨fun q hq b hlo hhi => ?_, fun q h' level hne hq hlevel' => ?_⟩
  · exact hfree q hq b (mem_dbGate.mpr ⟨hlo, hhi⟩)
  · by_cases hqp : q = p
    · subst hqp
      obtain ⟨a', hself', ha', -⟩ := hlevel'.backed hinv
      obtain rfl := hinv.shape.address_eq ha' ha
      rw [← hself']
      exact (hinv.books.accounts a' f ha).alone h h' (fun heq => hne (by rw [heq])) hself
    · by_contra hpos
      exact ht.locked_of_level hexcl hq hlevel' (Nat.one_le_iff_ne_zero.mpr hpos) sharedFirst_mem
        (hfree q hqp _ sharedFirst_mem)

theorem exclusive_alone_writer : ∃ k : Kernel Bool Unit,
    Together Process.unixVfs (doneBy true (outsider [sharedLock]) ++ doneBy false writer) k
      (both writer (outsider [sharedLock])) ∧
      (∀ q ≠ false, ∀ b, sharedFirst ≤ b → b < sharedFirst + sharedSize →
        k.locks () q b = none) ∧
      ∀ level, (outsider [sharedLock]).HasLevel false () level → level = 0 := by
  obtain ⟨k, hk⟩ := Option.isSome_iff_exists.mp (show (replay rested
    (doneBy true (outsider [sharedLock]) ++ doneBy false writer)).isSome by decide +kernel)
  obtain ⟨ht, hrests⟩ := together_of_replay comes_writer comes_outsider hk (by decide +kernel)
    (by decide +kernel)
  obtain ⟨hlocks, hlevels⟩ := ht.exclusive_alone rfl (hrests false) (h := false)
    (show writer.HasLevel false () 4 by decide +kernel)
  exact ⟨k, ht, hlocks, fun level => hlevels true false level (by decide) (hrests true)⟩

/-- There is one RESERVED at most, and one PENDING or EXCLUSIVE. -/
theorem one_writer (ht : Together pVfs hist k S) (hexcl : pVfs.excl = false) (hp : Rests hist S p)
    (hq : Rests hist S q) (hne : (p, h) ≠ (q, h')) (hlevel : (S p).HasLevel h f level)
    (hlevel' : (S q).HasLevel h' f level') :
    ¬ (level = 2 ∧ level' = 2) ∧ ¬ (3 ≤ level ∧ 3 ≤ level') := by
  obtain ⟨k₀, hi, hhist⟩ := ht.history
  obtain ⟨a, hself, ha, hbacked, hle, htop⟩ := hlevel.backed ((ht.comes p).inv hexcl)
  obtain ⟨a', hself', ha', hbacked', hle', htop'⟩ := hlevel'.backed ((ht.comes q).inv hexcl)
  by_cases hpq : p = q
  · -- In one process the books tell.
    subst hpq
    obtain rfl := ((ht.comes p).inv hexcl).shape.address_eq ha' ha
    have hone := (((ht.comes p).inv hexcl).books.accounts a' f ha).one_writer h h'
      (fun heq => hne (by rw [heq]))
    rw [hself, hself'] at hone
    simp only [Locking.reserved, Locking.shared] at hone
    omega
  · -- Two processes do not both have a write lock on a byte.
    have hpeace (b : Nat) (hb : k.locks f p b = some .write) : k.locks f q b = none :=
      hhist.compatible hi f p q b hpq hb
    rw [ht.locks_eq hp, ht.locks_eq hq] at hpeace
    constructor
    · rintro ⟨h2, h2'⟩
      have hboth := hpeace reservedByte (hbacked.reserved ((htop h2.ge).symm.trans h2))
      rw [hbacked'.reserved ((htop' h2'.ge).symm.trans h2')] at hboth
      cases hboth
    · rintro ⟨h3, h3'⟩
      have hboth := hpeace pendingByte (hbacked.pending (h3.trans hle))
      rw [hbacked'.pending (h3'.trans hle')] at hboth
      cases hboth

theorem one_writer_preparer : ∃ k : Kernel Bool Unit,
    Together Process.unixVfs (doneBy true contender ++ doneBy false preparer) k
      (both preparer contender) ∧
      preparer.HasLevel false () 2 ∧ contender.HasLevel false () 1 ∧
      ¬ (2 = 2 ∧ 1 = 2) ∧ ¬ (3 ≤ 2 ∧ 3 ≤ 1) := by
  obtain ⟨k, hk⟩ := Option.isSome_iff_exists.mp
    (show (replay rested (doneBy true contender ++ doneBy false preparer)).isSome
      by decide +kernel)
  obtain ⟨ht, hrests⟩ := together_of_replay comes_preparer comes_contender hk (by decide +kernel)
    (by decide +kernel)
  have hlevel : preparer.HasLevel false () 2 := by decide +kernel
  have hlevel' : contender.HasLevel false () 1 := by decide +kernel
  exact ⟨k, ht, hlevel, hlevel', ht.one_writer rfl (hrests false) (hrests true) (by decide) hlevel
    hlevel'⟩

/-- `unixCheckReservedLock` sees every RESERVED, and nothing but locks on the reserved byte. -/
theorem reserved_seen (ht : Together pVfs hist k S) (hexcl : pVfs.excl = false)
    (hp : Rests hist S p) (hslot : (S p).slot h = .opened image .posix) {w : Bool}
    (hfd : (S p).os.rest.own.fd image.h = some (f, w)) {pResOut : CInt}
    (hstep : (S p).step pVfs ω (.checkReservedLock h) = some (s', .reserved pResOut sqliteOk))
    (hasked : ∀ e, s'.os.rest.log = e :: (S p).os.rest.log → ∃ k', k.Does p k' e) :
    (∀ h' level, 2 ≤ level → (S p).HasLevel h' f level → pResOut ≠ 0) ∧
      (∀ q h', q ≠ p → Rests hist S q → (S q).HasLevel h' f 2 → pResOut ≠ 0) ∧
      (pResOut ≠ 0 → 1 < ((S p).os.inode image.pInode).eFileLock ∨
        ∃ q ≠ p, k.locks f q reservedByte ≠ none) := by
  have hinv := (ht.comes p).inv hexcl
  obtain ⟨f', w', hloc, hfd', -⟩ := hinv.backed_at hslot
  obtain rfl : f' = f := (Prod.mk.inj (Option.some.inj (hfd'.symm.trans hfd))).1
  have hself : ∀ h' level, 2 ≤ level → (S p).HasLevel h' f' level →
      1 < ((S p).os.inode image.pInode).eFileLock := fun h' level h2 hlevel => by
    obtain ⟨a, -, ha, -, hle, -⟩ := hlevel.backed hinv
    rw [hinv.shape.address_eq ha hloc.listed] at hle
    exact h2.trans hle
  have hother : ∀ q h', q ≠ p → Rests hist S q → (S q).HasLevel h' f' 2 →
      ∃ q ≠ p, k.locks f' q reservedByte ≠ none := fun q h' hq hrests hlevel => by
    obtain ⟨a, -, -, hbacked, -, htop⟩ := hlevel.backed ((ht.comes q).inv hexcl)
    refine ⟨q, hq, ?_⟩
    rw [ht.locks_eq hrests, hbacked.reserved (htop le_rfl).symm]
    exact Option.some_ne_none _
  simp only [Process.step, hslot] at hstep
  obtain ⟨⟨g, ⟨resOut, rc⟩, os'⟩, hcheck, heq⟩ := Option.bind_eq_some_iff.mp hstep
  obtain ⟨rfl, hret⟩ := Prod.mk.inj (Option.some.inj heq)
  obtain ⟨rfl, rfl⟩ := Outcome.reserved.inj hret
  rcases Process.unixCheckReservedLock_cases (hinv.live _ f' hloc.listed).2 hcheck with
    ⟨htop, -, rfl, -, -⟩ | ⟨htop, answer, m, rfl, rfl, hcases⟩
  · have hne : (1 : CInt) ≠ 0 := by decide
    exact ⟨fun _ _ _ _ => hne, fun _ _ _ _ _ => hne, fun _ => .inl htop⟩
  · rcases hcases with ⟨err, -, hrc⟩ | ⟨locked, rfl, -, rfl, -⟩
    · cases hrc
    · obtain ⟨k', hd⟩ := hasked _ rfl
      have hlocked := Kernel.getlk_does hd (by rw [ht.own_eq hp]; exact hfd)
      have hout : (if locked = true then 1 else 0 : CInt) ≠ 0 ↔
          ∃ q ≠ p, k.locks f' q reservedByte ≠ none := by
        have hone : (if locked = true then 1 else 0 : CInt) ≠ 0 ↔ locked = true := by
          cases locked <;> decide
        rw [hone, hlocked]
        simp only [mem_one, exists_eq_left]
      refine ⟨fun h' level h2 hlevel => absurd (hself h' level h2 hlevel) htop,
        fun q h' hq hrests hlevel => hout.mpr (hother q h' hq hrests hlevel),
        fun hne => .inr (hout.mp hne)⟩

theorem reserved_seen_preparer : ∃ k : Kernel Bool Unit,
    Together Process.unixVfs (doneBy true (outsider []) ++ doneBy false preparer) k
      (both preparer (outsider [])) ∧ ∃ s', (outsider []).step Process.unixVfs
        { Process.calm with getlk := fun _ => .ok true } (.checkReservedLock false) =
          some (s', .reserved 1 sqliteOk) ∧ (1 : CInt) ≠ 0 := by
  let e : Syscall Unit := .getlk 3 .write ⟨reservedByte, 1⟩ (.ok true)
  obtain ⟨k', hk'⟩ := Option.isSome_iff_exists.mp
    (show (replay rested ((true, e) :: (doneBy true (outsider []) ++ doneBy false preparer))).isSome
      by decide +kernel)
  obtain ⟨k, hk, hperform⟩ := Option.bind_eq_some_iff.mp hk'
  have hcomes : (outsider []).Comes Process.unixVfs :=
    comes_after (fun _ => rfl) (by decide +kernel) (by decide +kernel)
  obtain ⟨ht, hrests⟩ := together_of_replay comes_preparer hcomes hk (by decide +kernel)
    (by decide +kernel)
  obtain ⟨⟨s', outcome⟩, hstep, heq⟩ := Option.map_eq_some_iff.mp
    (show ((outsider []).step Process.unixVfs { Process.calm with getlk := fun _ => .ok true }
      (.checkReservedLock false)).map (fun x => (x.1.os.rest.log, x.2)) =
        some (e :: (outsider []).os.rest.log, .reserved 1 sqliteOk) by decide +kernel)
  obtain ⟨hlog, rfl⟩ := Prod.mk.inj heq
  have hslot : (outsider []).slot false =
    .opened { Process.stayed with eFileLock := 0 } .posix := by decide +kernel
  have hseen := ht.reserved_seen rfl (hrests true) (h := false) hslot (f := ()) (w := true)
    (by decide +kernel) hstep fun e' he' => by
      obtain rfl : e' = e := (List.cons.inj (he'.symm.trans hlog)).1
      exact ⟨k', Kernel.does_of_perform hperform⟩
  exact ⟨k, ht, s', hstep, hseen.2.1 false false (by decide) (hrests false)
    (show preparer.HasLevel false () 2 by decide +kernel)⟩

/-! ## What comes later -/

/-- While one is PENDING, readers leave and no new ones come. -/
theorem no_new_reader (ht : Together pVfs hist k S) (hexcl : pVfs.excl = false)
    (hp : Rests hist S p) (hlevel : (S p).HasLevel h f level) (h3 : 3 ≤ level)
    (hnew : Happens k new k') (ht' : Together pVfs (new ++ hist) k' S')
    (hkeeps : Keeps p f hist new) (hq : q ≠ p)
    (hout : ∀ b, sharedFirst ≤ b → b < sharedFirst + sharedSize → k.locks f q b = none) :
    (∀ b, sharedFirst ≤ b → b < sharedFirst + sharedSize → k'.locks f q b = none) ∧
      ∀ h' level, Rests (new ++ hist) S' q → (S' q).HasLevel h' f level → level = 0 := by
  obtain ⟨k₀, hi, hhist⟩ := ht.history
  obtain ⟨a, -, -, hbacked, hle, -⟩ := hlevel.backed ((ht.comes p).inv hexcl)
  have hbyte := hbacked.pending (h3.trans hle)
  rw [Memory.own, hp] at hbyte
  have hfree := Gate.no_entry hi hhist hnew (ht'.guards hexcl) hkeeps hbyte hq fun b hb => by
    rw [← hhist.own hi q]
    exact hout b (mem_dbGate.mp hb).1 (mem_dbGate.mp hb).2
  rw [← (hhist.append hnew).own hi q] at hfree
  refine ⟨fun b hlo hhi => hfree b (mem_dbGate.mpr ⟨hlo, hhi⟩), fun h' level hrests hlevel' => ?_⟩
  by_contra hpos
  exact ht'.locked_of_level hexcl hrests hlevel' (Nat.one_le_iff_ne_zero.mpr hpos) sharedFirst_mem
    (hfree _ sharedFirst_mem)

theorem no_new_reader_outsider : ∃ k k' : Kernel Bool Unit,
    Happens k (doneBy true (outsider [sharedLock])) k' ∧
      ∀ b, sharedFirst ≤ b → b < sharedFirst + sharedSize → k'.locks () true b = none := by
  obtain ⟨k, hk⟩ := Option.isSome_iff_exists.mp
    (show (replay rested (doneBy false writer)).isSome by decide +kernel)
  obtain ⟨k', hk'⟩ := Option.isSome_iff_exists.mp (show (replay rested
    (doneBy true (outsider [sharedLock]) ++ doneBy false writer)).isSome by decide +kernel)
  obtain ⟨ht, hrests⟩ := together_of_replay comes_writer comes_start hk (by decide +kernel)
    (by decide +kernel)
  obtain ⟨ht', -⟩ := together_of_replay comes_writer comes_outsider hk' (by decide +kernel)
    (by decide +kernel)
  rw [replay_append, hk] at hk'
  have hnew := happens_of_replay hk'
  refine ⟨k, k', hnew, (ht.no_new_reader rfl (hrests false) (h := false)
    (show writer.HasLevel false () 4 by decide +kernel) (by decide) hnew ht'
    (keeps_of_others (by decide +kernel) ()) (q := true) (by decide) fun b hlo hhi => ?_).1⟩
  rw [ht.locks_eq (hrests true)]
  rfl

/-- Who has a lock reads the same bytes until it gives that up. -/
theorem snapshot (ht : Together pVfs hist k S) (hexcl : pVfs.excl = false) (hp : Rests hist S p)
    (hlevel : (S p).HasLevel h f level) (h1 : 1 ≤ level) (hnew : Happens k new k')
    (ht' : Together pVfs (new ++ hist) k' S') (hkeeps : Keeps p f hist new)
    (hwrites : WritesAlone H pVfs p f hist new) : k'.data f = k.data f := by
  obtain ⟨k₀, hi, hhist⟩ := ht.history
  have hin := ht.locked_of_level hexcl hp hlevel h1 sharedFirst_mem
  rw [ht.locks_eq hp, Memory.own, hp] at hin
  refine Gate.unchanged hi hhist hnew (ht'.guards hexcl) hkeeps sharedFirst_mem hin
    fun q fd w new₁ hsuffix hfd => ?_
  obtain ⟨hq, s, h', hs, hlog, hlevel'⟩ := hwrites q fd w new₁ hsuffix hfd
  obtain ⟨a, -, -, hbacked, -, htop⟩ := hlevel'.backed (hs.inv hexcl)
  rw [← hlog]
  exact ⟨hq, hbacked.exclusive (htop (by decide)).symm⟩

theorem snapshot_preparer : ∃ k k' : Kernel Bool Unit,
    Happens k (doneBy true contender) k' ∧ k'.data () = k.data () := by
  obtain ⟨k, hk⟩ := Option.isSome_iff_exists.mp
    (show (replay rested (doneBy false preparer)).isSome by decide +kernel)
  obtain ⟨k', hk'⟩ := Option.isSome_iff_exists.mp
    (show (replay rested (doneBy true contender ++ doneBy false preparer)).isSome
      by decide +kernel)
  obtain ⟨ht, hrests⟩ := together_of_replay comes_preparer comes_start hk (by decide +kernel)
    (by decide +kernel)
  obtain ⟨ht', -⟩ := together_of_replay comes_preparer comes_contender hk' (by decide +kernel)
    (by decide +kernel)
  rw [replay_append, hk] at hk'
  have hnew := happens_of_replay hk'
  refine ⟨k, k', hnew, ht.snapshot rfl (hrests false) (h := false)
    (show preparer.HasLevel false () 2 by decide +kernel) (by decide) hnew ht'
    (keeps_of_others (by decide +kernel) ()) fun q fd w new₁ hsuffix => ?_⟩
  have hreads : ∀ x ∈ doneBy true contender, x.2.writes = false := by decide +kernel
  cases hreads _ (hsuffix.subset List.mem_cons_self)

end Together

end Locks

end RemoteVfs
