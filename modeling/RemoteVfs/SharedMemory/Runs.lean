import RemoteVfs.SharedMemory.Locks

/-!
# Any number of processes with a wal-index

Their system calls come in any order. Between two of them, the locks of each process are those of
its connections, and who has the deadman switch has not seen the file truncated.
-/

open CMem Posix

namespace RemoteVfs

/-! ## Runs -/

section Invariant

open UnixShmNode

variable {P C : Type} [Fintype P] [DecidableEq P] [DecidableEq C] {s s' : Shm P C} {p q : P}
  {c c' : C} {i : Nat} {node : UnixShmNode C} {t : Nat → Option Mode}

instance : Decidable (node.Shared c i) := inferInstanceAs (Decidable (_ = true))
instance : Decidable (node.Excl c i) := inferInstanceAs (Decidable (_ = true))

instance {ofst n : Nat} {flags : CInt} : Decidable (Releases node c ofst n flags) :=
  inferInstanceAs (Decidable (_ ∨ _))

instance {ofst n : Nat} {flags : CInt} : Decidable (LockRequest node c ofst n flags) :=
  inferInstanceAs (Decidable (_ ∧ _))

namespace Shm

/-- A connection ends when it has no lock. -/
def Permits (s : Shm P C) : ShmAction P C → Prop
  | .lock p c ofst n flags _ => ∀ node, s.process p = .ready node →
    LockRequest node c ofst n flags
  | .unmap p c => ∀ node, s.process p = .ready node → node.pShm c = ⟨0, 0⟩
  | _ => True

omit [Fintype P] [DecidableEq P] [DecidableEq C] in
theorem forall_ready_iff {Q : UnixShmNode C → Prop} (hready : s.process p = .ready node) :
    (∀ node, s.process p = .ready node → Q node) ↔ Q node := by
  constructor
  · intro h
    exact h node hready
  · intro h node' hnode'
    cases hready.symm.trans hnode'
    exact h

instance : DecidablePred s.Permits
  | .lock p c ofst n flags _ =>
    match hp : s.process p with
    | .ready node => decidable_of_iff (LockRequest node c ofst n flags)
      (forall_ready_iff (Q := fun node => LockRequest node c ofst n flags) hp).symm
    | .absent => .isTrue fun _ h => nomatch hp.symm.trans h
    | .locking _ _ _ => .isTrue fun _ h => nomatch hp.symm.trans h
  | .unmap p c =>
    match hp : s.process p with
    | .ready node => decidable_of_iff (node.pShm c = ⟨0, 0⟩)
      (forall_ready_iff (Q := fun node => node.pShm c = ⟨0, 0⟩) hp).symm
    | .absent => .isTrue fun _ h => nomatch hp.symm.trans h
    | .locking _ _ _ => .isTrue fun _ h => nomatch hp.symm.trans h
  | .attach _ _ _ | .relock _ | .advance _ _ | .extend _ _ => .isTrue trivial

def next (s : Shm P C) (a : ShmAction P C) : Option (Shm P C) := (s.step a).map Prod.fst

/-- Nobody has the file open. -/
def start (size : Nat) : Shm P C := ⟨fun _ _ => none, size, fun _ => .absent⟩

def Reaches (s : Shm P C) : Prop :=
  ∃ size as, Runs.Allowed next Permits (start size) as ∧ Runs.run next (start size) as = some s

end Shm

/-! ## The invariant -/

/-- The lock on the deadman switch. -/
def ShmCall.Fits (node : UnixShmNode C) (dms : Option Mode) : ShmCall → Prop
  | .getlk => dms = none
  | .exclusive => dms = none ∧ node.isReadonly = false
  | .truncate => dms = some .write ∧ node.isReadonly = false
  | .shared => dms ≠ some .read ∧ (node.isReadonly = true → dms = none)

/-- What a process has locked, by what it is at. -/
def ShmProcess.Fits (t : Nat → Option Mode) : ShmProcess C → Prop
  | .absent => ∀ b, t b = none
  | .locking node c call => node.SlotLocks t ∧ call.Fits node (t unixShmDms) ∧
    (c.isSome → node.pFirst = []) ∧ (c = none → node.isReadonly = true ∧ node.isUnlocked = true)
  | .ready node => node.SlotLocks t ∧ (node.isUnlocked = false → t unixShmDms = some .read) ∧
    (node.isUnlocked = true → node.isReadonly = true ∧ t unixShmDms = none)

structure Shm.Inv (s : Shm P C) : Prop where
  compatible : s.locks.Compatible
  fits : ∀ p, (s.process p).Fits (s.locks p)

omit [DecidableEq C] in
theorem UnixShmNode.SlotLocks.congr {node' : UnixShmNode C} (h : node.SlotLocks t)
    (hlist : node'.pFirst = node.pFirst) (hmasks : node'.pShm = node.pShm) : node'.SlotLocks t := by
  intro i hi
  exact (h i hi).congr hlist (fun c => by rw [Excl, Excl, hmasks]) fun c => by
    rw [Shared, Shared, hmasks]

theorem UnixShmNode.SlotLocks.cons (h : node.SlotLocks t) (hc : c ∉ node.pFirst) :
    UnixShmNode.SlotLocks { node with
      pFirst := c :: node.pFirst, pShm := Function.update node.pShm c ⟨0, 0⟩ } t := by
  intro i hi
  have hold {c' : C} (hc' : c' ∈ node.pFirst) :
      Function.update node.pShm c ⟨0, 0⟩ c' = node.pShm c' :=
    Function.update_of_ne (fun heq => hc (by rw [← heq]; exact hc')) ..
  have hnew : Function.update node.pShm c ⟨0, 0⟩ c = ⟨0, 0⟩ := Function.update_self ..
  have hslot := h i hi
  cases hm : t (unixShmBase + i) with
  | none =>
    rw [hm] at hslot
    simp only [SlotLock, List.forall_mem_cons, Excl, Shared, hnew]
    refine ⟨by simp, fun c' hc' => ?_⟩
    rw [hold hc']
    exact hslot c' hc'
  | some m =>
    rw [hm] at hslot
    cases m with
    | read =>
      obtain ⟨⟨c₁, hc₁, hshared⟩, hexcl⟩ := hslot
      simp only [SlotLock, List.forall_mem_cons, Excl, Shared, hnew]
      refine ⟨⟨c₁, .tail _ hc₁, by rw [hold hc₁]; exact hshared⟩, by simp, fun c' hc' => ?_⟩
      rw [hold hc']
      exact hexcl c' hc'
    | write =>
      obtain ⟨c₁, hc₁, hexcl, hothers⟩ := hslot
      simp only [SlotLock, List.forall_mem_cons, Excl, Shared, hnew]
      refine ⟨c₁, .tail _ hc₁, by rw [hold hc₁]; exact hexcl, by simp, fun c' hc' => ?_⟩
      rw [hold hc']
      exact hothers c' hc'

theorem UnixShmNode.SlotLocks.erase (h : node.SlotLocks t) (hc : node.pShm c = ⟨0, 0⟩) :
    UnixShmNode.SlotLocks { node with pFirst := node.pFirst.erase c } t := by
  intro i hi
  have hsub {c' : C} (hc' : c' ∈ node.pFirst.erase c) : c' ∈ node.pFirst :=
    List.mem_of_mem_erase hc'
  have hshared {c' : C} (h : node.Shared c' i) : c' ≠ c := by
    rintro rfl
    rw [Shared, hc] at h
    simp at h
  have hexcl {c' : C} (h : node.Excl c' i) : c' ≠ c := by
    rintro rfl
    rw [Excl, hc] at h
    simp at h
  have hslot := h i hi
  cases hm : t (unixShmBase + i) with
  | none =>
    rw [hm] at hslot
    exact fun c' hc' => hslot c' (hsub hc')
  | some m =>
    rw [hm] at hslot
    cases m with
    | read =>
      obtain ⟨⟨c₁, hc₁, hs₁⟩, hall⟩ := hslot
      exact ⟨⟨c₁, (List.mem_erase_of_ne (hshared hs₁)).mpr hc₁, hs₁⟩,
        fun c' hc' => hall c' (hsub hc')⟩
    | write =>
      obtain ⟨c₁, hc₁, hx₁, hothers⟩ := hslot
      exact ⟨c₁, (List.mem_erase_of_ne (hexcl hx₁)).mpr hc₁, hx₁,
        fun c' hc' => hothers c' (hsub hc')⟩

namespace Shm

omit [Fintype P] [DecidableEq C] in
theorem Inv.change {a : ShmProcess C} {locks : Locks P} {size : Nat} (hs : s.Inv)
    (hcompat : locks.Compatible) (hothers : ∀ q, q ≠ p → locks q = s.locks q)
    (ha : a.Fits (locks p)) : Inv ⟨locks, size, Function.update s.process p a⟩ := by
  refine ⟨hcompat, fun q => ?_⟩
  by_cases hq : q = p
  · rw [hq]
    dsimp only
    rw [Function.update_self]
    exact ha
  · dsimp only
    rw [Function.update_of_ne hq, hothers q hq]
    exact hs.fits q

omit [Fintype P] [DecidableEq C] in
theorem Inv.setProcess {a : ShmProcess C} (hs : s.Inv) (ha : a.Fits (s.locks p)) :
    (s.setProcess p a).Inv :=
  hs.change hs.compatible (fun _ _ => rfl) ha

omit [Fintype P] [DecidableEq C] in
theorem Inv.dropped (hs : s.Inv) :
    Inv ({ s with locks := s.locks.drop p }.setProcess p .absent) :=
  hs.change hs.compatible.drop (fun _ hq => Locks.drop_of_ne hq) fun _ => by
    simp [Locks.drop]

variable {call : ShmCall} {o : Option C}

omit [Fintype P] [DecidableEq C] in
/-- When `unixLockSharedMemory` fails, the lock that it has had is of no use to `unixShmMap`. -/
theorem Inv.fail (hs : s.Inv) (hslots : node.SlotLocks (s.locks p))
    (hnone : o = none → node.isReadonly = true ∧ node.isUnlocked = true ∧
      s.locks p unixShmDms = none) : (s.fail p node o).Inv := by
  cases o with
  | some c => exact hs.dropped
  | none =>
    obtain ⟨hro, hun, hdms⟩ := hnone rfl
    refine hs.setProcess ⟨hslots, ?_, fun _ => ⟨hro, hdms⟩⟩
    rw [hun]
    exact nofun

omit [Fintype P] in
theorem Inv.finish (hs : s.Inv) (locks : Locks P) (hcompat : locks.Compatible)
    (hothers : ∀ q, q ≠ p → locks q = s.locks q)
    (hfits : (ShmProcess.ready node).Fits (locks p))
    (ho : ∀ c, o = some c → c ∉ node.pFirst) :
    Inv ({ s with locks }.finish p node o) := by
  cases o with
  | some c => exact hs.change hcompat hothers ⟨hfits.1.cons (ho c rfl), hfits.2⟩
  | none => exact hs.change hcompat hothers hfits

omit [DecidableEq C] in
theorem dms_of_system {rc : CInt} {t t' : Locks P} {lockType : LockType} {fails : Bool}
    (h : unixShmSystemLock p fails lockType unixShmDms 1 t = (rc, t'))
    (hslots : node.SlotLocks (t p)) : node.SlotLocks (t' p) ∧ (∀ q, q ≠ p → t' q = t q) ∧
      (rc = sqliteOk → t' p unixShmDms = lockType.mode) ∧ (rc ≠ sqliteOk → t' = t) := by
  obtain ⟨⟨rfl, rfl⟩ | ⟨rfl, rfl⟩, -⟩ := unixShmSystemLock_cases h
  · refine ⟨fun i hi => ?_, fun q hq => Locks.set_of_ne hq, fun _ => ?_, fun h => absurd rfl h⟩
    · rw [Locks.set_self, if_neg]
      · exact hslots i hi
      · rw [mem_slots le_rfl, unixShmDms]
        omega
    · rw [Locks.set_self, if_pos]
      rw [mem_slots le_rfl]
      omega
  · exact ⟨hslots, fun _ _ => rfl, fun h => absurd h sqliteBusy_ne_ok, fun _ => rfl⟩

theorem Inv.lockSharedMemory {fails : Bool} {r : Shm P C × Option CInt} (hs : s.Inv)
    (hp : s.process p = .locking node o call)
    (hr : s.lockSharedMemory p fails node o call = r) : r.1.Inv := by
  have hfits := hs.fits p
  rw [hp] at hfits
  obtain ⟨hslots, hcall, hsome, hnone⟩ := hfits
  have hempty : ∀ c, o = some c → c ∉ node.pFirst := by
    rintro c rfl
    rw [hsome rfl]
    exact List.not_mem_nil
  subst hr
  cases call with
  | getlk =>
    have hdms : s.locks p unixShmDms = none := hcall
    have hfail : (s.fail p node o).Inv :=
      hs.fail hslots fun ho => ⟨(hnone ho).1, (hnone ho).2, hdms⟩
    simp only [Shm.lockSharedMemory]
    split
    · exact hfail
    · split
      · split
        · next hro =>
          exact hs.finish s.locks hs.compatible (fun _ _ => rfl)
            ⟨hslots.congr rfl rfl, nofun, fun _ => ⟨hro, hdms⟩⟩ hempty
        · next hro =>
          exact hs.setProcess ⟨hslots, ⟨hdms, by simpa using hro⟩, hsome, hnone⟩
      · exact hfail
      · refine hs.setProcess ⟨hslots, ⟨?_, fun _ => hdms⟩, hsome, hnone⟩
        rw [hdms]
        exact nofun
  | exclusive =>
    obtain ⟨hdms, hro⟩ := hcall
    simp only [Shm.lockSharedMemory]
    rcases hsys : unixShmSystemLock p fails .wrlck unixShmDms 1 s.locks with ⟨rc, locks⟩
    obtain ⟨hslots', hothers, hok, hbusy⟩ := dms_of_system hsys hslots
    dsimp only
    split
    · next hrc =>
      exact hs.change ((unixShmSystemLock_cases hsys).2 hs.compatible) hothers
        ⟨hslots', ⟨hok hrc, hro⟩, hsome, hnone⟩
    · exact hs.fail hslots fun ho => ⟨(hnone ho).1, (hnone ho).2, hdms⟩
  | truncate =>
    obtain ⟨hdms, hro⟩ := hcall
    simp only [Shm.lockSharedMemory]
    split
    · refine hs.fail hslots fun ho => ?_
      rw [(hnone ho).1] at hro
      cases hro
    · refine hs.change hs.compatible (fun _ _ => rfl) ⟨hslots, ⟨?_, fun h => ?_⟩, hsome, hnone⟩
      · dsimp only
        rw [hdms]
        decide
      · rw [hro] at h
        cases h
  | shared =>
    obtain ⟨hdms, hro⟩ := hcall
    simp only [Shm.lockSharedMemory]
    rcases hsys : unixShmSystemLock p fails .rdlck unixShmDms 1 s.locks with ⟨rc, locks⟩
    obtain ⟨hslots', hothers, hok, hbusy⟩ := dms_of_system hsys hslots
    dsimp only
    split
    · next hrc =>
      exact hs.finish locks ((unixShmSystemLock_cases hsys).2 hs.compatible) hothers
        ⟨hslots'.congr rfl rfl, fun _ => hok hrc, nofun⟩ hempty
    · exact hs.fail hslots fun ho => ⟨(hnone ho).1, (hnone ho).2, hro (hnone ho).1⟩

theorem Inv.step {a : ShmAction P C} {rc : Option CInt} (hs : s.Inv) (ha : s.Permits a)
    (hstep : s.step a = some (s', rc)) : s'.Inv := by
  cases a with
  | attach p c isReadonly =>
    have hfits := hs.fits p
    simp only [Shm.step] at hstep
    split at hstep
    · next hp =>
      rw [hp] at hfits
      cases hstep
      refine hs.setProcess ⟨fun i _ => ?_, hfits _, fun _ => rfl, nofun⟩
      rw [hfits]
      exact fun _ hc => absurd hc List.not_mem_nil
    · next node hp =>
      rw [hp] at hfits
      split at hstep
      · cases hstep
      · next hc =>
        cases hstep
        exact hs.setProcess ⟨hfits.1.cons hc, hfits.2⟩
    · cases hstep
  | relock p =>
    have hfits := hs.fits p
    simp only [Shm.step] at hstep
    split at hstep
    · next node hp =>
      rw [hp] at hfits
      split at hstep
      · next hun =>
        cases hstep
        obtain ⟨hslots, -, hlocked⟩ := hfits
        exact hs.setProcess ⟨hslots, (hlocked hun).2, nofun, fun _ => ⟨(hlocked hun).1, hun⟩⟩
      · cases hstep
    · cases hstep
  | advance p fails =>
    simp only [Shm.step] at hstep
    split at hstep
    · next hp => exact hs.lockSharedMemory hp (Option.some.inj hstep)
    · cases hstep
  | extend p nByte =>
    simp only [Shm.step] at hstep
    split at hstep
    · cases hstep
      exact ⟨hs.compatible, hs.fits⟩
    · cases hstep
  | lock p c ofst n flags fails =>
    have hfits := hs.fits p
    simp only [Shm.step] at hstep
    split at hstep
    · next node hp =>
      rw [hp] at hfits
      split at hstep
      · next hc =>
        rcases hrun : unixShmLock p fails c ofst n flags node s.locks with ⟨rc₁, node', locks⟩
        rw [hrun] at hstep
        cases hstep
        have hmoves := unixShmLock_moves hc hfits.1 (ha node hp) hrun
        obtain ⟨-, hro, hun⟩ := hmoves.same
        refine hs.change (hmoves.compatible hs.compatible) hmoves.others ⟨hmoves.slots, ?_⟩
        dsimp only
        rw [hmoves.dms, hro, hun]
        exact hfits.2
      · cases hstep
    · cases hstep
  | unmap p c =>
    have hfits := hs.fits p
    simp only [Shm.step] at hstep
    split at hstep
    · next node hp =>
      rw [hp] at hfits
      split at hstep
      · cases hstep
        split
        · exact hs.dropped
        · exact hs.setProcess ⟨hfits.1.erase (ha node hp), hfits.2⟩
      · cases hstep
    · cases hstep

omit [Fintype P] [DecidableEq P] [DecidableEq C] in
theorem inv_start (size : Nat) : (start size : Shm P C).Inv :=
  ⟨fun _ _ _ _ _ => rfl, fun _ _ => rfl⟩

theorem Reaches.inv (hs : s.Reaches) : s.Inv := by
  obtain ⟨size, as, hok, hrun⟩ := hs
  refine Runs.invariant_of_allowed (fun s a s' hinv ha hnext => ?_) hok (inv_start size) hrun
  obtain ⟨⟨s₁, rc⟩, hstep, rfl⟩ := Option.map_eq_some_iff.mp hnext
  exact hinv.step ha hstep

/-! ## Two processes -/

/-- A run of two processes, with two connections each. -/
def after (size : Nat) (as : List (ShmAction Bool Bool)) : Shm Bool Bool :=
  (Runs.run next (start size) as).getD (start size)

theorem reaches_after {size : Nat} {as : List (ShmAction Bool Bool)}
    (hok : Runs.Allowed next Permits (start size) as)
    (hrun : (Runs.run next (start size) as).isSome) : (after size as).Reaches := by
  obtain ⟨s, hs⟩ := Option.isSome_iff_exists.mp hrun
  rw [after, hs]
  exact ⟨size, as, hok, hs⟩

/-- The first process truncates the file, the second finds it open. Slot 0 is with a writer, and
slot 3 with three readers. -/
def readersAndWriter : List (ShmAction Bool Bool) :=
  [.attach false false false, .advance false false, .advance false false, .advance false false,
    .advance false false, .extend false 32768, .attach true false false, .advance true false,
    .advance true false, .lock false false 0 1 10 false, .attach false true false,
    .lock true false 3 1 6 false, .lock false true 3 1 6 false, .lock false false 3 1 6 false,
    .lock false true 3 1 5 false]

theorem reaches_readersAndWriter : (after 0 readersAndWriter).Reaches :=
  reaches_after (by decide +kernel) (by decide +kernel)

/-- A process that can only read has come first, and another one is about to truncate. -/
def readerFirst : List (ShmAction Bool Bool) :=
  [.attach true false true, .advance true false, .attach false false false, .advance false false,
    .advance false false]

theorem reaches_readerFirst : (after 5 readerFirst).Reaches :=
  reaches_after (by decide +kernel) (by decide +kernel)

/-! ## What a reader of the wal-index can rely on -/

/-- The node of a process, also while that is busy with the deadman switch. -/
def node? (s : Shm P C) (p : P) : Option (UnixShmNode C) :=
  match s.process p with
  | .absent => none
  | .locking node _ _ => some node
  | .ready node => some node

/-- A connection has slot `i`. -/
def HasShared (s : Shm P C) (p : P) (c : C) (i : Nat) : Prop :=
  ∃ node, s.node? p = some node ∧ c ∈ node.pFirst ∧ node.Shared c i

def HasExcl (s : Shm P C) (p : P) (c : C) (i : Nat) : Prop :=
  ∃ node, s.node? p = some node ∧ c ∈ node.pFirst ∧ node.Excl c i

instance : Decidable (s.HasExcl p c i) :=
  match hp : s.node? p with
  | none => .isFalse fun ⟨_, h, _⟩ => nomatch hp.symm.trans h
  | some node => decidable_of_iff (c ∈ node.pFirst ∧ node.Excl c i) <| by
    constructor
    · intro h
      exact ⟨node, hp, h⟩
    · rintro ⟨node', hp', h⟩
      cases hp.symm.trans hp'
      exact h

omit [Fintype P] [DecidableEq P] [DecidableEq C] in
theorem Inv.slots (hs : s.Inv) (hp : s.node? p = some node) : node.SlotLocks (s.locks p) := by
  have hfits := hs.fits p
  unfold node? at hp
  split at hp
  · cases hp
  · next hprocess =>
    cases hp
    rw [hprocess] at hfits
    exact hfits.1
  · next hprocess =>
    cases hp
    rw [hprocess] at hfits
    exact hfits.1

omit [Fintype P] [DecidableEq P] [DecidableEq C] in
theorem Inv.of_hasExcl (hs : s.Inv) (hi : i < sqliteShmNlock) (h : s.HasExcl p c i) :
    s.locks p (unixShmBase + i) = some .write ∧
      ∀ c', ¬ s.HasShared p c' i ∧ (s.HasExcl p c' i → c' = c) := by
  obtain ⟨node, hp, hc, hexcl⟩ := h
  obtain ⟨hlock, hothers⟩ := (hs.slots hp i hi).of_excl hc hexcl
  refine ⟨hlock, fun c' => ⟨?_, ?_⟩⟩
  · rintro ⟨node', hp', hc', hshared⟩
    cases hp.symm.trans hp'
    exact (hothers c' hc').2 hshared
  · rintro ⟨node', hp', hc', hexcl'⟩
    cases hp.symm.trans hp'
    by_contra hne
    exact (hothers c' hc').1 hne hexcl'

omit [Fintype P] [DecidableEq P] [DecidableEq C] in
theorem Inv.of_hasShared (hs : s.Inv) (hi : i < sqliteShmNlock) (h : s.HasShared p c i) :
    s.locks p (unixShmBase + i) = some .read := by
  obtain ⟨node, hp, hc, hshared⟩ := h
  exact ((hs.slots hp i hi).of_shared hc hshared).1

/-- A slot that a connection has EXCLUSIVE no other connection has, here or in another process. -/
theorem Reaches.exclusive_slot (hs : s.Reaches) (hi : i < sqliteShmNlock) (h : s.HasExcl p c i) :
    ∀ q c', ¬ s.HasShared q c' i ∧ (s.HasExcl q c' i → (q, c') = (p, c)) := by
  have hinv := hs.inv
  obtain ⟨hlock, hhere⟩ := hinv.of_hasExcl hi h
  intro q c'
  by_cases hq : q = p
  · rw [hq]
    refine ⟨(hhere c').1, fun hexcl => ?_⟩
    rw [(hhere c').2 hexcl]
  · have hnone := hinv.compatible p q _ (Ne.symm hq) hlock
    constructor
    · intro hshared
      rw [hinv.of_hasShared hi hshared] at hnone
      cases hnone
    · intro hexcl
      rw [(hinv.of_hasExcl hi hexcl).1] at hnone
      cases hnone

theorem exclusive_slot_writer : (after 0 readersAndWriter).HasExcl false false 0 ∧
    ∀ q c', ¬ (after 0 readersAndWriter).HasShared q c' 0 ∧
      ((after 0 readersAndWriter).HasExcl q c' 0 → (q, c') = (false, false)) := by
  have h : (after 0 readersAndWriter).HasExcl false false 0 := by decide +kernel
  exact ⟨h, reaches_readersAndWriter.exclusive_slot (by decide) h⟩

/-- The lock of a process on a slot is that of its connections: none is lost while a sibling has
it, and none is left over. -/
theorem Reaches.slot_lock (hs : s.Reaches) (hi : i < sqliteShmNlock) (p : P) :
    (s.locks p (unixShmBase + i) = some .write ↔ ∃ c, s.HasExcl p c i) ∧
      (s.locks p (unixShmBase + i) = some .read ↔ ∃ c, s.HasShared p c i) := by
  have hinv := hs.inv
  have hfits := hinv.fits p
  cases hnode : s.node? p with
  | none =>
    have habsent : ∀ b, s.locks p b = none := by
      unfold node? at hnode
      split at hnode
      · next hprocess =>
        rw [hprocess] at hfits
        exact hfits
      · cases hnode
      · cases hnode
    rw [habsent]
    constructor
    · refine iff_of_false nofun ?_
      rintro ⟨c, node, hp, -⟩
      cases hnode.symm.trans hp
    · refine iff_of_false nofun ?_
      rintro ⟨c, node, hp, -⟩
      cases hnode.symm.trans hp
  | some node =>
    have hslot := hinv.slots hnode i hi
    constructor
    · constructor
      · intro hlock
        rw [hlock] at hslot
        obtain ⟨c, hc, hexcl, -⟩ := hslot
        exact ⟨c, node, hnode, hc, hexcl⟩
      · rintro ⟨c, hexcl⟩
        exact (hinv.of_hasExcl hi hexcl).1
    · constructor
      · intro hlock
        rw [hlock] at hslot
        obtain ⟨⟨c, hc, hshared⟩, -⟩ := hslot
        exact ⟨c, node, hnode, hc, hshared⟩
      · rintro ⟨c, hshared⟩
        exact hinv.of_hasShared hi hshared

theorem slot_lock_readers : (after 0 readersAndWriter).locks false (unixShmBase + 3) = some .read ↔
    ∃ c, (after 0 readersAndWriter).HasShared false c 3 :=
  (reaches_readersAndWriter.slot_lock (by decide) false).2

/-! ## Who truncates the file -/

omit [Fintype P] [DecidableEq C] in
@[simp] theorem fail_size : (s.fail p node o).size = s.size := by
  cases o <;> rfl

omit [Fintype P] in
@[simp] theorem finish_size : (s.finish p node o).size = s.size := by
  cases o <;> rfl

theorem lockSharedMemory_size {fails : Bool}
    (hlt : (s.lockSharedMemory p fails node o call).1.size < s.size) : call = .truncate := by
  cases call with
  | truncate => rfl
  | getlk =>
    simp only [Shm.lockSharedMemory] at hlt
    split at hlt
    · simp at hlt
    · split at hlt
      · split at hlt
        · simp at hlt
        · simp [Shm.setProcess] at hlt
      · simp at hlt
      · simp [Shm.setProcess] at hlt
  | exclusive =>
    simp only [Shm.lockSharedMemory] at hlt
    split at hlt
    · simp [Shm.setProcess] at hlt
    · simp at hlt
  | shared =>
    simp only [Shm.lockSharedMemory] at hlt
    split at hlt
    · simp at hlt
    · simp at hlt

theorem truncating_of_lt {a : ShmAction P C} {rc : Option CInt}
    (hstep : s.step a = some (s', rc)) (hlt : s'.size < s.size) :
    ∃ p node o, s.process p = .locking node o .truncate := by
  cases a with
  | attach p c isReadonly =>
    simp only [Shm.step] at hstep
    split at hstep
    · cases hstep
      exact absurd hlt (lt_irrefl _)
    · split at hstep
      · cases hstep
      · cases hstep
        simp at hlt
    · cases hstep
  | relock p =>
    simp only [Shm.step] at hstep
    split at hstep
    · split at hstep
      · cases hstep
        exact absurd hlt (lt_irrefl _)
      · cases hstep
    · cases hstep
  | advance p fails =>
    simp only [Shm.step] at hstep
    split at hstep
    · next node o call hp =>
      have heq : (s.lockSharedMemory p fails node o call).1 = s' :=
        congrArg Prod.fst (Option.some.inj hstep)
      rw [← heq] at hlt
      rw [lockSharedMemory_size hlt] at hp
      exact ⟨p, node, o, hp⟩
    · cases hstep
  | extend p nByte =>
    simp only [Shm.step] at hstep
    split at hstep
    · cases hstep
      exact absurd hlt (not_lt.mpr (le_max_left ..))
    · cases hstep
  | lock p c ofst n flags fails =>
    simp only [Shm.step] at hstep
    split at hstep
    · split at hstep
      · cases hstep
        exact absurd hlt (lt_irrefl _)
      · cases hstep
    · cases hstep
  | unmap p c =>
    simp only [Shm.step] at hstep
    split at hstep
    · split at hstep
      · cases hstep
        split at hlt
        · exact absurd hlt (lt_irrefl _)
        · exact absurd hlt (lt_irrefl _)
      · cases hstep
    · cases hstep

/-- Nobody who has taken the deadman switch sees the file get shorter, and no connection of the
process that truncates it. -/
theorem Reaches.truncated_alone (hs : s.Reaches) {a : ShmAction P C} {rc : Option CInt}
    (hstep : s.step a = some (s', rc)) (hlt : s'.size < s.size) (hq : s.node? q = some node)
    (hc : c ∈ node.pFirst) : node.isReadonly = true ∧ node.isUnlocked = true := by
  have hinv := hs.inv
  obtain ⟨p, node', o, hp⟩ := truncating_of_lt hstep hlt
  have hfits := hinv.fits p
  rw [hp] at hfits
  obtain ⟨-, ⟨hdms, hro⟩, hsome, hnone⟩ := hfits
  have hfits' := hinv.fits q
  unfold node? at hq
  split at hq
  · cases hq
  · next node₁ o₁ call₁ hprocess =>
    cases hq
    rw [hprocess] at hfits'
    obtain ⟨-, -, hsome', hnone'⟩ := hfits'
    cases o₁ with
    | some c₁ =>
      rw [hsome' rfl] at hc
      exact absurd hc List.not_mem_nil
    | none => exact hnone' rfl
  · next node₁ hprocess =>
    cases hq
    rw [hprocess] at hfits'
    obtain ⟨-, hlocked, hunlocked⟩ := hfits'
    have hne : q ≠ p := by
      rintro rfl
      cases hp.symm.trans hprocess
    have hfree := hinv.compatible p q _ (Ne.symm hne) hdms
    cases hun : node.isUnlocked with
    | true => exact ⟨(hunlocked hun).1, rfl⟩
    | false =>
      rw [hlocked hun] at hfree
      cases hfree

theorem truncated_alone_readerFirst : ∃ s' rc node,
    (after 5 readerFirst).step (.advance false false) = some (s', rc) ∧
      s'.size < (after 5 readerFirst).size ∧ (after 5 readerFirst).node? true = some node ∧
      false ∈ node.pFirst ∧ node.isReadonly = true ∧ node.isUnlocked = true := by
  obtain ⟨⟨s', rc⟩, hstep, hsize⟩ := Option.map_eq_some_iff.mp
    (show ((after 5 readerFirst).step (.advance false false)).map (fun r => r.1.size) = some 3 by
      decide +kernel)
  obtain ⟨node, hnode, hlist⟩ := Option.map_eq_some_iff.mp
    (show ((after 5 readerFirst).node? true).map (fun node => node.pFirst) = some [false] by
      decide +kernel)
  have hlt : s'.size < (after 5 readerFirst).size := by
    rw [show s'.size = 3 from hsize]
    decide +kernel
  have hc : false ∈ node.pFirst := by
    rw [hlist]
    exact List.mem_singleton.mpr rfl
  exact ⟨s', rc, node, hstep, hlt, hnode, hc,
    reaches_readerFirst.truncated_alone hstep hlt hnode hc⟩

end Shm

end Invariant

end RemoteVfs
