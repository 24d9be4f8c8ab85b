import RemoteVfs.SharedMemory

/-!
# A lock of the shared memory

The masks of the connections and the locks of their process move together, slot by slot.
-/

open CMem Posix

namespace RemoteVfs

/-! ## Masks -/

theorem shmMask_lt : ∀ ofst < 9, ∀ n < 9, ofst + n ≤ 8 → ∀ i < 16,
    (shmMask ofst n).getLsbD i = decide (ofst ≤ i ∧ i < ofst + n) := by
  decide

theorem getLsbD_shmMask {ofst n i : Nat} (h : ofst + n ≤ sqliteShmNlock) :
    (shmMask ofst n).getLsbD i = true ↔ ofst ≤ i ∧ i < ofst + n := by
  unfold sqliteShmNlock at h
  by_cases hi : i < 16
  · rw [shmMask_lt ofst (by omega) n (by omega) h i hi, decide_eq_true_eq]
  · rw [BitVec.getLsbD_of_ge _ _ (not_lt.mp hi)]
    simp only [Bool.false_eq_true, false_iff]
    omega

theorem and_eq_zero_iff {a b : BitVec 16} :
    a &&& b = 0 ↔ ∀ i, a.getLsbD i = true → b.getLsbD i = true → False := by
  constructor
  · intro h i ha hb
    have hi : (a &&& b).getLsbD i = true := by rw [BitVec.getLsbD_and, ha, hb]; rfl
    rw [h] at hi
    simp at hi
  · intro h
    apply BitVec.eq_of_getLsbD_eq
    intro i _
    have hi := h i
    simp only [BitVec.getLsbD_and, BitVec.ofNat_eq_ofNat, BitVec.getLsbD_zero]
    revert hi
    cases a.getLsbD i <;> cases b.getLsbD i <;> simp

namespace UnixShmNode

variable {C : Type} {node : UnixShmNode C} {l : List C} {c : C} {i : Nat}

/-- A connection has slot `i`. -/
def Shared (node : UnixShmNode C) (c : C) (i : Nat) : Prop :=
  (node.pShm c).sharedMask.getLsbD i = true

def Excl (node : UnixShmNode C) (c : C) (i : Nat) : Prop :=
  (node.pShm c).exclMask.getLsbD i = true

theorem getLsbD_sharedBy :
    (node.sharedBy l).getLsbD i = true ↔ ∃ c ∈ l, node.Shared c i := by
  have hfold (mask : BitVec 16) :
      (l.foldl (fun mask pX => mask ||| (node.pShm pX).sharedMask) mask).getLsbD i = true ↔
        mask.getLsbD i = true ∨ ∃ c ∈ l, node.Shared c i := by
    induction l generalizing mask with
    | nil => simp
    | cons c l ih =>
      rw [List.foldl_cons, ih, BitVec.getLsbD_or, Bool.or_eq_true, or_assoc]
      simp only [List.mem_cons, exists_eq_or_imp]
      rfl
  rw [sharedBy, hfold]
  simp

/-- The lock of the process on slot `i` is that which its connections have between them. -/
def SlotLock (node : UnixShmNode C) (i : Nat) : Option Mode → Prop
  | none => ∀ c ∈ node.pFirst, ¬ node.Excl c i ∧ ¬ node.Shared c i
  | some .read => (∃ c ∈ node.pFirst, node.Shared c i) ∧ ∀ c ∈ node.pFirst, ¬ node.Excl c i
  | some .write => ∃ c ∈ node.pFirst, node.Excl c i ∧
    ∀ c' ∈ node.pFirst, (c' ≠ c → ¬ node.Excl c' i) ∧ ¬ node.Shared c' i

variable {m : Option Mode} {c' : C}

theorem SlotLock.of_excl (h : node.SlotLock i m) (hc : c ∈ node.pFirst) (hexcl : node.Excl c i) :
    m = some .write ∧ ∀ c' ∈ node.pFirst, (c' ≠ c → ¬ node.Excl c' i) ∧ ¬ node.Shared c' i := by
  cases m with
  | none => exact absurd hexcl (h c hc).1
  | some m =>
    cases m with
    | read => exact absurd hexcl (h.2 c hc)
    | write =>
      obtain ⟨c₁, hc₁, hexcl₁, hothers⟩ := h
      have heq : c = c₁ := by
        by_contra hne
        exact (hothers c hc).1 hne hexcl
      rw [heq]
      exact ⟨rfl, hothers⟩

theorem SlotLock.of_shared (h : node.SlotLock i m) (hc : c ∈ node.pFirst)
    (hshared : node.Shared c i) : m = some .read ∧ ∀ c' ∈ node.pFirst, ¬ node.Excl c' i := by
  cases m with
  | none => exact absurd hshared (h c hc).2
  | some m =>
    cases m with
    | read => exact ⟨rfl, h.2⟩
    | write =>
      obtain ⟨c₁, hc₁, -, hothers⟩ := h
      exact absurd hshared (hothers c hc).2

theorem SlotLock.congr {node' : UnixShmNode C} (h : node.SlotLock i m)
    (hlist : node'.pFirst = node.pFirst)
    (hexcl : ∀ c, node'.Excl c i ↔ node.Excl c i)
    (hshared : ∀ c, node'.Shared c i ↔ node.Shared c i) : node'.SlotLock i m := by
  unfold SlotLock at h ⊢
  simpa only [hlist, hexcl, hshared] using h

/-- The slots of a process that has `t` locked. -/
def SlotLocks (node : UnixShmNode C) (t : Nat → Option Mode) : Prop :=
  ∀ i < sqliteShmNlock, node.SlotLock i (t (unixShmBase + i))

section Masks

variable [DecidableEq C] {p : C} {masks : UnixShm}

theorem setMasks_self : (node.setMasks p masks).pShm p = masks := Function.update_self ..

theorem setMasks_of_ne (hc : c ≠ p) : (node.setMasks p masks).pShm c = node.pShm c :=
  Function.update_of_ne hc ..

theorem SlotLock.setMasks (h : node.SlotLock i m)
    (hshared : masks.sharedMask.getLsbD i = (node.pShm p).sharedMask.getLsbD i)
    (hexcl : masks.exclMask.getLsbD i = (node.pShm p).exclMask.getLsbD i) :
    (node.setMasks p masks).SlotLock i m := by
  refine h.congr rfl (fun c => ?_) fun c => ?_
  · by_cases hc : c = p
    · rw [Excl, Excl, hc, setMasks_self, hexcl]
    · rw [Excl, Excl, setMasks_of_ne hc]
  · by_cases hc : c = p
    · rw [Shared, Shared, hc, setMasks_self, hshared]
    · rw [Shared, Shared, setMasks_of_ne hc]

end Masks

end UnixShmNode

/-! ## What a lock does -/

section Lock

open UnixShmNode

variable {P C : Type} [Fintype P] [DecidableEq P] [DecidableEq C] {pid : P} {fails : Bool}
  {p : C} {ofst n : Nat} {flags rc : CInt} {node node' : UnixShmNode C} {t t' : Locks P}
  {lockType : LockType}

theorem mem_slots {b : Nat} (hn : 1 ≤ n) : b ∈ (⟨ofst, n⟩ : Range) ↔ ofst ≤ b ∧ b < ofst + n := by
  rw [Range.mem_iff, Range.size, if_neg (show n ≠ 0 by omega)]

theorem unixShmSystemLock_cases
    (h : unixShmSystemLock pid fails lockType ofst n t = (rc, t')) :
    (rc = sqliteOk ∧ t' = t.set pid ⟨ofst, n⟩ lockType.mode ∨ rc = sqliteBusy ∧ t' = t) ∧
      (t.Compatible → t'.Compatible) := by
  unfold unixShmSystemLock at h
  split at h
  · cases h
    exact ⟨.inr ⟨rfl, rfl⟩, id⟩
  · split at h
    · next hmode =>
      cases h
      exact ⟨.inl ⟨rfl, by rw [hmode]⟩, .unlock⟩
    · next m hmode =>
      split at h
      · next hfree =>
        cases h
        exact ⟨.inl ⟨rfl, by rw [hmode]⟩, fun hc => hc.lock hfree⟩
      · cases h
        exact ⟨.inr ⟨rfl, rfl⟩, id⟩

/-- A call on the locks of a process, with the masks that belong to them. -/
structure ShmMoves (pid : P) (node node' : UnixShmNode C) (t t' : Locks P) : Prop where
  same : node'.pFirst = node.pFirst ∧ node'.isReadonly = node.isReadonly ∧
    node'.isUnlocked = node.isUnlocked
  compatible : t.Compatible → t'.Compatible
  others : ∀ q, q ≠ pid → t' q = t q
  dms : t' pid unixShmDms = t pid unixShmDms
  slots : node'.SlotLocks (t' pid)

/-- A connection releases what it has. -/
def Releases (node : UnixShmNode C) (p : C) (ofst n : Nat) (flags : CInt) : Prop :=
  flags = 5 ∧ n = 1 ∧ node.Shared p ofst ∨
    flags = 9 ∧ ∀ i, ofst ≤ i → i < ofst + n → node.Excl p i

omit [Fintype P] [DecidableEq P] [DecidableEq C] in
theorem ShmMoves.stay (h : node.SlotLocks (t pid)) : ShmMoves pid node node t t :=
  ⟨⟨rfl, rfl, rfl⟩, id, fun _ _ => rfl, rfl, h⟩

omit [Fintype P] [DecidableEq P] in
theorem ShmMoves.masks {masks : UnixShm} (h : node.SlotLocks (t pid))
    (hin : ∀ i < sqliteShmNlock, ofst ≤ i → i < ofst + n →
      (node.setMasks p masks).SlotLock i (t pid (unixShmBase + i)))
    (hout : ∀ i, ¬ (ofst ≤ i ∧ i < ofst + n) →
      masks.sharedMask.getLsbD i = (node.pShm p).sharedMask.getLsbD i ∧
        masks.exclMask.getLsbD i = (node.pShm p).exclMask.getLsbD i) :
    ShmMoves pid node (node.setMasks p masks) t t := by
  refine ⟨⟨rfl, rfl, rfl⟩, id, fun _ _ => rfl, rfl, fun i hi => ?_⟩
  by_cases hmem : ofst ≤ i ∧ i < ofst + n
  · exact hin i hi hmem.1 hmem.2
  · exact (h i hi).setMasks (hout i hmem).1 (hout i hmem).2

omit [Fintype P] in
theorem ShmMoves.system {masks : UnixShm} {m : Option Mode} (hn : 1 ≤ n)
    (hofst : ofst + n ≤ sqliteShmNlock) (h : node.SlotLocks (t pid))
    (hcompat : t.Compatible → (t.set pid ⟨ofst + unixShmBase, n⟩ m).Compatible)
    (hin : ∀ i < sqliteShmNlock, ofst ≤ i → i < ofst + n → (node.setMasks p masks).SlotLock i m)
    (hout : ∀ i, ¬ (ofst ≤ i ∧ i < ofst + n) →
      masks.sharedMask.getLsbD i = (node.pShm p).sharedMask.getLsbD i ∧
        masks.exclMask.getLsbD i = (node.pShm p).exclMask.getLsbD i) :
    ShmMoves pid node (node.setMasks p masks) t (t.set pid ⟨ofst + unixShmBase, n⟩ m) := by
  refine ⟨⟨rfl, rfl, rfl⟩, hcompat, fun q hq => Locks.set_of_ne hq, ?_, fun i hi => ?_⟩
  · rw [Locks.set_self, if_neg]
    rw [mem_slots hn, unixShmDms]
    omega
  · rw [Locks.set_self]
    by_cases hmem : ofst ≤ i ∧ i < ofst + n
    · rw [if_pos (by rw [mem_slots hn]; omega)]
      exact hin i hi hmem.1 hmem.2
    · rw [if_neg (by rw [mem_slots hn]; omega)]
      exact (h i hi).setMasks (hout i hmem).1 (hout i hmem).2

theorem sqliteBusy_ne_ok : sqliteBusy ≠ sqliteOk := by decide

theorem getLsbD_andNot {mask : BitVec 16} {i : Nat} (hofst : ofst + n ≤ sqliteShmNlock) :
    (mask &&& ~~~shmMask ofst n).getLsbD i = true ↔
      mask.getLsbD i = true ∧ ¬ (ofst ≤ i ∧ i < ofst + n) := by
  rw [← getLsbD_shmMask hofst, BitVec.getLsbD_and, BitVec.getLsbD_not, Bool.and_eq_true,
    Bool.and_eq_true, Bool.not_eq_true', decide_eq_true_eq, Bool.not_eq_true]
  constructor
  · rintro ⟨hm, -, hbit⟩
    exact ⟨hm, hbit⟩
  · rintro ⟨hm, hbit⟩
    exact ⟨hm, BitVec.lt_of_getLsbD hm, hbit⟩

theorem getLsbD_or_shmMask {mask : BitVec 16} {i : Nat} (hofst : ofst + n ≤ sqliteShmNlock) :
    (mask ||| shmMask ofst n).getLsbD i = true ↔
      mask.getLsbD i = true ∨ ofst ≤ i ∧ i < ofst + n := by
  rw [← getLsbD_shmMask hofst, BitVec.getLsbD_or, Bool.or_eq_true]

theorem getLsbD_andNot_of_not {mask : BitVec 16} {i : Nat} (hofst : ofst + n ≤ sqliteShmNlock)
    (hi : ¬ (ofst ≤ i ∧ i < ofst + n)) :
    (mask &&& ~~~shmMask ofst n).getLsbD i = mask.getLsbD i := by
  rw [Bool.eq_iff_iff, getLsbD_andNot hofst]
  exact and_iff_left hi

theorem getLsbD_or_of_not {mask : BitVec 16} {i : Nat} (hofst : ofst + n ≤ sqliteShmNlock)
    (hi : ¬ (ofst ≤ i ∧ i < ofst + n)) :
    (mask ||| shmMask ofst n).getLsbD i = mask.getLsbD i := by
  rw [Bool.eq_iff_iff, getLsbD_or_shmMask hofst]
  exact or_iff_left hi

omit [Fintype P] [DecidableEq P] in
theorem released {masks : UnixShm} {i : Nat} (hofst : ofst + n ≤ sqliteShmNlock)
    (hlo : ofst ≤ i) (hhi : i < ofst + n) :
    let gone := node.setMasks p ⟨masks.sharedMask &&& ~~~shmMask ofst n,
      masks.exclMask &&& ~~~shmMask ofst n⟩
    ¬ gone.Excl p i ∧ ¬ gone.Shared p i := by
  intro gone
  rw [Excl, Shared, setMasks_self]
  dsimp only
  rw [getLsbD_andNot hofst, getLsbD_andNot hofst]
  exact ⟨fun hbit => hbit.2 ⟨hlo, hhi⟩, fun hbit => hbit.2 ⟨hlo, hhi⟩⟩

theorem mem_siblings {c : C} : c ∈ node.pFirst.filter (fun pX => pX ≠ p) ↔
    c ∈ node.pFirst ∧ c ≠ p := by
  rw [List.mem_filter, decide_eq_true_eq]

/-- Unlock: the system keeps a slot that a sibling has SHARED. -/
theorem unlock_moves (hp : p ∈ node.pFirst) (hn : 1 ≤ n) (hofst : ofst + n ≤ sqliteShmNlock)
    (h : node.SlotLocks (t pid)) (hhas : Releases node p ofst n flags) (hflags : flags &&& 1 ≠ 0)
    (hrun : unixShmLock pid fails p ofst n flags node t = (rc, node', t')) :
    ShmMoves pid node node' t t' := by
  unfold unixShmLock at hrun
  simp only [if_pos hflags] at hrun
  have hout {i : Nat} (hi : ¬ (ofst ≤ i ∧ i < ofst + n)) :
      ((node.pShm p).sharedMask &&& ~~~shmMask ofst n).getLsbD i =
          (node.pShm p).sharedMask.getLsbD i ∧
        ((node.pShm p).exclMask &&& ~~~shmMask ofst n).getLsbD i =
          (node.pShm p).exclMask.getLsbD i :=
    ⟨getLsbD_andNot_of_not hofst hi, getLsbD_andNot_of_not hofst hi⟩
  by_cases hfree : shmMask ofst n &&&
      node.sharedBy (node.pFirst.filter fun pX => decide (pX ≠ p)) = 0
  · rw [if_pos hfree] at hrun
    rcases hsys : unixShmSystemLock pid fails .unlck (ofst + unixShmBase) n t with ⟨rc₁, t₁⟩
    obtain ⟨hcases, hcompat⟩ := unixShmSystemLock_cases hsys
    rw [hsys] at hrun
    rcases hcases with ⟨rfl, rfl⟩ | ⟨rfl, rfl⟩
    · simp only [if_true] at hrun
      cases hrun
      refine .system (m := none) hn hofst h hcompat (fun i hi hlo hhi => ?_) fun i => hout
      intro c hc
      by_cases hcp : c = p
      · rw [hcp]
        exact released hofst hlo hhi
      · rw [Excl, Shared, setMasks_of_ne hcp]
        constructor
        · -- The slot is with `p`, so it is with nobody else.
          intro hexcl
          obtain ⟨-, hothers⟩ := (h i hi).of_excl hc hexcl
          rcases hhas with ⟨-, hone, hshared⟩ | ⟨-, hexclp⟩
          · obtain rfl : i = ofst := by omega
            exact (hothers p hp).2 hshared
          · exact (hothers p hp).1 (Ne.symm hcp) (hexclp i hlo hhi)
        · intro hshared
          refine and_eq_zero_iff.mp hfree i ((getLsbD_shmMask hofst).mpr ⟨hlo, hhi⟩) ?_
          exact getLsbD_sharedBy.mpr ⟨c, mem_siblings.mpr ⟨hc, hcp⟩, hshared⟩
    · simp only [if_neg sqliteBusy_ne_ok] at hrun
      cases hrun
      exact .stay h
  · rw [if_neg hfree] at hrun
    simp only [if_true] at hrun
    cases hrun
    refine .masks h (fun i hi hlo hhi => ?_) fun i => hout
    rw [and_eq_zero_iff] at hfree
    push Not at hfree
    obtain ⟨j, hj, hsib, -⟩ := hfree
    obtain ⟨c, hc, hshared⟩ := getLsbD_sharedBy.mp hsib
    obtain ⟨hc, hcp⟩ := mem_siblings.mp hc
    have hj := (getLsbD_shmMask hofst).mp hj
    obtain ⟨hread, hexcl⟩ := (h j (by omega)).of_shared hc hshared
    rcases hhas with ⟨-, hone, -⟩ | ⟨-, hexclp⟩
    · obtain rfl : i = j := by omega
      rw [hread]
      refine ⟨⟨c, hc, ?_⟩, fun c' hc' => ?_⟩
      · rw [Shared, setMasks_of_ne hcp]
        exact hshared
      · by_cases hcp' : c' = p
        · rw [hcp']
          exact (released hofst hlo hhi).1
        · rw [Excl, setMasks_of_ne hcp']
          exact hexcl c' hc'
    · exact absurd (hexclp j hj.1 hj.2) (hexcl p hp)

theorem and_shmMask_iff {mask : BitVec 16} (hofst : ofst + n ≤ sqliteShmNlock) :
    mask &&& shmMask ofst n = 0 ↔ ∀ i, ofst ≤ i → i < ofst + n → ¬ mask.getLsbD i = true := by
  rw [and_eq_zero_iff]
  apply forall_congr'
  intro i
  rw [getLsbD_shmMask hofst]
  exact ⟨fun h hlo hhi hbit => h hbit ⟨hlo, hhi⟩, fun h hbit hmem => h hmem.1 hmem.2 hbit⟩

theorem share_moves (hp : p ∈ node.pFirst) (hofst : ofst + 1 ≤ sqliteShmNlock)
    (h : node.SlotLocks (t pid)) (hunlock : ¬ flags &&& 1 ≠ 0) (hshare : flags &&& 4 ≠ 0)
    (hrun : unixShmLock pid fails p ofst 1 flags node t = (rc, node', t')) :
    ShmMoves pid node node' t t' := by
  unfold unixShmLock at hrun
  simp only [if_neg hunlock, if_pos hshare] at hrun
  split at hrun
  · cases hrun
    exact .stay h
  next hbusy =>
  have hclear : ∀ c ∈ node.pFirst, (node.pShm c).exclMask &&& shmMask ofst 1 = 0 := by
    simpa using hbusy
  have hexcl : ∀ c ∈ node.pFirst, ∀ i, ofst ≤ i → i < ofst + 1 → ¬ node.Excl c i :=
    fun c hc => (and_shmMask_iff hofst).mp (hclear c hc)
  have hout {i : Nat} (hi : ¬ (ofst ≤ i ∧ i < ofst + 1)) :
      ((node.pShm p).sharedMask ||| shmMask ofst 1).getLsbD i =
        (node.pShm p).sharedMask.getLsbD i := getLsbD_or_of_not hofst hi
  -- The slot afterwards, when the process has a read lock there.
  have hin {masks : UnixShm} (i : Nat) (hlo : ofst ≤ i) (hhi : i < ofst + 1)
      (hmasks : masks = { node.pShm p with
        sharedMask := (node.pShm p).sharedMask ||| shmMask ofst 1 }) :
      (node.setMasks p masks).SlotLock i (some .read) := by
    refine ⟨⟨p, hp, ?_⟩, fun c hc => ?_⟩
    · rw [Shared, setMasks_self, hmasks, getLsbD_or_shmMask hofst]
      exact .inr ⟨hlo, hhi⟩
    · by_cases hcp : c = p
      · rw [Excl, hcp, setMasks_self, hmasks]
        exact hexcl p hp i hlo hhi
      · rw [Excl, setMasks_of_ne hcp]
        exact hexcl c hc i hlo hhi
  by_cases hfree : node.sharedBy node.pFirst &&& shmMask ofst 1 = 0
  · rw [if_pos hfree] at hrun
    rcases hsys : unixShmSystemLock pid fails .rdlck (ofst + unixShmBase) 1 t with ⟨rc₁, t₁⟩
    obtain ⟨hcases, hcompat⟩ := unixShmSystemLock_cases hsys
    rw [hsys] at hrun
    rcases hcases with ⟨rfl, rfl⟩ | ⟨rfl, rfl⟩
    · simp only [if_true] at hrun
      cases hrun
      exact .system (m := some .read) le_rfl hofst h hcompat
        (fun i _ hlo hhi => hin i hlo hhi rfl) fun i hi => ⟨hout hi, rfl⟩
    · simp only [if_neg sqliteBusy_ne_ok] at hrun
      cases hrun
      exact .stay h
  · rw [if_neg hfree] at hrun
    simp only [if_true] at hrun
    cases hrun
    refine .masks h (fun i hi hlo hhi => ?_) fun i hi => ⟨hout hi, rfl⟩
    rw [and_eq_zero_iff] at hfree
    push Not at hfree
    obtain ⟨j, hsib, hj, -⟩ := hfree
    obtain ⟨c, hc, hshared⟩ := getLsbD_sharedBy.mp hsib
    obtain ⟨hjlo, hjhi⟩ := (getLsbD_shmMask hofst).mp hj
    obtain rfl : i = j := by omega
    rw [((h i hi).of_shared hc hshared).1]
    exact hin i hlo hhi rfl

theorem exclude_moves (hp : p ∈ node.pFirst) (hn : 1 ≤ n) (hofst : ofst + n ≤ sqliteShmNlock)
    (h : node.SlotLocks (t pid)) (hunlock : ¬ flags &&& 1 ≠ 0) (hshare : ¬ flags &&& 4 ≠ 0)
    (hrun : unixShmLock pid fails p ofst n flags node t = (rc, node', t')) :
    ShmMoves pid node node' t t' := by
  unfold unixShmLock at hrun
  simp only [if_neg hunlock, if_neg hshare] at hrun
  split at hrun
  · cases hrun
    exact .stay h
  next hbusy =>
  have hclear : ∀ c ∈ node.pFirst, (node.pShm c).exclMask &&& shmMask ofst n = 0 ∧
      (node.pShm c).sharedMask &&& shmMask ofst n = 0 := by
    simpa using hbusy
  have hnone : ∀ c ∈ node.pFirst, ∀ i, ofst ≤ i → i < ofst + n →
      ¬ node.Excl c i ∧ ¬ node.Shared c i := by
    intro c hc i hlo hhi
    constructor
    · exact (and_shmMask_iff hofst).mp (hclear c hc).1 i hlo hhi
    · exact (and_shmMask_iff hofst).mp (hclear c hc).2 i hlo hhi
  rcases hsys : unixShmSystemLock pid fails .wrlck (ofst + unixShmBase) n t with ⟨rc₁, t₁⟩
  obtain ⟨hcases, hcompat⟩ := unixShmSystemLock_cases hsys
  rw [hsys] at hrun
  rcases hcases with ⟨rfl, rfl⟩ | ⟨rfl, rfl⟩
  · simp only [if_true] at hrun
    cases hrun
    refine .system (m := some .write) hn hofst h hcompat (fun i _ hlo hhi => ?_) fun i hi =>
      ⟨rfl, getLsbD_or_of_not hofst hi⟩
    refine ⟨p, hp, ?_, fun c hc => ⟨fun hcp => ?_, ?_⟩⟩
    · rw [Excl, setMasks_self, getLsbD_or_shmMask hofst]
      exact .inr ⟨hlo, hhi⟩
    · rw [Excl, setMasks_of_ne hcp]
      exact (hnone c hc i hlo hhi).1
    · by_cases hcp : c = p
      · rw [Shared, hcp, setMasks_self]
        exact (hnone p hp i hlo hhi).2
      · rw [Shared, setMasks_of_ne hcp]
        exact (hnone c hc i hlo hhi).2
  · simp only [if_neg sqliteBusy_ne_ok] at hrun
    cases hrun
    exact .stay h

/-- What the callers of `unixShmLock` see to: slots that there are, one at a time for SHARED, and
no unlock of what the connection does not have. -/
def LockRequest (node : UnixShmNode C) (p : C) (ofst n : Nat) (flags : CInt) : Prop :=
  1 ≤ n ∧ ofst + n ≤ sqliteShmNlock ∧
    (flags = 6 ∧ n = 1 ∨ flags = 10 ∨ Releases node p ofst n flags)

theorem unixShmLock_moves (hp : p ∈ node.pFirst) (h : node.SlotLocks (t pid))
    (hreq : LockRequest node p ofst n flags)
    (hrun : unixShmLock pid fails p ofst n flags node t = (rc, node', t')) :
    ShmMoves pid node node' t t' := by
  obtain ⟨hn, hofst, hflags⟩ := hreq
  rcases hflags with ⟨rfl, rfl⟩ | rfl | hhas
  · exact share_moves hp hofst h (by decide) (by decide) hrun
  · exact exclude_moves hp hn hofst h (by decide) (by decide) hrun
  · refine unlock_moves hp hn hofst h hhas ?_ hrun
    rcases hhas with ⟨rfl, -⟩ | ⟨rfl, -⟩ <;> decide

end Lock

end RemoteVfs
