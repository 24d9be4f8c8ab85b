import RemoteVfs.Process
import RemoteVfs.Process.Backing

/-!
# Who owns a descriptor

A descriptor of the process belongs to one open file, or waits at one inode to be closed. So it is
closed once, and never while it is in use. The same goes for the memory that describes it.
-/

open CMem Locking Posix

namespace RemoteVfs

open LockCalls

/-! ## Counting -/

namespace Slot

/-- Whether it has the descriptor. -/
def uses (fd : Fd) : Slot → Nat
  | .opened image _ => if image.h = fd then 1 else 0
  | _ => 0

/-- Whether it has the `UnixUnusedFd`. -/
def keeps (p : Ptr) : Slot → Nat
  | .opened image .posix => if image.pPreallocatedUnused = p then 1 else 0
  | _ => 0

/-- Whether it is on the inode. -/
def refs (a : Ptr) : Slot → Nat
  | .opened image .posix => if image.pInode = a then 1 else 0
  | _ => 0

/-- Its part of the books of an inode. What a failed unlock has left there stays. -/
def level (a : Ptr) : Slot → Nat
  | .opened image .posix | .closed image => if image.pInode = a then image.eFileLock.toNat else 0
  | _ => 0

end Slot

section Counting

variable {H F : Type} [Fintype H] [DecidableEq H]

def total (f : Slot → Nat) (slot : H → Slot) : Nat := ∑ h, f (slot h)

theorem total_update (f : Slot → Nat) (slot : H → Slot) (h : H) (x : Slot) :
    total f (Function.update slot h x) + f (slot h) = total f slot + f x := by
  rw [total, total, ← Finset.add_sum_erase _ _ (Finset.mem_univ h),
    ← Finset.add_sum_erase _ (fun y => f (slot y)) (Finset.mem_univ h), Function.update_self]
  have hrest : ∑ y ∈ Finset.univ.erase h, f (Function.update slot h x y) =
      ∑ y ∈ Finset.univ.erase h, f (slot y) :=
    Finset.sum_congr rfl fun y hy => by rw [Function.update_of_ne (Finset.ne_of_mem_erase hy)]
  rw [hrest]
  omega

theorem total_update_of_eq {f : Slot → Nat} {slot : H → Slot} {h : H} {x : Slot}
    (hx : f x = f (slot h)) : total f (Function.update slot h x) = total f slot := by
  have := total_update f slot h x
  omega

omit [DecidableEq H] in
theorem le_total (f : Slot → Nat) (slot : H → Slot) (h : H) : f (slot h) ≤ total f slot :=
  Finset.single_le_sum (f := fun h => f (slot h)) (fun _ _ => Nat.zero_le _) (Finset.mem_univ h)

/-- How many of those that wait at the inodes of a list. -/
def waiting (inode : Ptr → UnixInodeInfo) (g : Ptr → Bool) (nodes : List (Ptr × F)) : Nat :=
  (nodes.map fun node => (inode node.1).pUnused.countP g).sum

theorem waiting_congr {inode inode' : Ptr → UnixInodeInfo} {g g' : Ptr → Bool}
    {nodes : List (Ptr × F)}
    (h : ∀ node ∈ nodes, (inode' node.1).pUnused.countP g' = (inode node.1).pUnused.countP g) :
    waiting inode' g' nodes = waiting inode g nodes := by
  rw [waiting, waiting, List.map_congr_left h]

theorem waiting_cons {inode : Ptr → UnixInodeInfo} {g : Ptr → Bool} {nodes : List (Ptr × F)}
    {a : Ptr} (f : F) {info : UnixInodeInfo} (hunused : info.pUnused = [])
    (hnew : ∀ node ∈ nodes, node.1 ≠ a) :
    waiting (Function.update inode a info) g ((a, f) :: nodes) = waiting inode g nodes := by
  rw [waiting, List.map_cons, List.sum_cons, Function.update_self, hunused, List.countP_nil,
    Nat.zero_add]
  exact waiting_congr fun x hx => by rw [Function.update_of_ne (hnew x hx)]

theorem waiting_update (inode : Ptr → UnixInodeInfo) (g : Ptr → Bool) {nodes : List (Ptr × F)}
    (hnodup : (nodes.map Prod.fst).Nodup) {a : Ptr} {f : F} (ha : (a, f) ∈ nodes)
    (info : UnixInodeInfo) :
    waiting (Function.update inode a info) g nodes + (inode a).pUnused.countP g =
      waiting inode g nodes + info.pUnused.countP g := by
  induction nodes with
  | nil => cases ha
  | cons node nodes ih =>
    rw [List.map_cons, List.nodup_cons] at hnodup
    simp only [waiting, List.map_cons, List.sum_cons] at ih ⊢
    rcases List.mem_cons.mp ha with rfl | ha
    · have hrest := @waiting_congr F inode (Function.update inode a info) g g nodes
        fun node hnode => by
          have hne : node.1 ≠ a := fun h => hnodup.1 (h ▸ List.mem_map.mpr ⟨node, hnode, rfl⟩)
          rw [Function.update_of_ne hne]
      simp only [waiting] at hrest
      rw [hrest, Function.update_self]
      dsimp only
      omega
    · have hne : node.1 ≠ a := fun h => hnodup.1 (h ▸ List.mem_map.mpr ⟨(a, f), ha, rfl⟩)
      rw [Function.update_of_ne hne]
      have := ih hnodup.2 ha
      omega

theorem countP_le_waiting (inode : Ptr → UnixInodeInfo) (g : Ptr → Bool) {nodes : List (Ptr × F)}
    {a : Ptr} {f : F} (ha : (a, f) ∈ nodes) :
    (inode a).pUnused.countP g ≤ waiting inode g nodes :=
  List.le_sum_of_mem (List.mem_map.mpr ⟨(a, f), ha, rfl⟩)

theorem perm_eraseP {nodes : List (Ptr × F)} (hnodup : (nodes.map Prod.fst).Nodup) {a : Ptr} {f : F}
    (ha : (a, f) ∈ nodes) : nodes.Perm ((a, f) :: nodes.eraseP fun node => node.1 = a) := by
  obtain ⟨x, l, l', -, hx, hl, heq⟩ := List.exists_of_eraseP (p := fun node : Ptr × F =>
    decide (node.1 = a)) ha (decide_eq_true rfl)
  have hxmem : x ∈ nodes := by rw [hl]; simp
  obtain rfl : x = (a, f) := List.inj_on_of_nodup_map hnodup hxmem ha (of_decide_eq_true hx)
  rw [heq]
  conv_lhs => rw [hl]
  exact List.perm_middle

end Counting

/-! ## Closing one after the other -/

section CloseAll

variable {F : Type} [DecidableEq F]

def closeAll (ps : List Ptr) (m : Memory F) : Memory F :=
  ps.foldl (fun m p => m.did (.close (m.unused p).fd)) m

theorem closePendingFds_eq (ω : Answers F) (g : UnixFile) (os : LockOs (Memory F)) :
    (UnixOpen.calls ω).closePendingFds g os =
      LockOs.setInode { os with rest := closeAll (os.inode g.pInode).pUnused os.rest } g.pInode
        { os.inode g.pInode with pUnused := [] } := rfl

omit [DecidableEq F] in
theorem closeAll_memory (ps : List Ptr) (m : Memory F) :
    (closeAll ps m).inodeList = m.inodeList ∧ (closeAll ps m).unused = m.unused ∧
      (closeAll ps m).heap = m.heap := by
  induction ps generalizing m with
  | nil => exact ⟨rfl, rfl, rfl⟩
  | cons p ps ih => exact ih _

theorem closeAll_fd (ps : List Ptr) (m : Memory F) (fd : Fd) : (closeAll ps m).own.fd fd =
    if fd ∈ ps.map (fun p => (m.unused p).fd) then none else m.own.fd fd := by
  induction ps generalizing m with
  | nil => exact (if_neg List.not_mem_nil).symm
  | cons p ps ih =>
    have hfd : (m.did (.close (m.unused p).fd)).own.fd =
      Function.update m.own.fd (m.unused p).fd none := Own.close_fd
    refine (ih _).trans ?_
    rw [hfd, List.map_cons]
    by_cases hx : fd = (m.unused p).fd
    · subst hx
      simp [Memory.did]
    · simp [hx, Memory.did]

theorem closeAll_elsewhere {f : F} (ps : List Ptr) (m : Memory F)
    (hf : ∀ p ∈ ps, ∀ f' w, m.own.fd (m.unused p).fd = some (f', w) → f' = f) :
    Elsewhere f m (closeAll ps m) := by
  induction ps generalizing m with
  | nil => exact .refl f m
  | cons p ps ih =>
    have hfd : (m.did (.close (m.unused p).fd)).own.fd =
      Function.update m.own.fd (m.unused p).fd none := Own.close_fd
    refine (close_elsewhere (hf p List.mem_cons_self)).trans (ih _ fun q hq f' w hq' => ?_)
    rw [hfd] at hq'
    by_cases hx : (m.unused q).fd = (m.unused p).fd
    · rw [show ((m.did (.close (m.unused p).fd)).unused q).fd = (m.unused q).fd from rfl, hx,
        Function.update_self] at hq'
      cases hq'
    · refine hf q (List.mem_cons_of_mem p hq) f' w (Eq.trans ?_ hq')
      exact (Function.update_of_ne hx ..).symm

theorem closeAll_guards (ps : List Ptr) (m : Memory F) (hg : dbGate.Guards m.log) :
    dbGate.Guards (closeAll ps m).log := by
  induction ps generalizing m with
  | nil => exact hg
  | cons p ps ih => exact ih _ ⟨hg, trivial⟩

end CloseAll

/-! ## The shape of a process -/

section Shape

variable {H F : Type} [DecidableEq F]

/-- A `UnixUnusedFd`, and the descriptor in it. It can be written if it has been opened for that. -/
structure Holds (m : Memory F) (p : Ptr) (f : F) : Prop where
  ne_null : p ≠ 0
  nonneg : 0 ≤ (m.unused p).fd.toInt
  fd : m.own.fd (m.unused p).fd = some (f, UnixOpen.isSet (m.unused p).flags 0x2)

/-- An open file with locks is on an inode. -/
structure Located (m : Memory F) (image : UnixFile) (f : F) : Prop where
  listed : (image.pInode, f) ∈ m.inodeList
  h : image.h = (m.unused image.pPreallocatedUnused).fd
  holds : Holds m image.pPreallocatedUnused f
  unlocked : ¬ processLocked image

/-- Of one handle. -/
def Slot.Fits (m : Memory F) : Slot → Prop
  | .fresh => True
  | .opened image .posix => ∃ f, Located m image f
  | .opened image .nolock => image.pInode = 0 ∧ 0 ≤ image.h.toInt
  | .closed image => image.pInode = 0 ∨ image.pInode ∈ m.heap

variable [Fintype H]

def Process.owners (s : Process H F) (fd : Fd) : Nat :=
  total (Slot.uses fd) s.slot +
    waiting s.os.inode (fun p => (s.os.rest.unused p).fd = fd) s.os.rest.inodeList

def Process.keepers (s : Process H F) (p : Ptr) : Nat :=
  total (Slot.keeps p) s.slot + waiting s.os.inode (· = p) s.os.rest.inodeList

/-- The descriptors, the inodes, and how they belong together. -/
structure Process.Shape (s : Process H F) : Prop where
  addresses : (s.os.rest.inodeList.map Prod.fst).Nodup
  files : (s.os.rest.inodeList.map Prod.snd).Nodup
  node : ∀ a f, (a, f) ∈ s.os.rest.inodeList → a ≠ 0 ∧ a ∈ s.os.rest.heap
  refs : ∀ a f, (a, f) ∈ s.os.rest.inodeList → (s.os.inode a).nRef = total (Slot.refs a) s.slot
  fits : ∀ h, (s.slot h).Fits s.os.rest
  waits : ∀ a f, (a, f) ∈ s.os.rest.inodeList → ∀ p ∈ (s.os.inode a).pUnused, Holds s.os.rest p f
  owners : ∀ fd, s.owners fd = (s.os.rest.own.fd fd).isSome.toNat
  keepers : ∀ p, s.keepers p ≤ 1
  allocated : ∀ p, s.keepers p ≠ 0 → p ∈ s.os.rest.heap

/-! ## What leaves the shape alone -/

omit [Fintype H] in
theorem Holds.congr {m m' : Memory F} {p : Ptr} {f : F} (h : Holds m p f)
    (hunused : m'.unused p = m.unused p)
    (hfd : m'.own.fd (m.unused p).fd = m.own.fd (m.unused p).fd) : Holds m' p f :=
  ⟨h.ne_null, by rw [hunused]; exact h.nonneg, by rw [hunused, hfd]; exact h.fd⟩

theorem Slot.Fits.congr {m m' : Memory F} {v : Slot} (hv : v.Fits m)
    (hposix : ∀ image f, v = .opened image .posix → Located m image f →
      (image.pInode, f) ∈ m'.inodeList ∧
        m'.unused image.pPreallocatedUnused = m.unused image.pPreallocatedUnused ∧
        m'.own.fd image.h = m.own.fd image.h)
    (hheap : ∀ a ∈ m.heap, a ∈ m'.heap) : v.Fits m' := by
  cases v with
  | fresh => trivial
  | opened image style =>
    cases style with
    | posix =>
      obtain ⟨f, hon⟩ := hv
      obtain ⟨hlisted, hunused, hfd⟩ := hposix image f rfl hon
      rw [hon.h] at hfd
      exact ⟨f, hlisted, by rw [hunused]; exact hon.h, hon.holds.congr hunused hfd, hon.unlocked⟩
    | nolock => exact hv
  | closed image => exact hv.imp_right (hheap _)

variable {s : Process H F} {h h' : H} {image image' g : UnixFile} {style style' : LockingStyle}
  {os' : LockOs (Memory F)} {a a' p : Ptr} {f f' : F}

/-- The same descriptors, and the same in memory, but for memory that nobody keeps. -/
structure Process.Same (s : Process H F) (os' : LockOs (Memory F)) : Prop where
  inodeList : os'.rest.inodeList = s.os.rest.inodeList
  unused : ∀ p, s.keepers p ≠ 0 → os'.rest.unused p = s.os.rest.unused p
  heap : ∀ p ∈ s.os.rest.heap, p ∈ os'.rest.heap
  fd : os'.rest.own.fd = s.os.rest.own.fd
  inode : ∀ a, (os'.inode a).nRef = (s.os.inode a).nRef ∧
    (os'.inode a).pUnused = (s.os.inode a).pUnused

namespace Process

omit [DecidableEq F] in
theorem keepers_of_waits (ha : (a, f) ∈ s.os.rest.inodeList) (hp : p ∈ (s.os.inode a).pUnused) :
    s.keepers p ≠ 0 := by
  have hcount : 0 < (s.os.inode a).pUnused.countP (· = p) :=
    List.countP_pos_iff.mpr ⟨p, hp, decide_eq_true rfl⟩
  have := countP_le_waiting s.os.inode (· = p) ha
  rw [keepers]
  omega

omit [DecidableEq F] in
theorem keepers_of_opened (hslot : s.slot h = .opened image .posix) :
    s.keepers image.pPreallocatedUnused ≠ 0 := by
  have := le_total (Slot.keeps image.pPreallocatedUnused) s.slot h
  rw [hslot, Slot.keeps, if_pos rfl] at this
  rw [keepers]
  omega

namespace Shape

theorem same (hs : s.Shape) (hsame : s.Same os') : Process.Shape ⟨os', s.slot⟩ := by
  have hwaiting (g g' : Ptr → Bool) (hg : ∀ a f, (a, f) ∈ s.os.rest.inodeList →
      ∀ p ∈ (s.os.inode a).pUnused, g' p = g p) :
      waiting os'.inode g' s.os.rest.inodeList = waiting s.os.inode g s.os.rest.inodeList :=
    waiting_congr fun x hx => by
      rw [(hsame.inode x.1).2]
      refine List.countP_congr fun p hp => ?_
      rw [hg x.1 x.2 hx p hp]
  constructor
  all_goals simp only [Process.owners, Process.keepers, hsame.inodeList, hsame.fd]
  · exact hs.addresses
  · exact hs.files
  · exact fun a f ha => (hs.node a f ha).imp_right (hsame.heap a)
  · exact fun a f ha => (hsame.inode a).1.trans (hs.refs a f ha)
  · refine fun h => (hs.fits h).congr (fun image f hslot hon => ?_) hsame.heap
    rw [hsame.inodeList, hsame.unused _ (keepers_of_opened hslot), hsame.fd]
    exact ⟨hon.listed, rfl, rfl⟩
  · intro a f ha p hp
    rw [(hsame.inode a).2] at hp
    exact (hs.waits a f ha p hp).congr (hsame.unused p (keepers_of_waits ha hp)) (by rw [hsame.fd])
  · refine fun fd => Eq.trans ?_ (hs.owners fd)
    rw [Process.owners, hwaiting _ _ fun a f ha p hp => ?_]
    rw [hsame.unused p (keepers_of_waits ha hp)]
  · intro p
    rw [hwaiting _ _ fun _ _ _ _ _ => rfl]
    exact hs.keepers p
  · intro p hp
    rw [hwaiting _ _ fun _ _ _ _ _ => rfl] at hp
    exact hsame.heap p (hs.allocated p hp)

theorem file_eq (hs : s.Shape) (ha : (a, f) ∈ s.os.rest.inodeList)
    (ha' : (a, f') ∈ s.os.rest.inodeList) : f = f' :=
  congrArg Prod.snd (List.inj_on_of_nodup_map hs.addresses ha ha' rfl)

theorem address_eq (hs : s.Shape) (ha : (a, f) ∈ s.os.rest.inodeList)
    (ha' : (a', f) ∈ s.os.rest.inodeList) : a = a' :=
  congrArg Prod.fst (List.inj_on_of_nodup_map hs.files ha ha' rfl)

theorem waits_elsewhere (hs : s.Shape) (ha : (a, f) ∈ s.os.rest.inodeList) :
    Elsewhere f s.os.rest (closeAll (s.os.inode a).pUnused s.os.rest) := by
  refine closeAll_elsewhere _ _ fun p hp f' w hfd => ?_
  have := (hs.waits a f ha p hp).fd.symm.trans hfd
  exact (Prod.mk.inj (Option.some.inj this)).1.symm

/-! ## One inode -/

theorem closePendingFds (hs : s.Shape) (ω : Answers F) (ha : (g.pInode, f) ∈ s.os.rest.inodeList) :
    Process.Shape ⟨(UnixOpen.calls ω).closePendingFds g s.os, s.slot⟩ := by
  have hmem := closeAll_memory (s.os.inode g.pInode).pUnused s.os.rest
  have hfd := closeAll_fd (s.os.inode g.pInode).pUnused s.os.rest
  rw [closePendingFds_eq]
  generalize closeAll (s.os.inode g.pInode).pUnused s.os.rest = m at hmem hfd
  obtain ⟨hlist, hunused, hheap⟩ := hmem
  obtain ⟨info, hinfo, hnRef, hnil⟩ : ∃ info, { s.os.inode g.pInode with pUnused := [] } = info ∧
    info.nRef = (s.os.inode g.pInode).nRef ∧ info.pUnused = [] := ⟨_, rfl, rfl, rfl⟩
  rw [hinfo]
  have hwaiting (q : Ptr → Bool) : waiting (Function.update s.os.inode g.pInode info) q
      s.os.rest.inodeList + (s.os.inode g.pInode).pUnused.countP q =
      waiting s.os.inode q s.os.rest.inodeList := by
    have := waiting_update s.os.inode q hs.addresses ha info
    rwa [hnil, List.countP_nil, Nat.add_zero] at this
  have hopen (fd : Fd) : s.owners fd ≤ 1 := by
    rw [hs.owners]
    exact Bool.toNat_le _
  -- What is in use, or waits elsewhere, does not wait here.
  have hkeep (fd : Fd) (hother : 0 < total (Slot.uses fd) s.slot +
      waiting (Function.update s.os.inode g.pInode info) (fun p => (s.os.rest.unused p).fd = fd)
        s.os.rest.inodeList) :
      m.own.fd fd = s.os.rest.own.fd fd := by
    rw [hfd, if_neg]
    intro hin
    obtain ⟨p, hp, rfl⟩ := List.mem_map.mp hin
    have hpos : 0 < (s.os.inode g.pInode).pUnused.countP
        (fun q => (s.os.rest.unused q).fd = (s.os.rest.unused p).fd) :=
      List.countP_pos_iff.mpr ⟨p, hp, decide_eq_true rfl⟩
    have hle := hopen (s.os.rest.unused p).fd
    have := hwaiting fun q => (s.os.rest.unused q).fd = (s.os.rest.unused p).fd
    rw [Process.owners] at hle
    omega
  constructor
  all_goals simp only [Process.owners, Process.keepers, LockOs.setInode, hlist, hunused, hheap]
  · exact hs.addresses
  · exact hs.files
  · exact hs.node
  · intro a f' ha'
    by_cases hne : a = g.pInode
    · subst hne
      rw [Function.update_self, hnRef]
      exact hs.refs _ f' ha'
    · rw [Function.update_of_ne hne]
      exact hs.refs a f' ha'
  · refine fun h => (hs.fits h).congr (fun image f hslot hon => ?_) fun a ha => by rwa [hheap]
    rw [hlist, hunused]
    refine ⟨hon.listed, rfl, hkeep image.h ?_⟩
    have := le_total (Slot.uses image.h) s.slot h
    rw [hslot, Slot.uses, if_pos rfl] at this
    omega
  · intro a f' ha' p hp
    by_cases hne : a = g.pInode
    · subst hne
      rw [Function.update_self, hnil] at hp
      cases hp
    · rw [Function.update_of_ne hne] at hp
      refine (hs.waits a f' ha' p hp).congr (by rw [hunused]) (hkeep _ ?_)
      have hle := countP_le_waiting (Function.update s.os.inode g.pInode info)
        (fun q => (s.os.rest.unused q).fd = (s.os.rest.unused p).fd) ha'
      rw [Function.update_of_ne hne] at hle
      have hpos : 0 < (s.os.inode a).pUnused.countP
          (fun q => (s.os.rest.unused q).fd = (s.os.rest.unused p).fd) :=
        List.countP_pos_iff.mpr ⟨p, hp, decide_eq_true rfl⟩
      omega
  · intro fd
    have hown := hs.owners fd
    have := hwaiting fun p => (s.os.rest.unused p).fd = fd
    rw [Process.owners] at hown
    rw [hfd]
    split
    · next hin =>
      obtain ⟨p, hp, rfl⟩ := List.mem_map.mp hin
      have hpos : 0 < (s.os.inode g.pInode).pUnused.countP
          (fun q => (s.os.rest.unused q).fd = (s.os.rest.unused p).fd) :=
        List.countP_pos_iff.mpr ⟨p, hp, decide_eq_true rfl⟩
      have := Bool.toNat_le (s.os.rest.own.fd (s.os.rest.unused p).fd).isSome
      rw [Option.isSome_none, Bool.toNat_false]
      omega
    · next hout =>
      have hzero : (s.os.inode g.pInode).pUnused.countP
          (fun p => (s.os.rest.unused p).fd = fd) = 0 :=
        List.countP_eq_zero.mpr fun p hp hpfd =>
          hout (List.mem_map.mpr ⟨p, hp, of_decide_eq_true hpfd⟩)
      omega
  · intro p
    have hold := hs.keepers p
    have := hwaiting (· = p)
    rw [Process.keepers] at hold
    omega
  · intro p hp
    refine hs.allocated p ?_
    have := hwaiting (· = p)
    rw [Process.keepers]
    omega

theorem addNode (hs : s.Shape) (h0 : a ≠ 0) (hnew : a ∉ s.os.rest.heap)
    (hf : ∀ node ∈ s.os.rest.inodeList, node.2 ≠ f) (info : UnixInodeInfo) (hnRef : info.nRef = 0)
    (hunused : info.pUnused = []) :
    Process.Shape ⟨LockOs.setInode { s.os with rest := { s.os.rest with
      inodeList := (a, f) :: s.os.rest.inodeList
      heap := a :: s.os.rest.heap } } a info, s.slot⟩ := by
  have hlisted : ∀ a' f', (a', f') ∈ s.os.rest.inodeList → a' ≠ a := fun a' f' ha' heq =>
    hnew (heq ▸ (hs.node a' f' ha').2)
  have hwaiting (g : Ptr → Bool) : waiting (Function.update s.os.inode a info) g
      ((a, f) :: s.os.rest.inodeList) = waiting s.os.inode g s.os.rest.inodeList :=
    waiting_cons f hunused fun x hx => hlisted x.1 x.2 hx
  have hfits : ∀ h, (s.slot h).Fits { s.os.rest with
      inodeList := (a, f) :: s.os.rest.inodeList
      heap := a :: s.os.rest.heap } := fun h =>
    (hs.fits h).congr (fun image f hslot hon => ⟨List.mem_cons_of_mem _ hon.listed, rfl, rfl⟩)
      fun p hp => List.mem_cons_of_mem _ hp
  have hrefs : total (Slot.refs a) s.slot = 0 := by
    refine Finset.sum_eq_zero fun h _ => ?_
    cases hslot : s.slot h with
    | opened image style =>
      cases style with
      | posix =>
        obtain ⟨f', hloc⟩ := hslot ▸ hs.fits h
        exact if_neg (hlisted _ f' hloc.listed)
      | nolock => rfl
    | _ => rfl
  constructor
  all_goals simp only [Process.owners, Process.keepers, LockOs.setInode, hwaiting]
  · rw [List.map_cons, List.nodup_cons]
    refine ⟨fun ha => ?_, hs.addresses⟩
    obtain ⟨x, hx, rfl⟩ := List.mem_map.mp ha
    exact hlisted x.1 x.2 hx rfl
  · rw [List.map_cons, List.nodup_cons]
    refine ⟨fun ha => ?_, hs.files⟩
    obtain ⟨x, hx, rfl⟩ := List.mem_map.mp ha
    exact hf x hx rfl
  · intro a' f' ha'
    rcases List.mem_cons.mp ha' with heq | ha'
    · cases heq
      exact ⟨h0, List.mem_cons_self⟩
    · exact (hs.node a' f' ha').imp_right (List.mem_cons_of_mem _)
  · intro a' f' ha'
    rcases List.mem_cons.mp ha' with heq | ha'
    · cases heq
      rw [Function.update_self, hnRef, hrefs]
      rfl
    · rw [Function.update_of_ne (hlisted a' f' ha')]
      exact hs.refs a' f' ha'
  · exact hfits
  · intro a' f' ha' p hp
    rcases List.mem_cons.mp ha' with heq | ha'
    · cases heq
      rw [Function.update_self, hunused] at hp
      cases hp
    · rw [Function.update_of_ne (hlisted a' f' ha')] at hp
      exact (hs.waits a' f' ha' p hp).congr rfl rfl
  · exact hs.owners
  · exact hs.keepers
  · exact fun p hp => List.mem_cons_of_mem _ (hs.allocated p hp)

theorem drop (hs : s.Shape) (ha : (a, f) ∈ s.os.rest.inodeList) (hnRef : (s.os.inode a).nRef = 0)
    (hunused : (s.os.inode a).pUnused = []) :
    Process.Shape ⟨{ s.os with rest := { s.os.rest with
      inodeList := s.os.rest.inodeList.eraseP fun node => node.1 = a } }, s.slot⟩ := by
  have hperm := perm_eraseP hs.addresses ha
  generalize s.os.rest.inodeList.eraseP (fun node => node.1 = a) = nodes at hperm
  have hmem : ∀ x, x ∈ nodes → x ∈ s.os.rest.inodeList := fun x hx =>
    hperm.mem_iff.mpr (List.mem_cons_of_mem _ hx)
  have hwaiting (g : Ptr → Bool) : waiting s.os.inode g nodes =
      waiting s.os.inode g s.os.rest.inodeList := by
    have hsum := (hperm.map fun node => (s.os.inode node.1).pUnused.countP g).sum_eq
    rw [List.map_cons, List.sum_cons, hunused, List.countP_nil, Nat.zero_add] at hsum
    exact hsum.symm
  constructor
  all_goals simp only [Process.owners, Process.keepers, hwaiting]
  · exact ((hperm.map Prod.fst).nodup_iff.mp hs.addresses).of_cons
  · exact ((hperm.map Prod.snd).nodup_iff.mp hs.files).of_cons
  · exact fun a' f' ha' => hs.node a' f' (hmem _ ha')
  · exact fun a' f' ha' => hs.refs a' f' (hmem _ ha')
  · refine fun h => (hs.fits h).congr (fun image f' hslot hon => ⟨?_, rfl, rfl⟩) fun _ hp => hp
    refine (List.mem_cons.mp (hperm.mem_iff.mp hon.listed)).resolve_left fun heq => ?_
    have hle := le_total (Slot.refs a) s.slot h
    have hrefs := hs.refs a f ha
    rw [hslot, Slot.refs, if_pos (Prod.mk.inj heq).1] at hle
    omega
  · exact fun a' f' ha' p hp => (hs.waits a' f' (hmem _ ha') p hp).congr rfl rfl
  · exact hs.owners
  · exact hs.keepers
  · exact hs.allocated

/-! ## One handle -/

variable [DecidableEq H] {v : Slot} {info : UnixInodeInfo}

omit [Fintype H] [DecidableEq F] in
theorem slot_update {P : Slot → Prop} {slot : H → Slot} (hold : ∀ x, P (slot x)) (hnew : P v)
    (x : H) : P (Function.update slot h v x) := by
  by_cases hx : x = h
  · subst hx
    rwa [Function.update_self]
  · rw [Function.update_of_ne hx]
    exact hold x

theorem keepers_move (hs : s.Shape) (ha : (a, f) ∈ s.os.rest.inodeList) (info : UnixInodeInfo)
    (v : Slot) (p : Ptr) :
    Process.keepers ⟨s.os.setInode a info, Function.update s.slot h v⟩ p +
      Slot.keeps p (s.slot h) + (s.os.inode a).pUnused.countP (· = p) =
      s.keepers p + Slot.keeps p v + info.pUnused.countP (· = p) := by
  have htotal := total_update (Slot.keeps p) s.slot h v
  have hwaiting := waiting_update s.os.inode (· = p) hs.addresses ha info
  simp only [Process.keepers, LockOs.setInode]
  omega

theorem move (hs : s.Shape) (ha : (a, f) ∈ s.os.rest.inodeList)
    (hrefs : info.nRef + Slot.refs a (s.slot h) = (s.os.inode a).nRef + Slot.refs a v)
    (hother : ∀ a' ≠ a, Slot.refs a' v = Slot.refs a' (s.slot h)) (hfits : v.Fits s.os.rest)
    (hwaits : ∀ p ∈ info.pUnused, Holds s.os.rest p f)
    (howners : ∀ fd, Slot.uses fd v +
        info.pUnused.countP (fun p => (s.os.rest.unused p).fd = fd) = Slot.uses fd (s.slot h) +
        (s.os.inode a).pUnused.countP (fun p => (s.os.rest.unused p).fd = fd))
    (hkeepers : ∀ p, Slot.keeps p v + info.pUnused.countP (· = p) ≤ Slot.keeps p (s.slot h) +
        (s.os.inode a).pUnused.countP (· = p) ∨ s.keepers p = 0 ∧ p ∈ s.os.rest.heap ∧
          Slot.keeps p v + info.pUnused.countP (· = p) ≤ 1) :
    Process.Shape ⟨s.os.setInode a info, Function.update s.slot h v⟩ := by
  have hkeep (p : Ptr) := keepers_move hs ha info v p (h := h)
  refine ⟨hs.addresses, hs.files, hs.node, ?_, slot_update hs.fits hfits, ?_, ?_, ?_, ?_⟩
  · intro a' f' ha'
    have htotal := total_update (Slot.refs a') s.slot h v
    have hold := hs.refs a' f' ha'
    by_cases hne : a' = a
    · subst hne
      rw [LockOs.setInode_inode]
      dsimp only
      omega
    · rw [hother a' hne] at htotal
      simp only [LockOs.setInode, Function.update_of_ne hne]
      omega
  · intro a' f' ha' p hp
    by_cases hne : a' = a
    · subst hne
      rw [LockOs.setInode_inode] at hp
      rw [hs.file_eq ha' ha]
      exact hwaits p hp
    · simp only [LockOs.setInode, Function.update_of_ne hne] at hp
      exact hs.waits a' f' ha' p hp
  · intro fd
    have htotal := total_update (Slot.uses fd) s.slot h v
    have hwaiting := waiting_update s.os.inode (fun p => (s.os.rest.unused p).fd = fd)
      hs.addresses ha info
    have hold := hs.owners fd
    have := howners fd
    rw [Process.owners] at hold
    change total (Slot.uses fd) (Function.update s.slot h v) +
      waiting (Function.update s.os.inode a info) (fun p => (s.os.rest.unused p).fd = fd)
        s.os.rest.inodeList = (s.os.rest.own.fd fd).isSome.toNat
    omega
  · intro p
    have := hkeep p
    have := hs.keepers p
    rcases hkeepers p with hle | ⟨h0, -, hle⟩ <;> omega
  · intro p hp
    rcases hkeepers p with hle | ⟨-, hheap, -⟩
    · refine hs.allocated p fun h0 => hp ?_
      have := hkeep p
      omega
    · exact hheap

theorem relabel (hs : s.Shape) (hslot : s.slot h = .opened image style)
    (hh : g.h = image.h) (hino : g.pInode = image.pInode)
    (hposix : style = .posix → g.pPreallocatedUnused = image.pPreallocatedUnused ∧
      (processLocked g ↔ processLocked image)) :
    Process.Shape ⟨s.os, Function.update s.slot h (.opened g style)⟩ := by
  have huses (fd : Fd) : Slot.uses fd (.opened g style) = Slot.uses fd (s.slot h) := by
    rw [hslot, Slot.uses, Slot.uses, hh]
  have hkeeps (p : Ptr) : Slot.keeps p (.opened g style) = Slot.keeps p (s.slot h) := by
    rw [hslot]
    cases style with
    | posix => rw [Slot.keeps, (hposix rfl).1, Slot.keeps]
    | nolock => rfl
  have hrefs (a : Ptr) : Slot.refs a (.opened g style) = Slot.refs a (s.slot h) := by
    rw [hslot]
    cases style <;> simp [Slot.refs, hino]
  have hfits : Slot.Fits s.os.rest (.opened g style) := by
    have hold := hs.fits h
    rw [hslot] at hold
    cases style with
    | posix =>
      obtain ⟨f, hon⟩ := hold
      obtain ⟨hpre, hlocked⟩ := hposix rfl
      exact ⟨f, by rw [hino]; exact hon.listed, by rw [hh, hpre]; exact hon.h,
        by rw [hpre]; exact hon.holds, mt hlocked.mp hon.unlocked⟩
    | nolock =>
      rw [Slot.Fits, hino, hh]
      exact hold
  constructor
  all_goals simp only [Process.owners, Process.keepers, total_update_of_eq (huses _),
    total_update_of_eq (hkeeps _), total_update_of_eq (hrefs _)]
  · exact hs.addresses
  · exact hs.files
  · exact hs.node
  · exact hs.refs
  · exact slot_update hs.fits hfits
  · exact hs.waits
  · exact hs.owners
  · exact hs.keepers
  · exact hs.allocated

theorem attach (hs : s.Shape) (hslot : s.slot h = .opened g .nolock) (hg : g.h = image.h)
    (hloc : Located s.os.rest image f) (hfree : s.keepers image.pPreallocatedUnused = 0)
    (hheap : image.pPreallocatedUnused ∈ s.os.rest.heap) :
    Process.Shape ⟨s.os.setInode image.pInode
      { s.os.inode image.pInode with nRef := (s.os.inode image.pInode).nRef + 1 },
      Function.update s.slot h (.opened image .posix)⟩ := by
  refine hs.move hloc.listed ?_ (fun a' ha' => ?_) ⟨f, hloc⟩ (hs.waits _ f hloc.listed)
    (fun fd => ?_) fun p => ?_
  · simp [hslot, Slot.refs]
  · simp [hslot, Slot.refs, Ne.symm ha']
  · simp [hslot, Slot.uses, hg]
  · by_cases hp : image.pPreallocatedUnused = p
    · subst hp
      have hwaiting := countP_le_waiting s.os.inode (· = image.pPreallocatedUnused) hloc.listed
      refine .inr ⟨hfree, hheap, ?_⟩
      rw [Process.keepers] at hfree
      dsimp only
      rw [Slot.keeps, if_pos rfl]
      omega
    · exact .inl (by simp [hslot, Slot.keeps, hp])

theorem detach (hs : s.Shape) (hslot : s.slot h = .opened image .posix)
    (hg : g.h = image.h) (h0 : g.pInode = 0) :
    Process.Shape ⟨s.os.setInode image.pInode
      { s.os.inode image.pInode with nRef := (s.os.inode image.pInode).nRef - 1 },
      Function.update s.slot h (.opened g .nolock)⟩ := by
  obtain ⟨f, hloc⟩ := hslot ▸ hs.fits h
  refine hs.move hloc.listed ?_ (fun a' ha' => ?_) ⟨h0, ?_⟩ (hs.waits _ f hloc.listed)
    (fun fd => ?_) fun p => .inl ?_
  · simp [hslot, Slot.refs]
  · simp [hslot, Slot.refs, Ne.symm ha']
  · rw [hg, hloc.h]
    exact hloc.holds.nonneg
  · simp [hslot, Slot.uses, hg]
  · simp [hslot, Slot.keeps]

theorem park (hs : s.Shape) (hslot : s.slot h = .opened image .posix)
    (hg : g.pInode = image.pInode) :
    Process.Shape ⟨s.os.setInode image.pInode { s.os.inode image.pInode with
        nRef := (s.os.inode image.pInode).nRef - 1
        pUnused := image.pPreallocatedUnused :: (s.os.inode image.pInode).pUnused },
      Function.update s.slot h (.closed g)⟩ := by
  obtain ⟨f, hloc⟩ := hslot ▸ hs.fits h
  refine hs.move hloc.listed ?_ (fun a' ha' => ?_) (.inr ?_) ?_ (fun fd => ?_) fun p => .inl ?_
  · simp [hslot, Slot.refs]
  · simp [hslot, Slot.refs, Ne.symm ha']
  · rw [hg]
    exact (hs.node _ f hloc.listed).2
  · intro p hp
    rcases List.mem_cons.mp hp with rfl | hp
    · exact hloc.holds
    · exact hs.waits _ f hloc.listed p hp
  · simp [hslot, Slot.uses, hloc.h, List.countP_cons]
    omega
  · simp [hslot, Slot.keeps, List.countP_cons]
    omega

theorem unpark (hs : s.Shape) (hslot : s.slot h = .fresh) (ha : (a, f) ∈ s.os.rest.inodeList)
    {l : List Ptr} (hperm : (s.os.inode a).pUnused.Perm (p :: l))
    (hg : g.h = (s.os.rest.unused p).fd) (h0 : g.pInode = 0) :
    Process.Shape ⟨s.os.setInode a { s.os.inode a with pUnused := l },
      Function.update s.slot h (.opened g .nolock)⟩ := by
  have hp : p ∈ (s.os.inode a).pUnused := hperm.mem_iff.mpr List.mem_cons_self
  refine hs.move ha ?_ (fun a' _ => ?_) ⟨h0, ?_⟩ (fun q hq => ?_) (fun fd => ?_) fun q => .inl ?_
  · simp [hslot, Slot.refs]
  · simp [hslot, Slot.refs]
  · rw [hg]
    exact (hs.waits a f ha p hp).nonneg
  · exact hs.waits a f ha q (hperm.mem_iff.mpr (List.mem_cons_of_mem p hq))
  · simp [hslot, Slot.uses, hperm.countP_eq, List.countP_cons, hg]
    omega
  · simp [hslot, Slot.keeps, hperm.countP_eq, List.countP_cons]

theorem keepers_unpark (hs : s.Shape) (hslot : s.slot h = .fresh)
    (ha : (a, f) ∈ s.os.rest.inodeList) {l : List Ptr}
    (hperm : (s.os.inode a).pUnused.Perm (p :: l)) (g : UnixFile) :
    Process.keepers ⟨s.os.setInode a { s.os.inode a with pUnused := l },
      Function.update s.slot h (.opened g .nolock)⟩ p = 0 := by
  have hmove := hs.keepers_move (h := h) ha { s.os.inode a with pUnused := l }
    (.opened g .nolock) p
  have hle := hs.keepers p
  have hcount : (p :: l).countP (· = p) = l.countP (· = p) + 1 := by simp
  rw [hperm.countP_eq, hcount, hslot] at hmove
  change _ + 0 + _ = _ + 0 + l.countP (· = p) at hmove
  omega

/-! ## One descriptor -/

omit [DecidableEq F] in
theorem uses_of_ne (hslot : s.slot h' = .opened image style) (hne : h' ≠ h) :
    Slot.uses image.h (s.slot h) + 1 ≤ total (Slot.uses image.h) s.slot := by
  have htotal := total_update (Slot.uses image.h) s.slot h .fresh
  have hle := le_total (Slot.uses image.h) (Function.update s.slot h .fresh) h'
  rw [Function.update_of_ne hne, hslot] at hle
  simp only [Slot.uses, if_true] at hle htotal ⊢
  omega

theorem setFd (hs : s.Shape) {x : Fd} {m : Memory F}
    (hm : m.inodeList = s.os.rest.inodeList ∧ m.unused = s.os.rest.unused ∧
      m.heap = s.os.rest.heap)
    (hfd : ∀ fd ≠ x, m.own.fd fd = s.os.rest.own.fd fd)
    (hown : s.owners x = Slot.uses x (s.slot h))
    (huses : ∀ fd, Slot.uses fd v + (s.os.rest.own.fd fd).isSome.toNat =
      Slot.uses fd (s.slot h) + (m.own.fd fd).isSome.toNat)
    (hkeeps : ∀ p, Slot.keeps p v = Slot.keeps p (s.slot h))
    (hrefs : ∀ a, Slot.refs a v = Slot.refs a (s.slot h)) (hfits : v.Fits m) :
    Process.Shape ⟨{ s.os with rest := m }, Function.update s.slot h v⟩ := by
  obtain ⟨hlist, hunused, hheap⟩ := hm
  have hwaits : ∀ a f, (a, f) ∈ s.os.rest.inodeList → ∀ p ∈ (s.os.inode a).pUnused,
      (s.os.rest.unused p).fd ≠ x := by
    rintro a f ha p hp rfl
    have hpos : 0 < (s.os.inode a).pUnused.countP
        (fun q => (s.os.rest.unused q).fd = (s.os.rest.unused p).fd) :=
      List.countP_pos_iff.mpr ⟨p, hp, decide_eq_true rfl⟩
    have := countP_le_waiting s.os.inode
      (fun q => (s.os.rest.unused q).fd = (s.os.rest.unused p).fd) ha
    have := le_total (Slot.uses (s.os.rest.unused p).fd) s.slot h
    rw [Process.owners] at hown
    omega
  have huser : ∀ h' ≠ h, ∀ image style, s.slot h' = .opened image style → image.h ≠ x := by
    rintro h' hne image style hslot rfl
    have := uses_of_ne hslot hne
    rw [Process.owners] at hown
    omega
  constructor
  all_goals simp only [Process.owners, Process.keepers, hlist, hunused, hheap,
    total_update_of_eq (hkeeps _), total_update_of_eq (hrefs _)]
  · exact hs.addresses
  · exact hs.files
  · exact hs.node
  · exact hs.refs
  · intro h'
    by_cases hne : h' = h
    · subst hne
      rwa [Function.update_self]
    · rw [Function.update_of_ne hne]
      refine (hs.fits h').congr (fun image f hslot hon => ?_) fun a ha => by rwa [hheap]
      rw [hlist, hunused, hfd _ (huser h' hne image _ hslot)]
      exact ⟨hon.listed, rfl, rfl⟩
  · exact fun a f ha p hp => (hs.waits a f ha p hp).congr (by rw [hunused])
      (hfd _ (hwaits a f ha p hp))
  · intro fd
    have htotal := total_update (Slot.uses fd) s.slot h v
    have hold := hs.owners fd
    have := huses fd
    rw [Process.owners] at hold
    omega
  · exact hs.keepers
  · exact hs.allocated

theorem acquire (hs : s.Shape) (hslot : s.slot h = .fresh) {w : Bool}
    (hnone : s.os.rest.own.fd g.h = none) (hnonneg : 0 ≤ g.h.toInt) (h0 : g.pInode = 0)
    {m : Memory F} (hm : m.inodeList = s.os.rest.inodeList ∧ m.unused = s.os.rest.unused ∧
      m.heap = s.os.rest.heap)
    (hfd : m.own.fd = Function.update s.os.rest.own.fd g.h (some (f, w))) :
    Process.Shape ⟨{ s.os with rest := m }, Function.update s.slot h (.opened g .nolock)⟩ := by
  refine hs.setFd (x := g.h) hm (fun fd hne => ?_) ?_ (fun fd => ?_) (fun p => ?_) (fun a => ?_)
    ⟨h0, hnonneg⟩
  · rw [hfd, Function.update_of_ne hne]
  · rw [hs.owners, hnone, hslot]
    rfl
  · rw [hfd, hslot]
    by_cases hx : g.h = fd
    · subst hx
      simp [Slot.uses, hnone]
    · simp [Slot.uses, hx, Function.update_of_ne (Ne.symm hx)]
  · rw [hslot]
    rfl
  · rw [hslot]
    rfl

theorem release (hs : s.Shape) (hslot : s.slot h = .opened g .nolock)
    (hv : v = .fresh ∨ ∃ g', v = .closed g' ∧ (g'.pInode = 0 ∨ g'.pInode ∈ s.os.rest.heap)) :
    Process.Shape ⟨{ s.os with rest := s.os.rest.did (.close g.h) },
      Function.update s.slot h v⟩ := by
  have hnone : (∀ fd, Slot.uses fd v = 0) ∧ (∀ p, Slot.keeps p v = 0) ∧
      (∀ a, Slot.refs a v = 0) ∧ v.Fits s.os.rest := by
    rcases hv with rfl | ⟨g', rfl, hg'⟩
    · exact ⟨fun _ => rfl, fun _ => rfl, fun _ => rfl, trivial⟩
    · exact ⟨fun _ => rfl, fun _ => rfl, fun _ => rfl, hg'⟩
  have hfd : (s.os.rest.did (.close g.h)).own.fd =
      Function.update s.os.rest.own.fd g.h none := Own.close_fd
  have hle := le_total (Slot.uses g.h) s.slot h
  have hown := hs.owners g.h
  rw [Process.owners] at hown
  rw [hslot, Slot.uses, if_pos rfl] at hle
  have hsome := Bool.toNat_le (s.os.rest.own.fd g.h).isSome
  refine hs.setFd (x := g.h) ⟨rfl, rfl, rfl⟩ (fun fd hne => ?_) ?_ (fun fd => ?_) (fun p => ?_)
    (fun a => ?_) (hnone.2.2.2.congr (fun image f hv' => ?_) fun _ ha => ha)
  · rw [hfd, Function.update_of_ne hne]
  · rw [Process.owners, hslot, Slot.uses, if_pos rfl]
    omega
  · rw [hfd, hslot, hnone.1]
    by_cases hx : g.h = fd
    · subst hx
      simp only [Slot.uses, if_true, Function.update_self]
      rw [Option.isSome_none, Bool.toNat_false]
      omega
    · simp [Slot.uses, hx, Function.update_of_ne (Ne.symm hx)]
  · rw [hnone.2.1, hslot]
    rfl
  · rw [hnone.2.2.1, hslot]
    rfl
  · rcases hv with rfl | ⟨g', rfl, -⟩ <;> cases hv'

end Shape

end Process

end Shape

end RemoteVfs
