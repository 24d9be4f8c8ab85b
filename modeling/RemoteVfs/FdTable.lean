import RemoteVfs.Convert
import RemoteVfs.Memory.Chain

/-!
# The table of descriptors: a linked list behind `listHead`

A node is known by its address. `none` is what the source leaves undefined: an
access outside a buffer, or a walk that never ends.
-/

open CMem

namespace RemoteVfs

structure MethodAndFD where
  fd : CInt
  method : Ptr
  path : Buf 512
  next : Option Nat

/-- The nodes, the next address that `malloc` gives, and `listHead`. -/
structure FdTable where
  mem : Nat → MethodAndFD
  brk : Nat
  listHead : Option Nat

namespace FdTable

def set (t : FdTable) (a : Nat) (node : MethodAndFD) : FdTable :=
  { t with mem := Function.update t.mem a node }

/-- `malloc(sizeof(MethodAndFD))`: the node holds what the memory held. -/
def malloc (t : FdTable) : FdTable × Nat := ({ t with brk := t.brk + 1 }, t.brk)

def next (t : FdTable) (a : Nat) : Option Nat := (t.mem a).next

/-- `InitList` -/
def initList (t : FdTable) : FdTable :=
  let (t, head) := t.malloc
  { t.set head { t.mem head with next := none } with listHead := some head }

/-- `if (NULL == listHead) { InitList(); }` -/
def ensureList (t : FdTable) : FdTable := if t.listHead = none then t.initList else t

/-- `FindNode`: the table, the node of `fd`, and `*pre`. -/
def findNode (t : FdTable) (fd : CInt) (pre : Option Nat) :
    Option (FdTable × Option Nat × Option Nat) := do
  let t := t.ensureList
  let head ← t.listHead
  let (node, pre) ← search t.next (fun a => fd = (t.mem a).fd) t.brk (t.next head) pre
  return (t, node, pre)

/-- `AddNode` after its search: a new node behind `prev`, or the new method in `node`. -/
def linkNode (t : FdTable) (fd : CInt) (method : Ptr) (node prev : Option Nat) : Option FdTable :=
  match node with
  | none => do
    let (t, temp) := t.malloc
    let t := t.set temp { t.mem temp with fd := fd, method := method, next := none }
    let prev ← prev
    return t.set prev { t.mem prev with next := some temp }
  | some node => some (t.set node { t.mem node with method := method })

/-- `AddNode` -/
def addNode (t : FdTable) (fd : CInt) (method : Ptr) : Option FdTable := do
  let t := t.ensureList
  let (t, node, prev) ← t.findNode fd t.listHead
  t.linkNode fd method node prev

/-- `DeleteNode`, which nothing calls. A freed address is not given out again. -/
def deleteNode (t : FdTable) (fd : CInt) : Option FdTable := do
  let t := t.ensureList
  let (t, node, prev) ← t.findNode fd t.listHead
  match node with
  | none => return t
  | some _ =>
    let prev ← prev
    let node ← t.next prev
    return t.set prev { t.mem prev with next := t.next node }

/-- `setServicePath`, where `path` is the memory from the pointer on. -/
def setServicePath (t : FdTable) (fd : CInt) (path : List Byte) : Option FdTable := do
  let (t, node, _) ← t.findNode fd t.listHead
  match node with
  | none => return t
  | some node =>
    let path ← (t.mem node).path.strcpy path
    return t.set node { t.mem node with path := path }

/-- `setServerUnixPMethods` -/
def setServerUnixPMethods (t : FdTable) (fd : CInt) (pf : UnixFile) : Option FdTable :=
  t.addNode fd pf.pMethod

/-- `getServicePath`. Also the node whose `path` the image now points to, if any. -/
def getServicePath (A : Addresses) (t : FdTable) (fd : CInt) (id : UnixFile) :
    Option (FdTable × UnixFile × Option Nat) := do
  let (t, node, _) ← t.findNode fd t.listHead
  match node with
  | none => return (t, id, none)
  | some node => return (t, { id with zPath := A.nodePath node }, some node)

/-- `getServerUnixPMethods` -/
def getServerUnixPMethods (A : Addresses) (t : FdTable) (fd : CInt) (pf : UnixFile) :
    Option (FdTable × UnixFile) := do
  let (t, node, _) ← t.findNode fd t.listHead
  match node with
  | none => return (t, { pf with pMethod := A.posixIoMethods })
  | some node =>
    if (t.mem node).method = 0 then return (t, { pf with pMethod := A.posixIoMethods })
    else return (t, { pf with pMethod := (t.mem node).method })

/-! ## What the list holds -/

/-- The cells of the list are `head`, the one that stands for no descriptor, and `l`. -/
structure Wf (t : FdTable) (head : Nat) (l : List Nat) : Prop where
  listHead : t.listHead = some head
  chain : Chain t.next (some head) (head :: l)
  nodup : (head :: l).Nodup
  bounded : ∀ a ∈ head :: l, a < t.brk
  distinct : (l.map fun a => (t.mem a).fd).Nodup

/-- Before the first request there is no list yet. -/
def Valid (t : FdTable) : Prop := t.listHead = none ∨ ∃ head l, t.Wf head l

/-- The node of `fd`. -/
def node? (t : FdTable) (fd : CInt) : Option Nat :=
  if t.listHead = none then none else (t.findNode fd none).bind (·.2.1)

/-- What the table says about `fd`. -/
def lookup (t : FdTable) (fd : CInt) : Option (Ptr × Buf 512) :=
  (t.node? fd).map fun a => ((t.mem a).method, (t.mem a).path)

variable {t : FdTable} {head : Nat} {l : List Nat}

namespace Wf

theorem length_le (h : t.Wf head l) : l.length ≤ t.brk :=
  length_le_of_nodup h.nodup.of_cons fun a ha => h.bounded a (List.mem_cons_of_mem head ha)

theorem ensureList (h : t.Wf head l) : t.ensureList = t := by
  rw [FdTable.ensureList, h.listHead, if_neg (by simp)]

theorem chain_next (h : t.Wf head l) : Chain t.next (t.next head) l := h.chain.2

theorem findNode (h : t.Wf head l) (fd : CInt) (pre : Option Nat) :
    t.findNode fd pre = some (t, l.find? fun a => fd = (t.mem a).fd,
      (l.takeWhile fun a => !decide (fd = (t.mem a).fd)).getLast?.or pre) := by
  rw [FdTable.findNode, h.ensureList, h.listHead]
  simp [search_eq _ h.chain_next h.length_le]

theorem node? (h : t.Wf head l) (fd : CInt) :
    t.node? fd = l.find? fun a => fd = (t.mem a).fd := by
  rw [FdTable.node?, h.listHead, if_neg (by simp), h.findNode]
  rfl

end Wf

theorem Valid.ensureList (h : t.Valid) :
    ∃ head l, t.ensureList.Wf head l ∧ ∀ fd, t.ensureList.node? fd = t.node? fd := by
  rcases h with h | ⟨head, l, hw⟩
  · have hw : t.ensureList.Wf t.brk [] := by
      rw [FdTable.ensureList, if_pos h]
      refine ⟨rfl, ⟨rfl, ?_⟩, by simp, ?_, by simp⟩
      · simp [Chain, next, initList, malloc, set]
      · simp [initList, malloc, set]
    refine ⟨t.brk, [], hw, fun fd => ?_⟩
    rw [hw.node?, FdTable.node?, if_pos h]
    rfl
  · exact ⟨head, l, hw.ensureList.symm ▸ hw, fun fd => by rw [hw.ensureList]⟩

theorem ensureList_idem (t : FdTable) : t.ensureList.ensureList = t.ensureList := by
  by_cases h : t.listHead = none
  · rw [ensureList, ensureList, if_pos h]
    rfl
  · rw [ensureList, ensureList, if_neg h, if_neg h]

theorem findNode_ensureList (t : FdTable) (fd : CInt) (pre : Option Nat) :
    t.ensureList.findNode fd pre = t.findNode fd pre := by
  rw [findNode, ensureList_idem, findNode]

theorem addNode_ensureList (t : FdTable) (fd : CInt) (method : Ptr) :
    t.ensureList.addNode fd method = t.addNode fd method := by
  rw [addNode, ensureList_idem, addNode]

theorem ensureList_of_node? {fd : CInt} {a : Nat} (ha : t.node? fd = some a) :
    t.ensureList = t := by
  rw [ensureList, if_neg]
  intro h
  rw [node?, if_pos h] at ha
  exact absurd ha (by simp)

theorem Valid.wf_of_node? (h : t.Valid) {fd : CInt} {a : Nat} (ha : t.node? fd = some a) :
    ∃ head l, t.Wf head l := by
  obtain ⟨head, l, hw, -⟩ := h.ensureList
  exact ⟨head, l, ensureList_of_node? ha ▸ hw⟩

theorem Valid.findNode (h : t.Valid) (fd : CInt) (pre : Option Nat) :
    ∃ pre', t.findNode fd pre = some (t.ensureList, t.node? fd, pre') := by
  obtain ⟨head, l, hw, hnode⟩ := h.ensureList
  exact ⟨_, by rw [← findNode_ensureList, hw.findNode, ← hw.node?, hnode]⟩

/-! ## Writing into a node -/

section Set

variable {a : Nat} {node : MethodAndFD}

@[simp] theorem set_mem_self : (t.set a node).mem a = node := by simp [set]

theorem set_mem_of_ne {b : Nat} (h : b ≠ a) : (t.set a node).mem b = t.mem b := by
  simp [set, h]

theorem set_self : t.set a (t.mem a) = t := by simp [set]

theorem set_fd (hfd : node.fd = (t.mem a).fd) (b : Nat) :
    ((t.set a node).mem b).fd = (t.mem b).fd := by
  by_cases hb : b = a
  · rw [hb, set_mem_self, hfd]
  · rw [set_mem_of_ne hb]

theorem Wf.set (h : t.Wf head l) (hfd : node.fd = (t.mem a).fd)
    (hnext : node.next = (t.mem a).next) : (t.set a node).Wf head l := by
  have hlink : (t.set a node).next = t.next := by
    funext b
    by_cases hb : b = a
    · rw [FdTable.next, hb, set_mem_self, hnext, FdTable.next]
    · rw [FdTable.next, set_mem_of_ne hb, FdTable.next]
  refine ⟨h.listHead, hlink ▸ h.chain, h.nodup, h.bounded, ?_⟩
  simpa only [set_fd hfd] using h.distinct

theorem Wf.node?_set (h : t.Wf head l) (hfd : node.fd = (t.mem a).fd)
    (hnext : node.next = (t.mem a).next) (fd : CInt) : (t.set a node).node? fd = t.node? fd := by
  rw [(h.set hfd hnext).node?, h.node?]
  simp only [set_fd hfd]

theorem Wf.lookup_set (h : t.Wf head l) (node : MethodAndFD) (hfd : node.fd = (t.mem a).fd)
    (hnext : node.next = (t.mem a).next) {fd : CInt} (ha : t.node? fd = some a) (fd' : CInt) :
    (t.set a node).lookup fd' =
      if fd' = fd then some (node.method, node.path) else t.lookup fd' := by
  rw [lookup, h.node?_set hfd hnext]
  split
  · next heq => rw [heq, ha, Option.map_some, set_mem_self]
  · next hne =>
    rw [lookup]
    apply Option.map_congr
    intro b hb
    rw [set_mem_of_ne]
    rintro rfl
    rw [h.node?] at ha hb
    have := List.find?_some ha
    have := List.find?_some hb
    simp_all

end Set

theorem Wf.node?_fd (h : t.Wf head l) {fd : CInt} {a : Nat} (ha : t.node? fd = some a) :
    (t.mem a).fd = fd := by
  rw [h.node?] at ha
  simpa [eq_comm] using List.find?_some ha

theorem Wf.node?_of_mem (h : t.Wf head l) {a : Nat} (ha : a ∈ l) :
    t.node? (t.mem a).fd = some a := by
  rw [h.node?]
  obtain ⟨b, hb⟩ := Option.isSome_iff_exists.mp (List.find?_isSome.mpr ⟨a, ha, decide_eq_true rfl⟩ :
    (l.find? fun b => decide ((t.mem a).fd = (t.mem b).fd)).isSome)
  have hfd : (t.mem a).fd = (t.mem b).fd := by simpa using List.find?_some hb
  rw [hb, List.inj_on_of_nodup_map h.distinct (List.mem_of_find?_eq_some hb) ha hfd.symm]

/-! ## FindNode and its `*pre` -/

/-- `pre` is the cell in front of the node of `fd`, or the last one without such a node. -/
def Behind (t : FdTable) (fd : CInt) (cells : List Nat) (pre : Nat) : Option Nat → Prop
  | some a => (t.mem a).fd = fd ∧ ∃ c r, cells = c ++ pre :: a :: r
  | none => ∃ c, cells = c ++ [pre]

theorem exists_last (head : Nat) (c : List Nat) :
    ∃ c' pre, head :: c = c' ++ [pre] ∧ c.getLast?.or (some head) = some pre := by
  have hne : head :: c ≠ [] := List.cons_ne_nil head c
  refine ⟨(head :: c).dropLast, (head :: c).getLast hne,
    (List.dropLast_append_getLast hne).symm, ?_⟩
  rw [← List.getLast?_eq_getLast_of_ne_nil hne, List.getLast?_cons]
  cases c.getLast? <;> rfl

theorem Wf.split (h : t.Wf head l) {fd : CInt} {a : Nat} (ha : t.node? fd = some a) :
    ∃ c r, l = c ++ a :: r ∧ (t.mem a).fd = fd ∧
      (l.takeWhile fun b => !decide (fd = (t.mem b).fd)) = c := by
  have hfd := h.node?_fd ha
  rw [h.node?] at ha
  obtain ⟨-, c, r, hl, hc⟩ := List.find?_eq_some_iff_append.mp ha
  refine ⟨c, r, hl, hfd, ?_⟩
  rw [hl, List.takeWhile_append_of_pos hc, List.takeWhile_cons_of_neg (by simp [hfd]),
    List.append_nil]

theorem Wf.findNode_behind (h : t.Wf head l) (fd : CInt) :
    ∃ pre, t.findNode fd (some head) = some (t, t.node? fd, some pre) ∧
      t.Behind fd (head :: l) pre (t.node? fd) := by
  rw [h.findNode, ← h.node?]
  cases hn : t.node? fd with
  | none =>
    have hwhile : (l.takeWhile fun a => !decide (fd = (t.mem a).fd)) = l := by
      rw [h.node?] at hn
      rw [List.takeWhile_eq_self_iff]
      intro a ha
      simpa using List.find?_eq_none.mp hn a ha
    obtain ⟨c, pre, hc, hlast⟩ := exists_last head l
    rw [hwhile, hlast]
    exact ⟨pre, rfl, c, hc⟩
  | some a =>
    obtain ⟨c, r, hl, hfd, hwhile⟩ := h.split hn
    obtain ⟨c', pre, hc, hlast⟩ := exists_last head c
    rw [hwhile, hlast]
    refine ⟨pre, rfl, hfd, c', r, ?_⟩
    rw [hl, ← List.cons_append, hc, List.append_assoc, List.singleton_append]

/-! ## AddNode -/

theorem Wf.addNode_found (h : t.Wf head l) {fd : CInt} {a : Nat} (ha : t.node? fd = some a)
    (method : Ptr) : t.addNode fd method = some (t.set a { t.mem a with method := method }) := by
  rw [addNode, h.ensureList, h.findNode, ← h.node?, ha]
  rfl

/-- A new node at `t.brk`, behind `last`. -/
def appended (t : FdTable) (last : Nat) (fd : CInt) (method : Ptr) : FdTable :=
  let t' := t.malloc.1.set t.brk { t.mem t.brk with fd := fd, method := method, next := none }
  t'.set last { t'.mem last with next := some t.brk }

section Appended

variable {last : Nat} (fd : CInt) (method : Ptr)

theorem linkNode_none :
    t.linkNode fd method none (some last) = some (t.appended last fd method) := rfl

theorem appended_mem_new (h : last ≠ t.brk) : (t.appended last fd method).mem t.brk =
    { t.mem t.brk with fd := fd, method := method, next := none } := by
  rw [appended, set_mem_of_ne h.symm, set_mem_self]

theorem appended_mem_last (h : last ≠ t.brk) :
    (t.appended last fd method).mem last = { t.mem last with next := some t.brk } := by
  rw [appended, set_mem_self, set_mem_of_ne h]
  rfl

theorem appended_mem_of_ne {a : Nat} (hlast : a ≠ last) (hnew : a ≠ t.brk) :
    (t.appended last fd method).mem a = t.mem a := by
  rw [appended, set_mem_of_ne hlast, set_mem_of_ne hnew]
  rfl

theorem appended_old {a : Nat} (hlast : last ≠ t.brk) (hnew : a ≠ t.brk) :
    ((t.appended last fd method).mem a).fd = (t.mem a).fd ∧
    ((t.appended last fd method).mem a).method = (t.mem a).method ∧
    ((t.appended last fd method).mem a).path = (t.mem a).path := by
  by_cases ha : a = last
  · subst ha
    rw [appended_mem_last fd method hlast]
    exact ⟨rfl, rfl, rfl⟩
  · rw [appended_mem_of_ne fd method ha hnew]
    exact ⟨rfl, rfl, rfl⟩

end Appended

theorem Wf.addNode_missing (h : t.Wf head l) {fd : CInt} (ha : t.node? fd = none) (method : Ptr) :
    ∃ c last, head :: l = c ++ [last] ∧ t.addNode fd method = some (t.appended last fd method) := by
  obtain ⟨last, hfind, hbehind⟩ := h.findNode_behind fd
  rw [ha] at hfind hbehind
  obtain ⟨c, hc⟩ := hbehind
  refine ⟨c, last, hc, ?_⟩
  rw [addNode, h.ensureList, h.listHead, hfind]
  rfl

theorem Wf.appended (h : t.Wf head l) {fd : CInt} (ha : t.node? fd = none) {c : List Nat}
    {last : Nat} (hc : head :: l = c ++ [last]) (method : Ptr) :
    (t.appended last fd method).Wf head (l ++ [t.brk]) := by
  have hlast : last < t.brk := h.bounded last (by rw [hc]; simp)
  have hnew : t.brk ∉ head :: l := fun hmem => (h.bounded _ hmem).false
  have hfds : ∀ a ∈ l, ((t.appended last fd method).mem a).fd = (t.mem a).fd := fun a ha =>
    (appended_old fd method hlast.ne
      (h.bounded a (List.mem_cons_of_mem head ha)).ne).1
  refine ⟨h.listHead, ?_, ?_, ?_, ?_⟩
  · have hchain := h.chain
    rw [hc] at hchain
    have hnodup := h.nodup
    rw [hc] at hnodup hnew
    rw [← List.cons_append, hc]
    refine hchain.append ?_ ?_ ?_
    · intro b hb
      have hbl : b ≠ last := fun heq => List.disjoint_of_nodup_append hnodup hb (by simp [heq])
      rw [next, next, appended_mem_of_ne fd method hbl]
      rintro rfl
      exact hnew (List.mem_append_left _ hb)
    · rw [next, appended_mem_last fd method hlast.ne]
    · rw [next, appended_mem_new fd method hlast.ne]
  · rw [← List.cons_append]
    exact List.Nodup.append h.nodup (List.nodup_singleton _) (by simpa using hnew)
  · intro a ha
    rw [← List.cons_append, List.mem_append] at ha
    have : (t.appended last fd method).brk = t.brk + 1 := rfl
    rcases ha with ha | ha
    · have := h.bounded a ha
      omega
    · rw [List.mem_singleton] at ha
      omega
  · rw [List.map_append, List.map_congr_left hfds]
    refine List.Nodup.append h.distinct (List.nodup_singleton _) ?_
    rw [List.map_singleton, appended_mem_new fd method hlast.ne, List.disjoint_singleton]
    rw [h.node?] at ha
    intro hmem
    obtain ⟨a, hal, hfd⟩ := List.mem_map.mp hmem
    have := List.find?_eq_none.mp ha a hal
    simp_all

theorem Wf.lookup_appended (h : t.Wf head l) {fd : CInt} (ha : t.node? fd = none) {c : List Nat}
    {last : Nat} (hc : head :: l = c ++ [last]) (method : Ptr) (fd' : CInt) :
    (t.appended last fd method).lookup fd' =
      if fd' = fd then some (method, (t.mem t.brk).path) else t.lookup fd' := by
  have hlast : last < t.brk := h.bounded last (by rw [hc]; simp)
  have hold : ∀ a ∈ l, a ≠ t.brk := fun a ha =>
    (h.bounded a (List.mem_cons_of_mem head ha)).ne
  have hfind : l.find? (fun a => decide (fd' = ((t.appended last fd method).mem a).fd)) =
      t.node? fd' := by
    rw [h.node?]
    apply List.find?_congr
    intro a ha
    rw [(appended_old fd method hlast.ne (hold a ha)).1]
  rw [lookup, (h.appended ha hc method).node?, List.find?_append, hfind]
  split
  · next heq =>
    rw [heq, ha]
    simp [appended_mem_new fd method hlast.ne]
  · next hne =>
    rw [lookup]
    cases hnode : t.node? fd' with
    | none => simp [appended_mem_new fd method hlast.ne, hne]
    | some a =>
      have hal : a ∈ l := by
        rw [h.node?] at hnode
        exact List.mem_of_find?_eq_some hnode
      obtain ⟨-, hm, hp⟩ := appended_old fd method hlast.ne (hold a hal)
      simp [hm, hp]

/-! ## The table as a map from descriptors -/

theorem Valid.lookup_ensureList (h : t.Valid) (fd : CInt) :
    t.ensureList.lookup fd = t.lookup fd := by
  obtain ⟨head, l, -, hnode⟩ := h.ensureList
  rw [lookup, hnode]
  cases hn : t.node? fd with
  | none => rw [lookup, hn]; rfl
  | some a => rw [ensureList_of_node? hn, lookup, hn]

theorem Valid.addNode (h : t.Valid) (fd : CInt) (method : Ptr) :
    ∃ t' path, t.addNode fd method = some t' ∧ t'.Valid ∧
      (∀ fd', t'.lookup fd' = if fd' = fd then some (method, path) else t.lookup fd') ∧
      ∀ old, t.lookup fd = some old → path = old.2 := by
  obtain ⟨head, l, hw, hnode⟩ := h.ensureList
  rw [← addNode_ensureList]
  cases hn : t.node? fd with
  | none =>
    rw [← hnode] at hn
    obtain ⟨c, last, hc, hadd⟩ := hw.addNode_missing hn method
    refine ⟨_, (t.ensureList.mem t.ensureList.brk).path, hadd,
      Or.inr ⟨head, _, hw.appended hn hc method⟩, fun fd' => ?_, fun old hold => ?_⟩
    · rw [hw.lookup_appended hn hc, h.lookup_ensureList]
    · rw [← h.lookup_ensureList, lookup, hn] at hold
      exact absurd hold (by simp)
  | some a =>
    have hself := ensureList_of_node? hn
    rw [hself] at hw ⊢
    refine ⟨_, (t.mem a).path, hw.addNode_found hn method,
      Or.inr ⟨head, l, Wf.set hw rfl rfl⟩,
      fun fd' => hw.lookup_set { t.mem a with method := method } rfl rfl hn fd', ?_⟩
    intro old hold
    rw [lookup, hn] at hold
    rw [← Option.some.inj hold]

theorem Valid.setServicePath (h : t.Valid) {fd : CInt} {method : Ptr} {path : Buf 512}
    (hl : t.lookup fd = some (method, path)) {p : List Byte} (h0 : 0 ∉ p) (hp : p.length ≤ 511) :
    ∃ t' path', (∀ src, cstr src = some p → t.setServicePath fd src = some t') ∧ t'.Valid ∧
      cstr path'.val = some p ∧
      ∀ fd', t'.lookup fd' = if fd' = fd then some (method, path') else t.lookup fd' := by
  obtain ⟨a, hn, hval⟩ := Option.map_eq_some_iff.mp hl
  obtain ⟨head, l, hw⟩ := h.wf_of_node? hn
  obtain ⟨pre, hfind⟩ := h.findNode fd t.listHead
  let node := { t.mem a with path := (t.mem a).path.splice 0 (p ++ [0]) }
  refine ⟨t.set a node, node.path, fun src hsrc => ?_, Or.inr ⟨head, l, Wf.set hw rfl rfl⟩,
    Buf.cstr_splice _ h0 (Nat.succ_le_succ hp), fun fd' => ?_⟩
  · have hcopy : (t.mem a).path.strcpy src = some node.path :=
      Buf.strcpy_eq _ hsrc (Nat.succ_le_succ hp)
    rw [FdTable.setServicePath, hfind, hn, ensureList_of_node? hn]
    simp only [Option.bind_eq_bind, Option.bind_some, hcopy]
    rfl
  · rw [hw.lookup_set node rfl rfl hn]
    simp only [node, (Prod.mk.inj hval).1]

/-! ## What a wrapper reads, and writes back -/

/-- The method that the server uses for an entry, or without one. -/
def serverMethod (A : Addresses) (entry : Option (Ptr × Buf 512)) : Ptr :=
  match entry with
  | none => A.posixIoMethods
  | some (method, _) => if method = 0 then A.posixIoMethods else method

theorem Valid.getServerUnixPMethods (h : t.Valid) (A : Addresses) (fd : CInt) (pf : UnixFile) :
    t.getServerUnixPMethods A fd pf =
      some (t.ensureList, { pf with pMethod := serverMethod A (t.lookup fd) }) := by
  obtain ⟨pre, hfind⟩ := h.findNode fd t.listHead
  rw [FdTable.getServerUnixPMethods, hfind, lookup]
  cases hn : t.node? fd with
  | none => rfl
  | some a =>
    rw [ensureList_of_node? hn]
    simp only [Option.bind_eq_bind, Option.bind_some, Option.map_some, serverMethod]
    split <;> rfl

theorem Valid.getServicePath (h : t.Valid) (A : Addresses) (fd : CInt) (id : UnixFile) :
    t.getServicePath A fd id = some (t.ensureList,
      { id with zPath := ((t.node? fd).map A.nodePath).getD id.zPath }, t.node? fd) := by
  obtain ⟨pre, hfind⟩ := h.findNode fd t.listHead
  rw [FdTable.getServicePath, hfind]
  cases hn : t.node? fd <;> rfl

theorem Valid.addNode_same (h : t.Valid) {fd : CInt} {method : Ptr} {path : Buf 512}
    (hl : t.lookup fd = some (method, path)) : t.addNode fd method = some t := by
  obtain ⟨a, hn, hval⟩ := Option.map_eq_some_iff.mp hl
  obtain ⟨head, l, hw⟩ := h.wf_of_node? hn
  rw [hw.addNode_found hn, ← (Prod.mk.inj hval).1]
  exact congrArg some set_self

theorem Valid.setServicePath_same (h : t.Valid) {fd : CInt} {a : Nat} (hn : t.node? fd = some a)
    {p : List Byte} (hp : cstr (t.mem a).path.val = some p) :
    t.setServicePath fd (t.mem a).path.val = some t := by
  obtain ⟨pre, hfind⟩ := h.findNode fd t.listHead
  rw [FdTable.setServicePath, hfind, hn, ensureList_of_node? hn]
  simp only [Option.bind_eq_bind, Option.bind_some, Buf.strcpy_self _ hp]
  exact congrArg some set_self

end FdTable

end RemoteVfs
