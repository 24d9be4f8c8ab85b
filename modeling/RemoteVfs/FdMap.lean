import RemoteVfs.Runs
import RemoteVfs.FdTable

/-!
# The list implements a finite map

Here the list of descriptors is compared with what it stands for.
-/

open CMem

namespace RemoteVfs

/-! ## The map -/

/-- The method of a descriptor, and its path once there is one. -/
structure FdEntry where
  method : Ptr
  path : Option (List Byte)

abbrev FdMap := CInt → Option FdEntry

/-- The functions on the list. A path is a string without its NUL. -/
inductive TableOp
  | addNode (fd : CInt) (method : Ptr)
  | deleteNode (fd : CInt)
  | setServicePath (fd : CInt) (path : List Byte)
  | getServicePath (fd : CInt) (id : UnixFile)
  | getServerUnixPMethods (fd : CInt) (pf : UnixFile)

/-- At most 511 bytes. -/
def TableOp.PathFits : TableOp → Prop
  | .setServicePath _ path => 0 ∉ path ∧ path.length ≤ 511
  | _ => True

instance : DecidablePred TableOp.PathFits := fun op => by
  unfold TableOp.PathFits
  split <;> infer_instance

namespace FdMap

def empty : FdMap := fun _ => none

/-- What each function does to the map. -/
def apply (m : FdMap) : TableOp → FdMap
  | .addNode fd method => Function.update m fd (some ⟨method, (m fd).bind (·.path)⟩)
  | .deleteNode fd => Function.update m fd none
  | .setServicePath fd path =>
    Function.update m fd ((m fd).map fun e => { e with path := some path })
  | .getServicePath .. | .getServerUnixPMethods .. => m

/-- The method that the server uses for `fd`. -/
def serverMethod (A : Addresses) (m : FdMap) (fd : CInt) : Ptr :=
  match m fd with
  | none => A.posixIoMethods
  | some e => if e.method = 0 then A.posixIoMethods else e.method

end FdMap

namespace FdTable

/-- The functions, on the list itself. -/
def apply (A : Addresses) (t : FdTable) : TableOp → Option FdTable
  | .addNode fd method => t.addNode fd method
  | .deleteNode fd => t.deleteNode fd
  | .setServicePath fd path => t.setServicePath fd (path ++ [0])
  | .getServicePath fd id => (t.getServicePath A fd id).map (·.1)
  | .getServerUnixPMethods fd pf => (t.getServerUnixPMethods A fd pf).map (·.1)

variable {t : FdTable} {head : Nat} {l : List Nat} {fd : CInt}

/-! ## DeleteNode -/

/-- The node `a` behind `pre` is taken out of the list. -/
def unlinked (t : FdTable) (pre a : Nat) : FdTable :=
  t.set pre { t.mem pre with next := t.next a }

theorem Wf.deleteNode_missing (h : t.Wf head l) (hn : t.node? fd = none) :
    t.deleteNode fd = some t := by
  obtain ⟨pre, hfind, -⟩ := h.findNode_behind fd
  rw [deleteNode, h.ensureList, h.listHead, hfind, hn]
  rfl

theorem Wf.deleteNode_found (h : t.Wf head l) {a : Nat} (hn : t.node? fd = some a) :
    ∃ c pre r, head :: l = c ++ pre :: a :: r ∧ t.deleteNode fd = some (t.unlinked pre a) := by
  obtain ⟨pre, hfind, hbehind⟩ := h.findNode_behind fd
  rw [hn] at hbehind
  obtain ⟨-, c, r, hl⟩ := hbehind
  have hnext : t.next pre = some a := by
    have hchain := h.chain
    rw [hl] at hchain
    exact hchain.next_eq
  refine ⟨c, pre, r, hl, ?_⟩
  rw [deleteNode, h.ensureList, h.listHead, hfind, hn]
  simp only [Option.bind_eq_bind, Option.bind_some, hnext]
  rfl

section Unlinked

variable {c r : List Nat} {pre a : Nat}

theorem unlinked_kept (b : Nat) : ((t.unlinked pre a).mem b).fd = (t.mem b).fd ∧
    ((t.unlinked pre a).mem b).method = (t.mem b).method ∧
    ((t.unlinked pre a).mem b).path = (t.mem b).path := by
  unfold unlinked
  by_cases hb : b = pre
  · rw [hb, set_mem_self]
    exact ⟨rfl, rfl, rfl⟩
  · rw [set_mem_of_ne hb]
    exact ⟨rfl, rfl, rfl⟩

theorem Wf.unlinked (h : t.Wf head l) (hl : head :: l = c ++ pre :: a :: r) :
    ∃ l', head :: l' = c ++ pre :: r ∧ (t.unlinked pre a).Wf head l' := by
  obtain ⟨l', hl', hsub⟩ : ∃ l', head :: l' = c ++ pre :: r ∧ List.Sublist l' l := by
    cases c with
    | nil =>
      obtain ⟨rfl, rfl⟩ := List.cons.inj hl
      exact ⟨r, rfl, List.sublist_cons_self a r⟩
    | cons b c =>
      obtain ⟨rfl, rfl⟩ := List.cons.inj hl
      exact ⟨c ++ pre :: r, rfl,
        (List.Sublist.cons_cons pre (List.sublist_cons_self a r)).append_left c⟩
  have hsub' : List.Sublist (head :: l') (head :: l) := hsub.cons_cons head
  have hne : ∀ b ∈ c ++ r, b ≠ pre := by
    have hnodup := h.nodup
    rw [hl] at hnodup
    intro b hb heq
    rw [heq] at hb
    have hcount := List.nodup_middle.mp hnodup
    rw [List.nodup_cons, List.mem_append, List.mem_cons] at hcount
    rcases List.mem_append.mp hb with hb | hb
    · exact hcount.1 (.inl hb)
    · exact hcount.1 (.inr (.inr hb))
  refine ⟨l', hl', h.listHead, ?_, h.nodup.sublist hsub',
    fun b hb => h.bounded b (hsub'.subset hb), ?_⟩
  · have hchain := h.chain
    rw [hl] at hchain
    rw [hl']
    refine hchain.remove (fun b hb => ?_) ?_
    · rw [next, next, FdTable.unlinked, set_mem_of_ne (hne b hb)]
    · rw [next, FdTable.unlinked, set_mem_self]
  · have hfds : (l'.map fun b => ((t.unlinked pre a).mem b).fd) = l'.map fun b => (t.mem b).fd :=
      List.map_congr_left fun b _ => (unlinked_kept b).1
    rw [hfds]
    exact h.distinct.sublist (hsub.map _)

end Unlinked

theorem perm_unlinked {l' c r : List Nat} {pre a : Nat} (hl : head :: l = c ++ pre :: a :: r)
    (hl' : head :: l' = c ++ pre :: r) : List.Perm l (a :: l') := by
  refine List.Perm.cons_inv (?_ : List.Perm (head :: l) (head :: a :: l'))
  calc head :: l = (c ++ [pre]) ++ a :: r := by rw [hl, List.append_assoc, List.singleton_append]
    List.Perm _ (a :: ((c ++ [pre]) ++ r)) := List.perm_middle
    _ = a :: head :: l' := by rw [hl', List.append_assoc, List.singleton_append]
    List.Perm _ (head :: a :: l') := List.Perm.swap head a l'

theorem Wf.node?_eq_some (h : t.Wf head l) {a : Nat} :
    t.node? fd = some a ↔ a ∈ l ∧ (t.mem a).fd = fd := by
  constructor
  · intro ha
    refine ⟨?_, h.node?_fd ha⟩
    rw [h.node?] at ha
    exact List.mem_of_find?_eq_some ha
  · rintro ⟨ha, rfl⟩
    exact h.node?_of_mem ha

theorem Valid.deleteNode (h : t.Valid) (fd : CInt) :
    ∃ t', t.deleteNode fd = some t' ∧ t'.Valid ∧
      ∀ fd', t'.lookup fd' = if fd' = fd then none else t.lookup fd' := by
  obtain ⟨head, l, hw, hnode⟩ := h.ensureList
  have hdel : t.deleteNode fd = t.ensureList.deleteNode fd := by
    unfold FdTable.deleteNode
    rw [ensureList_idem]
  rw [hdel]
  cases hn : t.ensureList.node? fd with
  | none =>
    refine ⟨_, hw.deleteNode_missing hn, .inr ⟨head, l, hw⟩, fun fd' => ?_⟩
    rw [h.lookup_ensureList]
    split
    · next heq => rw [heq, lookup, ← hnode, hn, Option.map_none]
    · rfl
  | some a =>
    obtain ⟨c, pre, r, hl, hdel⟩ := hw.deleteNode_found hn
    obtain ⟨l', hl', hw'⟩ := hw.unlinked hl
    refine ⟨_, hdel, .inr ⟨head, l', hw'⟩, fun fd' => ?_⟩
    have hperm := perm_unlinked hl hl'
    have ha : a ∉ l' := (List.nodup_cons.mp (hperm.nodup_iff.mp hw.nodup.of_cons)).1
    have hfd := hw.node?_fd hn
    have hnode' : (t.ensureList.unlinked pre a).node? fd' =
        if fd' = fd then none else t.ensureList.node? fd' := by
      refine Option.ext fun b => ?_
      rw [hw'.node?_eq_some, (unlinked_kept b).1]
      split
      · next heq =>
        refine iff_of_false (fun hb => ?_) (Option.some_ne_none b ∘ Eq.symm)
        have hbl : t.ensureList.node? fd = some b :=
          hw.node?_eq_some.mpr ⟨hperm.mem_iff.mpr (List.mem_cons_of_mem a hb.1), heq ▸ hb.2⟩
        obtain rfl := Option.some.inj (hn.symm.trans hbl)
        exact ha hb.1
      · next hne =>
        rw [hw.node?_eq_some, hperm.mem_iff, List.mem_cons]
        refine and_congr_left fun hb => (or_iff_right ?_).symm
        rintro rfl
        exact hne (hb.symm.trans hfd)
    rw [lookup, hnode', ← h.lookup_ensureList]
    split
    · rfl
    · refine Option.map_congr fun b _ => ?_
      rw [(unlinked_kept b).2.1, (unlinked_kept b).2.2]

/-! ## What the list stands for -/

/-- The list has the entries of the map, and the paths that the map knows. -/
structure Represents (t : FdTable) (m : FdMap) : Prop where
  /-- A chain behind one sentinel, with distinct descriptors. -/
  valid : t.Valid
  method : ∀ fd, (t.lookup fd).map Prod.fst = (m fd).map FdEntry.method
  path : ∀ fd e p, m fd = some e → e.path = some p →
    ∃ x, t.lookup fd = some x ∧ cstr x.2.val = some p

namespace Represents

variable {m : FdMap} {t' : FdTable}

theorem isSome (h : t.Represents m) (fd : CInt) : (t.lookup fd).isSome = (m fd).isSome := by
  rw [← Option.isSome_map, h.method, Option.isSome_map]

theorem of_lookup (h : t.Represents m) (hv : t'.Valid) (hl : ∀ fd, t'.lookup fd = t.lookup fd) :
    t'.Represents m := by
  refine ⟨hv, fun fd => ?_, fun fd => ?_⟩
  · rw [hl, h.method]
  · rw [hl]
    exact h.path fd

theorem empty (h : t.listHead = none) : t.Represents FdMap.empty := by
  have hl : ∀ fd, t.lookup fd = none := fun fd => by
    rw [lookup, node?, if_pos h, Option.map_none]
  refine ⟨.inl h, fun fd => ?_, fun fd e p he => ?_⟩
  · rw [hl]
    rfl
  · cases he

theorem update (h : t.Represents m) (hv : t'.Valid) {x : Option (Ptr × Buf 512)}
    {e : Option FdEntry} (hl : ∀ fd', t'.lookup fd' = if fd' = fd then x else t.lookup fd')
    (hmethod : x.map Prod.fst = e.map FdEntry.method)
    (hpath : ∀ y p, e = some y → y.path = some p → ∃ z, x = some z ∧ cstr z.2.val = some p) :
    t'.Represents (Function.update m fd e) := by
  refine ⟨hv, fun fd' => ?_, fun fd' => ?_⟩
  · rw [hl]
    by_cases heq : fd' = fd
    · rw [if_pos heq, heq, Function.update_self, hmethod]
    · rw [if_neg heq, Function.update_of_ne heq, h.method]
  · rw [hl]
    by_cases heq : fd' = fd
    · rw [if_pos heq, heq, Function.update_self]
      exact hpath
    · rw [if_neg heq, Function.update_of_ne heq]
      exact h.path fd'

theorem addNode (h : t.Represents m) (fd : CInt) (method : Ptr) :
    ∃ t', t.addNode fd method = some t' ∧ t'.Represents (m.apply (.addNode fd method)) := by
  obtain ⟨t', path, hadd, hv, hl, hold⟩ := h.valid.addNode fd method
  refine ⟨t', hadd, h.update hv hl rfl ?_⟩
  intro y p hy hp
  obtain rfl := Option.some.inj hy
  obtain ⟨e, he, hep⟩ := Option.bind_eq_some_iff.mp hp
  obtain ⟨x, hx, hxp⟩ := h.path fd e p he hep
  exact ⟨_, rfl, hold x hx ▸ hxp⟩

theorem deleteNode (h : t.Represents m) (fd : CInt) :
    ∃ t', t.deleteNode fd = some t' ∧ t'.Represents (m.apply (.deleteNode fd)) := by
  obtain ⟨t', hdel, hv, hl⟩ := h.valid.deleteNode fd
  exact ⟨t', hdel, h.update hv hl rfl nofun⟩

theorem setServicePath (h : t.Represents m) (fd : CInt) {path : List Byte} (h0 : 0 ∉ path)
    (hlen : path.length ≤ 511) : ∃ t', t.setServicePath fd (path ++ [0]) = some t' ∧
      t'.Represents (m.apply (.setServicePath fd path)) := by
  cases hx : t.lookup fd with
  | none =>
    have hm : m fd = none := by
      rw [← Option.not_isSome_iff_eq_none, ← h.isSome, hx]
      simp
    obtain ⟨head, l, hw, -⟩ := h.valid.ensureList
    obtain ⟨pre, hfind⟩ := h.valid.findNode fd t.listHead
    rw [lookup, Option.map_eq_none_iff] at hx
    refine ⟨t.ensureList, ?_, ?_⟩
    · rw [FdTable.setServicePath, hfind, hx]
      rfl
    · have hsame : m.apply (.setServicePath fd path) = m := by
        rw [FdMap.apply, hm, Option.map_none, ← hm, Function.update_eq_self]
      rw [hsame]
      exact h.of_lookup (.inr ⟨head, l, hw⟩) h.valid.lookup_ensureList
  | some x =>
    obtain ⟨t', path', hset, hv, hp, hl⟩ := h.valid.setServicePath hx h0 hlen
    refine ⟨t', hset _ (cstr_append path [] h0), h.update hv hl ?_ ?_⟩
    · have hmethod := h.method fd
      rw [hx] at hmethod
      rw [Option.map_map, Option.map_some]
      exact hmethod
    · intro y p hy hyp
      obtain ⟨e, -, rfl⟩ := Option.map_eq_some_iff.mp hy
      obtain rfl := Option.some.inj hyp
      exact ⟨_, rfl, hp⟩

theorem ensureList (h : t.Represents m) : t.ensureList.Represents m := by
  obtain ⟨head, l, hw, -⟩ := h.valid.ensureList
  exact h.of_lookup (.inr ⟨head, l, hw⟩) h.valid.lookup_ensureList

theorem apply (h : t.Represents m) (A : Addresses) {op : TableOp} (hop : op.PathFits) :
    ∃ t', t.apply A op = some t' ∧ t'.Represents (m.apply op) := by
  cases op with
  | addNode fd method => exact h.addNode fd method
  | deleteNode fd => exact h.deleteNode fd
  | setServicePath fd path => exact h.setServicePath fd hop.1 hop.2
  | getServicePath fd id =>
    refine ⟨t.ensureList, ?_, h.ensureList⟩
    rw [FdTable.apply, h.valid.getServicePath, Option.map_some]
  | getServerUnixPMethods fd pf =>
    refine ⟨t.ensureList, ?_, h.ensureList⟩
    rw [FdTable.apply, h.valid.getServerUnixPMethods, Option.map_some]

end Represents

/-- What the functions find in a list that stands for `m`. -/
structure Implements (A : Addresses) (t : FdTable) (m : FdMap) : Prop where
  represents : t.Represents m
  /-- `FindNode`, with `*pre` preset to the sentinel. -/
  findNode : ∃ head l, t.ensureList.Wf head l ∧ ∀ fd, ∃ node pre,
    t.ensureList.findNode fd (some head) = some (t.ensureList, node, some pre) ∧
    node.isSome = (m fd).isSome ∧ t.ensureList.Behind fd (head :: l) pre node
  getServicePath : ∀ fd id, ∃ t' id' node, t.getServicePath A fd id = some (t', id', node) ∧
    (m fd = none → id' = id) ∧ ∀ e, m fd = some e →
      ∃ a, id' = { id with zPath := A.nodePath a } ∧
        ∀ p, e.path = some p → cstr (t'.mem a).path.val = some p
  getServerUnixPMethods : ∀ fd pf, ∃ t', t.getServerUnixPMethods A fd pf =
    some (t', { pf with pMethod := m.serverMethod A fd })

theorem Represents.serverMethod {m : FdMap} (h : t.Represents m) (A : Addresses) (fd : CInt) :
    FdTable.serverMethod A (t.lookup fd) = m.serverMethod A fd := by
  have hmethod := h.method fd
  unfold FdTable.serverMethod FdMap.serverMethod
  cases hx : t.lookup fd with
  | none =>
    rw [hx, Option.map_none, eq_comm, Option.map_eq_none_iff] at hmethod
    rw [hmethod]
  | some x =>
    rw [hx, Option.map_some, eq_comm, Option.map_eq_some_iff] at hmethod
    obtain ⟨e, he, hex⟩ := hmethod
    rw [he]
    simp only [hex]

theorem Represents.implements {m : FdMap} (h : t.Represents m) (A : Addresses) :
    t.Implements A m := by
  obtain ⟨head, l, hw, hnode⟩ := h.valid.ensureList
  refine ⟨h, ⟨head, l, hw, fun fd => ?_⟩, fun fd id => ?_, fun fd pf => ?_⟩
  · obtain ⟨pre, hfind, hbehind⟩ := hw.findNode_behind fd
    refine ⟨_, pre, hfind, ?_, hbehind⟩
    rw [hnode, ← h.isSome, lookup, Option.isSome_map]
  · refine ⟨_, _, _, h.valid.getServicePath A fd id, fun hm => ?_, fun e he => ?_⟩
    · have hn := h.isSome fd
      rw [hm, lookup, Option.isSome_map, Option.isSome_none, Option.isSome_eq_false_iff,
        Option.isNone_iff_eq_none] at hn
      rw [hn]
      rfl
    · have hn := h.isSome fd
      rw [he, lookup, Option.isSome_map, Option.isSome_some, Option.isSome_iff_exists] at hn
      obtain ⟨a, ha⟩ := hn
      rw [ha, ensureList_of_node? ha]
      refine ⟨a, rfl, fun p hp => ?_⟩
      obtain ⟨x, hx, hxp⟩ := h.path fd e p he hp
      rw [lookup, ha, Option.map_some] at hx
      rw [← Option.some.inj hx] at hxp
      exact hxp
  · exact ⟨_, h.serverMethod A fd ▸ h.valid.getServerUnixPMethods A fd pf⟩

/-- No sequence of calls gets stuck, and the list always stands for the map that the same
calls make. -/
theorem list_implements_map (A : Addresses) (h : t.listHead = none) {ops : List TableOp}
    (hops : ∀ op ∈ ops, op.PathFits) : ∃ t', Runs.run (FdTable.apply A) t ops = some t' ∧
      t'.Implements A (ops.foldl FdMap.apply FdMap.empty) := by
  suffices hrun : ∀ t m, Represents t m → ∃ t', Runs.run (FdTable.apply A) t ops = some t' ∧
      t'.Represents (ops.foldl FdMap.apply m) by
    obtain ⟨t', hrun, ht'⟩ := hrun t _ (.empty h)
    exact ⟨t', hrun, ht'.implements A⟩
  clear h
  induction ops with
  | nil => exact fun t m ht => ⟨t, rfl, ht⟩
  | cons op ops ih =>
    intro t m ht
    obtain ⟨t₁, happly, ht₁⟩ := ht.apply A (hops op List.mem_cons_self)
    obtain ⟨t', hrun, ht'⟩ := ih (fun op' h' => hops op' (List.mem_cons_of_mem op h')) t₁ _ ht₁
    exact ⟨t', Runs.run_cons_eq_some.mpr ⟨t₁, happly, hrun⟩, ht'⟩

/-- Three descriptors, of which the one in the middle goes. -/
theorem list_implements_map_three : ∃ t',
    Runs.run (FdTable.apply .flat) ⟨fun _ => ⟨0, 0, Buf.zeros 512, none⟩, 0, none⟩
      [.addNode 3 0x2000, .setServicePath 3 [97], .addNode 4 0x3000, .addNode 5 0,
        .deleteNode 4, .getServicePath 3 .zero] = some t' ∧
      t'.Implements .flat (FdMap.empty.apply (.addNode 3 0x2000) |>.apply (.setServicePath 3 [97])
        |>.apply (.addNode 4 0x3000) |>.apply (.addNode 5 0) |>.apply (.deleteNode 4)
        |>.apply (.getServicePath 3 .zero)) :=
  list_implements_map .flat rfl (by decide)

end FdTable

end RemoteVfs
