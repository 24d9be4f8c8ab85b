import RemoteVfs.Binding
import RemoteVfs.Memory.Bounds
import RemoteVfs.Methods

/-!
# Messages that no client would send

The server takes any bytes for a request, and any length for a reply. Nothing is
checked; this is what the wrappers rely on.
-/

open CMem

namespace RemoteVfs

/-! ## What the converters rely on -/

namespace Op

/-- Where the last field that is read from a request ends. -/
def argInEnd : Op → Nat
  | open_ | fileControl => 640
  | delete => 516
  | access => 520
  | fullPathname => 4
  | getLastError => 0
  | write | read => 8324
  | truncate | fileSize => 128
  | sync | lock | unlock | checkReservedLock => 124
  | sectorSize | deviceCharacteristics | close => 120
  | fetch | unfetch => 132

/-- Where the last field that is written to a reply ends. The reply of a `FullPathname`
has no field at a fixed place. -/
def returnEnd : Op → Nat
  | open_ | checkReservedLock => 128
  | delete | getLastError => 4
  | access => 8
  | fullPathname => 0
  | write | read | fetch => 8316
  | truncate | sync | sectorSize | deviceCharacteristics | close | lock | unlock | unfetch => 124
  | fileSize => 132
  | fileControl => 640

end Op

section Converters

variable {n m k : Nat} {argIn : Buf n} {out : Buf m} {pBuf : Buf k} {id : UnixFile} {rc amt : CInt}
  {α : Type} [CType α] {x : α}

theorem isSome_open : (unixOpenConvertCharToArgIn argIn pBuf).isSome ↔
    0 ∈ argIn.slice 0 k ∧ 640 ≤ n := by
  simp only [unixOpenConvertCharToArgIn, Option.bind_eq_bind, Option.pure_def, isSome_bind_iff,
    Option.isSome_some, and_true, exists_and_right, ← Option.isSome_iff_exists,
    Buf.isSome_strcpy, Buf.isSome_get, Buf.slice, List.drop_zero]
  simp
  omega

theorem isSome_copy {off off' len : Nat} :
    ((pBuf.read off len).bind fun data => out.write off' data).isSome ↔
      off + len ≤ k ∧ off' + len ≤ m := by
  rw [isSome_bind (Q := off' + len ≤ m) fun data hdata => ?_, Buf.isSome_read]
  obtain ⟨hle, rfl⟩ := Buf.read_eq_some hdata
  rw [Buf.isSome_write, Buf.slice_length _ _ _ hle]

theorem isSome_readRequest : (unixReadConvertCharToArgIn argIn pBuf).isSome ↔
    8324 ≤ n ∧ ∀ amt, argIn.get CInt (sizeUnixFile + maxSize) = some amt →
      sizeT amt ≤ k ∧ 120 + sizeT amt ≤ n := by
  have hcopy : ∀ amt, (∃ data, argIn.read sizeUnixFile (sizeT amt) = some data ∧
      (pBuf.write 0 data).isSome) ↔ sizeT amt ≤ k ∧ 120 + sizeT amt ≤ n := fun amt => by
    rw [← isSome_bind_iff, isSome_copy]
    simp
    omega
  simp only [unixReadConvertCharToArgIn, Option.bind_eq_bind, Option.pure_def, isSome_bind_iff,
    Option.isSome_some, and_true, exists_and_right, ← Option.isSome_iff_exists, Buf.isSome_get]
  simp only [← and_assoc, exists_and_right, hcopy]
  constructor
  · rintro ⟨⟨-, amt, ⟨hamt, hk⟩, hle⟩, hn⟩
    refine ⟨hn, fun amt' hamt' => ?_⟩
    obtain rfl := Option.some.inj (hamt.symm.trans hamt')
    exact ⟨hk, hle⟩
  · rintro ⟨hn, hamt⟩
    have hget : (argIn.get CInt (sizeUnixFile + maxSize)).isSome := by
      rw [Buf.isSome_get]
      simp
      omega
    obtain ⟨amt, hget⟩ := Option.isSome_iff_exists.mp hget
    obtain ⟨hk, hle⟩ := hamt amt hget
    exact ⟨⟨by simp; omega, amt, ⟨hget, hk⟩, hle⟩, hn⟩

theorem isSome_putPayload :
    (putPayload id pBuf amt out).isSome ↔ 120 ≤ m ∧ sizeT amt ≤ k ∧ 120 + sizeT amt ≤ m := by
  unfold putPayload
  simp only [Option.bind_eq_bind]
  rw [isSome_bind fun _ _ => isSome_copy]
  simp

theorem isSome_readReply : (unixReadConvertReturnToChar id pBuf amt rc out).isSome ↔
    sizeT amt ≤ k ∧ 120 + sizeT amt ≤ m ∧ 8316 ≤ m := by
  unfold unixReadConvertReturnToChar
  rw [Option.bind_eq_bind, isSome_bind fun _ _ => Buf.isSome_put, isSome_putPayload]
  simp
  omega

theorem isSome_writeReply : (unixWriteConvertReturnToChar id rc out).isSome ↔ 8316 ≤ m := by
  unfold unixWriteConvertReturnToChar
  rw [Option.bind_eq_bind, isSome_bind fun _ _ => Buf.isSome_put]
  simp
  omega

theorem isSome_fetchRequest : (unixFetchConvertCharToArgIn argIn).isSome ↔ 132 ≤ n := by
  simp only [unixFetchConvertCharToArgIn, Option.bind_eq_bind, Option.pure_def, isSome_bind_iff,
    Option.isSome_some, and_true, exists_and_right, ← Option.isSome_iff_exists, Buf.isSome_get,
    isSome_getImageAnd]
  simp
  omega

theorem isSome_fetchReply {pp : Option (List Byte)} :
    (unixFetchsConvertReturnToChar id pp amt rc out).isSome ↔
      ∃ data, pp = some data ∧ sizeT amt ≤ data.length ∧ 120 + sizeT amt ≤ m ∧ 8316 ≤ m := by
  unfold unixFetchsConvertReturnToChar
  rw [Option.bind_eq_bind, isSome_bind_iff]
  simp only [isSome_readReply]

theorem isSome_fileControlRequest : (unixFileControlConvertCharToArgIn argIn pBuf).isSome ↔
    640 ≤ n ∧ ∀ size, argIn.get CInt (sizeUnixFile + sizeof CInt + 512) = some size →
      0 < size.toInt → sizeT size ≤ k ∧ 124 + sizeT size ≤ n := by
  have hcopy : ∀ (a : UnixFile) (op size : CInt), (if 0 < size.toInt then
      (argIn.read (sizeUnixFile + sizeof CInt) (sizeT size)).bind fun data =>
        (pBuf.write 0 data).bind fun pArg => some (a, op, pArg, size)
      else (some pBuf).bind fun pArg => some (a, op, pArg, size)).isSome ↔
        (0 < size.toInt → sizeT size ≤ k ∧ 124 + sizeT size ≤ n) := fun a op size => by
    split
    · next h =>
      simp only [isSome_bind_iff, Option.isSome_some, and_true, ← Option.isSome_iff_exists]
      rw [← isSome_bind_iff, isSome_copy]
      simp [h, and_comm]
    · next h => simp [h]
  simp only [unixFileControlConvertCharToArgIn, Option.bind_eq_bind, Option.pure_def,
    isSome_bind_iff, hcopy, exists_and_right, ← Option.isSome_iff_exists, Buf.isSome_get,
    exists_some_iff]
  constructor
  · rintro ⟨hn, h⟩
    exact ⟨hn, fun size hsize => (h size hsize).2.2⟩
  · rintro ⟨hn, h⟩
    exact ⟨hn, fun size hsize => ⟨by simp; omega, by simp; omega, h size hsize⟩⟩

theorem isSome_fileControlReply {size : CInt} :
    (unixFileControlConvertReturnToChar id pBuf rc out size).isSome ↔
      640 ≤ m ∧ (0 < size.toInt → sizeT size ≤ k ∧ 120 + sizeT size ≤ m) := by
  have hcopy : ∀ out : Buf m, (if 0 < size.toInt then
      (pBuf.read 0 (sizeT size)).bind fun data =>
        (out.write sizeUnixFile data).bind fun out => out.put (sizeUnixFile + 512) rc
      else (some out).bind fun out => out.put (sizeUnixFile + 512) rc).isSome ↔
        636 ≤ m ∧ (0 < size.toInt → sizeT size ≤ k ∧ 120 + sizeT size ≤ m) := fun out => by
    split
    · next h =>
      rw [← Option.bind_assoc, isSome_bind fun _ _ => Buf.isSome_put, isSome_copy]
      simp [h, and_comm]
    · next h => simp [h]
  unfold unixFileControlConvertReturnToChar
  simp only [Option.bind_eq_bind]
  rw [isSome_bind (Q := 636 ≤ m ∧ (0 < size.toInt → sizeT size ≤ k ∧ 120 + sizeT size ≤ m))
    fun _ _ => ?_]
  · simp
    omega
  · rw [isSome_bind fun _ _ => hcopy _]
    simp
    omega

theorem isSome_deleteRequest : (unixDeleteConvertCharToArgIn argIn pBuf).isSome ↔
    0 ∈ argIn.slice 0 k ∧ 516 ≤ n := by
  simp only [unixDeleteConvertCharToArgIn, Option.bind_eq_bind, Option.pure_def, isSome_bind_iff,
    Option.isSome_some, and_true, exists_and_right, ← Option.isSome_iff_exists,
    Buf.isSome_strcpy, Buf.isSome_get, Buf.slice, List.drop_zero]
  simp

theorem isSome_accessRequest : (unixAccessConvertCharToArgIn argIn pBuf).isSome ↔
    0 ∈ argIn.slice 0 k ∧ 520 ≤ n := by
  simp only [unixAccessConvertCharToArgIn, Option.bind_eq_bind, Option.pure_def, isSome_bind_iff,
    Option.isSome_some, and_true, exists_and_right, ← Option.isSome_iff_exists,
    Buf.isSome_strcpy, Buf.isSome_get, Buf.slice, List.drop_zero]
  simp
  omega

theorem isSome_accessReply {resOut : CInt} :
    (unixAccessConvertReturnToChar resOut rc out).isSome ↔ 8 ≤ m := by
  unfold unixAccessConvertReturnToChar
  rw [Option.bind_eq_bind, isSome_bind fun _ _ => Buf.isSome_put]
  simp
  omega

theorem isSome_fullPathnameReply {nOut : CInt} (hk : k = sizeT nOut) :
    (unixFullPathnameConvertReturnToChar nOut pBuf rc out).isSome ↔
      0 ∈ pBuf.val ∧ sizeT nOut + 4 ≤ m := by
  unfold unixFullPathnameConvertReturnToChar
  rw [Option.bind_eq_bind, isSome_bind fun _ _ => Buf.isSome_put, Buf.isSome_strcpy]
  refine and_congr_left fun hm => ?_
  rw [List.take_of_length_le]
  rw [pBuf.property, hk]
  simp at hm
  omega

end Converters

/-! ## What the table holds -/

/-- Behind every entry there is a method of the server, or none yet, and a string. -/
structure FdTable.Sound (A : Addresses) (t : FdTable) : Prop extends t.OwnMethods A where
  path : ∀ fd x, t.lookup fd = some x → ∃ p, cstr x.2.val = some p

/-- The path in the entry of `fd`. -/
def FdTable.pathOf (t : FdTable) (fd : CInt) : Path := (t.lookup fd).bind fun x => cstr x.2.val

variable {OS : Type} {fns : UnixFns OS} {A : Addresses} {garbage : Nat → Byte} {n m : Nat}
  {s s' : Server OS} {argIn : Buf n} {argOut outarg : Buf m} {op : Op}

namespace FdTable

variable {t t' : FdTable} {fd : CInt}

theorem Sound.empty (h : t.listHead = none) : t.Sound A := by
  have hl : ∀ fd, t.lookup fd = none := fun fd => by
    rw [lookup, node?, if_pos h, Option.map_none]
  refine ⟨⟨.inl h, fun fd pMethod hm => ?_⟩, fun fd x hx => ?_⟩
  · rw [method?, hl] at hm
    cases hm
  · rw [hl] at hx
    cases hx

theorem Valid.path_setServicePath (h : t.Valid) {src : List Byte}
    (hset : t.setServicePath fd src = some t') (hfd : (t.lookup fd).isSome) :
    (∃ x p, t'.lookup fd = some x ∧ cstr x.2.val = some p) ∧
      ∀ fd' ≠ fd, t'.lookup fd' = t.lookup fd' := by
  obtain ⟨⟨method, path⟩, hl⟩ := Option.isSome_iff_exists.mp hfd
  obtain ⟨a, hn, -⟩ := Option.map_eq_some_iff.mp hl
  obtain ⟨pre, hfind⟩ := h.findNode fd t.listHead
  have hset' := hset
  rw [FdTable.setServicePath, hfind, hn] at hset'
  simp only [Option.bind_eq_bind, Option.bind_some] at hset'
  obtain ⟨path', hcopy, -⟩ := Option.bind_eq_some_iff.mp hset'
  obtain ⟨p, hp, -, hlen⟩ := Buf.cstr_of_strcpy hcopy
  obtain ⟨t₁, path₁, hset₁, -, hp₁, hl₁⟩ :=
    h.setServicePath hl (cstr_eq_some hp).1 (Nat.le_of_succ_le_succ hlen)
  obtain rfl := Option.some.inj (hset.symm.trans (hset₁ src hp))
  refine ⟨⟨_, p, by rw [hl₁, if_pos rfl], hp₁⟩, fun fd' hne => ?_⟩
  rw [hl₁, if_neg hne]

theorem Valid.paths_register (h : t.Valid)
    (hpath : ∀ fd x, t.lookup fd = some x → ∃ p, cstr x.2.val = some p) {method : Ptr}
    {t₁ : FdTable} (hadd : t.addNode fd method = some t₁) {src : List Byte}
    (hset : t₁.setServicePath fd src = some t') :
    ∀ fd' x, t'.lookup fd' = some x → ∃ p, cstr x.2.val = some p := by
  obtain ⟨t₂, old, hadd₂, hv, hl, -⟩ := h.addNode fd method
  obtain rfl := Option.some.inj (hadd.symm.trans hadd₂)
  have hfd : (t₁.lookup fd).isSome := by rw [hl, if_pos rfl, Option.isSome_some]
  obtain ⟨⟨y, p, hy, hp⟩, hother⟩ := hv.path_setServicePath hset hfd
  intro fd' x hx
  by_cases heq : fd' = fd
  · rw [heq, hy] at hx
    exact ⟨p, Option.some.inj hx ▸ hp⟩
  · rw [hother fd' heq, hl, if_neg heq] at hx
    exact hpath fd' x hx

theorem Valid.writeBack (h : t.Valid) {a : Nat} (hn : t.node? fd = some a) {p : List Byte}
    (hp : cstr (t.mem a).path.val = some p) (method : Ptr) : ∃ t', t.addNode fd method = some t' ∧
      t'.setServicePath fd (t.mem a).path.val = some t' ∧ (t'.mem a).path = (t.mem a).path := by
  obtain ⟨head, l, hw⟩ := h.wf_of_node? hn
  obtain ⟨node, hnode⟩ : ∃ node, node = { t.mem a with method := method } := ⟨_, rfl⟩
  have hfd : node.fd = (t.mem a).fd := by rw [hnode]
  have hnext : node.next = (t.mem a).next := by rw [hnode]
  have hpath : ((t.set a node).mem a).path = (t.mem a).path := by rw [set_mem_self, hnode]
  have hv : (t.set a node).Valid := .inr ⟨head, l, hw.set hfd hnext⟩
  have hn' : (t.set a node).node? fd = some a := by rw [hw.node?_set hfd hnext, hn]
  refine ⟨t.set a node, ?_, ?_, hpath⟩
  · rw [hw.addNode_found hn, hnode]
  · rw [← hpath]
    exact hv.setServicePath_same hn' (hpath ▸ hp)

end FdTable

theorem wrapFile_paths {α β : Type} {decoded : Option (UnixFile × α)}
    {method : UnixFile → Path → α → OS → Option (UnixFile × β × OS)}
    {returnToChar : UnixFile → β → Buf m → Option (Buf m)} (hs : s.table.Sound A)
    (h : wrapFile fns A decoded method returnToChar argOut s = some (outarg, s')) :
    ∀ fd x, s'.table.lookup fd = some x → ∃ p, cstr x.2.val = some p := by
  obtain ⟨head, l, hw, -⟩ := hs.valid.ensureList
  have hv' : s.table.ensureList.Valid := .inr ⟨head, l, hw⟩
  obtain ⟨⟨id, args⟩, -, h⟩ := Option.bind_eq_some_iff.mp h
  simp only [hs.valid.getServerUnixPMethods, hv'.getServicePath, FdTable.ensureList_idem,
    Option.bind_eq_bind, Option.bind_some] at h
  obtain ⟨⟨g, ret, os⟩, -, h⟩ := Option.bind_eq_some_iff.mp h
  obtain ⟨t₁, hadd, h⟩ := Option.bind_eq_some_iff.mp h
  obtain ⟨src, -, h⟩ := Option.bind_eq_some_iff.mp h
  obtain ⟨t₂, hset, h⟩ := Option.bind_eq_some_iff.mp h
  obtain ⟨out, -, h⟩ := Option.bind_eq_some_iff.mp h
  obtain ⟨-, rfl⟩ := Prod.mk.inj (Option.some.inj h)
  refine hv'.paths_register (fun fd x hx => hs.path fd x ?_) hadd hset
  rwa [hs.valid.lookup_ensureList] at hx

theorem sound_serve (hs : s.table.Sound A)
    (h : serve fns A garbage op argIn argOut s = some (outarg, s')) : s'.table.Sound A := by
  refine ⟨ownMethods_serve hs.toOwnMethods h, ?_⟩
  by_cases hopen : op = .open_
  · subst hopen
    obtain ⟨p, r, -, -, -, -, ⟨path, hl, hp⟩, hother⟩ := wrapOpen_table hs.valid h
    intro fd x hx
    by_cases hfd : fd = r.image.h
    · rw [hfd, hl] at hx
      exact ⟨p, Option.some.inj hx ▸ hp⟩
    · exact hs.path fd x (hother fd hfd ▸ hx)
  · by_cases hop : op.OnFile
    · by_cases hclose : op = .close
      · subst hclose
        rw [(wrapClose_table hs.valid h).1]
        intro fd x hx
        exact hs.path fd x (hs.valid.lookup_ensureList fd ▸ hx)
      · obtain ⟨α, β, charToArgIn, method, returnToChar, -, -, heq⟩ :=
          serve_onFile fns A garbage hop hclose (n := n) (m := m)
        rw [heq] at h
        exact wrapFile_paths hs h
    · rw [serve_table_of_not_onFile hop hopen h]
      exact hs.path

/-! ## A file method -/

theorem wrapFile_known (hs : s.table.Sound A) {id : UnixFile}
    (hknown : (s.table.lookup id.h).isSome) : ∃ image : UnixFile → UnixFile,
      ∀ {α β : Type} {m : Nat} (args : α)
        (method : UnixFile → Path → α → OS → Option (UnixFile × β × OS))
        (returnToChar : UnixFile → β → Buf m → Option (Buf m)) (argOut : Buf m),
        (wrapFile fns A (some (id, args)) method returnToChar argOut s).map Prod.fst =
          (method id.core (s.table.pathOf id.h) args s.os).bind fun x =>
            returnToChar (image x.1) x.2.1 argOut := by
  have hv := hs.valid
  obtain ⟨⟨pm, path⟩, hl⟩ := Option.isSome_iff_exists.mp hknown
  obtain ⟨p, hp⟩ := hs.path _ _ hl
  obtain ⟨a, hn, hval⟩ := Option.map_eq_some_iff.mp hl
  obtain ⟨-, rfl⟩ := Prod.mk.inj hval
  have hpath : s.table.pathOf id.h = some p := by rw [FdTable.pathOf, hl, Option.bind_some, hp]
  obtain ⟨pm', hpm⟩ : ∃ pm', FdTable.serverMethod A (s.table.lookup id.h) = pm' := ⟨_, rfl⟩
  obtain ⟨t, hadd, hset, hmem⟩ := hv.writeBack hn hp pm'
  refine ⟨boundImage A a pm' id, fun args method returnToChar argOut => ?_⟩
  have hcore : UnixFile.core { id with pMethod := pm', zPath := A.nodePath a } = id.core := rfl
  have hadd' : ∀ g, s.table.setServerUnixPMethods id.h (boundImage A a pm' id g) = some t :=
    fun _ => hadd
  have himage : ∀ g, UnixFile.keep { id with pMethod := pm', zPath := A.nodePath a } g =
      boundImage A a pm' id g := fun _ => rfl
  have hfd : ∀ g, (boundImage A a pm' id g).h = id.h := fun _ => rfl
  simp only [wrapFile, Option.bind_eq_bind, Option.bind_some, hv.getServerUnixPMethods,
    FdTable.ensureList_of_node? hn, hv.getServicePath, hn, hpm, zPathMemory, hp, Option.map_some,
    Option.getD_some, hpath]
  rw [hcore]
  cases method id.core (some p) args s.os with
  | none => rfl
  | some x =>
    simp only [Option.bind_some, himage, hfd, hadd', hmem, hset]
    cases returnToChar (boundImage A a pm' id x.1) x.2.1 argOut <;> rfl

theorem isSome_wrapFile {α β : Type} (hs : s.table.Sound A) {id : UnixFile} {args : α}
    (hknown : (s.table.lookup id.h).isSome)
    {method : UnixFile → Path → α → OS → Option (UnixFile × β × OS)} {g : UnixFile} {ret : β}
    {os : OS} (hmethod : method id.core (s.table.pathOf id.h) args s.os = some (g, ret, os))
    {returnToChar : UnixFile → β → Buf m → Option (Buf m)} {Q : Prop}
    (hret : ∀ id', (returnToChar id' ret argOut).isSome ↔ Q) :
    (wrapFile fns A (some (id, args)) method returnToChar argOut s).isSome ↔ Q := by
  obtain ⟨image, hwrap⟩ := @wrapFile_known _ fns _ _ hs _ hknown
  rw [← @Option.isSome_map _ _ Prod.fst, hwrap args method, hmethod, Option.bind_some]
  exact hret (image g)

theorem isSome_wrapFile_decoded {α β : Type} (hs : s.table.Sound A)
    {decoded : Option (UnixFile × α)}
    (hknown : ∀ x, decoded = some x → (s.table.lookup x.1.h).isSome)
    {method : UnixFile → Path → α → OS → Option (UnixFile × β × OS)}
    {returnToChar : UnixFile → β → Buf m → Option (Buf m)} {Q : Prop}
    (hrun : ∀ id args, decoded = some (id, args) → ∃ g ret os,
      method id.core (s.table.pathOf id.h) args s.os = some (g, ret, os) ∧
      ∀ id', (returnToChar id' ret argOut).isSome ↔ Q) :
    (wrapFile fns A decoded method returnToChar argOut s).isSome ↔ decoded.isSome ∧ Q := by
  cases hdec : decoded with
  | none =>
    refine iff_of_false ?_ (by simp)
    unfold wrapFile
    simp
  | some x =>
    obtain ⟨g, ret, os, hmethod, hret⟩ := hrun x.1 x.2 hdec
    rw [isSome_wrapFile hs (hknown x hdec) hmethod hret]
    simp

/-! ## Which messages stay inside -/

/-- A request that has its path read back from the image names a descriptor of the table:
the path in the image is then the one in the entry, not a pointer of the message. -/
def Known (op : Op) (argIn : Buf n) (t : FdTable) : Prop :=
  op.OnFile → op ≠ .close → ∀ id, argIn.get UnixFile 0 = some id → (t.lookup id.h).isSome

variable (fns) in
/-- The length of its reply that a `FileControl` measures is one of `P`, whatever `pArg` held at
first. -/
def ControlMeasures (P : CInt → Prop) (argIn : Buf n) (s : Server OS) : Prop :=
  ∀ garbage id op pArg size,
    unixFileControlConvertCharToArgIn argIn (Buf.uninit garbage 512) = some (id, op, pArg, size) →
    ∀ g pArg' rc os, runFileControl fns id.core (s.table.pathOf id.h) (op, pArg, size) s.os =
      some (g, (op, pArg', rc, os), os) →
    ∃ len, lenFileControlPArg (fun z => ((fns.memory os z).bind cstr).map List.length) op
      (some pArg'.val) = some len ∧ P len

variable (fns) in
/-- The string that a `FileControl` measures for its reply has at most 512 bytes. -/
def ControlMeasured (argIn : Buf n) (s : Server OS) : Prop :=
  ControlMeasures fns (fun len => len.toInt ≤ 512) argIn s

variable (fns) in
/-- The lengths inside of the message, and of what the functions return. -/
def LengthsFit (op : Op) (argIn : Buf n) (outlen : Nat) (s : Server OS) : Prop :=
  match op with
  | .open_ | .delete | .access => 0 ∈ argIn.slice 0 512
  | .fullPathname => ∀ nOut, getFullPathnameOutLen argIn = some nOut →
    0 ≤ nOut.toInt ∧ 0 ∈ argIn.slice 4 (sizeT nOut) ∧ sizeT nOut + 4 ≤ outlen ∧
    ∀ path, cstr (argIn.val.drop 4) = some path → ∀ zOut : Buf (sizeT nOut),
      0 ∈ (fns.unixFullPathname path zOut s.os).1.val
  | .write | .read => ∀ amt, argIn.get CInt (sizeUnixFile + maxSize) = some amt →
    sizeT amt ≤ maxSize
  | .fetch => ∀ id iOff nAmt, unixFetchConvertCharToArgIn argIn = some (id, iOff, nAmt) →
    ∃ pp, (fns.unixFetch id.core (s.table.pathOf id.h) iOff nAmt s.os).2.1 = some pp ∧
      sizeT nAmt ≤ pp.length ∧ 120 + sizeT nAmt ≤ outlen
  | .fileControl =>
    (∀ size, argIn.get CInt (sizeUnixFile + sizeof CInt + 512) = some size → size.toInt ≤ 512) ∧
    ControlMeasured fns argIn s
  | _ => True

variable (fns) in
/-- The message has all the fields, the reply has room for them, and the lengths fit. -/
structure Contained (op : Op) (argIn : Buf n) (outlen : Nat) (s : Server OS) : Prop where
  request : op.argInEnd ≤ n
  reply : op.returnEnd ≤ outlen
  known : Known op argIn s.table
  lengths : LengthsFit fns op argIn outlen s

variable (fns A) in
/-- The wrapper stays inside of the message, its locals, the entry of the descriptor and the
reply, whatever they hold at first. -/
structure Safe (op : Op) (argIn : Buf n) (outlen : Nat) (s : Server OS) : Prop where
  inside : ∀ garbage (argOut : Buf outlen), (serve fns A garbage op argIn argOut s).isSome
  known : Known op argIn s.table

theorem safe_iff_contained_of {outlen : Nat} (h : Known op argIn s.table →
    ∀ garbage (argOut : Buf outlen), (serve fns A garbage op argIn argOut s).isSome ↔
      op.argInEnd ≤ n ∧ op.returnEnd ≤ outlen ∧ LengthsFit fns op argIn outlen s) :
    Safe fns A op argIn outlen s ↔ Contained fns op argIn outlen s := by
  constructor
  · rintro ⟨hinside, hknown⟩
    obtain ⟨hin, hout, hlen⟩ :=
      (h hknown (fun _ => 0) (Buf.zeros outlen)).mp (hinside _ _)
    exact ⟨hin, hout, hknown, hlen⟩
  · rintro ⟨hin, hout, hknown, hlen⟩
    exact ⟨fun garbage argOut => (h hknown garbage argOut).mpr ⟨hin, hout, hlen⟩, hknown⟩

theorem Known.decoded {α : Type} {charToArgIn : Buf n → Option (UnixFile × α)}
    (hknown : Known op argIn s.table) (hop : op.OnFile) (hclose : op ≠ .close)
    (htakes : TakesImage charToArgIn) :
    ∀ x, charToArgIn argIn = some x → (s.table.lookup x.1.h).isSome :=
  fun x hx => hknown hop hclose x.1 (htakes.image argIn x hx)

theorem isSome_payload {pBuf : Buf 8192} : (unixReadConvertCharToArgIn argIn pBuf).isSome ↔
    8324 ≤ n ∧ ∀ amt, argIn.get CInt (sizeUnixFile + maxSize) = some amt →
      sizeT amt ≤ maxSize := by
  rw [isSome_readRequest]
  refine and_congr_right fun hn => forall₂_congr fun amt _ => ?_
  exact ⟨fun h => h.1, fun h => ⟨h, by rw [maxSize_eq] at h; omega⟩⟩

section Decoded

variable {pBuf pBuf' : Buf 8192} {id : UnixFile} {amt : CInt} {offset : I64}
  (h : unixReadConvertCharToArgIn argIn pBuf = some (id, pBuf', amt, offset))
include h

theorem amt_of_readRequest : argIn.get CInt (sizeUnixFile + maxSize) = some amt := by
  obtain ⟨id', -, h⟩ := Option.bind_eq_some_iff.mp h
  obtain ⟨amt', hamt, h⟩ := Option.bind_eq_some_iff.mp h
  obtain ⟨data, -, h⟩ := Option.bind_eq_some_iff.mp h
  obtain ⟨pBuf₁, -, h⟩ := Option.bind_eq_some_iff.mp h
  obtain ⟨offset', -, h⟩ := Option.bind_eq_some_iff.mp h
  obtain ⟨-, -, rfl, -⟩ := Option.some.inj h
  exact hamt

theorem amt_of_decoded : sizeT amt ≤ 8192 :=
  (isSome_payload.mp (Option.isSome_of_eq_some h)).2 amt (amt_of_readRequest h)

end Decoded

section Methods

variable {id : UnixFile} {zPath : Path} {os : OS}

theorem exists_runWrite {args : Buf 8192 × CInt × I64} (h : sizeT args.2.1 ≤ 8192) :
    ∃ r, runWrite fns id zPath args os = some r := by
  obtain ⟨pBuf, amt, offset⟩ := args
  have hread : pBuf.read 0 (sizeT amt) = some _ := Buf.read_eq pBuf (by simpa using h)
  unfold runWrite
  dsimp only
  rw [hread]
  exact ⟨_, rfl⟩

theorem exists_runRead {args : Buf 8192 × CInt × I64} (h : sizeT args.2.1 ≤ 8192) :
    ∃ g pBuf rc os', runRead fns id zPath args os = some (g, (pBuf, args.2.1, rc), os') := by
  obtain ⟨pBuf, amt, offset⟩ := args
  have htake := Buf.take_eq pBuf h
  have hwrite : ∀ data : Buf (sizeT amt), pBuf.write 0 data.val = some _ := fun data =>
    Buf.write_eq pBuf (by rw [data.property]; dsimp only at h; omega)
  unfold runRead
  dsimp only
  rw [htake]
  simp only [Option.bind_eq_bind, Option.bind_some, hwrite]
  exact ⟨_, _, _, _, rfl⟩

theorem argLen_le (op : CInt) : argLen op ≤ 512 := by
  unfold argLen
  split_ifs <;> decide

theorem exists_runFileControl (op : CInt) (pArg : Buf 512) (size : CInt) :
    ∃ g pArg' rc os', runFileControl fns id zPath (op, pArg, size) os =
      some (g, (op, pArg', rc, os'), os') := by
  have hwrite : ∀ arg : Buf (argLen op), pArg.write 0 arg.val = some _ := fun arg =>
    Buf.write_eq pArg (by rw [arg.property]; simpa using argLen_le op)
  unfold runFileControl
  simp only [Option.bind_eq_bind, Option.bind_some, Buf.take_eq pArg (argLen_le op),
    Option.map_some, hwrite]
  split
  all_goals
    split
    · exact ⟨_, _, _, _, rfl⟩
    · exact ⟨_, _, _, _, rfl⟩

theorem size_fits_iff {size : CInt} {room : Nat} (h : 512 ≤ room) :
    (0 < size.toInt → sizeT size ≤ 512 ∧ sizeT size ≤ room) ↔ size.toInt ≤ 512 := by
  by_cases hpos : 0 < size.toInt
  · have hsize := sizeT_of_nonneg size (by omega)
    omega
  · omega

variable (fns) in
theorem isSome_returnFileControl {id : UnixFile} {ret : CInt × Buf 512 × CInt × OS} :
    (returnFileControl fns id ret argOut).isSome ↔ 640 ≤ m ∧
      ∃ len, lenFileControlPArg (fun z => ((fns.memory ret.2.2.2 z).bind cstr).map List.length)
        ret.1 (some ret.2.1.val) = some len ∧ len.toInt ≤ 512 := by
  unfold returnFileControl
  rw [Option.bind_eq_bind, isSome_bind_iff, ← exists_and_left]
  refine exists_congr fun len => ?_
  rw [isSome_fileControlReply, and_left_comm]
  refine and_congr_right fun hm => and_congr_right fun _ => ?_
  rw [← size_fits_iff (show 512 ≤ m - 120 by omega)]
  refine forall_congr' fun _ => and_congr_right fun _ => ?_
  omega

end Methods

theorem isSome_sizedRequest {pArg : Buf 512} :
    (unixFileControlConvertCharToArgIn argIn pArg).isSome ↔
      640 ≤ n ∧ ∀ size, argIn.get CInt (sizeUnixFile + sizeof CInt + 512) = some size →
        size.toInt ≤ 512 := by
  rw [isSome_fileControlRequest]
  refine and_congr_right fun hn => forall₂_congr fun size _ => ?_
  rw [← size_fits_iff (show 512 ≤ n - 124 by omega)]
  refine forall_congr' fun _ => and_congr_right fun _ => ?_
  omega

section EachOperation

variable {outlen : Nat} (hs : s.table.Sound A)
include hs

theorem safe_direct {α β : Type} (hop : op.OnFile) (hclose : op ≠ .close)
    {charToArgIn : Buf n → Option (UnixFile × α)} (htakes : TakesImage charToArgIn)
    {f : UnixFile → Path → α → OS → UnixFile × β × OS}
    {returnToChar : UnixFile → β → Buf outlen → Option (Buf outlen)}
    (hserve : ∀ garbage, serve fns A garbage op argIn =
      wrapFile fns A (charToArgIn argIn) (direct f) returnToChar)
    (hin : (charToArgIn argIn).isSome ↔ op.argInEnd ≤ n)
    (hout : ∀ id ret argOut, (returnToChar id ret argOut).isSome ↔ op.returnEnd ≤ outlen)
    (hfit : LengthsFit fns op argIn outlen s) :
    Safe fns A op argIn outlen s ↔ Contained fns op argIn outlen s := by
  refine safe_iff_contained_of fun hknown garbage argOut => ?_
  rw [hserve, isSome_wrapFile_decoded hs (hknown.decoded hop hclose htakes)
    fun id args _ => ⟨_, _, _, rfl, fun id' => hout id' _ argOut⟩, hin]
  exact ⟨fun h => ⟨h.1, h.2, hfit⟩, fun h => ⟨h.1, h.2.1⟩⟩

theorem safe_fileSize :
    Safe fns A .fileSize argIn outlen s ↔ Contained fns .fileSize argIn outlen s := by
  have hserve : ∀ garbage, serve (m := outlen) fns A garbage .fileSize argIn =
      wrapFile fns A (getImageAnd I64 argIn) (direct fns.unixFileSize)
        fun id ret => putImageOutRc id ret.1 ret.2 := fun _ => rfl
  have hin : (getImageAnd I64 argIn).isSome ↔ Op.argInEnd .fileSize ≤ n := isSome_getImageAnd
  exact safe_direct hs trivial nofun takesImage_getImageAnd hserve hin
    (fun _ _ _ => isSome_putImageOutRc) trivial

theorem safe_checkReservedLock :
    Safe fns A .checkReservedLock argIn outlen s ↔
      Contained fns .checkReservedLock argIn outlen s := by
  have hserve : ∀ garbage, serve (m := outlen) fns A garbage .checkReservedLock argIn =
      wrapFile fns A (getImageAnd CInt argIn) (direct fns.unixCheckReservedLock)
        fun id ret => putImageOutRc id ret.1 ret.2 := fun _ => rfl
  have hin : (getImageAnd CInt argIn).isSome ↔ Op.argInEnd .checkReservedLock ≤ n :=
    isSome_getImageAnd
  exact safe_direct hs trivial nofun takesImage_getImageAnd hserve hin
    (fun _ _ _ => isSome_putImageOutRc) trivial

theorem safe_imageAndInt (hop : op = .truncate ∨ op = .sync ∨ op = .sectorSize ∨
    op = .deviceCharacteristics ∨ op = .lock ∨ op = .unlock ∨ op = .unfetch) :
    Safe fns A op argIn outlen s ↔ Contained fns op argIn outlen s := by
  rcases hop with rfl | rfl | rfl | rfl | rfl | rfl | rfl
  · exact safe_direct hs trivial nofun takesImage_getImageAnd (fun _ => rfl) isSome_getImageAnd
      (fun _ _ _ => isSome_putImageAnd) trivial
  · exact safe_direct hs trivial nofun takesImage_getImageAnd (fun _ => rfl) isSome_getImageAnd
      (fun _ _ _ => isSome_putImageAnd) trivial
  · exact safe_direct hs trivial nofun takesImage_unit (fun _ => rfl)
      (by rw [Option.isSome_map]; exact Buf.isSome_get) (fun _ _ _ => isSome_putImageAnd) trivial
  · exact safe_direct hs trivial nofun takesImage_unit (fun _ => rfl)
      (by rw [Option.isSome_map]; exact Buf.isSome_get) (fun _ _ _ => isSome_putImageAnd) trivial
  · exact safe_direct hs trivial nofun takesImage_getImageAnd (fun _ => rfl) isSome_getImageAnd
      (fun _ _ _ => isSome_putImageAnd) trivial
  · exact safe_direct hs trivial nofun takesImage_getImageAnd (fun _ => rfl) isSome_getImageAnd
      (fun _ _ _ => isSome_putImageAnd) trivial
  · exact safe_direct hs trivial nofun takesImage_fetch (fun _ => rfl) isSome_fetchRequest
      (fun _ _ _ => isSome_putImageAnd) trivial

theorem safe_write : Safe fns A .write argIn outlen s ↔ Contained fns .write argIn outlen s := by
  refine safe_iff_contained_of fun hknown garbage argOut => ?_
  have hiff : (wrapFile fns A (unixReadConvertCharToArgIn argIn (Buf.uninit garbage 8192))
      (runWrite fns) unixWriteConvertReturnToChar argOut s).isSome ↔ _ ∧ 8316 ≤ outlen :=
    isSome_wrapFile_decoded hs (hknown.decoded trivial nofun (takesImage_read _))
      fun id args hdec => by
        obtain ⟨⟨g, rc, os⟩, hrun⟩ := exists_runWrite (amt_of_decoded hdec)
        exact ⟨g, rc, os, hrun, fun id' => isSome_writeReply⟩
  refine hiff.trans ?_
  rw [isSome_payload]
  exact ⟨fun h => ⟨h.1.1, h.2, h.1.2⟩, fun h => ⟨⟨h.1, h.2.2⟩, h.2.1⟩⟩

theorem safe_read : Safe fns A .read argIn outlen s ↔ Contained fns .read argIn outlen s := by
  refine safe_iff_contained_of fun hknown garbage argOut => ?_
  have hiff : (wrapFile fns A (unixReadConvertCharToArgIn argIn (Buf.uninit garbage 8192))
      (runRead fns) (fun id ret => unixReadConvertReturnToChar id ret.1 ret.2.1 ret.2.2)
      argOut s).isSome ↔ _ ∧ 8316 ≤ outlen :=
    isSome_wrapFile_decoded hs (hknown.decoded trivial nofun (takesImage_read _))
      fun id args hdec => by
        have hle : sizeT args.2.1 ≤ 8192 := amt_of_decoded hdec
        obtain ⟨g, pBuf, rc, os, hrun⟩ := exists_runRead hle
        refine ⟨g, _, os, hrun, fun id' => ?_⟩
        rw [isSome_readReply]
        dsimp only
        omega
  refine hiff.trans ?_
  rw [isSome_payload]
  exact ⟨fun h => ⟨h.1.1, h.2, h.1.2⟩, fun h => ⟨⟨h.1, h.2.2⟩, h.2.1⟩⟩

theorem safe_fetch : Safe fns A .fetch argIn outlen s ↔ Contained fns .fetch argIn outlen s := by
  refine safe_iff_contained_of fun hknown garbage argOut => ?_
  have hiff : (wrapFile fns A (unixFetchConvertCharToArgIn argIn) (direct (runFetch fns))
      (fun id ret => unixFetchsConvertReturnToChar id ret.1 ret.2.1 ret.2.2) argOut s).isSome ↔
        _ ∧ 8316 ≤ outlen ∧ LengthsFit fns .fetch argIn outlen s :=
    isSome_wrapFile_decoded hs (hknown.decoded trivial nofun takesImage_fetch)
      fun id args hdec => by
        refine ⟨_, _, _, rfl, fun id' => ?_⟩
        rw [isSome_fetchReply]
        constructor
        · rintro ⟨data, hdata, hlen, hroom, hout⟩
          refine ⟨hout, fun id₁ iOff nAmt hdec₁ => ?_⟩
          obtain ⟨rfl, rfl⟩ := Prod.mk.inj (Option.some.inj (hdec.symm.trans hdec₁))
          exact ⟨data, hdata, hlen, hroom⟩
        · rintro ⟨hout, hfit⟩
          obtain ⟨data, hdata, hlen, hroom⟩ := hfit id args.1 args.2 hdec
          exact ⟨data, hdata, hlen, hroom, hout⟩
  refine hiff.trans ?_
  rw [isSome_fetchRequest]
  rfl

theorem safe_fileControl :
    Safe fns A .fileControl argIn outlen s ↔ Contained fns .fileControl argIn outlen s := by
  -- With one content of `pArg`.
  have hiff : Known .fileControl argIn s.table → ∀ garbage (argOut : Buf outlen),
      (serve fns A garbage .fileControl argIn argOut s).isSome ↔
        (unixFileControlConvertCharToArgIn argIn (Buf.uninit garbage 512)).isSome ∧
        640 ≤ outlen ∧ ∀ id op pArg size,
          unixFileControlConvertCharToArgIn argIn (Buf.uninit garbage 512) =
            some (id, op, pArg, size) →
          ∀ g pArg' rc os, runFileControl fns id.core (s.table.pathOf id.h) (op, pArg, size)
              s.os = some (g, (op, pArg', rc, os), os) →
            ∃ len, lenFileControlPArg (fun z => ((fns.memory os z).bind cstr).map List.length) op
              (some pArg'.val) = some len ∧ len.toInt ≤ 512 := by
    intro hknown garbage argOut
    refine isSome_wrapFile_decoded hs
      (hknown.decoded trivial nofun (takesImage_fileControl _)) fun id args hdec => ?_
    obtain ⟨op, pArg, size⟩ := args
    obtain ⟨g, pArg', rc, os, hrun⟩ := @exists_runFileControl _ fns id.core
      (s.table.pathOf id.h) s.os op pArg size
    refine ⟨g, _, os, hrun, fun id' => ?_⟩
    rw [isSome_returnFileControl]
    refine and_congr_right fun _ => ⟨fun h id₁ op₁ pArg₁ size₁ hdec₁ g₁ pArg₁' rc₁ os₁ hrun₁ => ?_,
      fun h => h id op pArg size hdec g pArg' rc os hrun⟩
    have hsame₁ := hdec.symm.trans hdec₁
    simp only [Option.some.injEq, Prod.mk.injEq] at hsame₁
    obtain ⟨rfl, rfl, rfl, rfl⟩ := hsame₁
    have hsame := hrun.symm.trans hrun₁
    simp only [Option.some.injEq, Prod.mk.injEq, true_and] at hsame
    obtain ⟨-, ⟨rfl, -, -⟩, rfl⟩ := hsame
    exact h
  constructor
  · rintro ⟨hinside, hknown⟩
    have hsome := fun garbage => (hiff hknown garbage (Buf.zeros outlen)).mp (hinside _ _)
    obtain ⟨hin, hsize⟩ := isSome_sizedRequest.mp (hsome fun _ => 0).1
    exact ⟨hin, (hsome fun _ => 0).2.1, hknown, hsize, fun garbage => (hsome garbage).2.2⟩
  · rintro ⟨hin, hout, hknown, hsize, hmeasured⟩
    exact ⟨fun garbage argOut => (hiff hknown garbage argOut).mpr
      ⟨isSome_sizedRequest.mpr ⟨hin, hsize⟩, hout, hmeasured garbage⟩, hknown⟩

theorem safe_close : Safe fns A .close argIn outlen s ↔ Contained fns .close argIn outlen s := by
  refine safe_iff_contained_of fun _ garbage argOut => ?_
  obtain ⟨head, l, hw, -⟩ := hs.valid.ensureList
  have hv' : s.table.ensureList.Valid := .inr ⟨head, l, hw⟩
  have hiff : (wrapClose fns A garbage argIn argOut s).isSome ↔
      (unixCloseConvertCharToArgIn argIn).isSome ∧ 124 ≤ outlen := by
    unfold wrapClose
    refine isSome_bind fun id _ => ?_
    obtain ⟨style, hstyle⟩ := hs.serverMethod id.h
    simp only [hs.valid.getServerUnixPMethods, hv'.getServicePath, FdTable.ensureList_idem, hstyle,
      Option.bind_eq_bind, Option.bind_some]
    rw [if_pos (A.ioMethods_ne_null style), xClose_ioMethods, Option.bind_some,
      isSome_bind (Q := True) fun _ _ => by simp]
    unfold unixCloseConvertReturnToChar
    simp
  refine hiff.trans ?_
  unfold unixCloseConvertCharToArgIn
  rw [Buf.isSome_get]
  exact ⟨fun h => ⟨h.1, h.2, trivial⟩, fun h => ⟨h.1, h.2.1⟩⟩

theorem safe_open : Safe fns A .open_ argIn outlen s ↔ Contained fns .open_ argIn outlen s := by
  refine safe_iff_contained_of fun _ garbage argOut => ?_
  have hiff : (wrapOpen fns A garbage argIn argOut s).isSome ↔
      (unixOpenConvertCharToArgIn argIn (Buf.uninit garbage 512)).isSome ∧ 128 ≤ outlen := by
    cases hdec : unixOpenConvertCharToArgIn argIn (Buf.uninit garbage 512) with
    | none =>
      unfold wrapOpen
      simp [hdec]
    | some x =>
      obtain ⟨path, pFile, flags, outFlags⟩ := x
      obtain ⟨path', hcopy, hrest⟩ := Option.bind_eq_some_iff.mp hdec
      obtain ⟨p, -, hp, hlen⟩ := Buf.cstr_of_strcpy hcopy
      obtain ⟨id', -, hrest⟩ := Option.bind_eq_some_iff.mp hrest
      obtain ⟨flags', -, hrest⟩ := Option.bind_eq_some_iff.mp hrest
      obtain ⟨outFlags', -, hrest⟩ := Option.bind_eq_some_iff.mp hrest
      obtain ⟨rfl, -⟩ := Prod.mk.inj (Option.some.inj hrest)
      obtain ⟨t', -, -, -, hwrap⟩ := wrapOpen_decoded fns A (m := outlen) (n := n) hs.valid
        (cstr_eq_some hp).1 (Nat.le_of_succ_le_succ hlen)
        (openOn fns pFile p flags (if outFlags = -1 then none else some outFlags) s.os)
      rw [hwrap garbage argIn path' pFile flags outFlags hdec hp rfl argOut, Option.isSome_map]
      unfold unixOpenConvertReturnToChar
      rw [isSome_putImageOutRc]
      simp
  refine hiff.trans ?_
  rw [isSome_open]
  exact ⟨fun h => ⟨h.1.2, h.2, h.1.1⟩, fun h => ⟨⟨h.2.2, h.1⟩, h.2.1⟩⟩

end EachOperation

section WithoutHandle

variable {outlen : Nat}

theorem safe_delete :
    Safe fns A .delete argIn outlen s ↔ Contained fns .delete argIn outlen s := by
  refine safe_iff_contained_of fun _ garbage argOut => ?_
  have hiff : (wrapDelete fns garbage argIn argOut s).isSome ↔
      (unixDeleteConvertCharToArgIn argIn (Buf.uninit garbage 512)).isSome ∧ 4 ≤ outlen := by
    unfold wrapDelete
    refine isSome_bind fun x hdec => ?_
    obtain ⟨path, hcopy, hdec⟩ := Option.bind_eq_some_iff.mp hdec
    obtain ⟨dirSync, -, hdec⟩ := Option.bind_eq_some_iff.mp hdec
    obtain ⟨p, -, hp, -⟩ := Buf.cstr_of_strcpy hcopy
    rw [← Option.some.inj hdec]
    simp only [hp, Option.bind_eq_bind, Option.bind_some]
    rw [isSome_bind (Q := True) fun _ _ => by simp]
    unfold unixDeleteConvertReturnToChar
    simp
  refine hiff.trans ?_
  rw [isSome_deleteRequest]
  exact ⟨fun h => ⟨h.1.2, h.2, h.1.1⟩, fun h => ⟨⟨h.2.2, h.1⟩, h.2.1⟩⟩

theorem safe_access :
    Safe fns A .access argIn outlen s ↔ Contained fns .access argIn outlen s := by
  refine safe_iff_contained_of fun _ garbage argOut => ?_
  have hiff : (wrapAccess fns garbage argIn argOut s).isSome ↔
      (unixAccessConvertCharToArgIn argIn (Buf.uninit garbage 512)).isSome ∧ 8 ≤ outlen := by
    unfold wrapAccess
    refine isSome_bind fun x hdec => ?_
    obtain ⟨path, hcopy, hdec⟩ := Option.bind_eq_some_iff.mp hdec
    obtain ⟨flags, -, hdec⟩ := Option.bind_eq_some_iff.mp hdec
    obtain ⟨resOut, -, hdec⟩ := Option.bind_eq_some_iff.mp hdec
    obtain ⟨p, -, hp, -⟩ := Buf.cstr_of_strcpy hcopy
    rw [← Option.some.inj hdec]
    simp only [hp, Option.bind_eq_bind, Option.bind_some]
    rw [isSome_bind (Q := True) fun _ _ => by simp, isSome_accessReply]
    simp
  refine hiff.trans ?_
  rw [isSome_accessRequest]
  exact ⟨fun h => ⟨h.1.2, h.2, h.1.1⟩, fun h => ⟨⟨h.2.2, h.1⟩, h.2.1⟩⟩

theorem safe_getLastError :
    Safe fns A .getLastError argIn outlen s ↔ Contained fns .getLastError argIn outlen s := by
  refine safe_iff_contained_of fun _ garbage argOut => ?_
  have hiff : (wrapGetLastError fns argIn argOut s).isSome ↔ 4 ≤ outlen := by
    unfold wrapGetLastError unixGetLastErrorConvertReturnToChar
    rw [Option.bind_eq_bind, isSome_bind (Q := True) fun _ _ => by simp]
    simp
  refine hiff.trans ?_
  exact ⟨fun h => ⟨Nat.zero_le n, h, trivial⟩, fun h => h.2.1⟩

theorem isSome_wrapFullPathname (argOut : Buf outlen) :
    (wrapFullPathname fns garbage argIn argOut s).isSome ↔
      ∃ nOut, getFullPathnameOutLen argIn = some nOut ∧ 0 ≤ nOut.toInt ∧
        ∃ path, cstr ((argIn.val.drop 4).take (sizeT nOut)) = some path ∧
          0 ∈ (fns.unixFullPathname path (Buf.uninit (fun i => garbage (sizeT nOut + i))
            (sizeT nOut)) s.os).1.val ∧ sizeT nOut + 4 ≤ outlen := by
  unfold wrapFullPathname
  rw [Option.bind_eq_bind, isSome_bind_iff]
  refine exists_congr fun nOut => and_congr_right fun hnOut => ?_
  by_cases hneg : nOut.toInt < 0
  · simp [hneg]
  · simp only [hneg, if_false]
    rw [and_iff_right (not_lt.mp hneg)]
    cases hcopy : (Buf.uninit garbage (sizeT nOut)).strcpy (argIn.val.drop 4) with
    | none =>
      have hdec : unixFullPathnameConvertCharToArgIn argIn (Buf.uninit garbage (sizeT nOut)) =
          none := by
        simp [unixFullPathnameConvertCharToArgIn, hcopy]
      rw [hdec]
      refine iff_of_false (by simp) ?_
      rintro ⟨path, hpath, -⟩
      have hsome : (Buf.uninit garbage (sizeT nOut)).strcpy (argIn.val.drop 4) = some _ :=
        Buf.strcpy_eq_some.mpr ⟨path, hpath, rfl⟩
      rw [hcopy] at hsome
      cases hsome
    | some path' =>
      obtain ⟨path, hpath, hp, hlen⟩ := Buf.cstr_of_strcpy hcopy
      have hdec : unixFullPathnameConvertCharToArgIn argIn (Buf.uninit garbage (sizeT nOut)) =
          some (path', nOut) := by
        simp [unixFullPathnameConvertCharToArgIn, hcopy, hnOut]
      have htake := cstr_take.mpr ⟨hpath, hlen⟩
      rw [hdec, htake]
      simp only [Option.bind_eq_bind, Option.bind_some, hp, Option.some.injEq, exists_eq_left']
      rw [isSome_bind (Q := True) fun _ _ => by simp, isSome_fullPathnameReply rfl, and_true]

theorem safe_fullPathname :
    Safe fns A .fullPathname argIn outlen s ↔ Contained fns .fullPathname argIn outlen s := by
  constructor
  · rintro ⟨hinside, hknown⟩
    have hsome : ∀ garbage, (wrapFullPathname fns garbage argIn (Buf.zeros outlen) s).isSome :=
      fun garbage => hinside garbage _
    obtain ⟨nOut, hnOut, hpos, path, hpath, -, hroom⟩ :=
      (isSome_wrapFullPathname _).mp (hsome fun _ => 0)
    have hin : 0 + sizeof CInt ≤ n := Buf.isSome_get.mp (Option.isSome_of_eq_some hnOut)
    refine ⟨hin, Nat.zero_le _, hknown, fun nOut' hnOut' => ?_⟩
    obtain rfl := Option.some.inj (hnOut.symm.trans hnOut')
    refine ⟨hpos, isSome_cstr.mp (Option.isSome_of_eq_some hpath), hroom, fun p hp zOut => ?_⟩
    obtain ⟨garbage, rfl⟩ := Buf.uninit_eq zOut (sizeT nOut)
    obtain ⟨nOut₁, hnOut₁, -, path₁, hpath₁, hstring, -⟩ :=
      (isSome_wrapFullPathname _).mp (hsome garbage)
    obtain rfl := Option.some.inj (hnOut.symm.trans hnOut₁)
    obtain rfl := Option.some.inj (hp.symm.trans (cstr_take.mp hpath₁).1)
    exact hstring
  · rintro ⟨hin, -, hknown, hfit⟩
    refine ⟨fun garbage argOut => (isSome_wrapFullPathname argOut).mpr ?_, hknown⟩
    have hget : (getFullPathnameOutLen argIn).isSome := Buf.isSome_get.mpr hin
    obtain ⟨nOut, hnOut⟩ := Option.isSome_iff_exists.mp hget
    obtain ⟨hpos, hnul, hroom, hstring⟩ := hfit nOut hnOut
    obtain ⟨path, hpath⟩ := Option.isSome_iff_exists.mp (isSome_cstr.mpr hnul)
    exact ⟨nOut, hnOut, hpos, path, hpath, hstring path (cstr_take.mp hpath).1 _, hroom⟩

end WithoutHandle

theorem safe_iff (hs : s.table.Sound A) (op : Op) (argIn : Buf n) (outlen : Nat) :
    Safe fns A op argIn outlen s ↔ Contained fns op argIn outlen s := by
  cases op with
  | open_ => exact safe_open hs
  | delete => exact safe_delete
  | access => exact safe_access
  | fullPathname => exact safe_fullPathname
  | getLastError => exact safe_getLastError
  | write => exact safe_write hs
  | read => exact safe_read hs
  | fileSize => exact safe_fileSize hs
  | fileControl => exact safe_fileControl hs
  | close => exact safe_close hs
  | checkReservedLock => exact safe_checkReservedLock hs
  | fetch => exact safe_fetch hs
  | truncate | sync | sectorSize | deviceCharacteristics | lock | unlock | unfetch =>
    exact safe_imageAndInt hs (by simp)

/-! ## Every operation, in every reachable state -/

/-- The operations of the service: Init, and the calls of the VFS. -/
inductive Rpc
  | init
  | call (op : Op)

/-- `WrapInit`, which reads nothing of the request. -/
def wrapInit (sqlite3OsInit : OS → CInt × OS) : Wrapper OS m := fun argOut s => do
  let (rc, os) := sqlite3OsInit s.os
  let argOut ← argOut.put 0 rc
  return (argOut, { s with os := os })

/-- A request of any kind, with the content of the reply buffer. -/
inductive Message
  | init {m : Nat} (argOut : Buf m)
  | request (r : Request)

section Handlers

variable (sqlite3OsInit : OS → CInt × OS)

variable (fns A) in
/-- The server after a request. -/
def Request.handle (s : Server OS) (r : Request) : Option (Server OS) :=
  (serve fns A r.garbage r.op r.argIn r.argOut s).map Prod.snd

variable (fns A) in
/-- The server after any message at all. -/
def Message.handle (s : Server OS) : Message → Option (Server OS)
  | .init argOut => (wrapInit sqlite3OsInit argOut s).map Prod.snd
  | .request r => r.handle fns A s

theorem sound_request (hs : s.table.Sound A) (r : Request) (h : r.handle fns A s = some s') :
    s'.table.Sound A := by
  obtain ⟨⟨outarg, s₁⟩, hserve, rfl⟩ := Option.map_eq_some_iff.mp h
  exact sound_serve hs hserve

theorem sound_init (hs : s.table.Sound A)
    (h : (wrapInit sqlite3OsInit argOut s).map Prod.snd = some s') : s'.table.Sound A := by
  obtain ⟨⟨outarg, s₁⟩, hinit, rfl⟩ := Option.map_eq_some_iff.mp h
  obtain ⟨out, -, hinit⟩ := Option.bind_eq_some_iff.mp hinit
  obtain ⟨-, rfl⟩ := Prod.mk.inj (Option.some.inj hinit)
  exact hs

theorem sound_run {table : FdTable} (hempty : table.listHead = none) {os : OS}
    {msgs : List Message}
    (hrun : Runs.run (Message.handle fns A sqlite3OsInit) ⟨table, os⟩ msgs = some s) :
    s.table.Sound A := by
  have hstep : ∀ s msg s', s.table.Sound A → Message.handle fns A sqlite3OsInit s msg = some s' →
      s'.table.Sound A := by
    intro s msg s' hs h
    cases msg with
    | init argOut => exact sound_init sqlite3OsInit hs h
    | request r => exact sound_request hs r h
  exact Runs.invariant hstep (.empty hempty) hrun

variable (fns A) in
/-- `Safe`, of any operation. -/
def Rpc.Safe (rpc : Rpc) (argIn : Buf n) (outlen : Nat) (s : Server OS) : Prop :=
  match rpc with
  | .init => ∀ argOut : Buf outlen, (wrapInit sqlite3OsInit argOut s).isSome
  | .call op => RemoteVfs.Safe fns A op argIn outlen s

variable (fns) in
/-- `Contained`, of any operation. -/
def Rpc.Contained (rpc : Rpc) (argIn : Buf n) (outlen : Nat) (s : Server OS) : Prop :=
  match rpc with
  | .init => 4 ≤ outlen
  | .call op => RemoteVfs.Contained fns op argIn outlen s

theorem Rpc.safe_iff (hs : s.table.Sound A) (rpc : Rpc) (argIn : Buf n) (outlen : Nat) :
    rpc.Safe fns A sqlite3OsInit argIn outlen s ↔ rpc.Contained fns argIn outlen s := by
  cases rpc with
  | call op => exact RemoteVfs.safe_iff hs op argIn outlen
  | init =>
    have hiff : ∀ argOut : Buf outlen, (wrapInit sqlite3OsInit argOut s).isSome ↔ 4 ≤ outlen := by
      intro argOut
      unfold wrapInit
      rw [Option.bind_eq_bind, isSome_bind (Q := True) fun _ _ => by simp]
      simp
    exact ⟨fun h => (hiff (Buf.zeros outlen)).mp (h _), fun h argOut => (hiff argOut).mpr h⟩

variable (fns A) in
/-- The handler of the service: `char out_struct[out_size]`, and the wrapper. -/
structure HandlerSafe (rpc : Rpc) (argIn : Buf n) (outlen : CInt) (s : Server OS) : Prop where
  outStruct : 0 ≤ outlen.toInt
  wrapper : rpc.Safe fns A sqlite3OsInit argIn (sizeT outlen) s

end Handlers

/-- Nothing is left to do for the disk. -/
def Disk.sqlite3OsInit (d : Disk) : CInt × Disk := (sqliteOk, d)

/-- A Write of two bytes to descriptor 3. -/
def Disk.writeRequest : Buf (Op.argInSize .write) :=
  (Tracked.requestOn .write 3).argIn.splice (sizeUnixFile + maxSize) [2]

end RemoteVfs
