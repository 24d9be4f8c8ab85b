import RemoteVfs.Disk
import RemoteVfs.Server.Shape

/-!
# Which file a descriptor belongs to

The server at work for any number of clients, one wrapper after the other. A ghost
keeps the descriptors that are live: from the Open that returns one until the
Close of it is served.
-/

open CMem

namespace RemoteVfs

/-- A request, the reply buffer that it finds, and what the stack holds. -/
structure Request where
  op : Op
  n : Nat
  m : Nat
  argIn : Buf n
  argOut : Buf m
  garbage : Nat → Byte

/-- The server, with the style and the path of each live descriptor. -/
structure Tracked (OS : Type) where
  server : Server OS
  live : CInt → Option (LockingStyle × List Byte)

namespace Tracked

variable {OS : Type} (fns : UnixFns OS) (A : Addresses)

def init (table : FdTable) (os : OS) : Tracked OS := ⟨⟨table, os⟩, fun _ => none⟩

/-- The Open in a request. -/
def opened (s : Tracked OS) (r : Request) : Option (List Byte × Opened OS) :=
  if r.op = .open_ then openedBy fns r.garbage r.argIn s.server.os else none

def liveAfter (s : Tracked OS) (r : Request) : CInt → Option (LockingStyle × List Byte) :=
  match s.opened fns r with
  | some (p, o) =>
    match o.style with
    | some style => Function.update s.live o.image.h (some (style, p))
    | none => s.live
  | none =>
    match r.op, r.argIn.get UnixFile 0 with
    | .close, some id => Function.update s.live id.h none
    | _, _ => s.live

def step (s : Tracked OS) (r : Request) : Option (Tracked OS) := do
  let (_, server) ← serve fns A r.garbage r.op r.argIn r.argOut s.server
  return ⟨server, s.liveAfter fns r⟩

/-- A request on a file is on a live descriptor. An Open returns a new one, and
leaves 0 or some other one that is not live when it fails. -/
structure Proper (s : Tracked OS) (r : Request) : Prop where
  onFile : r.op.OnFile → ∀ id, r.argIn.get UnixFile 0 = some id → (s.live id.h).isSome
  opens : ∀ p o, s.opened fns r = some (p, o) →
    if o.style.isSome then 3 ≤ o.image.h.toInt ∧ s.live o.image.h = none
    else o.image.h = 0 ∨ s.live o.image.h = none

instance (s : Tracked OS) (r : Request) : Decidable (Proper fns s r) :=
  decidable_of_iff ((r.op.OnFile → ∀ id ∈ r.argIn.get UnixFile 0, (s.live id.h).isSome) ∧
      ∀ x ∈ s.opened fns r,
        if x.2.style.isSome then 3 ≤ x.2.image.h.toInt ∧ s.live x.2.image.h = none
        else x.2.image.h = 0 ∨ s.live x.2.image.h = none)
    ⟨fun h => ⟨h.1, fun p o => h.2 (p, o)⟩, fun h => ⟨h.onFile, fun x => h.opens x.1 x.2⟩⟩

/-! ## The invariant -/

/-- Every live descriptor is in the table. -/
structure Registered (s : Tracked OS) : Prop where
  valid : s.server.table.Valid
  high : ∀ fd e, s.live fd = some e → 3 ≤ fd.toInt
  holds : ∀ fd style p, s.live fd = some (style, p) →
    s.server.table.Holds fd (A.ioMethods style) p

variable {fns A} {s s' : Tracked OS} {r : Request}

theorem step_eq_some (h : s.step fns A r = some s') :
    ∃ outarg, serve fns A r.garbage r.op r.argIn r.argOut s.server = some (outarg, s'.server) ∧
      s'.live = s.liveAfter fns r := by
  obtain ⟨⟨outarg, server⟩, hserve, h⟩ := Option.bind_eq_some_iff.mp h
  obtain rfl := Option.some.inj h
  exact ⟨outarg, hserve, rfl⟩

theorem Registered.fresh (hs : Registered A s) (hp : Proper fns s r) {p : List Byte}
    {o : Opened OS} (ho : s.opened fns r = some (p, o)) : s.live o.image.h = none := by
  have h := hp.opens p o ho
  split at h
  · exact h.2
  · rcases h with h0 | hnone
    · rw [h0]
      by_contra hsome
      obtain ⟨e, he⟩ := Option.ne_none_iff_exists'.mp hsome
      have := hs.high 0 e he
      simp at this
    · exact hnone

theorem liveAfter_of_ne_open (hop : r.op ≠ .open_) : s.liveAfter fns r =
    match r.op, r.argIn.get UnixFile 0 with
    | .close, some id => Function.update s.live id.h none
    | _, _ => s.live := by
  rw [liveAfter, opened, if_neg hop]

theorem Registered.binds (hs : Registered A s) {fd : CInt} (hlive : (s.live fd).isSome) :
    ∃ a style p, s.live fd = some (style, p) ∧
      s.server.table.Binds fd a (A.ioMethods style) p := by
  obtain ⟨⟨style, p⟩, he⟩ := Option.isSome_iff_exists.mp hlive
  obtain ⟨a, hb⟩ := (hs.holds fd style p he).binds (A.ioMethods_ne_null style)
  exact ⟨a, style, p, he, hb⟩

theorem Registered.table_onFile (hs : Registered A s) (hp : Proper fns s r) (hop : r.op.OnFile)
    {outarg : Buf r.m} {server : Server OS}
    (h : serve fns A r.garbage r.op r.argIn r.argOut s.server = some (outarg, server)) :
    server.table = s.server.table ∧
      ∃ id, r.argIn.get UnixFile 0 = some id ∧ (s.live id.h).isSome := by
  obtain ⟨htable, id, hid⟩ := serve_table_of_bound hs.valid hop (fun id hid => by
    obtain ⟨a, style, p, -, hb⟩ := hs.binds (hp.onFile hop id hid)
    exact ⟨a, style, p, hb⟩) h
  exact ⟨htable, id, hid, hp.onFile hop id hid⟩

theorem Registered.step_cases (hs : Registered A s) (hp : Proper fns s r)
    (h : s.step fns A r = some s') :
    (∃ p o, r.op = .open_ ∧ s.opened fns r = some (p, o) ∧ s'.server.table.Valid ∧
      s'.server.table.Holds o.image.h (A.openedMethod o.style) p ∧
      (∀ fd ≠ o.image.h, s'.server.table.lookup fd = s.server.table.lookup fd)) ∨
    r.op = .close ∧ s'.server.table = s.server.table ∧
      (∃ id, r.argIn.get UnixFile 0 = some id ∧ (s.live id.h).isSome ∧
        s'.live = Function.update s.live id.h none) ∨
    r.op ≠ .open_ ∧ r.op ≠ .close ∧ s'.server.table = s.server.table ∧ s'.live = s.live := by
  obtain ⟨outarg, hserve, hlive⟩ := step_eq_some h
  by_cases hopen : r.op = .open_
  · have hrun := hserve
    rw [hopen] at hrun
    obtain ⟨p, o, ho, -, -, hv, hholds, hother⟩ := wrapOpen_table hs.valid hrun
    exact .inl ⟨p, o, hopen, by rw [opened, if_pos hopen, ho], hv, hholds, hother⟩
  · rw [liveAfter_of_ne_open hopen] at hlive
    refine .inr ?_
    by_cases hop : r.op.OnFile
    · obtain ⟨htable, id, hid, hsome⟩ := hs.table_onFile hp hop hserve
      rw [hid] at hlive
      by_cases hclose : r.op = .close
      · rw [hclose] at hlive
        exact .inl ⟨hclose, htable, id, hid, hsome, hlive⟩
      · refine .inr ⟨hopen, hclose, htable, hlive.trans ?_⟩
        split
        · next heq _ => exact absurd heq hclose
        · rfl
    · have hclose : r.op ≠ .close := fun heq => hop (heq ▸ trivial)
      refine .inr ⟨hopen, hclose, serve_table_of_not_onFile hop hopen hserve, hlive.trans ?_⟩
      split
      · next heq _ => exact absurd heq hclose
      · rfl

theorem liveAfter_of_opened {p : List Byte} {o : Opened OS}
    (ho : s.opened fns r = some (p, o)) : s.liveAfter fns r =
      match o.style with
      | some style => Function.update s.live o.image.h (some (style, p))
      | none => s.live := by
  rw [liveAfter, ho]

theorem Registered.lookup_step (hs : Registered A s) (hp : Proper fns s r)
    (h : s.step fns A r = some s') {fd : CInt} (hlive : (s.live fd).isSome) :
    s'.server.table.lookup fd = s.server.table.lookup fd := by
  rcases hs.step_cases hp h with ⟨p, o, -, ho, -, -, hother⟩ | ⟨-, htable, -⟩ | ⟨-, -, htable, -⟩
  · refine hother fd ?_
    rintro rfl
    rw [hs.fresh hp ho] at hlive
    cases hlive
  · rw [htable]
  · rw [htable]

theorem Registered.step (hs : Registered A s) (hp : Proper fns s r)
    (h : s.step fns A r = some s') : Registered A s' := by
  have hkept : ∀ fd style p, s.live fd = some (style, p) →
      s'.server.table.Holds fd (A.ioMethods style) p := fun fd style p hlive =>
    (hs.holds fd style p hlive).of_lookup (hs.lookup_step hp h (Option.isSome_of_eq_some hlive))
  obtain ⟨-, -, hlive'⟩ := step_eq_some h
  rcases hs.step_cases hp h with ⟨p, o, -, ho, hv, hholds, -⟩ | ⟨-, htable, id, -, -, hlive⟩ |
    ⟨-, -, htable, hlive⟩
  · have hopens := hp.opens p o ho
    rw [liveAfter_of_opened ho] at hlive'
    rw [Addresses.openedMethod] at hholds
    cases hstyle : o.style with
    | none =>
      rw [hstyle] at hlive'
      exact ⟨hv, hlive' ▸ hs.high, hlive' ▸ hkept⟩
    | some style =>
      rw [hstyle] at hlive' hholds hopens
      dsimp only at hlive'
      refine ⟨hv, fun fd e he => ?_, fun fd style' p' he => ?_⟩
      · rw [hlive'] at he
        by_cases hfd : fd = o.image.h
        · exact hfd ▸ hopens.1
        · exact hs.high fd e (by rwa [Function.update_of_ne hfd] at he)
      · rw [hlive'] at he
        by_cases hfd : fd = o.image.h
        · subst hfd
          rw [Function.update_self] at he
          obtain ⟨rfl, rfl⟩ := Prod.mk.inj (Option.some.inj he)
          exact hholds
        · exact hkept fd style' p' (by rwa [Function.update_of_ne hfd] at he)
  · have hless : ∀ fd e, s'.live fd = some e → s.live fd = some e := by
      intro fd e he
      rw [hlive] at he
      by_cases hfd : fd = id.h
      · rw [hfd, Function.update_self] at he
        cases he
      · rwa [Function.update_of_ne hfd] at he
    exact ⟨htable ▸ hs.valid, fun fd e he => hs.high fd e (hless fd e he),
      fun fd style p he => hkept fd style p (hless fd _ he)⟩
  · exact ⟨htable ▸ hs.valid, hlive ▸ hs.high, hlive ▸ hkept⟩

theorem registered_init {table : FdTable} (hv : table.Valid) (os : OS) :
    Registered A (init table os) :=
  ⟨hv, nofun, nofun⟩

theorem registered_run {rs : List Request} (hs : Registered A s)
    (hok : Runs.Allowed (step fns A) (Proper fns) s rs)
    (h : Runs.run (step fns A) s rs = some s') : Registered A s' :=
  Runs.invariant_of_allowed (fun _ _ _ hs hp h => hs.step hp h) hok hs h

/-! ## Bindings -/

variable (fns A) in
/-- In every reachable state a live descriptor has one entry, with the method and
the path of its Open. So a wrapper runs its function on that path, `WrapClose` runs
the close routine of that style, and no request touches the entry. -/
theorem live_descriptor_bound {table : FdTable} (hempty : table.listHead = none) (os : OS)
    {rs : List Request} (hok : Runs.Allowed (step fns A) (Proper fns) (init table os) rs)
    (hrun : Runs.run (step fns A) (init table os) rs = some s) {fd : CInt} {style : LockingStyle}
    {p : List Byte} (hlive : s.live fd = some (style, p)) :
    ∃ a, s.server.table.NodeOf fd a ∧ (s.server.table.mem a).method = A.ioMethods style ∧
      cstr (s.server.table.mem a).path.val = some p ∧
      (∀ {m : Nat} {α β : Type} (id : UnixFile) (args : α)
        (method : UnixFile → Path → α → OS → Option (UnixFile × β × OS))
        (returnToChar : UnixFile → β → Buf m → Option (Buf m)) (argOut : Buf m), id.h = fd →
        wrapFile fns A (some (id, args)) method returnToChar argOut s.server =
          (method id.core (some p) args s.server.os).bind fun (g, ret, os) =>
            (returnToChar (boundImage A a (A.ioMethods style) id g) ret argOut).map
              (·, ⟨s.server.table, os⟩)) ∧
      (∀ {n m : Nat} (garbage : Nat → Byte) (argIn : Buf n) (argOut : Buf m) (id : UnixFile),
        argIn.get UnixFile 0 = some id → id.h = fd →
        wrapClose fns A garbage argIn argOut s.server =
          (unixCloseConvertReturnToChar
            (fns.closeMethod style id.core (some p) s.server.os).1 argOut).map
            (·, ⟨s.server.table, (fns.closeMethod style id.core (some p) s.server.os).2⟩)) ∧
      ∀ r s', Proper fns s r → s.step fns A r = some s' →
        s'.server.table.lookup fd = s.server.table.lookup fd := by
  have hs := registered_run (registered_init (.inl hempty) os) hok hrun
  obtain ⟨a, hb⟩ := (hs.holds fd style p hlive).binds (A.ioMethods_ne_null style)
  refine ⟨a, hs.valid.nodeOf hb.node, hb.method_eq, hb.path, ?_, ?_, ?_⟩
  · rintro m α β id args method returnToChar argOut rfl
    exact wrapFile_bound fns A args method returnToChar argOut hs.valid hb
  · rintro n m garbage argIn argOut id hdec rfl
    exact wrapClose_bound fns A garbage hdec hs.valid hb argOut
  · intro r s' hp h
    exact hs.lookup_step hp h (Option.isSome_of_eq_some hlive)

/-- An Open of a main database. -/
def openOf (path : List Byte) : Request where
  op := .open_
  n := Op.argInSize .open_
  m := Op.returnSize .open_
  argIn := ((Buf.zeros _).splice 0 path).splice 632 (toBytes (0x106 : CInt))
  argOut := Buf.zeros _
  garbage _ := 7

/-- The path is one byte. -/
def openRequest : Request := openOf [97]

def requestOn (op : Op) (fd : Byte) : Request where
  op := op
  n := op.argInSize
  m := op.returnSize
  argIn := (Buf.zeros _).splice 24 [fd]
  argOut := Buf.zeros _
  garbage _ := 7

/-- Two files are opened, a third Open fails, and the second file is closed. -/
def openClose : List Request := [openOf [97], openOf [98], openOf [], requestOn .close 4]

theorem live_descriptor_bound_open : ∃ s,
    Runs.run (step Disk.fns Addresses.flat) (init Disk.table ⟨[], 3⟩) openClose = some s ∧
    s.live 4 = none ∧ ∃ a, s.server.table.NodeOf 3 a ∧
      (s.server.table.mem a).method = Addresses.flat.posixIoMethods ∧
      cstr (s.server.table.mem a).path.val = some [97] := by
  obtain ⟨s, hs⟩ := Option.isSome_iff_exists.mp (by decide +kernel :
    (Runs.run (step Disk.fns Addresses.flat) (init Disk.table ⟨[], 3⟩) openClose).isSome)
  have hlive : (Runs.run (step Disk.fns Addresses.flat) (init Disk.table ⟨[], 3⟩)
      openClose).map (fun s => (s.live 3, s.live 4)) = some (some (.posix, [97]), none) := by
    decide +kernel
  rw [hs, Option.map_some, Option.some.injEq, Prod.mk.injEq] at hlive
  obtain ⟨a, hnode, hmethod, hpath, -⟩ := live_descriptor_bound Disk.fns Addresses.flat rfl
    ⟨[], 3⟩ (by decide +kernel) hs hlive.1
  exact ⟨s, hs, hlive.2, a, hnode, hmethod, hpath⟩

/-! ## Entries of descriptors that are not live -/

/-- The table has entries for the live descriptors and for no others. -/
def Exact (s : Tracked OS) : Prop :=
  ∀ fd, (s.server.table.lookup fd).isSome ↔ (s.live fd).isSome

variable (fns) in
/-- An Open that fails. -/
def Fails (s : Tracked OS) (r : Request) : Prop :=
  ∃ p o, s.opened fns r = some (p, o) ∧ o.style = none

instance (s : Tracked OS) (r : Request) : Decidable (s.Fails fns r) :=
  decidable_of_iff (∃ x ∈ s.opened fns r, x.2.style = none)
    ⟨fun ⟨x, hx, h⟩ => ⟨x.1, x.2, hx, h⟩, fun ⟨p, o, ho, h⟩ => ⟨(p, o), ho, h⟩⟩

theorem Registered.exact_step (hs : Registered A s) (hp : Proper fns s r) (hexact : Exact s)
    (h : s.step fns A r = some s') : Exact s' ↔ r.op ≠ .close ∧ ¬ s.Fails fns r := by
  obtain ⟨-, -, hlive'⟩ := step_eq_some h
  rcases hs.step_cases hp h with ⟨p, o, hop, ho, -, ⟨path, hl, -⟩, hother⟩ |
    ⟨hop, htable, id, -, hsome, hlive⟩ | ⟨hopen, hclose, htable, hlive⟩
  · have hclose : r.op ≠ .close := by rw [hop]; decide
    rw [liveAfter_of_opened ho] at hlive'
    cases hstyle : o.style with
    | none =>
      rw [hstyle] at hlive'
      dsimp only at hlive'
      refine iff_of_false (fun h' => ?_) fun h' => h'.2 ⟨p, o, ho, hstyle⟩
      have hfresh := (h' o.image.h).mp (Option.isSome_of_eq_some hl)
      rw [hlive', hs.fresh hp ho] at hfresh
      cases hfresh
    | some style =>
      rw [hstyle] at hlive'
      dsimp only at hlive'
      refine iff_of_true (fun fd => ?_) ⟨hclose, ?_⟩
      · rw [hlive']
        by_cases hfd : fd = o.image.h
        · subst hfd
          rw [hl, Function.update_self]
          exact iff_of_true rfl rfl
        · rw [hother fd hfd, Function.update_of_ne hfd]
          exact hexact fd
      · rintro ⟨p', o', ho', hnone⟩
        obtain ⟨-, rfl⟩ := Prod.mk.inj (Option.some.inj (ho.symm.trans ho'))
        rw [hstyle] at hnone
        cases hnone
  · refine iff_of_false (fun h' => ?_) fun h' => h'.1 hop
    have hgone := (h' id.h).mp (by rw [htable]; exact (hexact id.h).mpr hsome)
    rw [hlive, Function.update_self] at hgone
    cases hgone
  · refine iff_of_true (fun fd => by rw [htable, hlive]; exact hexact fd) ⟨hclose, ?_⟩
    rintro ⟨p, o, ho, -⟩
    rw [opened, if_neg hopen] at ho
    cases ho

theorem exact_init {table : FdTable} (hempty : table.listHead = none) (os : OS) :
    Exact (init table os) := by
  intro fd
  rw [init, FdTable.lookup, FdTable.node?, if_pos hempty]
  rfl

variable (fns A) in
/-- The table stays exact as long as nothing is closed and no Open fails. -/
theorem table_exact_iff {table : FdTable} (hempty : table.listHead = none) (os : OS)
    {rs : List Request} (hok : Runs.Allowed (step fns A) (Proper fns) (init table os) rs)
    (hrun : Runs.run (step fns A) (init table os) rs = some s) :
    Runs.Along (step fns A) Exact (init table os) rs ↔
      Runs.Allowed (step fns A) (fun s r => r.op ≠ .close ∧ ¬ s.Fails fns r) (init table os) rs :=
  Runs.along_iff_allowed (fun _ _ _ hs hp hexact h => ⟨hs.step hp h, hs.exact_step hp hexact h⟩)
    hok (registered_init (.inl hempty) os) (exact_init hempty os) hrun

/-- The Close of descriptor 3. -/
def closeRequest : Request := requestOn .close 3

/-- Two files are opened, and both are used. -/
def openUse : List Request :=
  [openOf [97], requestOn .lock 3, openOf [98], requestOn .fileSize 4, requestOn .unlock 3]

theorem table_exact_iff_open :
    Runs.Along (step Disk.fns Addresses.flat) Exact (init Disk.table ⟨[], 3⟩) openUse := by
  obtain ⟨s, hs⟩ := Option.isSome_iff_exists.mp (by decide +kernel :
    (Runs.run (step Disk.fns Addresses.flat) (init Disk.table ⟨[], 3⟩) openUse).isSome)
  exact (table_exact_iff Disk.fns Addresses.flat rfl ⟨[], 3⟩ (by decide +kernel) hs).mpr
    (by decide +kernel)

/-- After the Close the server still finds descriptor 3. -/
theorem table_not_exact : ¬ ∀ rs s,
    Runs.Allowed (step Disk.fns Addresses.flat) (Proper Disk.fns) (init Disk.table ⟨[], 3⟩) rs →
    Runs.run (step Disk.fns Addresses.flat) (init Disk.table ⟨[], 3⟩) rs = some s → Exact s := by
  intro hall
  obtain ⟨s, hs⟩ := Option.isSome_iff_exists.mp (by decide +kernel :
    (Runs.run (step Disk.fns Addresses.flat) (init Disk.table ⟨[], 3⟩)
      [openRequest, closeRequest]).isSome)
  have hfound : (Runs.run (step Disk.fns Addresses.flat) (init Disk.table ⟨[], 3⟩)
      [openRequest, closeRequest]).map
        (fun s => ((s.server.table.lookup 3).isSome, (s.live 3).isSome)) = some (true, false) := by
    decide +kernel
  rw [hs, Option.map_some, Option.some.injEq, Prod.mk.injEq] at hfound
  have hproper : Runs.Allowed (step Disk.fns Addresses.flat) (Proper Disk.fns)
      (init Disk.table ⟨[], 3⟩) [openRequest, closeRequest] := by decide +kernel
  have hexact := hall _ s hproper hs 3
  rw [hfound.1, hfound.2] at hexact
  exact absurd (hexact.mp rfl) (by decide)

end Tracked

end RemoteVfs
