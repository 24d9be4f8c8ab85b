import RemoteVfs.Client.Shape
import RemoteVfs.Disk
import RemoteVfs.Locks
import RemoteVfs.Server.Effect
import RemoteVfs.System

/-!
# Who has which lock

Any number of clients have the same main database open. The level of a lock is in the
image, which is a client's, and travels. The inode is the server's, and stays. The books
are right all the same, with a reply counted for the handle that it is on the way to.
-/

open CMem Locking

namespace RemoteVfs

open LockCalls

variable {W : Type}

/-- A function that has nothing to do with locks. -/
def LeavesLocks : Effect (LockOs W) := fun id os g os' =>
  os'.inode = os.inode ∧ g.eFileLock = id.eFileLock ∧ g.pInode = id.pInode ∧
    (processLocked g ↔ processLocked id)

/-- The server's functions, as far as locks are concerned. -/
structure UnixFns.Locks (fns : UnixFns (LockOs W)) (sys : LockCalls W) : Prop where
  lock : ∀ id zPath eFileLock os r, sys.unixLock id eFileLock os = some r →
    fns.unixLock id zPath eFileLock os = r
  unlock : ∀ id zPath eFileLock os r, sys.unixUnlock id eFileLock os = some r →
    fns.unixUnlock id zPath eFileLock os = r
  checkReservedLock : ∀ id zPath resOut os r, sys.unixCheckReservedLock id os = some r →
    fns.unixCheckReservedLock id zPath resOut os = r
  close : ∀ id zPath os r, sys.unixClose id os = some r → fns.unixClose id zPath os = r
  others : ∀ op : Op, op ≠ .lock → op ≠ .unlock → op ≠ .checkReservedLock →
    op.Within fns LeavesLocks

/-- The order that SQLite keeps to, from the level that the handle has. -/
def Call.InOrder (level : Nat) : Call → Prop
  | .xLock eFileLock => LockOrder level eFileLock
  | .xUnlock eFileLock => eFileLock = noLock ∨ eFileLock = sharedLock
  | _ => True

instance (level : Nat) (c : Call) : Decidable (c.InOrder level) := by
  cases c with
  | xLock eFileLock => exact inferInstanceAs (Decidable (LockOrder level eFileLock))
  | xUnlock eFileLock => exact inferInstanceAs (Decidable (_ ∨ _))
  | _ => exact .isTrue trivial

/-! ## One request -/

section Serve

variable {env : Env (LockOs W)} {sys : LockCalls W} {garbage : Nat → Byte} {c : Call}
  {id : UnixFile} {argIn : Buf c.op.argInSize} {argOut outarg : Buf c.op.returnSize}
  {s s' : Server (LockOs W)}

theorem serve_accounted (hlocks : env.fns.Locks sys) (hop : c.op.OnFile) (hclose : c.op ≠ .close)
    (hreq : (c.remote env.addresses env.strlen env.stack id).argInChar = some argIn)
    (horder : c.InOrder id.eFileLock.toNat) (hexcl : ¬ processLocked id) (hino : id.pInode ≠ 0)
    (hholders : (s.os.ledger id.pInode).top = 0 → (s.os.ledger id.pInode).holders = 0)
    (h : serve env.fns env.addresses garbage c.op argIn argOut s = some (outarg, s')) :
    ∃ g id', Accounted id.core g s.os s'.os ∧ outarg.get UnixFile 0 = some id' ∧
      id'.core = (id.keep g).core := by
  have himage := remote_putsImage env.strlen env.stack id hop hreq
  by_cases hother : c.op ≠ .lock ∧ c.op ≠ .unlock ∧ c.op ≠ .checkReservedLock
  · obtain ⟨id', g, img, hid, ⟨hos, he, hp, hx⟩, hout, hcore⟩ := serve_within hop hclose
      (hlocks.others c.op hother.1 hother.2.1 hother.2.2) h
    obtain rfl := Option.some.inj (himage.symm.trans hid)
    exact ⟨g, img, .stay hp hx he hos, hout, hcore⟩
  · cases c with
    | xLock eFileLock =>
      obtain ⟨id', e, zPath, g, rc, img, hdec, hrun, hout, hcore⟩ := serve_lock h
      obtain ⟨rfl, rfl⟩ := Prod.mk.inj (Option.some.inj
        ((getImageAnd_of_put (by decide) hreq).symm.trans hdec))
      obtain ⟨g', rc', os', hlock, hacc⟩ := @unixLock_accounted _ sys id.core s.os hexcl hino _
        horder hholders
      rw [hlocks.lock _ _ _ _ _ hlock] at hrun
      cases hrun
      exact ⟨_, img, hacc, hout, hcore⟩
    | xUnlock eFileLock =>
      obtain ⟨id', e, zPath, g, rc, img, hdec, hrun, hout, hcore⟩ := serve_unlock h
      obtain ⟨rfl, rfl⟩ := Prod.mk.inj (Option.some.inj
        ((getImageAnd_of_put (by decide) hreq).symm.trans hdec))
      obtain ⟨g', rc', os', hunlock, hacc⟩ := @posixUnlock_accounted _ sys id.core s.os .unlock
        hexcl hino _ horder
      rw [hlocks.unlock _ _ _ _ _ hunlock] at hrun
      cases hrun
      exact ⟨_, img, hacc, hout, hcore⟩
    | xCheckReservedLock resOut =>
      obtain ⟨id', r, zPath, g, ret, img, hdec, hrun, hout, hcore⟩ := serve_checkReservedLock h
      obtain ⟨rfl, rfl⟩ := Prod.mk.inj (Option.some.inj
        ((getImageAnd_of_put (by decide) hreq).symm.trans hdec))
      obtain ⟨g', ret', os', hcheck, hacc⟩ := @unixCheckReservedLock_accounted _ sys id.core s.os
        hino
      rw [hlocks.checkReservedLock _ _ _ _ _ hcheck] at hrun
      cases hrun
      exact ⟨_, img, hacc, hout, hcore⟩
    | _ => exact absurd ⟨nofun, nofun, nofun⟩ hother

theorem serve_leaves (hlocks : env.fns.Locks sys) (hunfetch : c.op = .unfetch)
    (h : serve env.fns env.addresses garbage c.op argIn argOut s = some (outarg, s')) :
    s'.os.inode = s.os.inode := by
  obtain ⟨id, g, img, -, ⟨hos, -⟩, -⟩ := serve_within (by rw [hunfetch]; trivial)
    (by rw [hunfetch]; decide) (hlocks.others c.op (by rw [hunfetch]; decide)
      (by rw [hunfetch]; decide) (by rw [hunfetch]; decide)) h
  exact hos

theorem serve_close_moves (hlocks : env.fns.Locks sys) (hfcntl : sys.FcntlSucceeds .close)
    (hclose : c.op = .close)
    (hreq : (c.remote env.addresses env.strlen env.stack id).argInChar = some argIn)
    (hexcl : ¬ processLocked id) (hino : id.pInode ≠ 0) (hv : s.table.Valid) {a : Nat}
    {p : List Byte} (hb : s.table.Binds id.h a env.addresses.posixIoMethods p)
    (h : serve env.fns env.addresses garbage c.op argIn argOut s = some (outarg, s')) :
    Moves (s.os.ledger id.pInode) id.eFileLock.toNat 0 (s'.os.ledger id.pInode) := by
  cases c with
  | xClose =>
    have himage : argIn.get UnixFile 0 = some id := Buf.get_of_put hreq
    have hb' : s.table.Binds id.h a (env.addresses.ioMethods .posix) p := hb
    obtain ⟨rc, os', hrun, hmoves⟩ := @unixClose_moves _ sys id.core s.os hexcl hfcntl hino
    change wrapClose env.fns env.addresses garbage argIn argOut s = _ at h
    rw [wrapClose_bound env.fns env.addresses garbage himage hv hb'] at h
    obtain ⟨out, -, heq⟩ := Option.map_eq_some_iff.mp h
    rw [← (Prod.mk.inj heq).2, UnixFns.closeMethod, hlocks.close _ _ _ _ hrun]
    exact hmoves
  | _ => cases hclose

end Serve

/-! ## Handles -/

/-- The image that the handle has, or will have once the reply is read. -/
def Phase.image (id : UnixFile) : Phase → UnixFile
  | .served c outarg => if c.op = .unfetch then id else (outarg.get UnixFile 0).getD id
  | _ => id

/-- A Close that has been served. -/
def Phase.closes : Phase → Prop
  | .served c _ => c.op = .close
  | _ => False

instance : DecidablePred Phase.closes
  | .served c _ => inferInstanceAs (Decidable (c.op = .close))
  | .idle | .sent _ _ | .failed _ _ => .isFalse id

/-- What is known about a call that is underway. -/
def Phase.Underway (env : Env (LockOs W)) (id : UnixFile) : Phase → Prop
  | .idle => True
  | .sent c argIn => c.op.OnFile ∧ c.InOrder id.eFileLock.toNat ∧
    (c.remote env.addresses env.strlen env.stack id).argInChar = some argIn
  | .served c _ => c.op.OnFile
  | .failed _ _ => False

/-- An open main database on the inode at `ino`. -/
structure OnInode (A : Addresses) (T : FdTable) (ino : Ptr) (f : UnixFile) : Prop where
  pInode : f.pInode = ino
  not_locked : ¬ processLocked f
  binds : ∃ a p, T.Binds f.h a A.posixIoMethods p

theorem OnInode.of_core {A : Addresses} {T : FdTable} {ino : Ptr} {f g : UnixFile}
    (h : OnInode A T ino f) (hcore : g.core = f.core) : OnInode A T ino g := by
  have hinode : g.core.pInode = f.core.pInode := by rw [hcore]
  have hfd : g.core.h = f.core.h := by rw [hcore]
  have hflags : g.core.ctrlFlags = f.core.ctrlFlags := by rw [hcore]
  refine ⟨hinode.trans h.pInode, ?_, hfd ▸ h.binds⟩
  change ¬ processLocked g.core
  rw [processLocked, hflags]
  exact h.not_locked

theorem serve_moves {env : Env (LockOs W)} {sys : LockCalls W} {garbage : Nat → Byte} {c : Call}
    {id : UnixFile} {argIn : Buf c.op.argInSize} {argOut outarg : Buf c.op.returnSize}
    {s s' : Server (LockOs W)} {T : FdTable} {ino : Ptr} (hlocks : env.fns.Locks sys)
    (hop : c.op.OnFile) (hclose : c.op ≠ .close)
    (hreq : (c.remote env.addresses env.strlen env.stack id).argInChar = some argIn)
    (horder : c.InOrder id.eFileLock.toNat) (honInode : OnInode env.addresses T ino id)
    (hino : ino ≠ 0) (hholders : (s.os.ledger ino).top = 0 → (s.os.ledger ino).holders = 0)
    (h : serve env.fns env.addresses garbage c.op argIn argOut s = some (outarg, s')) :
    OnInode env.addresses T ino ((Phase.served c outarg).image id) ∧
      Moves (s.os.ledger ino) id.eFileLock.toNat
        ((Phase.served c outarg).image id).eFileLock.toNat (s'.os.ledger ino) := by
  obtain rfl := honInode.pInode
  by_cases hunfetch : c.op = .unfetch
  · rw [Phase.image, if_pos hunfetch, ledger_congr (serve_leaves hlocks hunfetch h)]
    exact ⟨honInode, .stay _ _⟩
  · obtain ⟨g, id', hacc, hout, hcore⟩ := serve_accounted hlocks hop hclose hreq horder
      honInode.not_locked hino hholders h
    rw [Phase.image, if_neg hunfetch, hout, Option.getD_some]
    have hkept : OnInode env.addresses T id.pInode (id.keep g) :=
      ⟨hacc.pInode, mt hacc.locked.mp honInode.not_locked, honInode.binds⟩
    have hlock : id'.core.eFileLock = (id.keep g).core.eFileLock := by rw [hcore]
    refine ⟨hkept.of_core hcore, ?_⟩
    rw [show id'.eFileLock = g.eFileLock from hlock]
    exact hacc.moves

theorem remote_image_core {env : Env (LockOs W)} {c : Call} {id img : UnixFile} {res : Result}
    {outarg : Buf c.op.returnSize} (hop : c.op.OnFile) (hclose : c.op ≠ .close)
    (h : (c.remote env.addresses env.strlen env.stack id).charToReturn outarg =
      some (img, res)) : img.core = ((Phase.served c outarg).image id).core := by
  by_cases hunfetch : c.op = .unfetch
  · rw [Phase.image, if_pos hunfetch]
    cases c with
    | xUnfetch iOff p =>
      obtain ⟨⟨id', -, himage : img = _⟩, -⟩ := remote_unfetch env.strlen env.stack id h
      rw [himage, setClientRemotePMethods_core]
      rfl
    | _ => cases hunfetch
  · obtain ⟨⟨id', hid', himage : img = _⟩, -⟩ := remote_readsReply env.strlen env.stack id
      (.inl hop) hclose hunfetch outarg _ h
    rw [Phase.image, if_neg hunfetch, hid', himage, setClientRemotePMethods_core]
    rfl

namespace System

variable {H : Type} [DecidableEq H]

/-- The Close of the handle has been served. -/
def Closed (s : System (LockOs W) H) (h : H) : Prop :=
  (s.phase h).closes ∨ ∃ x ∈ s.trace, x.handle = h ∧ x.call.op = .close

instance (s : System (LockOs W) H) (h : H) : Decidable (s.Closed h) :=
  inferInstanceAs (Decidable (_ ∨ _))

def level (s : System (LockOs W) H) (h : H) : Nat :=
  if s.Closed h then 0 else ((s.phase h).image (s.image h)).eFileLock.toNat

/-- No call fails, and none is out of order or on a closed handle. -/
def Ordered (s : System (LockOs W) H) : Event H → Prop
  | .send h c => c.op.OnFile ∧ ¬ s.Closed h ∧ c.InOrder (s.image h).eFileLock.toNat
  | .fail _ => False
  | _ => True

instance (s : System (LockOs W) H) : DecidablePred s.Ordered
  | .send _ _ => inferInstanceAs (Decidable (_ ∧ _ ∧ _))
  | .serve _ _ _ | .recv _ => .isTrue trivial
  | .fail _ => .isFalse id

/-- All handles are open on one inode, and nobody has a lock. -/
structure Start (A : Addresses) (ino : Ptr) (image : H → UnixFile) (table : FdTable)
    (os : LockOs W) : Prop where
  ne_null : ino ≠ 0
  valid : table.Valid
  onInode : ∀ h, OnInode A table ino (image h)
  unlocked : ∀ h, (image h).eFileLock = 0
  books : os.ledger ino = ⟨0, 0, 0⟩

/-- One handle, and no other, has gone on. -/
structure Only (h : H) (s s' : System (LockOs W) H) : Prop where
  phase : ∀ x ≠ h, s'.phase x = s.phase x
  image : ∀ x ≠ h, s'.image x = s.image x
  closed : ∀ x ≠ h, (s'.Closed x ↔ s.Closed x)

variable {s s' : System (LockOs W) H} {h : H}

theorem Only.of_eq {id : UnixFile} {p : Phase} {server : Server (LockOs W)}
    {trace : List (Entry H)}
    (hs' : s' = ⟨Function.update s.image h id, Function.update s.phase h p, server, trace⟩)
    (htrace : ∀ x ≠ h, (∃ e ∈ trace, e.handle = x ∧ e.call.op = .close) ↔
      ∃ e ∈ s.trace, e.handle = x ∧ e.call.op = .close) :
    Only h s s' ∧ s'.image h = id ∧ s'.phase h = p := by
  subst hs'
  refine ⟨⟨fun x hx => Function.update_of_ne hx .., fun x hx => Function.update_of_ne hx ..,
    fun x hx => ?_⟩, Function.update_self .., Function.update_self ..⟩
  simp only [Closed, Function.update_of_ne hx]
  exact or_congr .rfl (htrace x hx)

theorem Only.level_eq (honly : Only h s s') :
    s'.level = Function.update s.level h (s'.level h) := by
  funext x
  by_cases hx : x = h
  · rw [hx, Function.update_self]
  · rw [Function.update_of_ne hx, level, level, honly.phase x hx, honly.image x hx]
    exact if_congr (honly.closed x hx) rfl rfl

variable [Fintype H] (env : Env (LockOs W)) (T : FdTable) (ino : Ptr)

structure Inv (s : System (LockOs W) H) : Prop where
  table : s.server.table = T
  onInode : ∀ h, ¬ s.Closed h → OnInode env.addresses T ino ((s.phase h).image (s.image h))
  underway : ∀ h, (s.phase h).Underway env (s.image h)
  open_ : ∀ h c argIn, s.phase h = .sent c argIn → ¬ s.Closed h
  accounts : Accounts (s.server.os.ledger ino) s.level

variable {env T ino}

theorem Inv.of_only (hs : Inv env T ino s) (honly : Only h s s')
    (htable : s'.server.table = s.server.table)
    (honInode : ¬ s'.Closed h → OnInode env.addresses T ino ((s'.phase h).image (s'.image h)))
    (hunderway : (s'.phase h).Underway env (s'.image h))
    (hopen : ∀ c argIn, s'.phase h = .sent c argIn → ¬ s'.Closed h)
    (hmoves : Moves (s.server.os.ledger ino) (s.level h) (s'.level h) (s'.server.os.ledger ino)) :
    Inv env T ino s' := by
  refine ⟨htable.trans hs.table, fun x hx => ?_, fun x => ?_, fun x c argIn hp => ?_, ?_⟩
  all_goals try by_cases hxh : x = h
  · exact hxh ▸ honInode (hxh ▸ hx)
  · rw [honly.phase x hxh, honly.image x hxh]
    exact hs.onInode x (mt (honly.closed x hxh).mpr hx)
  · exact hxh ▸ hunderway
  · rw [honly.phase x hxh, honly.image x hxh]
    exact hs.underway x
  · exact hxh ▸ hopen c argIn (hxh ▸ hp)
  · rw [honly.closed x hxh]
    exact hs.open_ x c argIn (honly.phase x hxh ▸ hp)
  · rw [honly.level_eq]
    exact hs.accounts.moves hmoves

theorem Inv.send {c : Call} (hs : Inv env T ino s) (hok : s.Ordered (.send h c))
    (hstep : s.step env (.send h c) = some s') : Inv env T ino s' := by
  obtain ⟨hidle, argIn, hreq, hs'⟩ := step_send hstep
  obtain ⟨hop, hopen, horder⟩ := hok
  have hserver : s'.server = s.server := by rw [hs']
  have htrace : s'.trace = s.trace := by rw [hs']
  obtain ⟨honly, himage, hphase⟩ := Only.of_eq hs' fun _ _ => .rfl
  rw [Call.imageBefore_eq _ fun hne => by rw [hne] at hop; exact hop] at himage
  have honInode := hs.onInode h hopen
  have hopen' : ¬ s'.Closed h := by
    rw [Closed, hphase, htrace]
    exact fun hc => hopen (.inr (hc.resolve_left id))
  have hlevel : s'.level h = s.level h := by
    rw [level, level, if_neg hopen, if_neg hopen', hphase, hidle, himage]
    rfl
  refine hs.of_only honly (by rw [hserver]) (fun _ => ?_) ?_ (fun _ _ _ => hopen') ?_
  · rw [hphase, himage]
    rwa [hidle] at honInode
  · rw [hphase, himage]
    exact ⟨hop, horder, hreq⟩
  · rw [hlevel, hserver]
    exact .stay _ _

theorem Inv.serve {sys : LockCalls W} (hlocks : env.fns.Locks sys)
    (hfcntl : sys.FcntlSucceeds .close) (hino : ino ≠ 0) (hv : T.Valid)
    {garbage outStruct : Nat → Byte} (hs : Inv env T ino s)
    (hstep : s.step env (.serve h garbage outStruct) = some s') : Inv env T ino s' := by
  obtain ⟨c, argIn, outarg, server, hsent, hserve, hs'⟩ := step_serve hstep
  have hserver : s'.server = server := by rw [hs']
  have htrace : s'.trace = s.trace := by rw [hs']
  rw [← Function.update_eq_self h s.image] at hs'
  obtain ⟨honly, himage, hphase⟩ := Only.of_eq hs' fun _ _ => .rfl
  have hopen := hs.open_ h c argIn hsent
  have hunderway := hs.underway h
  have honInode := hs.onInode h hopen
  rw [hsent] at hunderway honInode
  obtain ⟨hop, horder, hreq⟩ := hunderway
  have hlevel : s.level h = (s.image h).eFileLock.toNat := by
    rw [level, if_neg hopen, hsent]
    rfl
  rw [← hserver] at hserve
  obtain ⟨a, p, hb⟩ := honInode.binds
  have hv' : s.server.table.Valid := hs.table ▸ hv
  have hb' : s.server.table.Binds (s.image h).h a env.addresses.posixIoMethods p := hs.table ▸ hb
  obtain ⟨htable, -⟩ := serve_table_of_bound hv' hop (fun id hid => by
    obtain rfl := Option.some.inj
      ((remote_putsImage env.strlen env.stack _ hop hreq).symm.trans hid)
    exact ⟨a, .posix, p, hb'⟩) hserve
  have hsent' : ∀ c' argIn', s'.phase h = .sent c' argIn' → ¬ s'.Closed h := by
    intro c' argIn' hp
    rw [hphase] at hp
    cases hp
  have hinode : (s.image h).pInode = ino := honInode.pInode
  by_cases hclose : c.op = .close
  · have hclosed : s'.Closed h := by
      rw [Closed, hphase]
      exact .inl hclose
    refine hs.of_only honly htable (absurd hclosed) (by rw [hphase]; exact hop) hsent' ?_
    have hmoves := serve_close_moves hlocks hfcntl hclose hreq honInode.not_locked
      (hinode ▸ hino) hv' hb' hserve
    rwa [hlevel, level, if_pos hclosed, ← hinode]
  · have hopen' : ¬ s'.Closed h := by
      rw [Closed, hphase, htrace]
      exact not_or.mpr ⟨hclose, fun hc => hopen (.inr hc)⟩
    have hlevel' : s'.level h = ((Phase.served c outarg).image (s.image h)).eFileLock.toNat := by
      rw [level, if_neg hopen', hphase, himage]
    obtain ⟨hleft, hmoves⟩ := serve_moves hlocks hop hclose hreq horder honInode hino
      hs.accounts.holders_eq_zero hserve
    refine hs.of_only honly htable (fun _ => ?_) (by rw [hphase]; exact hop) hsent' ?_
    · rw [hphase, himage]
      exact hleft
    · rwa [hlevel, hlevel']

theorem Inv.recv (hs : Inv env T ino s) (hstep : s.step env (.recv h) = some s') :
    Inv env T ino s' := by
  obtain ⟨c, outarg, executed, hfin, hcase⟩ := step_recv hstep
  obtain ⟨id, result, hret, hs'⟩ := finish_eq_some hfin
  have hserver : s'.server = s.server := by rw [hs']
  have htrace : s'.trace = ⟨h, c, result, executed, outarg.isNone⟩ :: s.trace := by rw [hs']
  obtain ⟨honly, himage, hphase⟩ := Only.of_eq hs' fun x hx => by
    simp [Ne.symm hx]
  have hunderway := hs.underway h
  rcases hcase with ⟨reply, rfl, hserved, -⟩ | ⟨-, hfailed⟩
  · rw [hserved] at hunderway
    have hclosed : s'.Closed h ↔ s.Closed h := by
      rw [Closed, Closed, hphase, hserved, htrace]
      simp [Phase.closes]
    have hcore : ¬ s.Closed h → id.core = ((Phase.served c reply).image (s.image h)).core :=
      fun hopen => remote_image_core hunderway
        (fun hclose => hopen (.inl (by rw [hserved]; exact hclose))) hret
    have hlevel : s'.level h = s.level h := by
      by_cases hc : s.Closed h
      · rw [level, level, if_pos (hclosed.mpr hc), if_pos hc]
      · have hlock : id.core.eFileLock =
            ((Phase.served c reply).image (s.image h)).core.eFileLock := by rw [hcore hc]
        rw [level, level, if_neg (mt hclosed.mp hc), if_neg hc, hphase, himage, hserved]
        exact congrArg BitVec.toNat hlock
    refine hs.of_only honly (by rw [hserver]) (fun hopen => ?_) (by rw [hphase]; trivial)
      (fun _ _ hp => by rw [hphase] at hp; cases hp) (by rw [hlevel, hserver]; exact .stay _ _)
    have honInode := hs.onInode h (mt hclosed.mpr hopen)
    rw [hserved] at honInode
    rw [hphase, himage]
    exact honInode.of_core (hcore (mt hclosed.mpr hopen))
  · rw [hfailed] at hunderway
    exact hunderway.elim

theorem Inv.step {sys : LockCalls W} (hlocks : env.fns.Locks sys)
    (hfcntl : sys.FcntlSucceeds .close) (hino : ino ≠ 0) (hv : T.Valid) {e : Event H}
    (hs : Inv env T ino s) (hok : s.Ordered e) (hstep : s.step env e = some s') :
    Inv env T ino s' := by
  cases e with
  | send h c => exact hs.send hok hstep
  | serve h garbage outStruct => exact hs.serve hlocks hfcntl hino hv hstep
  | fail h => exact hok.elim
  | recv h => exact hs.recv hstep

theorem Start.inv {image : H → UnixFile} {os : LockOs W}
    (hstart : Start env.addresses ino image T os) : Inv env T ino (init image T os) where
  table := rfl
  onInode h _ := hstart.onInode h
  underway _ := trivial
  open_ _ _ _ hp := nomatch hp
  accounts := by
    have hlevel : (init image T os).level = fun _ => 0 := by
      funext h
      rw [level]
      split
      · rfl
      · exact congrArg BitVec.toNat (hstart.unlocked h)
    rw [hlevel]
    change Accounts (os.ledger ino) _
    rw [hstart.books]
    exact .none

variable (env) in
/-- In every state of a run the books of the inode are those of the images, and no two
locks are in conflict. -/
theorem locks_accounted {sys : LockCalls W} (hlocks : env.fns.Locks sys)
    (hfcntl : sys.FcntlSucceeds .close) {image : H → UnixFile} {os : LockOs W}
    (hstart : Start env.addresses ino image T os) {es : List (Event H)}
    (hok : Runs.Allowed (step env) Ordered (init image T os) es)
    (hrun : Runs.run (step env) (init image T os) es = some s) :
    Accounts (s.server.os.ledger ino) s.level ∧
      ∀ h, ¬ s.Closed h → (∀ c outarg, s.phase h ≠ .served c outarg) →
        s.level h = (s.image h).eFileLock.toNat := by
  refine ⟨(Runs.invariant_of_allowed (fun _ _ _ hs hok h => hs.step hlocks hfcntl hstart.ne_null
    hstart.valid hok h) hok hstart.inv hrun).accounts, fun h hopen hreply => ?_⟩
  rw [level, if_neg hopen]
  cases hp : s.phase h with
  | served c outarg => exact absurd hp (hreply c outarg)
  | _ => rfl

end System

/-! ## Two clients -/

/-- Nothing outside the process is locked. -/
def LockCalls.granting (W : Type) : LockCalls W where
  osFcntl _ _ _ w := (none, w)
  osGetlk _ _ w := (none, false, w)
  osClose _ w := w
  osMunmap _ _ w := w
  unusedFd _ _ := 0

/-- Functions that do what the locks need, and nothing else. -/
def LockCalls.fns (sys : LockCalls W) : UnixFns (LockOs W) where
  unixOpen id _ _ _ os :=
    { rc := Disk.cantOpen, image := id, style := none, outFlags := none, os := os,
      sets_method := Disk.cantOpen_style }
  unixDelete _ _ os := (sqliteOk, os)
  unixAccess _ _ resOut os := (resOut, sqliteOk, os)
  unixFullPathname _ zOut os := (zOut, sqliteOk, os)
  unixGetLastError _ := 0
  unixWrite id _ _ _ os := (id, sqliteOk, os)
  unixRead id _ data _ os := (id, data, sqliteOk, os)
  unixTruncate id _ _ os := (id, sqliteOk, os)
  unixSync id _ _ os := (id, sqliteOk, os)
  unixFileSize id _ _ os := (id, (0, sqliteOk), os)
  unixFileControl id _ _ arg os := (id, arg, Disk.notFound, os)
  unixSectorSize id _ os := (id, 4096, os)
  unixDeviceCharacteristics id _ os := (id, 0, os)
  unixClose id _ os := (sys.unixClose id os).getD (sqliteOk, os)
  nolockClose id _ os := sys.closeUnixFile id os
  unixLock id _ eFileLock os := (sys.unixLock id eFileLock os).getD (id, sqliteOk, os)
  unixUnlock id _ eFileLock os := (sys.unixUnlock id eFileLock os).getD (id, sqliteOk, os)
  unixCheckReservedLock id _ resOut os :=
    (sys.unixCheckReservedLock id os).getD (id, (resOut, sqliteOk), os)
  unixFetch id _ _ _ os := (id, none, sqliteOk, os)
  unixUnfetch id _ _ _ os := (id, sqliteOk, os)
  memory _ _ := none

theorem LockCalls.fns_locks (sys : LockCalls W) : sys.fns.Locks sys where
  lock id _ _ os _ h := congrArg (·.getD (id, sqliteOk, os)) h
  unlock id _ _ os _ h := congrArg (·.getD (id, sqliteOk, os)) h
  checkReservedLock id _ resOut os _ h := congrArg (·.getD (id, (resOut, sqliteOk), os)) h
  close _ _ os _ h := congrArg (·.getD (sqliteOk, os)) h
  others op hlock hunlock hcheck := by
    cases op with
    | lock => exact absurd rfl hlock
    | unlock => exact absurd rfl hunlock
    | checkReservedLock => exact absurd rfl hcheck
    | sectorSize | deviceCharacteristics => exact fun _ _ _ => ⟨rfl, rfl, rfl, .rfl⟩
    | truncate | sync | fileSize => exact fun _ _ _ _ => ⟨rfl, rfl, rfl, .rfl⟩
    | write | fileControl | fetch | unfetch => exact fun _ _ _ _ _ => ⟨rfl, rfl, rfl, .rfl⟩
    | read => exact fun _ _ _ _ _ _ => ⟨rfl, rfl, rfl, .rfl⟩
    | _ => trivial

namespace System

def twoEnv : Env (LockOs Unit) := ⟨(granting Unit).fns, Addresses.flat, fun _ => none, fun _ => 0⟩

/-- Descriptors 3 and 4 belong to a main database. -/
def twoTable : FdTable :=
  ((Disk.table.addNode 3 Addresses.flat.posixIoMethods).bind
    (·.addNode 4 Addresses.flat.posixIoMethods)).getD Disk.table

def twoImage (h : Bool) : UnixFile := { UnixFile.zero with h := if h then 3 else 4, pInode := 1 }

def twoOs : LockOs Unit := ⟨fun _ => ⟨0, 0, 0, 0, [], 2⟩, ()⟩

theorem twoTable_valid : twoTable.Valid := by
  obtain ⟨t, -, hadd, hv, -⟩ := FdTable.Valid.addNode (t := Disk.table) (.inl rfl) 3
    Addresses.flat.posixIoMethods
  obtain ⟨t', -, hadd', hv', -⟩ := hv.addNode 4 Addresses.flat.posixIoMethods
  rw [twoTable, hadd, Option.bind_some, hadd', Option.getD_some]
  exact hv'

theorem two_start : Start Addresses.flat 1 twoImage twoTable twoOs where
  ne_null := by decide
  valid := twoTable_valid
  onInode h := by
    refine ⟨rfl, by cases h <;> decide, ?_⟩
    cases h with
    | true => exact ⟨1, [], by decide +kernel, by decide +kernel, by decide, by decide +kernel⟩
    | false => exact ⟨2, [], by decide +kernel, by decide +kernel, by decide, by decide +kernel⟩
  unlocked h := by cases h <;> rfl
  books := rfl

/-- Both clients read, and then one of them wants to write. -/
def twoEvents : List (Event Bool) :=
  [.send true (.xLock sharedLock), .send false (.xLock sharedLock),
    .serve false (fun _ => 7) (fun _ => 7), .serve true (fun _ => 7) (fun _ => 7),
    .recv true, .recv false,
    .send true (.xLock reservedLock), .serve true (fun _ => 7) (fun _ => 7), .recv true,
    .send true (.xLock exclusiveLock), .serve true (fun _ => 7) (fun _ => 7), .recv true]

/-- The reply that says BUSY has brought PENDING. -/
theorem locks_accounted_two : ∃ s,
    Runs.run (step twoEnv) (init twoImage twoTable twoOs) twoEvents = some s ∧
    Accounts (s.server.os.ledger 1) s.level ∧
    (s.server.os.ledger 1).holders = 2 ∧ s.level true = pending ∧ s.level false = shared := by
  obtain ⟨s, hs⟩ := Option.isSome_iff_exists.mp (by decide +kernel :
    (Runs.run (step twoEnv) (init twoImage twoTable twoOs) twoEvents).isSome)
  have hresult : (Runs.run (step twoEnv) (init twoImage twoTable twoOs) twoEvents).map
      (fun s => ((s.server.os.ledger 1).holders, s.level true, s.level false)) =
        some (2, pending, shared) := by decide +kernel
  have hok : Runs.Allowed (step twoEnv) Ordered (init twoImage twoTable twoOs) twoEvents := by
    decide +kernel
  rw [hs, Option.map_some, Option.some.injEq, Prod.mk.injEq, Prod.mk.injEq] at hresult
  have hlocks :=
    locks_accounted twoEnv (granting Unit).fns_locks (fun _ _ _ => rfl) two_start hok hs
  exact ⟨s, hs, hlocks.1, hresult⟩

end System

end RemoteVfs
