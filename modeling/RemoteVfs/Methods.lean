import RemoteVfs.Client.Shape
import RemoteVfs.Disk

/-!
# Pointers to method tables stay at home

`pMethod` is the first word of every image that travels. Each side puts its own
pointer there before it uses the image.
-/

open CMem

namespace RemoteVfs

/-! ## The server does not look at the word -/

variable {OS : Type} (fns : UnixFns OS) (A : Addresses) (garbage : Nat → Byte) {n m : Nat}

theorem wrapFile_pMethod {α β : Type} (decoded : Option (UnixFile × α)) (pMethod : Ptr)
    (method : UnixFile → Path → α → OS → Option (UnixFile × β × OS))
    (returnToChar : UnixFile → β → Buf m → Option (Buf m)) :
    wrapFile fns A (decoded.map fun x => ({ x.1 with pMethod }, x.2)) method returnToChar =
      wrapFile fns A decoded method returnToChar := by
  cases decoded <;> rfl

theorem wrapClose_pMethod (argIn : Buf n) {w : List Byte} (hw : w.length = 8) :
    wrapClose (m := m) fns A garbage (argIn.splice 0 w) = wrapClose fns A garbage argIn := by
  funext argOut s
  simp only [wrapClose, unixCloseConvertCharToArgIn, getImage_splice_word hw]
  cases argIn.get UnixFile 0 <;> rfl

theorem unixOpen_splice_word (argIn : Buf n) {w : List Byte} (hw : w.length = 8)
    (zPath : Buf 512) : unixOpenConvertCharToArgIn (argIn.splice 512 w) zPath =
      (unixOpenConvertCharToArgIn argIn zPath).map
        fun x => (x.1, { x.2.1 with pMethod := ofBytes w }, x.2.2) := by
  have hpath : zPath.strcpy (argIn.splice 512 w).val = zPath.strcpy argIn.val := by
    refine Buf.strcpy_congr _ ?_
    have h : (argIn.splice 512 w).slice 0 512 = argIn.slice 0 512 :=
      Buf.slice_splice_of_disjoint argIn w (.inl (le_refl (0 + 512)))
    simpa only [Buf.slice, List.drop_zero, Nat.zero_add] using h
  simp only [unixOpenConvertCharToArgIn, getImage_splice_word hw, hpath,
    get_splice_word (n := n) hw (.inr (show 512 + 8 ≤ 512 + sizeUnixFile by decide)),
    get_splice_word (n := n) hw
      (.inr (show 512 + 8 ≤ 512 + sizeUnixFile + sizeof CInt by decide)), Option.bind_eq_bind,
    Option.pure_def, Option.map_eq_bind, Option.bind_assoc, Option.bind_some, Function.comp_def]

theorem wrapOpen_pMethod (argIn : Buf n) {w : List Byte} (hw : w.length = 8) :
    wrapOpen (m := m) fns A garbage (argIn.splice 512 w) = wrapOpen fns A garbage argIn := by
  funext argOut s
  simp only [wrapOpen, unixOpen_splice_word argIn hw]
  cases unixOpenConvertCharToArgIn argIn (Buf.uninit garbage 512) <;> rfl

/-- Where the image is in a request. -/
def Op.imageOffset : Op → Nat
  | .open_ => 512
  | _ => 0

theorem serve_pMethod {op : Op} (hop : op.OnFile ∨ op = .open_) (argIn : Buf n) {w : List Byte}
    (hw : w.length = 8) : serve (m := m) fns A garbage op (argIn.splice op.imageOffset w) =
      serve fns A garbage op argIn := by
  by_cases hopen : op = .open_
  · subst hopen
    exact wrapOpen_pMethod fns A garbage argIn hw
  · have hpos : op.imageOffset = 0 := by
      cases op with
      | open_ => exact absurd rfl hopen
      | _ => rfl
    rw [hpos]
    by_cases hclose : op = .close
    · subst hclose
      exact wrapClose_pMethod fns A garbage argIn hw
    · obtain ⟨α, β, charToArgIn, method, returnToChar, htakes, -, heq⟩ :=
        serve_onFile fns A garbage (hop.resolve_right hopen) hclose (n := n) (m := m)
      rw [heq, heq, htakes.pMethod argIn w hw, wrapFile_pMethod]

/-! ## The methods in the table -/

/-- NULL, or a table of methods of the server. -/
def Addresses.OfServer (pMethod : Ptr) : Prop :=
  pMethod = 0 ∨ ∃ style, pMethod = A.ioMethods style

/-- NULL, or the client's table of methods. -/
def Addresses.OfClient (pMethod : Ptr) : Prop :=
  pMethod = 0 ∨ pMethod = A.remotePosixIoMethods

/-- The table is a list, and its methods are the server's. -/
structure FdTable.OwnMethods (t : FdTable) : Prop where
  valid : t.Valid
  method : ∀ fd pMethod, t.method? fd = some pMethod → A.OfServer pMethod

variable {fns A garbage}

theorem openedMethod_ofServer (style : Option LockingStyle) :
    A.OfServer (A.openedMethod style) := by
  cases style with
  | none => exact .inl rfl
  | some style => exact .inr ⟨style, rfl⟩

namespace FdTable.OwnMethods

variable {t : FdTable}

theorem serverMethod (h : t.OwnMethods A) (fd : CInt) :
    ∃ style, FdTable.serverMethod A (t.lookup fd) = A.ioMethods style := by
  unfold FdTable.serverMethod
  cases hl : t.lookup fd with
  | none => exact ⟨.posix, rfl⟩
  | some entry =>
    dsimp only
    split
    · exact ⟨.posix, rfl⟩
    · next hne =>
      have hm : t.method? fd = some entry.1 := by rw [method?, hl, Option.map_some]
      exact (h.method fd _ hm).resolve_left hne

theorem of_lookup (h : t.OwnMethods A) {t' : FdTable} (hv : t'.Valid)
    (heq : ∀ fd, t'.lookup fd = t.lookup fd) : t'.OwnMethods A :=
  ⟨hv, fun fd pMethod hm => h.method fd pMethod (by rwa [method?, heq] at hm)⟩

theorem node (h : t.OwnMethods A) {head : Nat} {l : List Nat}
    (hl : Chain t.next t.listHead (head :: l)) {a : Nat} (ha : a ∈ l) :
    A.OfServer (t.mem a).method := by
  rcases h.valid with hnull | ⟨head', l', hw⟩
  · rw [hnull] at hl
    cases hl.1
  · have hsame := hl.unique (hw.listHead ▸ hw.chain)
    rw [List.cons.injEq] at hsame
    obtain ⟨rfl, rfl⟩ := hsame
    refine h.method (t.mem a).fd _ ?_
    rw [method?, lookup, hw.node?_of_mem ha]
    rfl

end FdTable.OwnMethods

variable {s s' : Server OS} {argOut outarg : Buf m}

theorem ownMethods_serve {op : Op} {argIn : Buf n} (ht : s.table.OwnMethods A)
    (h : serve fns A garbage op argIn argOut s = some (outarg, s')) : s'.table.OwnMethods A := by
  by_cases hopen : op = .open_
  · subst hopen
    obtain ⟨p, r, -, -, -, hv, ⟨path, hl, -⟩, hother⟩ := wrapOpen_table ht.valid h
    refine ⟨hv, fun fd pMethod hm => ?_⟩
    by_cases hfd : fd = r.image.h
    · subst hfd
      rw [FdTable.method?, hl] at hm
      exact Option.some.inj hm ▸ openedMethod_ofServer r.style
    · exact ht.method fd pMethod (by rwa [FdTable.method?, hother fd hfd] at hm)
  · by_cases hop : op.OnFile
    · by_cases hclose : op = .close
      · subst hclose
        obtain ⟨htable, -⟩ := wrapClose_table ht.valid h
        obtain ⟨head, l, hw, -⟩ := ht.valid.ensureList
        rw [htable]
        exact ht.of_lookup (.inr ⟨head, l, hw⟩) ht.valid.lookup_ensureList
      · obtain ⟨α, β, charToArgIn, method, returnToChar, htakes, hleaves, heq⟩ :=
          serve_onFile fns A garbage hop hclose (n := n) (m := m)
        rw [heq] at h
        obtain ⟨id, id', -, -, -, hv, hm'⟩ := wrapFile_table htakes hleaves ht.valid h
        refine ⟨hv, fun fd pMethod hm => ?_⟩
        rw [hm'] at hm
        split at hm
        · obtain ⟨style, hstyle⟩ := ht.serverMethod id.h
          exact .inr ⟨style, (Option.some.inj hm).symm.trans hstyle⟩
        · exact ht.method fd pMethod hm
    · rw [serve_table_of_not_onFile hop hopen h]
      exact ht

/-! ## The images of the client -/

theorem setClientRemotePMethods_pMethod (pf : UnixFile) :
    (setClientRemotePMethods A pf).pMethod =
      if pf.pMethod = 0 then 0 else A.remotePosixIoMethods := by
  by_cases h : pf.pMethod = 0
  · rw [setClientRemotePMethods, if_neg (not_not.mpr h), if_pos h, h]
  · rw [setClientRemotePMethods, if_pos h, if_neg h]

theorem setClientRemotePMethods_ofClient (pf : UnixFile) :
    A.OfClient (setClientRemotePMethods A pf).pMethod := by
  rw [setClientRemotePMethods_pMethod]
  split
  · exact .inl rfl
  · exact .inr rfl

section Remote

variable (strlen : Ptr → Option Nat) (stack : Nat → Byte) (id : UnixFile)

theorem remote_pMethod {c : Call} (hop : c.op.OnFile ∨ c.op = .open_) (hclose : c.op ≠ .close)
    {out : Buf c.op.returnSize} {r : UnixFile × Result}
    (hr : (c.remote A strlen stack id).charToReturn out = some r) :
    ∃ id', out.get UnixFile 0 = some id' ∧
      r.1.pMethod = (setClientRemotePMethods A id').pMethod := by
  by_cases hunfetch : c.op = .unfetch
  · cases c with
    | xUnfetch iOff p =>
      obtain ⟨⟨id', hid', hr⟩, -⟩ := remote_unfetch strlen stack id hr
      refine ⟨id', hid', ?_⟩
      rw [hr, setClientRemotePMethods_pMethod, setClientRemotePMethods_pMethod]
    | _ => cases hunfetch
  · obtain ⟨⟨id', hid', hr⟩, -⟩ :=
      remote_readsReply strlen stack id hop hclose hunfetch out r hr
    exact ⟨id', hid', by rw [hr]⟩

theorem remoteOpen_rc {zPath : Option (List Byte)} {pFile : UnixFile} {flags : CInt}
    {pOutFlags : Option CInt} {out : Buf (Op.returnSize .open_)} {img : UnixFile} {res : Result}
    (hr : ((Call.xOpen zPath pFile flags pOutFlags).remote A strlen stack id).charToReturn out =
      some (img, res)) : out.get CInt (sizeUnixFile + sizeof CInt) = some res.rc := by
  simp only [Call.remote, RemoteCall.map, remoteOpen, unixOpenConvertCharToReturn] at hr
  obtain ⟨r, hconv, heq⟩ := Option.map_eq_some_iff.mp hr
  obtain ⟨-, rfl⟩ := Prod.mk.inj heq
  obtain ⟨pFile', -, hconv⟩ := Option.bind_eq_some_iff.mp hconv
  obtain ⟨temp, -, hconv⟩ := Option.bind_eq_some_iff.mp hconv
  obtain ⟨rc, hrc, hconv⟩ := Option.bind_eq_some_iff.mp hconv
  rw [hrc]
  split at hconv
  · rw [← Option.some.inj hconv]
  · obtain ⟨old, -, hconv⟩ := Option.bind_eq_some_iff.mp hconv
    rw [← Option.some.inj hconv]

theorem remote_ofClient {c : Call} {out : Buf c.op.returnSize} {img : UnixFile} {res : Result}
    (hr : (c.remote A strlen stack id).charToReturn out = some (img, res))
    (hid : c.op ≠ .open_ → A.OfClient id.pMethod) : A.OfClient img.pMethod := by
  by_cases hclose : c.op = .close
  · cases c with
    | xClose =>
      obtain ⟨himg : img = _, -⟩ := remote_close strlen stack id hr
      rw [himg]
      exact setClientRemotePMethods_ofClient id
    | _ => cases hclose
  · by_cases hop : c.op.OnFile ∨ c.op = .open_
    · obtain ⟨id', -, hpm⟩ := remote_pMethod strlen stack id hop hclose hr
      rw [hpm]
      exact setClientRemotePMethods_ofClient id'
    · obtain ⟨hfile, hopen⟩ := not_or.mp hop
      rw [remote_image strlen stack id hfile hopen hr]
      exact hid hopen

end Remote

/-! ## Runs -/

/-- The call that is not over yet. -/
def Phase.call? : Phase → Option Call
  | .idle => none
  | .sent c _ | .served c _ | .failed c _ => some c

/-- No call is outstanding. -/
def Phase.isIdle : Phase → Bool
  | .idle => true
  | _ => false

theorem Phase.isIdle_iff {p : Phase} : p.isIdle ↔ p = .idle := by
  cases p <;> simp [isIdle]

namespace System

variable {H : Type} [DecidableEq H] {env : Env OS} {s s' : System OS H} {e : Event H}

/-- Between calls, and during any call but an Open, the client has its own pointer. -/
structure OwnMethods (env : Env OS) (s : System OS H) : Prop where
  client : ∀ h, (∀ c, (s.phase h).call? = some c → c.op ≠ .open_) →
    env.addresses.OfClient (s.image h).pMethod
  server : s.server.table.OwnMethods env.addresses

theorem OwnMethods.phase (hs : OwnMethods env s) {h : H} {p : Phase}
    (hp : p.call? = (s.phase h).call?) {server : Server OS}
    (hserver : server.table.OwnMethods env.addresses) :
    OwnMethods env { s with phase := Function.update s.phase h p, server := server } := by
  refine ⟨fun h' hh' => hs.client h' fun c hc => hh' c ?_, hserver⟩
  dsimp only
  by_cases heq : h' = h
  · subst heq
    rwa [Function.update_self, hp]
  · rwa [Function.update_of_ne heq]

theorem OwnMethods.step (hs : OwnMethods env s) (h : s.step env e = some s') :
    OwnMethods env s' := by
  cases e with
  | send i c =>
    obtain ⟨hidle, argIn, -, rfl⟩ := step_send h
    refine ⟨fun j hj => ?_, hs.server⟩
    by_cases heq : j = i
    · subst heq
      simp only [Function.update_self] at hj ⊢
      have hne := hj c rfl
      rw [Call.imageBefore_eq _ hne]
      exact hs.client j fun c' hc' => by rw [hidle] at hc'; cases hc'
    · simp only [Function.update_of_ne heq] at hj ⊢
      exact hs.client j hj
  | serve i garbage outStruct =>
    obtain ⟨c, argIn, outarg, server, hsent, hserve, rfl⟩ := step_serve h
    exact hs.phase (by rw [hsent]; rfl) (ownMethods_serve hs.server hserve)
  | fail i =>
    obtain ⟨c, executed, rfl, ⟨⟨argIn, hp⟩, -⟩ | ⟨⟨outarg, hp⟩, -⟩⟩ := step_fail h
    · exact hs.phase (by rw [hp]; rfl) hs.server
    · exact hs.phase (by rw [hp]; rfl) hs.server
  | recv i =>
    obtain ⟨c, outarg, executed, hfin, hphase⟩ := step_recv h
    obtain ⟨id, result, hret, rfl⟩ := finish_eq_some hfin
    have hcall : (s.phase i).call? = some c := by
      rcases hphase with ⟨reply, -, hp, -⟩ | ⟨-, hp⟩ <;> rw [hp] <;> rfl
    refine ⟨fun j hj => ?_, hs.server⟩
    by_cases heq : j = i
    · subst heq
      simp only [Function.update_self]
      refine remote_ofClient _ _ _ hret fun hne => hs.client j fun c' hc' => ?_
      rw [hcall] at hc'
      exact Option.some.inj hc' ▸ hne
    · simp only [Function.update_of_ne heq] at hj ⊢
      exact hs.client j hj

/-! ## Runs in which no RPC fails -/

/-- The last Open of `h` has succeeded, and no Close has returned since. -/
def isOpen (h : H) : List (Entry H) → Bool
  | [] => false
  | e :: trace =>
    if e.handle = h then
      match e.call with
      | .xOpen .. => e.result.rc = sqliteOk
      | .xClose => false
      | _ => isOpen h trace
    else isOpen h trace

/-- What a reply says about methods. -/
structure Answered (A : Addresses) (op : Op) (outarg : Buf m) : Prop where
  onFile : op.OnFile → op ≠ .close → ∃ id, outarg.get UnixFile 0 = some id ∧ id.pMethod ≠ 0
  opened : op = .open_ → ∃ (style : Option LockingStyle) (id : UnixFile) (rc : CInt),
    outarg.get UnixFile 0 = some id ∧ outarg.get CInt (sizeUnixFile + sizeof CInt) = some rc ∧
    id.pMethod = A.openedMethod style ∧ (style.isSome = true ↔ rc = sqliteOk)

theorem answered_serve {A : Addresses} {op : Op} {fns : UnixFns OS} {garbage : Nat → Byte}
    {argIn : Buf n} {argOut outarg : Buf m} {server server' : Server OS}
    (hv : server.table.Valid)
    (h : serve fns A garbage op argIn argOut server = some (outarg, server')) :
    Answered A op outarg where
  onFile hop hclose := by
    obtain ⟨α, β, charToArgIn, method, returnToChar, htakes, hleaves, heq⟩ :=
      serve_onFile fns A garbage hop hclose (n := n) (m := m)
    rw [heq] at h
    obtain ⟨id, id', -, hid', hpm, -⟩ := wrapFile_table htakes hleaves hv h
    exact ⟨id', hid', hpm ▸ FdTable.serverMethod_ne_null A _⟩
  opened hopen := by
    subst hopen
    obtain ⟨p, r, -, hid, hrc, -⟩ := wrapOpen_table hv h
    exact ⟨r.style, _, _, hid, hrc, rfl, r.sets_method⟩

/-- Without failures a handle has its methods as long as it is open. -/
structure Kept (env : Env OS) (s : System OS H) : Prop where
  answered : ∀ h c outarg, s.phase h = .served c outarg → Answered env.addresses c.op outarg
  not_failed : ∀ h c executed, s.phase h ≠ .failed c executed
  last : ∀ h, s.phase h = .idle → ∀ e, s.trace.find? (·.handle = h) = some e →
    e.call.op = .open_ → (s.image h).pMethod =
      if e.result.rc = sqliteOk then env.addresses.remotePosixIoMethods else 0
  open_ : ∀ h, isOpen h s.trace → (∀ c, (s.phase h).call? = some c → c.op ≠ .open_) →
    (s.image h).pMethod = env.addresses.remotePosixIoMethods

theorem remote_answered {A : Addresses} {c : Call} {id img : UnixFile} {res : Result}
    {strlen : Ptr → Option Nat} {stack : Nat → Byte} {outarg : Buf c.op.returnSize}
    (hans : Answered A c.op outarg)
    (hr : (c.remote A strlen stack id).charToReturn outarg = some (img, res)) :
    (c.op = .open_ →
      img.pMethod = if res.rc = sqliteOk then A.remotePosixIoMethods else 0) ∧
    (c.op ≠ .open_ → c.op ≠ .close → id.pMethod = A.remotePosixIoMethods →
      img.pMethod = A.remotePosixIoMethods) := by
  refine ⟨fun hopen => ?_, fun hopen hclose hid => ?_⟩
  · obtain ⟨style, id', rc, hid', hrc, hpm, hiff⟩ := hans.opened hopen
    obtain ⟨id'', hid'', hpm'⟩ := remote_pMethod strlen stack id (.inr hopen)
      (by rw [hopen]; decide) hr
    obtain rfl := Option.some.inj (hid'.symm.trans hid'')
    cases c with
    | xOpen =>
      obtain rfl := Option.some.inj (hrc.symm.trans (remoteOpen_rc strlen stack id hr))
      rw [hpm', setClientRemotePMethods_pMethod, hpm]
      cases style with
      | none =>
        have hne : res.rc ≠ sqliteOk := fun h => by cases hiff.mpr h
        rw [if_neg hne]
        rfl
      | some style =>
        have hne : A.openedMethod (some style) ≠ 0 := A.ioMethods_ne_null style
        rw [if_neg hne, if_pos (hiff.mp rfl)]
    | _ => cases hopen
  · by_cases hop : c.op.OnFile
    · obtain ⟨id', hid', hne⟩ := hans.onFile hop hclose
      obtain ⟨id'', hid'', hpm⟩ := remote_pMethod strlen stack id (.inl hop) hclose hr
      obtain rfl := Option.some.inj (hid'.symm.trans hid'')
      rw [hpm, setClientRemotePMethods_pMethod, if_neg hne]
    · rw [remote_image strlen stack id hop hopen hr, hid]

theorem Kept.send (hs : Kept env s) {i : H} {c : Call} (h : s.step env (.send i c) = some s') :
    Kept env s' := by
  obtain ⟨hidle, argIn, -, rfl⟩ := step_send h
  refine ⟨fun j c' out hj => ?_, fun j c' x hj => ?_, fun j hj => ?_, fun j hopen hj => ?_⟩
  all_goals dsimp only at hj ⊢
  all_goals by_cases heq : j = i
  · subst heq
    rw [Function.update_self] at hj
    cases hj
  · rw [Function.update_of_ne heq] at hj
    exact hs.answered j c' out hj
  · subst heq
    rw [Function.update_self] at hj
    cases hj
  · rw [Function.update_of_ne heq] at hj
    exact hs.not_failed j c' x hj
  · subst heq
    rw [Function.update_self] at hj
    cases hj
  · rw [Function.update_of_ne heq] at hj ⊢
    exact hs.last j hj
  · subst heq
    rw [Function.update_self] at hj ⊢
    rw [Call.imageBefore_eq _ (hj c rfl)]
    exact hs.open_ j hopen fun c' hc' => by rw [hidle] at hc'; cases hc'
  · rw [Function.update_of_ne heq] at hj ⊢
    exact hs.open_ j hopen hj

theorem Kept.serve (hs : Kept env s) (ht : s.server.table.OwnMethods env.addresses) {i : H}
    {garbage outStruct : Nat → Byte}
    (h : s.step env (.serve i garbage outStruct) = some s') : Kept env s' := by
  obtain ⟨c, argIn, outarg, server, hsent, hserve, rfl⟩ := step_serve h
  refine ⟨fun j c' out hj => ?_, fun j c' x hj => ?_, fun j hj => ?_, fun j hopen hj => ?_⟩
  all_goals dsimp only at hj ⊢
  all_goals by_cases heq : j = i
  · subst heq
    rw [Function.update_self, Phase.served.injEq] at hj
    obtain ⟨rfl, hj⟩ := hj
    exact eq_of_heq hj ▸ answered_serve ht.valid hserve
  · rw [Function.update_of_ne heq] at hj
    exact hs.answered j c' out hj
  · subst heq
    rw [Function.update_self] at hj
    cases hj
  · rw [Function.update_of_ne heq] at hj
    exact hs.not_failed j c' x hj
  · subst heq
    rw [Function.update_self] at hj
    cases hj
  · rw [Function.update_of_ne heq] at hj
    exact hs.last j hj
  · subst heq
    rw [Function.update_self] at hj
    exact hs.open_ j hopen fun c' hc' => hj c' (by rwa [hsent] at hc')
  · rw [Function.update_of_ne heq] at hj
    exact hs.open_ j hopen hj

theorem isOpen_cons_self {e : Entry H} {trace : List (Entry H)}
    (h : isOpen e.handle (e :: trace)) :
    (e.call.op = .open_ ∧ e.result.rc = sqliteOk) ∨
      (e.call.op ≠ .open_ ∧ e.call.op ≠ .close ∧ isOpen e.handle trace) := by
  rw [isOpen, if_pos rfl] at h
  obtain ⟨handle, call, result, executed, failed⟩ := e
  cases call with
  | xOpen => exact .inl ⟨rfl, of_decide_eq_true h⟩
  | xClose => cases h
  | _ => exact .inr ⟨nofun, nofun, h⟩

theorem Kept.recv (hs : Kept env s) {i : H} (h : s.step env (.recv i) = some s') :
    Kept env s' := by
  obtain ⟨c, outarg, executed, hfin, hphase⟩ := step_recv h
  obtain ⟨id, result, hret, rfl⟩ := finish_eq_some hfin
  obtain ⟨reply, rfl, hserved, -⟩ : ∃ reply, outarg = some reply ∧
      s.phase i = .served c reply ∧ executed = true :=
    hphase.resolve_right fun hf => hs.not_failed i c executed hf.2
  obtain ⟨hopened, hothers⟩ := remote_answered (hs.answered i c reply hserved) hret
  refine ⟨fun j c' out hj => ?_, fun j c' x hj => ?_, fun j hj e he hop => ?_,
    fun j hopen hj => ?_⟩
  all_goals dsimp only at hj ⊢
  all_goals by_cases heq : j = i
  · subst heq
    rw [Function.update_self] at hj
    cases hj
  · rw [Function.update_of_ne heq] at hj
    exact hs.answered j c' out hj
  · subst heq
    rw [Function.update_self] at hj
    cases hj
  · rw [Function.update_of_ne heq] at hj
    exact hs.not_failed j c' x hj
  · subst heq
    rw [List.find?_cons_of_pos (by simp)] at he
    rw [Function.update_self]
    rw [← Option.some.inj he] at hop ⊢
    exact hopened hop
  · rw [List.find?_cons_of_neg (by simpa using Ne.symm heq)] at he
    rw [Function.update_of_ne heq] at hj ⊢
    exact hs.last j hj e he hop
  · subst heq
    rw [Function.update_self]
    rcases isOpen_cons_self hopen with ⟨hop, hrc⟩ | ⟨hne, hclose, hopen⟩
    · rw [hopened hop, if_pos hrc]
    · refine hothers hne hclose (hs.open_ j hopen fun c' hc' => ?_)
      rw [hserved] at hc'
      exact Option.some.inj hc' ▸ hne
  · rw [isOpen, if_neg (Ne.symm heq)] at hopen
    rw [Function.update_of_ne heq] at hj ⊢
    exact hs.open_ j hopen hj

theorem Kept.step (hs : Kept env s) (ht : s.server.table.OwnMethods env.addresses)
    (hfail : ∀ i, e ≠ .fail i) (h : s.step env e = some s') : Kept env s' := by
  cases e with
  | send => exact hs.send h
  | serve => exact hs.serve ht h
  | fail i => exact absurd rfl (hfail i)
  | recv => exact hs.recv h

variable {image : H → UnixFile} {table : FdTable} {os : OS} {es : List (Event H)}

omit [DecidableEq H] in
theorem OwnMethods.init (htable : table.listHead = none)
    (himage : ∀ h, env.addresses.OfClient (image h).pMethod) :
    OwnMethods env (init image table os) :=
  ⟨fun h _ => himage h, .inl htable, fun fd pMethod hm => by
    have hl : table.lookup fd = none := by rw [FdTable.lookup, FdTable.node?, if_pos htable]; rfl
    change (table.lookup fd).map Prod.fst = some pMethod at hm
    rw [hl] at hm
    cases hm⟩

theorem Kept.init : Kept env (init image table os) := ⟨nofun, nofun, nofun, nofun⟩

/-- Both sides have their own pointers, and only those, whatever a request brings. -/
structure MethodsAtHome (env : Env OS) (s : System OS H) : Prop where
  client : ∀ h, s.phase h = .idle → env.addresses.OfClient (s.image h).pMethod
  node : ∀ head l, Chain s.server.table.next s.server.table.listHead (head :: l) →
    ∀ a ∈ l, env.addresses.OfServer (s.server.table.mem a).method
  used : ∀ fd, ∃ style, FdTable.serverMethod env.addresses (s.server.table.lookup fd) =
    env.addresses.ioMethods style
  request : ∀ op : Op, op.OnFile ∨ op = .open_ → ∀ {n m : Nat} (garbage : Nat → Byte)
    (argIn : Buf n) (argOut : Buf m) (w : List Byte), w.length = 8 →
    serve env.fns env.addresses garbage op (argIn.splice op.imageOffset w) argOut s.server =
      serve env.fns env.addresses garbage op argIn argOut s.server

/-- A handle whose last call was an Open has the methods exactly if that succeeded, and
an open handle has them. -/
structure MethodsKept (env : Env OS) (s : System OS H) (h : H) : Prop where
  last : ∀ e, s.trace.find? (·.handle = h) = some e → e.call.op = .open_ →
    (s.image h).pMethod =
      if e.result.rc = sqliteOk then env.addresses.remotePosixIoMethods else 0
  open_ : isOpen h s.trace → (s.image h).pMethod = env.addresses.remotePosixIoMethods

variable (env) in
/-- Failed RPCs or not; without them, an open handle keeps its methods. -/
theorem methods_never_cross (htable : table.listHead = none)
    (himage : ∀ h, env.addresses.OfClient (image h).pMethod)
    (hrun : Runs.run (System.step env) (System.init image table os) es = some s) :
    MethodsAtHome env s ∧
    ((∀ h, Event.fail h ∉ es) → ∀ h, s.phase h = .idle → MethodsKept env s h) := by
  have hown : OwnMethods env s :=
    Runs.invariant (fun _ _ _ hs h => hs.step h) (.init htable himage) hrun
  refine ⟨⟨fun h hidle => hown.client h ?_, fun head l hl a ha => hown.server.node hl ha,
    hown.server.serverMethod, ?_⟩, fun hfail h hidle => ?_⟩
  · intro c hc
    rw [hidle] at hc
    cases hc
  · intro op hop n m garbage argIn argOut w hw
    rw [serve_pMethod _ _ _ hop argIn hw]
  · have hok : Runs.Allowed (System.step env) (fun _ e => ∀ i, e ≠ Event.fail i)
        (System.init image table os) es :=
      .of_mem (fun e he s i hi => hfail i (by rwa [← hi])) _
    have hstep : ∀ (s : System OS H) e s', OwnMethods env s ∧ Kept env s →
        (∀ i : H, e ≠ Event.fail i) → System.step env s e = some s' →
        OwnMethods env s' ∧ Kept env s' :=
      fun s e s' hs he h => ⟨hs.1.step h, hs.2.step hs.1.server he h⟩
    have hkept := Runs.invariant_of_allowed hstep hok ⟨.init htable himage, .init⟩ hrun
    refine ⟨hkept.2.last h hidle, fun hopen => hkept.2.open_ h hopen fun c hc => ?_⟩
    rw [hidle] at hc
    cases hc

theorem methods_never_cross_bothOpen : ∃ s,
    Runs.run (System.step Disk.env)
      (System.init (fun _ => UnixFile.zero) Disk.table ⟨[], 3⟩) bothOpen = some s ∧
    MethodsAtHome Disk.env s ∧
    ∀ h, (s.image h).pMethod = Disk.env.addresses.remotePosixIoMethods := by
  have hrun : (Runs.run (System.step Disk.env)
      (System.init (fun _ => UnixFile.zero) Disk.table ⟨[], 3⟩) bothOpen).map (fun s =>
        (List.finRange 2).all fun h => (s.phase h).isIdle && isOpen h s.trace) = some true := by
    decide +kernel
  obtain ⟨s, hs, hstate⟩ := Option.map_eq_some_iff.mp hrun
  rw [List.all_eq_true] at hstate
  obtain ⟨hhome, hkept⟩ := methods_never_cross Disk.env rfl (fun h => .inl rfl) hs
  refine ⟨s, hs, hhome, fun h => ?_⟩
  obtain ⟨hidle, hopen⟩ := Bool.and_eq_true_iff.mp (hstate h (List.mem_finRange h))
  exact (hkept (by simp [bothOpen]) h (Phase.isIdle_iff.mp hidle)).open_ hopen

end System

end RemoteVfs
