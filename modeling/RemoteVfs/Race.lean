import RemoteVfs.FdMap
import RemoteVfs.Memory.Bounds
import RemoteVfs.Disk

/-!
# Opens that overlap

Each handler of the server runs on a thread, and nothing locks the list of descriptors.
The steps of the handlers come in any order.
-/

open CMem

namespace RemoteVfs

/-! ## The steps of a handler -/

/-- The steps on the list that nothing interrupts. -/
inductive Instr
  /-- `NULL == listHead` -/
  | testHead
  /-- `InitList()`, when the test said so. -/
  | initList
  /-- `prev = listHead` -/
  | presetPrev
  /-- The loop of `FindNode`. -/
  | walk (fd : CInt)
  /-- What `AddNode` does with the position that was found. -/
  | link
  /-- What `setServicePath` does with it. -/
  | writePath
  deriving DecidableEq

namespace Instr

def findNode (fd : CInt) : List Instr := [.testHead, .initList, .walk fd]

/-- `getServerUnixPMethods`, and `getServicePath` -/
def getNode (fd : CInt) : List Instr := .presetPrev :: findNode fd

def addNode (fd : CInt) : List Instr :=
  [.testHead, .initList, .presetPrev] ++ findNode fd ++ [.link]

def setServicePath (fd : CInt) : List Instr := .presetPrev :: findNode fd ++ [.writePath]

/-- `WrapOpen`. `h` is the descriptor in the image of the request, and `fd` the one that
`unixOpen` leaves there, between the lookups and the rest. -/
def wrapOpen (h fd : CInt) : List Instr :=
  getNode h ++ getNode h ++ addNode fd ++ setServicePath fd

theorem next_of_suffix {h fd : CInt} {instr : Instr} {rest : List Instr}
    (hrest : instr :: rest <:+ wrapOpen h fd) :
    (instr = .link → rest = setServicePath fd) ∧ (instr = .writePath → rest = []) ∧
      ∀ next ∈ rest.head?, next = .link ∨ next = .writePath → instr = .walk fd := by
  simp only [wrapOpen, getNode, findNode, addNode, setServicePath, List.cons_append,
    List.nil_append, List.suffix_cons_iff, List.cons.injEq, List.suffix_nil, reduceCtorEq,
    or_false] at hrest
  rcases hrest with h | h | h | h | h | h | h | h | h | h | h | h | h | h | h | h | h | h | h | h
  all_goals
    obtain ⟨rfl, rfl⟩ := h
    simp [setServicePath, findNode]

end Instr

/-- An Open: what it asks for, and what it registers. -/
structure OpenCall where
  h : CInt
  fd : CInt
  method : Ptr
  path : Buf 512
  name : List Byte
  path_string : cstr path.val = some name

/-- The variables of the functions on the list. -/
structure Locals where
  isNull : Bool
  prev : Option Nat
  node : Option Nat

/-- `none` follows a NULL pointer, or it copies past the end of a path. -/
def Instr.exec (c : OpenCall) (t : FdTable) (r : Locals) : Instr → Option (FdTable × Locals)
  | .testHead => some (t, { r with isNull := t.listHead = none })
  | .initList => some (if r.isNull then t.initList else t, r)
  | .presetPrev => some (t, { r with prev := t.listHead })
  | .walk fd => do
    let head ← t.listHead
    let (node, prev) ← search t.next (fun a => fd = (t.mem a).fd) t.brk (t.next head) r.prev
    return (t, { r with node := node, prev := prev })
  | .link => do
    let t ← t.linkNode c.fd c.method r.node r.prev
    return (t, r)
  | .writePath =>
    match r.node with
    | none => some (t, r)
    | some node => do
      let path ← (t.mem node).path.strcpy c.path.val
      return (t.set node { t.mem node with path := path }, r)

structure Handler where
  call : OpenCall
  rest : List Instr
  locals : Locals

/-- The list, which all of the handlers share. -/
structure Threads (ι : Type) where
  table : FdTable
  handlers : ι → Handler

namespace Threads

variable {ι : Type} [DecidableEq ι]

/-- The next step of handler `i`. -/
def step (s : Threads ι) (i : ι) : Option (Threads ι) :=
  let h := s.handlers i
  match h.rest with
  | [] => none
  | instr :: rest => do
    let (t, r) ← instr.exec h.call s.table h.locals
    return ⟨t, Function.update s.handlers i ⟨h.call, rest, r⟩⟩

/-- The requests have arrived. -/
def start (t : FdTable) (calls : ι → OpenCall) : Threads ι :=
  ⟨t, fun i => ⟨calls i, Instr.wrapOpen (calls i).h (calls i).fd, ⟨false, none, none⟩⟩⟩

/-- Nothing has come between a test and what is done about it: `InitList` still finds no list,
and a new node still finds the end of the list where the search did. -/
def Unraced (s : Threads ι) (i : ι) : Prop :=
  let h := s.handlers i
  (h.rest.head? = some .initList → h.locals.isNull = true → s.table.listHead = none) ∧
    (h.rest.head? = some .link → h.locals.node = none →
      ∀ prev ∈ h.locals.prev, s.table.next prev = none)

instance (s : Threads ι) (i : ι) : Decidable (s.Unraced i) :=
  inferInstanceAs (Decidable (_ ∧ _))

end Threads

/-! ## A handler on its own -/

namespace Instr

variable (c : OpenCall)

/-- The steps of one handler, with no other between them. -/
def run : List Instr → FdTable × Locals → Option (FdTable × Locals)
  | [], x => some x
  | instr :: rest, (t, r) => (instr.exec c t r).bind (run rest)

variable {c} {t : FdTable} {r : Locals}

theorem run_append (l l' : List Instr) (x : FdTable × Locals) :
    run c (l ++ l') x = (run c l x).bind (run c l') := by
  induction l generalizing x with
  | nil => rfl
  | cons instr l ih =>
    rw [List.cons_append, run, run, Option.bind_assoc]
    exact congrArg _ (funext fun y => ih y)

theorem initList_of_test :
    (if decide (t.listHead = none) then t.initList else t) = t.ensureList := by
  rw [FdTable.ensureList]
  simp

theorem run_findNode (fd : CInt) : run c (findNode fd) (t, r) =
    (t.findNode fd r.prev).map fun x => (x.1, ⟨t.listHead = none, x.2.2, x.2.1⟩) := by
  simp only [findNode, run, exec, Option.bind_some, initList_of_test, FdTable.findNode,
    Option.bind_eq_bind, Option.pure_def]
  cases t.ensureList.listHead with
  | none => rfl
  | some head =>
    simp only [Option.bind_some]
    cases search t.ensureList.next (fun a => fd = (t.ensureList.mem a).fd) t.ensureList.brk
      (t.ensureList.next head) r.prev <;> rfl

theorem run_addNode : (run c (addNode c.fd) (t, r)).map Prod.fst = t.addNode c.fd c.method := by
  simp only [addNode, List.cons_append, List.nil_append, run, exec, Option.bind_some,
    initList_of_test, run_append, run_findNode, FdTable.addNode, Option.bind_eq_bind]
  cases t.ensureList.findNode c.fd t.ensureList.listHead with
  | none => rfl
  | some x =>
    simp only [Option.map_some, Option.bind_some]
    cases x.1.linkNode c.fd c.method x.2.1 x.2.2 <;> rfl

theorem run_setServicePath :
    (run c (setServicePath c.fd) (t, r)).map Prod.fst = t.setServicePath c.fd c.path.val := by
  simp only [setServicePath, List.cons_append, run, exec, Option.bind_some, run_append,
    run_findNode, FdTable.setServicePath, Option.bind_eq_bind]
  cases t.findNode c.fd t.listHead with
  | none => rfl
  | some x =>
    obtain ⟨t', node, prev⟩ := x
    cases node with
    | none => rfl
    | some a =>
      simp only [Option.map_some, Option.bind_some]
      cases (t'.mem a).path.strcpy c.path.val <;> rfl

theorem run_getNode (hv : t.Valid) (fd : CInt) :
    ∃ r', run c (getNode fd) (t, r) = some (t.ensureList, r') := by
  obtain ⟨pre, hfind⟩ := hv.findNode fd t.listHead
  rw [getNode, run, exec, Option.bind_some, run_findNode, hfind]
  exact ⟨_, rfl⟩

theorem run_wrapOpen (hv : t.Valid) : (run c (wrapOpen c.h c.fd) (t, r)).map Prod.fst =
    (t.addNode c.fd c.method).bind fun t' => t'.setServicePath c.fd c.path.val := by
  obtain ⟨head, l, hw, -⟩ := hv.ensureList
  obtain ⟨r₁, h₁⟩ := @run_getNode c t r hv c.h
  obtain ⟨r₂, h₂⟩ := @run_getNode c t.ensureList r₁ (.inr ⟨head, l, hw⟩) c.h
  rw [wrapOpen, List.append_assoc, List.append_assoc, run_append, h₁, Option.bind_some, run_append,
    h₂, Option.bind_some, FdTable.ensureList_idem, run_append, ← FdTable.addNode_ensureList,
    ← @run_addNode c t.ensureList r₂]
  cases run c (addNode c.fd) (t.ensureList, r₂) with
  | none => rfl
  | some x => exact run_setServicePath

end Instr

namespace Threads

variable {ι : Type} [DecidableEq ι]

theorem run_alone (s : Threads ι) (i : ι) :
    Runs.run step s (List.replicate (s.handlers i).rest.length i) =
      (Instr.run (s.handlers i).call (s.handlers i).rest (s.table, (s.handlers i).locals)).map
        fun x => ⟨x.1, Function.update s.handlers i ⟨(s.handlers i).call, [], x.2⟩⟩ := by
  obtain ⟨t, handlers⟩ := s
  obtain ⟨h, hh⟩ : ∃ h, handlers i = h := ⟨_, rfl⟩
  obtain ⟨call, rest, r⟩ := h
  simp only [hh]
  induction rest generalizing t handlers r with
  | nil =>
    have hself : Function.update handlers i ⟨call, [], r⟩ = handlers :=
      hh ▸ Function.update_eq_self i handlers
    simp [Runs.run, Instr.run, hself]
  | cons instr rest ih =>
    have hstep : step ⟨t, handlers⟩ i = (instr.exec call t r).bind fun x =>
        some ⟨x.1, Function.update handlers i ⟨call, rest, x.2⟩⟩ := by
      simp only [step, hh]
      rfl
    rw [List.length_cons, List.replicate_succ, Runs.run, hstep, Instr.run, Option.bind_assoc,
      Option.map_bind]
    refine congrArg _ (funext fun x => ?_)
    rw [Option.bind_some, ih x.1 _ x.2 (Function.update_self ..), Function.comp_apply]
    simp only [Function.update_idem]

theorem run_alone_start {t : FdTable} (hv : t.Valid) (calls : ι → OpenCall) (i : ι) :
    (Runs.run step (start t calls) (List.replicate 20 i)).map (·.table) =
      (t.addNode (calls i).fd (calls i).method).bind fun t' =>
        t'.setServicePath (calls i).fd (calls i).path.val := by
  have hlen : ((start t calls).handlers i).rest.length = 20 := rfl
  rw [← hlen, run_alone, Option.map_map, ← @Instr.run_wrapOpen (calls i) t ⟨false, none, none⟩ hv]
  rfl

end Threads

/-! ## What a step leaves to the others -/

namespace FdTable

variable {t t' : FdTable} {head : Nat} {l : List Nat} {fd : CInt} {a : Nat}

/-- `a` is one of the cells. -/
def OnList (t : FdTable) (a : Nat) : Prop := ∃ head l, t.Wf head l ∧ a ∈ head :: l

/-- The cells stay on the list, and what it says about other descriptors than `fd`. -/
structure Keeps (t t' : FdTable) (fd : CInt) : Prop where
  valid : t'.Valid
  onList : ∀ a, t.OnList a → t'.OnList a
  node : ∀ fd' ≠ fd, t'.node? fd' = t.node? fd'
  lookup : ∀ fd' ≠ fd, t'.lookup fd' = t.lookup fd'

theorem Valid.keeps_self (h : t.Valid) (fd : CInt) : t.Keeps t fd :=
  ⟨h, fun _ ha => ha, fun _ _ => rfl, fun _ _ => rfl⟩

theorem Valid.keeps_initList (h : t.Valid) (hnull : t.listHead = none) (fd : CInt) :
    t.Keeps t.initList fd := by
  have hensure : t.ensureList = t.initList := if_pos hnull
  obtain ⟨head, l, hw, hnode⟩ := h.ensureList
  rw [← hensure]
  refine ⟨.inr ⟨head, l, hw⟩, ?_, fun fd' _ => hnode fd', fun fd' _ => h.lookup_ensureList fd'⟩
  rintro a ⟨head', l', hw', -⟩
  cases hnull.symm.trans hw'.listHead

theorem Valid.keeps_set (h : t.Valid) (hn : t.node? fd = some a) {node : MethodAndFD}
    (hfd : node.fd = (t.mem a).fd) (hnext : node.next = (t.mem a).next) :
    t.Keeps (t.set a node) fd := by
  obtain ⟨head, l, hw⟩ := h.wf_of_node? hn
  refine ⟨.inr ⟨head, l, hw.set hfd hnext⟩, ?_, fun fd' _ => hw.node?_set hfd hnext fd',
    fun fd' hne => ?_⟩
  · rintro b ⟨head', l', hw', hb⟩
    exact ⟨head', l', hw'.set hfd hnext, hb⟩
  · rw [hw.lookup_set node hfd hnext hn, if_neg hne]

theorem Wf.unique (h : t.Wf head l) {head' : Nat} {l' : List Nat} (h' : t.Wf head' l') :
    head = head' ∧ l = l' := by
  obtain rfl := Option.some.inj (h.listHead.symm.trans h'.listHead)
  exact ⟨rfl, (List.cons.inj (h.chain.unique h'.chain)).2⟩

theorem Wf.last_of_next (h : t.Wf head l) (ha : a ∈ head :: l) (hnext : t.next a = none) :
    ∃ c, head :: l = c ++ [a] := by
  obtain ⟨c, r, hcells⟩ := List.append_of_mem ha
  cases r with
  | nil => exact ⟨c, hcells⟩
  | cons b r =>
    have hchain := h.chain
    rw [hcells] at hchain
    cases hnext.symm.trans hchain.next_eq

theorem Wf.node?_appended (h : t.Wf head l) (hn : t.node? fd = none) {c : List Nat}
    (hc : head :: l = c ++ [a]) (method : Ptr) {fd' : CInt} (hne : fd' ≠ fd) :
    (t.appended a fd method).node? fd' = t.node? fd' := by
  have hlast : a < t.brk := h.bounded a (by rw [hc]; simp)
  refine Option.ext fun b => ?_
  rw [(h.appended hn hc method).node?_eq_some, h.node?_eq_some, List.mem_append,
    List.mem_singleton]
  have hold : b ∈ l → ((t.appended a fd method).mem b).fd = (t.mem b).fd := fun hb =>
    (appended_old fd method hlast.ne (h.bounded b (List.mem_cons_of_mem head hb)).ne).1
  have hnew : ((t.appended a fd method).mem t.brk).fd = fd := by
    rw [appended_mem_new fd method hlast.ne]
  constructor
  · rintro ⟨hb | rfl, hfd⟩
    · exact ⟨hb, hold hb ▸ hfd⟩
    · exact absurd (hfd.symm.trans hnew) hne
  · rintro ⟨hb, hfd⟩
    exact ⟨.inl hb, (hold hb).trans hfd⟩

theorem OnList.keeps_appended (ha : t.OnList a) (hn : t.node? fd = none)
    (hnext : t.next a = none) (method : Ptr) : t.Keeps (t.appended a fd method) fd ∧
      (t.appended a fd method).lookup fd = some (method, (t.mem t.brk).path) := by
  obtain ⟨head, l, hw, hmem⟩ := ha
  obtain ⟨c, hc⟩ := hw.last_of_next hmem hnext
  have hw' := hw.appended hn hc method
  refine ⟨⟨.inr ⟨head, _, hw'⟩, ?_, fun fd' hne => hw.node?_appended hn hc method hne,
    fun fd' hne => ?_⟩, ?_⟩
  · rintro b ⟨head', l', hb, hmem'⟩
    obtain ⟨rfl, rfl⟩ := hw.unique hb
    exact ⟨head, _, hw', List.mem_append_left [t.brk] hmem'⟩
  · rw [hw.lookup_appended hn hc, if_neg hne]
  · rw [hw.lookup_appended hn hc, if_pos rfl]

end FdTable

/-! ## The invariant of a handler -/

/-- Where the handler is, and what the list already holds for it. -/
structure Handler.Inv (t : FdTable) (h : Handler) : Prop where
  suffix : h.rest <:+ Instr.wrapOpen h.call.h h.call.fd
  prev : ∀ a, h.locals.prev = some a → t.OnList a
  /-- The node that was found is still the one of the descriptor. -/
  found : ∀ next ∈ h.rest.head?, next = .link ∨ next = .writePath →
    h.locals.node = t.node? h.call.fd
  linked : .link ∉ h.rest → ∃ path, t.lookup h.call.fd = some (h.call.method, path)
  written : .writePath ∉ h.rest → t.Holds h.call.fd h.call.method h.call.name

namespace Handler.Inv

variable {t t' : FdTable} {h : Handler} {instr : Instr} {rest : List Instr} {r : Locals}

theorem of_keeps (hinv : h.Inv t) (honList : ∀ a, t.OnList a → t'.OnList a)
    (hnode : t'.node? h.call.fd = t.node? h.call.fd)
    (hlookup : t'.lookup h.call.fd = t.lookup h.call.fd) : h.Inv t' where
  suffix := hinv.suffix
  prev a ha := honList a (hinv.prev a ha)
  found next hnext hor := (hinv.found next hnext hor).trans hnode.symm
  linked hlink := hlookup ▸ hinv.linked hlink
  written hwrite := (hinv.written hwrite).of_lookup hlookup

theorem advance (hinv : h.Inv t) (hrest : h.rest = instr :: rest) (hlink : instr ≠ .link)
    (hwrite : instr ≠ .writePath) (hprev : ∀ a, r.prev = some a → t.OnList a)
    (hfound : instr = .walk h.call.fd → r.node = t.node? h.call.fd) :
    (⟨h.call, rest, r⟩ : Handler).Inv t := by
  have hsuffix := hinv.suffix
  rw [hrest] at hsuffix
  obtain ⟨-, -, hnext⟩ := Instr.next_of_suffix hsuffix
  refine ⟨(List.suffix_cons instr rest).trans hsuffix, hprev,
    fun next hmem hor => hfound (hnext next hmem hor), fun hnot => hinv.linked ?_,
    fun hnot => hinv.written ?_⟩
  · rw [hrest, List.mem_cons]
    exact not_or.mpr ⟨hlink.symm, hnot⟩
  · rw [hrest, List.mem_cons]
    exact not_or.mpr ⟨hwrite.symm, hnot⟩

end Handler.Inv

theorem FdTable.Valid.of_walk {t : FdTable} (hv : t.Valid) {c : OpenCall} {r r' : Locals}
    {t' : FdTable} {fd : CInt} (hprev : ∀ a, r.prev = some a → t.OnList a)
    (hexec : Instr.exec c t r (.walk fd) = some (t', r')) :
    t' = t ∧ r'.node = t.node? fd ∧ ∀ a, r'.prev = some a → t.OnList a := by
  obtain ⟨head, hhead, hexec⟩ := Option.bind_eq_some_iff.mp hexec
  obtain hnull | ⟨head', l, hw⟩ := hv
  · cases hnull.symm.trans hhead
  · obtain rfl := Option.some.inj (hhead.symm.trans hw.listHead)
    rw [search_eq _ hw.chain_next hw.length_le] at hexec
    obtain ⟨rfl, rfl⟩ := Prod.mk.inj (Option.some.inj hexec)
    refine ⟨rfl, (hw.node? fd).symm, fun a ha => ?_⟩
    rcases Option.or_eq_some_iff.mp ha with ha | ⟨-, ha⟩
    · have hmem := List.mem_of_getLast? ha
      exact ⟨head, l, hw, List.mem_cons_of_mem head ((List.takeWhile_sublist _).mem hmem)⟩
    · exact hprev a ha

theorem FdTable.exists_node {t : FdTable} {fd : CInt} {x : Ptr × Buf 512}
    (hl : t.lookup fd = some x) : ∃ a, t.node? fd = some a ∧ (t.mem a).method = x.1 := by
  obtain ⟨a, hn, hval⟩ := Option.map_eq_some_iff.mp hl
  exact ⟨a, hn, by rw [← hval]⟩

namespace Handler.Inv

variable {t t' : FdTable} {h : Handler} {rest : List Instr} {r : Locals}

theorem step_link (hv : t.Valid) (hinv : h.Inv t) (hrest : h.rest = .link :: rest)
    (hlast : h.locals.node = none → ∀ prev ∈ h.locals.prev, t.next prev = none)
    (hexec : Instr.exec h.call t h.locals .link = some (t', r)) :
    t.Keeps t' h.call.fd ∧ (⟨h.call, rest, r⟩ : Handler).Inv t' := by
  have hsuffix := hinv.suffix
  rw [hrest] at hsuffix
  obtain ⟨hnext, -, hfirst⟩ := Instr.next_of_suffix hsuffix
  have hnode := hinv.found .link (by rw [hrest]; rfl) (.inl rfl)
  obtain ⟨t₁, hlink, hexec⟩ := Option.bind_eq_some_iff.mp hexec
  obtain ⟨rfl, rfl⟩ := Prod.mk.inj (Option.some.inj hexec)
  have hkeeps : t.Keeps t₁ h.call.fd ∧
      ∃ path, t₁.lookup h.call.fd = some (h.call.method, path) := by
    cases hn : t.node? h.call.fd with
    | none =>
      rw [hnode, hn] at hlink
      obtain ⟨prev, hprev, -⟩ := Option.bind_eq_some_iff.mp hlink
      rw [hprev, FdTable.linkNode_none] at hlink
      obtain ⟨hkeeps, hl⟩ := (hinv.prev prev hprev).keeps_appended hn
        (hlast (hnode.trans hn) prev hprev) h.call.method
      exact Option.some.inj hlink ▸ ⟨hkeeps, _, hl⟩
    | some a =>
      rw [hnode, hn] at hlink
      obtain ⟨head, l, hw⟩ := hv.wf_of_node? hn
      refine Option.some.inj hlink ▸ ⟨hv.keeps_set hn rfl rfl, (t.mem a).path, ?_⟩
      rw [hw.lookup_set { t.mem a with method := h.call.method } rfl rfl hn, if_pos rfl]
  obtain ⟨hkeeps, path, hl⟩ := hkeeps
  refine ⟨hkeeps, (List.suffix_cons _ rest).trans hsuffix,
    fun a ha => hkeeps.onList a (hinv.prev a ha), fun next hmem hor => ?_, fun _ => ⟨path, hl⟩,
    fun hnot => ?_⟩
  · cases hfirst next hmem hor
  · rw [hnext rfl] at hnot
    simp [Instr.setServicePath] at hnot

theorem step_writePath (hv : t.Valid) (hinv : h.Inv t) (hrest : h.rest = .writePath :: rest)
    (hexec : Instr.exec h.call t h.locals .writePath = some (t', r)) :
    t.Keeps t' h.call.fd ∧ (⟨h.call, rest, r⟩ : Handler).Inv t' := by
  have hsuffix := hinv.suffix
  rw [hrest] at hsuffix
  obtain ⟨-, hnext, -⟩ := Instr.next_of_suffix hsuffix
  obtain rfl := hnext rfl
  obtain ⟨path, hl⟩ := hinv.linked (by rw [hrest]; simp)
  obtain ⟨a, hn, hmethod⟩ := FdTable.exists_node hl
  have hnode := (hinv.found .writePath (by rw [hrest]; rfl) (.inr rfl)).trans hn
  unfold Instr.exec at hexec
  rw [hnode] at hexec
  obtain ⟨path', hcopy, hexec⟩ := Option.bind_eq_some_iff.mp hexec
  obtain ⟨rfl, rfl⟩ := Prod.mk.inj (Option.some.inj hexec)
  obtain ⟨name, hname, hpath, -⟩ := Buf.cstr_of_strcpy hcopy
  obtain rfl := Option.some.inj (h.call.path_string.symm.trans hname)
  obtain ⟨head, l, hw⟩ := hv.wf_of_node? hn
  have hkeeps : t.Keeps (t.set a { t.mem a with path := path' }) h.call.fd :=
    hv.keeps_set hn rfl rfl
  have hl' : (t.set a { t.mem a with path := path' }).lookup h.call.fd =
      some (h.call.method, path') := by
    rw [hw.lookup_set { t.mem a with path := path' } rfl rfl hn, if_pos rfl, hmethod]
  exact ⟨hkeeps, List.nil_suffix, fun b hb => hkeeps.onList b (hinv.prev b hb), nofun,
    fun _ => ⟨path', hl'⟩, fun _ => ⟨path', hl', hpath⟩⟩

theorem step {instr : Instr} (hv : t.Valid) (hinv : h.Inv t) (hrest : h.rest = instr :: rest)
    (hinit : instr = .initList → h.locals.isNull = true → t.listHead = none)
    (hlast : instr = .link → h.locals.node = none → ∀ prev ∈ h.locals.prev, t.next prev = none)
    (hexec : instr.exec h.call t h.locals = some (t', r)) :
    t.Keeps t' h.call.fd ∧ (⟨h.call, rest, r⟩ : Handler).Inv t' := by
  cases instr with
  | link => exact step_link hv hinv hrest (hlast rfl) hexec
  | writePath => exact step_writePath hv hinv hrest hexec
  | testHead =>
    obtain ⟨rfl, rfl⟩ := Prod.mk.inj (Option.some.inj hexec)
    exact ⟨hv.keeps_self _, hinv.advance hrest nofun nofun hinv.prev nofun⟩
  | presetPrev =>
    obtain ⟨rfl, rfl⟩ := Prod.mk.inj (Option.some.inj hexec)
    refine ⟨hv.keeps_self _, hinv.advance hrest nofun nofun (fun a ha => ?_) nofun⟩
    rcases hv with hnull | ⟨head, l, hw⟩
    · cases hnull.symm.trans ha
    · obtain rfl := Option.some.inj (hw.listHead.symm.trans ha)
      exact ⟨head, l, hw, List.mem_cons_self⟩
  | walk fd =>
    obtain ⟨rfl, hnode, hprev⟩ := hv.of_walk hinv.prev hexec
    exact ⟨hv.keeps_self _, hinv.advance hrest nofun nofun hprev
      fun heq => by rw [hnode, Instr.walk.inj heq]⟩
  | initList =>
    obtain ⟨rfl, rfl⟩ := Prod.mk.inj (Option.some.inj hexec)
    have hadvance := hinv.advance hrest nofun nofun hinv.prev nofun
    split_ifs with hnull
    · have hhead := hinit rfl hnull
      have hkeeps := hv.keeps_initList hhead h.call.fd
      have hensure : t.ensureList = t.initList := if_pos hhead
      obtain ⟨-, -, -, hnode⟩ := hv.ensureList
      exact ⟨hkeeps, hadvance.of_keeps hkeeps.onList (hensure ▸ hnode _)
        (hensure ▸ hv.lookup_ensureList _)⟩
    · exact ⟨hv.keeps_self _, hadvance⟩

end Handler.Inv

/-! ## Runs -/

namespace Threads

variable {ι : Type} {calls : ι → OpenCall} {t₀ : FdTable} {s s' : Threads ι}

/-- Every handler is where its steps have brought it, and other descriptors are as before. -/
structure Inv (t₀ : FdTable) (calls : ι → OpenCall) (s : Threads ι) : Prop where
  valid : s.table.Valid
  call : ∀ i, (s.handlers i).call = calls i
  handler : ∀ i, (s.handlers i).Inv s.table
  others : ∀ fd, (∀ i, fd ≠ (calls i).fd) → s.table.lookup fd = t₀.lookup fd

theorem inv_start (hv : t₀.Valid) (calls : ι → OpenCall) : (start t₀ calls).Inv t₀ calls := by
  refine ⟨hv, fun _ => rfl, fun i => ⟨List.suffix_rfl, nofun, ?_, ?_, ?_⟩, fun _ _ => rfl⟩
  · rintro next hnext (rfl | rfl) <;> cases hnext
  · intro hnot
    exact absurd (by simp [start, Instr.wrapOpen, Instr.addNode]) hnot
  · intro hnot
    exact absurd (by simp [start, Instr.wrapOpen, Instr.setServicePath]) hnot

variable [DecidableEq ι]

theorem Inv.step (hdistinct : Function.Injective fun i => (calls i).fd)
    (hinv : s.Inv t₀ calls) {i : ι} (hok : s.Unraced i) (h : s.step i = some s') :
    s'.Inv t₀ calls := by
  unfold Threads.step at h
  cases hrest : (s.handlers i).rest with
  | nil => simp [hrest] at h
  | cons instr rest =>
    simp only [hrest] at h
    obtain ⟨⟨t, r⟩, hexec, h⟩ := Option.bind_eq_some_iff.mp h
    obtain rfl := Option.some.inj h
    obtain ⟨hinit, hlast⟩ := hok
    rw [hrest] at hinit hlast
    obtain ⟨hkeeps, hi⟩ := (hinv.handler i).step hinv.valid hrest (fun heq => hinit (heq ▸ rfl))
      (fun heq => hlast (heq ▸ rfl)) hexec
    refine ⟨hkeeps.valid, fun j => ?_, fun j => ?_, fun fd hfd => ?_⟩
    · dsimp only
      by_cases hj : j = i
      · rw [hj, Function.update_self]
        exact hinv.call i
      · rw [Function.update_of_ne hj]
        exact hinv.call j
    · dsimp only
      by_cases hj : j = i
      · rw [hj, Function.update_self]
        exact hi
      · rw [Function.update_of_ne hj]
        have hne : (s.handlers j).call.fd ≠ (s.handlers i).call.fd := by
          rw [hinv.call, hinv.call]
          exact hdistinct.ne hj
        exact (hinv.handler j).of_keeps hkeeps.onList (hkeeps.node _ hne) (hkeeps.lookup _ hne)
    · have hne : fd ≠ (s.handlers i).call.fd := by
        rw [hinv.call]
        exact hfd i
      exact (hkeeps.lookup fd hne).trans (hinv.others fd hfd)

theorem inv_run (hv : t₀.Valid) (hdistinct : Function.Injective fun i => (calls i).fd)
    {sched : List ι} (hok : Runs.Allowed step Unraced (start t₀ calls) sched)
    (hrun : Runs.run step (start t₀ calls) sched = some s) : s.Inv t₀ calls :=
  Runs.invariant_of_allowed (fun _ _ _ hinv hok h => hinv.step hdistinct hok h) hok
    (inv_start hv calls) hrun

/-- When nothing ever comes between a test and its consequence, each Open that has finished is
in the table, with its own method and path, and so is everything that was there before. -/
theorem registered_of_unraced (hv : t₀.Valid)
    (hdistinct : Function.Injective fun i => (calls i).fd) {sched : List ι}
    (hok : Runs.Allowed step Unraced (start t₀ calls) sched)
    (hrun : Runs.run step (start t₀ calls) sched = some s) :
    (∀ i, (s.handlers i).rest = [] →
      s.table.Holds (calls i).fd (calls i).method (calls i).name) ∧
    ∀ fd, (∀ i, fd ≠ (calls i).fd) → s.table.lookup fd = t₀.lookup fd := by
  have hinv := inv_run hv hdistinct hok hrun
  refine ⟨fun i hdone => ?_, hinv.others⟩
  rw [← hinv.call i]
  exact (hinv.handler i).written (by rw [hdone]; exact List.not_mem_nil)

/-! ## Two Opens -/

/-- One call for each of two threads: descriptors 3 and 4, the files `a` and `b`. -/
def twoCalls : Bool → OpenCall
  | false => ⟨0, 3, 0x2000, (Buf.zeros 512).splice 0 [97], [97], by decide +kernel⟩
  | true => ⟨0, 4, 0x2000, (Buf.zeros 512).splice 0 [98], [98], by decide +kernel⟩

/-- The second Open searches while the first one writes its path. -/
def overlapping : List Bool :=
  List.replicate 15 false ++ List.replicate 14 true ++ List.replicate 5 false ++
    List.replicate 6 true

theorem twoCalls_distinct : Function.Injective fun i => (twoCalls i).fd := by
  intro i j h
  cases i <;> cases j <;> first | rfl | exact absurd h (by decide)

theorem registered_of_unraced_two : ∃ s,
    Runs.run step (start Disk.table twoCalls) overlapping = some s ∧
    (∀ i, (s.handlers i).rest = []) ∧
    ((∀ i, (s.handlers i).rest = [] →
      s.table.Holds (twoCalls i).fd (twoCalls i).method (twoCalls i).name) ∧
    ∀ fd, (∀ i, fd ≠ (twoCalls i).fd) → s.table.lookup fd = Disk.table.lookup fd) := by
  obtain ⟨s, hs⟩ := Option.isSome_iff_exists.mp (by decide +kernel :
    (Runs.run step (start Disk.table twoCalls) overlapping).isSome)
  have hdone : (Runs.run step (start Disk.table twoCalls) overlapping).all fun s =>
    (s.handlers false).rest = [] ∧ (s.handlers true).rest = [] := by decide +kernel
  have hok : Runs.Allowed step Unraced (start Disk.table twoCalls) overlapping := by
    decide +kernel
  rw [hs] at hdone
  obtain ⟨hfalse, htrue⟩ := of_decide_eq_true hdone
  refine ⟨s, hs, fun i => ?_, registered_of_unraced (.inl rfl) twoCalls_distinct hok hs⟩
  cases i with
  | false => exact hfalse
  | true => exact htrue

/-- Both find the list empty, and the second link replaces the first. -/
def crossed : List Bool :=
  List.replicate 14 false ++ List.replicate 15 true ++ List.replicate 6 false ++
    List.replicate 5 true

/-- Descriptor 4 is lost. -/
theorem not_registered : ¬ ∀ (calls : Bool → OpenCall),
    Function.Injective (fun i => (calls i).fd) → ∀ sched s,
    Runs.run step (start Disk.table calls) sched = some s → (∀ i, (s.handlers i).rest = []) →
    ∀ i, s.table.Holds (calls i).fd (calls i).method (calls i).name := by
  intro hall
  obtain ⟨s, hs⟩ := Option.isSome_iff_exists.mp (by decide +kernel :
    (Runs.run step (start Disk.table twoCalls) crossed).isSome)
  have hdone : (Runs.run step (start Disk.table twoCalls) crossed).all fun s =>
    (s.handlers false).rest = [] ∧ (s.handlers true).rest = [] := by decide +kernel
  have hlost : (Runs.run step (start Disk.table twoCalls) crossed).all fun s =>
    (s.table.lookup 4).isNone := by decide +kernel
  rw [hs] at hdone hlost
  obtain ⟨hfalse, htrue⟩ := of_decide_eq_true hdone
  have hall' : ∀ i, (s.handlers i).rest = [] := fun i => by
    cases i with
    | false => exact hfalse
    | true => exact htrue
  obtain ⟨path, hl, -⟩ := hall twoCalls twoCalls_distinct crossed s hs hall' true
  have hnone : s.table.lookup (twoCalls true).fd = none := Option.isNone_iff_eq_none.mp hlost
  cases hnone.symm.trans hl

end Threads

end RemoteVfs
