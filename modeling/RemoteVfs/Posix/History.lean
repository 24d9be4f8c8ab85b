import RemoteVfs.Posix

/-!
# Histories of several processes

Only a process itself changes its descriptors and its locks. So what it owns follows from what it
has done, and what the others have done in between is of no account. That two processes do not both
own something is another matter, and a question to the kernel.

Histories and logs have the newest event first.
-/

open CMem

namespace Posix

/-- A system call about descriptors, locks and names, with its answer. A call on data is any that
leaves these alone. -/
inductive Syscall (F : Type)
  | setlk (h : Fd) (m : Option Mode) (r : Range) (answer : Except Errno Unit)
  | getlk (h : Fd) (m : Mode) (r : Range) (answer : Except Errno Bool)
  | close (h : Fd)
  | open_ (path : List Byte) (flags : Kernel.OpenFlags) (answer : Except Errno (Fd × F))
  | fstat (h : Fd) (answer : Except Errno F)
  | stat (path : List Byte) (answer : Except Errno F)
  | unlink (path : List Byte) (answer : Except Errno Unit)
  | data (h : Fd) (writes : Bool)
  deriving DecidableEq

def Syscall.writes {F : Type} : Syscall F → Bool
  | .data _ writes => writes
  | _ => false

/-! ## What a process owns -/

variable {P F : Type} [DecidableEq F]

/-- The file of each descriptor and whether it can be written, and the locks on each file. -/
@[ext]
structure Own (F : Type) where
  fd : Fd → Option (F × Bool)
  lock : F → Nat → Option Mode

namespace Own

/-- A successful `F_SETLK`. -/
def setlk (h : Fd) (m : Option Mode) (r : Range) (o : Own F) : Own F :=
  match o.fd h with
  | none => o
  | some (f, _) =>
    { o with lock := Function.update o.lock f fun b => if b ∈ r then m else o.lock f b }

def close (h : Fd) (o : Own F) : Own F :=
  match o.fd h with
  | none => o
  | some (f, _) => ⟨Function.update o.fd h none, Function.update o.lock f fun _ => none⟩

def act (o : Own F) : Syscall F → Own F
  | .setlk h m r (.ok _) => o.setlk h m r
  | .close h => o.close h
  | .open_ _ flags (.ok (h, f)) => { o with fd := Function.update o.fd h (some (f, flags.write)) }
  | _ => o

/-- After a log. -/
def of : List (Syscall F) → Own F
  | [] => ⟨fun _ => none, fun _ _ => none⟩
  | e :: log => (of log).act e

@[simp] theorem of_cons (e : Syscall F) (log : List (Syscall F)) :
    of (e :: log) = (of log).act e := rfl

variable {o : Own F} {h : Fd} {f f' : F} {w : Bool} {m : Option Mode} {r : Range} {b : Nat}

@[simp] theorem setlk_fd : (o.setlk h m r).fd = o.fd := by
  unfold setlk
  split <;> rfl

theorem setlk_lock (hfd : o.fd h = some (f, w)) :
    (o.setlk h m r).lock f' b = if f' = f ∧ b ∈ r then m else o.lock f' b := by
  unfold setlk
  simp only [hfd]
  by_cases hf : f' = f
  · subst hf
    simp
  · simp [hf]

theorem setlk_of_none (hfd : o.fd h = none) : o.setlk h m r = o := by
  unfold setlk
  rw [hfd]

theorem close_fd : (o.close h).fd = Function.update o.fd h none := by
  unfold close
  split
  · next hfd => exact (Function.update_eq_self_iff.mpr hfd.symm).symm
  · rfl

theorem close_lock (hfd : o.fd h = some (f, w)) :
    (o.close h).lock f' = if f' = f then fun _ => none else o.lock f' := by
  unfold close
  simp only [hfd]
  by_cases hf : f' = f
  · subst hf
    simp
  · simp [hf]

theorem close_of_none (hfd : o.fd h = none) : o.close h = o := by
  unfold close
  rw [hfd]

theorem lock_of_act {e : Syscall F} (hlock : (o.act e).lock f b ≠ none) :
    o.lock f b ≠ none ∨ ∃ h m r u w, e = .setlk h (some m) r (.ok u) ∧ o.fd h = some (f, w) ∧
      b ∈ r := by
  refine or_iff_not_imp_left.mpr fun hbefore => ?_
  rw [not_not] at hbefore
  cases e with
  | setlk h m r answer =>
    cases answer with
    | error e => exact absurd hbefore hlock
    | ok u =>
      rw [act] at hlock
      rcases hfd : o.fd h with _ | ⟨f', w⟩
      · rw [setlk_of_none hfd] at hlock
        exact absurd hbefore hlock
      · rw [setlk_lock hfd, hbefore] at hlock
        obtain ⟨rfl, hb, hm⟩ : f = f' ∧ b ∈ r ∧ m ≠ none := by simpa using hlock
        obtain ⟨m, rfl⟩ := Option.ne_none_iff_exists'.mp hm
        exact ⟨h, m, r, u, w, rfl, hfd, hb⟩
  | close h =>
    rw [act] at hlock
    rcases hfd : o.fd h with _ | ⟨f', w⟩
    · rw [close_of_none hfd] at hlock
      exact absurd hbefore hlock
    · rw [close_lock hfd] at hlock
      split at hlock
      · exact absurd rfl hlock
      · exact absurd hbefore hlock
  | open_ path flags answer => cases answer <;> exact absurd hbefore hlock
  | _ => exact absurd hbefore hlock

end Own

/-! ## The kernel's side -/

namespace Kernel

variable [DecidableEq P] {p q : P} {k k' : Kernel P F} {e : Syscall F}

/-- What the kernel has of a process. -/
def own (k : Kernel P F) (p : P) : Own F :=
  ⟨fun h => (k.fd p h).map fun o => (o.file, o.writable), fun f => k.locks f p⟩

/-- The kernel gives this answer, for some trouble or none. -/
def Does [Fintype P] (p : P) (k k' : Kernel P F) : Syscall F → Prop
  | .setlk h m r answer => ∃ trouble, { k with trouble }.setlk p h m r = (answer, k')
  | .getlk h m r answer => ∃ trouble, { k with trouble }.getlk p h m r = (answer, k')
  | .close h => k' = k.close p h
  | .open_ path flags (.ok (h, f)) => ∃ trouble,
    { k with trouble }.open_ p path flags = (.ok h, k') ∧ k'.Opens p h f
  | .open_ path flags (.error e) => ∃ trouble,
    { k with trouble }.open_ p path flags = (.error e, k')
  | .fstat h answer => ∃ statTrouble, { k with statTrouble }.fstat p h = (answer, k')
  | .stat path answer => ∃ trouble, { k with trouble }.stat path = (answer, k')
  | .unlink path answer => ∃ trouble, { k with trouble }.unlink path = (answer, k')
  | .data h writes => Kept k k' ∧ ∀ f, k'.data f ≠ k.data f → writes = true ∧ k.Opens p h f

omit [DecidableEq F] [DecidableEq P] in
theorem Kept.own_eq (hk : Kept k k') (p : P) : k'.own p = k.own p := by
  ext1
  · exact funext fun h => hk.target p h
  · rw [own, hk.locks, own]

omit [DecidableEq P] in
theorem own_setLocks {f : F} {t : Locks P} :
    ((k.setLocks f t).own p).fd = (k.own p).fd ∧
      ((k.setLocks f t).own p).lock = Function.update (k.own p).lock f (t p) := by
  refine ⟨rfl, funext fun f' => ?_⟩
  by_cases hf : f' = f
  · subst hf
    simp [own, setLocks]
  · simp [own, setLocks, hf]

omit [DecidableEq F] in
theorem own_setFd {h : Fd} {o : Option (Description F)} :
    ((k.setFd p h o).own p).fd =
      Function.update (k.own p).fd h (o.map fun o => (o.file, o.writable)) := by
  funext x
  by_cases hx : x = h
  · subst hx
    simp [own, setFd]
  · simp [own, setFd, hx]

omit [DecidableEq F] in
theorem own_setFd_of_ne {h : Fd} {o : Option (Description F)} (hq : q ≠ p) :
    (k.setFd p h o).own q = k.own q := by
  ext1
  · funext x
    simp [own, setFd, hq]
  · rfl

omit [DecidableEq P] in
theorem own_setLocks_of_eq {f : F} {t : Locks P} (ht : t q = k.locks f q) :
    (k.setLocks f t).own q = k.own q := by
  ext1
  · rfl
  · rw [own_setLocks.2, ht]
    exact Function.update_eq_self f _

variable [Fintype P]

theorem setlk_cases (p : P) (h : Fd) (m : Option Mode) (r : Range) (k : Kernel P F) :
    (∃ e, k.setlk p h m r = (.error e, k.next)) ∨
      ∃ o, k.fd p h = some o ∧ (∀ m', m = some m' → (k.locks o.file).Free p m' r) ∧
        k.setlk p h m r = (.ok (), k.next.setLocks o.file ((k.locks o.file).set p r m)) := by
  rcases onFd_cases p h _ k with ⟨e, he, -⟩ | ⟨t, o, hfd, ho⟩
  · exact .inl ⟨e, he⟩
  · cases m with
    | none => exact .inr ⟨o, hfd, nofun, ho⟩
    | some m =>
      by_cases hw : m = .write ∧ o.writable = false
      · exact .inl ⟨ebadf, ho.trans (if_pos hw)⟩
      · by_cases hfree : (k.locks o.file).Free p m r
        · refine .inr ⟨o, hfd, fun m' hm => Option.some.inj hm ▸ hfree, ho.trans ?_⟩
          exact (if_neg hw).trans (if_pos hfree)
        · exact .inl ⟨eagain, ho.trans ((if_neg hw).trans (if_neg hfree))⟩

theorem getlk_does {h : Fd} {r : Range} {locked : Bool} {f : F} {w : Bool}
    (hd : k.Does p k' (.getlk h .write r (.ok locked))) (hfd : (k.own p).fd h = some (f, w)) :
    locked = true ↔ ∃ q ≠ p, ∃ b ∈ r, k.locks f q b ≠ none := by
  obtain ⟨trouble, hd⟩ := hd
  obtain ⟨o, ho, heq⟩ := Option.map_eq_some_iff.mp hfd
  rcases onFd_cases p h _ { k with trouble } with ⟨e, he, -⟩ | ⟨t, o', ho', hok⟩
  · cases (Prod.mk.inj (he.symm.trans hd)).1
  · obtain rfl := Option.some.inj (ho.symm.trans ho')
    cases heq
    have hanswer := Except.ok.inj (Prod.mk.inj (hok.symm.trans hd)).1
    rw [← hanswer, decide_eq_true_iff]
    change ¬ (k.locks o.file).Free p .write r ↔ _
    constructor
    · intro hnot
      by_contra hnone
      refine hnot fun q hq i hi => .inl ?_
      by_contra hlock
      exact hnone ⟨q, hq, r.start + i, ⟨Nat.le_add_right _ _, Nat.add_lt_add_left hi _⟩, hlock⟩
    · rintro ⟨q, hq, b, hb, hlock⟩ hfree
      rcases hfree.apply hq hb with hnone | ⟨hread, -⟩
      · exact hlock hnone
      · cases hread

/-- What an event does to what the processes own, and to the peace between them. -/
structure Changes (p : P) (k k' : Kernel P F) (e : Syscall F) : Prop where
  self : k'.own p = (k.own p).act e
  others : ∀ q ≠ p, k'.own q = k.own q
  compatible : (∀ f, (k.locks f).Compatible) → ∀ f, (k'.locks f).Compatible

omit [DecidableEq P] [Fintype P] in
theorem Changes.of_kept (hk : Kept k k') (hact : (k.own p).act e = k.own p) :
    Changes p k k' e where
  self := by rw [hact, hk.own_eq]
  others q _ := hk.own_eq q
  compatible hc f := by
    rw [hk.locks]
    exact hc f

theorem changes_setlk {h : Fd} {m : Option Mode} {r : Range} {answer : Except Errno Unit}
    (hd : k.Does p k' (.setlk h m r answer)) : Changes p k k' (.setlk h m r answer) := by
  obtain ⟨trouble, hd⟩ := hd
  rcases setlk_cases p h m r { k with trouble } with ⟨e, he⟩ | ⟨o, hfd, hfree, ho⟩
  · obtain ⟨rfl, rfl⟩ := Prod.mk.inj (he.symm.trans hd)
    exact .of_kept ⟨fun _ _ => rfl, rfl, rfl, rfl⟩ rfl
  · obtain ⟨rfl, rfl⟩ := Prod.mk.inj (ho.symm.trans hd)
    have hown : (k.own p).fd h = some (o.file, o.writable) := by
      change (k.fd p h).map _ = _
      rw [hfd]
      rfl
    refine ⟨?_, fun q hq => own_setLocks_of_eq (k := k) (Locks.set_of_ne hq), fun hc f => ?_⟩
    · ext1
      · exact (Own.setlk_fd (o := k.own p)).symm
      · funext f' b
        change _ = ((k.own p).setlk h m r).lock f' b
        rw [own_setLocks.2, Own.setlk_lock hown]
        by_cases hf : f' = o.file
        · subst hf
          simp [Locks.set_self, own, next]
        · simp [hf, own, next]
    · by_cases hf : f = o.file
      · subst hf
        have hpeace : ((k.locks o.file).set p r m).Compatible := by
          cases m with
          | none => exact (hc _).unlock
          | some m => exact (hc _).lock (hfree m rfl)
        simpa [setLocks, next] using hpeace
      · simpa [setLocks, next, hf] using hc f

theorem changes_close {h : Fd} (hd : k.Does p k' (.close h)) : Changes p k k' (.close h) := by
  obtain rfl : k' = k.close p h := hd
  rcases hfd : k.fd p h with _ | o
  · have hown : (k.own p).fd h = none := by
      change (k.fd p h).map _ = _
      rw [hfd]
      rfl
    rw [close, hfd]
    exact .of_kept (.refl k) (Own.close_of_none hown)
  · have hown : (k.own p).fd h = some (o.file, o.writable) := by
      change (k.fd p h).map _ = _
      rw [hfd]
      rfl
    rw [close, hfd]
    refine ⟨?_, fun q hq => ?_, fun hc f => ?_⟩
    · ext1
      · rw [own_setLocks.1, own_setFd]
        exact Own.close_fd.symm
      · funext f' b
        change _ = ((k.own p).close h).lock f' b
        rw [own_setLocks.2, Own.close_lock hown]
        by_cases hf : f' = o.file
        · subst hf
          simp [Locks.drop]
        · simp [hf, own, setFd]
    · exact (own_setLocks_of_eq (k := k.setFd p h none) (Locks.drop_of_ne hq)).trans
        (own_setFd_of_ne hq)
    · by_cases hf : f = o.file
      · subst hf
        simpa [setLocks, setFd] using (hc _).drop
      · simpa [setLocks, setFd, hf] using hc f

omit [DecidableEq P] [DecidableEq F] [Fintype P] in
theorem lookup_keeps {path : List Byte} {flags : OpenFlags} {r : Except Errno F}
    (hk : k.lookup path flags = (r, k')) : k'.fd = k.fd ∧ k'.locks = k.locks := by
  unfold lookup at hk
  split at hk
  · split at hk
    all_goals
      cases hk
      exact ⟨rfl, rfl⟩
  · split at hk
    · cases hk
      exact ⟨rfl, rfl⟩
    · split at hk
      all_goals
        cases hk
        exact ⟨rfl, rfl⟩

omit [DecidableEq F] [Fintype P] in
theorem open_cases {path : List Byte} {flags : OpenFlags} {r : Except Errno Fd}
    (hk : k.open_ p path flags = (r, k')) :
    (∃ e, r = .error e ∧ k'.fd = k.fd ∧ k'.locks = k.locks) ∨
      ∃ h f, ∃ k₁ : Kernel P F, r = .ok h ∧ k.fd p h = none ∧ 0 ≤ h.toInt ∧ k₁.fd = k.fd ∧
        k₁.locks = k.locks ∧ k' = k₁.setFd p h (some ⟨f, 0, flags.write⟩) := by
  unfold open_ at hk
  split at hk
  · cases hk
    exact .inl ⟨_, rfl, rfl, rfl⟩
  · cases hk
    exact .inl ⟨_, rfl, rfl, rfl⟩
  · next h hfree _ =>
    rcases hl : k.next.lookup path flags with ⟨r₁, k₁⟩
    obtain ⟨hfd, hlocks⟩ := lookup_keeps hl
    rw [hl] at hk
    cases r₁ with
    | error e =>
      cases hk
      exact .inl ⟨e, rfl, hfd, hlocks⟩
    | ok f =>
      cases hk
      refine .inr ⟨h, f, k₁, rfl, ?_, ?_, hfd, hlocks, rfl⟩
      · simpa using List.find?_some hfree
      · obtain ⟨n, hn, rfl⟩ := List.mem_map.mp (List.mem_of_find?_eq_some hfree)
        have hlt : n < 1024 := by
          have := List.mem_range'_1.mp hn
          simp only [openMax] at this
          omega
        rw [BitVec.toInt_eq_toNat_of_lt (by rw [BitVec.toNat_ofNat]; omega)]
        exact Int.natCast_nonneg _

theorem changes_open {path : List Byte} {flags : OpenFlags} {answer : Except Errno (Fd × F)}
    (hd : k.Does p k' (.open_ path flags answer)) : Changes p k k' (.open_ path flags answer) := by
  cases answer with
  | error e =>
    obtain ⟨trouble, hd⟩ := hd
    rcases open_cases hd with ⟨e', -, hfd, hlocks⟩ | ⟨h, f, k₁, hr, -⟩
    · refine ⟨?_, fun q _ => ?_, fun hc => by rw [hlocks]; exact hc⟩
      · rw [own, hfd, hlocks]
        rfl
      · rw [own, hfd, hlocks]
        rfl
    · cases hr
  | ok hf =>
    obtain ⟨h, f⟩ := hf
    obtain ⟨trouble, hd, hopens⟩ := hd
    rcases open_cases hd with ⟨e', hr, -⟩ | ⟨h', f', k₁, hr, -, -, hfd, hlocks, rfl⟩
    · cases hr
    · cases hr
      obtain ⟨o, ho, rfl⟩ := hopens
      rw [setFd_self] at ho
      cases ho
      have hk₁ : ∀ q, k₁.own q = k.own q := fun q => by
        rw [own, hfd, hlocks]
        rfl
      refine ⟨?_, fun q hq => (own_setFd_of_ne hq).trans (hk₁ q), fun hc f => ?_⟩
      · ext1
        · rw [own_setFd, hk₁]
          rfl
        · change (k₁.own p).lock = (k.own p).lock
          rw [hk₁]
      · change (k₁.locks f).Compatible
        rw [hlocks]
        exact hc f

omit [DecidableEq F] [Fintype P] in
theorem open_data {path : List Byte} {flags : OpenFlags} {r : Except Errno Fd}
    (hk : k.open_ p path flags = (r, k')) : k'.data = k.data := by
  unfold open_ at hk
  split at hk
  · cases hk
    rfl
  · cases hk
    rfl
  · rcases hl : k.next.lookup path flags with ⟨r₁, k₁⟩
    have hdata : k₁.data = k.data := by
      unfold lookup at hl
      split at hl
      · split at hl <;> (cases hl; rfl)
      · split at hl
        · cases hl
          rfl
        · split at hl <;> (cases hl; rfl)
    rw [hl] at hk
    cases r₁ with
    | error e =>
      cases hk
      exact hdata
    | ok f =>
      cases hk
      exact hdata

theorem data_of_does (hd : k.Does p k' e) {f : F} (hf : k'.data f ≠ k.data f) :
    ∃ h, e = .data h true ∧ k.Opens p h f := by
  suffices hsame : (∃ h, e = .data h true ∧ k.Opens p h f) ∨ k'.data = k.data from
    hsame.resolve_right fun h => hf (congrFun h f)
  cases e with
  | setlk h m r answer =>
    obtain ⟨trouble, hd⟩ := hd
    rcases setlk_cases p h m r { k with trouble } with ⟨e, he⟩ | ⟨o, -, -, ho⟩
    · obtain ⟨-, rfl⟩ := Prod.mk.inj (he.symm.trans hd)
      exact .inr rfl
    · obtain ⟨-, rfl⟩ := Prod.mk.inj (ho.symm.trans hd)
      exact .inr rfl
  | getlk h m r answer =>
    obtain ⟨trouble, hd⟩ := hd
    rcases onFd_cases p h _ { k with trouble } with ⟨e, he, -⟩ | ⟨t, o, -, ho⟩
    · obtain ⟨-, rfl⟩ := Prod.mk.inj (he.symm.trans hd)
      exact .inr rfl
    · obtain ⟨-, rfl⟩ := Prod.mk.inj (ho.symm.trans hd)
      exact .inr rfl
  | close h =>
    obtain rfl : k' = k.close p h := hd
    refine .inr ?_
    unfold close
    split <;> rfl
  | open_ path flags answer =>
    cases answer with
    | error e =>
      obtain ⟨trouble, hd⟩ := hd
      have hdata := open_data hd
      exact .inr hdata
    | ok x =>
      obtain ⟨trouble, hd, -⟩ := hd
      have hdata := open_data hd
      exact .inr hdata
  | fstat h answer =>
    obtain ⟨statTrouble, hd⟩ := hd
    exact .inr (fstat_keeps p h _ hd).2.1
  | stat path answer =>
    obtain ⟨trouble, hd⟩ := hd
    unfold stat at hd
    split at hd <;> (cases hd; exact .inr rfl)
  | unlink path answer =>
    obtain ⟨trouble, hd⟩ := hd
    unfold unlink at hd
    split at hd <;> (cases hd; exact .inr rfl)
  | data h writes =>
    obtain ⟨rfl, hopens⟩ := hd.2 f hf
    exact .inl ⟨h, rfl, hopens⟩

theorem changes_of_does (hd : k.Does p k' e) : Changes p k k' e := by
  cases e with
  | setlk h m r answer => exact changes_setlk hd
  | getlk h m r answer =>
    obtain ⟨trouble, hd⟩ := hd
    rcases onFd_cases p h _ { k with trouble } with ⟨e, he, -⟩ | ⟨t, o, -, ho⟩
    · obtain ⟨-, rfl⟩ := Prod.mk.inj (he.symm.trans hd)
      exact .of_kept ⟨fun _ _ => rfl, rfl, rfl, rfl⟩ rfl
    · obtain ⟨-, rfl⟩ := Prod.mk.inj (ho.symm.trans hd)
      exact .of_kept ⟨fun _ _ => rfl, rfl, rfl, rfl⟩ rfl
  | close h => exact changes_close hd
  | open_ path flags answer => exact changes_open hd
  | fstat h answer =>
    obtain ⟨statTrouble, hd⟩ := hd
    have hkeeps := (fstat_keeps p h _ hd).1.toKept
    exact .of_kept ⟨hkeeps.target, hkeeps.locks, hkeeps.name, hkeeps.unborn⟩ rfl
  | stat path answer =>
    obtain ⟨trouble, hd⟩ := hd
    refine .of_kept ?_ rfl
    unfold stat at hd
    split at hd <;> (cases hd; exact ⟨fun _ _ => rfl, rfl, rfl, rfl⟩)
  | unlink path answer =>
    obtain ⟨trouble, hd⟩ := hd
    unfold unlink at hd
    split at hd <;> (cases hd; exact ⟨rfl, fun _ _ => rfl, fun hc => hc⟩)
  | data h writes => exact .of_kept hd.1 rfl

end Kernel

/-! ## Histories -/

/-- What one process has done of it. -/
def logOf [DecidableEq P] (p : P) (hist : List (P × Syscall F)) : List (Syscall F) :=
  (hist.filter fun e => e.1 = p).map Prod.snd

section

variable [DecidableEq P] {p q : P} {e : Syscall F} {hist : List (P × Syscall F)}

omit [DecidableEq F] in
@[simp] theorem logOf_self : logOf p ((p, e) :: hist) = e :: logOf p hist := by
  simp [logOf]

omit [DecidableEq F] in
@[simp] theorem logOf_of_ne (h : q ≠ p) : logOf p ((q, e) :: hist) = logOf p hist := by
  simp [logOf, h]

end

section

variable [DecidableEq P]

omit [DecidableEq F] in
theorem logOf_append (p : P) (new hist : List (P × Syscall F)) :
    logOf p (new ++ hist) = logOf p new ++ logOf p hist := by
  simp [logOf]

omit [DecidableEq F] in
theorem logOf_suffix (p : P) (x : P × Syscall F) (hist : List (P × Syscall F)) :
    logOf p hist <:+ logOf p (x :: hist) := by
  rw [← List.singleton_append, logOf_append]
  exact List.suffix_append _ _

/-- All along, a process has the locks on a file that it has had before. -/
def Keeps (p : P) (f : F) (hist new : List (P × Syscall F)) : Prop :=
  ∀ new₁, new₁ <:+ new →
    (Own.of (logOf p (new₁ ++ hist))).lock f = (Own.of (logOf p hist)).lock f

theorem keeps_of_others {p : P} {hist new : List (P × Syscall F)} (hnew : ∀ x ∈ new, x.1 ≠ p)
    (f : F) : Keeps p f hist new := by
  intro new₁ hsuffix
  have hnil : logOf p new₁ = [] := by
    rw [logOf, List.filter_eq_nil_iff.mpr fun x hx => by simpa using hnew x (hsuffix.subset hx)]
    rfl
  rw [logOf_append, hnil, List.nil_append]

end

/-- The kernel answers one process after the other. -/
inductive Happens [Fintype P] [DecidableEq P] (k₀ : Kernel P F) :
    List (P × Syscall F) → Kernel P F → Prop
  | nil : Happens k₀ [] k₀
  | cons {hist k k' p e} : Happens k₀ hist k → k.Does p k' e → Happens k₀ ((p, e) :: hist) k'

/-- No process has anything yet. -/
structure Kernel.Idle (k : Kernel P F) : Prop where
  fd : ∀ p h, k.fd p h = none
  locks : ∀ f p b, k.locks f p b = none

section

variable [Fintype P] [DecidableEq P] {k₀ k : Kernel P F} {hist : List (P × Syscall F)}

theorem Happens.own (hi : k₀.Idle) (h : Happens k₀ hist k) (p : P) :
    k.own p = Own.of (logOf p hist) := by
  induction h with
  | nil =>
    ext1
    · funext h
      simp [Kernel.own, hi.fd, Own.of, logOf]
    · funext f b
      exact hi.locks f p b
  | @cons hist k k' q e _ hd ih =>
    have hchanges := Kernel.changes_of_does hd
    by_cases hq : q = p
    · subst hq
      rw [logOf_self, Own.of_cons, ← ih, hchanges.self]
    · rw [logOf_of_ne hq, ← ih, hchanges.others p (Ne.symm hq)]

theorem Happens.append {k' : Kernel P F} {new : List (P × Syscall F)} (h : Happens k₀ hist k)
    (h' : Happens k new k') : Happens k₀ (new ++ hist) k' := by
  induction h' with
  | nil => exact h
  | cons _ hd ih => exact .cons ih hd

theorem Happens.compatible (hi : k₀.Idle) (h : Happens k₀ hist k) (f : F) :
    (k.locks f).Compatible := by
  induction h generalizing f with
  | nil => exact fun p q b _ hp => absurd ((hi.locks f p b).symm.trans hp) nofun
  | cons _ hd ih => exact (Kernel.changes_of_does hd).compatible ih f

end

/-! ## Replaying -/

section Replay

variable [Fintype P] [DecidableEq P]

/-- The result of a call, if the answer is right. -/
def answered {α : Type} [DecidableEq α] (answer : α) : α × Kernel P F → Option (Kernel P F)
  | (got, k) => if got = answer then some k else none

/-- The kernel after an event that there is no trouble with. -/
def Kernel.perform (p : P) (k : Kernel P F) : Syscall F → Option (Kernel P F)
  | .setlk h m r answer => answered answer ({ k with trouble := [] }.setlk p h m r)
  | .getlk h m r answer => answered answer ({ k with trouble := [] }.getlk p h m r)
  | .close h => some (k.close p h)
  | .open_ path flags (.ok (h, f)) => do
    let k' ← answered (.ok h) ({ k with trouble := [] }.open_ p path flags)
    if (k'.fd p h).map Description.file = some f then some k' else none
  | .open_ path flags (.error e) =>
    answered (.error e) ({ k with trouble := [] }.open_ p path flags)
  | .fstat h answer => answered answer ({ k with statTrouble := [] }.fstat p h)
  | .stat path answer => answered answer ({ k with trouble := [] }.stat path)
  | .unlink path answer => answered answer ({ k with trouble := [] }.unlink path)
  | .data _ _ => some k

def replay (k₀ : Kernel P F) : List (P × Syscall F) → Option (Kernel P F)
  | [] => some k₀
  | (p, e) :: hist => (replay k₀ hist).bind (·.perform p e)

theorem replay_append (k₀ : Kernel P F) (new hist : List (P × Syscall F)) :
    replay k₀ (new ++ hist) = (replay k₀ hist).bind (replay · new) := by
  induction new with
  | nil =>
    rw [List.nil_append]
    cases replay k₀ hist <;> rfl
  | cons x new ih =>
    rw [List.cons_append, replay, ih, Option.bind_assoc]
    rfl

omit [DecidableEq F] [Fintype P] [DecidableEq P] in
theorem eq_of_answered {α : Type} [DecidableEq α] {answer : α} {x : α × Kernel P F}
    {k' : Kernel P F} (h : answered answer x = some k') : x = (answer, k') := by
  unfold answered at h
  split at h
  split at h
  · next heq =>
    cases h
    rw [heq]
  · cases h

theorem Kernel.does_of_perform {p : P} {k k' : Kernel P F} {e : Syscall F}
    (h : k.perform p e = some k') : k.Does p k' e := by
  cases e with
  | setlk fd m r answer => exact ⟨[], eq_of_answered h⟩
  | getlk fd m r answer => exact ⟨[], eq_of_answered h⟩
  | close fd => exact (Option.some.inj h).symm
  | open_ path flags answer =>
    cases answer with
    | error e => exact ⟨[], eq_of_answered h⟩
    | ok x =>
      obtain ⟨k₁, hopen, hk⟩ := Option.bind_eq_some_iff.mp h
      split at hk
      · next hfile =>
        cases hk
        exact ⟨[], eq_of_answered hopen, Option.map_eq_some_iff.mp hfile⟩
      · cases hk
  | fstat fd answer => exact ⟨[], eq_of_answered h⟩
  | stat path answer => exact ⟨[], eq_of_answered h⟩
  | unlink path answer => exact ⟨[], eq_of_answered h⟩
  | data fd writes =>
    cases h
    exact ⟨.refl k, fun f hf => absurd rfl hf⟩

theorem happens_of_replay {k₀ k : Kernel P F} {hist : List (P × Syscall F)}
    (h : replay k₀ hist = some k) : Happens k₀ hist k := by
  induction hist generalizing k with
  | nil =>
    cases h
    exact .nil
  | cons x hist ih =>
    obtain ⟨k₁, hk₁, hk⟩ := Option.bind_eq_some_iff.mp h
    exact .cons (ih hk₁) (Kernel.does_of_perform hk)

end Replay

/-! ## A lock that is reached through a gate -/

/-- Before a process locks the range for the first time, it locks a byte. -/
structure Gate where
  byte : Nat
  range : Range

namespace Gate

/-- The range is locked through the gate, or again. -/
def Allows (g : Gate) (o : Own F) : Syscall F → Prop
  | .setlk h (some _) r (.ok _) => ∀ f w, o.fd h = some (f, w) → (∃ b ∈ r, b ∈ g.range) →
    o.lock f g.byte ≠ none ∨ ∃ b ∈ g.range, o.lock f b ≠ none
  | _ => True

def Guards (g : Gate) : List (Syscall F) → Prop
  | [] => True
  | e :: log => g.Guards log ∧ g.Allows (Own.of log) e

/-- Since all of the range has been write-locked, so has the gate. -/
def Closed (g : Gate) (f : F) : List (Syscall F) → Prop
  | [] => False
  | e :: log => (Own.of (e :: log)).lock f g.byte = some .write ∧
    (g.Closed f log ∨ ∀ b ∈ g.range, (Own.of (e :: log)).lock f b = some .write)

theorem Closed.byte {g : Gate} {f : F} {log : List (Syscall F)} (h : g.Closed f log) :
    (Own.of log).lock f g.byte = some .write := by
  cases log with
  | nil => exact h.elim
  | cons e log => exact h.1

variable [Fintype P] [DecidableEq P] {k₀ k : Kernel P F} {hist : List (P × Syscall F)} {g : Gate}
  {p q : P} {f : F}

/-- Behind a closed gate a process is alone, even when it has nothing left but the gate. -/
theorem Closed.alone (hi : k₀.Idle) (h : Happens k₀ hist k) (hg : ∀ p, g.Guards (logOf p hist))
    (hclosed : g.Closed f (logOf p hist)) (hq : q ≠ p) {b : Nat} (hb : b ∈ g.range) :
    (Own.of (logOf q hist)).lock f b = none := by
  induction h generalizing p q f b with
  | nil => exact hclosed.elim
  | @cons hist k k' x e hk hd ih =>
    have hafter := (hk.cons hd).compatible hi f
    have hown := (hk.cons hd).own hi
    have hbefore := hk.compatible hi f
    have hown₀ := hk.own hi
    have hg₀ : ∀ p, g.Guards (logOf p hist) := fun p => by
      have hp := hg p
      by_cases hx : x = p
      · subst hx
        rw [logOf_self] at hp
        exact hp.1
      · rwa [logOf_of_ne hx] at hp
    by_cases hx : x = p
    · subst hx
      rw [logOf_of_ne (Ne.symm hq)]
      rw [logOf_self] at hclosed
      rcases hclosed.2 with hstill | hall
      · exact ih hg₀ hstill hq hb
      · have hwrite := hall b hb
        rw [← logOf_self, ← hown] at hwrite
        have hnone := hafter x q b (Ne.symm hq) hwrite
        rw [← logOf_of_ne (Ne.symm hq) (e := e), ← hown]
        exact hnone
    · rw [logOf_of_ne hx] at hclosed
      by_cases hxq : x = q
      · subst hxq
        by_contra hlock
        rw [logOf_self] at hlock
        have hfree : ∀ b ∈ g.range, (Own.of (logOf x hist)).lock f b = none :=
          fun b hb => ih hg₀ hclosed hq hb
        rcases Own.lock_of_act hlock with hold | ⟨h, m, r, u, w, rfl, hfd, hbr⟩
        · exact hold (hfree b hb)
        · have hallows := (logOf_self (p := x) ▸ hg x).2 f w hfd ⟨b, hbr, hb⟩
          rcases hallows with hgate | ⟨b', hb', hlocked⟩
          · have hbyte := hclosed.byte
            rw [← hown₀] at hbyte hgate
            exact hgate (hbefore p x g.byte (Ne.symm hq) hbyte)
          · exact hlocked (hfree b' hb')
      · rw [logOf_of_ne hxq]
        exact ih hg₀ hclosed hq hb

omit [Fintype P] [DecidableEq P] in
theorem Guards.of_suffix {log log' : List (Syscall F)} (h : g.Guards log') (hlog : log <:+ log') :
    g.Guards log := by
  induction log' with
  | nil => exact List.suffix_nil.mp hlog ▸ h
  | cons e log' ih =>
    rcases List.suffix_cons_iff.mp hlog with rfl | hlog
    · exact h
    · exact ih h.1 hlog

variable {k' : Kernel P F} {new : List (P × Syscall F)}

/-- As long as the gate is locked for writing, nobody comes in. -/
theorem no_entry (hi : k₀.Idle) (h : Happens k₀ hist k) (h' : Happens k new k')
    (hg : ∀ p, g.Guards (logOf p (new ++ hist))) (hkeeps : Keeps p f hist new)
    (hbyte : (Own.of (logOf p hist)).lock f g.byte = some .write) (hq : q ≠ p)
    (hout : ∀ b ∈ g.range, (Own.of (logOf q hist)).lock f b = none) :
    ∀ b ∈ g.range, (Own.of (logOf q (new ++ hist))).lock f b = none := by
  induction h' with
  | nil => exact hout
  | @cons new k₁ k₂ x e hk hd ih =>
    have hkeeps₁ : Keeps p f hist new :=
      fun new₁ hnew₁ => hkeeps new₁ (hnew₁.trans (List.suffix_cons _ _))
    have hfree := ih (fun p => (hg p).of_suffix (logOf_suffix p (x, e) _)) hkeeps₁
    intro b hb
    by_cases hx : x = q
    · subst hx
      by_contra hlock
      rw [List.cons_append, logOf_self] at hlock
      rcases Own.lock_of_act hlock with hold | ⟨fd, m, r, u, w, rfl, hfd, hbr⟩
      · exact hold (hfree b hb)
      · have hgx := hg x
        rw [List.cons_append, logOf_self] at hgx
        rcases hgx.2 f w hfd ⟨b, hbr, hb⟩ with hin | ⟨b', hb', hlocked⟩
        · rw [← hkeeps₁ new List.suffix_rfl, ← (h.append hk).own hi] at hbyte
          rw [← (h.append hk).own hi] at hin
          exact hin ((h.append hk).compatible hi f p x g.byte (Ne.symm hq) hbyte)
        · exact hlocked (hfree b' hb')
    · rw [List.cons_append, logOf_of_ne hx]
      exact hfree b hb

/-- As long as a process has a lock in the range, and all others write behind the gate, the bytes of
the file stay. -/
theorem unchanged (hi : k₀.Idle) (h : Happens k₀ hist k) (h' : Happens k new k')
    (hg : ∀ p, g.Guards (logOf p (new ++ hist))) (hkeeps : Keeps p f hist new) {b : Nat}
    (hb : b ∈ g.range) (hin : (Own.of (logOf p hist)).lock f b ≠ none)
    (hwrites : ∀ q fd w new₁, (q, Syscall.data fd true) :: new₁ <:+ new →
      (Own.of (logOf q (new₁ ++ hist))).fd fd = some (f, w) →
      q ≠ p ∧ g.Closed f (logOf q (new₁ ++ hist))) :
    k'.data f = k.data f := by
  induction h' with
  | nil => rfl
  | @cons new k₁ k₂ x e hk hd ih =>
    have hg₁ : ∀ p, g.Guards (logOf p (new ++ hist)) :=
      fun p => (hg p).of_suffix (logOf_suffix p (x, e) _)
    have hkeeps₁ : Keeps p f hist new :=
      fun new₁ hnew₁ => hkeeps new₁ (hnew₁.trans (List.suffix_cons _ _))
    have hbefore := ih hg₁ hkeeps₁ fun q fd w new₁ hnew₁ =>
      hwrites q fd w new₁ (hnew₁.trans (List.suffix_cons _ _))
    by_contra hchanged
    rw [← hbefore] at hchanged
    obtain ⟨fd, rfl, o, ho, hfile⟩ := Kernel.data_of_does hd hchanged
    have hfd : (Own.of (logOf x (new ++ hist))).fd fd = some (f, o.writable) := by
      rw [← (h.append hk).own hi]
      change (k₁.fd x fd).map _ = _
      rw [ho, ← hfile]
      rfl
    obtain ⟨hx, hclosed⟩ := hwrites x fd _ new List.suffix_rfl hfd
    have hnone := hclosed.alone hi (h.append hk) hg₁ (Ne.symm hx) hb
    rw [hkeeps₁ new List.suffix_rfl] at hnone
    exact hin hnone

end Gate

end Posix
