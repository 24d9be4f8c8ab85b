import Mathlib.Data.Finset.Lattice.Fold
import Mathlib.Data.Fintype.Card
import Mathlib.Tactic

/-!
# Counting locks

Holders have a level each. Besides, someone keeps books: how many holders have a
lock at all, and the highest level. The levels are those of a lock with many readers
and one writer, who first announces itself and then waits for the readers to go.
-/

namespace Locking

/-! ## Levels and books -/

def shared : Nat := 1
def reserved : Nat := 2
def pending : Nat := 3
def exclusive : Nat := 4

/-- What the keeper of the locks remembers. -/
structure Ledger where
  holders : Int
  locks : Int
  top : Nat

variable {H : Type} [Fintype H]

/-- How many have a lock. -/
def count (level : H → Nat) : Int := (Finset.univ.filter fun h => shared ≤ level h).card

/-- The books are right, and no two locks are in conflict. -/
structure Accounts (L : Ledger) (level : H → Nat) : Prop where
  holders : L.holders = count level
  locks : L.locks = count level
  top : L.top = Finset.univ.sup level
  /-- At most one has more than a shared lock. -/
  one_writer : ∀ h h', h ≠ h' → reserved ≤ level h → level h' ≤ shared
  /-- Nobody has a lock besides an exclusive one. -/
  alone : ∀ h h', h ≠ h' → level h = exclusive → level h' = 0

/-- What may happen to one level and the books. -/
inductive Moves : Ledger → Nat → Nat → Ledger → Prop
  | stay (L : Ledger) (e : Nat) : Moves L e e L
  | share (L : Ledger) (h : L.top ≤ reserved) :
      Moves L 0 shared ⟨L.holders + 1, L.locks + 1, max L.top shared⟩
  | reserve (L : Ledger) (h : L.top = shared) : Moves L shared reserved { L with top := reserved }
  | announce (L : Ledger) (e : Nat) (he : shared ≤ e) (hle : e ≤ pending) (h : L.top = e) :
      Moves L e pending { L with top := pending }
  | exclude (L : Ledger) (e : Nat) (he : shared ≤ e) (hlt : e < exclusive) (h : L.top = e)
      (hone : L.holders ≤ 1) :
      Moves L e exclusive { L with top := exclusive }
  | lower (L : Ledger) (e : Nat) (he : reserved ≤ e) : Moves L e shared { L with top := shared }
  | release (L : Ledger) (e : Nat) (he : shared ≤ e) :
      Moves L e 0 ⟨L.holders - 1, L.locks - 1,
        if L.holders - 1 = 0 then 0 else if reserved ≤ e then shared else L.top⟩

/-! ## Counts and maxima -/

variable {L L' : Ledger} {level : H → Nat} {h : H} {e : Nat}

def holds (e : Nat) : Int := if shared ≤ e then 1 else 0

theorem count_eq_sum (level : H → Nat) : count level = ∑ h, holds (level h) := by
  rw [count, Finset.natCast_card_filter]
  rfl

theorem count_update [DecidableEq H] (level : H → Nat) (h : H) (e : Nat) :
    count (Function.update level h e) + holds (level h) =
    count level + holds e := by
  rw [count_eq_sum, count_eq_sum, ← Finset.add_sum_erase _ _ (Finset.mem_univ h),
    ← Finset.add_sum_erase _ (fun x => holds (level x)) (Finset.mem_univ h), Function.update_self]
  have hrest : ∑ x ∈ Finset.univ.erase h, holds (Function.update level h e x) =
      ∑ x ∈ Finset.univ.erase h, holds (level x) :=
    Finset.sum_congr rfl fun x hx => by
      rw [Function.update_of_ne (Finset.ne_of_mem_erase hx)]
  rw [hrest]
  omega

theorem exists_of_count_ne_zero (hc : count level ≠ 0) : ∃ h, shared ≤ level h := by
  by_contra hnone
  push Not at hnone
  refine hc ?_
  rw [count, Finset.filter_false_of_mem fun h _ => not_le.mpr (hnone h)]
  rfl

theorem eq_zero_of_count_eq_zero (hc : count level = 0) (h : H) : level h = 0 := by
  rw [count, Nat.cast_eq_zero, Finset.card_eq_zero] at hc
  have hnot : ¬ shared ≤ level h :=
    fun hle => Finset.eq_empty_iff_forall_notMem.mp hc h (by simpa using hle)
  exact Nat.lt_one_iff.mp (not_le.mp hnot)

theorem eq_zero_of_count_le_one (hc : count level ≤ 1) (he : shared ≤ level h) {h' : H}
    (hne : h' ≠ h) : level h' = 0 := by
  by_contra hpos
  have hmem : ∀ x, shared ≤ level x → x ∈ Finset.univ.filter fun h => shared ≤ level h :=
    fun x hx => by simpa using hx
  have hone : (Finset.univ.filter fun h => shared ≤ level h).card ≤ 1 := by
    rw [count] at hc
    exact_mod_cast hc
  exact hne (Finset.card_le_one.mp hone _ (hmem h' (Nat.pos_of_ne_zero hpos)) _ (hmem h he))

theorem eq_sup_iff {top : Nat} : top = Finset.univ.sup level ↔
    (∀ h, level h ≤ top) ∧ (top = 0 ∨ ∃ h, level h = top) := by
  constructor
  · rintro rfl
    refine ⟨fun h => Finset.le_sup (Finset.mem_univ h), ?_⟩
    rcases isEmpty_or_nonempty H with hempty | hne
    · exact .inl (Finset.sup_eq_bot_of_isEmpty level _)
    · obtain ⟨h, -, hh⟩ := Finset.exists_mem_eq_sup Finset.univ Finset.univ_nonempty level
      exact .inr ⟨h, hh.symm⟩
  · rintro ⟨hle, h0 | ⟨h, hh⟩⟩
    · refine le_antisymm (h0 ▸ Nat.zero_le _) (Finset.sup_le fun h _ => hle h)
    · exact le_antisymm (hh ▸ Finset.le_sup (Finset.mem_univ h))
        (Finset.sup_le fun h _ => hle h)

/-! ## What a move keeps -/

namespace Accounts

theorem none : Accounts ⟨0, 0, 0⟩ fun _ : H => 0 where
  holders := by simp [count_eq_sum, holds, shared]
  locks := by simp [count_eq_sum, holds, shared]
  top := eq_sup_iff.mpr ⟨fun _ => le_rfl, .inl rfl⟩
  one_writer _ _ _ he := absurd he (by decide)
  alone _ _ _ he := absurd he (by decide)

theorem le_top (h : Accounts L level) (x : H) : level x ≤ L.top :=
  (eq_sup_iff.mp h.top).1 x

theorem attained (h : Accounts L level) : L.top = 0 ∨ ∃ x, level x = L.top :=
  (eq_sup_iff.mp h.top).2

theorem holders_eq_zero (h : Accounts L level) (h0 : L.top = 0) : L.holders = 0 := by
  by_contra hne
  obtain ⟨x, hx⟩ := exists_of_count_ne_zero (h.holders ▸ hne)
  have := h.le_top x
  simp only [shared] at hx
  omega

theorem others_le_shared (h : Accounts L level) {x y : H} (hx : level x = L.top) (hne : y ≠ x) :
    level y ≤ shared := by
  by_contra hy
  have hle := h.le_top y
  have := h.one_writer y x hne (by simp only [shared, reserved] at *; omega)
  simp only [shared] at *
  omega

theorem of_update [DecidableEq H] (h : Accounts L level) {x : H}
    (hholders : L'.holders = L.holders - holds (level x) + holds e)
    (hlocks : L'.locks = L.locks - holds (level x) + holds e)
    (htop : (∀ y ≠ x, level y ≤ L'.top) ∧ e ≤ L'.top ∧
      (L'.top = 0 ∨ e = L'.top ∨ ∃ y ≠ x, level y = L'.top))
    (hwriter : reserved ≤ e → ∀ y ≠ x, level y ≤ shared)
    (halone : e = exclusive → ∀ y ≠ x, level y = 0)
    (hother : e ≠ 0 → ∀ y ≠ x, level y ≠ exclusive) :
    Accounts L' (Function.update level x e) := by
  have hcount := count_update level x e
  refine ⟨by rw [hholders, h.holders]; omega, by rw [hlocks, h.locks]; omega, ?_, ?_, ?_⟩
  · refine eq_sup_iff.mpr ⟨fun y => ?_, ?_⟩
    · by_cases hy : y = x
      · rw [hy, Function.update_self]
        exact htop.2.1
      · rw [Function.update_of_ne hy]
        exact htop.1 y hy
    · rcases htop.2.2 with h0 | htop | ⟨y, hy, htop⟩
      · exact .inl h0
      · exact .inr ⟨x, by rw [Function.update_self, htop]⟩
      · exact .inr ⟨y, by rw [Function.update_of_ne hy, htop]⟩
  · intro y z hne hy
    by_cases hyx : y = x
    · subst hyx
      rw [Function.update_self] at hy
      rw [Function.update_of_ne (Ne.symm hne)]
      exact hwriter hy z (Ne.symm hne)
    · rw [Function.update_of_ne hyx] at hy
      by_cases hzx : z = x
      · rw [hzx, Function.update_self]
        by_contra he
        have := hwriter (by simp only [shared, reserved] at *; omega) y hyx
        simp only [shared, reserved] at *
        omega
      · rw [Function.update_of_ne hzx]
        exact h.one_writer y z hne hy
  · intro y z hne hy
    by_cases hyx : y = x
    · subst hyx
      rw [Function.update_self] at hy
      rw [Function.update_of_ne (Ne.symm hne)]
      exact halone hy z (Ne.symm hne)
    · rw [Function.update_of_ne hyx] at hy
      by_cases hzx : z = x
      · rw [hzx, Function.update_self]
        by_contra he
        exact hother he y hyx hy
      · rw [Function.update_of_ne hzx]
        exact h.alone y z hne hy

theorem raise [DecidableEq H] (h : Accounts L level) {x : H} (hx : level x = L.top)
    (hheld : shared ≤ level x) (he : reserved ≤ e) (hle : level x ≤ e)
    (halone : e = exclusive → L.holders ≤ 1) :
    Accounts { L with top := e } (Function.update level x e) := by
  have hothers : ∀ y ≠ x, level y ≤ shared := fun y hy => h.others_le_shared hx hy
  have hheld' : holds (level x) = 1 := if_pos hheld
  have he' : holds e = 1 := if_pos (le_trans (by decide) he)
  refine h.of_update (by rw [hheld', he']; simp) (by rw [hheld', he']; simp)
    ⟨fun y _ => (h.le_top y).trans (hx ▸ hle), le_rfl, .inr (.inl rfl)⟩ (fun _ => hothers)
    (fun hex y hy => ?_) fun _ y hy hfour => ?_
  · exact eq_zero_of_count_le_one (h.holders ▸ halone hex) hheld hy
  · have := hothers y hy
    simp only [shared, exclusive] at *
    omega

theorem top_of_release [DecidableEq H] (h : Accounts L level) {x : H} (he : shared ≤ level x) :
    let top := if count (Function.update level x 0) = 0 then 0
      else if reserved ≤ level x then shared else L.top
    (∀ y ≠ x, level y ≤ top) ∧ 0 ≤ top ∧ (top = 0 ∨ 0 = top ∨ ∃ y ≠ x, level y = top) := by
  intro top
  refine ⟨?_, Nat.zero_le _, ?_⟩
  all_goals by_cases hc : count (Function.update level x 0) = 0
  · intro y hy
    have h0 := eq_zero_of_count_eq_zero hc y
    rw [Function.update_of_ne hy] at h0
    exact h0 ▸ Nat.zero_le _
  · intro y hy
    simp only [top, if_neg hc]
    split
    · next hw => exact h.one_writer x y (Ne.symm hy) hw
    · exact h.le_top y
  · exact .inl (if_pos hc)
  · simp only [top, if_neg hc]
    obtain ⟨y, hy⟩ := exists_of_count_ne_zero hc
    have hyx : y ≠ x := by
      rintro rfl
      rw [Function.update_self] at hy
      exact absurd hy (by decide)
    rw [Function.update_of_ne hyx] at hy
    split
    · next hw =>
      exact .inr (.inr ⟨y, hyx, le_antisymm (h.one_writer x y (Ne.symm hyx) hw) hy⟩)
    · next hw =>
      rcases h.attained with h0 | ⟨z, hz⟩
      · exact .inl h0
      · by_cases hzx : z = x
        · refine .inr (.inr ⟨y, hyx, ?_⟩)
          have := h.le_top y
          rw [hzx] at hz
          simp only [shared, reserved] at *
          omega
        · exact .inr (.inr ⟨z, hzx, hz⟩)

theorem moves [DecidableEq H] (h : Accounts L level) {x : H} (hm : Moves L (level x) e L') :
    Accounts L' (Function.update level x e) := by
  have hle := h.le_top
  generalize hx : level x = old at hm
  cases hm with
  | stay => rwa [← hx, Function.update_eq_self]
  | share htop =>
    have hfar : ∀ y, level y ≠ exclusive := fun y hy => by
      have := hle y
      simp only [reserved, exclusive] at *
      omega
    refine h.of_update (by rw [hx]; simp [holds, shared]) (by rw [hx]; simp [holds, shared])
      ⟨fun y _ => le_max_of_le_left (hle y), le_max_right _ _, ?_⟩ (absurd · (by decide))
      (absurd · (by decide)) fun _ y _ => hfar y
    rcases Nat.eq_zero_or_pos L.top with h0 | hpos
    · exact .inr (.inl (by rw [h0]; rfl))
    · obtain ⟨y, hy⟩ := h.attained.resolve_left (by omega)
      refine .inr (.inr ⟨y, fun hyx => ?_, hy.trans (max_eq_left hpos).symm⟩)
      rw [hyx, hx] at hy
      omega
  | reserve htop =>
    exact h.raise (hx.trans htop.symm) hx.ge le_rfl (hx.trans_le (by decide))
      (absurd · (by decide))
  | announce _ he hle' htop =>
    exact h.raise (hx.trans htop.symm) (hx ▸ he) (by decide) (hx.trans_le hle')
      (absurd · (by decide))
  | exclude _ he hlt htop hone =>
    exact h.raise (hx.trans htop.symm) (hx ▸ he) (by decide) (hx.trans_le hlt.le) fun _ => hone
  | lower _ he =>
    have hothers : ∀ y ≠ x, level y ≤ shared := fun y hy => h.one_writer x y (Ne.symm hy) (hx ▸ he)
    have hheld : holds (level x) = 1 := if_pos (hx ▸ le_trans (by decide) he)
    refine h.of_update (by rw [hheld]; simp [holds]) (by rw [hheld]; simp [holds])
      ⟨hothers, le_rfl, .inr (.inl rfl)⟩ (absurd · (by decide)) (absurd · (by decide))
      fun _ y hy hfour => ?_
    have := hothers y hy
    simp only [shared, exclusive] at *
    omega
  | release _ he =>
    have hheld : holds (level x) = 1 := if_pos (hx ▸ he)
    have hcount := count_update level x 0
    have hnone : holds 0 = 0 := if_neg (by decide)
    have hleft : L.holders - 1 = count (Function.update level x 0) := by
      rw [h.holders]
      omega
    rw [hleft, ← hx]
    refine h.of_update ?_ (by rw [hheld, hnone]; simp)
      (h.top_of_release (hx ▸ he)) (absurd · (by decide)) (absurd · (by decide))
      fun h0 => absurd rfl h0
    change count _ = _
    omega

end Accounts

end Locking
