import Mathlib.Data.List.TakeWhile
import RemoteVfs.Memory.Buf

/-!
# Linked lists in a heap

`next` gives the link of each cell. `Chain next a l` says that the links lead
from `a` through the cells `l` to NULL.
-/

namespace CMem

variable {α : Type} {next next' : α → Option α}

def Chain (next : α → Option α) : Option α → List α → Prop
  | a, [] => a = none
  | a, b :: l => a = some b ∧ Chain next (next b) l

/-! ## Changing links -/

namespace Chain

theorem congr {a : Option α} {l : List α} (h : Chain next a l)
    (heq : ∀ b ∈ l, next' b = next b) : Chain next' a l := by
  induction l generalizing a with
  | nil => exact h
  | cons b l ih =>
    refine ⟨h.1, ?_⟩
    rw [heq b List.mem_cons_self]
    exact ih h.2 fun c hc => heq c (List.mem_cons_of_mem b hc)

theorem append {a : Option α} {l : List α} {last new : α} (h : Chain next a (l ++ [last]))
    (heq : ∀ b ∈ l, next' b = next b) (hlast : next' last = some new) (hnew : next' new = none) :
    Chain next' a (l ++ [last] ++ [new]) := by
  induction l generalizing a with
  | nil => exact ⟨h.1, hlast, hnew⟩
  | cons b l ih =>
    refine ⟨h.1, ?_⟩
    rw [heq b List.mem_cons_self]
    exact ih h.2 fun c hc => heq c (List.mem_cons_of_mem b hc)

theorem remove {a : Option α} {l r : List α} {pre node : α}
    (h : Chain next a (l ++ pre :: node :: r)) (heq : ∀ b ∈ l ++ r, next' b = next b)
    (hpre : next' pre = next node) : Chain next' a (l ++ pre :: r) := by
  induction l generalizing a with
  | nil =>
    refine ⟨h.1, ?_⟩
    rw [hpre]
    exact h.2.2.congr heq
  | cons b l ih =>
    refine ⟨h.1, ?_⟩
    rw [heq b List.mem_cons_self]
    exact ih h.2 fun c hc => heq c (List.mem_cons_of_mem b hc)

theorem next_eq {a : Option α} {l r : List α} {pre node : α}
    (h : Chain next a (l ++ pre :: node :: r)) : next pre = some node := by
  induction l generalizing a with
  | nil => exact h.2.1
  | cons b l ih => exact ih h.2

theorem unique {a : Option α} {l m : List α} (h : Chain next a l) (h' : Chain next a m) :
    l = m := by
  induction l generalizing a m with
  | nil =>
    cases m with
    | nil => rfl
    | cons c m => exact absurd (h.symm.trans h'.1) (by simp)
  | cons b l ih =>
    cases m with
    | nil => exact absurd (h'.symm.trans h.1) (by simp)
    | cons c m =>
      have hbc : b = c := Option.some.inj (h.1.symm.trans h'.1)
      subst hbc
      rw [ih h.2 h'.2]

end Chain

/-! ## Walking along the links -/

/-- The first cell from `cur` on that `p` accepts, and the cell before it: `pre`
when it is the very first. `none` when the fuel runs out before the end. -/
def search (next : α → Option α) (p : α → Bool) :
    Nat → Option α → Option α → Option (Option α × Option α)
  | _, none, pre => some (none, pre)
  | 0, some _, _ => none
  | fuel + 1, some a, pre =>
    if p a then some (some a, pre) else search next p fuel (next a) (some a)

theorem search_eq (p : α → Bool) {cur : Option α} {l : List α} (h : Chain next cur l)
    {fuel : Nat} (hfuel : l.length ≤ fuel) (pre : Option α) :
    search next p fuel cur pre =
      some (l.find? p, (l.takeWhile fun a => !p a).getLast?.or pre) := by
  induction l generalizing cur fuel pre with
  | nil =>
    obtain rfl : cur = none := h
    simp [search]
  | cons b l ih =>
    obtain ⟨rfl, hl⟩ := h
    cases fuel with
    | zero => simp at hfuel
    | succ fuel =>
      rw [search]
      by_cases hb : p b = true
      · simp [hb]
      · rw [if_neg hb, ih hl (by simpa using hfuel)]
        have hb' : p b = false := by simpa using hb
        rw [List.find?_cons_of_neg (by simpa using hb'), List.takeWhile_cons_of_pos (by simp [hb']),
          List.getLast?_cons]
        cases (l.takeWhile fun a => !p a).getLast? <;> rfl

theorem length_le_of_nodup {l : List Nat} {n : Nat} (hd : l.Nodup) (h : ∀ a ∈ l, a < n) :
    l.length ≤ n := by
  rw [← List.toFinset_card_of_nodup hd]
  calc l.toFinset.card ≤ (Finset.range n).card := by
        apply Finset.card_le_card
        intro a ha
        exact Finset.mem_range.mpr (h a (List.mem_toFinset.mp ha))
    _ = n := Finset.card_range n

end CMem
