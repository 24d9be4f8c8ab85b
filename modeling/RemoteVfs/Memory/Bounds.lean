import RemoteVfs.Memory.Buf

/-!
# Chains of accesses

When every access stays inside: `isSome` of a chain, as a bound on the sizes.
-/

namespace CMem

section Bind

variable {α β γ : Type} {x : Option α} {f : α → Option β}

theorem bind_bind_eq {b : β} (h : x.bind f = some b) (g : β → Option γ) :
    (x.bind fun a => (f a).bind g) = g b := by
  rw [← Option.bind_assoc, h, Option.bind_some]

theorem isSome_bind_iff : (x.bind f).isSome ↔ ∃ a, x = some a ∧ (f a).isSome := by
  cases x <;> simp

theorem isSome_bind {Q : Prop} (h : ∀ a, x = some a → ((f a).isSome ↔ Q)) :
    (x.bind f).isSome ↔ x.isSome ∧ Q := by
  cases x with
  | none => simp
  | some a => simpa using h a rfl

theorem exists_some_iff {P : α → Prop} :
    (∃ a, x = some a ∧ P a) ↔ x.isSome ∧ ∀ a, x = some a → P a := by
  cases x <;> simp

end Bind

theorem isSome_cstr {l : List Byte} : (cstr l).isSome ↔ 0 ∈ l := by
  induction l with
  | nil => simp [cstr]
  | cons b l ih =>
    unfold cstr
    by_cases hb : b = 0
    · simp [hb]
    · rw [if_neg hb, Option.isSome_map, ih, List.mem_cons]
      exact (or_iff_right fun h => hb h.symm).symm

namespace Buf

variable {n k off len : Nat} {b : Buf n} {src : List Byte} {α : Type} [CType α] {x : α}

@[simp] theorem isSome_read : (b.read off len).isSome ↔ off + len ≤ n := by
  unfold read
  split <;> simp_all

@[simp] theorem isSome_write : (b.write off src).isSome ↔ off + src.length ≤ n := by
  unfold write
  split <;> simp_all

@[simp] theorem isSome_get : (b.get α off).isSome ↔ off + sizeof α ≤ n := by
  unfold get
  rw [Option.isSome_map, isSome_read]

@[simp] theorem isSome_put : (b.put off x).isSome ↔ off + sizeof α ≤ n := by
  unfold put
  rw [isSome_write, CType.length_toBytes]

@[simp] theorem isSome_take : (b.take k).isSome ↔ k ≤ n := by
  unfold take
  split <;> simp_all

@[simp] theorem isSome_strcpy : (b.strcpy src).isSome ↔ 0 ∈ src.take n := by
  rw [← isSome_cstr, Option.isSome_iff_exists, Option.isSome_iff_exists]
  constructor
  · rintro ⟨b', hb⟩
    obtain ⟨p, hp, -⟩ := strcpy_eq_some.mp hb
    exact ⟨p, hp⟩
  · rintro ⟨p, hp⟩
    exact ⟨_, strcpy_eq_some.mpr ⟨p, hp, rfl⟩⟩

theorem cstr_of_strcpy {b' : Buf n} (h : b.strcpy src = some b') : ∃ p, cstr src = some p ∧
    cstr b'.val = some p ∧ p.length + 1 ≤ n := by
  obtain ⟨p, hp, rfl⟩ := strcpy_eq_some.mp h
  obtain ⟨hp, hlen⟩ := cstr_take.mp hp
  exact ⟨p, hp, cstr_splice b (cstr_eq_some hp).1 hlen, hlen⟩

/-- Only the string counts of what a `strcpy` leaves. -/
theorem bind_strcpy {β : Type} {f : Buf n → Option β} {g : List Byte → Option β}
    (h : ∀ b' p, cstr b'.val = some p → f b' = g p) :
    (b.strcpy src).bind f = (cstr (src.take n)).bind g := by
  cases hcopy : b.strcpy src with
  | none =>
    cases hp : cstr (src.take n) with
    | none => rfl
    | some p =>
      rw [strcpy_eq_some.mpr ⟨p, hp, rfl⟩] at hcopy
      cases hcopy
  | some b' =>
    obtain ⟨p, hsrc, hp, hlen⟩ := cstr_of_strcpy hcopy
    rw [cstr_take.mpr ⟨hsrc, hlen⟩, Option.bind_some, Option.bind_some, h b' p hp]

theorem uninit_eq (b : Buf n) (off : Nat) :
    ∃ garbage : Nat → Byte, uninit (fun i => garbage (off + i)) n = b := by
  refine ⟨fun i => b.val.getD (i - off) 0, Subtype.ext (List.ext_getElem ?_ fun i h₁ h₂ => ?_)⟩
  · simp [uninit, b.property]
  · simp [uninit, h₂]

end Buf

end CMem
