import RemoteVfs.Memory.Bounds
import Mathlib.Order.Interval.Set.Basic

/-!
# Which bytes a function writes

A buffer that is filled over a content nobody knows shows none of it exactly when
every byte is written.
-/

namespace CMem

variable {n : Nat}

namespace Buf

theorem getElem?_splice (b : Buf n) {off : Nat} {src : List Byte} (h : off + src.length ≤ n)
    (i : Nat) : (b.splice off src).val[i]? =
      if off ≤ i ∧ i < off + src.length then src[i - off]? else b.val[i]? := by
  rw [splice_val b off src h]
  have hoff : (b.val.take off).length = off := by
    rw [List.length_take, b.property]
    omega
  grind

theorem ext_getElem? {b b' : Buf n} (h : ∀ i < n, b.val[i]? = b'.val[i]?) : b = b' := by
  refine Subtype.ext (List.ext_getElem? fun i => ?_)
  by_cases hi : i < n
  · exact h i hi
  · rw [List.getElem?_eq_none (by rw [b.property]; omega),
      List.getElem?_eq_none (by rw [b'.property]; omega)]

theorem getElem?_uninit (garbage : Nat → Byte) {i : Nat} (h : i < n) :
    (uninit garbage n).val[i]? = some (garbage i) := by
  simp [uninit, h]

end Buf

/-- `f` writes the bytes `I`, the same ones to any buffer, and no others. -/
structure Writes (f : Buf n → Option (Buf n)) (I : Set Nat) : Prop where
  answers : ∀ b b', (f b).isSome → (f b').isSome
  inside : ∀ b b' c c', f b = some c → f b' = some c' → ∀ i ∈ I, c.val[i]? = c'.val[i]?
  outside : ∀ b c, f b = some c → ∀ i ∉ I, c.val[i]? = b.val[i]?

namespace Writes

variable {f g : Buf n → Option (Buf n)} {I J : Set Nat}

theorem of_iff (h : Writes f I) (hiff : ∀ i, i ∈ I ↔ i ∈ J) : Writes f J := Set.ext hiff ▸ h

theorem write (off : Nat) (src : List Byte) :
    Writes (n := n) (·.write off src) (Set.Ico off (off + src.length)) := by
  refine ⟨fun b b' h => ?_, fun b b' c c' h h' i hi => ?_, fun b c h i hi => ?_⟩
  · rw [Buf.isSome_write] at h ⊢
    exact h
  · obtain ⟨hle, rfl⟩ := Buf.write_eq_some h
    obtain ⟨-, rfl⟩ := Buf.write_eq_some h'
    rw [Buf.getElem?_splice b hle, Buf.getElem?_splice b' hle, if_pos (Set.mem_Ico.mp hi),
      if_pos (Set.mem_Ico.mp hi)]
  · obtain ⟨hle, rfl⟩ := Buf.write_eq_some h
    rw [Buf.getElem?_splice b hle, if_neg fun h => hi (Set.mem_Ico.mpr h)]

theorem put {α : Type} [CType α] (off : Nat) (x : α) :
    Writes (n := n) (·.put off x) (Set.Ico off (off + sizeof α)) := by
  rw [← CType.length_toBytes x]
  exact write off (toBytes x)

theorem strcpy {src p : List Byte} (h : cstr src = some p) :
    Writes (n := n) (·.strcpy src) (Set.Ico 0 (p.length + 1)) := by
  have heq : ∀ b : Buf n, b.strcpy src = b.write 0 (p ++ [0]) := fun b => by
    rw [Buf.strcpy, h]
    rfl
  have hwrite := write (n := n) 0 (p ++ [0])
  simp only [List.length_append, List.length_singleton, Nat.zero_add] at hwrite
  simpa only [heq] using hwrite

theorem bind (hf : Writes f I) (hg : Writes g J) : Writes (fun b => (f b).bind g) (I ∪ J) := by
  refine ⟨fun b b' h => ?_, fun b b' c c' h h' i hi => ?_, fun b c h i hi => ?_⟩
  · obtain ⟨x, hx, hgx⟩ := isSome_bind_iff.mp h
    obtain ⟨x', hx'⟩ := Option.isSome_iff_exists.mp (hf.answers b b' (by rw [hx]; rfl))
    exact isSome_bind_iff.mpr ⟨x', hx', hg.answers x x' hgx⟩
  · obtain ⟨x, hx, hgx⟩ := Option.bind_eq_some_iff.mp h
    obtain ⟨x', hx', hgx'⟩ := Option.bind_eq_some_iff.mp h'
    by_cases hj : i ∈ J
    · exact hg.inside x x' c c' hgx hgx' i hj
    · rw [hg.outside x c hgx i hj, hg.outside x' c' hgx' i hj]
      exact hf.inside b b' x x' hx hx' i (hi.resolve_right hj)
  · obtain ⟨x, hx, hgx⟩ := Option.bind_eq_some_iff.mp h
    rw [hg.outside x c hgx i fun hj => hi (.inr hj)]
    exact hf.outside b x hx i fun hj => hi (.inl hj)

theorem of_bind {α : Type} {x : Option α} {f : α → Buf n → Option (Buf n)}
    (h : ∀ a, x = some a → Writes (f a) I) : Writes (fun b => x.bind fun a => f a b) I := by
  cases x with
  | none => exact ⟨fun _ _ h => h, nofun, nofun⟩
  | some a => exact h a rfl

theorem const (h : Writes f I) (hcover : ∀ i < n, i ∈ I) (b b' : Buf n) : f b = f b' := by
  cases hc : f b with
  | none =>
    cases hc' : f b' with
    | none => rfl
    | some c' =>
      have hsome := h.answers b' b (Option.isSome_of_eq_some hc')
      rw [hc] at hsome
      cases hsome
  | some c =>
    obtain ⟨c', hc'⟩ := Option.isSome_iff_exists.mp
      (h.answers b b' (Option.isSome_of_eq_some hc))
    rw [hc', Buf.ext_getElem? fun i hi => h.inside b b' c c' hc hc' i (hcover i hi)]

theorem copy_full {m off len : Nat} {src : Buf m} {α : Type} (h : n ≤ len) (f : Buf n → Option α)
    (b b' : Buf n) : ((src.read off len).bind fun data => (b.write 0 data).bind f) =
      (src.read off len).bind fun data => (b'.write 0 data).bind f := by
  refine Option.bind_congr fun data hdata => ?_
  obtain ⟨hle, rfl⟩ := Buf.read_eq_some hdata
  congr 1
  refine (write 0 _).const (fun i hi => ⟨Nat.zero_le i, ?_⟩) b b'
  rw [Buf.slice_length _ _ _ hle]
  omega

/-- What the buffer held shows through where nothing is written. -/
theorem cover_of_const (h : Writes f I) {b : Buf n} (hb : (f b).isSome)
    (hconst : ∀ b b', f b = f b') : ∀ i < n, i ∈ I := by
  intro i hi
  by_contra hni
  obtain ⟨c, hc⟩ := Option.isSome_iff_exists.mp hb
  have hshown : ∀ x : Byte, c.val[i]? = some x := fun x => by
    rw [h.outside _ c ((hconst (Buf.uninit (fun _ => x) n) b).trans hc) i hni,
      Buf.getElem?_uninit _ hi]
  exact absurd ((hshown 0).symm.trans (hshown 1)) (by decide)

end Writes

end CMem
