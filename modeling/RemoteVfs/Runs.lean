import Mathlib.Tactic

/-!
# Runs of a machine that can get stuck

`step s e` is `none` where event `e` cannot happen in state `s`. The rules below
turn what one step preserves into what a run preserves.
-/

namespace Runs

variable {S T E : Type} (step : S → E → Option S)

def run : S → List E → Option S
  | s, [] => some s
  | s, e :: es => (step s e).bind (run · es)

/-- Every event of the run meets `ok` in the state it happens in. -/
def Allowed (ok : S → E → Prop) : S → List E → Prop
  | _, [] => True
  | s, e :: es => ok s e ∧ ∀ s', step s e = some s' → Allowed ok s' es

instance decideAllowed {ok : S → E → Prop} [∀ s e, Decidable (ok s e)] :
    (s : S) → (es : List E) → Decidable (Allowed step ok s es)
  | _, [] => .isTrue trivial
  | s, e :: es =>
    match hm : step s e with
    | none => decidable_of_iff (ok s e)
      ⟨fun he => ⟨he, fun _ hs' => nomatch hm.symm.trans hs'⟩, fun h => h.1⟩
    | some m =>
      have : Decidable (Allowed step ok m es) := decideAllowed m es
      decidable_of_iff (ok s e ∧ Allowed step ok m es)
        ⟨fun h => ⟨h.1, fun _ hs' => Option.some.inj (hm.symm.trans hs') ▸ h.2⟩,
          fun h => ⟨h.1, h.2 m hm⟩⟩

/-- `P` holds in every state that the run passes through. -/
def Along (P : S → Prop) : S → List E → Prop
  | s, [] => P s
  | s, e :: es => P s ∧ ∀ s', step s e = some s' → Along P s' es

variable {step}

theorem run_cons_eq_some {s s' : S} {e : E} {es : List E} :
    run step s (e :: es) = some s' ↔ ∃ m, step s e = some m ∧ run step m es = some s' := by
  rw [run, Option.bind_eq_some_iff]

theorem Allowed.cons {ok : S → E → Prop} {s m : S} {e : E} {es : List E} (he : ok s e)
    (hm : step s e = some m) (hes : Allowed step ok m es) : Allowed step ok s (e :: es) :=
  ⟨he, fun _ hs' => Option.some.inj (hm.symm.trans hs') ▸ hes⟩

theorem Allowed.of_mem {ok : S → E → Prop} {es : List E} (h : ∀ e ∈ es, ∀ s, ok s e) (s : S) :
    Allowed step ok s es := by
  induction es generalizing s with
  | nil => trivial
  | cons e es ih =>
    exact ⟨h e (List.mem_cons_self ..) s, fun s' _ => ih (fun e he => h e (.tail _ he)) s'⟩

theorem Along.last {P : S → Prop} {s s' : S} {es : List E} (h : Along step P s es)
    (hrun : run step s es = some s') : P s' := by
  induction es generalizing s with
  | nil => exact Option.some.inj hrun ▸ h
  | cons e es ih =>
    obtain ⟨m, hm, hrun⟩ := run_cons_eq_some.mp hrun
    exact ih (h.2 m hm) hrun

theorem invariant_of_allowed {Inv : S → Prop} {ok : S → E → Prop}
    (hstep : ∀ s e s', Inv s → ok s e → step s e = some s' → Inv s')
    {s s' : S} {es : List E} (hok : Allowed step ok s es) (h : Inv s)
    (hrun : run step s es = some s') : Inv s' := by
  induction es generalizing s with
  | nil => exact Option.some.inj hrun ▸ h
  | cons e es ih =>
    obtain ⟨m, hm, hrun⟩ := run_cons_eq_some.mp hrun
    exact ih (hok.2 m hm) (hstep s e m h hok.1 hm) hrun

theorem invariant {Inv : S → Prop} (hstep : ∀ s e s', Inv s → step s e = some s' → Inv s')
    {s s' : S} {es : List E} (h : Inv s) (hrun : run step s es = some s') : Inv s' := by
  induction es generalizing s with
  | nil => exact Option.some.inj hrun ▸ h
  | cons e es ih =>
    obtain ⟨m, hm, hrun⟩ := run_cons_eq_some.mp hrun
    exact ih (hstep s e m h hm) hrun

/-- When `P` survives exactly the steps that meet `ok'`, it holds all along exactly
the runs that are made of such steps. -/
theorem along_iff_allowed {Inv P : S → Prop} {ok ok' : S → E → Prop}
    (hstep : ∀ s e s', Inv s → ok s e → P s → step s e = some s' → Inv s' ∧ (P s' ↔ ok' s e))
    {s s' : S} {es : List E} (hok : Allowed step ok s es) (h : Inv s) (hP : P s)
    (hrun : run step s es = some s') : Along step P s es ↔ Allowed step ok' s es := by
  induction es generalizing s with
  | nil => exact ⟨fun _ => trivial, fun _ => hP⟩
  | cons e es ih =>
    obtain ⟨m, hm, hrun⟩ := run_cons_eq_some.mp hrun
    obtain ⟨hInv, hiff⟩ := hstep s e m h hok.1 hP hm
    constructor
    · intro halong
      have hnext := halong.2 m hm
      have hPm : P m := by cases es with
        | nil => exact hnext
        | cons => exact hnext.1
      exact .cons (hiff.mp hPm) hm ((ih (hok.2 m hm) hInv hPm hrun).mp hnext)
    · intro hallowed
      refine ⟨hP, fun m' hm' => ?_⟩
      obtain rfl := Option.some.inj (hm.symm.trans hm')
      exact (ih (hok.2 _ hm) hInv (hiff.mpr hallowed.1) hrun).mpr (hallowed.2 _ hm)

theorem rel_mono {R Q : S → T → Prop} (h : ∀ s t, R s t → Q s t) :
    ∀ {x : Option S} {y : Option T}, Option.Rel R x y → Option.Rel Q x y
  | _, _, .none => .none
  | _, _, .some hR => .some (h _ _ hR)

/-- Two machines that answer each allowed step alike answer allowed runs alike. -/
theorem bisimulation {step' : T → E → Option T} {R : S → T → Prop} {ok : S → E → Prop}
    (hstep : ∀ s t e, R s t → ok s e → Option.Rel R (step s e) (step' t e))
    {s : S} {t : T} {es : List E} (hok : Allowed step ok s es) (h : R s t) :
    Option.Rel R (run step s es) (run step' t es) := by
  induction es generalizing s t with
  | nil => exact .some h
  | cons e es ih =>
    have he := hstep s t e h hok.1
    rw [run, run]
    cases hs : step s e with
    | none =>
      rw [hs] at he
      cases ht : step' t e with
      | none => exact .none
      | some t' => rw [ht] at he; cases he
    | some s' =>
      rw [hs] at he
      cases ht : step' t e with
      | none => rw [ht] at he; cases he
      | some t' =>
        rw [ht] at he
        cases he with
        | some hR => exact ih (hok.2 s' hs) hR

end Runs
