import Mathlib.Logic.Basic

/-! Systems driven by events, the states their runs reach, and the rules that carry
an invariant along a run. -/
namespace SeamlessStack.Lib

/-- What a system may start from and what events do; `none`: the event cannot happen there. -/
structure System (σ ε : Type*) where
  init : σ → Prop
  step : σ → ε → Option σ

namespace System
variable {σ ε : Type*} {M : System σ ε} {G : σ → ε → Prop} {I : σ → Prop} {s t : σ}

/-- The states of the runs that take only steps allowed by `G`. -/
inductive Reach (M : System σ ε) (G : σ → ε → Prop) : σ → Prop
  | init {s : σ} : M.init s → Reach M G s
  | step {s t : σ} {e : ε} : Reach M G s → G s e → M.step s e = some t → Reach M G t

def AnyStep : σ → ε → Prop := fun _ _ => True

instance (s : σ) (e : ε) : Decidable (AnyStep s e) := inferInstanceAs (Decidable True)

/-- Where the events lead, if each of them can happen and is allowed by `G`. -/
def run (M : System σ ε) (G : σ → ε → Prop) [∀ s e, Decidable (G s e)] : σ → List ε → Option σ
  | s, [] => some s
  | s, e :: es => if G s e then (M.step s e).bind fun t => M.run G t es else none

theorem run_cons_anyStep (s : σ) (e : ε) (es : List ε) :
    M.run AnyStep s (e :: es) = (M.step s e).bind fun t => M.run AnyStep t es :=
  if_pos trivial

theorem Reach.invariant (hinit : ∀ s, M.init s → I s)
    (hstep : ∀ s e t, M.Reach G s → I s → G s e → M.step s e = some t → I t)
    (hs : M.Reach G s) : I s := by
  induction hs with
  | init h => exact hinit _ h
  | step hr hg hst ih => exact hstep _ _ _ hr ih hg hst

theorem Reach.run [∀ s e, Decidable (G s e)] {es : List ε} (hs : M.Reach G s)
    (hr : M.run G s es = some t) : M.Reach G t := by
  induction es generalizing s with
  | nil =>
    have : s = t := Option.some.inj hr
    exact this ▸ hs
  | cons e es ih =>
    unfold System.run at hr
    split at hr
    · rename_i hG
      obtain ⟨u, hu, ht⟩ := Option.bind_eq_some_iff.mp hr
      exact ih (.step hs hG hu) ht
    · cases hr

/-- The state at the end of a run is reached, with what holds there. -/
theorem exists_reach [∀ s e, Decidable (G s e)] (es : List ε) (hinit : M.init s)
    (h : ∃ t, M.run G s es = some t ∧ I t) : ∃ t, M.Reach G t ∧ I t := by
  obtain ⟨t, ht, hi⟩ := h
  exact ⟨t, .run (.init hinit) ht, hi⟩

end System
end SeamlessStack.Lib
