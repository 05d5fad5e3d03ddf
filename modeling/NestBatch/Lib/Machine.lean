import Mathlib.Data.List.Induction
import Mathlib.Data.Option.Basic

/-!
# Runs of a machine

A machine takes inputs one after the other; an input it can not take in the state
at hand has no run.  What every input keeps, a run keeps (`run_keeps`), also when
it speaks of the inputs taken so far (`run_tracks`).
-/

/-- What an input does to a state; `none` when it can not come in that state. -/
structure Machine (σ ι : Type) where
  step : σ → ι → Option σ

namespace Machine

variable {σ ι : Type} (M : Machine σ ι)

/-- Where a list of inputs leads. -/
def run (s : σ) : List ι → Option σ
  | [] => some s
  | e :: es => (M.step s e).bind fun s' => run s' es

variable {M} {s s' s'' : σ} {e : ι} {es es' : List ι}

theorem run_append : M.run s (es ++ es') = (M.run s es).bind fun s' => M.run s' es' := by
  induction es generalizing s with
  | nil => rfl
  | cons e es ih =>
      rw [List.cons_append, run, run, Option.bind_assoc]
      exact congrArg _ (funext fun s' => ih)

theorem run_append_eq_some (h : M.run s (es ++ es') = some s'') :
    ∃ s', M.run s es = some s' ∧ M.run s' es' = some s'' := by
  rw [run_append] at h
  exact Option.bind_eq_some_iff.mp h

theorem run_trans (h : M.run s es = some s') (h' : M.run s' es' = some s'') :
    M.run s (es ++ es') = some s'' := by
  rw [run_append, h]
  exact h'

theorem run_cons (hstep : M.step s e = some s') (h : M.run s' es = some s'') :
    M.run s (e :: es) = some s'' := Option.bind_eq_some_iff.mpr ⟨s', hstep, h⟩

theorem run_cons_eq_some (h : M.run s (e :: es) = some s'') :
    ∃ s', M.step s e = some s' ∧ M.run s' es = some s'' := Option.bind_eq_some_iff.mp h

/-- **The rule of runs**, for what is said of a state and of the inputs that led to it. -/
theorem run_tracks {T : List ι → σ → Prop}
    (hstep : ∀ es s e s', T es s → M.step s e = some s' → T (es ++ [e]) s') {p : List ι}
    (h : T p s) (hrun : M.run s es = some s') : T (p ++ es) s' := by
  induction es generalizing s p with
  | nil =>
      cases hrun
      rw [List.append_nil]
      exact h
  | cons e es ih =>
      obtain ⟨s₁, hs₁, hrun⟩ := run_cons_eq_some hrun
      have hrest := ih (hstep p s e s₁ h hs₁) hrun
      rw [List.append_assoc] at hrest
      exact hrest

/-- **The rule of invariants.** -/
theorem run_keeps {P : σ → Prop} (hstep : ∀ s e s', P s → M.step s e = some s' → P s') (h : P s)
    (hrun : M.run s es = some s') : P s' :=
  run_tracks (T := fun _ => P) (p := []) (fun _ s e s' => hstep s e s') h hrun

theorem run_snoc (h : M.run s es = some s') (hstep : M.step s' e = some s'') :
    M.run s (es ++ [e]) = some s'' := by
  refine run_trans h ?_
  rw [run, hstep]
  rfl

theorem run_snoc_eq_some (h : M.run s (es ++ [e]) = some s'') :
    ∃ s', M.run s es = some s' ∧ M.step s' e = some s'' := by
  obtain ⟨s', hs', hlast⟩ := run_append_eq_some h
  obtain ⟨s₁, hs₁, hnil⟩ := run_cons_eq_some hlast
  cases hnil
  exact ⟨s', hs', hs₁⟩

/-- **When a property holds throughout a run**: exactly if every step is one that keeps it. -/
theorem throughout_iff {I P : σ → Prop} {G : σ → ι → Prop}
    (hinv : ∀ s e s', I s → M.step s e = some s' → I s')
    (hstep : ∀ s e s', I s → P s → M.step s e = some s' → (P s' ↔ G s e)) (hI : I s) (hP : P s)
    (es : List ι) : (∀ before s', before <+: es → M.run s before = some s' → P s') ↔
      ∀ before e s' s'', before ++ [e] <+: es → M.run s before = some s' →
        M.step s' e = some s'' → G s' e := by
  constructor
  · intro h before e s' s'' hpre hrun he
    have hbefore := h before s' ((List.prefix_append _ _).trans hpre) hrun
    have hafter := h (before ++ [e]) s'' hpre (run_snoc hrun he)
    exact (hstep s' e s'' (run_keeps hinv hI hrun) hbefore he).mp hafter
  · intro h before
    induction before using List.reverseRecOn with
    | nil =>
        intro s' _ hrun
        cases hrun
        exact hP
    | append_singleton before e ih =>
        intro s'' hpre hrun
        obtain ⟨s', hs', he⟩ := run_snoc_eq_some hrun
        have hbefore := ih s' ((List.prefix_append _ _).trans hpre) hs'
        have hkept := hstep s' e s'' (run_keeps hinv hI hs') hbefore he
        exact hkept.mpr (h before e s' s'' hpre hs' he)

end Machine
