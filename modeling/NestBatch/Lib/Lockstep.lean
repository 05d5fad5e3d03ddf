/-!
# Two machines in step

A machine that answers calls, and a second one that may have a choice.  If every
call keeps them related and gets corresponding answers, so does every list of
calls.
-/

namespace Lockstep

variable {σ τ ω ω' β β' : Type}

/-- The answers to a list of calls, and the state behind the last. -/
def run (step : σ → ω → β × σ) : σ → List ω → List β × σ
  | s, [] => ([], s)
  | s, call :: calls =>
      ((step s call).1 :: (run step (step s call).2 calls).1, (run step (step s call).2 calls).2)

/-- A run of a machine that may have a choice. -/
inductive Runs (trans : τ → ω' → β' → τ → Prop) : τ → List ω' → List β' → τ → Prop
  | nil (t : τ) : Runs trans t [] [] t
  | cons {t t' t'' : τ} {call : ω'} {calls : List ω'} {answer : β'} {answers : List β'} :
      trans t call answer t' → Runs trans t' calls answers t'' →
      Runs trans t (call :: calls) (answer :: answers) t''

/-- What every call keeps, a run keeps. -/
theorem Runs.keeps {trans : τ → ω' → β' → τ → Prop} {P : τ → Prop} {t t' : τ} {calls : List ω'}
    {answers : List β'} (h : Runs trans t calls answers t')
    (hstep : ∀ t call answer t', P t → trans t call answer t' → P t') (ht : P t) : P t' := by
  induction h with
  | nil t => exact ht
  | cons hfirst _ ih => exact ih (hstep _ _ _ _ ht hfirst)

/-- Every call is made in a state that allows it. -/
def Allowed (step : σ → ω → β × σ) (allows : σ → ω → Prop) : σ → List ω → Prop
  | _, [] => True
  | s, call :: calls => allows s call ∧ Allowed step allows (step s call).2 calls

/-- The second machine does what the first does, on the calls that the first allows; `f` and `g`
translate calls and answers. -/
structure Simulates (step : σ → ω → β × σ) (trans : τ → ω' → β' → τ → Prop)
    (allows : σ → ω → Prop) (R : σ → τ → Prop) (f : ω → ω') (g : β → β') : Prop where
  keeps : ∀ s t call answer t', R s t → allows s call → trans t (f call) answer t' →
    answer = g (step s call).1 ∧ R (step s call).2 t'
  answers : ∀ s t call, R s t → ∃ answer t', trans t (f call) answer t'

variable {step : σ → ω → β × σ} {trans : τ → ω' → β' → τ → Prop} {allows : σ → ω → Prop}
  {R : σ → τ → Prop} {f : ω → ω'} {g : β → β'}

/-- Every run gets the corresponding answers. -/
theorem Simulates.run_answers (h : Simulates step trans allows R f g) {s : σ} {t t' : τ}
    {calls : List ω} {answers : List β'} (hR : R s t) (hallowed : Allowed step allows s calls)
    (hruns : Runs trans t (calls.map f) answers t') :
    answers = (run step s calls).1.map g ∧ R (run step s calls).2 t' := by
  induction calls generalizing s t answers with
  | nil =>
      cases hruns
      exact ⟨rfl, hR⟩
  | cons call calls ih =>
      cases hruns with
      | cons hstep hrest =>
          obtain ⟨hanswer, hR'⟩ := h.keeps _ _ _ _ _ hR hallowed.1 hstep
          obtain ⟨hanswers, hlast⟩ := ih hR' hallowed.2 hrest
          rw [hanswer, hanswers]
          exact ⟨rfl, hlast⟩

/-- There is such a run. -/
theorem Simulates.exists_run (h : Simulates step trans allows R f g) {s : σ} {t : τ}
    {calls : List ω} (hR : R s t) (hallowed : Allowed step allows s calls) :
    ∃ answers t', Runs trans t (calls.map f) answers t' := by
  induction calls generalizing s t with
  | nil => exact ⟨[], t, .nil t⟩
  | cons call calls ih =>
      obtain ⟨answer, t', hstep⟩ := h.answers s t call hR
      obtain ⟨answers, t'', hrest⟩ := ih (h.keeps _ _ _ _ _ hR hallowed.1 hstep).2 hallowed.2
      exact ⟨answer :: answers, t'', .cons hstep hrest⟩

end Lockstep
