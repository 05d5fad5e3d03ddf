import NestBatch.Lib.Congruence

/-!
# Answers that make no difference

An amendment replaces some answers of the operations.  A program that goes on in
the same way behind an answer and behind the amended one ignores the amendment: it
comes to the same end, in the same state and with the same operations, whichever of
the two it is given.
-/

namespace Prog

variable {ω : Type} {ρ : ω → Type} {ε α β σ : Type}

/-- An amendment of the answers. -/
abbrev Amendment (ω : Type) (ρ : ω → Type) := (o : ω) → ρ o → ρ o

/-- The program goes on in the same way behind an answer and behind the amended one. -/
def Ignores (f : Amendment ω ρ) : Prog ω ρ ε α → Prop
  | .pure _ => True
  | .throw _ => True
  | .spin => True
  | .op o k => ∀ r, k (f o r) = k r ∧ (k r).Ignores f

/-- The handler that gives the amended answers. -/
def Handler.amended (h : Handler ω ρ σ) (f : Amendment ω ρ) : Handler ω ρ σ :=
  fun o s => (f o (h o s).1, (h o s).2)

/-- The calls as if they had been given the amended answers. -/
def amendCalls (f : Amendment ω ρ) (calls : List (Call ω ρ)) : List (Call ω ρ) :=
  calls.map fun c => ⟨c.1, f c.1 c.2⟩

variable {f : Amendment ω ρ}

/-- **Amended answers make no difference** to a program that ignores them. -/
theorem Ignores.run_amended {p : Prog ω ρ ε α} (hp : p.Ignores f) (h : Handler ω ρ σ) (s : σ)
    (calls : List (Call ω ρ)) :
    p.run (h.amended f).traced (s, amendCalls f calls) =
      ((p.run h.traced (s, calls)).1, (p.run h.traced (s, calls)).2.1,
        amendCalls f (p.run h.traced (s, calls)).2.2) := by
  induction p generalizing s calls with
  | pure a => rfl
  | throw e => rfl
  | spin => rfl
  | op o k ih =>
      obtain ⟨hsame, hrest⟩ := hp (h o s).1
      have hlog : amendCalls f calls ++ [⟨o, f o (h o s).1⟩] =
          amendCalls f (calls ++ [⟨o, (h o s).1⟩]) := by
        unfold amendCalls
        rw [List.map_append]
        rfl
      change (k (f o (h o s).1)).run (h.amended f).traced
        ((h o s).2, amendCalls f calls ++ [⟨o, f o (h o s).1⟩]) = _
      rw [hsame, hlog]
      exact ih (h o s).1 hrest (h o s).2 _

section Closure

/-- Ignoring a change of answers is kept by sequence. -/
theorem Ignores.bind {p : Prog ω ρ ε α} {g : α → Prog ω ρ ε β} (hp : p.Ignores f)
    (hg : ∀ a, (g a).Ignores f) : (p >>= g).Ignores f := by
  induction p with
  | pure a => exact hg a
  | throw e => trivial
  | spin => trivial
  | op o k ih =>
      intro r
      obtain ⟨hsame, hrest⟩ := hp r
      exact ⟨congrArg (· >>= g) hsame, ih r hrest⟩

/-- Ignoring a change of answers is kept by a handler. -/
theorem Ignores.tryCatch {p : Prog ω ρ ε α} {g : ε → Prog ω ρ ε α} (hp : p.Ignores f)
    (hg : ∀ e, (g e).Ignores f) : (p.tryCatch g).Ignores f := by
  induction p with
  | pure a => trivial
  | throw e => exact hg e
  | spin => trivial
  | op o k ih =>
      intro r
      obtain ⟨hsame, hrest⟩ := hp r
      exact ⟨congrArg (fun q => q.tryCatch g) hsame, ih r hrest⟩

/-- Ignoring a change of answers is kept by an attempt. -/
theorem Ignores.attempt {p : Prog ω ρ ε α} (hp : p.Ignores f) : p.attempt.Ignores f := by
  induction p with
  | pure a => trivial
  | throw e => trivial
  | spin => trivial
  | op o k ih =>
      intro r
      obtain ⟨hsame, hrest⟩ := hp r
      exact ⟨congrArg Prog.attempt hsame, ih r hrest⟩

/-- Ignoring an amendment is preserved by every construct. -/
theorem closed_ignores (f : Amendment ω ρ) : Closed fun α (p : Prog ω ρ ε α) => p.Ignores f where
  pure _ := trivial
  throw _ := trivial
  spin := trivial
  bind := Ignores.bind
  tryCatch := Ignores.tryCatch
  attempt := Ignores.attempt

end Closure

end Prog
