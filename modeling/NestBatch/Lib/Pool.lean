import Mathlib.Data.DFinsupp.WellFounded
import Mathlib.Logic.Function.Basic
import Mathlib.Order.WellFounded
import NestBatch.Lib.Wp

/-!
# Programs side by side

A pool is a family of programs over one shared state.  One step of it is one
operation of one of them; which one is up to the scheduler.  A program whose
operation has no transition in the shared state at hand waits.

An invariant of a pool that every step keeps holds in every state the pool can
come to; `Pool.invariant` is that induction, done once.  A program is a
well-founded tree, so finitely many of them do not go on for ever, and a pool
that never gets stuck early comes to its end (`Pool.completes`).
-/

namespace Prog

/-- What is left of a program after one of its operations. -/
inductive Next {ω : Type} {ρ : ω → Type} {ε α : Type} :
    Prog ω ρ ε α → Prog ω ρ ε α → Prop
  | op (o : ω) (k : ρ o → Prog ω ρ ε α) (r : ρ o) : Next (k r) (.op o k)

/-- What is left of code is smaller than the code. -/
theorem next_wellFounded {ω : Type} {ρ : ω → Type} {ε α : Type} :
    WellFounded (Next : Prog ω ρ ε α → Prog ω ρ ε α → Prop) := by
  constructor
  intro p
  induction p with
  | pure a => exact ⟨_, fun q h => by cases h⟩
  | throw e => exact ⟨_, fun q h => by cases h⟩
  | spin => exact ⟨_, fun q h => by cases h⟩
  | op o k ih =>
      constructor
      intro q h
      cases h with
      | op _ _ r => exact ih r

/-- Programs `threads i` over one state. -/
structure Pool (ι ω : Type) (ρ : ω → Type) (ε α σ : Type) where
  threads : ι → Prog ω ρ ε α
  shared : σ

namespace Pool

variable {ι ω : Type} {ρ : ω → Type} {ε α σ : Type} [DecidableEq ι]

/-- One operation of one program; its meaning may depend on who performs it. -/
inductive Step (trans : ι → (o : ω) → σ → ρ o → σ → Prop) :
    Pool ι ω ρ ε α σ → Pool ι ω ρ ε α σ → Prop
  | act {P : Pool ι ω ρ ε α σ} {i : ι} {o : ω} {k : ρ o → Prog ω ρ ε α} {r : ρ o} {s' : σ}
      (hthread : P.threads i = .op o k) (ht : trans i o P.shared r s') :
      Step trans P { threads := Function.update P.threads i (k r), shared := s' }

variable {trans : ι → (o : ω) → σ → ρ o → σ → Prop}

/-- What a pool can come to. -/
def Reaches (trans : ι → (o : ω) → σ → ρ o → σ → Prop) :
    Pool ι ω ρ ε α σ → Pool ι ω ρ ε α σ → Prop := Relation.ReflTransGen (Step trans)

/-- What every step keeps holds wherever the pool comes to. -/
theorem invariant {I : Pool ι ω ρ ε α σ → Prop} (hstep : ∀ P Q, I P → Step trans P Q → I Q)
    {P Q : Pool ι ω ρ ε α σ} (h : Reaches trans P Q) (hP : I P) : I Q := by
  induction h with
  | refl => exact hP
  | tail _ hlast ih => exact hstep _ _ ih hlast

/-- Every step brings one of the programs closer to its end. -/
theorem wellFounded [Finite ι] (trans : ι → (o : ω) → σ → ρ o → σ → Prop) :
    WellFounded fun Q P : Pool ι ω ρ ε α σ => Step trans P Q := by
  have hlex := Pi.Lex.wellFounded (WellOrderingRel (α := ι))
    fun _ => (next_wellFounded : WellFounded (Next : Prog ω ρ ε α → _ → Prop))
  refine Subrelation.wf ?_ (InvImage.wf Pool.threads hlex)
  intro Q P h
  cases h with
  | @act i o k r s' hthread ht =>
      refine ⟨i, ?_, ?_⟩
      · intro j hj
        have hji : j ≠ i := by
          intro heq
          rw [heq] at hj
          exact irrefl _ hj
        exact Function.update_of_ne hji _ _
      · simp only [Function.update_self, hthread]
        exact .op o k r

/-- No run of finitely many programs goes on for ever. -/
theorem no_endless_run [Finite ι] (f : Nat → Pool ι ω ρ ε α σ) :
    ¬ ∀ n, Step trans (f n) (f (n + 1)) := by
  intro h
  have hempty := wellFounded_iff_isEmpty_descending_chain.mp
    (wellFounded trans : WellFounded fun Q P : Pool ι ω ρ ε α σ => Step trans P Q)
  exact hempty.false ⟨f, h⟩

/-- A pool that can step until it is done can be run until it is done. -/
theorem completes [Finite ι] {I D : Pool ι ω ρ ε α σ → Prop}
    (hkeep : ∀ P Q, I P → Step trans P Q → I Q) (hlive : ∀ P, I P → ¬ D P → ∃ Q, Step trans P Q)
    {P : Pool ι ω ρ ε α σ} (hP : I P) : ∃ Q, Reaches trans P Q ∧ D Q := by
  induction P using (wellFounded trans).induction with
  | h P ih =>
      by_cases hdone : D P
      · exact ⟨P, .refl, hdone⟩
      · obtain ⟨Q, hstep⟩ := hlive P hP hdone
        obtain ⟨R, hreach, hR⟩ := ih Q hstep (hkeep P Q hP hstep)
        exact ⟨R, .head hstep hreach, hR⟩

section Separate

variable {τ : Type}

/-- The meaning of the operations where every program has a state of its own. -/
def separately (L : ι → Logic ω ρ τ) (i : ι) (o : ω) (s : ι → τ) (r : ρ o) (s' : ι → τ) : Prop :=
  ∃ t', (L i).trans o (s i) r t' ∧ s' = Function.update s i t'

variable {L : ι → Logic ω ρ τ} {P Q : Pool ι ω ρ ε α (ι → τ)}
variable {post : ι → Except ε α → τ → Prop}

end Separate

end Pool

end Prog
