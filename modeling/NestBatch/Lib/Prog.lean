import Mathlib.Init

/-!
# Effectful programs as operation trees

A program is a tree: it returns, it throws, or it performs an operation of a
signature `ω` and continues with the answer.  The answer type `ρ o` depends on
the operation.  Nothing is executed here: a tree is what a function of an
asynchronous, exception-throwing language does between two awaits, laid out
once and for all, so that the same definition can be run from start to end,
cut at any point, or interleaved with others.

A fourth leaf, `spin`, marks a loop whose fuel ran out.  It can not be caught:
a program that has reached it is still looping, not failing.

`Prog.Uses` says that every operation a program can perform lies in a footprint;
it is the cheapest way to see that a program leaves something alone.
-/

/-- Programs over the operations `ω` with answers `ρ`, throwing `ε`. -/
inductive Prog (ω : Type) (ρ : ω → Type) (ε : Type) (α : Type) : Type
  | pure (a : α)
  | throw (e : ε)
  | spin
  | op (o : ω) (k : ρ o → Prog ω ρ ε α)

namespace Prog

variable {ω : Type} {ρ : ω → Type} {ε α β γ : Type}

/-- Sequencing: an exception or a spinning loop skips the continuation. -/
def bind : Prog ω ρ ε α → (α → Prog ω ρ ε β) → Prog ω ρ ε β
  | .pure a, f => f a
  | .throw e, _ => .throw e
  | .spin, _ => .spin
  | .op o k, f => .op o (fun r => (k r).bind f)

instance : Monad (Prog ω ρ ε) where
  pure := Prog.pure
  bind := Prog.bind

/-- Perform one operation and return its answer. -/
def perform (o : ω) : Prog ω ρ ε (ρ o) :=
  .op o .pure

/-- `try p catch h`. -/
def tryCatch : Prog ω ρ ε α → (ε → Prog ω ρ ε α) → Prog ω ρ ε α
  | .pure a, _ => .pure a
  | .throw e, h => h e
  | .spin, _ => .spin
  | .op o k, h => .op o (fun r => (k r).tryCatch h)

/-- Run `p` and hand back its exception, if any, as a value. -/
def attempt : Prog ω ρ ε α → Prog ω ρ ε (Except ε α)
  | .pure a => .pure (.ok a)
  | .throw e => .pure (.error e)
  | .spin => .spin
  | .op o k => .op o (fun r => (k r).attempt)

/-- Return the value of an `Except`, or throw its error. -/
def ofExcept : Except ε α → Prog ω ρ ε α
  | .ok a => .pure a
  | .error e => .throw e

@[simp] theorem pure_eq (a : α) : (Pure.pure a : Prog ω ρ ε α) = .pure a := rfl

@[simp] theorem pure_bind (a : α) (f : α → Prog ω ρ ε β) : (Prog.pure a >>= f) = f a := rfl

@[simp] theorem throw_bind (e : ε) (f : α → Prog ω ρ ε β) :
    ((Prog.throw e : Prog ω ρ ε α) >>= f) = .throw e := rfl

@[simp] theorem spin_bind (f : α → Prog ω ρ ε β) :
    ((Prog.spin : Prog ω ρ ε α) >>= f) = .spin := rfl

@[simp] theorem op_bind (o : ω) (k : ρ o → Prog ω ρ ε α) (f : α → Prog ω ρ ε β) :
    (Prog.op o k >>= f) = .op o (fun r => k r >>= f) := rfl

/-- Sequencing is associative. -/
theorem bind_assoc (p : Prog ω ρ ε α) (f : α → Prog ω ρ ε β) (g : β → Prog ω ρ ε γ) :
    (p >>= f) >>= g = p >>= fun a => f a >>= g := by
  induction p with
  | pure a => rfl
  | throw e => rfl
  | spin => rfl
  | op o k ih =>
      simp only [op_bind]
      congr 1
      funext r
      exact ih r

/-- A class of operations, and whether a program that keeps to it may run out of fuel. -/
structure Footprint (ω : Type) where
  ops : ω → Prop
  loops : Prop

instance : LE (Footprint ω) where
  le F F' := (∀ o, F.ops o → F'.ops o) ∧ (F.loops → F'.loops)

/-- Every operation `p` can perform, whatever the answers, is in the footprint,
and so is running out of fuel. -/
def Uses (F : Footprint ω) : Prog ω ρ ε α → Prop
  | .pure _ => True
  | .throw _ => True
  | .spin => F.loops
  | .op o k => F.ops o ∧ ∀ r, (k r).Uses F

section Uses

variable {F F' : Footprint ω}

@[simp] theorem uses_pure (a : α) : Uses F (Prog.pure a : Prog ω ρ ε α) := trivial

@[simp] theorem uses_throw (e : ε) : Uses F (Prog.throw e : Prog ω ρ ε α) := trivial

@[simp] theorem uses_spin : Uses F (Prog.spin : Prog ω ρ ε α) ↔ F.loops := Iff.rfl

/-- One operation uses what the footprint allows of it. -/
@[simp] theorem uses_perform (o : ω) : Uses F (perform o : Prog ω ρ ε (ρ o)) ↔ F.ops o := by
  simp [perform, Uses]

/-- A value or an error uses nothing. -/
@[simp] theorem uses_ofExcept (x : Except ε α) : Uses F (ofExcept x : Prog ω ρ ε α) := by
  cases x <;> trivial

/-- A footprint covers a sequence when it covers both parts. -/
theorem Uses.bind {p : Prog ω ρ ε α} {f : α → Prog ω ρ ε β}
    (hp : Uses F p) (hf : ∀ a, Uses F (f a)) : Uses F (p >>= f) := by
  induction p with
  | pure a => exact hf a
  | throw e => trivial
  | spin => exact hp
  | op o k ih => exact ⟨hp.1, fun r => ih r (hp.2 r)⟩

/-- A footprint covers a handler with what it catches from. -/
theorem Uses.tryCatch {p : Prog ω ρ ε α} {h : ε → Prog ω ρ ε α}
    (hp : Uses F p) (hh : ∀ e, Uses F (h e)) : Uses F (p.tryCatch h) := by
  induction p with
  | pure a => trivial
  | throw e => exact hh e
  | spin => exact hp
  | op o k ih => exact ⟨hp.1, fun r => ih r (hp.2 r)⟩

/-- Catching the outcome uses no more. -/
theorem Uses.attempt {p : Prog ω ρ ε α} (hp : Uses F p) : Uses F p.attempt := by
  induction p with
  | pure a => trivial
  | throw e => trivial
  | spin => exact hp
  | op o k ih => exact ⟨hp.1, fun r => ih r (hp.2 r)⟩

/-- A larger footprint. -/
theorem Uses.mono {p : Prog ω ρ ε α} (hp : Uses F p) (h : F ≤ F') : Uses F' p := by
  induction p with
  | pure a => trivial
  | throw e => trivial
  | spin => exact h.2 hp
  | op o k ih => exact ⟨h.1 o hp.1, fun r => ih r (hp.2 r)⟩

/-- A footprint covers a choice when it covers each branch under its condition. -/
theorem Uses.ite {c : Prop} [Decidable c] {p q : Prog ω ρ ε α}
    (hp : c → Uses F p) (hq : ¬ c → Uses F q) : Uses F (if c then p else q) := by
  by_cases h : c
  · rw [if_pos h]; exact hp h
  · rw [if_neg h]; exact hq h

end Uses

/-- Every way `p` can end is a return of a value in `Q`; `p` never throws. -/
def Returns (Q : α → Prop) : Prog ω ρ ε α → Prop
  | .pure a => Q a
  | .throw _ => False
  | .spin => True
  | .op _ k => ∀ r, (k r).Returns Q

section Returns

variable {Q Q' : α → Prop}

theorem Returns.mono {p : Prog ω ρ ε α} (hp : Returns Q p) (h : ∀ a, Q a → Q' a) :
    Returns Q' p := by
  induction p with
  | pure a => exact h a hp
  | throw e => exact hp
  | spin => trivial
  | op o k ih => exact fun r => ih r (hp r)

/-- What a sequence returns is what its last part returns. -/
theorem Returns.bind {p : Prog ω ρ ε α} {f : α → Prog ω ρ ε β} {Q : α → Prop} {Q' : β → Prop}
    (hp : Returns Q p) (hf : ∀ a, Q a → Returns Q' (f a)) : Returns Q' (p >>= f) := by
  induction p with
  | pure a => exact hf a hp
  | throw e => exact hp.elim
  | spin => trivial
  | op o k ih => exact fun r => ih r (hp r)

/-- An attempt never throws. -/
theorem returns_attempt (p : Prog ω ρ ε α) : Returns (fun _ => True) p.attempt := by
  induction p with
  | pure a => trivial
  | throw e => trivial
  | spin => trivial
  | op o k ih => exact fun r => ih r

end Returns

/-- The outcome of a run: a value, an exception, or a loop still running. -/
inductive Outcome (ε α : Type) : Type
  | returned (a : α)
  | threw (e : ε)
  | stuck
  deriving DecidableEq, Repr

/-- The program has returned or thrown. -/
def Outcome.settled : Outcome ε α → Bool
  | .returned _ => true
  | .threw _ => true
  | .stuck => false

/-- A handler answers every operation from a state and moves the state. -/
abbrev Handler (ω : Type) (ρ : ω → Type) (σ : Type) := (o : ω) → σ → ρ o × σ

/-- Run a program from start to end. -/
def run {σ : Type} (h : Handler ω ρ σ) : Prog ω ρ ε α → σ → Outcome ε α × σ
  | .pure a, s => (.returned a, s)
  | .throw e, s => (.threw e, s)
  | .spin, s => (.stuck, s)
  | .op o k, s => (k (h o s).1).run h (h o s).2

/-- A run of a sequence is a run of its first part, and then of the rest if that returned. -/
theorem run_bind {σ : Type} (h : Handler ω ρ σ) (p : Prog ω ρ ε α) (f : α → Prog ω ρ ε β) (s : σ) :
    (p >>= f).run h s =
      match p.run h s with
      | (.returned a, s') => (f a).run h s'
      | (.threw e, s') => (.threw e, s')
      | (.stuck, s') => (.stuck, s') := by
  induction p generalizing s with
  | pure a => rfl
  | throw e => rfl
  | spin => rfl
  | op o k ih => exact ih (h o s).1 (h o s).2

/-- Code without loops settles. -/
theorem settled_of_uses {σ : Type} (h : Handler ω ρ σ) {F : Footprint ω} {p : Prog ω ρ ε α}
    (hp : Uses F p) (hF : ¬ F.loops) (s : σ) : (p.run h s).1.settled = true := by
  induction p generalizing s with
  | pure a => rfl
  | throw e => rfl
  | spin => exact absurd hp hF
  | op o k ih => exact ih (h o s).1 (hp.2 _) (h o s).2

/-- An operation with the answer it got. -/
abbrev Call (ω : Type) (ρ : ω → Type) := (o : ω) × ρ o

/-- The handler that also writes down, oldest first, every call it answers. -/
def Handler.traced {σ : Type} (h : Handler ω ρ σ) : Handler ω ρ (σ × List (Call ω ρ)) :=
  fun o s => ((h o s.1).1, (h o s.1).2, s.2 ++ [⟨o, (h o s.1).1⟩])

/-- Writing the calls down changes nothing. -/
theorem run_traced {σ : Type} (h : Handler ω ρ σ) (p : Prog ω ρ ε α) (s : σ × List (Call ω ρ)) :
    p.run h s.1 = ((p.run h.traced s).1, (p.run h.traced s).2.1) := by
  induction p generalizing s with
  | pure a => rfl
  | throw e => rfl
  | spin => rfl
  | op o k ih => exact ih (h o s.1).1 (h.traced o s).2

/-! ### Operations as programs -/

section Interpret

variable {ω' : Type} {ρ' : ω' → Type} (f : (o : ω) → Prog ω' ρ' ε (ρ o))

/-- Every operation performed by a program of its own. -/
def interpret : Prog ω ρ ε α → Prog ω' ρ' ε α
  | .pure a => .pure a
  | .throw e => .throw e
  | .spin => .spin
  | .op o k => f o >>= fun r => (k r).interpret

/-- Interpretation goes through a sequence. -/
theorem interpret_bind (p : Prog ω ρ ε α) (g : α → Prog ω ρ ε β) :
    (p >>= g).interpret f = p.interpret f >>= fun a => (g a).interpret f := by
  induction p with
  | pure a => rfl
  | throw e => rfl
  | spin => rfl
  | op o k ih =>
      simp only [op_bind, interpret, bind_assoc]
      congr 1
      funext r
      exact ih r

end Interpret

end Prog
