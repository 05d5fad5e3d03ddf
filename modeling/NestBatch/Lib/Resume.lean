/-!
# Sources that know their place

A source is read again and again.  What it answers may depend on a place only, and not on what else
it keeps, such as a buffer: then two sources at one place answer alike for ever, however they came
there.
-/

namespace Resume

variable {σ β π : Type}

/-- The answers of some reads. -/
def answers (read : σ → β × σ) : Nat → σ → List β
  | 0, _ => []
  | n + 1, s => (read s).1 :: answers read n (read s).2

/-- What some reads leave. -/
def behind (read : σ → β × σ) : Nat → σ → σ
  | 0, s => s
  | n + 1, s => behind read n (read s).2

/-- As long as `Inv` holds, a read is a step of `next` from the place of the source. -/
structure Placed (read : σ → β × σ) (next : π → β × π) (place : σ → π) (Inv : σ → Prop) :
    Prop where
  keeps : ∀ s, Inv s → Inv (read s).2
  answer : ∀ s, Inv s → (read s).1 = (next (place s)).1
  moves : ∀ s, Inv s → place (read s).2 = (next (place s)).2

variable {read : σ → β × σ} {next : π → β × π} {place : σ → π} {Inv : σ → Prop} {s t : σ}

/-- Placement is kept by the reads behind it. -/
theorem Placed.behind (h : Placed read next place Inv) (n : Nat) (hs : Inv s) :
    Inv (behind read n s) ∧ place (behind read n s) = Resume.behind next n (place s) := by
  induction n generalizing s with
  | zero => exact ⟨hs, rfl⟩
  | succ n ih =>
      obtain ⟨hkept, hplace⟩ := ih (h.keeps s hs)
      rw [h.moves s hs] at hplace
      exact ⟨hkept, hplace⟩

/-- **The answers of the source** are those that its place gives. -/
theorem Placed.answers_eq (h : Placed read next place Inv) (n : Nat) (hs : Inv s) :
    answers read n s = answers next n (place s) := by
  induction n generalizing s with
  | zero => rfl
  | succ n ih => rw [answers, answers, ih (h.keeps s hs), h.answer s hs, h.moves s hs]

/-- Sources at one place answer alike. -/
theorem Placed.answers_congr (h : Placed read next place Inv) (hs : Inv s) (ht : Inv t)
    (hplace : place s = place t) (n : Nat) : answers read n s = answers read n t := by
  rw [h.answers_eq n hs, h.answers_eq n ht, hplace]

/-- A source whose place is all that it keeps. -/
theorem placed_id (hkeeps : ∀ s, Inv s → Inv (read s).2) : Placed read read id Inv where
  keeps := hkeeps
  answer _ _ := rfl
  moves _ _ := rfl

end Resume
