import Mathlib.Data.List.Forall2

/-!
# Texts in pieces

A list says what the pieces of a text are: each entry allows some pieces, and the text is
one piece for every entry, end to end.

Where every entry of a kind needs a symbol of a kind in its piece, a text has at least as
many of these symbols as the list has such entries; it has no more than that only if no
piece has one to spare.
-/

namespace Pieces

variable {α β γ : Type}

/-- A text of one piece for every entry. -/
def Spells (R : α → List β → Prop) (xs : List α) (text : List β) : Prop :=
  ∃ parts, List.Forall₂ R xs parts ∧ parts.flatten = text

variable {R S : α → List β → Prop} {xs : List α} {text : List β}

/-- Nothing spells the empty text and no other. -/
@[simp] theorem spells_nil_iff : Spells R [] text ↔ text = [] := by
  constructor
  · intro h
    obtain ⟨parts, hparts, rfl⟩ := h
    rw [List.forall₂_nil_left_iff.mp hparts, List.flatten_nil]
  · intro heq
    subst heq
    exact ⟨[], .nil, rfl⟩

/-- A text is spelled piece by piece. -/
theorem spells_cons_iff {x : α} : Spells R (x :: xs) text ↔
    ∃ part rest, R x part ∧ Spells R xs rest ∧ part ++ rest = text := by
  constructor
  · intro h
    obtain ⟨parts, hparts, rfl⟩ := h
    obtain ⟨part, others, hx, hothers, rfl⟩ := List.forall₂_cons_left_iff.mp hparts
    exact ⟨part, _, hx, ⟨others, hothers, rfl⟩, rfl⟩
  · intro h
    obtain ⟨part, _, hx, ⟨others, hothers, rfl⟩, rfl⟩ := h
    exact ⟨part :: others, .cons hx hothers, rfl⟩

theorem spells_congr (h : ∀ x ∈ xs, ∀ part, R x part ↔ S x part) :
    Spells R xs text ↔ Spells S xs text := by
  induction xs generalizing text with
  | nil => rw [spells_nil_iff, spells_nil_iff]
  | cons x xs ih =>
      have hrest (rest : List β) := @ih rest fun y hy => h y (List.mem_cons_of_mem x hy)
      simp only [spells_cons_iff, h x List.mem_cons_self, hrest]

/-- Spelling an image is spelling by the composed relation. -/
theorem spells_map_iff {f : γ → α} {ys : List γ} :
    Spells R (ys.map f) text ↔ Spells (fun y => R (f y)) ys text := by
  induction ys generalizing text with
  | nil => rw [List.map_nil, spells_nil_iff, spells_nil_iff]
  | cons y ys ih => simp only [List.map_cons, spells_cons_iff, ih]

/-- Entries that allow nothing but themselves spell themselves. -/
theorem spells_self_iff {xs text : List α} :
    Spells (fun x part => part = [x]) xs text ↔ xs = text := by
  induction xs generalizing text with
  | nil => rw [spells_nil_iff, eq_comm]
  | cons x xs ih =>
      simp only [spells_cons_iff, ih]
      constructor
      · intro h
        obtain ⟨part, rest, rfl, rfl, rfl⟩ := h
        rfl
      · intro heq
        subst heq
        exact ⟨[x], xs, rfl, rfl, rfl⟩

/-! ### Counting -/

section Count

variable {p : β → Bool} {q : α → Bool}

/-- **A text has what its entries need.** -/
theorem Spells.countP_le (h : Spells R xs text)
    (hneeds : ∀ x part, R x part → [x].countP q ≤ part.countP p) :
    xs.countP q ≤ text.countP p := by
  induction xs generalizing text with
  | nil => exact Nat.zero_le _
  | cons x xs ih =>
      obtain ⟨part, rest, hx, hrest, rfl⟩ := spells_cons_iff.mp h
      have hle := Nat.add_le_add (hneeds x part hx) (ih hrest)
      rwa [← List.countP_append, ← List.countP_append] at hle

/-- **A text has no more than that** if and only if no piece has. -/
theorem spells_exactly_iff (hneeds : ∀ x part, R x part → [x].countP q ≤ part.countP p) :
    Spells (fun x part => R x part ∧ part.countP p ≤ [x].countP q) xs text ↔
      Spells R xs text ∧ text.countP p ≤ xs.countP q := by
  induction xs generalizing text with
  | nil =>
      rw [spells_nil_iff, spells_nil_iff, iff_self_and]
      intro heq
      subst heq
      exact Nat.le_refl _
  | cons x xs ih =>
      simp only [spells_cons_iff, ih]
      have hsplit : (x :: xs).countP q = [x].countP q + xs.countP q :=
        @List.countP_append _ q [x] xs
      constructor
      · intro h
        obtain ⟨part, rest, ⟨hx, hpart⟩, ⟨hxs, hrest⟩, rfl⟩ := h
        refine ⟨⟨part, rest, hx, hxs, rfl⟩, ?_⟩
        rw [List.countP_append, hsplit]
        exact Nat.add_le_add hpart hrest
      · intro h
        obtain ⟨⟨part, rest, hx, hxs, rfl⟩, hle⟩ := h
        have hpart := hneeds x part hx
        have hrest := hxs.countP_le hneeds
        rw [List.countP_append, hsplit] at hle
        exact ⟨part, rest, ⟨hx, by omega⟩, ⟨hxs, by omega⟩, rfl⟩

end Count

end Pieces
