import Mathlib.Data.List.Nodup
import Mathlib.Logic.Function.Basic
import Mathlib.Logic.Relation

/-!
# Walks under choices

A walk starts at an entry, if there is one, and every choice moves it on or ends
it.  Whatever is chosen, it visits every position at most once exactly when no
position that can be reached can be reached again from itself.
-/

/-- Where a walk starts and how a choice moves it. -/
structure Walk (α χ : Type) where
  entry : Option α
  move : α → χ → Option α

namespace Walk

variable {α χ : Type} (W : Walk α χ)

/-- The position after some moves, while the walk lasts. -/
def visits (choices : Nat → χ) : Nat → Option α
  | 0 => W.entry
  | n + 1 => (visits choices n).bind fun a => W.move a (choices n)

/-- Some choice moves from `a` to `b`. -/
def Moves (a b : α) : Prop := ∃ c, W.move a c = some b

/-- The walk visits no position twice and ends after at most `bound` positions. -/
def VisitsOnce (bound : Nat) (choices : Nat → χ) : Prop :=
  (∀ i j a, W.visits choices i = some a → W.visits choices j = some a → i = j) ∧
    W.visits choices bound = none

/-- The positions of a walk that is going on, the latest first. -/
inductive Path : List α → Prop
  | entry {a : α} (h : W.entry = some a) : Path [a]
  | step {a b : α} {rest : List α} (h : Path (a :: rest)) (hmove : W.Moves a b) :
      Path (b :: a :: rest)

/-- No position that can be reached can be reached again from itself. -/
def NoReturn : Prop :=
  ∀ a path, W.Path (a :: path) → ¬ Relation.TransGen W.Moves a a

/-- No path without a repetition is longer than `bound`. -/
def Fits (bound : Nat) : Prop := ∀ path, W.Path path → path.Nodup → path.length ≤ bound

variable {W} {choices choices' : Nat → χ} {a b : α} {n m : Nat}

/-- A walk that has ended has ended. -/
theorem visits_add_of_none (h : W.visits choices n = none) (m : Nat) :
    W.visits choices (n + m) = none := by
  induction m with
  | zero => exact h
  | succ m ih =>
      rw [← Nat.add_assoc, visits, ih]
      rfl

/-- A position depends on the choices before it only. -/
theorem visits_congr (h : ∀ k < n, choices k = choices' k) :
    W.visits choices n = W.visits choices' n := by
  induction n with
  | zero => rfl
  | succ n ih =>
      have hpre := ih fun k hk => h k (by omega)
      rw [visits, visits, hpre, h n (by omega)]

theorem visits_succ_eq_some (h : W.visits choices (n + 1) = some b) :
    ∃ a, W.visits choices n = some a ∧ W.move a (choices n) = some b :=
  Option.bind_eq_some_iff.mp h

/-- The positions up to one that is visited make a path, of which it is the last. -/
theorem path_of_visits (h : W.visits choices n = some a) :
    ∃ path, W.Path (a :: path) ∧ path.length = n := by
  induction n generalizing a with
  | zero => exact ⟨[], .entry h, rfl⟩
  | succ n ih =>
      obtain ⟨b, hb, hmove⟩ := visits_succ_eq_some h
      obtain ⟨path, hpath, hlength⟩ := ih hb
      exact ⟨b :: path, .step hpath ⟨_, hmove⟩, congrArg (· + 1) hlength⟩

/-- The latest position of a path is reached from all of them. -/
theorem Path.reaches {path : List α} (h : W.Path (a :: path)) :
    ∀ c ∈ a :: path, Relation.ReflTransGen W.Moves c a := by
  generalize hall : a :: path = all at h
  induction h generalizing a path with
  | entry hentry =>
      cases hall
      intro c hc
      rw [List.mem_singleton.mp hc]
  | step hpath hmove ih =>
      cases hall
      intro c hc
      rcases List.mem_cons.mp hc with heq | hmem
      · rw [heq]
      · exact (ih rfl c hmem).tail hmove

/-- Without returns a path has no repetition. -/
theorem Path.nodup {path : List α} (h : W.Path path) (hreturn : W.NoReturn) : path.Nodup := by
  induction h with
  | entry hentry => exact List.nodup_singleton _
  | step hpath hmove ih =>
      refine List.nodup_cons.mpr ⟨?_, ih⟩
      intro hmem
      exact hreturn _ _ (.step hpath hmove) (.tail' (hpath.reaches _ hmem) hmove)

/-- A later position is reached from an earlier one. -/
theorem transGen_of_visits (ha : W.visits choices n = some a)
    (hb : W.visits choices (n + m + 1) = some b) : Relation.TransGen W.Moves a b := by
  induction m generalizing b with
  | zero =>
      obtain ⟨c, hc, hmove⟩ := visits_succ_eq_some hb
      rw [ha] at hc
      cases hc
      exact .single ⟨_, hmove⟩
  | succ m ih =>
      obtain ⟨c, hc, hmove⟩ := visits_succ_eq_some hb
      exact (ih hc).tail ⟨_, hmove⟩

/-- A walk can be made to go on as it can move. -/
theorem exists_visits_of_moves (ha : W.visits choices n = some a) (hmove : W.Moves a b) :
    ∃ choices', (∀ k ≤ n, W.visits choices' k = W.visits choices k) ∧
      W.visits choices' (n + 1) = some b := by
  obtain ⟨c, hc⟩ := hmove
  have hsame : ∀ k ≤ n, W.visits (Function.update choices n c) k = W.visits choices k := by
    intro k hk
    apply visits_congr
    intro j hj
    exact Function.update_of_ne (by omega) _ _
  refine ⟨Function.update choices n c, hsame, ?_⟩
  rw [visits, hsame n (Nat.le_refl n), ha, Function.update_self]
  exact hc

/-- Every path is walked under some choices. -/
theorem exists_visits_of_path [Nonempty χ] {path : List α} (h : W.Path (a :: path)) :
    ∃ choices, W.visits choices path.length = some a := by
  generalize hall : a :: path = all at h
  induction h generalizing a path with
  | entry hentry =>
      cases hall
      obtain ⟨c⟩ := ‹Nonempty χ›
      exact ⟨fun _ => c, hentry⟩
  | step hpath hmove ih =>
      cases hall
      obtain ⟨choices, hvisit⟩ := ih rfl
      obtain ⟨choices', -, hnext⟩ := exists_visits_of_moves hvisit hmove
      exact ⟨choices', hnext⟩

/-- From a position that is visited, what can be reached is visited later on. -/
theorem exists_visits_of_transGen (ha : W.visits choices n = some a)
    (h : Relation.TransGen W.Moves a b) :
    ∃ choices' m, n < m ∧ W.visits choices' n = some a ∧ W.visits choices' m = some b := by
  induction h with
  | single hmove =>
      obtain ⟨choices', hsame, hnext⟩ := exists_visits_of_moves ha hmove
      exact ⟨choices', n + 1, by omega, (hsame n (Nat.le_refl n)).trans ha, hnext⟩
  | tail _ hmove ih =>
      obtain ⟨choices₁, m, hlt, hfirst, hlast⟩ := ih
      obtain ⟨choices', hsame, hnext⟩ := exists_visits_of_moves hlast hmove
      exact ⟨choices', m + 1, by omega, (hsame n (by omega)).trans hfirst, hnext⟩

/-- Without returns the positions of a walk differ. -/
theorem visits_injective (h : W.NoReturn) {i j : Nat} (hi : W.visits choices i = some a)
    (hj : W.visits choices j = some a) : i = j := by
  have hlt : ∀ {i j : Nat}, W.visits choices i = some a →
      W.visits choices j = some a → ¬ i < j := by
    intro i j hi hj hij
    obtain ⟨path, hpath, -⟩ := path_of_visits hi
    obtain ⟨m, rfl⟩ := Nat.exists_eq_add_of_lt hij
    exact h a path hpath (transGen_of_visits hi hj)
  have hle := hlt hi hj
  have hge := hlt hj hi
  omega

/-- **Walks visit every position at most once** whatever is chosen, and end in
time, exactly when nothing returns and no path is too long. -/
theorem visitsOnce_iff [Nonempty χ] (bound : Nat) :
    (∀ choices, W.VisitsOnce bound choices) ↔ W.NoReturn ∧ W.Fits bound := by
  constructor
  · intro h
    constructor
    · intro a path hpath hreturn
      obtain ⟨choices, hvisit⟩ := exists_visits_of_path hpath
      obtain ⟨choices', m, hlt, hfirst, hlast⟩ := exists_visits_of_transGen hvisit hreturn
      have heq := (h choices').1 _ m a hfirst hlast
      omega
    · intro path hpath _
      cases path with
      | nil => exact Nat.zero_le _
      | cons a path =>
          obtain ⟨choices, hvisit⟩ := exists_visits_of_path hpath
          by_contra hlong
          rw [List.length_cons] at hlong
          obtain ⟨m, hm⟩ := Nat.exists_eq_add_of_le (show bound ≤ path.length by omega)
          rw [hm, visits_add_of_none (h choices).2] at hvisit
          cases hvisit
  · intro h choices
    obtain ⟨hreturn, hfits⟩ := h
    refine ⟨fun i j a hi hj => visits_injective hreturn hi hj, ?_⟩
    cases hlast : W.visits choices bound with
    | none => rfl
    | some a =>
        obtain ⟨path, hpath, hlength⟩ := path_of_visits hlast
        have hle := hfits _ hpath (hpath.nodup hreturn)
        rw [List.length_cons] at hle
        omega

end Walk
