import Mathlib.Data.List.Perm.Basic

/-!
# The best of a list

Every entry has a score.  The entries with the highest score are the best ones;
one that is best alone is picked, several are a tie.  What is picked depends on
the entries, not on their order.
-/

namespace Ranked

variable {α : Type} (score : α → Nat)

def maxScore (xs : List α) : Nat := (xs.map score).foldl max 0

/-- The entries with the highest score. -/
def best (xs : List α) : List α := xs.filter fun x => score x = maxScore score xs

inductive Pick (α : Type)
  | nothing
  | one (x : α)
  | tied (count : Nat)
  deriving DecidableEq, Repr

def Pick.map {β : Type} (f : β → α) : Pick β → Pick α
  | .nothing => .nothing
  | .one x => .one (f x)
  | .tied count => .tied count

/-- The entry with the highest score, if it is the only one. -/
def pick (xs : List α) : Pick α :=
  match best score xs with
  | [] => .nothing
  | [x] => .one x
  | x :: y :: rest => .tied (x :: y :: rest).length

variable {score} {xs ys : List α} {x y : α} {n : Nat}

/-- A fold of maxima is bounded exactly when its parts are. -/
theorem foldl_max_le_iff (ns : List Nat) (m : Nat) :
    ns.foldl max m ≤ n ↔ m ≤ n ∧ ∀ k ∈ ns, k ≤ n := by
  induction ns generalizing m with
  | nil => simp
  | cons k ns ih =>
      rw [List.foldl_cons, ih, Nat.max_le, and_assoc]
      simp only [List.mem_cons, forall_eq_or_imp]

/-- The highest score is the least bound. -/
theorem maxScore_le_iff : maxScore score xs ≤ n ↔ ∀ x ∈ xs, score x ≤ n := by
  unfold maxScore
  rw [foldl_max_le_iff, and_iff_right (Nat.zero_le n), List.forall_mem_map]

/-- No score is above the greatest one. -/
theorem le_maxScore (hx : x ∈ xs) : score x ≤ maxScore score xs :=
  maxScore_le_iff.mp (Nat.le_refl _) x hx

/-- Some entry has the highest score. -/
theorem exists_maxScore (hxs : xs ≠ []) : ∃ x ∈ xs, score x = maxScore score xs := by
  by_contra hnone
  have hlt : ∀ x ∈ xs, score x < maxScore score xs := by
    intro x hx
    apply Nat.lt_of_le_of_ne (le_maxScore hx)
    intro heq
    exact hnone ⟨x, hx, heq⟩
  obtain ⟨x, hx⟩ := List.exists_mem_of_ne_nil xs hxs
  have hbound : maxScore score xs ≤ maxScore score xs - 1 := by
    apply maxScore_le_iff.mpr
    intro y hy
    have := hlt y hy
    omega
  have := hlt x hx
  omega

theorem maxScore_congr (h : ∀ x, x ∈ xs ↔ x ∈ ys) : maxScore score xs = maxScore score ys := by
  apply Nat.le_antisymm
  · exact maxScore_le_iff.mpr fun x hx => le_maxScore ((h x).mp hx)
  · exact maxScore_le_iff.mpr fun x hx => le_maxScore ((h x).mpr hx)

/-- The best are the members that no member exceeds. -/
theorem mem_best_iff : x ∈ best score xs ↔ x ∈ xs ∧ ∀ y ∈ xs, score y ≤ score x := by
  unfold best
  rw [List.mem_filter, decide_eq_true_eq]
  constructor
  · intro h
    obtain ⟨hx, heq⟩ := h
    refine ⟨hx, fun y hy => ?_⟩
    rw [heq]
    exact le_maxScore hy
  · intro h
    obtain ⟨hx, hle⟩ := h
    exact ⟨hx, Nat.le_antisymm (le_maxScore hx) (maxScore_le_iff.mpr hle)⟩

/-- The best of a permuted list are a permutation of the best. -/
theorem best_perm (h : xs.Perm ys) : (best score xs).Perm (best score ys) := by
  unfold best
  rw [maxScore_congr fun x => h.mem_iff]
  exact h.filter _

/-- How many are best decides what is picked. -/
theorem pick_of_perm (h : (best score xs).Perm (best score ys)) :
    pick score xs = pick score ys := by
  unfold pick
  generalize best score xs = zs at h
  generalize best score ys = zs' at h
  match zs with
  | [] => rw [h.nil_eq]
  | [x] => rw [List.singleton_perm.mp h]
  | x :: y :: rest =>
      have hlength := h.length_eq
      match zs' with
      | [] => simp at hlength
      | [z] => simp at hlength
      | z :: z' :: rest' =>
          dsimp only
          rw [hlength]

/-- **The order does not matter.** -/
theorem pick_perm (h : xs.Perm ys) : pick score xs = pick score ys := pick_of_perm (best_perm h)

/-- Entries that others outrank do not matter. -/
theorem pick_filter (p : α → Bool) (he : ∃ e ∈ xs, p e = true)
    (hbelow : ∀ e ∈ xs, p e = true → ∀ w ∈ xs, p w = false → score w < score e) :
    pick score (xs.filter p) = pick score xs := by
  apply pick_of_perm
  have hbest : best score (xs.filter p) = best score xs := by
    have hmax : maxScore score (xs.filter p) = maxScore score xs := by
      apply Nat.le_antisymm
      · exact maxScore_le_iff.mpr fun x hx => le_maxScore (List.mem_filter.mp hx).1
      · apply maxScore_le_iff.mpr
        intro x hx
        obtain ⟨e, he, hpe⟩ := he
        cases hpx : p x with
        | true => exact le_maxScore (List.mem_filter.mpr ⟨hx, hpx⟩)
        | false =>
            have hlt := hbelow e he hpe x hx hpx
            have hle : score e ≤ maxScore score _ := le_maxScore (List.mem_filter.mpr ⟨he, hpe⟩)
            omega
    unfold best
    rw [hmax, List.filter_filter]
    apply List.filter_congr
    intro x hx
    cases hpx : p x with
    | true => simp
    | false =>
        obtain ⟨e, he, hpe⟩ := he
        have hlt := hbelow e he hpe x hx hpx
        have hle : score e ≤ maxScore score xs := le_maxScore he
        have hne : score x ≠ maxScore score xs := by omega
        simp [hne]
  rw [hbest]

/-- One that outranks all others is picked. -/
theorem pick_eq_one (hxs : xs.Perm (x :: ys)) (hbelow : ∀ y ∈ ys, score y < score x) :
    pick score xs = .one x := by
  have hbest : best score (x :: ys) = [x] := by
    have hmax : maxScore score (x :: ys) = score x := by
      apply Nat.le_antisymm
      · apply maxScore_le_iff.mpr
        simp only [List.mem_cons, forall_eq_or_imp]
        exact ⟨Nat.le_refl _, fun y hy => Nat.le_of_lt (hbelow y hy)⟩
      · exact le_maxScore List.mem_cons_self
    have hnone : ys.filter (fun y => score y = score x) = [] := by
      apply List.filter_eq_nil_iff.mpr
      intro y hy heq
      have hlt := hbelow y hy
      rw [of_decide_eq_true heq] at hlt
      exact Nat.lt_irrefl _ hlt
    unfold best
    rw [hmax, List.filter_cons_of_pos (by simp), hnone]
  rw [pick_perm hxs]
  unfold pick
  rw [hbest]

section Map

variable {β : Type} (f : β → α) (ys : List β)

/-- The greatest score of an image is that of the composed score. -/
theorem maxScore_map : maxScore score (ys.map f) = maxScore (score ∘ f) ys := by
  rw [maxScore, List.map_map, maxScore]

/-- The best of an image are the image of the best. -/
theorem best_map : best score (ys.map f) = (best (score ∘ f) ys).map f := by
  unfold best
  rw [List.filter_map, maxScore_map]
  rfl

/-- What is picked among images is the image of what is picked by the scores of the images. -/
theorem pick_map : pick score (ys.map f) = (pick (score ∘ f) ys).map f := by
  unfold pick
  rw [best_map]
  generalize best (score ∘ f) ys = zs
  match zs with
  | [] => rfl
  | [_] => rfl
  | x :: y :: rest => simp [Pick.map]

end Map

/-- A list two of whose entries agree with a filter splits them off. -/
theorem perm_of_filter {p : α → Bool} {rest : List α} (h : xs.filter p = x :: y :: rest) :
    ∃ others, xs.Perm (x :: y :: others) := by
  have hsplit : (xs.filter p ++ xs.filter fun z => !p z).Perm xs := List.filter_append_perm p xs
  rw [h] at hsplit
  exact ⟨rest ++ xs.filter fun z => !p z, hsplit.symm⟩

/-- **A tie** is between two entries that no other outranks. -/
theorem pick_tied_iff : (∃ count, pick score xs = .tied count) ↔
    ∃ x y rest, xs.Perm (x :: y :: rest) ∧ score x = score y ∧ ∀ z ∈ xs, score z ≤ score x := by
  constructor
  · intro hcase
    obtain ⟨count, h⟩ := hcase
    unfold pick at h
    split at h
    · cases h
    · cases h
    · next x y rest hbest =>
        obtain ⟨others, hperm⟩ := perm_of_filter (p := fun z => score z = maxScore score xs) hbest
        have hx : x ∈ best score xs := by simp [hbest]
        have hy : y ∈ best score xs := by simp [hbest]
        have hxs := mem_best_iff.mp hx
        have hys := mem_best_iff.mp hy
        refine ⟨x, y, others, hperm, ?_, hxs.2⟩
        exact Nat.le_antisymm (hys.2 x hxs.1) (hxs.2 y hys.1)
  · intro hcase
    obtain ⟨x, y, rest, hperm, heq, hmax⟩ := hcase
    have hx : score x = maxScore score (x :: y :: rest) := by
      apply Nat.le_antisymm
      · exact le_maxScore List.mem_cons_self
      · exact maxScore_le_iff.mpr fun z hz => hmax z (hperm.mem_iff.mpr hz)
    have hbest : best score (x :: y :: rest) =
        x :: y :: rest.filter fun z => score z = maxScore score (x :: y :: rest) := by
      unfold best
      rw [List.filter_cons_of_pos (by simp [hx]), List.filter_cons_of_pos (by simp [← heq, hx])]
    rw [pick_perm hperm]
    unfold pick
    rw [hbest]
    exact ⟨_, rfl⟩

end Ranked
