import Mathlib.Data.List.Basic

/-!
# How much is drawn from a source

A consumer draws from a source in batches.  A call that fails is made again; an
answer without an item cuts the batch at hand short; a batch that has no items at
all is taken for the end, and so is a budget that is used up.  Whether the
consumer makes one more call can be told from the answers it has had so far.
-/

namespace Feed

/-- How a source may answer a call. -/
abbrev Answer (ε α : Type) := Except ε (Option α)

variable {ε α : Type}

/-- One more answer, behind `n` items since the last answer without one. -/
def tick (n : Nat) : Answer ε α → Nat
  | .ok (some _) => n + 1
  | .ok none => 0
  | .error _ => n

/-- Items since the last answer without one. -/
def sinceGap (answers : List (Answer ε α)) : Nat := answers.foldl tick 0

/-- The item of an answer. -/
def item? : Answer ε α → Option α
  | .ok item => item
  | .error _ => none

/-- How many items there were. -/
def itemCount (answers : List (Answer ε α)) : Nat := (answers.filterMap item?).length

/-- The items of some answers. -/
def items (answers : List (Answer ε α)) : List α := answers.filterMap item?

/-- An answer without an item came where a batch of `stride` items begins. -/
def RunsDry (stride : Nat) (answers : List (Answer ε α)) : Prop :=
  ∃ before after, answers = before ++ .ok none :: after ∧ stride ∣ sinceGap before

/-- Such an answer comes in front of an item. -/
def CutShort (stride : Nat) (answers : List (Answer ε α)) : Prop :=
  ∃ before after item, answers = before ++ .ok none :: after ∧ stride ∣ sinceGap before ∧
    .ok (some item) ∈ after

theorem items_append (answers more : List (Answer ε α)) :
    items (answers ++ more) = items answers ++ items more := List.filterMap_append

/-- An item is among the answers that carry it. -/
theorem mem_items {answers : List (Answer ε α)} {item : α} :
    item ∈ items answers ↔ .ok (some item) ∈ answers := by
  unfold items
  rw [List.mem_filterMap]
  constructor
  · intro h
    obtain ⟨answer, hmem, hitem⟩ := h
    cases answer with
    | error err => cases hitem
    | ok answered =>
        cases hitem
        exact hmem
  · intro hmem
    exact ⟨_, hmem, rfl⟩

theorem sinceGap_snoc (answers : List (Answer ε α)) (a : Answer ε α) :
    sinceGap (answers ++ [a]) = tick (sinceGap answers) a := by
  unfold sinceGap
  rw [List.foldl_append]
  rfl

theorem itemCount_snoc (answers : List (Answer ε α)) (a : Answer ε α) :
    itemCount (answers ++ [a]) = itemCount answers + (item? a).toList.length := by
  unfold itemCount
  rw [List.filterMap_append, List.length_append]
  cases h : item? a with
  | none => simp [h]
  | some item => simp [h]

/-- Items only become more. -/
theorem itemCount_mono {before answers : List (Answer ε α)} (h : before <+: answers) :
    itemCount before ≤ itemCount answers := by
  obtain ⟨after, heq⟩ := h
  unfold itemCount
  rw [← heq, List.filterMap_append, List.length_append]
  exact Nat.le_add_right _ _

/-- What ran dry stays dry under more answers. -/
theorem RunsDry.extend {stride : Nat} {before answers : List (Answer ε α)}
    (h : RunsDry stride before) (hpre : before <+: answers) : RunsDry stride answers := by
  obtain ⟨start, rest, heq, hstride⟩ := h
  obtain ⟨after, rfl⟩ := hpre
  refine ⟨start, rest ++ after, ?_, hstride⟩
  rw [heq, List.append_assoc, List.cons_append]

/-- One more answer runs dry if there was a gap before, or is one where a batch begins. -/
theorem runsDry_snoc {stride : Nat} {answers : List (Answer ε α)} {a : Answer ε α} :
    RunsDry stride (answers ++ [a]) ↔
      RunsDry stride answers ∨ (a = .ok none ∧ stride ∣ sinceGap answers) := by
  constructor
  · intro h
    obtain ⟨before, after, heq, hstride⟩ := h
    rcases List.eq_nil_or_concat after with hnil | ⟨rest, last, hsnoc⟩
    · subst hnil
      obtain ⟨hbefore, hlast⟩ := List.append_inj' heq rfl
      rw [hbefore]
      exact Or.inr ⟨(List.cons.inj hlast).1, hstride⟩
    · rw [hsnoc, List.concat_eq_append, ← List.cons_append, ← List.append_assoc] at heq
      obtain ⟨hbefore, -⟩ := List.append_inj' heq rfl
      exact Or.inl ⟨before, rest, hbefore, hstride⟩
  · intro hcase
    rcases hcase with hdry | ⟨rfl, hstride⟩
    · exact hdry.extend (List.prefix_append _ _)
    · exact ⟨answers, [], rfl, hstride⟩

/-- No answers, nothing dry. -/
theorem not_runsDry_nil (stride : Nat) : ¬ RunsDry stride ([] : List (Answer ε α)) := by
  intro h
  obtain ⟨before, after, heq, -⟩ := h
  exact List.append_ne_nil_of_right_ne_nil _ (List.cons_ne_nil _ _) heq.symm

/-- Where every answer but the failed ones has an item, nothing runs dry. -/
theorem not_runsDry_of_items {stride : Nat} {answers : List (Answer ε α)}
    (h : ∀ a ∈ answers, a ≠ .ok none) : ¬ RunsDry stride answers := by
  intro hcase
  obtain ⟨before, after, rfl, -⟩ := hcase
  exact h _ (List.mem_append_right _ List.mem_cons_self) rfl

/-- The length of a batch, and how many items may be drawn altogether. -/
structure Limits where
  stride : Nat
  room : Nat → Prop
  room_mono : ∀ {m n}, m ≤ n → room n → room m

namespace Limits

variable (L : Limits) {before answers : List (Answer ε α)}

/-- Behind these answers there is one more call. -/
def Wants (answers : List (Answer ε α)) : Prop :=
  ¬ RunsDry L.stride answers ∧ L.room (itemCount answers)

/-- Every call was made behind answers that left it to be made. -/
def Drawn (answers : List (Answer ε α)) : Prop :=
  ∀ before a, before ++ [a] <+: answers → L.Wants before

/-- All the calls were made, and no others. -/
def Over (answers : List (Answer ε α)) : Prop := L.Drawn answers ∧ ¬ L.Wants answers

variable {L}

/-- What wants more answers wanted them before. -/
theorem Wants.earlier (h : L.Wants answers) (hpre : before <+: answers) : L.Wants before :=
  ⟨fun hdry => h.1 (hdry.extend hpre), L.room_mono (itemCount_mono hpre) h.2⟩

theorem drawn_nil : L.Drawn ([] : List (Answer ε α)) := by
  intro before a hpre
  have hnil := List.prefix_nil.mp hpre
  exact absurd hnil (List.append_ne_nil_of_right_ne_nil _ (List.cons_ne_nil _ _))

theorem Drawn.snoc (h : L.Drawn answers) (hwants : L.Wants answers) (a : Answer ε α) :
    L.Drawn (answers ++ [a]) := by
  intro before b hpre
  rcases List.prefix_concat_iff.mp hpre with heq | hold
  · obtain ⟨hbefore, -⟩ := List.append_inj' heq rfl
    rw [hbefore]
    exact hwants
  · exact h before b hold

/-- **Which calls were made.**  Of a source that had `taken` and `left` to give and was found at its
end `idle` times, a call was made if and only if the answers before it leave it to be made. -/
theorem Over.made_iff {taken left before after : List (Answer ε α)} {idle : Nat} {a : Answer ε α}
    (h : L.Over (taken ++ List.replicate idle (.ok none))) (hidle : idle ≠ 0 → left = [])
    (heq : taken ++ left = before ++ a :: after) :
    before.length < taken.length ↔ L.Wants before := by
  have hbefore : before = (taken ++ left).take before.length := by
    rw [heq, List.take_left]
  constructor
  · intro hlt
    refine h.1 before a ?_
    have hall : before ++ [a] <+: taken ++ left := by
      refine ⟨after, ?_⟩
      rw [heq, List.append_assoc]
      rfl
    have hlength : (before ++ [a]).length ≤ taken.length := by
      rw [List.length_append, List.length_singleton]
      omega
    exact (List.prefix_of_prefix_length_le hall (List.prefix_append _ _) hlength).trans
      (List.prefix_append _ _)
  · intro hwants
    by_contra hge
    have hlength := congrArg List.length heq
    rw [List.length_append, List.length_append, List.length_cons] at hlength
    have hzero : idle = 0 := by
      by_contra hsome
      rw [hidle hsome, List.length_nil] at hlength
      omega
    rw [hzero, List.replicate_zero, List.append_nil] at h
    refine h.2 (hwants.earlier ?_)
    rw [hbefore]
    exact List.prefix_of_prefix_length_le (List.prefix_append _ _) (List.take_prefix _ _)
      (by rw [← hbefore]; omega)

/-! ### What is drawn altogether -/

/-- Asking an ended source again adds no item. -/
theorem items_idle (answers : List (Answer ε α)) (idle : Nat) :
    items (answers ++ List.replicate idle (.ok none)) = items answers := by
  induction idle with
  | zero => rw [List.replicate_zero, List.append_nil]
  | succ idle ih =>
      rw [List.replicate_succ', ← List.append_assoc, items_append, ih]
      exact List.append_nil _

/-- **When all items are drawn** from a source that had `taken` and `left` to give: exactly when no
answer without one comes where a batch begins in front of an item. -/
theorem Over.items_eq_iff {taken left : List (Answer ε α)} {idle : Nat}
    (h : L.Over (taken ++ List.replicate idle (.ok none))) (hidle : idle ≠ 0 → left = [])
    (hroom : ∀ n, L.room n) :
    items (taken ++ List.replicate idle (.ok none)) = items (taken ++ left) ↔
      ¬ CutShort L.stride (taken ++ left) := by
  rw [items_idle, items_append, List.self_eq_append_right]
  constructor
  · intro hnone hcase
    obtain ⟨before, after, item, heq, hstride, hitem⟩ := hcase
    obtain ⟨between, behind, rfl⟩ := List.append_of_mem hitem
    have hsplit : taken ++ left =
        (before ++ .ok none :: between) ++ .ok (some item) :: behind := by
      rw [heq, List.append_assoc, List.cons_append]
    have hdry : RunsDry L.stride (before ++ .ok none :: between) := ⟨before, between, rfl, hstride⟩
    have hge := Nat.not_lt.mp fun hlt => ((h.made_iff hidle hsplit).mp hlt).1 hdry
    have hget : (taken ++ left)[(before ++ .ok none :: between).length]? =
        some (.ok (some item)) := by
      rw [hsplit, List.getElem?_append_right (Nat.le_refl _), Nat.sub_self]
      rfl
    rw [List.getElem?_append_right hge] at hget
    have hleft := mem_items.mpr (List.mem_of_getElem? hget)
    rw [hnone] at hleft
    cases hleft
  · intro hcut
    by_contra hsome
    obtain ⟨item, hitem⟩ := List.exists_mem_of_ne_nil _ hsome
    have hmem := mem_items.mp hitem
    have hzero : idle = 0 := by
      by_contra hne
      rw [hidle hne] at hmem
      cases hmem
    have hover := h.2
    rw [hzero, List.replicate_zero, List.append_nil] at hover
    obtain ⟨before, after, htaken, hstride⟩ := not_not.mp fun hdry => hover ⟨hdry, hroom _⟩
    refine hcut ⟨before, after ++ left, item, ?_, hstride, List.mem_append_right _ hmem⟩
    rw [htaken, List.append_assoc, List.cons_append]

/-- Without room no call is made. -/
theorem Over.eq_nil (h : L.Over answers) (hroom : ∀ n, ¬ L.room n) : answers = [] := by
  cases answers with
  | nil => rfl
  | cons a rest => exact absurd (h.1 [] a ⟨rest, rfl⟩).2 (hroom _)

end Limits

end Feed
