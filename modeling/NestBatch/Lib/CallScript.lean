import Mathlib.Data.List.Range

/-!
# A source that is called again and again

Every call of a source yields an item, fails, or says that there is nothing
more.  A batch of calls skips those that fail and stops behind the first that
has nothing more; batch after batch cuts the calls into chunks.
-/

/-- What the calls of a source answer, one after the other. -/
abbrev CallScript (ε α : Type) := Nat → Except ε (Option α)

namespace CallScript

variable {ε α : Type} (script : CallScript ε α)

/-- Up to `m` calls from call `n` on: the call behind them, and their items. -/
def batch : Nat → Nat → Nat × List α
  | 0, n => (n, [])
  | m + 1, n =>
      match script n with
      | .error _ => batch m (n + 1)
      | .ok none => (n + 1, [])
      | .ok (some item) => ((batch m (n + 1)).1, item :: (batch m (n + 1)).2)

/-- The call at which chunk `k` starts, in batches of `size` calls. -/
def start (size : Nat) : Nat → Nat
  | 0 => 0
  | k + 1 => (script.batch size (start size k)).1

/-- The items of chunk `k`. -/
def chunk (size k : Nat) : List α := (script.batch size (script.start size k)).2

/-- The item of a call, if it has one. -/
def item? (n : Nat) : Option α :=
  match script n with
  | .ok item => item
  | .error _ => none

/-- The items of the first `n` calls. -/
def itemsBefore (n : Nat) : List α := (List.range n).filterMap script.item?

/-- The call does not fail. -/
def Answers (n : Nat) : Prop := ∃ answer, script n = .ok answer

variable {script} {m n size k : Nat}

/-- Calls that are made move on. -/
theorem le_batch (m n : Nat) : n ≤ (script.batch m n).1 := by
  induction m generalizing n with
  | zero => exact Nat.le_refl n
  | succ m ih =>
      have hnext := ih (n + 1)
      unfold batch
      split
      · omega
      · exact Nat.le_succ n
      · dsimp only
        omega

/-- A batch of a positive size asks at least once. -/
theorem lt_batch (h : 0 < m) (n : Nat) : n < (script.batch m n).1 := by
  obtain ⟨m, rfl⟩ := Nat.exists_eq_succ_of_ne_zero (Nat.ne_of_gt h)
  have hnext := script.le_batch m (n + 1)
  unfold batch
  split
  · omega
  · exact Nat.lt_succ_self n
  · dsimp only
    omega

/-- Later batches start no earlier. -/
theorem start_le (size : Nat) {j k : Nat} (h : j ≤ k) :
    script.start size j ≤ script.start size k := by
  induction k with
  | zero =>
      obtain rfl := Nat.le_zero.mp h
      exact Nat.le_refl _
  | succ k ih =>
      by_cases hlast : j = k + 1
      · rw [hlast]
      · exact Nat.le_trans (ih (by omega)) (le_batch size _)

/-- A call of a chunk is before a later chunk, and behind an earlier one. -/
theorem lt_start_iff {j : Nat} (hlow : script.start size j ≤ n)
    (hhigh : n < script.start size (j + 1)) (k : Nat) : n < script.start size k ↔ j < k := by
  constructor
  · intro hlt
    by_contra hle
    have hback := script.start_le size (Nat.not_lt.mp hle)
    omega
  · intro hlt
    exact Nat.lt_of_lt_of_le hhigh (start_le size hlt)

theorem itemsBefore_succ (n : Nat) :
    script.itemsBefore (n + 1) = script.itemsBefore n ++ (script.item? n).toList := by
  unfold itemsBefore
  rw [List.range_succ, List.filterMap_append]
  cases h : script.item? n with
  | none => simp [h]
  | some item => simp [h]

/-- A batch takes the items of its calls. -/
theorem itemsBefore_batch (m n : Nat) :
    script.itemsBefore (script.batch m n).1 = script.itemsBefore n ++ (script.batch m n).2 := by
  induction m generalizing n with
  | zero => exact (List.append_nil _).symm
  | succ m ih =>
      have hsucc := script.itemsBefore_succ n
      unfold item? at hsucc
      unfold batch
      split
      · next herr =>
          rw [herr, Option.toList_none, List.append_nil] at hsucc
          rw [ih, hsucc]
      · next hnone =>
          rw [hnone] at hsucc
          exact hsucc
      · next item hitem =>
          rw [hitem, Option.toList_some] at hsucc
          dsimp only
          rw [ih, hsucc, List.append_assoc, List.singleton_append]

/-- A range is split at any number below its end. -/
theorem range_split {m n : Nat} (h : m ≤ n) :
    List.range n = List.range m ++ List.range' m (n - m) := by
  have hjoin : List.range' 0 m ++ List.range' (0 + m) (n - m) = List.range' 0 (m + (n - m)) :=
    List.range'_append_1
  rw [Nat.zero_add, Nat.add_sub_cancel' h] at hjoin
  rw [List.range_eq_range', List.range_eq_range', hjoin]

/-- The chunks are the items, cut into pieces. -/
theorem itemsBefore_start (size k : Nat) :
    script.itemsBefore (script.start size k) = (List.range k).flatMap (script.chunk size) := by
  induction k with
  | zero => rfl
  | succ k ih =>
      rw [start, itemsBefore_batch, ih, List.range_succ, List.flatMap_append,
        List.flatMap_singleton]
      rfl

/-! ### Where a batch stands -/

/-- Call `n` is next in chunk `j`, with `left` calls still allowed and `items` taken. -/
structure InBatch (script : CallScript ε α) (size j left n : Nat) (items : List α) : Prop where
  calls : script.start size (j + 1) = (script.batch left n).1
  items : script.chunk size j = items ++ (script.batch left n).2

section InBatch

variable {j left : Nat} {items : List α}

theorem inBatch_start (size j : Nat) : script.InBatch size j size (script.start size j) [] :=
  ⟨rfl, rfl⟩

/-- An answered item extends the batch by that item. -/
theorem InBatch.item (h : script.InBatch size j (left + 1) n items) {item : α}
    (hitem : script n = .ok (some item)) :
    script.InBatch size j left (n + 1) (items ++ [item]) := by
  obtain ⟨hcalls, hitems⟩ := h
  unfold batch at hcalls hitems
  rw [hitem] at hcalls hitems
  refine ⟨hcalls, ?_⟩
  rw [hitems, List.append_assoc]
  rfl

/-- A failed call leaves the batch as it was, one call on. -/
theorem InBatch.failed (h : script.InBatch size j (left + 1) n items) {err : ε}
    (herr : script n = .error err) : script.InBatch size j left (n + 1) items := by
  obtain ⟨hcalls, hitems⟩ := h
  unfold batch at hcalls hitems
  rw [herr] at hcalls hitems
  exact ⟨hcalls, hitems⟩

/-- A batch with no calls left is over. -/
theorem InBatch.done (h : script.InBatch size j 0 n items) :
    n = script.start size (j + 1) ∧ script.chunk size j = items :=
  ⟨h.calls.symm, h.items.trans (List.append_nil items)⟩

/-- While something is left to ask the batch has not reached the next one. -/
theorem InBatch.lt (h : script.InBatch size j (left + 1) n items) :
    n < script.start size (j + 1) := by
  rw [h.calls]
  exact lt_batch (Nat.succ_pos left) n

end InBatch

/-! ### Failed calls and the end -/

variable (script) in
/-- Failed calls among the first `n`. -/
def failuresBefore : Nat → Nat
  | 0 => 0
  | n + 1 => failuresBefore n + match script n with
      | .error _ => 1
      | .ok _ => 0

variable (script) in
/-- The end was reported by one of the first `n` calls. -/
def EndedBefore (n : Nat) : Prop := ∃ m < n, script m = .ok none

/-- An answer adds no failure. -/
theorem failuresBefore_ok {answer : Option α} (h : script n = .ok answer) :
    script.failuresBefore (n + 1) = script.failuresBefore n := by
  rw [failuresBefore, h]
  exact Nat.add_zero _

/-- A failed call adds one. -/
theorem failuresBefore_error {err : ε} (h : script n = .error err) :
    script.failuresBefore (n + 1) = script.failuresBefore n + 1 := by
  rw [failuresBefore, h]

/-- Failures only accumulate. -/
theorem failuresBefore_mono (h : m ≤ n) : script.failuresBefore m ≤ script.failuresBefore n := by
  induction n with
  | zero => rw [Nat.le_zero.mp h]
  | succ n ih =>
      by_cases hlast : m = n + 1
      · rw [hlast]
      · exact Nat.le_trans (ih (by omega)) (Nat.le_add_right _ _)

theorem EndedBefore.mono (h : script.EndedBefore m) (hle : m ≤ n) : script.EndedBefore n := by
  obtain ⟨i, hi, hend⟩ := h
  exact ⟨i, by omega, hend⟩

variable (script) in
/-- A chunk without items marks the end: the first that has none has found it, or has met more
failures than `limit`. -/
def MarksEnd (size : Nat) (limit : Int) : Prop :=
  ∀ k, (∀ j < k, script.chunk size j ≠ []) → script.chunk size k = [] →
    script.EndedBefore (script.start size (k + 1)) ∨
      limit < script.failuresBefore (script.start size (k + 1))

/-- Batches of no calls get nowhere. -/
theorem start_zero (k : Nat) : script.start 0 k = 0 := by
  induction k with
  | zero => rfl
  | succ k ih => exact ih

end CallScript
