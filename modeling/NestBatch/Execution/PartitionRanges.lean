import Mathlib.Data.Int.Order.Basic
import NestBatch.Execution.ChunkStep

/-!
# The ranges of the partitions

`defaultRange` cuts the positions below `total` into `n` ranges, at the floors of the
multiples of `total / n`.  The cuts grow by `total / n` or by one more, so the ranges
follow each other, differ by one position at most, and each position lies in one of them.
-/

namespace NestBatch

/-- In a range between two cuts that follow each other lies every position between the first cut and
the last. -/
theorem exists_range_of_cuts (cut : Nat → Int) {n : Nat} {position : Int}
    (hfirst : cut 0 ≤ position) (hlast : position < cut n) :
    ∃ k < n, cut k ≤ position ∧ position < cut (k + 1) := by
  induction n with
  | zero => omega
  | succ n ih =>
      by_cases hbelow : position < cut n
      · obtain ⟨k, hk, hrange⟩ := ih hbelow
        exact ⟨k, by omega, hrange⟩
      · exact ⟨n, Nat.lt_succ_self n, by omega, hlast⟩

/-- The ranges of `n` partitions over the positions below `total`. -/
structure Tiles (n total : Int) (range : Int → Int × Int) : Prop where
  valid : ∀ i, 0 ≤ i → i < n →
    0 ≤ (range i).1 ∧ (range i).1 ≤ (range i).2 ∧ (range i).2 ≤ total
  consecutive : ∀ i, 0 ≤ i → i + 1 < n → (range i).2 = (range (i + 1)).1
  first : (range 0).1 = 0
  last : (range (n - 1)).2 = total
  balanced : ∀ i j, 0 ≤ i → i < n → 0 ≤ j → j < n →
    (range i).2 - (range i).1 ≤ (range j).2 - (range j).1 + 1
  covers : ∀ position, 0 ≤ position → position < total →
    ∃! i, (0 ≤ i ∧ i < n) ∧ (range i).1 ≤ position ∧ position < (range i).2

/-- Where the ranges are cut. -/
def rangeCut (n total i : Int) : Int := i * total / n

/-- The range between two cuts. -/
def cutRange (n total i : Int) : Int × Int := (rangeCut n total i, rangeCut n total (i + 1))

section Cuts

variable {n total i j : Int}

/-- The default range of a partition is its cut of the whole. -/
theorem defaultRange_eq (hi : 0 ≤ i) (hin : i < n) (htotal : 0 ≤ total) :
    defaultRange i n total = .ok (cutRange n total i) := by
  unfold defaultRange
  rw [if_neg (by omega), if_neg (by omega), if_neg (by omega)]
  rfl

theorem rangeCut_zero (n total : Int) : rangeCut n total 0 = 0 := by
  unfold rangeCut
  rw [Int.zero_mul, Int.zero_ediv]

/-- The last cut is at the total. -/
theorem rangeCut_last (hn : 1 ≤ n) (total : Int) : rangeCut n total n = total :=
  Int.mul_ediv_cancel_left total (by omega)

/-- From one cut to the next it is a floor, or one more. -/
theorem rangeCut_step (hn : 1 ≤ n) (total i : Int) :
    rangeCut n total i + total / n ≤ rangeCut n total (i + 1) ∧
      rangeCut n total (i + 1) ≤ rangeCut n total i + total / n + 1 := by
  have hpos : 0 < n := by omega
  have hsum : (i + 1) * total = i * total + total := by
    rw [Int.add_mul, Int.one_mul]
  unfold rangeCut
  rw [hsum]
  refine ⟨Int.ediv_add_ediv_le_add_ediv hpos, Int.le_of_lt_add_one ?_⟩
  have hcut := Int.lt_mul_ediv_self_add hpos (x := i * total)
  have hall := Int.lt_mul_ediv_self_add hpos (x := total)
  rw [Int.ediv_lt_iff_lt_mul hpos, Int.mul_comm _ n, Int.mul_add, Int.mul_add, Int.mul_add,
    Int.mul_one]
  omega

theorem rangeCut_le_succ (hn : 1 ≤ n) (htotal : 0 ≤ total) (i : Int) :
    rangeCut n total i ≤ rangeCut n total (i + 1) := by
  have hstep := (rangeCut_step hn total i).1
  have hfloor := Int.ediv_nonneg htotal (by omega : 0 ≤ n)
  omega

/-- Later cuts are no smaller. -/
theorem rangeCut_mono (hn : 1 ≤ n) (htotal : 0 ≤ total) (h : i ≤ j) :
    rangeCut n total i ≤ rangeCut n total j :=
  Int.ediv_le_ediv (by omega) (Int.mul_le_mul_of_nonneg_right h htotal)

/-- The cut ranges tile the total. -/
theorem tiles_cutRange (hn : 1 ≤ n) (htotal : 0 ≤ total) : Tiles n total (cutRange n total) where
  valid i hi hin := by
    have hfirst := rangeCut_mono hn htotal hi
    have hlast := rangeCut_mono hn htotal (by omega : i + 1 ≤ n)
    rw [rangeCut_zero] at hfirst
    rw [rangeCut_last hn] at hlast
    exact ⟨hfirst, rangeCut_le_succ hn htotal i, hlast⟩
  consecutive i _ _ := rfl
  first := rangeCut_zero n total
  last := by
    change rangeCut n total (n - 1 + 1) = total
    rw [Int.sub_add_cancel, rangeCut_last hn]
  balanced i j _ _ _ _ := by
    have hmost := (rangeCut_step hn total i).2
    have hleast := (rangeCut_step hn total j).1
    change rangeCut n total (i + 1) - rangeCut n total i ≤
      rangeCut n total (j + 1) - rangeCut n total j + 1
    omega
  covers position hposition hbelow := by
    have hfirst : rangeCut n total (0 : Nat) ≤ position := by
      rw [Int.natCast_zero, rangeCut_zero]
      exact hposition
    have hlast : position < rangeCut n total (n.toNat : Nat) := by
      rw [Int.toNat_of_nonneg (by omega), rangeCut_last hn]
      exact hbelow
    obtain ⟨k, hk, hrange⟩ := exists_range_of_cuts (fun k => rangeCut n total k) hfirst hlast
    refine ⟨k, ⟨⟨by omega, by omega⟩, hrange⟩, ?_⟩
    intro i hi
    obtain ⟨-, hlow, hhigh⟩ := hi
    -- a range that begins behind this one, or ends in front of it, does not hold the position
    change rangeCut n total i ≤ position at hlow
    change position < rangeCut n total (i + 1) at hhigh
    by_contra hne
    rcases Int.lt_or_gt_of_ne hne with hless | hmore
    · have hcut := rangeCut_mono hn htotal (by omega : i + 1 ≤ (k : Int))
      have hlow' : rangeCut n total k ≤ position := hrange.1
      omega
    · have hcut := rangeCut_mono hn htotal (by omega : (k : Int) + 1 ≤ i)
      have hhigh' : position < rangeCut n total (k + 1) := hrange.2
      omega

end Cuts

/-- **`defaultRange` tiles the input.** -/
theorem defaultRange_tiles (n total : Int) (hn : 1 ≤ n) (htotal : 0 ≤ total) :
    ∃ range : Int → Int × Int,
      (∀ i, 0 ≤ i → i < n → defaultRange i n total = .ok (range i)) ∧ Tiles n total range :=
  ⟨cutRange n total, fun _ hi hin => defaultRange_eq hi hin htotal, tiles_cutRange hn htotal⟩

/-- More partitions than positions. -/
theorem defaultRange_tiles_five : ∃ range : Int → Int × Int,
    (∀ i, 0 ≤ i → i < 5 → defaultRange i 5 3 = .ok (range i)) ∧ Tiles 5 3 range :=
  defaultRange_tiles 5 3 (by decide) (by decide)

namespace ChunkStepExecutor

/-- A step that is split evenly runs each partition on its range. -/
theorem resolveRange_defaultRange {step : ChunkStepDefinition} {context : ChunkExecutionContext}
    {partitions : ChunkPartitionConfig} {i n total : Int}
    (hpartitions : step.partitions = some partitions)
    (hrange : partitions.range = some fun i n => defaultRange i n total)
    (hindex : context.partitionIndex = some i) (hcount : context.partitionCount = some n)
    (hi : 0 ≤ i) (hin : i < n) (htotal : 0 ≤ total) :
    resolveRange step context = .ok (some (cutRange n total i)) := by
  have hvalid := (tiles_cutRange (by omega : 1 ≤ n) htotal).valid i hi hin
  have henforced : enforcePartitionIndex i n = .ok () := if_neg (by omega)
  unfold resolveRange
  rw [hindex, hcount, hpartitions]
  simp only [Option.bind_some, hrange, henforced, defaultRange_eq hi hin htotal]
  exact if_neg (by omega)

end ChunkStepExecutor

end NestBatch
