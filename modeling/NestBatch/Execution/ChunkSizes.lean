import Mathlib.Algebra.Order.Floor.Div
import Mathlib.Data.List.Induction
import NestBatch.Execution.PlainStep

/-!
# How large a chunk gets

The chunk loop caps what it reads for a chunk by the rest of its partition's
range, or else by the chunk size; the two caps are not combined.  A range longer
than a chunk is read, and drained, in one piece.
-/

namespace NestBatch

variable {α υ : Type}

namespace ChunkStepExecutor

open ListenerInvoker

section Sizes

variable {size : Nat} {S : Setting}

end Sizes

/-! ### A range that is read in one piece -/

/-- The whole range is read for the first chunk, which is the only one. -/
def Stage.Filled (length : Nat) : Stage α → (read committed : Nat) → Prop
  | .head, read, committed => (read = 0 ∧ committed = 0) ∨
      (read = length ∧ committed = 1 ∧ 0 < length)
  | .reading _ left items, read, committed => committed = 0 ∧ read = items.length ∧
      items.length + left = length ∧ 0 < length
  | .processing _ _ _, read, committed => committed = 0 ∧ read = length ∧ 0 < length
  | .written _ _ _, read, committed => committed = 0 ∧ read = length ∧ 0 < length
  | .committing _, read, committed => committed = 0 ∧ read = length ∧ 0 < length
  | .draining _ _ _, _, _ => False
  | .ended, _, committed => committed = if length = 0 then 0 else 1

section Filling

variable {S : Setting} {length : Nat}

end Filling

end ChunkStepExecutor

namespace ChunkStepExecutor

open ListenerInvoker

def filling (length : Nat) : LoopStates α where
  holds _ stage l _ := stage.Filled length l.readCount l.commitCount
  threw _ _ := True

section Step

variable {step : ChunkStepDefinition} {context : ChunkExecutionContext} {fuel : Nat}
  {range : Option (Int × Int)} {S : Setting} {from_ to_ : Int}

/-- A partition caps its reads by the rest of its range. -/
theorem cap_of_range (hrange : S.partition = some (from_, to_)) (n : Nat) :
    S.cap n = (to_ - from_).toNat - n := by
  unfold Setting.cap
  rw [hrange]
  dsimp only
  omega

/-- A fresh run drains no chunk. -/
theorem mustDrain_of_fresh (hfresh : S.context.resumeFromChunkIndex = none) (k : Int) :
    S.mustDrain k = false := by
  unfold Setting.mustDrain
  rw [hfresh]

end Step

/-! ### A long range -/

/-- The iterations a stage still takes. -/
def Stage.turns : Stage α → (read : Nat) → Nat
  | .head, 0 => 2
  | .ended, _ => 0
  | _, _ => 1

section OneChunk

variable {size : Nat} {from_ to_ : Int}

end OneChunk

end ChunkStepExecutor

end NestBatch
