import Mathlib.Data.List.Nodup
import NestBatch.Execution.ChunkSizes
import NestBatch.Execution.PartitionRanges

/-!
# What the partitions of a step write

A partition's range says how many items its chunk loop may read.  Where it reads
them is left to the reader: one that yields its input from the start gives every
partition the first items, whatever the range begins with.
-/

namespace NestBatch

variable {α υ : Type}

/-- The items at the positions of a range. -/
def itemsIn (items : List α) (range : Int × Int) : List α :=
  (items.take range.2.toNat).drop range.1.toNat

/-- The number of positions in a range. -/
def rangeSize (range : Int × Int) : Nat := (range.2 - range.1).toNat

/-- What is counted on: the reader yields the items from the first one on, a processor hands on what
it gets, the writer takes it, and a failed step stays failed. -/
def DeliversItems (items : List α) (calls : Calls α) : (o : Op α) → o.Resp → Prop
  | .user (.read _ _), r => r = .ok items[tally readsMade calls]?
  | .user (.process _ item _), r => r = .ok (some item)
  | .user (.write _ _ _), r => ∃ report, r = .ok report
  | .user (.afterStep _ _ result), r => result.status = .FAILED → r.2.status = .FAILED
  | _, _ => True

def deliveryRules (items : List α) : CallRules α := { allowed := DeliversItems items }

/-- Started in `w`, the environment answers so. -/
def Delivers (env : Environment α υ) (items : List α) (w : World υ) : Prop :=
  ∃ R, AnswersAs env (deliveryRules items) R ∧ R w []

namespace ChunkStepExecutor

open ListenerInvoker

/-- What has been written and what the chunk at hand holds are the first `read` items; `short` is
what it takes to run out of iterations. -/
def Stage.Sliced (items : List α) (size : Nat) (short : Prop) :
    Stage α → (fuel read reads : Nat) → (written : List α) → Prop
  | .head, fuel, read, reads, sent => sent = items.take read ∧
      ((reads = 0 ∧ (short ∨ 2 ≤ fuel)) ∨
        ((size ≤ read ∨ items.length ≤ reads) ∧ (short ∨ 1 ≤ fuel)))
  | .reading _ left chunk, fuel, read, reads, sent => sent ++ chunk = items.take read ∧
      (((left + read = size ∨ items.length ≤ reads) ∧ (short ∨ 1 ≤ fuel)) ∨
        (chunk = [] ∧ items.length ≤ reads))
  | .processing _ rest processed, fuel, read, reads, sent =>
      sent ++ (processed ++ rest) = items.take read ∧
        (size ≤ read ∨ items.length ≤ reads) ∧ (short ∨ 1 ≤ fuel)
  | .written _ _ _, fuel, read, reads, sent => sent = items.take read ∧
      (size ≤ read ∨ items.length ≤ reads) ∧ (short ∨ 1 ≤ fuel)
  | .committing _, fuel, read, reads, sent => sent = items.take read ∧
      (size ≤ read ∨ items.length ≤ reads) ∧ (short ∨ 1 ≤ fuel)
  | .draining _ _ _, _, _, _, _ => False
  | .ended, _, _, _, sent => sent = items.take size

/-- So many reads have brought the first `read` items; one behind the last item brings nothing. -/
def Slicing (items : List α) (size : Nat) (short : Prop) (fuel : Nat) (stage : Stage α)
    (read reads : Nat) (written : List α) : Prop :=
  read = min reads items.length ∧ read ≤ size ∧
    stage.Sliced items size short fuel read reads written

section Slicing

variable {items : List α} {size : Nat} {short : Prop}

/-- A full range and an exhausted input both leave the first `size` items. -/
theorem take_read_eq {read reads : Nat} (hread : read = min reads items.length)
    (hsize : read ≤ size) (htaken : size ≤ read ∨ items.length ≤ reads) :
    items.take read = items.take size := by
  rcases htaken with hfull | hdry
  · rw [Nat.le_antisymm hsize hfull]
  · have hall : read = items.length := by omega
    rw [List.take_of_length_le (by omega), List.take_of_length_le (by omega)]

section Steps

variable {fuel fuel' reads : Nat} {stage stage' : Stage α} {l l' : Locals} {k : Int} {left : Nat}
  {chunk written : List α}

/-- **Between the calls** the loop only ends with all it may read. -/
theorem slicing_silent {S : Setting} (hcap : ∀ n, S.cap n = size - n)
    (hfresh : ∀ k, S.mustDrain k = false) (hmove : Silent S fuel stage l fuel' stage' l')
    (h : Slicing items size short fuel stage l.readCount reads written) :
    Slicing items size short fuel' stage' l'.readCount reads written := by
  obtain ⟨hread, hsize, hstage⟩ := h
  refine ⟨?_, ?_, ?_⟩
  · cases hmove with
    | _ => exact hread
  · cases hmove with
    | _ => exact hsize
  cases hmove with
  | full hzero =>
      rw [hcap] at hzero
      have hfull : l.readCount = size := by omega
      rw [hfull] at hstage
      exact hstage.1
  | start _ hsome =>
      rw [hcap] at hsome
      obtain ⟨hwritten, ⟨hnone, hfuel⟩ | ⟨htaken, hfuel⟩⟩ := hstage
      · refine ⟨(List.append_nil _).trans hwritten, Or.inl ⟨Or.inl ?_, ?_⟩⟩
        · rw [hcap]
          omega
        · exact hfuel.imp_right (by omega)
      · exact ⟨(List.append_nil _).trans hwritten, Or.inr ⟨rfl, by omega⟩⟩
  | blank =>
      obtain ⟨hwritten, hstop⟩ := hstage
      have htaken : size ≤ l.readCount ∨ items.length ≤ reads := by omega
      exact ((List.append_nil _).symm.trans hwritten).trans (take_read_eq hread hsize htaken)
  | process hitems =>
      obtain ⟨hwritten, ⟨htaken, hfuel⟩ | ⟨hnil, -⟩⟩ := hstage
      · exact ⟨hwritten, by omega, hfuel⟩
      · exact absurd hnil hitems
  | copy _ =>
      obtain ⟨hwritten, hrest⟩ := hstage
      refine ⟨?_, hrest⟩
      rw [List.append_assoc, List.singleton_append]
      exact hwritten
  | nothing =>
      obtain ⟨hwritten, hrest⟩ := hstage
      exact ⟨(List.append_nil _).symm.trans hwritten, hrest⟩
  | reported => exact hstage
  | commit => exact ⟨hstage.1, Or.inr hstage.2⟩
  | drain hdrain _ =>
      rw [hfresh] at hdrain
      cases hdrain
  | dry => exact hstage.elim
  | drained _ => exact hstage.elim

/-- A read in front of the end takes the next item. -/
theorem Slicing.item {item : α} (hitem : items[reads]? = some item)
    (h : Slicing items size short fuel (.reading k (left + 1) chunk) l.readCount reads written) :
    Slicing items size short fuel (.reading k left (chunk ++ [item])) (l.readCount + 1) (reads + 1)
      written := by
  obtain ⟨hread, hsize, hchunk, hstop⟩ := h
  obtain ⟨hbelow, -⟩ := List.getElem?_eq_some_iff.mp hitem
  have hcount : l.readCount = reads := by omega
  obtain ⟨hroom, hfuel⟩ := hstop.resolve_right (by omega)
  refine ⟨by omega, by omega, ?_, Or.inl ⟨Or.inl (by omega), hfuel⟩⟩
  rw [← List.append_assoc, hchunk, hcount, List.take_add_one, hitem]
  rfl

/-- A read behind it ends the chunk. -/
theorem Slicing.dry (hitem : items[reads]? = none)
    (h : Slicing items size short fuel (.reading k (left + 1) chunk) l.readCount reads written) :
    Slicing items size short fuel (.reading k 0 chunk) l.readCount (reads + 1) written := by
  obtain ⟨hread, hsize, hchunk, hstop⟩ := h
  have hdry := List.getElem?_eq_none_iff.mp hitem
  exact ⟨by omega, hsize, hchunk, hstop.imp (fun hmore => ⟨Or.inr (by omega), hmore.2⟩)
    fun hnil => ⟨hnil.1, by omega⟩⟩

/-- A write takes the chunk at hand, whatever is reported of it. -/
theorem Slicing.write {processed : List α} (report : Option WriterResult)
    (h : Slicing items size short fuel (.processing k [] processed) l.readCount reads written) :
    Slicing items size short fuel (.written k processed report) l.readCount reads
      (written ++ processed) := by
  obtain ⟨hread, hsize, htaken, hrest⟩ := h
  rw [List.append_nil] at htaken
  exact ⟨hread, hsize, htaken, hrest⟩

/-- There is an iteration left to begin, unless they may run out. -/
theorem Slicing.spin (h : Slicing items size short 0 .head l.readCount reads written) : short := by
  obtain ⟨-, -, -, ⟨-, hmore⟩ | ⟨-, hmore⟩⟩ := h
  · exact hmore.resolve_right (by omega)
  · exact hmore.resolve_right (by omega)

theorem slicing_start {read : Nat} (hread : read = 0) (hfuel : short ∨ 2 ≤ fuel) :
    Slicing items size short fuel .head read 0 [] := by
  subst hread
  exact ⟨(Nat.zero_min _).symm, Nat.zero_le _, rfl, Or.inl ⟨rfl, hfuel⟩⟩

end Steps

/-- The first items of the input, at every stage. -/
def slicing (items : List α) (size : Nat) (short : Prop) : LoopStates α where
  holds fuel stage l calls :=
    Slicing items size short fuel stage l.readCount (tally readsMade calls) (writtenItems calls)
  threw _ _ := True

/-- Calls that neither read nor write leave it alone. -/
theorem slicing_snoc {fuel : Nat} {stage : Stage α} {l : Locals} {calls : Calls α} {o : Op α}
    (h : (slicing items size short).holds fuel stage l calls) (hread : o.kind ≠ .read)
    (hwrite : o.kind ≠ .write) (r : o.Resp) :
    (slicing items size short).holds fuel stage l (calls ++ [⟨o, r⟩]) := by
  unfold slicing at h ⊢
  dsimp only at h ⊢
  rw [tally_snoc_zero (readsMade_of_kind hread r), writtenItems_snoc_of_kind hwrite]
  exact h

/-- A read takes what the reader yields next. -/
theorem slicing_read {policies : Policies} {fuel : Nat} {k : Int} {left : Nat} {chunk : List α}
    {l : Locals} {calls calls' : Calls α}
    (hreads : tally readsMade calls' = tally readsMade calls + 1)
    (hwritten : writtenItems calls' = writtenItems calls)
    (h : (slicing items size short).holds fuel (.reading k (left + 1) chunk) l calls) :
    (slicing items size short).AfterRead policies fuel k left chunk l
      (.ok items[tally readsMade calls]?) calls' := by
  cases hitem : items[tally readsMade calls]? with
  | none =>
      change Slicing _ _ _ _ _ _ (tally readsMade calls') (writtenItems calls')
      rw [hreads, hwritten]
      exact Slicing.dry hitem h
  | some item =>
      change Slicing _ _ _ _ _ _ (tally readsMade calls') (writtenItems calls')
      rw [hreads, hwritten]
      exact Slicing.item hitem h

/-- A write takes what is left of the chunk. -/
theorem slicing_write {policies : Policies} {fuel : Nat} {k : Int} {processed : List α}
    {l : Locals} {calls calls' : Calls α} {report : Option WriterResult}
    (hreads : tally readsMade calls' = tally readsMade calls)
    (hwritten : writtenItems calls' = writtenItems calls ++ processed)
    (h : (slicing items size short).holds fuel (.processing k [] processed) l calls) :
    (slicing items size short).AfterWrite policies fuel k processed l (.ok report) calls' := by
  change Slicing _ _ _ _ _ _ (tally readsMade calls') (writtenItems calls')
  rw [hreads, hwritten]
  exact Slicing.write report h

/-- Every call of the chunk loop takes the slice further. -/
theorem slicing_advances {S : Setting} (hcap : ∀ n, S.cap n = size - n)
    (hfresh : ∀ k, S.mustDrain k = false) :
    (slicing items size short).Advances S (deliveryRules items) short where
  quiet fuel stage l := by
    refine logged_frame (fun _ _ _ _ => trivial) ?_
    intro calls o r ho _ h
    refine slicing_snoc h ?_ ?_ r
    · intro heq
      exact absurd (heq ▸ ho : OpKind.read ∈ LoopStates.quietKinds) (by decide)
    · intro heq
      exact absurd (heq ▸ ho : OpKind.write ∈ LoopStates.quietKinds) (by decide)
  counters _ stage l l' calls hl h := by
    change Slicing _ _ _ _ _ l'.readCount _ _
    rw [hl.readCount]
    exact h
  silent _ _ _ _ _ _ _ hmove h := slicing_silent hcap hfresh hmove h
  read fuel k left chunk l calls h := by
    refine ⟨trivial, ?_⟩
    intro r hr
    have hanswer : r = .ok items[tally readsMade calls]? := hr
    subst hanswer
    exact slicing_read (tally_snoc _ _ _ _)
      (writtenItems_snoc_of_kind (fun heq => by cases heq) _ _) h
  process fuel k item rest processed l calls processor _ h := by
    refine ⟨trivial, ?_⟩
    intro r hr
    have hanswer : r = .ok (some item) := hr
    subst hanswer
    refine slicing_snoc ?_ (fun heq => by cases heq) (fun heq => by cases heq) _
    obtain ⟨hread, hsize, hwritten, hrest⟩ := h
    refine ⟨hread, hsize, ?_, hrest⟩
    rw [List.append_assoc, List.singleton_append]
    exact hwritten
  write fuel k processed l calls _ h := by
    refine ⟨trivial, ?_⟩
    intro r hr
    obtain ⟨report, hanswer⟩ : ∃ report, r = .ok report := hr
    subst hanswer
    exact slicing_write (tally_snoc_zero rfl) (writtenItems_snoc _ _ _) h
  length fuel k _ l calls h := by
    refine ⟨trivial, fun n _ => ?_⟩
    have hkept : (slicing items size short).holds fuel (.committing k) (l.wrote n 0) calls := h
    exact slicing_snoc hkept (fun heq => by cases heq) (fun heq => by cases heq) _
  drain _ _ _ _ _ _ h := h.2.2.elim

variable {fuel : Nat} {step : ChunkStepDefinition} {context : ChunkExecutionContext}
  {range : Int × Int}

/-- **What a partition writes**: as many of the first items as its range has positions. -/
theorem execute_slicing (hrange : resolveRange step context = .ok (some range))
    (hfresh : context.resumeFromChunkIndex = none) (hfuel : short ∨ 2 ≤ fuel) :
    (execute fuel step context : Code α StepResult).wp (logged (deliveryRules items) short)
      (EndsWith fun result calls =>
        result.status ≠ .FAILED → writtenItems calls = items.take (rangeSize range)) [] := by
  have hframe : ∀ {K : List OpKind}, .read ∉ K → .write ∉ K → ∀ J : Nat → List α → Prop,
      (logged (deliveryRules items) short).Frame (On K)
        (fun calls => J (tally readsMade calls) (writtenItems calls)) := by
    intro K hread hwrite J
    refine logged_frame (fun _ _ _ _ => trivial) ?_
    intro calls o r ho _ h
    rw [tally_snoc_zero (readsMade_of_kind (fun heq => hread (heq ▸ ho)) r),
      writtenItems_snoc_of_kind (fun heq => hwrite (heq ▸ ho))]
    exact h
  refine wp_execute_result
    (fun result => hframe (by decide) (by decide) fun _ written =>
      result.status ≠ .FAILED → written = items.take (rangeSize range)) ?_
    (hframe (by decide) (by decide) fun reads written => reads = 0 ∧ written = [])
    (hframe (by decide) (by decide) fun reads written => reads = 0 ∧ written = []) ?_ ?_
    ⟨rfl, rfl⟩
  · intro fn ctx result calls r calls' ht h hfailed
    have hstays : result.status = .FAILED → r.2.status = .FAILED := ht.2
    exact h fun heq => hfailed (hstays heq)
  · intro l exitMessage calls hnot
    exact absurd rfl hnot
  · intro policies partition S l calls _ hpartition hS hl hnothing
    obtain ⟨hreads, hwritten⟩ := hnothing
    have hpartition' : S.partition = some range :=
      hS.partition.trans (Except.ok.inj (hpartition.symm.trans hrange))
    have hdrain := mustDrain_of_fresh ((congrArg (·.resumeFromChunkIndex) hS.context).trans hfresh)
    have hhead : (slicing items (rangeSize range) short).holds fuel .head l calls := by
      change Slicing _ _ _ _ _ _ (tally readsMade calls) (writtenItems calls)
      rw [hreads, hwritten]
      exact slicing_start hl.readCount hfuel
    have hadvances : (slicing items (rangeSize range) short).Advances S (deliveryRules items)
        short := slicing_advances (cap_of_range hpartition') hdrain
    have hsound := hadvances.sound_of_spin (fun _ _ => trivial) (fun _ _ _ => trivial)
      fun _ _ h => h.spin
    refine Scoped.wp_mono (hsound.wp_chunkLoop fuel hhead) ?_
    intro out l' calls' hout hok _
    subst hok
    obtain ⟨_, -, -, hended⟩ := hout
    exact hended

/-- The same reader under a plain step, with enough iterations. -/
def listing (items : List α) (size : Nat) : PlainStates α where
  holds fuel stage l n := ∃ written, Slicing items size False fuel stage l.readCount n written

/-- Listing is sound for a setting whose cap is the rest of the size. -/
theorem listing_sound {S : Setting} (hcap : ∀ n, S.cap n = size - n)
    (hfresh : ∀ k, S.mustDrain k = false) :
    (listing items size).Sound S fun n => .ok items[n]? where
  counters _ _ _ _ _ hl h := by
    obtain ⟨written, h⟩ := h
    refine ⟨written, ?_⟩
    rw [hl.readCount]
    exact h
  spin _ _ h := by
    obtain ⟨_, h⟩ := h
    exact h.spin
  silent _ _ _ _ _ _ _ hmove h := by
    obtain ⟨written, h⟩ := h
    exact ⟨written, slicing_silent hcap hfresh hmove h⟩
  read _ _ _ _ _ n h := by
    obtain ⟨written, h⟩ := h
    cases hitem : items[n]? with
    | none => exact ⟨written, h.dry hitem⟩
    | some item => exact ⟨written, h.item hitem⟩
  write _ _ _ _ _ _ h := by
    obtain ⟨written, h⟩ := h
    exact ⟨_, h.write none⟩
  length _ _ _ _ _ h := h
  drain _ _ _ _ _ _ h := by
    obtain ⟨_, -, -, h⟩ := h
    exact h

end Slicing

end ChunkStepExecutor

/-! ### All partitions of a step -/

/-- `{ count: n, range: (i, n) => defaultRange(i, n, total) }`. -/
def evenPartitions (n total : Nat) : ChunkPartitionConfig :=
  { count := n, range := some fun i n => defaultRange i n total }

/-- A step that is split evenly over the items. -/
structure EvenlySplit (items : List α) (size n : Nat) (step : ChunkStepDefinition) : Prop where
  chunkSize : step.chunkSize = size
  partitions : step.partitions = some (evenPartitions n items.length)

/-- It is run as partition `i`, and from the start. -/
structure AsPartition (n i : Nat) (context : ChunkExecutionContext) : Prop where
  index : context.partitionIndex = some (i : Int)
  count : context.partitionCount = some (n : Int)
  fresh : context.resumeFromChunkIndex = none

/-- Partition `i` was run over a fresh reader and completed, having made `calls`. -/
def CompletesPartition (items : List α) (size n i : Nat) (calls : Calls α) : Prop :=
  ∃ (υ : Type) (env : Environment α υ) (fuel : Nat) (step : ChunkStepDefinition)
    (context : ChunkExecutionContext) (w : World υ) (result : StepResult),
    EvenlySplit items size n step ∧ AsPartition n i context ∧ Delivers env items w ∧
      ChunkStepExecutor.Returns env fuel step context w result calls ∧ result.status = .COMPLETED

/-- The partitions of a step cover its input: each comes to an end, it writes the items of its range
if it completes, and all of them write every item once. -/
structure CoversInput (items : List α) (size n : Nat) : Prop where
  ends : ∀ (υ : Type) (env : Environment α υ) (fuel : Nat) (step : ChunkStepDefinition)
    (context : ChunkExecutionContext) (w : World υ), EvenlySplit items size n step →
      ∀ i < n, AsPartition n i context → Delivers env items w → 2 ≤ fuel →
        ∃ out s, Prog.run (handle env).traced (ChunkStepExecutor.execute fuel step context)
          (w, []) = (.ended out, s)
  slices : ∀ i < n, ∀ calls, CompletesPartition items size n i calls → ∀ from_ to_,
    defaultRange i n items.length = .ok (from_, to_) →
      writtenItems calls = itemsIn items (from_, to_)
  whole : ∀ logs : Nat → Calls α, (∀ i < n, CompletesPartition items size n i (logs i)) →
    (List.range n).flatMap (fun i => writtenItems (logs i)) = items

/-- In every range stands what the input begins with. -/
def BeginsAlike (items : List α) (n : Nat) : Prop :=
  ∀ i < n, ∀ from_ to_, defaultRange i n items.length = .ok (from_, to_) →
    ∀ k, k < (to_ - from_).toNat → items[from_.toNat + k]? = items[k]?

section Ranges

variable {items : List α} {size n i : Nat}

/-- Up to a cut the ranges hold the items in front of it. -/
theorem flatMap_itemsIn (hn : 1 ≤ n) (items : List α) (k : Nat) :
    (List.range k).flatMap (fun i : Nat => itemsIn items (cutRange n items.length i)) =
      items.take (rangeCut n items.length k).toNat := by
  induction k with
  | zero =>
      rw [Int.natCast_zero, rangeCut_zero]
      rfl
  | succ k ih =>
      have hstep := rangeCut_le_succ (by omega : (1 : Int) ≤ n) (Int.natCast_nonneg items.length)
        (k : Int)
      have hcut : (rangeCut n items.length k).toNat ≤ (rangeCut n items.length (k + 1)).toNat := by
        omega
      rw [List.range_succ, List.flatMap_append, List.flatMap_singleton, ih]
      calc items.take (rangeCut n items.length k).toNat ++
            itemsIn items (cutRange n items.length k)
          = (items.take (rangeCut n items.length (k + 1)).toNat).take
              (rangeCut n items.length k).toNat ++ itemsIn items (cutRange n items.length k) := by
            rw [List.take_take, Nat.min_eq_left hcut]
        _ = items.take (rangeCut n items.length (k + 1)).toNat := List.take_append_drop _ _

/-- **Behind each other** the ranges hold all items. -/
theorem flatMap_itemsIn_eq (hn : 1 ≤ n) (items : List α) :
    (List.range n).flatMap (fun i : Nat => itemsIn items (cutRange n items.length i)) = items := by
  rw [flatMap_itemsIn hn, rangeCut_last (by omega)]
  exact List.take_length

/-- A range holds the first items where they are the same, position by position. -/
theorem take_eq_itemsIn_iff {range : Int × Int} (hvalid : 0 ≤ range.1 ∧ range.1 ≤ range.2) :
    items.take (rangeSize range) = itemsIn items range ↔
      ∀ k, k < rangeSize range → items[range.1.toNat + k]? = items[k]? := by
  have htake : ∀ k, (items.take (rangeSize range))[k]? =
      if k < rangeSize range then items[k]? else none := fun k => List.getElem?_take
  have hdrop : ∀ k, (itemsIn items range)[k]? =
      if k < rangeSize range then items[range.1.toNat + k]? else none := by
    intro k
    unfold itemsIn
    rw [List.getElem?_drop, List.getElem?_take]
    refine if_congr ?_ rfl rfl
    unfold rangeSize
    omega
  constructor
  · intro h k hk
    have hsame : (items.take (rangeSize range))[k]? = (itemsIn items range)[k]? :=
      congrArg (·[k]?) h
    rw [htake, hdrop, if_pos hk, if_pos hk] at hsame
    exact hsame.symm
  · intro h
    refine List.ext_getElem? fun k => ?_
    rw [htake, hdrop]
    split
    · next hk => exact (h k hk).symm
    · rfl

/-- The range of a partition. -/
theorem defaultRange_iff (hi : i < n) {from_ to_ : Int} :
    defaultRange i n items.length = .ok (from_, to_) ↔
      cutRange n items.length i = (from_, to_) := by
  rw [defaultRange_eq (Int.natCast_nonneg i) (Int.ofNat_lt.mpr hi)
    (Int.natCast_nonneg items.length)]
  exact ⟨Except.ok.inj, congrArg _⟩

/-- The partitions begin alike exactly when each takes its range's length from the start. -/
theorem beginsAlike_iff : BeginsAlike items n ↔ ∀ i < n,
    items.take (rangeSize (cutRange n items.length i)) =
      itemsIn items (cutRange n items.length i) := by
  refine forall_congr' fun i => forall_congr' fun hi => ?_
  have hvalid := (tiles_cutRange (by omega : (1 : Int) ≤ n)
    (Int.natCast_nonneg items.length)).valid i (Int.natCast_nonneg i) (Int.ofNat_lt.mpr hi)
  rw [take_eq_itemsIn_iff ⟨hvalid.1, hvalid.2.1⟩]
  constructor
  · intro h
    exact h _ _ ((defaultRange_iff hi).mpr rfl)
  · intro h from_ to_ hrange k hk
    rw [(defaultRange_iff hi).mp hrange] at h
    exact h k hk

/-- The last range of two or more begins inside a list of two or more. -/
theorem rangeCut_last_range (hn : 2 ≤ n) (hmany : 2 ≤ items.length) :
    1 ≤ rangeCut n items.length (n - 1 : Nat) ∧
      rangeCut n items.length (n - 1 : Nat) < items.length := by
  have hpos : (0 : Int) < n := by omega
  have htwice : ((n - 1 : Nat) : Int) * 2 ≤ (n - 1 : Nat) * items.length :=
    Int.mul_le_mul_of_nonneg_left (by omega) (by omega)
  have hless : ((n - 1 : Nat) : Int) * items.length < n * items.length :=
    Int.mul_lt_mul_of_pos_right (by omega) (by omega)
  unfold rangeCut
  refine ⟨?_, ?_⟩
  · rw [Int.le_ediv_iff_mul_le hpos]
    omega
  · rw [Int.ediv_lt_iff_lt_mul hpos, Int.mul_comm (items.length : Int)]
    exact hless

/-- A list in which nothing stands twice has at most one item then. -/
theorem beginsAlike_iff_of_nodup (hn : 2 ≤ n) (hnodup : items.Nodup) :
    BeginsAlike items n ↔ items.length ≤ 1 := by
  constructor
  · intro h
    by_contra hmany
    obtain ⟨hfrom, hto⟩ := rangeCut_last_range hn (by omega : 2 ≤ items.length)
    have hlast : ((n - 1 : Nat) : Int) + 1 = n := by omega
    have hend : rangeCut n items.length ((n - 1 : Nat) + 1) = items.length := by
      rw [hlast]
      exact rangeCut_last (by omega) _
    have hsame := h (n - 1) (by omega) _ _ ((defaultRange_iff (by omega)).mpr rfl) 0 (by omega)
    have hfirst := (List.getElem?_inj (by omega) hnodup).mp hsame
    omega
  · intro hone i hi from_ to_ hrange k hk
    have hvalid := (tiles_cutRange (by omega : (1 : Int) ≤ n)
      (Int.natCast_nonneg items.length)).valid i (Int.natCast_nonneg i) (Int.ofNat_lt.mpr hi)
    rw [(defaultRange_iff hi).mp hrange] at hvalid
    dsimp only at hvalid
    have hsame : from_.toNat + k = k := by omega
    rw [hsame]

end Ranges

section Runs

variable {items : List α} {size n i : Nat} {step : ChunkStepDefinition}
  {context : ChunkExecutionContext}

/-- A partition of an evenly split step resolves to its cut. -/
theorem EvenlySplit.resolveRange (hsplit : EvenlySplit items size n step)
    (hcontext : AsPartition n i context) (hi : i < n) :
    ChunkStepExecutor.resolveRange step context = .ok (some (cutRange n items.length i)) :=
  ChunkStepExecutor.resolveRange_defaultRange hsplit.partitions rfl hcontext.index hcontext.count
    (Int.natCast_nonneg i) (Int.ofNat_lt.mpr hi) (Int.natCast_nonneg items.length)

/-- A completed partition has written the first items. -/
theorem CompletesPartition.written {calls : Calls α} (hi : i < n)
    (h : CompletesPartition items size n i calls) :
    writtenItems calls = items.take (rangeSize (cutRange n items.length i)) := by
  obtain ⟨_, _, _, _, _, _, result, hsplit, hcontext, ⟨_, hanswers, hstart⟩, hreturns, hdone⟩ := h
  refine hreturns.of_logged hanswers (ChunkStepExecutor.execute_slicing
    (hsplit.resolveRange hcontext hi) hcontext.fresh (Or.inl trivial)) hstart ?_
  rw [hdone]
  exact fun heq => by cases heq

/-- Every partition comes to an end. -/
theorem ended_of_delivers {env : Environment α υ} {fuel : Nat} {w : World υ}
    (hsplit : EvenlySplit items size n step) (hi : i < n) (hcontext : AsPartition n i context)
    (hdelivers : Delivers env items w) (hfuel : 2 ≤ fuel) :
    ∃ out s, Prog.run (handle env).traced (ChunkStepExecutor.execute fuel step context) (w, []) =
      (.ended out, s) := by
  obtain ⟨_, hanswers, hstart⟩ := hdelivers
  obtain ⟨out, hended, -⟩ := Prog.wp_run_total (wp_total_of_logged hanswers
    (ChunkStepExecutor.execute_slicing (hsplit.resolveRange hcontext hi) hcontext.fresh
      (Or.inr hfuel)) hstart)
  exact ⟨out, _, Prod.ext hended rfl⟩

/-- An answer by the list's script delivers its items. -/
theorem delivers_of_scripted {calls : Calls α} {o : Op α} {r : o.Resp}
    (h : ScriptedAnswer (fun n => .ok items[n]?) calls o r) : DeliversItems items calls o r := by
  cases o with
  | user call =>
      cases call with
      | read reader ctx => exact h
      | process processor item ctx => exact h
      | write writer chunk ctx => exact ⟨none, h⟩
      | afterStep fn ctx result =>
          have hr : r = (Except.ok (), result) := h
          rw [hr]
          exact fun hfailed => hfailed
      | _ => trivial
  | _ => trivial

/-- The scripted reader over a list delivers it. -/
theorem scripted_delivers (items : List α) {w : World Nat} (hw : w.user = 0) :
    Delivers (scriptedReading fun n => .ok items[n]?) items w := by
  refine ⟨fun w calls => w.user = tally readsMade calls ∧
    (scriptRules fun n => .ok items[n]?).Fair calls, ?_, hw, throughout_nil⟩
  intro o w calls hrel
  obtain ⟨hallowed, hnext⟩ := scriptedReading_answers _ o w calls hrel
  exact ⟨delivers_of_scripted hallowed, hnext⟩

/-- **Every partition can be completed.** -/
theorem exists_completesPartition (items : List α) (size : Nat) (hi : i < n) :
    ∃ calls, CompletesPartition items size n i calls := by
  have hsplit : EvenlySplit items size n
      (ChunkStepExecutor.splitStep size (some (evenPartitions n items.length)) none) := ⟨rfl, rfl⟩
  have hcontext : AsPartition n i (ChunkStepExecutor.splitContext i n) := ⟨rfl, rfl, rfl⟩
  have hsound : (ChunkStepExecutor.listing items (rangeSize (cutRange n items.length i))).Sound
      (ChunkStepExecutor.splitSetting size (some (evenPartitions n items.length))
        (some (cutRange n items.length i)) none i n) fun n => .ok items[n]? :=
    ChunkStepExecutor.listing_sound (ChunkStepExecutor.cap_of_range rfl)
      (ChunkStepExecutor.mustDrain_of_fresh rfl)
  have hstart : ∀ l, ChunkStepExecutor.SameCounters {} l →
      (ChunkStepExecutor.listing items (rangeSize (cutRange n items.length i))).holds 2 .head l 0 :=
    fun l hl => ⟨[], ChunkStepExecutor.slicing_start hl.readCount (Or.inr (Nat.le_refl 2))⟩
  have hw : (World.initial (unaryIds 'r') (unaryIds 'u') 0).user = 0 := rfl
  obtain ⟨l, calls, -, -, hreturns⟩ := hsound.completes_split (fun _ h => by cases h)
    (hsplit.resolveRange hcontext hi) hstart hw
  exact ⟨calls, _, _, _, _, _, _, _, hsplit, hcontext, scripted_delivers items hw, hreturns, rfl⟩

end Runs

/-- **When the partitions cover their input**: exactly where every range holds what the input begins
with, which is what every partition writes. -/
theorem partitions_cover_input_iff {items : List α} {size n : Nat} (hn : 2 ≤ n) :
    CoversInput items size n ↔ BeginsAlike items n := by
  rw [beginsAlike_iff]
  constructor
  · intro hcovers i hi
    obtain ⟨calls, hcompletes⟩ := exists_completesPartition items size hi
    rw [← hcompletes.written hi]
    exact hcovers.slices i hi calls hcompletes _ _ ((defaultRange_iff hi).mpr rfl)
  · intro halike
    have hslices : ∀ i < n, ∀ calls, CompletesPartition items size n i calls →
        writtenItems calls = itemsIn items (cutRange n items.length i) :=
      fun i hi calls h => (h.written hi).trans (halike i hi)
    refine ⟨?_, ?_, ?_⟩
    · intro υ env fuel step context w hsplit i hi hcontext hdelivers hfuel
      exact ended_of_delivers hsplit hi hcontext hdelivers hfuel
    · intro i hi calls hcompletes from_ to_ hrange
      rw [← (defaultRange_iff hi).mp hrange]
      exact hslices i hi calls hcompletes
    · intro logs hlogs
      rw [← flatMap_itemsIn_eq (by omega : 1 ≤ n) items]
      refine List.flatMap_congr fun i hi => ?_
      exact hslices i (List.mem_range.mp hi) _ (hlogs i (List.mem_range.mp hi))

/-- Two halves that are the same. -/
theorem partitions_cover_input_halves : CoversInput [10, 20, 10, 20] 1 2 := by
  refine (partitions_cover_input_iff (by decide)).mpr (beginsAlike_iff.mpr ?_)
  decide

/-- The second of two partitions over two items. -/
def secondHalf : Prog.Outcome Thrown StepResult × World Nat × Calls Nat :=
  Prog.run (handle (scriptedReading fun n => .ok [10, 20][n]?)).traced
    (ChunkStepExecutor.execute 2
      (ChunkStepExecutor.splitStep 1 (some (evenPartitions 2 2)) none)
      (ChunkStepExecutor.splitContext 1 2))
    (.initial (unaryIds 'r') (unaryIds 'u') 0, [])

/-- It writes the first of them once more, and nobody writes the second. -/
theorem second_half_repeats_first :
    defaultRange 1 2 2 = .ok (1, 2) ∧ CompletesPartition [10, 20] 1 2 1 secondHalf.2.2 ∧
      writtenItems secondHalf.2.2 = [10] ∧ ¬ CoversInput [10, 20] 1 2 := by
  have hrun : secondHalf.1 = .returned
      { status := .COMPLETED, exitCode := "COMPLETED", exitMessage := "", readCount := 1
        writeCount := 1, skipCount := 0, commitCount := some 1 } := by decide +kernel
  have hwritten : writtenItems secondHalf.2.2 = [10] := by decide +kernel
  have hcompletes : CompletesPartition [10, 20] 1 2 1 secondHalf.2.2 :=
    ⟨_, _, _, _, _, _, _, ⟨rfl, rfl⟩, ⟨rfl, rfl, rfl⟩, scripted_delivers _ rfl,
      ⟨_, Prod.ext hrun rfl⟩, rfl⟩
  refine ⟨rfl, hcompletes, hwritten, ?_⟩
  intro hcovers
  have hslice := hcovers.slices 1 (by decide) _ hcompletes 1 2 rfl
  rw [hwritten] at hslice
  cases hslice

end NestBatch
