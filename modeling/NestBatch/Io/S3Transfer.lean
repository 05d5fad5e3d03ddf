import NestBatch.Io.S3
import NestBatch.Lib.Transfer

/-!
# From lines to objects

What a chunk step makes of a JSONL object, without the step: the reader is read
chunk by chunk, a chunk is processed, and what is left of it is the next parcel
for the writer.  A chunk of which nothing is left makes no parcel, and the writer
does not count it.
-/

namespace NestBatch

variable {α : Type}

namespace S3JsonlItemReader

variable (options : S3JsonlItemReaderOptions α) {reader : S3JsonlItemReader}

/-- Up to `n` items, until the reader answers that there is none. -/
def readChunk : Nat → S3JsonlItemReader → List α × S3JsonlItemReader
  | 0, reader => ([], reader)
  | n + 1, reader =>
      match read options reader with
      | (.ok (some item), reader) =>
          (item :: (readChunk n reader).1, (readChunk n reader).2)
      | (_, reader) => ([], reader)

/-- Every line that is not blank can be parsed. -/
def Readable (lines : List String) : Prop :=
  ∀ line ∈ lines, jsTrim line ≠ "" → ∀ index, ∃ item, options.parseItem line index = .ok item

/-- A search for an item moves forward and stays within the lines. -/
theorem readFrom_index (lines : List String) (index : Int) :
    index ≤ (readFrom options lines index).2 ∧
      (readFrom options lines index).2 ≤ index + lines.length := by
  induction lines generalizing index with
  | nil => simp [readFrom]
  | cons line rest ih =>
      have hrest := ih (index + 1)
      unfold readFrom
      rw [List.length_cons]
      split
      · omega
      · dsimp only
        omega

variable {options}

/-- An item takes at least one line. -/
theorem readFrom_item {lines : List String} {index : Int} {item : α}
    (h : (readFrom options lines index).1 = .ok (some item)) :
    index < (readFrom options lines index).2 := by
  cases lines with
  | nil => cases h
  | cons line rest =>
      have hrest := (readFrom_index options rest (index + 1)).1
      unfold readFrom
      split
      · omega
      · dsimp only
        omega

/-- Over readable lines the search for an item never fails. -/
theorem readFrom_ok {lines : List String} (h : Readable options lines) (index : Int) :
    ∃ item, (readFrom options lines index).1 = .ok item := by
  induction lines generalizing index with
  | nil => exact ⟨none, rfl⟩
  | cons line rest ih =>
      unfold readFrom
      split
      · exact ih (fun line' hline => h line' (List.mem_cons_of_mem _ hline)) (index + 1)
      · next hblank => exact h line List.mem_cons_self hblank index

/-- A read is the search from the reader's place on. -/
theorem read_eq (h : 0 ≤ reader.index) : read options reader =
    ((readFrom options (reader.lines.drop reader.index.toNat) reader.index).1,
      { reader with
        index := (readFrom options (reader.lines.drop reader.index.toNat) reader.index).2 }) := by
  unfold read
  rw [if_neg (by omega)]

/-- A reader keeps its lines, and only moves on. -/
theorem read_moves (options : S3JsonlItemReaderOptions α) (h : 0 ≤ reader.index) :
    (read options reader).2.lines = reader.lines ∧
    reader.index ≤ (read options reader).2.index := by
  rw [read_eq h]
  exact ⟨rfl, (readFrom_index options _ _).1⟩

/-- An item is only read in front of the end, and leaves fewer lines. -/
theorem read_item {item : α} (h : 0 ≤ reader.index)
    (hitem : (read options reader).1 = .ok (some item)) :
    reader.index < (read options reader).2.index ∧ reader.index < reader.lines.length := by
  rw [read_eq h] at hitem ⊢
  have hmoved := readFrom_item hitem
  have hbound := (readFrom_index options (reader.lines.drop reader.index.toNat) reader.index).2
  rw [List.length_drop] at hbound
  exact ⟨hmoved, by omega⟩

/-- Over readable lines a read never fails. -/
theorem read_ok (h : 0 ≤ reader.index) (hreadable : Readable options reader.lines) :
    ∃ item, (read options reader).1 = .ok item := by
  rw [read_eq h]
  exact readFrom_ok (fun line hline => hreadable line (List.mem_of_mem_drop hline)) _

/-- A read item is the first of its chunk. -/
theorem readChunk_item {item : α} (n : Nat) (h : (read options reader).1 = .ok (some item)) :
    readChunk options (n + 1) reader =
      (item :: (readChunk options n (read options reader).2).1,
        (readChunk options n (read options reader).2).2) := by
  cases hread : read options reader with
  | mk answer reader' =>
      rw [hread] at h
      obtain rfl : answer = .ok (some item) := h
      rw [readChunk, hread]

/-- A read that ends the input ends the chunk. -/
theorem readChunk_end (n : Nat) (h : (read options reader).1 = .ok none) :
    readChunk options (n + 1) reader = ([], (read options reader).2) := by
  cases hread : read options reader with
  | mk answer reader' =>
      rw [hread] at h
      obtain rfl : answer = .ok none := h
      rw [readChunk, hread]

/-- Reading a chunk keeps the lines and moves forward. -/
theorem readChunk_moves (options : S3JsonlItemReaderOptions α) (n : Nat)
    (h : 0 ≤ reader.index) :
    (readChunk options n reader).2.lines = reader.lines ∧
      reader.index ≤ (readChunk options n reader).2.index := by
  induction n generalizing reader with
  | zero => exact ⟨rfl, Int.le_refl _⟩
  | succ n ih =>
      have hread := read_moves options h
      unfold readChunk
      split
      · next item reader' heq =>
          rw [heq] at hread
          have hle : reader.index ≤ reader'.index := hread.2
          have hrest := ih (Int.le_trans h hle)
          exact ⟨hrest.1.trans hread.1, Int.le_trans hle hrest.2⟩
      · next answer reader' heq =>
          rw [heq] at hread
          exact hread

/-- How many lines there are behind the reader's place. -/
def linesLeft (reader : S3JsonlItemReader) : Nat := (reader.lines.length - reader.index).toNat

/-- A chunk with an item leaves fewer lines. -/
theorem readChunk_shrinks (n : Nat) (h : (readChunk options n reader).1 ≠ []) :
    0 ≤ reader.index ∧ linesLeft (readChunk options n reader).2 < linesLeft reader := by
  cases n with
  | zero => exact absurd rfl h
  | succ n =>
      have hplace : 0 ≤ reader.index := by
        by_contra hlt
        refine h ?_
        unfold readChunk read
        rw [if_pos (by omega)]
      refine ⟨hplace, ?_⟩
      have hmoves := read_moves options hplace
      unfold readChunk at h ⊢
      split
      · next item reader' heq =>
          have hlt := read_item hplace (congrArg Prod.fst heq)
          rw [heq] at hmoves hlt
          have hle : reader.index ≤ reader'.index := hmoves.2
          have hrest := readChunk_moves options n (Int.le_trans hplace hle)
          unfold linesLeft
          dsimp only at hmoves hlt ⊢
          rw [hrest.1, hmoves.1]
          omega
      · next answer reader' hnone heq =>
          refine absurd ?_ h
          rw [heq]
          split
          · next item reader'' heq' =>
              obtain ⟨hanswer, -⟩ := Prod.mk.inj heq'
              exact absurd hanswer (hnone item)
          · rfl

end S3JsonlItemReader

open S3JsonlItemReader

/-- What is left of a chunk, if anything. -/
def parcelOf : List α → Option (List α)
  | [] => none
  | item :: items => some (item :: items)

/-- The chunks of a reader, processed: the parcels the writer is handed. -/
def s3Transfer (options : S3JsonlItemReaderOptions α) (chunkSize : Nat) (process : α → Option α) :
    Transfer S3JsonlItemReader (List α) where
  advance reader :=
    match readChunk options chunkSize reader with
    | ([], _) => none
    | (item :: items, reader) => some (parcelOf ((item :: items).filterMap process), reader)
  remaining := linesLeft
  shrinks reader parcel reader' h := by
    split at h
    · cases h
    · next item items reader'' heq =>
        have hchunk : (readChunk options chunkSize reader).1 ≠ [] := by
          rw [heq]
          exact List.cons_ne_nil _ _
        have hshrinks := (readChunk_shrinks chunkSize hchunk).2
        rw [heq] at hshrinks
        cases h
        exact hshrinks

section Transfer

variable {options : S3JsonlItemReaderOptions α} {chunkSize : Nat} {process : α → Option α}
  {reader : S3JsonlItemReader}

/-- A chunk without items ends the transfer. -/
theorem s3Transfer_ended (h : (readChunk options chunkSize reader).1 = []) :
    (s3Transfer options chunkSize process).advance reader = none := by
  unfold s3Transfer
  dsimp only
  split
  · rfl
  · next heq =>
      rw [heq] at h
      cases h

/-- A chunk with items is handed out as what the processor keeps of it. -/
theorem s3Transfer_advance (h : (readChunk options chunkSize reader).1 ≠ []) :
    (s3Transfer options chunkSize process).advance reader =
      some (parcelOf ((readChunk options chunkSize reader).1.filterMap process),
        (readChunk options chunkSize reader).2) := by
  unfold s3Transfer
  dsimp only
  split
  · next heq =>
      rw [heq] at h
      exact absurd rfl h
  · next heq => rw [heq]

/-! ### Every item, in order -/

/-- The items on the lines from number `index` on. -/
def itemsFrom (options : S3JsonlItemReaderOptions α) : List String → Int → List α
  | [], _ => []
  | line :: rest, index =>
      if jsTrim line = "" then itemsFrom options rest (index + 1)
      else
        match options.parseItem line index with
        | .ok (some item) => item :: itemsFrom options rest (index + 1)
        | _ => itemsFrom options rest (index + 1)

/-- The items in front of a reader. -/
def itemsLeft (options : S3JsonlItemReaderOptions α) (reader : S3JsonlItemReader) : List α :=
  itemsFrom options (reader.lines.drop reader.index.toNat) reader.index

end Transfer

/-! ### What the objects say -/

section Lines

variable {options : S3ChunkJsonlItemWriterOptions α} {items : List α}

end Lines

end NestBatch
