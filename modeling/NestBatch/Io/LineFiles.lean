import NestBatch.Io.CsvLines
import NestBatch.Lib.Resume

/-!
# Readers of lines

`RestartableFileLineReader` keeps the lines of a file and the index of the next one; every read
goes on to the first line that makes an item.  `update` saves the index, and `open` takes a saved
one up.
-/

namespace NestBatch

open JsString

structure RestartableFileLineReaderOptions (α : Type) where
  path : String
  checkpointKey : Option String := none
  skipLines : Option Int := none
  skipBlankLines : Option Bool := none
  /-- In front of the first line there is no line. -/
  mapLine : Option (Option JsString → Int → Except Thrown (Option α)) := none
  /-- `line as T` -/
  asItem : Option JsString → α

structure RestartableFileLineReader where
  lines : List JsString := []
  index : Int := 0

namespace RestartableFileLineReader

variable {α : Type} (options : RestartableFileLineReaderOptions α)

def checkpointKey : String := options.checkpointKey.getD ("file-line:" ++ options.path)

/-- `open`, of a file as it stands. -/
def open_ (context : ExecutionContext) (file : TextFile) :
    Except Thrown RestartableFileLineReader :=
  (file.read options.path).map fun raw =>
    { lines := CodeUnits.splitLines raw
      index := readCheckpointNumber context (checkpointKey options) "index"
        (options.skipLines.getD 0) }

/-- `this.lines[this.index]`. -/
def lineAt (lines : List JsString) (index : Int) : Option JsString :=
  if index < 0 then none else lines[index.toNat]?

/-- What `trim` of a line that is not there throws. -/
def noTrim : Thrown := ⟨.typeError, "Cannot read properties of undefined (reading 'trim')"⟩

/-- What comes of a line: it is skipped or thrown at, or it makes an item or none. -/
def mapped (line : Option JsString) (index : Int) : Except Thrown (Option α) :=
  match options.skipBlankLines.getD false, line with
  | true, none => .error noTrim
  | true, some text => if (trim text).length = 0 then .ok none else item
  | false, _ => item
where
  item : Except Thrown (Option α) :=
    match options.mapLine with
    | some mapLine => mapLine line index
    | none => .ok (some (options.asItem line))

/-- `while (this.index < this.lines.length)`, with so many lines left: the answer and the new
index. -/
def readFrom (lines : List JsString) : Nat → Int → Except Thrown (Option α) × Int
  | 0, index => (.ok none, index)
  | left + 1, index =>
      match mapped options (lineAt lines index) index with
      | .error err => (.error err, index + 1)
      | .ok none => readFrom lines left (index + 1)
      | .ok (some item) => (.ok (some item), index + 1)

def read (reader : RestartableFileLineReader) :
    Except Thrown (Option α) × RestartableFileLineReader :=
  let (answer, index) := readFrom options reader.lines
    (reader.lines.length - reader.index).toNat reader.index
  (answer, { reader with index := index })

/-- `update`. -/
def update (reader : RestartableFileLineReader) (context : ExecutionContext) : ExecutionContext :=
  writeCheckpoint context (checkpointKey options) [("index", .num reader.index)]

/-- The answers of some reads. -/
def reads : Nat → RestartableFileLineReader → List (Except Thrown (Option α)) :=
  Resume.answers (read options)

/-! ### What the lines make -/

/-- What a read comes to, unless the line is skipped. -/
def settled : Except Thrown (Option α) → Option (Except Thrown α)
  | .error err => some (.error err)
  | .ok item => item.map .ok

/-- What comes of the lines from an index on, skipped ones left out. -/
def outcomes (lines : List JsString) : Nat → Int → List (Except Thrown α)
  | 0, _ => []
  | left + 1, index =>
      (settled (mapped options (lineAt lines index) index)).toList ++
        outcomes lines left (index + 1)

/-- The outcomes that are left for a reader. -/
def ahead (reader : RestartableFileLineReader) : List (Except Thrown α) :=
  outcomes options reader.lines (reader.lines.length - reader.index).toNat reader.index

section Outcomes

variable {options} {lines : List JsString} {left : Nat} {index : Int}

/-- A read answers with the first outcome and stops behind its line. -/
theorem readFrom_cases (lines : List JsString) (left : Nat) (index : Int) :
    (outcomes options lines left index = [] ∧
      readFrom options lines left index = (.ok none, index + left)) ∨
    ∃ outcome k, k < left ∧
      outcomes options lines left index =
        outcome :: outcomes options lines (left - (k + 1)) (index + (k + 1 : Nat)) ∧
      readFrom options lines left index = (outcome.map some, index + (k + 1 : Nat)) := by
  induction left generalizing index with
  | zero => exact Or.inl ⟨rfl, by rw [readFrom, Int.natCast_zero, Int.add_zero]⟩
  | succ left ih =>
      cases hmapped : mapped options (lineAt lines index) index with
      | error err =>
          refine Or.inr ⟨.error err, 0, Nat.succ_pos left, ?_, ?_⟩
          · rw [outcomes, hmapped]
            rfl
          · rw [readFrom, hmapped]
            rfl
      | ok item =>
          cases item with
          | some item =>
              refine Or.inr ⟨.ok item, 0, Nat.succ_pos left, ?_, ?_⟩
              · rw [outcomes, hmapped]
                rfl
              · rw [readFrom, hmapped]
                rfl
          | none =>
              have hshift (k : Nat) : index + 1 + (k : Int) = index + ((k + 1 : Nat) : Int) := by
                omega
              have houtcomes : outcomes options lines (left + 1) index =
                  outcomes options lines left (index + 1) := by
                rw [outcomes, hmapped]
                rfl
              have hread : readFrom options lines (left + 1) index =
                  readFrom options lines left (index + 1) := by
                rw [readFrom, hmapped]
              rw [houtcomes, hread]
              rcases @ih (index + 1) with ⟨hnil, hend⟩ | ⟨outcome, k, hk, hcons, hend⟩
              · exact Or.inl ⟨hnil, by rw [hend, hshift]⟩
              · refine Or.inr ⟨outcome, k + 1, Nat.succ_lt_succ hk, ?_, ?_⟩
                · rw [hcons, hshift, Nat.succ_sub_succ]
                · rw [hend, hshift]

variable (options) in
/-- **A read takes the first outcome that is ahead**, and answers `null` when there is none. -/
theorem read_eq (reader : RestartableFileLineReader) :
    (read options reader).1 = (ahead options reader).head?.elim (.ok none) (Except.map some) ∧
      ahead options (read options reader).2 = (ahead options reader).tail := by
  obtain ⟨lines, index⟩ := reader
  unfold ahead read
  dsimp only
  have hcases := @readFrom_cases α options lines (lines.length - index).toNat index
  generalize hleft : ((lines.length : Int) - index).toNat = left at hcases
  rcases hcases with ⟨hnil, hread⟩ | ⟨outcome, k, hk, hcons, hread⟩
  · have hdone : ((lines.length : Int) - (index + left)).toNat = 0 := by omega
    rw [hread, hnil]
    exact ⟨rfl, by rw [hdone]; rfl⟩
  · have hrest : ((lines.length : Int) - (index + (k + 1 : Nat))).toNat = left - (k + 1) := by
      omega
    rw [hread, hcons]
    exact ⟨rfl, by rw [hrest]; rfl⟩

theorem reads_succ (n : Nat) (reader : RestartableFileLineReader) :
    reads options (n + 1) reader =
      (read options reader).1 :: reads options n (read options reader).2 := rfl

variable (options) in
/-- **The answers of the reads**: the outcomes that are ahead, and then `null` for ever. -/
theorem reads_eq (n : Nat) (reader : RestartableFileLineReader) :
    reads options ((ahead options reader).length + n) reader =
      (ahead options reader).map (Except.map some) ++ List.replicate n (.ok none) := by
  generalize hahead : ahead options reader = left
  induction left generalizing reader with
  | nil =>
      rw [List.length_nil, Nat.zero_add, List.map_nil, List.nil_append]
      induction n generalizing reader with
      | zero => rfl
      | succ n ih =>
          obtain ⟨hanswer, hrest⟩ := read_eq options reader
          rw [hahead] at hanswer hrest
          rw [reads_succ, hanswer, ih _ hrest, List.replicate_succ]
          rfl
  | cons outcome left ih =>
      obtain ⟨hanswer, hrest⟩ := read_eq options reader
      rw [hahead] at hanswer hrest
      rw [List.length_cons, Nat.succ_add, reads_succ, hanswer, ih _ hrest]
      rfl

/-- Outcomes that do not depend on where their lines stand. -/
theorem outcomes_eq_filterMap {make : JsString → Except Thrown (Option α)}
    (hmake : ∀ line i, mapped options (some line) i = make line) (lines : List JsString) (i : Nat) :
    outcomes options lines (lines.length - i) i =
      (lines.drop i).filterMap fun line => settled (make line) := by
  generalize hleft : lines.length - i = left
  induction left generalizing i with
  | zero =>
      rw [List.drop_eq_nil_of_le (by omega)]
      rfl
  | succ left ih =>
      have hlt : i < lines.length := by omega
      have hline : lineAt lines i = some lines[i] := by
        rw [lineAt, if_neg (by omega), Int.toNat_natCast, List.getElem?_eq_getElem hlt]
      have hrest := ih (i + 1) (by omega)
      rw [outcomes, hline, hmake, List.drop_eq_getElem_cons hlt, List.filterMap_cons, ← hrest]
      cases settled (make lines[i]) with
      | none => rfl
      | some outcome => rfl

end Outcomes

end RestartableFileLineReader

end NestBatch
