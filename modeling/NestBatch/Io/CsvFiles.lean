import NestBatch.Lib.Delimited
import NestBatch.Lib.JsText
import NestBatch.Core.Ir
import NestBatch.Io.Checkpoint

/-!
# CSV files

`CsvFileItemWriter` appends the lines of a batch to a file, the first batch behind the
line of the headers; `CsvFileItemReader` keeps the lines of a file and gives one row for
each that is not blank.

A file is the text its bytes decode to, if there is one.  Rows hold strings: an item has
an own string under every header, and a reader builds a fresh object.
-/

namespace NestBatch

open JsString

/-- The text of a file in UTF-8, if there is such a file. -/
abbrev TextFile := Option JsString

namespace TextFile

/-- `appendFile`: what cannot be encoded is replaced, and a missing file is created. -/
def append (file : TextFile) (text : JsString) : TextFile :=
  some (file.getD [] ++ toWellFormed text)

/-- `readFile`. -/
def read (path : String) : TextFile → Except Thrown JsString
  | some text => .ok text
  | none => .error (.error ("ENOENT: no such file or directory, open '" ++ path ++ "'"))

end TextFile

/-- `"`. -/
def quoteUnit : UInt16 := 0x22

def lineFeed : UInt16 := 0x0a

def carriageReturn : UInt16 := 0x0d

/-- `replace(/\r\n/g, '\n')`, on code units. -/
def CodeUnits.replaceCrLf : JsString → JsString
  | [] => []
  | [u] => [u]
  | u :: v :: rest =>
      if u = carriageReturn ∧ v = lineFeed then lineFeed :: CodeUnits.replaceCrLf rest
      else u :: CodeUnits.replaceCrLf (v :: rest)

/-- `replace(/\r/g, '\n')`. -/
def replaceCr (text : JsString) : JsString :=
  text.map fun u => if u = carriageReturn then lineFeed else u

def withoutMark (text : JsString) : JsString :=
  if text.head? = some byteOrderMark then text.tail else text

/-- `splitLines`, on code units. -/
def CodeUnits.splitLines (raw : JsString) : List JsString :=
  (replaceCr (CodeUnits.replaceCrLf (withoutMark raw))).splitOn lineFeed

/-- `ch === delimiter`: a field ends at a unit that is the whole delimiter. -/
def endsField (delimiter : JsString) (ch : UInt16) : Bool := [ch] = delimiter

def parseDelimitedLine (line delimiter : JsString) : List JsString :=
  Delimited.parse quoteUnit (endsField delimiter) line

/-- A text that must stand in quotes. -/
def needsQuotes (text delimiter : JsString) : Bool :=
  text.contains quoteUnit || text.contains lineFeed || text.contains carriageReturn ||
    (parseDelimitedLine text delimiter).length > 1

/-- `escapeCsvValue`, of a string or of `undefined`. -/
def escapeCsvValue (value : Option JsString) (delimiter : JsString) : JsString :=
  let text := value.getD []
  if needsQuotes text delimiter then Delimited.quoted quoteUnit text else text

/-- A row as an object, by its own properties. -/
abbrev CsvRow := JsMap JsString JsString

/-- The truth value of a checkpointed flag. -/
def JsonValue.truthy : JsonValue → Bool
  | .null => false
  | .bool b => b
  | .num n => n ≠ 0
  | .str s => s ≠ ""
  | .arr _ => true
  | .obj _ => true

/-! ### The writer -/

structure CsvFileItemWriterOptions where
  path : String
  headers : List JsString
  delimiter : Option JsString := none
  checkpointKey : Option String := none
  writeHeader : Option Bool := none

structure CsvFileItemWriter where
  headerWritten : JsonValue := .bool false

namespace CsvFileItemWriter

variable (options : CsvFileItemWriterOptions)

def checkpointKey : String := options.checkpointKey.getD ("csv-writer:" ++ options.path)

def delimiter : JsString := options.delimiter.getD (units ",")

/-- `open`. -/
def open_ (context : ExecutionContext) : CsvFileItemWriter :=
  { headerWritten :=
      readCheckpointValue context (checkpointKey options) "headerWritten" (.bool false) }

/-- Values as a line. -/
def line (values : List (Option JsString)) : JsString :=
  (delimiter options).intercalate (values.map fun v => escapeCsvValue v (delimiter options))

def headerLine : JsString := line options (options.headers.map some)

def rowLine (item : CsvRow) : JsString := line options (options.headers.map item.get?)

/-- Whether the next batch goes behind the headers. -/
def emitsHeader (writer : CsvFileItemWriter) : Bool :=
  options.writeHeader.getD true && !writer.headerWritten.truthy

/-- The lines of a batch. -/
def batchLines (writer : CsvFileItemWriter) (items : List CsvRow) : List JsString :=
  (if emitsHeader options writer then [headerLine options] else []) ++ items.map (rowLine options)

/-- Lines, each with its line feed. -/
def terminated (lines : List JsString) : JsString := lines.flatMap (· ++ [lineFeed])

/-- `write`: the text that is appended, if any, and the flag, which is set in front of the
append. -/
def write (writer : CsvFileItemWriter) (items : List CsvRow) :
    Option JsString × CsvFileItemWriter :=
  if items.isEmpty then (none, writer)
  else
    (some ([lineFeed].intercalate (batchLines options writer items) ++ [lineFeed]),
      if emitsHeader options writer then { headerWritten := .bool true } else writer)

theorem terminated_cons (line : JsString) (rest : List JsString) :
    terminated (line :: rest) = line ++ lineFeed :: terminated rest :=
  List.append_assoc _ _ _

theorem terminated_append (lines rest : List JsString) :
    terminated (lines ++ rest) = terminated lines ++ terminated rest := List.flatMap_append

/-- Joining by line feeds and ending the last line is ending each line. -/
theorem intercalate_eq_terminated {lines : List JsString} (h : lines ≠ []) :
    [lineFeed].intercalate lines ++ [lineFeed] = terminated lines := by
  induction lines with
  | nil => exact absurd rfl h
  | cons line rest ih =>
      cases rest with
      | nil =>
          rw [List.intercalate_singleton]
          exact (List.append_nil _).symm
      | cons next rest =>
          rw [List.intercalate_cons_cons, List.append_assoc, ih (List.cons_ne_nil _ _)]
          rfl

variable {options} in
/-- What a batch appends: its lines, each with its line feed. -/
theorem write_of_ne_nil {writer : CsvFileItemWriter} {items : List CsvRow} (h : items ≠ []) :
    write options writer items = (some (terminated (batchLines options writer items)),
      if emitsHeader options writer then { headerWritten := .bool true } else writer) := by
  have hlines : batchLines options writer items ≠ [] := by
    unfold batchLines
    exact List.append_ne_nil_of_right_ne_nil _ (List.map_eq_nil_iff.not.mpr h)
  rw [write, if_neg (List.isEmpty_iff.not.mpr h), intercalate_eq_terminated hlines]

/-- `update`. -/
def update (writer : CsvFileItemWriter) (context : ExecutionContext) : ExecutionContext :=
  writeCheckpoint context (checkpointKey options) [("headerWritten", writer.headerWritten)]

/-- Batches written one after another. -/
def writeAll (writer : CsvFileItemWriter) (file : TextFile) : List (List CsvRow) → TextFile
  | [] => file
  | items :: rest =>
      let (text, writer) := write options writer items
      writeAll writer (text.elim file file.append) rest

end CsvFileItemWriter

/-! ### The reader -/

structure CsvFileItemReaderOptions (α : Type) where
  path : String
  checkpointKey : Option String := none
  delimiter : Option JsString := none
  headers : Option (List JsString) := none
  hasHeader : Option Bool := none
  skipBlankLines : Option Bool := none
  mapRow : Option (CsvRow → Int → Except Thrown (Option α)) := none
  /-- `row as T` -/
  asItem : CsvRow → α

structure CsvFileItemReader where
  lines : List JsString := []
  headers : List JsString := []
  index : Int := 0

namespace CsvFileItemReader

variable {α : Type} (options : CsvFileItemReaderOptions α)

def checkpointKey : String := options.checkpointKey.getD ("csv:" ++ options.path)

def delimiter : JsString := options.delimiter.getD (units ",")

/-- `open`, of a file as it stands. -/
def open_ (context : ExecutionContext) (file : TextFile) : Except Thrown CsvFileItemReader :=
  (file.read options.path).map fun raw =>
    let lines := CodeUnits.splitLines raw
    let hasHeader := options.hasHeader.getD options.headers.isNone
    { lines := lines
      headers := options.headers.getD
        (lines.head?.elim [] fun line => parseDelimitedLine line (delimiter options))
      index := readCheckpointNumber context (checkpointKey options) "index"
        (if hasHeader then 1 else 0) }

/-- `row[key] = value`: under `__proto__` a string is not stored. -/
def assign (row : CsvRow) (key value : JsString) : CsvRow :=
  if key = units "__proto__" then row else row.set key value

/-- The row of some fields: one entry for each header, empty where there is no field. -/
def fillRow (row : CsvRow) : List JsString → List JsString → CsvRow
  | [], _ => row
  | header :: headers, fields =>
      fillRow (assign row header (fields.head?.getD [])) headers fields.tail

/-- `while (this.index < this.lines.length)`, over the lines from `index` on: the answer and the
new index. -/
def readFrom (headers : List JsString) : List JsString → Int → Except Thrown (Option α) × Int
  | [], index => (.ok none, index)
  | line :: rest, index =>
      if options.skipBlankLines.getD true ∧ (trim line).length = 0 then
        readFrom headers rest (index + 1)
      else
        let row := fillRow .empty headers (parseDelimitedLine line (delimiter options))
        match options.mapRow with
        | none => (.ok (some (options.asItem row)), index + 1)
        | some mapRow =>
            match mapRow row index with
            | .error err => (.error err, index + 1)
            | .ok none => readFrom headers rest (index + 1)
            | .ok (some item) => (.ok (some item), index + 1)

/-- What a property of a line that is not there throws. -/
def noLine : Thrown :=
  ⟨.typeError, "Cannot read properties of undefined (reading '" ++
    (if options.skipBlankLines.getD true then "trim" else "length") ++ "')"⟩

/-- `read`; in front of the first line there is no line. -/
def read (reader : CsvFileItemReader) : Except Thrown (Option α) × CsvFileItemReader :=
  if reader.index < 0 then (.error (noLine options), { reader with index := reader.index + 1 })
  else
    let (answer, index) := readFrom options reader.headers
      (reader.lines.drop reader.index.toNat) reader.index
    (answer, { reader with index := index })

/-- `update`. -/
def update (reader : CsvFileItemReader) (context : ExecutionContext) : ExecutionContext :=
  writeCheckpoint context (checkpointKey options) [("index", .num reader.index)]

/-- The answers of some reads. -/
def reads : Nat → CsvFileItemReader → List (Except Thrown (Option α))
  | 0, _ => []
  | n + 1, reader => (read options reader).1 :: reads n (read options reader).2

end CsvFileItemReader

end NestBatch
