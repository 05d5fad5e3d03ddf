import NestBatch.Execution.JobExecutor
import NestBatch.Io.Checkpoint

/-!
# Reading and writing JSONL objects

`S3JsonlItemReader` reads the lines of one object, `S3ChunkJsonlItemWriter`
puts every chunk it is handed into an object of its own.  Both are item streams
and keep their place in the context of the step.

The object client is the host's: it may refuse any call, but a `putObject` that
it does not refuse stores the whole body, and one that it refuses stores nothing.
Parsing a line (`JSON.parse`, then `mapItem`) and `JSON.stringify` are functions
that may throw; bodies are texts.
-/

namespace NestBatch

structure S3ObjectLocation where
  bucket : String
  key : String
  deriving DecidableEq, Repr

structure S3PutObjectInput extends S3ObjectLocation where
  body : String
  contentType : Option String := none

/-- What is stored where. -/
abbrev S3Objects := S3ObjectLocation → Option String

/-- The host's client: what it throws at a call, if anything. -/
structure S3ObjectClient (υ : Type) where
  refusesGet : S3ObjectLocation → υ → Option Thrown × υ
  refusesPut : S3PutObjectInput → υ → Option Thrown × υ

namespace S3ObjectClient

variable {υ : Type}

/-- `getObject`: an object that is not there can not be had. -/
def getObject (client : S3ObjectClient υ) (location : S3ObjectLocation) (objects : S3Objects)
    (user : υ) : Except Thrown String × υ :=
  match client.refusesGet location user with
  | (some err, user) => (.error err, user)
  | (none, user) =>
      match objects location with
      | some body => (.ok body, user)
      | none => (.error ⟨.user "NoSuchKey", "The specified key does not exist."⟩, user)

/-- `putObject`: all or nothing. -/
def putObject (client : S3ObjectClient υ) (input : S3PutObjectInput) (objects : S3Objects)
    (user : υ) : Except Thrown Unit × S3Objects × υ :=
  match client.refusesPut input user with
  | (some err, user) => (.error err, objects, user)
  | (none, user) =>
      (.ok (), Function.update objects input.toS3ObjectLocation (some input.body), user)

end S3ObjectClient

/-! ### Lines -/

/-- `replace(/\r\n/g, '\n')`. -/
def replaceCrLf : List Char → List Char
  | '\r' :: '\n' :: cs => '\n' :: replaceCrLf cs
  | c :: cs => c :: replaceCrLf cs
  | [] => []

/-- Without a byte order mark in front. -/
def withoutBom : List Char → List Char
  | c :: cs => if c.toNat = 0xFEFF then cs else c :: cs
  | [] => []

/-- `splitLines`. -/
def splitLines (raw : String) : List String :=
  let text := (replaceCrLf (withoutBom raw.toList)).map fun c => if c = '\r' then '\n' else c
  (text.splitOn '\n').map String.ofList

/-! ### The reader -/

/-- `parseItem line lineIndex` is `JSON.parse`, and `mapItem` behind it where one is given. -/
structure S3JsonlItemReaderOptions (α : Type) extends S3ObjectLocation where
  checkpointKey : Option String := none
  parseItem : String → Int → Except Thrown (Option α)

structure S3JsonlItemReader where
  lines : List String := []
  index : Int := 0
  deriving DecidableEq, Repr

namespace S3JsonlItemReader

variable {α υ : Type}

def checkpointKey (options : S3JsonlItemReaderOptions α) : String :=
  options.checkpointKey.getD ("s3-jsonl:" ++ options.bucket ++ "/" ++ options.key)

/-- The reader once its object is there. -/
def opened (options : S3JsonlItemReaderOptions α) (body : String) (context : ExecutionContext) :
    S3JsonlItemReader :=
  { lines := splitLines body
    index := readCheckpointNumber context (checkpointKey options) "index" 0 }

/-- `open`; a client that refuses leaves the reader as it was. -/
def open_ (options : S3JsonlItemReaderOptions α) (client : S3ObjectClient υ)
    (context : ExecutionContext) (objects : S3Objects) (reader : S3JsonlItemReader) (user : υ) :
    Except Thrown Unit × S3JsonlItemReader × υ :=
  match client.getObject options.toS3ObjectLocation objects user with
  | (.error err, user) => (.error err, reader, user)
  | (.ok body, user) => (.ok (), opened options body context, user)

/-- `while (this.index < this.lines.length)`, over the lines from `index` on: the answer
and the new index.  Blank lines are passed over. -/
def readFrom (options : S3JsonlItemReaderOptions α) : List String → Int →
    Except Thrown (Option α) × Int
  | [], index => (.ok none, index)
  | line :: rest, index =>
      if jsTrim line = "" then readFrom options rest (index + 1)
      else (options.parseItem line index, index + 1)

/-- `read`; in front of the first line there is no line to trim. -/
def read (options : S3JsonlItemReaderOptions α) (reader : S3JsonlItemReader) :
    Except Thrown (Option α) × S3JsonlItemReader :=
  if reader.index < 0 then
    (.error ⟨.typeError, "Cannot read properties of undefined (reading 'trim')"⟩,
      { reader with index := reader.index + 1 })
  else
    let (answer, index) :=
      readFrom options (reader.lines.drop reader.index.toNat) reader.index
    (answer, { reader with index := index })

def update (options : S3JsonlItemReaderOptions α) (reader : S3JsonlItemReader)
    (context : ExecutionContext) : ExecutionContext :=
  writeCheckpoint context (checkpointKey options) [("index", .num reader.index)]

def close (reader : S3JsonlItemReader) : S3JsonlItemReader := { reader with lines := [] }

end S3JsonlItemReader

/-! ### The writer -/

structure S3ChunkJsonlItemWriterOptions (α : Type) where
  bucket : String
  keyPrefix : String
  checkpointKey : Option String := none
  stringify : α → Except Thrown String

structure S3ChunkJsonlItemWriter where
  chunkIndex : Int := 0
  deriving DecidableEq, Repr

/-- `s.padStart(n, c)`. -/
def padStart (s : String) (n : Nat) (c : Char) : String :=
  String.ofList (List.replicate (n - s.length) c) ++ s

/-- `s.replace(/\/+$/g, '')`. -/
def trimTrailingSlashes (s : String) : String :=
  String.ofList (s.toList.reverse.dropWhile (· = '/')).reverse

namespace S3ChunkJsonlItemWriter

variable {α υ : Type}

def checkpointKey (options : S3ChunkJsonlItemWriterOptions α) : String :=
  options.checkpointKey.getD ("s3-jsonl-writer:" ++ options.bucket ++ "/" ++ options.keyPrefix)

def open_ (options : S3ChunkJsonlItemWriterOptions α) (context : ExecutionContext) :
    S3ChunkJsonlItemWriter :=
  { chunkIndex := readCheckpointNumber context (checkpointKey options) "chunkIndex" 0 }

/-- Where the chunk with a number goes. -/
def location (options : S3ChunkJsonlItemWriterOptions α) (chunkIndex : Int) : S3ObjectLocation :=
  { bucket := options.bucket
    key := trimTrailingSlashes options.keyPrefix ++ "/chunk-" ++
      padStart (toString chunkIndex) 6 '0' ++ ".jsonl" }

/-- One line for each item. -/
def body (options : S3ChunkJsonlItemWriterOptions α) (items : List α) : Except Thrown String := do
  let lines ← items.mapM options.stringify
  pure ("\n".intercalate lines ++ "\n")

def write (options : S3ChunkJsonlItemWriterOptions α) (client : S3ObjectClient υ) (items : List α)
    (objects : S3Objects) (writer : S3ChunkJsonlItemWriter) (user : υ) :
    Except Thrown Unit × S3ChunkJsonlItemWriter × S3Objects × υ :=
  if items.isEmpty then (.ok (), writer, objects, user)
  else
    match body options items with
    | .error err => (.error err, writer, objects, user)
    | .ok body =>
        let input : S3PutObjectInput :=
          { toS3ObjectLocation := location options writer.chunkIndex, body := body
            contentType := some "application/x-ndjson" }
        match client.putObject input objects user with
        | (.error err, objects, user) => (.error err, writer, objects, user)
        | (.ok (), objects, user) =>
            (.ok (), { chunkIndex := writer.chunkIndex + 1 }, objects, user)

def update (options : S3ChunkJsonlItemWriterOptions α) (writer : S3ChunkJsonlItemWriter)
    (context : ExecutionContext) : ExecutionContext :=
  writeCheckpoint context (checkpointKey options) [("chunkIndex", .num writer.chunkIndex)]

/-- A number is what its padded digits say. -/
theorem ofDigitChars_padStart (n k : Nat) :
    Nat.ofDigitChars 10 (padStart (toString (n : Int)) k '0').toList 0 = n := by
  have hdigits : (toString (n : Int)).toList = Nat.toDigits 10 n := by
    rw [← Nat.toList_repr]
    rfl
  unfold padStart
  rw [String.toList_append, String.toList_ofList, Nat.ofDigitChars_append,
    Nat.ofDigitChars_replicate_zero, Nat.mul_zero, hdigits, Nat.ofDigitChars_ten_toDigits]

/-- Chunks with different numbers go to different objects. -/
theorem location_injective (options : S3ChunkJsonlItemWriterOptions α) :
    Function.Injective fun n : Nat => location options n := by
  intro m n h
  have hkey := congrArg (fun l : S3ObjectLocation => l.key.toList) h
  simp only [location, String.toList_append, List.append_assoc] at hkey
  have hpad := List.append_cancel_right (List.append_cancel_left (List.append_cancel_left hkey))
  rw [← ofDigitChars_padStart m 6, hpad, ofDigitChars_padStart n 6]

end S3ChunkJsonlItemWriter

end NestBatch
