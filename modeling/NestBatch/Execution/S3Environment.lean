import NestBatch.Execution.CheckpointSafety
import NestBatch.Io.S3Transfer

/-!
# A chunk step from object to objects

User code around an `S3JsonlItemReader` and an `S3ChunkJsonlItemWriter`: the two
streams and the stored objects are part of its state, everything else is any
other user code.  `S3Export` is the configuration of such a step, `Fits` is what
is asked of the code around it, and `Clean` is what a run never spoils: the
source, the objects stored so far, and the contexts a restart may resume from.
-/

namespace NestBatch

/-- The two streams of a step, and what is stored. -/
structure S3State where
  reader : S3JsonlItemReader := {}
  writer : S3ChunkJsonlItemWriter := {}
  objects : S3Objects

/-- A chunk step that reads one object and writes others.  `process` is what its
processor makes of an item, `none` for an item it drops. -/
structure S3Export (α : Type) where
  step : ChunkStepDefinition
  readerHandle : Handle
  writerHandle : Handle
  readerOptions : S3JsonlItemReaderOptions α
  writerOptions : S3ChunkJsonlItemWriterOptions α
  process : α → Option α
  /-- the body of the object that is read -/
  body : String

variable {α υ : Type}

namespace S3Export

variable (E : S3Export α)

/-- The user code of such a step: the reader and the writer by their handles, and `others`
for the rest. -/
def environment (client : S3ObjectClient υ) (others : Environment α υ) :
    Environment α (S3State × υ) where
  user call s saved :=
    let passOn : call.Resp × (S3State × υ) × List JsonValue :=
      let (answer, user, saves) := others.user call s.2 saved
      (answer, (s.1, user), saves)
    match call, passOn with
    | .openStream stream ctx, passOn =>
        if stream = E.readerHandle then
          let (answer, reader, user) :=
            S3JsonlItemReader.open_ E.readerOptions client ctx s.1.objects s.1.reader s.2
          (answer.map fun _ => ctx, ({ s.1 with reader := reader }, user), [])
        else if stream = E.writerHandle then
          let writer := S3ChunkJsonlItemWriter.open_ E.writerOptions ctx
          (.ok ctx, ({ s.1 with writer := writer }, s.2), [])
        else passOn
    | .read reader _, passOn =>
        if reader = E.readerHandle then
          let (answer, reader) := S3JsonlItemReader.read E.readerOptions s.1.reader
          (answer, ({ s.1 with reader := reader }, s.2), [])
        else passOn
    | .write writer items _, passOn =>
        if writer = E.writerHandle then
          let (answer, writer, objects, user) := S3ChunkJsonlItemWriter.write E.writerOptions client
            items s.1.objects s.1.writer s.2
          (answer.map fun _ => none,
            ({ s.1 with writer := writer, objects := objects }, user), [])
        else passOn
    | .updateStream stream ctx, passOn =>
        if stream = E.readerHandle then
          (.ok (S3JsonlItemReader.update E.readerOptions s.1.reader ctx), s, [])
        else if stream = E.writerHandle then
          (.ok (S3ChunkJsonlItemWriter.update E.writerOptions s.1.writer ctx), s, [])
        else passOn
    | .closeStream stream, passOn =>
        if stream = E.readerHandle then
          (.ok (), ({ s.1 with reader := s.1.reader.close }, s.2), [])
        else if stream = E.writerHandle then (.ok (), s, [])
        else passOn
    | _, passOn => passOn
  broker payload s :=
    let (answer, user) := others.broker payload s.2
    (answer, (s.1, user))

/-- Where the two streams stand in the data of a context. -/
def place (data : JsonValue) : Int × Int :=
  (readCheckpointNumber { data := data, version := 0 }
      (S3JsonlItemReader.checkpointKey E.readerOptions) "index" 0,
    readCheckpointNumber { data := data, version := 0 }
      (S3ChunkJsonlItemWriter.checkpointKey E.writerOptions) "chunkIndex" 0)

/-- The handler of a stream object. -/
def streamComponent (target : Handle) : Component := { target := target, isStream := true }

/-- No skip policy of the step takes the error. -/
def Unskippable (err : Thrown) : Prop :=
  ∀ policy, E.step.skipPolicy = some policy →
    policy.skippable.anyM (SkipPolicy.matchesSkippable err) ≠ some true

/-- What is asked of the code around the streams: the step resolves to them, the
processor is deterministic (an item whose failure is skipped is one it drops), a
failed write is not skipped, the records of the streams are left alone in the
contexts that are saved, and a FAILED result stays FAILED. -/
structure Fits (client : S3ObjectClient υ) (others : Environment α υ) : Prop where
  reader : ∀ fn user saved c, E.step.reader.fn = some fn →
    (others.user (.invoke fn) user saved).1 = .ok c →
      c = streamComponent E.readerHandle ∨ (E.step.reader.factory = true ∧ c.isFunction = true)
  factory : ∀ fn ctx user saved c, (others.user (.factory fn ctx) user saved).1 = .ok c →
    c = streamComponent E.readerHandle
  writer : ∀ fn user saved c, E.step.writer.fn = some fn →
    (others.user (.invoke fn) user saved).1 = .ok c → c = streamComponent E.writerHandle
  process : ∀ processor item ctx user saved out,
    (others.user (.process processor item ctx) user saved).1 = .ok out → out = E.process item
  throwing : ∀ processor item ctx user saved err,
    (others.user (.process processor item ctx) user saved).1 = .error err →
      E.process item = none ∨ E.Unskippable err
  refusal : ∀ input user err, (client.refusesPut input user).1 = some err → E.Unskippable err
  saves : ∀ call user saved data, data ∈ (others.user call user saved).2.2 →
    E.place data = E.place saved.data
  outcome : ∀ fn ctx result user saved, result.status = .FAILED →
    (others.user (.afterStep fn ctx result) user saved).1.2.status = .FAILED

/-- What is asked of the configuration.  Without a processor every item is kept. -/
structure WellFormed : Prop where
  handles : E.readerHandle ≠ E.writerHandle
  keys : S3JsonlItemReader.checkpointKey E.readerOptions ≠
    S3ChunkJsonlItemWriter.checkpointKey E.writerOptions
  apart : ∀ n : Nat, S3ChunkJsonlItemWriter.location E.writerOptions n ≠
    E.readerOptions.toS3ObjectLocation
  readable : S3JsonlItemReader.Readable E.readerOptions (splitLines E.body)
  printable : ∀ items err, S3ChunkJsonlItemWriter.body E.writerOptions items = .error err →
    E.Unskippable err
  plain : E.step.processor = none → ∀ item, E.process item = some item

/-! ### What a run never spoils -/

/-- The parcels of the source, from a reader on. -/
def transfer : Transfer S3JsonlItemReader (List α) :=
  s3Transfer E.readerOptions E.step.chunkSize E.process

/-- The next chunk of a reader, and the reader behind it. -/
abbrev chunkAt (reader : S3JsonlItemReader) : List α × S3JsonlItemReader :=
  S3JsonlItemReader.readChunk E.readerOptions E.step.chunkSize reader

/-- A chunk with items advances the transfer of the export. -/
theorem transfer_advance {reader : S3JsonlItemReader} (h : (E.chunkAt reader).1 ≠ []) :
    E.transfer.advance reader =
      some (parcelOf ((E.chunkAt reader).1.filterMap E.process), (E.chunkAt reader).2) :=
  s3Transfer_advance h

/-- A reader in front of the source. -/
def start : S3JsonlItemReader := { lines := splitLines E.body }

/-- The parcels the objects are made of. -/
def parcels : List (List α) := E.transfer.parcels E.start

/-- The body of the object of a parcel. -/
def render (items : List α) : Option String :=
  (S3ChunkJsonlItemWriter.body E.writerOptions items).toOption

/-- The numbered objects. -/
def sink (objects : S3Objects) (n : Nat) : Option String :=
  objects (S3ChunkJsonlItemWriter.location E.writerOptions n)

/-- The source is as it was, and no numbered object has a wrong body. -/
structure Intact (objects : S3Objects) : Prop where
  source : objects E.readerOptions.toS3ObjectLocation = some E.body
  faithful : Transfer.Faithful E.render E.parcels (E.sink objects)

/-- The reader and the writer are in step, and everything before them is stored. -/
structure AtPlace (objects : S3Objects) (reader : S3JsonlItemReader) (chunkIndex : Int) : Prop where
  lines : reader.lines = splitLines E.body
  nonneg : 0 ≤ reader.index
  inStep : ∃ n : Nat, chunkIndex = n ∧ E.transfer.InStep E.start reader n ∧
    Transfer.Holds (E.sink objects) n

/-- Streams opened on a context are in step. -/
def Resumes (objects : S3Objects) (data : JsonValue) : Prop :=
  E.AtPlace objects { lines := splitLines E.body, index := (E.place data).1 } (E.place data).2

/-- Everything is stored. -/
def Finished (objects : S3Objects) : Prop :=
  Transfer.Holds (E.sink objects) E.parcels.length

end S3Export

end NestBatch
