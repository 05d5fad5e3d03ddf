import NestBatch.Io.Database
import NestBatch.Io.LineFiles
import NestBatch.Io.S3

/-!
# Readers that are opened again

The readers that ship with the batch runtime are streams: `update` puts their place into a context,
and `open` takes it up.  A fresh reader that is opened on the context, after that went through a
text, answers as the first one would have, for ever; what others keep in the context is left alone.
The source does not change, and what is made of a line or a row depends on it alone.
-/

namespace NestBatch

variable {α : Type}

/-- A reader with its options and its source. -/
structure StreamReader (α : Type) where
  State : Type
  checkpointKey : String
  open_ : ExecutionContext → Except Thrown State
  read : State → Except Thrown (Option α) × State
  update : State → ExecutionContext → ExecutionContext

namespace StreamReader

/-- Resuming is going on, for a reader that is opened on `before`: after any number of reads, the
fresh one has the same answers, and the record under another key is as it was. -/
def ResumesFrom (S : StreamReader α) (before : ExecutionContext) : Prop :=
  ∀ reader, S.open_ before = .ok reader →
    ∀ (k : Nat) (context : ExecutionContext), context.WellKeyed →
      ∃ stored fresh, (S.update (Resume.behind S.read k reader) context).throughJson = some stored ∧
        S.open_ stored = .ok fresh ∧
        (∀ n, Resume.answers S.read n fresh =
          Resume.answers S.read n (Resume.behind S.read k reader)) ∧
        stored.version = context.version ∧
        ∀ key, key ≠ S.checkpointKey →
          JsonValue.getField (asJsonRecord stored.data) key =
            JsonValue.getField (asJsonRecord context.data) key

/-- A checkpoint of one field. -/
structure Checkpoints (S : StreamReader α) (field : String) (saved : S.State → JsonValue)
    (Inv : S.State → Prop) : Prop where
  update_eq : ∀ reader context,
    S.update reader context = writeCheckpoint context S.checkpointKey [(field, saved reader)]
  keyed : ∀ reader, Inv reader → (saved reader).WellKeyed

/-- **A reader resumes** if its answers depend on its place, and a fresh one is opened at the place
that was saved. -/
theorem resumesFrom_of_placed {S : StreamReader α} {before : ExecutionContext} {π : Type}
    {next : π → Except Thrown (Option α) × π} {place : S.State → π} {Inv : S.State → Prop}
    {field : String} {saved : S.State → JsonValue}
    (hplaced : Resume.Placed S.read next place Inv) (hsaves : S.Checkpoints field saved Inv)
    (hopen : ∀ reader, S.open_ before = .ok reader → Inv reader)
    (hreopen : ∀ reader stored, Inv reader →
      readCheckpoint stored S.checkpointKey = [(field, saved reader)] →
        ∃ fresh, S.open_ stored = .ok fresh ∧ Inv fresh ∧ place fresh = place reader) :
    S.ResumesFrom before := by
  intro reader hreader k context hcontext
  have hinv := (hplaced.behind k (hopen reader hreader)).1
  generalize Resume.behind S.read k reader = reader at hinv
  have hkeyed := hcontext.writeCheckpoint S.checkpointKey field (hsaves.keyed reader hinv)
  obtain ⟨fresh, hfresh, hinv', hplace⟩ := hreopen reader _ hinv
    (readCheckpoint_write_self context S.checkpointKey [(field, saved reader)])
  refine ⟨_, fresh, ?_, hfresh, hplaced.answers_congr hinv' hinv hplace, rfl, ?_⟩
  · rw [hsaves.update_eq, hkeyed.throughJson]
  · intro key hkey
    exact JsonValue.getField_setField_of_ne _ _ hkey

/-! ### Lines -/

/-- A reader of lines keeps an index only: opened at it, it is the same reader. -/
theorem resumesFrom_of_index {S : StreamReader α} {before : ExecutionContext}
    {index : S.State → Int} {Inv : S.State → Prop}
    (hupdate : ∀ reader context, S.update reader context =
      writeCheckpoint context S.checkpointKey [("index", .num (index reader))])
    (hopen : ∀ reader, S.open_ before = .ok reader → Inv reader)
    (hread : ∀ reader, Inv reader → Inv (S.read reader).2)
    (hreopen : ∀ reader stored, Inv reader →
      readCheckpoint stored S.checkpointKey = [("index", .num (index reader))] →
        S.open_ stored = .ok reader) : S.ResumesFrom before := by
  have hsaves : S.Checkpoints "index" (fun reader => .num (index reader)) Inv :=
    ⟨hupdate, fun _ _ => .num _⟩
  refine resumesFrom_of_placed (Resume.placed_id hread) hsaves hopen ?_
  exact fun reader stored hreader hrecord =>
    ⟨reader, hreopen reader stored hreader hrecord, hreader, rfl⟩

/-- `RestartableFileLineReader`, of a file. -/
def lineFile (options : RestartableFileLineReaderOptions α) (file : TextFile) : StreamReader α where
  State := RestartableFileLineReader
  checkpointKey := RestartableFileLineReader.checkpointKey options
  open_ context := RestartableFileLineReader.open_ options context file
  read := RestartableFileLineReader.read options
  update := RestartableFileLineReader.update options

/-- `CsvFileItemReader`, of a file. -/
def csvFile (options : CsvFileItemReaderOptions α) (file : TextFile) : StreamReader α where
  State := CsvFileItemReader
  checkpointKey := CsvFileItemReader.checkpointKey options
  open_ context := CsvFileItemReader.open_ options context file
  read := CsvFileItemReader.read options
  update := CsvFileItemReader.update options

/-- A client that refuses nothing. -/
def willingClient : S3ObjectClient Unit where
  refusesGet _ user := (none, user)
  refusesPut _ user := (none, user)

/-- `S3JsonlItemReader`, of an object among others. -/
def s3Object (options : S3JsonlItemReaderOptions α) (objects : S3Objects) : StreamReader α where
  State := S3JsonlItemReader
  checkpointKey := S3JsonlItemReader.checkpointKey options
  open_ context :=
    let (answer, reader, _) := S3JsonlItemReader.open_ options willingClient context objects {} ()
    answer.map fun _ => reader
  read := S3JsonlItemReader.read options
  update := S3JsonlItemReader.update options

/-- Opening gives the lines, and the index of a record. -/
theorem lineFile_open {options : RestartableFileLineReaderOptions α} {raw : JsString}
    {context : ExecutionContext} {reader : RestartableFileLineReader}
    (hlines : reader.lines = CodeUnits.splitLines raw)
    (hrecord : readCheckpoint context (RestartableFileLineReader.checkpointKey options) =
      [("index", .num reader.index)]) :
    RestartableFileLineReader.open_ options context (some raw) = .ok reader := by
  unfold RestartableFileLineReader.open_
  rw [readCheckpointNumber_of_record hrecord]
  exact congrArg (fun lines => Except.ok (RestartableFileLineReader.mk lines reader.index))
    hlines.symm

/-- The line file reader resumes from its checkpoint. -/
theorem lineFile_resumesFrom (options : RestartableFileLineReaderOptions α) (file : TextFile)
    (before : ExecutionContext) : (lineFile options file).ResumesFrom before := by
  cases file with
  | none => exact fun reader hreader => by cases hreader
  | some raw =>
      refine @resumesFrom_of_index α (lineFile options (some raw)) before
        RestartableFileLineReader.index (fun reader => reader.lines = CodeUnits.splitLines raw)
        (fun _ _ => rfl) ?_ (fun _ hreader => hreader) fun _ _ => lineFile_open
      intro reader hreader
      cases hreader
      rfl

/-- What the headers of a reader are. -/
def csvHeaders (options : CsvFileItemReaderOptions α) (raw : JsString) : List JsString :=
  options.headers.getD ((CodeUnits.splitLines raw).head?.elim []
    fun line => parseDelimitedLine line (CsvFileItemReader.delimiter options))

/-- The CSV file reader opens at the place of its record. -/
theorem csvFile_open {options : CsvFileItemReaderOptions α} {raw : JsString}
    {context : ExecutionContext} {reader : CsvFileItemReader}
    (hsource : reader.lines = CodeUnits.splitLines raw ∧ reader.headers = csvHeaders options raw)
    (hrecord : readCheckpoint context (CsvFileItemReader.checkpointKey options) =
      [("index", .num reader.index)]) :
    CsvFileItemReader.open_ options context (some raw) = .ok reader := by
  obtain ⟨lines, headers, index⟩ := reader
  obtain ⟨rfl, rfl⟩ := hsource
  unfold CsvFileItemReader.open_
  dsimp only
  rw [readCheckpointNumber_of_record hrecord]
  rfl

/-- A read keeps the source of a CSV file. -/
theorem csvFile_read_source (options : CsvFileItemReaderOptions α) (reader : CsvFileItemReader) :
    (CsvFileItemReader.read options reader).2.lines = reader.lines ∧
      (CsvFileItemReader.read options reader).2.headers = reader.headers := by
  unfold CsvFileItemReader.read
  split
  · exact ⟨rfl, rfl⟩
  · exact ⟨rfl, rfl⟩

/-- The CSV file reader resumes from its checkpoint. -/
theorem csvFile_resumesFrom (options : CsvFileItemReaderOptions α) (file : TextFile)
    (before : ExecutionContext) : (csvFile options file).ResumesFrom before := by
  cases file with
  | none => exact fun reader hreader => by cases hreader
  | some raw =>
      refine @resumesFrom_of_index α (csvFile options (some raw)) before CsvFileItemReader.index
        (fun reader => reader.lines = CodeUnits.splitLines raw ∧
          reader.headers = csvHeaders options raw)
        (fun _ _ => rfl) ?_ ?_ fun _ _ => csvFile_open
      · intro reader hreader
        cases hreader
        exact ⟨rfl, rfl⟩
      · intro reader hreader
        obtain ⟨hlines, hheaders⟩ := csvFile_read_source options reader
        exact ⟨hlines.trans hreader.1, hheaders.trans hreader.2⟩

/-- The S3 reader opens at the place of its record. -/
theorem s3Object_open {options : S3JsonlItemReaderOptions α} {body : String}
    {context : ExecutionContext} {reader : S3JsonlItemReader}
    (hlines : reader.lines = splitLines body)
    (hrecord : readCheckpoint context (S3JsonlItemReader.checkpointKey options) =
      [("index", .num reader.index)]) :
    S3JsonlItemReader.opened options body context = reader := by
  unfold S3JsonlItemReader.opened
  rw [readCheckpointNumber_of_record hrecord]
  exact congrArg (fun lines => S3JsonlItemReader.mk lines reader.index) hlines.symm

/-- A read keeps the lines of an object. -/
theorem s3Object_read_lines (options : S3JsonlItemReaderOptions α) (reader : S3JsonlItemReader) :
    (S3JsonlItemReader.read options reader).2.lines = reader.lines := by
  unfold S3JsonlItemReader.read
  split
  · rfl
  · rfl

/-- The S3 reader resumes from its checkpoint. -/
theorem s3Object_resumesFrom (options : S3JsonlItemReaderOptions α) (objects : S3Objects)
    (before : ExecutionContext) : (s3Object options objects).ResumesFrom before := by
  have hopen (context : ExecutionContext) : (s3Object options objects).open_ context =
      (objects options.toS3ObjectLocation).elim
        (.error ⟨.user "NoSuchKey", "The specified key does not exist."⟩)
        fun body => .ok (S3JsonlItemReader.opened options body context) := by
    unfold s3Object S3JsonlItemReader.open_ S3ObjectClient.getObject willingClient
    dsimp only
    cases objects options.toS3ObjectLocation with
    | none => rfl
    | some body => rfl
  cases hbody : objects options.toS3ObjectLocation with
  | none =>
      intro reader hreader
      rw [hopen, hbody] at hreader
      cases hreader
  | some body =>
      refine @resumesFrom_of_index α (s3Object options objects) before S3JsonlItemReader.index
        (fun reader => reader.lines = splitLines body) (fun _ _ => rfl) ?_ ?_ ?_
      · intro reader hreader
        rw [hopen, hbody] at hreader
        cases hreader
        rfl
      · exact fun reader hreader => (s3Object_read_lines options reader).trans hreader
      · intro reader stored hlines hrecord
        rw [hopen, hbody]
        exact congrArg Except.ok (s3Object_open hlines hrecord)

/-! ### Tables -/

/-- `DatabasePagingItemReader`. -/
def pages (options : DatabasePagingItemReaderOptions α) : StreamReader α where
  State := DatabasePagingItemReader α
  checkpointKey := DatabasePagingItemReader.checkpointKey options
  open_ context := .ok (DatabasePagingItemReader.open_ options context)
  read := DatabasePagingItemReader.read options
  update := DatabasePagingItemReader.update options

/-- `DatabaseCursorItemReader`. -/
def rowsBehind (options : DatabaseCursorItemReaderOptions α) : StreamReader α where
  State := DatabaseCursorItemReader α
  checkpointKey := DatabaseCursorItemReader.checkpointKey options
  open_ context := .ok (DatabaseCursorItemReader.open_ options context)
  read := DatabaseCursorItemReader.read options
  update := DatabaseCursorItemReader.update options

/-- With nothing in the buffer. -/
theorem ahead_of_empty {π : Type} {rest : π → List α} {Ok : π → Prop} {place : π} (h : Ok place) :
    Paged.Ahead rest Ok { place := place } where
  ok := h
  ahead := List.nil_prefix

/-- From an offset in the table. -/
theorem pages_resumesFrom (table : PagedTable α) {before : ExecutionContext}
    (hbefore : 0 ≤ readCheckpointNumber before
      (DatabasePagingItemReader.checkpointKey table.options) "offset" 0) :
    (pages table.options).ResumesFrom before := by
  have hsaves : (pages table.options).Checkpoints "offset" (fun reader => .num reader.place)
      (Paged.Ahead table.rest (0 ≤ ·)) := ⟨fun _ _ => rfl, fun _ _ => .num _⟩
  refine resumesFrom_of_placed table.pages.placed hsaves ?_ ?_
  · intro reader hreader
    cases hreader
    exact ahead_of_empty hbefore
  · intro reader stored hreader hrecord
    have hplace := readCheckpointNumber_of_record hrecord 0
    have hok := hreader.ok
    rw [← hplace] at hok
    exact ⟨_, rfl, ahead_of_empty hok, hplace⟩

/-- From any cursor. -/
theorem rowsBehind_resumesFrom (table : CursorTable α) {before : ExecutionContext}
    (hbefore : before.WellKeyed) : (rowsBehind table.options).ResumesFrom before := by
  have hsaves : (rowsBehind table.options).Checkpoints "cursor" (fun reader => reader.place)
      (Paged.Ahead table.rest JsonValue.WellKeyed) := ⟨fun _ _ => rfl, fun _ hreader => hreader.ok⟩
  refine resumesFrom_of_placed table.pages.placed hsaves ?_ ?_
  · intro reader hreader
    cases hreader
    exact ahead_of_empty (hbefore.readCheckpointValue _ _ table.keyedInitial)
  · intro reader stored hreader hrecord
    have hplace := readCheckpointValue_of_record hrecord (table.options.initialCursor.getD .null)
    have hok := hreader.ok
    rw [← hplace] at hok
    exact ⟨_, rfl, ahead_of_empty hok, hplace⟩

/-- **The readers that ship with the runtime resume**, whatever they read, from the first reads on
or from a checkpoint. -/
theorem builtin_readers_resume :
    (∀ (options : RestartableFileLineReaderOptions α) (file : TextFile)
      (before : ExecutionContext), (lineFile options file).ResumesFrom before) ∧
    (∀ (options : CsvFileItemReaderOptions α) (file : TextFile) (before : ExecutionContext),
      (csvFile options file).ResumesFrom before) ∧
    (∀ (options : S3JsonlItemReaderOptions α) (objects : S3Objects) (before : ExecutionContext),
      (s3Object options objects).ResumesFrom before) ∧
    (∀ (table : PagedTable α) (before : ExecutionContext),
      0 ≤ readCheckpointNumber before (pages table.options).checkpointKey "offset" 0 →
        (pages table.options).ResumesFrom before) ∧
    (∀ (table : CursorTable α) (before : ExecutionContext), before.WellKeyed →
      (rowsBehind table.options).ResumesFrom before) :=
  ⟨lineFile_resumesFrom, csvFile_resumesFrom, s3Object_resumesFrom,
    fun table _ hbefore => pages_resumesFrom table hbefore,
    fun table _ hbefore => rowsBehind_resumesFrom table hbefore⟩

/-! ### A table of numbers -/

/-- Pages of two. -/
def numberPages : PagedTable Nat where
  options :=
    { pageSize := 2
      fetchPage := fun offset limit => .ok (([1, 2, 3].drop offset.toNat).take limit) }
  rows := [1, 2, 3]
  pageSize_pos := by decide
  slice _ := rfl

/-- Numbers by their size, behind `null`. -/
def numberPrecedes : JsonValue → JsonValue → Bool
  | .null, .num _ => true
  | .num m, .num n => m < n
  | _, _ => false

/-- No cursor precedes itself. -/
theorem numberPrecedes_irrefl (cursor : JsonValue) : ¬ numberPrecedes cursor cursor := by
  cases cursor with
  | num n => exact fun hlt => Int.lt_irrefl n (of_decide_eq_true hlt)
  | _ => exact Bool.false_ne_true

theorem numberPrecedes_trans {a b c : JsonValue} (hab : numberPrecedes a b)
    (hbc : numberPrecedes b c) : numberPrecedes a c := by
  cases b with
  | num n =>
      cases c with
      | num p =>
          cases a with
          | null => rfl
          | num m =>
              have hmn : m < n := of_decide_eq_true hab
              have hnp : n < p := of_decide_eq_true hbc
              exact decide_eq_true (Int.lt_trans hmn hnp)
          | _ => cases hab
      | _ => cases hbc
  | _ => cases a <;> cases hab

/-- The rows behind a number, two at a time. -/
def numberRows : CursorTable Nat where
  options :=
    { pageSize := 2
      fetchAfter := fun cursor limit =>
        .ok (([1, 2, 3].filter fun n : Nat => numberPrecedes cursor (.num n)).take limit)
      getCursor := fun n => .num n }
  rows := [1, 2, 3]
  precedes := numberPrecedes
  irrefl := numberPrecedes_irrefl
  trans := numberPrecedes_trans
  sorted := by decide
  fetched cursor := ⟨_, rfl, List.take_prefix _ _, List.length_take_le _ _, fun hnil =>
    List.take_eq_nil_iff.mp hnil⟩
  keyedInitial := .null
  keyed _ := .num _

/-- A row is read of a page of two; the fresh readers fetch pages that begin with the next row. -/
theorem builtin_readers_resume_numbers :
    let context : ExecutionContext := { data := .obj [("other", .str "kept")], version := 1 }
    let fresh : ExecutionContext := { data := .null, version := 0 }
    let first := DatabasePagingItemReader.open_ numberPages.options fresh
    let firstRow := DatabaseCursorItemReader.open_ numberRows.options fresh
    (∃ stored reader,
      ((pages numberPages.options).update (Resume.behind (pages numberPages.options).read 1 first)
        context).throughJson = some stored ∧
      (pages numberPages.options).open_ stored = .ok reader ∧
      Resume.answers (pages numberPages.options).read 3 reader =
        [.ok (some 2), .ok (some 3), .ok none] ∧
      JsonValue.getField (asJsonRecord stored.data) "other" = some (.str "kept")) ∧
    ∃ stored reader,
      ((rowsBehind numberRows.options).update
        (Resume.behind (rowsBehind numberRows.options).read 1 firstRow) context).throughJson =
          some stored ∧
      (rowsBehind numberRows.options).open_ stored = .ok reader ∧
      Resume.answers (rowsBehind numberRows.options).read 3 reader =
        [.ok (some 2), .ok (some 3), .ok none] ∧
      JsonValue.getField (asJsonRecord stored.data) "other" = some (.str "kept") := by
  intro context fresh first firstRow
  have hcontext : context.WellKeyed :=
    .obj (List.nodup_singleton "other") (List.forall_mem_singleton.mpr (.str "kept"))
  constructor
  · obtain ⟨stored, reader, hstored, hreader, hanswers, -, hkept⟩ :=
      (@builtin_readers_resume Nat).2.2.2.1 numberPages fresh (by decide) first rfl 1 context
        hcontext
    refine ⟨stored, reader, hstored, hreader, (hanswers 3).trans ?_, (hkept "other" ?_).trans rfl⟩
    · decide +kernel
    · decide
  · obtain ⟨stored, reader, hstored, hreader, hanswers, -, hkept⟩ :=
      (@builtin_readers_resume Nat).2.2.2.2 numberRows fresh .null firstRow rfl 1 context
        hcontext
    refine ⟨stored, reader, hstored, hreader, (hanswers 3).trans ?_, (hkept "other" ?_).trans rfl⟩
    · decide +kernel
    · decide

end StreamReader

end NestBatch
