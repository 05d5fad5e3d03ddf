import NestBatch.Io.LineFiles
import NestBatch.Lib.JsTree

/-!
# JSONL files

`JsonlFileItemWriter` appends a line of JSON for each item of a batch, and `JsonlFileItemReader`
gives the value of every line that is neither blank nor `null`.  Whatever strings are in the items,
their lines come back: JSON escapes line breaks, and no text begins with a byte order mark.  An
empty batch appends nothing, not even a file.
-/

namespace NestBatch

open JsString JsTree

namespace JsonlFileItemWriter

/-- `JSON.stringify(item)` in a `join`, where nothing stands for a value that has no text. -/
def itemText (item : JsTree) : JsString := (toJson item).elim [] Json.stringify

/-- `write`: the text that is appended, if any. -/
def write (items : List JsTree) : Option JsString :=
  if items.length = 0 then none
  else some ([lineFeed].intercalate (items.map itemText) ++ [lineFeed])

/-- Batches written one after another. -/
def writeAll (file : TextFile) : List (List JsTree) → TextFile
  | [] => file
  | items :: rest => writeAll ((write items).elim file file.append) rest

end JsonlFileItemWriter

namespace JsonlFileItemReader

/-- `JSON.parse`, of a line or of `undefined`; the message of a `SyntaxError` is up to the engine.
A `null` is no item. -/
def parseLine (line : Option JsString) : Except Thrown (Option JsTree) :=
  match (line.bind Json.parse).map ofJson with
  | none => .error ⟨.user "SyntaxError", "Unexpected token in JSON"⟩
  | some .null => .ok none
  | some value => .ok (some value)

/-- The options that the constructor passes on. -/
def options (path : String) (checkpointKey : Option String) :
    RestartableFileLineReaderOptions JsTree where
  path := path
  checkpointKey := checkpointKey
  skipBlankLines := some true
  mapLine := some fun line _ => parseLine line
  asItem line := line.elim .undefined .str

end JsonlFileItemReader

namespace JsonlFileItemWriter

theorem write_of_ne_nil {items : List JsTree} (h : items ≠ []) :
    write items = some (CsvFileItemWriter.terminated (items.map itemText)) := by
  rw [write, if_neg (List.length_eq_zero_iff.not.mpr h),
    CsvFileItemWriter.intercalate_eq_terminated (List.map_eq_nil_iff.not.mpr h)]

/-- The lines of all batches are appended, if there are any. -/
theorem writeAll_eq_append (file : TextFile) (batches : List (List JsTree)) :
    writeAll file batches = if batches.flatten = [] then file
      else some (file.getD [] ++
        CsvFileItemWriter.terminated ((batches.flatten.map itemText).map toWellFormed)) := by
  induction batches generalizing file with
  | nil => rfl
  | cons items rest ih =>
      rw [writeAll, ih, List.flatten_cons]
      by_cases hitems : items = []
      · rw [hitems]
        rfl
      · have happended := toWellFormed_terminated (items.map itemText)
        rw [write_of_ne_nil hitems, Option.elim_some, TextFile.append, happended,
          if_neg (List.append_ne_nil_of_left_ne_nil hitems _), List.map_append, List.map_append,
          CsvFileItemWriter.terminated_append]
        by_cases hrest : rest.flatten = []
        · rw [if_pos hrest, hrest]
          exact congrArg (fun t => some (file.getD [] ++ t)) (List.append_nil _).symm
        · rw [if_neg hrest, Option.getD_some, List.append_assoc]

end JsonlFileItemWriter

/-- What JSON knows, other than `null`. -/
structure IsItem (v : JsTree) : Prop where
  isJson : IsJson v
  ne_null : v ≠ .null

section Lines

open JsonlFileItemWriter

variable {v : JsTree}

/-- An item has a text, which is read back. -/
theorem IsItem.exists_text (h : IsItem v) :
    ∃ written, itemText v = Json.stringify written ∧ ofJson written = v := by
  obtain ⟨written, hwritten, hback⟩ := h.isJson.exists_toJson
  exact ⟨written, by rw [itemText, hwritten, Option.elim_some], hback⟩

/-- No line break is in the line of an item. -/
theorem IsItem.unbroken (h : IsItem v) : Unbroken (itemText v) := by
  obtain ⟨written, htext, -⟩ := h.exists_text
  rw [htext]
  exact ⟨fun hu => absurd (Json.space_le_of_mem_stringify written _ hu) (by decide),
    fun hu => absurd (Json.space_le_of_mem_stringify written _ hu) (by decide)⟩

/-- The text of an item is well formed. -/
theorem IsItem.wellFormed (h : IsItem v) : toWellFormed (itemText v) = itemText v := by
  obtain ⟨written, htext, -⟩ := h.exists_text
  rw [htext]
  exact Json.isWellFormed_stringify written

/-- The line of an item begins with neither white space nor a byte order mark. -/
theorem IsItem.head (h : IsItem v) :
    withoutMark (itemText v) = itemText v ∧ (trim (itemText v)).length ≠ 0 := by
  obtain ⟨written, htext, -⟩ := h.exists_text
  obtain ⟨u, rest, hcons, hu⟩ := Json.stringify_head written
  rw [htext, hcons]
  constructor
  · refine if_neg fun hmark => ?_
    rw [Option.some.inj hmark] at hu
    exact absurd hu (by decide)
  · intro hlength
    have hblank := (trim_eq_nil_iff _).mp (List.length_eq_zero_iff.mp hlength)
    rw [List.all_cons, hu] at hblank
    cases hblank

/-- What a line makes. -/
def makeLine (line : JsString) : Except Thrown (Option JsTree) :=
  if (trim line).length = 0 then .ok none else JsonlFileItemReader.parseLine (some line)

/-- A line is mapped to the value of its text. -/
theorem mapped_eq (path : String) (checkpointKey : Option String) (line : JsString) (i : Int) :
    RestartableFileLineReader.mapped (JsonlFileItemReader.options path checkpointKey)
      (some line) i = makeLine line := rfl

/-- The line of an item makes the item. -/
theorem IsItem.makeLine (h : IsItem v) : makeLine (itemText v) = .ok (some v) := by
  rw [NestBatch.makeLine, if_neg h.head.2]
  obtain ⟨written, htext, hback⟩ := h.exists_text
  have hne := h.ne_null
  rw [JsonlFileItemReader.parseLine, Option.bind_some, htext, Json.parse_stringify,
    Option.map_some, hback]
  cases v with
  | null => exact absurd rfl hne
  | _ => rfl

end Lines

/-! ### The round trip -/

section RoundTrip

open JsonlFileItemWriter RestartableFileLineReader

variable {items : List JsTree}

/-- The lines of items are split as they were joined. -/
theorem splitLines_itemText (h : ∀ v ∈ items, IsItem v) :
    CodeUnits.splitLines (CsvFileItemWriter.terminated (items.map itemText)) =
      items.map itemText ++ [[]] := by
  cases items with
  | nil => rfl
  | cons v rest =>
      have hunbroken : ∀ line ∈ (v :: rest).map itemText, Unbroken line := by
        intro line hline
        obtain ⟨w, hw, rfl⟩ := List.mem_map.mp hline
        exact (h w hw).unbroken
      rw [List.map_cons] at hunbroken ⊢
      rw [splitLines_terminated hunbroken, (h v List.mem_cons_self).head.1]
      rfl

/-- What the lines of items make. -/
theorem filterMap_makeLine (h : ∀ v ∈ items, IsItem v) :
    (items.map itemText ++ [[]]).filterMap (fun line => settled (makeLine line)) =
      items.map .ok := by
  induction items with
  | nil => rfl
  | cons v rest ih =>
      rw [List.map_cons, List.cons_append, List.filterMap_cons,
        (h v List.mem_cons_self).makeLine, ih fun w hw => h w (List.mem_cons_of_mem v hw)]
      rfl

/-- What is in a file that was empty or missing. -/
theorem writeAll_of_empty {file : TextFile} (hfile : file.getD [] = [])
    {batches : List (List JsTree)} (h : ∀ v ∈ batches.flatten, IsItem v)
    (hthere : file.isSome ∨ batches.flatten ≠ []) :
    writeAll file batches =
      some (CsvFileItemWriter.terminated (batches.flatten.map itemText)) := by
  have htexts : (batches.flatten.map itemText).map toWellFormed = batches.flatten.map itemText := by
    rw [List.map_map]
    exact List.map_congr_left fun v hv => (h v hv).wellFormed
  rw [writeAll_eq_append]
  by_cases hempty : batches.flatten = []
  · cases file with
    | none => exact absurd hempty (hthere.resolve_left Bool.false_ne_true)
    | some text =>
        rw [if_pos hempty, hempty]
        exact congrArg some hfile
  · rw [if_neg hempty, hfile, htexts]
    rfl

/-- **Items come back from a JSONL file**, and then `null` for ever, once there is a file: it was
there and empty, or some batch has an item.  Else there is none to open. -/
theorem jsonl_items_come_back (path : String) (checkpointKey : Option String)
    (context : ExecutionContext) (file : TextFile) (batches : List (List JsTree))
    (hcontext : readCheckpoint context (RestartableFileLineReader.checkpointKey
      (JsonlFileItemReader.options path checkpointKey)) = [])
    (hfile : file.getD [] = []) (hitems : ∀ batch ∈ batches, ∀ v ∈ batch, IsItem v) :
    let options := JsonlFileItemReader.options path checkpointKey
    let opened := open_ options context (writeAll file batches)
    (file.isSome ∨ batches.flatten ≠ [] →
      ∃ reader, opened = .ok reader ∧ ∀ n, reads options (batches.flatten.length + n) reader =
        batches.flatten.map (fun v => .ok (some v)) ++ List.replicate n (.ok none)) ∧
    (file = none ∧ batches.flatten = [] →
      opened = .error (.error ("ENOENT: no such file or directory, open '" ++ path ++ "'"))) := by
  intro options opened
  have hall : ∀ v ∈ batches.flatten, IsItem v := by
    intro v hv
    obtain ⟨batch, hbatch, hmem⟩ := List.mem_flatten.mp hv
    exact hitems batch hbatch v hmem
  constructor
  · intro hthere
    have hindex : readCheckpointNumber context (RestartableFileLineReader.checkpointKey options)
        "index" (options.skipLines.getD 0) = 0 := by
      rw [readCheckpointNumber, hcontext]
      rfl
    refine ⟨{ lines := batches.flatten.map itemText ++ [[]] }, ?_, fun n => ?_⟩
    · change open_ options context (writeAll file batches) = _
      rw [writeAll_of_empty hfile hall hthere, open_, hindex]
      exact congrArg (fun lines => Except.ok (RestartableFileLineReader.mk lines 0))
        (splitLines_itemText hall)
    · have hahead : ahead options { lines := batches.flatten.map itemText ++ [[]] } =
          batches.flatten.map .ok := by
        rw [← filterMap_makeLine hall]
        exact outcomes_eq_filterMap (fun line i => mapped_eq path checkpointKey line i) _ 0
      have hreads := RestartableFileLineReader.reads_eq options n
        { lines := batches.flatten.map itemText ++ [[]] }
      rw [hahead, List.length_map, List.map_map] at hreads
      exact hreads
  · intro h
    obtain ⟨rfl, hempty⟩ := h
    change open_ options context (writeAll none batches) = _
    rw [writeAll_eq_append, if_pos hempty]
    rfl

/-- A line break, a quote and a mark in a string, and a batch of nothing in front. -/
theorem jsonl_items_come_back_broken :
    let options := JsonlFileItemReader.options "items.jsonl" none
    let batches : List (List JsTree) :=
      [[], [.str [0xfeff, lineFeed, quoteUnit], .arr [.null]], [.bool false]]
    ∃ reader, open_ options { data := .null, version := 0 } (writeAll none batches) = .ok reader ∧
      ∀ n, reads options (3 + n) reader =
        [.ok (some (.str [0xfeff, lineFeed, quoteUnit])), .ok (some (.arr [.null])),
          .ok (some (.bool false))] ++ List.replicate n (.ok none) := by
  have hstr : IsItem (.str [0xfeff, lineFeed, quoteUnit]) := ⟨⟨trivial, trivial⟩, nofun⟩
  have harr : IsItem (.arr [.null]) :=
    ⟨(isJson_arr _).mpr (List.forall_mem_singleton.mpr ⟨trivial, trivial⟩), nofun⟩
  have hbool : IsItem (.bool false) := ⟨⟨trivial, trivial⟩, nofun⟩
  have hitems : ∀ batch ∈ [[], [.str [0xfeff, lineFeed, quoteUnit], .arr [.null]], [.bool false]],
      ∀ v ∈ batch, IsItem v := by
    intro batch hbatch v hv
    have hmem := List.mem_flatten.mpr ⟨batch, hbatch, hv⟩
    rcases List.mem_cons.mp hmem with rfl | hmem
    · exact hstr
    · rcases List.mem_cons.mp hmem with rfl | hmem
      · exact harr
      · rw [List.mem_singleton.mp hmem]
        exact hbool
  exact (jsonl_items_come_back "items.jsonl" none { data := .null, version := 0 } none
    [[], [.str [0xfeff, lineFeed, quoteUnit], .arr [.null]], [.bool false]] rfl rfl hitems).1
    (Or.inr (List.cons_ne_nil _ _))

/-- A writer that is handed nothing leaves no file to open. -/
theorem jsonl_nothing_written :
    let options := JsonlFileItemReader.options "items.jsonl" none
    ¬ ∃ reader, open_ options { data := .null, version := 0 } (writeAll none [[]]) = .ok reader ∧
      ∀ n, reads options n reader = List.replicate n (.ok none) := by
  intro options h
  obtain ⟨reader, hopened, -⟩ := h
  cases hopened

end RoundTrip

end NestBatch
