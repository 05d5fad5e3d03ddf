import NestBatch.Execution.RetriedReads

/-!
# One content in a file and in an object

What a chunk step reads until the end of its input, through `JsonlFileItemReader` and through
`S3JsonlItemReader` without a `mapItem`, when both have the same content: lines that `JSON.parse`
takes, and blank ones.  The one reader passes over a line whose value is `null`.  The other answers
with it, which ends a chunk; where a chunk begins, it ends the step.
-/

namespace NestBatch

variable {α : Type}

/-- Lines that are valid or blank. -/
structure JsonlSource (α : Type) where
  content : String
  /-- `JSON.parse`; `none` stands for `null`. -/
  parse : String → Except Thrown (Option α)
  valid : ∀ line ∈ splitLines content, jsTrim line = "" ∨ ∃ value, parse line = .ok value

/-- What a step has read. -/
def itemsOf (target : Handle) (calls : Calls α) : List α := Feed.items (readAnswers target calls)

namespace JsonlSource

variable (source : JsonlSource α)

/-- The content in a file. -/
def fileImport (target : Handle) (path : String) (checkpointKey : Option String) :
    JsonlImport α α where
  target := target
  reader := .file { path := path, checkpointKey := checkpointKey, parse := source.parse }
  content := source.content

/-- The content in an object. -/
def objectImport (target : Handle) (location : S3ObjectLocation) (checkpointKey : Option String) :
    JsonlImport α α where
  target := target
  reader := .s3
    { toS3ObjectLocation := location, checkpointKey := checkpointKey, parse := source.parse
      asItem := id }
  content := source.content

/-- The value of a line; a blank line has none. -/
def valueOf (line : String) : Option (Option α) :=
  if jsTrim line = "" then none else (source.parse line).toOption

/-- The values from an index on; `none` is `null`. -/
def values (start : Int) : List (Option α) :=
  ((splitLines source.content).drop start.toNat).filterMap source.valueOf

end JsonlSource

/-- How many values there are behind the last `null`. -/
def sinceNull (values : List (Option α)) : Nat := (values.reverse.takeWhile Option.isSome).length

/-- A `null` where a chunk begins, in front of another value. -/
def NullCuts (chunkSize : Nat) (values : List (Option α)) : Prop :=
  ∃ before after item, values = before ++ none :: after ∧ chunkSize ∣ sinceNull before ∧
    some item ∈ after

/-! ### What is to be read -/

section Values

/-- Answers that never fail count since the last null. -/
theorem sinceGap_map_ok (values : List (Option α)) :
    Feed.sinceGap (values.map Except.ok : List (Feed.Answer Thrown α)) = sinceNull values := by
  induction values using List.reverseRecOn with
  | nil => rfl
  | append_singleton values value ih =>
      rw [List.map_append]
      refine (Feed.sinceGap_snoc _ (.ok value)).trans ?_
      rw [ih, sinceNull, sinceNull, List.reverse_append]
      cases value with
      | none => rfl
      | some item => rfl

/-- Answers that are errors, in front of the others. -/
theorem sinceGap_errors (errors : List Thrown) (answers : List (Feed.Answer Thrown α)) :
    Feed.sinceGap (errors.map Except.error ++ answers) = Feed.sinceGap answers := by
  induction errors with
  | nil => rfl
  | cons err rest ih => exact ih

/-- Errors carry no item. -/
theorem items_errors (errors : List Thrown) (answers : List (Feed.Answer Thrown α)) :
    Feed.items (errors.map Except.error ++ answers) = Feed.items answers := by
  induction errors with
  | nil => rfl
  | cons err rest ih => exact ih

/-- Answers that never fail carry the values that are not null. -/
theorem items_map_ok (values : List (Option α)) :
    Feed.items (values.map Except.ok : List (Feed.Answer Thrown α)) = values.filterMap id := by
  unfold Feed.items
  rw [List.filterMap_map]
  rfl

/-- Errors and then values are cut short exactly where the nulls cut. -/
theorem cutShort_iff (chunkSize : Nat) (errors : List Thrown) (values : List (Option α)) :
    Feed.CutShort chunkSize (errors.map Except.error ++ values.map Except.ok) ↔
      NullCuts chunkSize values := by
  constructor
  · intro h
    obtain ⟨before, after, item, heq, hstride, hitem⟩ := h
    have hbehind : ∃ between, before = errors.map Except.error ++ between ∧
        values.map Except.ok = between ++ .ok none :: after := by
      rcases List.append_eq_append_iff.mp heq with
        ⟨between, hbefore, hvalues⟩ | ⟨tail, herrors, hgap⟩
      · exact ⟨between, hbefore, hvalues⟩
      · cases tail with
        | nil => exact ⟨[], by rw [herrors, List.append_nil, List.append_nil], hgap.symm⟩
        | cons answer tail =>
            have hmem : answer ∈ errors.map Except.error :=
              herrors ▸ List.mem_append_right _ List.mem_cons_self
            obtain ⟨err, -, rfl⟩ := List.mem_map.mp hmem
            cases (List.cons.inj hgap).1
    obtain ⟨between, rfl, hvalues⟩ := hbehind
    obtain ⟨first, rest, rfl, rfl, hrest⟩ := List.map_eq_append_iff.mp hvalues
    obtain ⟨value, last, rfl, hvalue, rfl⟩ := List.map_eq_cons_iff.mp hrest
    cases hvalue
    rw [sinceGap_errors, sinceGap_map_ok] at hstride
    obtain ⟨value, hmem, hvalue⟩ := List.mem_map.mp hitem
    cases hvalue
    exact ⟨first, last, item, rfl, hstride, hmem⟩
  · intro h
    obtain ⟨before, after, item, rfl, hstride, hitem⟩ := h
    refine ⟨errors.map Except.error ++ before.map Except.ok, after.map Except.ok, item, ?_, ?_, ?_⟩
    · rw [List.map_append, List.append_assoc]
      rfl
    · rw [sinceGap_errors, sinceGap_map_ok]
      exact hstride
    · exact List.mem_map_of_mem hitem

end Values

namespace JsonlSource

variable (source : JsonlSource α)

/-- What a reader answers for a value that it does not pass over. -/
def kept (passesNull : Bool) (values : List (Option α)) : List (Option α) :=
  if passesNull then values.filter Option.isSome else values

/-- The answers in front of the first line. -/
theorem map_visitsBefore (n : Nat) :
    (JsonlItemReader.visitsBefore n : List (Int × Feed.Answer Thrown α)).map Prod.snd =
      (List.replicate n LineReader.noLine).map Except.error := by
  induction n with
  | zero => rfl
  | succ n ih =>
      rw [JsonlItemReader.visitsBefore, List.map_cons, ih]
      rfl

variable {source} in
/-- A reader that makes of each line what `JSON.parse` does visits the values it keeps. -/
theorem map_visitsFrom {reader : JsonlItemReader α α} {counts : LineCounts} {lines : List String}
    (hmap : ∀ line index, (reader.mapLine line index counts).1 = source.parse line)
    (hnull : ∀ line, reader.isNull line = true ↔ source.parse line = .ok none)
    (hvalid : ∀ line ∈ lines, jsTrim line = "" ∨ ∃ value, source.parse line = .ok value)
    (index : Int) :
    (reader.visitsFrom counts lines index).map Prod.snd =
      (kept reader.passesNull (lines.filterMap source.valueOf)).map Except.ok := by
  induction lines generalizing index with
  | nil => cases reader.passesNull <;> rfl
  | cons line rest ih =>
      have hrest := ih fun l hl => hvalid l (List.mem_cons_of_mem _ hl)
      by_cases hblank : jsTrim line = ""
      · have hpass : reader.passes line = true := by simp [JsonlItemReader.passes, hblank]
        have hvalue : source.valueOf line = none := if_pos hblank
        rw [JsonlItemReader.visitsFrom_pass hpass, List.filterMap_cons_none hvalue, hrest]
      · obtain ⟨value, hparsed⟩ := (hvalid line List.mem_cons_self).resolve_left hblank
        have hvalue : source.valueOf line = some value := by
          rw [valueOf, if_neg hblank, hparsed]
          rfl
        have hpasses : reader.passes line = true ↔ reader.passesNull = true ∧ value = none := by
          have hline := hnull line
          rw [hparsed, Except.ok.injEq] at hline
          simp [JsonlItemReader.passes, hblank, hline]
        rw [List.filterMap_cons_some hvalue]
        by_cases hpass : reader.passes line = true
        · obtain ⟨hskips, rfl⟩ := hpasses.mp hpass
          rw [JsonlItemReader.visitsFrom_pass hpass, hrest, hskips]
          rfl
        · have hkept : kept reader.passesNull (value :: rest.filterMap source.valueOf) =
              value :: kept reader.passesNull (rest.filterMap source.valueOf) := by
            cases hskips : reader.passesNull with
            | false => rfl
            | true =>
                cases value with
                | none => exact absurd (hpasses.mpr ⟨hskips, rfl⟩) hpass
                | some item => rfl
          rw [JsonlItemReader.visitsFrom_stop hpass, List.map_cons, hrest, hmap, hparsed, hkept]
          rfl

/-- What is to be read from an index on: errors in front of the first line, and values. -/
def ahead (passesNull : Bool) (start : Int) : List (Feed.Answer Thrown α) :=
  (List.replicate (-start).toNat LineReader.noLine).map Except.error ++
    (kept passesNull (source.values start)).map Except.ok

/-- A line of the file is null exactly when it parses to null. -/
theorem isNull_file_iff (options : JsonlFileItemReaderOptions α) (line : String) :
    (JsonlItemReader.file (ν := α) options).isNull line = true ↔ options.parse line = .ok none := by
  unfold JsonlItemReader.isNull
  dsimp only
  cases options.parse line with
  | error err => exact iff_of_false Bool.false_ne_true nofun
  | ok value =>
      cases value with
      | none => exact iff_of_true rfl rfl
      | some item => exact iff_of_false Bool.false_ne_true nofun

/-- A line of the object is null exactly when it parses to null. -/
theorem isNull_s3_iff (options : S3JsonlMappingOptions α α) (line : String) :
    (JsonlItemReader.s3 options).isNull line = true ↔ options.parse line = .ok none := by
  unfold JsonlItemReader.isNull
  dsimp only
  cases options.parse line with
  | error err => exact iff_of_false Bool.false_ne_true nofun
  | ok value =>
      cases value with
      | none => exact iff_of_true rfl rfl
      | some item => exact iff_of_false Bool.false_ne_true nofun

variable {source} {target : Handle} {checkpointKey : Option String}

/-- The file's visits answer what lies ahead, nulls passed over. -/
theorem map_visitsAt_file {path : String} (counts : LineCounts) (start : Int) :
    ((source.fileImport target path checkpointKey).visitsAt counts start).map Prod.snd =
      source.ahead true start := by
  unfold JsonlImport.visitsAt JsonlItemReader.visits
  rw [List.map_append, map_visitsBefore]
  refine congrArg _ (map_visitsFrom (fun _ _ => rfl) (isNull_file_iff _) ?_ _)
  exact fun line hline => source.valid line (List.mem_of_mem_drop hline)

/-- The object's visits answer what lies ahead, nulls included. -/
theorem map_visitsAt_object {location : S3ObjectLocation} (counts : LineCounts) (start : Int) :
    ((source.objectImport target location checkpointKey).visitsAt counts start).map Prod.snd =
      source.ahead false start := by
  unfold JsonlImport.visitsAt JsonlItemReader.visits
  rw [List.map_append, map_visitsBefore]
  refine congrArg _ (map_visitsFrom ?_ (isNull_s3_iff _) ?_ _)
  · intro line index
    change (S3JsonlItemReader.mapLine _ line index counts).1 = source.parse line
    unfold S3JsonlItemReader.mapLine
    dsimp only [objectImport]
    cases source.parse line with
    | error err => rfl
    | ok value => exact congrArg Except.ok Option.map_id'
  · exact fun line hline => source.valid line (List.mem_of_mem_drop hline)

/-- From the first line on nothing fails. -/
theorem error_not_mem_ahead {passesNull : Bool} {start : Int} (h : 0 ≤ start) (err : Thrown) :
    .error err ∉ source.ahead passesNull start := by
  have hzero : (-start).toNat = 0 := by omega
  unfold ahead
  rw [hzero]
  intro hmem
  obtain ⟨value, -, hvalue⟩ := List.mem_map.mp hmem
  cases hvalue

/-- Passing over nulls keeps the items. -/
theorem filterMap_kept (values : List (Option α)) :
    (kept true values).filterMap id = values.filterMap id := by
  induction values with
  | nil => rfl
  | cons value rest ih =>
      cases value with
      | none => exact ih
      | some item => exact congrArg (item :: ·) ih

/-- Both readers have the same items to give. -/
theorem items_ahead (passesNull : Bool) (start : Int) :
    Feed.items (source.ahead passesNull start) = (source.values start).filterMap id := by
  unfold ahead
  rw [items_errors, items_map_ok]
  cases passesNull with
  | false => rfl
  | true => exact filterMap_kept _

/-- Nothing cuts the reading of a file. -/
theorem not_nullCuts_kept (chunkSize : Nat) (values : List (Option α)) :
    ¬ NullCuts chunkSize (kept true values) := by
  intro h
  obtain ⟨before, after, item, heq, -⟩ := h
  have hmem : none ∈ values.filter Option.isSome := by
    change kept true values = _ at heq
    rw [kept, if_pos rfl] at heq
    rw [heq]
    exact List.mem_append_right _ List.mem_cons_self
  cases (List.mem_filter.mp hmem).2

end JsonlSource

/-! ### Steps that read to the end -/

/-- A chunk step that is COMPLETED, with what is around it.  Without a range it reads until the end
of its input; a read that fails, as one in front of the first line does, is not skipped. -/
structure StepRun (I : JsonlImport α α) where
  User : Type
  fetch : User → Except Thrown String × User
  others : Environment α User
  fuel : Nat
  step : ChunkStepDefinition
  context : ChunkExecutionContext
  world : World (JsonlState × User)
  result : StepResult
  fits : I.Fits fetch others step context
  whole : ChunkStepExecutor.resolveRange step context = .ok none
  unskipped : step.skipPolicy = none ∨ 0 ≤ I.place
    (world.repo.getExecutionContext (.stepExecutionId context.stepExecutionId)).data
  returned : (Prog.run (handle (I.environment fetch others)).traced
    (ChunkStepExecutor.execute fuel step context) (world, [])).1 = .returned result
  completed : result.status = .COMPLETED

namespace StepRun

variable {I : JsonlImport α α} (run : StepRun I)

/-- The index of the checkpoint that the step begins with. -/
def start : Int :=
  I.place (run.world.repo.getExecutionContext (.stepExecutionId run.context.stepExecutionId)).data

/-- The items it reads. -/
def items : List α :=
  itemsOf I.target (Prog.run (handle (I.environment run.fetch run.others)).traced
    (ChunkStepExecutor.execute run.fuel run.step run.context) (run.world, [])).2.2

/-- The answers of its reads are those of a consumer that has come to its end. -/
theorem finished {source : JsonlSource α} {passesNull : Bool}
    (hahead : ∀ counts start, (I.visitsAt counts start).map Prod.snd =
      source.ahead passesNull start) :
    ∃ taken left idle, source.ahead passesNull run.start = taken ++ left ∧
      (idle ≠ 0 → left = []) ∧
      run.items = Feed.items (taken ++ List.replicate idle (.ok none)) ∧
      (run.step.limits none).Over (taken ++ List.replicate idle (.ok none)) := by
  have hunfailing (hstart : 0 ≤ run.start) :
      I.Unfailing run.world.user.1.counts run.start := by
    intro err
    rw [hahead]
    exact JsonlSource.error_not_mem_ahead hstart err
  have hended := Prog.wp_run (run.fits.wp_execute run.fuel run.world
    (run.unskipped.imp_right hunfailing) run.whole)
  rw [run.returned] at hended
  obtain ⟨hover, left, taken, idle, hvisits, hanswers, hidle, -⟩ :=
    (hended.2 run.result rfl).resolve_right
      (by rw [run.completed]; exact fun heq => by cases heq)
  refine ⟨taken.map Prod.snd, left.map Prod.snd, idle, ?_, ?_, ?_, ?_⟩
  · rw [← List.map_append, ← hvisits]
    exact (hahead _ _).symm
  · intro hne
    rw [hidle hne]
    rfl
  · rw [← hanswers]
    rfl
  · rw [← hanswers]
    exact hover

/-- **What a step reads**: all items, exactly where no `null` that it does not pass over cuts them
short. -/
theorem items_eq_iff {source : JsonlSource α} {passesNull : Bool}
    (hahead : ∀ counts start, (I.visitsAt counts start).map Prod.snd =
      source.ahead passesNull start) (hsize : 0 < run.step.chunkSize) :
    run.items = (source.values run.start).filterMap id ↔ ¬ NullCuts run.step.chunkSize
      (JsonlSource.kept passesNull (source.values run.start)) := by
  obtain ⟨taken, left, idle, hsplit, hidle, hitems, hover⟩ := run.finished hahead
  have hiff := hover.items_eq_iff hidle fun _ => hsize
  rw [← hsplit, JsonlSource.items_ahead] at hiff
  rw [hitems, hiff]
  exact not_congr (cutShort_iff _ _ _)

/-- A step whose chunks have no room reads nothing. -/
theorem items_of_no_room {source : JsonlSource α} {passesNull : Bool}
    (hahead : ∀ counts start, (I.visitsAt counts start).map Prod.snd =
      source.ahead passesNull start) (hsize : run.step.chunkSize = 0) : run.items = [] := by
  obtain ⟨taken, left, idle, -, -, hitems, hover⟩ := run.finished hahead
  have hnone := hover.eq_nil fun _ (hroom : 0 < run.step.chunkSize) => by omega
  rw [hitems, hnone]
  rfl

end StepRun

/-- **When both readers give a step the same items**: from a common index on, exactly where no
`null` stands where a chunk begins and in front of another value. -/
theorem object_items_eq_iff (source : JsonlSource α) {target target' : Handle} {path : String}
    {location : S3ObjectLocation} {fileKey objectKey : Option String}
    (fileRun : StepRun (source.fileImport target path fileKey))
    (objectRun : StepRun (source.objectImport target' location objectKey))
    (hsize : objectRun.step.chunkSize = fileRun.step.chunkSize)
    (hstart : objectRun.start = fileRun.start) :
    objectRun.items = fileRun.items ↔
      (0 < fileRun.step.chunkSize →
        ¬ NullCuts fileRun.step.chunkSize (source.values fileRun.start)) := by
  rcases Nat.eq_zero_or_pos fileRun.step.chunkSize with hzero | hpos
  · rw [fileRun.items_of_no_room JsonlSource.map_visitsAt_file hzero,
      objectRun.items_of_no_room JsonlSource.map_visitsAt_object (hsize.trans hzero)]
    exact iff_of_true rfl fun hlt => absurd hzero hlt.ne'
  · have hfile := (fileRun.items_eq_iff JsonlSource.map_visitsAt_file hpos).mpr
      (JsonlSource.not_nullCuts_kept _ _)
    have hobject := objectRun.items_eq_iff JsonlSource.map_visitsAt_object (hsize.symm ▸ hpos)
    rw [hsize, hstart] at hobject
    rw [hfile]
    exact hobject.trans ⟨fun h _ => h, fun h => h hpos⟩

/-! ### Numbers in a file and in an object -/

/-- A run of a step that retries and skips nothing, from the first line on. -/
def numberRun (I : JsonlImport Nat Nat) (htarget : I.target = 0) {n c : Nat}
    (hresult : I.run.1 = .returned (importResult n c)) : StepRun I where
  User := Nat
  fetch pos := (.ok I.content, pos)
  others := importOthers
  fuel := 8
  step := importStep
  context := ChunkStepExecutor.plainContext
  world := JsonlImport.start
  result := importResult n c
  fits := import_fits I htarget
  whole := rfl
  unskipped := Or.inl rfl
  returned := hresult
  completed := rfl

section NumberRun

variable {I : JsonlImport Nat Nat} {htarget : I.target = 0} {n c : Nat}
  {hresult : I.run.1 = .returned (importResult n c)}

theorem start_numberRun : (numberRun I htarget hresult).start = 0 := rfl

theorem items_numberRun : (numberRun I htarget hresult).items = itemsOf I.target I.run.2.2 := rfl

end NumberRun

/-- A `null` in the middle of a chunk. -/
def nullBetween : JsonlSource Nat where
  content := "1\nnull\n2"
  parse := parseNumber
  valid := by
    have hlines : splitLines "1\nnull\n2" = ["1", "null", "2"] := by decide +kernel
    rw [hlines]
    simp [parseNumber]

/-- One in front. -/
def nullFirst : JsonlSource Nat where
  content := "null\n1"
  parse := parseNumber
  valid := by
    have hlines : splitLines "null\n1" = ["null", "1"] := by decide +kernel
    rw [hlines]
    simp [parseNumber]

/-- Numbers in a file. -/
abbrev JsonlSource.numbersFile (source : JsonlSource Nat) : JsonlImport Nat Nat :=
  source.fileImport 0 "numbers.jsonl" none

abbrev JsonlSource.numbersObject (source : JsonlSource Nat) : JsonlImport Nat Nat :=
  source.objectImport 0 { bucket := "data", key := "numbers.jsonl" } none

theorem target_numbersFile (source : JsonlSource Nat) : source.numbersFile.target = 0 := rfl

theorem target_numbersObject (source : JsonlSource Nat) : source.numbersObject.target = 0 := rfl

/-- With a null between its items the source is read alike from the file and from the object. -/
theorem object_items_eq_iff_between :
    ∃ fileRun : StepRun nullBetween.numbersFile, ∃ objectRun : StepRun nullBetween.numbersObject,
      fileRun.items = [1, 2] ∧ objectRun.items = fileRun.items := by
  have hfile : nullBetween.numbersFile.run.1 = .returned (importResult 2 1) := by decide +kernel
  have hobject : nullBetween.numbersObject.run.1 = .returned (importResult 2 2) := by
    decide +kernel
  have hitems : itemsOf 0 nullBetween.numbersFile.run.2.2 = [1, 2] := by decide +kernel
  have hvalues : nullBetween.values 0 = [some 1, none, some 2] := by decide +kernel
  have hcuts : ¬ NullCuts 2 [some 1, none, some 2] := by
    intro h
    obtain ⟨before, after, item, heq, hstride, -⟩ := h
    have hlength := congrArg List.length heq
    rw [List.length_append, List.length_cons] at hlength
    rcases before with _ | ⟨first, _ | ⟨second, _ | ⟨third, rest⟩⟩⟩
    · cases heq
    · cases heq
      exact absurd hstride (by decide)
    · cases heq
    · simp at hlength
      omega
  refine ⟨numberRun _ (target_numbersFile _) hfile, numberRun _ (target_numbersObject _) hobject,
    items_numberRun.trans hitems, ?_⟩
  refine (object_items_eq_iff nullBetween (numberRun _ (target_numbersFile _) hfile)
    (numberRun _ (target_numbersObject _) hobject) rfl
    (start_numberRun.trans start_numberRun.symm)).mpr fun _ => ?_
  rw [start_numberRun, hvalues]
  exact hcuts

/-- **A `null` in front ends a step** that reads an object: it is COMPLETED and has read nothing. -/
theorem null_ends_object :
    ∃ fileRun : StepRun nullFirst.numbersFile, ∃ objectRun : StepRun nullFirst.numbersObject,
      objectRun.step.chunkSize = fileRun.step.chunkSize ∧ objectRun.start = fileRun.start ∧
      fileRun.items = [1] ∧ objectRun.items = [] := by
  have hfile : nullFirst.numbersFile.run.1 = .returned (importResult 1 1) := by decide +kernel
  have hobject : nullFirst.numbersObject.run.1 = .returned (importResult 0 0) := by
    decide +kernel
  have hread : itemsOf 0 nullFirst.numbersFile.run.2.2 = [1] := by decide +kernel
  have hnothing : itemsOf 0 nullFirst.numbersObject.run.2.2 = [] := by decide +kernel
  exact ⟨numberRun _ (target_numbersFile _) hfile, numberRun _ (target_numbersObject _) hobject,
    rfl, start_numberRun.trans start_numberRun.symm,
    items_numberRun.trans hread, items_numberRun.trans hnothing⟩

end NestBatch
