import Mathlib.Data.List.Perm.Subperm
import Mathlib.Data.List.Flatten
import NestBatch.Io.CsvLines

/-!
# The round trip of a CSV file

Whether a reader gives the rows that a writer was given is decided by the lines that
were written: they must come back from the file as they were, and each must make a row.
Lines that come back make the rows they were made from; one that does not come back
holds some unit less often than the line written, and then so does its row.
-/

namespace NestBatch

open JsString
/-! ### Rows -/

/-- A row with an own string under every header, and no other property. -/
structure RowOf (headers : List JsString) where
  row : CsvRow
  keys : ∀ key, (row.get? key).isSome ↔ key ∈ headers

/-- The values of a row, in the order of the headers. -/
def RowOf.values {headers : List JsString} (r : RowOf headers) : List JsString :=
  headers.map fun h => (r.row.get? h).getD []

/-- The same entries, in whatever order. -/
def SameEntries (row row' : CsvRow) : Prop := ∀ key, row.get? key = row'.get? key

section Rows

variable {headers : List JsString}

/-- The values of a row are found under its headers. -/
theorem RowOf.map_get? (r : RowOf headers) : headers.map r.row.get? = r.values.map some := by
  unfold values
  rw [List.map_map]
  refine List.map_congr_left fun h hh => ?_
  obtain ⟨value, hvalue⟩ := Option.isSome_iff_exists.mp ((r.keys h).mpr hh)
  rw [Function.comp_apply, hvalue]
  rfl

open CsvFileItemReader

/-- The first fields, and empty ones where there are not enough. -/
def padTo : Nat → List JsString → List JsString
  | 0, _ => []
  | n + 1, fields => fields.head?.getD [] :: padTo n fields.tail

/-- Longer fields are cut to the headers. -/
theorem padTo_of_length_le {n : Nat} {fields : List JsString} (h : n ≤ fields.length) :
    padTo n fields = fields.take n := by
  induction n generalizing fields with
  | zero => rfl
  | succ n ih =>
      cases fields with
      | nil => cases h
      | cons field fields =>
          exact congrArg (field :: ·) (ih (Nat.le_of_succ_le_succ h))

/-- Empty fields add nothing. -/
theorem flatten_padTo_of_length_le {n : Nat} {fields : List JsString} (h : fields.length ≤ n) :
    (padTo n fields).flatten = fields.flatten := by
  induction n generalizing fields with
  | zero => rw [List.length_eq_zero_iff.mp (Nat.le_zero.mp h)]; rfl
  | succ n ih =>
      cases fields with
      | nil =>
          have hnil : ([] : List JsString).length ≤ n := Nat.zero_le n
          exact ih hnil
      | cons field fields =>
          change (field :: padTo n fields).flatten = _
          rw [List.flatten_cons, List.flatten_cons, ih (Nat.le_of_succ_le_succ h)]

/-- Assigning a key keeps the others. -/
theorem get?_assign_of_ne (row : CsvRow) {key key' : JsString} (value : JsString) (h : key' ≠ key) :
    (assign row key value).get? key' = row.get? key' := by
  unfold assign
  split
  · rfl
  · exact JsMap.get?_set_of_ne _ _ h

/-- Filling a row keeps what is under no header. -/
theorem get?_fillRow_of_not_mem {key : JsString} (h : key ∉ headers) (row : CsvRow)
    (fields : List JsString) : (fillRow row headers fields).get? key = row.get? key := by
  induction headers generalizing row fields with
  | nil => rfl
  | cons header rest ih =>
      have hne : key ≠ header := fun heq => h (heq ▸ List.mem_cons_self)
      rw [fillRow, ih fun hmem => h (List.mem_cons_of_mem _ hmem)]
      exact get?_assign_of_ne row _ hne

/-- A row has an entry for each header, `__proto__` apart. -/
theorem isSome_get?_fillRow (key : JsString) (row : CsvRow) (fields : List JsString) :
    ((fillRow row headers fields).get? key).isSome ↔
      (key ∈ headers ∧ key ≠ units "__proto__") ∨ (row.get? key).isSome := by
  induction headers generalizing row fields with
  | nil => simp [fillRow]
  | cons header rest ih =>
      rw [fillRow, ih, List.mem_cons, assign]
      by_cases hproto : header = units "__proto__"
      · rw [if_pos hproto]
        constructor
        · intro h
          rcases h with ⟨hmem, hne⟩ | hrow
          · exact Or.inl ⟨Or.inr hmem, hne⟩
          · exact Or.inr hrow
        · intro hcase
          rcases hcase with ⟨rfl | hmem, hne⟩ | hrow
          · exact absurd hproto hne
          · exact Or.inl ⟨hmem, hne⟩
          · exact Or.inr hrow
      · rw [if_neg hproto, JsMap.get?_set]
        by_cases hkey : key = header
        · rw [if_pos hkey]
          exact iff_of_true (Or.inr rfl) (Or.inl ⟨Or.inl hkey, hkey ▸ hproto⟩)
        · rw [if_neg hkey]
          simp only [hkey, false_or]

/-- What stands in a row was there, or is a field, or is empty. -/
theorem mem_of_get?_fillRow {key value : JsString} (row : CsvRow) (fields : List JsString)
    (h : (fillRow row headers fields).get? key = some value) :
    row.get? key = some value ∨ value ∈ fields ∨ value = [] := by
  induction headers generalizing row fields with
  | nil => exact Or.inl h
  | cons header rest ih =>
      rw [fillRow] at h
      rcases ih _ _ h with hrow | hmem | hempty
      · by_cases hkey : key = header
        · unfold assign at hrow
          split at hrow
          · exact Or.inl hrow
          · rw [hkey, JsMap.get?_set_self] at hrow
            cases fields with
            | nil => exact Or.inr (Or.inr (Option.some.inj hrow).symm)
            | cons field fields =>
                exact Or.inr (Or.inl ((Option.some.inj hrow) ▸ List.mem_cons_self))
        · exact Or.inl ((get?_assign_of_ne row _ hkey).symm.trans hrow)
      · exact Or.inr (Or.inl (List.mem_of_mem_tail hmem))
      · exact Or.inr (Or.inr hempty)

/-- With distinct headers a row has the fields, in order. -/
theorem map_get?_fillRow (hnodup : headers.Nodup) (hproto : units "__proto__" ∉ headers)
    (row : CsvRow) (fields : List JsString) :
    headers.map (fillRow row headers fields).get? = (padTo headers.length fields).map some := by
  induction headers generalizing row fields with
  | nil => rfl
  | cons header rest ih =>
      obtain ⟨hfirst, hrest⟩ := List.nodup_cons.mp hnodup
      have hne : header ≠ units "__proto__" := fun heq => hproto (heq ▸ List.mem_cons_self)
      have hget : (fillRow row (header :: rest) fields).get? header =
          some (fields.head?.getD []) := by
        rw [fillRow, get?_fillRow_of_not_mem hfirst, assign, if_neg hne, JsMap.get?_set_self]
      rw [List.map_cons, hget]
      exact congrArg (_ :: ·) (ih hrest (fun hmem => hproto (List.mem_cons_of_mem _ hmem)) _ _)

/-- **A row is the one written** exactly where its fields are. -/
theorem sameEntries_fillRow_iff (hnodup : headers.Nodup) (hproto : units "__proto__" ∉ headers)
    (r : RowOf headers) (fields : List JsString) :
    SameEntries (fillRow .empty headers fields) r.row ↔ padTo headers.length fields = r.values := by
  have hfields := map_get?_fillRow hnodup hproto .empty fields
  constructor
  · intro hsame
    have hmap : headers.map (fillRow .empty headers fields).get? = headers.map r.row.get? :=
      List.map_congr_left fun key _ => hsame key
    rw [hfields, r.map_get?] at hmap
    exact List.map_injective_iff.mpr (fun _ _ => Option.some.inj) hmap
  · intro hvalues key
    by_cases hkey : key ∈ headers
    · rw [hvalues, ← r.map_get?] at hfields
      exact List.map_eq_map_iff.mp hfields key hkey
    · rw [get?_fillRow_of_not_mem hkey]
      have hnone : ¬ (r.row.get? key).isSome := fun hsome => hkey ((r.keys key).mp hsome)
      exact (Option.not_isSome_iff_eq_none.mp hnone).symm

end Rows

/-! ### Reading to the end -/

/-- What as many reads answer that take one thing after another. -/
def answersOf {β : Type} : Nat → List β → List (Option β)
  | 0, _ => []
  | n + 1, [] => none :: answersOf n []
  | n + 1, b :: rest => some b :: answersOf n rest

/-- Just these things are taken, and then the end is reached. -/
theorem answersOf_eq_iff {β : Type} {items taken : List β} :
    answersOf (taken.length + 1) items = taken.map some ++ [none] ↔ items = taken := by
  induction taken generalizing items with
  | nil =>
      cases items with
      | nil => exact iff_of_true rfl rfl
      | cons b rest => exact iff_of_false nofun nofun
  | cons t taken ih =>
      cases items with
      | nil => exact iff_of_false nofun nofun
      | cons b rest =>
          change some b :: answersOf (taken.length + 1) rest = some t :: (taken.map some ++ [none])
            ↔ _
          rw [List.cons.injEq, List.cons.injEq, ih, Option.some.injEq]

/-- The default options of a reader, with a delimiter. -/
def csvReader (path : String) (delimiter : Option JsString) : CsvFileItemReaderOptions CsvRow :=
  { path, delimiter, asItem := id }

/-- A line that is not passed over. -/
def notBlank (line : JsString) : Bool := (trim line).length ≠ 0

/-- The row that is made of a line. -/
def rowOfLine (delimiter : Option JsString) (headers : List JsString) (line : JsString) : CsvRow :=
  CsvFileItemReader.fillRow .empty headers
    (parseDelimitedLine line (delimiter.getD (units ",")))

section Reads

open CsvFileItemReader

variable (path : String) (delimiter : Option JsString)

/-- The reader stands before the next line that is not blank, or at the end. -/
theorem readFrom_cases (headers lines : List JsString) (index : Int) :
    (lines.filter notBlank = [] ∧
      readFrom (csvReader path delimiter) headers lines index =
        (.ok none, index + lines.length)) ∨
    ∃ line k, lines.filter notBlank = line :: (lines.drop k).filter notBlank ∧
      readFrom (csvReader path delimiter) headers lines index =
        (.ok (some (rowOfLine delimiter headers line)), index + (k : Nat)) := by
  induction lines generalizing index with
  | nil => exact Or.inl ⟨rfl, by rw [readFrom]; simp⟩
  | cons line rest ih =>
      unfold readFrom
      by_cases hblank : (trim line).length = 0
      · have hskip : (csvReader path delimiter).skipBlankLines.getD true = true ∧
            (trim line).length = 0 := ⟨rfl, hblank⟩
        have hfilter : (line :: rest).filter notBlank = rest.filter notBlank := by
          refine List.filter_cons_of_neg ?_
          unfold notBlank
          simp [hblank]
        rw [if_pos hskip, hfilter]
        rcases ih (index + 1) with ⟨hnil, hread⟩ | ⟨found, k, hfound, hread⟩
        · have hindex :
              index + 1 + (rest.length : Int) = index + ((line :: rest).length : Nat) := by
            rw [List.length_cons]
            omega
          exact Or.inl ⟨hnil, hread.trans (congrArg _ hindex)⟩
        · have hindex : index + 1 + (k : Int) = index + ((k + 1 : Nat) : Int) := by omega
          exact Or.inr ⟨found, k + 1, hfound, hread.trans (congrArg _ hindex)⟩
      · have hkeep : ¬ ((csvReader path delimiter).skipBlankLines.getD true = true ∧
            (trim line).length = 0) := fun h => hblank h.2
        have hfilter : (line :: rest).filter notBlank = line :: rest.filter notBlank := by
          refine List.filter_cons_of_pos ?_
          unfold notBlank
          simp [hblank]
        rw [if_neg hkeep, hfilter]
        exact Or.inr ⟨line, 1, rfl, rfl⟩

/-- **Reads take the lines that are not blank**, one after another. -/
theorem reads_eq (n : Nat) (reader : CsvFileItemReader) (hindex : 0 ≤ reader.index) :
    reads (csvReader path delimiter) n reader =
      (answersOf n (((reader.lines.drop reader.index.toNat).filter notBlank).map
        (rowOfLine delimiter reader.headers))).map .ok := by
  induction n generalizing reader with
  | zero => rfl
  | succ n ih =>
      have hnot : ¬ reader.index < 0 := Int.not_lt.mpr hindex
      have hdrop (k : Nat) : reader.lines.drop (reader.index + k).toNat =
          (reader.lines.drop reader.index.toNat).drop k := by
        rw [List.drop_drop, Int.toNat_add hindex (Int.natCast_nonneg k), Int.toNat_natCast]
      have hnext (k : Nat) : 0 ≤ reader.index + k :=
        Int.add_nonneg hindex (Int.natCast_nonneg k)
      rw [reads, CsvFileItemReader.read, if_neg hnot]
      rcases readFrom_cases path delimiter reader.headers (reader.lines.drop reader.index.toNat)
        reader.index with ⟨hnil, hread⟩ | ⟨line, k, hfound, hread⟩
      · have hrest := ih { reader with index := reader.index +
          ((reader.lines.drop reader.index.toNat).length : Nat) } (hnext _)
        rw [hread, hnil]
        rw [hdrop, List.drop_length] at hrest
        exact congrArg (Except.ok none :: ·) hrest
      · have hrest := ih { reader with index := reader.index + (k : Nat) } (hnext _)
        rw [hread, hfound]
        rw [hdrop] at hrest
        exact congrArg (Except.ok (some (rowOfLine delimiter reader.headers line)) :: ·) hrest

end Reads
/-! ### The round trip -/

section RoundTrip

variable (path : String) {headers : List JsString} (delimiter : Option JsString)
  (batches : List (List (RowOf headers)))

/-- The file that batches leave where there was none. -/
def csvFile : TextFile :=
  CsvFileItemWriter.writeAll { path, headers, delimiter } {} none (batches.map (·.map RowOf.row))

/-- **The rows come back**: a reader with the same delimiter gives them in order, and then
`null`. -/
def ComesBack : Prop :=
  ∃ reader read,
    CsvFileItemReader.open_ (csvReader path delimiter) { data := .null, version := 0 }
      (csvFile path delimiter batches) = .ok reader ∧
    CsvFileItemReader.reads (csvReader path delimiter) (read.length + 1) reader =
      read.map (fun row => .ok (some row)) ++ [.ok none] ∧
    List.Forall₂ SameEntries read (batches.flatten.map RowOf.row)

/-- The values of rows as a line. -/
def writtenLine (values : List JsString) : JsString := lineOf (delimiter.getD (units ",")) values

/-- When rows come back. -/
structure CanComeBack : Prop where
  written : batches.flatten ≠ []
  unbrokenHeaders : ∀ header ∈ headers, Unbroken header
  unbrokenValues : ∀ r ∈ batches.flatten, ∀ value ∈ r.values, Unbroken value
  separated : headers.length = 1 ∨ (delimiter.getD (units ",")).length = 1
  noProto : units "__proto__" ∉ headers
  unmarked : ¬ MarkedValues (delimiter.getD (units ",")) headers
  wellFormedHeaders : WellFormedValues (delimiter.getD (units ",")) headers
  notBlank : ∀ r ∈ batches.flatten, ¬ BlankValues (delimiter.getD (units ",")) r.values
  wellFormedRows : ∀ r ∈ batches.flatten,
    WellFormedValues (delimiter.getD (units ",")) r.values

/-- The lines of the file as a reader has them. -/
def fileLines (rows : List (RowOf headers)) : List JsString :=
  CodeUnits.splitLines (CsvFileItemWriter.terminated
    ((writtenLine delimiter headers :: rows.map fun r => writtenLine delimiter r.values).map
      toWellFormed))

/-- The headers as a reader has them. -/
def fileHeaders (rows : List (RowOf headers)) : List JsString :=
  (fileLines delimiter rows).head?.elim [] fun line =>
    parseDelimitedLine line (delimiter.getD (units ","))

/-- The rows as a reader gives them. -/
def fileRows (rows : List (RowOf headers)) : List CsvRow :=
  (((fileLines delimiter rows).drop 1).filter notBlank).map
    (rowOfLine delimiter (fileHeaders delimiter rows))

/-- The file holds the header line and one line a row, when there is a row. -/
theorem csvFile_eq :
    csvFile path delimiter batches =
      if batches.flatten = [] then none
      else some (CsvFileItemWriter.terminated
        ((writtenLine delimiter headers ::
          batches.flatten.map fun r => writtenLine delimiter r.values).map toWellFormed)) := by
  have hflatten : (batches.map (·.map RowOf.row)).flatten = batches.flatten.map RowOf.row :=
    List.map_flatten.symm
  have hline (values : List JsString) :
      CsvFileItemWriter.line { path, headers, delimiter } (values.map some) =
        writtenLine delimiter values := by
    rw [CsvFileItemWriter.line, List.map_map]
    rfl
  have hrows : (batches.flatten.map RowOf.row).map
      (CsvFileItemWriter.rowLine { path, headers, delimiter }) =
      batches.flatten.map fun r => writtenLine delimiter r.values := by
    rw [List.map_map]
    refine List.map_congr_left fun r _ => ?_
    change CsvFileItemWriter.line _ (headers.map r.row.get?) = _
    rw [r.map_get?, hline]
  unfold csvFile
  rw [writeAll_eq rfl, hflatten, hrows, CsvFileItemWriter.headerLine, hline]
  simp only [List.map_eq_nil_iff]

/-- Rows come back where those that are read off the lines of the file are the ones written. -/
theorem comesBack_iff_fileRows :
    ComesBack path delimiter batches ↔
      batches.flatten ≠ [] ∧
        List.Forall₂ SameEntries (fileRows delimiter batches.flatten)
          (batches.flatten.map RowOf.row) := by
  by_cases hnone : batches.flatten = []
  · refine iff_of_false ?_ fun h => h.1 hnone
    intro hcase
    obtain ⟨reader, read, hopen, -⟩ := hcase
    rw [csvFile_eq, if_pos hnone] at hopen
    cases hopen
  · let reader : CsvFileItemReader :=
      { lines := fileLines delimiter batches.flatten
        headers := fileHeaders delimiter batches.flatten
        index := 1 }
    have hopen : CsvFileItemReader.open_ (csvReader path delimiter) { data := .null, version := 0 }
        (csvFile path delimiter batches) = .ok reader := by
      rw [csvFile_eq, if_neg hnone]
      rfl
    have hreads (n : Nat) : CsvFileItemReader.reads (csvReader path delimiter) n reader =
        (answersOf n (fileRows delimiter batches.flatten)).map .ok :=
      reads_eq path delimiter n reader Int.one_nonneg
    have hanswers (read : List CsvRow) :
        (read.map (fun row => .ok (some row)) ++ [.ok none] : List (Except Thrown (Option CsvRow)))
          = (read.map some ++ [none]).map .ok := by
      rw [List.map_append, List.map_map]
      rfl
    constructor
    · intro hcase
      obtain ⟨reader', read, hopen', hread, hsame⟩ := hcase
      cases hopen.symm.trans hopen'
      rw [hreads, hanswers] at hread
      have heq := answersOf_eq_iff.mp
        (List.map_injective_iff.mpr (fun _ _ => Except.ok.inj) hread)
      rw [heq]
      exact ⟨hnone, hsame⟩
    · intro hcase
      obtain ⟨-, hsame⟩ := hcase
      refine ⟨reader, _, hopen, ?_, hsame⟩
      rw [hreads, hanswers, answersOf_eq_iff.mpr rfl]

variable {delimiter} {rows : List (RowOf headers)}

/-- Every row has its values, one for each header. -/
theorem RowOf.length_values (r : RowOf headers) : r.values.length = headers.length :=
  List.length_map _

theorem RowOf.values_ne_nil (r : RowOf headers) (hne : headers ≠ []) : r.values ≠ [] :=
  List.map_eq_nil_iff.not.mpr hne

/-- Without line breaks in it the text that was written falls into the lines that were written. -/
theorem fileLines_eq (hheaders : ∀ header ∈ headers, Unbroken header)
    (hvalues : ∀ r ∈ rows, ∀ value ∈ r.values, Unbroken value)
    (hseparated : headers.length = 1 ∨ (delimiter.getD (units ",")).length = 1)
    (hfeed : delimiter.getD (units ",") ≠ [lineFeed])
    (hreturn : delimiter.getD (units ",") ≠ [carriageReturn]) :
    fileLines delimiter rows = withoutMark (toWellFormed (writtenLine delimiter headers)) ::
      (rows.map (fun r => toWellFormed (writtenLine delimiter r.values)) ++ [[]]) := by
  have hlines : ∀ line ∈ (writtenLine delimiter headers ::
      rows.map fun r => writtenLine delimiter r.values).map toWellFormed, Unbroken line := by
    intro line hline
    obtain ⟨line, hmem, rfl⟩ := List.mem_map.mp hline
    refine unbroken_toWellFormed ?_
    rcases List.mem_cons.mp hmem with rfl | hmem
    · exact unbroken_lineOf hheaders hseparated hfeed hreturn
    · obtain ⟨r, hr, rfl⟩ := List.mem_map.mp hmem
      refine unbroken_lineOf (hvalues r hr) ?_ hfeed hreturn
      rw [r.length_values]
      exact hseparated
  unfold fileLines
  rw [List.map_cons] at hlines ⊢
  rw [splitLines_terminated hlines, List.map_map]
  rfl

/-- A row is read under the headers that were read. -/
theorem mem_headers_iff_of_forall₂ (hne : rows ≠ [])
    (hsame : List.Forall₂ SameEntries (fileRows delimiter rows) (rows.map RowOf.row))
    (key : JsString) :
    key ∈ headers ↔ key ∈ fileHeaders delimiter rows ∧ key ≠ units "__proto__" := by
  unfold fileRows at hsame
  generalize ((fileLines delimiter rows).drop 1).filter notBlank = lines at hsame
  cases rows with
  | nil => exact absurd rfl hne
  | cons r rest =>
      cases lines with
      | nil => cases hsame
      | cons line lines =>
          cases hsame with
          | cons hfirst _ =>
              rw [← r.keys key, ← hfirst key, rowOfLine, isSome_get?_fillRow, JsMap.get?_empty]
              exact or_iff_left nofun

/-- A header that the file is read with is unbroken. -/
theorem unbroken_of_mem_fileHeaders {header : JsString} (h : header ∈ fileHeaders delimiter rows) :
    Unbroken header := by
  unfold fileHeaders at h
  cases hlines : (fileLines delimiter rows).head? with
  | none =>
      rw [hlines] at h
      cases h
  | some line =>
      rw [hlines] at h
      have hline : line ∈ fileLines delimiter rows := List.mem_of_head? hlines
      exact Unbroken.field (not_mem_of_mem_splitLines hline) h

/-- No value that is read has a line break in it. -/
theorem unbroken_of_forall₂
    (hsame : List.Forall₂ SameEntries (fileRows delimiter rows) (rows.map RowOf.row)) :
    ∀ r ∈ rows, ∀ value ∈ r.values, Unbroken value := by
  intro r hr value hvalue
  obtain ⟨row, hrow, heq⟩ : ∃ row ∈ fileRows delimiter rows, SameEntries row r.row := by
    obtain ⟨i, hi, hget⟩ := List.getElem_of_mem (List.mem_map_of_mem (f := RowOf.row) hr)
    have hread : i < (fileRows delimiter rows).length := hsame.length_eq.symm ▸ hi
    refine ⟨(fileRows delimiter rows).get ⟨i, hread⟩, List.get_mem _ _, ?_⟩
    rw [← hget]
    exact hsame.get hread hi
  obtain ⟨line, hline, rfl⟩ := List.mem_map.mp hrow
  obtain ⟨key, hkey, rfl⟩ := List.mem_map.mp hvalue
  obtain ⟨value, hget⟩ := Option.isSome_iff_exists.mp ((r.keys key).mpr hkey)
  rw [hget, Option.getD_some]
  have hunbroken : Unbroken line :=
    not_mem_of_mem_splitLines (List.mem_of_mem_drop (List.mem_filter.mp hline).1)
  rcases mem_of_get?_fillRow _ _ ((heq key).trans hget) with hnone | hfield | hempty
  · cases hnone
  · exact hunbroken.field hfield
  · rw [hempty]
    exact ⟨nofun, nofun⟩

/-- **The headers are read**: each is one of those that the file gives. -/
theorem headers_subset (hne : rows ≠ [])
    (hsame : List.Forall₂ SameEntries (fileRows delimiter rows) (rows.map RowOf.row)) :
    headers ⊆ fileHeaders delimiter rows := fun key hkey =>
  ((mem_headers_iff_of_forall₂ hne hsame key).mp hkey).1

/-- More headers than one are told apart by a delimiter of one unit. -/
theorem separated_of_subset (hne : headers ≠ []) (hnodup : headers.Nodup)
    (hsubset : headers ⊆ fileHeaders delimiter rows) :
    headers.length = 1 ∨ (delimiter.getD (units ",")).length = 1 := by
  by_cases hunit : (delimiter.getD (units ",")).length = 1
  · exact Or.inr hunit
  · have hends (u : UInt16) : endsField (delimiter.getD (units ",")) u = false := by
      refine decide_eq_false fun heq => hunit ?_
      rw [← heq]
      rfl
    have hone : (fileHeaders delimiter rows).length ≤ 1 := by
      unfold fileHeaders
      cases (fileLines delimiter rows).head? with
      | none => exact Nat.zero_le 1
      | some line => exact (Delimited.length_parseFrom_of_none hends false [] line).le
    have hle := (hnodup.subperm hsubset).length_le
    have hpos := List.length_pos_iff.mpr hne
    exact Or.inl (by omega)

/-- What is among some fields is no more than they are. -/
theorem count_flatten_le_of_subperm {fields fields' : List JsString} (h : fields.Subperm fields')
    (s : UInt16) : fields.flatten.count s ≤ fields'.flatten.count s := by
  obtain ⟨between, hperm, hsublist⟩ := h
  rw [← hperm.flatten.count_eq s]
  exact hsublist.flatten.count_le s

/-- Taking the mark makes no unit more frequent. -/
theorem count_withoutMark_le (line : JsString) (s : UInt16) :
    (withoutMark line).count s ≤ line.count s := by
  unfold withoutMark
  split
  · exact (List.tail_sublist line).count_le s
  · exact Nat.le_refl _

/-- **The line of the headers comes back**, and no mark is taken off it. -/
theorem headerLine_back {d line : JsString} (hnodup : headers.Nodup)
    (hparse : parseDelimitedLine line d = headers)
    (hsubset : headers ⊆ parseDelimitedLine (withoutMark (toWellFormed line)) d) :
    toWellFormed line = line ∧ line.head? ≠ some byteOrderMark := by
  have hsubperm := hnodup.subperm hsubset
  rw [← hparse] at hsubperm
  have heq : toWellFormed line = line :=
    toWellFormed_eq_of_fields (fun s _ => count_withoutMark_le _ s) hsubperm.length_le
      (count_flatten_le_of_subperm hsubperm)
  refine ⟨heq, fun hmark => ?_⟩
  rw [heq] at hsubperm
  have hkept := count_le_of_fields (s := byteOrderMark) (by decide) hsubperm.length_le
    (count_flatten_le_of_subperm hsubperm _)
  rw [withoutMark, if_pos hmark] at hkept
  obtain ⟨rest, rfl⟩ := List.head?_eq_some_iff.mp hmark
  rw [List.tail_cons, List.count_cons_self] at hkept
  omega

/-- **The line of a row comes back** if its values do: it cannot have had more of them. -/
theorem rowLine_back {d line : JsString} {values : List JsString}
    (hparse : parseDelimitedLine line d = values)
    (hback : padTo values.length (parseDelimitedLine (toWellFormed line) d) = values) :
    toWellFormed line = line := by
  rcases Nat.le_total values.length (parseDelimitedLine (toWellFormed line) d).length with
    hle | hle
  · rw [padTo_of_length_le hle] at hback
    refine @toWellFormed_eq_of_fields d line (toWellFormed line) (fun s _ => Nat.le_refl _)
      (hparse.symm ▸ hle) fun s => ?_
    rw [hparse]
    conv_lhs => rw [← hback]
    exact (List.take_sublist _ _).flatten.count_le s
  · have hflatten := flatten_padTo_of_length_le hle
    rw [hback, ← hparse] at hflatten
    rcases toWellFormed_cases line with heq | ⟨-, hmore⟩
    · exact heq
    · have hkept := count_le_of_fields (s := replacementCharacter) (by decide) (hparse.symm ▸ hle)
        (le_of_eq (congrArg (List.count _) hflatten.symm))
      omega

/-- A line that is made well formed is blank exactly when it trims to nothing. -/
theorem notBlank_toWellFormed (line : JsString) :
    notBlank (toWellFormed line) = true ↔ trim line ≠ [] := by
  rw [notBlank, decide_eq_true_iff, Ne, List.length_eq_zero_iff, trim_eq_nil_iff,
    all_isTrimmable_toWellFormed, ← trim_eq_nil_iff]

/-- Rows are read off the lines of rows; the text behind the last line feed is blank. -/
theorem fileRows_eq {line : JsString}
    (hlines : fileLines delimiter rows =
      line :: (rows.map (fun r => toWellFormed (writtenLine delimiter r.values)) ++ [[]])) :
    fileRows delimiter rows =
      ((rows.map fun r => toWellFormed (writtenLine delimiter r.values)).filter notBlank).map
        (rowOfLine delimiter (parseDelimitedLine line (delimiter.getD (units ",")))) := by
  have hblank : [([] : JsString)].filter notBlank = [] := rfl
  unfold fileRows fileHeaders
  rw [hlines, List.drop_succ_cons, List.drop_zero, List.filter_append, hblank, List.append_nil]
  rfl

/-- As many rows are read as were written only if none was blank. -/
theorem filter_notBlank_eq_self {lines : List JsString} {headers' : List JsString}
    (hsame : List.Forall₂ SameEntries
      ((lines.filter notBlank).map (rowOfLine delimiter headers')) (rows.map RowOf.row))
    (hlength : lines.length = rows.length) : lines.filter notBlank = lines := by
  have heq := hsame.length_eq
  rw [List.length_map, List.length_map, ← hlength] at heq
  exact List.filter_sublist.eq_of_length heq

/-- Each row is the one that its line makes. -/
theorem sameEntries_iff_forall {line : RowOf headers → JsString} {headers' : List JsString} :
    List.Forall₂ SameEntries ((rows.map line).map (rowOfLine delimiter headers'))
        (rows.map RowOf.row) ↔
      ∀ r ∈ rows, SameEntries (rowOfLine delimiter headers' (line r)) r.row := by
  rw [List.map_map, List.forall₂_map_left_iff, List.forall₂_map_right_iff, List.forall₂_same]
  rfl

/-- A written line is parsed back into its values, made well formed. -/
theorem parse_writtenLine (hquote : delimiter.getD (units ",") ≠ [quoteUnit])
    {values : List JsString} (hne : values ≠ [])
    (hseparated : values.length = 1 ∨ (delimiter.getD (units ",")).length = 1) :
    parseDelimitedLine (writtenLine delimiter values) (delimiter.getD (units ",")) = values :=
  parse_lineOf hquote hne hseparated

/-- The written line of a row is parsed back into the row's values. -/
theorem RowOf.parse_writtenLine (hquote : delimiter.getD (units ",") ≠ [quoteUnit])
    (hne : headers ≠ [])
    (hseparated : headers.length = 1 ∨ (delimiter.getD (units ",")).length = 1)
    (r : RowOf headers) :
    parseDelimitedLine (writtenLine delimiter r.values) (delimiter.getD (units ",")) =
      r.values :=
  NestBatch.parse_writtenLine hquote (r.values_ne_nil hne) (r.length_values.symm ▸ hseparated)

/-- The row of a line that gives the values back. -/
theorem sameEntries_rowOfLine_iff (hnodup : headers.Nodup) (hproto : units "__proto__" ∉ headers)
    (r : RowOf headers) (line : JsString) :
    SameEntries (rowOfLine delimiter headers line) r.row ↔
      padTo r.values.length (parseDelimitedLine line (delimiter.getD (units ","))) =
        r.values := by
  rw [r.length_values]
  exact sameEntries_fillRow_iff hnodup hproto r _

/-- **Rows that come back can**: every line did, and made a row. -/
theorem canComeBack_of_forall₂ (hne : headers ≠ []) (hnodup : headers.Nodup)
    (hquote : delimiter.getD (units ",") ≠ [quoteUnit])
    (hfeed : delimiter.getD (units ",") ≠ [lineFeed])
    (hreturn : delimiter.getD (units ",") ≠ [carriageReturn])
    {batches : List (List (RowOf headers))} (hrows : batches.flatten ≠ [])
    (hsame : List.Forall₂ SameEntries (fileRows delimiter batches.flatten)
      (batches.flatten.map RowOf.row)) : CanComeBack delimiter batches := by
  have hsubset := headers_subset hrows hsame
  have hproto : units "__proto__" ∉ headers := fun hmem =>
    ((mem_headers_iff_of_forall₂ hrows hsame _).mp hmem).2 rfl
  have hheaders : ∀ header ∈ headers, Unbroken header := fun header hmem =>
    unbroken_of_mem_fileHeaders (hsubset hmem)
  have hvalues := unbroken_of_forall₂ hsame
  have hseparated := separated_of_subset hne hnodup hsubset
  have hlines := fileLines_eq hheaders hvalues hseparated hfeed hreturn
  have hparse := parse_writtenLine hquote hne hseparated
  have hheaderLine : toWellFormed (writtenLine delimiter headers) = writtenLine delimiter headers ∧
      (writtenLine delimiter headers).head? ≠ some byteOrderMark := by
    unfold fileHeaders at hsubset
    rw [hlines] at hsubset
    exact headerLine_back hnodup hparse hsubset
  obtain ⟨hheaderBack, hunmarked⟩ := hheaderLine
  rw [fileRows_eq hlines, hheaderBack, withoutMark, if_neg hunmarked, hparse] at hsame
  have hfilter := filter_notBlank_eq_self hsame (List.length_map _)
  rw [hfilter, sameEntries_iff_forall] at hsame
  constructor
  case written => exact hrows
  case unbrokenHeaders => exact hheaders
  case unbrokenValues => exact hvalues
  case separated => exact hseparated
  case noProto => exact hproto
  case unmarked => exact (head?_lineOf_eq_mark_iff hne hseparated).not.mp hunmarked
  case wellFormedHeaders => exact (isWellFormed_lineOf_iff hne hseparated).mp hheaderBack
  case notBlank =>
    intro r hr
    have hkept : NestBatch.notBlank (toWellFormed (writtenLine delimiter r.values)) = true :=
      List.filter_eq_self.mp hfilter _ (List.mem_map_of_mem hr)
    exact (trim_lineOf_eq_nil_iff (r.values_ne_nil hne)).not.mp ((notBlank_toWellFormed _).mp hkept)
  case wellFormedRows =>
    intro r hr
    have hback := rowLine_back (r.parse_writtenLine hquote hne hseparated)
      ((sameEntries_rowOfLine_iff hnodup hproto r _).mp (hsame r hr))
    exact (isWellFormed_lineOf_iff (r.values_ne_nil hne) (r.length_values.symm ▸ hseparated)).mp
      hback

/-- **Rows that can come back do.** -/
theorem CanComeBack.forall₂ {batches : List (List (RowOf headers))}
    (h : CanComeBack delimiter batches) (hne : headers ≠ []) (hnodup : headers.Nodup)
    (hquote : delimiter.getD (units ",") ≠ [quoteUnit])
    (hfeed : delimiter.getD (units ",") ≠ [lineFeed])
    (hreturn : delimiter.getD (units ",") ≠ [carriageReturn]) :
    List.Forall₂ SameEntries (fileRows delimiter batches.flatten)
      (batches.flatten.map RowOf.row) := by
  have hlines := fileLines_eq h.unbrokenHeaders h.unbrokenValues h.separated hfeed hreturn
  have hheaderLine : toWellFormed (writtenLine delimiter headers) =
      writtenLine delimiter headers :=
    (isWellFormed_lineOf_iff hne h.separated).mpr h.wellFormedHeaders
  have hunmarked : (writtenLine delimiter headers).head? ≠ some byteOrderMark :=
    (head?_lineOf_eq_mark_iff hne h.separated).not.mpr h.unmarked
  have hrowLine (r : RowOf headers) (hr : r ∈ batches.flatten) :
      toWellFormed (writtenLine delimiter r.values) = writtenLine delimiter r.values :=
    (isWellFormed_lineOf_iff (r.values_ne_nil hne) (r.length_values.symm ▸ h.separated)).mpr
      (h.wellFormedRows r hr)
  have hkept : (batches.flatten.map fun r => toWellFormed (writtenLine delimiter r.values)).filter
      NestBatch.notBlank =
      batches.flatten.map fun r => toWellFormed (writtenLine delimiter r.values) := by
    refine List.filter_eq_self.mpr fun line hline => ?_
    obtain ⟨r, hr, rfl⟩ := List.mem_map.mp hline
    exact (notBlank_toWellFormed _).mpr
      ((trim_lineOf_eq_nil_iff (r.values_ne_nil hne)).not.mpr (h.notBlank r hr))
  rw [fileRows_eq hlines, hkept, hheaderLine, withoutMark, if_neg hunmarked,
    parse_writtenLine hquote hne h.separated, sameEntries_iff_forall]
  intro r hr
  rw [sameEntries_rowOfLine_iff hnodup h.noProto, hrowLine r hr,
    r.parse_writtenLine hquote hne h.separated, padTo_of_length_le (Nat.le_refl _),
    List.take_length]

/-- **Rows come back from the file** exactly where one was written; no header and no value has a
line break; only one of a single unit separates headers; no header is `__proto__`; the file does
not begin with a mark; no row's line is blank; and every line is well-formed. -/
theorem csv_rows_come_back_iff (path : String) (headers : List JsString) (hne : headers ≠ [])
    (hnodup : headers.Nodup) (delimiter : Option JsString)
    (hquote : delimiter.getD (units ",") ≠ [quoteUnit])
    (hfeed : delimiter.getD (units ",") ≠ [lineFeed])
    (hreturn : delimiter.getD (units ",") ≠ [carriageReturn])
    (batches : List (List (RowOf headers))) :
    ComesBack path delimiter batches ↔ CanComeBack delimiter batches := by
  rw [comesBack_iff_fileRows]
  constructor
  · intro h
    exact canComeBack_of_forall₂ hne hnodup hquote hfeed hreturn h.1 h.2
  · intro h
    exact ⟨h.written, h.forall₂ hne hnodup hquote hfeed hreturn⟩

/-- A row with some fields under its headers. -/
def rowWith (headers : List JsString) (hproto : units "__proto__" ∉ headers)
    (fields : List JsString) : RowOf headers where
  row := CsvFileItemReader.fillRow .empty headers fields
  keys key := by
    rw [isSome_get?_fillRow, JsMap.get?_empty]
    constructor
    · intro h
      rcases h with ⟨hmem, -⟩ | hnone
      · exact hmem
      · cases hnone
    · exact fun hmem => Or.inl ⟨hmem, fun heq => hproto (heq ▸ hmem)⟩

/-- Two rows under two headers, with quotes, a delimiter and an empty field in them. -/
theorem csv_rows_come_back_quoted :
    ComesBack "people.csv" (some (units ";"))
      [[rowWith [units "id", units "note"] (by decide) [units "1", units "a;\"b\""]], [],
        [rowWith [units "id", units "note"] (by decide) [units "", units " "]]] := by
  refine (csv_rows_come_back_iff "people.csv" [units "id", units "note"] (by decide) (by decide)
    (some (units ";")) (by decide) (by decide) (by decide) _).mpr ?_
  constructor
  case written => exact List.cons_ne_nil _ _
  case unbrokenHeaders => decide
  case unbrokenValues => decide
  case separated => decide
  case noProto => decide
  case unmarked => decide
  case wellFormedHeaders => decide
  case notBlank => decide
  case wellFormedRows => decide

/-- A value with a line feed is quoted, and cut in two. -/
theorem csv_broken_value_lost :
    ¬ ComesBack "people.csv" none
      [[rowWith [units "note"] (by decide) [units "a\nb"]]] := by
  intro h
  have hsame := ((comesBack_iff_fileRows _ _ _).mp h).2
  have hlength := hsame.length_eq
  revert hlength
  decide

end RoundTrip

end NestBatch
