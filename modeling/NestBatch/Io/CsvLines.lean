import NestBatch.Io.CsvFiles

/-!
# The lines of a CSV file

A batch is written as lines, a line as values with the delimiter between them, and a
value plain or in quotes.  A text without line breaks falls into the lines that were
written, and a line into its values.  What becomes of a line on its way through the file
can be told from its values: whether it is well-formed, whether it is blank, and whether
it begins with a mark.
-/

namespace NestBatch

open JsString

/-! ### Lines -/

section Lines

/-- No carriage return is left. -/
theorem carriageReturn_not_mem_replaceCr (text : JsString) : carriageReturn ∉ replaceCr text := by
  intro h
  obtain ⟨u, -, hu⟩ := List.mem_map.mp h
  split at hu
  · cases hu
  · next hne => exact hne hu

/-- What is in a part is in the text and is no separator. -/
theorem mem_splitOn {α : Type} [DecidableEq α] {sep u : α} {text line : List α}
    (hline : line ∈ text.splitOn sep) (hu : u ∈ line) : u ∈ text ∧ u ≠ sep := by
  induction text generalizing line with
  | nil =>
      rw [List.splitOn_nil, List.mem_singleton] at hline
      rw [hline] at hu
      cases hu
  | cons v text ih =>
      rw [List.splitOn_cons_eq_if_modifyHead] at hline
      split at hline
      · rcases List.mem_cons.mp hline with rfl | hline
        · cases hu
        · exact ⟨List.mem_cons_of_mem _ (ih hline hu).1, (ih hline hu).2⟩
      · next hne =>
          cases hlines : text.splitOn sep with
          | nil => exact absurd hlines (List.splitOn_ne_nil _ _)
          | cons first others =>
              rw [hlines, List.modifyHead_cons] at hline
              rw [hlines] at ih
              rcases List.mem_cons.mp hline with rfl | hline
              · rcases List.mem_cons.mp hu with rfl | hu
                · exact ⟨List.mem_cons_self, fun heq => hne (beq_iff_eq.mpr heq)⟩
                · have hmem := ih List.mem_cons_self hu
                  exact ⟨List.mem_cons_of_mem _ hmem.1, hmem.2⟩
              · have hmem := ih (List.mem_cons_of_mem _ hline) hu
                exact ⟨List.mem_cons_of_mem _ hmem.1, hmem.2⟩

/-- A line that is read has no line break in it. -/
theorem not_mem_of_mem_splitLines {raw line : JsString} (h : line ∈ CodeUnits.splitLines raw) :
    lineFeed ∉ line ∧ carriageReturn ∉ line := by
  constructor
  · exact fun hu => (mem_splitOn h hu).2 rfl
  · exact fun hu => carriageReturn_not_mem_replaceCr _ (mem_splitOn h hu).1

/-- A text without carriage returns has no line end to replace. -/
theorem replaceCrLf_of_not_mem {text : JsString} (h : carriageReturn ∉ text) :
    CodeUnits.replaceCrLf text = text := by
  fun_induction CodeUnits.replaceCrLf text with
  | case1 => rfl
  | case2 u => rfl
  | case3 u v rest hpair ih => exact absurd (hpair.1 ▸ List.mem_cons_self) h
  | case4 u v rest hpair ih => rw [ih fun hmem => h (List.mem_cons_of_mem _ hmem)]

/-- A text without carriage returns stays as it is. -/
theorem replaceCr_of_not_mem {text : JsString} (h : carriageReturn ∉ text) :
    replaceCr text = text := by
  unfold replaceCr
  conv_rhs => rw [← List.map_id text]
  refine List.map_congr_left fun u hu => if_neg ?_
  intro heq
  subst heq
  exact h hu

/-- A text without line breaks. -/
def Unbroken (line : JsString) : Prop := lineFeed ∉ line ∧ carriageReturn ∉ line

instance (line : JsString) : Decidable (Unbroken line) :=
  inferInstanceAs (Decidable (_ ∧ _))

theorem withoutMark_append (line rest : JsString) :
    withoutMark (line ++ lineFeed :: rest) = withoutMark line ++ lineFeed :: rest := by
  cases line with
  | nil => rfl
  | cons u line =>
      unfold withoutMark
      rw [List.cons_append, List.head?_cons, List.head?_cons]
      split <;> rfl

/-- Taking the mark adds nothing. -/
theorem mem_withoutMark {line : JsString} {u : UInt16} (h : u ∈ withoutMark line) : u ∈ line := by
  unfold withoutMark at h
  split at h
  · exact List.mem_of_mem_tail h
  · exact h

open CsvFileItemWriter

/-- Unbroken lines hold no carriage return. -/
theorem carriageReturn_not_mem_terminated {lines : List JsString} (h : ∀ l ∈ lines, Unbroken l) :
    carriageReturn ∉ terminated lines := by
  intro hmem
  obtain ⟨line, hline, hu⟩ := List.mem_flatMap.mp hmem
  rcases List.mem_append.mp hu with hu | hu
  · exact (h line hline).2 hu
  · exact absurd (List.mem_singleton.mp hu) (by decide)

/-- Lines without line feeds are split as they were ended. -/
theorem splitOn_terminated {lines : List JsString} (h : ∀ l ∈ lines, lineFeed ∉ l) :
    (terminated lines).splitOn lineFeed = lines ++ [[]] := by
  induction lines with
  | nil => rfl
  | cons line rest ih =>
      rw [terminated_cons, List.splitOn_append_cons_self_of_not_mem (h line List.mem_cons_self),
        ih fun l hl => h l (List.mem_cons_of_mem _ hl)]
      rfl

/-- **Lines without line breaks are read back**, but for a mark in front of them. -/
theorem splitLines_terminated {line : JsString} {rest : List JsString}
    (h : ∀ l ∈ line :: rest, Unbroken l) :
    CodeUnits.splitLines (terminated (line :: rest)) = withoutMark line :: (rest ++ [[]]) := by
  have hlines : ∀ l ∈ withoutMark line :: rest, Unbroken l := by
    intro l hl
    rcases List.mem_cons.mp hl with rfl | hl
    · have hline := h line List.mem_cons_self
      exact ⟨fun hu => hline.1 (mem_withoutMark hu), fun hu => hline.2 (mem_withoutMark hu)⟩
    · exact h l (List.mem_cons_of_mem _ hl)
  have hmark : withoutMark (terminated (line :: rest)) = terminated (withoutMark line :: rest) := by
    rw [terminated_cons, terminated_cons, withoutMark_append]
  have hreturn := carriageReturn_not_mem_terminated hlines
  unfold CodeUnits.splitLines
  rw [hmark, replaceCrLf_of_not_mem hreturn, replaceCr_of_not_mem hreturn,
    splitOn_terminated fun l hl => (hlines l hl).1]
  rfl

/-- Lines are made well formed one by one. -/
theorem toWellFormed_terminated (lines : List JsString) :
    toWellFormed (terminated lines) = terminated (lines.map toWellFormed) := by
  induction lines with
  | nil => rfl
  | cons line rest ih =>
      rw [terminated_cons, toWellFormed_append_cons (by decide), ih, List.map_cons,
        terminated_cons]

/-- A well-formed copy of an unbroken line is unbroken. -/
theorem unbroken_toWellFormed {line : JsString} (h : Unbroken line) :
    Unbroken (toWellFormed line) := by
  constructor
  · intro hu
    rcases mem_toWellFormed hu with hu | hu
    · exact h.1 hu
    · exact absurd hu (by decide)
  · intro hu
    rcases mem_toWellFormed hu with hu | hu
    · exact h.2 hu
    · exact absurd hu (by decide)

end Lines
/-! ### What is written -/

section Written

open CsvFileItemWriter

variable {options : CsvFileItemWriterOptions}

/-- Behind the headers every batch appends its own lines. -/
theorem writeAll_of_headerWritten {writer : CsvFileItemWriter}
    (hwritten : emitsHeader options writer = false) (batches : List (List CsvRow))
    (content : JsString) :
    writeAll options writer (some content) batches =
      some (content ++ terminated ((batches.flatten.map (rowLine options)).map toWellFormed)) := by
  induction batches generalizing content with
  | nil => exact congrArg some (List.append_nil _).symm
  | cons items rest ih =>
      cases items with
      | nil => exact ih content
      | cons item items =>
          have hlines : batchLines options writer (item :: items) =
              (item :: items).map (rowLine options) := by
            rw [batchLines, hwritten]
            rfl
          rw [writeAll, write_of_ne_nil (List.cons_ne_nil _ _), hlines, hwritten]
          change writeAll options writer (some (content ++ toWellFormed (terminated _))) rest = _
          rw [ih, toWellFormed_terminated, List.append_assoc, ← terminated_append,
            ← List.map_append, ← List.map_append, List.flatten_cons]

/-- **The file**: the line of the headers and a line for every row, once there is a row. -/
theorem writeAll_eq (hheader : options.writeHeader.getD true = true)
    (batches : List (List CsvRow)) :
    writeAll options {} none batches =
      if batches.flatten = [] then none
      else some (terminated
        ((headerLine options :: batches.flatten.map (rowLine options)).map toWellFormed)) := by
  have hemits : emitsHeader options {} = true := by
    rw [emitsHeader, hheader]
    rfl
  have hwritten : emitsHeader options { headerWritten := .bool true } = false := by
    rw [emitsHeader, hheader]
    rfl
  induction batches with
  | nil => rfl
  | cons items rest ih =>
      cases items with
      | nil => exact ih
      | cons item items =>
          have hlines : batchLines options {} (item :: items) =
              headerLine options :: (item :: items).map (rowLine options) := by
            rw [batchLines, hemits]
            rfl
          rw [writeAll, write_of_ne_nil (List.cons_ne_nil _ _), hlines, hemits]
          change writeAll options { headerWritten := .bool true }
            (some ([] ++ toWellFormed (terminated _))) rest = _
          rw [writeAll_of_headerWritten hwritten, if_neg (by simp), toWellFormed_terminated,
            List.nil_append, ← terminated_append, ← List.map_append, List.cons_append,
            ← List.map_append, List.flatten_cons]

end Written

/-! ### Fields -/

section Fields

variable {d : JsString}

/-- A value is written plain or in quotes. -/
theorem encodes_escapeCsvValue (d value : JsString) :
    Delimited.Encodes quoteUnit (endsField d) value (escapeCsvValue (some value) d) := by
  unfold escapeCsvValue
  dsimp only [Option.getD_some]
  by_cases hneeds : needsQuotes value d = true
  · rw [if_pos hneeds]
    exact Or.inr rfl
  · rw [if_neg hneeds]
    refine Or.inl ⟨rfl, fun u hu => ?_⟩
    have hno := Bool.eq_false_iff.mpr hneeds
    unfold needsQuotes at hno
    simp only [Bool.or_eq_false_iff, decide_eq_false_iff_not] at hno
    obtain ⟨⟨⟨hnoquote, -⟩, -⟩, hone⟩ := hno
    have hnotmem : quoteUnit ∉ value := by
      rw [← List.contains_iff_mem, hnoquote]
      exact Bool.false_ne_true
    constructor
    · intro hsame
      subst hsame
      exact hnotmem hu
    · refine decide_eq_false fun heq => hone ?_
      exact Delimited.one_lt_length_parseFrom hnotmem hu (decide_eq_true heq) []

/-- What is escaped is in the value, or a quote. -/
theorem mem_escapeCsvValue {value : JsString} {u : UInt16}
    (h : u ∈ escapeCsvValue (some value) d) : u ∈ value ∨ u = quoteUnit := by
  unfold escapeCsvValue at h
  dsimp only [Option.getD_some] at h
  split at h
  · exact Delimited.mem_quoted h
  · exact Or.inl h

/-- Values written in a line. -/
def lineOf (d : JsString) (values : List JsString) : JsString :=
  d.intercalate (values.map fun value => escapeCsvValue (some value) d)

/-- **A line gives its values back**, if there is one or the delimiter is a single unit. -/
theorem parse_lineOf (hquote : d ≠ [quoteUnit]) {values : List JsString} (hne : values ≠ [])
    (hd : values.length = 1 ∨ d.length = 1) : parseDelimitedLine (lineOf d values) d = values := by
  have hcodes : List.Forall₂ (Delimited.Encodes quoteUnit (endsField d)) values
      (values.map fun value => escapeCsvValue (some value) d) := by
    rw [List.forall₂_map_right_iff]
    exact List.forall₂_same.mpr fun value _ => encodes_escapeCsvValue d value
  rcases hd with hone | hunit
  · obtain ⟨value, rfl⟩ := List.length_eq_one_iff.mp hone
    unfold lineOf
    rw [List.map_singleton, List.intercalate_singleton]
    exact Delimited.parse_encoded (encodes_escapeCsvValue d value)
  · obtain ⟨u, rfl⟩ := List.length_eq_one_iff.mp hunit
    have hu : u ≠ quoteUnit := fun heq => hquote (congrArg (fun v => [v]) heq)
    have hends : endsField [u] u = true := decide_eq_true rfl
    exact Delimited.parse_intercalate hends hu hcodes hne

/-- **Decoding undoes encoding**: fields that are escaped and joined are read back, whatever is in
them, with any unit but the quote between them. -/
theorem delimited_line_comes_back (fields : List JsString) (hne : fields ≠ []) (delimiter : UInt16)
    (hquote : delimiter ≠ quoteUnit) :
    parseDelimitedLine
      ([delimiter].intercalate (fields.map fun field => escapeCsvValue (some field) [delimiter]))
      [delimiter] = fields := by
  have hseparator : [delimiter] ≠ [quoteUnit] := fun heq => hquote (List.singleton_inj.mp heq)
  exact parse_lineOf hseparator hne (Or.inr rfl)

/-- A delimiter, quotes, a line break, and nothing at all. -/
theorem delimited_line_comes_back_awkward :
    let fields := ["a;b", "say \"hi\"", "two\nlines", ""].map units
    parseDelimitedLine
      ([0x3b].intercalate (fields.map fun field => escapeCsvValue (some field) [0x3b]))
      [0x3b] = fields :=
  delimited_line_comes_back _ (List.cons_ne_nil _ _) 0x3b (by decide)

/-- A unit of joined parts is in a part, or in the separator between two. -/
theorem mem_intercalate {α : Type} {u : α} {sep : List α} {parts : List (List α)}
    (h : u ∈ sep.intercalate parts) :
    (∃ part ∈ parts, u ∈ part) ∨ (u ∈ sep ∧ 2 ≤ parts.length) := by
  induction parts with
  | nil => cases h
  | cons part rest ih =>
      cases rest with
      | nil =>
          rw [List.intercalate_singleton] at h
          exact Or.inl ⟨part, List.mem_cons_self, h⟩
      | cons next rest =>
          rw [List.intercalate_cons_cons] at h
          rcases List.mem_append.mp h with h | h
          · rcases List.mem_append.mp h with h | h
            · exact Or.inl ⟨part, List.mem_cons_self, h⟩
            · exact Or.inr ⟨h, Nat.le_add_left 2 rest.length⟩
          · rcases ih h with ⟨found, hfound, hu⟩ | ⟨hu, -⟩
            · exact Or.inl ⟨found, List.mem_cons_of_mem _ hfound, hu⟩
            · exact Or.inr ⟨hu, Nat.le_add_left 2 rest.length⟩

/-- A line has no line breaks but those of its values. -/
theorem unbroken_lineOf {values : List JsString} (hvalues : ∀ value ∈ values, Unbroken value)
    (hd : values.length = 1 ∨ d.length = 1) (hfeed : d ≠ [lineFeed])
    (hreturn : d ≠ [carriageReturn]) : Unbroken (lineOf d values) := by
  have hbreak : ∀ b, b ≠ quoteUnit → d ≠ [b] → (∀ value ∈ values, b ∉ value) →
      b ∉ lineOf d values := by
    intro b hquote hdb hno hmem
    rcases mem_intercalate hmem with ⟨part, hpart, hu⟩ | ⟨hu, hlength⟩
    · obtain ⟨value, hvalue, rfl⟩ := List.mem_map.mp hpart
      rcases mem_escapeCsvValue hu with hu | hu
      · exact hno value hvalue hu
      · exact hquote hu
    · rw [List.length_map] at hlength
      rcases hd with hone | hunit
      · omega
      · obtain ⟨v, rfl⟩ := List.length_eq_one_iff.mp hunit
        exact hdb (congrArg (fun v => [v]) (List.mem_singleton.mp hu).symm)
  constructor
  · exact hbreak lineFeed (by decide) hfeed fun value hvalue => (hvalues value hvalue).1
  · exact hbreak carriageReturn (by decide) hreturn fun value hvalue => (hvalues value hvalue).2

/-- **Counting**: a line whose fields are more, and hold a unit as often, holds it as often. -/
theorem count_le_of_fields {s : UInt16} (hs : s ≠ quoteUnit) {line line' : JsString}
    (hlength : (parseDelimitedLine line d).length ≤ (parseDelimitedLine line' d).length)
    (hcount : (parseDelimitedLine line d).flatten.count s ≤
      (parseDelimitedLine line' d).flatten.count s) : line.count s ≤ line'.count s := by
  unfold parseDelimitedLine Delimited.parse at hlength hcount
  by_cases hd : [s] = d
  · have hdelimiter : ∀ u, decide ([u] = d) = true ↔ u = s := by
      intro u
      rw [decide_eq_true_iff, ← hd, List.cons.injEq]
      exact and_iff_left rfl
    have hcounted (line : JsString) :=
      @Delimited.count_delimiter_parseFrom _ _ quoteUnit (endsField d) s hs hdelimiter false [] line
    have hline := hcounted line
    have hline' := hcounted line'
    rw [List.count_nil] at hline hline'
    omega
  · have hdelimiter : endsField d s = false := decide_eq_false hd
    have hline := Delimited.count_parseFrom hs hdelimiter false [] line
    have hline' := Delimited.count_parseFrom hs hdelimiter false [] line'
    rw [List.count_nil] at hline hline'
    omega

/-- A field has no line break that its line has not. -/
theorem Unbroken.field {line field : JsString} (h : Unbroken line)
    (hfield : field ∈ parseDelimitedLine line d) : Unbroken field := by
  constructor
  · intro hu
    exact (Delimited.mem_of_mem_parseFrom hfield hu).elim nofun h.1
  · intro hu
    exact (Delimited.mem_of_mem_parseFrom hfield hu).elim nofun h.2

/-- A line that has not changed, or some unit stands in it less often: not if it gives as many
values with as many units. -/
theorem toWellFormed_eq_of_fields {line line' : JsString}
    (hless : ∀ s, isSurrogate s = true → line'.count s ≤ (toWellFormed line).count s)
    (hlength : (parseDelimitedLine line d).length ≤ (parseDelimitedLine line' d).length)
    (hcount : ∀ s, (parseDelimitedLine line d).flatten.count s ≤
      (parseDelimitedLine line' d).flatten.count s) : toWellFormed line = line := by
  rcases toWellFormed_cases line with heq | ⟨⟨s, hs, hlost⟩, -⟩
  · exact heq
  · have hquote : s ≠ quoteUnit := by
      intro hsame
      subst hsame
      exact absurd hs (by decide)
    have hkept := count_le_of_fields hquote hlength (hcount s)
    have hles := hless s hs
    omega

end Fields

/-! ### Lines on their way -/

section Way

variable {d : JsString}

open Delimited

/-- Replacing a lone surrogate makes no quote. -/
theorem single_ne_quoteUnit {u : UInt16} (h : u ≠ quoteUnit) : single u ≠ quoteUnit := by
  unfold single
  split
  · decide
  · exact h

/-- Quotes are no surrogates. -/
theorem toWellFormed_doubled (text : JsString) :
    toWellFormed (doubled quoteUnit text) = doubled quoteUnit (toWellFormed text) := by
  have hquote : isSurrogate quoteUnit = false := by decide
  fun_induction toWellFormed text with
  | case1 => rfl
  | case2 u =>
      by_cases hu : u = quoteUnit
      · rw [hu]
        decide
      · rw [doubled_cons_of_ne hu, doubled_cons_of_ne (single_ne_quoteUnit hu)]
        rfl
  | case3 u v rest hpair ih =>
      obtain ⟨hhigh, hlow⟩ := Bool.and_eq_true_iff.mp hpair
      have hu : u ≠ quoteUnit := by
        intro heq
        subst heq
        cases hhigh
      have hv : v ≠ quoteUnit := by
        intro heq
        subst heq
        cases hlow
      rw [doubled_cons_of_ne hu, doubled_cons_of_ne hv, toWellFormed, if_pos hpair, ih,
        doubled_cons_of_ne hu, doubled_cons_of_ne hv]
  | case4 u v rest hpair ih =>
      by_cases hu : u = quoteUnit
      · rw [hu, doubled_cons_self, toWellFormed_cons hquote, toWellFormed_cons hquote, ih,
          single_of_not_surrogate hquote, doubled_cons_self]
      · obtain ⟨rest', hrest⟩ : ∃ rest', doubled quoteUnit (v :: rest) = v :: rest' := by
          by_cases hv : v = quoteUnit
          · rw [hv]
            exact ⟨_, doubled_cons_self rest⟩
          · exact ⟨_, doubled_cons_of_ne hv rest⟩
        rw [doubled_cons_of_ne hu, hrest, toWellFormed, if_neg hpair, ← hrest, ih,
          doubled_cons_of_ne (single_ne_quoteUnit hu)]

/-- A quoted text is well formed exactly when the text is. -/
theorem isWellFormed_quoted (text : JsString) :
    IsWellFormed (quoted quoteUnit text) ↔ IsWellFormed text := by
  have hquote : isSurrogate quoteUnit = false := by decide
  have hquoted : toWellFormed (quoted quoteUnit text) = quoted quoteUnit (toWellFormed text) := by
    unfold quoted
    rw [toWellFormed_cons hquote, toWellFormed_append_cons hquote, toWellFormed_doubled]
    rfl
  unfold IsWellFormed
  rw [hquoted]
  exact ⟨quoted_injective, congrArg _⟩

/-- An escaped value is well formed exactly when the value is. -/
theorem isWellFormed_escapeCsvValue (value : JsString) :
    IsWellFormed (escapeCsvValue (some value) d) ↔ IsWellFormed value := by
  unfold escapeCsvValue
  dsimp only [Option.getD_some]
  split
  · exact isWellFormed_quoted value
  · rfl

/-- Values whose line is well-formed.  Half of a pair as delimiter makes one of it with the value
behind it, or in front of it, where that is not in quotes. -/
def WellFormedValues (d : JsString) (values : List JsString) : Prop :=
  if d.any isLowSurrogate then
    (∀ value ∈ values.dropLast, IsWellFormed (value ++ d) ∧ needsQuotes value d = false) ∧
      ∀ value ∈ values.getLast?, IsWellFormed value
  else
    (∀ value ∈ values.head?, IsWellFormed value) ∧
      ∀ value ∈ values.tail,
        IsWellFormed (d ++ value) ∧ (d.any isHighSurrogate → needsQuotes value d = false)

instance (d : JsString) (values : List JsString) : Decidable (WellFormedValues d values) :=
  inferInstanceAs (Decidable (ite _ _ _))

theorem lineOf_singleton (value : JsString) :
    lineOf d [value] = escapeCsvValue (some value) d := by
  unfold lineOf
  rw [List.map_singleton, List.intercalate_singleton]

theorem lineOf_cons_cons (value next : JsString) (rest : List JsString) :
    lineOf d (value :: next :: rest) =
      escapeCsvValue (some value) d ++ (d ++ lineOf d (next :: rest)) := by
  unfold lineOf
  rw [List.map_cons, List.map_cons, List.intercalate_cons_cons, List.append_assoc]

/-- A low surrogate pairs with what is in front of it. -/
theorem isWellFormed_lineOf_low {s : UInt16} (hlow : isLowSurrogate s = true)
    (hhigh : isHighSurrogate s = false) {values : List JsString} (hne : values ≠ []) :
    IsWellFormed (lineOf [s] values) ↔
      (∀ value ∈ values.dropLast,
        IsWellFormed (value ++ [s]) ∧ needsQuotes value [s] = false) ∧
        ∀ value ∈ values.getLast?, IsWellFormed value := by
  have hfirst (value : JsString) : IsWellFormed (escapeCsvValue (some value) [s] ++ [s]) ↔
      IsWellFormed (value ++ [s]) ∧ needsQuotes value [s] = false := by
    unfold escapeCsvValue
    dsimp only [Option.getD_some]
    cases hneeds : needsQuotes value [s] with
    | false => exact (and_iff_left rfl).symm
    | true =>
        refine iff_of_false ?_ fun h => Bool.noConfusion h.2
        intro h
        rw [if_pos rfl, isWellFormed_append, isWellFormed_singleton, isSurrogate, hlow,
          Bool.or_true] at h
        · cases h.2
        · intro u v hu _ hpair
          rw [Delimited.quoted, ← List.cons_append, List.getLast?_concat] at hu
          rw [← Option.some.inj hu] at hpair
          cases hpair
  induction values with
  | nil => exact absurd rfl hne
  | cons value rest ih =>
      cases rest with
      | nil =>
          rw [lineOf_singleton, isWellFormed_escapeCsvValue]
          simp
      | cons next rest =>
          have hrest := propext (ih (List.cons_ne_nil next rest))
          rw [lineOf_cons_cons, ← List.append_assoc, isWellFormed_append, hfirst, hrest,
            List.dropLast_cons_cons, List.getLast?_cons_cons, List.forall_mem_cons]
          · exact and_assoc.symm
          · intro u v hu _ hpair
            rw [List.getLast?_concat] at hu
            rw [← Option.some.inj hu, hhigh] at hpair
            cases hpair

/-- A high surrogate pairs with what is behind it. -/
theorem isWellFormed_cons_lineOf {s : UInt16} (hlow : isLowSurrogate s = false)
    {values : List JsString} (hne : values ≠ []) :
    IsWellFormed (s :: lineOf [s] values) ↔
      ∀ value ∈ values,
        IsWellFormed (s :: value) ∧ (isHighSurrogate s → needsQuotes value [s] = false) := by
  have hfirst (value : JsString) : IsWellFormed (s :: escapeCsvValue (some value) [s]) ↔
      IsWellFormed (s :: value) ∧ (isHighSurrogate s → needsQuotes value [s] = false) := by
    unfold escapeCsvValue
    dsimp only [Option.getD_some]
    cases hneeds : needsQuotes value [s] with
    | false => exact (and_iff_left fun _ => rfl).symm
    | true =>
        have hvalue : IsWellFormed (s :: Delimited.quoted quoteUnit value) ↔
            isSurrogate s = false ∧ IsWellFormed value := by
          rw [← List.singleton_append, isWellFormed_append, isWellFormed_singleton,
            isWellFormed_quoted]
          intro u v _ hv _
          rw [← Option.some.inj hv]
          rfl
        rw [if_pos rfl, hvalue, isSurrogate, hlow, Bool.or_false]
        cases hhigh : isHighSurrogate s with
        | true =>
            exact iff_of_false (fun h => Bool.noConfusion h.1) fun h => Bool.noConfusion (h.2 rfl)
        | false =>
            have hs : isSurrogate s = false := by
              rw [isSurrogate, hhigh, hlow]
              rfl
            rw [and_iff_right rfl, and_iff_left (fun h => Bool.noConfusion h), IsWellFormed,
              IsWellFormed, toWellFormed_cons hs, List.cons.injEq, and_iff_right rfl]
  induction values with
  | nil => exact absurd rfl hne
  | cons value rest ih =>
      cases rest with
      | nil =>
          rw [lineOf_singleton, hfirst]
          simp
      | cons next rest =>
          have hrest := propext (ih (List.cons_ne_nil next rest))
          rw [lineOf_cons_cons, ← List.cons_append, List.singleton_append, isWellFormed_append,
            hfirst, hrest, List.forall_mem_cons (a := value)]
          intro u v _ hv _
          rw [← Option.some.inj hv]
          exact hlow

/-- **A line is well-formed** where its values are, each with its delimiter. -/
theorem isWellFormed_lineOf_iff {values : List JsString} (hne : values ≠ [])
    (hd : values.length = 1 ∨ d.length = 1) :
    IsWellFormed (lineOf d values) ↔ WellFormedValues d values := by
  unfold WellFormedValues
  rcases hd with hone | hunit
  · obtain ⟨value, rfl⟩ := List.length_eq_one_iff.mp hone
    rw [lineOf_singleton, isWellFormed_escapeCsvValue]
    simp
  · obtain ⟨s, rfl⟩ := List.length_eq_one_iff.mp hunit
    rw [List.any_cons, List.any_nil, Bool.or_false, List.any_cons, List.any_nil, Bool.or_false]
    cases hlow : isLowSurrogate s with
    | true => exact isWellFormed_lineOf_low hlow (isHighSurrogate_of_isLowSurrogate hlow) hne
    | false =>
        rw [if_neg Bool.false_ne_true]
        cases values with
        | nil => exact absurd rfl hne
        | cons value rest =>
            cases rest with
            | nil =>
                rw [lineOf_singleton, isWellFormed_escapeCsvValue]
                simp
            | cons next rest =>
                have hrest := isWellFormed_cons_lineOf hlow (List.cons_ne_nil next rest)
                rw [lineOf_cons_cons, List.singleton_append, isWellFormed_append,
                  isWellFormed_escapeCsvValue, hrest]
                · simp
                · intro u v _ hv _
                  rw [← Option.some.inj hv]
                  exact hlow

/-! ### Blank lines and marks -/

/-- Values whose line is blank. -/
def BlankValues (d : JsString) (values : List JsString) : Prop :=
  (∀ value ∈ values, value.all isTrimmable ∧ needsQuotes value d = false) ∧
    (values.length = 1 ∨ d.all isTrimmable)

instance (d : JsString) (values : List JsString) : Decidable (BlankValues d values) :=
  inferInstanceAs (Decidable (_ ∧ _))

/-- An escaped value is blank exactly when it is blank and not quoted. -/
theorem all_isTrimmable_escapeCsvValue (value : JsString) :
    (escapeCsvValue (some value) d).all isTrimmable = true ↔
      value.all isTrimmable = true ∧ needsQuotes value d = false := by
  unfold escapeCsvValue
  dsimp only [Option.getD_some]
  cases hneeds : needsQuotes value d with
  | false => exact (and_iff_left rfl).symm
  | true => exact iff_of_false (fun h => nomatch h) fun h => nomatch h.2

/-- **A line is blank** where its values are and none stands in quotes. -/
theorem trim_lineOf_eq_nil_iff {values : List JsString} (hne : values ≠ []) :
    trim (lineOf d values) = [] ↔ BlankValues d values := by
  rw [trim_eq_nil_iff, BlankValues]
  induction values with
  | nil => exact absurd rfl hne
  | cons value rest ih =>
      cases rest with
      | nil =>
          rw [lineOf_singleton, all_isTrimmable_escapeCsvValue]
          simp
      | cons next rest =>
          have hrest := propext (ih (List.cons_ne_nil next rest))
          rw [lineOf_cons_cons, List.all_append, List.all_append, Bool.and_eq_true,
            Bool.and_eq_true, hrest, all_isTrimmable_escapeCsvValue,
            List.forall_mem_cons (a := value)]
          have hlength : (value :: next :: rest).length ≠ 1 := by simp
          constructor
          · intro h
            obtain ⟨hvalue, hd, hothers, -⟩ := h
            exact ⟨⟨hvalue, hothers⟩, Or.inr hd⟩
          · intro h
            obtain ⟨⟨hvalue, hothers⟩, hd⟩ := h
            have hd := hd.resolve_left hlength
            exact ⟨hvalue, hd, hothers, Or.inr hd⟩

/-- Values whose line begins with a mark. -/
def MarkedValues (d : JsString) (values : List JsString) : Prop :=
  ∃ value ∈ values.head?, needsQuotes value d = false ∧
    (value.head? = some byteOrderMark ∨
      (value = [] ∧ values.length ≠ 1 ∧ d = [byteOrderMark]))

instance (d : JsString) (values : List JsString) : Decidable (MarkedValues d values) :=
  inferInstanceAs (Decidable (∃ value, value ∈ _ ∧ _))

/-- **A line begins with a mark** where its first value does and is not in quotes. -/
theorem head?_lineOf_eq_mark_iff {values : List JsString} (hne : values ≠ [])
    (hd : values.length = 1 ∨ d.length = 1) :
    (lineOf d values).head? = some byteOrderMark ↔ MarkedValues d values := by
  unfold MarkedValues
  cases values with
  | nil => exact absurd rfl hne
  | cons value rest =>
      have hmarked (hno : needsQuotes value d = true) : ¬ ∃ value' ∈ (value :: rest).head?,
          needsQuotes value' d = false ∧ (value'.head? = some byteOrderMark ∨
            (value' = [] ∧ (value :: rest).length ≠ 1 ∧ d = [byteOrderMark])) := by
        intro hcase
        obtain ⟨value', hvalue', hneeds, -⟩ := hcase
        rw [← Option.some.inj hvalue', hno] at hneeds
        cases hneeds
      cases rest with
      | nil =>
          rw [lineOf_singleton]
          cases hneeds : needsQuotes value d with
          | true =>
              refine iff_of_false ?_ (hmarked hneeds)
              rw [escapeCsvValue, Option.getD_some, if_pos hneeds]
              exact fun h => absurd (Option.some.inj h) (by decide)
          | false => simp [escapeCsvValue, hneeds]
      | cons next rest =>
          rw [lineOf_cons_cons]
          cases hneeds : needsQuotes value d with
          | true =>
              refine iff_of_false ?_ (hmarked hneeds)
              rw [escapeCsvValue, Option.getD_some, if_pos hneeds]
              exact fun h => absurd (Option.some.inj h) (by decide)
          | false =>
              have hunit : d.length = 1 := hd.resolve_left (by simp)
              obtain ⟨s, rfl⟩ := List.length_eq_one_iff.mp hunit
              cases value <;> simp [escapeCsvValue, hneeds]

end Way

end NestBatch
