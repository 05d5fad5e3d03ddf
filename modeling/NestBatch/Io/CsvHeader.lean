import NestBatch.Io.CsvLines

/-!
# The header of a CSV file

A text is headed once if the lines of the header stand in front of it, and nowhere else.
Rows behind a header spoil that only by repeating its last line, and a batch keeps it if
the header goes in front of the rows exactly where the file has no text yet.
-/

namespace NestBatch

open JsString

section Occurrences

variable {α : Type} {head lines rest : List α}

theorem eq_zero_of_isPrefix_drop_self (hne : head ≠ []) {i : Nat} (h : head <+: head.drop i) :
    i = 0 := by
  have hlength := h.length_le
  have hpos := List.length_pos_iff.mpr hne
  rw [List.length_drop] at hlength
  omega

/-- Behind some lines the head occurs again only if its last line does. -/
theorem eq_zero_of_isPrefix_drop_append (hne : head ≠ []) (hlast : head.getLast hne ∉ rest)
    (honly : ∀ i, head <+: lines.drop i → i = 0) {i : Nat} (h : head <+: (lines ++ rest).drop i) :
    i = 0 := by
  by_cases hinside : i + head.length ≤ lines.length
  · refine honly i (List.prefix_of_prefix_length_le h ?_ ?_)
    · rw [List.drop_append_of_le_length (by omega)]
      exact List.prefix_append _ _
    · rw [List.length_drop]
      omega
  · -- the last line of this occurrence stands behind `lines`
    obtain ⟨after, hafter⟩ := h
    have hsplit : lines ++ rest =
        ((lines ++ rest).take i ++ head.dropLast) ++ head.getLast hne :: after := by
      rw [List.append_assoc, ← List.singleton_append, ← List.append_assoc head.dropLast,
        List.dropLast_append_getLast, hafter, List.take_append_drop]
    have hbound : i ≤ (lines ++ rest).length := by
      by_contra hbeyond
      rw [List.drop_eq_nil_of_le (by omega)] at hafter
      exact hne (List.append_eq_nil_iff.mp hafter).1
    have hpos := List.length_pos_iff.mpr hne
    have hrest := congrArg (List.drop lines.length) hsplit
    rw [List.drop_left, List.drop_append_of_le_length] at hrest
    · exact absurd (hrest ▸ List.mem_append_right _ List.mem_cons_self) hlast
    · rw [List.length_append, List.length_take, List.length_dropLast]
      omega

end Occurrences

namespace CsvFileItemWriter

/-- The lines of the header stand in front of the text, if there is one, and nowhere else. -/
def HeadedOnce (header : List JsString) (text : JsString) : Prop :=
  text = [] ∨ ∃ lines, text = terminated lines ∧ (∀ line ∈ lines, lineFeed ∉ line) ∧
    header <+: lines ∧ ∀ i, header <+: lines.drop i → i = 0

/-- Splitting a text and ending its lines ends the text. -/
theorem terminated_splitOn (text : JsString) :
    terminated (text.splitOn lineFeed) = text ++ [lineFeed] := by
  rw [← intercalate_eq_terminated (List.splitOn_ne_nil _ _), List.intercalate_splitOn]

/-- Splitting texts and ending their lines ends the texts. -/
theorem terminated_flatMap_splitOn (texts : List JsString) :
    terminated (texts.flatMap fun text => text.splitOn lineFeed) = terminated texts := by
  induction texts with
  | nil => rfl
  | cons text rest ih =>
      rw [List.flatMap_cons, terminated_append, ih, terminated_splitOn, terminated_cons,
        List.append_assoc]
      rfl

variable (options : CsvFileItemWriterOptions)

/-- The lines of the header in the file; a name with a line feed goes over two of them. -/
def headerLines : List JsString := (toWellFormed (headerLine options)).splitOn lineFeed

/-- The lines of a row in the file. -/
def rowLines (item : CsvRow) : List JsString :=
  (toWellFormed (rowLine options item)).splitOn lineFeed

theorem headerLines_ne_nil : headerLines options ≠ [] := List.splitOn_ne_nil _ _

/-- No line of the row is the one that the header ends with. -/
def Apart (item : CsvRow) : Prop :=
  (headerLines options).getLast (headerLines_ne_nil options) ∉ rowLines options item

instance (item : CsvRow) : Decidable (Apart options item) :=
  inferInstanceAs (Decidable (¬ _))

variable {options} {items : List CsvRow} {text : JsString}

/-- The lines of some rows in the file. -/
theorem terminated_rows (items : List CsvRow) :
    toWellFormed (terminated (items.map (rowLine options))) =
      terminated (items.flatMap (rowLines options)) := by
  rw [toWellFormed_terminated, ← terminated_flatMap_splitOn, List.map_map, List.flatMap_map]
  rfl

/-- The lines of a row hold no line feed. -/
theorem not_mem_of_mem_rowLines {line : JsString}
    (h : line ∈ items.flatMap (rowLines options)) : lineFeed ∉ line := by
  obtain ⟨item, -, hline⟩ := List.mem_flatMap.mp h
  exact fun hu => (mem_splitOn hline hu).2 rfl

/-- The last header line is no line of a row that is apart from it. -/
theorem last_not_mem_rowLines (hapart : ∀ item ∈ items, Apart options item) :
    (headerLines options).getLast (headerLines_ne_nil options) ∉
      items.flatMap (rowLines options) := by
  intro hmem
  obtain ⟨item, hitem, hline⟩ := List.mem_flatMap.mp hmem
  exact hapart item hitem hline

/-- Rows behind the header. -/
theorem headedOnce_rows {lines : List JsString} (hfeed : ∀ line ∈ lines, lineFeed ∉ line)
    (hfront : headerLines options <+: lines)
    (honly : ∀ i, headerLines options <+: lines.drop i → i = 0)
    (hapart : ∀ item ∈ items, Apart options item) :
    HeadedOnce (headerLines options)
      (terminated lines ++ toWellFormed (terminated (items.map (rowLine options)))) := by
  refine Or.inr ⟨lines ++ items.flatMap (rowLines options), ?_, ?_, ?_, ?_⟩
  · rw [terminated_rows, terminated_append]
  · intro line hline
    rcases List.mem_append.mp hline with hline | hline
    · exact hfeed line hline
    · exact not_mem_of_mem_rowLines hline
  · exact hfront.trans (List.prefix_append _ _)
  · intro i hi
    exact eq_zero_of_isPrefix_drop_append (headerLines_ne_nil options)
      (last_not_mem_rowLines hapart) honly hi

/-- Rows without the header: what a batch leaves that meets a set flag in front of no text. -/
theorem not_headedOnce_rows (hne : items ≠ []) (hapart : ∀ item ∈ items, Apart options item) :
    ¬ HeadedOnce (headerLines options)
      (toWellFormed (terminated (items.map (rowLine options)))) := by
  rw [terminated_rows]
  intro h
  rcases h with hempty | ⟨lines, htext, hfeed, hfront, -⟩
  · cases items with
    | nil => exact hne rfl
    | cons item rest =>
        rw [List.flatMap_cons, terminated_append] at hempty
        cases hlines : rowLines options item with
        | nil => exact List.splitOn_ne_nil _ _ hlines
        | cons line after =>
            rw [hlines, terminated_cons] at hempty
            simp at hempty
  · have hsplit := congrArg (List.splitOn lineFeed) htext
    rw [splitOn_terminated fun line hline => not_mem_of_mem_rowLines hline,
      splitOn_terminated hfeed] at hsplit
    obtain rfl := List.append_cancel_right hsplit
    exact last_not_mem_rowLines hapart
      (hfront.subset (List.getLast_mem (headerLines_ne_nil options)))

/-- The first batch, with the header in front. -/
theorem headedOnce_first (hapart : ∀ item ∈ items, Apart options item) :
    HeadedOnce (headerLines options)
      (toWellFormed (terminated (headerLine options :: items.map (rowLine options)))) := by
  have hheader : toWellFormed (terminated [headerLine options]) =
      terminated (headerLines options) := by
    rw [toWellFormed_terminated, ← terminated_flatMap_splitOn]
    exact congrArg terminated (List.append_nil _)
  have hsplit : toWellFormed (terminated (headerLine options :: items.map (rowLine options))) =
      terminated (headerLines options) ++
        toWellFormed (terminated (items.map (rowLine options))) := by
    rw [← hheader, toWellFormed_terminated, toWellFormed_terminated, toWellFormed_terminated,
      ← terminated_append]
    rfl
  rw [hsplit]
  refine headedOnce_rows ?_ (List.prefix_refl _) ?_ hapart
  · exact fun line hline hu => (mem_splitOn hline hu).2 rfl
  · exact fun i hi => eq_zero_of_isPrefix_drop_self (headerLines_ne_nil options) hi

/-- **A batch keeps a file headed once** where the header goes in front of it if and only if there
is no text yet. -/
theorem HeadedOnce.write {writer : CsvFileItemWriter} {file : TextFile}
    (h : HeadedOnce (headerLines options) (file.getD []))
    (hemits : emitsHeader options writer = true ↔ file.getD [] = [])
    (hapart : ∀ item ∈ items, Apart options item)
    (hwrite : (write options writer items).1 = some text) :
    HeadedOnce (headerLines options) ((file.append text).getD []) := by
  have hne : items ≠ [] := by
    intro heq
    subst heq
    cases hwrite
  rw [write_of_ne_nil hne] at hwrite
  obtain rfl := Option.some.inj hwrite
  change HeadedOnce _ (file.getD [] ++ toWellFormed (terminated (batchLines options writer items)))
  unfold batchLines
  by_cases hempty : file.getD [] = []
  · rw [hempty, if_pos (hemits.mpr hempty)]
    exact headedOnce_first hapart
  · rw [if_neg (hemits.not.mpr hempty), List.nil_append]
    rcases h with h | ⟨lines, htext, hfeed, hfront, honly⟩
    · exact absurd h hempty
    · rw [htext]
      exact headedOnce_rows hfeed hfront honly hapart

end CsvFileItemWriter

end NestBatch
