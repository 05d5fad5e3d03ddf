import NestBatch.Io.S3
import NestBatch.Lib.Feed

/-!
# The two readers of JSONL lines

`JsonlFileItemReader` reads the lines of a file, `S3JsonlItemReader` those of an
object.  Both keep the lines and the index of the next one, move the index on in
front of everything that can throw, and pass over blank lines.  They differ in
what they make of a line: the one passes over a line whose value is `null`, the
other answers with whatever comes of it.

`JSON.parse` is a function that may throw; `none` stands for `null`.  `mapItem` may
depend on anything, so it is told how often it was called for the line before: what
the calls of one run come to is always such a table.

What a reader has still to give is a list, `visits`: a read takes its head.
-/

namespace NestBatch

/-- How often `mapItem` was called for each line. -/
abbrev LineCounts := Int → Nat

/-- The options of the JSONL file reader. -/
structure JsonlFileItemReaderOptions (α : Type) where
  path : String
  checkpointKey : Option String := none
  /-- `JSON.parse` -/
  parse : String → Except Thrown (Option α)

structure S3JsonlMappingOptions (ν α : Type) extends S3ObjectLocation where
  checkpointKey : Option String := none
  /-- `JSON.parse` -/
  parse : String → Except Thrown (Option ν)
  /-- `parsed as T` -/
  asItem : ν → α
  /-- of the value of a line, its index, and the number of earlier calls for it -/
  mapItem : Option (Option ν → Int → Nat → Except Thrown (Option α)) := none

/-- What both readers keep. -/
structure LineReader where
  lines : List String := []
  index : Int := 0
  deriving DecidableEq, Repr

variable {ν α : Type}

namespace LineReader

/-- What reading `trim` off a line that is not there throws. -/
def noLine : Thrown := ⟨.typeError, "Cannot read properties of undefined (reading 'trim')"⟩

/-- What a reader makes of a line. -/
abbrev MapLine (α : Type) :=
  String → Int → LineCounts → Except Thrown (Option α) × LineCounts

/-- `while (this.index < this.lines.length)`, over the lines from `index` on: the answer and the
new index.  Blank lines are passed over, and if `passesNull` is set so are lines mapped to
`null`. -/
def readFrom (mapLine : MapLine α) (passesNull : Bool) : List String → Int → LineCounts →
    Except Thrown (Option α) × Int × LineCounts
  | [], index, counts => (.ok none, index, counts)
  | line :: rest, index, counts =>
      if jsTrim line = "" then readFrom mapLine passesNull rest (index + 1) counts
      else
        match mapLine line index counts with
        | (.error err, counts) => (.error err, index + 1, counts)
        | (.ok none, counts) =>
            if passesNull then readFrom mapLine passesNull rest (index + 1) counts
            else (.ok none, index + 1, counts)
        | (.ok (some item), counts) => (.ok (some item), index + 1, counts)

/-- `read`; in front of the first line there is no line to trim. -/
def read (mapLine : MapLine α) (passesNull : Bool) (reader : LineReader) (counts : LineCounts) :
    Except Thrown (Option α) × LineReader × LineCounts :=
  if reader.index < 0 then (.error noLine, { reader with index := reader.index + 1 }, counts)
  else
    let (answer, index, counts) := readFrom mapLine passesNull
      (reader.lines.drop reader.index.toNat) reader.index counts
    (answer, { reader with index := index }, counts)

end LineReader

namespace JsonlFileItemReader

/-- What the inherited `checkpointKey` falls back to. -/
def checkpointKey (options : JsonlFileItemReaderOptions α) : String :=
  options.checkpointKey.getD ("file-line:" ++ options.path)

/-- `mapLine: (line) => JSON.parse(line)`. -/
def mapLine (options : JsonlFileItemReaderOptions α) : LineReader.MapLine α :=
  fun line _ counts => (options.parse line, counts)

/-- The inherited `read`, with `skipBlankLines: true`. -/
def read (options : JsonlFileItemReaderOptions α) :
    LineReader → LineCounts → Except Thrown (Option α) × LineReader × LineCounts :=
  LineReader.read (mapLine options) true

end JsonlFileItemReader

namespace S3JsonlItemReader

def mappingKey (options : S3JsonlMappingOptions ν α) : String :=
  options.checkpointKey.getD ("s3-jsonl:" ++ options.bucket ++ "/" ++ options.key)

/-- `JSON.parse`, and `mapItem` where there is one. -/
def mapLine (options : S3JsonlMappingOptions ν α) : LineReader.MapLine α :=
  fun line lineIndex counts =>
    match options.parse line with
    | .error err => (.error err, counts)
    | .ok parsed =>
        match options.mapItem with
        | none => (.ok (parsed.map options.asItem), counts)
        | some mapItem => (mapItem parsed lineIndex (counts lineIndex),
            Function.update counts lineIndex (counts lineIndex + 1))

/-- `read`, with a `mapItem` that may answer otherwise when it is called again. -/
def readMapping (options : S3JsonlMappingOptions ν α) :
    LineReader → LineCounts → Except Thrown (Option α) × LineReader × LineCounts :=
  LineReader.read (mapLine options) false

/-- What the next attempt at each line comes to is what `parseItem` says. -/
def Agrees (options : S3JsonlItemReaderOptions α) (mapping : S3JsonlMappingOptions ν α)
    (counts : LineCounts) : Prop :=
  ∀ line lineIndex, (mapLine mapping line lineIndex counts).1 = options.parseItem line lineIndex

/-- The S3 reader and the file reader search alike where their mappings agree. -/
theorem readFrom_agrees {options : S3JsonlItemReaderOptions α}
    {mapping : S3JsonlMappingOptions ν α} {counts : LineCounts}
    (h : Agrees options mapping counts) (lines : List String) (index : Int) :
    ((LineReader.readFrom (mapLine mapping) false lines index counts).1,
      (LineReader.readFrom (mapLine mapping) false lines index counts).2.1) =
        readFrom options lines index := by
  induction lines generalizing index with
  | nil => rfl
  | cons line rest ih =>
      unfold LineReader.readFrom readFrom
      by_cases hblank : jsTrim line = ""
      · rw [if_pos hblank, if_pos hblank]
        exact ih (index + 1)
      · rw [if_neg hblank, if_neg hblank, ← h line index]
        rcases mapLine mapping line index counts with ⟨err | item, counts'⟩
        · rfl
        · cases item with
          | none => rfl
          | some item => rfl

/-- **The two models of this reader agree** on a read. -/
theorem readMapping_eq {options : S3JsonlItemReaderOptions α}
    {mapping : S3JsonlMappingOptions ν α} {counts : LineCounts}
    (h : Agrees options mapping counts) (reader : S3JsonlItemReader) :
    (readMapping mapping ⟨reader.lines, reader.index⟩ counts).1 = (read options reader).1 ∧
      (readMapping mapping ⟨reader.lines, reader.index⟩ counts).2.1 =
        ⟨(read options reader).2.lines, (read options reader).2.index⟩ := by
  have hscan := readFrom_agrees h (reader.lines.drop reader.index.toNat) reader.index
  unfold readMapping LineReader.read read
  by_cases hneg : reader.index < 0
  · rw [if_pos hneg, if_pos hneg]
    exact ⟨rfl, rfl⟩
  · rw [if_neg hneg, if_neg hneg, ← hscan]
    exact ⟨rfl, rfl⟩

end S3JsonlItemReader

/-! ### One and the other -/

/-- One of the two readers, with its options. -/
inductive JsonlItemReader (ν α : Type)
  | file (options : JsonlFileItemReaderOptions α)
  | s3 (options : S3JsonlMappingOptions ν α)

namespace JsonlItemReader

def checkpointKey : JsonlItemReader ν α → String
  | .file options => JsonlFileItemReader.checkpointKey options
  | .s3 options => S3JsonlItemReader.mappingKey options

def read : JsonlItemReader ν α →
    LineReader → LineCounts → Except Thrown (Option α) × LineReader × LineCounts
  | .file options => JsonlFileItemReader.read options
  | .s3 options => S3JsonlItemReader.readMapping options

def mapLine : JsonlItemReader ν α → LineReader.MapLine α
  | .file options => JsonlFileItemReader.mapLine options
  | .s3 options => S3JsonlItemReader.mapLine options

def passesNull : JsonlItemReader ν α → Bool
  | .file _ => true
  | .s3 _ => false

/-- The reader once its content is there. -/
def opened (reader : JsonlItemReader ν α) (raw : String) (context : ExecutionContext) :
    LineReader :=
  { lines := splitLines raw
    index := readCheckpointNumber context reader.checkpointKey "index" 0 }

/-- The value of a line is `null`. -/
def isNull : JsonlItemReader ν α → String → Bool
  | .file options, line =>
      match options.parse line with
      | .ok none => true
      | _ => false
  | .s3 options, line =>
      match options.parse line with
      | .ok none => true
      | _ => false

/-- Nothing is made of the line. -/
def passes (reader : JsonlItemReader ν α) (line : String) : Bool :=
  decide (jsTrim line = "") || (reader.passesNull && reader.isNull line)

/-- The lines from `index` on that are not passed over, with what the next attempt at each comes
to. -/
def visitsFrom (reader : JsonlItemReader ν α) (counts : LineCounts) :
    List String → Int → List (Int × Feed.Answer Thrown α)
  | [], _ => []
  | line :: rest, index =>
      if reader.passes line then reader.visitsFrom counts rest (index + 1)
      else (index, (reader.mapLine line index counts).1) ::
        reader.visitsFrom counts rest (index + 1)

/-- Reads in front of the first line. -/
def visitsBefore : Nat → List (Int × Feed.Answer Thrown α)
  | 0 => []
  | n + 1 => (-(n + 1), .error LineReader.noLine) :: visitsBefore n

/-- What the reader has still to give. -/
def visits (reader : JsonlItemReader ν α) (counts : LineCounts) (lines : LineReader) :
    List (Int × Feed.Answer Thrown α) :=
  visitsBefore (-lines.index).toNat ++
    reader.visitsFrom counts (lines.lines.drop lines.index.toNat) lines.index.toNat

/-- The JSONL reader reads as the line reader with its own mapping. -/
theorem read_eq (reader : JsonlItemReader ν α) :
    reader.read = LineReader.read reader.mapLine reader.passesNull := by
  cases reader with
  | file options => rfl
  | s3 options => rfl

section Visits

variable {reader : JsonlItemReader ν α} {counts counts' : LineCounts} {line : String}
  {lines : List String} {index : Int}

/-- What comes of a line depends on the calls for that line only. -/
theorem mapLine_congr (reader : JsonlItemReader ν α) (line : String)
    (h : counts index = counts' index) :
    (reader.mapLine line index counts).1 = (reader.mapLine line index counts').1 := by
  cases reader with
  | file options => rfl
  | s3 options =>
      change (S3JsonlItemReader.mapLine options line index counts).1 =
        (S3JsonlItemReader.mapLine options line index counts').1
      unfold S3JsonlItemReader.mapLine
      cases options.parse line with
      | error err => rfl
      | ok parsed =>
          cases options.mapItem with
          | none => rfl
          | some mapItem => exact congrArg (mapItem parsed index) h

/-- Other lines are not called for. -/
theorem mapLine_counts (reader : JsonlItemReader ν α) (line : String) (counts : LineCounts)
    {i : Int} (h : i ≠ index) : (reader.mapLine line index counts).2 i = counts i := by
  cases reader with
  | file options => rfl
  | s3 options =>
      change (S3JsonlItemReader.mapLine options line index counts).2 i = counts i
      unfold S3JsonlItemReader.mapLine
      cases options.parse line with
      | error err => rfl
      | ok parsed =>
          cases options.mapItem with
          | none => rfl
          | some mapItem => exact Function.update_of_ne h _ _

/-- A reader that passes over `null` does so where the value of the line is `null`. -/
theorem mapLine_null (h : reader.passesNull = true) (line : String) (index : Int)
    (counts : LineCounts) :
    reader.isNull line = true ↔ (reader.mapLine line index counts).1 = .ok none := by
  cases reader with
  | s3 options => cases h
  | file options =>
      change (match options.parse line with | .ok none => true | _ => false) = true ↔
        options.parse line = .ok none
      rcases options.parse line with err | value
      · simp
      · cases value <;> simp

theorem visitsFrom_congr (h : ∀ i, index ≤ i → counts i = counts' i) :
    reader.visitsFrom counts lines index = reader.visitsFrom counts' lines index := by
  induction lines generalizing index with
  | nil => rfl
  | cons line rest ih =>
      have hrest : ∀ i, index + 1 ≤ i → counts i = counts' i := fun i hi => h i (by omega)
      unfold visitsFrom
      rw [ih hrest, mapLine_congr reader line (h index (Int.le_refl _))]

/-- A line that is passed over is no visit. -/
theorem visitsFrom_pass (h : reader.passes line = true) :
    reader.visitsFrom counts (line :: lines) index = reader.visitsFrom counts lines (index + 1) :=
  if_pos h

/-- A line that is not passed over is visited. -/
theorem visitsFrom_stop (h : ¬ reader.passes line = true) :
    reader.visitsFrom counts (line :: lines) index =
      (index, (reader.mapLine line index counts).1) :: reader.visitsFrom counts lines (index + 1) :=
  if_neg h

/-- What a read over the lines from `index` on does: it finds no visit to make and goes on to the
end, or answers with what comes of the first and stops right behind it, leaving the others. -/
def Takes (reader : JsonlItemReader ν α) (counts : LineCounts) (lines : List String) (index : Int)
    (out : Except Thrown (Option α) × Int × LineCounts) : Prop :=
  ∃ behind ahead, lines = behind ++ ahead ∧ out.2.1 = index + behind.length ∧
    ((reader.visitsFrom counts lines index = [] ∧ out.1 = .ok none ∧ ahead = []) ∨
      ∃ visit, reader.visitsFrom counts lines index =
          visit :: reader.visitsFrom out.2.2 ahead out.2.1 ∧
        out.1 = visit.2 ∧ out.2.1 = visit.1 + 1)

section Takes

variable {out : Except Thrown (Option α) × Int × LineCounts}

/-- Behind a line that is passed over; what was done about it is not looked at again. -/
theorem Takes.pass (hpasses : reader.passes line = true)
    (hcounts : ∀ i, index + 1 ≤ i → counts' i = counts i)
    (h : Takes reader counts' lines (index + 1) out) :
    Takes reader counts (line :: lines) index out := by
  obtain ⟨behind, ahead, rfl, hmoved, htaken⟩ := h
  refine ⟨line :: behind, ahead, rfl, ?_, ?_⟩
  · rw [hmoved, List.length_cons]
    omega
  · rw [visitsFrom_pass hpasses, ← visitsFrom_congr hcounts]
    exact htaken

/-- At a line that is not. -/
theorem Takes.stop {answer : Except Thrown (Option α)} (hstops : ¬ reader.passes line = true)
    (hmap : reader.mapLine line index counts = (answer, counts'))
    (hcounts : ∀ i, index + 1 ≤ i → counts' i = counts i) :
    Takes reader counts (line :: lines) index (answer, index + 1, counts') := by
  refine ⟨[line], lines, rfl, rfl, Or.inr ⟨(index, answer), ?_, rfl, rfl⟩⟩
  rw [visitsFrom_stop hstops, hmap]
  exact congrArg _ (visitsFrom_congr hcounts).symm

/-- **The loop of a read** takes the first visit. -/
theorem readFrom_takes (reader : JsonlItemReader ν α) (lines : List String) (index : Int)
    (counts : LineCounts) : Takes reader counts lines index
      (LineReader.readFrom reader.mapLine reader.passesNull lines index counts) := by
  induction lines generalizing index counts with
  | nil => exact ⟨[], [], rfl, (Int.add_zero index).symm, Or.inl ⟨rfl, rfl, rfl⟩⟩
  | cons line rest ih =>
      unfold LineReader.readFrom
      by_cases hblank : jsTrim line = ""
      · rw [if_pos hblank]
        exact Takes.pass (by simp [passes, hblank]) (fun _ _ => rfl) (ih (index + 1) counts)
      · rw [if_neg hblank]
        have hpasses : reader.passes line = true ↔
            reader.passesNull = true ∧ reader.isNull line = true := by
          simp [passes, hblank]
        have hcounts (i : Int) (hi : index + 1 ≤ i) :
            (reader.mapLine line index counts).2 i = counts i :=
          mapLine_counts reader line counts (by omega)
        cases hmap : reader.mapLine line index counts with
        | mk answer counts' =>
            rw [hmap] at hcounts
            have hnull (h : reader.passesNull = true) :
                reader.isNull line = true ↔ answer = .ok none := by
              have hline := mapLine_null h line index counts
              rw [hmap] at hline
              exact hline
            match answer with
            | .error err =>
                refine Takes.stop (fun h => ?_) hmap hcounts
                obtain ⟨hpass, hline⟩ := hpasses.mp h
                cases (hnull hpass).mp hline
            | .ok (some item) =>
                refine Takes.stop (fun h => ?_) hmap hcounts
                obtain ⟨hpass, hline⟩ := hpasses.mp h
                cases (hnull hpass).mp hline
            | .ok none =>
                by_cases hpass : reader.passesNull = true
                · have hline := hpasses.mpr ⟨hpass, (hnull hpass).mpr rfl⟩
                  dsimp only
                  rw [if_pos hpass]
                  exact Takes.pass hline hcounts (ih (index + 1) counts')
                · dsimp only
                  rw [if_neg hpass]
                  exact Takes.stop (fun h => hpass (hpasses.mp h).1) hmap hcounts

end Takes

/-- **A read takes the first visit**: it answers with what comes of it and moves right behind it;
without one it finds the end. -/
theorem read_visits (reader : JsonlItemReader ν α) (lines : LineReader) (counts : LineCounts) :
    (reader.visits counts lines = [] ∧ (reader.read lines counts).1 = .ok none ∧
      reader.visits (reader.read lines counts).2.2 (reader.read lines counts).2.1 = []) ∨
    ∃ visit, reader.visits counts lines =
        visit :: reader.visits (reader.read lines counts).2.2 (reader.read lines counts).2.1 ∧
      (reader.read lines counts).1 = visit.2 ∧
      (reader.read lines counts).2.1.index = visit.1 + 1 := by
  rw [read_eq]
  unfold LineReader.read visits
  by_cases hneg : lines.index < 0
  · rw [if_pos hneg]
    obtain ⟨n, hn⟩ : ∃ n : Nat, lines.index = -(n + 1) := ⟨(-lines.index).toNat - 1, by omega⟩
    have hbefore : (-lines.index).toNat = n + 1 := by omega
    have hnext : (-(lines.index + 1)).toNat = n := by omega
    have hfirst : lines.index.toNat = 0 ∧ (lines.index + 1).toNat = 0 := by omega
    refine Or.inr ⟨(lines.index, .error LineReader.noLine), ?_, rfl, rfl⟩
    dsimp only
    rw [hbefore, hnext, hfirst.1, hfirst.2, hn]
    rfl
  · rw [if_neg hneg]
    obtain ⟨n, hn⟩ : ∃ n : Nat, lines.index = n := ⟨lines.index.toNat, by omega⟩
    have hbefore : (-lines.index).toNat = 0 := by omega
    have htaken := readFrom_takes reader (lines.lines.drop lines.index.toNat) lines.index counts
    revert htaken
    rcases LineReader.readFrom reader.mapLine reader.passesNull
      (lines.lines.drop lines.index.toNat) lines.index counts with ⟨answer, index, counts'⟩
    intro h
    obtain ⟨behind, ahead, hlines, hmoved, htaken⟩ := h
    dsimp only at hmoved htaken ⊢
    have hindex : index = (n + behind.length : Nat) := by omega
    have hahead : lines.lines.drop index.toNat = ahead := by
      have hdrop : lines.lines.drop (n + behind.length) = (lines.lines.drop n).drop behind.length :=
        List.drop_drop.symm
      rw [hn, Int.toNat_natCast] at hlines
      rw [hindex, Int.toNat_natCast, hdrop, hlines, List.drop_left]
    have hsame : (index.toNat : Int) = index ∧ (lines.index.toNat : Int) = lines.index := by omega
    have hafter : (-index).toNat = 0 := by omega
    rw [hbefore, hafter, hahead, hsame.1, hsame.2]
    rcases htaken with ⟨hvisits, hanswer, hend⟩ | ⟨visit, hvisits, hanswer, hstop⟩
    · rw [hend]
      exact Or.inl ⟨hvisits, hanswer, rfl⟩
    · exact Or.inr ⟨visit, hvisits, hanswer, hstop⟩

/-! ### Which lines are visited -/

/-- A visit is at a line that is not passed over, with what the mapping makes of it. -/
theorem mem_visitsFrom {i : Int} {answer : Feed.Answer Thrown α} :
    (i, answer) ∈ reader.visitsFrom counts lines index ↔
      ∃ (k : Nat) (line : String), i = index + k ∧ lines[k]? = some line ∧
        ¬ reader.passes line = true ∧ answer = (reader.mapLine line i counts).1 := by
  induction lines generalizing index with
  | nil =>
      constructor
      · intro h
        cases h
      · intro hcase
        obtain ⟨k, line, -, hline, -⟩ := hcase
        cases hline
  | cons first rest ih =>
      -- the lines behind the first, counted from there
      have hrest : (i, answer) ∈ reader.visitsFrom counts rest (index + 1) ↔
          ∃ (k : Nat) (line : String), i = index + (k + 1 : Nat) ∧
            (first :: rest)[k + 1]? = some line ∧ ¬ reader.passes line = true ∧
            answer = (reader.mapLine line i counts).1 := by
        rw [ih]
        refine exists_congr fun k => exists_congr fun line => and_congr_left fun _ => ?_
        omega
      by_cases hpass : reader.passes first = true
      · rw [visitsFrom_pass hpass, hrest]
        constructor
        · intro hcase
          obtain ⟨k, line, h⟩ := hcase
          exact ⟨k + 1, line, h⟩
        · intro hcase
          obtain ⟨k, line, hk, hline, hstops, hanswer⟩ := hcase
          cases k with
          | zero =>
              cases hline
              exact absurd hpass hstops
          | succ k => exact ⟨k, line, hk, hline, hstops, hanswer⟩
      · rw [visitsFrom_stop hpass, List.mem_cons, hrest]
        constructor
        · intro heither
          rcases heither with hfirst | ⟨k, line, h⟩
          · cases hfirst
            exact ⟨0, first, (Int.add_zero i).symm, rfl, hpass, rfl⟩
          · exact ⟨k + 1, line, h⟩
        · intro hcase
          obtain ⟨k, line, hk, hline, hstops, hanswer⟩ := hcase
          cases k with
          | zero =>
              cases hline
              have hi : i = index := hk.trans (Int.add_zero index)
              subst hi
              exact Or.inl (congrArg _ hanswer)
          | succ k => exact Or.inr ⟨k, line, hk, hline, hstops, hanswer⟩

/-- An error before the first line is that there is no such line. -/
theorem visitsBefore_error {n : Nat} {i : Int} {answer : Feed.Answer Thrown α}
    (h : (i, answer) ∈ visitsBefore n) : i < 0 ∧ answer = .error LineReader.noLine := by
  induction n with
  | zero => cases h
  | succ n ih =>
      rcases List.mem_cons.mp h with hlast | hrest
      · cases hlast
        exact ⟨by omega, rfl⟩
      · exact ih hrest

/-- **Every line from the index on is visited** unless it is passed over. -/
theorem mem_visits {start : Int} {n : Nat} {answer : Feed.Answer Thrown α} :
    ((n : Int), answer) ∈ reader.visits counts { lines := lines, index := start } ↔
      start ≤ n ∧ ∃ line, lines[n]? = some line ∧ ¬ reader.passes line = true ∧
        answer = (reader.mapLine line n counts).1 := by
  unfold visits
  dsimp only
  rw [List.mem_append, mem_visitsFrom]
  constructor
  · intro hcase
    rcases hcase with hbefore | ⟨k, line, hk, hline, hstops, hanswer⟩
    · have hneg := (visitsBefore_error hbefore).1
      omega
    · rw [List.getElem?_drop] at hline
      have hn : n = start.toNat + k := by omega
      refine ⟨by omega, line, ?_, hstops, hanswer⟩
      rw [hn]
      exact hline
  · intro h
    obtain ⟨hstart, line, hline, hstops, hanswer⟩ := h
    have hn : n = start.toNat + (n - start.toNat) := by omega
    refine Or.inr ⟨n - start.toNat, line, by omega, ?_, hstops, hanswer⟩
    rw [List.getElem?_drop, ← hn]
    exact hline

/-- A reader that passes over `null` answers without an item at its end only. -/
theorem visits_ne_none (hnull : reader.passesNull = true) {start : LineReader}
    {visit : Int × Feed.Answer Thrown α} (h : visit ∈ reader.visits counts start) :
    visit.2 ≠ .ok none := by
  rcases List.mem_append.mp h with hbefore | hline
  · rw [(visitsBefore_error hbefore).2]
    exact fun heq => by cases heq
  · obtain ⟨k, line, -, -, hstops, hanswer⟩ := mem_visitsFrom.mp hline
    intro hnone
    refine hstops ?_
    have hline := (mapLine_null hnull line visit.1 counts).mpr (hanswer.symm.trans hnone)
    simp [passes, hnull, hline]

end Visits

end JsonlItemReader

end NestBatch
