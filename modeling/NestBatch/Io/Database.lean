import NestBatch.Core.Ir
import NestBatch.Io.ContextJson
import NestBatch.Lib.Paged

/-!
# Readers of tables

`DatabasePagingItemReader` fetches pages by their offset, `DatabaseCursorItemReader` those behind
the cursor of the last row.  Both hand out the rows of a page one by one; only the offset or the
cursor is saved, so a reader that is opened again cuts its pages elsewhere.
-/

namespace NestBatch

variable {α : Type}

structure DatabasePagingItemReaderOptions (α : Type) where
  pageSize : Nat
  checkpointKey : Option String := none
  /-- of the offset and the limit -/
  fetchPage : Int → Nat → Except Thrown (List α)

/-- Its place is `offset`. -/
abbrev DatabasePagingItemReader (α : Type) := Paged.Buffered Int α

namespace DatabasePagingItemReader

variable (options : DatabasePagingItemReaderOptions α)

def checkpointKey : String := options.checkpointKey.getD "database-paging-reader"

def open_ (context : ExecutionContext) : DatabasePagingItemReader α :=
  { place := readCheckpointNumber context (checkpointKey options) "offset" 0 }

/-- `this.offset += 1`. -/
def passRow (offset : Int) (_ : α) : Int := offset + 1

def read : DatabasePagingItemReader α → Except Thrown (Option α) × DatabasePagingItemReader α :=
  Paged.read (fun offset => options.fetchPage offset options.pageSize) passRow

def update (reader : DatabasePagingItemReader α) (context : ExecutionContext) : ExecutionContext :=
  writeCheckpoint context (checkpointKey options) [("offset", .num reader.place)]

end DatabasePagingItemReader

structure DatabaseCursorItemReaderOptions (α : Type) where
  pageSize : Nat
  checkpointKey : Option String := none
  initialCursor : Option JsonValue := none
  /-- of the cursor and the limit -/
  fetchAfter : JsonValue → Nat → Except Thrown (List α)
  getCursor : α → JsonValue

/-- Its place is `cursor`. -/
abbrev DatabaseCursorItemReader (α : Type) := Paged.Buffered JsonValue α

namespace DatabaseCursorItemReader

variable (options : DatabaseCursorItemReaderOptions α)

def checkpointKey : String := options.checkpointKey.getD "database-cursor-reader"

def open_ (context : ExecutionContext) : DatabaseCursorItemReader α :=
  { place := readCheckpointValue context (checkpointKey options) "cursor"
      (options.initialCursor.getD .null) }

/-- `this.cursor = this.options.getCursor(item)`. -/
def passRow (_ : JsonValue) (item : α) : JsonValue := options.getCursor item

def read : DatabaseCursorItemReader α → Except Thrown (Option α) × DatabaseCursorItemReader α :=
  Paged.read (fun cursor => options.fetchAfter cursor options.pageSize) (passRow options)

def update (reader : DatabaseCursorItemReader α) (context : ExecutionContext) : ExecutionContext :=
  writeCheckpoint context (checkpointKey options) [("cursor", reader.place)]

end DatabaseCursorItemReader

/-! ### Tables -/

/-- A reader of the pages of a fixed list. -/
structure PagedTable (α : Type) where
  options : DatabasePagingItemReaderOptions α
  rows : List α
  pageSize_pos : 1 ≤ options.pageSize
  slice : ∀ offset : Nat, options.fetchPage offset options.pageSize =
    .ok ((rows.drop offset).take options.pageSize)

/-- The rows that are ahead of an offset. -/
def PagedTable.rest (table : PagedTable α) (offset : Int) : List α := table.rows.drop offset.toNat

/-- A paging reader gives the pages of its table. -/
theorem PagedTable.pages (table : PagedTable α) :
    Paged.Pages (fun offset => table.options.fetchPage offset table.options.pageSize)
      DatabasePagingItemReader.passRow table.rest (0 ≤ ·) where
  fetched offset hoffset := by
    have hpage := table.slice offset.toNat
    rw [Int.toNat_of_nonneg hoffset] at hpage
    refine ⟨_, hpage, List.take_prefix _ _, fun hnil => ?_⟩
    have hpos := table.pageSize_pos
    exact (List.take_eq_nil_iff.mp hnil).resolve_left (by omega)
  advanced offset item more hoffset hrest := by
    have hnext : (offset + 1).toNat = offset.toNat + 1 := by omega
    refine ⟨Int.le_add_one hoffset, ?_⟩
    unfold rest DatabasePagingItemReader.passRow at *
    rw [hnext, ← List.tail_drop, hrest, List.tail_cons]

/-- A reader of the rows behind a cursor in a fixed list, which a strict order of the cursors
sorts. -/
structure CursorTable (α : Type) where
  options : DatabaseCursorItemReaderOptions α
  rows : List α
  precedes : JsonValue → JsonValue → Bool
  irrefl : ∀ cursor, ¬ precedes cursor cursor
  trans : ∀ {a b c}, precedes a b → precedes b c → precedes a c
  sorted : rows.Pairwise fun r s => precedes (options.getCursor r) (options.getCursor s)
  /-- Up to so many of the rows behind the cursor, and some if there are any. -/
  fetched : ∀ cursor, ∃ page, options.fetchAfter cursor options.pageSize = .ok page ∧
    page <+: rows.filter (fun row => precedes cursor (options.getCursor row)) ∧
    page.length ≤ options.pageSize ∧
    (page = [] → options.pageSize = 0 ∨
      rows.filter (fun row => precedes cursor (options.getCursor row)) = [])
  keyedInitial : (options.initialCursor.getD .null).WellKeyed
  keyed : ∀ row, (options.getCursor row).WellKeyed

namespace CursorTable

variable (table : CursorTable α)

/-- The rows behind a cursor. -/
def behind (cursor : JsonValue) : List α :=
  table.rows.filter fun row => table.precedes cursor (table.options.getCursor row)

/-- What is read of them. -/
def rest (cursor : JsonValue) : List α :=
  if table.options.pageSize = 0 then [] else table.behind cursor

/-- Behind the first of them come the others. -/
theorem behind_getCursor {cursor : JsonValue} {item : α} {more : List α}
    (h : table.behind cursor = item :: more) :
    table.behind (table.options.getCursor item) = more := by
  obtain ⟨before, after, hrows, -, hitem, hmore⟩ := List.filter_eq_cons_iff.mp h
  have hsorted := table.sorted
  rw [hrows, List.pairwise_append, List.pairwise_cons] at hsorted
  obtain ⟨-, ⟨hafter, -⟩, hbefore⟩ := hsorted
  have hall : after.filter (fun row => table.precedes cursor (table.options.getCursor row)) =
      after := List.filter_eq_self.mpr fun row hrow => table.trans hitem (hafter row hrow)
  have hnone : before.filter (fun row => table.precedes (table.options.getCursor item)
      (table.options.getCursor row)) = [] := by
    refine List.filter_eq_nil_iff.mpr fun row hrow hlt => ?_
    exact table.irrefl _ (table.trans hlt (hbefore row hrow item List.mem_cons_self))
  unfold behind
  rw [hrows, List.filter_append, hnone, List.nil_append, List.filter_cons,
    if_neg (table.irrefl _), List.filter_eq_self.mpr hafter, ← hmore, hall]

/-- A cursor reader gives the pages of its table. -/
theorem pages : Paged.Pages (fun cursor => table.options.fetchAfter cursor table.options.pageSize)
    (DatabaseCursorItemReader.passRow table.options) table.rest JsonValue.WellKeyed where
  fetched cursor _ := by
    obtain ⟨page, hpage, hprefix, hlength, hempty⟩ := table.fetched cursor
    refine ⟨page, hpage, ?_, ?_⟩
    · unfold rest
      split
      · next hzero =>
          rw [hzero] at hlength
          have hnil := List.eq_nil_of_length_eq_zero (Nat.le_zero.mp hlength)
          exact hnil ▸ List.nil_prefix
      · exact hprefix
    · intro hnil
      unfold rest
      split
      · rfl
      · next hpos => exact (hempty hnil).resolve_left hpos
  advanced cursor item more _ hrest := by
    refine ⟨table.keyed item, ?_⟩
    unfold rest at hrest ⊢
    split at hrest
    · cases hrest
    · next hpos =>
        rw [if_neg hpos]
        exact table.behind_getCursor hrest

end CursorTable

end NestBatch
