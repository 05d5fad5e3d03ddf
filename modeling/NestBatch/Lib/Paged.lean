import Mathlib.Data.List.Basic
import NestBatch.Lib.Resume

/-!
# Reading page by page

A reader keeps a place in a list and a page of what comes there; at the end of the page it fetches
the next one.  Where the pages have the rows ahead of their place, the reader answers with these
rows, whatever it has in its buffer.
-/

namespace Paged

open Resume

variable {π α ε : Type}

structure Buffered (π α : Type) where
  place : π
  buffer : List α := []
  bufferIndex : Nat := 0

/-- The next row of the buffer. -/
def take (advance : π → α → π) (reader : Buffered π α) : Except ε (Option α) × Buffered π α :=
  match reader.buffer[reader.bufferIndex]? with
  | some item =>
      (.ok (some item), { reader with
        place := advance reader.place item, bufferIndex := reader.bufferIndex + 1 })
  | none => (.ok none, reader)

/-- A read fetches a page where the last one is used up. -/
def read (fetch : π → Except ε (List α)) (advance : π → α → π) (reader : Buffered π α) :
    Except ε (Option α) × Buffered π α :=
  if reader.bufferIndex < reader.buffer.length then take advance reader
  else
    match fetch reader.place with
    | .error err => (.error err, reader)
    | .ok page => take advance { reader with buffer := page, bufferIndex := 0 }

/-- A read from the rows that are ahead of a place. -/
def next (advance : π → α → π) (rest : π → List α) (place : π) : Except ε (Option α) × π :=
  (.ok (rest place).head?, (rest place).head?.elim place (advance place))

/-- At the places of `Ok` a page has some of the rows ahead, and a row is passed by its own. -/
structure Pages (fetch : π → Except ε (List α)) (advance : π → α → π) (rest : π → List α)
    (Ok : π → Prop) : Prop where
  fetched : ∀ p, Ok p → ∃ page, fetch p = .ok page ∧ page <+: rest p ∧ (page = [] → rest p = [])
  advanced : ∀ p item more, Ok p → rest p = item :: more →
    Ok (advance p item) ∧ rest (advance p item) = more

/-- What is left of the buffer comes next. -/
structure Ahead (rest : π → List α) (Ok : π → Prop) (reader : Buffered π α) : Prop where
  ok : Ok reader.place
  ahead : reader.buffer.drop reader.bufferIndex <+: rest reader.place

variable {fetch : π → Except ε (List α)} {advance : π → α → π} {rest : π → List α}
  {Ok : π → Prop}

/-- Taking a row from the buffer. -/
theorem Pages.take (h : Pages fetch advance rest Ok) {reader : Buffered π α}
    (hreader : Ahead rest Ok reader)
    (hempty : reader.buffer.drop reader.bufferIndex = [] → rest reader.place = []) :
    Ahead rest Ok (take advance reader : Except ε (Option α) × _).2 ∧
      (take advance reader : Except ε (Option α) × _).1 = (next advance rest reader.place).1 ∧
      (take advance reader : Except ε (Option α) × _).2.place =
        (next (ε := ε) advance rest reader.place).2 := by
  unfold Paged.take next
  cases hitem : reader.buffer[reader.bufferIndex]? with
  | none =>
      have hnone := hempty (List.drop_eq_nil_of_le (List.getElem?_eq_none_iff.mp hitem))
      rw [hnone]
      exact ⟨hreader, rfl, rfl⟩
  | some item =>
      have hlt := (List.getElem?_eq_some_iff.mp hitem).1
      have hcons : reader.buffer.drop reader.bufferIndex =
          item :: reader.buffer.drop (reader.bufferIndex + 1) := by
        rw [List.drop_eq_getElem_cons hlt, (List.getElem?_eq_some_iff.mp hitem).2]
      obtain ⟨more, hmore⟩ := hreader.ahead
      rw [hcons, List.cons_append] at hmore
      obtain ⟨hok, hrest⟩ := h.advanced reader.place item _ hreader.ok hmore.symm
      rw [← hmore]
      refine ⟨⟨hok, ?_⟩, rfl, rfl⟩
      dsimp only
      rw [hrest]
      exact List.prefix_append _ _

/-- **A reader of pages answers with the rows that are ahead of its place.** -/
theorem Pages.placed (h : Pages fetch advance rest Ok) :
    Placed (read fetch advance) (next advance rest) Buffered.place (Ahead rest Ok) := by
  have hread (reader : Buffered π α) (hreader : Ahead rest Ok reader) :
      Ahead rest Ok (read fetch advance reader).2 ∧
        (read fetch advance reader).1 = (next advance rest reader.place).1 ∧
        (read fetch advance reader).2.place = (next (ε := ε) advance rest reader.place).2 := by
    unfold read
    by_cases hlt : reader.bufferIndex < reader.buffer.length
    · rw [if_pos hlt]
      refine h.take hreader fun hnil => ?_
      have hle := List.drop_eq_nil_iff.mp hnil
      omega
    · obtain ⟨page, hpage, hprefix, hempty⟩ := h.fetched reader.place hreader.ok
      rw [if_neg hlt, hpage]
      exact @Pages.take _ _ _ _ _ _ _ h { reader with buffer := page, bufferIndex := 0 }
        ⟨hreader.ok, hprefix⟩ hempty
  exact ⟨fun s hs => (hread s hs).1, fun s hs => (hread s hs).2.1, fun s hs => (hread s hs).2.2⟩

end Paged
