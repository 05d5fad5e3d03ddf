import Mathlib.Data.List.Basic

/-!
# Tables under READ COMMITTED

A table holds the rows of all transactions: a row is committed, or written by a
transaction that is still open.  A statement of a transaction sees the committed
rows and its own.  A row lock belongs to the transaction that took it until that
one ends.

An insert that meets the unique key of a row another open transaction has
written waits, and `FOR UPDATE SKIP LOCKED` passes over the rows that another
open transaction has locked.
-/

namespace Sql

variable {τ ρ κ : Type}

/-- A row and the open transaction that wrote it, if that one is still open. -/
structure Version (τ ρ : Type) where
  row : ρ
  writer : Option τ
  deriving DecidableEq

/-- The versions of a table, oldest first. -/
abbrev Table (τ ρ : Type) := List (Version τ ρ)

namespace Table

/-- A table that no open transaction has written to. -/
def ofRows (rows : List ρ) : Table τ ρ := rows.map fun row => { row := row, writer := none }

/-- What every later transaction sees. -/
def committed (table : Table τ ρ) : List ρ :=
  (table.filter fun v => v.writer.isNone).map (·.row)

/-- A row of `t`. -/
def insert (table : Table τ ρ) (t : τ) (row : ρ) : Table τ ρ :=
  table ++ [{ row := row, writer := some t }]

variable [DecidableEq τ]

/-- What a statement of `t` sees. -/
def visible (table : Table τ ρ) (t : τ) : List ρ :=
  (table.filter fun v => v.writer = none || v.writer = some t).map (·.row)

/-- The rows of `t` become everyone's. -/
def commit (table : Table τ ρ) (t : τ) : Table τ ρ :=
  table.map fun v => if v.writer = some t then { v with writer := none } else v

/-- The rows of `t` are gone. -/
def rollback (table : Table τ ρ) (t : τ) : Table τ ρ :=
  table.filter fun v => v.writer ≠ some t

/-- Another open transaction has written a row with the key. -/
def Contended (table : Table τ ρ) (t : τ) (key : ρ → Bool) : Prop :=
  ∃ v ∈ table, key v.row ∧ ∃ u, v.writer = some u ∧ u ≠ t

omit [DecidableEq τ] in
/-- A row is committed when no writer is named beside it. -/
theorem mem_committed {table : Table τ ρ} {row : ρ} :
    row ∈ table.committed ↔ (⟨row, none⟩ : Version τ ρ) ∈ table := by
  simp only [committed, List.mem_map, List.mem_filter, Option.isNone_iff_eq_none]
  constructor
  · intro ⟨v, ⟨hv, hnone⟩, hrow⟩
    rw [← hrow, ← hnone]
    exact hv
  · intro h
    exact ⟨_, ⟨h, rfl⟩, rfl⟩

/-- A transaction sees the committed rows and its own. -/
theorem mem_visible {table : Table τ ρ} {t : τ} {row : ρ} :
    row ∈ table.visible t ↔
      (⟨row, none⟩ : Version τ ρ) ∈ table ∨ (⟨row, some t⟩ : Version τ ρ) ∈ table := by
  simp only [visible, List.mem_map, List.mem_filter, Bool.or_eq_true, decide_eq_true_eq]
  constructor
  · intro ⟨v, ⟨hv, hw⟩, hrow⟩
    rcases hw with hw | hw
    · left; rw [← hrow, ← hw]; exact hv
    · right; rw [← hrow, ← hw]; exact hv
  · intro h
    rcases h with h | h
    · exact ⟨_, ⟨h, Or.inl rfl⟩, rfl⟩
    · exact ⟨_, ⟨h, Or.inr rfl⟩, rfl⟩

omit [DecidableEq τ] in
/-- An inserted row is there beside the others. -/
theorem mem_insert {table : Table τ ρ} {t : τ} {row : ρ} {v : Version τ ρ} :
    v ∈ table.insert t row ↔ v ∈ table ∨ v = ⟨row, some t⟩ := by
  simp [insert]

/-- A version after a commit is one from before it, with its writer gone if that was `t`. -/
theorem mem_commit {table : Table τ ρ} {t : τ} {v : Version τ ρ} :
    v ∈ table.commit t ↔
      (v ∈ table ∧ v.writer ≠ some t) ∨
        (v.writer = none ∧ (⟨v.row, some t⟩ : Version τ ρ) ∈ table) := by
  simp only [commit, List.mem_map]
  constructor
  · intro ⟨w, hw, hwv⟩
    by_cases ht : w.writer = some t
    · rw [if_pos ht] at hwv
      rw [← hwv, ← ht]
      exact Or.inr ⟨rfl, hw⟩
    · rw [if_neg ht] at hwv
      rw [← hwv]
      exact Or.inl ⟨hw, ht⟩
  · intro h
    rcases h with ⟨hv, ht⟩ | ⟨hnone, hv⟩
    · exact ⟨v, hv, by rw [if_neg ht]⟩
    · refine ⟨_, hv, ?_⟩
      rw [if_pos rfl]
      cases v
      simp_all

/-- A rollback takes the rows of its transaction. -/
theorem mem_rollback {table : Table τ ρ} {t : τ} {v : Version τ ρ} :
    v ∈ table.rollback t ↔ v ∈ table ∧ v.writer ≠ some t := by
  simp [rollback]

section Append

variable (rows : List ρ) (a b : Table τ ρ) (t : τ)

omit [DecidableEq τ] in
@[simp] theorem committed_append : committed (a ++ b) = committed a ++ committed b := by
  simp [committed]

omit [DecidableEq τ] in
@[simp] theorem committed_ofRows : committed (ofRows rows : Table τ ρ) = rows := by
  induction rows with
  | nil => rfl
  | cons row rows ih =>
      simp only [committed, ofRows, List.map_cons] at ih ⊢
      simp [ih]

@[simp] theorem visible_append : visible (a ++ b) t = visible a t ++ visible b t := by
  simp [visible]

@[simp] theorem visible_ofRows : visible (ofRows rows) t = rows := by
  induction rows with
  | nil => rfl
  | cons row rows ih =>
      simp only [visible, ofRows, List.map_cons] at ih ⊢
      simp [ih]

@[simp] theorem commit_append : commit (a ++ b) t = commit a t ++ commit b t := by
  simp [commit]

@[simp] theorem commit_ofRows : commit (ofRows rows) t = ofRows rows := by
  simp [commit, ofRows]

@[simp] theorem rollback_append : rollback (a ++ b) t = rollback a t ++ rollback b t := by
  simp [rollback]

@[simp] theorem rollback_ofRows : rollback (ofRows rows) t = ofRows rows := by
  simp [rollback, ofRows, List.filter_map, Function.comp_def]

omit [DecidableEq τ] in
/-- The row of a transaction that is still open. -/
@[simp] theorem committed_singleton (row : ρ) :
    committed [({ row := row, writer := some t } : Version τ ρ)] = [] := rfl

theorem visible_singleton (row : ρ) {u : τ} (hne : u ≠ t) :
    visible [({ row := row, writer := some u } : Version τ ρ)] t = [] := by
  simp [visible, hne]

theorem rollback_singleton (row : ρ) {u : τ} (hne : u ≠ t) :
    rollback [({ row := row, writer := some u } : Version τ ρ)] t = [⟨row, some u⟩] := by
  simp [rollback, hne]

end Append

end Table

/-- The transaction that holds the lock of a row, by the row's key. -/
abbrev Locks (κ τ : Type) := κ → Option τ

namespace Locks

variable [DecidableEq κ] [DecidableEq τ]

/-- `t` locks the rows of `keys`. -/
def take (locks : Locks κ τ) (t : τ) (keys : List κ) : Locks κ τ :=
  fun key => if key ∈ keys then some t else locks key

/-- The end of `t` gives its locks back. -/
def release (locks : Locks κ τ) (t : τ) : Locks κ τ :=
  fun key => if locks key = some t then none else locks key

/-- Nobody but `t` has locked the row. -/
def grants (locks : Locks κ τ) (t : τ) (key : κ) : Bool :=
  locks key = none || locks key = some t

omit [DecidableEq κ] in
theorem release_eq_some {locks : Locks κ τ} {t u : τ} {key : κ} :
    locks.release t key = some u ↔ locks key = some u ∧ u ≠ t := by
  unfold release
  by_cases h : locks key = some t
  · rw [if_pos h, h]
    constructor
    · intro hnone; cases hnone
    · intro ⟨hu, hne⟩
      exact absurd (Option.some.inj hu).symm hne
  · rw [if_neg h]
    constructor
    · intro hu
      refine ⟨hu, ?_⟩
      intro heq
      exact h (heq ▸ hu)
    · intro hu; exact hu.1

omit [DecidableEq κ] in
/-- A lock that is not granted is held by another. -/
theorem not_grants {locks : Locks κ τ} {t : τ} {key : κ} (h : ¬ locks.grants t key = true) :
    ∃ u, locks key = some u ∧ u ≠ t := by
  simp only [grants, Bool.or_eq_true, decide_eq_true_eq, not_or] at h
  cases hu : locks key with
  | none => exact absurd hu h.1
  | some u =>
      refine ⟨u, rfl, ?_⟩
      intro heq
      exact h.2 (by rw [hu, heq])

end Locks

end Sql
