import Mathlib.Data.List.TakeDrop
import NestBatch.Lib.JsMap

/-!
# Updates in several statements

Statements that are issued one after the other outside of a transaction commit
one by one: another session may read between any two of them, and when one
fails, those before it stay.  An update is all or nothing when neither shows.
It is so exactly when no statement but the last one changes anything.
-/

namespace Autocommit

variable {τ ρ κ υ : Type}

/-- How a call goes: what other sessions may read from its start to its end, what it leaves, and
whether it resolves. -/
structure Call (τ : Type) where
  observed : List τ
  left : τ
  resolved : Bool

/-- Issue the statements until the one at `failsAt` fails; none does if there are no more. -/
def issue : List (τ → τ) → Nat → τ → Call τ
  | [], _, s => ⟨[s], s, true⟩
  | _ :: _, 0, s => ⟨[s], s, false⟩
  | statement :: rest, failsAt + 1, s =>
      let call := issue rest failsAt (statement s)
      { call with observed := s :: call.observed }

/-- The statements one after the other. -/
def runAll (statements : List (τ → τ)) (s : τ) : τ := statements.foldl (fun s f => f s) s

/-- Wherever a statement fails, a reader finds what was there before or what is wanted, a call that
resolves leaves what is wanted, and one that rejects leaves what was there. -/
def AllOrNothing (read : τ → υ) (wanted : υ) (statements : List (τ → τ)) (s : τ) : Prop :=
  ∀ failsAt,
    (∀ t ∈ (issue statements failsAt s).observed, read t = read s ∨ read t = wanted) ∧
      read (issue statements failsAt s).left =
        if (issue statements failsAt s).resolved then wanted else read s

section Issue

variable {read : τ → υ} {wanted : υ} {statements : List (τ → τ)} {s : τ}

/-- A statement that fails leaves what the ones before it have made. -/
theorem issue_of_lt {n : Nat} (h : n < statements.length) :
    (issue statements n s).left = runAll (statements.take n) s ∧
      (issue statements n s).resolved = false := by
  induction statements generalizing n s with
  | nil => exact absurd h (Nat.not_lt_zero n)
  | cons f rest ih =>
      cases n with
      | zero => exact ⟨rfl, rfl⟩
      | succ n => exact ih (Nat.lt_of_succ_lt_succ h)

/-- Statements that are all carried out leave their own result. -/
theorem issue_of_le {n : Nat} (h : statements.length ≤ n) :
    (issue statements n s).left = runAll statements s ∧
      (issue statements n s).resolved = true := by
  induction statements generalizing n s with
  | nil => exact ⟨rfl, rfl⟩
  | cons f rest ih =>
      cases n with
      | zero => exact absurd h (Nat.not_succ_le_zero _)
      | succ n => exact ih (Nat.le_of_succ_le_succ h)

/-- What a reader finds is what some number of statements has made. -/
theorem observed_issue {n : Nat} {t : τ} (h : t ∈ (issue statements n s).observed) :
    ∃ i ≤ statements.length, t = runAll (statements.take i) s := by
  induction statements generalizing n s with
  | nil => exact ⟨0, Nat.le_refl 0, List.mem_singleton.mp h⟩
  | cons f rest ih =>
      cases n with
      | zero => exact ⟨0, Nat.zero_le _, List.mem_singleton.mp h⟩
      | succ n =>
          rcases List.mem_cons.mp h with rfl | hrest
          · exact ⟨0, Nat.zero_le _, rfl⟩
          · obtain ⟨i, hi, ht⟩ := ih hrest
            exact ⟨i + 1, Nat.succ_le_succ hi, ht⟩

/-- **When several statements are all or nothing**: none but the last one changes what is read, and
together they make what is wanted. -/
theorem allOrNothing_iff : AllOrNothing read wanted statements s ↔
    (∀ n < statements.length, read (runAll (statements.take n) s) = read s) ∧
      read (runAll statements s) = wanted := by
  constructor
  · intro h
    constructor
    · intro n hn
      obtain ⟨hleft, hrejected⟩ := issue_of_lt (s := s) hn
      have hread := (h n).2
      rwa [hleft, hrejected, if_neg Bool.false_ne_true] at hread
    · obtain ⟨hleft, hresolved⟩ := issue_of_le (s := s) (Nat.le_refl statements.length)
      have hread := (h statements.length).2
      rwa [hleft, hresolved, if_pos rfl] at hread
  · intro hcase n
    obtain ⟨hbefore, hall⟩ := hcase
    constructor
    · intro t ht
      obtain ⟨i, hi, rfl⟩ := observed_issue ht
      rcases Nat.lt_or_eq_of_le hi with hlt | rfl
      · exact Or.inl (hbefore i hlt)
      · rw [List.take_length]
        exact Or.inr hall
    · by_cases hn : n < statements.length
      · obtain ⟨hleft, hrejected⟩ := issue_of_lt (s := s) hn
        rw [hleft, hrejected, if_neg Bool.false_ne_true]
        exact hbefore n hn
      · obtain ⟨hleft, hresolved⟩ := issue_of_le (s := s) (Nat.le_of_not_lt hn)
        rw [hleft, hresolved, if_pos rfl]
        exact hall

/-- One statement is all or nothing if it makes what is wanted. -/
theorem allOrNothing_of_length_le (hlength : statements.length ≤ 1) :
    AllOrNothing read wanted statements s ↔ read (runAll statements s) = wanted := by
  rw [allOrNothing_iff]
  refine and_iff_right fun n hn => ?_
  obtain rfl : n = 0 := Nat.lt_one_iff.mp (Nat.lt_of_lt_of_le hn hlength)
  rfl

end Issue

/-! ### One row, column by column -/

section Columns

variable [DecidableEq κ]

/-- `UPDATE ... WHERE id`, if there is a row under the id. -/
def updateRow (id : κ) (f : ρ → ρ) (rows : JsMap κ ρ) : JsMap κ ρ :=
  match rows.get? id with
  | none => rows
  | some row => rows.set id (f row)

/-- Updating a row changes that row. -/
theorem get?_updateRow (id : κ) (f : ρ → ρ) (rows : JsMap κ ρ) :
    (updateRow id f rows).get? id = (rows.get? id).map f := by
  unfold updateRow
  cases hrow : rows.get? id with
  | none => exact hrow
  | some row => exact JsMap.get?_set_self rows id (f row)

/-- Updates of one row change it one after the other. -/
theorem get?_runAll (id : κ) (fs : List (ρ → ρ)) (rows : JsMap κ ρ) :
    (runAll (fs.map (updateRow id)) rows).get? id = (rows.get? id).map (runAll fs) := by
  induction fs generalizing rows with
  | nil => exact Option.map_id'.symm
  | cons f fs ih =>
      show (runAll (fs.map (updateRow id)) (updateRow id f rows)).get? id = _
      rw [ih, get?_updateRow, Option.map_map]
      rfl

variable {γ : Type} {assign : γ → ρ → ρ} {Has : γ → ρ → Prop} {view : ρ → υ}

theorem runAll_append (fs gs : List (τ → τ)) (s : τ) :
    runAll (fs ++ gs) s = runAll gs (runAll fs s) := List.foldl_append

/-- A column that is set only if there is a value for it. -/
theorem runAll_optional {α : Type} (assign : γ → ρ → ρ) (column : α → γ) (get : ρ → α)
    (hget : ∀ row, assign (column (get row)) row = row) (value : Option α) (row : ρ) :
    runAll ((value.map column).toList.map assign) row =
      assign (column (value.getD (get row))) row := by
  cases value with
  | none => exact (hget row).symm
  | some v => rfl

/-- The row looks the same before the last statement exactly when each column before that one has
its value already. -/
theorem unchanged_iff (hself : ∀ c row, Has c row → assign c row = row)
    (hseen : ∀ c row, view (assign c row) = view row → Has c row) (columns : List γ) (row : ρ) :
    (∀ n < columns.length, view (runAll ((columns.map assign).take n) row) = view row) ↔
      ∀ c ∈ columns.dropLast, Has c row := by
  induction columns with
  | nil =>
      exact iff_of_true (fun n hn => absurd hn (Nat.not_lt_zero n))
        fun c hc => absurd hc List.not_mem_nil
  | cons c rest ih =>
      cases rest with
      | nil =>
          refine iff_of_true (fun n hn => ?_) fun d hd => absurd hd List.not_mem_nil
          obtain rfl : n = 0 := Nat.lt_one_iff.mp hn
          rfl
      | cons d rest =>
          rw [List.dropLast_cons_cons, List.forall_mem_cons, ← ih]
          constructor
          · intro h
            have hc := hseen c row (h 1 (Nat.succ_lt_succ (Nat.succ_pos _)))
            refine ⟨hc, fun n hn => ?_⟩
            have hnext := h (n + 1) (Nat.succ_lt_succ hn)
            rw [List.map_cons, List.take_succ_cons] at hnext
            rwa [runAll, List.foldl_cons, hself c row hc] at hnext
          · intro hcase n hn
            obtain ⟨hc, h⟩ := hcase
            cases n with
            | zero => rfl
            | succ n =>
                rw [List.map_cons, List.take_succ_cons, runAll, List.foldl_cons, hself c row hc]
                exact h n (Nat.lt_of_succ_lt_succ hn)

/-- **When a row that is written column by column is all or nothing**: every column before the
last one has its value already, and the columns together make what is wanted. -/
theorem allOrNothing_columns_iff (view : ρ → υ) (hself : ∀ c row, Has c row → assign c row = row)
    (hseen : ∀ c row, view (assign c row) = view row → Has c row) (id : κ) (columns : List γ)
    (wanted : ρ → υ) (rows : JsMap κ ρ) :
    AllOrNothing (fun rows => (rows.get? id).map view) ((rows.get? id).map wanted)
        (columns.map fun c => updateRow id (assign c)) rows ↔
      ∀ row ∈ rows.get? id, view (runAll (columns.map assign) row) = wanted row ∧
        ∀ c ∈ columns.dropLast, Has c row := by
  have hstatements : columns.map (fun c => updateRow id (assign c)) =
      (columns.map assign).map (updateRow id) := by
    rw [List.map_map]
    rfl
  rw [allOrNothing_iff, hstatements, get?_runAll]
  simp only [← List.map_take, get?_runAll, List.length_map]
  cases hrow : rows.get? id with
  | none =>
      refine iff_of_true ⟨fun _ _ => rfl, rfl⟩ fun row hrow => ?_
      cases hrow
  | some row =>
      have hbefore := unchanged_iff hself hseen columns row
      simp only [List.map_take] at hbefore ⊢
      simp only [Option.map_some, Option.some_inj, Option.mem_def, forall_eq']
      rw [and_comm, hbefore]

/-- All columns in one statement, and none at all if there are no columns. -/
def together (id : κ) (fs : List (ρ → ρ)) : List (JsMap κ ρ → JsMap κ ρ) :=
  if fs.isEmpty then [] else [updateRow id (runAll fs)]

/-- One statement for all updates is all or nothing exactly when it does what is wanted. -/
theorem allOrNothing_together_iff (view : ρ → υ) (id : κ) (fs : List (ρ → ρ)) (wanted : ρ → υ)
    (rows : JsMap κ ρ) :
    AllOrNothing (fun rows => (rows.get? id).map view) ((rows.get? id).map wanted)
        (together id fs) rows ↔
      ∀ row ∈ rows.get? id, view (runAll fs row) = wanted row := by
  have hlength : (together id fs).length ≤ 1 := by
    unfold together
    split <;> simp
  have hread : (runAll (together id fs) rows).get? id = (rows.get? id).map (runAll fs) := by
    cases fs with
    | nil => exact Option.map_id'.symm
    | cons f fs => exact get?_updateRow id (runAll (f :: fs)) rows
  rw [allOrNothing_of_length_le hlength, hread]
  cases rows.get? id with
  | none => simp
  | some row => simp

end Columns

/-! ### Rows that know their ids -/

section Filed

variable [DecidableEq κ] {key : ρ → κ} {rows : JsMap κ ρ}

/-- Every row is filed under its own id. -/
def FiledBy (key : ρ → κ) (rows : JsMap κ ρ) : Prop :=
  ∀ id row, rows.get? id = some row → key row = id

/-- An empty table is filed. -/
theorem FiledBy.empty : FiledBy key (.empty : JsMap κ ρ) := by
  intro id row hrow
  cases hrow

/-- A row is filed under its own key. -/
theorem FiledBy.set (h : FiledBy key rows) {id : κ} {row : ρ} (hkey : key row = id) :
    FiledBy key (rows.set id row) := by
  intro id' row' hget
  rw [JsMap.get?_set] at hget
  split at hget
  · next heq =>
      cases hget
      exact hkey.trans heq.symm
  · exact h id' row' hget

/-- An `UPDATE` that leaves the ids alone keeps the rows filed. -/
theorem FiledBy.updateRow (h : FiledBy key rows) {f : ρ → ρ} (hf : ∀ row, key (f row) = key row)
    (id : κ) : FiledBy key (updateRow id f rows) := by
  unfold Autocommit.updateRow
  cases hrow : rows.get? id with
  | none => exact h
  | some row => exact h.set ((hf row).trans (h id row hrow))

/-- Two rows with one id are one row. -/
theorem FiledBy.unique (h : FiledBy key rows) {a b : ρ} (ha : a ∈ rows.values)
    (hb : b ∈ rows.values) (hkey : key a = key b) : a = b := by
  obtain ⟨i, hi⟩ := (JsMap.mem_values_iff _ _).mp ha
  obtain ⟨j, hj⟩ := (JsMap.mem_values_iff _ _).mp hb
  rw [← h i a hi, hkey] at hi
  rw [← h j b hj, hi] at hj
  exact Option.some.inj hj

/-- **The row under an id is the row with that id.** -/
theorem FiledBy.values_updateRow (h : FiledBy key rows) (id : κ) (f : ρ → ρ) :
    (Autocommit.updateRow id f rows).values =
      rows.values.map fun row => if key row = id then f row else row := by
  have hentry {e : κ × ρ} (he : e ∈ rows.entries) : rows.get? e.1 = some e.2 :=
    (rows.get?_eq_some_iff e.1 e.2).mpr he
  unfold Autocommit.updateRow JsMap.values
  rw [List.map_map]
  cases hrow : rows.get? id with
  | none =>
      refine List.map_congr_left fun e he => ?_
      have hne : key e.2 ≠ id := by
        intro hkey
        rw [← hkey, h e.1 e.2 (hentry he), hentry he] at hrow
        cases hrow
      exact (if_neg hne).symm
  | some row =>
      dsimp only
      rw [JsMap.entries_set_of_some rows (f row) (Option.isSome_iff_exists.mpr ⟨row, hrow⟩),
        List.map_map]
      refine List.map_congr_left fun e he => ?_
      have hkey : key e.2 = e.1 := h e.1 e.2 (hentry he)
      by_cases hid : e.1 = id
      · have hsame : e.2 = row := by
          have hget := hentry he
          rw [hid, hrow] at hget
          exact (Option.some.inj hget).symm
        have hown : key row = id := by rw [← hsame, hkey, hid]
        simp only [Function.comp_apply, if_pos hid, hsame, if_pos hown]
      · simp only [Function.comp_apply, if_neg hid, hkey]

end Filed

end Autocommit
