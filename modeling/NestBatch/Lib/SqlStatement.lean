import Mathlib.Data.List.Forall2
import Mathlib.Data.List.Perm.Basic
import Mathlib.Order.Basic

/-!
# Statements with numbered placeholders

A driver is handed a statement that names its values by number, `$1` for the first,
and the list of the values apart from it.  Code that puts such a statement together
piece by piece has to keep the numbers and the list in step; `Draft.add` does, and
`Means` says what the statement comes to.

Comparisons have three outcomes: with `NULL` nothing is true and nothing false, and
`WHERE` keeps the rows of which the whole condition is true.
-/

namespace SqlStatement

variable {π ν κ ρ : Type}

/-! ### Placeholders -/

/-- A statement in the making: its pieces, each with the numbers of its placeholders, the values,
and the number of the next placeholder. -/
structure Draft (π ν : Type) where
  pieces : List (π × List Nat) := []
  values : List ν := []
  next : Nat := 1
  deriving DecidableEq, Repr

namespace Draft

/-- A further piece, with placeholders for its values. -/
def add (d : Draft π ν) (piece : π) (values : List ν) : Draft π ν :=
  { pieces := d.pieces ++ [(piece, List.range' d.next values.length)]
    values := d.values ++ values
    next := d.next + values.length }

/-- A piece that is there only with its values. -/
def addIf (d : Draft π ν) (piece : π) : Option (List ν) → Draft π ν
  | none => d
  | some values => d.add piece values

/-- Every value has a placeholder. -/
def AllNamed (d : Draft π ν) : Prop :=
  ∀ n ∈ List.range' 1 d.values.length, n ∈ d.pieces.flatMap (·.2)

instance (d : Draft π ν) : Decidable d.AllNamed := by unfold AllNamed; infer_instance

end Draft

/-- The value of the placeholder `$n`. -/
def valueAt (values : List ν) : Nat → Option ν
  | 0 => none
  | n + 1 => values[n]?

/-- A piece with its values in the place of their numbers. -/
def bindPiece (values : List ν) (piece : π × List Nat) : Option (π × List ν) :=
  (piece.2.mapM (valueAt values)).map fun vs => (piece.1, vs)

/-- What the database makes of a statement; it rejects one whose numbers do not fit the values. -/
def Draft.bind (d : Draft π ν) : Option (List (π × List ν)) :=
  if d.AllNamed then d.pieces.mapM (bindPiece d.values) else none

section Binding

variable {values : List ν} {d : Draft π ν} {bound : List (π × List ν)}

/-- A traversal that succeeds succeeds alike under a function that answers more. -/
theorem mapM_mono {α β : Type} {f g : α → Option β} (hfg : ∀ a b, f a = some b → g a = some b)
    {l : List α} {l' : List β} (h : l.mapM f = some l') : l.mapM g = some l' := by
  induction l generalizing l' with
  | nil => exact h
  | cons a l ih =>
      rw [List.mapM_cons] at h ⊢
      obtain ⟨b, hb, hrest⟩ := Option.bind_eq_some_iff.mp h
      obtain ⟨bs, hbs, heq⟩ := Option.bind_eq_some_iff.mp hrest
      exact Option.bind_eq_some_iff.mpr ⟨b, hfg a b hb,
        Option.bind_eq_some_iff.mpr ⟨bs, ih hbs, heq⟩⟩

/-- Further values change nothing for the placeholders before. -/
theorem valueAt_append {n : Nat} {v : ν} (h : valueAt values n = some v) (more : List ν) :
    valueAt (values ++ more) n = some v := by
  cases n with
  | zero => cases h
  | succ n =>
      obtain ⟨hlt, -⟩ := List.getElem?_eq_some_iff.mp h
      exact (List.getElem?_append_left hlt).trans h

theorem bindPiece_append {piece : π × List Nat} {b : π × List ν}
    (h : bindPiece values piece = some b) (more : List ν) :
    bindPiece (values ++ more) piece = some b := by
  obtain ⟨vs, hvs, rfl⟩ := Option.map_eq_some_iff.mp h
  exact Option.map_eq_some_iff.mpr
    ⟨vs, mapM_mono (fun _ _ hn => valueAt_append hn more) hvs, rfl⟩

/-- The placeholders of a new piece name its values. -/
theorem mapM_range' (values more : List ν) :
    (List.range' (values.length + 1) more.length).mapM (valueAt (values ++ more)) = some more := by
  induction more generalizing values with
  | nil => rfl
  | cons v more ih =>
      have hrest := ih (values ++ [v])
      rw [List.length_append, List.length_singleton, List.append_assoc] at hrest
      have hfirst : valueAt (values ++ v :: more) (values.length + 1) = some v := by
        change (values ++ v :: more)[values.length]? = some v
        rw [List.getElem?_append_right (Nat.le_refl _), Nat.sub_self]
        rfl
      rw [List.length_cons, List.range'_succ, List.mapM_cons, hfirst]
      exact Option.bind_eq_some_iff.mpr ⟨v, rfl, Option.bind_eq_some_iff.mpr ⟨more, hrest, rfl⟩⟩

/-- What a draft comes to: its pieces, each with its values. -/
structure Draft.Means (d : Draft π ν) (bound : List (π × List ν)) : Prop where
  next : d.next = d.values.length + 1
  allNamed : d.AllNamed
  bound : d.pieces.mapM (bindPiece d.values) = some bound

theorem Draft.means_empty : ({} : Draft π ν).Means [] where
  next := rfl
  allNamed n hn := by cases hn
  bound := rfl

/-- A draft binds to what it means. -/
theorem Draft.Means.bind (h : d.Means bound) : d.bind = some bound := by
  unfold Draft.bind
  rw [if_pos h.allNamed, h.bound]

/-- **A piece is added with its own values**, and those before keep theirs. -/
theorem Draft.Means.add (h : d.Means bound) (piece : π) (more : List ν) :
    (d.add piece more).Means (bound ++ [(piece, more)]) where
  next := by
    unfold Draft.add
    dsimp only
    rw [h.next, List.length_append]
    omega
  allNamed := by
    intro n hn
    unfold Draft.add at hn ⊢
    dsimp only at hn ⊢
    rw [List.mem_range'_1, List.length_append] at hn
    rw [List.flatMap_append, List.mem_append]
    by_cases hold : n < 1 + d.values.length
    · exact .inl (h.allNamed n (List.mem_range'_1.mpr ⟨hn.1, hold⟩))
    · refine .inr ?_
      rw [List.flatMap_singleton, List.mem_range'_1, h.next]
      omega
  bound := by
    unfold Draft.add
    dsimp only
    have hnew : bindPiece (d.values ++ more) (piece, List.range' d.next more.length) =
        some (piece, more) := by
      unfold bindPiece
      rw [h.next, mapM_range']
      rfl
    rw [List.mapM_append, mapM_mono (fun _ _ hb => bindPiece_append hb more) h.bound]
    refine Option.bind_eq_some_iff.mpr ⟨bound, rfl, ?_⟩
    rw [List.mapM_cons, hnew]
    rfl

/-- A piece is added with its values, when it is given. -/
theorem Draft.Means.addIf (h : d.Means bound) (piece : π) (more : Option (List ν)) :
    (d.addIf piece more).Means (bound ++ (more.map fun values => (piece, values)).toList) := by
  cases more with
  | none =>
      rw [Option.map_none, Option.toList_none, List.append_nil]
      exact h
  | some values => exact h.add piece values

end Binding

/-! ### Conditions -/

/-- `AND` of three truth values. -/
def and3 : Option Bool → Option Bool → Option Bool
  | some false, _ => some false
  | _, some false => some false
  | some true, some true => some true
  | _, _ => none

/-- `OR` of three truth values. -/
def or3 : Option Bool → Option Bool → Option Bool
  | some true, _ => some true
  | _, some true => some true
  | some false, some false => some false
  | _, _ => none

/-- A conjunction is true when both are. -/
theorem and3_eq_true (a b : Option Bool) :
    and3 a b = some true ↔ a = some true ∧ b = some true := by
  rcases a with _ | _ | _ <;> rcases b with _ | _ | _ <;> simp [and3]

/-- A disjunction is true when one is. -/
theorem or3_eq_true (a b : Option Bool) :
    or3 a b = some true ↔ a = some true ∨ b = some true := by
  rcases a with _ | _ | _ <;> rcases b with _ | _ | _ <;> simp [or3]

/-- A comparison of two values, either of which may be `NULL`. -/
def compare3 (test : ν → ν → Bool) : Option ν → Option ν → Option Bool
  | some x, some y => some (test x y)
  | _, _ => none

/-- A comparison is true of two values that pass the test. -/
theorem compare3_eq_true {test : ν → ν → Bool} {x y : Option ν} :
    compare3 test x y = some true ↔ ∃ a b, x = some a ∧ y = some b ∧ test a b = true := by
  constructor
  · intro h
    cases x with
    | none => cases h
    | some a =>
        cases y with
        | none => cases h
        | some b => exact ⟨a, b, rfl, rfl, Option.some.inj h⟩
  · intro h
    obtain ⟨a, b, rfl, rfl, htest⟩ := h
    exact congrArg some htest

inductive Comparison
  | equal
  | among
  | atLeast
  | atMost
  deriving DecidableEq, Repr

/-- A condition on a column. -/
abbrev Condition (κ : Type) := κ × Comparison

section Conditions

variable [DecidableEq ν] (le : ν → ν → Bool)

/-- `x = v`. -/
def equal3 (x v : Option ν) : Option Bool := compare3 (fun a b => decide (a = b)) x v

/-- `x IN (…)`. -/
def among3 (x : Option ν) (vs : List (Option ν)) : Option Bool :=
  vs.foldr (fun v rest => or3 (equal3 x v) rest) (some false)

/-- The outcome of a comparison with its values. -/
def holds : Comparison → Option ν → List (Option ν) → Option Bool
  | .equal, x, [v] => equal3 x v
  | .among, x, vs => among3 x vs
  | .atLeast, x, [v] => compare3 (fun a b => le b a) x v
  | .atMost, x, [v] => compare3 le x v
  | _, _, _ => none

/-- Conditions joined by `AND`. -/
def whereHolds (conditions : List (Condition κ × List (Option ν))) (row : κ → Option ν) :
    Option Bool :=
  conditions.foldr (fun c rest => and3 (holds le c.1.2 (row c.1.1) c.2) rest) (some true)

/-- The rows that `WHERE` keeps. -/
def keeps (conditions : List (Condition κ × List (Option ν))) (row : κ → Option ν) : Bool :=
  decide (whereHolds le conditions row = some true)

/-- `IN ()` is no SQL. -/
def Acceptable (conditions : List (Condition κ × List (Option ν))) : Prop :=
  ∀ c ∈ conditions, c.2 ≠ []

instance (conditions : List (Condition κ × List (Option ν))) :
    Decidable (Acceptable conditions) := by unfold Acceptable; infer_instance

variable {le}

/-- A row is kept when every condition holds of it. -/
theorem keeps_iff {conditions : List (Condition κ × List (Option ν))} {row : κ → Option ν} :
    keeps le conditions row = true ↔
      ∀ c ∈ conditions, holds le c.1.2 (row c.1.1) c.2 = some true := by
  unfold keeps whereHolds
  rw [decide_eq_true_iff]
  induction conditions with
  | nil => exact ⟨fun _ c hc => (by cases hc), fun _ => rfl⟩
  | cons c rest ih => rw [List.foldr_cons, and3_eq_true, ih, List.forall_mem_cons]

/-- An equality is true of that value alone. -/
theorem equal3_eq_true {x : Option ν} {v : ν} : equal3 x (some v) = some true ↔ x = some v := by
  unfold equal3
  rw [compare3_eq_true]
  constructor
  · intro h
    obtain ⟨a, b, hx, hv, heq⟩ := h
    cases hv
    rw [hx, of_decide_eq_true heq]
  · intro hx
    exact ⟨v, v, hx, rfl, decide_eq_true rfl⟩

/-- An equal condition holds of that value alone. -/
theorem holds_equal {x : Option ν} {v : ν} :
    holds le .equal x [some v] = some true ↔ x = some v := equal3_eq_true

/-- An among condition holds of the listed values. -/
theorem holds_among {x : Option ν} {vs : List ν} :
    holds le .among x (vs.map some) = some true ↔ ∃ v ∈ vs, x = some v := by
  change among3 x (vs.map some) = some true ↔ _
  unfold among3
  induction vs with
  | nil => simp
  | cons v vs ih =>
      rw [List.map_cons, List.foldr_cons, or3_eq_true, ih, equal3_eq_true]
      simp

/-- A lower bound holds of the values not below it. -/
theorem holds_atLeast {x : Option ν} {v : ν} :
    holds le .atLeast x [some v] = some true ↔ ∃ a, x = some a ∧ le v a = true := by
  unfold holds
  rw [compare3_eq_true]
  constructor
  · intro h
    obtain ⟨a, b, hx, hv, hle⟩ := h
    cases hv
    exact ⟨a, hx, hle⟩
  · intro h
    obtain ⟨a, hx, hle⟩ := h
    exact ⟨a, v, hx, rfl, hle⟩

/-- An upper bound holds of the values not above it. -/
theorem holds_atMost {x : Option ν} {v : ν} :
    holds le .atMost x [some v] = some true ↔ ∃ a, x = some a ∧ le a v = true := by
  unfold holds
  rw [compare3_eq_true]
  constructor
  · intro h
    obtain ⟨a, b, hx, hv, hle⟩ := h
    cases hv
    exact ⟨a, hx, hle⟩
  · intro h
    obtain ⟨a, hx, hle⟩ := h
    exact ⟨a, v, hx, rfl, hle⟩

end Conditions

/-! ### Rows in order -/

/-- What `SELECT` may answer: the rows that are kept, in an order that `before` admits. -/
structure Selected (before : ρ → ρ → Prop) (kept : ρ → Bool) (table answer : List ρ) : Prop where
  perm : answer.Perm (table.filter kept)
  ordered : answer.Pairwise before

namespace Selected

variable {before : ρ → ρ → Prop} {kept kept' : ρ → Bool} {table answer answer' : List ρ}

/-- Rows that stand in a strict order can be selected in one way only. -/
theorem unique (hanti : ∀ a ∈ table, ∀ b ∈ table, before a b → before b a → a = b)
    (h : Selected before kept table answer) (h' : Selected before kept table answer') :
    answer = answer' := by
  refine (h.perm.trans h'.perm.symm).eq_of_pairwise ?_ h.ordered h'.ordered
  intro a b ha hb
  exact hanti a (List.mem_of_mem_filter (h.perm.mem_iff.mp ha)) b
    (List.mem_of_mem_filter (h'.perm.mem_iff.mp hb))

/-- What is filtered after it was selected might as well have been selected so. -/
theorem filter (h : Selected before kept table answer) (more : ρ → Bool) :
    Selected before (fun row => more row && kept row) table (answer.filter more) where
  perm := by
    have hboth := h.perm.filter more
    rwa [List.filter_filter] at hboth
  ordered := h.ordered.filter _

theorem congr (h : Selected before kept table answer)
    (hkept : ∀ row ∈ table, kept row = kept' row) : Selected before kept' table answer where
  perm := by
    rw [← List.filter_congr hkept]
    exact h.perm
  ordered := h.ordered

end Selected

/-- There is always an answer. -/
theorem exists_selected {before : ρ → ρ → Prop} [DecidableRel before]
    (htotal : ∀ a b, before a b ∨ before b a)
    (htrans : ∀ a b c, before a b → before b c → before a c) (kept : ρ → Bool) (table : List ρ) :
    ∃ answer, Selected before kept table answer := by
  refine ⟨(table.filter kept).mergeSort fun a b => decide (before a b), List.mergeSort_perm _ _, ?_⟩
  refine (List.pairwise_mergeSort ?_ ?_ _).imp fun h => of_decide_eq_true h
  · intro a b c hab hbc
    exact decide_eq_true (htrans a b c (of_decide_eq_true hab) (of_decide_eq_true hbc))
  · intro a b
    rw [Bool.or_eq_true, decide_eq_true_iff, decide_eq_true_iff]
    exact htotal a b

/-! ### Rows that are rewritten -/

/-- A piece of an `UPDATE`. -/
inductive Clause (κ : Type)
  | set (column : κ)
  | whereEqual (column : κ)
  deriving DecidableEq, Repr

/-- What an `UPDATE` sets. -/
def settings (clauses : List (Clause κ × List (Option ν))) : List (κ × Option ν) :=
  clauses.filterMap fun
    | (.set column, [value]) => some (column, value)
    | _ => none

/-- Which rows it is for. -/
def targets (clauses : List (Clause κ × List (Option ν))) : List (κ × Option ν) :=
  clauses.filterMap fun
    | (.whereEqual column, [value]) => some (column, value)
    | _ => none

/-- `UPDATE` needs something to set, and sets no column twice. -/
def AcceptableUpdate (clauses : List (Clause κ × List (Option ν))) : Prop :=
  settings clauses ≠ [] ∧ ((settings clauses).map (·.1)).Nodup

/-- A column that is set. -/
def setClause (setting : κ × Option ν) : Clause κ × List (Option ν) :=
  (.set setting.1, [setting.2])

/-- The columns that a patch has a value for. -/
def given (patch : List (κ × Option (Option ν))) : List (κ × Option ν) :=
  patch.filterMap fun field => field.2.map fun value => (field.1, value)

/-- `SET` of the columns that a patch has a value for, one after the other. -/
def Draft.setAll (d : Draft (Clause κ) (Option ν)) (patch : List (κ × Option (Option ν))) :
    Draft (Clause κ) (Option ν) :=
  patch.foldl (fun d field => d.addIf (.set field.1) (field.2.map fun value => [value])) d

/-- `UPDATE ... SET ... WHERE column = value`; none if there is nothing to set. -/
def Draft.update (d : Draft (Clause κ) (Option ν)) (column : κ) (value : Option ν) :
    Option (Draft (Clause κ) (Option ν)) :=
  if d.pieces.isEmpty then none else some (d.add (.whereEqual column) [value])

/-- A column that is left out sets nothing. -/
@[simp] theorem given_cons_none (column : κ) (patch : List (κ × Option (Option ν))) :
    given ((column, none) :: patch) = given patch := rfl

/-- A column that is given is set. -/
@[simp] theorem given_cons_some (column : κ) (value : Option ν)
    (patch : List (κ × Option (Option ν))) :
    given ((column, some value) :: patch) = (column, value) :: given patch := rfl

/-- A patch that names no column twice sets none twice. -/
theorem nodup_given {patch : List (κ × Option (Option ν))} (h : (patch.map (·.1)).Nodup) :
    ((given patch).map (·.1)).Nodup := by
  refine h.sublist ?_
  clear h
  induction patch with
  | nil => exact List.nil_sublist _
  | cons field patch ih =>
      obtain ⟨column, value⟩ := field
      cases value with
      | none => exact ih.cons _
      | some value => exact ih.cons_cons _

section Settings

variable {sets : List (κ × Option ν)} {d : Draft (Clause κ) (Option ν)}

/-- Settings are drafted for what the patch gives. -/
theorem Draft.Means.setAll (h : d.Means (sets.map setClause))
    (patch : List (κ × Option (Option ν))) :
    (d.setAll patch).Means ((sets ++ given patch).map setClause) := by
  induction patch generalizing d sets with
  | nil =>
      rw [given, List.filterMap_nil, List.append_nil]
      exact h
  | cons field patch ih =>
      obtain ⟨column, value⟩ := field
      have hadd := h.addIf (.set column) (value.map fun value => [value])
      cases value with
      | none =>
          rw [Option.map_none, Option.map_none, Option.toList_none, List.append_nil] at hadd
          exact ih hadd
      | some value =>
          have hsets : sets.map setClause ++ [(.set column, [value])] =
              (sets ++ [(column, value)]).map setClause := by
            rw [List.map_append]
            rfl
          have hrest := ih (hsets ▸ hadd)
          rw [List.append_assoc] at hrest
          exact hrest

/-- A draft is empty exactly when it sets nothing. -/
theorem Draft.Means.isEmpty (h : d.Means (sets.map setClause)) :
    d.pieces.isEmpty = sets.isEmpty := by
  have hbound := h.bound
  cases hpieces : d.pieces with
  | nil =>
      rw [hpieces] at hbound
      have hnil : sets.map setClause = [] := (Option.some.inj hbound).symm
      rw [List.map_eq_nil_iff.mp hnil]
      rfl
  | cons piece pieces =>
      rw [hpieces, List.mapM_cons] at hbound
      obtain ⟨b, -, hrest⟩ := Option.bind_eq_some_iff.mp hbound
      obtain ⟨bs, -, heq⟩ := Option.bind_eq_some_iff.mp hrest
      cases sets with
      | nil => cases Option.some.inj heq
      | cons _ _ => rfl

/-- The settings of an UPDATE are read back before its condition. -/
theorem settings_update (sets : List (κ × Option ν)) (column : κ) (value : Option ν) :
    settings (sets.map setClause ++ [(.whereEqual column, [value])]) = sets := by
  unfold settings
  rw [List.filterMap_append, List.filterMap_map]
  have hsome : (sets.filterMap fun s => some s) = sets := List.filterMap_some
  exact (congrArg (· ++ []) hsome).trans (List.append_nil _)

/-- The condition of an UPDATE is read back as its target. -/
theorem targets_update (sets : List (κ × Option ν)) (column : κ) (value : Option ν) :
    targets (sets.map setClause ++ [(.whereEqual column, [value])]) = [(column, value)] := by
  unfold targets
  rw [List.filterMap_append, List.filterMap_map]
  have hnone : (sets.filterMap fun _ => (none : Option (κ × Option ν))) = [] := by simp
  exact congrArg (· ++ [(column, value)]) hnone

end Settings

section Updates

variable [DecidableEq κ]

/-- A column is set to what the patch has for it. -/
theorem lookup_given {patch : List (κ × Option (Option ν))} (h : (patch.map (·.1)).Nodup)
    (column : κ) : (given patch).lookup column = (patch.lookup column).join := by
  induction patch with
  | nil => rfl
  | cons field patch ih =>
      obtain ⟨name, value⟩ := field
      rw [List.map_cons, List.nodup_cons] at h
      have hrest := ih h.2
      by_cases hname : column = name
      · subst hname
        rw [List.lookup_cons_self]
        cases value with
        | none =>
            have hnone : patch.lookup column = none := by
              rw [List.lookup_eq_none_iff]
              intro field hfield
              rw [bne_iff_ne]
              intro hcolumn
              exact h.1 (List.mem_map.mpr ⟨field, hfield, hcolumn.symm⟩)
            rw [given_cons_none, hrest, hnone]
            rfl
        | some value =>
            rw [given_cons_some, List.lookup_cons_self]
            rfl
      · have hne : (column == name) = false := beq_eq_false_iff_ne.mpr hname
        rw [List.lookup_cons, hne, ← hrest]
        cases value with
        | none => rfl
        | some value => rw [given_cons_some, List.lookup_cons, hne]

variable [DecidableEq ν]

/-- Whether `WHERE` keeps the row. -/
def hits (clauses : List (Clause κ × List (Option ν))) (row : κ → Option ν) : Bool :=
  (targets clauses).all fun t => decide (equal3 (row t.1) t.2 = some true)

/-- What a row becomes. -/
def updated (clauses : List (Clause κ × List (Option ν))) (row : κ → Option ν) : κ → Option ν :=
  fun column =>
    if hits clauses row then ((settings clauses).lookup column).getD (row column)
    else row column

variable {θ : Type} {fields : ρ → κ → Option ν} {rest : ρ → θ}
  {clauses : List (Clause κ × List (Option ν))}

/-- What an `UPDATE` makes of a row; `rest` is what has no column among `κ`. -/
structure RowUpdate (fields : ρ → κ → Option ν) (rest : ρ → θ)
    (clauses : List (Clause κ × List (Option ν))) (row row' : ρ) : Prop where
  fields : fields row' = updated clauses (fields row)
  rest : rest row' = rest row

/-- What it makes of a table. -/
def Updates (fields : ρ → κ → Option ν) (rest : ρ → θ)
    (clauses : List (Clause κ × List (Option ν))) (rows rows' : List ρ) : Prop :=
  List.Forall₂ (RowUpdate fields rest clauses) rows rows'

/-- Where every row is known to become `f` of it, so does the table. -/
theorem updates_iff (hinj : ∀ a b, fields a = fields b → rest a = rest b → a = b) {f : ρ → ρ}
    {rows rows' : List ρ} (hf : ∀ row ∈ rows, RowUpdate fields rest clauses row (f row)) :
    Updates fields rest clauses rows rows' ↔ rows' = rows.map f := by
  constructor
  · intro h
    induction h with
    | nil => rfl
    | @cons row row' rows rows' hrow _ ih =>
        have hself := hf row List.mem_cons_self
        have hsame : row' = f row :=
          hinj _ _ (hrow.fields.trans hself.fields.symm) (hrow.rest.trans hself.rest.symm)
        rw [List.map_cons, hsame, ih fun r hr => hf r (List.mem_cons_of_mem _ hr)]
  · intro h
    subst h
    exact List.forall₂_map_right_iff.mpr (List.forall₂_same.mpr hf)

/-- What the call of an `UPDATE` leaves of a table: the rows `rows'` and no others. -/
def CarriedOut (fields : ρ → κ → Option ν) (rest : ρ → θ)
    (rows rows' : List ρ) : Option (Draft (Clause κ) (Option ν)) → Prop
  | none => rows' = rows
  | some statement => ∃ clauses, statement.bind = some clauses ∧ AcceptableUpdate clauses ∧
      ∀ found, Updates fields rest clauses rows found ↔ found = rows'

/-- **A patch is carried out**: `assign` makes of a row what the patch says, column by column. -/
theorem carriedOut_update (fields : ρ → κ → Option ν) (rest : ρ → θ) (assign : ρ → ρ)
    {patch : List (κ × Option (Option ν))} (hnodup : (patch.map (·.1)).Nodup)
    (hinj : ∀ a b, fields a = fields b → rest a = rest b → a = b)
    (hrest : ∀ row, rest (assign row) = rest row)
    (hassign : ∀ row column,
      fields (assign row) column = (patch.lookup column).join.getD (fields row column))
    (key : κ) (value : ν) (rows : List ρ) :
    CarriedOut fields rest rows
      (rows.map fun row => if fields row key = some value then assign row else row)
      ((Draft.setAll {} patch).update key (some value)) := by
  have hempty : ({} : Draft (Clause κ) (Option ν)).Means
      (([] : List (κ × Option ν)).map setClause) := Draft.means_empty
  have hmeans := hempty.setAll patch
  rw [List.nil_append] at hmeans
  have hset (row : ρ) (column : κ) : fields (assign row) column =
      ((given patch).lookup column).getD (fields row column) := by
    rw [lookup_given hnodup]
    exact hassign row column
  have honce := nodup_given hnodup
  generalize given patch = sets at hmeans hset honce
  unfold Draft.update
  rw [hmeans.isEmpty]
  cases sets with
  | nil =>
      have hsame : ∀ row, assign row = row := by
        intro row
        exact hinj _ _ (funext fun column => hset row column) (hrest row)
      simp [CarriedOut, hsame]
  | cons setting more =>
      refine ⟨_, (hmeans.add _ _).bind, ?_, fun found => updates_iff hinj fun row _ => ?_⟩
      · unfold AcceptableUpdate
        rw [settings_update]
        exact ⟨List.cons_ne_nil _ _, honce⟩
      · have hhits : hits ((setting :: more).map setClause ++ [(.whereEqual key, [some value])])
            (fields row) = decide (fields row key = some value) := by
          unfold hits
          rw [targets_update, List.all_cons, List.all_nil, Bool.and_true, decide_eq_decide]
          exact equal3_eq_true
        by_cases hrow : fields row key = some value
        · rw [if_pos hrow]
          refine ⟨funext fun column => ?_, hrest row⟩
          unfold updated
          rw [hhits, if_pos (decide_eq_true hrow), settings_update]
          exact hset row column
        · rw [if_neg hrow]
          refine ⟨funext fun column => ?_, rfl⟩
          unfold updated
          rw [hhits, if_neg (by simpa using hrow)]

end Updates

end SqlStatement
