import NestBatch.Core.JsonSerializable
import NestBatch.Core.Types
import NestBatch.Lib.JsTree

/-!
# Contexts that are saved

A repository takes a context that `assertJsonSerializable` accepts.  The one in memory keeps a
deep clone and gives a deep clone of it; one in a database keeps the JSON text of a deep
clone and gives what the text is parsed to.  Either gives back what can be told of every
leaf and every key of the context.
-/

namespace NestBatch

open JsString JsTree

mutual

/-- `deepClone`; a `RegExp` has no own keys that are listed. -/
def deepClone : JsTree → JsTree
  | .date iso => .date iso
  | .arr elements => .arr (deepCloneElements elements)
  | .regexp => .obj (assigned [])
  | .obj entries => .obj (assigned (deepCloneEntries entries))
  | value => value

def deepCloneElements : List JsTree → List JsTree
  | [] => []
  | v :: rest => deepClone v :: deepCloneElements rest

def deepCloneEntries : List (JsString × JsTree) → List (JsString × JsTree)
  | [] => []
  | (k, v) :: rest => (k, deepClone v) :: deepCloneEntries rest

end

/-- The key of the first `bigint` that a replacer is called with. -/
def firstBigint : JsTree → JsString → Option JsString :=
  fold (fun v key => if v matches .bigint then some key else none)
    (fun elements _ => elements.zipIdx.findSome? fun e => e.1 (units (toString e.2)))
    fun entries _ => entries.findSome? fun e => e.2 e.1

/-- The `InvalidExecutionContextError` of `serializeContext`, with its detail. -/
structure SerializeError where
  message : JsString
  key : JsString

/-- `serializeContext`; no text is written for a value that is undefined, a symbol or a function. -/
def serializeContext (ctx : JsTree) : Except SerializeError (Option JsString) :=
  match firstBigint ctx [] with
  | some key => .error ⟨units "Cannot serialize BigInt at key \"" ++ key ++ units "\"", key⟩
  | none => .ok ((toJson ctx).map Json.stringify)

/-- `deserializeContext`, or a `SyntaxError`. -/
def deserializeContext (raw : JsString) : Option JsTree := (Json.parse raw).map ofJson

variable {ι : Type} [DecidableEq ι]

/-- The content of a value that is accepted. -/
def savedValue (heap : JsHeap ι) (value : JsValue ι) : JsTree := heap.content (maxDepth + 1) value

/-- The version that a context gets. -/
def versionOf {σ : Type} (contexts : JsMap ExecutionScope (σ × Nat)) (scope : ExecutionScope)
    (first : Nat) : Option Nat → Nat
  | some version => version
  | none => (contexts.get? scope).elim first fun current => current.2 + 1

namespace InMemory

/-- `saveExecutionContext` of the repository in memory. -/
def saveExecutionContext (heap : JsHeap ι) (contexts : JsMap ExecutionScope (JsTree × Nat))
    (scope : ExecutionScope) (data : JsValue ι) (version : Option Nat) :
    Except InvalidExecutionContextError (JsMap ExecutionScope (JsTree × Nat)) :=
  (assertJsonSerializable heap data).map fun _ =>
    contexts.set scope (deepClone (savedValue heap data), versionOf contexts scope 1 version)

/-- `getExecutionContext`. -/
def getExecutionContext (contexts : JsMap ExecutionScope (JsTree × Nat)) (scope : ExecutionScope) :
    JsTree × Nat :=
  (contexts.get? scope).elim (.null, 0) fun ctx => (deepClone ctx.1, ctx.2)

end InMemory

namespace SqlContexts

/-- What a save in a database throws. -/
inductive SaveError
  | invalid (error : InvalidExecutionContextError)
  | bigint (error : SerializeError)
  /-- The column takes no `undefined`. -/
  | noText

/-- `saveExecutionContext` of a repository in a database: the text and the version of the row. -/
def saveExecutionContext (heap : JsHeap ι) (rows : JsMap ExecutionScope (JsString × Nat))
    (scope : ExecutionScope) (data : JsValue ι) (version : Option Nat) :
    Except SaveError (JsMap ExecutionScope (JsString × Nat)) := do
  (assertJsonSerializable heap data).mapError .invalid
  let serialized ← (serializeContext (deepClone (savedValue heap data))).mapError .bigint
  match serialized with
  | none => .error .noText
  | some text => .ok (rows.set scope (text, versionOf rows scope 0 version))

/-- `getExecutionContext`; `none` is a `SyntaxError`. -/
def getExecutionContext (rows : JsMap ExecutionScope (JsString × Nat)) (scope : ExecutionScope) :
    Option (JsTree × Nat) :=
  match rows.get? scope with
  | none => some (.null, 0)
  | some row =>
      if row.1.length > 0 then (deserializeContext row.1).map fun data => (data, row.2)
      else some (.null, row.2)

end SqlContexts

/-! ### What is kept -/

/-- What `deepClone` makes of a leaf. -/
def cloneLeaf : JsTree → JsTree
  | .regexp => .obj []
  | v => v

/-- What `JSON.parse` makes of the text of a leaf. -/
def textLeaf : JsTree → JsTree
  | .date none => .null
  | .date (some iso) => .str iso
  | .regexp => .obj []
  | .num .negativeZero => .num (.finite zero)
  | v => v

/-- A leaf that the walk accepts. -/
def storableLeaf : JsTree → Prop
  | .null | .bool _ | .str _ | .date _ | .regexp => True
  | .num n => n.isFinite = true
  | _ => False

/-- Every leaf but the undefined values of objects may be saved. -/
def Storable (v : JsTree) : Prop := Holds storableLeaf (fun _ => True) (pruned v)

/-- Neither a `Date` nor a `RegExp` nor `-0`. -/
def restorableLeaf : JsTree → Prop
  | .date _ | .regexp | .num .negativeZero => False
  | _ => True

/-- Every leaf comes back, and nothing stands under `__proto__`. -/
def Restorable (v : JsTree) : Prop := Holds restorableLeaf (· ≠ units "__proto__") v

section Clone

theorem deepClone_arr (elements : List JsTree) :
    deepClone (.arr elements) = .arr (elements.map deepClone) := by
  rw [deepClone]
  congr 1
  induction elements with
  | nil => rfl
  | cons v rest ih => rw [deepCloneElements, ih, List.map_cons]

/-- The entries of an object are cloned one by one. -/
theorem deepCloneEntries_eq (entries : List (JsString × JsTree)) :
    deepCloneEntries entries = entries.map fun e => (e.1, deepClone e.2) := by
  induction entries with
  | nil => rfl
  | cons e rest ih => rw [deepCloneEntries, ih, List.map_cons]

theorem deepClone_obj {entries : List (JsString × JsTree)} (h : Listed entries) :
    deepClone (.obj entries) =
      .obj ((entries.filter fun e => e.1 ≠ units "__proto__").map fun e =>
        (e.1, deepClone e.2)) := by
  rw [deepClone, deepCloneEntries_eq, ((listed_map_iff deepClone).mpr h).assigned, List.filter_map]
  rfl

end Clone

section Kept

theorem storable_arr (elements : List JsTree) :
    Storable (.arr elements) ↔ ∀ v ∈ elements, Storable v := by
  unfold Storable
  rw [pruned_arr, holds_arr]
  exact List.forall_mem_map

theorem storable_obj (entries : List (JsString × JsTree)) :
    Storable (.obj entries) ↔ ∀ e ∈ entries, isUndefined e.2 = false → Storable e.2 := by
  unfold Storable
  rw [pruned_obj, holds_obj, List.forall_mem_map]
  constructor
  · intro h e he hdefined
    exact (h e (List.mem_filter.mpr ⟨he, by rw [hdefined]; rfl⟩)).2
  · intro h e he
    obtain ⟨hmem, hdefined⟩ := List.mem_filter.mp he
    exact ⟨trivial, h e hmem (Bool.not_eq_true' _ ▸ hdefined)⟩

/-- What is storable is defined. -/
theorem Storable.defined {v : JsTree} (h : Storable v) : isUndefined v = false := by
  cases v with
  | undefined => exact h.elim
  | _ => rfl

/-- **What is made of a clone**: where arrays and objects are kept, all depends on the leaves. -/
theorem eq_image_of_deepClone {F leaf : JsTree → JsTree}
    (hleaf : ∀ v, isUndefined (leaf v) = isUndefined v) (hundefined : F .undefined = .undefined)
    (hleaves : ∀ v, storableLeaf v → F (deepClone v) = leaf v)
    (harr : ∀ elements, (∀ v ∈ elements, isUndefined (F v) = false) →
      F (.arr elements) = .arr (elements.map F))
    (hobj : ∀ entries, Listed entries → (∀ e ∈ entries, e.1 ≠ units "__proto__") →
      F (.obj entries) = .obj ((entries.filter fun e => !isUndefined (F e.2)).map fun e =>
        (e.1, F e.2)))
    {v : JsTree} (hkeyed : WellKeyed v) (hv : Storable v) : F (deepClone v) = image leaf v := by
  induction v using JsTree.induction with
  | arr elements ih =>
      rw [wellKeyed_arr] at hkeyed
      rw [storable_arr] at hv
      have helement : ∀ w ∈ elements, F (deepClone w) = image leaf w := fun w hw =>
        ih w hw (hkeyed w hw) (hv w hw)
      rw [deepClone_arr, harr, image_arr, List.map_map]
      · exact congrArg JsTree.arr (List.map_congr_left helement)
      · refine List.forall_mem_map.mpr fun w hw => ?_
        rw [helement w hw, isUndefined_image hleaf]
        exact (hv w hw).defined
  | obj entries ih =>
      obtain ⟨hlisted, hbelow⟩ := (wellKeyed_obj entries).mp hkeyed
      rw [storable_obj] at hv
      have hentry : ∀ e ∈ entries, F (deepClone e.2) = image leaf e.2 := by
        intro e he
        cases hdefined : isUndefined e.2 with
        | false => exact ih e he (hbelow e he) (hv e he hdefined)
        | true =>
            have hnone := isUndefined_eq_true_iff.mp hdefined
            have hleafNone := isUndefined_eq_true_iff.mp (hleaf .undefined)
            rw [hnone]
            exact hundefined.trans hleafNone.symm
      have hkept : Listed ((entries.filter fun e => e.1 ≠ units "__proto__").map fun e =>
          (e.1, deepClone e.2)) :=
        (listed_map_iff deepClone).mpr (hlisted.sublist List.filter_sublist)
      have hfilter : ((entries.filter fun e => e.1 ≠ units "__proto__").filter
          ((fun e => !isUndefined (F e.2)) ∘ fun e => (e.1, deepClone e.2))) =
          entries.filter fun e => e.1 ≠ units "__proto__" ∧ !isUndefined e.2 := by
        rw [List.filter_filter]
        refine List.filter_congr fun e he => ?_
        rw [Function.comp_apply, hentry e he, isUndefined_image hleaf, Bool.decide_and,
          Bool.decide_eq_true, Bool.and_comm]
      rw [deepClone_obj hlisted, hobj _ hkept, image_obj hleaf, List.filter_map, List.map_map,
        hfilter]
      · refine congrArg JsTree.obj (List.map_congr_left fun e he => ?_)
        rw [Function.comp_apply, hentry e (List.mem_filter.mp he).1]
      · refine List.forall_mem_map.mpr fun e he => ?_
        exact of_decide_eq_true (List.mem_filter.mp he).2
  | undefined => exact hv.elim
  | _ => exact hleaves _ hv

/-- Cloning a leaf keeps whether it is undefined. -/
theorem isUndefined_cloneLeaf (v : JsTree) : isUndefined (cloneLeaf v) = isUndefined v := by
  cases v <;> rfl

/-- Writing a leaf keeps whether it is undefined. -/
theorem isUndefined_textLeaf (v : JsTree) : isUndefined (textLeaf v) = isUndefined v := by
  cases v with
  | date iso => cases iso <;> rfl
  | num n => cases n <;> rfl
  | _ => rfl

/-- The entries of an object that are read, without those that are undefined. -/
theorem pruned_entries {f : JsTree → JsTree} (entries : List (JsString × JsTree)) :
    pruned (.obj (entries.map fun e => (e.1, f e.2))) =
      .obj ((entries.filter fun e => !isUndefined (pruned (f e.2))).map fun e =>
        (e.1, pruned (f e.2))) := by
  rw [pruned_obj, List.filter_map, List.map_map]
  have hsame : ((fun e : JsString × JsTree => !isUndefined e.2) ∘ fun e => (e.1, f e.2)) =
      fun e : JsString × JsTree => !isUndefined (pruned (f e.2)) :=
    funext fun e => congrArg not (isUndefined_pruned (f e.2)).symm
  rw [hsame]
  rfl

/-- **What is cloned twice.** -/
theorem pruned_deepClone_deepClone {v : JsTree} (hkeyed : WellKeyed v) (hv : Storable v) :
    pruned (deepClone (deepClone v)) = image cloneLeaf v := by
  refine @eq_image_of_deepClone (fun v => pruned (deepClone v)) cloneLeaf isUndefined_cloneLeaf rfl
    ?_ ?_ ?_ v hkeyed hv
  · intro v hleaf
    cases v with
    | arr elements | obj entries => exact hleaf.elim
    | _ => rfl
  · intro elements _
    rw [deepClone_arr, pruned_arr, List.map_map]
    rfl
  · intro entries hlisted hno
    have hself : (entries.filter fun e => e.1 ≠ units "__proto__") = entries :=
      List.filter_eq_self.mpr fun e he => decide_eq_true (hno e he)
    rw [deepClone_obj hlisted, hself, pruned_entries]

/-- **What is cloned and goes through a text.** -/
theorem pruned_throughJson_deepClone {v : JsTree} (hkeyed : WellKeyed v) (hv : Storable v) :
    pruned (throughJson (deepClone v)) = image textLeaf v := by
  refine @eq_image_of_deepClone (fun v => pruned (throughJson v)) textLeaf isUndefined_textLeaf rfl
    ?_ ?_ ?_ v hkeyed hv
  · intro v hleaf
    cases v with
    | arr elements | obj entries => exact hleaf.elim
    | num n =>
        cases n with
        | finite literal | negativeZero => rfl
        | nan | infinity negative => cases hleaf
    | date iso => cases iso <;> rfl
    | _ => first | rfl | exact hleaf.elim
  · intro elements hdefined
    rw [throughJson_arr, pruned_arr, List.map_map]
    refine congrArg JsTree.arr (List.map_congr_left fun v hv => ?_)
    have hno := hdefined v hv
    rw [isUndefined_pruned] at hno
    rw [Function.comp_apply, hno, if_neg Bool.false_ne_true]
  · intro entries hlisted _
    rw [throughJson_obj hlisted, List.filter_map, pruned_entries, List.filter_filter]
    have hsame : (fun e : JsString × JsTree => !isUndefined (pruned (throughJson e.2)) &&
        ((fun e => !isUndefined e.2) ∘ fun e => (e.1, throughJson e.2)) e) =
        fun e => !isUndefined (pruned (throughJson e.2)) := by
      funext e
      rw [Function.comp_apply, isUndefined_pruned, Bool.and_self]
    rw [hsame]

/-- A text that is written for a clone is read, as what it comes back as. -/
theorem deserializeContext_stringify {v : JsTree} {written : Json} (h : toJson v = some written) :
    deserializeContext (Json.stringify written) = some (throughJson v) := by
  rw [deserializeContext, Json.parse_stringify, throughJson, h]
  rfl

theorem firstBigint_arr {elements : List JsTree}
    (h : ∀ v ∈ elements, ∀ key, firstBigint v key = none) (key : JsString) :
    firstBigint (.arr elements) key = none := by
  rw [firstBigint, fold_arr]
  refine List.findSome?_eq_none_iff.mpr fun e he => ?_
  have hmem : e.1 ∈ elements.map firstBigint := by
    have hfst := List.mem_map_of_mem (f := Prod.fst) he
    rw [List.zipIdx_map_fst] at hfst
    exact hfst
  obtain ⟨v, hv, heq⟩ := List.mem_map.mp hmem
  rw [← heq]
  exact h v hv _

theorem firstBigint_obj {entries : List (JsString × JsTree)}
    (h : ∀ e ∈ entries, ∀ key, firstBigint e.2 key = none) (key : JsString) :
    firstBigint (.obj entries) key = none := by
  rw [firstBigint, fold_obj]
  refine List.findSome?_eq_none_iff.mpr fun e he => ?_
  obtain ⟨f, hf, rfl⟩ := List.mem_map.mp he
  exact h f hf _

/-- No `bigint` is found in a clone. -/
theorem firstBigint_deepClone {v : JsTree} (hkeyed : WellKeyed v) (hv : Storable v)
    (key : JsString) : firstBigint (deepClone v) key = none := by
  induction v using JsTree.induction generalizing key with
  | arr elements ih =>
      rw [wellKeyed_arr] at hkeyed
      rw [storable_arr] at hv
      rw [deepClone_arr]
      exact firstBigint_arr (List.forall_mem_map.mpr fun w hw => ih w hw (hkeyed w hw) (hv w hw)) _
  | obj entries ih =>
      obtain ⟨hlisted, hbelow⟩ := (wellKeyed_obj entries).mp hkeyed
      rw [storable_obj] at hv
      rw [deepClone_obj hlisted]
      refine firstBigint_obj (List.forall_mem_map.mpr fun e he key => ?_) _
      have hmem := (List.mem_filter.mp he).1
      cases hdefined : isUndefined e.2 with
      | false => exact ih e hmem (hbelow e hmem) (hv e hmem hdefined) key
      | true =>
          rw [isUndefined_eq_true_iff.mp hdefined]
          rfl
  | bigint => exact hv.elim
  | _ => rfl

/-- A leaf comes back from its text unless it is a `Date`, a `RegExp` or `-0`. -/
theorem textLeaf_eq_self_iff (v : JsTree) : textLeaf v = v ↔ restorableLeaf v := by
  cases v with
  | date iso =>
      cases iso with
      | none => exact iff_of_false nofun id
      | some iso => exact iff_of_false nofun id
  | regexp => exact iff_of_false nofun id
  | num n =>
      cases n with
      | negativeZero => exact iff_of_false nofun id
      | _ => exact iff_of_true rfl trivial
  | _ => exact iff_of_true rfl trivial

/-- A restorable leaf is its own clone. -/
theorem cloneLeaf_of_restorableLeaf {v : JsTree} (h : restorableLeaf v) : cloneLeaf v = v := by
  cases v with
  | regexp => exact h.elim
  | _ => rfl

end Kept

/-! ### Values that are accepted -/

section Accepted

variable {heap : JsHeap ι} {v : JsValue ι}

/-- What is admissible may be saved, leaf by leaf. -/
theorem storable_content {levels : Nat} (h : Admissible heap levels v) :
    Storable (heap.content levels v) := by
  induction levels generalizing v with
  | zero =>
      obtain ⟨hdefined, hown, hlevels⟩ := h [] v (JsHeap.reaches_nil.mpr rfl)
      cases v with
      | undefined => exact absurd rfl hdefined
      | num n => exact eq_true_of_ne_false hown
      | bigint | symbol | function => exact absurd trivial hown
      | ref a =>
          change Storable ((heap a).content _)
          cases hobject : heap a with
          | instanceOf ctor => exact absurd ⟨ctor, hobject⟩ hown
          | array elements | plain entries =>
              exact absurd (hlevels a rfl (by rw [hobject]; rfl)) (Nat.not_lt_zero _)
          | date iso | regexp => trivial
      | _ => trivial
  | succ levels ih =>
      obtain ⟨hdefined, hown, -⟩ := h [] v (JsHeap.reaches_nil.mpr rfl)
      cases v with
      | undefined => exact absurd rfl hdefined
      | num n => exact eq_true_of_ne_false hown
      | bigint | symbol | function => exact absurd trivial hown
      | ref a =>
          change Storable ((heap a).content (heap.content levels))
          cases hobject : heap a with
          | instanceOf ctor => exact absurd ⟨ctor, hobject⟩ hown
          | array elements =>
              have hbelow := (admissible_of_container (by rw [hobject]; rfl)).mp h
              rw [hobject] at hbelow
              rw [JsObject.content, storable_arr]
              exact List.forall_mem_map.mpr fun u hu => ih (hbelow u hu)
          | plain entries =>
              have hbelow := (admissible_of_container (by rw [hobject]; rfl)).mp h
              rw [hobject] at hbelow
              rw [JsObject.content, storable_obj]
              intro e he hkept
              obtain ⟨f, hf, rfl⟩ := List.mem_map.mp ((ownOrder_perm _).mem_iff.mp he)
              refine ih (hbelow f.2 (List.mem_filter.mpr ⟨List.mem_map_of_mem hf, ?_⟩))
              refine decide_eq_true fun hnone => ?_
              rw [hnone, JsHeap.content_undefined] at hkept
              cases hkept
          | date iso | regexp => trivial
      | _ => trivial

/-- Of what is admissible nothing lies deeper. -/
theorem content_succ_of_admissible {levels : Nat} (h : Admissible heap levels v) :
    heap.content (levels + 1) v = heap.content levels v := by
  induction levels generalizing v with
  | zero =>
      obtain ⟨-, -, hlevels⟩ := h [] v (JsHeap.reaches_nil.mpr rfl)
      cases v with
      | ref a =>
          change (heap a).content _ = (heap a).content _
          cases hobject : heap a with
          | array elements | plain entries =>
              exact absurd (hlevels a rfl (by rw [hobject]; rfl)) (Nat.not_lt_zero _)
          | _ => rfl
      | _ => rfl
  | succ levels ih =>
      cases v with
      | ref a =>
          change (heap a).content (heap.content (levels + 1)) =
            (heap a).content (heap.content levels)
          cases hobject : heap a with
          | array elements =>
              have hbelow := (admissible_of_container (by rw [hobject]; rfl)).mp h
              rw [hobject] at hbelow
              exact congrArg JsTree.arr (List.map_congr_left fun u hu => ih (hbelow u hu))
          | plain entries =>
              have hbelow := (admissible_of_container (by rw [hobject]; rfl)).mp h
              rw [hobject] at hbelow
              refine congrArg (fun es => JsTree.obj (ownOrder es))
                (List.map_congr_left fun e he => congrArg (Prod.mk e.1) ?_)
              by_cases hnone : e.2 = .undefined
              · rw [hnone, JsHeap.content_undefined, JsHeap.content_undefined]
              · exact ih (hbelow e.2 (List.mem_filter.mpr
                  ⟨List.mem_map_of_mem he, decide_eq_true hnone⟩))
          | _ => rfl
      | _ => rfl

/-- An accepted value is admissible within the depth. -/
theorem Accepts.admissible (h : Accepts heap v) : Admissible heap (maxDepth + 1) v := by
  obtain ⟨hdocumented, hholds, -⟩ := accepts_iff.mp h
  obtain ⟨hdefined, hown, -, hshallow⟩ := hdocumented
  exact admissible_iff.mpr ⟨⟨hdefined, hown, hshallow⟩, hholds⟩

theorem Admissible.mono {levels levels' : Nat} (h : Admissible heap levels v)
    (hle : levels ≤ levels') : Admissible heap levels' v := by
  intro path w hpath
  obtain ⟨hdefined, hown, hlevels⟩ := h path w hpath
  exact ⟨hdefined, hown, fun a ha hcontainer => Nat.lt_of_lt_of_le (hlevels a ha hcontainer) hle⟩

/-- **The whole value is saved**: no level of what is accepted is left out. -/
theorem content_eq_savedValue (h : Accepts heap v) {levels : Nat} (hle : maxDepth + 1 ≤ levels) :
    heap.content levels v = savedValue heap v := by
  induction hle with
  | refl => rfl
  | step hle ih => rw [content_succ_of_admissible (h.admissible.mono hle), ih]

/-- What is accepted may be saved, leaf by leaf. -/
theorem storable_savedValue (h : Accepts heap v) : Storable (savedValue heap v) :=
  storable_content h.admissible

end Accepted

/-- A context that is saved comes back from the repository in memory, but for undefined values. -/
def ComesBackInMemory (heap : JsHeap ι) (v : JsValue ι) : Prop :=
  ∀ contexts scope version, ∃ saved,
    InMemory.saveExecutionContext heap contexts scope v version = .ok saved ∧
      pruned (InMemory.getExecutionContext saved scope).1 = pruned (savedValue heap v)

/-- A context that is saved comes back from a database, but for undefined values. -/
def ComesBackFromSql (heap : JsHeap ι) (v : JsValue ι) : Prop :=
  ∀ rows scope version, ∃ saved read,
    SqlContexts.saveExecutionContext heap rows scope v version = .ok saved ∧
      SqlContexts.getExecutionContext saved scope = some read ∧
      pruned read.1 = pruned (savedValue heap v)

section Saved

variable {heap : JsHeap ι} {v : JsValue ι}

/-- A value comes back in memory exactly when its clone is its pruned content. -/
theorem comesBackInMemory_iff (h : Accepts heap v) :
    ComesBackInMemory heap v ↔
      image cloneLeaf (savedValue heap v) = pruned (savedValue heap v) := by
  have hread := pruned_deepClone_deepClone (heap.wellKeyed_content _ v) (storable_savedValue h)
  have hsave (contexts : JsMap ExecutionScope (JsTree × Nat)) (scope : ExecutionScope)
      (version : Option Nat) : InMemory.saveExecutionContext heap contexts scope v version =
        .ok (contexts.set scope
          (deepClone (savedValue heap v), versionOf contexts scope 1 version)) := by
    unfold InMemory.saveExecutionContext
    rw [show assertJsonSerializable heap v = .ok () from h]
    rfl
  constructor
  · intro hback
    obtain ⟨saved, hsaved, heq⟩ := hback .empty (.jobExecutionId "") none
    rw [hsave, Except.ok.injEq] at hsaved
    rw [← hsaved, InMemory.getExecutionContext, JsMap.get?_set_self] at heq
    exact hread.symm.trans heq
  · intro heq contexts scope version
    refine ⟨_, hsave contexts scope version, ?_⟩
    rw [InMemory.getExecutionContext, JsMap.get?_set_self]
    exact hread.trans heq

/-- The text that is written for what is accepted. -/
theorem exists_text (h : Accepts heap v) :
    ∃ text, text ≠ [] ∧ serializeContext (deepClone (savedValue heap v)) = .ok (some text) ∧
      deserializeContext text = some (throughJson (deepClone (savedValue heap v))) := by
  have hkeyed := heap.wellKeyed_content (maxDepth + 1) v
  have hstorable := storable_savedValue h
  have hnone := firstBigint_deepClone hkeyed hstorable []
  have hdefined : isUndefined (throughJson (deepClone (savedValue heap v))) = false := by
    rw [← isUndefined_pruned, savedValue, pruned_throughJson_deepClone hkeyed hstorable,
      isUndefined_image isUndefined_textLeaf]
    exact hstorable.defined
  rw [isUndefined_throughJson, Option.isNone_eq_false_iff, Option.isSome_iff_exists] at hdefined
  obtain ⟨written, hwritten⟩ := hdefined
  refine ⟨Json.stringify written, ?_, ?_, deserializeContext_stringify hwritten⟩
  · obtain ⟨u, rest, htext, -⟩ := Json.stringify_eq_cons written
    rw [htext]
    exact List.cons_ne_nil _ _
  · unfold serializeContext
    rw [show firstBigint (deepClone (savedValue heap v)) [] = none from hnone, hwritten]
    rfl

/-- A value comes back from SQL exactly when its text is its pruned content. -/
theorem comesBackFromSql_iff (h : Accepts heap v) :
    ComesBackFromSql heap v ↔ image textLeaf (savedValue heap v) = pruned (savedValue heap v) := by
  have hread := pruned_throughJson_deepClone (heap.wellKeyed_content _ v) (storable_savedValue h)
  obtain ⟨text, hne, hserialized, hparsed⟩ := exists_text h
  have hsave (rows : JsMap ExecutionScope (JsString × Nat)) (scope : ExecutionScope)
      (version : Option Nat) : SqlContexts.saveExecutionContext heap rows scope v version =
        .ok (rows.set scope (text, versionOf rows scope 0 version)) := by
    unfold SqlContexts.saveExecutionContext
    rw [show assertJsonSerializable heap v = .ok () from h, hserialized]
    rfl
  have hget (rows : JsMap ExecutionScope (JsString × Nat)) (scope : ExecutionScope)
      (version : Nat) : SqlContexts.getExecutionContext (rows.set scope (text, version)) scope =
        some (throughJson (deepClone (savedValue heap v)), version) := by
    unfold SqlContexts.getExecutionContext
    rw [JsMap.get?_set_self]
    dsimp only
    rw [if_pos (List.length_pos_iff.mpr hne), hparsed]
    rfl
  constructor
  · intro hback
    obtain ⟨saved, read, hsaved, hloaded, heq⟩ := hback .empty (.jobExecutionId "") none
    rw [hsave, Except.ok.injEq] at hsaved
    rw [← hsaved, hget, Option.some.injEq] at hloaded
    rw [← hloaded] at heq
    exact hread.symm.trans heq
  · intro heq rows scope version
    exact ⟨_, _, hsave rows scope version, hget rows scope _, hread.trans heq⟩

end Saved

/-- **A context that is accepted comes back from both kinds of repository** exactly where it holds
no `Date`, no `RegExp` and no `-0`, and nothing but `undefined` under a key `__proto__`. -/
theorem saved_contexts_come_back_iff (heap : JsHeap ι) (v : JsValue ι) (h : Accepts heap v) :
    ComesBackInMemory heap v ∧ ComesBackFromSql heap v ↔
      Restorable (pruned (savedValue heap v)) := by
  rw [comesBackInMemory_iff h, comesBackFromSql_iff h, image_eq_pruned_iff isUndefined_cloneLeaf,
    image_eq_pruned_iff isUndefined_textLeaf]
  constructor
  · intro hcase
    obtain ⟨-, htext⟩ := hcase
    exact htext.mono fun w => (textLeaf_eq_self_iff w).mp
  · intro hrestorable
    exact ⟨hrestorable.mono fun w => cloneLeaf_of_restorableLeaf,
      hrestorable.mono fun w => (textLeaf_eq_self_iff w).mpr⟩

section Held

/-- A number, an undefined value and an array at `0`; a `Date` at `2`. -/
def heldHeap : JsHeap Nat
  | 0 => .plain ⟨[(units "10", .num (.finite zero)), (units "gone", .undefined),
      (units "tags", .ref 1)], by decide⟩
  | 1 => .array [.str (units "a"), .null]
  | _ => .date (some (units "2024-01-02T03:04:05.000Z"))

/-- Both values of the sample heap are accepted. -/
theorem accepts_heldHeap (a : Nat) (h : a = 0 ∨ a = 2) : Accepts heldHeap (.ref a) := by
  unfold Accepts
  rcases h with rfl | rfl
  · rfl
  · rfl

/-- The first value of the sample heap comes back from both repositories. -/
theorem saved_context_comes_back :
    ComesBackInMemory heldHeap (.ref 0) ∧ ComesBackFromSql heldHeap (.ref 0) := by
  refine (saved_contexts_come_back_iff heldHeap (.ref 0) (accepts_heldHeap 0 (Or.inl rfl))).mpr ?_
  have hvalue : pruned (savedValue heldHeap (.ref 0)) = .obj [(units "10", .num (.finite zero)),
      (units "tags", .arr [.str (units "a"), .null])] := by rfl
  have hleaves : ∀ v ∈ [JsTree.str (units "a"), .null],
      Holds restorableLeaf (· ≠ units "__proto__") v :=
    List.forall_mem_cons.mpr ⟨trivial, List.forall_mem_singleton.mpr trivial⟩
  rw [hvalue, Restorable, holds_obj, List.forall_mem_cons, List.forall_mem_singleton, holds_arr]
  exact ⟨⟨by decide, trivial⟩, by decide, hleaves⟩

/-- A `Date` is a text in the one repository and a `Date` in the other. -/
theorem saved_date_changed :
    Accepts heldHeap (.ref 2) ∧
      ¬ (ComesBackInMemory heldHeap (.ref 2) ∧ ComesBackFromSql heldHeap (.ref 2)) := by
  have haccepts := accepts_heldHeap 2 (Or.inr rfl)
  refine ⟨haccepts, fun h => ?_⟩
  have heq := (comesBackFromSql_iff haccepts).mp h.2
  cases heq

end Held

end NestBatch
