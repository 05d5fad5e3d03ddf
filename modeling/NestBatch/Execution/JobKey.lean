import NestBatch.Core.Ir
import NestBatch.Lib.JsTree

/-!
# The key of a job instance

`canonicalize` rebuilds the parameters with sorted keys, and the key is the digest of the JSON
text of the result.  Every stage but two keeps parameters apart that differ: an object
that is built by assignments has no entry under `__proto__`, and a text has no numbers
beyond the finite ones and no elements that are missing.
-/

namespace NestBatch

open JsString JsTree

/-- `sort()`, of entries by their keys. -/
def sortedByKey {ν : Type} (entries : List (JsString × ν)) : List (JsString × ν) :=
  entries.insertionSort fun e f => e.1 ≤ f.1

/-- `canonicalize`, of a value that is neither an array nor an object with entries. -/
def canonicalizeLeaf : JsTree → Except Thrown JsTree
  | .null | .undefined => .ok .undefined
  | .bigint => .error (.error "BigInt not supported in job key")
  | .date (some iso) => .ok (.str iso)
  | .date none => .error ⟨.user "RangeError", "Invalid time value"⟩
  | .regexp => .ok (.obj (assigned []))
  | v => .ok v

/-- The values of an object, in the order of its keys. -/
def canonicalizeKeys (entries : List (JsString × Except Thrown JsTree)) :
    Except Thrown (List (JsString × JsTree)) :=
  (sortedByKey entries).mapM fun e => e.2.map (Prod.mk e.1)

/-- `canonicalize`. -/
def canonicalize : JsTree → Except Thrown JsTree :=
  fold canonicalizeLeaf (fun elements => (elements.mapM id).map .arr) fun entries =>
    (canonicalizeKeys entries).map fun values =>
      .obj (assigned (values.filter fun e => !isUndefined e.2))

/-- `createHash('sha256').update(json).digest('hex')`; `sha256` is the digest, in hexadecimal, of
the bytes of a text in UTF-8. -/
def digest (sha256 : JsString → JsString) : Option Json → Except Thrown JsString
  | some json => .ok (sha256 (toWellFormed (Json.stringify json)))
  | none => .error ⟨.typeError, "The \"data\" argument must be of type string or an instance of " ++
      "Buffer, TypedArray, or DataView. Received undefined"⟩

/-- `canonicalJobKey`. -/
def canonicalJobKey (sha256 : JsString → JsString) (params : JsTree) : Except Thrown JsString := do
  let canonical ← canonicalize params
  digest sha256 (toJson canonical)

/-! ### When parameters are the same -/

/-- `null` and `undefined`. -/
def isNullish : JsTree → Bool
  | .null | .undefined => true
  | _ => false

/-- A leaf of parameters: no `Date` without an ISO text, and nothing that JSON does not know. -/
def parameterLeaf : JsTree → Prop
  | .undefined | .null | .bool _ | .num _ | .str _ | .date (some _) => True
  | _ => False

/-- Nested arrays, and objects with distinct keys. -/
def Keyed (leaf : JsTree → Prop) : JsTree → Prop :=
  fold leaf (fun elements => ∀ p ∈ elements, p)
    fun entries => (entries.map Prod.fst).Nodup ∧ ∀ e ∈ entries, e.2

/-- The parameters of a job. -/
structure ParameterTree where
  entries : List (JsString × JsTree)
  keyed : Keyed parameterLeaf (.obj entries)

def ParameterTree.tree (params : ParameterTree) : JsTree := .obj params.entries

/-- A parameter tree is keyed, with parameters for leaves. -/
theorem ParameterTree.keyed_tree (params : ParameterTree) : Keyed parameterLeaf params.tree :=
  params.keyed

/-- A `Date` as its ISO text. -/
def dateText : JsTree → JsTree
  | .date (some iso) => .str iso
  | v => v

/-- With ISO texts for dates, and without the keys whose values are `null` or `undefined`. -/
def erased : JsTree → JsTree :=
  fold dateText .arr fun entries => .obj (entries.filter fun e => !isNullish e.2)

/-- With the keys of every object in order. -/
def sortKeys : JsTree → JsTree := fold id .arr fun entries => .obj (sortedByKey entries)

/-- Equal up to the order of keys, the omission of empty ones and the texts of dates. -/
def SameParameters (v w : JsTree) : Prop := sortKeys (erased v) = sortKeys (erased w)

/-- A number that is not finite as `null`, and `-0` as `0`. -/
def writtenNumber : JsTree → JsTree
  | .num .nan | .num (.infinity _) => .null
  | .num .negativeZero => .num (.finite zero)
  | v => v

/-- Without entries under `__proto__`, with one zero, and with `null` for every number that is not
finite and every element that is `undefined`. -/
def collapsed : JsTree → JsTree :=
  fold writtenNumber (fun elements => .arr (elements.map fun v => if isNullish v then .null else v))
    fun entries => .obj (entries.filter fun e => e.1 ≠ units "__proto__")

/-- The same but for what is collapsed. -/
def CollapseAlike (v w : JsTree) : Prop :=
  sortKeys (collapsed (erased v)) = sortKeys (collapsed (erased w))

/-! ### Sorted entries -/

section Sorted

variable {ν μ : Type} {entries entries' : List (JsString × ν)}

/-- Sorting by key permutes the entries. -/
theorem sortedByKey_perm (entries : List (JsString × ν)) : (sortedByKey entries).Perm entries :=
  List.perm_insertionSort _ _

/-- Sorted entries stand in the order of their keys. -/
theorem sortedByKey_pairwise (entries : List (JsString × ν)) :
    (sortedByKey entries).Pairwise fun e f => e.1 ≤ f.1 := by
  have : Std.Total fun e f : JsString × ν => e.1 ≤ f.1 := ⟨fun e f => List.le_total e.1 f.1⟩
  have : IsTrans (JsString × ν) fun e f => e.1 ≤ f.1 := ⟨fun _ _ _ => List.le_trans⟩
  exact List.pairwise_insertionSort _ _

/-- Sorting looks at the keys alone. -/
theorem sortedByKey_map (g : ν → μ) (entries : List (JsString × ν)) :
    sortedByKey (entries.map fun e => (e.1, g e.2)) =
      (sortedByKey entries).map fun e => (e.1, g e.2) :=
  (List.map_insertionSort (fun e f : JsString × ν => e.1 ≤ f.1)
    (fun e f : JsString × μ => e.1 ≤ f.1) (fun e : JsString × ν => (e.1, g e.2)) entries
    fun _ _ _ _ => Iff.rfl).symm

/-- Entries under distinct keys are one where their keys are. -/
theorem eq_of_mem_of_fst_eq (h : (entries.map Prod.fst).Nodup) {e f : JsString × ν}
    (he : e ∈ entries) (hf : f ∈ entries) (heq : e.1 = f.1) : e = f :=
  List.inj_on_of_nodup_map h he hf heq

/-- **Sorting tells entries apart** under distinct keys, and nothing else. -/
theorem sortedByKey_eq_iff (h : (entries.map Prod.fst).Nodup) :
    sortedByKey entries = sortedByKey entries' ↔ entries.Perm entries' := by
  constructor
  · intro heq
    have hperm := (sortedByKey_perm entries).symm
    rw [heq] at hperm
    exact hperm.trans (sortedByKey_perm entries')
  · intro hperm
    have hsorted := ((sortedByKey_perm entries).trans hperm).trans (sortedByKey_perm entries').symm
    refine List.Perm.eq_of_pairwise ?_ (sortedByKey_pairwise _) (sortedByKey_pairwise _) hsorted
    intro e f he hf hef hfe
    have he := (sortedByKey_perm entries).mem_iff.mp he
    have hf := hperm.mem_iff.mpr ((sortedByKey_perm entries').mem_iff.mp hf)
    exact eq_of_mem_of_fst_eq h he hf (List.le_antisymm hef hfe)

/-- So does the order in which sorted entries are listed. -/
theorem ownOrder_sortedByKey_eq_iff (h : (entries.map Prod.fst).Nodup) :
    ownOrder (sortedByKey entries) = ownOrder (sortedByKey entries') ↔ entries.Perm entries' := by
  constructor
  · intro heq
    have hperm := ((ownOrder_perm _).trans (sortedByKey_perm entries)).symm
    rw [heq] at hperm
    exact hperm.trans ((ownOrder_perm _).trans (sortedByKey_perm entries'))
  · intro hperm
    rw [(sortedByKey_eq_iff h).mpr hperm]

/-- Some of sorted entries are sorted. -/
theorem filter_sortedByKey (h : (entries.map Prod.fst).Nodup) (p : JsString × ν → Bool) :
    (sortedByKey entries).filter p = sortedByKey (entries.filter p) := by
  have hsorted := (sortedByKey_pairwise entries).sublist (List.filter_sublist (p := p))
  have hperm := (sortedByKey_perm entries).filter p
  have hkeys : (((sortedByKey entries).filter p).map Prod.fst).Nodup :=
    (List.filter_sublist.map Prod.fst).nodup (((sortedByKey_perm _).map Prod.fst).nodup_iff.mpr h)
  calc (sortedByKey entries).filter p
      = sortedByKey ((sortedByKey entries).filter p) := hsorted.insertionSort_eq.symm
    _ = sortedByKey (entries.filter p) := (sortedByKey_eq_iff hkeys).mpr hperm

end Sorted

/-! ### Parameters and their texts -/

section Parameters

variable {leaf : JsTree → Prop}

theorem keyed_arr (elements : List JsTree) :
    Keyed leaf (.arr elements) ↔ ∀ v ∈ elements, Keyed leaf v := by
  unfold Keyed
  rw [fold_arr]
  exact List.forall_mem_map

theorem keyed_obj (entries : List (JsString × JsTree)) : Keyed leaf (.obj entries) ↔
    (entries.map Prod.fst).Nodup ∧ ∀ e ∈ entries, Keyed leaf e.2 := by
  unfold Keyed
  rw [fold_obj, List.map_map]
  exact and_congr_right fun _ => List.forall_mem_map

theorem sortKeys_arr (elements : List JsTree) :
    sortKeys (.arr elements) = .arr (elements.map sortKeys) := fold_arr _ _ _ elements

theorem sortKeys_obj (entries : List (JsString × JsTree)) :
    sortKeys (.obj entries) = .obj (sortedByKey (entries.map fun e => (e.1, sortKeys e.2))) :=
  fold_obj _ _ _ entries

theorem erased_arr (elements : List JsTree) :
    erased (.arr elements) = .arr (elements.map erased) := fold_arr _ _ _ elements

/-- Erasing keeps whether a value is nullish. -/
theorem isNullish_erased (v : JsTree) : isNullish (erased v) = isNullish v := by
  cases v with
  | date iso => cases iso <;> rfl
  | _ => rfl

theorem erased_obj (entries : List (JsString × JsTree)) : erased (.obj entries) =
    .obj ((entries.filter fun e => !isNullish e.2).map fun e => (e.1, erased e.2)) := by
  have hsame : ((fun e : JsString × JsTree => !isNullish e.2) ∘ fun e => (e.1, erased e.2)) =
      fun e : JsString × JsTree => !isNullish e.2 :=
    funext fun e => congrArg not (isNullish_erased e.2)
  rw [erased, fold_obj, List.filter_map]
  exact congrArg (fun p => JsTree.obj ((entries.filter p).map fun e => (e.1, erased e.2))) hsame

theorem collapsed_arr (elements : List JsTree) : collapsed (.arr elements) =
    .arr (elements.map fun v => if isNullish (collapsed v) then .null else collapsed v) := by
  rw [collapsed, fold_arr, List.map_map]
  rfl

theorem collapsed_obj (entries : List (JsString × JsTree)) : collapsed (.obj entries) =
    .obj ((entries.filter fun e => e.1 ≠ units "__proto__").map fun e => (e.1, collapsed e.2)) := by
  rw [collapsed, fold_obj, List.filter_map]
  rfl

/-- Keys are distinct with other values, and of some of the entries. -/
theorem nodup_keys_map {ν μ : Type} {entries : List (JsString × ν)} (g : ν → μ)
    (h : (entries.map Prod.fst).Nodup) :
    ((entries.map fun e => (e.1, g e.2)).map Prod.fst).Nodup := by
  rw [List.map_map]
  exact h

/-- Keys that differ do so in part of the entries. -/
theorem nodup_keys_filter {ν : Type} {entries : List (JsString × ν)} (p : JsString × ν → Bool)
    (h : (entries.map Prod.fst).Nodup) : ((entries.filter p).map Prod.fst).Nodup :=
  (List.filter_sublist.map Prod.fst).nodup h

/-- Objects with the same sorted entries sort alike. -/
theorem sortKeys_obj_eq {entries entries' : List (JsString × JsTree)}
    (h : (entries.map Prod.fst).Nodup)
    (hperm : (entries.map fun e => (e.1, sortKeys e.2)).Perm
      (entries'.map fun e => (e.1, sortKeys e.2))) :
    sortKeys (.obj entries) = sortKeys (.obj entries') := by
  rw [sortKeys_obj, sortKeys_obj, (sortedByKey_eq_iff (nodup_keys_map sortKeys h)).mpr hperm]

/-- What is collapsed can be told from the sorted tree. -/
theorem sortKeys_collapsed_sortKeys {v : JsTree} (h : Keyed leaf v) :
    sortKeys (collapsed (sortKeys v)) = sortKeys (collapsed v) := by
  have hnullish (w : JsTree) : isNullish (collapsed (sortKeys w)) = isNullish (collapsed w) := by
    cases w <;> rfl
  induction v using JsTree.induction with
  | arr elements ih =>
      rw [keyed_arr] at h
      rw [sortKeys_arr, collapsed_arr, collapsed_arr, sortKeys_arr, sortKeys_arr, List.map_map,
        List.map_map, List.map_map]
      refine congrArg JsTree.arr (List.map_congr_left fun w hw => ?_)
      simp only [Function.comp_apply]
      rw [hnullish, apply_ite sortKeys, apply_ite sortKeys, ih w hw (h w hw)]
  | obj entries ih =>
      obtain ⟨hnodup, hbelow⟩ := (keyed_obj entries).mp h
      rw [sortKeys_obj, collapsed_obj, collapsed_obj]
      refine sortKeys_obj_eq (nodup_keys_map _ (nodup_keys_filter _ ?_)) ?_
      · exact ((sortedByKey_perm _).map Prod.fst).nodup_iff.mpr (nodup_keys_map sortKeys hnodup)
      · have hperm := (((sortedByKey_perm (entries.map fun e => (e.1, sortKeys e.2))).filter
          fun e => e.1 ≠ units "__proto__").map fun e => (e.1, collapsed e.2)).map
            fun e => (e.1, sortKeys e.2)
        refine hperm.trans (List.Perm.of_eq ?_)
        rw [List.filter_map, List.map_map, List.map_map, List.map_map]
        refine List.map_congr_left fun e he => ?_
        have hmem := (List.mem_filter.mp he).1
        exact congrArg (Prod.mk e.1) (ih e hmem (hbelow e hmem))
  | _ => rfl

/-- The text of a tree with sorted keys. -/
def textOf : JsTree → Json :=
  fold (fun v => (leafJson v).getD .null) .arr fun entries => .obj (ownOrder (sortedByKey entries))

theorem textOf_arr (elements : List JsTree) :
    textOf (.arr elements) = .arr (elements.map textOf) := fold_arr _ _ _ elements

theorem textOf_obj (entries : List (JsString × JsTree)) : textOf (.obj entries) =
    .obj (ownOrder (sortedByKey (entries.map fun e => (e.1, textOf e.2)))) :=
  fold_obj _ _ _ entries

/-- The order of keys does not matter to the text. -/
theorem textOf_sortKeys {v : JsTree} (h : Keyed leaf v) : textOf (sortKeys v) = textOf v := by
  induction v using JsTree.induction with
  | arr elements ih =>
      rw [keyed_arr] at h
      rw [sortKeys_arr, textOf_arr, textOf_arr, List.map_map]
      exact congrArg Json.arr (List.map_congr_left fun w hw => ih w hw (h w hw))
  | obj entries ih =>
      obtain ⟨hnodup, hbelow⟩ := (keyed_obj entries).mp h
      have hmap : (entries.map fun e => (e.1, sortKeys e.2)).map (fun e => (e.1, textOf e.2)) =
          entries.map fun e => (e.1, textOf e.2) := by
        rw [List.map_map]
        refine List.map_congr_left fun e he => ?_
        rw [Function.comp_apply, ih e he (hbelow e he)]
      have hperm := (sortedByKey_perm (entries.map fun e => (e.1, sortKeys e.2))).map
        fun e => (e.1, textOf e.2)
      rw [hmap] at hperm
      rw [sortKeys_obj, textOf_obj, textOf_obj, (ownOrder_sortedByKey_eq_iff ?_).mpr hperm]
      exact (hperm.map Prod.fst).nodup_iff.mpr (nodup_keys_map textOf hnodup)
  | _ => rfl

/-- A leaf that a text keeps. -/
def plainLeaf : JsTree → Prop
  | .null | .bool _ | .str _ | .num (.finite _) => True
  | _ => False

/-- The text tells trees apart that differ in more than the order of keys. -/
theorem sortKeys_ofJson_textOf {v : JsTree} (h : Keyed plainLeaf v) :
    sortKeys (ofJson (textOf v)) = sortKeys v := by
  induction v using JsTree.induction with
  | arr elements ih =>
      rw [keyed_arr] at h
      rw [textOf_arr, ofJson, ofJsonElements_eq, sortKeys_arr, sortKeys_arr, List.map_map,
        List.map_map]
      exact congrArg JsTree.arr (List.map_congr_left fun w hw => ih w hw (h w hw))
  | obj entries ih =>
      obtain ⟨hnodup, hbelow⟩ := (keyed_obj entries).mp h
      have hmembers := ((ownOrder_perm _).trans
        (sortedByKey_perm (entries.map fun e => (e.1, textOf e.2)))).map fun e => (e.1, ofJson e.2)
      have hkeys := (hmembers.map Prod.fst).nodup_iff.mpr
        (nodup_keys_map ofJson (nodup_keys_map textOf hnodup))
      rw [textOf_obj, ofJson, ofJsonMembers_eq, created_of_nodup hkeys]
      refine sortKeys_obj_eq (((ownOrder_perm _).map Prod.fst).nodup_iff.mpr hkeys) ?_
      refine (((ownOrder_perm _).trans hmembers).map _).trans (List.Perm.of_eq ?_)
      rw [List.map_map, List.map_map]
      exact List.map_congr_left fun e he => congrArg (Prod.mk e.1) (ih e he (hbelow e he))
  | num n =>
      cases n with
      | finite literal => rfl
      | _ => exact h.elim
  | undefined | bigint | symbol | function | date iso | regexp => exact h.elim
  | _ => rfl

/-- Two keyed values have one text exactly when they sort alike. -/
theorem textOf_eq_iff {v w : JsTree} (hv : Keyed plainLeaf v) (hw : Keyed plainLeaf w) :
    textOf v = textOf w ↔ sortKeys v = sortKeys w := by
  constructor
  · intro h
    rw [← sortKeys_ofJson_textOf hv, h, sortKeys_ofJson_textOf hw]
  · intro h
    rw [← textOf_sortKeys hv, h, textOf_sortKeys hw]

end Parameters

/-! ### Canonical parameters -/

section Canonical

/-- What `canonicalize` makes of a leaf of parameters. -/
def canonicalLeaf : JsTree → JsTree
  | .null => .undefined
  | .date (some iso) => .str iso
  | v => v

/-- What `canonicalize` makes of parameters. -/
def canonical : JsTree → JsTree :=
  fold canonicalLeaf .arr fun entries =>
    .obj (assigned ((sortedByKey entries).filter fun e => !isUndefined e.2))

theorem canonical_arr (elements : List JsTree) :
    canonical (.arr elements) = .arr (elements.map canonical) := fold_arr _ _ _ elements

theorem canonical_obj (entries : List (JsString × JsTree)) : canonical (.obj entries) =
    .obj (assigned ((sortedByKey (entries.map fun e => (e.1, canonical e.2))).filter
      fun e => !isUndefined e.2)) :=
  fold_obj _ _ _ entries

/-- Only nullish values become undefined. -/
theorem isUndefined_canonical (v : JsTree) : isUndefined (canonical v) = isNullish v := by
  cases v with
  | date iso => cases iso <;> rfl
  | _ => rfl

/-- The assignments leave the entries that are not empty and not under `__proto__`. -/
theorem canonical_obj_of_nodup {entries : List (JsString × JsTree)}
    (h : (entries.map Prod.fst).Nodup) : canonical (.obj entries) =
      .obj (ownOrder (sortedByKey (((entries.filter fun e => !isNullish e.2).filter
        fun e => e.1 ≠ units "__proto__").map fun e => (e.1, canonical e.2)))) := by
  have hsame : ((fun e : JsString × JsTree => !isUndefined e.2) ∘
      fun e => (e.1, canonical e.2)) = fun e : JsString × JsTree => !isNullish e.2 :=
    funext fun e => congrArg not (isUndefined_canonical e.2)
  have hnodup := nodup_keys_map canonical h
  have hkept := nodup_keys_filter (fun e => !isUndefined e.2) hnodup
  have hproto := nodup_keys_filter (fun e => decide (e.1 ≠ units "__proto__")) hkept
  rw [canonical_obj, assigned, filter_sortedByKey hnodup, filter_sortedByKey hkept,
    created_of_nodup (((sortedByKey_perm _).map Prod.fst).nodup_iff.mpr hproto), List.filter_map,
    List.filter_map, hsame]
  rfl

/-- Where every value is canonical the keys are sorted. -/
theorem canonicalizeKeys_ok (values : List (JsString × JsTree)) :
    canonicalizeKeys (values.map fun e => (e.1, .ok e.2)) = .ok (sortedByKey values) := by
  rw [canonicalizeKeys, sortedByKey_map, List.mapM_map]
  exact List.mapM_pure.trans (congrArg Except.ok (List.map_id _))

/-- Parameters raise no error. -/
theorem canonicalize_eq_ok {v : JsTree} (h : Keyed parameterLeaf v) :
    canonicalize v = .ok (canonical v) := by
  induction v using JsTree.induction with
  | arr elements ih =>
      rw [keyed_arr] at h
      have hbelow : elements.map canonicalize = elements.map fun v => pure (canonical v) :=
        List.map_congr_left fun v hv => ih v hv (h v hv)
      rw [canonicalize, fold_arr, canonical_arr]
      change ((elements.map canonicalize).mapM id).map JsTree.arr = _
      rw [hbelow, List.mapM_map]
      exact congrArg (Except.map JsTree.arr) List.mapM_pure
  | obj entries ih =>
      obtain ⟨-, hbelow⟩ := (keyed_obj entries).mp h
      have hentries : (entries.map fun e => (e.1, canonicalize e.2)) =
          (entries.map fun e => (e.1, canonical e.2)).map fun e => (e.1, .ok e.2) := by
        rw [List.map_map]
        exact List.map_congr_left fun e he => congrArg (Prod.mk e.1) (ih e he (hbelow e he))
      rw [canonicalize, fold_obj, canonical_obj]
      change (canonicalizeKeys (entries.map fun e => (e.1, canonicalize e.2))).map _ = _
      rw [hentries, canonicalizeKeys_ok]
      rfl
  | date iso =>
      cases iso with
      | none => exact h.elim
      | some iso => rfl
  | bigint | symbol | function | regexp => exact h.elim
  | _ => rfl

/-- The text of what is left after `canonicalize` and `JSON.stringify`. -/
def keptText (v : JsTree) : Json := textOf (collapsed (erased v))

/-- A nullish value is kept as null. -/
theorem keptText_of_isNullish {v : JsTree} (h : isNullish v = true) : keptText v = .null := by
  cases v with
  | undefined | null => rfl
  | _ => cases h

theorem keptText_arr (elements : List JsTree) :
    keptText (.arr elements) = .arr (elements.map keptText) := by
  have hpatch (w : JsTree) : textOf (if isNullish w then .null else w) = textOf w := by
    cases w <;> rfl
  rw [keptText, erased_arr, collapsed_arr, textOf_arr, List.map_map, List.map_map]
  exact congrArg Json.arr (List.map_congr_left fun v _ => hpatch _)

theorem keptText_obj (entries : List (JsString × JsTree)) : keptText (.obj entries) =
    .obj (ownOrder (sortedByKey (((entries.filter fun e => !isNullish e.2).filter
      fun e => e.1 ≠ units "__proto__").map fun e => (e.1, keptText e.2)))) := by
  rw [keptText, erased_obj, collapsed_obj, textOf_obj, List.filter_map, List.map_map, List.map_map]
  rfl

/-- **What is written of parameters** is the text of what is left of them. -/
theorem toJson_canonical {v : JsTree} (h : Keyed parameterLeaf v) :
    toJson (canonical v) = if isNullish v then none else some (keptText v) := by
  induction v using JsTree.induction with
  | arr elements ih =>
      rw [keyed_arr] at h
      rw [canonical_arr, keptText_arr, toJson, fold_arr, List.map_map, List.map_map]
      refine congrArg (some ∘ Json.arr) (List.map_congr_left fun v hv => ?_)
      change (toJson (canonical v)).getD .null = keptText v
      rw [ih v hv (h v hv)]
      cases hnull : isNullish v with
      | false => rfl
      | true => exact (keptText_of_isNullish hnull).symm
  | obj entries ih =>
      obtain ⟨hnodup, hbelow⟩ := (keyed_obj entries).mp h
      have hkept : ∀ e ∈ (entries.filter fun e => !isNullish e.2).filter
          fun e => e.1 ≠ units "__proto__", toJson (canonical e.2) = some (keptText e.2) := by
        intro e he
        obtain ⟨hmem, hnull⟩ := List.mem_filter.mp (List.mem_filter.mp he).1
        rw [ih e hmem (hbelow e hmem), if_neg (by simpa using hnull)]
      rw [canonical_obj_of_nodup hnodup, keptText_obj]
      generalize ((entries.filter fun e => !isNullish e.2).filter
        fun e => e.1 ≠ units "__proto__") = kept at hkept
      rw [toJson_obj_of_forall ?_, ← ownOrder_map fun v => (toJson v).getD .null,
        ← sortedByKey_map fun v => (toJson v).getD .null, List.map_map]
      · refine congrArg (fun members => some (Json.obj (ownOrder (sortedByKey members))))
          (List.map_congr_left fun e he => ?_)
        rw [Function.comp_apply, hkept e he, Option.getD_some]
      · intro e he
        have hmem := (sortedByKey_perm _).mem_iff.mp ((ownOrder_perm _).mem_iff.mp he)
        obtain ⟨f, hf, rfl⟩ := List.mem_map.mp hmem
        rw [hkept f hf]
        rfl
  | num n => cases n <;> rfl
  | date iso =>
      cases iso with
      | none => exact h.elim
      | some iso => rfl
  | bigint | symbol | function | regexp => exact h.elim
  | _ => rfl

/-- Erasing keeps a tree keyed. -/
theorem keyed_erased {leaf : JsTree → Prop} {v : JsTree} (h : Keyed leaf v) :
    Keyed (fun _ => True) (erased v) := by
  induction v using JsTree.induction with
  | arr elements ih =>
      rw [keyed_arr] at h
      rw [erased_arr, keyed_arr, List.forall_mem_map]
      exact fun v hv => ih v hv (h v hv)
  | obj entries ih =>
      obtain ⟨hnodup, hbelow⟩ := (keyed_obj entries).mp h
      rw [erased_obj, keyed_obj, List.forall_mem_map]
      refine ⟨nodup_keys_map erased (nodup_keys_filter _ hnodup), fun e he => ?_⟩
      have hmem := (List.mem_filter.mp he).1
      exact ih e hmem (hbelow e hmem)
  | date iso => cases iso <;> trivial
  | _ => trivial

/-- What is left of parameters is kept by a text. -/
theorem keyed_collapsed_erased {v : JsTree} (h : Keyed parameterLeaf v)
    (hnull : isNullish v = false) : Keyed plainLeaf (collapsed (erased v)) := by
  induction v using JsTree.induction with
  | arr elements ih =>
      rw [keyed_arr] at h
      rw [erased_arr, collapsed_arr, keyed_arr, List.map_map, List.forall_mem_map]
      intro v hv
      rw [Function.comp_apply]
      split
      · trivial
      · next hkept =>
          refine ih v hv (h v hv) (Bool.eq_false_iff.mpr fun hv => hkept ?_)
          cases v with
          | undefined | null => rfl
          | _ => cases hv
  | obj entries ih =>
      obtain ⟨hnodup, hbelow⟩ := (keyed_obj entries).mp h
      rw [erased_obj, collapsed_obj, List.filter_map, List.map_map, keyed_obj,
        List.forall_mem_map]
      refine ⟨?_, fun e he => ?_⟩
      · exact nodup_keys_map (fun v => collapsed (erased v))
          (nodup_keys_filter _ (nodup_keys_filter _ hnodup))
      · obtain ⟨hmem, hnull⟩ := List.mem_filter.mp (List.mem_filter.mp he).1
        exact ih e hmem (hbelow e hmem) (by simpa using hnull)
  | num n => cases n <;> trivial
  | date iso =>
      cases iso with
      | none => exact h.elim
      | some iso => trivial
  | undefined | null => cases hnull
  | bigint | symbol | function | regexp => exact h.elim
  | _ => trivial

end Canonical

/-! ### Which parameters share a key -/

section Keys

variable {sha256 : JsString → JsString} {a b : ParameterTree}

/-- The key of a parameter tree is the hash of its kept text. -/
theorem canonicalJobKey_eq_ok (sha256 : JsString → JsString) (params : ParameterTree) :
    canonicalJobKey sha256 params.tree = .ok (sha256 (Json.stringify (keptText params.tree))) := by
  have hjson : toJson (canonical params.tree) = some (keptText params.tree) :=
    toJson_canonical params.keyed_tree
  have hwell : toWellFormed (Json.stringify (keptText params.tree)) = _ :=
    Json.isWellFormed_stringify _
  rw [canonicalJobKey, canonicalize_eq_ok params.keyed_tree]
  change digest sha256 (toJson (canonical params.tree)) = _
  rw [hjson, digest, hwell]

/-- Parameters that are the same are so for the text. -/
theorem SameParameters.collapseAlike (h : SameParameters a.tree b.tree) :
    CollapseAlike a.tree b.tree := by
  have ha := sortKeys_collapsed_sortKeys (keyed_erased a.keyed_tree)
  have hb := sortKeys_collapsed_sortKeys (keyed_erased b.keyed_tree)
  calc sortKeys (collapsed (erased a.tree))
      = sortKeys (collapsed (sortKeys (erased a.tree))) := ha.symm
    _ = sortKeys (collapsed (sortKeys (erased b.tree))) := by rw [h]
    _ = sortKeys (collapsed (erased b.tree)) := hb

/-- Two parameter trees have one key exactly when they collapse alike. -/
theorem canonicalJobKey_eq_iff (hsha : Function.Injective sha256) :
    canonicalJobKey sha256 a.tree = canonicalJobKey sha256 b.tree ↔
      CollapseAlike a.tree b.tree := by
  rw [canonicalJobKey_eq_ok, canonicalJobKey_eq_ok, Except.ok.injEq, hsha.eq_iff,
    Json.stringify_injective.eq_iff]
  exact textOf_eq_iff (keyed_collapsed_erased a.keyed_tree rfl)
    (keyed_collapsed_erased b.keyed_tree rfl)

/-- **Job keys identify parameters** that do not differ in what is collapsed alone. -/
theorem job_keys_identify_iff (hsha : Function.Injective sha256) (a b : ParameterTree) :
    (canonicalJobKey sha256 a.tree = canonicalJobKey sha256 b.tree ↔
        SameParameters a.tree b.tree) ↔
      (CollapseAlike a.tree b.tree → SameParameters a.tree b.tree) := by
  rw [canonicalJobKey_eq_iff hsha]
  constructor
  · intro h
    exact h.mp
  · intro h
    exact ⟨h, SameParameters.collapseAlike⟩

/-- In particular, parameters of which nothing is collapsed. -/
theorem job_keys_identify_of_collapsed_eq (hsha : Function.Injective sha256)
    (ha : collapsed (erased a.tree) = erased a.tree)
    (hb : collapsed (erased b.tree) = erased b.tree) :
    canonicalJobKey sha256 a.tree = canonicalJobKey sha256 b.tree ↔
      SameParameters a.tree b.tree := by
  rw [canonicalJobKey_eq_iff hsha, CollapseAlike, ha, hb, SameParameters]

/-- The parameters `{ limit }`. -/
def limited (limit : JsNumber) : ParameterTree :=
  ⟨[(units "limit", .num limit)], by
    rw [keyed_obj]
    exact ⟨List.nodup_singleton _, fun e he => by rw [List.mem_singleton.mp he]; trivial⟩⟩

/-- The parameters `{ limit, from: null }`. -/
def limitedFromStart (limit : JsNumber) : ParameterTree :=
  ⟨(units "from", .null) :: (limited limit).entries, by
    rw [keyed_obj]
    refine ⟨?_, List.forall_mem_cons.mpr ⟨trivial, ((keyed_obj _).mp (limited limit).keyed).2⟩⟩
    change [units "from", units "limit"].Nodup
    decide⟩

/-- `1`. -/
def one : NumberText := ⟨units "1", by decide, by decide⟩

/-- The digest of `{"limit":1}`. -/
def limitDigest : JsString :=
  units "156fedef9af97685d0e6f43eebe55d8ae67fcbf34b2fea23c2b1af061b4bcdf0"

/-- A digest that is the real one of one text, and tells all others apart. -/
def sampleSha256 (text : JsString) : JsString :=
  if text = units "\x7b\"limit\":1\x7d" then limitDigest else limitDigest ++ 0 :: text

theorem sampleSha256_injective : Function.Injective sampleSha256 := by
  intro s t h
  unfold sampleSha256 at h
  split at h
  · next hs =>
      split at h
      · next ht => rw [hs, ht]
      · exact absurd (List.self_eq_append_right.mp h) (List.cons_ne_nil _ _)
  · split at h
    · exact absurd (List.append_right_eq_self.mp h) (List.cons_ne_nil _ _)
    · exact (List.cons.inj (List.append_cancel_left h)).2

/-- A key that is empty makes no difference. -/
theorem job_key_of_empty_value :
    canonicalJobKey sampleSha256 (limitedFromStart (.finite one)).tree =
      canonicalJobKey sampleSha256 (limited (.finite one)).tree := by
  have hsame : SameParameters (limitedFromStart (.finite one)).tree (limited (.finite one)).tree :=
    rfl
  exact ((job_keys_identify_iff sampleSha256_injective _ _).mpr fun _ => hsame).mpr hsame

/-- Whatever the digest is, two numbers that are not finite share a key. -/
theorem job_key_of_two_numbers :
    (∀ sha256, canonicalJobKey sha256 (limited .nan).tree =
        canonicalJobKey sha256 (limited (.infinity false)).tree) ∧
      ¬ SameParameters (limited .nan).tree (limited (.infinity false)).tree := by
  constructor
  · intro sha256
    have htext : keptText (limited .nan).tree = keptText (limited (.infinity false)).tree := rfl
    rw [canonicalJobKey_eq_ok, canonicalJobKey_eq_ok, htext]
  · intro h
    cases h

end Keys

end NestBatch
