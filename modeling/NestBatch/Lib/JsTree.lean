import Mathlib.Data.List.Sort
import NestBatch.Lib.JsHeap
import NestBatch.Lib.JsRecord
import NestBatch.Lib.JsonText

/-!
# Values as trees

A value that shares no object with itself is a tree.  An object stands here with its own
keys in the order in which they are listed: array indices first, in ascending order, and
then the others as they were made.

`fold` is the recursion over a tree; JSON's own conversions are folds.
-/

open JsString

/-- A value as a tree; a `Date` is known by its ISO text, which an invalid one has not. -/
inductive JsTree
  | undefined
  | null
  | bool (b : Bool)
  | num (n : JsNumber)
  | str (s : JsString)
  | bigint
  | symbol
  | function
  | date (iso : Option JsString)
  | regexp
  | arr (elements : List JsTree)
  | obj (entries : List (JsString × JsTree))

/-! ### The order of own keys -/

section Order

variable {ν : Type}

/-- The array index that a key is. -/
def keyIndex? (key : JsString) : Option Nat :=
  arrayIndex? (String.ofList (key.map fun u => Char.ofNat u.toNat))

/-- The first key is listed in front of the second one, whenever they were made. -/
def listedBefore (e f : JsString × ν) : Bool :=
  (keyIndex? f.1).all fun n => (keyIndex? e.1).any (· ≤ n)

/-- Entries in the order in which they are listed. -/
def ownOrder (entries : List (JsString × ν)) : List (JsString × ν) :=
  entries.insertionSort fun e f => listedBefore e f

/-- The entries of an object to which properties are added, one after another. -/
def created (entries : List (JsString × ν)) : List (JsString × ν) :=
  ownOrder (entries.foldl (fun made e => JsMap.setEntries made e.1 e.2) [])

/-- The entries of an object `{}` after assignments; one to `__proto__` makes no entry. -/
def assigned (entries : List (JsString × ν)) : List (JsString × ν) :=
  created (entries.filter fun e => e.1 ≠ units "__proto__")

/-- Entries under distinct keys, in the order in which they are listed. -/
structure Listed (entries : List (JsString × ν)) : Prop where
  nodup : (entries.map Prod.fst).Nodup
  ordered : entries.Pairwise fun e f => listedBefore e f

variable {entries : List (JsString × ν)}

/-- Of two entries one is listed before the other. -/
theorem listedBefore_total (e f : JsString × ν) :
    listedBefore e f = true ∨ listedBefore f e = true := by
  unfold listedBefore
  cases keyIndex? e.1 with
  | none => exact Or.inr rfl
  | some m =>
      cases keyIndex? f.1 with
      | none => exact Or.inl rfl
      | some n =>
          rcases Nat.le_total m n with h | h
          · exact Or.inl (decide_eq_true h)
          · exact Or.inr (decide_eq_true h)

theorem listedBefore_trans {e f g : JsString × ν} (hef : listedBefore e f = true)
    (hfg : listedBefore f g = true) : listedBefore e g = true := by
  unfold listedBefore at *
  cases hg : keyIndex? g.1 with
  | none => rfl
  | some k =>
      cases hf : keyIndex? f.1 with
      | none =>
          rw [hg, hf] at hfg
          cases hfg
      | some n =>
          cases he : keyIndex? e.1 with
          | none =>
              rw [hf, he] at hef
              cases hef
          | some m =>
              rw [hf, he] at hef
              rw [hg, hf] at hfg
              exact decide_eq_true (Nat.le_trans (of_decide_eq_true hef) (of_decide_eq_true hfg))

/-- Putting entries in order permutes them. -/
theorem ownOrder_perm (entries : List (JsString × ν)) : (ownOrder entries).Perm entries :=
  List.perm_insertionSort _ _

/-- Entries that are put in order are listed. -/
theorem ownOrder_pairwise (entries : List (JsString × ν)) :
    (ownOrder entries).Pairwise fun e f => listedBefore e f := by
  have : Std.Total fun e f : JsString × ν => listedBefore e f = true := ⟨listedBefore_total⟩
  have : IsTrans (JsString × ν) fun e f => listedBefore e f = true :=
    ⟨fun _ _ _ => listedBefore_trans⟩
  exact List.pairwise_insertionSort _ _

/-- Keys that are added one after another under names of their own are as they were added. -/
theorem foldl_setEntries (made : List (JsString × ν))
    (h : ((made ++ entries).map Prod.fst).Nodup) :
    entries.foldl (fun made e => JsMap.setEntries made e.1 e.2) made = made ++ entries := by
  induction entries generalizing made with
  | nil => exact (List.append_nil made).symm
  | cons e rest ih =>
      have hset : JsMap.setEntries made e.1 e.2 = made ++ [e] := by
        have hnot : e.1 ∉ made.map Prod.fst := by
          rw [List.map_append, List.map_cons] at h
          exact fun hmem => List.disjoint_of_nodup_append h hmem List.mem_cons_self
        clear h ih
        induction made with
        | nil => rfl
        | cons first made ih =>
            rw [List.map_cons, List.mem_cons, not_or] at hnot
            rw [JsMap.setEntries, if_neg (Ne.symm hnot.1), ih hnot.2]
            rfl
      have happend : made ++ e :: rest = (made ++ [e]) ++ rest := by simp
      rw [List.foldl_cons, hset, happend]
      rw [happend] at h
      exact ih _ h

/-- Entries with different keys are created in order. -/
theorem created_of_nodup (h : (entries.map Prod.fst).Nodup) : created entries = ownOrder entries :=
  congrArg ownOrder (foldl_setEntries [] h)

/-- Entries that are listed are created as they are. -/
theorem Listed.created (h : Listed entries) : created entries = entries := by
  rw [created_of_nodup h.nodup]
  exact h.ordered.insertionSort_eq

/-- Part of a listing is a listing. -/
theorem Listed.sublist {entries' : List (JsString × ν)} (h : Listed entries)
    (hsub : entries'.Sublist entries) : Listed entries' :=
  ⟨(hsub.map Prod.fst).nodup h.nodup, h.ordered.sublist hsub⟩

/-- Entries that are listed are assigned as they are, but for `__proto__`. -/
theorem Listed.assigned (h : Listed entries) :
    assigned entries = entries.filter fun e => e.1 ≠ units "__proto__" :=
  (h.sublist List.filter_sublist).created

/-- Entries with different keys are a listing once they are ordered. -/
theorem listed_ownOrder (h : (entries.map Prod.fst).Nodup) : Listed (ownOrder entries) :=
  ⟨((ownOrder_perm entries).map Prod.fst).nodup_iff.mpr h, ownOrder_pairwise entries⟩

/-- The order goes by the keys alone. -/
theorem listed_map_iff {μ : Type} (g : ν → μ) :
    Listed (entries.map fun e => (e.1, g e.2)) ↔ Listed entries := by
  have hkeys : (entries.map fun e => (e.1, g e.2)).map Prod.fst = entries.map Prod.fst := by
    rw [List.map_map]
    rfl
  constructor
  · intro h
    obtain ⟨hnodup, hordered⟩ := h
    exact ⟨hkeys ▸ hnodup, List.pairwise_map.mp hordered⟩
  · intro h
    obtain ⟨hnodup, hordered⟩ := h
    exact ⟨hkeys.symm ▸ hnodup, List.pairwise_map.mpr hordered⟩

/-- Ordering looks at the keys alone. -/
theorem ownOrder_map {μ : Type} (g : ν → μ) (entries : List (JsString × ν)) :
    ownOrder (entries.map fun e => (e.1, g e.2)) =
      (ownOrder entries).map fun e => (e.1, g e.2) :=
  (List.map_insertionSort (fun e f => listedBefore e f = true)
    (fun e f => listedBefore e f = true) (fun e : JsString × ν => (e.1, g e.2)) entries
    fun _ _ _ _ => Iff.rfl).symm

end Order

namespace JsTree

/-- A tree is made of the trees in it. -/
@[elab_as_elim]
theorem induction {P : JsTree → Prop} (undefined : P .undefined) (null : P .null)
    (bool : ∀ b, P (.bool b)) (num : ∀ n, P (.num n)) (str : ∀ s, P (.str s))
    (bigint : P .bigint) (symbol : P .symbol) (function : P .function)
    (date : ∀ iso, P (.date iso)) (regexp : P .regexp)
    (arr : ∀ elements, (∀ v ∈ elements, P v) → P (.arr elements))
    (obj : ∀ entries, (∀ e ∈ entries, P e.2) → P (.obj entries)) (v : JsTree) : P v :=
  JsTree.rec (motive_1 := P) (motive_2 := fun elements => ∀ v ∈ elements, P v)
    (motive_3 := fun entries => ∀ e ∈ entries, P e.2) (motive_4 := fun e => P e.2)
    undefined null bool num str bigint symbol function date regexp arr obj
    (List.forall_mem_nil _) (fun _ _ hv hrest => List.forall_mem_cons.mpr ⟨hv, hrest⟩)
    (List.forall_mem_nil _) (fun _ _ he hrest => List.forall_mem_cons.mpr ⟨he, hrest⟩)
    (fun _ _ hv => hv) v

section Fold

variable {β : Type} (leaf : JsTree → β) (array : List β → β) (object : List (JsString × β) → β)

mutual

/-- What comes of a tree from what comes of its leaves, arrays and objects. -/
def fold : JsTree → β
  | .arr elements => array (foldElements elements)
  | .obj entries => object (foldEntries entries)
  | v => leaf v

def foldElements : List JsTree → List β
  | [] => []
  | v :: rest => fold v :: foldElements rest

def foldEntries : List (JsString × JsTree) → List (JsString × β)
  | [] => []
  | (key, v) :: rest => (key, fold v) :: foldEntries rest

end

theorem fold_arr (elements : List JsTree) : fold leaf array object (.arr elements) =
    array (elements.map (fold leaf array object)) := by
  rw [fold]
  congr 1
  induction elements with
  | nil => rfl
  | cons v rest ih => rw [foldElements, ih, List.map_cons]

theorem fold_obj (entries : List (JsString × JsTree)) : fold leaf array object (.obj entries) =
    object (entries.map fun e => (e.1, fold leaf array object e.2)) := by
  rw [fold]
  congr 1
  induction entries with
  | nil => rfl
  | cons e rest ih => rw [foldEntries, ih, List.map_cons]

end Fold

/-! ### JSON -/

/-- `0`. -/
def zero : NumberText := ⟨units "0", by decide, by decide⟩

/-- How a value that holds nothing is written, if it is. -/
def leafJson : JsTree → Option Json
  | .null | .date none | .num .nan | .num (.infinity _) => some .null
  | .bool b => some (.bool b)
  | .num (.finite n) => some (.num n)
  | .num .negativeZero => some (.num zero)
  | .str s | .date (some s) => some (.str s)
  | .regexp => some (.obj [])
  | _ => none

/-- What `JSON.stringify` writes for a value without `bigint`s, if anything. -/
def toJson : JsTree → Option Json :=
  fold leafJson (fun elements => some (.arr (elements.map fun e => e.getD .null)))
    fun entries => some (.obj (entries.filterMap fun e => e.2.map fun v => (e.1, v)))

mutual

/-- The value that `JSON.parse` makes. -/
def ofJson : Json → JsTree
  | .null => .null
  | .bool b => .bool b
  | .num n => .num (.finite n)
  | .str s => .str s
  | .arr elements => .arr (ofJsonElements elements)
  | .obj members => .obj (created (ofJsonMembers members))

def ofJsonElements : List Json → List JsTree
  | [] => []
  | v :: rest => ofJson v :: ofJsonElements rest

def ofJsonMembers : List (JsString × Json) → List (JsString × JsTree)
  | [] => []
  | (name, v) :: rest => (name, ofJson v) :: ofJsonMembers rest

end

/-- What a value that is written comes back as; `undefined` where nothing is written. -/
def throughJson (v : JsTree) : JsTree := (toJson v).elim .undefined ofJson

def isUndefined : JsTree → Bool
  | .undefined => true
  | _ => false

theorem isUndefined_eq_true_iff {v : JsTree} : isUndefined v = true ↔ v = .undefined := by
  cases v <;> simp [isUndefined]

/-- Every object lists distinct keys in order. -/
def WellKeyed : JsTree → Prop :=
  fold (fun _ => True) (fun elements => ∀ p ∈ elements, p)
    fun entries => Listed entries ∧ ∀ e ∈ entries, e.2

theorem wellKeyed_arr (elements : List JsTree) :
    WellKeyed (.arr elements) ↔ ∀ v ∈ elements, WellKeyed v := by
  unfold WellKeyed
  rw [fold_arr]
  exact List.forall_mem_map

theorem wellKeyed_obj (entries : List (JsString × JsTree)) :
    WellKeyed (.obj entries) ↔ Listed entries ∧ ∀ e ∈ entries, WellKeyed e.2 := by
  unfold WellKeyed
  rw [fold_obj, listed_map_iff]
  exact and_congr_right fun _ => List.forall_mem_map

theorem ofJsonElements_eq (elements : List Json) :
    ofJsonElements elements = elements.map ofJson := by
  induction elements with
  | nil => rfl
  | cons v rest ih => rw [ofJsonElements, ih, List.map_cons]

theorem ofJsonMembers_eq (members : List (JsString × Json)) :
    ofJsonMembers members = members.map fun m => (m.1, ofJson m.2) := by
  induction members with
  | nil => rfl
  | cons m rest ih => rw [ofJsonMembers, ih, List.map_cons]

/-- A JSON value is defined. -/
theorem isUndefined_ofJson (v : Json) : isUndefined (ofJson v) = false := by
  cases v <;> rfl

/-- Undefined is what is not written. -/
theorem isUndefined_throughJson (v : JsTree) :
    isUndefined (throughJson v) = (toJson v).isNone := by
  unfold throughJson
  cases toJson v with
  | none => rfl
  | some written => exact isUndefined_ofJson written

/-- In an array `null` stands where nothing is written. -/
theorem throughJson_arr (elements : List JsTree) : throughJson (.arr elements) =
    .arr (elements.map fun v => if isUndefined (throughJson v) then .null else throughJson v) := by
  have helement (v : JsTree) : ofJson ((toJson v).getD .null) =
      if isUndefined (throughJson v) then .null else throughJson v := by
    rw [isUndefined_throughJson, throughJson]
    cases toJson v <;> rfl
  rw [throughJson, toJson, fold_arr]
  change JsTree.arr (ofJsonElements _) = _
  rw [ofJsonElements_eq, List.map_map, List.map_map]
  exact congrArg JsTree.arr (List.map_congr_left fun v _ => helement v)

/-- An object comes back with the entries of which something is written. -/
theorem throughJson_obj {entries : List (JsString × JsTree)} (h : Listed entries) :
    throughJson (.obj entries) =
      .obj ((entries.map fun e => (e.1, throughJson e.2)).filter fun e => !isUndefined e.2) := by
  have hmade : ((entries.map fun e => (e.1, toJson e.2)).filterMap fun e =>
      e.2.map fun v => (e.1, v)).map (fun m => (m.1, ofJson m.2)) =
      (entries.map fun e => (e.1, throughJson e.2)).filter fun e => !isUndefined e.2 := by
    clear h
    induction entries with
    | nil => rfl
    | cons e rest ih =>
        have hnone := isUndefined_throughJson e.2
        rw [List.map_cons, List.map_cons, List.filter_cons]
        dsimp only
        rw [hnone, ← ih, throughJson]
        cases toJson e.2 <;> rfl
  have hlisted := ((listed_map_iff throughJson).mpr h).sublist
    (List.filter_sublist (p := fun e => !isUndefined e.2))
  rw [throughJson, toJson, fold_obj]
  change JsTree.obj (created (ofJsonMembers _)) = _
  rw [ofJsonMembers_eq]
  change JsTree.obj (created (List.map _ (List.filterMap _
    (entries.map fun e => (e.1, toJson e.2))))) = _
  rw [hmade, hlisted.created]

/-- An object of whose every value something is written. -/
theorem toJson_obj_of_forall {entries : List (JsString × JsTree)}
    (h : ∀ e ∈ entries, (toJson e.2).isSome) : toJson (.obj entries) =
      some (.obj (entries.map fun e => (e.1, (toJson e.2).getD .null))) := by
  have hobj : toJson (.obj entries) = some (.obj (List.filterMap
      (fun e => e.2.map fun v => (e.1, v)) (entries.map fun e => (e.1, toJson e.2)))) :=
    fold_obj _ _ _ entries
  rw [hobj, List.filterMap_map]
  refine congrArg (some ∘ Json.obj) (List.filterMap_eq_map_iff_forall_eq_some.mpr fun e he => ?_)
  obtain ⟨written, hwritten⟩ := Option.isSome_iff_exists.mp (h e he)
  simp only [Function.comp_apply, hwritten, Option.map_some, Option.getD_some]

/-! ### Leaves and keys -/

/-- A tree without the undefined values of its objects. -/
def pruned : JsTree → JsTree :=
  fold id .arr fun entries => .obj (entries.filter fun e => !isUndefined e.2)

/-- What is said of every leaf and of every key. -/
def Holds (leaf : JsTree → Prop) (key : JsString → Prop) : JsTree → Prop :=
  fold leaf (fun elements => ∀ p ∈ elements, p) fun entries => ∀ e ∈ entries, key e.1 ∧ e.2

/-- A tree with other leaves, without undefined values and entries under `__proto__`. -/
def image (leaf : JsTree → JsTree) : JsTree → JsTree :=
  fold leaf .arr fun entries =>
    .obj (entries.filter fun e => e.1 ≠ units "__proto__" ∧ !isUndefined e.2)

theorem pruned_arr (elements : List JsTree) : pruned (.arr elements) = .arr (elements.map pruned) :=
  fold_arr _ _ _ elements

/-- Pruning makes nothing undefined and defines nothing. -/
theorem isUndefined_pruned (v : JsTree) : isUndefined (pruned v) = isUndefined v := by
  cases v <;> rfl

theorem pruned_obj (entries : List (JsString × JsTree)) : pruned (.obj entries) =
    .obj ((entries.filter fun e => !isUndefined e.2).map fun e => (e.1, pruned e.2)) := by
  rw [pruned, fold_obj, List.filter_map]
  have hsame : ((fun e : JsString × JsTree => !isUndefined e.2) ∘ fun e => (e.1, pruned e.2)) =
      fun e : JsString × JsTree => !isUndefined e.2 :=
    funext fun e => congrArg not (isUndefined_pruned e.2)
  exact congrArg (fun p => JsTree.obj ((entries.filter p).map fun e => (e.1, pruned e.2))) hsame

section Holds

variable {leaf leaf' : JsTree → Prop} {key : JsString → Prop}

theorem holds_arr (elements : List JsTree) :
    Holds leaf key (.arr elements) ↔ ∀ v ∈ elements, Holds leaf key v := by
  unfold Holds
  rw [fold_arr]
  exact List.forall_mem_map

theorem holds_obj (entries : List (JsString × JsTree)) :
    Holds leaf key (.obj entries) ↔ ∀ e ∈ entries, key e.1 ∧ Holds leaf key e.2 := by
  unfold Holds
  rw [fold_obj]
  exact List.forall_mem_map

theorem Holds.mono {v : JsTree} (h : Holds leaf key v) (hleaf : ∀ w, leaf w → leaf' w) :
    Holds leaf' key v := by
  induction v using JsTree.induction with
  | arr elements ih =>
      rw [holds_arr] at h ⊢
      exact fun v hv => ih v hv (h v hv)
  | obj entries ih =>
      rw [holds_obj] at h ⊢
      exact fun e he => ⟨(h e he).1, ih e he (h e he).2⟩
  | _ => exact hleaf _ h

end Holds

section Image

variable {leaf : JsTree → JsTree}

theorem image_arr (elements : List JsTree) :
    image leaf (.arr elements) = .arr (elements.map (image leaf)) :=
  fold_arr _ _ _ elements

/-- The image is undefined where the value is. -/
theorem isUndefined_image (hleaf : ∀ v, isUndefined (leaf v) = isUndefined v) (v : JsTree) :
    isUndefined (image leaf v) = isUndefined v := by
  cases v with
  | arr elements => rw [image_arr]; rfl
  | obj entries => rfl
  | _ => exact hleaf _

theorem image_obj (hleaf : ∀ v, isUndefined (leaf v) = isUndefined v)
    (entries : List (JsString × JsTree)) : image leaf (.obj entries) =
      .obj ((entries.filter fun e => e.1 ≠ units "__proto__" ∧ !isUndefined e.2).map fun e =>
        (e.1, image leaf e.2)) := by
  rw [image, fold_obj, List.filter_map]
  have hsame : ((fun e : JsString × JsTree =>
        decide (e.1 ≠ units "__proto__" ∧ (!isUndefined e.2) = true)) ∘
      fun e => (e.1, image leaf e.2)) =
      fun e : JsString × JsTree =>
        decide (e.1 ≠ units "__proto__" ∧ (!isUndefined e.2) = true) := by
    funext e
    simp only [Function.comp_apply, isUndefined_image hleaf]
  exact congrArg (fun p => JsTree.obj ((entries.filter p).map fun e => (e.1, image leaf e.2))) hsame

/-- **An image is the tree itself** where every leaf is and no key is `__proto__`. -/
theorem image_eq_pruned_iff (hleaf : ∀ v, isUndefined (leaf v) = isUndefined v) (v : JsTree) :
    image leaf v = pruned v ↔
      Holds (fun w => leaf w = w) (· ≠ units "__proto__") (pruned v) := by
  induction v using JsTree.induction with
  | arr elements ih =>
      rw [image_arr, pruned_arr, holds_arr, JsTree.arr.injEq, List.map_inj_left,
        List.forall_mem_map]
      exact forall_congr' fun v => forall_congr' fun hv => ih v hv
  | obj entries ih =>
      have hfilter : (entries.filter fun e => e.1 ≠ units "__proto__" ∧ !isUndefined e.2) =
          (entries.filter fun e => !isUndefined e.2).filter fun e => e.1 ≠ units "__proto__" := by
        rw [List.filter_filter]
        exact List.filter_congr fun e _ => by rw [Bool.decide_and, Bool.decide_eq_true]
      have hkept : ∀ e ∈ entries.filter fun e => !isUndefined e.2, e ∈ entries := fun e he =>
        (List.mem_filter.mp he).1
      rw [image_obj hleaf, pruned_obj, holds_obj, JsTree.obj.injEq, List.forall_mem_map, hfilter]
      generalize (entries.filter fun e => !isUndefined e.2) = kept at hkept
      constructor
      · intro h
        have hlength := congrArg List.length h
        rw [List.length_map, List.length_map] at hlength
        have hself := List.filter_sublist.eq_of_length hlength
        rw [hself, List.map_inj_left] at h
        intro e he
        have hproto := List.filter_eq_self.mp hself e he
        exact ⟨of_decide_eq_true hproto, (ih e (hkept e he)).mp (Prod.mk.inj (h e he)).2⟩
      · intro h
        have hself : (kept.filter fun e => e.1 ≠ units "__proto__") = kept :=
          List.filter_eq_self.mpr fun e he => decide_eq_true (h e he).1
        rw [hself]
        refine List.map_congr_left fun e he => ?_
        rw [(ih e (hkept e he)).mpr (h e he).2]
  | _ => exact Iff.rfl

end Image

/-! ### Values of JSON -/

/-- A leaf that JSON knows, with one zero. -/
def jsonLeaf : JsTree → Prop
  | .null | .bool _ | .num (.finite _) | .str _ => True
  | _ => False

/-- A value that JSON knows. -/
structure IsJson (v : JsTree) : Prop where
  keyed : WellKeyed v
  leaves : Holds jsonLeaf (fun _ => True) v

/-- A JSON value is defined. -/
theorem IsJson.defined {v : JsTree} (h : IsJson v) : isUndefined v = false := by
  cases v with
  | undefined => exact h.leaves.elim
  | _ => rfl

theorem isJson_arr (elements : List JsTree) :
    IsJson (.arr elements) ↔ ∀ v ∈ elements, IsJson v := by
  constructor
  · intro h v hv
    exact ⟨(wellKeyed_arr elements).mp h.keyed v hv, (holds_arr elements).mp h.leaves v hv⟩
  · intro h
    exact ⟨(wellKeyed_arr elements).mpr fun v hv => (h v hv).keyed,
      (holds_arr elements).mpr fun v hv => (h v hv).leaves⟩

theorem isJson_obj (entries : List (JsString × JsTree)) :
    IsJson (.obj entries) ↔ Listed entries ∧ ∀ e ∈ entries, IsJson e.2 := by
  constructor
  · intro h
    obtain ⟨hlisted, hbelow⟩ := (wellKeyed_obj entries).mp h.keyed
    exact ⟨hlisted, fun e he => ⟨hbelow e he, ((holds_obj entries).mp h.leaves e he).2⟩⟩
  · intro h
    exact ⟨(wellKeyed_obj entries).mpr ⟨h.1, fun e he => (h.2 e he).keyed⟩,
      (holds_obj entries).mpr fun e he => ⟨trivial, (h.2 e he).leaves⟩⟩

/-- **What JSON knows comes back as it was written.** -/
theorem IsJson.throughJson {v : JsTree} (h : IsJson v) : throughJson v = v := by
  induction v using JsTree.induction with
  | arr elements ih =>
      have helements := (isJson_arr elements).mp h
      have hsame : ∀ v ∈ elements,
          (if isUndefined v.throughJson then .null else v.throughJson) = v := by
        intro v hv
        rw [ih v hv (helements v hv), if_neg (Bool.eq_false_iff.mp (helements v hv).defined)]
      rw [throughJson_arr, List.map_congr_left hsame, List.map_id']
  | obj entries ih =>
      obtain ⟨hlisted, hbelow⟩ := (isJson_obj entries).mp h
      have hsame : ∀ e ∈ entries, (e.1, e.2.throughJson) = e := fun e he => by
        rw [ih e he (hbelow e he)]
      have hkept : ∀ e ∈ entries, (!isUndefined e.2) = true := fun e he => by
        rw [(hbelow e he).defined]
        rfl
      rw [throughJson_obj hlisted, List.map_congr_left hsame, List.map_id',
        List.filter_eq_self.mpr hkept]
  | num n =>
      cases n with
      | finite literal => rfl
      | _ => exact h.leaves.elim
  | null | bool b | str s => rfl
  | _ => exact h.leaves.elim

/-- A value that JSON knows is written as a text that stands for it. -/
theorem IsJson.exists_toJson {v : JsTree} (h : IsJson v) :
    ∃ written, toJson v = some written ∧ ofJson written = v := by
  have hback := h.throughJson
  unfold JsTree.throughJson at hback
  cases hwritten : toJson v with
  | none =>
      rw [hwritten] at hback
      exact absurd (isUndefined_eq_true_iff.mpr hback.symm) (h.defined ▸ Bool.false_ne_true)
  | some written =>
      rw [hwritten] at hback
      exact ⟨written, rfl, hback⟩

end JsTree

/-! ### Values in a heap -/

/-- An object, from what comes of the values that it holds; an instance of another class is left
out. -/
def JsObject.content {ι : Type} (below : JsValue ι → JsTree) : JsObject ι → JsTree
  | .array elements => .arr (elements.map below)
  | .plain entries => .obj (ownOrder (entries.entries.map fun e => (e.1, below e.2)))
  | .date iso => .date iso
  | .regexp => .regexp
  | .instanceOf _ => .undefined

namespace JsHeap

variable {ι : Type} (heap : JsHeap ι)

/-- A value, from what comes of the values one level down. -/
def contentOf (below : JsValue ι → JsTree) : JsValue ι → JsTree
  | .undefined => .undefined
  | .null => .null
  | .bool b => .bool b
  | .num n => .num n
  | .str s => .str s
  | .bigint => .bigint
  | .symbol => .symbol
  | .function => .function
  | .ref a => (heap a).content below

/-- A value as a tree, down to so many levels of arrays and objects. -/
def content : Nat → JsValue ι → JsTree
  | 0 => heap.contentOf fun _ => .undefined
  | levels + 1 => heap.contentOf (content levels)

theorem content_undefined (levels : Nat) : heap.content levels .undefined = .undefined := by
  cases levels <;> rfl

/-- The content of a value is well keyed where that of its parts is. -/
theorem wellKeyed_contentOf {below : JsValue ι → JsTree}
    (hbelow : ∀ w, JsTree.WellKeyed (below w)) (v : JsValue ι) :
    JsTree.WellKeyed (heap.contentOf below v) := by
  cases v with
  | ref a =>
      change JsTree.WellKeyed ((heap a).content below)
      cases heap a with
      | array elements =>
          rw [JsObject.content, JsTree.wellKeyed_arr]
          exact List.forall_mem_map.mpr fun w _ => hbelow w
      | plain entries =>
          have hnodup : ((entries.entries.map fun e => (e.1, below e.2)).map Prod.fst).Nodup := by
            rw [List.map_map]
            exact entries.nodup
          rw [JsObject.content, JsTree.wellKeyed_obj]
          refine ⟨listed_ownOrder hnodup, fun e he => ?_⟩
          obtain ⟨f, -, rfl⟩ := List.mem_map.mp ((ownOrder_perm _).mem_iff.mp he)
          exact hbelow f.2
      | date iso | regexp | instanceOf ctor => trivial
  | _ => trivial

/-- Objects list distinct keys in order. -/
theorem wellKeyed_content (levels : Nat) (v : JsValue ι) :
    JsTree.WellKeyed (heap.content levels v) := by
  induction levels generalizing v with
  | zero => exact @wellKeyed_contentOf ι heap (fun _ => .undefined) (fun _ => trivial) v
  | succ levels ih => exact heap.wellKeyed_contentOf ih v

end JsHeap
