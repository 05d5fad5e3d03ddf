import NestBatch.Lib.JsHeap

/-!
# What an execution context may hold

`assertJsonSerializable` walks through a value before it is saved.  One set of
seen objects goes through the whole walk and nothing is ever taken out of it,
so that an object is refused when it is met again, whether on a cycle or not.
-/

namespace NestBatch

open JsString

variable {ι : Type} [DecidableEq ι]

/-- `InvalidExecutionContextError`; `path`, `value` and `ctor` are its details. -/
structure InvalidExecutionContextError where
  message : JsString
  path : JsString
  value : Option JsNumber := none
  ctor : Option JsString := none

def maxDepth : Nat := 100

/-- What `assertJsonSerializable` does with an object that is entered, `visit` being the walk one
level down. -/
def assertEntered (visit : JsValue ι → JsString → List ι →
      Except InvalidExecutionContextError (List ι))
    (object : JsObject ι) (path : JsString) (seen : List ι) :
    Except InvalidExecutionContextError (List ι) :=
  match object with
  | .array elements =>
      elements.zipIdx.foldlM
        (fun seen item => visit item.1 (path ++ units s!"[{item.2}]") seen) seen
  | .plain entries =>
      entries.entries.foldlM
        (fun seen entry =>
          if entry.2 = .undefined then .ok seen
          else visit entry.2 (path ++ units "." ++ entry.1) seen) seen
  | .instanceOf ctor =>
      .error ⟨units "Value at " ++ path ++ units " is a class instance (not plain object)", path,
        none, ctor⟩
  | .date _ | .regexp => .ok seen

/-- The walk through one value; there is none further down where the depth is beyond the maximum. -/
def assertValue (heap : JsHeap ι) (visit : Option (JsValue ι → JsString → List ι →
      Except InvalidExecutionContextError (List ι)))
    (value : JsValue ι) (path : JsString) (seen : List ι) :
    Except InvalidExecutionContextError (List ι) :=
  match value with
  | .null | .str _ | .bool _ => .ok seen
  | .undefined =>
      .error ⟨units "Value at " ++ path ++ units " is undefined (must be omitted or null)", path,
        none, none⟩
  | .num n =>
      if n.isFinite then .ok seen
      else .error ⟨units "Value at " ++ path ++ units " is not a finite number", path, some n, none⟩
  | .bigint => .error ⟨units "Value at " ++ path ++ units " is a BigInt", path, none, none⟩
  | .symbol => .error ⟨units "Value at " ++ path ++ units " is a Symbol", path, none, none⟩
  | .function => .error ⟨units "Value at " ++ path ++ units " is a function", path, none, none⟩
  | .ref a =>
      match heap a with
      | .date _ | .regexp => .ok seen
      | object =>
          match visit with
          | none => .error ⟨units "Max depth exceeded at " ++ path, path, none, none⟩
          | some visit =>
              if a ∈ seen then
                .error ⟨units "Circular reference detected at " ++ path, path, none, none⟩
              else assertEntered visit object path (a :: seen)

/-- `assertJsonSerializable`, with the number of levels that are still allowed,
`MAX_DEPTH + 1 - depth`, in place of the depth; the result is the set of seen objects. -/
def assertJsonSerializableFrom (heap : JsHeap ι) : Nat → JsValue ι → JsString → List ι →
    Except InvalidExecutionContextError (List ι)
  | 0 => assertValue heap none
  | levels + 1 => assertValue heap (some (assertJsonSerializableFrom heap levels))

/-- `assertJsonSerializable(value)`. -/
def assertJsonSerializable (heap : JsHeap ι) (value : JsValue ι) :
    Except InvalidExecutionContextError Unit :=
  (assertJsonSerializableFrom heap (maxDepth + 1) value (units "$") []).map fun _ => ()

/-! ### The documented language -/

/-- A value that may not be saved wherever it stands. -/
def Foreign (heap : JsHeap ι) : JsValue ι → Prop
  | .undefined | .null | .bool _ | .str _ => False
  | .num n => n.isFinite = false
  | .bigint | .symbol | .function => True
  | .ref a => ∃ ctor, heap a = .instanceOf ctor

/-- What the documentation of `assertJsonSerializable` lets through. -/
structure Documented (heap : JsHeap ι) (v : JsValue ι) : Prop where
  defined : v ≠ .undefined
  own : ∀ path w, heap.Reaches v path w → ¬ Foreign heap w
  acyclic : heap.Acyclic v
  shallow : ∀ path a, (heap a).isContainer → heap.Reaches v path (.ref a) → path.length ≤ maxDepth

/-- `assertJsonSerializable(value)` returns. -/
def Accepts (heap : JsHeap ι) (v : JsValue ι) : Prop := assertJsonSerializable heap v = .ok ()

/-- Some array that is reached has `undefined` for an element. -/
def HoldsUndefined (heap : JsHeap ι) (v : JsValue ι) : Prop :=
  ∃ path a elements, heap.Reaches v path (.ref a) ∧ heap a = .array elements ∧
    .undefined ∈ elements

/-- Nothing that is reached is refused for what it is or for where it stands. -/
def Admissible (heap : JsHeap ι) (levels : Nat) (v : JsValue ι) : Prop :=
  ∀ path w, heap.Reaches v path w → w ≠ .undefined ∧ ¬ Foreign heap w ∧
    ∀ a, w = .ref a → (heap a).isContainer → path.length < levels

section Walk

variable {heap : JsHeap ι} {v : JsValue ι} {a : ι} {levels : Nat}

theorem admissible_of_children_nil (hv : heap.children v = [])
    (hleaf : ∀ a, v = .ref a → ¬ (heap a).isContainer) :
    Admissible heap levels v ↔ v ≠ .undefined ∧ ¬ Foreign heap v := by
  constructor
  · intro h
    obtain ⟨hdefined, hown, -⟩ := h [] v (JsHeap.reaches_nil.mpr rfl)
    exact ⟨hdefined, hown⟩
  · intro hcase path w hpath
    obtain ⟨hdefined, hown⟩ := hcase
    obtain ⟨-, rfl⟩ := hpath.of_children_nil hv
    exact ⟨hdefined, hown, fun a ha hcontainer => absurd hcontainer (hleaf a ha)⟩

theorem not_admissible_zero (ha : (heap a).isContainer) : ¬ Admissible heap 0 (.ref a) := by
  intro h
  obtain ⟨-, -, hlevels⟩ := h [] (.ref a) (JsHeap.reaches_nil.mpr rfl)
  exact absurd (hlevels a rfl ha) (Nat.not_lt_zero _)

/-- A container is admissible when its children are, one level down. -/
theorem admissible_of_container (ha : (heap a).isContainer) :
    Admissible heap (levels + 1) (.ref a) ↔ ∀ u ∈ (heap a).children, Admissible heap levels u := by
  constructor
  · intro h u hu path w hpath
    obtain ⟨i, hi⟩ := List.mem_iff_getElem?.mp hu
    obtain ⟨hdefined, hown, hlevels⟩ := h (i :: path) w (JsHeap.reaches_cons.mpr ⟨u, hi, hpath⟩)
    exact ⟨hdefined, hown, fun b hb hcontainer => Nat.lt_of_succ_lt_succ (hlevels b hb hcontainer)⟩
  · intro h path w hpath
    cases path with
    | nil =>
        rw [← JsHeap.reaches_nil.mp hpath]
        refine ⟨by simp, ?_, fun _ _ _ => Nat.succ_pos _⟩
        intro hcase
        obtain ⟨ctor, hctor⟩ := hcase
        rw [hctor] at ha
        cases ha
    | cons i path =>
        obtain ⟨u, hu, hrest⟩ := JsHeap.reaches_cons.mp hpath
        obtain ⟨hdefined, hown, hlevels⟩ := h u (List.mem_of_getElem? hu) path w hrest
        exact ⟨hdefined, hown,
          fun b hb hcontainer => Nat.succ_lt_succ (hlevels b hb hcontainer)⟩

/-- A walk that goes through a value exactly where it is admissible, and lists its containers. -/
def Walks (heap : JsHeap ι) (levels : Nat) (visit : JsValue ι → JsString → List ι →
    Except InvalidExecutionContextError (List ι)) : Prop :=
  ∀ v path, Collects (visit v path) (Admissible heap levels v) (heap.containers levels v)

variable {visit : JsValue ι → JsString → List ι → Except InvalidExecutionContextError (List ι)}

/-- A walk over several values, each with a path of its own. -/
theorem Walks.foldlM {β : Type} (hvisit : Walks heap levels visit) (items : List β)
    (value : β → JsValue ι) (path : β → JsString) :
    Collects (items.foldlM fun seen item => visit (value item) (path item) seen)
      (∀ u ∈ items.map value, Admissible heap levels u)
      ((items.map value).flatMap (heap.containers levels)) := by
  rw [List.flatMap_map]
  exact (Collects.foldlM fun item _ => hvisit (value item) (path item)).congr
    List.forall_mem_map.symm

/-- **What an entered container lists.** -/
theorem collects_assertEntered (hvisit : Walks heap levels visit) (ha : (heap a).isContainer)
    (path : JsString) :
    Collects (assertEntered visit (heap a) path) (Admissible heap (levels + 1) (.ref a))
      ((heap a).children.flatMap (heap.containers levels)) := by
  rw [admissible_of_container ha]
  cases hobject : heap a with
  | array elements =>
      have hfold := hvisit.foldlM elements.zipIdx Prod.fst
        fun item => path ++ units s!"[{item.2}]"
      rw [List.zipIdx_map_fst] at hfold
      exact hfold
  | plain entries =>
      have hfold := hvisit.foldlM (entries.entries.filter fun entry => entry.2 ≠ .undefined)
        Prod.snd fun entry => path ++ units "." ++ entry.1
      have hchildren : (entries.entries.filter fun entry => entry.2 ≠ .undefined).map Prod.snd =
          (JsObject.plain entries).children := by
        rw [JsObject.children, JsMap.values, List.filter_map]
        rfl
      have hskip : assertEntered visit (.plain entries) path =
          (entries.entries.filter fun entry => entry.2 ≠ .undefined).foldlM
            fun seen entry => visit entry.2 (path ++ units "." ++ entry.1) seen := by
        funext seen
        rw [List.foldlM_filter]
        refine congrArg (fun step => entries.entries.foldlM step seen) ?_
        funext seen entry
        by_cases hentry : entry.2 = .undefined
        · rw [if_pos hentry, if_neg (by simpa using hentry)]
          rfl
        · rw [if_neg hentry, if_pos (by simpa using hentry)]
      rw [hskip, ← hchildren]
      exact hfold
  | date iso | regexp | instanceOf ctor =>
      rw [hobject] at ha
      cases ha

/-- A value that holds nothing is let through where it is neither undefined nor foreign. -/
theorem collects_assertValue_leaf (visit? : Option (JsValue ι → JsString → List ι →
      Except InvalidExecutionContextError (List ι)))
    (hleaf : ∀ a, v = .ref a → ¬ (heap a).isContainer) (path : JsString) :
    Collects (assertValue heap visit? v path) (v ≠ .undefined ∧ ¬ Foreign heap v) [] := by
  cases v with
  | null | str s | bool b =>
      exact (Collects.pass fun _ => rfl).congr (by simp [Foreign])
  | undefined =>
      exact (Collects.refuse fun _ => ⟨_, rfl⟩).congr (by simp)
  | bigint | symbol | function =>
      exact (Collects.refuse fun _ => ⟨_, rfl⟩).congr (by simp [Foreign])
  | num n =>
      cases hn : n.isFinite with
      | true =>
          exact (Collects.pass fun _ => if_pos hn).congr (by simp [Foreign, hn])
      | false =>
          refine (Collects.refuse fun _ => ⟨_, if_neg ?_⟩).congr (by simp [Foreign, hn])
          simp [hn]
  | ref a =>
      have hleaf := hleaf a rfl
      cases hobject : heap a with
      | date iso | regexp =>
          refine (Collects.pass fun _ => ?_).congr (by simp [Foreign, hobject])
          rw [assertValue, hobject]
      | instanceOf ctor =>
          refine (Collects.refuse fun seen => ?_).congr (by simp [Foreign, hobject])
          rw [assertValue, hobject]
          cases visit? with
          | none => exact ⟨_, rfl⟩
          | some visit =>
              by_cases hseen : a ∈ seen
              · exact ⟨_, if_pos hseen⟩
              · exact ⟨_, if_neg hseen⟩
      | array elements | plain entries =>
          rw [hobject] at hleaf
          exact absurd rfl hleaf

/-- A leaf has no children and holds no container. -/
theorem containers_of_leaf (hleaf : ∀ a, v = .ref a → ¬ (heap a).isContainer) :
    heap.children v = [] ∧ ∀ levels, heap.containers levels v = [] := by
  cases v with
  | ref a =>
      exact ⟨JsObject.children_of_not_container (hleaf a rfl),
        JsHeap.containers_of_not_container (hleaf a rfl)⟩
  | _ => exact ⟨rfl, fun levels => by cases levels <;> rfl⟩

/-- A check that walks the containers walks every value. -/
theorem walks_of_containers {visit? : Option (JsValue ι → JsString → List ι →
      Except InvalidExecutionContextError (List ι))}
    (h : ∀ a path, (heap a).isContainer → Collects (assertValue heap visit? (.ref a) path)
      (Admissible heap levels (.ref a)) (heap.containers levels (.ref a))) :
    Walks heap levels (assertValue heap visit?) := by
  intro v path
  by_cases hleaf : ∀ a, v = .ref a → ¬ (heap a).isContainer
  · obtain ⟨hchildren, hcontainers⟩ := containers_of_leaf hleaf
    rw [hcontainers levels]
    exact (collects_assertValue_leaf visit? hleaf path).congr
      (admissible_of_children_nil hchildren hleaf).symm
  · push Not at hleaf
    obtain ⟨a, rfl, ha⟩ := hleaf
    exact h a path ha

theorem walks_zero : Walks heap 0 (assertValue heap none) := by
  refine walks_of_containers fun a path ha => ?_
  refine (Collects.refuse fun seen => ?_).congr (iff_of_false id (not_admissible_zero ha))
  cases hobject : heap a with
  | array elements | plain entries =>
      rw [assertValue, hobject]
      exact ⟨_, rfl⟩
  | date iso | regexp | instanceOf ctor =>
      rw [hobject] at ha
      cases ha

theorem walks_succ (hvisit : Walks heap levels visit) :
    Walks heap (levels + 1) (assertValue heap (some visit)) := by
  refine walks_of_containers fun a path ha => ?_
  rw [JsHeap.containers_of_container ha]
  have hentered := (collects_assertEntered hvisit ha path).enter a
    ⟨units "Circular reference detected at " ++ path, path, none, none⟩
  have hvalue : assertValue heap (some visit) (.ref a) path = fun seen =>
      if a ∈ seen then
        .error ⟨units "Circular reference detected at " ++ path, path, none, none⟩
      else assertEntered visit (heap a) path (a :: seen) := by
    funext seen
    cases hobject : heap a with
    | array elements | plain entries => rw [assertValue, hobject]
    | date iso | regexp | instanceOf ctor =>
        rw [hobject] at ha
        cases ha
  rw [hvalue]
  exact hentered

/-- The validator walks the heap to its number of levels. -/
theorem walks_assertJsonSerializableFrom (heap : JsHeap ι) (levels : Nat) :
    Walks heap levels (assertJsonSerializableFrom heap levels) := by
  induction levels with
  | zero => exact walks_zero
  | succ levels ih => exact walks_succ ih

/-- Below the top, `undefined` is met in arrays only. -/
theorem holdsUndefined_of_reaches {path : List Nat} (hdefined : v ≠ .undefined)
    (hpath : heap.Reaches v path .undefined) : HoldsUndefined heap v := by
  rcases path.eq_nil_or_concat' with rfl | ⟨way, i, rfl⟩
  · exact absurd (JsHeap.reaches_nil.mp hpath) hdefined
  · obtain ⟨u, hway, hlast⟩ := JsHeap.reaches_append.mp hpath
    have hmem := List.mem_of_getElem? (JsHeap.reaches_singleton.mp hlast)
    cases u with
    | ref a =>
        rw [JsHeap.children_ref] at hmem
        cases hobject : heap a with
        | array elements =>
            rw [hobject] at hmem
            exact ⟨way, a, elements, hway, hobject, hmem⟩
        | plain entries =>
            rw [hobject] at hmem
            simp [JsObject.children] at hmem
        | date iso | regexp | instanceOf ctor =>
            rw [hobject] at hmem
            cases hmem
    | _ => cases hmem

/-- Admissible values are the documented ones, acyclicity aside, without undefined elements. -/
theorem admissible_iff : Admissible heap (maxDepth + 1) v ↔
    (v ≠ .undefined ∧ (∀ path w, heap.Reaches v path w → ¬ Foreign heap w) ∧
      ∀ path a, (heap a).isContainer → heap.Reaches v path (.ref a) → path.length ≤ maxDepth) ∧
      ¬ HoldsUndefined heap v := by
  constructor
  · intro h
    refine ⟨⟨(h [] v (JsHeap.reaches_nil.mpr rfl)).1, fun path w hpath => (h path w hpath).2.1,
      fun path a ha hpath => Nat.le_of_lt_succ ((h path _ hpath).2.2 a rfl ha)⟩, ?_⟩
    intro hcase
    obtain ⟨path, a, elements, hpath, hobject, hmem⟩ := hcase
    obtain ⟨i, hi⟩ := List.mem_iff_getElem?.mp hmem
    refine (h (path ++ [i]) .undefined (JsHeap.reaches_append.mpr ⟨_, hpath, ?_⟩)).1 rfl
    rw [JsHeap.reaches_singleton, JsHeap.children_ref, hobject]
    exact hi
  · intro hcase path w hpath
    obtain ⟨⟨hdefined, hown, hshallow⟩, hholds⟩ := hcase
    refine ⟨?_, hown path w hpath, fun a ha hcontainer => ?_⟩
    · intro heq
      subst heq
      exact hholds (holdsUndefined_of_reaches hdefined hpath)
    · rw [ha] at hpath
      exact Nat.lt_succ_of_le (hshallow path a hcontainer hpath)

/-- **What is accepted**: the documented values, those with an undefined element or with a shared
container left out. -/
theorem accepts_iff : Accepts heap v ↔
    Documented heap v ∧ ¬ HoldsUndefined heap v ∧ heap.Unshared v := by
  have hwalk := walks_assertJsonSerializableFrom heap (maxDepth + 1) v (units "$") []
  have hreturns : Accepts heap v ↔
      Admissible heap (maxDepth + 1) v ∧ (heap.containers (maxDepth + 1) v).Nodup := by
    unfold Accepts assertJsonSerializable
    constructor
    · intro h
      cases hresult : assertJsonSerializableFrom heap (maxDepth + 1) v (units "$") [] with
      | error err =>
          rw [hresult] at h
          cases h
      | ok seen =>
          obtain ⟨hadmissible, hnodup, -, -⟩ := (hwalk seen).mp hresult
          exact ⟨hadmissible, hnodup⟩
    · intro hcase
      obtain ⟨hadmissible, hnodup⟩ := hcase
      rw [(hwalk _).mpr ⟨hadmissible, hnodup, fun a _ => List.not_mem_nil, rfl⟩]
      rfl
  rw [hreturns]
  constructor
  · intro hcase
    obtain ⟨hadmissible, hnodup⟩ := hcase
    have hunshared := (JsHeap.nodup_containers_iff fun path a ha hpath =>
      (hadmissible path _ hpath).2.2 a rfl ha).mp hnodup
    obtain ⟨⟨hdefined, hown, hshallow⟩, hholds⟩ := admissible_iff.mp hadmissible
    exact ⟨⟨hdefined, hown, hunshared.acyclic, hshallow⟩, hholds, hunshared⟩
  · intro hcase
    obtain ⟨⟨hdefined, hown, -, hshallow⟩, hholds, hunshared⟩ := hcase
    have hadmissible := admissible_iff.mpr ⟨⟨hdefined, hown, hshallow⟩, hholds⟩
    exact ⟨hadmissible, (JsHeap.nodup_containers_iff fun path a ha hpath =>
      (hadmissible path _ hpath).2.2 a rfl ha).mpr hunshared⟩

end Walk

/-- **When the walk accepts exactly the documented language**: a documented value must have no
undefined array element and no container that is reached along two paths. -/
theorem accepts_documented_iff (heap : JsHeap ι) (v : JsValue ι) :
    (Accepts heap v ↔ Documented heap v) ↔
      (Documented heap v → ¬ HoldsUndefined heap v ∧ heap.Unshared v) := by
  rw [accepts_iff]
  tauto

section Refused

/-- `[undefined]` at `0`; one empty object at `1`, which both values of `2` refer to. -/
def refusedHeap : JsHeap Nat
  | 0 => .array [.undefined]
  | 1 => .plain .empty
  | _ => .plain ⟨[(units "a", .ref 1), (units "b", .ref 1)], by decide⟩

theorem reaches_refusedHeap_zero {path : List Nat} {w : JsValue Nat}
    (h : JsHeap.Reaches refusedHeap (.ref 0) path w) :
    (path = [] ∧ w = .ref 0) ∨ w = .undefined := by
  cases path with
  | nil => exact Or.inl ⟨rfl, (JsHeap.reaches_nil.mp h).symm⟩
  | cons i path =>
      obtain ⟨u, hu, hrest⟩ := JsHeap.reaches_cons.mp h
      obtain rfl : u = .undefined := List.mem_singleton.mp (List.mem_of_getElem? hu)
      exact Or.inr (hrest.of_children_nil rfl).2.symm

/-- From the third refused value only itself and the shared one are reached. -/
theorem reaches_refusedHeap_two {path : List Nat} {w : JsValue Nat}
    (h : JsHeap.Reaches refusedHeap (.ref 2) path w) :
    (path = [] ∧ w = .ref 2) ∨ (path.length = 1 ∧ w = .ref 1) := by
  cases path with
  | nil => exact Or.inl ⟨rfl, (JsHeap.reaches_nil.mp h).symm⟩
  | cons i path =>
      obtain ⟨u, hu, hrest⟩ := JsHeap.reaches_cons.mp h
      have hmem : u ∈ [JsValue.ref 1, .ref 1] := List.mem_of_getElem? hu
      obtain rfl : u = .ref 1 := by simpa using hmem
      obtain ⟨rfl, rfl⟩ := hrest.of_children_nil rfl
      exact Or.inr ⟨rfl, rfl⟩

/-- **Two documented values are refused**: an array with an undefined element, and an object that
holds another one twice. -/
theorem documented_values_refused :
    (Documented refusedHeap (.ref 0) ∧ ¬ Accepts refusedHeap (.ref 0)) ∧
      Documented refusedHeap (.ref 2) ∧ ¬ Accepts refusedHeap (.ref 2) := by
  refine ⟨⟨⟨by decide, ?_, ?_, ?_⟩, ?_⟩, ⟨by decide, ?_, ?_, ?_⟩, ?_⟩
  · intro path w hpath
    rcases reaches_refusedHeap_zero hpath with ⟨-, rfl⟩ | rfl
    · intro hcase
      obtain ⟨ctor, h⟩ := hcase
      cases h
    · exact id
  · intro path a hpath way hway
    rcases reaches_refusedHeap_zero hpath with ⟨-, h⟩ | h
    · cases h
      rcases reaches_refusedHeap_zero hway with ⟨h, -⟩ | h
      · exact h
      · cases h
    · cases h
  · intro path a _ hpath
    rcases reaches_refusedHeap_zero hpath with ⟨rfl, -⟩ | h
    · exact Nat.zero_le _
    · cases h
  · intro h
    cases h
  · intro path w hpath
    rcases reaches_refusedHeap_two hpath with ⟨-, rfl⟩ | ⟨-, rfl⟩
    · intro hcase
      obtain ⟨ctor, h⟩ := hcase
      cases h
    · intro hcase
      obtain ⟨ctor, h⟩ := hcase
      cases h
  · intro path a hpath way hway
    rcases reaches_refusedHeap_two hpath with ⟨-, h⟩ | ⟨-, h⟩
    · cases h
      rcases reaches_refusedHeap_two hway with ⟨h, -⟩ | ⟨-, h⟩
      · exact h
      · cases h
    · cases h
      exact (hway.of_children_nil rfl).1
  · intro path a _ hpath
    rcases reaches_refusedHeap_two hpath with ⟨rfl, -⟩ | ⟨h, -⟩
    · exact Nat.zero_le _
    · rw [h]
      decide
  · intro h
    cases h

end Refused

end NestBatch
