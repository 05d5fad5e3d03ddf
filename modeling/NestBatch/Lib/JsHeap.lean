import NestBatch.Lib.JsText
import NestBatch.Lib.JsMap

/-!
# Values as graphs

A value of the host language is a primitive or a reference to an object; the
objects lie in a heap and refer to one another, with sharing and with cycles.
A path goes down from a value through what its objects hold.
-/

/-- A value; `ι` are the addresses of objects. -/
inductive JsValue (ι : Type)
  | undefined
  | null
  | bool (b : Bool)
  | num (n : JsNumber)
  | str (s : JsString)
  | bigint
  | symbol
  | function
  | ref (a : ι)
  deriving DecidableEq

/-- An object: an array, a plain object with its own keys in their order, a `Date` with its ISO text
if it is a valid one, a `RegExp`, an instance of any other class. -/
inductive JsObject (ι : Type)
  | array (elements : List (JsValue ι))
  | plain (entries : JsMap JsString (JsValue ι))
  | date (iso : Option JsString)
  | regexp
  | instanceOf (ctor : Option JsString)

/-- The objects at their addresses. -/
abbrev JsHeap (ι : Type) := ι → JsObject ι

namespace JsObject

variable {ι : Type} [DecidableEq ι]

/-- Arrays and plain objects. -/
def isContainer : JsObject ι → Bool
  | .array _ | .plain _ => true
  | .date _ | .regexp | .instanceOf _ => false

/-- What an array or an object holds, the undefined values of an object left out. -/
def children : JsObject ι → List (JsValue ι)
  | .array elements => elements
  | .plain entries => entries.values.filter (· ≠ .undefined)
  | .date _ | .regexp | .instanceOf _ => []

/-- An object that is no container has no children. -/
theorem children_of_not_container {object : JsObject ι} (h : ¬ object.isContainer) :
    object.children = [] := by
  cases object with
  | array elements | plain entries => exact absurd rfl h
  | date iso | regexp | instanceOf ctor => rfl

end JsObject

namespace JsHeap

variable {ι : Type} [DecidableEq ι] (heap : JsHeap ι)

/-- What a value holds. -/
def children : JsValue ι → List (JsValue ι)
  | .ref a => (heap a).children
  | _ => []

/-- The value at the end of a path, given as the places in what is held on the way. -/
def follow : JsValue ι → List Nat → Option (JsValue ι)
  | v, [] => some v
  | v, i :: path => (heap.children v)[i]?.bind fun w => follow w path

/-- The path leads from one value to the other. -/
def Reaches (v : JsValue ι) (path : List Nat) (w : JsValue ι) : Prop := heap.follow v path = some w

/-- No object is its own descendant. -/
def Acyclic (v : JsValue ι) : Prop :=
  ∀ path a, heap.Reaches v path (.ref a) →
    ∀ way, heap.Reaches (.ref a) way (.ref a) → way = []

/-- No array and no plain object is reached along two paths. -/
def Unshared (v : JsValue ι) : Prop :=
  ∀ path path' a, (heap a).isContainer → heap.Reaches v path (.ref a) →
    heap.Reaches v path' (.ref a) → path = path'

/-- The containers that are reached in fewer than so many levels, in the order of a walk that goes
down first; one that is reached along two paths is listed twice. -/
def containers : Nat → JsValue ι → List ι
  | 0, _ => []
  | levels + 1, .ref a =>
      if (heap a).isContainer then a :: (heap a).children.flatMap (containers levels) else []
  | _ + 1, _ => []

section Paths

variable {heap} {v w : JsValue ι} {path way : List Nat} {a b : ι} {levels : Nat}

theorem reaches_nil : heap.Reaches v [] w ↔ v = w := Option.some_inj

theorem reaches_cons {i : Nat} : heap.Reaches v (i :: path) w ↔
    ∃ u, (heap.children v)[i]? = some u ∧ heap.Reaches u path w := by
  unfold Reaches
  rw [follow, Option.bind_eq_some_iff]

theorem reaches_append {u : JsValue ι} : heap.Reaches v (path ++ way) u ↔
    ∃ w, heap.Reaches v path w ∧ heap.Reaches w way u := by
  induction path generalizing v with
  | nil =>
      constructor
      · exact fun h => ⟨v, reaches_nil.mpr rfl, h⟩
      · intro hcase
        obtain ⟨w, hvw, h⟩ := hcase
        rw [reaches_nil.mp hvw]
        exact h
  | cons i path ih =>
      rw [List.cons_append, reaches_cons]
      constructor
      · intro hcase
        obtain ⟨w, hw, hrest⟩ := hcase
        obtain ⟨w', hpath, hway⟩ := ih.mp hrest
        exact ⟨w', reaches_cons.mpr ⟨w, hw, hpath⟩, hway⟩
      · intro hcase
        obtain ⟨w', hpath, hway⟩ := hcase
        obtain ⟨w, hw, hrest⟩ := reaches_cons.mp hpath
        exact ⟨w, hw, ih.mpr ⟨w', hrest, hway⟩⟩

theorem reaches_singleton {i : Nat} :
    heap.Reaches v [i] w ↔ (heap.children v)[i]? = some w := by
  rw [reaches_cons]
  constructor
  · intro hcase
    obtain ⟨u, hu, hw⟩ := hcase
    exact hu.trans hw
  · exact fun h => ⟨w, h, reaches_nil.mpr rfl⟩

/-- A value that is no container leads nowhere. -/
theorem Reaches.of_children_nil (h : heap.Reaches v path w) (hv : heap.children v = []) :
    path = [] ∧ v = w := by
  cases path with
  | nil => exact ⟨rfl, reaches_nil.mp h⟩
  | cons i path =>
      obtain ⟨u, hu, -⟩ := reaches_cons.mp h
      rw [hv] at hu
      cases hu

theorem children_ref : heap.children (.ref a) = (heap a).children := rfl

/-- A container that is its own descendant is reached along two paths. -/
theorem Unshared.acyclic (h : heap.Unshared v) : heap.Acyclic v := by
  intro path a hpath way hway
  by_cases hcontainer : (heap a).isContainer
  · have hsame := h path (path ++ way) a hcontainer hpath
      (reaches_append.mpr ⟨_, hpath, hway⟩)
    exact List.append_right_eq_self.mp hsame.symm
  · exact (hway.of_children_nil (JsObject.children_of_not_container hcontainer)).1

/-- What is reached from an unshared value is unshared. -/
theorem Unshared.child {u : JsValue ι} {i : Nat} (h : heap.Unshared v)
    (hu : (heap.children v)[i]? = some u) : heap.Unshared u := by
  intro path path' a hcontainer hpath hpath'
  have hsame := h (i :: path) (i :: path') a hcontainer (reaches_cons.mpr ⟨u, hu, hpath⟩)
    (reaches_cons.mpr ⟨u, hu, hpath'⟩)
  exact (List.cons.inj hsame).2

/-- A leaf holds no container. -/
theorem containers_of_not_container (h : ¬ (heap a).isContainer) (levels : Nat) :
    heap.containers levels (.ref a) = [] := by
  cases levels with
  | zero => rfl
  | succ levels => exact if_neg h

/-- A container is its own first container. -/
theorem containers_of_container (h : (heap a).isContainer) (levels : Nat) :
    heap.containers (levels + 1) (.ref a) =
      a :: (heap a).children.flatMap (heap.containers levels) := if_pos h

/-- The containers of a value are those it reaches within the levels. -/
theorem mem_containers_iff : b ∈ heap.containers levels v ↔
    (heap b).isContainer ∧ ∃ path, path.length < levels ∧ heap.Reaches v path (.ref b) := by
  induction levels generalizing v with
  | zero =>
      constructor
      · intro h
        cases h
      · intro hcase
        obtain ⟨-, path, hlength, -⟩ := hcase
        exact absurd hlength (Nat.not_lt_zero _)
  | succ levels ih =>
      cases v with
      | ref a =>
          by_cases ha : (heap a).isContainer
          · rw [containers_of_container ha, List.mem_cons, List.mem_flatMap]
            constructor
            · intro heither
              rcases heither with rfl | ⟨u, hu, hb⟩
              · exact ⟨ha, [], Nat.succ_pos _, reaches_nil.mpr rfl⟩
              · obtain ⟨hcontainer, path, hlength, hpath⟩ := ih.mp hb
                obtain ⟨i, hi⟩ := List.mem_iff_getElem?.mp hu
                exact ⟨hcontainer, i :: path, Nat.succ_lt_succ hlength,
                  reaches_cons.mpr ⟨u, hi, hpath⟩⟩
            · intro hcase
              obtain ⟨hcontainer, path, hlength, hpath⟩ := hcase
              cases path with
              | nil => exact Or.inl (JsValue.ref.inj (reaches_nil.mp hpath)).symm
              | cons i path =>
                  obtain ⟨u, hu, hrest⟩ := reaches_cons.mp hpath
                  refine Or.inr ⟨u, List.mem_of_getElem? hu, ih.mpr ⟨hcontainer, path, ?_, hrest⟩⟩
                  exact Nat.lt_of_succ_lt_succ hlength
          · rw [containers_of_not_container ha]
            constructor
            · intro h
              cases h
            · intro hcase
              obtain ⟨hcontainer, path, -, hpath⟩ := hcase
              have hsame := (hpath.of_children_nil (JsObject.children_of_not_container ha)).2
              rw [← JsValue.ref.inj hsame] at hcontainer
              exact absurd hcontainer ha
      | _ =>
          constructor
          · intro h
            cases h
          · intro hcase
            obtain ⟨-, path, -, hpath⟩ := hcase
            cases (hpath.of_children_nil rfl).2

/-- What it takes for a container that no container under it is reached twice. -/
theorem unshared_ref_iff (ha : (heap a).isContainer) : heap.Unshared (.ref a) ↔
    (∀ (i : Nat) u path, (heap a).children[i]? = some u → ¬ heap.Reaches u path (.ref a)) ∧
      (∀ (i : Nat) u, (heap a).children[i]? = some u → heap.Unshared u) ∧
      ∀ (i j : Nat) u w, i < j → (heap a).children[i]? = some u → (heap a).children[j]? = some w →
        ∀ b path path', (heap b).isContainer → heap.Reaches u path (.ref b) →
          ¬ heap.Reaches w path' (.ref b) := by
  constructor
  · intro h
    refine ⟨fun i u path hu hback => ?_, fun i u hu => h.child hu, ?_⟩
    · have hsame := h [] (i :: path) a ha (reaches_nil.mpr rfl) (reaches_cons.mpr ⟨u, hu, hback⟩)
      cases hsame
    · intro i j u w hij hu hw b path path' hb hpath hpath'
      have hsame := h (i :: path) (j :: path') b hb (reaches_cons.mpr ⟨u, hu, hpath⟩)
        (reaches_cons.mpr ⟨w, hw, hpath'⟩)
      exact absurd (List.cons.inj hsame).1 (Nat.ne_of_lt hij)
  · intro hcase path path' b hb hpath hpath'
    obtain ⟨hroot, hbelow, hapart⟩ := hcase
    cases path with
    | nil =>
        cases path' with
        | nil => rfl
        | cons j path' =>
            obtain ⟨w, hw, hback⟩ := reaches_cons.mp hpath'
            rw [← reaches_nil.mp hpath] at hback
            exact absurd hback (hroot j w path' hw)
    | cons i path =>
        obtain ⟨u, hu, hrest⟩ := reaches_cons.mp hpath
        cases path' with
        | nil =>
            rw [← reaches_nil.mp hpath'] at hrest
            exact absurd hrest (hroot i u path hu)
        | cons j path' =>
            obtain ⟨w, hw, hrest'⟩ := reaches_cons.mp hpath'
            rcases Nat.lt_trichotomy i j with hij | rfl | hji
            · exact absurd hrest' (hapart i j u w hij hu hw b path path' hb hrest)
            · obtain rfl : u = w := Option.some.inj (hu.symm.trans hw)
              rw [hbelow i u hu path path' b hb hrest hrest']
            · exact absurd hrest (hapart j i w u hji hw hu b path' path hb hrest')

/-- Where the levels are enough for all of them, no container is listed twice exactly when none is
reached along two paths. -/
theorem nodup_containers_iff
    (hlevels : ∀ path a, (heap a).isContainer → heap.Reaches v path (.ref a) →
      path.length < levels) :
    (heap.containers levels v).Nodup ↔ heap.Unshared v := by
  induction levels generalizing v with
  | zero =>
      refine ⟨fun _ path path' a hcontainer hpath _ => ?_, fun _ => List.nodup_nil⟩
      exact absurd (hlevels path a hcontainer hpath) (Nat.not_lt_zero _)
  | succ levels ih =>
      by_cases hv : ∃ a, v = .ref a ∧ (heap a).isContainer
      · obtain ⟨a, rfl, ha⟩ := hv
        have hbelow : ∀ (i : Nat) u, (heap a).children[i]? = some u → ∀ path b,
            (heap b).isContainer → heap.Reaches u path (.ref b) → path.length < levels := by
          intro i u hu path b hb hpath
          exact Nat.lt_of_succ_lt_succ (hlevels (i :: path) b hb (reaches_cons.mpr ⟨u, hu, hpath⟩))
        have hmem : ∀ (i : Nat) u, (heap a).children[i]? = some u → ∀ b,
            b ∈ heap.containers levels u ↔
              (heap b).isContainer ∧ ∃ path, heap.Reaches u path (.ref b) := by
          intro i u hu b
          rw [mem_containers_iff]
          refine and_congr_right fun hb => exists_congr fun path => and_iff_right_of_imp ?_
          exact hbelow i u hu path b hb
        rw [containers_of_container ha, List.nodup_cons, List.nodup_flatMap, unshared_ref_iff ha]
        refine and_congr ?_ (and_congr ?_ ?_)
        · rw [List.mem_flatMap]
          constructor
          · intro hnot i u path hu hback
            exact hnot ⟨u, List.mem_of_getElem? hu, (hmem i u hu a).mpr ⟨ha, path, hback⟩⟩
          · intro hnot h
            obtain ⟨u, hu, hback⟩ := h
            obtain ⟨i, hi⟩ := List.mem_iff_getElem?.mp hu
            obtain ⟨-, path, hpath⟩ := (hmem i u hi a).mp hback
            exact hnot i u path hi hpath
        · constructor
          · intro hnodup i u hu
            exact (ih (hbelow i u hu)).mp (hnodup u (List.mem_of_getElem? hu))
          · intro hunshared u hu
            obtain ⟨i, hi⟩ := List.mem_iff_getElem?.mp hu
            exact (ih (hbelow i u hi)).mpr (hunshared i u hi)
        · rw [List.pairwise_iff_getElem]
          constructor
          · intro hdisjoint i j u w hij hu hw b path path' hb hpath hpath'
            obtain ⟨hi, rfl⟩ := List.getElem?_eq_some_iff.mp hu
            obtain ⟨hj, rfl⟩ := List.getElem?_eq_some_iff.mp hw
            exact hdisjoint i j hi hj hij ((hmem i _ hu b).mpr ⟨hb, path, hpath⟩)
              ((hmem j _ hw b).mpr ⟨hb, path', hpath'⟩)
          · intro hapart i j hi hj hij b hbi hbj
            have hu := List.getElem?_eq_getElem hi
            have hw := List.getElem?_eq_getElem hj
            obtain ⟨hb, path, hpath⟩ := (hmem i _ hu b).mp hbi
            obtain ⟨-, path', hpath'⟩ := (hmem j _ hw b).mp hbj
            exact hapart i j _ _ hij hu hw b path path' hb hpath hpath'
      · constructor
        · intro _ path path' b hb hpath hpath'
          have hnil : heap.children v = [] := by
            cases v with
            | ref a =>
                exact JsObject.children_of_not_container fun ha => hv ⟨a, rfl, ha⟩
            | _ => rfl
          rw [(hpath.of_children_nil hnil).1, (hpath'.of_children_nil hnil).1]
        · intro _
          cases v with
          | ref a =>
              rw [containers_of_not_container fun ha => hv ⟨a, rfl, ha⟩]
              exact List.nodup_nil
          | _ => exact List.nodup_nil

end Paths

end JsHeap

/-! ### A list of what was seen, handed through a traversal -/

section Seen

variable {ι ε β : Type}

/-- The traversal goes through exactly where it is admitted and meets none of `listed` twice, nor
one that was seen before; it hands on what was seen before and `listed`. -/
def Collects (f : List ι → Except ε (List ι)) (admitted : Prop) (listed : List ι) : Prop :=
  ∀ seen seen', f seen = .ok seen' ↔
    admitted ∧ listed.Nodup ∧ (∀ a ∈ listed, a ∉ seen) ∧ seen' = listed.reverse ++ seen

namespace Collects

variable {f g : List ι → Except ε (List ι)} {admitted admitted' : Prop} {l m : List ι}

theorem congr (h : Collects f admitted l) (hiff : admitted ↔ admitted') :
    Collects f admitted' l := by
  intro seen seen'
  rw [h seen seen', hiff]

/-- A check that passes everything collects nothing. -/
theorem pass (h : ∀ seen, f seen = .ok seen) : Collects f True [] := by
  intro seen seen'
  rw [h seen, Except.ok.injEq]
  constructor
  · intro heq
    subst heq
    exact ⟨trivial, List.nodup_nil, fun a ha => absurd ha List.not_mem_nil, rfl⟩
  · intro hcase
    obtain ⟨-, -, -, rfl⟩ := hcase
    rfl

/-- A check that refuses everything admits nothing. -/
theorem refuse (h : ∀ seen, ∃ err, f seen = .error err) : Collects f False l := by
  intro seen seen'
  obtain ⟨err, herr⟩ := h seen
  rw [herr]
  constructor
  · intro h
    cases h
  · intro hcase
    obtain ⟨h, -⟩ := hcase
    exact h.elim

/-- One traversal after another. -/
theorem andThen (hf : Collects f admitted l) (hg : Collects g admitted' m) :
    Collects (fun seen => f seen >>= g) (admitted ∧ admitted') (l ++ m) := by
  intro seen seen'
  have hthrough : (f seen >>= g) = .ok seen' ↔ ∃ mid, f seen = .ok mid ∧ g mid = .ok seen' := by
    cases f seen with
    | error err =>
        constructor
        · intro h
          cases h
        · intro hcase
          obtain ⟨mid, h, -⟩ := hcase
          cases h
    | ok first =>
        constructor
        · exact fun h => ⟨first, rfl, h⟩
        · intro hcase
          obtain ⟨mid, h, h'⟩ := hcase
          cases h
          exact h'
  show (f seen >>= g) = .ok seen' ↔ _
  rw [hthrough, List.nodup_append']
  constructor
  · intro hcase
    obtain ⟨mid, hfirst, hsecond⟩ := hcase
    obtain ⟨ha, hl, hseen, rfl⟩ := (hf seen mid).mp hfirst
    obtain ⟨ha', hm, hmid, rfl⟩ := (hg _ seen').mp hsecond
    refine ⟨⟨ha, ha'⟩, ⟨hl, hm, ?_⟩, ?_, ?_⟩
    · intro a hal ham
      exact hmid a ham (List.mem_append_left _ (List.mem_reverse.mpr hal))
    · intro a hmem
      rcases List.mem_append.mp hmem with hal | ham
      · exact hseen a hal
      · exact fun h => hmid a ham (List.mem_append_right _ h)
    · rw [List.reverse_append, List.append_assoc]
  · intro hcase
    obtain ⟨⟨ha, ha'⟩, ⟨hl, hm, hdisjoint⟩, hseen, rfl⟩ := hcase
    refine ⟨l.reverse ++ seen, (hf seen _).mpr ⟨ha, hl, ?_, rfl⟩, (hg _ _).mpr ⟨ha', hm, ?_, ?_⟩⟩
    · exact fun a hal => hseen a (List.mem_append_left _ hal)
    · intro a ham hmid
      rcases List.mem_append.mp hmid with hal | hbefore
      · exact hdisjoint (List.mem_reverse.mp hal) ham
      · exact hseen a (List.mem_append_right _ ham) hbefore
    · rw [List.reverse_append, List.append_assoc]

/-- An object is entered where it was not seen before. -/
theorem enter [DecidableEq ι] (hf : Collects f admitted l) (a : ι) (err : ε) :
    Collects (fun seen => if a ∈ seen then .error err else f (a :: seen)) admitted (a :: l) := by
  intro seen seen'
  by_cases hseen : a ∈ seen
  · simp only [if_pos hseen]
    constructor
    · intro h
      cases h
    · intro hcase
      obtain ⟨-, -, hnot, -⟩ := hcase
      exact absurd hseen (hnot a List.mem_cons_self)
  · simp only [if_neg hseen]
    rw [hf, List.nodup_cons, List.reverse_cons, List.append_assoc, List.singleton_append]
    constructor
    · intro hcase
      obtain ⟨ha, hl, hnot, rfl⟩ := hcase
      refine ⟨ha, ⟨fun hmem => hnot a hmem List.mem_cons_self, hl⟩, ?_, rfl⟩
      intro b heither
      rcases heither with _ | ⟨_, hb⟩
      · exact hseen
      · exact fun h => hnot b hb (List.mem_cons_of_mem a h)
    · intro hcase
      obtain ⟨ha, ⟨hroot, hl⟩, hnot, rfl⟩ := hcase
      refine ⟨ha, hl, fun b hb hmem => ?_, rfl⟩
      rcases List.mem_cons.mp hmem with rfl | hbefore
      · exact hroot hb
      · exact hnot b (List.mem_cons_of_mem a hb) hbefore

/-- A fold of checks admits what each admits and collects what each collects. -/
theorem foldlM {items : List β} {f : List ι → β → Except ε (List ι)} {admitted : β → Prop}
    {listed : β → List ι}
    (h : ∀ b ∈ items, Collects (fun seen => f seen b) (admitted b) (listed b)) :
    Collects (items.foldlM f) (∀ b ∈ items, admitted b) (items.flatMap listed) := by
  induction items with
  | nil =>
      refine (pass fun seen => rfl).congr ⟨fun _ b hb => ?_, fun _ => trivial⟩
      exact absurd hb List.not_mem_nil
  | cons b items ih =>
      have hrest := ih fun c hc => h c (List.mem_cons_of_mem b hc)
      exact ((h b List.mem_cons_self).andThen hrest).congr List.forall_mem_cons.symm

end Collects

end Seen
