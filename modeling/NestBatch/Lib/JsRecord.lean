import NestBatch.Lib.JsMap
import Mathlib.Data.List.Induction

/-!
# Plain objects as records

An object literal of the host language that is used as a record.  Its own keys
are listed with the array indices first, in ascending order, and the others in
insertion order; a write under `__proto__` makes no key but changes the
prototype.
-/

/-- The number that digits stand for. -/
def digitsValue (digits : List Char) : Option Nat :=
  digits.foldlM (fun n c => if c.isDigit then some (n * 10 + (c.toNat - '0'.toNat)) else none) 0

/-- The array index a key is: a number below 2³² - 1, written without leading zeros. -/
def arrayIndex? (key : String) : Option Nat :=
  match key.toList with
  | [] => none
  | c :: cs =>
      if c = '0' && !cs.isEmpty then none
      else (digitsValue (c :: cs)).filter (· < 4294967295)

/-- The first key may come before the second one. -/
def KeyBefore (a b : String) : Prop := ∀ n ∈ arrayIndex? b, ∃ m ∈ arrayIndex? a, m ≤ n

/-- An object with its own entries in insertion order, and what was written under `__proto__`. -/
structure JsRecord (ν : Type) where
  own : JsMap String ν
  proto : Option ν
  proto_not_own : "__proto__" ∉ own.keys

namespace JsRecord

variable {ν : Type}

/-- `{}`. -/
def empty : JsRecord ν := ⟨.empty, none, List.not_mem_nil⟩

/-- `r[key] = value`. -/
def set (r : JsRecord ν) (key : String) (value : ν) : JsRecord ν :=
  if h : key = "__proto__" then { r with proto := some value }
  else
    { r with
      own := r.own.set key value
      proto_not_own := by
        rw [JsMap.mem_keys_set_iff]
        intro hcase
        rcases hcase with heq | hmem
        · exact h heq.symm
        · exact r.proto_not_own hmem }

/-- `r[key]`, inherited names other than `__proto__` left out. -/
def get? (r : JsRecord ν) (key : String) : Option ν :=
  if key = "__proto__" then r.proto else r.own.get? key

def isIndex (e : String × ν) : Bool := (arrayIndex? e.1).isSome

/-- Ascending order of indices. -/
def indexLe (e f : String × ν) : Bool := (arrayIndex? e.1).getD 0 ≤ (arrayIndex? f.1).getD 0

/-- Entries as they are listed: indices first. -/
def listed (es : List (String × ν)) : List (String × ν) :=
  (es.filter isIndex).mergeSort indexLe ++ es.filter fun e => !isIndex e

/-- Listing a record's entries permutes them. -/
theorem listed_perm (es : List (String × ν)) : (listed es).Perm es :=
  ((List.mergeSort_perm _ _).append_right _).trans (List.filter_append_perm isIndex es)

/-- The own entries, in the order of `Object.keys`. -/
def entries (r : JsRecord ν) : JsMap String ν where
  entries := listed r.own.entries
  nodup := ((listed_perm r.own.entries).map Prod.fst).nodup_iff.mpr r.own.nodup

/-- `Object.keys(r)`. -/
def keys (r : JsRecord ν) : List String := r.entries.keys

/-- A set key is read back, and every other key as before. -/
theorem get?_set (r : JsRecord ν) (key key' : String) (value : ν) :
    (r.set key value).get? key' = if key' = key then some value else r.get? key' := by
  unfold get? set
  by_cases hkey : key = "__proto__"
  · rw [dif_pos hkey, hkey]
    by_cases hkey' : key' = "__proto__"
    · rw [if_pos hkey', if_pos hkey']
    · rw [if_neg hkey', if_neg hkey', if_neg hkey']
  · rw [dif_neg hkey]
    by_cases hkey' : key' = "__proto__"
    · rw [if_pos hkey', if_pos hkey', if_neg (hkey' ▸ Ne.symm hkey)]
    · rw [if_neg hkey', if_neg hkey', JsMap.get?_set]

/-! ### The order of the keys -/

/-- Among indexes a key comes before another by its number. -/
theorem keyBefore_iff_of_isIndex {e f : String × ν} (he : isIndex e = true)
    (hf : isIndex f = true) : KeyBefore e.1 f.1 ↔ indexLe e f = true := by
  obtain ⟨m, hm⟩ := Option.isSome_iff_exists.mp he
  obtain ⟨n, hn⟩ := Option.isSome_iff_exists.mp hf
  simp [KeyBefore, indexLe, hm, hn]

/-- Any key may stand before one that is no index. -/
theorem keyBefore_of_not_isIndex (a : String) {f : String × ν} (hf : isIndex f = false) :
    KeyBefore a f.1 := by
  have hnone : arrayIndex? f.1 = none := by simpa [isIndex] using hf
  intro n hn
  rw [hnone] at hn
  cases hn

/-- What stands before an index is an index. -/
theorem isIndex_of_keyBefore {e f : String × ν} (h : KeyBefore e.1 f.1)
    (hf : isIndex f = true) : isIndex e = true := by
  obtain ⟨n, hn⟩ := Option.isSome_iff_exists.mp hf
  obtain ⟨m, hm, -⟩ := h n hn
  exact Option.isSome_iff_exists.mpr ⟨m, hm⟩

/-- In what is listed, indices ascend and come first. -/
theorem pairwise_listed (es : List (String × ν)) :
    (listed es).Pairwise fun e f => KeyBefore e.1 f.1 := by
  have hsorted : ((es.filter isIndex).mergeSort indexLe).Pairwise
      fun e f => indexLe e f = true := by
    apply List.pairwise_mergeSort
    · intro e f g hef hfg
      simp only [indexLe, decide_eq_true_eq] at hef hfg ⊢
      omega
    · intro e f
      simp only [indexLe, Bool.or_eq_true, decide_eq_true_eq]
      omega
  apply List.pairwise_append.mpr
  refine ⟨hsorted.imp_of_mem ?_, List.pairwise_of_forall_mem_list ?_, ?_⟩
  · intro e f he hf hle
    rw [List.mem_mergeSort] at he hf
    exact (keyBefore_iff_of_isIndex (List.mem_filter.mp he).2 (List.mem_filter.mp hf).2).mpr hle
  · intro e _ f hf
    exact keyBefore_of_not_isIndex e.1 (by simpa using (List.mem_filter.mp hf).2)
  · intro e _ f hf
    exact keyBefore_of_not_isIndex e.1 (by simpa using (List.mem_filter.mp hf).2)

/-- Entries whose keys are in order start with their indices. -/
theorem filter_isIndex_append {es : List (String × ν)}
    (h : es.Pairwise fun e f => KeyBefore e.1 f.1) :
    es.filter isIndex ++ es.filter (fun e => !isIndex e) = es := by
  induction es with
  | nil => rfl
  | cons e es ih =>
      obtain ⟨hfirst, hrest⟩ := List.pairwise_cons.mp h
      by_cases he : isIndex e = true
      · rw [List.filter_cons_of_pos he, List.filter_cons_of_neg (by simp [he]), List.cons_append,
          ih hrest]
      · have hnone : es.filter isIndex = [] := by
          apply List.filter_eq_nil_iff.mpr
          intro f hf hindex
          exact he (isIndex_of_keyBefore (hfirst f hf) hindex)
        have hsame := ih hrest
        rw [hnone, List.nil_append] at hsame
        rw [List.filter_cons_of_neg he, hnone, List.nil_append,
          List.filter_cons_of_pos (by simp [he]), hsame]

/-- **Entries are listed as inserted** exactly when their keys are in order. -/
theorem listed_eq_self_iff (es : List (String × ν)) :
    listed es = es ↔ es.Pairwise fun e f => KeyBefore e.1 f.1 := by
  constructor
  · intro h
    rw [← h]
    exact pairwise_listed es
  · intro h
    have hindices : (es.filter isIndex).Pairwise fun e f => indexLe e f = true := by
      apply (h.filter isIndex).imp_of_mem
      intro e f he hf hbefore
      exact (keyBefore_iff_of_isIndex (List.mem_filter.mp he).2 (List.mem_filter.mp hf).2).mp
        hbefore
    rw [listed, List.mergeSort_of_pairwise hindices, filter_isIndex_append h]

/-- The keys of a record stand in their order. -/
theorem pairwise_keys (r : JsRecord ν) : r.keys.Pairwise KeyBefore :=
  List.pairwise_map.mpr (pairwise_listed r.own.entries)

/-- A record has no key twice. -/
theorem nodup_keys (r : JsRecord ν) : r.keys.Nodup := r.entries.nodup

/-- No record has the key of its prototype. -/
theorem proto_not_mem_keys (r : JsRecord ν) : "__proto__" ∉ r.keys := by
  have hperm : r.keys.Perm r.own.keys := (listed_perm r.own.entries).map Prod.fst
  rw [hperm.mem_iff]
  exact r.proto_not_own

/-! ### A list written key by key -/

section OfList

variable (key : ν → String)

/-- Every value written under its key, in turn. -/
def ofList (vs : List ν) : JsRecord ν := vs.foldl (fun r v => r.set (key v) v) empty

theorem ofList_concat (vs : List ν) (v : ν) :
    ofList key (vs ++ [v]) = (ofList key vs).set (key v) v := by
  unfold ofList
  rw [List.foldl_append]
  rfl

variable {key} {vs : List ν}

/-- Under every key that was written stands a value that was written there. -/
theorem exists_get?_ofList {k : String} (hk : k ∈ vs.map key) :
    ∃ v, (ofList key vs).get? k = some v ∧ key v = k := by
  induction vs using List.reverseRecOn with
  | nil => exact absurd hk List.not_mem_nil
  | append_singleton vs v ih =>
      rw [ofList_concat, get?_set]
      by_cases heq : k = key v
      · exact ⟨v, if_pos heq, heq.symm⟩
      · rw [if_neg heq]
        rw [List.map_append, List.map_singleton, List.mem_append, List.mem_singleton] at hk
        exact ih (hk.resolve_right heq)

/-- Values with keys of their own are the entries. -/
theorem own_ofList (hnodup : (vs.map key).Nodup) (hproto : "__proto__" ∉ vs.map key) :
    (ofList key vs).own.entries = vs.map fun v => (key v, v) := by
  induction vs using List.reverseRecOn with
  | nil => rfl
  | append_singleton vs v ih =>
      rw [List.map_append, List.map_singleton] at hnodup hproto
      have hown := ih hnodup.of_append_left fun h => hproto (List.mem_append_left _ h)
      have hne : key v ≠ "__proto__" := fun heq =>
        hproto (List.mem_append_right _ (List.mem_singleton.mpr heq.symm))
      have hfresh : (ofList key vs).own.get? (key v) = none := by
        rw [JsMap.get?_eq_none_iff]
        intro hmem
        rw [JsMap.keys, hown, List.map_map] at hmem
        exact List.disjoint_of_nodup_append hnodup hmem (List.mem_singleton_self _)
      rw [ofList_concat, set, dif_neg hne]
      dsimp only
      rw [JsMap.entries_set_of_none _ _ hfresh, hown, List.map_append, List.map_singleton]

/-- **A record lists what was written**, value by value, exactly when the keys differ, none is
`__proto__`, and the indices among them come first and ascend. -/
theorem keys_ofList_iff : (ofList key vs).keys = vs.map key ↔
    (vs.map key).Nodup ∧ "__proto__" ∉ vs.map key ∧ (vs.map key).Pairwise KeyBefore := by
  constructor
  · intro h
    rw [← h]
    exact ⟨nodup_keys _, proto_not_mem_keys _, pairwise_keys _⟩
  · intro hcase
    obtain ⟨hnodup, hproto, hpairwise⟩ := hcase
    have hown := own_ofList hnodup hproto
    have hlisted : listed (ofList key vs).own.entries = (ofList key vs).own.entries := by
      apply (listed_eq_self_iff _).mpr
      rw [hown]
      exact List.pairwise_map.mpr (List.pairwise_map.mp hpairwise)
    change (listed (ofList key vs).own.entries).map Prod.fst = vs.map key
    rw [hlisted, hown, List.map_map]
    rfl

/-- A value is found under its own key, where the keys differ. -/
theorem get?_ofList (hnodup : (vs.map key).Nodup) (hproto : "__proto__" ∉ vs.map key) {v : ν}
    (hv : v ∈ vs) : (ofList key vs).get? (key v) = some v := by
  have hne : key v ≠ "__proto__" := fun heq => hproto (heq ▸ List.mem_map_of_mem hv)
  rw [get?, if_neg hne, JsMap.get?_eq_some_iff, own_ofList hnodup hproto]
  exact List.mem_map_of_mem (f := fun v => (key v, v)) hv

end OfList

end JsRecord
