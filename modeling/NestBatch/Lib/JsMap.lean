import Mathlib.Data.List.Basic
import Mathlib.Data.List.Nodup

/-!
# Insertion-ordered maps

A `Map` of the host language iterates its entries in insertion order; setting
a key that is present keeps its place.  The keys are kept distinct by
construction, so a value is reached through at most one key.
-/

/-- A map with distinct keys, iterated in insertion order. -/
structure JsMap (κ ν : Type) where
  entries : List (κ × ν)
  nodup : (entries.map Prod.fst).Nodup

namespace JsMap

variable {κ ν : Type} [DecidableEq κ]

/-- The empty map. -/
def empty : JsMap κ ν := ⟨[], List.nodup_nil⟩

/-- The keys, in insertion order. -/
def keys (m : JsMap κ ν) : List κ := m.entries.map Prod.fst

/-- The values, in insertion order. -/
def values (m : JsMap κ ν) : List ν := m.entries.map Prod.snd

/-- The value under `k`. -/
def get? (m : JsMap κ ν) (k : κ) : Option ν :=
  (m.entries.find? (fun e => e.1 = k)).map Prod.snd

/-- Entries after writing `v` under `k`. -/
def setEntries : List (κ × ν) → κ → ν → List (κ × ν)
  | [], k, v => [(k, v)]
  | e :: es, k, v => if e.1 = k then (k, v) :: es else e :: setEntries es k v

/-- The keys after a write: a new one comes last. -/
theorem setEntries_keys (es : List (κ × ν)) (k : κ) (v : ν) :
    (setEntries es k v).map Prod.fst =
      if k ∈ es.map Prod.fst then es.map Prod.fst else es.map Prod.fst ++ [k] := by
  induction es with
  | nil => simp [setEntries]
  | cons e es ih =>
      by_cases h : e.1 = k
      · simp [setEntries, h]
      · have hk : ¬ k = e.1 := fun h' => h h'.symm
        simp only [setEntries, if_neg h, List.map_cons, ih, List.mem_cons, hk, false_or]
        split <;> simp

/-- Write `v` under `k`. -/
def set (m : JsMap κ ν) (k : κ) (v : ν) : JsMap κ ν where
  entries := setEntries m.entries k v
  nodup := by
    rw [setEntries_keys]
    split
    · exact m.nodup
    · next h =>
        refine List.nodup_append.mpr ⟨m.nodup, List.nodup_singleton k, ?_⟩
        intro a ha b hb
        rw [List.mem_singleton.mp hb]
        exact fun hab => h (hab ▸ ha)

@[simp] theorem get?_empty (k : κ) : (empty : JsMap κ ν).get? k = none := rfl

@[simp] theorem get?_set_self (m : JsMap κ ν) (k : κ) (v : ν) : (m.set k v).get? k = some v := by
  obtain ⟨es, hnd⟩ := m
  simp only [get?, set]
  clear hnd
  induction es with
  | nil => simp [setEntries]
  | cons e es ih =>
      by_cases h : e.1 = k
      · simp [setEntries, h]
      · simp [setEntries, h, ih]

theorem get?_set_of_ne (m : JsMap κ ν) {k k' : κ} (v : ν) (h : k' ≠ k) :
    (m.set k v).get? k' = m.get? k' := by
  obtain ⟨es, hnd⟩ := m
  simp only [get?, set]
  clear hnd
  induction es with
  | nil => simp [setEntries, Ne.symm h]
  | cons e es ih =>
      by_cases hk : e.1 = k
      · have hk' : ¬ e.1 = k' := fun h' => h (h'.symm.trans hk)
        simp [setEntries, hk, Ne.symm h]
      · by_cases hk' : e.1 = k'
        · rw [setEntries, if_neg hk]
          simp [hk']
        · simp [setEntries, hk, hk', ih]

/-- A lookup after a write. -/
theorem get?_set (m : JsMap κ ν) (k k' : κ) (v : ν) :
    (m.set k v).get? k' = if k' = k then some v else m.get? k' := by
  by_cases h : k' = k
  · subst h; simp
  · simp [h, get?_set_of_ne m v h]

/-- An entry is found under its key. -/
theorem get?_eq_some_iff (m : JsMap κ ν) (k : κ) (v : ν) :
    m.get? k = some v ↔ (k, v) ∈ m.entries := by
  obtain ⟨es, hnd⟩ := m
  simp only [get?]
  induction es with
  | nil => simp
  | cons e es ih =>
      obtain ⟨hne, hnd'⟩ := List.nodup_cons.mp hnd
      by_cases hk : e.1 = k
      · subst hk
        constructor
        · intro h
          simp at h
          simp [← h]
        · intro h
          rcases List.mem_cons.mp h with h | h
          · have hv : v = e.2 := congrArg Prod.snd h
            simp [hv]
          · exact absurd (List.mem_map_of_mem (f := Prod.fst) h) hne
      · have hk' : (k, v) ≠ e := fun h => hk (by simp [← h])
        simpa [hk, hk'] using ih hnd'

/-- The values are what the keys lead to. -/
theorem mem_values_iff (m : JsMap κ ν) (v : ν) :
    v ∈ m.values ↔ ∃ k, m.get? k = some v := by
  simp [values, get?_eq_some_iff]

/-! ### What a write changes -/

/-- A key that is not found is not there. -/
theorem get?_eq_none_iff (m : JsMap κ ν) (k : κ) : m.get? k = none ↔ k ∉ m.keys := by
  unfold get? keys
  rw [Option.map_eq_none_iff, List.find?_eq_none, List.mem_map]
  constructor
  · intro h hmem
    obtain ⟨entry, hentry, hkey⟩ := hmem
    exact h entry hentry (decide_eq_true hkey)
  · intro h entry hentry hkey
    exact h ⟨entry, hentry, of_decide_eq_true hkey⟩

/-- A new key goes to the end. -/
theorem entries_set_of_none (m : JsMap κ ν) {k : κ} (v : ν) (h : m.get? k = none) :
    (m.set k v).entries = m.entries ++ [(k, v)] := by
  have hkey := (m.get?_eq_none_iff k).mp h
  unfold keys at hkey
  obtain ⟨es, hnd⟩ := m
  change setEntries es k v = es ++ [(k, v)]
  change k ∉ es.map Prod.fst at hkey
  clear h hnd
  induction es with
  | nil => rfl
  | cons e es ih =>
      rw [List.map_cons, List.mem_cons, not_or] at hkey
      rw [setEntries, if_neg (Ne.symm hkey.1), ih hkey.2]
      rfl

/-- A present key keeps its place. -/
theorem entries_set_of_some (m : JsMap κ ν) {k : κ} (v : ν) (h : (m.get? k).isSome) :
    (m.set k v).entries = m.entries.map fun e => if e.1 = k then (k, v) else e := by
  obtain ⟨es, hnd⟩ := m
  have hmem : k ∈ es.map Prod.fst := by
    by_cases hkey : k ∈ es.map Prod.fst
    · exact hkey
    · have hnone := (get?_eq_none_iff ⟨es, hnd⟩ k).mpr hkey
      rw [hnone] at h
      cases h
  change setEntries es k v = _
  clear h
  induction es with
  | nil => cases hmem
  | cons e es ih =>
      obtain ⟨hne, hnd'⟩ := List.nodup_cons.mp hnd
      by_cases hk : e.1 = k
      · subst hk
        have hrest : es.map (fun e' => if e'.1 = e.1 then (e.1, v) else e') = es := by
          refine (List.map_congr_left fun e' he' => ?_).trans (List.map_id es)
          have hne' : e'.1 ≠ e.1 := fun h => hne (h ▸ List.mem_map_of_mem (f := Prod.fst) he')
          rw [if_neg hne']
          rfl
        rw [setEntries, if_pos rfl, List.map_cons, if_pos rfl, hrest]
      · have hmem' : k ∈ es.map Prod.fst := by
          rcases List.mem_cons.mp hmem with h | h
          · exact absurd h.symm hk
          · exact h
        rw [setEntries, if_neg hk, List.map_cons, if_neg hk, ih hnd' hmem']

/-- The keys of the map after a write. -/
theorem keys_set (m : JsMap κ ν) (k : κ) (v : ν) :
    (m.set k v).keys = if k ∈ m.keys then m.keys else m.keys ++ [k] :=
  setEntries_keys m.entries k v

/-- The keys so far keep their places. -/
theorem keys_prefix_set (m : JsMap κ ν) (k : κ) (v : ν) : m.keys <+: (m.set k v).keys := by
  rw [keys_set]
  split
  · exact List.prefix_rfl
  · exact List.prefix_append _ _

theorem mem_keys_set_iff (m : JsMap κ ν) (k k' : κ) (v : ν) :
    k' ∈ (m.set k v).keys ↔ k' = k ∨ k' ∈ m.keys := by
  rw [keys_set]
  by_cases h : k ∈ m.keys
  · rw [if_pos h]
    constructor
    · exact .inr
    · intro hcase
      rcases hcase with heq | hmem
      · exact heq ▸ h
      · exact hmem
  · rw [if_neg h, List.mem_append, List.mem_singleton, or_comm]

/-! ### Other keys -/

omit [DecidableEq κ] in
theorem ext_entries {m m' : JsMap κ ν} (h : m.entries = m'.entries) : m = m' := by
  cases m
  cases m'
  cases h
  rfl

section Rekey

variable {κ' ν' : Type} {r : κ → κ'} (hr : Function.Injective r) (f : ν → ν')

omit [DecidableEq κ] in
/-- The same map under other names for its keys, with its values rewritten. -/
def rekey (m : JsMap κ ν) : JsMap κ' ν' where
  entries := m.entries.map fun e => (r e.1, f e.2)
  nodup := by
    have hkeys : (m.entries.map fun e => (r e.1, f e.2)).map Prod.fst =
        (m.entries.map Prod.fst).map r := by
      rw [List.map_map, List.map_map]
      rfl
    rw [hkeys]
    exact m.nodup.map hr

omit [DecidableEq κ] in
/-- The values of a map under new keys. -/
theorem values_rekey (m : JsMap κ ν) : (m.rekey hr f).values = m.values.map f := by
  unfold values rekey
  rw [List.map_map, List.map_map]
  rfl

variable [DecidableEq κ']

/-- A lookup under a new key. -/
theorem get?_rekey (m : JsMap κ ν) (k : κ) : (m.rekey hr f).get? (r k) = (m.get? k).map f := by
  obtain ⟨es, hnd⟩ := m
  simp only [get?, rekey]
  clear hnd
  induction es with
  | nil => rfl
  | cons e es ih =>
      by_cases h : e.1 = k
      · simp [h]
      · have hne : r e.1 ≠ r k := fun heq => h (hr heq)
        simpa [h, hne] using ih

/-- A write under a new key. -/
theorem rekey_set (m : JsMap κ ν) (k : κ) (v : ν) :
    (m.set k v).rekey hr f = (m.rekey hr f).set (r k) (f v) := by
  apply ext_entries
  obtain ⟨es, hnd⟩ := m
  simp only [rekey, set]
  clear hnd
  induction es with
  | nil => rfl
  | cons e es ih =>
      by_cases h : e.1 = k
      · simp [setEntries, h]
      · have hne : r e.1 ≠ r k := fun heq => h (hr heq)
        simp [setEntries, h, hne, ih]

end Rekey

end JsMap
