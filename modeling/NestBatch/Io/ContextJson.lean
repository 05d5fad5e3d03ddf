import NestBatch.Io.Checkpoint
import NestBatch.Lib.JsInteger
import NestBatch.Lib.JsonText

/-!
# Contexts as texts

A context that is stored is written by `JSON.stringify` and read by `JSON.parse`.  Its values are
trees of JSON whose numbers are whole and whose strings are well-formed; an object has distinct
keys.  Such a value comes back as it was.
-/

namespace NestBatch

open JsString

/-! ### Strings -/

/-- The characters of a string; none where a surrogate stands alone. -/
def charsOf : JsString → Option (List Char)
  | [] => some []
  | [u] => if isSurrogate u then none else some [Char.ofNat u.toNat]
  | u :: v :: rest =>
      if isHighSurrogate u && isLowSurrogate v then
        (charsOf rest).map
          (Char.ofNat (0x10000 + (u.toNat - 0xd800) * 0x400 + (v.toNat - 0xdc00)) :: ·)
      else if isSurrogate u then none
      else (charsOf (v :: rest)).map (Char.ofNat u.toNat :: ·)

theorem charsOf_cons {u : UInt16} (h : isSurrogate u = false) (rest : JsString) :
    charsOf (u :: rest) = (charsOf rest).map (Char.ofNat u.toNat :: ·) := by
  have hhigh : isHighSurrogate u = false := (Bool.or_eq_false_iff.mp h).1
  cases rest with
  | nil => exact if_neg (Bool.eq_false_iff.mp h)
  | cons v rest =>
      rw [charsOf, hhigh, Bool.false_and, if_neg Bool.false_ne_true,
        if_neg (Bool.eq_false_iff.mp h)]

/-- A number below two to the sixteenth is its unit's. -/
theorem toNat_toUInt16 {n : Nat} (h : n < 65536) : n.toUInt16.toNat = n := Nat.mod_eq_of_lt h

/-- The units of a character are one that is no surrogate, or a pair. -/
theorem codeUnits_cases (c : Char) :
    (∃ u, JsString.codeUnits c = [u] ∧ isSurrogate u = false ∧ u.toNat = c.toNat) ∨
    ∃ u v, JsString.codeUnits c = [u, v] ∧ isHighSurrogate u = true ∧ isLowSurrogate v = true ∧
      0x10000 + (u.toNat - 0xd800) * 0x400 + (v.toNat - 0xdc00) = c.toNat := by
  have hvalid : c.toNat < 0xd800 ∨ 0xdfff < c.toNat ∧ c.toNat < 0x110000 := c.valid
  unfold JsString.codeUnits
  split
  · have hunit := toNat_toUInt16 (n := c.toNat) (by omega)
    refine Or.inl ⟨c.toNat.toUInt16, rfl, ?_, hunit⟩
    simp [isSurrogate, isHighSurrogate, isLowSurrogate, UInt16.le_iff_toNat_le, hunit]
    omega
  · have hhigh := toNat_toUInt16 (n := 0xd800 + (c.toNat - 0x10000) / 0x400) (by omega)
    have hlow := toNat_toUInt16 (n := 0xdc00 + c.toNat % 0x400) (by omega)
    generalize (0xd800 + (c.toNat - 0x10000) / 0x400).toUInt16 = high at hhigh
    generalize (0xdc00 + c.toNat % 0x400).toUInt16 = low at hlow
    refine Or.inr ⟨high, low, rfl, ?_, ?_, by omega⟩
    · simp only [isHighSurrogate, UInt16.le_iff_toNat_le, Bool.and_eq_true, decide_eq_true_eq,
        UInt16.reduceToNat]
      omega
    · simp only [isLowSurrogate, UInt16.le_iff_toNat_le, Bool.and_eq_true, decide_eq_true_eq,
        UInt16.reduceToNat]
      omega

/-- **Characters are read back from their units.** -/
theorem charsOf_flatMap (cs : List Char) : charsOf (cs.flatMap JsString.codeUnits) = some cs := by
  induction cs with
  | nil => rfl
  | cons c cs ih =>
      rw [List.flatMap_cons]
      rcases codeUnits_cases c with ⟨u, hunits, hu, hcode⟩ | ⟨u, v, hunits, hu, hv, hcode⟩
      · rw [hunits, List.singleton_append, charsOf_cons hu, ih, hcode, Char.ofNat_toNat]
        rfl
      · rw [hunits]
        change charsOf (u :: v :: cs.flatMap JsString.codeUnits) = _
        rw [charsOf, hu, hv, Bool.and_self, if_pos rfl, ih, hcode, Char.ofNat_toNat]
        rfl

/-- The string that units stand for, if there is one. -/
def stringOf (s : JsString) : Option String := (charsOf s).map String.ofList

/-- The units of a string are read back. -/
theorem stringOf_units (s : String) : stringOf (units s) = some s := by
  rw [stringOf, units, charsOf_flatMap, Option.map_some, String.ofList_toList]

/-! ### Whole numbers -/

/-- Digits, with a minus in front below zero. -/
def wholeDigits (n : Int) : JsString :=
  if n < 0 then 45 :: decimal n.natAbs else decimal n.natAbs

/-- The text of a whole number. -/
def wholeText (n : Int) : NumberText where
  text := wholeDigits n
  starts := by
    obtain ⟨u, digits, hdigits⟩ := List.exists_cons_of_ne_nil (decimal_ne_nil n.natAbs)
    have hu : isDigit u = true := isDigit_of_mem_decimal (hdigits ▸ List.mem_cons_self)
    unfold wholeDigits
    split
    · rfl
    · rw [hdigits, List.head?_cons, Option.any_some, hu, Bool.true_or]
  digits := by
    have hdigits : (decimal n.natAbs).all isNumberUnit = true := by
      refine List.all_eq_true.mpr fun u hu => ?_
      simp only [isNumberUnit, isDigit_of_mem_decimal hu, Bool.true_or]
    unfold wholeDigits
    split
    · rw [List.all_cons, hdigits]
      rfl
    · exact hdigits

/-- What digits stand for. -/
def naturalOf (digits : JsString) : Option Nat :=
  if digits ≠ [] ∧ digits.all isDigit then some (decimalValue digits) else none

/-- The whole number that is spelled with a sign and digits only. -/
def wholeOf (spelled : JsString) : Option Int :=
  if spelled.head? = some 45 then (naturalOf spelled.tail).map fun n : Nat => -(n : Int)
  else (naturalOf spelled).map Int.ofNat

/-- The decimal of a natural number is read back. -/
theorem naturalOf_decimal (n : Nat) : naturalOf (decimal n) = some n := by
  have hall : (decimal n).all isDigit = true :=
    List.all_eq_true.mpr fun u hu => isDigit_of_mem_decimal hu
  rw [naturalOf, if_pos ⟨decimal_ne_nil n, hall⟩, decimalValue_decimal]

/-- The text of an integer is read back. -/
theorem wholeOf_wholeText (n : Int) : wholeOf (wholeText n).text = some n := by
  have htext : (wholeText n).text = wholeDigits n := rfl
  rw [htext, wholeDigits, wholeOf]
  by_cases hneg : n < 0
  · rw [if_pos hneg, List.head?_cons, if_pos rfl, List.tail_cons, naturalOf_decimal,
      Option.map_some]
    have hvalue : -(n.natAbs : Int) = n := by omega
    rw [hvalue]
  · have hhead : (decimal n.natAbs).head? ≠ some 45 := by
      intro h
      have hdigit := isDigit_of_mem_decimal (List.mem_of_head? h)
      exact absurd hdigit (by decide)
    have hvalue : (n.natAbs : Int) = n := by omega
    rw [if_neg hneg, if_neg hhead, naturalOf_decimal]
    exact congrArg some hvalue

/-! ### Values -/

namespace JsonValue

mutual

/-- A value as a tree of JSON. -/
def toJson : JsonValue → Json
  | .null => .null
  | .bool b => .bool b
  | .num n => .num (wholeText n)
  | .str s => .str (units s)
  | .arr xs => .arr (toElements xs)
  | .obj fields => .obj (toMembers fields)

def toElements : List JsonValue → List Json
  | [] => []
  | value :: rest => toJson value :: toElements rest

def toMembers : List (String × JsonValue) → List (JsString × Json)
  | [] => []
  | (key, value) :: rest => (units key, toJson value) :: toMembers rest

end

mutual

/-- The value of a tree of JSON, if it is one of these.  Of two members with one name, the later
one stands in the place of the earlier. -/
def ofJson : Json → Option JsonValue
  | .null => some .null
  | .bool b => some (.bool b)
  | .num n => (wholeOf n.text).map .num
  | .str s => (stringOf s).map .str
  | .arr elements => (ofElements elements).map .arr
  | .obj members => (ofMembers members []).map .obj

def ofElements : List Json → Option (List JsonValue)
  | [] => some []
  | v :: rest => (ofJson v).bind fun value => (ofElements rest).map (value :: ·)

def ofMembers : List (JsString × Json) → List (String × JsonValue) →
    Option (List (String × JsonValue))
  | [], fields => some fields
  | (name, v) :: rest, fields =>
      (stringOf name).bind fun key =>
        (ofJson v).bind fun value => ofMembers rest (setField fields key value)

end

/-- `JSON.parse(JSON.stringify(value))`. -/
def throughJson (value : JsonValue) : Option JsonValue :=
  (Json.parse (Json.stringify (toJson value))).bind ofJson

/-- Every object has distinct keys. -/
inductive WellKeyed : JsonValue → Prop
  | null : WellKeyed .null
  | bool (b : Bool) : WellKeyed (.bool b)
  | num (n : Int) : WellKeyed (.num n)
  | str (s : String) : WellKeyed (.str s)
  | arr {xs : List JsonValue} (elements : ∀ v ∈ xs, WellKeyed v) : WellKeyed (.arr xs)
  | obj {fields : List (String × JsonValue)} (nodup : (fields.map Prod.fst).Nodup)
      (values : ∀ f ∈ fields, WellKeyed f.2) : WellKeyed (.obj fields)

/-- Elements that are read back are read back in a row. -/
theorem ofElements_toElements {xs : List JsonValue} (h : ∀ v ∈ xs, ofJson (toJson v) = some v) :
    ofElements (toElements xs) = some xs := by
  induction xs with
  | nil => rfl
  | cons v rest ih =>
      rw [toElements, ofElements, h v List.mem_cons_self, Option.bind_some,
        ih fun w hw => h w (List.mem_cons_of_mem v hw)]
      rfl

/-- A new field is set last. -/
theorem setField_of_not_mem {fields : List (String × JsonValue)} {key : String}
    (h : key ∉ fields.map Prod.fst) (value : JsonValue) :
    setField fields key value = fields ++ [(key, value)] := by
  induction fields with
  | nil => rfl
  | cons f fields ih =>
      rw [List.map_cons, List.mem_cons, not_or] at h
      rw [setField, if_neg (Ne.symm h.1), ih h.2]
      rfl

/-- Members with different keys are read back in order. -/
theorem ofMembers_toMembers {fields made : List (String × JsonValue)}
    (hnodup : ((made ++ fields).map Prod.fst).Nodup)
    (h : ∀ f ∈ fields, ofJson (toJson f.2) = some f.2) :
    ofMembers (toMembers fields) made = some (made ++ fields) := by
  induction fields generalizing made with
  | nil => exact congrArg some (List.append_nil made).symm
  | cons f rest ih =>
      obtain ⟨key, value⟩ := f
      have hkey : key ∉ made.map Prod.fst := by
        intro hmem
        rw [List.map_append, List.nodup_append] at hnodup
        exact hnodup.2.2 key hmem key List.mem_cons_self rfl
      rw [List.append_cons] at hnodup ⊢
      rw [toMembers, ofMembers, stringOf_units, Option.bind_some,
        h (key, value) List.mem_cons_self, Option.bind_some, setField_of_not_mem hkey]
      exact ih hnodup fun f hf => h f (List.mem_cons_of_mem _ hf)

/-- A value whose keys differ comes back from its JSON. -/
theorem WellKeyed.ofJson_toJson {value : JsonValue} (h : WellKeyed value) :
    ofJson (toJson value) = some value := by
  induction h with
  | null => rfl
  | bool b => rfl
  | num n => rw [toJson, ofJson, wholeOf_wholeText, Option.map_some]
  | str s => rw [toJson, ofJson, stringOf_units, Option.map_some]
  | arr _ ih => rw [toJson, ofJson, ofElements_toElements ih, Option.map_some]
  | obj hnodup _ ih =>
      have hmembers := @ofMembers_toMembers _ [] hnodup ih
      rw [toJson, ofJson, hmembers]
      rfl

/-- **What is written to a text comes back.** -/
theorem WellKeyed.throughJson {value : JsonValue} (h : WellKeyed value) :
    throughJson value = some value := by
  rw [JsonValue.throughJson, Json.parse_stringify, Option.bind_some, h.ofJson_toJson]

/-! ### Checkpoints -/

section Checkpoint

variable {fields : List (String × JsonValue)} {key : String} {value : JsonValue}

/-- Setting a field makes no key twice. -/
theorem nodup_setField (h : (fields.map Prod.fst).Nodup) (key : String) (value : JsonValue) :
    ((setField fields key value).map Prod.fst).Nodup := by
  by_cases hkey : key ∈ fields.map Prod.fst
  · have hkeys : (setField fields key value).map Prod.fst = fields.map Prod.fst := by
      clear h
      induction fields with
      | nil => cases hkey
      | cons f fields ih =>
          rw [setField]
          split
          · next hf => rw [List.map_cons, List.map_cons, hf]
          · next hf =>
              rw [List.map_cons, List.map_cons,
                ih ((List.mem_cons.mp hkey).resolve_left fun heq => hf heq.symm)]
    rw [hkeys]
    exact h
  · rw [setField_of_not_mem hkey, List.map_append]
    exact List.nodup_append.mpr ⟨h, List.nodup_singleton key, fun k hk _ hlast hsame => by
      rw [hsame, List.mem_singleton.mp hlast] at hk
      exact hkey hk⟩

/-- A field after a setting is the one set or an old one. -/
theorem mem_setField {f : String × JsonValue} (h : f ∈ setField fields key value) :
    f = (key, value) ∨ f ∈ fields := by
  induction fields with
  | nil => exact Or.inl (List.mem_singleton.mp h)
  | cons g fields ih =>
      rw [setField] at h
      split at h
      · rcases List.mem_cons.mp h with hnew | hold
        · exact Or.inl hnew
        · exact Or.inr (List.mem_cons_of_mem g hold)
      · rcases List.mem_cons.mp h with hfirst | hrest
        · exact Or.inr (hfirst ▸ List.mem_cons_self)
        · exact (ih hrest).imp_right (List.mem_cons_of_mem g)

/-- Setting a field keeps a value well keyed. -/
theorem WellKeyed.setField (h : WellKeyed (.obj fields)) (hvalue : WellKeyed value)
    (key : String) : WellKeyed (.obj (setField fields key value)) := by
  cases h with
  | obj hnodup hfields =>
      refine .obj (nodup_setField hnodup key value) fun f hf => ?_
      rcases mem_setField hf with rfl | hold
      · exact hvalue
      · exact hfields f hold

/-- The record of a value is well keyed. -/
theorem WellKeyed.record (h : WellKeyed value) : WellKeyed (.obj (asJsonRecord value)) := by
  cases value with
  | obj fields => exact h
  | _ => exact .obj List.nodup_nil (List.forall_mem_nil _)

/-- A field of a well-keyed value is well keyed. -/
theorem wellKeyed_of_getField (h : WellKeyed (.obj fields))
    (hget : getField fields key = some value) : WellKeyed value := by
  cases h with
  | obj hnodup hfields =>
      induction fields with
      | nil => cases hget
      | cons f fields ih =>
          rw [getField] at hget
          split at hget
          · exact Option.some.inj hget ▸ hfields f List.mem_cons_self
          · exact ih hget (List.nodup_cons.mp hnodup).2
              fun g hg => hfields g (List.mem_cons_of_mem f hg)

end Checkpoint

end JsonValue

namespace ExecutionContext

/-- A context that was stored as a text. -/
def throughJson (context : ExecutionContext) : Option ExecutionContext :=
  context.data.throughJson.map fun data => { context with data := data }

/-- Whether the objects of a context have distinct keys. -/
def WellKeyed (context : ExecutionContext) : Prop := context.data.WellKeyed

/-- A well-keyed context comes through JSON as it is. -/
theorem WellKeyed.throughJson {context : ExecutionContext} (h : context.WellKeyed) :
    context.throughJson = some context := by
  rw [ExecutionContext.throughJson, JsonValue.WellKeyed.throughJson h]
  rfl

/-- Writing a checkpoint keeps a context well keyed. -/
theorem WellKeyed.writeCheckpoint {context : ExecutionContext} (h : context.WellKeyed)
    (key field : String) {value : JsonValue} (hvalue : value.WellKeyed) :
    (writeCheckpoint context key [(field, value)]).WellKeyed := by
  have hstate : (JsonValue.obj [(field, value)]).WellKeyed :=
    .obj (List.nodup_singleton field) (List.forall_mem_singleton.mpr hvalue)
  exact (JsonValue.WellKeyed.record h).setField hstate key

/-- A value read from a well-keyed checkpoint is well keyed. -/
theorem WellKeyed.readCheckpointValue {context : ExecutionContext} (h : context.WellKeyed)
    (key field : String) {fallback : JsonValue} (hfallback : fallback.WellKeyed) :
    (readCheckpointValue context key field fallback).WellKeyed := by
  have hrecord : (JsonValue.obj (readCheckpoint context key)).WellKeyed := by
    unfold readCheckpoint
    cases hvalue : JsonValue.getField (asJsonRecord context.data) key with
    | none => exact .obj List.nodup_nil (List.forall_mem_nil _)
    | some value =>
        exact (JsonValue.wellKeyed_of_getField (JsonValue.WellKeyed.record h) hvalue).record
  unfold NestBatch.readCheckpointValue
  cases hvalue : JsonValue.getField (readCheckpoint context key) field with
  | none => exact hfallback
  | some value => exact JsonValue.wellKeyed_of_getField hrecord hvalue

end ExecutionContext

end NestBatch
