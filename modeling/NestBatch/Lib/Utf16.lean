import NestBatch.Lib.JsText

/-!
# Characters and code units

A string of the host language is read back as characters: a surrogate pair is one
character, and any other unit is one of its own, with the replacement character for
a surrogate that stands alone.
-/

namespace JsString

/-- The character of a surrogate pair. -/
def pairChar (u v : UInt16) : Char :=
  Char.ofNat (0x10000 + (u.toNat - 0xd800) * 0x400 + (v.toNat - 0xdc00))

def chars : JsString → List Char
  | [] => []
  | [u] => [Char.ofNat (single u).toNat]
  | u :: v :: rest =>
      if isHighSurrogate u && isLowSurrogate v then pairChar u v :: chars rest
      else Char.ofNat (single u).toNat :: chars (v :: rest)

/-- The text of the units. -/
def text (s : JsString) : String := String.ofList (chars s)

section Units

/-- A number below two to the sixteenth is its unit's. -/
theorem toNat_toUInt16 {n : Nat} (h : n < 0x10000) : n.toUInt16.toNat = n := by
  rw [Nat.toUInt16_eq, UInt16.toNat_ofNat', Nat.mod_eq_of_lt h]

/-- A surrogate is not a character. -/
theorem toNat_lt_or_gt (c : Char) : c.toNat < 0xd800 ∨ 0xdfff < c.toNat := by
  rcases c.valid with h | h
  · exact .inl h
  · exact .inr h.1

/-- A character is a number below the end of Unicode. -/
theorem toNat_lt (c : Char) : c.toNat < 0x110000 := by
  rcases c.valid with h | h
  · exact Nat.lt_trans h (by decide)
  · exact h.2

/-- A high surrogate is a unit in its range. -/
theorem isHighSurrogate_iff (u : UInt16) :
    isHighSurrogate u = true ↔ 0xd800 ≤ u.toNat ∧ u.toNat ≤ 0xdbff := by
  unfold isHighSurrogate
  rw [Bool.and_eq_true, decide_eq_true_iff, decide_eq_true_iff, UInt16.le_iff_toNat_le,
    UInt16.le_iff_toNat_le]
  rfl

/-- A low surrogate is a unit in its range. -/
theorem isLowSurrogate_iff (u : UInt16) :
    isLowSurrogate u = true ↔ 0xdc00 ≤ u.toNat ∧ u.toNat ≤ 0xdfff := by
  unfold isLowSurrogate
  rw [Bool.and_eq_true, decide_eq_true_iff, decide_eq_true_iff, UInt16.le_iff_toNat_le,
    UInt16.le_iff_toNat_le]
  rfl

theorem chars_cons {u : UInt16} (h : isSurrogate u = false) (rest : JsString) :
    chars (u :: rest) = Char.ofNat u.toNat :: chars rest := by
  have hhigh : isHighSurrogate u = false := (Bool.or_eq_false_iff.mp h).1
  cases rest with
  | nil =>
      change [Char.ofNat (single u).toNat] = [Char.ofNat u.toNat]
      rw [single_of_not_surrogate h]
  | cons v rest =>
      rw [chars, hhigh, Bool.false_and, if_neg Bool.false_ne_true, single_of_not_surrogate h]

/-- **A character is read back from its units.** -/
theorem chars_codeUnits (c : Char) (rest : JsString) :
    chars (codeUnits c ++ rest) = c :: chars rest := by
  have hlt := toNat_lt c
  unfold codeUnits
  by_cases hbmp : c.toNat < 0x10000
  · have hunit : c.toNat.toUInt16.toNat = c.toNat := toNat_toUInt16 hbmp
    have hnot : isSurrogate c.toNat.toUInt16 = false := by
      rw [Bool.eq_false_iff]
      intro h
      rcases Bool.or_eq_true_iff.mp h with h | h
      · have hrange := (isHighSurrogate_iff _).mp h
        rcases toNat_lt_or_gt c with hc | hc <;> omega
      · have hrange := (isLowSurrogate_iff _).mp h
        rcases toNat_lt_or_gt c with hc | hc <;> omega
    rw [if_pos hbmp, List.singleton_append, chars_cons hnot, hunit, Char.ofNat_toNat]
  · rw [if_neg hbmp, List.cons_append, List.singleton_append]
    have hhigh : (0xd800 + (c.toNat - 0x10000) / 0x400).toUInt16.toNat =
        0xd800 + (c.toNat - 0x10000) / 0x400 := toNat_toUInt16 (by omega)
    have hlow : (0xdc00 + c.toNat % 0x400).toUInt16.toNat = 0xdc00 + c.toNat % 0x400 :=
      toNat_toUInt16 (by omega)
    have hpair : isHighSurrogate (0xd800 + (c.toNat - 0x10000) / 0x400).toUInt16 = true ∧
        isLowSurrogate (0xdc00 + c.toNat % 0x400).toUInt16 = true := by
      rw [isHighSurrogate_iff, isLowSurrogate_iff, hhigh, hlow]
      omega
    rw [chars, hpair.1, hpair.2, Bool.and_self, if_pos rfl, pairChar, hhigh, hlow]
    have hnat : 0x10000 + (0xd800 + (c.toNat - 0x10000) / 0x400 - 0xd800) * 0x400 +
        (0xdc00 + c.toNat % 0x400 - 0xdc00) = c.toNat := by omega
    rw [hnat, Char.ofNat_toNat]

/-- **A text is read back from its units.** -/
@[simp] theorem text_units (s : String) : text (units s) = s := by
  have hchars (cs : List Char) : chars (cs.flatMap codeUnits) = cs := by
    induction cs with
    | nil => rfl
    | cons c cs ih => rw [List.flatMap_cons, chars_codeUnits, ih]
  rw [text, units, hchars, String.ofList_toList]

end Units

end JsString
