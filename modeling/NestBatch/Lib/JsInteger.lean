import Mathlib.Algebra.Group.Nat.Defs
import NestBatch.Lib.JsText

/-!
# Whole numbers of the host language

`parseInt` reads as many digits as there are behind white space and a sign, and makes a number
of them that is rounded as numbers are.  What stands behind the digits is not looked at.
-/

/-- A whole number by its sign and magnitude, so that there are two zeros. -/
inductive JsInteger
  | whole (negative : Bool) (magnitude : Nat)
  | infinity (negative : Bool)
  | nan
  deriving DecidableEq

open JsString

/-- Rounded to 53 significant bits, ties to even. -/
def roundToDouble (n : Nat) : Nat :=
  let ulp := 2 ^ (n.log2 - 52)
  if 2 * (n % ulp) < ulp ∨ 2 * (n % ulp) = ulp ∧ n / ulp % 2 = 0 then n / ulp * ulp
  else (n / ulp + 1) * ulp

/-- The number that digits stand for. -/
def decimalValue (digits : JsString) : Nat := digits.foldl (fun n u => 10 * n + (u.toNat - 48)) 0

/-- The digits of a number. -/
def decimal (n : Nat) : JsString := (Nat.toDigits 10 n).map fun c => c.toNat.toUInt16

/-- 2¹⁰²⁴: rounded to this or more, a number is infinite. -/
def beyondFinite : Nat := (2 ^ 128) ^ 8

namespace JsInteger

def ofMagnitude (negative : Bool) (n : Nat) : JsInteger :=
  if roundToDouble n < beyondFinite then .whole negative (roundToDouble n) else .infinity negative

/-- `Number.isFinite`. -/
def isFinite : JsInteger → Bool
  | .whole _ _ => true
  | .infinity _ | .nan => false

/-- Less than zero; `-0` is not. -/
def isNegative : JsInteger → Bool
  | .whole negative magnitude => negative && magnitude ≠ 0
  | .infinity negative => negative
  | .nan => false

/-- A plus or a minus in front. -/
def signOf (s : JsString) : JsString :=
  if s.head? = some 43 ∨ s.head? = some 45 then s.take 1 else []

/-- `Number.parseInt(text, 10)`. -/
def parseInt (text : JsString) : JsInteger :=
  let s := text.dropWhile isTrimmable
  let digits := (s.drop (signOf s).length).takeWhile isDigit
  if digits = [] then .nan else ofMagnitude (signOf s = [45]) (decimalValue digits)

end JsInteger

/-- `Number.MAX_SAFE_INTEGER`. -/
def maxSafeInteger : Nat := 2 ^ 53 - 1

/-! ### Rounding -/

/-- Up to 2⁵³ nothing is rounded. -/
theorem roundToDouble_of_safe {n : Nat} (h : n ≤ maxSafeInteger) : roundToDouble n = n := by
  have hlog : n.log2 - 52 = 0 := by
    rcases Nat.eq_zero_or_pos n with hzero | hpos
    · rw [hzero]
      rfl
    · have hlt : n.log2 < 53 := (Nat.log2_lt (Nat.ne_of_gt hpos)).mpr (by
        unfold maxSafeInteger at h
        omega)
      omega
  simp only [roundToDouble, hlog]
  rw [if_pos (Or.inl (by omega))]
  omega

/-- Only zero is rounded to zero. -/
theorem roundToDouble_eq_zero_iff {n : Nat} : roundToDouble n = 0 ↔ n = 0 := by
  constructor
  · intro h
    by_contra hne
    have hulp : 2 ^ (n.log2 - 52) ≤ n :=
      Nat.le_trans (Nat.pow_le_pow_right (by decide) (Nat.sub_le _ _)) (Nat.log2_self_le hne)
    have hpos : 0 < 2 ^ (n.log2 - 52) := Nat.two_pow_pos _
    have hquotient : 0 < n / 2 ^ (n.log2 - 52) := Nat.div_pos hulp hpos
    unfold roundToDouble at h
    dsimp only at h
    split at h
    · exact absurd h (Nat.ne_of_gt (Nat.mul_pos hquotient hpos))
    · exact absurd h (Nat.ne_of_gt (Nat.mul_pos (Nat.succ_pos _) hpos))
  · intro h
    rw [h]
    rfl

/-! ### Digits -/

/-- A decimal digit is a unit between the two digits' units. -/
theorem toNat_of_isDigit {c : Char} (h : c.isDigit = true) :
    c.toNat.toUInt16.toNat = c.toNat ∧ 48 ≤ c.toNat ∧ c.toNat ≤ 57 := by
  have hbound : 48 ≤ c.toNat ∧ c.toNat ≤ 57 := by
    unfold Char.isDigit at h
    exact ⟨of_decide_eq_true (Bool.and_eq_true_iff.mp h).1,
      of_decide_eq_true (Bool.and_eq_true_iff.mp h).2⟩
  exact ⟨Nat.mod_eq_of_lt (by omega), hbound⟩

/-- A unit of a decimal is a digit. -/
theorem isDigit_of_mem_decimal {n : Nat} {u : UInt16} (h : u ∈ decimal n) : isDigit u = true := by
  obtain ⟨c, hc, rfl⟩ := List.mem_map.mp h
  obtain ⟨hunit, hlow, hhigh⟩ :=
    toNat_of_isDigit (Nat.isDigit_of_mem_toDigits (by decide) (by decide) hc)
  unfold isDigit
  rw [Bool.and_eq_true_iff, decide_eq_true_iff, decide_eq_true_iff, UInt16.le_iff_toNat_le,
    UInt16.le_iff_toNat_le, hunit]
  exact ⟨hlow, hhigh⟩

theorem decimal_ne_nil (n : Nat) : decimal n ≠ [] := fun h =>
  Nat.toDigits_ne_nil (List.map_eq_nil_iff.mp h)

/-- Reading the units of digits is reading the digits. -/
theorem foldl_digits {cs : List Char} (h : ∀ c ∈ cs, c.isDigit = true) (init : Nat) :
    (cs.map fun c => c.toNat.toUInt16).foldl (fun n u => 10 * n + (u.toNat - 48)) init =
      Nat.ofDigitChars 10 cs init := by
  induction cs generalizing init with
  | nil => rfl
  | cons c cs ih =>
      rw [List.map_cons, List.foldl_cons, (toNat_of_isDigit (h c List.mem_cons_self)).1,
        ih fun d hd => h d (List.mem_cons_of_mem c hd), Nat.ofDigitChars_cons]
      rfl

/-- A decimal has the value it was written for. -/
theorem decimalValue_decimal (n : Nat) : decimalValue (decimal n) = n := by
  have hdigits : ∀ c ∈ Nat.toDigits 10 n, c.isDigit = true := fun c hc =>
    Nat.isDigit_of_mem_toDigits (by decide) (by decide) hc
  rw [decimalValue, decimal, foldl_digits hdigits, Nat.ofDigitChars_ten_toDigits]

/-! ### What `parseInt` reads -/

/-- What a text has in front of what `parseInt` does not look at. -/
structure NumberAhead (text : JsString) where
  blanks : JsString
  sign : JsString
  digits : JsString
  rest : JsString
  text_eq : text = blanks ++ (sign ++ (digits ++ rest))
  all_blank : ∀ u ∈ blanks, isTrimmable u = true
  is_sign : sign = [] ∨ sign = [43] ∨ sign = [45]
  digits_ne_nil : digits ≠ []
  all_digits : ∀ u ∈ digits, isDigit u = true
  ended : ∀ u ∈ rest.head?, isDigit u = false

/-- A digit is no white space. -/
theorem isTrimmable_of_isDigit {u : UInt16} (h : isDigit u = true) : isTrimmable u = false := by
  have hall : ∀ n < 58, 48 ≤ n → isTrimmable n.toUInt16 = false := by decide
  unfold isDigit at h
  rw [Bool.and_eq_true_iff, decide_eq_true_iff, decide_eq_true_iff, UInt16.le_iff_toNat_le,
    UInt16.le_iff_toNat_le] at h
  have hu := hall u.toNat (Nat.lt_succ_of_le h.2) h.1
  rwa [Nat.toUInt16, UInt16.ofNat_toNat] at hu

/-- A digit is no sign. -/
theorem ne_sign_of_isDigit {u : UInt16} (h : isDigit u = true) : u ≠ 43 ∧ u ≠ 45 := by
  constructor
  · intro heq
    subst heq
    exact absurd h (by decide)
  · intro heq
    subst heq
    exact absurd h (by decide)

/-- The digits ahead are those before the first other unit. -/
theorem takeWhile_digits {digits rest : JsString} (hdigits : ∀ u ∈ digits, isDigit u = true)
    (hrest : ∀ u ∈ rest.head?, isDigit u = false) :
    (digits ++ rest).takeWhile isDigit = digits := by
  have hnone : rest.takeWhile isDigit = [] := by
    cases rest with
    | nil => rfl
    | cons u rest =>
        rw [List.takeWhile_cons, if_neg (Bool.eq_false_iff.mp (hrest u rfl))]
  rw [List.takeWhile_append_of_pos hdigits, hnone, List.append_nil]

namespace NumberAhead

variable {text : JsString} (ahead : NumberAhead text)

/-- Blanks end where the sign or the digits begin. -/
theorem dropWhile_eq :
    text.dropWhile isTrimmable = ahead.sign ++ (ahead.digits ++ ahead.rest) := by
  have hstop : (ahead.sign ++ (ahead.digits ++ ahead.rest)).dropWhile isTrimmable =
      ahead.sign ++ (ahead.digits ++ ahead.rest) := by
    obtain ⟨digit, more, hdigits⟩ := List.exists_cons_of_ne_nil ahead.digits_ne_nil
    have hdigit : isTrimmable digit = false :=
      isTrimmable_of_isDigit (ahead.all_digits digit (hdigits ▸ List.mem_cons_self))
    rcases ahead.is_sign with hsign | hsign | hsign
    · rw [hsign, hdigits, List.nil_append, List.cons_append, List.dropWhile_cons,
        if_neg (Bool.eq_false_iff.mp hdigit)]
    · rw [hsign]
      rfl
    · rw [hsign]
      rfl
  have htext := congrArg (List.dropWhile isTrimmable) ahead.text_eq
  rwa [List.dropWhile_append_of_pos ahead.all_blank, hstop] at htext

/-- The sign ahead is the one that is read. -/
theorem signOf_eq :
    JsInteger.signOf (ahead.sign ++ (ahead.digits ++ ahead.rest)) = ahead.sign := by
  obtain ⟨digit, more, hdigits⟩ := List.exists_cons_of_ne_nil ahead.digits_ne_nil
  have hdigit := ne_sign_of_isDigit (ahead.all_digits digit (hdigits ▸ List.mem_cons_self))
  rcases ahead.is_sign with hsign | hsign | hsign
  · have hno : ¬ (some digit = some 43 ∨ some digit = some 45) := by
      rw [Option.some.injEq, Option.some.injEq]
      exact not_or.mpr hdigit
    rw [hsign, hdigits, List.nil_append, List.cons_append, JsInteger.signOf, List.head?_cons,
      if_neg hno]
  · rw [hsign]
    rfl
  · rw [hsign]
    rfl

/-- The integer that is parsed is the sign and the digits ahead. -/
theorem parseInt_eq :
    JsInteger.parseInt text = .ofMagnitude (ahead.sign = [45]) (decimalValue ahead.digits) := by
  unfold JsInteger.parseInt
  rw [ahead.dropWhile_eq]
  dsimp only
  rw [ahead.signOf_eq, List.drop_left, takeWhile_digits ahead.all_digits ahead.ended,
    if_neg ahead.digits_ne_nil]

/-- A text begins with a plus, a minus or no sign. -/
theorem signOf_cases (s : JsString) :
    (JsInteger.signOf s = [] ∨ JsInteger.signOf s = [43] ∨ JsInteger.signOf s = [45]) ∧
      JsInteger.signOf s ++ s.drop (JsInteger.signOf s).length = s := by
  unfold JsInteger.signOf
  split
  · rename_i h
    cases s with
    | nil => simp at h
    | cons u s =>
        rw [List.head?_cons, Option.some.injEq, Option.some.injEq] at h
        refine ⟨Or.inr ?_, rfl⟩
        rcases h with rfl | rfl
        · exact Or.inl rfl
        · exact Or.inr rfl
  · exact ⟨Or.inl rfl, rfl⟩

/-- What `parseInt` makes a number of has one ahead. -/
theorem nonempty_of_parseInt {text : JsString} (h : JsInteger.parseInt text ≠ .nan) :
    Nonempty (NumberAhead text) := by
  unfold JsInteger.parseInt at h
  dsimp only at h
  have hdigits := (ite_ne_left_iff.mp h).1
  generalize hs : text.dropWhile isTrimmable = s at hdigits
  obtain ⟨hsign, happend⟩ := signOf_cases s
  refine ⟨⟨text.takeWhile isTrimmable, JsInteger.signOf s,
    (s.drop (JsInteger.signOf s).length).takeWhile isDigit,
    (s.drop (JsInteger.signOf s).length).dropWhile isDigit, ?_,
    fun u hu => List.mem_takeWhile_imp hu, hsign, hdigits,
    fun u hu => List.mem_takeWhile_imp hu, fun u hu => ?_⟩⟩
  · rw [List.takeWhile_append_dropWhile, happend, ← hs, List.takeWhile_append_dropWhile]
  · have hstop := List.head?_dropWhile_not isDigit (s.drop (JsInteger.signOf s).length)
    rw [Option.mem_def.mp hu] at hstop
    exact hstop

/-- A number ahead that is finite and not below zero. -/
def Counts : Prop :=
  roundToDouble (decimalValue ahead.digits) < beyondFinite ∧
    (ahead.sign = [45] → decimalValue ahead.digits = 0)

/-- A text counts exactly when its integer is finite and not negative. -/
theorem counts_iff : ahead.Counts ↔
    (JsInteger.parseInt text).isFinite = true ∧ (JsInteger.parseInt text).isNegative = false := by
  rw [ahead.parseInt_eq, JsInteger.ofMagnitude, Counts]
  split
  · rename_i hfinite
    refine and_congr (iff_of_true hfinite rfl) ?_
    rw [JsInteger.isNegative, Bool.and_eq_false_iff, decide_eq_false_iff_not,
      decide_eq_false_iff_not, not_not, roundToDouble_eq_zero_iff]
    exact imp_iff_not_or
  · rename_i hinfinite
    exact iff_of_false (fun h => hinfinite h.1) (fun h => Bool.false_ne_true h.1)

/-- **What `parseInt` takes for a number that is finite and not below zero**: blanks, a sign and
digits, and then anything. -/
theorem exists_counts_iff (text : JsString) : (∃ ahead : NumberAhead text, ahead.Counts) ↔
    (JsInteger.parseInt text).isFinite = true ∧ (JsInteger.parseInt text).isNegative = false := by
  constructor
  · intro h
    obtain ⟨ahead, hcounts⟩ := h
    exact ahead.counts_iff.mp hcounts
  · intro h
    have hnumber : JsInteger.parseInt text ≠ .nan := fun hnan => by
      rw [hnan] at h
      exact Bool.false_ne_true h.1
    obtain ⟨ahead⟩ := nonempty_of_parseInt hnumber
    exact ⟨ahead, ahead.counts_iff.mpr h⟩

end NumberAhead

/-- Digits with nothing around them. -/
def NumberAhead.ofDecimal (n : Nat) : NumberAhead (decimal n) where
  blanks := []
  sign := []
  digits := decimal n
  rest := []
  text_eq := (List.append_nil (decimal n)).symm
  all_blank := nofun
  is_sign := Or.inl rfl
  digits_ne_nil := decimal_ne_nil n
  all_digits _ := isDigit_of_mem_decimal
  ended := nofun

/-- A safe magnitude is a whole number. -/
theorem JsInteger.ofMagnitude_of_safe {n : Nat} (negative : Bool) (h : n ≤ maxSafeInteger) :
    ofMagnitude negative n = .whole negative n := by
  have hfinite : n < beyondFinite := Nat.lt_of_le_of_lt h (by decide)
  unfold ofMagnitude
  simp only [roundToDouble_of_safe h, hfinite, if_true]

/-- The digits of a safe integer are read back. -/
theorem JsInteger.parseInt_decimal {n : Nat} (h : n ≤ maxSafeInteger) :
    parseInt (decimal n) = .whole false n := by
  have hread := (NumberAhead.ofDecimal n).parseInt_eq
  have hvalue : decimalValue (NumberAhead.ofDecimal n).digits = n := decimalValue_decimal n
  rw [hvalue, ofMagnitude_of_safe _ h] at hread
  exact hread

/-! ### Numbers by their texts -/

/-- The number that is written with the digits of `n`. -/
def JsNumber.ofNat (n : Nat) : JsNumber :=
  .finite {
    text := decimal n
    starts := by
      obtain ⟨u, digits, hdigits⟩ := List.exists_cons_of_ne_nil (decimal_ne_nil n)
      have hu : isDigit u = true := isDigit_of_mem_decimal (hdigits ▸ List.mem_cons_self)
      rw [hdigits, List.head?_cons, Option.any_some, hu, Bool.true_or]
    digits := by
      refine List.all_eq_true.mpr fun u hu => ?_
      simp only [isNumberUnit, isDigit_of_mem_decimal hu, Bool.true_or] }

/-- Less than zero; `-0` is not. -/
def JsNumber.isNegative : JsNumber → Bool
  | .finite literal => literal.text.head? = some 45
  | .infinity negative => negative
  | .negativeZero | .nan => false

/-- `String(n)`. -/
def JsNumber.text : JsNumber → JsString
  | .finite literal => literal.text
  | .negativeZero => units "0"
  | .infinity negative => units (if negative then "-Infinity" else "Infinity")
  | .nan => units "NaN"
