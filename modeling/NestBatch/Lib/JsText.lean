import Mathlib.Data.List.TakeWhile

/-!
# Strings and numbers of the host language

A string is a sequence of UTF-16 code units.  A file holds no surrogate that stands
alone: what is written there in its place is the replacement character.  A number is
known by the text that is written for it, which tells any two numbers apart but the two
zeros.
-/

/-- A string of the host language, as its code units. -/
abbrev JsString := List UInt16

namespace JsString

/-- The code units of a character. -/
def codeUnits (c : Char) : JsString :=
  if c.toNat < 0x10000 then [c.toNat.toUInt16]
  else [(0xd800 + (c.toNat - 0x10000) / 0x400).toUInt16, (0xdc00 + c.toNat % 0x400).toUInt16]

/-- The string a literal stands for. -/
def units (s : String) : JsString := s.toList.flatMap codeUnits

def isHighSurrogate (u : UInt16) : Bool := 0xd800 ≤ u && u ≤ 0xdbff

def isLowSurrogate (u : UInt16) : Bool := 0xdc00 ≤ u && u ≤ 0xdfff

def isSurrogate (u : UInt16) : Bool := isHighSurrogate u || isLowSurrogate u

/-- U+FFFD. -/
def replacementCharacter : UInt16 := 0xfffd

/-- What is written for a unit that is no part of a pair. -/
def single (u : UInt16) : UInt16 := if isSurrogate u then replacementCharacter else u

/-- `String.prototype.toWellFormed`: what a text is once it has been written and read as UTF-8. -/
def toWellFormed : JsString → JsString
  | [] => []
  | [u] => [single u]
  | u :: v :: rest =>
      if isHighSurrogate u && isLowSurrogate v then u :: v :: toWellFormed rest
      else single u :: toWellFormed (v :: rest)

/-- `String.prototype.isWellFormed`. -/
def IsWellFormed (s : JsString) : Prop := toWellFormed s = s

instance (s : JsString) : Decidable (IsWellFormed s) :=
  inferInstanceAs (Decidable (toWellFormed s = s))

/-- U+FEFF. -/
def byteOrderMark : UInt16 := 0xfeff

/-- White space and line terminators, as `String.prototype.trim` removes them. -/
def isTrimmable (u : UInt16) : Bool :=
  [0x09, 0x0a, 0x0b, 0x0c, 0x0d, 0x20, 0xa0, 0x1680, 0x2028, 0x2029, 0x202f, 0x205f, 0x3000,
    0xfeff].contains u || (0x2000 ≤ u && u ≤ 0x200a)

/-- `String.prototype.trim`. -/
def trim (s : JsString) : JsString :=
  ((s.dropWhile isTrimmable).reverse.dropWhile isTrimmable).reverse

/-- `0` to `9`. -/
def isDigit (u : UInt16) : Bool := 48 ≤ u && u ≤ 57

/-- A digit, `+`, `-`, `.` or `e`. -/
def isNumberUnit (u : UInt16) : Bool := isDigit u || u == 43 || u == 45 || u == 46 || u == 101

/-! ### Well-formed texts -/

/-- No surrogate is high and low. -/
theorem isHighSurrogate_of_isLowSurrogate {u : UInt16} (h : isLowSurrogate u = true) :
    isHighSurrogate u = false := by
  have hle := of_decide_eq_true (Bool.and_eq_true_iff.mp h).1
  refine Bool.and_eq_false_iff.mpr (Or.inr (decide_eq_false fun hhigh => ?_))
  exact absurd (UInt16.le_trans hle hhigh) (by decide)

/-- A unit that is no surrogate stays. -/
theorem single_of_not_surrogate {u : UInt16} (h : isSurrogate u = false) : single u = u :=
  if_neg (by rw [h]; exact Bool.false_ne_true)

theorem toWellFormed_cons {u : UInt16} (h : isSurrogate u = false) (s : JsString) :
    toWellFormed (u :: s) = u :: toWellFormed s := by
  have hhigh : isHighSurrogate u = false := (Bool.or_eq_false_iff.mp h).1
  cases s with
  | nil => exact congrArg (fun v => [v]) (single_of_not_surrogate h)
  | cons v rest =>
      rw [toWellFormed, hhigh, Bool.false_and, if_neg Bool.false_ne_true,
        single_of_not_surrogate h]

/-- No pair goes across a place with no high surrogate in front of it or no low one behind. -/
theorem toWellFormed_append {s t : JsString}
    (h : ∀ u v, s.getLast? = some u → t.head? = some v →
      isHighSurrogate u = true → isLowSurrogate v = false) :
    toWellFormed (s ++ t) = toWellFormed s ++ toWellFormed t := by
  fun_induction toWellFormed s with
  | case1 => rfl
  | case2 u =>
      cases t with
      | nil => rfl
      | cons v rest =>
          have hpair : (isHighSurrogate u && isLowSurrogate v) = false := by
            have hlow := h u v rfl rfl
            cases hu : isHighSurrogate u with
            | false => rfl
            | true => exact hlow hu
          change toWellFormed (u :: v :: rest) = single u :: toWellFormed (v :: rest)
          rw [toWellFormed, hpair, if_neg Bool.false_ne_true]
  | case3 u v rest hpair ih =>
      have hlast (hne : rest ≠ []) : (u :: v :: rest).getLast? = rest.getLast? := by
        rw [List.getLast?_cons_of_ne_nil (List.cons_ne_nil _ _), List.getLast?_cons_of_ne_nil hne]
      change toWellFormed (u :: v :: (rest ++ t)) = _
      rw [toWellFormed, if_pos hpair]
      refine congrArg (u :: v :: ·) (ih fun w x hw => h w x ?_)
      rw [hlast (fun hnil => by rw [hnil] at hw; cases hw), hw]
  | case4 u v rest hpair ih =>
      change toWellFormed (u :: v :: (rest ++ t)) = _
      rw [toWellFormed, if_neg hpair]
      refine congrArg (single u :: ·) (ih fun w x hw => h w x ?_)
      rw [List.getLast?_cons_of_ne_nil (List.cons_ne_nil _ _), hw]

/-- No pair goes across a unit that is no surrogate. -/
theorem toWellFormed_append_cons {u : UInt16} (h : isSurrogate u = false) (s t : JsString) :
    toWellFormed (s ++ u :: t) = toWellFormed s ++ u :: toWellFormed t := by
  have hlow : isLowSurrogate u = false := (Bool.or_eq_false_iff.mp h).2
  rw [toWellFormed_append, toWellFormed_cons h]
  intro v w _ hw _
  rw [← Option.some.inj hw]
  exact hlow

/-- What has no surrogate in it is kept. -/
theorem toWellFormed_append_of_forall {s : JsString} (h : ∀ u ∈ s, isSurrogate u = false)
    (t : JsString) : toWellFormed (s ++ t) = s ++ toWellFormed t := by
  induction s with
  | nil => rfl
  | cons u s ih =>
      rw [List.cons_append, toWellFormed_cons (h u List.mem_cons_self),
        ih fun v hv => h v (List.mem_cons_of_mem u hv)]
      rfl

/-- Making a string well formed keeps its length. -/
theorem length_toWellFormed (s : JsString) : (toWellFormed s).length = s.length := by
  fun_induction toWellFormed s with
  | case1 => rfl
  | case2 u => rfl
  | case3 u v rest hpair ih => rw [List.length_cons, List.length_cons, ih]; rfl
  | case4 u v rest hpair ih => rw [List.length_cons, ih]; rfl

/-- Both parts are well-formed, where no pair goes across. -/
theorem isWellFormed_append {s t : JsString}
    (h : ∀ u v, s.getLast? = some u → t.head? = some v →
      isHighSurrogate u = true → isLowSurrogate v = false) :
    IsWellFormed (s ++ t) ↔ IsWellFormed s ∧ IsWellFormed t := by
  unfold IsWellFormed
  rw [toWellFormed_append h]
  constructor
  · intro heq
    exact List.append_inj heq (length_toWellFormed s)
  · intro hcase
    obtain ⟨hs, ht⟩ := hcase
    rw [hs, ht]

/-- A surrogate that stands alone is replaced. -/
theorem isWellFormed_singleton (u : UInt16) : IsWellFormed [u] ↔ isSurrogate u = false := by
  constructor
  · intro h
    have hu : single u = u := (List.cons.inj h).1
    by_contra hsurrogate
    rw [single, if_pos (eq_true_of_ne_false hsurrogate)] at hu
    rw [← hu] at hsurrogate
    exact hsurrogate (by decide)
  · intro h
    exact congrArg (fun v => [v]) (single_of_not_surrogate h)

/-- The replacement character is no surrogate. -/
theorem isSurrogate_replacementCharacter : isSurrogate replacementCharacter = false := by decide

/-- No unit but the replacement becomes more frequent. -/
theorem count_single_le {u : UInt16} (h : u ≠ replacementCharacter) (v : UInt16) :
    [single v].count u ≤ [v].count u := by
  unfold single
  split
  · rw [List.count_singleton, if_neg (by simpa using h.symm)]
    exact Nat.zero_le _
  · exact Nat.le_refl _

theorem count_replacement_le_single (v : UInt16) :
    [v].count replacementCharacter ≤ [single v].count replacementCharacter := by
  unfold single
  split
  · rw [List.count_singleton_self]
    exact List.count_le_length
  · exact Nat.le_refl _

/-- No unit but the replacement character gets more often. -/
theorem count_toWellFormed_le {u : UInt16} (h : u ≠ replacementCharacter) (s : JsString) :
    (toWellFormed s).count u ≤ s.count u := by
  fun_induction toWellFormed s with
  | case1 => exact Nat.le_refl _
  | case2 v => exact count_single_le h v
  | case3 v w rest hpair ih =>
      change ([v, w] ++ toWellFormed rest).count u ≤ ([v, w] ++ rest).count u
      rw [List.count_append, List.count_append]
      exact Nat.add_le_add_left ih _
  | case4 v w rest hpair ih =>
      change ([single v] ++ toWellFormed (w :: rest)).count u ≤ ([v] ++ w :: rest).count u
      rw [List.count_append, List.count_append]
      exact Nat.add_le_add (count_single_le h v) ih

/-- Making a string well formed loses no replacement character. -/
theorem count_replacement_le_toWellFormed (s : JsString) :
    s.count replacementCharacter ≤ (toWellFormed s).count replacementCharacter := by
  fun_induction toWellFormed s with
  | case1 => exact Nat.le_refl _
  | case2 v => exact count_replacement_le_single v
  | case3 v w rest hpair ih =>
      change ([v, w] ++ rest).count _ ≤ ([v, w] ++ toWellFormed rest).count _
      rw [List.count_append, List.count_append]
      exact Nat.add_le_add_left ih _
  | case4 v w rest hpair ih =>
      change ([v] ++ w :: rest).count _ ≤ ([single v] ++ toWellFormed (w :: rest)).count _
      rw [List.count_append, List.count_append]
      exact Nat.add_le_add (count_replacement_le_single v) ih

/-- A unit in front of a text: what becomes of both, where the unit does not pair with the text. -/
theorem single_cons_cases {v : UInt16} {s s' : JsString}
    (hle : ∀ u ≠ replacementCharacter, s'.count u ≤ s.count u)
    (hreplaced : s.count replacementCharacter ≤ s'.count replacementCharacter)
    (h : s' = s ∨ (∃ u, isSurrogate u = true ∧ s'.count u < s.count u) ∧
      s.count replacementCharacter < s'.count replacementCharacter) :
    single v :: s' = v :: s ∨
      (∃ u, isSurrogate u = true ∧ (single v :: s').count u < (v :: s).count u) ∧
        (v :: s).count replacementCharacter < (single v :: s').count replacementCharacter := by
  by_cases hv : isSurrogate v = true
  · have hne : v ≠ replacementCharacter := by
      intro heq
      subst heq
      rw [isSurrogate_replacementCharacter] at hv
      cases hv
    have hsingle : single v = replacementCharacter := if_pos hv
    have hcount := hle v hne
    rw [hsingle]
    refine Or.inr ⟨⟨v, hv, ?_⟩, ?_⟩
    · rw [List.count_cons_self, List.count_cons_of_ne hne.symm]
      omega
    · rw [List.count_cons_self, List.count_cons_of_ne hne]
      omega
  · rw [single_of_not_surrogate (Bool.eq_false_iff.mpr hv)]
    rcases h with rfl | ⟨⟨u, hu, hcount⟩, hmore⟩
    · exact Or.inl rfl
    · refine Or.inr ⟨⟨u, hu, ?_⟩, ?_⟩
      · rw [List.count_cons, List.count_cons]
        omega
      · rw [List.count_cons, List.count_cons]
        omega

/-- **What becomes of a text**: nothing, or some surrogate stands in it less often, and the
replacement character more often. -/
theorem toWellFormed_cases (s : JsString) :
    toWellFormed s = s ∨
      (∃ u, isSurrogate u = true ∧ (toWellFormed s).count u < s.count u) ∧
        s.count replacementCharacter < (toWellFormed s).count replacementCharacter := by
  fun_induction toWellFormed s with
  | case1 => exact Or.inl rfl
  | case2 v =>
      exact @single_cons_cases v [] [] (fun _ _ => Nat.le_refl _) (Nat.le_refl _)
        (Or.inl rfl)
  | case3 v w rest hpair ih =>
      rcases ih with heq | ⟨⟨u, hu, hless⟩, hmore⟩
      · rw [heq]
        exact Or.inl rfl
      · refine Or.inr ⟨⟨u, hu, ?_⟩, ?_⟩
        · change ([v, w] ++ toWellFormed rest).count u < ([v, w] ++ rest).count u
          rw [List.count_append, List.count_append]
          omega
        · change ([v, w] ++ rest).count _ < ([v, w] ++ toWellFormed rest).count _
          rw [List.count_append, List.count_append]
          omega
  | case4 v w rest hpair ih =>
      exact single_cons_cases (fun u hu => count_toWellFormed_le hu _)
        (count_replacement_le_toWellFormed _) ih

/-- A unit of the text, or the replacement character. -/
theorem mem_toWellFormed {u : UInt16} {s : JsString} (h : u ∈ toWellFormed s) :
    u ∈ s ∨ u = replacementCharacter := by
  by_cases hu : u = replacementCharacter
  · exact Or.inr hu
  · refine Or.inl (List.count_pos_iff.mp ?_)
    exact Nat.lt_of_lt_of_le (List.count_pos_iff.mpr h) (count_toWellFormed_le hu s)

/-- A unit below the surrogates is none. -/
theorem isSurrogate_eq_false_of_lt {u : UInt16} (h : u < 0xd800) : isSurrogate u = false := by
  have hu : u.toNat < 0xd800 := UInt16.lt_iff_toNat_lt.mp h
  simp only [isSurrogate, isHighSurrogate, isLowSurrogate, Bool.or_eq_false_iff,
    Bool.and_eq_false_iff, decide_eq_false_iff_not, UInt16.le_iff_toNat_le]
  exact ⟨Or.inl (Nat.not_le_of_lt hu), Or.inl (by change ¬ 0xdc00 ≤ u.toNat; omega)⟩

/-- White space holds no surrogate. -/
theorem isSurrogate_of_isTrimmable {u : UInt16} (h : isTrimmable u = true) :
    isSurrogate u = false := by
  unfold isTrimmable at h
  rcases Bool.or_eq_true_iff.mp h with hmem | hrange
  · have hall : ([0x09, 0x0a, 0x0b, 0x0c, 0x0d, 0x20, 0xa0, 0x1680, 0x2028, 0x2029, 0x202f, 0x205f,
        0x3000, 0xfeff].all fun v => !isSurrogate v) = true := by decide
    have hu := List.all_eq_true.mp hall u (List.contains_iff_mem.mp hmem)
    rwa [Bool.not_eq_true'] at hu
  · have hle := of_decide_eq_true (Bool.and_eq_true_iff.mp hrange).2
    exact isSurrogate_eq_false_of_lt (UInt16.lt_of_le_of_lt hle (by decide))

theorem isTrimmable_single (u : UInt16) : isTrimmable (single u) = isTrimmable u := by
  by_cases hu : isSurrogate u = true
  · have hno : isTrimmable u = false := by
      refine Bool.eq_false_iff.mpr fun h => ?_
      rw [isSurrogate_of_isTrimmable h] at hu
      cases hu
    rw [hno, single, if_pos hu]
    decide
  · rw [single_of_not_surrogate (Bool.eq_false_iff.mpr hu)]

/-- White space is kept, and nothing becomes white space. -/
theorem all_isTrimmable_toWellFormed (s : JsString) :
    (toWellFormed s).all isTrimmable = s.all isTrimmable := by
  fun_induction toWellFormed s with
  | case1 => rfl
  | case2 u =>
      rw [List.all_cons, isTrimmable_single]
      rfl
  | case3 u v rest hpair ih => rw [List.all_cons, List.all_cons, ih, List.all_cons, List.all_cons]
  | case4 u v rest hpair ih => rw [List.all_cons, ih, isTrimmable_single, List.all_cons (a := u)]

/-! ### White space -/

/-- Nothing is left of a text of white space, and something of any other. -/
theorem trim_eq_nil_iff (s : JsString) : trim s = [] ↔ s.all isTrimmable = true := by
  unfold trim
  rw [List.reverse_eq_nil_iff, List.dropWhile_eq_nil_iff, List.all_eq_true]
  constructor
  · intro h
    by_contra hno
    obtain ⟨u, hu, hkept⟩ : ∃ u ∈ s, ¬ isTrimmable u = true := by
      simpa using hno
    have hne : s.dropWhile isTrimmable ≠ [] := fun hnil =>
      hkept (List.dropWhile_eq_nil_iff.mp hnil u hu)
    have hhead := List.head_dropWhile_not isTrimmable hne
    have hmem := h _ (List.mem_reverse.mpr (List.head_mem hne))
    rw [hhead] at hmem
    cases hmem
  · intro h u hu
    have hmem := List.mem_reverse.mp hu
    exact h u (List.dropWhile_subset _ hmem)

/-- A text without white space at its ends is left as it is. -/
theorem trim_of_ends {s : JsString} (hhead : ∀ u ∈ s.head?, isTrimmable u = false)
    (hlast : ∀ u ∈ s.getLast?, isTrimmable u = false) : trim s = s := by
  have hkept : ∀ t : JsString, (∀ u ∈ t.head?, isTrimmable u = false) →
      t.dropWhile isTrimmable = t := by
    intro t ht
    cases t with
    | nil => rfl
    | cons u t => rw [List.dropWhile_cons, if_neg (Bool.eq_false_iff.mp (ht u rfl))]
  rw [trim, hkept s hhead, hkept s.reverse (List.head?_reverse ▸ hlast), List.reverse_reverse]

end JsString

open JsString

/-- The text of a finite number: a digit or a minus sign, then more digits, a point, an exponent. -/
structure NumberText where
  text : JsString
  starts : (text.head?.any fun u => isDigit u || u == 45) = true
  digits : text.all isNumberUnit = true
  deriving DecidableEq

/-- A number; `finite` are those other than `-0`. -/
inductive JsNumber
  | finite (literal : NumberText)
  | negativeZero
  | nan
  | infinity (negative : Bool)
  deriving DecidableEq

/-- `Number.isFinite`. -/
def JsNumber.isFinite : JsNumber → Bool
  | .finite _ | .negativeZero => true
  | .nan | .infinity _ => false
