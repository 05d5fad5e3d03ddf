import Mathlib.Data.List.Forall2
import NestBatch.Lib.JsText

/-!
# JSON texts

`stringify` writes a tree as `JSON.stringify` writes it, and `parse` reads a text as
`JSON.parse` does.  A tree that is written is read back, with whatever follows its text;
so no two trees have one text.  The text is well-formed: a surrogate that stands alone
is escaped.

A number is known by the text that is written for it, and is read as that text; other
spellings of it are not resolved.
-/

/-- A tree of JSON values.  An object lists its members; a name may stand there twice. -/
inductive Json
  | null
  | bool (b : Bool)
  | num (n : NumberText)
  | str (s : JsString)
  | arr (elements : List Json)
  | obj (members : List (JsString × Json))

open JsString

namespace Json

/-- A tree is made of the trees in it. -/
@[elab_as_elim]
theorem induction {P : Json → Prop} (null : P .null) (bool : ∀ b, P (.bool b))
    (num : ∀ n, P (.num n)) (str : ∀ s, P (.str s))
    (arr : ∀ elements, (∀ v ∈ elements, P v) → P (.arr elements))
    (obj : ∀ members, (∀ m ∈ members, P m.2) → P (.obj members)) (v : Json) : P v :=
  Json.rec (motive_1 := P) (motive_2 := fun elements => ∀ v ∈ elements, P v)
    (motive_3 := fun members => ∀ m ∈ members, P m.2) (motive_4 := fun m => P m.2)
    null bool num str arr obj (List.forall_mem_nil _)
    (fun _ _ hv hrest => List.forall_mem_cons.mpr ⟨hv, hrest⟩) (List.forall_mem_nil _)
    (fun _ _ hm hrest => List.forall_mem_cons.mpr ⟨hm, hrest⟩) (fun _ _ hv => hv) v

/-! ### Strings -/

def unit (c : Char) : UInt16 := c.toNat.toUInt16

/-- `0` to `9` and `a` to `f`. -/
def hexDigit (n : Nat) : UInt16 := (units "0123456789abcdef").getD n 0

def hexValue (u : UInt16) : Option Nat :=
  if unit '0' ≤ u && u ≤ unit '9' then some (u.toNat - 48)
  else if unit 'a' ≤ u && u ≤ unit 'f' then some (u.toNat - 87)
  else if unit 'A' ≤ u && u ≤ unit 'F' then some (u.toNat - 55)
  else none

/-- The four digits of a unit. -/
def hexDigits (u : UInt16) : List UInt16 :=
  [hexDigit (u.toNat / 4096), hexDigit (u.toNat / 256 % 16), hexDigit (u.toNat / 16 % 16),
    hexDigit (u.toNat % 16)]

/-- The units that are written with a letter. -/
def shortEscapes : List (UInt16 × UInt16) :=
  [(0x08, unit 'b'), (0x09, unit 't'), (0x0a, unit 'n'), (0x0c, unit 'f'), (0x0d, unit 'r'),
    (unit '"', unit '"'), (unit '\\', unit '\\')]

def escapeUnit (u : UInt16) : JsString :=
  match shortEscapes.lookup u with
  | some letter => [unit '\\', letter]
  | none => if u < 0x20 || isSurrogate u then unit '\\' :: unit 'u' :: hexDigits u else [u]

/-- A text as it stands between quotes. -/
def escaped : JsString → JsString
  | [] => []
  | [u] => escapeUnit u
  | u :: v :: rest =>
      if isHighSurrogate u && isLowSurrogate v then u :: v :: escaped rest
      else escapeUnit u ++ escaped (v :: rest)

def quote (s : JsString) : JsString := unit '"' :: (escaped s ++ [unit '"'])

/-- The unit that a letter behind a backslash stands for. -/
def letterValue (letter : UInt16) : Option UInt16 :=
  if letter = unit '/' then some (unit '/')
  else (shortEscapes.map Prod.swap).lookup letter

/-- One more unit in front of what was read. -/
def push (u : UInt16) (read : JsString × JsString) : JsString × JsString := (u :: read.1, read.2)

/-- Where a reader is in a string: behind a unit, behind a backslash, or behind some of four digits,
with the number of those that follow the next one and the value of those that were read. -/
inductive Place
  | plain
  | escape
  | hex (left value : Nat)

/-- Reads up to the closing quote. -/
def readString : Place → JsString → Option (JsString × JsString)
  | _, [] => none
  | .plain, u :: text =>
      if u = unit '"' then some ([], text)
      else if u = unit '\\' then readString .escape text
      else if u < 0x20 then none
      else (readString .plain text).map (push u)
  | .escape, u :: text =>
      if u = unit 'u' then readString (.hex 3 0) text
      else (letterValue u).bind fun v => (readString .plain text).map (push v)
  | .hex 0 value, u :: text =>
      (hexValue u).bind fun digit =>
        (readString .plain text).map (push (value * 16 + digit).toUInt16)
  | .hex (left + 1) value, u :: text =>
      (hexValue u).bind fun digit => readString (.hex left (value * 16 + digit)) text

/-- A quote ends the string. -/
theorem readString_quote (text : JsString) :
    readString .plain (unit '"' :: text) = some ([], text) := if_pos rfl

/-- A backslash begins an escape. -/
theorem readString_backslash (text : JsString) :
    readString .plain (unit '\\' :: text) = readString .escape text := by
  have hquote : unit '\\' ≠ unit '"' := by decide
  rw [readString, if_neg hquote, if_pos rfl]

/-- A unit that is no quote, no backslash and no control character stands for itself. -/
theorem readString_plain {u : UInt16} (hquote : u ≠ unit '"') (hbackslash : u ≠ unit '\\')
    (hcontrol : ¬ u < 0x20) (text : JsString) :
    readString .plain (u :: text) = (readString .plain text).map (push u) := by
  rw [readString, if_neg hquote, if_neg hbackslash, if_neg hcontrol]

theorem hexValue_hexDigit : ∀ n < 16, hexValue (hexDigit n) = some n := by decide

theorem isSurrogate_hexDigit : ∀ n < 16, isSurrogate (hexDigit n) = false := by decide

/-- Four digits are read back. -/
theorem readString_hexDigits (u : UInt16) (text : JsString) :
    readString (.hex 3 0) (hexDigits u ++ text) = (readString .plain text).map (push u) := by
  have hlt := UInt16.toNat_lt u
  have hsum : (((0 * 16 + u.toNat / 4096) * 16 + u.toNat / 256 % 16) * 16 +
      u.toNat / 16 % 16) * 16 + u.toNat % 16 = u.toNat := by omega
  change readString (.hex 3 0) (hexDigit _ :: hexDigit _ :: hexDigit _ :: hexDigit _ :: text) = _
  rw [readString, hexValue_hexDigit _ (by omega), Option.bind_some, readString,
    hexValue_hexDigit _ (by omega), Option.bind_some, readString,
    hexValue_hexDigit _ (by omega), Option.bind_some, readString,
    hexValue_hexDigit _ (by omega), Option.bind_some, hsum]
  exact congrArg (fun v => (readString .plain text).map (push v)) UInt16.ofNat_toNat

/-- A short escape is read back as its unit, and is no code. -/
theorem letterValue_of_mem : ∀ e ∈ shortEscapes,
    letterValue e.2 = some e.1 ∧ e.2 ≠ unit 'u' ∧ isSurrogate e.2 = false := by
  have hall : (shortEscapes.all fun e => decide (letterValue e.2 = some e.1 ∧ e.2 ≠ unit 'u' ∧
      isSurrogate e.2 = false)) = true := by decide
  exact fun e he => of_decide_eq_true (List.all_eq_true.mp hall e he)

/-- What is looked up is in the table. -/
theorem mem_of_lookup_shortEscapes {u letter : UInt16} (h : shortEscapes.lookup u = some letter) :
    (u, letter) ∈ shortEscapes := by
  obtain ⟨before, after, heq, -⟩ := List.lookup_eq_some_iff.mp h
  rw [heq]
  exact List.mem_append_right _ List.mem_cons_self

/-- **A unit is read back** as it is written, whether or not it is escaped. -/
theorem readString_escapeUnit (u : UInt16) (text : JsString) :
    readString .plain (escapeUnit u ++ text) = (readString .plain text).map (push u) := by
  unfold escapeUnit
  cases hletter : shortEscapes.lookup u with
  | some letter =>
      obtain ⟨hvalue, hne, -⟩ := letterValue_of_mem _ (mem_of_lookup_shortEscapes hletter)
      change readString .plain (unit '\\' :: letter :: text) = _
      rw [readString_backslash, readString, if_neg hne, hvalue]
      rfl
  | none =>
      dsimp only
      split
      · change readString .plain (unit '\\' :: unit 'u' :: (hexDigits u ++ text)) = _
        rw [readString_backslash, readString, if_pos rfl, readString_hexDigits]
      · next hplain =>
          have hno := List.lookup_eq_none_iff.mp hletter
          have hquote : u ≠ unit '"' := by
            have hmem : (unit '"', unit '"') ∈ shortEscapes := by decide
            simpa using hno _ hmem
          have hbackslash : u ≠ unit '\\' := by
            have hmem : (unit '\\', unit '\\') ∈ shortEscapes := by decide
            simpa using hno _ hmem
          have hcontrol : ¬ u < 0x20 := fun hlt => hplain (by simp [hlt])
          exact readString_plain hquote hbackslash hcontrol text

/-- A surrogate is read as it is. -/
theorem readString_surrogate {u : UInt16} (h : isSurrogate u = true) (text : JsString) :
    readString .plain (u :: text) = (readString .plain text).map (push u) := by
  have hne (v : UInt16) (hv : isSurrogate v = false) : u ≠ v := by
    intro heq
    subst heq
    rw [h] at hv
    cases hv
  have hcontrol : ¬ u < 0x20 := by
    intro hlt
    rw [isSurrogate_eq_false_of_lt (UInt16.lt_trans hlt (by decide))] at h
    cases h
  exact readString_plain (hne _ (by decide)) (hne _ (by decide)) hcontrol text

/-- **A string is read back.** -/
theorem readString_escaped (s text : JsString) :
    readString .plain (escaped s ++ unit '"' :: text) = some (s, text) := by
  fun_induction escaped s with
  | case1 => exact readString_quote text
  | case2 u =>
      rw [readString_escapeUnit, readString_quote]
      rfl
  | case3 u v rest hpair ih =>
      obtain ⟨hhigh, hlow⟩ := Bool.and_eq_true_iff.mp hpair
      rw [List.cons_append, List.cons_append,
        readString_surrogate (Bool.or_eq_true_iff.mpr (Or.inl hhigh)),
        readString_surrogate (Bool.or_eq_true_iff.mpr (Or.inr hlow)), ih]
      rfl
  | case4 u v rest hpair ih =>
      rw [List.append_assoc, readString_escapeUnit, ih]
      rfl

/-- What is written for a unit that is no part of a pair has no surrogate in it. -/
theorem isSurrogate_of_mem_escapeUnit {u v : UInt16} (h : v ∈ escapeUnit u) :
    isSurrogate v = false := by
  unfold escapeUnit at h
  cases hletter : shortEscapes.lookup u with
  | some letter =>
      rw [hletter] at h
      obtain ⟨-, -, hno⟩ := letterValue_of_mem _ (mem_of_lookup_shortEscapes hletter)
      rcases List.mem_pair.mp h with rfl | rfl
      · decide
      · exact hno
  | none =>
      rw [hletter] at h
      dsimp only at h
      split at h
      · have hlt := UInt16.toNat_lt u
        have hdigit := isSurrogate_hexDigit
        rcases List.mem_cons.mp h with rfl | h
        · decide
        · rcases List.mem_cons.mp h with rfl | h
          · decide
          · unfold hexDigits at h
            simp only [List.mem_cons, List.not_mem_nil, or_false] at h
            rcases h with rfl | rfl | rfl | rfl
            · exact hdigit _ (by omega)
            · exact hdigit _ (by omega)
            · exact hdigit _ (by omega)
            · exact hdigit _ (by omega)
      · next hplain =>
          rw [List.mem_singleton.mp h]
          exact (Bool.or_eq_false_iff.mp (Bool.eq_false_iff.mpr hplain)).2

/-- A string that is written is well-formed. -/
theorem isWellFormed_escaped (s : JsString) : IsWellFormed (escaped s) := by
  unfold IsWellFormed
  fun_induction escaped s with
  | case1 => rfl
  | case2 u =>
      have heq := toWellFormed_append_of_forall (fun v => isSurrogate_of_mem_escapeUnit (u := u)) []
      rw [List.append_nil] at heq
      exact heq.trans (List.append_nil _)
  | case3 u v rest hpair ih => rw [toWellFormed, if_pos hpair, ih]
  | case4 u v rest hpair ih =>
      rw [toWellFormed_append_of_forall fun v => isSurrogate_of_mem_escapeUnit, ih]

/-- A quoted string is well formed, whatever it quotes. -/
theorem isWellFormed_quote (s : JsString) : IsWellFormed (quote s) := by
  have hquote : isSurrogate (unit '"') = false := by decide
  have hescaped : toWellFormed (escaped s) = escaped s := isWellFormed_escaped s
  unfold IsWellFormed quote
  rw [toWellFormed_cons hquote, toWellFormed_append_cons hquote, hescaped]
  rfl

/-! ### Lists -/

/-- Space, tab, line feed and carriage return. -/
def isSpace (u : UInt16) : Bool := u == 0x20 || u == 0x09 || u == 0x0a || u == 0x0d

def skipSpace (text : JsString) : JsString := text.dropWhile isSpace

theorem skipSpace_cons {u : UInt16} (h : isSpace u = false) (text : JsString) :
    skipSpace (u :: text) = u :: text :=
  List.dropWhile_cons_of_neg (by rw [h]; exact Bool.false_ne_true)

/-- A text that does not go on with a number. -/
def Stops (text : JsString) : Prop := ∀ u ∈ text.head?, isNumberUnit u = false

theorem stops_cons {u : UInt16} (h : isNumberUnit u = false) (text : JsString) :
    Stops (u :: text) := by
  intro v hv
  rw [← Option.some.inj hv]
  exact h

section Lists

variable {α : Type} (item : JsString → Option (α × JsString)) (closing : UInt16)

/-- Items with commas between them, at least one and at most so many, up to a closing bracket. -/
def readItems : Nat → JsString → Option (List α × JsString)
  | 0, _ => none
  | n + 1, text =>
      (item text).bind fun first =>
        match skipSpace first.2 with
        | [] => none
        | u :: rest =>
            if u = unit ',' then
              (readItems n rest).map fun others => (first.1 :: others.1, others.2)
            else if u = closing then some ([first.1], rest)
            else none

/-- The items behind an opening bracket, if there are any. -/
def readList (n : Nat) (text : JsString) : Option (List α × JsString) :=
  match skipSpace text with
  | [] => none
  | u :: rest => if u = closing then some ([], rest) else readItems item closing n text

/-- The text is read as the value, whatever follows. -/
def ReadsAs (value : α) (text : JsString) : Prop :=
  ∀ rest, Stops rest → item (text ++ rest) = some (value, rest)

variable {item closing}

/-- Items that are read one by one are read in a row. -/
theorem readItems_intercalate (hspace : isSpace closing = false) (hcomma : closing ≠ unit ',')
    (hstops : isNumberUnit closing = false) {values : List α} {texts : List JsString}
    (h : List.Forall₂ (ReadsAs item) values texts) (hne : values ≠ []) {n : Nat}
    (hn : values.length ≤ n) (rest : JsString) :
    readItems item closing n ([unit ','].intercalate texts ++ closing :: rest) =
      some (values, rest) := by
  induction h generalizing n with
  | nil => exact absurd rfl hne
  | @cons value text values texts hfirst hothers ih =>
      obtain ⟨n, rfl⟩ := Nat.exists_eq_add_of_le' (Nat.le_trans (Nat.le_add_left 1 _) hn)
      cases hothers with
      | nil =>
          have hitem := hfirst (closing :: rest) (stops_cons hstops rest)
          rw [List.intercalate_singleton, readItems, hitem, Option.bind_some]
          dsimp only
          rw [skipSpace_cons hspace]
          dsimp only
          rw [if_neg hcomma, if_pos rfl]
      | @cons next text' values texts hsecond hothers =>
          have hbehind : isNumberUnit (unit ',') = false := by decide
          have hcommaSpace : isSpace (unit ',') = false := by decide
          have hitem := hfirst (unit ',' :: ([unit ','].intercalate (text' :: texts) ++
            closing :: rest)) (stops_cons hbehind _)
          have hrest := ih (List.cons_ne_nil _ _) (Nat.le_of_succ_le_succ hn)
          rw [List.intercalate_cons_cons, List.append_assoc, List.append_assoc,
            List.singleton_append, readItems, hitem, Option.bind_some]
          dsimp only
          rw [skipSpace_cons hcommaSpace]
          dsimp only
          rw [if_pos rfl, hrest]
          rfl

/-- **A list is read back**, if its items are. -/
theorem readList_intercalate (hspace : isSpace closing = false) (hcomma : closing ≠ unit ',')
    (hstops : isNumberUnit closing = false) {values : List α} {texts : List JsString}
    (h : List.Forall₂ (ReadsAs item) values texts)
    (hbegins : ∀ text ∈ texts, ∃ u rest, text = u :: rest ∧ isSpace u = false ∧ u ≠ closing)
    {n : Nat} (hn : values.length ≤ n) (rest : JsString) :
    readList item closing n ([unit ','].intercalate texts ++ closing :: rest) =
      some (values, rest) := by
  cases h with
  | nil =>
      change readList item closing n (closing :: rest) = _
      unfold readList
      rw [skipSpace_cons hspace]
      exact if_pos rfl
  | @cons value text values texts hfirst hothers =>
      obtain ⟨u, begun, hbegun, hno, hne⟩ := hbegins text List.mem_cons_self
      have hitems := readItems_intercalate hspace hcomma hstops (.cons hfirst hothers)
        (List.cons_ne_nil _ _) hn rest
      obtain ⟨tail, htail⟩ : ∃ tail, [unit ','].intercalate (text :: texts) ++ closing :: rest =
          u :: tail := by
        cases texts with
        | nil =>
            rw [List.intercalate_singleton, hbegun]
            exact ⟨_, rfl⟩
        | cons next texts =>
            rw [List.intercalate_cons_cons, hbegun]
            exact ⟨_, rfl⟩
      unfold readList
      rw [htail] at hitems ⊢
      rw [skipSpace_cons hno]
      exact (if_neg hne).trans hitems

end Lists

/-! ### Trees -/

/-- Texts between brackets, with commas between them. -/
def enclosed (opening closing : UInt16) (texts : List JsString) : JsString :=
  opening :: ([unit ','].intercalate texts ++ [closing])

def leftBrace : UInt16 := 0x7b

def rightBrace : UInt16 := 0x7d

/-- A member, with the text of its value. -/
def memberText (name value : JsString) : JsString := quote name ++ unit ':' :: value

mutual

/-- `JSON.stringify`. -/
def stringify : Json → JsString
  | .null => units "null"
  | .bool true => units "true"
  | .bool false => units "false"
  | .num n => n.text
  | .str s => quote s
  | .arr elements => enclosed (unit '[') (unit ']') (elementTexts elements)
  | .obj members => enclosed leftBrace rightBrace (memberTexts members)

def elementTexts : List Json → List JsString
  | [] => []
  | v :: rest => stringify v :: elementTexts rest

def memberTexts : List (JsString × Json) → List JsString
  | [] => []
  | (name, v) :: rest => memberText name (stringify v) :: memberTexts rest

end

/-- A literal word. -/
def readWord (word : String) (value : Json) (text : JsString) : Option (Json × JsString) :=
  if text.take (units word).length = units word then
    some (value, text.drop (units word).length)
  else none

/-- A number, as far as it goes. -/
def readNumber (text : JsString) : Option (NumberText × JsString) :=
  if h : ((text.takeWhile isNumberUnit).head?.any fun u => isDigit u || u == 45) = true ∧
      (text.takeWhile isNumberUnit).all isNumberUnit = true then
    some (⟨text.takeWhile isNumberUnit, h.1, h.2⟩, text.dropWhile isNumberUnit)
  else none

/-- A name, a colon and a value. -/
def readMember (value : JsString → Option (Json × JsString)) (text : JsString) :
    Option ((JsString × Json) × JsString) :=
  match skipSpace text with
  | [] => none
  | u :: rest =>
      if u = unit '"' then
        (readString .plain rest).bind fun name =>
          match skipSpace name.2 with
          | [] => none
          | v :: rest =>
              if v = unit ':' then (value rest).map fun read => ((name.1, read.1), read.2)
              else none
      else none

/-- Reads a value, with at most so many levels and so many items in a list. -/
def readValue : Nat → JsString → Option (Json × JsString)
  | 0, _ => none
  | n + 1, text =>
      match skipSpace text with
      | [] => none
      | u :: rest =>
          if u = unit '"' then (readString .plain rest).map fun read => (.str read.1, read.2)
          else if u = unit '[' then
            (readList (readValue n) (unit ']') n rest).map fun read => (.arr read.1, read.2)
          else if u = leftBrace then
            (readList (readMember (readValue n)) rightBrace n rest).map fun read =>
              (.obj read.1, read.2)
          else if u = unit 'n' then readWord "null" .null (u :: rest)
          else if u = unit 't' then readWord "true" (.bool true) (u :: rest)
          else if u = unit 'f' then readWord "false" (.bool false) (u :: rest)
          else (readNumber (u :: rest)).map fun read => (.num read.1, read.2)

/-- `JSON.parse`: the syntax of a text, if it has one. -/
def parse (text : JsString) : Option Json :=
  (readValue (text.length + 1) text).bind fun read =>
    if skipSpace read.2 = [] then some read.1 else none

/-- The texts of an array are those of its elements. -/
theorem elementTexts_eq (elements : List Json) :
    elementTexts elements = elements.map stringify := by
  induction elements with
  | nil => rfl
  | cons v rest ih => rw [elementTexts, ih, List.map_cons]

/-- The texts of an object are those of its members. -/
theorem memberTexts_eq (members : List (JsString × Json)) :
    memberTexts members = members.map fun m => memberText m.1 (stringify m.2) := by
  induction members with
  | nil => rfl
  | cons m rest ih => rw [memberTexts, ih, List.map_cons]

/-- A number begins with a digit or a minus sign. -/
theorem numberText_eq_cons (n : NumberText) :
    ∃ u rest, n.text = u :: rest ∧ isNumberUnit u = true := by
  have hstarts := n.starts
  have hdigits := n.digits
  cases htext : n.text with
  | nil =>
      rw [htext] at hstarts
      cases hstarts
  | cons u rest =>
      rw [htext, List.all_cons] at hdigits
      exact ⟨u, rest, rfl, (Bool.and_eq_true_iff.mp hdigits).1⟩

/-- A unit of a number differs from any other. -/
theorem ne_of_isNumberUnit {u v : UInt16} (hu : isNumberUnit u = true)
    (hv : isNumberUnit v = false) : u ≠ v := by
  intro heq
  subst heq
  rw [hu] at hv
  cases hv

/-- A unit of a number is no space. -/
theorem isSpace_of_isNumberUnit {u : UInt16} (hu : isNumberUnit u = true) : isSpace u = false := by
  have hne (v : UInt16) (hv : isNumberUnit v = false) : (u == v) = false :=
    beq_eq_false_iff_ne.mpr (ne_of_isNumberUnit hu hv)
  unfold isSpace
  rw [hne 0x20 (by decide), hne 0x09 (by decide), hne 0x0a (by decide), hne 0x0d (by decide)]
  rfl

/-- A text begins with something that is no space and closes nothing. -/
theorem stringify_eq_cons (v : Json) :
    ∃ u rest, stringify v = u :: rest ∧ isSpace u = false ∧ u ≠ unit ']' := by
  cases v with
  | null => exact ⟨_, _, rfl, by decide, by decide⟩
  | bool b => cases b <;> exact ⟨_, _, rfl, by decide, by decide⟩
  | num n =>
      obtain ⟨u, rest, htext, hu⟩ := numberText_eq_cons n
      exact ⟨u, rest, htext, isSpace_of_isNumberUnit hu, ne_of_isNumberUnit hu (by decide)⟩
  | str s => exact ⟨_, _, rfl, by decide, by decide⟩
  | arr elements => exact ⟨_, _, rfl, by decide, by decide⟩
  | obj members => exact ⟨_, _, rfl, by decide, by decide⟩

theorem readNumber_append (n : NumberText) {rest : JsString} (h : Stops rest) :
    readNumber (n.text ++ rest) = some (n, rest) := by
  have hdigits := List.all_eq_true.mp n.digits
  have hrest : rest.takeWhile isNumberUnit = [] ∧ rest.dropWhile isNumberUnit = rest := by
    cases rest with
    | nil => exact ⟨rfl, rfl⟩
    | cons u rest =>
        have hu := h u rfl
        exact ⟨List.takeWhile_cons_of_neg (by simp [hu]), List.dropWhile_cons_of_neg (by simp [hu])⟩
  have htake : (n.text ++ rest).takeWhile isNumberUnit = n.text := by
    rw [List.takeWhile_append_of_pos hdigits, hrest.1, List.append_nil]
  have hdrop : (n.text ++ rest).dropWhile isNumberUnit = rest := by
    rw [List.dropWhile_append_of_pos hdigits, hrest.2]
  unfold readNumber
  simp only [htake, hdrop]
  exact dif_pos ⟨n.starts, n.digits⟩

/-- A member is read back if its value is. -/
theorem readsAs_member {value : JsString → Option (Json × JsString)} {m : JsString × Json}
    (h : ReadsAs value m.2 (stringify m.2)) :
    ReadsAs (readMember value) m (memberText m.1 (stringify m.2)) := by
  intro rest hrest
  have hquote : isSpace (unit '"') = false := by decide
  have hcolon : isSpace (unit ':') = false := by decide
  have htext : memberText m.1 (stringify m.2) ++ rest =
      unit '"' :: (escaped m.1 ++ unit '"' :: unit ':' :: (stringify m.2 ++ rest)) := by
    simp [memberText, quote]
  unfold readMember
  rw [htext, skipSpace_cons hquote]
  dsimp only
  rw [if_pos rfl, readString_escaped, Option.bind_some]
  dsimp only
  rw [skipSpace_cons hcolon]
  dsimp only
  rw [if_pos rfl, h rest hrest]
  rfl

/-- There are no more items than units. -/
theorem length_le_intercalate {texts : List JsString} (h : ∀ text ∈ texts, text ≠ []) :
    texts.length ≤ ([unit ','].intercalate texts).length := by
  induction texts with
  | nil => exact Nat.le_refl 0
  | cons text rest ih =>
      have hpos := List.length_pos_iff.mpr (h text List.mem_cons_self)
      have hrest := ih fun t ht => h t (List.mem_cons_of_mem text ht)
      cases rest with
      | nil =>
          rw [List.intercalate_singleton]
          exact hpos
      | cons next rest =>
          rw [List.intercalate_cons_cons, List.length_append, List.length_append,
            List.length_singleton, List.length_cons]
          omega

/-- No part is longer than the parts joined. -/
theorem length_le_of_mem_intercalate {text : JsString} {texts : List JsString} (h : text ∈ texts) :
    text.length ≤ ([unit ','].intercalate texts).length := by
  induction texts with
  | nil => cases h
  | cons first rest ih =>
      cases rest with
      | nil =>
          rw [List.mem_singleton.mp h, List.intercalate_singleton]
      | cons next rest =>
          rw [List.intercalate_cons_cons, List.length_append, List.length_append]
          rcases List.mem_cons.mp h with rfl | h
          · omega
          · have hle := ih h
            omega

/-- Enclosing adds two units. -/
theorem length_enclosed (opening closing : UInt16) (texts : List JsString) :
    (enclosed opening closing texts).length = ([unit ','].intercalate texts).length + 2 := by
  rw [enclosed, List.length_cons, List.length_append, List.length_singleton]

/-- A number is read as it is written. -/
theorem readsAs_num (m : NumberText) (n : Nat) :
    ReadsAs (readValue (n + 1)) (.num m) (stringify (.num m)) := by
  intro rest hrest
  obtain ⟨u, tail, htext, hu⟩ := numberText_eq_cons m
  have hread := readNumber_append m hrest
  have hne (v : UInt16) (hv : isNumberUnit v = false) : u ≠ v := ne_of_isNumberUnit hu hv
  unfold readValue
  rw [stringify]
  rw [htext, List.cons_append] at hread ⊢
  rw [skipSpace_cons (isSpace_of_isNumberUnit hu)]
  dsimp only
  rw [if_neg (hne _ (by decide)), if_neg (hne _ (by decide)), if_neg (hne _ (by decide)),
    if_neg (hne _ (by decide)), if_neg (hne _ (by decide)), if_neg (hne _ (by decide)), hread]
  rfl

/-- **A list between brackets is read back**, if its items are, with one level less. -/
theorem readList_enclosed {α : Type} {item : JsString → Option (α × JsString)}
    {opening closing : UInt16} (hspace : isSpace closing = false) (hcomma : closing ≠ unit ',')
    (hstops : isNumberUnit closing = false) {values : List α} {text : α → JsString}
    (hitems : ∀ v ∈ values, ReadsAs item v (text v))
    (hbegins : ∀ v, ∃ u rest, text v = u :: rest ∧ isSpace u = false ∧ u ≠ closing) {n : Nat}
    (hn : (enclosed opening closing (values.map text)).length ≤ n) (rest : JsString) :
    readList item closing n ([unit ','].intercalate (values.map text) ++ closing :: rest) =
      some (values, rest) := by
  rw [length_enclosed] at hn
  have hread : List.Forall₂ (ReadsAs item) values (values.map text) := by
    rw [List.forall₂_map_right_iff, List.forall₂_same]
    exact hitems
  refine readList_intercalate hspace hcomma hstops hread ?_ ?_ rest
  · intro t ht
    obtain ⟨v, -, rfl⟩ := List.mem_map.mp ht
    exact hbegins v
  · have hcount : (values.map text).length ≤ ([unit ','].intercalate (values.map text)).length := by
      refine length_le_intercalate fun t ht => ?_
      obtain ⟨v, -, rfl⟩ := List.mem_map.mp ht
      obtain ⟨u, tail, htext, -⟩ := hbegins v
      rw [htext]
      exact List.cons_ne_nil _ _
    rw [List.length_map] at hcount
    omega

/-- A part is shorter than the enclosed parts. -/
theorem length_lt_of_mem (opening closing : UInt16) {texts : List JsString} {text : JsString}
    (h : text ∈ texts) : text.length < (enclosed opening closing texts).length := by
  have hle := length_le_of_mem_intercalate h
  rw [length_enclosed]
  omega

/-- **A tree is read back**, whatever follows its text. -/
theorem readValue_stringify (v : Json) {n : Nat} (hn : (stringify v).length < n) :
    ReadsAs (readValue n) v (stringify v) := by
  induction v using Json.induction generalizing n with
  | null =>
      obtain ⟨n, rfl⟩ := Nat.exists_eq_add_one_of_ne_zero (Nat.ne_zero_of_lt hn)
      intro rest _
      rfl
  | bool b =>
      obtain ⟨n, rfl⟩ := Nat.exists_eq_add_one_of_ne_zero (Nat.ne_zero_of_lt hn)
      intro rest _
      cases b <;> rfl
  | num m =>
      obtain ⟨n, rfl⟩ := Nat.exists_eq_add_one_of_ne_zero (Nat.ne_zero_of_lt hn)
      exact readsAs_num m _
  | str s =>
      obtain ⟨n, rfl⟩ := Nat.exists_eq_add_one_of_ne_zero (Nat.ne_zero_of_lt hn)
      intro rest _
      have htext : stringify (.str s) ++ rest = unit '"' :: (escaped s ++ unit '"' :: rest) := by
        simp [stringify, quote]
      have hquote : isSpace (unit '"') = false := by decide
      unfold readValue
      rw [htext, skipSpace_cons hquote]
      dsimp only
      rw [if_pos rfl, readString_escaped]
      rfl
  | arr elements ih =>
      obtain ⟨n, rfl⟩ := Nat.exists_eq_add_one_of_ne_zero (Nat.ne_zero_of_lt hn)
      intro rest _
      rw [stringify, elementTexts_eq] at hn ⊢
      have hle := Nat.le_of_lt_succ hn
      have hitems : ∀ v ∈ elements, ReadsAs (readValue n) v (stringify v) := by
        intro v hv
        exact ih v hv (Nat.lt_of_lt_of_le (length_lt_of_mem _ _ (List.mem_map_of_mem hv)) hle)
      have hread := readList_enclosed (by decide) (by decide) (by decide) hitems stringify_eq_cons
        hle rest
      have htext : enclosed (unit '[') (unit ']') (elements.map stringify) ++ rest =
          unit '[' :: ([unit ','].intercalate (elements.map stringify) ++ unit ']' :: rest) := by
        simp [enclosed]
      unfold readValue
      rw [htext, skipSpace_cons (by decide)]
      dsimp only
      rw [if_neg (by decide), if_pos rfl, hread]
      rfl
  | obj members ih =>
      obtain ⟨n, rfl⟩ := Nat.exists_eq_add_one_of_ne_zero (Nat.ne_zero_of_lt hn)
      intro rest _
      rw [stringify, memberTexts_eq] at hn ⊢
      have hle := Nat.le_of_lt_succ hn
      have hitems : ∀ m ∈ members,
          ReadsAs (readMember (readValue n)) m (memberText m.1 (stringify m.2)) := by
        intro m hm
        have hmember := length_lt_of_mem leftBrace rightBrace
          (List.mem_map_of_mem (f := fun m => memberText m.1 (stringify m.2)) hm)
        have hvalue : (stringify m.2).length ≤ (memberText m.1 (stringify m.2)).length := by
          rw [memberText, List.length_append, List.length_cons]
          omega
        exact readsAs_member (ih m hm (by omega))
      have hread := readList_enclosed (by decide) (by decide) (by decide) hitems
        (fun m => ⟨unit '"', _, rfl, by decide, by decide⟩) hle rest
      have htext : enclosed leftBrace rightBrace
            (members.map fun m => memberText m.1 (stringify m.2)) ++ rest =
          leftBrace :: ([unit ','].intercalate
            (members.map fun m => memberText m.1 (stringify m.2)) ++ rightBrace :: rest) := by
        simp [enclosed]
      unfold readValue
      rw [htext, skipSpace_cons (by decide)]
      dsimp only
      rw [if_neg (by decide), if_neg (by decide), if_pos rfl, hread]
      rfl

/-- Every value is read back from its text. -/
theorem parse_stringify (v : Json) : parse (stringify v) = some v := by
  have hread := readValue_stringify v (Nat.lt_succ_self _) [] fun u hu => by cases hu
  rw [List.append_nil] at hread
  unfold parse
  rw [hread]
  rfl

/-- **No two trees have one text.** -/
theorem stringify_injective : Function.Injective stringify := by
  intro v w h
  have hread := parse_stringify v
  rw [h, parse_stringify w] at hread
  exact (Option.some.inj hread).symm

/-! ### Well-formed texts -/

theorem isWellFormed_append_cons {u : UInt16} (hu : isSurrogate u = false) {s t : JsString}
    (hs : IsWellFormed s) (ht : IsWellFormed t) : IsWellFormed (s ++ u :: t) := by
  unfold IsWellFormed at hs ht ⊢
  rw [toWellFormed_append_cons hu, hs, ht]

/-- A unit of a number is no surrogate. -/
theorem isSurrogate_of_isNumberUnit {u : UInt16} (h : isNumberUnit u = true) :
    isSurrogate u = false := by
  by_contra hsurrogate
  have hlow : ¬ u < 0xd800 := fun hlt => hsurrogate (isSurrogate_eq_false_of_lt hlt)
  have hne (v : UInt16) (hv : v < 0xd800) : (u == v) = false := by
    refine beq_eq_false_iff_ne.mpr ?_
    intro heq
    subst heq
    exact hlow hv
  have hdigit : isDigit u = false := by
    refine Bool.and_eq_false_iff.mpr (Or.inr (decide_eq_false fun hle => hlow ?_))
    exact UInt16.lt_of_le_of_lt hle (by decide)
  unfold isNumberUnit at h
  rw [hdigit, hne 43 (by decide), hne 45 (by decide), hne 46 (by decide), hne 101 (by decide)] at h
  cases h

/-- Enclosed texts are well formed where their parts are. -/
theorem isWellFormed_enclosed {opening closing : UInt16} (hopening : isSurrogate opening = false)
    (hclosing : isSurrogate closing = false) {texts : List JsString}
    (h : ∀ text ∈ texts, IsWellFormed text) : IsWellFormed (enclosed opening closing texts) := by
  have hinside : IsWellFormed ([unit ','].intercalate texts) := by
    induction texts with
    | nil => rfl
    | cons text rest ih =>
        have hrest := ih fun t ht => h t (List.mem_cons_of_mem text ht)
        cases rest with
        | nil =>
            rw [List.intercalate_singleton]
            exact h text List.mem_cons_self
        | cons next rest =>
            rw [List.intercalate_cons_cons, List.append_assoc]
            exact isWellFormed_append_cons (by decide) (h text List.mem_cons_self) hrest
  exact isWellFormed_append_cons hopening (s := []) rfl
    (isWellFormed_append_cons hclosing hinside (t := []) rfl)

/-- **A text that is written is well-formed.** -/
theorem isWellFormed_stringify (v : Json) : IsWellFormed (stringify v) := by
  induction v using Json.induction with
  | null => decide
  | bool b => cases b <;> decide
  | num n =>
      have hdigits := List.all_eq_true.mp n.digits
      have heq := toWellFormed_append_of_forall
        (fun u hu => isSurrogate_of_isNumberUnit (hdigits u hu)) []
      rw [List.append_nil] at heq
      exact heq.trans (List.append_nil _)
  | str s => exact isWellFormed_quote s
  | arr elements ih =>
      rw [stringify, elementTexts_eq]
      refine isWellFormed_enclosed (by decide) (by decide) fun text htext => ?_
      obtain ⟨v, hv, rfl⟩ := List.mem_map.mp htext
      exact ih v hv
  | obj members ih =>
      rw [stringify, memberTexts_eq]
      refine isWellFormed_enclosed (by decide) (by decide) fun text htext => ?_
      obtain ⟨m, hm, rfl⟩ := List.mem_map.mp htext
      exact isWellFormed_append_cons (by decide) (isWellFormed_quote m.1) (ih m hm)

/-! ### Lines -/

/-- An escaped unit holds no control unit. -/
theorem space_le_of_mem_escapeUnit {u v : UInt16} (h : v ∈ escapeUnit u) : 0x20 ≤ v := by
  unfold escapeUnit at h
  cases hletter : shortEscapes.lookup u with
  | some letter =>
      have hall : (shortEscapes.all fun e => decide (0x20 ≤ e.2)) = true := by decide
      rw [hletter] at h
      rcases List.mem_pair.mp h with rfl | rfl
      · decide
      · exact of_decide_eq_true
          (List.all_eq_true.mp hall _ (mem_of_lookup_shortEscapes hletter))
  | none =>
      rw [hletter] at h
      dsimp only at h
      split at h
      · have hdigit : ∀ n < 16, (0x20 : UInt16) ≤ hexDigit n := by decide
        have hlt := UInt16.toNat_lt u
        simp only [hexDigits, List.mem_cons, List.not_mem_nil, or_false] at h
        rcases h with rfl | rfl | rfl | rfl | rfl | rfl
        · decide
        · decide
        · exact hdigit _ (by omega)
        · exact hdigit _ (by omega)
        · exact hdigit _ (by omega)
        · exact hdigit _ (by omega)
      · next hplain =>
          rw [List.mem_singleton.mp h]
          have hno := (Bool.or_eq_false_iff.mp (Bool.eq_false_iff.mpr hplain)).1
          exact UInt16.not_lt.mp (of_decide_eq_false hno)

/-- A surrogate is no control unit. -/
theorem space_le_of_isSurrogate {u : UInt16} (h : isSurrogate u = true) : 0x20 ≤ u := by
  by_contra hlt
  have hsmall : u < 0xd800 := UInt16.lt_trans (UInt16.not_le.mp hlt) (by decide)
  rw [isSurrogate_eq_false_of_lt hsmall] at h
  cases h

/-- An escaped string holds no control unit. -/
theorem space_le_of_mem_escaped {s : JsString} {u : UInt16} (h : u ∈ escaped s) : 0x20 ≤ u := by
  fun_induction escaped s with
  | case1 => cases h
  | case2 v => exact space_le_of_mem_escapeUnit h
  | case3 v w rest hpair ih =>
      obtain ⟨hhigh, hlow⟩ := Bool.and_eq_true_iff.mp hpair
      rcases List.mem_cons.mp h with rfl | h
      · exact space_le_of_isSurrogate (Bool.or_eq_true_iff.mpr (Or.inl hhigh))
      · rcases List.mem_cons.mp h with rfl | h
        · exact space_le_of_isSurrogate (Bool.or_eq_true_iff.mpr (Or.inr hlow))
        · exact ih h
  | case4 v w rest hpair ih =>
      rcases List.mem_append.mp h with h | h
      · exact space_le_of_mem_escapeUnit h
      · exact ih h

/-- A unit of a number is no control unit. -/
theorem space_le_of_isNumberUnit {u : UInt16} (h : isNumberUnit u = true) : 0x20 ≤ u := by
  unfold isNumberUnit isDigit at h
  simp only [Bool.or_eq_true, Bool.and_eq_true, decide_eq_true_eq, beq_iff_eq] at h
  rcases h with (((h | rfl) | rfl) | rfl) | rfl
  · exact UInt16.le_trans (by decide) h.1
  · decide
  · decide
  · decide
  · decide

/-- A quoted string holds no control unit. -/
theorem space_le_of_mem_quote {s : JsString} {u : UInt16} (h : u ∈ quote s) : 0x20 ≤ u := by
  rcases List.mem_cons.mp h with rfl | h
  · decide
  · rcases List.mem_append.mp h with h | h
    · exact space_le_of_mem_escaped h
    · rw [List.mem_singleton.mp h]
      decide

/-- Enclosed texts hold no control unit where their parts hold none. -/
theorem space_le_of_mem_enclosed {opening closing u : UInt16} (hopening : 0x20 ≤ opening)
    (hclosing : 0x20 ≤ closing) {texts : List JsString}
    (htexts : ∀ text ∈ texts, ∀ u ∈ text, 0x20 ≤ u)
    (h : u ∈ enclosed opening closing texts) : 0x20 ≤ u := by
  have hinside : ∀ u ∈ [unit ','].intercalate texts, 0x20 ≤ u := by
    clear h
    induction texts with
    | nil => nofun
    | cons text rest ih =>
        have hrest := ih fun t ht => htexts t (List.mem_cons_of_mem text ht)
        intro u hu
        cases rest with
        | nil =>
            rw [List.intercalate_singleton] at hu
            exact htexts text List.mem_cons_self u hu
        | cons next rest =>
            rw [List.intercalate_cons_cons, List.mem_append, List.mem_append] at hu
            rcases hu with (hu | hu) | hu
            · exact htexts text List.mem_cons_self u hu
            · rw [List.mem_singleton.mp hu]
              decide
            · exact hrest u hu
  rcases List.mem_cons.mp h with rfl | h
  · exact hopening
  · rcases List.mem_append.mp h with h | h
    · exact hinside u h
    · rw [List.mem_singleton.mp h]
      exact hclosing

theorem space_le_of_all {s : JsString} (h : (s.all fun u => decide (0x20 ≤ u)) = true) :
    ∀ u ∈ s, 0x20 ≤ u :=
  fun u hu => of_decide_eq_true (List.all_eq_true.mp h u hu)

/-- **A text that is written has no control units**, so that it is one line. -/
theorem space_le_of_mem_stringify (v : Json) : ∀ u ∈ stringify v, 0x20 ≤ u := by
  induction v using Json.induction with
  | null => exact space_le_of_all (by decide)
  | bool b => cases b <;> exact space_le_of_all (by decide)
  | num n => exact fun u hu => space_le_of_isNumberUnit (List.all_eq_true.mp n.digits u hu)
  | str s => exact fun u hu => space_le_of_mem_quote hu
  | arr elements ih =>
      intro u hu
      rw [stringify, elementTexts_eq] at hu
      refine space_le_of_mem_enclosed (by decide) (by decide) (fun text htext => ?_) hu
      obtain ⟨v, hv, rfl⟩ := List.mem_map.mp htext
      exact ih v hv
  | obj members ih =>
      intro u hu
      rw [stringify, memberTexts_eq] at hu
      refine space_le_of_mem_enclosed (by decide) (by decide) (fun text htext => ?_) hu
      obtain ⟨m, hm, rfl⟩ := List.mem_map.mp htext
      intro u hu
      rcases List.mem_append.mp hu with hu | hu
      · exact space_le_of_mem_quote hu
      · rcases List.mem_cons.mp hu with rfl | hu
        · decide
        · exact ih m hm u hu

/-- A unit of a number is no white space. -/
theorem isTrimmable_of_isNumberUnit {u : UInt16} (h : isNumberUnit u = true) :
    isTrimmable u = false := by
  unfold isNumberUnit isDigit at h
  have hall : ∀ n < 102, 33 ≤ n → isTrimmable n.toUInt16 = false := by decide
  have hbound : 33 ≤ u.toNat ∧ u.toNat < 102 := by
    simp only [Bool.or_eq_true, Bool.and_eq_true, decide_eq_true_eq, beq_iff_eq,
      UInt16.le_iff_toNat_le] at h
    rcases h with (((h | rfl) | rfl) | rfl) | rfl
    · exact ⟨Nat.le_trans (by decide) h.1, Nat.lt_of_le_of_lt h.2 (by decide)⟩
    · decide
    · decide
    · decide
    · decide
  have hu := hall u.toNat hbound.2 hbound.1
  rwa [Nat.toUInt16, UInt16.ofNat_toNat] at hu

/-- A text begins with something that is neither white space nor a byte order mark. -/
theorem stringify_head (v : Json) :
    ∃ u rest, stringify v = u :: rest ∧ isTrimmable u = false := by
  cases v with
  | null => exact ⟨_, _, rfl, by decide⟩
  | bool b => cases b <;> exact ⟨_, _, rfl, by decide⟩
  | num n =>
      obtain ⟨u, rest, htext, hu⟩ := numberText_eq_cons n
      exact ⟨u, rest, htext, isTrimmable_of_isNumberUnit hu⟩
  | str s => exact ⟨_, _, rfl, by decide⟩
  | arr elements => exact ⟨_, _, rfl, by decide⟩
  | obj members => exact ⟨_, _, rfl, by decide⟩

end Json
