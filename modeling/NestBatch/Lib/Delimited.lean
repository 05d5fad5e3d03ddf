import Mathlib.Data.List.Basic

/-!
# Delimited lines

A line holds fields with a delimiter between them.  A field may stand in quotes, in
which a quote is doubled and a delimiter is text.  The reader takes whatever it is
given: it knows no malformed line.

The alphabet is arbitrary, `quote` is the quote, and `isDelimiter` says what ends a
field; it may say so of nothing at all.

Two facts carry a round trip.  Fields that are encoded and joined are read back; and
the reader neither makes nor loses anything but quotes, so that the number of times a
symbol stands in a line is known from its fields.
-/

namespace Delimited

variable {α : Type} [DecidableEq α]

/-- The fields of a line from a place in it, with what has been read of the field there. -/
def parseFrom (quote : α) (isDelimiter : α → Bool) : Bool → List α → List α → List (List α)
  | _, field, [] => [field]
  | true, field, [u] => if u = quote then [field] else [field ++ [u]]
  | true, field, u :: v :: rest =>
      if u = quote then
        if v = quote then parseFrom quote isDelimiter true (field ++ [quote]) rest
        else parseFrom quote isDelimiter false field (v :: rest)
      else parseFrom quote isDelimiter true (field ++ [u]) (v :: rest)
  | false, field, u :: rest =>
      if u = quote then parseFrom quote isDelimiter true field rest
      else if isDelimiter u then field :: parseFrom quote isDelimiter false [] rest
      else parseFrom quote isDelimiter false (field ++ [u]) rest

/-- The fields of a line. -/
def parse (quote : α) (isDelimiter : α → Bool) (line : List α) : List (List α) :=
  parseFrom quote isDelimiter false [] line

/-- A text with every quote doubled. -/
def doubled (quote : α) (text : List α) : List α :=
  text.flatMap fun u => if u = quote then [quote, quote] else [u]

/-- A text in quotes. -/
def quoted (quote : α) (text : List α) : List α := quote :: (doubled quote text ++ [quote])

/-- Nothing in a text ends a field or opens quotes. -/
def Plain (quote : α) (isDelimiter : α → Bool) (text : List α) : Prop :=
  ∀ u ∈ text, u ≠ quote ∧ isDelimiter u = false

/-- What a text may be written as: itself where it is plain, or in quotes. -/
def Encodes (quote : α) (isDelimiter : α → Bool) (text code : List α) : Prop :=
  (code = text ∧ Plain quote isDelimiter text) ∨ code = quoted quote text

variable {quote : α} {isDelimiter : α → Bool}

/-- Inside quotes a quote ends the quoting unless it is doubled. -/
theorem parseFrom_quoted (field : List α) (u v : α) (rest : List α) :
    parseFrom quote isDelimiter true field (u :: v :: rest) =
      if u = quote then
        if v = quote then parseFrom quote isDelimiter true (field ++ [quote]) rest
        else parseFrom quote isDelimiter false field (v :: rest)
      else parseFrom quote isDelimiter true (field ++ [u]) (v :: rest) := rfl

/-- Outside quotes a quote begins them and a delimiter ends the field. -/
theorem parseFrom_bare (field : List α) (u : α) (rest : List α) :
    parseFrom quote isDelimiter false field (u :: rest) =
      if u = quote then parseFrom quote isDelimiter true field rest
      else if isDelimiter u then field :: parseFrom quote isDelimiter false [] rest
      else parseFrom quote isDelimiter false (field ++ [u]) rest := by
  cases rest <;> rfl

theorem doubled_cons_self (text : List α) :
    doubled quote (quote :: text) = quote :: quote :: doubled quote text := by
  unfold doubled
  rw [List.flatMap_cons, if_pos rfl]
  rfl

theorem doubled_cons_of_ne {u : α} (h : u ≠ quote) (text : List α) :
    doubled quote (u :: text) = u :: doubled quote text := by
  unfold doubled
  rw [List.flatMap_cons, if_neg h]
  rfl

/-! ### Reading back -/

/-- Plain text goes into the field as it is. -/
theorem parseFrom_plain {text : List α} (h : Plain quote isDelimiter text) (field rest : List α) :
    parseFrom quote isDelimiter false field (text ++ rest) =
      parseFrom quote isDelimiter false (field ++ text) rest := by
  induction text generalizing field with
  | nil => rw [List.nil_append, List.append_nil]
  | cons u text ih =>
      obtain ⟨hquote, hdelimiter⟩ := h u List.mem_cons_self
      rw [List.cons_append, parseFrom_bare, if_neg hquote, hdelimiter]
      change parseFrom quote isDelimiter false (field ++ [u]) (text ++ rest) = _
      rw [ih (fun v hv => h v (List.mem_cons_of_mem _ hv)), List.append_assoc]
      rfl

/-- Inside quotes a quote is read where two are written, and the quotes end at a single one. -/
theorem parseFrom_doubled (text field : List α) {rest : List α} (h : rest.head? ≠ some quote) :
    parseFrom quote isDelimiter true field (doubled quote text ++ quote :: rest) =
      parseFrom quote isDelimiter false (field ++ text) rest := by
  induction text generalizing field with
  | nil =>
      change parseFrom quote isDelimiter true field (quote :: rest) = _
      rw [List.append_nil]
      cases rest with
      | nil => exact if_pos rfl
      | cons v rest =>
          have hv : v ≠ quote := fun hv => h (congrArg some hv)
          rw [parseFrom_quoted, if_pos rfl, if_neg hv]
  | cons u text ih =>
      have happend : field ++ u :: text = (field ++ [u]) ++ text := by
        rw [List.append_assoc]
        rfl
      rw [happend, ← ih]
      by_cases hu : u = quote
      · rw [hu, doubled_cons_self]
        change parseFrom quote isDelimiter true field
          (quote :: quote :: (doubled quote text ++ quote :: rest)) = _
        rw [parseFrom_quoted, if_pos rfl, if_pos rfl]
      · rw [doubled_cons_of_ne hu]
        cases hrest : doubled quote text ++ quote :: rest with
        | nil => simp at hrest
        | cons v rest' =>
            rw [List.cons_append, hrest, parseFrom_quoted, if_neg hu]

/-- **An encoded field is read back.** -/
theorem parseFrom_encoded {text code : List α} (h : Encodes quote isDelimiter text code)
    {rest : List α} (hrest : rest.head? ≠ some quote) :
    parseFrom quote isDelimiter false [] (code ++ rest) =
      parseFrom quote isDelimiter false text rest := by
  rcases h with ⟨rfl, hplain⟩ | rfl
  · exact parseFrom_plain hplain [] rest
  · change parseFrom quote isDelimiter false [] (quote :: ((doubled quote text ++ [quote]) ++ rest))
      = _
    rw [parseFrom_bare, if_pos rfl, List.append_assoc]
    exact parseFrom_doubled text [] hrest

/-- A single encoded field is parsed back. -/
theorem parse_encoded {text code : List α} (h : Encodes quote isDelimiter text code) :
    parse quote isDelimiter code = [text] := by
  have hread := @parseFrom_encoded α _ quote isDelimiter text code h [] nofun
  rw [List.append_nil] at hread
  exact hread

/-- No two texts are one in quotes. -/
theorem quoted_injective {text text' : List α} (h : quoted quote text = quoted quote text') :
    text = text' := by
  have hread (text : List α) :=
    @parse_encoded α _ quote (fun _ => false) text (quoted quote text) (Or.inr rfl)
  have heq := hread text
  rw [h, hread text'] at heq
  exact (List.cons.inj heq).1.symm

/-- **Encoded fields with delimiters between them are read back.** -/
theorem parse_intercalate {d : α} (hd : isDelimiter d = true) (hquote : d ≠ quote)
    {texts codes : List (List α)} (h : List.Forall₂ (Encodes quote isDelimiter) texts codes)
    (hne : texts ≠ []) : parse quote isDelimiter ([d].intercalate codes) = texts := by
  induction h with
  | nil => exact absurd rfl hne
  | @cons text code texts codes hfirst hothers ih =>
      cases hothers with
      | nil =>
          rw [List.intercalate_singleton]
          exact parse_encoded hfirst
      | @cons text' code' texts codes hsecond hothers =>
          have hrest : (d :: [d].intercalate (code' :: codes)).head? ≠ some quote :=
            fun h => hquote (Option.some.inj h)
          rw [List.intercalate_cons_cons, List.append_assoc]
          change parseFrom quote isDelimiter false []
            (code ++ d :: [d].intercalate (code' :: codes)) = _
          rw [parseFrom_encoded hfirst hrest, parseFrom_bare, if_neg hquote, if_pos hd]
          exact congrArg (text :: ·) (ih (List.cons_ne_nil _ _))

/-- Without a delimiter there is one field. -/
theorem length_parseFrom_of_none (h : ∀ u, isDelimiter u = false) (inside : Bool)
    (field line : List α) : (parseFrom quote isDelimiter inside field line).length = 1 := by
  fun_induction parseFrom quote isDelimiter inside field line with
  | case8 field u rest hquote hd ih =>
      rw [h u] at hd
      cases hd
  | _ => first | rfl | assumption

theorem parseFrom_ne_nil (inside : Bool) (field line : List α) :
    parseFrom quote isDelimiter inside field line ≠ [] := by
  fun_induction parseFrom quote isDelimiter inside field line with
  | _ => first | assumption | exact List.cons_ne_nil _ _

/-- A delimiter outside quotes ends a field. -/
theorem one_lt_length_parseFrom {line : List α} (hquote : quote ∉ line) {d : α} (hd : d ∈ line)
    (h : isDelimiter d = true) (field : List α) :
    1 < (parseFrom quote isDelimiter false field line).length := by
  induction line generalizing field with
  | nil => cases hd
  | cons u rest ih =>
      have hu : u ≠ quote := fun hu => hquote (hu ▸ List.mem_cons_self)
      have hrest : quote ∉ rest := fun hrest => hquote (List.mem_cons_of_mem _ hrest)
      rw [parseFrom_bare, if_neg hu]
      split
      · rw [List.length_cons]
        exact Nat.succ_lt_succ (List.length_pos_iff.mpr (parseFrom_ne_nil _ _ _))
      · next hno =>
          refine ih hrest ?_ _
          rcases List.mem_cons.mp hd with rfl | hd
          · exact absurd h hno
          · exact hd

/-- What is in quotes is in the text, or a quote. -/
theorem mem_quoted {text : List α} {u : α} (h : u ∈ quoted quote text) : u ∈ text ∨ u = quote := by
  unfold quoted doubled at h
  rcases List.mem_cons.mp h with rfl | h
  · exact Or.inr rfl
  · rcases List.mem_append.mp h with h | h
    · obtain ⟨v, hv, huv⟩ := List.mem_flatMap.mp h
      split at huv
      · exact Or.inr (by simpa using huv)
      · exact Or.inl (List.mem_singleton.mp huv ▸ hv)
    · exact Or.inr (List.mem_singleton.mp h)

/-! ### Counting -/

/-- What is in a field is in the line. -/
theorem mem_of_mem_parseFrom {inside : Bool} {field line f : List α} {s : α}
    (hf : f ∈ parseFrom quote isDelimiter inside field line) (hs : s ∈ f) :
    s ∈ field ∨ s ∈ line := by
  fun_induction parseFrom quote isDelimiter inside field line with
  | _ => grind

/-- **A symbol that is no delimiter** stands in the fields as often as in the line. -/
theorem count_parseFrom {s : α} (hs : s ≠ quote) (hd : isDelimiter s = false) (inside : Bool)
    (field line : List α) :
    (parseFrom quote isDelimiter inside field line).flatten.count s =
      field.count s + line.count s := by
  fun_induction parseFrom quote isDelimiter inside field line with
  | _ => grind

/-- **The delimiter** stands in the line once more for every field behind the first. -/
theorem count_delimiter_parseFrom {d : α} (hquote : d ≠ quote)
    (hd : ∀ u, isDelimiter u = true ↔ u = d) (inside : Bool) (field line : List α) :
    (parseFrom quote isDelimiter inside field line).flatten.count d +
        (parseFrom quote isDelimiter inside field line).length =
      field.count d + line.count d + 1 := by
  fun_induction parseFrom quote isDelimiter inside field line with
  | _ => grind

end Delimited
