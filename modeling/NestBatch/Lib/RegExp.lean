import NestBatch.Lib.JsText
import NestBatch.Lib.Pieces

/-!
# Regular expressions

A regular expression of the host language without flags, from its source to a test.  The
source is read in the fragment of units, `.`, escaped punctuation, `*`, `^` and `$`; what
goes beyond it, or is no expression at all, is not read.

A test goes by the units of a text, and starts at any of them.  Of an expression that is
anchored at both ends it tells whether the text is one piece for every term.
-/

namespace RegExp

/-! ### Terms -/

def asterisk : UInt16 := 0x2a

def fullStop : UInt16 := 0x2e

def backslash : UInt16 := 0x5c

def caret : UInt16 := 0x5e

def dollar : UInt16 := 0x24

/-- The units that stand for something else than themselves. -/
def syntaxCharacters : JsString := JsString.units "^$\\.*+?()[]\x7b\x7d|"

/-- LF, CR, U+2028 and U+2029. -/
def isLineTerminator (u : UInt16) : Bool := [0x0a, 0x0d, 0x2028, 0x2029].contains u

/-- What takes one unit. -/
inductive Atom
  | unit (u : UInt16)
  | dot
  deriving DecidableEq

/-- An atom once, an atom any number of times, or an end of the text. -/
inductive Term
  | one (atom : Atom)
  | many (atom : Atom)
  | start
  | finish
  deriving DecidableEq

/-! ### Reading -/

/-- An atom that is not repeated. -/
def pendingTerm : Option Atom → List Term
  | none => []
  | some atom => [.one atom]

/-- A backslash stands in front of an ASCII unit that is no letter, digit or `_`. -/
def isIdentityEscape (u : UInt16) : Bool :=
  u < 0x80 && !(JsString.isDigit u || (0x41 ≤ u && u ≤ 0x5a) || (0x61 ≤ u && u ≤ 0x7a) || u = 0x5f)

/-- Where a reader is in a source: behind an atom that may still be repeated, behind something else,
or behind a backslash. -/
inductive Place
  | behind (pending : Option Atom)
  | escape

/-- The terms of a source from a place in it. -/
def parseFrom : Place → JsString → Option (List Term)
  | .behind pending, [] => some (pendingTerm pending)
  | .escape, [] => none
  | .behind pending, u :: rest =>
      if u = asterisk then
        pending.bind fun atom => (parseFrom (.behind none) rest).map (Term.many atom :: ·)
      else if u = backslash then (parseFrom .escape rest).map (pendingTerm pending ++ ·)
      else if u = fullStop then
        (parseFrom (.behind (some .dot)) rest).map (pendingTerm pending ++ ·)
      else if u = caret then
        (parseFrom (.behind none) rest).map (pendingTerm pending ++ Term.start :: ·)
      else if u = dollar then
        (parseFrom (.behind none) rest).map (pendingTerm pending ++ Term.finish :: ·)
      else if syntaxCharacters.contains u then none
      else (parseFrom (.behind (some (.unit u))) rest).map (pendingTerm pending ++ ·)
  | .escape, u :: rest =>
      if isIdentityEscape u then parseFrom (.behind (some (.unit u))) rest else none

/-- `new RegExp(source)`. -/
def compile (source : JsString) : Option (List Term) := parseFrom (.behind none) source

/-! ### Matching -/

/-- The units that an atom accepts. -/
def Atom.accepts : Atom → UInt16 → Bool
  | .unit v, u => u = v
  | .dot, u => !isLineTerminator u

/-- A place in a text: whether it is the beginning, and what is behind it. -/
abbrev Position := Bool × JsString

/-- Where a repeated atom can end, the farthest first. -/
def Atom.ends (atom : Atom) (atStart : Bool) : JsString → List Position
  | [] => [(atStart, [])]
  | u :: rest =>
      if atom.accepts u then atom.ends false rest ++ [(atStart, u :: rest)]
      else [(atStart, u :: rest)]

/-- Whether the terms match at a place. -/
def matchTerms : List Term → Bool → JsString → Bool
  | [], _, _ => true
  | .one _ :: _, _, [] => false
  | .one atom :: terms, _, u :: rest => atom.accepts u && matchTerms terms false rest
  | .many atom :: terms, atStart, text =>
      (atom.ends atStart text).any fun place => matchTerms terms place.1 place.2
  | .start :: terms, atStart, text => atStart && matchTerms terms atStart text
  | .finish :: terms, atStart, text => text.isEmpty && matchTerms terms atStart text

/-- The places in a text. -/
def positions (text : JsString) : List Position :=
  (true, text) :: text.tails.tail.map fun rest => (false, rest)

/-- `RegExp.prototype.test`. -/
def test (terms : List Term) (text : JsString) : Bool :=
  (positions text).any fun place => matchTerms terms place.1 place.2

/-! ### What is read -/

section Read

variable {pending : Option Atom} {rest : JsString}

/-- A star repeats the atom before it. -/
theorem parseFrom_asterisk {atom : Atom} : parseFrom (.behind (some atom)) (asterisk :: rest) =
    (parseFrom (.behind none) rest).map (Term.many atom :: ·) := rfl

/-- A dot stands behind whatever is pending. -/
theorem parseFrom_fullStop : parseFrom (.behind pending) (fullStop :: rest) =
    (parseFrom (.behind (some .dot)) rest).map (pendingTerm pending ++ ·) := rfl

/-- An escaped unit stands behind whatever is pending. -/
theorem parseFrom_escape {u : UInt16} (h : isIdentityEscape u = true) :
    parseFrom (.behind pending) (backslash :: u :: rest) =
      (parseFrom (.behind (some (.unit u))) rest).map (pendingTerm pending ++ ·) := by
  have hread : parseFrom .escape (u :: rest) = parseFrom (.behind (some (.unit u))) rest := if_pos h
  rw [← hread]
  rfl

/-- A unit that has no other meaning stands for itself. -/
theorem parseFrom_unit {u : UInt16} (h : syntaxCharacters.contains u = false) :
    parseFrom (.behind pending) (u :: rest) =
      (parseFrom (.behind (some (.unit u))) rest).map (pendingTerm pending ++ ·) := by
  have hne {v : UInt16} (hv : syntaxCharacters.contains v = true) : u ≠ v := by
    intro heq
    subst heq
    rw [h] at hv
    cases hv
  rw [parseFrom, if_neg (hne (by decide)), if_neg (hne (by decide)), if_neg (hne (by decide)),
    if_neg (hne (by decide)), if_neg (hne (by decide)), h]
  rfl

end Read

/-! ### What is matched -/

/-- The pieces of a text that a term takes. -/
def Term.Takes : Term → JsString → Prop
  | .one atom, part => ∃ u, atom.accepts u = true ∧ part = [u]
  | .many atom, part => ∀ u ∈ part, atom.accepts u = true
  | .start, part => part = []
  | .finish, part => part = []

/-- A term that is no end of the text. -/
def Term.isPiece : Term → Bool
  | .one _ => true
  | .many _ => true
  | .start => false
  | .finish => false

/-- A repeated atom ends after each part whose units it accepts. -/
theorem mem_ends_iff {atom : Atom} {atStart : Bool} {text : JsString} {place : Position} :
    place ∈ atom.ends atStart text ↔
      ∃ part, (∀ u ∈ part, atom.accepts u = true) ∧ part ++ place.2 = text ∧
        place.1 = (atStart && part.isEmpty) := by
  induction text generalizing atStart with
  | nil =>
      rw [Atom.ends, List.mem_singleton]
      constructor
      · intro heq
        subst heq
        exact ⟨[], fun u hu => absurd hu List.not_mem_nil, rfl, (Bool.and_true _).symm⟩
      · intro hcase
        obtain ⟨part, -, happend, hstart⟩ := hcase
        obtain ⟨rfl, hrest⟩ := List.append_eq_nil_iff.mp happend
        exact Prod.ext (hstart.trans (Bool.and_true _)) hrest
  | cons u rest ih =>
      have hnone : ∀ v ∈ ([] : JsString), atom.accepts v = true :=
        fun v hv => absurd hv List.not_mem_nil
      have hhere : place = (atStart, u :: rest) ↔
          [] ++ place.2 = u :: rest ∧ place.1 = (atStart && true) := by
        rw [Prod.ext_iff, List.nil_append, Bool.and_true, and_comm]
      rw [Atom.ends]
      constructor
      · intro h
        split at h
        · next haccepts =>
            rcases List.mem_append.mp h with h | h
            · obtain ⟨part, hpart, happend, hstart⟩ := ih.mp h
              refine ⟨u :: part, List.forall_mem_cons.mpr ⟨haccepts, hpart⟩, ?_, ?_⟩
              · rw [List.cons_append, happend]
              · rw [hstart, Bool.false_and, List.isEmpty_cons, Bool.and_false]
            · exact ⟨[], hnone, hhere.mp (List.mem_singleton.mp h)⟩
        · exact ⟨[], hnone, hhere.mp (List.mem_singleton.mp h)⟩
      · intro hcase
        obtain ⟨part, hpart, happend, hstart⟩ := hcase
        cases part with
        | nil =>
            have hplace := hhere.mpr ⟨happend, hstart⟩
            split
            · exact List.mem_append_right _ (List.mem_singleton.mpr hplace)
            · exact List.mem_singleton.mpr hplace
        | cons v part =>
            obtain ⟨rfl, hrest⟩ := List.cons.inj happend
            obtain ⟨haccepts, hpart⟩ := List.forall_mem_cons.mp hpart
            rw [if_pos haccepts]
            refine List.mem_append_left _ (ih.mpr ⟨part, hpart, hrest, ?_⟩)
            rw [hstart, List.isEmpty_cons, Bool.and_false, Bool.false_and]

/-- **Terms in front of the end** match a text that is one piece for each of them. -/
theorem matchTerms_finish_iff {terms : List Term} (h : ∀ term ∈ terms, term.isPiece = true)
    (atStart : Bool) (text : JsString) :
    matchTerms (terms ++ [.finish]) atStart text = true ↔
      Pieces.Spells Term.Takes terms text := by
  induction terms generalizing atStart text with
  | nil =>
      change (text.isEmpty && true) = true ↔ _
      rw [Bool.and_true, List.isEmpty_iff, Pieces.spells_nil_iff]
  | cons term terms ih =>
      obtain ⟨hterm, hterms⟩ := List.forall_mem_cons.mp h
      have hrest := ih hterms
      rw [Pieces.spells_cons_iff, List.cons_append]
      cases term with
      | one atom =>
          cases text with
          | nil =>
              refine iff_of_false Bool.false_ne_true ?_
              intro hcase
              obtain ⟨part, rest, ⟨u, -, rfl⟩, -, happend⟩ := hcase
              cases happend
          | cons u text =>
              change (atom.accepts u && matchTerms (terms ++ [.finish]) false text) = true ↔ _
              rw [Bool.and_eq_true, hrest]
              constructor
              · intro hcase
                obtain ⟨haccepts, hspells⟩ := hcase
                exact ⟨[u], text, ⟨u, haccepts, rfl⟩, hspells, rfl⟩
              · intro hcase
                obtain ⟨part, rest, ⟨v, haccepts, rfl⟩, hspells, happend⟩ := hcase
                obtain ⟨rfl, rfl⟩ := List.cons.inj happend
                exact ⟨haccepts, hspells⟩
      | many atom =>
          change ((atom.ends atStart text).any fun place =>
            matchTerms (terms ++ [.finish]) place.1 place.2) = true ↔ _
          rw [List.any_eq_true]
          constructor
          · intro hcase
            obtain ⟨place, hplace, hmatch⟩ := hcase
            obtain ⟨part, hpart, happend, -⟩ := mem_ends_iff.mp hplace
            exact ⟨part, place.2, hpart, (hrest _ _).mp hmatch, happend⟩
          · intro hcase
            obtain ⟨part, rest, hpart, hspells, happend⟩ := hcase
            exact ⟨(atStart && part.isEmpty, rest), mem_ends_iff.mpr ⟨part, hpart, happend, rfl⟩,
              (hrest _ _).mpr hspells⟩
      | start => cases hterm
      | finish => cases hterm

/-- **An expression that is anchored at both ends** tells whether a text is one piece for each of
its terms. -/
theorem test_anchored_iff {terms : List Term} (h : ∀ term ∈ terms, term.isPiece = true)
    (text : JsString) : test (.start :: (terms ++ [.finish])) text = true ↔
      Pieces.Spells Term.Takes terms text := by
  rw [← matchTerms_finish_iff h true text, test, List.any_eq_true]
  constructor
  · intro hcase
    obtain ⟨place, hplace, hmatch⟩ := hcase
    obtain ⟨hstart, hmatch⟩ := Bool.and_eq_true_iff.mp hmatch
    rcases List.mem_cons.mp hplace with rfl | hplace
    · exact hmatch
    · obtain ⟨rest, -, rfl⟩ := List.mem_map.mp hplace
      cases hstart
  · exact fun hmatch => ⟨(true, text), List.mem_cons_self, hmatch⟩

end RegExp
