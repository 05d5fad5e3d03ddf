import NestBatch.Flow.UnitEvaluator
import NestBatch.Lib.RegExp

/-!
# Patterns of transitions

A pattern with wildcards is put into a regular expression, unit by unit, and the status is
tested with that.  A pattern is meant to be a glob: `*` for any string, `?` for one unit,
everything else for itself.  `.` takes no line terminator, and so a pattern misses the
statuses in which a wildcard would have to take one.
-/

namespace NestBatch

namespace FlowPattern

open RegExp

def questionMark : UInt16 := 0x3f

/-- The class in `escapeRegex`. -/
def escapedCharacters : JsString := JsString.units "|\\\x7b\x7d()[]^$+.:"

/-- `escapeRegex`: a backslash before every unit with a meaning. -/
def escapeRegex (value : JsString) : JsString :=
  value.flatMap fun u => if escapedCharacters.contains u then [backslash, u] else [u]

/-- `pattern.includes('*') || pattern.includes('?')`. -/
def hasWildcard (pattern : JsString) : Bool :=
  pattern.contains asterisk || pattern.contains questionMark

/-- What a pattern is put into between `^` and `$`. -/
def source (pattern : JsString) : JsString :=
  pattern.flatMap fun ch =>
    if ch = asterisk then JsString.units ".*"
    else if ch = questionMark then JsString.units "."
    else escapeRegex [ch]

/-- `matchesPattern`; `none` is an expression that is not read. -/
def matchesPattern (pattern status : JsString) : Option Bool :=
  if !hasWildcard pattern then some (decide (pattern = status))
  else
    (compile (JsString.units "^" ++ source pattern ++ JsString.units "$")).map fun terms =>
      test terms status

/-! ### Globs -/

/-- What a unit of a pattern may be replaced by. -/
def Replaces (ch : UInt16) (part : JsString) : Prop :=
  if ch = asterisk then True else if ch = questionMark then part.length = 1 else part = [ch]

instance (ch : UInt16) (part : JsString) : Decidable (Replaces ch part) :=
  inferInstanceAs (Decidable (ite _ _ _))

/-- The status is the pattern with every unit replaced. -/
def Expands (pattern status : JsString) : Prop := Pieces.Spells Replaces pattern status

/-- The pattern is tested, and says of the status what the glob does. -/
def MatchesAsGlob (pattern status : JsString) : Prop :=
  ∃ matched, matchesPattern pattern status = some matched ∧
    (matched = true ↔ Expands pattern status)

/-! ### What is compiled -/

/-- The term for a unit of a pattern. -/
def symbol (ch : UInt16) : Term :=
  if ch = asterisk then .many .dot else if ch = questionMark then .one .dot else .one (.unit ch)

/-- A symbol of a pattern is a piece. -/
theorem isPiece_symbol (ch : UInt16) : (symbol ch).isPiece = true := by
  unfold symbol
  split
  · rfl
  · split
    · rfl
    · rfl

/-- A pattern is translated to pieces alone. -/
theorem isPiece_symbols (pattern : JsString) : ∀ term ∈ pattern.map symbol, term.isPiece = true :=
  List.forall_mem_map.mpr fun ch _ => isPiece_symbol ch

/-- **The escaping is complete**: whatever has another meaning and is no wildcard is escaped, and
may be. -/
theorem parseFrom_escapeRegex {ch : UInt16} (hstar : ch ≠ asterisk) (hquestion : ch ≠ questionMark)
    (pending : Option Atom) (rest : JsString) :
    parseFrom (.behind pending) (escapeRegex [ch] ++ rest) =
      (parseFrom (.behind (some (.unit ch))) rest).map (pendingTerm pending ++ ·) := by
  have hescape : escapeRegex [ch] =
      if escapedCharacters.contains ch then [backslash, ch] else [ch] := List.append_nil _
  rw [hescape]
  cases hescaped : escapedCharacters.contains ch with
  | true =>
      have hall : (escapedCharacters.all isIdentityEscape) = true := by decide
      exact parseFrom_escape (List.all_eq_true.mp hall ch (List.contains_iff_mem.mp hescaped))
  | false =>
      have hall : (syntaxCharacters.all fun u => escapedCharacters.contains u || u = asterisk ||
          u = questionMark) = true := by decide
      refine parseFrom_unit (Bool.eq_false_iff.mpr fun hsyntax => ?_)
      have hch := List.all_eq_true.mp hall ch (List.contains_iff_mem.mp hsyntax)
      rw [hescaped, Bool.false_or, decide_eq_false hstar, Bool.false_or,
        decide_eq_false hquestion] at hch
      cases hch

/-- The source of a pattern is read unit by unit. -/
theorem parseFrom_source (pattern : JsString) (pending : Option Atom) :
    parseFrom (.behind pending) (source pattern ++ [dollar]) =
      some (pendingTerm pending ++ (pattern.map symbol ++ [.finish])) := by
  induction pattern generalizing pending with
  | nil => rfl
  | cons ch pattern ih =>
      have hsource : source (ch :: pattern) = source [ch] ++ source pattern := by
        unfold source
        rw [List.flatMap_cons, List.flatMap_singleton]
      rw [hsource, List.append_assoc, List.map_cons, List.cons_append]
      by_cases hstar : ch = asterisk
      · subst hstar
        change parseFrom (.behind pending)
          (fullStop :: asterisk :: (source pattern ++ [dollar])) = _
        rw [parseFrom_fullStop, parseFrom_asterisk, ih]
        rfl
      · by_cases hquestion : ch = questionMark
        · subst hquestion
          change parseFrom (.behind pending) (fullStop :: (source pattern ++ [dollar])) = _
          rw [parseFrom_fullStop, ih]
          rfl
        · have hplain : source [ch] = escapeRegex [ch] := by
            unfold source
            rw [List.flatMap_singleton, if_neg hstar, if_neg hquestion]
          have hsymbol : symbol ch = .one (.unit ch) := by
            rw [symbol, if_neg hstar, if_neg hquestion]
          rw [hplain, parseFrom_escapeRegex hstar hquestion, ih, hsymbol]
          rfl

/-- The source of a pattern compiles to its symbols between the two anchors. -/
theorem compile_source (pattern : JsString) :
    compile (JsString.units "^" ++ source pattern ++ JsString.units "$") =
      some (.start :: (pattern.map symbol ++ [.finish])) := by
  have hread := parseFrom_source pattern none
  rw [List.append_assoc]
  change (parseFrom (.behind none) (source pattern ++ [dollar])).map _ = _
  rw [hread]
  rfl

/-! ### What is matched -/

/-- A wildcard needs no line terminator, and any other unit needs what it is. -/
theorem Replaces.countP_le {ch : UInt16} {part : JsString} (h : Replaces ch part) :
    [ch].countP RegExp.isLineTerminator ≤ part.countP RegExp.isLineTerminator := by
  unfold Replaces at h
  split at h
  · next hstar =>
      subst hstar
      exact Nat.zero_le _
  · split at h
    · next hquestion =>
        subst hquestion
        exact Nat.zero_le _
    · rw [h]

/-- The term for a unit takes what the unit may be replaced by, as far as no line terminator comes
in. -/
theorem takes_symbol_iff {ch : UInt16} {part : JsString} : (symbol ch).Takes part ↔
    Replaces ch part ∧
      part.countP RegExp.isLineTerminator ≤ [ch].countP RegExp.isLineTerminator := by
  have hdot (u : UInt16) : Atom.dot.accepts u = true ↔ ¬ RegExp.isLineTerminator u = true := by
    rw [Atom.accepts, Bool.not_eq_true', Bool.not_eq_true]
  unfold symbol Replaces
  by_cases hstar : ch = asterisk
  · subst hstar
    have hnone : [asterisk].countP RegExp.isLineTerminator = 0 := rfl
    rw [if_pos rfl, if_pos rfl, true_and, hnone, Nat.le_zero, List.countP_eq_zero]
    exact forall₂_congr fun u _ => hdot u
  · rw [if_neg hstar, if_neg hstar]
    by_cases hquestion : ch = questionMark
    · subst hquestion
      have hnone : [questionMark].countP RegExp.isLineTerminator = 0 := rfl
      rw [if_pos rfl, if_pos rfl, hnone, Nat.le_zero, List.countP_eq_zero, List.length_eq_one_iff]
      constructor
      · intro h
        obtain ⟨u, haccepts, rfl⟩ := h
        exact ⟨⟨u, rfl⟩, List.forall_mem_singleton.mpr ((hdot u).mp haccepts)⟩
      · intro h
        obtain ⟨⟨u, rfl⟩, hplain⟩ := h
        exact ⟨u, (hdot u).mpr (hplain u List.mem_cons_self), rfl⟩
    · rw [if_neg hquestion, if_neg hquestion]
      constructor
      · intro h
        obtain ⟨u, haccepts, rfl⟩ := h
        rw [of_decide_eq_true haccepts]
        exact ⟨rfl, Nat.le_refl _⟩
      · intro h
        obtain ⟨rfl, -⟩ := h
        exact ⟨ch, decide_eq_true rfl, rfl⟩

/-- The expression of a pattern matches the expansions that have no line terminator to spare. -/
theorem test_symbols_iff (pattern status : JsString) :
    test (.start :: (pattern.map symbol ++ [.finish])) status = true ↔
      Expands pattern status ∧
        status.countP RegExp.isLineTerminator ≤ pattern.countP RegExp.isLineTerminator := by
  rw [test_anchored_iff (isPiece_symbols pattern), Pieces.spells_map_iff]
  have htakes := @Pieces.spells_congr _ _ (fun ch => (symbol ch).Takes) _ pattern status
    fun ch _ part => takes_symbol_iff
  rw [htakes]
  exact Pieces.spells_exactly_iff fun ch part => Replaces.countP_le

/-- Without a wildcard a pattern expands to itself and nothing else. -/
theorem expands_iff_of_plain {pattern : JsString} (h : hasWildcard pattern = false)
    (status : JsString) : Expands pattern status ↔ pattern = status := by
  unfold hasWildcard at h
  obtain ⟨hstar, hquestion⟩ := Bool.or_eq_false_iff.mp h
  rw [← Pieces.spells_self_iff, Expands]
  refine Pieces.spells_congr fun ch hch part => ?_
  have hne {u : UInt16} (hu : pattern.contains u = false) : ch ≠ u := by
    intro heq
    subst heq
    rw [List.contains_iff_mem.mpr hch] at hu
    cases hu
  rw [Replaces, if_neg (hne hstar), if_neg (hne hquestion)]

/-- **What a pattern matches**: it is always tested, and matches an expansion of it that has no
more line terminators than the pattern itself. -/
theorem matchesPattern_iff (pattern status : JsString) :
    ∃ matched, matchesPattern pattern status = some matched ∧
      (matched = true ↔ Expands pattern status ∧
        status.countP RegExp.isLineTerminator ≤ pattern.countP RegExp.isLineTerminator) := by
  unfold matchesPattern
  cases hwild : hasWildcard pattern with
  | false =>
      refine ⟨_, rfl, ?_⟩
      rw [decide_eq_true_eq, expands_iff_of_plain hwild, iff_self_and]
      intro heq
      subst heq
      exact Nat.le_refl _
  | true =>
      rw [compile_source]
      exact ⟨_, rfl, test_symbols_iff pattern status⟩

/-- **When a pattern is a glob**: a status that the glob covers has no more line terminators than
the pattern itself, so that no wildcard has to take one. -/
theorem matchesAsGlob_iff (pattern status : JsString) : MatchesAsGlob pattern status ↔
    (Expands pattern status →
      status.countP RegExp.isLineTerminator ≤ pattern.countP RegExp.isLineTerminator) := by
  obtain ⟨matched, hmatched, hiff⟩ := matchesPattern_iff pattern status
  constructor
  · intro h hexpands
    obtain ⟨matched', hmatched', hglob⟩ := h
    rw [hmatched, Option.some.injEq] at hmatched'
    subst hmatched'
    exact (hiff.mp (hglob.mpr hexpands)).2
  · intro hfew
    exact ⟨matched, hmatched, hiff.trans (and_iff_left_of_imp hfew)⟩

/-- **A wildcard misses a line break**: a pattern that is meant for every failure does not cover the
one that is told in two lines. -/
theorem line_break_missed :
    Expands (JsString.units "FAILED*") (JsString.units "FAILED\nretry") ∧
      matchesPattern (JsString.units "FAILED*") (JsString.units "FAILED\nretry") = some false ∧
      ¬ MatchesAsGlob (JsString.units "FAILED*") (JsString.units "FAILED\nretry") := by
  have hexpands : Expands (JsString.units "FAILED*") (JsString.units "FAILED\nretry") := by
    refine ⟨["F", "A", "I", "L", "E", "D", "\nretry"].map JsString.units, ?_, rfl⟩
    decide
  have hmissed : matchesPattern (JsString.units "FAILED*") (JsString.units "FAILED\nretry") =
      some false := by decide
  refine ⟨hexpands, hmissed, ?_⟩
  intro h
  obtain ⟨matched, hmatched, hglob⟩ := h
  rw [hmissed, Option.some.injEq] at hmatched
  rw [← hmatched] at hglob
  exact Bool.false_ne_true (hglob.mpr hexpands)

/-! ### Patterns that are globs -/

/-- A line feed for a wildcard. -/
def brokenUnit (ch : UInt16) : UInt16 := if ch = asterisk ∨ ch = questionMark then 0x0a else ch

/-- The unit that breaks a wildcard replaces it. -/
theorem replaces_brokenUnit (ch : UInt16) : Replaces ch [brokenUnit ch] := by
  unfold Replaces brokenUnit
  split
  · trivial
  · next hstar =>
      split
      · rfl
      · next hquestion => rw [if_neg (not_or.mpr ⟨hstar, hquestion⟩)]

/-- A wildcard is broken by a line terminator, and nothing else becomes one. -/
theorem isLineTerminator_brokenUnit (ch : UInt16) : RegExp.isLineTerminator (brokenUnit ch) =
    (RegExp.isLineTerminator ch || decide (ch = asterisk ∨ ch = questionMark)) := by
  unfold brokenUnit
  by_cases hwild : ch = asterisk ∨ ch = questionMark
  · rw [if_pos hwild, decide_eq_true hwild, Bool.or_true]
    rfl
  · rw [if_neg hwild, decide_eq_false hwild, Bool.or_false]

/-- A line feed for every wildcard. -/
def broken (pattern : JsString) : JsString := pattern.map brokenUnit

/-- A pattern expands to its broken text. -/
theorem expands_broken (pattern : JsString) : Expands pattern (broken pattern) := by
  induction pattern with
  | nil => exact Pieces.spells_nil_iff.mpr rfl
  | cons ch pattern ih =>
      exact Pieces.spells_cons_iff.mpr ⟨_, _, replaces_brokenUnit ch, ih, rfl⟩

/-- Where line feeds stand for wildcards, there are more of them. -/
theorem countP_lt_broken {pattern : JsString} (h : hasWildcard pattern = true) :
    pattern.countP RegExp.isLineTerminator <
      (broken pattern).countP RegExp.isLineTerminator := by
  obtain ⟨ch, hch, hwild⟩ : ∃ ch ∈ pattern, ch = asterisk ∨ ch = questionMark := by
    rcases Bool.or_eq_true_iff.mp h with h | h
    · exact ⟨_, List.contains_iff_mem.mp h, Or.inl rfl⟩
    · exact ⟨_, List.contains_iff_mem.mp h, Or.inr rfl⟩
  have hplain : RegExp.isLineTerminator ch = false := by
    rcases hwild with rfl | rfl
    · rfl
    · rfl
  have hbroken : (RegExp.isLineTerminator ∘ brokenUnit) ch = true := by
    rw [Function.comp_apply, isLineTerminator_brokenUnit, decide_eq_true hwild, Bool.or_true]
  have hmono (units : JsString) : units.countP RegExp.isLineTerminator ≤
      units.countP (RegExp.isLineTerminator ∘ brokenUnit) := by
    refine List.countP_mono_left fun u _ hu => ?_
    rw [Function.comp_apply, isLineTerminator_brokenUnit, hu, Bool.true_or]
  obtain ⟨before, after, rfl⟩ := List.append_of_mem hch
  have hbefore := hmono before
  have hafter := hmono after
  rw [broken, List.countP_map, List.countP_append, List.countP_append,
    List.countP_cons_of_neg (by rw [hplain]; exact Bool.false_ne_true),
    List.countP_cons_of_pos hbroken]
  omega

/-- **Only a pattern without wildcards is a glob throughout**: any other misses the status with a
line feed for every wildcard. -/
theorem glob_throughout_iff (pattern : JsString) :
    (∀ status, MatchesAsGlob pattern status) ↔ hasWildcard pattern = false := by
  constructor
  · intro hall
    obtain ⟨matched, hmatched, hglob⟩ := hall (broken pattern)
    obtain ⟨matched', hmatched', hiff⟩ := matchesPattern_iff pattern (broken pattern)
    rw [hmatched, Option.some.injEq] at hmatched'
    subst hmatched'
    have hfew := (hiff.mp (hglob.mpr (expands_broken pattern))).2
    refine Bool.eq_false_iff.mpr fun hwild => ?_
    exact absurd (countP_lt_broken hwild) (Nat.not_lt_of_le hfew)
  · intro hplain status
    refine ⟨decide (pattern = status), ?_, ?_⟩
    · rw [matchesPattern, hplain]
      rfl
    · rw [decide_eq_true_eq, expands_iff_of_plain hplain]

/-! ### The evaluator of the flow -/

/-- A line terminator is one by its number. -/
theorem isLineTerminator_toNat (u : UInt16) :
    NestBatch.isLineTerminator u.toNat = RegExp.isLineTerminator u := by
  simp [NestBatch.isLineTerminator, RegExp.isLineTerminator, ← UInt16.toNat_inj, Bool.or_assoc]

/-- `.*` leaves the same rests. -/
theorem any_starRests {f : List Nat → Bool} {g : Bool → JsString → Bool}
    (h : ∀ atStart text, f (text.map UInt16.toNat) = g atStart text) (atStart : Bool)
    (text : JsString) : (starRests (text.map UInt16.toNat)).any f =
      (Atom.dot.ends atStart text).any fun place => g place.1 place.2 := by
  induction text generalizing atStart with
  | nil =>
      change (f (([] : JsString).map UInt16.toNat) || false) = (g atStart [] || false)
      rw [h]
  | cons u text ih =>
      rw [List.map_cons, starRests, Atom.ends, isLineTerminator_toNat, Atom.accepts]
      cases hbreak : RegExp.isLineTerminator u with
      | true =>
          change (f ((u :: text).map UInt16.toNat) || false) = (g atStart (u :: text) || false)
          rw [h]
      | false =>
          change (f ((u :: text).map UInt16.toNat) || (starRests (text.map UInt16.toNat)).any f) =
            ((Atom.dot.ends false text ++ [(atStart, u :: text)]).any
              fun place => g place.1 place.2)
          rw [h atStart, ih, List.any_append, List.any_cons, List.any_nil, Bool.or_false,
            Bool.or_comm]

theorem matchesGlob_unit {p : Nat} (hstar : p ≠ '*'.toNat) (ps cs : List Nat) :
    matchesGlob (p :: ps) cs = cs.head?.any fun c =>
      (if p = '?'.toNat then !NestBatch.isLineTerminator c else decide (p = c)) &&
        matchesGlob ps cs.tail := by
  conv_lhs => unfold matchesGlob
  rw [if_neg hstar]
  cases cs with
  | nil => rfl
  | cons c cs => rfl

/-- A single atom takes one unit of the text. -/
theorem matchTerms_one (atom : Atom) (terms : List Term) (atStart : Bool) (text : JsString) :
    matchTerms (.one atom :: terms) atStart text = text.head?.any fun u =>
      atom.accepts u && matchTerms terms false text.tail := by
  cases text with
  | nil => rfl
  | cons u text => rfl

/-- The units of a glob match as the terms of its expression do. -/
theorem matchesGlob_toNat (pattern : JsString) (atStart : Bool) (status : JsString) :
    matchesGlob (pattern.map UInt16.toNat) (status.map UInt16.toNat) =
      matchTerms (pattern.map symbol ++ [.finish]) atStart status := by
  have hsame {u v : UInt16} : u.toNat = v.toNat ↔ u = v := UInt16.toNat_inj
  induction pattern generalizing atStart status with
  | nil =>
      change (status.map UInt16.toNat).isEmpty = (status.isEmpty && true)
      rw [Bool.and_true, List.isEmpty_map]
  | cons ch pattern ih =>
      rw [List.map_cons, List.map_cons, List.cons_append, symbol]
      by_cases hstar : ch = asterisk
      · rw [if_pos hstar, hstar]
        conv_lhs => unfold matchesGlob
        exact any_starRests (fun atStart text => ih atStart text) atStart status
      · have hstar' : ch.toNat ≠ '*'.toNat := fun h => hstar (hsame.mp h)
        rw [if_neg hstar, matchesGlob_unit hstar']
        by_cases hquestion : ch = questionMark
        · have hquestion' : ch.toNat = '?'.toNat := hsame.mpr hquestion
          rw [if_pos hquestion, matchTerms_one]
          cases status with
          | nil => rfl
          | cons u status =>
              change ((if _ then !NestBatch.isLineTerminator u.toNat else _) && _) = (_ && _)
              rw [if_pos hquestion', isLineTerminator_toNat, ← ih]
              rfl
        · have hquestion' : ch.toNat ≠ '?'.toNat := fun h => hquestion (hsame.mp h)
          rw [if_neg hquestion, matchTerms_one]
          cases status with
          | nil => rfl
          | cons u status =>
              have hunit : decide (ch.toNat = u.toNat) = decide (u = ch) :=
                decide_eq_decide.mpr (hsame.trans eq_comm)
              change ((if _ then _ else decide (ch.toNat = u.toNat)) && _) = (_ && _)
              rw [if_neg hquestion', hunit, ← ih]
              rfl

/-- A pattern holds a wildcard by the numbers of its units. -/
theorem hasWildcard_toNat (pattern : JsString) :
    UnitEvaluator.hasWildcard (pattern.map UInt16.toNat) = hasWildcard pattern := by
  apply Bool.eq_iff_iff.mpr
  rw [UnitEvaluator.hasWildcard, List.any_map, List.any_eq_true, hasWildcard, Bool.or_eq_true,
    List.contains_iff_mem, List.contains_iff_mem]
  constructor
  · intro hcase
    obtain ⟨u, hu, hwild⟩ := hcase
    rcases Bool.or_eq_true_iff.mp hwild with h | h
    · have hstar : u = asterisk := UInt16.toNat_inj.mp (of_decide_eq_true h)
      exact Or.inl (hstar ▸ hu)
    · have hquestion : u = questionMark := UInt16.toNat_inj.mp (of_decide_eq_true h)
      exact Or.inr (hquestion ▸ hu)
  · intro heither
    rcases heither with h | h
    · exact ⟨asterisk, h, rfl⟩
    · exact ⟨questionMark, h, rfl⟩

/-- **The evaluator of the flow** takes a pattern to match where its expression does. -/
theorem matchesPattern_toNat (pattern status : JsString) :
    matchesPattern pattern status = some (UnitEvaluator.matchesPattern
      (pattern.map UInt16.toNat) (status.map UInt16.toNat)) := by
  unfold matchesPattern UnitEvaluator.matchesPattern
  rw [hasWildcard_toNat]
  cases hasWildcard pattern with
  | false =>
      have hsame : pattern.map UInt16.toNat = status.map UInt16.toNat ↔ pattern = status :=
        (List.map_injective_iff.mpr fun u v => UInt16.toNat_inj.mp).eq_iff
      exact congrArg some (decide_eq_decide.mpr hsame.symm)
  | true =>
      have hpieces := isPiece_symbols pattern
      have htest : test (.start :: (pattern.map symbol ++ [.finish])) status =
          matchTerms (pattern.map symbol ++ [.finish]) true status :=
        Bool.eq_iff_iff.mpr ((test_anchored_iff hpieces status).trans
          (matchTerms_finish_iff hpieces true status).symm)
      rw [compile_source, matchesGlob_toNat pattern true status, ← htest]
      rfl

/-- `matches`, of a transition and a status by their units. -/
theorem isMatch_toNat_iff {κ : Type} [DecidableEq κ] (fromStep fromStepId : κ) (toStep : Option κ)
    (pattern status : JsString) :
    UnitEvaluator.isMatch ⟨fromStep, pattern.map UInt16.toNat, toStep⟩ fromStepId
        (status.map UInt16.toNat) = true ↔
      fromStep = fromStepId ∧ matchesPattern pattern status = some true := by
  rw [UnitEvaluator.isMatch, Bool.and_eq_true, decide_eq_true_eq, matchesPattern_toNat,
    Option.some.injEq]

end FlowPattern

end NestBatch
