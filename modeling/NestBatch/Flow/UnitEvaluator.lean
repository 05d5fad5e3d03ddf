import NestBatch.Flow.Evaluator
import NestBatch.Lib.Ranked

/-!
# The flow evaluator on code units

A string of the host language is a list of UTF-16 code units, and its surrogates
need not come in pairs.  A pattern is split into units for the regular
expression but counted by code points, so a pattern that keeps the halves of a
pair apart counts both.  This is the evaluator on such strings; on the ones that
are well formed it is `FlowEvaluator`.
-/

namespace NestBatch

/-- A string of the host language, by its code units. -/
protected abbrev JsString := List Nat

/-- What an `InvalidFlowGraphError` with code AMBIGUOUS_TRANSITION reports. -/
structure AmbiguousTransition (κ : Type) where
  fromStepId : κ
  status : NestBatch.JsString
  count : Nat
  deriving DecidableEq

namespace UnitEvaluator

/-- A transition between steps of any names. -/
structure Transition (κ : Type) where
  fromStepId : κ
  onStatus : NestBatch.JsString
  /-- `none` is END. -/
  toStepId : Option κ
  deriving DecidableEq

/-- `ch === '*' || ch === '?'`. -/
def isWildcard (c : Nat) : Bool := c = '*'.toNat || c = '?'.toNat

/-- `pattern.includes('*') || pattern.includes('?')`. -/
def hasWildcard (pattern : NestBatch.JsString) : Bool := pattern.any isWildcard

def isHighSurrogate (c : Nat) : Bool := 0xD800 ≤ c && c < 0xDC00

def isLowSurrogate (c : Nat) : Bool := 0xDC00 ≤ c && c < 0xE000

/-- The strings that `for (const ch of s)` goes through: a pair of surrogates is one of them. -/
def codePoints : NestBatch.JsString → List NestBatch.JsString
  | [] => []
  | [c] => [[c]]
  | c :: d :: rest =>
      if isHighSurrogate c && isLowSurrogate d then [c, d] :: codePoints rest
      else [c] :: codePoints (d :: rest)

/-- `ch !== '*' && ch !== '?'`. -/
def isLiteral (ch : NestBatch.JsString) : Bool := ch ≠ ['*'.toNat] && ch ≠ ['?'.toNat]

/-- The number of literal code points. -/
def literals (pattern : NestBatch.JsString) : Nat := (codePoints pattern).countP isLiteral

/-- `matchesPattern` over code units. -/
def matchesPattern (pattern status : NestBatch.JsString) : Bool :=
  if !hasWildcard pattern then decide (pattern = status) else matchesGlob pattern status

/-- `patternSpecificity` over code units. -/
def patternSpecificity (pattern : NestBatch.JsString) : Nat :=
  if hasWildcard pattern then literals pattern else literals pattern + 1000

variable {κ : Type} [DecidableEq κ]

/-- `matches`. -/
def isMatch (transition : Transition κ) (fromStepId : κ) (status : NestBatch.JsString) : Bool :=
  transition.fromStepId = fromStepId && matchesPattern transition.onStatus status

/-- The specificity of a transition's status. -/
def specificity (transition : Transition κ) : Nat := patternSpecificity transition.onStatus

/-- The most specific of the matching transitions. -/
def select (transitions : List (Transition κ)) (fromStepId : κ) (status : NestBatch.JsString) :
    Ranked.Pick (Transition κ) :=
  Ranked.pick specificity (transitions.filter fun t => isMatch t fromStepId status)

/-- `FlowEvaluator.evaluate`. -/
def evaluate (transitions : List (Transition κ)) (fromStepId : κ) (status : NestBatch.JsString) :
    Except (AmbiguousTransition κ) (Option κ) :=
  match select transitions fromStepId status with
  | .nothing => .ok none
  | .one transition => .ok transition.toStepId
  | .tied count => .error { fromStepId := fromStepId, status := status, count := count }

/-! ### What a pattern can match -/

@[simp] theorem isLiteral_unit (c : Nat) : isLiteral [c] = !isWildcard c := by
  simp [isLiteral, isWildcard]

/-- A surrogate pair is literal. -/
@[simp] theorem isLiteral_pair (c d : Nat) : isLiteral [c, d] = true := by simp [isLiteral]

/-- A run of units that `.*` passes leaves a rest of what there was. -/
theorem suffix_of_mem_starRests {rest cs : List Nat} (h : rest ∈ starRests cs) : rest <:+ cs := by
  induction cs with
  | nil =>
      simp only [starRests, List.mem_singleton] at h
      exact h ▸ List.suffix_rfl
  | cons c cs ih =>
      unfold starRests at h
      split at h
      · exact List.mem_singleton.mp h ▸ List.suffix_rfl
      · rcases List.mem_cons.mp h with heq | hmem
        · exact heq ▸ List.suffix_rfl
        · exact (ih hmem).trans (List.suffix_cons c cs)

/-- **Every literal unit of a pattern that matches is one of the string's own**: the ones of any
kind, `f`, are no more. -/
theorem countP_le_of_matchesGlob (f : Nat → Bool) {pattern cs : List Nat}
    (h : matchesGlob pattern cs = true) :
    pattern.countP (fun c => !isWildcard c && f c) ≤ cs.countP f := by
  induction pattern generalizing cs with
  | nil => simp
  | cons p ps ih =>
      unfold matchesGlob at h
      split at h
      · next hstar =>
          obtain ⟨rest, hrest, hmatch⟩ := List.any_eq_true.mp h
          have hwild : isWildcard p = true := by simp [isWildcard, hstar]
          have hsuffix := (suffix_of_mem_starRests hrest).sublist.countP_le (p := f)
          have hle := ih hmatch
          rw [List.countP_cons_of_neg (by simp [hwild])]
          omega
      · next hstar =>
          match cs with
          | [] => cases h
          | c :: cs =>
              rw [Bool.and_eq_true] at h
              obtain ⟨hone, hmatch⟩ := h
              have hle := ih hmatch
              by_cases hquestion : p = '?'.toNat
              · have hwild : isWildcard p = true := by simp [isWildcard, hquestion]
                rw [List.countP_cons_of_neg (by simp [hwild]), List.countP_cons]
                omega
              · rw [if_neg hquestion, decide_eq_true_eq] at hone
                subst hone
                have hliteral : isWildcard p = false := by
                  unfold isWildcard
                  rw [decide_eq_false hstar, decide_eq_false hquestion]
                  rfl
                simp only [List.countP_cons, hliteral, Bool.not_false, Bool.true_and]
                omega

/-- A high surrogate is no wildcard. -/
theorem isWildcard_of_isHighSurrogate {c : Nat} (h : isHighSurrogate c = true) :
    isWildcard c = false := by
  have hlarge : 0xD800 ≤ c := by
    simp only [isHighSurrogate, Bool.and_eq_true, decide_eq_true_eq] at h
    exact h.1
  have hstar : '*'.toNat = 42 := rfl
  have hquestion : '?'.toNat = 63 := rfl
  simp only [isWildcard, hstar, hquestion, Bool.or_eq_false_iff, decide_eq_false_iff_not]
  omega

/-- No unit is a high and a low surrogate at once. -/
theorem not_isLowSurrogate {c : Nat} (h : isHighSurrogate c = true) : isLowSurrogate c = false := by
  simp only [isHighSurrogate, Bool.and_eq_true, decide_eq_true_eq] at h
  simp only [isLowSurrogate, Bool.and_eq_false_iff, decide_eq_false_iff_not]
  omega

/-- A code point is a unit or a pair, so there are no more of them than units. -/
theorem literals_le_countP (s : NestBatch.JsString) :
    literals s ≤ s.countP fun c => !isWildcard c := by
  unfold literals
  induction s using codePoints.induct with
  | case1 => simp [codePoints]
  | case2 c => simp [codePoints, List.countP_cons]
  | case3 c d rest hpair ih =>
      have hhigh := isWildcard_of_isHighSurrogate (Bool.and_eq_true_iff.mp hpair).1
      rw [codePoints, if_pos hpair]
      simp only [List.countP_cons, hhigh, isLiteral_pair, Bool.not_false, if_true]
      omega
  | case4 c d rest hpair ih =>
      rw [codePoints, if_neg hpair, List.countP_cons, List.countP_cons, isLiteral_unit]
      omega

/-- A pattern without wildcards is all literals. -/
theorem literals_eq_length {s : NestBatch.JsString} (h : hasWildcard s = false) :
    literals s = (codePoints s).length := by
  unfold literals
  induction s using codePoints.induct with
  | case1 => rfl
  | case2 c => simp_all [codePoints, hasWildcard]
  | case3 c d rest hpair ih =>
      have hrest : hasWildcard rest = false := by simp_all [hasWildcard]
      rw [codePoints, if_pos hpair, List.countP_cons_of_pos (isLiteral_pair c d), ih hrest]
      rfl
  | case4 c d rest hpair ih =>
      have hrest : hasWildcard (d :: rest) = false := by simp_all [hasWildcard]
      have hfirst : isLiteral [c] = true := by simp_all [hasWildcard]
      rw [codePoints, if_neg hpair, List.countP_cons_of_pos hfirst, ih hrest]
      rfl

/-! ### What is chosen -/

/-- The pattern is the status itself. -/
def matchesExactly (t : Transition κ) (fromStepId : κ) (status : NestBatch.JsString) : Bool :=
  isMatch t fromStepId status && !hasWildcard t.onStatus

/-- The pattern covers the status with its wildcards. -/
def matchesByWildcard (t : Transition κ) (fromStepId : κ) (status : NestBatch.JsString) : Bool :=
  isMatch t fromStepId status && hasWildcard t.onStatus

/-- **Order independent and most specific**: what choosing among transitions is meant to be. -/
structure ChoosesMostSpecific (transitions : List (Transition κ)) (fromStepId : κ)
    (status : NestBatch.JsString) : Prop where
  orderFree : ∀ others, transitions.Perm others →
    evaluate others fromStepId status = evaluate transitions fromStepId status
  exactFirst : ∀ t ∈ transitions, matchesExactly t fromStepId status = true →
    ∀ w ∈ transitions, matchesByWildcard w fromStepId status = true →
      select [t, w] fromStepId status = .one t
  exactOnly : (∃ t ∈ transitions, matchesExactly t fromStepId status = true) →
    evaluate transitions fromStepId status =
      evaluate (transitions.filter fun t => matchesExactly t fromStepId status) fromStepId status
  mostLiterals : ∀ w others, transitions.Perm (w :: others) →
    matchesByWildcard w fromStepId status = true →
    (∀ t ∈ others, isMatch t fromStepId status = true →
      hasWildcard t.onStatus = true ∧ literals t.onStatus < literals w.onStatus) →
    evaluate transitions fromStepId status = .ok w.toStepId
  ambiguous : (∃ err, evaluate transitions fromStepId status = .error err) ↔
    ∃ t u others, transitions.Perm (t :: u :: others) ∧
      isMatch t fromStepId status = true ∧ isMatch u fromStepId status = true ∧
      specificity t = specificity u ∧
      ∀ v ∈ transitions, isMatch v fromStepId status = true → specificity v ≤ specificity t

/-- No wildcard pattern has so many literal characters that it makes up for the bonus of an exact
one. -/
def BonusSuffices (transitions : List (Transition κ)) (fromStepId : κ)
    (status : NestBatch.JsString) : Prop :=
  (∃ t ∈ transitions, matchesExactly t fromStepId status = true) →
    ∀ w ∈ transitions, matchesByWildcard w fromStepId status = true →
      literals w.onStatus < (codePoints status).length + 1000

section Choice

variable {transitions : List (Transition κ)} {fromStepId : κ} {status : NestBatch.JsString}
  {t w : Transition κ}

/-- An exact match has the length of the status and the bonus. -/
theorem specificity_of_exact (h : matchesExactly t fromStepId status = true) :
    specificity t = (codePoints status).length + 1000 := by
  simp only [matchesExactly, isMatch, Bool.and_eq_true, Bool.not_eq_true'] at h
  obtain ⟨⟨-, hmatch⟩, hplain⟩ := h
  have hsame : t.onStatus = status := by simpa [matchesPattern, hplain] using hmatch
  rw [specificity, patternSpecificity, hplain, if_neg Bool.false_ne_true,
    literals_eq_length hplain, hsame]

omit [DecidableEq κ] in
/-- A wildcard pattern has its literals for specificity. -/
theorem specificity_of_wildcard (h : hasWildcard w.onStatus = true) :
    specificity w = literals w.onStatus := if_pos h

/-- A match is exact or by wildcard, not both. -/
theorem exactly_or_wildcard (h : isMatch t fromStepId status = true) :
    matchesExactly t fromStepId status = !matchesByWildcard t fromStepId status := by
  cases hwild : hasWildcard t.onStatus with
  | true => simp [matchesExactly, matchesByWildcard, h, hwild]
  | false => simp [matchesExactly, matchesByWildcard, h, hwild]

/-- An exact match is a match. -/
theorem isMatch_of_exactly (h : matchesExactly t fromStepId status = true) :
    isMatch t fromStepId status = true := (Bool.and_eq_true_iff.mp h).1

/-- Of two, the one with more literals wins. -/
theorem select_pair_iff (ht : matchesExactly t fromStepId status = true)
    (hw : matchesByWildcard w fromStepId status = true) :
    select [t, w] fromStepId status = .one t ↔
      literals w.onStatus < (codePoints status).length + 1000 := by
  obtain ⟨hmatch, hwild⟩ := Bool.and_eq_true_iff.mp hw
  have hfilter : [t, w].filter (fun t => isMatch t fromStepId status) = [t, w] := by
    simp [isMatch_of_exactly ht, hmatch]
  have hne : t ≠ w := by
    intro heq
    rw [heq, matchesExactly, hwild] at ht
    simp at ht
  rw [select, hfilter, ← specificity_of_exact ht, ← specificity_of_wildcard hwild]
  constructor
  · intro hpick
    by_contra hge
    rw [Nat.not_lt] at hge
    rcases Nat.lt_or_eq_of_le hge with hlt | heq
    · have hswap : Ranked.pick specificity [t, w] = .one w := by
        have hperm : [t, w].Perm (w :: [t]) := List.Perm.swap w t []
        apply Ranked.pick_eq_one hperm
        intro y hy
        rw [List.mem_singleton.mp hy]
        exact hlt
      rw [hswap] at hpick
      cases hpick
      exact hne rfl
    · have htie : ∃ x y rest, [t, w].Perm (x :: y :: rest) ∧ specificity x = specificity y ∧
          ∀ z ∈ [t, w], specificity z ≤ specificity x :=
        ⟨t, w, [], List.Perm.refl _, heq, by simp [heq]⟩
      obtain ⟨count, htied⟩ := Ranked.pick_tied_iff.mpr htie
      rw [htied] at hpick
      cases hpick
  · intro hlt
    apply Ranked.pick_eq_one (List.Perm.refl _)
    intro y hy
    rw [List.mem_singleton.mp hy]
    exact hlt

/-- The choice does not depend on the order of the transitions. -/
theorem evaluate_perm {others : List (Transition κ)} (h : transitions.Perm others) :
    evaluate others fromStepId status = evaluate transitions fromStepId status := by
  unfold evaluate select
  rw [Ranked.pick_perm (h.filter _)]

/-- What is picked among those that match decides whether there is an error. -/
theorem evaluate_error_iff : (∃ err, evaluate transitions fromStepId status = .error err) ↔
    ∃ count, select transitions fromStepId status = .tied count := by
  unfold evaluate
  constructor
  · intro hcase
    obtain ⟨err, h⟩ := hcase
    split at h
    · cases h
    · cases h
    · next count htied => exact ⟨count, htied⟩
  · intro hcase
    obtain ⟨count, h⟩ := hcase
    rw [h]
    exact ⟨_, rfl⟩

/-- Two of the matching transitions, put first. -/
theorem perm_matching_iff {u : Transition κ} :
    (∃ rest, (transitions.filter fun t => isMatch t fromStepId status).Perm (t :: u :: rest)) ↔
      isMatch t fromStepId status = true ∧ isMatch u fromStepId status = true ∧
        ∃ others, transitions.Perm (t :: u :: others) := by
  constructor
  · intro h
    obtain ⟨rest, hperm⟩ := h
    have hsplit := List.filter_append_perm (fun t => isMatch t fromStepId status) transitions
    have ht := (List.mem_filter.mp (hperm.mem_iff.mpr List.mem_cons_self)).2
    have hu := (List.mem_filter.mp
      (hperm.mem_iff.mpr (List.mem_cons_of_mem _ List.mem_cons_self))).2
    exact ⟨ht, hu, _, hsplit.symm.trans (hperm.append_right _)⟩
  · intro h
    obtain ⟨ht, hu, others, hperm⟩ := h
    refine ⟨others.filter fun t => isMatch t fromStepId status, ?_⟩
    have hfilter := hperm.filter fun t => isMatch t fromStepId status
    simpa only [List.filter_cons, ht, hu, if_true] using hfilter

/-- Where the most specific is chosen the bonus suffices. -/
theorem ChoosesMostSpecific.bonusSuffices
    (h : ChoosesMostSpecific transitions fromStepId status) :
    BonusSuffices transitions fromStepId status := by
  intro hcase w hw hwild
  obtain ⟨t, ht, hexact⟩ := hcase
  exact (select_pair_iff hexact hwild).mp (h.exactFirst t ht hexact w hw hwild)

/-- Where the bonus suffices the most specific is chosen. -/
theorem BonusSuffices.choosesMostSpecific (h : BonusSuffices transitions fromStepId status) :
    ChoosesMostSpecific transitions fromStepId status := by
  refine ⟨fun others hperm => evaluate_perm hperm, ?_, ?_, ?_, ?_⟩
  · intro t ht hexact w hw hwild
    exact (select_pair_iff hexact hwild).mpr (h ⟨t, ht, hexact⟩ w hw hwild)
  · intro hcase
    obtain ⟨t, ht, hexact⟩ := hcase
    have hfilter : (transitions.filter fun t => matchesExactly t fromStepId status).filter
        (fun t => isMatch t fromStepId status) =
          (transitions.filter fun t => isMatch t fromStepId status).filter
            fun t => matchesExactly t fromStepId status := by
      rw [List.filter_filter, List.filter_filter]
      exact List.filter_congr fun x _ => Bool.and_comm _ _
    have hsome : ∃ e ∈ transitions.filter fun t => isMatch t fromStepId status,
        matchesExactly e fromStepId status = true :=
      ⟨t, List.mem_filter.mpr ⟨ht, isMatch_of_exactly hexact⟩, hexact⟩
    have hbelow : ∀ e ∈ transitions.filter fun t => isMatch t fromStepId status,
        matchesExactly e fromStepId status = true →
          ∀ w ∈ transitions.filter fun t => isMatch t fromStepId status,
            matchesExactly w fromStepId status = false → specificity w < specificity e := by
      intro e he hexact' w hw hnot
      obtain ⟨hwmem, hmatch⟩ := List.mem_filter.mp hw
      have hwild : matchesByWildcard w fromStepId status = true := by
        rw [exactly_or_wildcard hmatch] at hnot
        simpa using hnot
      rw [specificity_of_exact hexact',
        specificity_of_wildcard (Bool.and_eq_true_iff.mp hwild).2]
      exact h ⟨e, (List.mem_filter.mp he).1, hexact'⟩ w hwmem hwild
    unfold evaluate select
    rw [hfilter, Ranked.pick_filter _ hsome hbelow]
  · intro w others hperm hwild hbelow
    obtain ⟨hmatch, hpattern⟩ := Bool.and_eq_true_iff.mp hwild
    have hfilter := hperm.filter fun t => isMatch t fromStepId status
    simp only [List.filter_cons, hmatch, if_true] at hfilter
    have hpick : select transitions fromStepId status = .one w := by
      apply Ranked.pick_eq_one hfilter
      intro y hy
      obtain ⟨hmem, hy⟩ := List.mem_filter.mp hy
      obtain ⟨hpattern', hlt⟩ := hbelow y hmem hy
      rw [specificity_of_wildcard hpattern', specificity_of_wildcard hpattern]
      exact hlt
    rw [evaluate, hpick]
  · rw [evaluate_error_iff, select, Ranked.pick_tied_iff]
    constructor
    · intro hcase
      obtain ⟨t, u, rest, hperm, heq, hmax⟩ := hcase
      obtain ⟨ht, hu, others, hall⟩ := perm_matching_iff.mp ⟨rest, hperm⟩
      exact ⟨t, u, others, hall, ht, hu, heq, fun v hv hmatch =>
        hmax v (List.mem_filter.mpr ⟨hv, hmatch⟩)⟩
    · intro hcase
      obtain ⟨t, u, others, hall, ht, hu, heq, hmax⟩ := hcase
      obtain ⟨rest, hperm⟩ := perm_matching_iff.mpr ⟨ht, hu, others, hall⟩
      exact ⟨t, u, rest, hperm, heq, fun v hv =>
        hmax v (List.mem_filter.mp hv).1 (List.mem_filter.mp hv).2⟩

/-- **When transitions are chosen as meant**: exactly where the bonus of an exact pattern is not
made up for. -/
theorem transition_choice_iff (transitions : List (Transition κ)) (fromStepId : κ)
    (status : NestBatch.JsString) : ChoosesMostSpecific transitions fromStepId status ↔
      BonusSuffices transitions fromStepId status :=
  ⟨fun h => h.bonusSuffices, fun h => h.choosesMostSpecific⟩

end Choice

/-- A match by wildcard is a match of the glob. -/
theorem matchesGlob_of_wildcard {w : Transition κ} {fromStepId : κ} {status : NestBatch.JsString}
    (h : matchesByWildcard w fromStepId status = true) :
    matchesGlob w.onStatus status = true := by
  obtain ⟨hmatch, hpattern⟩ := Bool.and_eq_true_iff.mp h
  have hpart := (Bool.and_eq_true_iff.mp hmatch).2
  simpa [matchesPattern, hpattern] using hpart

/-- A status with few surrogates leaves no room for so many literals. -/
theorem bonusSuffices_of_length {transitions : List (Transition κ)} {fromStepId : κ}
    {status : NestBatch.JsString} (h : status.length < (codePoints status).length + 1000) :
    BonusSuffices transitions fromStepId status := by
  intro _ w _ hwild
  have hglob := matchesGlob_of_wildcard hwild
  have hliterals := literals_le_countP w.onStatus
  have hunits := countP_le_of_matchesGlob (fun _ => true) hglob
  simp only [Bool.and_true, List.countP_true] at hunits
  omega

/-! ### Pairs of surrogates kept apart -/

/-- The characters with these low halves. -/
def pairs (lows : List Nat) : NestBatch.JsString := lows.flatMap fun low => [0xD83D, low]

/-- The same with a `*` between the halves. -/
def splitPairs (lows : List Nat) : NestBatch.JsString :=
  lows.flatMap fun low => [0xD83D, '*'.toNat, low]

/-- A literal unit matches itself and nothing else. -/
theorem matchesGlob_literal {p : Nat} (hp : isWildcard p = false) (ps cs : List Nat) :
    matchesGlob (p :: ps) (p :: cs) = matchesGlob ps cs := by
  simp only [isWildcard, Bool.or_eq_false_iff, decide_eq_false_iff_not] at hp
  conv_lhs => unfold matchesGlob
  dsimp only
  rw [if_neg hp.1, if_neg hp.2, decide_eq_true rfl, Bool.true_and]

/-- A star may stand for nothing. -/
theorem matchesGlob_star {ps cs : List Nat} (h : matchesGlob ps cs = true) :
    matchesGlob ('*'.toNat :: ps) cs = true := by
  have hself : cs ∈ starRests cs := by
    cases cs with
    | nil => exact List.mem_cons_self
    | cons c cs =>
        unfold starRests
        split
        · exact List.mem_cons_self
        · exact List.mem_cons_self
  unfold matchesGlob
  rw [if_pos rfl]
  exact List.any_eq_true.mpr ⟨cs, hself, h⟩

/-- A low surrogate neither is a wildcard nor starts a pair. -/
theorem of_isLowSurrogate {low : Nat} (h : isLowSurrogate low = true) :
    isWildcard low = false ∧ isHighSurrogate low = false := by
  have hstar : '*'.toNat = 42 := rfl
  have hquestion : '?'.toNat = 63 := rfl
  simp only [isLowSurrogate, Bool.and_eq_true, decide_eq_true_eq] at h
  simp only [isWildcard, isHighSurrogate, hstar, hquestion, Bool.or_eq_false_iff,
    Bool.and_eq_false_iff, decide_eq_false_iff_not]
  omega

/-- A unit that starts no pair stands alone. -/
theorem codePoints_cons {c : Nat} (hc : isHighSurrogate c = false) (rest : List Nat) :
    codePoints (c :: rest) = [c] :: codePoints rest := by
  cases rest with
  | nil => rfl
  | cons d rest => simp [codePoints, hc]

section Pairs

variable {lows : List Nat} (hlows : ∀ low ∈ lows, isLowSurrogate low = true)
include hlows

/-- The split pattern matches its pairs. -/
theorem matchesGlob_splitPairs : matchesGlob (splitPairs lows) (pairs lows) = true := by
  induction lows with
  | nil => rfl
  | cons low lows ih =>
      have hrest := ih fun l hl => hlows l (List.mem_cons_of_mem _ hl)
      have hlow := (of_isLowSurrogate (hlows low List.mem_cons_self)).1
      change matchesGlob (0xD83D :: '*'.toNat :: low :: splitPairs lows)
        (0xD83D :: low :: pairs lows) = true
      rw [matchesGlob_literal (by decide)]
      apply matchesGlob_star
      rw [matchesGlob_literal hlow]
      exact hrest

/-- A list of pairs has one code point a pair. -/
theorem length_codePoints_pairs : (codePoints (pairs lows)).length = lows.length := by
  induction lows with
  | nil => rfl
  | cons low lows ih =>
      have hrest := ih fun l hl => hlows l (List.mem_cons_of_mem _ hl)
      have hpair : (isHighSurrogate 0xD83D && isLowSurrogate low) = true := by
        rw [hlows low List.mem_cons_self]
        rfl
      change (codePoints (0xD83D :: low :: pairs lows)).length = _
      rw [codePoints, if_pos hpair, List.length_cons, hrest, List.length_cons]

/-- The split pattern has two literals a pair. -/
theorem literals_splitPairs : literals (splitPairs lows) = 2 * lows.length := by
  induction lows with
  | nil => rfl
  | cons low lows ih =>
      have hrest := ih fun l hl => hlows l (List.mem_cons_of_mem _ hl)
      obtain ⟨hwild, hhigh⟩ := of_isLowSurrogate (hlows low List.mem_cons_self)
      have hpoints : codePoints (splitPairs (low :: lows)) =
          [0xD83D] :: ['*'.toNat] :: [low] :: codePoints (splitPairs lows) := by
        change codePoints (0xD83D :: '*'.toNat :: low :: splitPairs lows) = _
        rw [codePoints, if_neg (by decide), codePoints_cons (by decide),
          codePoints_cons hhigh]
      unfold literals at hrest ⊢
      rw [hpoints, List.countP_cons_of_pos (by decide), List.countP_cons_of_neg (by decide),
        List.countP_cons_of_pos (by rw [isLiteral_unit, hwild]; rfl), hrest, List.length_cons]
      omega

/-- Pairs hold no wildcard. -/
theorem hasWildcard_pairs : hasWildcard (pairs lows) = false := by
  apply List.any_eq_false.mpr
  intro c hc
  obtain ⟨low, hlow, hmem⟩ := List.mem_flatMap.mp hc
  simp only [List.mem_cons, List.not_mem_nil, or_false] at hmem
  rcases hmem with heq | heq
  · rw [heq]
    decide
  · rw [heq, (of_isLowSurrogate (hlows low hlow)).1]
    exact Bool.false_ne_true

end Pairs

/-- A split pattern that is not empty holds a wildcard. -/
theorem hasWildcard_splitPairs {lows : List Nat} (h : lows ≠ []) :
    hasWildcard (splitPairs lows) = true := by
  obtain ⟨low, hlow⟩ := List.exists_mem_of_ne_nil lows h
  apply List.any_eq_true.mpr
  exact ⟨'*'.toNat, List.mem_flatMap.mpr ⟨low, hlow, by simp⟩, rfl⟩

/-- On the status with these characters, a transition on the very status leads to `1`, and one on
its halves kept apart to `2`. -/
def splitTransitions (lows : List Nat) : List (Transition Nat) :=
  [{ fromStepId := 0, onStatus := pairs lows, toStepId := some 1 },
    { fromStepId := 0, onStatus := splitPairs lows, toStepId := some 2 }]

/-- From a thousand characters on, the halves outweigh the bonus. -/
theorem not_bonusSuffices_splitPairs {lows : List Nat}
    (hlows : ∀ low ∈ lows, isLowSurrogate low = true) (hlength : 1000 ≤ lows.length) :
    ¬ BonusSuffices (splitTransitions lows) 0 (pairs lows) := by
  intro h
  have hplain := hasWildcard_pairs hlows
  have hwild : hasWildcard (splitPairs lows) = true := by
    apply hasWildcard_splitPairs
    intro hnil
    simp [hnil] at hlength
  have hbonus := h ⟨_, List.mem_cons_self,
    by simp [matchesExactly, isMatch, matchesPattern, hplain]⟩
    _ (List.mem_cons_of_mem _ List.mem_cons_self)
    (by simp [matchesByWildcard, isMatch, matchesPattern, hwild, matchesGlob_splitPairs hlows])
  rw [literals_splitPairs hlows, length_codePoints_pairs hlows] at hbonus
  omega

/-- 1001 different characters. -/
def manyLows : List Nat := (List.range 1001).map (0xDC00 + ·)

/-- **A wildcard pattern with enough literals is chosen over the exact one.** -/
theorem split_pairs_outweigh :
    ¬ ChoosesMostSpecific (splitTransitions manyLows) 0 (pairs manyLows) := by
  intro h
  have hlows : ∀ low ∈ manyLows, isLowSurrogate low = true := by
    intro low hlow
    obtain ⟨n, hn, heq⟩ := List.mem_map.mp hlow
    have hbound := List.mem_range.mp hn
    simp only [isLowSurrogate, Bool.and_eq_true, decide_eq_true_eq]
    omega
  have hlength : manyLows.length = 1001 := by rw [manyLows, List.length_map, List.length_range]
  apply not_bonusSuffices_splitPairs hlows (by omega)
  exact h.bonusSuffices

/-! ### Strings that are well formed -/

/-- A character is one unit or a pair of surrogates. -/
theorem charCodeUnits_cases (c : Char) :
    (charCodeUnits c = [c.toNat] ∧ isHighSurrogate c.toNat = false ∧
        isLowSurrogate c.toNat = false) ∨
      ∃ high low, charCodeUnits c = [high, low] ∧ isHighSurrogate high = true ∧
        isLowSurrogate low = true ∧
        c.toNat = 0x10000 + (high - 0xD800) * 0x400 + (low - 0xDC00) := by
  have hvalid : c.toNat < 0xD800 ∨ 0xDFFF < c.toNat ∧ c.toNat < 0x110000 := c.valid
  unfold charCodeUnits
  split
  · left
    simp only [isHighSurrogate, isLowSurrogate, Bool.and_eq_false_iff, decide_eq_false_iff_not,
      true_and]
    omega
  · right
    refine ⟨_, _, rfl, ?_⟩
    simp only [isHighSurrogate, isLowSurrogate, Bool.and_eq_true, decide_eq_true_eq]
    omega

/-- A character is known by its units. -/
theorem charCodeUnits_injective {c d : Char} (h : charCodeUnits c = charCodeUnits d) : c = d := by
  apply Char.toNat_inj.mp
  rcases charCodeUnits_cases c with ⟨hc, -, -⟩ | ⟨high, low, hc, -, -, hcode⟩
  · rcases charCodeUnits_cases d with ⟨hd, -, -⟩ | ⟨high', low', hd, -, -, -⟩
    · rw [hc, hd] at h
      exact List.singleton_inj.mp h
    · rw [hc, hd] at h
      cases h
  · rcases charCodeUnits_cases d with ⟨hd, -, -⟩ | ⟨high', low', hd, -, -, hcode'⟩
    · rw [hc, hd] at h
      cases h
    · rw [hc, hd] at h
      cases h
      rw [hcode, hcode']

/-- Code points are characters. -/
theorem codePoints_codeUnits (cs : List Char) :
    codePoints (cs.flatMap charCodeUnits) = cs.map charCodeUnits := by
  induction cs with
  | nil => rfl
  | cons c cs ih =>
      rw [List.flatMap_cons, List.map_cons, ← ih]
      rcases charCodeUnits_cases c with ⟨hc, hhigh, -⟩ | ⟨high, low, hc, hhigh, hlow, -⟩
      · rw [hc]
        exact codePoints_cons hhigh _
      · rw [hc]
        change codePoints (high :: low :: cs.flatMap charCodeUnits) = _
        rw [codePoints, if_pos (by rw [hhigh, hlow]; rfl)]

/-- A string is known by its units. -/
theorem codeUnits_injective {s t : String} (h : codeUnits s = codeUnits t) : s = t := by
  apply String.toList_injective
  apply List.map_injective_iff.mpr (fun c d => charCodeUnits_injective (c := c) (d := d))
  rw [← codePoints_codeUnits, ← codePoints_codeUnits]
  exact congrArg codePoints h

/-- A wildcard among the units of a character is that character. -/
theorem wildcard_char {c : Char} {u : Nat} (hmem : u ∈ charCodeUnits c)
    (hwild : isWildcard u = true) : c = '*' ∨ c = '?' := by
  have hstar : '*'.toNat = 42 := rfl
  have hquestion : '?'.toNat = 63 := rfl
  have hcases : u = '*'.toNat ∨ u = '?'.toNat := by simpa [isWildcard] using hwild
  rcases charCodeUnits_cases c with ⟨hc, -, -⟩ | ⟨high, low, hc, hhigh, hlow, -⟩
  · rw [hc, List.mem_singleton] at hmem
    rw [hmem] at hcases
    exact hcases.imp Char.toNat_inj.mp Char.toNat_inj.mp
  · rw [hc] at hmem
    simp only [List.mem_cons, List.not_mem_nil, or_false] at hmem
    simp only [isHighSurrogate, isLowSurrogate, Bool.and_eq_true, decide_eq_true_eq] at hhigh hlow
    omega

/-- A string holds a wildcard exactly when its units do. -/
@[simp] theorem hasWildcard_codeUnits (s : String) :
    hasWildcard (codeUnits s) = NestBatch.hasWildcard s := by
  apply Bool.eq_iff_iff.mpr
  simp only [hasWildcard, codeUnits, NestBatch.hasWildcard, List.any_eq_true, Bool.or_eq_true,
    List.contains_iff_mem]
  constructor
  · intro h
    obtain ⟨u, hu, hwild⟩ := h
    obtain ⟨c, hc, hmem⟩ := List.mem_flatMap.mp hu
    rcases wildcard_char hmem hwild with rfl | rfl
    · exact .inl hc
    · exact .inr hc
  · intro hcase
    rcases hcase with hc | hc
    · exact ⟨'*'.toNat, List.mem_flatMap.mpr ⟨'*', hc, by decide⟩, rfl⟩
    · exact ⟨'?'.toNat, List.mem_flatMap.mpr ⟨'?', hc, by decide⟩, rfl⟩

/-- The units of a character are literal unless it is a wildcard. -/
theorem isLiteral_charCodeUnits (c : Char) :
    isLiteral (charCodeUnits c) = (c ≠ '*' && c ≠ '?') := by
  have hstar : charCodeUnits '*' = ['*'.toNat] := rfl
  have hquestion : charCodeUnits '?' = ['?'.toNat] := rfl
  unfold isLiteral
  rw [← hstar, ← hquestion]
  congr 1 <;> exact decide_eq_decide.mpr (not_congr ⟨charCodeUnits_injective, congrArg _⟩)

/-- The literals of the units are the characters that are no wildcard. -/
theorem literals_codeUnits (s : String) :
    literals (codeUnits s) = (s.toList.filter fun ch => ch ≠ '*' && ch ≠ '?').length := by
  unfold literals codeUnits
  rw [codePoints_codeUnits, List.countP_map, ← List.countP_eq_length_filter]
  apply List.countP_congr
  intro c _
  rw [Function.comp_apply, isLiteral_charCodeUnits]

/-- Matching over units is matching over characters. -/
@[simp] theorem matchesPattern_codeUnits (pattern status : String) :
    matchesPattern (codeUnits pattern) (codeUnits status) =
      NestBatch.matchesPattern pattern status := by
  unfold matchesPattern NestBatch.matchesPattern
  rw [hasWildcard_codeUnits]
  congr 1
  exact decide_eq_decide.mpr ⟨codeUnits_injective, congrArg _⟩

/-- The specificity over units is the one over characters. -/
@[simp] theorem patternSpecificity_codeUnits (pattern : String) :
    patternSpecificity (codeUnits pattern) = NestBatch.patternSpecificity pattern := by
  unfold patternSpecificity NestBatch.patternSpecificity
  rw [hasWildcard_codeUnits, literals_codeUnits]

/-- A transition of a job, by the code units of its pattern. -/
def encode (t : TransitionDefinition) : Transition String :=
  { fromStepId := t.fromStepId, onStatus := codeUnits t.onStatus, toStepId := t.toStepId }

/-- A transition matches over units exactly when it does over characters. -/
@[simp] theorem isMatch_encode (t : TransitionDefinition) (fromStepId status : String) :
    isMatch (encode t) fromStepId (codeUnits status) =
      FlowEvaluator.isMatch t fromStepId status := by
  unfold isMatch FlowEvaluator.isMatch encode
  rw [matchesPattern_codeUnits]

/-- What the evaluator of the flow makes of the best matches. -/
def ofBest (fromStepId status : String) (best : List TransitionDefinition) :
    Except Thrown (Option String) :=
  match best with
  | [] => .ok none
  | [transition] => .ok transition.toStepId
  | _ :: _ :: _ =>
      .error (.InvalidFlowGraphError "AMBIGUOUS_TRANSITION"
        ("Ambiguous transition from \"" ++ fromStepId ++ "\" on status \"" ++ status ++ "\": " ++
          toString best.length ++ " matches"))

/-- **The evaluator of the flow** chooses as the one on code units does. -/
theorem evaluate_encode (transitions : List TransitionDefinition) (fromStepId status : String) :
    FlowEvaluator.evaluate transitions fromStepId status =
      (evaluate (transitions.map encode) fromStepId (codeUnits status)).mapError fun err =>
        .InvalidFlowGraphError "AMBIGUOUS_TRANSITION"
          ("Ambiguous transition from \"" ++ fromStepId ++ "\" on status \"" ++ status ++ "\": " ++
            toString err.count ++ " matches") := by
  have hcandidates : (transitions.map encode).filter
      (fun t => isMatch t fromStepId (codeUnits status)) =
        (transitions.filter fun t => FlowEvaluator.isMatch t fromStepId status).map encode := by
    rw [List.filter_map]
    congr 1
    exact List.filter_congr fun t _ => isMatch_encode t fromStepId status
  have hscore : specificity ∘ encode =
      fun t : TransitionDefinition => NestBatch.patternSpecificity t.onStatus := by
    funext t
    exact patternSpecificity_codeUnits t.onStatus
  have hbest : FlowEvaluator.evaluate transitions fromStepId status =
      ofBest fromStepId status (Ranked.best
        (fun t : TransitionDefinition => NestBatch.patternSpecificity t.onStatus)
        (transitions.filter fun t => FlowEvaluator.isMatch t fromStepId status)) := rfl
  rw [hbest, evaluate, select, hcandidates, Ranked.pick_map, hscore, Ranked.pick]
  generalize Ranked.best (fun t : TransitionDefinition => NestBatch.patternSpecificity t.onStatus)
    (transitions.filter fun t => FlowEvaluator.isMatch t fromStepId status) = best
  match best with
  | [] => rfl
  | [_] => rfl
  | _ :: _ :: _ => rfl

/-- The units that start a character. -/
def startsChar (u : Nat) : Bool := !isLowSurrogate u

/-- Every character has one unit that starts it. -/
theorem countP_startsChar (cs : List Char) :
    (cs.flatMap charCodeUnits).countP startsChar = cs.length := by
  induction cs with
  | nil => rfl
  | cons c cs ih =>
      have hone : (charCodeUnits c).countP startsChar = 1 := by
        rcases charCodeUnits_cases c with ⟨hc, -, hlow⟩ | ⟨high, low, hc, hhigh, hlow, -⟩
        · simp [hc, startsChar, hlow]
        · simp [hc, startsChar, hlow, not_isLowSurrogate hhigh]
      rw [List.flatMap_cons, List.countP_append, hone, ih, List.length_cons, Nat.add_comm]

/-- A literal character has a literal unit that starts it. -/
theorem literals_le_countP_startsChar (cs : List Char) : literals (cs.flatMap charCodeUnits) ≤
    (cs.flatMap charCodeUnits).countP fun u => !isWildcard u && startsChar u := by
  unfold literals
  rw [codePoints_codeUnits]
  induction cs with
  | nil => exact Nat.le_refl _
  | cons c cs ih =>
      rw [List.map_cons, List.countP_cons, List.flatMap_cons, List.countP_append]
      apply Nat.add_comm _ _ ▸ Nat.add_le_add _ ih
      rcases charCodeUnits_cases c with ⟨hc, -, hlow⟩ | ⟨high, low, hc, hhigh, hlow, -⟩
      · simp [hc, startsChar, hlow, List.countP_cons]
      · simp [hc, startsChar, hlow, not_isLowSurrogate hhigh,
          isWildcard_of_isHighSurrogate hhigh]

/-- **Strings that are well formed are chosen among as meant.** -/
theorem choosesMostSpecific_encode (transitions : List TransitionDefinition)
    (fromStepId status : String) :
    ChoosesMostSpecific (transitions.map encode) fromStepId (codeUnits status) := by
  apply BonusSuffices.choosesMostSpecific
  intro _ w hw hwild
  obtain ⟨t, -, rfl⟩ := List.mem_map.mp hw
  have hliterals := literals_le_countP_startsChar t.onStatus.toList
  have hunits := countP_le_of_matchesGlob startsChar (matchesGlob_of_wildcard hwild)
  have hchars := countP_startsChar status.toList
  have hpoints : (codePoints (codeUnits status)).length = status.toList.length := by
    rw [codeUnits, codePoints_codeUnits, List.length_map]
  have hpattern : (encode t).onStatus = t.onStatus.toList.flatMap charCodeUnits := rfl
  rw [hpattern] at hunits ⊢
  unfold codeUnits at *
  omega

end UnitEvaluator

end NestBatch
