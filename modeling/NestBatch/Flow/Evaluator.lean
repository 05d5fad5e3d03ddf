import NestBatch.Core.Ir

/-!
# Flow evaluation

`FlowEvaluator` resolves the next step from the transitions of a job, the
current step and its exit status.  A pattern without `*` and `?` is compared
literally; otherwise `*` stands for any run of UTF-16 code units and `?` for
one, and neither matches a line terminator, as `.` does not in the regular
expression the source builds.
-/

namespace NestBatch

/-- The UTF-16 code units of a character. -/
def charCodeUnits (c : Char) : List Nat :=
  if c.toNat < 0x10000 then [c.toNat]
  else [0xD800 + (c.toNat - 0x10000) / 0x400, 0xDC00 + (c.toNat - 0x10000) % 0x400]

/-- The UTF-16 code units of a string. -/
def codeUnits (s : String) : List Nat := s.toList.flatMap charCodeUnits

/-- What `.` does not match in a regular expression without the `s` flag. -/
def isLineTerminator (c : Nat) : Bool :=
  c = 0x0A || c = 0x0D || c = 0x2028 || c = 0x2029

/-- What can be left of a string after `.*`. -/
def starRests : List Nat → List (List Nat)
  | [] => [[]]
  | c :: cs => if isLineTerminator c then [c :: cs] else (c :: cs) :: starRests cs

/-- Whether the units match the whole of a pattern. -/
def matchesGlob : List Nat → List Nat → Bool
  | [], cs => cs.isEmpty
  | p :: ps, cs =>
      if p = '*'.toNat then (starRests cs).any (matchesGlob ps)
      else
        match cs with
        | [] => false
        | c :: cs =>
            (if p = '?'.toNat then !isLineTerminator c else decide (p = c)) && matchesGlob ps cs

/-- `pattern.includes('*') || pattern.includes('?')`. -/
def hasWildcard (pattern : String) : Bool :=
  pattern.toList.contains '*' || pattern.toList.contains '?'

def matchesPattern (pattern status : String) : Bool :=
  if !hasWildcard pattern then decide (pattern = status)
  else matchesGlob (codeUnits pattern) (codeUnits status)

/-- Literal characters of a pattern; an exact pattern beats every wildcard one. -/
def patternSpecificity (pattern : String) : Nat :=
  let score := (pattern.toList.filter fun ch => ch ≠ '*' && ch ≠ '?').length
  if hasWildcard pattern then score else score + 1000

namespace FlowEvaluator

/-- `matches`: the transition leaves `fromStepId` and its pattern matches `status`. -/
def isMatch (transition : TransitionDefinition) (fromStepId status : String) : Bool :=
  transition.fromStepId = fromStepId && matchesPattern transition.onStatus status

/-- `Math.max(...specificities)`. -/
def maxSpecificity (candidates : List TransitionDefinition) : Nat :=
  (candidates.map fun t => patternSpecificity t.onStatus).foldl max 0

/-- The target of the most specific matching transition; `none` is END, also
when nothing matches. -/
def evaluate (transitions : List TransitionDefinition) (fromStepId status : String) :
    Except Thrown (Option String) :=
  let candidates := transitions.filter fun t => isMatch t fromStepId status
  let best := candidates.filter fun t =>
    patternSpecificity t.onStatus = maxSpecificity candidates
  match best with
  | [] => .ok none
  | [transition] => .ok transition.toStepId
  | _ :: _ :: _ =>
      .error (.InvalidFlowGraphError "AMBIGUOUS_TRANSITION"
        ("Ambiguous transition from \"" ++ fromStepId ++ "\" on status \"" ++ status ++ "\": " ++
          toString best.length ++ " matches"))

end FlowEvaluator

end NestBatch
