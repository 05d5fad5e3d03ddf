import NestBatch.Core.Ir

/-!
# Skip and retry policies, partition helpers

The pure rules the chunk executor and the transports consult.
-/

namespace NestBatch

/-- `try { return f(v); } catch { return false; }`. -/
def FunctionValue.called {ν : Type} (f : FunctionValue ν) (v : ν) : Bool := (f.call v).getD false

namespace SkipPolicy

variable {ν : Type}

/-- `matchesSkippable` of the skip policy: a class by `instanceof`, anything else by a call. -/
def matchesSkippable (v : ν) (f : FunctionValue ν) : Option Bool :=
  if f.prototypeInstanceofError then f.hasInstance v else some (f.called v)

/-- `shouldSkip`: the entries are asked in order up to the first that matches; `none` when a test
throws. -/
def shouldSkip (skippable : List (FunctionValue ν)) (v : ν) (skipCount skipLimit : Int) :
    Option Bool :=
  if skipCount ≥ skipLimit then some false else skippable.anyM (matchesSkippable v)

end SkipPolicy

namespace RetryPolicy

variable {ν : Type}

/-- `matchesSkippable` of the retry policy: whatever declares one parameter is called. -/
def matchesSkippable (v : ν) (f : FunctionValue ν) : Option Bool :=
  if f.length = 1 then some (f.called v) else f.hasInstance v

/-- `canRetry`; `none` when a test throws. -/
def canRetry (retryable : List (FunctionValue ν)) (v : ν) (attempt : Nat) (retryLimit : Int) :
    Option Bool :=
  if (attempt : Int) > retryLimit then some false else retryable.anyM (matchesSkippable v)

end RetryPolicy

/-- What `err instanceof f` throws for a function without prototype. -/
def noPrototype : Thrown :=
  ⟨.typeError, "Function has non-object prototype 'undefined' in instanceof check"⟩

/-- The answer of a policy, or what its `instanceof` throws. -/
def answered : Option Bool → Except Thrown Bool
  | some answer => .ok answer
  | none => .error noPrototype

theorem answered_eq_ok {x : Option Bool} {answer : Bool} :
    answered x = .ok answer ↔ x = some answer := by
  cases x <;> simp [answered]

/-- A policy throws nothing but what `instanceof` throws. -/
theorem answered_error {x : Option Bool} {err : Thrown} (h : answered x = .error err) :
    err = noPrototype := by
  cases x with
  | none =>
      cases h
      rfl
  | some answer => cases h

/-- `compileSkipPolicy`. -/
def compileSkipPolicy (config : SkipPolicyConfig) : Except Thrown SkipPolicyConfig :=
  if config.limit ≤ 0 then
    .error (.InvalidFlowGraphError "INVALID_SKIP_LIMIT"
      ("SkipPolicyConfig.limit must be > 0 (got " ++ toString config.limit ++ ")"))
  else .ok config

/-- `SkipPolicy.shouldSkip`. -/
def shouldSkip (policy : SkipPolicyConfig) (err : Thrown) (skipCount skipLimit : Int) :
    Except Thrown Bool :=
  answered (SkipPolicy.shouldSkip policy.skippable err skipCount skipLimit)

/-- `compileRetryPolicy`. -/
def compileRetryPolicy (config : RetryPolicyConfig) : Except Thrown RetryPolicyConfig :=
  if config.limit ≤ 0 then
    .error (.error ("RetryPolicyConfig.limit must be > 0 (got " ++ toString config.limit ++ ")"))
  else .ok config

/-- Membership in `retryable`: `canRetry` on a first attempt with no limit. -/
def isRetryable (policy : RetryPolicyConfig) (err : Thrown) : Except Thrown Bool :=
  answered (policy.retryable.anyM (RetryPolicy.matchesSkippable err))

/-- `RetryPolicy.canRetry`. -/
def canRetry (policy : RetryPolicyConfig) (err : Thrown) (attempt : Nat) (retryLimit : Int) :
    Except Thrown Bool :=
  answered (RetryPolicy.canRetry policy.retryable err attempt retryLimit)

/-- Within the limit a retry is a matter of membership. -/
theorem canRetry_within {attempt : Nat} {retryLimit : Int} (h : (attempt : Int) ≤ retryLimit)
    (policy : RetryPolicyConfig) (err : Thrown) :
    canRetry policy err attempt retryLimit = isRetryable policy err := by
  unfold canRetry RetryPolicy.canRetry
  rw [if_neg (Int.not_lt.mpr h)]
  rfl

/-- Past the limit nothing is retried, and nothing is asked. -/
theorem canRetry_beyond {attempt : Nat} {retryLimit : Int} (h : retryLimit < attempt)
    (policy : RetryPolicyConfig) (err : Thrown) :
    canRetry policy err attempt retryLimit = .ok false := by
  unfold canRetry RetryPolicy.canRetry
  rw [if_pos h]
  rfl

/-- The compiled policies of a chunk step, with their limits. -/
structure Policies where
  skip : Option SkipPolicyConfig
  retry : Option RetryPolicyConfig
  skipLimit : Int
  retryLimit : Int

/-- Compile both policies of a step; an absent one has limit zero. -/
def Policies.compile (step : ChunkStepDefinition) : Except Thrown Policies := do
  let skip ← step.skipPolicy.mapM compileSkipPolicy
  let retry ← step.retryPolicy.mapM compileRetryPolicy
  pure { skip := skip, retry := retry,
         skipLimit := (step.skipPolicy.map (·.limit)).getD 0
         retryLimit := (step.retryPolicy.map (·.limit)).getD 0 }

/-- Whether the skip policy covers an error: membership alone, whatever the limit. -/
def Policies.covers (policies : Policies) (err : Thrown) : Except Thrown Bool :=
  match policies.skip with
  | none => .ok false
  | some p => shouldSkip p err 0 policies.skipLimit

/-- Whether an error is skipped as long as there is budget. -/
def Policies.skips (policies : Policies) (err : Thrown) : Bool := policies.covers err = .ok true

/-- A test of an error fails for one reason: the function has no prototype. -/
theorem Policies.covers_error {policies : Policies} {err testErr : Thrown}
    (h : policies.covers err = .error testErr) : testErr = noPrototype := by
  unfold covers at h
  split at h
  · cases h
  · exact answered_error h

/-- A test that answers is the one of the skip policy. -/
theorem Policies.skips_of_covers {policies : Policies} {err : Thrown} {answer : Bool}
    (h : policies.covers err = .ok answer) : policies.skips err = answer := by
  unfold skips
  rw [h]
  cases answer <;> rfl

/-- The same of the policy a step is given. -/
def ChunkStepDefinition.skips (step : ChunkStepDefinition) (err : Thrown) : Bool :=
  match step.skipPolicy with
  | none => false
  | some p => shouldSkip p err 0 p.limit = .ok true

/-- The skip policy of a step is taken as it stands, and its limit is positive. -/
theorem Policies.compile_fields {step : ChunkStepDefinition} {policies : Policies}
    (h : Policies.compile step = .ok policies) : policies.skip = step.skipPolicy ∧
      policies.skipLimit = (step.skipPolicy.map (·.limit)).getD 0 ∧
      ∀ config, step.skipPolicy = some config → 0 < config.limit := by
  unfold compile at h
  cases hskip : step.skipPolicy with
  | none =>
      rw [hskip] at h
      cases hretry : step.retryPolicy.mapM compileRetryPolicy with
      | error err =>
          rw [hretry] at h
          cases h
      | ok retry =>
          rw [hretry] at h
          cases h
          exact ⟨rfl, rfl, fun _ h => by cases h⟩
  | some config =>
      rw [hskip, Option.mapM_some] at h
      unfold compileSkipPolicy at h
      split at h
      · cases h
      · next hlimit =>
          cases hretry : step.retryPolicy.mapM compileRetryPolicy with
          | error err =>
              rw [hretry] at h
              cases h
          | ok retry =>
              rw [hretry] at h
              cases h
              refine ⟨rfl, rfl, ?_⟩
              intro config' heq
              cases heq
              exact Int.not_le.mp hlimit

/-- Compiling takes the skip policy over. -/
theorem Policies.compile_skip {step : ChunkStepDefinition} {policies : Policies}
    (h : Policies.compile step = .ok policies) : policies.skip = step.skipPolicy :=
  (compile_fields h).1

/-- Compiling takes over which errors are skipped. -/
theorem Policies.compile_skips {step : ChunkStepDefinition} {policies : Policies}
    (h : Policies.compile step = .ok policies) (err : Thrown) :
    policies.skips err = step.skips err := by
  obtain ⟨hskip, hlimit, -⟩ := compile_fields h
  unfold Policies.skips Policies.covers ChunkStepDefinition.skips
  rw [hskip, hlimit]
  cases step.skipPolicy with
  | none => rfl
  | some config => rfl

/-- `validatePartitions`: the count of a configuration is a positive integer. -/
def validatePartitions : Option ChunkPartitionConfig → Except Thrown Unit
  | none => .ok ()
  | some partitions =>
      if partitions.count ≤ 0 then
        .error (.InvalidPartitionsError
          ("ChunkStepDefinition.partitions.count must be a positive integer, got " ++
            toString partitions.count))
      else .ok ()

/-- The default even split: partition `i` of `n` over `total` items. -/
def defaultRange (i n total : Int) : Except Thrown (Int × Int) :=
  if i < 0 ∨ i ≥ n then
    .error (.InvalidPartitionsError
      ("defaultRange: partition index " ++ toString i ++ " out of range [0, " ++ toString n ++ ")"))
  else if n ≤ 0 then
    .error (.InvalidPartitionsError
      ("defaultRange: count " ++ toString n ++ " must be a positive integer"))
  else if total < 0 then
    .error (.InvalidPartitionsError
      ("defaultRange: total " ++ toString total ++ " must be a non-negative finite number"))
  else .ok (i * total / n, (i + 1) * total / n)

/-- `enforcePartitionIndex`: the index lies in `[0, count)`. -/
def enforcePartitionIndex (partitionIndex count : Int) : Except Thrown Unit :=
  if partitionIndex < 0 ∨ partitionIndex ≥ count then
    .error (.InvalidPartitionsError
      ("partitionIndex " ++ toString partitionIndex ++ " is out of range [0, " ++
        toString count ++ ")"))
  else .ok ()

end NestBatch
