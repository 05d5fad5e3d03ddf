import NestBatch.Execution.ChunkStep

/-!
# The attempts of a phase

`runPhase` seen from its hooks and its operation, which may do and answer
anything: how often it calls them, in which order, and how it ends.  Its loop has
a cap of its own besides the limit of the retry policy, which is not reached as
long as the limit is smaller.
-/

namespace NestBatch

namespace ChunkStepExecutor

/-- The points around a phase at which listeners are called. -/
inductive PhaseHook (β : Type)
  | before
  | after (value : β)
  | onError (err : Thrown)
  | onSkip (err : Thrown)

/-- What `runPhase` calls. -/
inductive PhaseOp (β : Type)
  | hook (hook : PhaseHook β)
  | call

/-- A call returns or throws; only the operation returns something. -/
def PhaseOp.Resp {β : Type} : PhaseOp β → Type
  | .hook _ => Except Thrown Unit
  | .call => Except Thrown β

variable {α β σ : Type}

/-- Code that calls the hooks and the operation of a phase. -/
abbrev PhaseCode (β γ : Type) := Prog (PhaseOp β) PhaseOp.Resp Thrown γ

/-- Call a hook; what it throws is thrown on. -/
def callHook (hook : PhaseHook β) : PhaseCode β Unit :=
  .op (.hook hook) fun out => .ofExcept out

/-- Call the operation. -/
def callOperation : PhaseCode β (Except Thrown β) := .op .call fun out => .pure out

/-- What `runPhaseFrom` does between the calls. -/
def attemptsFrom (policies : Policies) (name : String) (skipCount : Nat) :
    Nat → Nat → PhaseCode β (PhaseResult β)
  | 0, _ =>
      .throw (.error ("ChunkStepExecutor: phase \"" ++ name ++
        "\" exhausted attempts without a retry policy"))
  | cap + 1, attempt => do
      callHook .before
      let out ← callOperation
      match out with
      | .ok value => do
          callHook (.after value)
          .pure (.ok value)
      | .error err => do
          callHook (.onError err)
          match consult policies err skipCount attempt with
          | .skip => do
              callHook (.onSkip err)
              .pure .skipped
          | .retry => attemptsFrom policies name skipCount cap (attempt + 1)
          | .fail err' => .throw err'

/-- What `runPhase` does between the calls. -/
def attempts (policies : Policies) (name : String) (skipCount : Nat) :
    PhaseCode β (PhaseResult β) :=
  attemptsFrom policies name skipCount (if policies.retry.isSome then 999 else 1) 1

def PhaseHooks.code (hooks : PhaseHooks α β) : PhaseHook β → Code α Unit
  | .before => hooks.before
  | .after value => hooks.after value
  | .onError err => hooks.onError err
  | .onSkip err => hooks.onSkip err

/-- The calls of a phase as code. -/
def PhaseHooks.perform (hooks : PhaseHooks α β) (op : Code α β) : (o : PhaseOp β) → Code α o.Resp
  | .hook hook => (hooks.code hook).attempt
  | .call => op.attempt

/-! ### `runPhase` is its attempts -/

section Phase

variable (policies : Policies) (op : Code α β) (hooks : PhaseHooks α β)

/-- A hook call is performed by the hooks. -/
theorem interpret_callHook (hook : PhaseHook β) :
    (callHook hook).interpret (hooks.perform op) = hooks.code hook := by
  have hself : ∀ p : Code α Unit, (p.attempt >>= fun out =>
      (Prog.ofExcept out : PhaseCode β Unit).interpret (hooks.perform op)) = p := by
    intro p
    induction p with
    | pure a => rfl
    | throw e => rfl
    | spin => rfl
    | op o k ih =>
        change Prog.op o _ = _
        congr 1
        funext r
        exact ih r
  exact hself (hooks.code hook)

/-- A call of the operation is one attempt. -/
theorem interpret_callOperation :
    (callOperation : PhaseCode β (Except Thrown β)).interpret (hooks.perform op) = op.attempt := by
  have hself : ∀ p : Code α (Except Thrown β), (p >>= fun out =>
      (Prog.pure out : PhaseCode β (Except Thrown β)).interpret (hooks.perform op)) = p := by
    intro p
    induction p with
    | pure a => rfl
    | throw e => rfl
    | spin => rfl
    | op o k ih =>
        rw [Prog.op_bind]
        congr 1
        funext r
        exact ih r
  exact hself op.attempt

/-- Without a skip policy the retry policy decides. -/
theorem consult_of_no_skip (hskip : policies.skip = none) (err : Thrown) (skipCount attempt : Nat) :
    consult policies err skipCount attempt = consultRetry policies err attempt := by
  unfold consult Policies.covers
  rw [hskip]

/-- The retry policy skips nothing. -/
theorem consultRetry_ne_skip (err : Thrown) (attempt : Nat) :
    consultRetry policies err attempt ≠ .skip := by
  unfold consultRetry
  split
  · exact nofun
  · split
    · exact nofun
    · exact nofun
    · split
      · split <;> exact nofun
      · exact nofun

/-- **A phase is its attempts**, each call performed by the hook's or the operation's own code. -/
theorem runPhaseFrom_eq_attemptsFrom (hskip : policies.skip = none) (skipCount cap attempt : Nat) :
    runPhaseFrom policies op hooks cap attempt =
      Scoped.lift ((attemptsFrom policies hooks.name skipCount cap attempt).interpret
        (hooks.perform op)) := by
  induction cap generalizing attempt with
  | zero => rfl
  | succ cap ih =>
      unfold runPhaseFrom attemptsFrom
      simp only [Prog.interpret_bind, interpret_callHook, interpret_callOperation,
        Scoped.lift_bind, Scoped.attempt_lift]
      congr 1
      funext u
      congr 1
      funext out
      cases out with
      | ok value =>
          simp only [Prog.interpret_bind, interpret_callHook, Scoped.lift_bind]
          rfl
      | error err =>
          simp only [Prog.interpret_bind, interpret_callHook, Scoped.lift_bind]
          congr 1
          funext u l
          change (match consult policies err l.skipCount attempt with
            | .skip => _
            | .retry => _
            | .fail err' => _ : ChunkCode α (PhaseResult β)) l = _
          rw [consult_of_no_skip policies hskip err l.skipCount attempt,
            consult_of_no_skip policies hskip err skipCount attempt]
          have hne := consultRetry_ne_skip policies err attempt
          cases hconsult : consultRetry policies err attempt with
          | skip => exact absurd hconsult hne
          | retry => rw [ih]
          | fail err' => rfl

end Phase

/-! ### What the attempts come to -/

/-- A call with its answer. -/
abbrev PhaseCall (β : Type) := Prog.Call (PhaseOp β) PhaseOp.Resp

/-- A hook that returned, or threw. -/
def hooked (hook : PhaseHook β) (out : Except Thrown Unit) : PhaseCall β := ⟨.hook hook, out⟩

def called (out : Except Thrown β) : PhaseCall β := ⟨.call, out⟩

/-- An attempt that failed: `before`, the operation, `onError`. -/
def failure (err : Thrown) : List (PhaseCall β) :=
  [hooked .before (.ok ()), called (.error err), hooked (.onError err) (.ok ())]

def failedCalls (errs : List Thrown) : List (PhaseCall β) := errs.flatMap failure

/-- The attempt that succeeded: `before`, the operation, `after`. -/
def success (value : β) : List (PhaseCall β) :=
  [hooked .before (.ok ()), called (.ok value), hooked (.after value) (.ok ())]

/-- An attempt of which a hook threw: no other call follows. -/
inductive HookThrows (err : Thrown) : List (PhaseCall β) → Prop
  | before : HookThrows err [hooked .before (.error err)]
  | after (value : β) :
      HookThrows err
        [hooked .before (.ok ()), called (.ok value), hooked (.after value) (.error err)]
  | onError (cause : Thrown) :
      HookThrows err
        [hooked .before (.ok ()), called (.error cause), hooked (.onError cause) (.error err)]

/-- **Attempts are exact** under a limit, with `retries` of them left: retryable failures up to as
many and then a success, one more of them and the limit is exceeded, or some and then an error that
is not retryable. -/
inductive AttemptsExactly (retryable : Thrown → Except Thrown Bool) (limit : Int) (retries : Nat) :
    List (PhaseCall β) → Prog.Outcome Thrown (PhaseResult β) → Prop
  | succeeds (errs : List Thrown) (value : β) (hall : ∀ err ∈ errs, retryable err = .ok true)
      (hcount : errs.length ≤ retries) :
      AttemptsExactly retryable limit retries (failedCalls errs ++ success value)
        (.returned (.ok value))
  | exhausts (errs : List Thrown) (hall : ∀ err ∈ errs, retryable err = .ok true)
      (hcount : errs.length = retries + 1) :
      AttemptsExactly retryable limit retries (failedCalls errs)
        (.threw (.RetryLimitExceededError limit))
  | stops (errs : List Thrown) (err : Thrown) (hall : ∀ err ∈ errs, retryable err = .ok true)
      (hcount : errs.length ≤ retries) (hnot : retryable err = .ok false) :
      AttemptsExactly retryable limit retries (failedCalls errs ++ failure err) (.threw err)
  | hook (errs : List Thrown) (err : Thrown) (last : List (PhaseCall β))
      (hall : ∀ err ∈ errs, retryable err = .ok true) (hcount : errs.length ≤ retries)
      (hlast : HookThrows err last) :
      AttemptsExactly retryable limit retries (failedCalls errs ++ last) (.threw err)

/-- How one attempt ends before the policy is asked: a hook throws, with the calls made by then, the
operation succeeds, or it fails. -/
inductive AttemptEnd (β : Type)
  | thrown (err : Thrown) (last : List (PhaseCall β))
  | returned (value : β)
  | failed (err : Thrown)

/-- One attempt, the hooks and the operation answering as `h` says. -/
def attemptOnce (h : Prog.Handler (PhaseOp β) PhaseOp.Resp σ) (s : σ) : AttemptEnd β × σ :=
  match h (.hook .before) s with
  | (.error err, s) => (.thrown err [hooked .before (.error err)], s)
  | (.ok (), s) =>
      match h .call s with
      | (.ok value, s) =>
          match h (.hook (.after value)) s with
          | (.error err, s) =>
              (.thrown err [hooked .before (.ok ()), called (.ok value),
                hooked (.after value) (.error err)], s)
          | (.ok (), s) => (.returned value, s)
      | (.error cause, s) =>
          match h (.hook (.onError cause)) s with
          | (.error err, s) =>
              (.thrown err [hooked .before (.ok ()), called (.error cause),
                hooked (.onError cause) (.error err)], s)
          | (.ok (), s) => (.failed cause, s)

/-- The first `n` attempts fail with retryable errors, and their hooks return: the state that they
leave. -/
def afterFailures (h : Prog.Handler (PhaseOp β) PhaseOp.Resp σ)
    (retryable : Thrown → Except Thrown Bool) : Nat → σ → Option σ
  | 0, s => some s
  | n + 1, s =>
      match attemptOnce h s with
      | (.failed err, s) =>
          if retryable err = .ok true then afterFailures h retryable n s else none
      | _ => none

/-- The attempt after the first `n` retries fails with an error for which a test of the policy
throws. -/
def TestThrows (h : Prog.Handler (PhaseOp β) PhaseOp.Resp σ)
    (retryable : Thrown → Except Thrown Bool) (s : σ) (n : Nat) : Prop :=
  ∃ s₁ err s₂ testErr, afterFailures h retryable n s = some s₁ ∧
    attemptOnce h s₁ = (.failed err, s₂) ∧ retryable err = .error testErr

/-- The policies of a step with a retry policy and no skip policy. -/
def retrying (config : RetryPolicyConfig) : Policies :=
  { skip := none, retry := some config, skipLimit := 0, retryLimit := config.limit }

section Attempts

variable {config : RetryPolicyConfig} {name : String} {skipCount : Nat}
  {h : Prog.Handler (PhaseOp β) PhaseOp.Resp σ}

/-- With a retry policy a failure is retried as the policy and its limit say. -/
theorem consult_retrying (err : Thrown) (attempt : Nat) :
    consult (retrying config) err skipCount attempt =
      match isRetryable config err with
      | .error testErr => .fail testErr
      | .ok true =>
          if (attempt : Int) ≤ config.limit then .retry
          else .fail (.RetryLimitExceededError config.limit)
      | .ok false => .fail err := by
  rw [consult_of_no_skip _ rfl]
  unfold consultRetry
  simp only [retrying]
  by_cases hlimit : (attempt : Int) ≤ config.limit
  · have hle : ¬ (attempt : Int) > config.limit := Int.not_lt.mpr hlimit
    rw [canRetry_within hlimit]
    rcases isRetryable config err with testErr | _ | _
    · rfl
    · exact if_neg hle
    · exact (if_pos hlimit).symm
  · have hgt : (attempt : Int) > config.limit := Int.not_le.mp hlimit
    rw [canRetry_beyond hgt]
    simp only [if_neg hlimit]
    exact if_pos hgt

section Calls

variable {γ : Type} {hook : PhaseHook β} {s s' : σ} (log : List (PhaseCall β))

/-- A hook that returns is logged and the code goes on. -/
theorem run_callHook_ok {f : Unit → PhaseCode β γ} (hhook : h (.hook hook) s = (.ok (), s')) :
    (callHook hook >>= f).run h.traced (s, log) =
      (f ()).run h.traced (s', log ++ [hooked hook (.ok ())]) := by
  change (Prog.ofExcept (h (.hook hook) s).1 >>= f).run h.traced
    ((h (.hook hook) s).2, log ++ [⟨.hook hook, (h (.hook hook) s).1⟩]) = _
  rw [hhook]
  rfl

/-- A hook that throws is logged and ends the code. -/
theorem run_callHook_error {err : Thrown} {f : Unit → PhaseCode β γ}
    (hhook : h (.hook hook) s = (.error err, s')) :
    (callHook hook >>= f).run h.traced (s, log) =
      (.threw err, s', log ++ [hooked hook (.error err)]) := by
  change (Prog.ofExcept (h (.hook hook) s).1 >>= f).run h.traced
    ((h (.hook hook) s).2, log ++ [⟨.hook hook, (h (.hook hook) s).1⟩]) = _
  rw [hhook]
  rfl

/-- An operation is logged with its outcome and the code goes on. -/
theorem run_callOperation {out : Except Thrown β} {f : Except Thrown β → PhaseCode β γ}
    (hcall : h .call s = (out, s')) :
    (callOperation >>= f).run h.traced (s, log) =
      (f out).run h.traced (s', log ++ [called out]) := by
  change (f (h .call s).1).run h.traced ((h .call s).2, log ++ [⟨.call, (h .call s).1⟩]) = _
  rw [hcall]
  rfl

end Calls

/-- The run of some attempts, its calls written behind `log`. -/
def runFrom (config : RetryPolicyConfig) (name : String) (skipCount : Nat)
    (h : Prog.Handler (PhaseOp β) PhaseOp.Resp σ) (cap attempt : Nat) (s : σ)
    (log : List (PhaseCall β)) :
    Prog.Outcome Thrown (PhaseResult β) × σ × List (PhaseCall β) :=
  (attemptsFrom (retrying config) name skipCount cap attempt).run h.traced (s, log)

theorem run_attempts (config : RetryPolicyConfig) (name : String) (skipCount : Nat)
    (h : Prog.Handler (PhaseOp β) PhaseOp.Resp σ) (s : σ) :
    (attempts (retrying config) name skipCount).run h.traced (s, []) =
      runFrom config name skipCount h 999 1 s [] := rfl

/-- What follows an attempt: a hook's error or the value is the end, and over a failure the policy
decides. -/
def runAfter (config : RetryPolicyConfig) (name : String) (skipCount : Nat)
    (h : Prog.Handler (PhaseOp β) PhaseOp.Resp σ) (cap attempt : Nat) (log : List (PhaseCall β)) :
    AttemptEnd β × σ → Prog.Outcome Thrown (PhaseResult β) × σ × List (PhaseCall β)
  | (.thrown err last, s) => (.threw err, s, log ++ last)
  | (.returned value, s) => (.returned (.ok value), s, log ++ success value)
  | (.failed err, s) =>
      match isRetryable config err with
      | .error testErr => (.threw testErr, s, log ++ failure err)
      | .ok true =>
          if (attempt : Int) ≤ config.limit then
            runFrom config name skipCount h cap (attempt + 1) s (log ++ failure err)
          else (.threw (.RetryLimitExceededError config.limit), s, log ++ failure err)
      | .ok false => (.threw err, s, log ++ failure err)

/-- An attempt whose operation succeeds is over with its `after` hook. -/
theorem runFrom_succeeded {s s₁ s₂ : σ} {value : β} (hbefore : h (.hook .before) s = (.ok (), s₁))
    (hcall : h .call s₁ = (.ok value, s₂)) (cap attempt : Nat) (log : List (PhaseCall β)) :
    runFrom config name skipCount h (cap + 1) attempt s log =
      (callHook (.after value) >>= fun _ => .pure (.ok value)).run h.traced
        (s₂, log ++ [hooked .before (.ok ())] ++ [called (.ok value)]) := by
  rw [runFrom, attemptsFrom, run_callHook_ok log hbefore, run_callOperation _ hcall]

/-- An attempt whose operation fails asks the policy behind its `onError` hook. -/
theorem runFrom_failed {s s₁ s₂ s₃ : σ} {err : Thrown}
    (hbefore : h (.hook .before) s = (.ok (), s₁)) (hcall : h .call s₁ = (.error err, s₂))
    (honError : h (.hook (.onError err)) s₂ = (.ok (), s₃)) (cap attempt : Nat)
    (log : List (PhaseCall β)) :
    runFrom config name skipCount h (cap + 1) attempt s log =
      runAfter config name skipCount h cap attempt log (.failed err, s₃) := by
  have hlog : log ++ [hooked .before (.ok ())] ++ [called (.error err)] ++
      [hooked (.onError err) (.ok ())] = log ++ failure err := by
    simp [failure]
  rw [runFrom, attemptsFrom, run_callHook_ok log hbefore, run_callOperation _ hcall]
  dsimp only
  rw [run_callHook_ok _ honError, consult_retrying, hlog]
  dsimp only [runAfter]
  rcases isRetryable config err with testErr | _ | _
  · rfl
  · rfl
  · by_cases hlimit : (attempt : Int) ≤ config.limit
    · simp only [if_pos hlimit]
      rfl
    · simp only [if_neg hlimit]
      rfl

/-- **One attempt**, and what follows it. -/
theorem runFrom_succ (config : RetryPolicyConfig) (name : String) (skipCount : Nat)
    (h : Prog.Handler (PhaseOp β) PhaseOp.Resp σ) (cap attempt : Nat) (s : σ)
    (log : List (PhaseCall β)) : runFrom config name skipCount h (cap + 1) attempt s log =
      runAfter config name skipCount h cap attempt log (attemptOnce h s) := by
  unfold attemptOnce
  rcases hbefore : h (.hook .before) s with ⟨err | ⟨⟩, s₁⟩
  · exact run_callHook_error log hbefore
  rcases hcall : h .call s₁ with ⟨cause | value, s₂⟩
  · rcases honError : h (.hook (.onError cause)) s₂ with ⟨err | ⟨⟩, s₃⟩
    · rw [runFrom, attemptsFrom, run_callHook_ok log hbefore, run_callOperation _ hcall]
      dsimp only
      rw [run_callHook_error _ honError]
      simp [runAfter, hcall, honError]
    · rw [runFrom_failed hbefore hcall honError]
      simp [hcall, honError]
  · rw [runFrom_succeeded hbefore hcall]
    rcases hafter : h (.hook (.after value)) s₂ with ⟨err | ⟨⟩, s₃⟩
    · rw [run_callHook_error _ hafter]
      simp [runAfter, hcall, hafter]
    · rw [run_callHook_ok _ hafter]
      simp [runAfter, success, hcall, hafter, Prog.run]

/-- An attempt that a hook ends has made the calls up to that hook. -/
theorem hookThrows_of_attemptOnce {s s' : σ} {err : Thrown} {last : List (PhaseCall β)}
    (hattempt : attemptOnce h s = (.thrown err last, s')) : HookThrows err last := by
  unfold attemptOnce at hattempt
  rcases hbefore : h (.hook .before) s with ⟨err' | ⟨⟩, s₁⟩
  · rw [hbefore] at hattempt
    cases hattempt
    exact .before
  rcases hcall : h .call s₁ with ⟨cause | value, s₂⟩
  · rcases honError : h (.hook (.onError cause)) s₂ with ⟨err' | ⟨⟩, s₃⟩
    · simp only [hbefore, hcall, honError] at hattempt
      cases hattempt
      exact .onError cause
    · simp only [hbefore, hcall, honError] at hattempt
      cases hattempt
  · rcases hafter : h (.hook (.after value)) s₂ with ⟨err' | ⟨⟩, s₃⟩
    · simp only [hbefore, hcall, hafter] at hattempt
      cases hattempt
      exact .after value
    · simp only [hbefore, hcall, hafter] at hattempt
      cases hattempt

/-- One retryable failure before an exact count makes an exact count. -/
theorem AttemptsExactly.cons {retryable : Thrown → Except Thrown Bool} {limit : Int}
    {retries : Nat} {log : List (PhaseCall β)} {out : Prog.Outcome Thrown (PhaseResult β)}
    {err : Thrown} (hretry : retryable err = .ok true)
    (hexact : AttemptsExactly retryable limit retries log out) :
    AttemptsExactly retryable limit (retries + 1) (failure err ++ log) out := by
  have hcons : ∀ errs : List Thrown, (∀ err ∈ errs, retryable err = .ok true) →
      ∀ err' ∈ err :: errs, retryable err' = .ok true := by
    intro errs hall err' hmem
    rcases List.mem_cons.mp hmem with rfl | hmem
    · exact hretry
    · exact hall err' hmem
  cases hexact with
  | succeeds errs value hall hcount =>
      rw [← List.append_assoc]
      exact .succeeds (err :: errs) value (hcons errs hall) (Nat.succ_le_succ hcount)
  | exhausts errs hall hcount =>
      exact .exhausts (err :: errs) (hcons errs hall) (congrArg (· + 1) hcount)
  | stops errs err' hall hcount hnot =>
      rw [← List.append_assoc]
      exact .stops (err :: errs) err' (hcons errs hall) (Nat.succ_le_succ hcount) hnot
  | hook errs err' last hall hcount hlast =>
      rw [← List.append_assoc]
      exact .hook (err :: errs) err' last (hcons errs hall) (Nat.succ_le_succ hcount) hlast

/-- After a first failure that is retried, the failures go on from where it left. -/
theorem afterFailures_succ {retryable : Thrown → Except Thrown Bool} {s s₁ : σ} {err : Thrown}
    (hattempt : attemptOnce h s = (.failed err, s₁)) (hretry : retryable err = .ok true) (n : Nat) :
    afterFailures h retryable (n + 1) s = afterFailures h retryable n s₁ := by
  rw [afterFailures, hattempt]
  exact if_pos hretry

/-- **With room under the cap the attempts are exact**, as long as no test throws: there is a turn
for every retry that the limit leaves and one more, or the failures end before the cap. -/
theorem runFrom_exact (name : String) (skipCount : Nat) {retries : Nat}
    (log : List (PhaseCall β)) (cap attempt : Nat) (s : σ)
    (hleft : (attempt : Int) + retries = config.limit + 1)
    (hroom : retries < cap ∨ afterFailures h (isRetryable config) cap s = none)
    (htests : ∀ n, n ≤ retries → n < cap → ¬ TestThrows h (isRetryable config) s n) :
    ∃ calls, (runFrom config name skipCount h cap attempt s log).2.2 = log ++ calls ∧
      AttemptsExactly (isRetryable config) config.limit retries calls
        (runFrom config name skipCount h cap attempt s log).1 := by
  induction cap generalizing attempt retries s log with
  | zero =>
      rcases hroom with hroom | hroom
      · exact absurd hroom (Nat.not_lt_zero _)
      · exact absurd hroom (Option.some_ne_none s)
  | succ cap ih =>
      rw [runFrom_succ]
      rcases hattempt : attemptOnce h s with ⟨⟨err, last⟩ | value | err, s'⟩
      · exact ⟨last, rfl, .hook [] err last nofun (Nat.zero_le _)
          (hookThrows_of_attemptOnce hattempt)⟩
      · exact ⟨success value, rfl, .succeeds [] value nofun (Nat.zero_le _)⟩
      dsimp only [runAfter]
      cases hretry : isRetryable config err with
      | error testErr =>
          exact absurd ⟨s, err, s', testErr, rfl, hattempt, hretry⟩
            (htests 0 (Nat.zero_le _) (Nat.succ_pos _))
      | ok answer =>
          cases answer with
          | false =>
              exact ⟨failure err, rfl, .stops [] err nofun (Nat.zero_le _) hretry⟩
          | true =>
              by_cases hlimit : (attempt : Int) ≤ config.limit
              · simp only [if_pos hlimit]
                obtain ⟨left, rfl⟩ : ∃ left, retries = left + 1 :=
                  Nat.exists_eq_add_one_of_ne_zero (by omega)
                have hroom' : left < cap ∨ afterFailures h (isRetryable config) cap s' = none := by
                  rcases hroom with hroom | hroom
                  · exact Or.inl (by omega)
                  · rw [afterFailures_succ hattempt hretry] at hroom
                    exact Or.inr hroom
                have htests' : ∀ n, n ≤ left → n < cap →
                    ¬ TestThrows h (isRetryable config) s' n := by
                  intro n hn hcap hthrows
                  obtain ⟨s₁, err', s₂, testErr, hafter, hfails, htest⟩ := hthrows
                  refine htests (n + 1) (by omega) (by omega)
                    ⟨s₁, err', s₂, testErr, ?_, hfails, htest⟩
                  rw [afterFailures_succ hattempt hretry, hafter]
                obtain ⟨calls, hlog, hexact⟩ :=
                  ih (log ++ failure err) (attempt + 1) s' (by omega) hroom' htests'
                refine ⟨failure err ++ calls, ?_, hexact.cons hretry⟩
                rw [hlog, List.append_assoc]
              · simp only [if_neg hlimit]
                obtain rfl : retries = 0 := by omega
                have hall : ∀ err' ∈ [err], isRetryable config err' = .ok true := by
                  intro err' hmem
                  rw [List.mem_singleton.mp hmem]
                  exact hretry
                exact ⟨failure err, rfl, .exhausts [err] hall rfl⟩

/-- **The run of the first failures**: as many attempts as are retried leave the rest of the cap. -/
theorem runFrom_of_afterFailures (name : String) (skipCount : Nat) (log : List (PhaseCall β))
    (n cap attempt : Nat) (s s' : σ) (hleft : (attempt : Int) + n ≤ config.limit + 1)
    (hfailed : afterFailures h (isRetryable config) n s = some s') :
    ∃ errs : List Thrown, errs.length = n ∧ (∀ err ∈ errs, isRetryable config err = .ok true) ∧
      runFrom config name skipCount h (n + cap) attempt s log =
        runFrom config name skipCount h cap (attempt + n) s' (log ++ failedCalls errs) := by
  induction n generalizing attempt s log with
  | zero =>
      obtain rfl := Option.some.inj hfailed
      refine ⟨[], rfl, nofun, ?_⟩
      rw [failedCalls, List.flatMap_nil, List.append_nil, Nat.zero_add, Nat.add_zero]
  | succ n ih =>
      rcases hattempt : attemptOnce h s with ⟨⟨err, last⟩ | value | err, s₁⟩
      · rw [afterFailures, hattempt] at hfailed
        cases hfailed
      · rw [afterFailures, hattempt] at hfailed
        cases hfailed
      by_cases hretry : isRetryable config err = .ok true
      · rw [afterFailures_succ hattempt hretry] at hfailed
        obtain ⟨errs, hlength, hall, hrest⟩ :=
          ih (log ++ failure err) (attempt + 1) s₁ (by omega) hfailed
        have hlimit : (attempt : Int) ≤ config.limit := by omega
        refine ⟨err :: errs, congrArg (· + 1) hlength, ?_, ?_⟩
        · intro err' hmem
          rcases List.mem_cons.mp hmem with rfl | hmem
          · exact hretry
          · exact hall err' hmem
        · rw [Nat.add_right_comm, runFrom_succ, hattempt]
          simp only [runAfter, hretry, if_pos hlimit]
          rw [hrest, List.append_assoc, Nat.add_right_comm, Nat.add_assoc]
          rfl
      · rw [afterFailures, hattempt] at hfailed
        simp only [if_neg hretry] at hfailed
        cases hfailed

/-! ### Telling the logs apart -/

/-- The error that a listener call threw. -/
def thrownByHook : PhaseCall β → Option Thrown
  | ⟨.hook _, .error err⟩ => some err
  | _ => none

/-- The error that the operation threw. -/
def thrownByOperation : PhaseCall β → Option Thrown
  | ⟨.call, .error err⟩ => some err
  | _ => none

/-- Failed calls hold no error of a hook. -/
theorem thrownByHook_failedCalls (errs : List Thrown) :
    (failedCalls (β := β) errs).filterMap thrownByHook = [] := by
  induction errs with
  | nil => rfl
  | cons err errs ih =>
      rw [failedCalls, List.flatMap_cons, List.filterMap_append]
      exact ih

/-- Failed calls hold the errors of the operation. -/
theorem thrownByOperation_failedCalls (errs : List Thrown) :
    (failedCalls (β := β) errs).filterMap thrownByOperation = errs := by
  induction errs with
  | nil => rfl
  | cons err errs ih =>
      rw [failedCalls, List.flatMap_cons, List.filterMap_append]
      exact congrArg (err :: ·) ih

/-- Where a hook throws, its error is the only one of a hook. -/
theorem HookThrows.thrownByHook_eq {err : Thrown} {log : List (PhaseCall β)}
    (hthrows : HookThrows err log) : log.filterMap thrownByHook = [err] := by
  cases hthrows <;> rfl

/-- Retryable failures alone are exact only where the limit was exceeded. -/
theorem AttemptsExactly.of_failedCalls {retryable : Thrown → Except Thrown Bool} {limit : Int}
    {retries : Nat} {errs : List Thrown} {err : Thrown}
    (hall : ∀ err ∈ errs, retryable err = .ok true)
    (hexact : AttemptsExactly (β := β) retryable limit retries (failedCalls errs) (.threw err)) :
    err = .RetryLimitExceededError limit := by
  generalize hlog : failedCalls (β := β) errs = log at hexact
  generalize hout : (.threw err : Prog.Outcome Thrown (PhaseResult β)) = out at hexact
  cases hexact with
  | succeeds errs' value hall' hcount => cases hout
  | exhausts errs' hall' hcount =>
      cases hout
      rfl
  | stops errs' err' hall' hcount hnot =>
      have herrs : errs = errs' ++ [err'] := by
        have h := congrArg (List.filterMap thrownByOperation) hlog
        rw [List.filterMap_append, thrownByOperation_failedCalls,
          thrownByOperation_failedCalls] at h
        exact h
      have hmem : err' ∈ errs := by
        rw [herrs]
        exact List.mem_append_right _ (List.mem_singleton_self err')
      rw [hall err' hmem] at hnot
      cases hnot
  | hook errs' err' last hall' hcount hlast =>
      have h := congrArg (List.filterMap thrownByHook) hlog
      rw [List.filterMap_append, thrownByHook_failedCalls, thrownByHook_failedCalls,
        hlast.thrownByHook_eq] at h
      cases h

/-- A failure behind retryable ones is exact only if the policy answers for its error. -/
theorem AttemptsExactly.of_failure {retryable : Thrown → Except Thrown Bool} {limit : Int}
    {retries : Nat} {errs : List Thrown} {err : Thrown} {out : Prog.Outcome Thrown (PhaseResult β)}
    (hexact : AttemptsExactly (β := β) retryable limit retries (failedCalls errs ++ failure err)
      out) : ∃ answer, retryable err = .ok answer := by
  have hthrown : (failedCalls (β := β) errs ++ failure err).filterMap thrownByOperation =
      errs ++ [err] := by
    rw [List.filterMap_append, thrownByOperation_failedCalls]
    rfl
  generalize hlog : failedCalls (β := β) errs ++ failure err = log at hexact hthrown
  cases hexact with
  | succeeds errs' value hall hcount =>
      rw [List.filterMap_append, thrownByOperation_failedCalls] at hthrown
      have herrs : errs' = errs ++ [err] := (List.append_nil _).symm.trans hthrown
      exact ⟨true, hall err (herrs ▸ List.mem_append_right _ (List.mem_singleton_self err))⟩
  | exhausts errs' hall hcount =>
      rw [thrownByOperation_failedCalls] at hthrown
      exact ⟨true, hall err (hthrown ▸ List.mem_append_right _ (List.mem_singleton_self err))⟩
  | stops errs' err' hall hcount hnot =>
      rw [List.filterMap_append, thrownByOperation_failedCalls] at hthrown
      obtain ⟨-, heq⟩ := List.append_inj' hthrown rfl
      cases heq
      exact ⟨false, hnot⟩
  | hook errs' err' last hall hcount hlast =>
      have h := congrArg (List.filterMap thrownByHook) hlog
      rw [List.filterMap_append, List.filterMap_append, thrownByHook_failedCalls,
        thrownByHook_failedCalls, hlast.thrownByHook_eq] at h
      cases h

/-- **When the attempts are exact**, for every operation and every hook: the limit is smaller than
the cap of the loop or the first 999 attempts do not all fail, and no attempt within limit and cap
fails with an error for which a test of the policy throws. -/
theorem attempts_exact_iff (config : RetryPolicyConfig) (hlimit : 1 ≤ config.limit) (name : String)
    (skipCount : Nat) (h : Prog.Handler (PhaseOp β) PhaseOp.Resp σ) (s : σ) :
    (∀ {α : Type} (op : Code α β) (hooks : PhaseHooks α β), runPhase (retrying config) op hooks =
      Scoped.lift ((attempts (retrying config) hooks.name skipCount).interpret
        (hooks.perform op))) ∧
    (AttemptsExactly (isRetryable config) config.limit config.limit.toNat
        ((attempts (retrying config) name skipCount).run h.traced (s, [])).2.2
        ((attempts (retrying config) name skipCount).run h.traced (s, [])).1 ↔
      (config.limit < 999 ∨ afterFailures h (isRetryable config) 999 s = none) ∧
      ∀ n : Nat, (n : Int) ≤ config.limit → n < 999 → ¬ TestThrows h (isRetryable config) s n) := by
  refine ⟨?_, ?_⟩
  · intro α op hooks
    exact runPhaseFrom_eq_attemptsFrom (retrying config) op hooks rfl skipCount 999 1
  · rw [run_attempts]
    constructor
    · intro hexact
      refine ⟨?_, ?_⟩
      · by_contra hbad
        obtain ⟨hge, hsome⟩ := not_or.mp hbad
        obtain ⟨s', hfailed⟩ := Option.ne_none_iff_exists'.mp hsome
        obtain ⟨errs, hlength, hall, hrun⟩ :=
          runFrom_of_afterFailures name skipCount [] 999 0 1 s s' (by omega) hfailed
        rw [hrun] at hexact
        cases AttemptsExactly.of_failedCalls hall hexact
      · intro n hn hcap hthrows
        obtain ⟨s₁, err, s₂, testErr, hafter, hfails, htest⟩ := hthrows
        obtain ⟨left, hleft⟩ : ∃ left, 999 = n + (left + 1) := ⟨998 - n, by omega⟩
        obtain ⟨errs, hlength, hall, hrun⟩ :=
          runFrom_of_afterFailures name skipCount [] n (left + 1) 1 s s₁ (by omega) hafter
        rw [hleft, hrun, runFrom_succ, hfails] at hexact
        simp only [runAfter, htest, List.nil_append] at hexact
        obtain ⟨answer, hanswer⟩ := hexact.of_failure
        rw [htest] at hanswer
        cases hanswer
    · intro hcase
      obtain ⟨hroom, htests⟩ := hcase
      have hroom' : config.limit.toNat < 999 ∨
          afterFailures h (isRetryable config) 999 s = none := by
        rcases hroom with hroom | hroom
        · exact Or.inl (by omega)
        · exact Or.inr hroom
      obtain ⟨calls, hlog, hexact⟩ :=
        runFrom_exact name skipCount [] 999 1 s (by omega) hroom'
          fun n hn hcap => htests n (by omega) hcap
      rw [hlog]
      exact hexact

end Attempts

/-- A retry policy that lists `Error`. -/
def retryErrors (limit : Int) : RetryPolicyConfig where
  limit := limit
  retryable :=
    [{ length := 1, prototypeInstanceofError := false, hasInstance := fun _ => some true,
       call := fun _ => some true }]

/-- It takes every error, and no test of it throws. -/
theorem isRetryable_retryErrors (limit : Int) (err : Thrown) :
    isRetryable (retryErrors limit) err = .ok true := rfl

/-- A list of error names never throws when it is asked. -/
theorem testThrows_retryErrors (limit : Int) (h : Prog.Handler (PhaseOp β) PhaseOp.Resp σ) (s : σ)
    (n : Nat) : ¬ TestThrows h (isRetryable (retryErrors limit)) s n := by
  intro hcase
  obtain ⟨s₁, err, s₂, testErr, -, -, htest⟩ := hcase
  rw [isRetryable_retryErrors] at htest
  cases htest

/-- An operation that fails on its first `m` calls, and hooks that do nothing. -/
def flaky (m : Nat) : Prog.Handler (PhaseOp Unit) PhaseOp.Resp Nat
  | .hook _, n => (.ok (), n)
  | .call, n => if n < m then (.error (.error "transient"), n + 1) else (.ok (), n + 1)

/-- The flaky operation is attempted four times, as the limit of three says. -/
theorem flaky_attempts_exact :
    (1 : Int) ≤ (retryErrors 3).limit ∧
    AttemptsExactly (isRetryable (retryErrors 3)) 3 3
      ((attempts (retrying (retryErrors 3)) "read" 0).run (flaky 2).traced (0, [])).2.2
      ((attempts (retrying (retryErrors 3)) "read" 0).run (flaky 2).traced (0, [])).1 :=
  ⟨by decide,
    (attempts_exact_iff (retryErrors 3) (by decide) "read" 0 (flaky 2) 0).2.mpr
      ⟨Or.inl (by decide), fun n _ _ => testThrows_retryErrors 3 (flaky 2) 0 n⟩⟩

/-- After some failures the flaky operation is as many calls on. -/
theorem afterFailures_flaky (limit : Int) {m : Nat} (n s : Nat) (hle : s + n ≤ m) :
    afterFailures (flaky m) (isRetryable (retryErrors limit)) n s = some (s + n) := by
  induction n generalizing s with
  | zero => rfl
  | succ n ih =>
      have hlt : s < m := by omega
      have hstep : afterFailures (flaky m) (isRetryable (retryErrors limit)) (n + 1) s =
          afterFailures (flaky m) (isRetryable (retryErrors limit)) n (s + 1) := by
        have hattempt : attemptOnce (flaky m) s = (.failed (.error "transient"), s + 1) := by
          simp only [attemptOnce, flaky, if_pos hlt]
        exact afterFailures_succ hattempt (isRetryable_retryErrors _ _) n
      rw [hstep, ih (s + 1) (by omega)]
      congr 1
      omega

/-- **A retry policy with a limit of 999 allows 998 retries**: an operation that fails on its first
999 calls is given up with an error of the loop, though one retry is left. -/
theorem last_retry_lost :
    ∃ errs : List Thrown, errs.length = 999 ∧
      (attempts (retrying (retryErrors 999)) "read" 0).run (flaky 999).traced (0, []) =
        (.threw (.error
          "ChunkStepExecutor: phase \"read\" exhausted attempts without a retry policy"),
          999, failedCalls errs) ∧
      ¬ AttemptsExactly (isRetryable (retryErrors 999)) 999 999
        ((attempts (retrying (retryErrors 999)) "read" 0).run (flaky 999).traced (0, [])).2.2
        ((attempts (retrying (retryErrors 999)) "read" 0).run (flaky 999).traced (0, [])).1 := by
  have hfailed := afterFailures_flaky 999 999 0 (Nat.le_refl (0 + 999))
  obtain ⟨errs, hlength, hall, hrun⟩ :=
    runFrom_of_afterFailures "read" 0 [] 999 0 1 0 _ (by decide) hfailed
  rw [Nat.zero_add, List.nil_append] at hrun
  rw [run_attempts, hrun]
  refine ⟨errs, hlength, rfl, ?_⟩
  intro hexact
  cases AttemptsExactly.of_failedCalls hall hexact

/-- A retry policy that lists `() => true`, an arrow function without parameters. -/
def retryArrow (limit : Int) : RetryPolicyConfig where
  limit := limit
  retryable :=
    [{ length := 0, prototypeInstanceofError := false, hasInstance := fun _ => none,
       call := fun _ => some true }]

/-- The test of it ends the first failure: neither retried nor re-thrown. -/
example : ((attempts (retrying (retryArrow 3)) "read" 0).run (flaky 2).traced (0, [])).1 =
    .threw noPrototype := rfl

end ChunkStepExecutor

end NestBatch
