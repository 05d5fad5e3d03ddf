import NestBatch.Execution.StepLoopWalk
import NestBatch.Execution.ListEnvironment
import NestBatch.Lib.Ranked

/-!
# Routing by the status of a step

An `after:step` listener may change the status of a step, and the flow is meant
to go on as after a step of the new status.  The step loop asks the exit code
first, which the listener leaves as the executor set it, and goes on in
declaration order after every status but FAILED.
-/

namespace NestBatch

open JobExecutor.Run

namespace JobDefinition

variable (jobDef : JobDefinition)

/-- Where the flow is meant to go after a step of this status when no transition matches. -/
def unmatchedRoute (stepId : String) : StepStatus → Next
  | .COMPLETED => .ofTarget (linearNext jobDef stepId)
  | .FAILED => .fail
  | _ => .finish

/-- Where the flow is meant to go after a step of this status. -/
def statusRoute (stepId : String) (status : StepStatus) : Except Thrown Next := do
  let target ← FlowEvaluator.evaluate jobDef.transitions stepId (flowStatus status).value
  if hasMatchingTransition jobDef stepId (flowStatus status).value then pure (.ofTarget target)
  else pure (jobDef.unmatchedRoute stepId status)

/-- The step loop goes where the status of the result leads. -/
def RoutesByStatus (stepId : String) (decider : Option String) (result : StepResult) : Prop :=
  nextStep jobDef stepId decider result = jobDef.statusRoute stepId result.status

/-- What is asked before the status leads nowhere else, and the declaration order does not lead on
after a status that is neither COMPLETED nor FAILED. -/
structure StatusDecides (stepId : String) (decider : Option String) (result : StepResult) :
    Prop where
  first : flowExitStatus decider result ≠ (flowStatus result.status).value →
    hasMatchingTransition jobDef stepId (flowExitStatus decider result) = true →
    (FlowEvaluator.evaluate jobDef.transitions stepId (flowExitStatus decider result)).map
      Next.ofTarget = jobDef.statusRoute stepId result.status
  last : result.status ≠ .COMPLETED → result.status ≠ .FAILED →
    hasMatchingTransition jobDef stepId (flowExitStatus decider result) = false →
    hasMatchingTransition jobDef stepId FlowExecutionStatus.UNKNOWN.value = false →
    linearNext jobDef stepId = none

variable {jobDef} {stepId : String} {decider : Option String} {result : StepResult}
  {status : StepStatus}

/-- Nothing is followed where nothing matches. -/
theorem evaluate_of_not_matching {asked : String}
    (h : hasMatchingTransition jobDef stepId asked = false) :
    FlowEvaluator.evaluate jobDef.transitions stepId asked = .ok none := by
  have hnone : (jobDef.transitions.filter fun t => FlowEvaluator.isMatch t stepId asked) = [] := by
    apply List.filter_eq_nil_iff.mpr
    intro t ht
    exact List.any_eq_false.mp h t ht
  unfold FlowEvaluator.evaluate
  rw [hnone]
  rfl

/-! ### The meant route -/

/-- With a matching transition the evaluator chooses the way. -/
theorem statusRoute_of_matching
    (h : hasMatchingTransition jobDef stepId (flowStatus status).value = true) :
    jobDef.statusRoute stepId status =
      (FlowEvaluator.evaluate jobDef.transitions stepId (flowStatus status).value).map
        Next.ofTarget := by
  unfold statusRoute
  cases FlowEvaluator.evaluate jobDef.transitions stepId (flowStatus status).value with
  | error err => rfl
  | ok target =>
      simp only [bind, Except.bind, if_pos h]
      rfl

/-- Without a matching transition the status alone chooses the way. -/
theorem statusRoute_of_not_matching
    (h : hasMatchingTransition jobDef stepId (flowStatus status).value = false) :
    jobDef.statusRoute stepId status = .ok (jobDef.unmatchedRoute stepId status) := by
  unfold statusRoute
  rw [evaluate_of_not_matching h, h]
  rfl

/-! ### The route of the step loop -/

/-- Something matches what is asked first. -/
theorem nextStep_of_first
    (h : hasMatchingTransition jobDef stepId (flowExitStatus decider result) = true) :
    nextStep jobDef stepId decider result =
      (FlowEvaluator.evaluate jobDef.transitions stepId (flowExitStatus decider result)).map
        Next.ofTarget := by
  unfold nextStep transitionTarget
  cases FlowEvaluator.evaluate jobDef.transitions stepId (flowExitStatus decider result) with
  | error err => rfl
  | ok target =>
      simp only [bind, Except.bind, if_pos h]
      rfl

/-- Only the status matches. -/
theorem nextStep_of_status
    (hfirst : hasMatchingTransition jobDef stepId (flowExitStatus decider result) = false)
    (h : hasMatchingTransition jobDef stepId (flowStatus result.status).value = true) :
    nextStep jobDef stepId decider result =
      (FlowEvaluator.evaluate jobDef.transitions stepId (flowStatus result.status).value).map
        Next.ofTarget := by
  have hne : flowExitStatus decider result ≠ (flowStatus result.status).value := by
    intro heq
    rw [heq, h] at hfirst
    cases hfirst
  unfold nextStep transitionTarget
  rw [evaluate_of_not_matching hfirst]
  simp only [bind, Except.bind, hfirst, Bool.false_eq_true, if_false, if_pos hne]
  cases FlowEvaluator.evaluate jobDef.transitions stepId (flowStatus result.status).value with
  | error err => rfl
  | ok target =>
      simp only [if_pos h]
      rfl

/-- Nothing matches. -/
theorem nextStep_of_none
    (hfirst : hasMatchingTransition jobDef stepId (flowExitStatus decider result) = false)
    (h : hasMatchingTransition jobDef stepId (flowStatus result.status).value = false) :
    nextStep jobDef stepId decider result =
      .ok (if result.status = .FAILED then .fail else .ofTarget (linearNext jobDef stepId)) := by
  unfold nextStep transitionTarget
  rw [evaluate_of_not_matching hfirst, evaluate_of_not_matching h]
  simp only [bind, Except.bind, hfirst, h, Bool.false_eq_true, if_false, ite_self]
  by_cases hfailed : result.status = .FAILED
  · simp [pure, Except.pure, hfailed]
  · simp [pure, Except.pure, hfailed]

theorem flowStatus_of_other (hcompleted : status ≠ .COMPLETED) (hfailed : status ≠ .FAILED) :
    flowStatus status = .UNKNOWN := by
  cases status with
  | COMPLETED => exact absurd rfl hcompleted
  | FAILED => exact absurd rfl hfailed
  | STARTING | STARTED | STOPPED | UNKNOWN => rfl

theorem unmatchedRoute_of_other (hcompleted : status ≠ .COMPLETED) (hfailed : status ≠ .FAILED) :
    jobDef.unmatchedRoute stepId status = .finish := by
  cases status with
  | COMPLETED => exact absurd rfl hcompleted
  | FAILED => exact absurd rfl hfailed
  | STARTING | STARTED | STOPPED | UNKNOWN => rfl

/-- A way ends the job exactly when it has no target. -/
theorem ofTarget_eq_finish_iff {target : Option String} :
    Next.ofTarget target = .finish ↔ target = none := by
  cases target with
  | none => exact ⟨fun _ => rfl, fun _ => rfl⟩
  | some target => exact ⟨nofun, nofun⟩

/-- Where nothing matches, the two routes differ after a status that is neither COMPLETED nor
FAILED, unless no step comes next. -/
theorem routesByStatus_of_none
    (hfirst : hasMatchingTransition jobDef stepId (flowExitStatus decider result) = false)
    (hstatus : hasMatchingTransition jobDef stepId (flowStatus result.status).value = false) :
    jobDef.RoutesByStatus stepId decider result ↔
      (result.status ≠ .COMPLETED → result.status ≠ .FAILED → linearNext jobDef stepId = none) := by
  unfold RoutesByStatus
  rw [nextStep_of_none hfirst hstatus, statusRoute_of_not_matching hstatus]
  rw [Except.ok.injEq]
  by_cases hcompleted : result.status = .COMPLETED
  · rw [hcompleted, if_neg (by decide)]
    exact ⟨fun _ h => absurd rfl h, fun _ => rfl⟩
  · by_cases hfailed : result.status = .FAILED
    · rw [hfailed, if_pos rfl]
      exact ⟨fun _ _ h => absurd rfl h, fun _ => rfl⟩
    · rw [if_neg hfailed, unmatchedRoute_of_other hcompleted hfailed, ofTarget_eq_finish_iff]
      exact ⟨fun h _ _ => h, fun h => h hcompleted hfailed⟩

/-- The condition is enough. -/
theorem routesByStatus_of_decides (h : jobDef.StatusDecides stepId decider result) :
    jobDef.RoutesByStatus stepId decider result := by
  by_cases hfirst : hasMatchingTransition jobDef stepId (flowExitStatus decider result) = true
  · unfold RoutesByStatus
    rw [nextStep_of_first hfirst]
    by_cases heq : flowExitStatus decider result = (flowStatus result.status).value
    · rw [heq] at hfirst ⊢
      exact (statusRoute_of_matching hfirst).symm
    · exact h.first heq hfirst
  · rw [Bool.not_eq_true] at hfirst
    by_cases hstatus : hasMatchingTransition jobDef stepId (flowStatus result.status).value = true
    · exact (nextStep_of_status hfirst hstatus).trans (statusRoute_of_matching hstatus).symm
    · rw [Bool.not_eq_true] at hstatus
      apply (routesByStatus_of_none hfirst hstatus).mpr
      intro hcompleted hfailed
      rw [flowStatus_of_other hcompleted hfailed] at hstatus
      exact h.last hcompleted hfailed hfirst hstatus

/-- The condition is needed. -/
theorem decides_of_routesByStatus (h : jobDef.RoutesByStatus stepId decider result) :
    jobDef.StatusDecides stepId decider result := by
  constructor
  · intro _ hfirst
    rw [← nextStep_of_first hfirst]
    exact h
  · intro hcompleted hfailed hfirst hstatus
    rw [← flowStatus_of_other hcompleted hfailed] at hstatus
    exact (routesByStatus_of_none hfirst hstatus).mp h hcompleted hfailed

/-- **When routing sees the status that listeners leave**: what is asked before it leads nowhere
else, and after a status that is neither COMPLETED nor FAILED no step comes next. -/
theorem routes_by_status_iff (jobDef : JobDefinition) (stepId : String) (decider : Option String)
    (result : StepResult) :
    jobDef.RoutesByStatus stepId decider result ↔ jobDef.StatusDecides stepId decider result :=
  ⟨decides_of_routesByStatus, routesByStatus_of_decides⟩

/-! ### What the meant route is -/

/-- What is followed where something matches is the target of a transition that does. -/
theorem exists_transition_of_evaluate {asked : String} {target : Option String}
    (hmatch : hasMatchingTransition jobDef stepId asked = true)
    (h : FlowEvaluator.evaluate jobDef.transitions stepId asked = .ok target) :
    ∃ t ∈ jobDef.transitions, FlowEvaluator.isMatch t stepId asked = true ∧
      t.toStepId = target := by
  obtain ⟨t, ht, hasked⟩ := List.any_eq_true.mp hmatch
  have hne : (jobDef.transitions.filter fun t => FlowEvaluator.isMatch t stepId asked) ≠ [] :=
    List.ne_nil_of_mem (List.mem_filter.mpr ⟨ht, hasked⟩)
  let score (t : TransitionDefinition) : Nat := patternSpecificity t.onStatus
  obtain ⟨best, hbest, hmax⟩ := @Ranked.exists_maxScore _ score _ hne
  unfold FlowEvaluator.evaluate at h
  dsimp only at h
  split at h
  · next hnil =>
      exact absurd (decide_eq_true hmax) (List.filter_eq_nil_iff.mp hnil best hbest)
  · next t hone =>
      have hmem : t ∈ [t] := List.mem_singleton_self t
      rw [← hone] at hmem
      obtain ⟨hin, hasked⟩ := List.mem_filter.mp (List.mem_of_mem_filter hmem)
      exact ⟨t, hin, hasked, Except.ok.inj h⟩
  · cases h

/-- The meant route follows a transition that matches the status, or is the one where nothing
matches. -/
theorem statusRoute_cases {next : Next} (h : jobDef.statusRoute stepId status = .ok next) :
    next = jobDef.unmatchedRoute stepId status ∨
      ∃ t ∈ jobDef.transitions,
        FlowEvaluator.isMatch t stepId (flowStatus status).value = true ∧
        next = .ofTarget t.toStepId := by
  by_cases hmatch : hasMatchingTransition jobDef stepId (flowStatus status).value = true
  · right
    rw [statusRoute_of_matching hmatch] at h
    cases hevaluate :
      FlowEvaluator.evaluate jobDef.transitions stepId (flowStatus status).value with
    | error err =>
        rw [hevaluate] at h
        cases h
    | ok target =>
        rw [hevaluate] at h
        cases h
        obtain ⟨t, ht, hasked, hto⟩ := exists_transition_of_evaluate hmatch hevaluate
        exact ⟨t, ht, hasked, congrArg Next.ofTarget hto.symm⟩
  · left
    rw [Bool.not_eq_true] at hmatch
    rw [statusRoute_of_not_matching hmatch] at h
    exact (Except.ok.inj h).symm

/-- After FAILED the flow goes where a transition that matches FAILED leads, or the job fails. -/
theorem statusRoute_failed {next : Next} (h : jobDef.statusRoute stepId .FAILED = .ok next) :
    next = .fail ∨ ∃ t ∈ jobDef.transitions, FlowEvaluator.isMatch t stepId "FAILED" = true ∧
      next = .ofTarget t.toStepId :=
  statusRoute_cases h

/-- After a status that is neither COMPLETED nor FAILED no step follows, unless a transition
matches UNKNOWN. -/
theorem statusRoute_other {next : Next} (hcompleted : status ≠ .COMPLETED)
    (hfailed : status ≠ .FAILED) (h : jobDef.statusRoute stepId status = .ok next) :
    next = .finish ∨ ∃ t ∈ jobDef.transitions, FlowEvaluator.isMatch t stepId "UNKNOWN" = true ∧
      next = .ofTarget t.toStepId := by
  have hcases := statusRoute_cases h
  rw [unmatchedRoute_of_other hcompleted hfailed, flowStatus_of_other hcompleted hfailed] at hcases
  exact hcases

/-! ### Whole runs -/

/-- The steps executed from `stepId` on, going by their statuses alone. -/
def stepsByStatus (outcomes : Nat → StepOutcome) : Nat → Nat → String → Option (List String)
  | 0, _, _ => none
  | fuel + 1, i, stepId =>
      match jobDef.step? stepId with
      | none => some []
      | some _ =>
          match jobDef.statusRoute stepId (outcomes i).result.status with
          | .ok (.goto next) => (stepsByStatus outcomes fuel (i + 1) next).map (stepId :: ·)
          | _ => some [stepId]

/-- **A run whose steps all meet the condition** executes the steps that their statuses lead to. -/
theorem stepsUnder_eq_stepsByStatus {outcomes : Nat → StepOutcome}
    (h : ∀ i stepId, jobDef.stepWalk.visits outcomes i = some stepId →
      jobDef.StatusDecides stepId (jobDef.deciderStatus stepId (outcomes i).answer)
        (outcomes i).result)
    (fuel i : Nat) (stepId : String)
    (hat : jobDef.stepWalk.visits outcomes i = jobDef.stepAt? stepId) :
    jobDef.stepsUnder outcomes fuel i stepId =
      @stepsByStatus jobDef outcomes fuel i stepId := by
  induction fuel generalizing i stepId with
  | zero => rfl
  | succ fuel ih =>
      unfold stepsUnder stepsByStatus
      cases hstep : jobDef.step? stepId with
      | none => rfl
      | some step =>
          have hsome : jobDef.stepWalk.visits outcomes i = some stepId := by
            rw [hat, stepAt?, hstep]
            rfl
          have hroute : jobDef.decision stepId (outcomes i) =
              jobDef.statusRoute stepId (outcomes i).result.status :=
            routesByStatus_of_decides (h i stepId hsome)
          have hmove : jobDef.stepWalk.visits outcomes (i + 1) =
              jobDef.stepWalk.move stepId (outcomes i) := by
            rw [Walk.visits, hsome]
            rfl
          dsimp only
          rw [← hroute]
          unfold stepWalk at hmove
          dsimp only at hmove
          cases hdecision : jobDef.decision stepId (outcomes i) with
          | error err => rfl
          | ok next =>
              rw [hdecision] at hmove
              cases next with
              | finish => rfl
              | fail => rfl
              | goto next =>
                  dsimp only
                  rw [ih (i + 1) next hmove]

end JobDefinition

/-! ### A status that is passed over -/

/-- The `after:step` listeners set the status and leave the exit code. -/
def overriding (status : StepStatus) : Environment Unit Nat :=
  { willing ([] : List Unit) with
    user := fun call pos ctx =>
      match call with
      | .afterStep _ _ result => ((.ok (), { result with status := status }), pos, [])
      | call => (willing []).user call pos ctx }

def loadTasklet : TaskletStepDefinition :=
  { id := "load", tasklet := { kind := .BuilderLambda, fn := some 1 } }

/-- A job that publishes what was loaded, with a listener on its steps. -/
def publishingJob (transitions : List TransitionDefinition) : JobDefinition where
  id := "nightly"
  steps :=
    (JsMap.empty.set "load" (.tasklet loadTasklet)).set "publish"
      (.tasklet { id := "publish", tasklet := { kind := .BuilderLambda, fn := some 2 } })
  startStepId := "load"
  transitions := transitions
  listeners := [{ kind := .step, phase := .after, ref := { kind := .BuilderLambda, fn := some 3 } }]
  restartable := true

def onCompleted : JobDefinition :=
  publishingJob [{ fromStepId := "load", onStatus := "COMPLETED", toStepId := some "publish" }]

def onFailed : JobDefinition :=
  publishingJob [{ fromStepId := "load", onStatus := "FAILED", toStepId := some "publish" }]

/-- What the first step of such a job comes to under the listener. -/
def overriddenResult (status : StepStatus) : StepResult :=
  { TaskletStepExecutor.result .COMPLETED "COMPLETED" "" with status := status }

/-- The execution of such a job. -/
def publishing (jobDef : JobDefinition) : JobExecutor.Run where
  execution :=
    { id := "e1", jobInstanceId := "i1", status := .STARTING, startTime := none, endTime := none
      exitCode := "", exitMessage := "", params := [] }
  jobDef := jobDef
  partition := {}

def firstStep : StepExecution :=
  { id := "s1", jobExecutionId := "e1", stepName := "load", status := .STARTED, readCount := 0
    writeCount := 0, skipCount := 0, rollbackCount := 0, commitCount := 0, startTime := none
    endTime := none, exitCode := "", exitMessage := "" }

/-- The result that the executor hands on. -/
def executed (jobDef : JobDefinition) (status : StepStatus) : Prog.Outcome Thrown StepResult :=
  ((TaskletStepExecutor.execute loadTasklet
      ((publishing jobDef).taskletContext firstStep loadTasklet) : Code Unit StepResult).run
    (handle (overriding status)) (World.initial (unaryIds 'a') (unaryIds 'b') 0)).1

/-- **An overridden status is passed over**: after FAILED the transition for COMPLETED is followed,
and after STOPPED the next step in order. -/
theorem overridden_status_ignored :
    (DefinitionValidator.validate onCompleted = .ok () ∧
      executed onCompleted .FAILED = .returned (overriddenResult .FAILED) ∧
      ¬ onCompleted.RoutesByStatus "load" none (overriddenResult .FAILED)) ∧
    DefinitionValidator.validate onFailed = .ok () ∧
      executed onFailed .STOPPED = .returned (overriddenResult .STOPPED) ∧
      ¬ onFailed.RoutesByStatus "load" none (overriddenResult .STOPPED) := by
  refine ⟨⟨rfl, rfl, ?_⟩, rfl, rfl, ?_⟩
  · intro h
    have hnext : nextStep onCompleted "load" none (overriddenResult .FAILED) =
        .ok (.goto "publish") := rfl
    have hroute : onCompleted.statusRoute "load" .FAILED = .ok .fail := rfl
    exact nomatch hnext.symm.trans (h.trans hroute)
  · intro h
    have hnext : nextStep onFailed "load" none (overriddenResult .STOPPED) =
        .ok (.goto "publish") := rfl
    have hroute : onFailed.statusRoute "load" .STOPPED = .ok .finish := rfl
    exact nomatch hnext.symm.trans (h.trans hroute)

end NestBatch
