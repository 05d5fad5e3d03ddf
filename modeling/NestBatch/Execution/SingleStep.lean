import NestBatch.Execution.CallLog
import NestBatch.Execution.JobExecutor
import NestBatch.Execution.StepFootprint

/-!
# Jobs of one chunk step

What the flow of a job does behind its step is decided by the exit status under which the step
is reported: the answer of a decider, or the exit code of its result, which an `after:step`
listener may have changed.  In a job of one step no transition catches a failure, under whatever
exit status it is reported, and every other step is the last.
-/

namespace NestBatch

open ListenerInvoker

variable {α υ : Type}

/-- A restartable job that is one chunk step: the flow ends after it, and a FAILED step fails the
job.  `reports` are the exit statuses under which a step may be reported, by its status. -/
structure JobDefinition.IsSingleStep (job : JobDefinition) (step : ChunkStepDefinition)
    (reports : StepStatus → String → Prop) : Prop where
  start : job.step? job.startStepId = some (.chunk step)
  completed : reports .COMPLETED "COMPLETED"
  failed : reports .FAILED "FAILED"
  ends : ∀ decider result, reports result.status (JobExecutor.Run.flowExitStatus decider result) →
    JobExecutor.Run.nextStep job job.startStepId decider result =
      .ok (if result.status = .FAILED then .fail else .finish)
  restartable : job.restartable = true

/-- A result is reported under its exit code, unless a decider answers. -/
def StepResult.ReportedUnder (reports : StepStatus → String → Prop) (result : StepResult) : Prop :=
  reports result.status (JobExecutor.Run.flowExitStatus none result)

/-- User code has steps reported under no other exit statuses: neither by an `after:step` listener
that changes a result nor by a decider. -/
structure Environment.Reports (env : Environment α υ) (reports : StepStatus → String → Prop) :
    Prop where
  afterStep : ∀ fn ctx (result : StepResult) user saved, result.ReportedUnder reports →
    (env.user (.afterStep fn ctx result) user saved).1.2.ReportedUnder reports
  decide : ∀ fn ctx user saved status, (env.user (.decide fn ctx) user saved).1 = .ok status →
    jsTrim status ≠ "" → reports ctx.stepStatus (jsTrim status)

/-- Any user code has steps reported somehow. -/
theorem Environment.reports_any (env : Environment α υ) : env.Reports fun _ _ => True where
  afterStep _ _ _ _ _ _ := trivial
  decide _ _ _ _ _ _ _ := trivial

namespace JobExecutor.Run

/-- An answer of a decider stands in for the exit code. -/
theorem reported_of_decider {reports : StepStatus → String → Prop} {decider : Option String}
    {result : StepResult} (hown : result.ReportedUnder reports)
    (hdecider : ∀ answer, decider = some answer → reports result.status answer) :
    reports result.status (flowExitStatus decider result) := by
  cases decider with
  | none => exact hown
  | some answer => exact hdecider answer rfl

/-- What a decider may answer, over the exit statuses of a step. -/
theorem wp_decider_reports {env : Environment α υ} {reports : StepStatus → String → Prop}
    (henv : env.Reports reports) (R : Run) (stepId : String) (ctx : DeciderContext)
    (s : World υ × Calls α) :
    (R.resolveDeciderExitStatus stepId ctx : Code α (Option String)).wp (worldLogic env)
      (fun out _ => ∀ answer, out = .ok (some answer) → reports ctx.stepStatus answer) s := by
  unfold resolveDeciderExitStatus
  split
  · exact fun _ h => by cases h
  · next decider _ =>
      refine Prog.wp_bind.mpr (ChunkStepExecutor.wp_orThrow.mpr
        (Prog.wp_perform.mpr ⟨trivial, ?_⟩))
      intro r s' ht
      obtain ⟨saved, hanswer, -⟩ := handleUser_env env (.decide decider.decide ctx) s.1
      have hr : r = (env.user (.decide decider.decide ctx) s.1.user saved).1 :=
        (congrArg Prod.fst ht).symm.trans hanswer
      cases hstatus : (r : Except Thrown String) with
      | error err => exact fun _ h => by cases h
      | ok status =>
          intro answer hanswered
          change Except.ok (if jsTrim status = "" then none else some (jsTrim status)) = _
            at hanswered
          split at hanswered
          · cases hanswered
          · next hblank =>
              cases hanswered
              exact henv.decide _ _ _ _ status (hr.symm.trans hstatus) hblank

/-- A job of one step ends after it when no transition catches the failure of the step and every
other transition it takes leads to END. -/
theorem isSingleStep_of_uncaught {job : JobDefinition} {step : ChunkStepDefinition}
    {reports : StepStatus → String → Prop} (hcompleted : reports .COMPLETED "COMPLETED")
    (hfailed : reports .FAILED "FAILED")
    (hsteps : job.steps.entries = [(job.startStepId, .chunk step)])
    (huncaught : ∀ exitStatus, reports .FAILED exitStatus →
      transitionTarget job job.startStepId exitStatus "FAILED" = .ok none)
    (hleaves : ∀ status exitStatus, status ≠ .FAILED → reports status exitStatus →
      transitionTarget job job.startStepId exitStatus (flowStatus status).value = .ok none ∨
      transitionTarget job job.startStepId exitStatus (flowStatus status).value = .ok (some none))
    (hrestartable : job.restartable = true) : job.IsSingleStep step reports where
  start := by
    apply JobDefinition.step?_of_get?
    rw [JsMap.get?_eq_some_iff, hsteps]
    exact List.mem_singleton.mpr rfl
  completed := hcompleted
  failed := hfailed
  ends decider result hreported := by
    have hlast : linearNext job job.startStepId = none := by
      simp [linearNext, JobDefinition.stepOrder, JsMap.keys, hsteps]
    unfold nextStep
    by_cases hstatus : result.status = .FAILED
    · rw [hstatus] at hreported
      rw [if_pos hstatus, hstatus]
      have htarget := huncaught _ hreported
      rw [show (flowStatus .FAILED).value = "FAILED" from rfl, htarget]
      rfl
    · rcases hleaves result.status _ hstatus hreported with htarget | htarget
      · rw [htarget, hlast]
        simp only [bind, Except.bind, pure, Except.pure, if_neg hstatus]
        rfl
      · rw [htarget]
        simp only [bind, Except.bind, pure, Except.pure, if_neg hstatus]
        rfl
  restartable := hrestartable

/-- Without transitions there is none that catches it. -/
theorem isSingleStep_of_linear {job : JobDefinition} {step : ChunkStepDefinition}
    {reports : StepStatus → String → Prop} (hcompleted : reports .COMPLETED "COMPLETED")
    (hfailed : reports .FAILED "FAILED")
    (hsteps : job.steps.entries = [(job.startStepId, .chunk step)])
    (htransitions : job.transitions = []) (hrestartable : job.restartable = true) :
    job.IsSingleStep step reports := by
  have hnone (exitStatus flow : String) :
      transitionTarget job job.startStepId exitStatus flow = .ok none := by
    simp [transitionTarget, hasMatchingTransition, htransitions, FlowEvaluator.evaluate,
      bind, Except.bind, pure, Except.pure]
  exact isSingleStep_of_uncaught hcompleted hfailed hsteps (fun _ _ => hnone _ _)
    (fun _ _ _ _ => .inl (hnone _ _)) hrestartable

end JobExecutor.Run

namespace ChunkStepExecutor

variable {env : Environment α υ} {reports : StepStatus → String → Prop}

/-- **A chunk step is reported** COMPLETED or FAILED, or as its `after:step` listeners have it. -/
theorem execute_reports (henv : env.Reports reports) (hcompleted : reports .COMPLETED "COMPLETED")
    (hfailed : reports .FAILED "FAILED") (fuel : Nat) (step : ChunkStepDefinition)
    (context : ChunkExecutionContext) (s : World υ × Calls α) :
    (execute fuel step context : Code α StepResult).wp (worldLogic env)
      (EndsWith fun result _ => result.ReportedUnder reports) s := by
  have hframe {K : List OpKind} (c : Prop) : (worldLogic (α := α) env).Frame (On K) fun _ => c :=
    ⟨fun _ _ _ _ => trivial, fun _ _ _ _ _ h _ => h, fun h => h.elim⟩
  refine wp_execute_result (J := fun _ => True) (fun _ => hframe _) ?_ (hframe True) (hframe True)
    ?_ ?_ trivial
  · intro fn ctx result s₁ r s₂ ht h
    obtain ⟨saved, hanswer, -⟩ := handleUser_env env (.afterStep fn ctx result) s₁.1
    have hr : r = (env.user (.afterStep fn ctx result) s₁.1.user saved).1 :=
      (congrArg Prod.fst ht).symm.trans hanswer
    rw [hr]
    exact henv.afterStep fn ctx result s₁.1.user saved h
  · exact fun _ _ _ => hfailed
  · intro policies partition S l s₁ _ _ _ _ _
    have hloop : (worldLogic (α := α) env).Frame (On loopKinds True) fun _ => True :=
      ⟨fun _ _ _ _ => trivial, fun _ _ _ _ _ h _ => h, fun _ => trivial⟩
    refine Scoped.wp_mono (Scoped.wp_of_keeps (S.stays_chunkLoop fuel) hloop trivial) ?_
    exact fun _ _ _ _ _ => hcompleted

end ChunkStepExecutor

end NestBatch
