import NestBatch.Execution.JobOutcome

/-!
# What a run is told from outside

The step loop decides on what the executors of its steps and its deciders report, and on nothing
else: a report for every step it comes to.  `LoopReports` says which reports a loop gets in a world,
and `endUnder` how it ends on them.  The `catch` block around the loop writes the final status,
unless it is reached by a value without a string form.
-/

namespace NestBatch

variable {α β υ : Type}

/-- A run ends in one way. -/
theorem ended_injective {ε β : Type} :
    Function.Injective (Prog.Outcome.ended : Except ε β → _) := by
  intro x y h
  cases x with
  | ok a =>
      cases y with
      | ok b =>
          cases h
          rfl
      | error e => cases h
  | error e =>
      cases y with
      | ok b => cases h
      | error e' =>
          cases h
          rfl

/-- What is reported of a step that the loop comes to: its executor throws, or it returns a result
and the deciders of the step answer or throw. -/
inductive TurnReport
  | threw (err : Thrown)
  | returned (result : StepResult) (answer : Except Thrown (Option String))

/-- What a step executor throws is thrown on, unless its text throws something else. -/
def Thrown.passedOn (err : Thrown) : Thrown :=
  match err.text with
  | .ok _ => err
  | .error thrown => thrown

/-- No error that is reported reaches the `catch` block without a string form. -/
def TurnReport.Speaks : TurnReport → Prop
  | .threw err => err.passedOn.HasText
  | .returned _ answer => ThrowsTexts answer

namespace JobDefinition

variable (jobDef : JobDefinition)

/-- What the step loop does on a report. -/
def turn (stepId : String) : TurnReport → Except Thrown JobExecutor.Run.Next
  | .threw err => .error err.passedOn
  | .returned _ (.error err) => .error err
  | .returned result (.ok decider) => JobExecutor.Run.nextStep jobDef stepId decider result

/-- How the step loop ends on the reports that it gets from `stepId` on.  Without a report there is
no such step. -/
def endUnder : String → List TurnReport → Except Thrown JobStatus
  | _, [] => .ok .FAILED
  | stepId, report :: rest =>
      match jobDef.turn stepId report with
      | .error err => .error err
      | .ok (.goto next) => endUnder next rest
      | .ok .finish => .ok .COMPLETED
      | .ok .fail => .ok .FAILED

/-- Where a path ends is where it ends after its first turn. -/
theorem endUnder_goto {stepId next : String} {report : TurnReport} {rest : List TurnReport}
    (h : jobDef.turn stepId report = .ok (.goto next)) :
    jobDef.endUnder stepId (report :: rest) = jobDef.endUnder next rest := by
  simp only [endUnder, h]

end JobDefinition

/-- A choice between transitions that fails says so. -/
theorem FlowEvaluator.evaluate_text (transitions : List TransitionDefinition)
    (stepId status : String) : ThrowsTexts (evaluate transitions stepId status) := by
  unfold evaluate
  dsimp only
  split
  · exact throwsTexts_ok _
  · exact throwsTexts_ok _
  · exact throwsTexts_error ⟨_, rfl⟩

/-- Choosing the next step throws errors with texts. -/
theorem JobExecutor.Run.nextStep_text (jobDef : JobDefinition) (stepId : String)
    (decider : Option String) (result : StepResult) :
    ThrowsTexts (nextStep jobDef stepId decider result) := by
  unfold nextStep
  refine ThrowsTexts.bind ?_ fun target => ?_
  · unfold transitionTarget
    refine (FlowEvaluator.evaluate_text _ _ _).bind fun target => ?_
    split
    · exact throwsTexts_ok _
    · split
      · refine (FlowEvaluator.evaluate_text _ _ _).bind fun target => ?_
        split
        · exact throwsTexts_ok _
        · exact throwsTexts_ok _
      · exact throwsTexts_ok _
  · cases target with
    | some target => exact throwsTexts_ok _
    | none =>
        dsimp only
        split
        · exact throwsTexts_ok _
        · exact throwsTexts_ok _

/-- The loop throws a value without a string form exactly when one is reported. -/
theorem JobDefinition.turn_text_iff (jobDef : JobDefinition) (stepId : String)
    (report : TurnReport) : ThrowsTexts (jobDef.turn stepId report) ↔ report.Speaks := by
  cases report with
  | threw err => exact ⟨fun h => h _ rfl, fun h => throwsTexts_error h⟩
  | returned result answer =>
      cases answer with
      | error err =>
          exact ⟨fun h => throwsTexts_error (h _ rfl), fun h => throwsTexts_error (h _ rfl)⟩
      | ok decider =>
          exact iff_of_true (JobExecutor.Run.nextStep_text _ _ _ _) (throwsTexts_ok _)

namespace JobExecutor.Run

variable (R : Run)

/-- What comes before a step is handed to its executor. -/
def opening (step : StepDefinition) : Code α (StepExecution × Option Int) := do
  let restartContext ← R.restartStepContext step
  let stepExecution ← createStepExecution R.execution.id step.id
  copyContext stepExecution restartContext
  let startedAt ← now
  emit { type := .STEP_STARTED, timestamp := startedAt, jobExecutionId := R.execution.id
         stepExecutionId := some stepExecution.id
         data := .obj [("stepId", .str step.id), ("kind", .str step.kind)] }
  .pure (stepExecution, restartContext.bind readLastCheckpoint)

/-- The result of a step is persisted and announced. -/
def recordStep (step : StepDefinition) (stepExecution : StepExecution) (result : StepResult) :
    Code α Unit := do
  let endTime ← now
  updateStepExecution stepExecution.id (resultPatch result endTime)
  let emittedAt ← now
  emit { type := stepEventType result.status, timestamp := emittedAt
         jobExecutionId := R.execution.id, stepExecutionId := some stepExecution.id
         data := .obj [("stepId", .str step.id), ("status", .str result.status.value),
                       ("exitCode", .str result.exitCode)] }

/-- What the deciders of a step are shown. -/
def deciderContext (step : StepDefinition) (stepExecution : StepExecution) (result : StepResult) :
    DeciderContext :=
  { jobExecution := R.execution, stepId := step.id, stepExecutionId := stepExecution.id
    stepStatus := result.status, exitCode := result.exitCode, exitMessage := result.exitMessage }

/-- A step is opened, run and recorded. -/
theorem runStep_eq (loopFuel : Nat) (step : StepDefinition) :
    (R.runStep loopFuel step : Code α (StepExecution × StepResult)) =
      R.opening step >>= fun entered =>
        orFailStep entered.1 (R.dispatch loopFuel step entered.1 entered.2) >>= fun result =>
          R.recordStep step entered.1 result >>= fun _ => .pure (entered.1, result) := by
  unfold runStep runCreated opening recordStep
  simp only [Prog.bind_assoc]
  rfl

/-- What is reported when the step loop comes to a step in `w`; `w'` is the world behind it. -/
inductive StepReports (env : Environment α υ) (loopFuel : Nat) (stepId : String)
    (step : StepDefinition) (w : World υ) : TurnReport → World υ → Prop
  | threw {entered : StepExecution × Option Int} {w₁ w' : World υ} {err : Thrown}
      (hopening : (R.opening step : Code α _).run (handle env) w = (.returned entered, w₁))
      (hstep : (R.dispatch loopFuel step entered.1 entered.2 : Code α _).run (handle env) w₁ =
        (.threw err, w')) : StepReports env loopFuel stepId step w (.threw err) w'
  | returned {entered : StepExecution × Option Int} {w₁ w₂ w₃ w' : World υ} {result : StepResult}
      {answer : Except Thrown (Option String)}
      (hopening : (R.opening step : Code α _).run (handle env) w = (.returned entered, w₁))
      (hstep : (R.dispatch loopFuel step entered.1 entered.2 : Code α _).run (handle env) w₁ =
        (.returned result, w₂))
      (hrecord : (R.recordStep step entered.1 result : Code α _).run (handle env) w₂ =
        (.returned (), w₃))
      (hanswer : (R.resolveDeciderExitStatus stepId (R.deciderContext step entered.1 result) :
        Code α _).run (handle env) w₃ = (.ended answer, w')) :
      StepReports env loopFuel stepId step w (.returned result answer) w'

/-- What is reported to the step loop that comes to `stepId` in a world. -/
inductive LoopReports (env : Environment α υ) (loopFuel : Nat) :
    Nat → String → World υ → List TurnReport → Prop
  | missing {fuel : Nat} {stepId : String} {w : World υ} (hstep : R.jobDef.step? stepId = none) :
      LoopReports env loopFuel (fuel + 1) stepId w []
  | last {fuel : Nat} {stepId : String} {step : StepDefinition} {w w' : World υ}
      {report : TurnReport} (hstep : R.jobDef.step? stepId = some step)
      (hreport : R.StepReports env loopFuel stepId step w report w')
      (hlast : ∀ next, R.jobDef.turn stepId report ≠ .ok (.goto next)) :
      LoopReports env loopFuel (fuel + 1) stepId w [report]
  | on {fuel : Nat} {stepId next : String} {step : StepDefinition} {w w' : World υ}
      {report : TurnReport} {rest : List TurnReport} (hstep : R.jobDef.step? stepId = some step)
      (hreport : R.StepReports env loopFuel stepId step w report w')
      (hnext : R.jobDef.turn stepId report = .ok (.goto next))
      (hrest : LoopReports env loopFuel fuel next w' rest) :
      LoopReports env loopFuel (fuel + 1) stepId w (report :: rest)

/-- No value without a string form reaches the `catch` block of the run whose step loop begins in
`w`. -/
def Speaks (env : Environment α υ) (fuel : Nat) (w : World υ) : Prop :=
  ∀ reports, R.LoopReports env fuel fuel R.jobDef.startStepId w reports →
    ∀ report ∈ reports, report.Speaks

section Reports

variable {R} {env : Environment α υ} {loopFuel fuel : Nat} {stepId : String} {step : StepDefinition}
  {w w₁ w₂ : World υ} {report report₁ report₂ : TurnReport}
  {reports reports₁ reports₂ : List TurnReport}

/-- **A step reports once**: the world answers one way. -/
theorem StepReports.unique (h₁ : R.StepReports env loopFuel stepId step w report₁ w₁)
    (h₂ : R.StepReports env loopFuel stepId step w report₂ w₂) : report₁ = report₂ ∧ w₁ = w₂ := by
  cases h₁ with
  | threw hopening hstep =>
      cases h₂ with
      | threw hopening' hstep' =>
          cases hopening.symm.trans hopening'
          cases hstep.symm.trans hstep'
          exact ⟨rfl, rfl⟩
      | returned hopening' hstep' _ _ =>
          cases hopening.symm.trans hopening'
          cases hstep.symm.trans hstep'
  | returned hopening hstep hrecord hanswer =>
      cases h₂ with
      | threw hopening' hstep' =>
          cases hopening.symm.trans hopening'
          cases hstep.symm.trans hstep'
      | returned hopening' hstep' hrecord' hanswer' =>
          cases hopening.symm.trans hopening'
          cases hstep.symm.trans hstep'
          cases hrecord.symm.trans hrecord'
          have hsame := hanswer.symm.trans hanswer'
          obtain ⟨hended, hworld⟩ := Prod.ext_iff.mp hsame
          exact ⟨congrArg _ (ended_injective hended), hworld⟩

/-- A loop gets one list of reports. -/
theorem LoopReports.unique (h₁ : R.LoopReports env loopFuel fuel stepId w reports₁)
    (h₂ : R.LoopReports env loopFuel fuel stepId w reports₂) : reports₁ = reports₂ := by
  induction h₁ generalizing reports₂ with
  | missing hstep =>
      cases h₂ with
      | missing _ => rfl
      | last hstep' _ _ => cases hstep.symm.trans hstep'
      | on hstep' _ _ _ => cases hstep.symm.trans hstep'
  | last hstep hreport hlast =>
      cases h₂ with
      | missing hstep' => cases hstep.symm.trans hstep'
      | last hstep' hreport' _ =>
          cases hstep.symm.trans hstep'
          obtain ⟨rfl, -⟩ := hreport.unique hreport'
          rfl
      | on hstep' hreport' hnext' _ =>
          cases hstep.symm.trans hstep'
          obtain ⟨rfl, -⟩ := hreport.unique hreport'
          exact absurd hnext' (hlast _)
  | on hstep hreport hnext _ ih =>
      cases h₂ with
      | missing hstep' => cases hstep.symm.trans hstep'
      | last hstep' hreport' hlast' =>
          cases hstep.symm.trans hstep'
          obtain ⟨rfl, -⟩ := hreport.unique hreport'
          exact absurd hnext (hlast' _)
      | on hstep' hreport' hnext' hrest' =>
          cases hstep.symm.trans hstep'
          obtain ⟨rfl, rfl⟩ := hreport.unique hreport'
          cases hnext.symm.trans hnext'
          rw [ih hrest']

/-- A loop throws a value without a string form exactly when one is reported to it. -/
theorem LoopReports.speaks_iff (h : R.LoopReports env loopFuel fuel stepId w reports) :
    ThrowsTexts (R.jobDef.endUnder stepId reports) ↔ ∀ report ∈ reports, report.Speaks := by
  induction h with
  | missing hstep => exact iff_of_true (throwsTexts_ok _) fun _ h => by cases h
  | @last fuel stepId step w w' report hstep hreport hlast =>
      rw [List.forall_mem_singleton, ← R.jobDef.turn_text_iff stepId report]
      unfold JobDefinition.endUnder
      cases hturn : R.jobDef.turn stepId report with
      | error err =>
          exact ⟨fun h => throwsTexts_error (h _ rfl), fun h => throwsTexts_error (h _ rfl)⟩
      | ok next =>
          cases next with
          | goto next => exact absurd hturn (hlast next)
          | finish => exact iff_of_true (throwsTexts_ok _) (throwsTexts_ok _)
          | fail => exact iff_of_true (throwsTexts_ok _) (throwsTexts_ok _)
  | @on fuel stepId next step w w' report rest hstep hreport hnext hrest ih =>
      have hspeaks : report.Speaks := by
        rw [← R.jobDef.turn_text_iff stepId report, hnext]
        exact throwsTexts_ok _
      rw [R.jobDef.endUnder_goto hnext, ih, List.forall_mem_cons]
      exact ⟨fun h => ⟨hspeaks, h⟩, fun h => h.2⟩

end Reports

/-! ### The reports of a run -/

/-- The step execution is on file. -/
def StepOnFile (sid : String) (w : World υ) : Prop :=
  ∃ row, w.repo.stepExecutions.get? sid = some row

section Spec

variable {env : Environment α υ} {w : World υ}

theorem stepOnFile_frame (env : Environment α υ) {K : List OpKind} {loops : Prop} {sid : String}
    (hK : ∀ k ∈ K, k ∉ rowKinds) : (rowLogic env).Frame (On K loops) (StepOnFile sid) where
  guard _ _ _ _ := trivial
  keep o w r w' ho hw ht := by
    have hw' : (handle env o w).2 = w' := congrArg Prod.snd ht
    subst hw'
    obtain ⟨row, hrow⟩ := hw
    exact ⟨row, (handle_sameRows env (hK _ ho) w).stepExecutions ▸ hrow⟩
  loops _ := trivial

/-- A step that is entered is on file. -/
theorem opening_files (step : StepDefinition) : (R.opening step : Code α _).wp (rowLogic env)
    (fun out w' => ∃ entered, out = .ok entered ∧ StepOnFile entered.1.id w') w := by
  have hany {K : List OpKind} : (rowLogic (α := α) env).Frame (On K) fun _ => True :=
    ⟨fun _ _ _ _ => trivial, fun _ _ _ _ _ _ _ => trivial, fun h => h.elim⟩
  have hlook := Prog.wp_of_returns (R.uses_restartStepContext (K := [.findLatestStep, .loadContext])
    (by decide) (by decide) step) (R.returns_restartStepContext (α := α) step) (hany (K := _))
    (s := w) trivial
  refine Prog.wp_seq hlook ?_ ?_
  · intro restartContext w₁ _
    refine Prog.wp_bind.mpr (Prog.wp_perform.mpr ⟨trivial, ?_⟩)
    intro se w₂ ht
    have hse : StepOnFile se.id w₂ := by
      cases ht
      exact ⟨_, JsMap.get?_set_self _ _ _⟩
    have hframe : (rowLogic (α := α) env).Frame (On [.saveContext, .clock, .emit])
        (StepOnFile se.id) := stepOnFile_frame env (by decide)
    have hrest : (copyContext se restartContext >>= fun _ => now >>= fun startedAt =>
        emit { type := .STEP_STARTED, timestamp := startedAt, jobExecutionId := R.execution.id
               stepExecutionId := some se.id
               data := .obj [("stepId", .str step.id), ("kind", .str step.kind)] } >>= fun _ =>
        .pure (se, restartContext.bind readLastCheckpoint) :
        Code α (StepExecution × Option Int)).Uses (On [.saveContext, .clock, .emit]) :=
      (uses_copyContext (by decide) se restartContext).bind fun _ => (uses_now (by decide)).bind
        fun _ => (uses_emit (by decide) _).bind fun _ => trivial
    have hreturns : (copyContext se restartContext >>= fun _ => now >>= fun startedAt =>
        emit { type := .STEP_STARTED, timestamp := startedAt, jobExecutionId := R.execution.id
               stepExecutionId := some se.id
               data := .obj [("stepId", .str step.id), ("kind", .str step.kind)] } >>= fun _ =>
        .pure (se, restartContext.bind readLastCheckpoint) :
        Code α (StepExecution × Option Int)).Returns fun entered => entered.1 = se :=
      (returns_copyContext se restartContext).bind fun _ _ => fun _ => fun _ => rfl
    refine Prog.wp_mono (Prog.wp_and (Prog.wp_of_uses hrest hframe hse)
      (Prog.wp_of_returns hrest hreturns hframe hse)) ?_
    intro out w₃ h₃
    obtain ⟨hfile, entered, hout, hsame⟩ := h₃
    exact ⟨entered, hout, hsame ▸ hfile⟩
  · intro err w₁ h₁
    obtain ⟨_, hout, -⟩ := h₁
    cases hout

/-- A step on file can be updated. -/
theorem update_stepOnFile {sid : String} (h : StepOnFile sid w) (patch : StepExecutionPatch) :
    (updateStepExecution sid patch : Code α Unit).wp (rowLogic env)
      (fun out w' => out = .ok () ∧ StepOnFile sid w') w := by
  obtain ⟨row, hrow⟩ := h
  refine ChunkStepExecutor.wp_orThrow.mpr (Prog.wp_perform.mpr ⟨trivial, ?_⟩)
  intro r w' ht
  have hr : (w.repo.updateStepExecution sid patch).1 = r := congrArg Prod.fst ht
  have hw' : { w with repo := (w.repo.updateStepExecution sid patch).2 } = w' :=
    congrArg Prod.snd ht
  unfold InMemoryJobRepository.updateStepExecution at hr hw'
  rw [hrow] at hr hw'
  subst hr
  subst hw'
  exact ⟨rfl, _, JsMap.get?_set_self _ _ _⟩

/-- Recording a step on file does not throw. -/
theorem recordStep_returns (step : StepDefinition) (se : StepExecution) (result : StepResult)
    (h : StepOnFile se.id w) : (R.recordStep step se result : Code α Unit).wp (rowLogic env)
      (fun out _ => out = .ok ()) w := by
  refine Prog.wp_bind.mpr (Prog.wp_perform.mpr ⟨trivial, ?_⟩)
  intro endTime w₁ ht
  have h₁ : StepOnFile se.id w₁ := by
    cases ht
    exact h
  refine Prog.wp_seq (update_stepOnFile h₁ _) ?_ fun _ _ h₂ => by cases h₂.1
  intro _ w₂ _
  refine Prog.wp_bind.mpr (Prog.wp_perform.mpr ⟨trivial, fun emittedAt w₃ _ => ?_⟩)
  exact Prog.wp_perform.mpr ⟨trivial, fun _ _ _ => rfl⟩

/-- How the run of a step ends: as its executor returned, or with what the error of the executor
gives way to. -/
def RanStep (env : Environment α υ) (loopFuel : Nat) (stepId : String) (step : StepDefinition)
    (w : World υ) : Except Thrown (StepExecution × StepResult) → World υ → Prop
  | .ok (se, result), w' => ∀ answer w'', (R.resolveDeciderExitStatus stepId
      (R.deciderContext step se result) : Code α _).run (handle env) w' = (.ended answer, w'') →
        R.StepReports env loopFuel stepId step w (.returned result answer) w''
  | .error err, _ => ∃ stepErr w'', err = stepErr.passedOn ∧
      R.StepReports env loopFuel stepId step w (.threw stepErr) w''

/-- The executor of a step that has been entered. -/
theorem orFailStep_reports {loopFuel : Nat} {step : StepDefinition}
    {entered : StepExecution × Option Int} {w₁ : World υ} (stepId : String)
    (hopening : (R.opening step : Code α _).run (handle env) w = (.returned entered, w₁))
    (hfile : StepOnFile entered.1.id w₁) :
    (orFailStep entered.1 (R.dispatch loopFuel step entered.1 entered.2) : Code α StepResult).wp
      (rowLogic env) (fun out w₂ =>
        (∀ result, out = .ok result → StepOnFile entered.1.id w₂ ∧
          (R.dispatch loopFuel step entered.1 entered.2 : Code α _).run (handle env) w₁ =
            (.returned result, w₂)) ∧
        ∀ err, out = .error err → ∃ stepErr w'', err = stepErr.passedOn ∧
          R.StepReports env loopFuel stepId step w (.threw stepErr) w'') w₁ := by
  have hframe : (rowLogic (α := α) env).Frame (Looping stepKinds) (StepOnFile entered.1.id) :=
    stepOnFile_frame env (by decide)
  refine Prog.wp_tryCatch.mpr (Prog.wp_mono (Prog.wp_and (Prog.wp_of_uses
    (R.uses_dispatch loopFuel step entered.1 entered.2) hframe hfile) (wp_as_run env _ w₁)) ?_)
  intro out w₂ h₂
  obtain ⟨hfile₂, hran⟩ := h₂
  cases out with
  | ok result =>
      refine ⟨?_, fun _ h => by cases h⟩
      intro result' heq
      cases heq
      exact ⟨hfile₂, hran⟩
  | error stepErr =>
      have hreport : R.StepReports env loopFuel stepId step w (.threw stepErr) w₂ :=
        .threw hopening hran
      refine Prog.wp_bind.mpr ((Prog.wp_ofExcept _).mpr ?_)
      cases htext : stepErr.text with
      | error thrown =>
          refine ⟨(fun _ h => by cases h), ?_⟩
          intro err heq
          cases heq
          refine ⟨stepErr, w₂, ?_, hreport⟩
          unfold Thrown.passedOn
          rw [htext]
      | ok exitMessage =>
          refine Prog.wp_bind.mpr (Prog.wp_perform.mpr ⟨trivial, ?_⟩)
          intro endTime w₃ ht
          have hfile₃ : StepOnFile entered.1.id w₃ := by
            cases ht
            exact hfile₂
          refine Prog.wp_seq (update_stepOnFile hfile₃ _) ?_ fun _ _ h₄ => by cases h₄.1
          intro _ w₄ _
          refine ⟨(fun _ h => by cases h), ?_⟩
          intro err heq
          cases heq
          refine ⟨stepErr, w₂, ?_, hreport⟩
          unfold Thrown.passedOn
          rw [htext]

/-- **A step** comes to its report. -/
theorem runStep_reports (loopFuel : Nat) (stepId : String) (step : StepDefinition) :
    (R.runStep loopFuel step : Code α (StepExecution × StepResult)).wp (rowLogic env)
      (R.RanStep env loopFuel stepId step w) w := by
  rw [R.runStep_eq]
  refine Prog.wp_seq (Prog.wp_and (R.opening_files step) (wp_as_run env _ w)) ?_ ?_
  · intro entered w₁ h₁
    obtain ⟨⟨_, hout, hfile⟩, hopening⟩ := h₁
    cases hout
    refine Prog.wp_seq (R.orFailStep_reports stepId hopening hfile) ?_ fun err _ h => h.2 err rfl
    intro result w₂ h₂
    obtain ⟨hfile₂, hran⟩ := h₂.1 result rfl
    refine Prog.wp_seq (Prog.wp_and (R.recordStep_returns step entered.1 result hfile₂)
      (wp_as_run env _ w₂)) ?_ fun _ _ h₃ => by cases h₃.1
    intro _ w₃ h₃ answer w'' hanswer
    exact .returned hopening hran h₃.2 hanswer
  · intro err w₁ h₁
    obtain ⟨⟨_, hout, -⟩, -⟩ := h₁
    cases hout

/-- **The step loop ends as is reported to it.** -/
theorem stepLoop_reports (hfile : OnFile R.execution.id w) (loopFuel fuel : Nat) (stepId : String) :
    (R.stepLoop loopFuel fuel stepId : Code α JobStatus).wp (rowLogic env) (fun out _ =>
      ∃ reports, R.LoopReports env loopFuel fuel stepId w reports ∧
        out = R.jobDef.endUnder stepId reports) w := by
  induction fuel generalizing stepId w with
  | zero => trivial
  | succ fuel ih =>
      cases hstep : R.jobDef.step? stepId with
      | none =>
          unfold stepLoop
          rw [hstep]
          refine Prog.wp_mono (R.failJob_recorded hfile _ _) ?_
          intro out w₁ h₁
          exact ⟨[], .missing hstep, h₁.1⟩
      | some step =>
          have hframe : (rowLogic (α := α) env).Frame (Looping runKinds) (OnFile R.execution.id) :=
            onFile_frame env (by decide)
          have hrun := Prog.wp_of_uses (uses_of_stepRunKinds (R.uses_runStep loopFuel step)) hframe
            hfile
          unfold stepLoop
          rw [hstep]
          refine Prog.wp_seq (Prog.wp_and (R.runStep_reports loopFuel stepId step) hrun) ?_ ?_
          · intro ran w₁ h₁
            obtain ⟨hreports, hfile₁⟩ := h₁
            have hused : (R.resolveDeciderExitStatus stepId (R.deciderContext step ran.1 ran.2) :
                Code α (Option String)).Uses (Looping runKinds) :=
              R.uses_resolveDecider (by decide) stepId _
            have hdecide := Prog.wp_of_uses hused hframe hfile₁
            refine Prog.wp_seq (Prog.wp_and (wp_as_run env _ w₁) hdecide) ?_ ?_
            · intro decider w₂ h₂
              obtain ⟨hanswer, hfile₂⟩ := h₂
              have hreport := hreports (.ok decider) w₂ hanswer
              refine Prog.wp_bind.mpr ((Prog.wp_ofExcept _).mpr ?_)
              cases hnext : nextStep R.jobDef stepId decider ran.2 with
              | error err =>
                  refine ⟨_, .last hstep hreport fun next h => ?_, ?_⟩
                  · cases hnext.symm.trans h
                  · simp only [JobDefinition.endUnder, JobDefinition.turn, hnext]
              | ok next =>
                  cases next with
                  | goto next =>
                      refine Prog.wp_mono (ih hfile₂ next) ?_
                      intro out w₃ h₃
                      obtain ⟨rest, hrest, hout⟩ := h₃
                      have hturn : R.jobDef.turn stepId (.returned ran.2 (.ok decider)) =
                          .ok (.goto next) := hnext
                      exact ⟨_, .on hstep hreport hturn hrest,
                        hout.trans (R.jobDef.endUnder_goto hturn).symm⟩
                  | finish =>
                      refine ⟨_, .last hstep hreport fun next h => ?_, ?_⟩
                      · cases hnext.symm.trans h
                      · simp only [JobDefinition.endUnder, JobDefinition.turn, hnext]
                  | fail =>
                      refine Prog.wp_mono (R.failJob_recorded hfile₂ _ _) ?_
                      intro out w₃ h₃
                      refine ⟨_, .last hstep hreport fun next h => ?_, ?_⟩
                      · cases hnext.symm.trans h
                      · simp only [JobDefinition.endUnder, JobDefinition.turn, hnext, h₃.1]
            · intro err w₂ h₂
              refine ⟨_, .last hstep (hreports (.error err) w₂ h₂.1) fun next h => ?_, rfl⟩
              cases h
          · intro err w₁ h₁
            obtain ⟨⟨stepErr, w₂, rfl, hreport⟩, -⟩ := h₁
            exact ⟨_, .last hstep hreport fun next h => (by cases h), rfl⟩

/-- **The driven run returns** exactly when no value without a string form reaches its `catch`
block. -/
theorem drive_returns_iff (env : Environment α υ) {status : JobStatus}
    (h : Recorded R.execution.id status w) (fuel : Nat) :
    (R.drive fuel : Code α JobStatus).wp (rowLogic env) (fun out _ =>
      (∃ final, out = .ok final) ↔ R.Speaks env fuel w) w := by
  have hspeaks {reports : List TurnReport}
      (hreports : R.LoopReports env fuel fuel R.jobDef.startStepId w reports) :
      R.Speaks env fuel w ↔ ThrowsTexts (R.jobDef.endUnder R.jobDef.startStepId reports) := by
    rw [hreports.speaks_iff]
    exact ⟨fun h => h reports hreports, fun h _ hreports' => hreports.unique hreports' ▸ h⟩
  refine Prog.wp_tryCatch.mpr (Prog.wp_seq (Prog.wp_and (R.stepLoop_recorded h fuel fuel _)
    (R.stepLoop_reports h.onFile fuel fuel _)) ?_ ?_)
  · intro final w₁ h₁
    obtain ⟨hended, reports, hreports, hout⟩ := h₁
    refine Prog.wp_mono (R.completeJob_recorded status hended.onFile
      (hended.returned final rfl)) ?_
    intro out w₂ h₂
    obtain ⟨rfl, -⟩ := h₂
    rw [hspeaks hreports, ← hout]
    exact iff_of_true ⟨final, rfl⟩ (throwsTexts_ok final)
  · intro err w₁ h₁
    obtain ⟨hended, reports, hreports, hout⟩ := h₁
    refine Prog.wp_mono (R.onError_recorded err (hended.threw err rfl)) ?_
    intro out w₂ h₂
    rw [h₂.2.1, hspeaks hreports, ← hout]
    exact ⟨fun h => throwsTexts_error h, fun h => h err rfl⟩

end Spec

end JobExecutor.Run

end NestBatch
