import NestBatch.Execution.StepLedger

/-!
# A run keeps to the ledger

A run begins each of its step executions with the checkpoint that it resumes from:
that of the failed one whose context it has copied, or none.  So every run of the job
executor keeps to the rules of the ledger, through all its steps.
-/

namespace NestBatch

variable {α β : Type}

/-- A step that every object inherits has no reader: nothing of it is ever read or written. -/
theorem ChunkStepExecutor.uses_execute_inherited (fuel : Nat) (context : ChunkExecutionContext) :
    (execute fuel inheritedStep context : Code α StepResult).Uses
      (Looping [.listener, .closeStream, .afterStep]) := by
  refine (Prog.uses_ofExcept _).bind fun policies => (Prog.uses_ofExcept _).bind fun partition => ?_
  refine (ListenerInvoker.uses_invokeMatching (by decide) _ _ _).bind fun _ => ?_
  have hbody : (body fuel inheritedStep context policies partition : ChunkCode α StepResult) {} =
      .pure (.error notAReference, {}) := rfl
  rw [hbody]
  refine (Prog.Uses.attempt (uses_closeStreams (by decide) _)).bind fun closed => ?_
  refine (ListenerInvoker.uses_invokeMatching (by decide) _ _ _).bind fun _ => ?_
  refine (Prog.uses_ofExcept _).bind fun exitMessage => ?_
  refine (ListenerInvoker.uses_invokeMatching (by decide) _ _ _).bind fun _ => ?_
  exact ListenerInvoker.uses_invokeAfterStep (by decide) _ _ _

namespace JobExecutor.Run

variable (R : Run) {resumes : String → Prop} {g : Ledger}

/-- The names that a run resumes belong to chunk steps of a restart. -/
def Resumes (resumes : String → Prop) : Prop :=
  ∀ stepId step, R.jobDef.step? stepId = some step → resumes step.id →
    R.isRestart = true ∧ step.kind = "chunk"

/-- What the look for an earlier execution of a step leaves. -/
structure LooksUp (resumes : String → Prop) (step : StepDefinition) (g : Ledger)
    (ctx : Option ExecutionContext) (g' : Ledger) : Prop where
  begun : g'.begun = g.begun
  saved : g'.saved = g.saved
  closed : g'.closed = g.closed
  takenOver : g'.takenOver = ctx.bind readLastCheckpoint
  reached : 0 ≤ nextChunk (ctx.bind readLastCheckpoint)
  hasRead : g'.HasRead
  lookedUp : resumes step.id → g'.LookedUp R.execution.id step.id

/-- A look-up for a restart is entered into the ledger. -/
theorem wp_looksUp (hg : g.Settled) {step : StepDefinition}
    (hresumes : resumes step.id → R.isRestart = true ∧ step.kind = "chunk") :
    (R.restartStepContext step : Code α (Option ExecutionContext)).wp (ledgerLogic resumes)
      (fun out g' => ∃ ctx, out = .ok ctx ∧ R.LooksUp resumes step g ctx g') g := by
  have hnone : 0 ≤ nextChunk ((none : Option ExecutionContext).bind readLastCheckpoint) :=
    Int.le_refl 0
  unfold restartStepContext
  split
  · refine Prog.wp_bind.mpr (Prog.wp_perform.mpr ⟨trivial, ?_⟩)
    intro answer g₁ ht
    obtain ⟨rfl, -⟩ := ht
    refine Prog.afterwards_ok.mpr ?_
    have hlookedUp : ∀ {look : Look}, look.jobExecutionId = R.execution.id →
        look.stepName = step.id → resumes step.id →
        ({ g with look := some look } : Ledger).LookedUp R.execution.id step.id :=
      fun hjob hname _ => ⟨_, rfl, hjob, hname⟩
    cases answer with
    | none =>
        refine ⟨none, rfl, rfl, rfl, rfl, rfl, hnone, ?_, hlookedUp rfl rfl⟩
        intro look prior hlook hprior
        obtain rfl := Option.some.inj hlook
        cases hprior
    | some prior =>
        dsimp only
        split
        · refine Prog.wp_bind.mpr (Prog.wp_perform.mpr ⟨trivial, ?_⟩)
          intro ctx g₂ ht
          obtain ⟨rfl, hreached⟩ := ht
          have hlook : (({ jobExecutionId := R.execution.id, stepName := step.id
                           prior := some prior } : Look).read (.stepExecutionId prior.id) ctx) =
              { jobExecutionId := R.execution.id, stepName := step.id, prior := some prior
                context := some ctx } := if_pos rfl
          refine ⟨some ctx, rfl, rfl, rfl, rfl, ?_, hreached, ?_, fun _ => ?_⟩
          · change ((some (Look.read _ _ _)).bind (·.context)).bind readLastCheckpoint = _
            rw [hlook]
            rfl
          · intro look found hfound _ _
            obtain rfl := Option.some.inj ((congrArg some hlook).symm.trans hfound)
            rfl
          · exact ⟨_, congrArg some hlook, rfl, rfl⟩
        · next hstatus =>
            refine ⟨none, rfl, rfl, rfl, rfl, rfl, hnone, ?_, hlookedUp rfl rfl⟩
            intro look found hlook hfound hfailed
            obtain rfl := Option.some.inj hlook
            cases hfound
            exact absurd hfailed hstatus
  · next hplain =>
      refine ⟨none, rfl, rfl, rfl, rfl, ?_, hnone, ?_, fun hresume =>
        absurd (hresumes hresume) hplain⟩
      · unfold Ledger.takenOver
        rw [hg.look]
        rfl
      · intro look prior hlook
        rw [hg.look] at hlook
        cases hlook

/-- Handing a step to its executor. -/
theorem wp_dispatch_ledger {stepExecution : StepExecution} {resume : Option Int}
    (hg : g.Resumed stepExecution.id resume) (fuel : Nat) (step : StepDefinition) :
    (R.dispatch fuel step stepExecution resume : Code α StepResult).wp (ledgerLogic resumes)
      (fun _ g' => g'.UnderWay stepExecution.id) g := by
  have hquiet {K : List OpKind} (hK : ∀ k ∈ K, k ∉ Ledger.kinds)
      {p : Code α StepResult} (hp : p.Uses (Looping K)) :
      p.wp (ledgerLogic resumes) (fun _ g' => g'.UnderWay stepExecution.id) g := by
    refine Prog.wp_mono (wp_quiet hp hK hg.toSettled) fun _ g' heq => ?_
    subst heq
    exact hg.underWay
  cases step with
  | tasklet step =>
      have huses : (TaskletStepExecutor.execute step (R.taskletContext stepExecution step) :
          Code α StepResult).Uses (Looping [.invoke, .tasklet, .listener, .afterStep]) :=
        TaskletStepExecutor.uses_execute_of (by decide) (by decide) (by decide) (by decide) _ _
      exact hquiet (by decide) huses
  | chunk step =>
      have hstep : (ChunkStepExecutor.execute fuel step
          (R.chunkContext stepExecution step resume) : Code α StepResult).wp (ledgerLogic resumes)
          (fun _ g' => g'.UnderWay stepExecution.id) g := wp_chunkStep hg fuel step
      exact hstep
  | inherited =>
      exact hquiet (by decide) (ChunkStepExecutor.uses_execute_inherited fuel
        (R.chunkContext stepExecution inheritedStep resume))

/-- The end of a step execution is written once. -/
theorem wp_updateStep {stepExecution : StepExecution} (hg : g.UnderWay stepExecution.id)
    (patch : StepExecutionPatch) :
    (updateStepExecution stepExecution.id patch : Code α Unit).wp (ledgerLogic resumes)
      (fun _ g' => g'.Settled) g := by
  refine Prog.wp_bind.mpr (Prog.wp_perform.mpr ⟨⟨hg.toOpened, hg.carried⟩, ?_⟩)
  intro r g₁ ht
  obtain ⟨rfl, -⟩ := ht
  have hsettled : ({ g with look := none, closed := if patch.status = some .FAILED then
      stepExecution.id :: g.closed else g.closed } : Ledger).Settled := by
    split
    · exact ⟨hg.toSound.close hg.begun, rfl⟩
    · exact ⟨⟨hg.blank, hg.reached⟩, rfl⟩
  exact Prog.wp_mono ((Prog.wp_ofExcept _).mpr hsettled) fun _ _ h => h

/-- A step that is under way leaves the ledger settled. -/
theorem wp_underWay {stepExecution : StepExecution} {resume : Option Int}
    (hg : g.Resumed stepExecution.id resume) (fuel : Nat) (step : StepDefinition) :
    (R.runCreated fuel step stepExecution resume : Code α StepResult).wp (ledgerLogic resumes)
      (fun _ g' => g'.Settled) g := by
  have htell : ∀ k ∈ [OpKind.clock, .emit], k ∉ Ledger.kinds := by decide
  have hclock : (now : Code α Time).Uses (Looping [.clock, .emit]) := uses_now (by decide)
  refine wp_quiet_seq hclock htell hg.toSettled (fun startedAt => ?_) fun _ => hg.toSettled
  refine wp_quiet_seq (uses_emit (by decide) _) htell hg.toSettled (fun _ => ?_)
    fun _ => hg.toSettled
  -- the step ends under way, or with its failure written
  refine Prog.wp_seq (R := fun out g' => g'.Settled ∧
    ∀ result, out = .ok result → g'.UnderWay stepExecution.id) ?_ ?_ fun _ _ h => h.1
  · refine Prog.wp_tryCatch.mpr (Prog.wp_mono (R.wp_dispatch_ledger hg fuel step) ?_)
    intro out g₁ h₁
    cases out with
    | ok result => exact ⟨h₁.toSettled, fun _ _ => h₁⟩
    | error err =>
        have htext : (Prog.ofExcept err.text : Code α String).Uses (Looping [.clock, .emit]) :=
          Prog.uses_ofExcept _
        have hrethrown (other : Thrown) {g₂ : Ledger} (h₂ : g₂.Settled) : g₂.Settled ∧
            ∀ result : StepResult, (.error other : Except Thrown StepResult) = .ok result →
              g₂.UnderWay stepExecution.id := ⟨h₂, fun _ heq => by cases heq⟩
        refine wp_quiet_seq htext htell h₁.toSettled (fun exitMessage => ?_)
          fun other => hrethrown other h₁.toSettled
        refine wp_quiet_seq hclock htell h₁.toSettled (fun endTime => ?_)
          fun other => hrethrown other h₁.toSettled
        exact Prog.wp_seq (wp_updateStep h₁ _) (fun _ g₂ h₂ => hrethrown err h₂)
          fun other g₂ h₂ => hrethrown other h₂
  · intro result g₁ h₁
    have hway := h₁.2 result rfl
    refine wp_quiet_seq hclock htell h₁.1 (fun endTime => ?_) fun _ => h₁.1
    refine Prog.wp_seq (wp_updateStep hway _) (fun _ g₂ h₂ => ?_) fun _ _ h => h
    refine wp_quiet_seq hclock htell h₂ (fun emittedAt => ?_) fun _ => h₂
    exact wp_quiet_seq (uses_emit (by decide) _) htell h₂ (fun _ => h₂) fun _ => h₂

/-- Copying the context of the failed step execution brings its checkpoint along. -/
theorem wp_copied {stepExecution : StepExecution} (hg : g.Settled)
    (hopened : g.Opened stepExecution.id) {ctx : Option ExecutionContext}
    (hstarted : ∃ entry, g.begun.get? stepExecution.id = some entry ∧
      entry.start = ctx.bind readLastCheckpoint)
    (hblank : g.checkpoint stepExecution.id = none)
    (hreached : 0 ≤ nextChunk (ctx.bind readLastCheckpoint)) :
    (copyContext stepExecution ctx : Code α Unit).wp (ledgerLogic resumes)
      (fun out g' => out = .ok () ∧
        g'.Resumed stepExecution.id (ctx.bind readLastCheckpoint)) g := by
  cases ctx with
  | none => exact ⟨rfl, hg, hstarted, hopened.current, hopened.opened, hblank⟩
  | some ctx =>
      refine Prog.wp_perform.mpr ⟨⟨stepExecution.id, rfl, hopened, ?_⟩, ?_⟩
      · rw [hblank]
        exact hreached
      · intro r g₁ ht
        obtain ⟨rfl, -⟩ := ht
        refine ⟨rfl, ⟨hg.toSound.save hopened.begun hreached, rfl⟩, hstarted, hopened.current,
          hopened.opened, ?_⟩
        exact (g.checkpoint_save stepExecution.id (readLastCheckpoint ctx) _).trans (if_pos rfl)

/-- A new step execution takes over what was looked up. -/
theorem LooksUp.create {step : StepDefinition} {ctx : Option ExecutionContext} {g' : Ledger}
    (h : R.LooksUp resumes step g ctx g') (hg : g.Settled) {created : StepExecution}
    (hnew : g'.begun.get? created.id = none) :
    let after := g'.advance (.createStepExecution R.execution.id step.id : Op α) created
    after.Settled ∧ after.Opened created.id ∧ after.checkpoint created.id = none ∧
      ∃ entry, after.begun.get? created.id = some entry ∧
        entry.start = ctx.bind readLastCheckpoint := by
  intro after
  have hbegun (id : String) : after.begun.get? id =
      if id = created.id then some g'.entry else g.begun.get? id := by
    change (g'.begun.set created.id g'.entry).get? id = _
    rw [JsMap.get?_set, h.begun]
  have hcheckpoint (id : String) : after.checkpoint id = g.checkpoint id := by
    change (g'.saved.get? id).join = (g.saved.get? id).join
    rw [h.saved]
  have hclosed : after.closed = g.closed := h.closed
  rw [h.begun] at hnew
  obtain ⟨hblank, hopened⟩ := hg.blank created.id hnew
  refine ⟨{ blank := fun id hnone => ?_, reached := fun id => ?_, look := rfl },
    { begun := ?_, current := rfl, opened := ?_ }, ?_, g'.entry, ?_, h.takenOver⟩
  · rw [hbegun] at hnone
    split at hnone
    · cases hnone
    · rw [hcheckpoint, hclosed]
      exact hg.blank id hnone
  · rw [hcheckpoint]
    exact hg.reached id
  · rw [hbegun, if_pos rfl]
    rfl
  · rw [hclosed]
    exact hopened
  · rw [hcheckpoint]
    exact hblank
  · rw [hbegun, if_pos rfl]

/-- **One step** keeps to the ledger. -/
theorem wp_runStep_ledger (hg : g.Settled) (fuel : Nat) {step : StepDefinition}
    (hresumes : resumes step.id → R.isRestart = true ∧ step.kind = "chunk") :
    (R.runStep fuel step : Code α (StepExecution × StepResult)).wp (ledgerLogic resumes)
      (fun _ g' => g'.Settled) g := by
  refine Prog.wp_seq (R.wp_looksUp hg hresumes) ?_ ?_
  · intro ctx g₁ h₁
    obtain ⟨ctx', heq, hlooks⟩ := h₁
    cases heq
    refine Prog.wp_bind.mpr (Prog.wp_perform.mpr ⟨⟨hlooks.hasRead, hlooks.lookedUp⟩, ?_⟩)
    intro created g₂ ht
    obtain ⟨rfl, hnew⟩ := ht
    obtain ⟨hsettled, hopened, hblank, hstarted⟩ := hlooks.create (α := α) R hg hnew
    refine Prog.wp_seq (wp_copied hsettled hopened hstarted hblank hlooks.reached) ?_ ?_
    · intro _ g₃ h₃
      exact Prog.wp_seq (R.wp_underWay h₃.2 fuel step) (fun _ _ h => h) fun _ _ h => h
    · intro err g₃ h₃
      cases h₃.1
  · intro err g₁ h₁
    obtain ⟨ctx, heq, -⟩ := h₁
    cases heq

/-- **The step loop** keeps to the ledger. -/
theorem wp_stepLoop_ledger (hresumes : R.Resumes resumes) (hg : g.Settled)
    (loopFuel fuel : Nat) (stepId : String) :
    (R.stepLoop loopFuel fuel stepId : Code α JobStatus).wp (ledgerLogic resumes)
      (fun _ g' => g'.Settled) g := by
  have hmark (exitCode exitMessage : String) {g : Ledger} (hg : g.Settled) :
      (R.failJob exitCode exitMessage : Code α JobStatus).wp (ledgerLogic resumes)
        (fun _ g' => g'.Settled) g := by
    have huses : (R.failJob exitCode exitMessage : Code α JobStatus).Uses
        (Looping [.clock, .updateJob]) := R.uses_failJob (by decide) (by decide) _ _
    refine Prog.wp_mono (wp_quiet huses (by decide) hg) fun _ g' heq => ?_
    subst heq
    exact hg
  induction fuel generalizing g stepId with
  | zero => trivial
  | succ fuel ih =>
      unfold stepLoop
      cases hstep : R.jobDef.step? stepId with
      | none => exact hmark _ _ hg
      | some step =>
          refine Prog.wp_seq (R.wp_runStep_ledger hg loopFuel (hresumes stepId step hstep)) ?_
            fun _ _ h => h
          intro ran g₁ h₁
          have hdecide (ctx : DeciderContext) :
              (R.resolveDeciderExitStatus stepId ctx : Code α (Option String)).Uses
                (Looping [.decide]) := R.uses_resolveDecider (by decide) stepId ctx
          refine wp_quiet_seq (hdecide _) (by decide) h₁ (fun decider => ?_) fun _ => h₁
          refine Prog.wp_bind.mpr ((Prog.wp_ofExcept _).mpr ?_)
          cases nextStep R.jobDef stepId decider ran.2 with
          | error err => exact h₁
          | ok next =>
              cases next with
              | goto next => exact ih h₁ next
              | finish => exact h₁
              | fail => exact hmark _ _ h₁

end JobExecutor.Run

/-- **A run keeps to the ledger**, whatever its calls are answered. -/
theorem JobExecutor.wp_execute_ledger {resumes : String → Prop} {g : Ledger} (hg : g.Settled)
    (fuel : Nat) (execution : JobExecution) (jobDef : JobDefinition) (partition : PartitionArgs)
    (hresumes : ({ execution := execution, jobDef := jobDef, partition := partition } :
      Run).Resumes resumes) :
    (execute fuel execution jobDef partition : Code α JobExecution).wp (ledgerLogic resumes)
      (fun _ g' => g'.Settled) g := by
  let R : Run := { execution := execution, jobDef := jobDef, partition := partition }
  have hafter {p : Code α JobStatus} {g₁ : Ledger} (h₁ : g₁.Settled)
      (hp : p.Uses (Looping [.clock, .updateJob])) :
      p.wp (ledgerLogic resumes) (fun _ g' => g'.Settled) g₁ := by
    refine Prog.wp_mono (wp_quiet hp (by decide) h₁) fun _ g' heq => ?_
    subst heq
    exact h₁
  unfold execute
  split
  · exact hg
  · change (R.proceed fuel : Code α JobExecution).wp _ _ _
    rw [R.proceed_eq]
    refine wp_quiet_seq R.uses_prologue (by decide) hg (fun _ => ?_) fun _ => hg
    rw [R.settle_eq]
    refine Prog.wp_seq (R := fun _ g' => g'.Settled) ?_ ?_ fun _ _ h => h
    · refine Prog.wp_tryCatch.mpr (Prog.wp_seq (R.wp_stepLoop_ledger hresumes hg fuel fuel _) ?_ ?_)
      · intro status g₁ h₁
        refine Prog.wp_mono (hafter h₁ (R.uses_completeJob (by decide) (by decide) status)) ?_
        intro out g₂ h₂
        cases out with
        | ok status => exact h₂
        | error err => exact hafter h₂ (R.uses_onError (by decide) (by decide) err)
      · intro err g₁ h₁
        exact hafter h₁ (R.uses_onError (by decide) (by decide) err)
    · intro status g₁ h₁
      refine Prog.wp_mono (wp_quiet (R.uses_epilogue status) (by decide) h₁) fun _ g' heq => ?_
      subst heq
      exact h₁

end NestBatch
