import NestBatch.Execution.JobFootprint
import NestBatch.Execution.ResumeJob
import NestBatch.Execution.S3Loop

/-!
# The export job

A job that is the export step alone, from the start of a run to its end.  What a run does
around its step spoils nothing: a new step execution takes up the context of one that failed,
or begins at the start of the source, and the row of the execution is marked COMPLETED only
behind a step that has stored everything.
-/

namespace NestBatch

open ListenerInvoker

variable {α υ : Type}

/-- A registered job of one chunk step has a chunk size. -/
theorem JobDefinition.IsSingleStep.chunkSize_pos {job : JobDefinition} {step : ChunkStepDefinition}
    {reports : StepStatus → String → Prop} (hjob : job.IsSingleStep step reports)
    {registry : JobRegistry} {jobId : String}
    (hget : registry.get jobId = .ok job) : 0 < step.chunkSize := by
  have hfiled : job.steps.get? job.startStepId = some (.chunk step) := by
    have hstart := hjob.start
    unfold JobDefinition.step? at hstart
    split at hstart
    · next hsome => exact hsome.trans hstart
    · split at hstart
      · cases hstart
      · cases hstart
  have hvalid := (JobRegistry.get_eq_ok hget).2
  have hstep := DefinitionValidator.validateStep_of_validate hvalid hfiled
  exact Nat.pos_of_ne_zero (DefinitionValidator.chunk_of_validateStep hstep).1

/-- The latest step execution of an execution is one of its own. -/
theorem InMemoryJobRepository.jobExecutionId_of_findLatest {repo : InMemoryJobRepository}
    {e name : String} {step : StepExecution}
    (h : repo.findLatestStepExecution e name = some step) : step.jobExecutionId = e := by
  have hmem := List.mem_filter.mp (List.mem_of_getLast? h)
  exact of_decide_eq_true (Bool.and_eq_true_iff.mp hmem.2).1

namespace S3Export

variable {E : S3Export α} {client : S3ObjectClient υ} {others : Environment α υ}
  {w w' : World (S3State × υ)} {e jobId sid : String}

/-! ### Rows -/

/-- A new step execution has nothing to resume from. -/
theorem Clean.createStep (h : E.Clean e jobId w) (e' name : String) :
    E.Clean e jobId { w with repo := (w.repo.createStepExecution e' name).2 } where
  filed := h.filed.create e' name
  fresh n hn := h.fresh n (Nat.le_of_succ_le hn)
  intact := h.intact
  contexts sid row hrow he := by
    simp only [InMemoryJobRepository.createStepExecution, JsMap.get?_set] at hrow
    split at hrow
    · next hid =>
        have hplace := h.fresh w.repo.issued (Nat.le_refl _)
        change sid = w.repo.nextId at hid
        rw [hid]
        exact resumes_fresh E _ hplace
    · exact h.contexts sid row hrow he
  owner := h.owner
  done := h.done

/-- A patch of the step row keeps the store clean. -/
theorem Clean.updateStep (h : E.Clean e jobId w) (sid : String) (patch : StepExecutionPatch) :
    E.Clean e jobId { w with repo := (w.repo.updateStepExecution sid patch).2 } := by
  have hfiled := h.filed.update sid patch
  unfold InMemoryJobRepository.updateStepExecution at hfiled ⊢
  split
  · exact h
  · next cur hcur =>
      rw [hcur] at hfiled
      refine ⟨hfiled, h.fresh, h.intact, ?_, h.owner, h.done⟩
      intro sid' row hrow he
      simp only [JsMap.get?_set] at hrow
      split at hrow
      · next hid =>
          cases hrow
          rw [hid]
          exact h.contexts sid cur hcur he
      · exact h.contexts sid' row hrow he

/-- The row of an execution is marked COMPLETED where everything is stored. -/
theorem Clean.updateJob (h : E.Clean e jobId w) {patch : JobExecutionPatch}
    (hpatch : patch.status = some .COMPLETED → E.Finished w.user.1.objects) :
    E.Clean e jobId { w with repo := (w.repo.updateJobExecution e patch).2 } := by
  unfold InMemoryJobRepository.updateJobExecution
  split
  · exact h
  · next cur hcur =>
      have hrow : (w.repo.executions.set e (patch.applyTo cur)).get? e =
          some (patch.applyTo cur) := JsMap.get?_set_self _ _ _
      refine ⟨⟨h.filed.own, h.filed.issued⟩, h.fresh, h.intact, h.contexts, ?_, ?_⟩
      · intro row hget
        obtain rfl := Option.some.inj (hrow.symm.trans hget)
        exact h.owner cur hcur
      · intro row hget hstatus
        obtain rfl := Option.some.inj (hrow.symm.trans hget)
        change patch.status.getD cur.status = .COMPLETED at hstatus
        cases hpatched : patch.status with
        | some status =>
            rw [hpatched] at hstatus hpatch
            exact hpatch (congrArg some hstatus)
        | none =>
            rw [hpatched] at hstatus
            exact h.done cur hcur hstatus

/-! ### What a run keeps -/

/-- Nothing is spoilt, and where `P` holds everything is stored. -/
structure Settled (E : S3Export α) (e jobId : String) (P : Prop) (w : World (S3State × υ)) :
    Prop where
  clean : E.Clean e jobId w
  finished : P → E.Finished w.user.1.objects

/-- A clean store is settled, whatever the job's end would ask. -/
theorem Clean.settled (h : E.Clean e jobId w) : E.Settled e jobId False w := ⟨h, False.elim⟩

/-- A settled store stays settled while only the places move. -/
theorem Settled.of_at {P : Prop} {reader : S3JsonlItemReader} {writer : S3ChunkJsonlItemWriter}
    (h : E.Settled e jobId P w) (hat : E.At w reader writer w') : E.Settled e jobId P w' :=
  ⟨h.clean.of_at hat, fun hP => hat.objects ▸ h.finished hP⟩

section Run

variable {P : Prop} {R : JobExecutor.Run} {s : World (S3State × υ) × Calls α}

/-- An update of a step execution. -/
theorem wp_updateStep (h : E.Settled e jobId P s.1) (sid : String) (patch : StepExecutionPatch) :
    (updateStepExecution sid patch : Code α Unit).wp (E.logic client others)
      (fun _ s' => E.Settled e jobId P s'.1) s := by
  refine ChunkStepExecutor.wp_orThrow.mpr (Prog.wp_perform.mpr ⟨trivial, ?_⟩)
  intro r s' ht
  have hs' : { s.1 with repo := (s.1.repo.updateStepExecution sid patch).2 } = s'.1 :=
    congrArg (fun t => t.2.1) ht
  have hsettled : E.Settled e jobId P s'.1 := by
    rw [← hs']
    exact ⟨h.clean.updateStep sid patch, h.finished⟩
  cases r with
  | error err => exact hsettled
  | ok u => exact hsettled

/-- An update of the execution. -/
theorem wp_updateJob (h : E.Settled e jobId P s.1) {patch : JobExecutionPatch}
    (hpatch : patch.status = some .COMPLETED → E.Finished s.1.user.1.objects) :
    (updateJobExecution e patch : Code α Unit).wp (E.logic client others)
      (fun _ s' => E.Settled e jobId P s'.1) s := by
  refine ChunkStepExecutor.wp_orThrow.mpr (Prog.wp_perform.mpr ⟨trivial, ?_⟩)
  intro r s' ht
  have hs' : { s.1 with repo := (s.1.repo.updateJobExecution e patch).2 } = s'.1 :=
    congrArg (fun t => t.2.1) ht
  have hsettled : E.Settled e jobId P s'.1 := by
    rw [← hs']
    exact ⟨h.clean.updateJob hpatch, h.finished⟩
  cases r with
  | error err => exact hsettled
  | ok u => exact hsettled

/-! ### Entering the step -/

/-- The context a restart resumes from is one to resume from. -/
theorem wp_restartStepContext (h : E.Settled e jobId False s.1) (hid : R.execution.id = e)
    (step : StepDefinition) :
    (R.restartStepContext step : Code α (Option ExecutionContext)).wp (E.logic client others)
      (fun out s' => E.Settled e jobId False s'.1 ∧ ∀ ctx, out = .ok (some ctx) →
        E.Resumes s'.1.user.1.objects ctx.data) s := by
  have hnothing {s' : World (S3State × υ) × Calls α} (h' : E.Settled e jobId False s'.1) :
      E.Settled e jobId False s'.1 ∧ ∀ ctx,
        (.ok none : Except Thrown (Option ExecutionContext)) = .ok (some ctx) →
          E.Resumes s'.1.user.1.objects ctx.data := ⟨h', fun _ h => by cases h⟩
  unfold JobExecutor.Run.restartStepContext
  split
  · refine Prog.wp_bind.mpr (Prog.wp_perform.mpr ⟨trivial, ?_⟩)
    intro found s₁ ht₁
    have hs₁ : s.1 = s₁.1 := congrArg (fun t => t.2.1) ht₁
    have hfound : s.1.repo.findLatestStepExecution R.execution.id step.id = found :=
      congrArg Prod.fst ht₁
    rw [hs₁] at h hfound
    cases found with
    | none => exact hnothing h
    | some prior =>
        change Prog.wp _ (if prior.status = .FAILED then _ else _) _ _
        split
        · refine Prog.wp_bind.mpr (Prog.wp_perform.mpr ⟨trivial, ?_⟩)
          intro ctx s₂ ht₂
          have hs₂ : s₁.1 = s₂.1 := congrArg (fun t => t.2.1) ht₂
          have hctx : s₁.1.repo.getExecutionContext (.stepExecutionId prior.id) = ctx :=
            congrArg Prod.fst ht₂
          have hrow := InMemoryJobRepository.get?_of_findLatest h.clean.filed hfound
          have howner : prior.jobExecutionId = e :=
            (InMemoryJobRepository.jobExecutionId_of_findLatest hfound).trans hid
          have hresumes := h.clean.contexts prior.id prior hrow howner
          rw [hctx, hs₂] at hresumes
          refine ⟨hs₂ ▸ h, ?_⟩
          intro _ hcase
          cases hcase
          exact hresumes
        · exact hnothing h
  · exact hnothing h

/-- A new step execution, with the context it resumes from. -/
theorem wp_enterStep {β : Type} {ctx : Option ExecutionContext} {f : StepExecution → Code α β}
    {Q : Except Thrown β → World (S3State × υ) × Calls α → Prop}
    (h : E.Settled e jobId False s.1) (name : String)
    (hctx : ∀ c, ctx = some c → E.Resumes s.1.user.1.objects c.data)
    (hf : ∀ se s', E.Entered e jobId se.id s'.1 → (f se).wp (E.logic client others) Q s') :
    (createStepExecution e name >>= fun se =>
      JobExecutor.Run.copyContext se ctx >>= fun _ => f se).wp (E.logic client others) Q s := by
  refine Prog.wp_bind.mpr (Prog.wp_perform.mpr ⟨trivial, ?_⟩)
  intro se s₁ ht₁
  have hse : (s.1.repo.createStepExecution e name).1 = se := congrArg Prod.fst ht₁
  have hs₁ : { s.1 with repo := (s.1.repo.createStepExecution e name).2 } = s₁.1 :=
    congrArg (fun t => t.2.1) ht₁
  have hclean := h.clean.createStep e name
  have hrow : (s.1.repo.createStepExecution e name).2.stepExecutions.get? se.id =
      some (InMemoryJobRepository.newStepExecution s.1.repo.nextId e name) := by
    rw [← hse]
    exact JsMap.get?_set_self _ _ _
  have hentered : E.Entered e jobId se.id s₁.1 := by
    rw [← hs₁]
    exact ⟨hclean, _, hrow, rfl⟩
  cases ctx with
  | none => exact hf se s₁ hentered
  | some c =>
      refine Prog.wp_bind.mpr (Prog.wp_perform.mpr ⟨trivial, ?_⟩)
      intro _ s₂ ht₂
      have hs₂ : { s₁.1 with repo := s₁.1.repo.saveExecutionContext (.stepExecutionId se.id) c } =
          s₂.1 := congrArg (fun t => t.2.1) ht₂
      have hobjects : s₁.1.user.1.objects = s.1.user.1.objects :=
        (congrArg (fun w => w.user.1.objects) hs₁).symm
      obtain ⟨row, hfound, howner⟩ := hentered.row
      have hsaved := hentered.clean.save hfound (hobjects ▸ hctx c rfl)
      refine hf se s₂ ?_
      rw [← hs₂]
      exact ⟨hsaved, row, hfound, howner⟩

/-- The code around the streams has steps reported as it always does. -/
theorem environment_reports (E : S3Export α) (client : S3ObjectClient υ)
    {reports : StepStatus → String → Prop} (h : others.Reports reports) :
    (E.environment client others).Reports reports where
  afterStep fn ctx result user saved := h.afterStep fn ctx result user.2 saved
  decide fn ctx user saved status := h.decide fn ctx user.2 saved status

variable (hfits : E.Fits client others)
include hfits

theorem settled_frame {K : List OpKind} (hK : ∀ k ∈ K, k ∉ s3Kinds) (P : Prop) :
    (E.logic client others).Frame (On K) fun s => E.Settled e jobId P s.1 where
  guard _ _ _ _ := trivial
  keep o s r s' ho hs ht := by
    cases ht
    exact hs.of_at (handle_at hfits (hK _ ho) s.1)
  loops h := h.elim

/-- Code that is none of the streams', and touches no row. -/
theorem wp_aside {β : Type} {K : List OpKind} (hK : ∀ k ∈ K, k ∉ s3Kinds) {p : Code α β}
    (hp : p.Uses (On K)) (h : E.Settled e jobId P s.1) :
    p.wp (E.logic client others) (fun _ s' => E.Settled e jobId P s'.1) s :=
  Prog.wp_of_uses hp (settled_frame hfits hK P) h

/-- A status write at the current time, and what follows it. -/
theorem wp_seq_writeStatus {β : Type} {patch : Time → JobExecutionPatch} {p : Code α β}
    {Q : Except Thrown β → World (S3State × υ) × Calls α → Prop} (h : E.Settled e jobId P s.1)
    (hpatch : ∀ time, (patch time).status = some .COMPLETED → P)
    (hok : ∀ s', E.Settled e jobId P s'.1 → p.wp (E.logic client others) Q s')
    (herr : ∀ err s', E.Settled e jobId P s'.1 → Q (.error err) s') :
    (now >>= fun time => updateJobExecution e (patch time) >>= fun _ => p).wp
      (E.logic client others) Q s := by
  refine Prog.wp_seq (wp_aside (K := [.clock]) hfits (by decide) (uses_now (by decide)) h) ?_ herr
  intro time s₁ h₁
  exact Prog.wp_seq (wp_updateJob h₁ fun hstatus => h₁.finished (hpatch time hstatus))
    (fun _ s₂ h₂ => hok s₂ h₂) herr

/-! ### The step of a run -/

/-- How a step ends: unless it reports a failure, everything is stored. -/
def Reported (E : S3Export α) (reports : StepStatus → String → Prop) (e jobId : String) :
    Except Thrown StepResult → World (S3State × υ) × Calls α → Prop
  | .ok result, s =>
      E.Settled e jobId (result.status ≠ .FAILED) s.1 ∧ result.ReportedUnder reports
  | .error _, s => E.Settled e jobId False s.1

section Step

variable (hwell : E.WellFormed) {reports : StepStatus → String → Prop}
  (hreports : others.Reports reports) (hcompleted : reports .COMPLETED "COMPLETED")
  (hfailed : reports .FAILED "FAILED") (hpartition : R.partition = {})
  (hsize : 0 < E.step.chunkSize) {fuel : Nat} (hfuel : (splitLines E.body).length < fuel)
include hwell hreports hcompleted hfailed hpartition hsize hfuel

/-- A dispatched chunk step reports as the export does, its failures included. -/
theorem wp_orFailStep {se : StepExecution} {resume : Option Int}
    (h : E.Entered e jobId se.id s.1) :
    (JobExecutor.Run.orFailStep se (R.dispatch fuel (.chunk E.step) se resume) :
      Code α StepResult).wp (E.logic client others) (E.Reported reports e jobId) s := by
  have hargs : R.partitionArgs.partitionIndex = none := by
    unfold JobExecutor.Run.partitionArgs
    rw [hpartition]
    split <;> rfl
  have hplain : Plain se.id (R.chunkContext se E.step resume) := ⟨rfl, rfl, rfl, hargs⟩
  have hunder := ChunkStepExecutor.execute_reports (environment_reports E client hreports)
    hcompleted hfailed fuel E.step (R.chunkContext se E.step resume) s
  refine Prog.wp_tryCatch.mpr (Prog.wp_mono
    (Prog.wp_total_and (wp_execute hfits hwell hplain hsize hfuel h) hunder) ?_)
  intro out s₁ hcase
  obtain ⟨⟨hclean, hresult⟩, hreported⟩ := hcase
  cases out with
  | ok result =>
      refine ⟨⟨hclean, fun hstatus => ?_⟩, hreported result rfl⟩
      exact ((hresult result rfl).resolve_right hstatus).finished
  | error err =>
      refine Prog.wp_bind.mpr ((Prog.wp_ofExcept _).mpr ?_)
      cases err.text with
      | error thrown => exact hclean.settled
      | ok exitMessage =>
          refine Prog.wp_seq (wp_aside (K := [.clock]) hfits (by decide) (uses_now (by decide))
            hclean.settled) ?_ fun _ _ h => h
          intro endTime s₂ h₂
          exact Prog.wp_seq (wp_updateStep h₂ se.id _) (fun _ _ h => h) fun _ _ h => h

/-- From its start event to its persisted result. -/
theorem wp_runCreated {se : StepExecution} {resume : Option Int}
    (h : E.Entered e jobId se.id s.1) :
    (R.runCreated fuel (.chunk E.step) se resume : Code α StepResult).wp (E.logic client others)
      (E.Reported reports e jobId) s := by
  have hframe : (E.logic client others).Frame (On [.clock, .emit])
      fun s => E.Entered e jobId se.id s.1 := entered_frame hfits (by decide)
  refine Prog.wp_seq (Prog.wp_of_uses (uses_now (by decide)) hframe h) ?_
    fun _ _ h => h.clean.settled
  intro startedAt s₁ h₁
  refine Prog.wp_seq (Prog.wp_of_uses (uses_emit (by decide) _) hframe h₁) ?_
    fun _ _ h => h.clean.settled
  intro _ s₂ h₂
  refine Prog.wp_seq (wp_orFailStep hfits hwell hreports hcompleted hfailed hpartition hsize
    hfuel h₂) ?_ fun _ _ h => h
  intro result s₃ hcase
  obtain ⟨h₃, hunder⟩ := hcase
  have hweaken {s' : World (S3State × υ) × Calls α}
      (h' : E.Settled e jobId (result.status ≠ .FAILED) s'.1) : E.Settled e jobId False s'.1 :=
    h'.clean.settled
  refine Prog.wp_seq (wp_aside (K := [.clock]) hfits (by decide) (uses_now (by decide)) h₃) ?_
    fun _ _ h => hweaken h
  intro endTime s₄ h₄
  refine Prog.wp_seq (wp_updateStep h₄ se.id _) ?_ fun _ _ h => hweaken h
  intro _ s₅ h₅
  refine Prog.wp_seq (wp_aside (K := [.clock]) hfits (by decide) (uses_now (by decide)) h₅) ?_
    fun _ _ h => hweaken h
  intro emittedAt s₆ h₆
  exact Prog.wp_seq (wp_aside (K := [.emit]) hfits (by decide) (uses_emit (by decide) _) h₆)
    (fun _ _ h => ⟨h, hunder⟩) fun _ _ h => hweaken h

/-- The step of a run, from its lookup to its persisted result. -/
theorem wp_runStep (hid : R.execution.id = e) (h : E.Settled e jobId False s.1) :
    (R.runStep fuel (.chunk E.step) : Code α (StepExecution × StepResult)).wp
      (E.logic client others) (fun out s' => E.Reported reports e jobId (out.map Prod.snd) s')
      s := by
  refine Prog.wp_seq (wp_restartStepContext h hid _) ?_ fun _ _ h => h.1
  intro ctx s₁ hcase
  obtain ⟨h₁, hctx⟩ := hcase
  rw [hid]
  refine wp_enterStep h₁ _ (fun c hc => hctx c (congrArg Except.ok hc)) fun se s₂ h₂ => ?_
  exact Prog.wp_seq
    (wp_runCreated hfits hwell hreports hcompleted hfailed hpartition hsize hfuel h₂)
    (fun _ _ h => h) fun _ _ h => h

end Step

/-! ### The run -/

/-- Failing the job leaves the store settled and reports no completion. -/
theorem wp_failJob (h : E.Settled e jobId P s.1) (hid : R.execution.id = e)
    (exitCode exitMessage : String) :
    (R.failJob exitCode exitMessage : Code α JobStatus).wp (E.logic client others)
      (fun out s' => E.Settled e jobId False s'.1 ∧ ∀ status, out = .ok status →
        status = .FAILED) s := by
  unfold JobExecutor.Run.failJob
  rw [hid]
  refine wp_seq_writeStatus hfits h (fun _ h => by cases h) ?_ ?_
  · intro s' h'
    refine ⟨h'.clean.settled, ?_⟩
    intro _ hcase
    cases hcase
    rfl
  · exact fun _ _ h' => ⟨h'.clean.settled, fun _ h => by cases h⟩

/-- The catch block leaves the store settled. -/
theorem wp_onError (h : E.Settled e jobId P s.1) (hid : R.execution.id = e) (err : Thrown) :
    (R.onError err : Code α JobStatus).wp (E.logic client others)
      (fun _ s' => E.Settled e jobId False s'.1) s := by
  unfold JobExecutor.Run.onError
  rw [hid]
  refine Prog.wp_seq (wp_aside (K := [.clock]) hfits (by decide) (uses_now (by decide)) h) ?_
    fun _ _ h' => h'.clean.settled
  intro endTime s₁ h₁
  refine Prog.wp_bind.mpr ((Prog.wp_ofExcept _).mpr ?_)
  cases err.text with
  | error thrown => exact h₁.clean.settled
  | ok exitMessage =>
      exact Prog.wp_seq (wp_updateJob h₁ fun hstatus => by cases hstatus)
        (fun _ _ h₂ => h₂.clean.settled) fun _ _ h₂ => h₂.clean.settled

/-- Completing the job leaves the store settled. -/
theorem wp_completeJob {finalStatus : JobStatus}
    (h : E.Settled e jobId (finalStatus = .COMPLETED) s.1) (hid : R.execution.id = e) :
    (R.completeJob finalStatus : Code α JobStatus).wp (E.logic client others)
      (fun _ s' => E.Settled e jobId False s'.1) s := by
  unfold JobExecutor.Run.completeJob
  rw [hid]
  split
  · next hcompleted =>
      exact wp_seq_writeStatus hfits h (fun _ _ => hcompleted) (fun _ h' => h'.clean.settled)
        fun _ _ h' => h'.clean.settled
  · exact h.clean.settled

section Job

variable (hwell : E.WellFormed) {reports : StepStatus → String → Prop}
  (hreports : others.Reports reports) (hid : R.execution.id = e) (hpartition : R.partition = {})
  (hjob : R.jobDef.IsSingleStep E.step reports) (hsize : 0 < E.step.chunkSize) {fuel : Nat}
  (hfuel : (splitLines E.body).length < fuel)
include hwell hreports hid hpartition hjob hsize hfuel

/-- The step loop makes one turn. -/
theorem wp_stepLoop (h : E.Settled e jobId False s.1) (turns : Nat) :
    (R.stepLoop fuel (turns + 1) R.jobDef.startStepId : Code α JobStatus).wp
      (E.logic client others) (fun out s' => match out with
        | .ok finalStatus => E.Settled e jobId (finalStatus = .COMPLETED) s'.1
        | .error _ => E.Settled e jobId False s'.1) s := by
  unfold JobExecutor.Run.stepLoop
  rw [hjob.start]
  refine Prog.wp_seq (wp_runStep hfits hwell hreports hjob.completed hjob.failed hpartition hsize
    hfuel hid h) ?_ fun _ _ h => h
  intro hcase s₁ hgiven
  obtain ⟨se, result⟩ := hcase
  obtain ⟨h₁, hunder⟩ := hgiven
  have hdecider := JobExecutor.Run.wp_decider_reports
    (environment_reports E client hreports) R R.jobDef.startStepId
    { jobExecution := R.execution, stepId := E.step.id, stepExecutionId := se.id
      stepStatus := result.status, exitCode := result.exitCode
      exitMessage := result.exitMessage } s₁
  refine Prog.wp_seq (Prog.wp_total_and (wp_aside (K := [.decide]) hfits (by decide)
    (R.uses_resolveDecider (by decide) _ _) h₁) hdecider) ?_ fun _ _ h => h.1.clean.settled
  intro decider s₂ hcase
  obtain ⟨h₂, hanswer⟩ := hcase
  have hreported : reports result.status (JobExecutor.Run.flowExitStatus decider result) :=
    JobExecutor.Run.reported_of_decider hunder
      fun answer heq => hanswer answer (congrArg Except.ok heq)
  rw [hjob.ends decider result hreported]
  by_cases hfailed : result.status = .FAILED
  · rw [if_pos hfailed]
    refine Prog.wp_mono (wp_failJob hfits h₂ hid result.exitCode result.exitMessage) ?_
    intro out s₃ hcase
    obtain ⟨h₃, hstatus⟩ := hcase
    cases out with
    | error err => exact h₃
    | ok status =>
        obtain rfl := hstatus status rfl
        exact ⟨h₃.clean, fun h => by cases h⟩
  · rw [if_neg hfailed]
    exact ⟨h₂.clean, fun _ => h₂.finished hfailed⟩

/-- The loop, the final write and the catch block. -/
theorem wp_drive (h : E.Settled e jobId False s.1) :
    (R.drive fuel : Code α JobStatus).wp (E.logic client others)
      (fun _ s' => E.Settled e jobId False s'.1) s := by
  obtain ⟨turns, rfl⟩ : ∃ turns, fuel = turns + 1 := ⟨fuel - 1, by omega⟩
  refine Prog.wp_tryCatch.mpr (Prog.wp_seq
    (wp_stepLoop hfits hwell hreports hid hpartition hjob hsize hfuel h turns) ?_ ?_)
  · intro finalStatus s₁ h₁
    refine Prog.wp_mono (wp_completeJob hfits h₁ hid) ?_
    intro out s₂ h₂
    cases out with
    | ok status => exact h₂
    | error err => exact wp_onError hfits h₂ hid err
  · exact fun err s₁ h₁ => wp_onError hfits h₁ hid err

/-- **A run of the job** spoils nothing, and is COMPLETED only with everything stored. -/
theorem wp_proceed (h : E.Clean e jobId s.1) :
    (R.proceed fuel : Code α JobExecution).wp (E.logic client others)
      (fun _ s' => E.Clean e jobId s'.1) s := by
  have hbegin : (R.begin_ : Code α Unit).wp (E.logic client others)
      (fun _ s' => E.Settled e jobId False s'.1) s := by
    unfold JobExecutor.Run.begin_
    rw [hid]
    refine wp_seq_writeStatus hfits h.settled (fun _ h => by cases h) ?_ fun _ _ h => h
    intro s₁ h₁
    exact wp_aside (K := [.clock, .emit]) hfits (by decide) ((uses_now (by decide)).bind fun _ =>
      uses_emit (by decide) _) h₁
  refine Prog.wp_seq hbegin ?_ fun _ _ h => h.clean
  intro _ s₁ h₁
  refine Prog.wp_seq (wp_aside (K := [.listener]) hfits (by decide)
    (uses_invokeMatching (by decide) _ _ _) h₁) ?_ fun _ _ h => h.clean
  intro _ s₂ h₂
  refine Prog.wp_seq (wp_drive hfits hwell hreports hid hpartition hjob hsize hfuel h₂) ?_
    fun _ _ h => h.clean
  intro finalStatus s₃ h₃
  have hfinish : (R.finish finalStatus : Code α Unit).Uses (On [.listener, .clock, .emit]) :=
    (uses_invokeMatching (by decide) _ _ _).bind fun _ =>
      (uses_now (by decide)).bind fun _ => uses_emit (by decide) _
  refine Prog.wp_seq (wp_aside hfits (by decide) hfinish h₃) ?_ fun _ _ h => h.clean
  intro _ s₄ h₄
  have hget : (getJobExecution R.execution.id : Code α (Option JobExecution)).Uses
      (On [.getJob]) := uses_request (List.mem_singleton_self _)
  exact Prog.wp_seq (wp_aside hfits (by decide) hget h₄) (fun _ _ h => h.clean)
    fun _ _ h => h.clean

end Job

end Run

end S3Export

end NestBatch
