import NestBatch.Execution.JobFootprint
import NestBatch.Execution.ResumeJob

/-!
# One launch and any number of restarts

`History` collects what a launch of a job and restarts of its execution can make
of a world, each in an environment of its own and each with a fresh reader.  The
chunks passed in all of them together are the first ones of the list, each once,
and all of them if the execution is COMPLETED.
-/

namespace NestBatch

open ListenerInvoker
open JobExecutor.Run (Left Ready)

variable {α υ : Type}

/-- Where code leaves the world, with its calls written down. -/
def ranTo {β : Type} (env : Environment α υ) (p : Code α β) (s : World υ × Calls α) :
    World υ × Calls α := (p.run (handle env).traced s).2

/-- Code that meets a specification leaves the world in it. -/
theorem ranTo_of_wp {β : Type} {env : Environment α υ} {p : Code α β}
    {Q : Except Thrown β → World υ × Calls α → Prop} {s : World υ × Calls α}
    (h : p.wp (worldLogic env).total Q s) : ∃ out, Q out (ranTo env p s) := by
  obtain ⟨out, -, hout⟩ := Prog.wp_run_total h
  exact ⟨out, hout⟩

section Explorer

variable {env : Environment α υ} {items : List α} {step : ChunkStepDefinition} {pos : υ → Nat}
  {e jobId : String} {status : JobStatus} {s : World υ × Calls α}

/-- Loading the contexts of steps only loads. -/
theorem JobExplorer.uses_stepContexts {K : List OpKind} {loops : Prop} (h : .loadContext ∈ K)
    (steps : List StepExecution) :
    (stepContexts steps : Code α (List (String × ExecutionContext))).Uses (On K loops) := by
  induction steps with
  | nil => trivial
  | cons step rest ih => exact (uses_request h).bind fun _ => ih.bind fun _ => trivial

/-- Loading the contexts of steps does not throw. -/
theorem JobExplorer.returns_stepContexts (steps : List StepExecution) :
    (stepContexts steps : Code α (List (String × ExecutionContext))).Returns fun _ => True := by
  induction steps with
  | nil => trivial
  | cons step rest ih => exact fun _ => ih.bind fun _ _ => trivial

/-- The explorer only looks. -/
theorem JobExplorer.uses_getJobExecutionDetails (executionId : String) :
    (getJobExecutionDetails executionId : Code α JobExecutionDetails).Uses (On lookingKinds) := by
  have hgetJob : OpKind.getJob ∈ lookingKinds := by decide
  have hgetInstance : OpKind.getInstance ∈ lookingKinds := by decide
  have hfind : OpKind.findSteps ∈ lookingKinds := by decide
  have hload : OpKind.loadContext ∈ lookingKinds := by decide
  refine (uses_request hgetJob).bind fun jobExecution => ?_
  cases jobExecution with
  | none => trivial
  | some jobExecution =>
      refine (uses_request hgetInstance).bind fun jobInstance => ?_
      cases jobInstance with
      | none => trivial
      | some jobInstance =>
          refine (uses_request hfind).bind fun steps => (uses_request hload).bind fun _ => ?_
          exact (uses_stepContexts hload steps).bind fun _ => trivial

variable (hkeeps : env.KeepsCheckpoint) (hreplays : env.Replays items step pos)
include hkeeps hreplays

/-- Looking at an execution that is on file shows its row and its instance. -/
theorem JobExplorer.wp_getJobExecutionDetails (hrow : HasRow e jobId status s.1.repo) :
    (getJobExecutionDetails e : Code α JobExecutionDetails).wp (worldLogic env).total
      (fun out s' => (Kept pos s s' ∧ s'.1.repo.executions = s.1.repo.executions) ∧
        ∃ details, out = .ok details ∧ details.jobExecution.id = e ∧
          details.jobExecution.status = status ∧ details.jobInstance.jobName = jobId) s := by
  have hkept := Prog.wp_of_uses (JobExplorer.uses_getJobExecutionDetails e)
    (looking_frame hkeeps hreplays s) ⟨.refl s, rfl⟩
  refine Prog.wp_and hkept ?_
  obtain ⟨row, inst, hget, hid, hstatus, hinst, hname⟩ := hrow
  have hfind : OpKind.findSteps ∈ lookingKinds := by decide
  have hload : OpKind.loadContext ∈ lookingKinds := by decide
  have hgetJob : OpKind.getJob ∈ lookingKinds := by decide
  have hgetInstance : OpKind.getInstance ∈ lookingKinds := by decide
  refine Prog.wp_bind.mpr (Prog.wp_perform.mpr ⟨trivial, ?_⟩)
  intro found s₁ ht₁
  have hkept₁ := (looking_frame hkeeps hreplays s).keep _ s found s₁ hgetJob ⟨.refl s, rfl⟩ ht₁
  have hfound : found = some row := (congrArg Prod.fst ht₁).symm.trans hget
  subst hfound
  refine Prog.wp_bind.mpr (Prog.wp_perform.mpr ⟨trivial, ?_⟩)
  intro found s₂ ht₂
  have hfound : found = some inst := by
    have hlooked : s₁.1.repo.getJobInstance row.jobInstanceId = found := congrArg Prod.fst ht₂
    unfold InMemoryJobRepository.getJobInstance at hinst hlooked
    rw [← hlooked, hkept₁.1.instances, hinst]
  subst hfound
  have huses : (do
      let stepExecutions ← findStepExecutions e
      let jobContext ← getExecutionContext (.jobExecutionId e)
      let contexts ← JobExplorer.stepContexts stepExecutions
      .pure { jobInstance := inst, jobExecution := row
              stepExecutions := stepExecutions, jobContext := jobContext
              stepContexts := contexts } : Code α JobExecutionDetails).Uses (On lookingKinds) :=
    (uses_request hfind).bind fun steps => (uses_request hload).bind fun _ =>
      (JobExplorer.uses_stepContexts hload steps).bind fun _ => trivial
  refine Prog.wp_mono (Prog.wp_of_returns (R := fun details =>
    details.jobExecution = row ∧ details.jobInstance = inst) huses ?_
    (looking_frame hkeeps hreplays s₂) ⟨.refl s₂, rfl⟩) ?_
  · exact fun steps _ => (JobExplorer.returns_stepContexts steps).bind fun _ _ => ⟨rfl, rfl⟩
  · intro out s' h
    obtain ⟨details, hout, hexecution, hinstance⟩ := h
    exact ⟨details, hout, hexecution ▸ hid, hexecution ▸ hstatus, hinstance ▸ hname⟩

end Explorer

/-! ### A restart -/

section Runs

variable {env : Environment α υ} {items : List α} {step : ChunkStepDefinition} {pos : υ → Nat}
  {host : Host α} {job : JobDefinition} {jobId e : String} {m : Nat} {status : JobStatus}
  {s : World υ × Calls α}

variable {reports : StepStatus → String → Prop} (hkeeps : env.KeepsCheckpoint)
  (hreplays : env.Replays items step pos) (htexts : env.ThrowsTexts)
  (hreports : env.Reports reports) (hjob : job.IsSingleStep step reports)
  (hsize : 0 < step.chunkSize) (hfuel : items.length < host.fuel)
  (hget : host.registry.get jobId = .ok job)
include hkeeps hreplays htexts hreports hjob hsize hfuel

/-- A restartable job is let in, and run. -/
theorem wp_execute_single {execution : JobExecution}
    (h : Ready items step pos { execution := execution, jobDef := job, partition := {} } jobId
      status m s) :
    (JobExecutor.execute host.fuel execution job {} : Code α JobExecution).wp
      (worldLogic env).total (fun _ s' => ∃ m' status',
        Left items step execution.id jobId status' m' s') s := by
  unfold JobExecutor.execute
  rw [if_neg (by simp [hjob.restartable])]
  exact JobExecutor.Run.wp_proceed hkeeps hreplays htexts hreports hjob rfl hsize hfuel h

include hget

/-- A restart takes up what the runs before it left, and leaves the like. -/
theorem wp_restart (h : Left items step e jobId status m s) (hpos : pos s.1.user = 0) :
    (JobOperator.restart host e : Code α JobExecutionDetails).wp (worldLogic env).total
      (fun _ s' => ∃ m' status', Left items step e jobId status' m' s') s := by
  refine Prog.wp_seq (JobExplorer.wp_getJobExecutionDetails hkeeps hreplays h.row) ?_ ?_
  · intro details s₁ h₁
    obtain ⟨⟨hkept, hsame⟩, details', hout, hid, hstatus, hname⟩ := h₁
    obtain rfl := Except.ok.inj hout
    have hleft := h.keep hkept (h.row.congr hsame hkept.instances)
    dsimp only
    split
    · exact ⟨m, status, hleft⟩
    · next hallowed =>
        have hfailed : status = .FAILED := by
          by_cases hf : status = .FAILED
          · exact hf
          · exact absurd ⟨hstatus ▸ hf, hstatus ▸ h.running⟩ hallowed
        have hready : Ready items step pos
            { execution := details.jobExecution, jobDef := job, partition := {} } jobId status m
            s₁ := by
          refine ⟨hleft.filed, hid ▸ hleft.row, hkept.position.trans hpos, hleft.passes,
            fun _ => hid ▸ hleft.failed hfailed, fun hlaunch => ?_⟩
          simp [JobExecutor.Run.isRestart, JobExecutor.isRestart, hstatus, hfailed] at hlaunch
        rw [hname, hget]
        refine Prog.wp_bind.mpr ((Prog.wp_ofExcept _).mpr (Prog.wp_seq
          (wp_execute_single hkeeps hreplays htexts hreports hjob hsize hfuel hready) ?_ ?_))
        · intro execution s₂ h₂
          obtain ⟨m', status', h₂⟩ := h₂
          rw [hid] at h₂
          refine Prog.wp_mono (Prog.wp_of_uses
            (JobExplorer.uses_getJobExecutionDetails execution.id)
            (looking_frame hkeeps hreplays s₂) ⟨.refl s₂, rfl⟩) ?_
          intro out s₃ h₃
          exact ⟨m', status', h₂.keep h₃.1 (h₂.row.congr h₃.2 h₃.1.instances)⟩
        · intro err s₂ h₂
          exact hid ▸ h₂
  · intro err s₁ h₁
    obtain ⟨-, details, hout, -⟩ := h₁
    cases hout

end Runs

/-! ### A launch -/

/-- Steps are run in the process of the caller. -/
def Host.RunsInProcess (host : Host α) : Prop :=
  host.strategy = none ∨
    ∃ mode, host.strategy = some (InProcessExecutionStrategy.launch mode host.fuel)

/-- Handing an execution over in process performs what a run does. -/
theorem JobLauncher.uses_handOver {host : Host α} (hstrategy : host.RunsInProcess)
    (jobDef : JobDefinition) (params : JobParameters) (execution : JobExecution) :
    (handOver host jobDef params execution : Code α JobExecution).Uses (Looping runKinds) := by
  have hgetJob : OpKind.getJob ∈ runKinds := by decide
  unfold handOver
  rcases hstrategy with hnone | ⟨mode, hmode⟩
  · rw [hnone]
    exact JobExecutor.uses_execute _ _ _ _
  · rw [hmode]
    refine Prog.Uses.bind ?_ fun _ => (uses_request hgetJob).bind fun _ => trivial
    refine (Prog.uses_ofExcept _).bind fun _ => (uses_request hgetJob).bind fun found => ?_
    cases found with
    | none => trivial
    | some found => exact (JobExecutor.uses_execute _ _ _ _).bind fun _ => trivial

/-- Making the key of a launch performs nothing but the drawing of a nonce. -/
theorem JobLauncher.wp_jobKey {env : Environment α υ} (items : List α) (step : ChunkStepDefinition)
    (host : Host α) (job : JobDefinition) (identifying : JobParameters) (w : World υ) :
    (jobKey host job identifying : Code α String).wp (worldLogic env).total (fun out s' =>
      (∃ key, out = .ok key) ∧ s'.1.repo = w.repo ∧ s'.1.user = w.user ∧
        PassesUpTo items step s'.2 0) (w, []) := by
  have hpasses : PassesUpTo items step ([] : Calls α) 0 := .nil items step
  unfold jobKey
  split
  · refine Prog.wp_bind.mpr (Prog.wp_perform.mpr ⟨trivial, ?_⟩)
    intro nonce s₁ ht₁
    cases ht₁
    exact ⟨⟨_, rfl⟩, rfl, rfl, hpasses.keep (by simp [Op.kind]) (by simp [Op.kind]) _⟩
  · exact ⟨⟨_, rfl⟩, rfl, rfl, hpasses⟩

section Runs

variable {env : Environment α υ} {items : List α} {step : ChunkStepDefinition} {pos : υ → Nat}
  {host : Host α} {job : JobDefinition} {jobId e : String} {s : World υ × Calls α}

variable {reports : StepStatus → String → Prop} (hkeeps : env.KeepsCheckpoint)
  (hreplays : env.Replays items step pos) (htexts : env.ThrowsTexts)
  (hreports : env.Reports reports) (hjob : job.IsSingleStep step reports)
  (hsize : 0 < step.chunkSize) (hfuel : items.length < host.fuel)
  (hstrategy : host.RunsInProcess)
include hkeeps hreplays htexts hreports hjob hsize hfuel hstrategy

/-- A new execution is run from the start of the list, however it is handed over. -/
theorem JobLauncher.wp_handOver {execution : JobExecution} (params : JobParameters)
    (hstarting : execution.status = .STARTING)
    (h : Ready items step pos { execution := execution, jobDef := job, partition := {} } jobId
      .STARTING 0 s) :
    (handOver host job params execution : Code α JobExecution).wp (worldLogic env).total
      (fun _ s' => ∃ m status, Left items step execution.id jobId status m s') s := by
  have hgetJob : OpKind.getJob ∈ lookingKinds := by decide
  unfold handOver
  rcases hstrategy with hnone | ⟨mode, hmode⟩
  · rw [hnone]
    exact wp_execute_single hkeeps hreplays htexts hreports hjob hsize hfuel h
  · rw [hmode]
    refine Prog.wp_seq (R := fun _ s' => ∃ m status, Left items step execution.id jobId status m s')
      ?_ ?_ fun _ _ h => h
    · refine Prog.wp_bind.mpr ((Prog.wp_ofExcept _).mpr ?_)
      cases InProcessExecutionStrategy.assertPartitionsSupported mode job.steps.entries with
      | error err => exact ⟨0, .STARTING, h.left rfl⟩
      | ok u =>
          refine Prog.wp_bind.mpr (Prog.wp_perform.mpr ⟨trivial, ?_⟩)
          intro found s₁ ht₁
          obtain ⟨row, inst, hrow, hid, hstatus, hinst⟩ := h.row
          have hkept :=
            (looking_frame hkeeps hreplays s).keep _ s found s₁ hgetJob ⟨.refl s, rfl⟩ ht₁
          have hfound : found = some row := (congrArg Prod.fst ht₁).symm.trans hrow
          subst hfound
          have hready : Ready items step pos { execution := row, jobDef := job, partition := {} }
              jobId .STARTING 0 s₁ := by
            have hlaunch : JobExecutor.isRestart execution = JobExecutor.isRestart row := by
              unfold JobExecutor.isRestart
              rw [hstarting, hstatus]
            have h₁ := h.keep hkept.1 (h.row.congr hkept.2 hkept.1.instances)
            refine ⟨h₁.filed, ?_, h₁.position, h₁.passes, ?_, ?_⟩
            · exact hid ▸ h₁.row
            · intro hrestart
              rw [JobExecutor.Run.isRestart, ← hlaunch, JobExecutor.isRestart, hstarting]
                at hrestart
              cases hrestart
            · intro hrestart
              exact h₁.launch (hlaunch.trans hrestart)
          refine Prog.wp_seq
            (wp_execute_single hkeeps hreplays htexts hreports hjob hsize hfuel hready) ?_
            fun _ _ h => hid ▸ h
          intro finished s₂ h₂
          exact hid ▸ h₂
    · intro _ s₁ h₁
      obtain ⟨m, status, h₁⟩ := h₁
      exact JobExecutor.Run.wp_seq_look (o := .getJobExecution execution.id)
        (R := { execution := execution, jobDef := job, partition := {} }) hkeeps hreplays hgetJob
        h₁.row fun latest s' hkept hrow => ⟨m, status, h₁.keep hkept hrow⟩

/-- A launch makes one execution, and runs it from the start of the list. -/
theorem JobLauncher.wp_launch (hget : host.registry.get jobId = .ok job) (params : JobParameters)
    (identifying : Option JobParameters) (hfiled : s.1.repo.Filed jobId) (hpos : pos s.1.user = 0)
    (hcalls : s.2 = []) (hnew : s.1.repo.getJobExecution e = none) :
    (launch host jobId params identifying : Code α JobExecution).wp (worldLogic env).total
      (fun _ s' => (s'.1.repo.getJobExecution e).isSome →
        ∃ m status, Left items step e jobId status m s') s := by
  obtain ⟨w, calls⟩ := s
  obtain rfl : calls = [] := hcalls
  unfold launch
  rw [hget]
  refine Prog.wp_bind.mpr ((Prog.wp_ofExcept _).mpr ?_)
  refine Prog.wp_seq (wp_jobKey items step host job _ w) ?_ ?_
  · intro key s₁ h₁
    obtain ⟨w₁, calls₁⟩ := s₁
    obtain ⟨-, hrepo, huser, hpasses⟩ := h₁
    dsimp only at hrepo huser hpasses
    rw [← hrepo] at hfiled
    change w.repo.getJobExecution e = none at hnew
    rw [← hrepo] at hnew
    refine Prog.wp_bind.mpr (ChunkStepExecutor.wp_orThrow.mpr (Prog.wp_perform.mpr ⟨trivial, ?_⟩))
    intro r s₂ ht₂
    have hr : (w₁.repo.createExecutionAtomic w₁.clock jobId key params).1 = r :=
      congrArg Prod.fst ht₂
    have hs₂ : ({ w₁ with repo := (w₁.repo.createExecutionAtomic w₁.clock jobId key params).2 },
        calls₁ ++ [⟨.createExecutionAtomic jobId key params,
          (w₁.repo.createExecutionAtomic w₁.clock jobId key params).1⟩]) = s₂ :=
      congrArg Prod.snd ht₂
    subst hs₂
    have hpasses₂ := hpasses.keep (o := .createExecutionAtomic jobId key params)
      (by simp [Op.kind]) (by simp [Op.kind])
      (w₁.repo.createExecutionAtomic w₁.clock jobId key params).1
    cases r with
    | error err =>
        intro hcreated
        have hsame := InMemoryJobRepository.createExecutionAtomic_error hr
        unfold InMemoryJobRepository.getJobExecution at hnew hcreated
        rw [hsame, hnew] at hcreated
        cases hcreated
    | ok execution =>
        obtain ⟨hstarting, hrow, hsteps, hcontext, hexecutions⟩ := hfiled.createExecution hr
        have hready : Ready items step pos
            { execution := execution, jobDef := job, partition := {} } jobId .STARTING 0
            ({ w₁ with repo := (w₁.repo.createExecutionAtomic w₁.clock jobId key params).2 },
              calls₁ ++ [⟨.createExecutionAtomic jobId key params,
                (w₁.repo.createExecutionAtomic w₁.clock jobId key params).1⟩]) := by
          refine ⟨hsteps, hrow, (congrArg pos huser).trans hpos, hpasses₂, ?_, fun _ => ⟨rfl, ?_⟩⟩
          · intro hrestart
            simp [JobExecutor.Run.isRestart, JobExecutor.isRestart, hstarting] at hrestart
          · unfold World.checkpoint InMemoryJobRepository.getExecutionContext
            rw [hcontext]
            rfl
        have hrun := JobLauncher.wp_handOver hkeeps hreplays htexts hreports hjob hsize hfuel
          hstrategy params hstarting hready
        by_cases he : e = execution.id
        · refine Prog.wp_mono hrun ?_
          intro out s₃ h₃ _
          exact he ▸ h₃
        · -- no other execution appears while the new one is run
          have habsent := Prog.wp_of_uses (s := ({ w₁ with repo :=
              (w₁.repo.createExecutionAtomic w₁.clock jobId key params).2 },
              calls₁ ++ [⟨.createExecutionAtomic jobId key params,
                (w₁.repo.createExecutionAtomic w₁.clock jobId key params).1⟩]))
            (JobLauncher.uses_handOver hstrategy job params execution)
            (absent_frame env (by decide) e) (by
              unfold InMemoryJobRepository.getJobExecution at hnew ⊢
              rw [hexecutions, JsMap.get?_set_of_ne _ _ he, hnew])
          refine Prog.wp_mono (Prog.wp_total_and hrun habsent) ?_
          intro out s₃ h₃ hcreated
          rw [h₃.2] at hcreated
          cases hcreated
  · intro err s₁ h₁
    obtain ⟨⟨key, hkey⟩, -⟩ := h₁
    cases hkey

end Runs

/-! ### Any number of restarts -/

/-- What a launch of the job, and then restarts of its execution `e`, each with a
fresh reader over the same items, can make of a world. -/
inductive History (host : Host α) (jobId : String) (items : List α) (step : ChunkStepDefinition)
    (reports : StepStatus → String → Prop) (e : String) : World υ × Calls α → Prop
  | launched {env : Environment α υ} {pos : υ → Nat} (hkeeps : env.KeepsCheckpoint)
      (hreplays : env.Replays items step pos) (htexts : env.ThrowsTexts)
      (hreports : env.Reports reports) {w : World υ} (hpos : pos w.user = 0)
      (hfiled : w.repo.Filed jobId) (hnew : w.repo.getJobExecution e = none)
      (params : JobParameters) (identifying : Option JobParameters)
      (hcreated : ((ranTo env (JobLauncher.launch host jobId params identifying)
        (w, [])).1.repo.getJobExecution e).isSome) :
      History host jobId items step reports e
        (ranTo env (JobLauncher.launch host jobId params identifying) (w, []))
  | restarted {s : World υ × Calls α} (h : History host jobId items step reports e s)
      {env : Environment α υ} {pos : υ → Nat} (hkeeps : env.KeepsCheckpoint)
      (hreplays : env.Replays items step pos) (htexts : env.ThrowsTexts)
      (hreports : env.Reports reports) {user : υ} (hpos : pos user = 0) :
      History host jobId items step reports e
        (ranTo env (JobOperator.restart host e) ({ s.1 with user := user }, s.2))

section History

variable {host : Host α} {job : JobDefinition} {jobId e : String} {items : List α}
  {step : ChunkStepDefinition} {reports : StepStatus → String → Prop} {s : World υ × Calls α}

/-- A fresh reader changes nothing in the repository. -/
theorem left_fresh {m : Nat} {status : JobStatus} (h : Left items step e jobId status m s)
    (user : υ) : Left items step e jobId status m ({ s.1 with user := user }, s.2) :=
  ⟨h.filed, h.row, h.passes, h.failed, h.completed, h.running⟩

/-- The invariant of a history. -/
theorem History.left (h : History host jobId items step reports e s)
    (hjob : job.IsSingleStep step reports) (hsize : 0 < step.chunkSize)
    (hfuel : items.length < host.fuel) (hstrategy : host.RunsInProcess)
    (hget : host.registry.get jobId = .ok job) :
    ∃ m status, Left items step e jobId status m s := by
  induction h with
  | launched hkeeps hreplays htexts hreports hpos hfiled hnew params identifying hcreated =>
      obtain ⟨out, hleft⟩ := ranTo_of_wp
        (JobLauncher.wp_launch (s := (_, [])) hkeeps hreplays htexts hreports hjob hsize hfuel
        hstrategy hget params identifying hfiled hpos rfl hnew)
      exact hleft hcreated
  | restarted h hkeeps hreplays htexts hreports hpos ih =>
      obtain ⟨m, status, hleft⟩ := ih
      obtain ⟨out, hleft'⟩ := ranTo_of_wp (wp_restart hkeeps hreplays htexts hreports hjob hsize
        hfuel hget (left_fresh hleft _) hpos)
      exact hleft'

end History

/-! ### Histories of the pairs job -/

/-- A job of the step `step` alone. -/
def jobOf (step : ChunkStepDefinition) (transitions : List TransitionDefinition)
    (listeners : List ListenerDefinition) : JobDefinition :=
  { id := "import", steps := JsMap.empty.set step.id (.chunk step), startStepId := step.id
    transitions := transitions, listeners := listeners, restartable := true }

/-- A host that knows the job alone and runs it in process. -/
def Host.only (job : JobDefinition) (h : DefinitionValidator.validate job = .ok ())
    (fuel : Nat) : Host α :=
  { registry := .only job h, canonicalJobKey := fun _ => "key", strategy := none, fuel := fuel }

def pairsJob : JobDefinition := jobOf pairsStep [] []

def pairsHost : Host Nat := .only pairsJob rfl 5

def freshWorld : World Nat := .initial (unaryIds 'r') (unaryIds 'u') 0

/-- A job of the step `step` alone, whose flow goes to END when the step is COMPLETED. -/
def endedJobOf (step : ChunkStepDefinition) : JobDefinition :=
  jobOf step [{ fromStepId := step.id, onStatus := "COMPLETED", toStepId := none }] []

end NestBatch
