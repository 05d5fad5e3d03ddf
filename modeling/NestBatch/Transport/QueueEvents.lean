import NestBatch.Execution.EventTrace
import NestBatch.Execution.LaunchSettles
import NestBatch.Execution.RunReports
import NestBatch.Transport.Agreement

/-!
# What the queue tells the observer

BullMQ raises an event when the processor of a queue job resolves or rejects,
and the bridge hands it on to the observer of the batch code.  The executor
catches the failures of its steps, so the promise of a failed job may resolve;
and the bridge knows the id of the queue job only.
-/

namespace NestBatch

variable {α υ : Type}

/-- What BullMQ raises about a queue job. -/
inductive QueueEvent
  | completed (jobId : String)
  | failed (jobId failedReason : String)
  | stalled (jobId : String)

namespace BullmqRuntime

/-- `bridgeEvent`: tell the observer, under the id of the queue job. -/
def bridgeEvent (type : BatchEventType) (queueJobId : String) (data : List (String × JsonValue)) :
    Code α Unit := do
  let timestamp ← now
  emit { type := type, timestamp := timestamp, jobExecutionId := queueJobId
         data := .obj (("queueJobId", .str queueJobId) :: data) }

/-- The three listeners of `attachQueueEventsBridge`. -/
def onQueueEvent : QueueEvent → Code α Unit
  | .completed jobId => bridgeEvent .JOB_COMPLETED jobId [("kind", .str "completed")]
  | .failed jobId failedReason =>
      bridgeEvent .JOB_FAILED jobId [("kind", .str "failed"), ("reason", .str failedReason)]
  | .stalled jobId => bridgeEvent .JOB_FAILED jobId [("kind", .str "stalled")]

/-- The events that can be raised of a queue job whose processor has ended with `out`. -/
inductive Raised (queueJobId : String) (out : Prog.Outcome Thrown Unit) : QueueEvent → Prop
  | completed (h : out = .returned ()) : Raised queueJobId out (.completed queueJobId)
  | failed {err : Thrown} (failedReason : String) (h : out = .threw err) :
      Raised queueJobId out (.failed queueJobId failedReason)
  | stalled : Raised queueJobId out (.stalled queueJobId)

/-- What the observer is sent when an event is raised in `w`. -/
def sentFor (env : Environment α υ) (event : QueueEvent) (w : World υ) : List BatchEvent :=
  emitted ((onQueueEvent event : Code α Unit).run (handle env).traced (w, [])).2.2

/-- The observer is not told that a failed execution has completed, and is told
of every event under the id of the execution. -/
def SameStory (env : Environment α υ) (queueJobId : String) (payload : JobPayload)
    (out : Prog.Outcome Thrown Unit) (w : World υ) : Prop :=
  ∀ event, Raised queueJobId out event → ∀ sent ∈ sentFor env event w,
    (sent.type = .JOB_COMPLETED → ¬ Recorded payload.executionId .FAILED w) ∧
    sent.jobExecutionId = payload.executionId

/-- Only the event of a resolved processor can be a lie, and only the queue job's
id can be the wrong one. -/
theorem sameStory_iff (env : Environment α υ) (queueJobId : String) (payload : JobPayload)
    (out : Prog.Outcome Thrown Unit) (w : World υ) :
    SameStory env queueJobId payload out w ↔
      queueJobId = payload.executionId ∧
        ¬ (out = .returned () ∧ Recorded payload.executionId .FAILED w) := by
  constructor
  · intro h
    refine ⟨(h _ .stalled _ List.mem_cons_self).2, ?_⟩
    intro hquiet
    obtain ⟨hout, hfailed⟩ := hquiet
    exact (h _ (.completed hout) _ List.mem_cons_self).1 rfl hfailed
  · intro h event hraised sent hsent
    obtain ⟨hid, hloud⟩ := h
    cases hraised with
    | completed hout =>
        have heq := List.mem_singleton.mp hsent
        subst heq
        exact ⟨fun _ hfailed => hloud ⟨hout, hfailed⟩, hid⟩
    | failed failedReason hout =>
        have heq := List.mem_singleton.mp hsent
        subst heq
        exact ⟨fun htype => (by cases htype), hid⟩
    | stalled =>
        have heq := List.mem_singleton.mp hsent
        subst heq
        exact ⟨fun htype => (by cases htype), hid⟩

end BullmqRuntime

/-! ### Failing quietly -/

namespace BullmqRuntime

/-- The payload is one of a known job and execution that may be run, and what its listeners, steps
and deciders report makes it fail quietly. -/
def PayloadFailsQuietly (env : Environment α υ) (registry : JobRegistry) (fuel : Nat)
    (payload : JobPayload) (w : World υ) : Prop :=
  ∃ execution jobDef report, w.repo.getJobExecution payload.executionId = some execution ∧
    registry.get payload.jobId = .ok jobDef ∧
    ¬ (JobExecutor.isRestart execution ∧ jobDef.restartable = false) ∧
    JobExecutor.Run.Reports { execution := execution, jobDef := jobDef, partition := {} }
      env fuel w report ∧ report.FailsQuietly jobDef

/-- For a job and an execution that are found, it is the run that fails quietly. -/
theorem payloadFailsQuietly_iff {env : Environment α υ} {registry : JobRegistry} {fuel : Nat}
    {payload : JobPayload} {w : World υ} {execution : JobExecution} {jobDef : JobDefinition}
    (hexecution : w.repo.getJobExecution payload.executionId = some execution)
    (hjob : registry.get payload.jobId = .ok jobDef) :
    PayloadFailsQuietly env registry fuel payload w ↔
      ¬ (JobExecutor.isRestart execution ∧ jobDef.restartable = false) ∧
      ∃ report, JobExecutor.Run.Reports
        { execution := execution, jobDef := jobDef, partition := {} } env fuel w report ∧
        report.FailsQuietly jobDef := by
  unfold PayloadFailsQuietly
  rw [hexecution, hjob]
  constructor
  · intro h
    obtain ⟨execution', jobDef', report, hsome, hok, hallowed, hquiet⟩ := h
    cases hsome
    cases hok
    exact ⟨hallowed, report, hquiet⟩
  · intro h
    obtain ⟨hallowed, report, hquiet⟩ := h
    exact ⟨execution, jobDef, report, rfl, rfl, hallowed, hquiet⟩

/-- A run returns on a FAILED row exactly when it is let in and fails quietly. -/
theorem execute_fails_iff {env : Environment α υ} {fuel : Nat} {execution : JobExecution}
    {jobDef : JobDefinition} {w : World υ} (hrow : OnFile execution.id w) :
    (JobExecutor.execute fuel execution jobDef {} : Code α JobExecution).wp (rowLogic env)
      (fun out w' => (∃ latest, out = .ok latest) ∧ Recorded execution.id .FAILED w' ↔
        ¬ (JobExecutor.isRestart execution ∧ jobDef.restartable = false) ∧
        ∃ report, JobExecutor.Run.Reports
          { execution := execution, jobDef := jobDef, partition := {} } env fuel w report ∧
          report.FailsQuietly jobDef) w := by
  unfold JobExecutor.execute
  by_cases hrefused : JobExecutor.isRestart execution ∧ jobDef.restartable = false
  · rw [if_pos hrefused]
    constructor
    · intro h
      obtain ⟨⟨latest, hout⟩, -⟩ := h
      cases hout
    · intro h
      exact absurd hrefused h.1
  · rw [if_neg hrefused]
    have hproceed : (JobExecutor.Run.proceed
        { execution := execution, jobDef := jobDef, partition := {} } fuel :
        Code α JobExecution).wp (rowLogic env) _ w := JobExecutor.Run.proceed_fails_iff hrow
    refine Prog.wp_mono hproceed ?_
    intro out w' hquiet
    rw [hquiet]
    exact (and_iff_right hrefused).symm

/-- The promise of a processor resolves on a FAILED row exactly when the payload fails quietly. -/
theorem processJob_quiet (env : Environment α υ) (registry : JobRegistry) (fuel : Nat)
    (payload : JobPayload) {w : World υ} (hfiled : w.repo.ExecutionsFiled) :
    (processJob registry fuel payload : Code α Unit).wp (rowLogic env) (fun out w' =>
      out = .ok () ∧ Recorded payload.executionId .FAILED w' ↔
        PayloadFailsQuietly env registry fuel payload w) w := by
  unfold processJob route
  rw [Prog.bind_assoc]
  refine Prog.wp_bind.mpr (Prog.wp_perform.mpr ⟨trivial, ?_⟩)
  intro found w₁ ht
  have hfound : w.repo.getJobExecution payload.executionId = found := congrArg Prod.fst ht
  have hw₁ : w = w₁ := congrArg Prod.snd ht
  subst hw₁
  cases found with
  | none =>
      constructor
      · intro hboth
        cases hboth.1
      · intro hpayload
        obtain ⟨execution, jobDef, report, hsome, -⟩ := hpayload
        rw [hfound] at hsome
        cases hsome
  | some execution =>
      have hid : execution.id = payload.executionId := hfiled _ _ hfound
      have hrow : OnFile execution.id w := hid ▸ ⟨execution, hfound, hid⟩
      refine Prog.wp_bind.mpr (Prog.wp_bind.mpr ((Prog.wp_ofExcept _).mpr ?_))
      cases hget : registry.get payload.jobId with
      | error err =>
          constructor
          · intro hboth
            cases hboth.1
          · intro hpayload
            obtain ⟨execution', jobDef, report, -, hok, -⟩ := hpayload
            rw [hget] at hok
            cases hok
      | ok jobDef =>
          change (JobExecutor.execute fuel execution jobDef {} >>= fun _ => Prog.pure () :
            Code α Unit).wp (rowLogic env) _ w
          rw [payloadFailsQuietly_iff hfound hget]
          refine Prog.wp_seq (execute_fails_iff hrow) ?_ ?_
          · intro latest w' hquiet
            rw [← hquiet]
            constructor
            · intro hboth
              exact ⟨⟨latest, rfl⟩, hid ▸ hboth.2⟩
            · intro hboth
              exact ⟨rfl, hid ▸ hboth.2⟩
          · intro err w' hquiet
            rw [← hquiet]
            constructor
            · intro hboth
              cases hboth.1
            · intro hboth
              obtain ⟨⟨latest, hout⟩, -⟩ := hboth
              cases hout

/-- **When the bridge tells the story of the executor**: exactly when the queue job goes
under the id of the execution and the payload does not fail quietly. -/
theorem bridge_same_story_iff (env : Environment α υ) (registry : JobRegistry) (fuel : Nat)
    (queueJobId : String) (payload : JobPayload) {w w' : World υ} {out : Prog.Outcome Thrown Unit}
    (hfiled : w.repo.ExecutionsFiled)
    (hrun : (processJob registry fuel payload : Code α Unit).run (handle env) w = (out, w'))
    (hsettled : out.settled) :
    SameStory env queueJobId payload out w' ↔
      queueJobId = payload.executionId ∧ ¬ PayloadFailsQuietly env registry fuel payload w := by
  have hquiet := Prog.wp_run (processJob_quiet env registry fuel payload hfiled)
  rw [hrun] at hquiet
  rw [sameStory_iff]
  cases out with
  | returned u =>
      have hiff : (.ok u : Except Thrown Unit) = .ok () ∧ Recorded payload.executionId .FAILED w' ↔
          PayloadFailsQuietly env registry fuel payload w := hquiet
      rw [← hiff]
      simp
  | threw err =>
      have hiff : (.error err : Except Thrown Unit) = .ok () ∧
          Recorded payload.executionId .FAILED w' ↔
          PayloadFailsQuietly env registry fuel payload w := hquiet
      rw [← hiff]
      simp
  | stuck => cases hsettled

end BullmqRuntime

/-! ### A queue job that goes well, and two stories that differ -/

namespace BullmqRuntime

/-- The payload of a launch of the pairs job. -/
def pairsPayload : JobPayload :=
  { executionId := "r", jobExecutionId := "r", jobId := "import", stepId := "pairs" }

/-- The processor of that payload, in a world where its row has just been created. -/
def processedPairs (env : Environment Nat Nat) : Prog.Outcome Thrown Unit × World Nat :=
  (processJob pairsHost.registry 5 pairsPayload).run (handle env) JobLauncher.pairsCreated

theorem processedPairs_eq (env : Environment Nat Nat) :
    (processJob pairsHost.registry 5 pairsPayload).run (handle env) JobLauncher.pairsCreated =
      ((processedPairs env).1, (processedPairs env).2) := (Prod.eta (processedPairs env)).symm

/-- The execution of the pairs job is filed. -/
theorem pairsCreated_filed : JobLauncher.pairsCreated.repo.ExecutionsFiled := by
  have hfiled := executionsFiled_run (willing [10, 20, 30])
    (JobLauncher.create pairsHost pairsJob "import" [] none : Code Nat JobExecution)
    (w := freshWorld) (executionsFiled_new (unaryIds 'r'))
  exact hfiled

/-- The pairs job, as a worker of the queue runs it. -/
theorem bridge_same_story_iff_pairs :
    SameStory (willing [10, 20, 30]) "r" pairsPayload (processedPairs (willing [10, 20, 30])).1
        (processedPairs (willing [10, 20, 30])).2 ↔
      "r" = pairsPayload.executionId ∧ ¬ PayloadFailsQuietly (willing [10, 20, 30])
        pairsHost.registry 5 pairsPayload JobLauncher.pairsCreated := by
  have hsettled : (processedPairs (willing [10, 20, 30])).1.settled := by decide +kernel
  have hrun := processedPairs_eq (willing [10, 20, 30])
  have hiff := bridge_same_story_iff (willing [10, 20, 30]) pairsHost.registry 5 "r" pairsPayload
    pairsCreated_filed hrun hsettled
  exact hiff

/-- Every write fails. -/
def fullDisk : Environment Nat Nat :=
  listEnvironment [10, 20, 30] fun _ _ => some (.error "disk full")

/-- A writer that fails makes the job FAILED and the queue job completed; and a
queue job with an id of its own is no execution. -/
theorem bridge_may_differ :
    ¬ SameStory fullDisk "r" pairsPayload (processedPairs fullDisk).1 (processedPairs fullDisk).2 ∧
    ¬ SameStory (willing [10, 20, 30]) "1" pairsPayload (processedPairs (willing [10, 20, 30])).1
        (processedPairs (willing [10, 20, 30])).2 := by
  constructor
  · intro hsame
    have hresolved : (processedPairs fullDisk).1 = .returned () := by decide +kernel
    have hfailed : Recorded "r" .FAILED (processedPairs fullDisk).2 := by decide +kernel
    exact ((sameStory_iff _ _ _ _ _).mp hsame).2 ⟨hresolved, hfailed⟩
  · intro hsame
    have hid : "1" = pairsPayload.executionId := ((sameStory_iff _ _ _ _ _).mp hsame).1
    revert hid
    decide

end BullmqRuntime

end NestBatch
