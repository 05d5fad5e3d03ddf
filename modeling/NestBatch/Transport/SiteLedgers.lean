import NestBatch.Execution.LedgerRight
import NestBatch.Transport.SiteRules

/-!
# Every session keeps to its ledger

Beside its runs, a session of the site does nothing that a ledger looks at: a launch
creates its execution and hands it on, the operator reads and marks, a worker looks
its message up.
-/

namespace NestBatch

variable {α β γ : Type}

/-- Code that keeps to the ledger, from one settled ledger to the next. -/
def KeepsLedger (p : Code α β) : Prop :=
  ∀ g : Ledger, g.Settled → p.wp (ledgerLogic fun _ => False) (fun _ g' => g'.Settled) g

namespace KeepsLedger

variable {p : Code α β} {f : β → Code α γ} {K : List OpKind}

/-- A result keeps the ledger. -/
theorem pure (b : β) : KeepsLedger (.pure b : Code α β) := fun _ hg => hg

/-- A thrown error keeps the ledger. -/
theorem throw (err : Thrown) : KeepsLedger (.throw err : Code α β) := fun _ hg => hg

/-- A result in hand keeps the ledger. -/
theorem ofExcept (x : Except Thrown β) : KeepsLedger (.ofExcept x : Code α β) :=
  fun _ hg => (Prog.wp_ofExcept x).mpr hg

/-- Keeping the ledger is kept by sequence. -/
theorem bind (hp : KeepsLedger p) (hf : ∀ b, KeepsLedger (f b)) : KeepsLedger (p >>= f) :=
  fun g hg => Prog.wp_seq (hp g hg) (fun b g₁ h₁ => hf b g₁ h₁) fun _ _ h => h

/-- Code outside the ledger keeps it. -/
theorem of_uses (hp : p.Uses (Looping K)) (hK : ∀ k ∈ K, k ∉ Ledger.kinds) : KeepsLedger p := by
  intro g hg
  refine Prog.wp_mono (wp_quiet hp hK hg) fun _ g' heq => ?_
  subst heq
  exact hg

/-- An operation that a ledger does not look at. -/
theorem request {o : Op α} (h : o.kind ∉ Ledger.kinds) : KeepsLedger (NestBatch.request o) :=
  of_uses (K := [o.kind]) (uses_request (List.mem_singleton_self _))
    fun _ hk => List.mem_singleton.mp hk ▸ h

/-- Raising an answered error keeps the ledger. -/
theorem orThrow {p : Code α (Except Thrown β)} (hp : KeepsLedger p) :
    KeepsLedger (NestBatch.orThrow p) := hp.bind fun x => ofExcept x

/-- A run of the executor keeps the ledger. -/
theorem execute (fuel : Nat) (execution : JobExecution) (jobDef : JobDefinition)
    (partition : PartitionArgs) :
    KeepsLedger (JobExecutor.execute fuel execution jobDef partition : Code α JobExecution) :=
  fun _ hg => JobExecutor.wp_execute_ledger hg fuel execution jobDef partition
    fun _ _ _ hresumes => hresumes.elim

/-! ### The operator -/

/-- Reading the step contexts keeps the ledger. -/
theorem stepContexts (steps : List StepExecution) :
    KeepsLedger (JobExplorer.stepContexts steps : Code α (List (String × ExecutionContext))) := by
  induction steps with
  | nil => exact pure _
  | cons step rest ih =>
      exact (request (by simp [Ledger.kinds, Op.kind])).bind fun _ => ih.bind fun _ => pure _

/-- The details of an execution keep the ledger. -/
theorem details (e : String) :
    KeepsLedger (JobExplorer.getJobExecutionDetails e : Code α JobExecutionDetails) := by
  refine (request (by simp [Ledger.kinds, Op.kind])).bind fun row => ?_
  cases row with
  | none => exact throw _
  | some row =>
      refine (request (by simp [Ledger.kinds, Op.kind])).bind fun inst => ?_
      cases inst with
      | none => exact throw _
      | some inst =>
          refine (request (by simp [Ledger.kinds, Op.kind])).bind fun steps => ?_
          refine (request (by simp [Ledger.kinds, Op.kind])).bind fun jobContext => ?_
          exact (stepContexts steps).bind fun _ => pure _

/-- An operator writes a status and looks at what it has written. -/
theorem close (e : String) (patch : JobExecutionPatch) :
    KeepsLedger (updateJobExecution e patch >>= fun _ => JobExplorer.getJobExecutionDetails e :
      Code α JobExecutionDetails) :=
  (orThrow (request (by simp [Ledger.kinds, Op.kind]))).bind fun _ => details e

theorem now : KeepsLedger (NestBatch.now : Code α Time) :=
  request (by simp [Ledger.kinds, Op.kind])

/-- Stopping keeps the ledger. -/
theorem stop (e : String) : KeepsLedger (JobOperator.stop e : Code α JobExecutionDetails) := by
  refine (details e).bind fun found => ?_
  dsimp only
  split
  · exact pure _
  · split
    · exact throw _
    · exact now.bind fun _ => close e _

/-- Abandoning keeps the ledger. -/
theorem abandon (e : String) :
    KeepsLedger (JobOperator.abandon e : Code α JobExecutionDetails) := by
  refine (details e).bind fun found => ?_
  dsimp only
  split
  · exact pure _
  · split
    · exact throw _
    · unfold JobOperator.endTimeOr
      cases found.jobExecution.endTime with
      | none => exact now.bind fun _ => close e _
      | some endTime => exact close e _

/-- Restarting keeps the ledger. -/
theorem restart (host : Host α) (e : String) :
    KeepsLedger (JobOperator.restart host e : Code α JobExecutionDetails) := by
  refine (details e).bind fun found => ?_
  dsimp only
  split
  · exact throw _
  · exact (ofExcept _).bind fun jobDef => (execute _ _ _ _).bind fun execution => details _

/-! ### Launches and deliveries -/

/-- Enqueueing keeps the ledger. -/
theorem enqueueAll (payloads : List JobPayload) (last : String) :
    KeepsLedger (NestBatch.enqueueAll payloads last : Code α String) := by
  induction payloads generalizing last with
  | nil => exact pure _
  | cons payload rest ih =>
      exact (orThrow (request (by simp [Ledger.kinds, Op.kind]))).bind fun queueJobId =>
        ih queueJobId

/-- A queued launch keeps the ledger. -/
theorem launchQueued (transport : Transport) (job : JobDefinition) (params : JobParameters)
    (ctx : ExecutionStrategyContext) :
    KeepsLedger (transport.launch job params ctx : Code α LaunchResult) := by
  cases transport with
  | bullmq => exact (ofExcept _).bind fun _ => (enqueueAll _ _).bind fun _ => pure _
  | kafka => exact (ofExcept _).bind fun _ => (enqueueAll _ _).bind fun _ => pure _

/-- A launch in process keeps the ledger. -/
theorem launchInProcess (mode : InProcessPartitionViolationMode) (fuel : Nat)
    (job : JobDefinition) (params : JobParameters) (ctx : ExecutionStrategyContext) :
    KeepsLedger (InProcessExecutionStrategy.launch mode fuel job params ctx :
      Code α LaunchResult) := by
  refine (ofExcept _).bind fun _ => (request (by simp [Ledger.kinds, Op.kind])).bind fun row => ?_
  cases row with
  | none => exact throw _
  | some row => exact (execute _ _ _ _).bind fun _ => pure _

end KeepsLedger

namespace Deployment

variable (D : Deployment)

/-- Handing over keeps the ledger. -/
theorem keepsLedger_handOver (jobDef : JobDefinition) (params : JobParameters)
    (execution : JobExecution) :
    KeepsLedger (JobLauncher.handOver D.host jobDef params execution : Code α JobExecution) := by
  have hthen {p : Code α LaunchResult} (hp : KeepsLedger p) :
      KeepsLedger (p >>= fun _ => getJobExecution execution.id >>= fun latest =>
        .pure (latest.getD execution) : Code α JobExecution) :=
    hp.bind fun _ => (KeepsLedger.request (by simp [Ledger.kinds, Op.kind])).bind fun _ => .pure _
  unfold JobLauncher.handOver host executionStrategy
  cases D.strategy with
  | direct => exact .execute _ _ _ _
  | inProcess mode => exact hthen (.launchInProcess mode _ _ _ _)
  | queued => exact hthen (.launchQueued _ _ _ _)

/-- Launching keeps the ledger. -/
theorem keepsLedger_launch (jobId : String) (params : JobParameters)
    (identifyingParams : Option JobParameters) :
    KeepsLedger (JobLauncher.launch D.host jobId params identifyingParams :
      Code α JobExecution) := by
  refine (KeepsLedger.ofExcept _).bind fun jobDef => ?_
  have hkey : KeepsLedger (JobLauncher.jobKey D.host jobDef (identifyingParams.getD params) :
      Code α String) := by
    unfold JobLauncher.jobKey
    split
    · exact (KeepsLedger.request (by simp [Ledger.kinds, Op.kind])).bind fun _ => .pure _
    · exact .pure _
  refine hkey.bind fun key => ?_
  refine (KeepsLedger.orThrow (.request (by simp [Ledger.kinds, Op.kind]))).bind fun execution => ?_
  exact D.keepsLedger_handOver jobDef params execution

/-- Consuming a message keeps the ledger. -/
theorem keepsLedger_consume (payload : JobPayload) :
    KeepsLedger (D.transport.consume D.registry D.fuel payload : Code α Unit) := by
  rcases consume_cases D.transport D.registry D.fuel payload with hnothing | ⟨f, hlook, hcases⟩
  · rw [hnothing]
    exact .pure ()
  · rw [hlook]
    refine (KeepsLedger.request (by simp [Ledger.kinds, Op.kind])).bind fun answer => ?_
    rcases hcases answer with ⟨err, hthrow⟩ | ⟨row, job, partition, rfl, hjob, hrun⟩
    · rw [hthrow]
      exact .throw err
    · rw [hrun]
      exact (KeepsLedger.execute _ _ _ _).bind fun _ => .pure ()

/-- **Whatever comes to the site keeps to the ledger.** -/
theorem keepsLedger_code (request : Request) : KeepsLedger (D.code request : Code α Unit) := by
  cases request with
  | launch jobId params identifyingParams =>
      exact (D.keepsLedger_launch jobId params identifyingParams).bind fun _ => .pure ()
  | startNext jobId params =>
      refine KeepsLedger.bind ?_ fun _ => .pure ()
      refine (KeepsLedger.request (by simp [Ledger.kinds, Op.kind])).bind fun runId => ?_
      exact D.keepsLedger_launch jobId _ none
  | restart e => exact (KeepsLedger.restart D.host e).bind fun _ => .pure ()
  | stop e => exact (KeepsLedger.stop e).bind fun _ => .pure ()
  | abandon e => exact (KeepsLedger.abandon e).bind fun _ => .pure ()
  | deliver payload kept => exact D.keepsLedger_consume payload

end Deployment

end NestBatch
