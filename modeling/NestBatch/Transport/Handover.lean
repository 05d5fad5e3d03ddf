import NestBatch.Execution.LaunchSettles
import NestBatch.Repository.ActiveRows
import NestBatch.Transport.Alike
import NestBatch.Transport.ExternalTask
import NestBatch.Transport.Site

/-!
# What becomes of a new execution

A launch creates its execution, or it is refused; then it runs the execution itself,
has it run in the process, or hands it to a queue or to an external task.  Of a job
without partitions one message or one task is all there is, and a worker that takes it
finds the execution as the launch has left it.
-/

namespace NestBatch

variable {α β υ : Type}

/-! ### A job without partitions -/

/-- No step is split into several partitions. -/
def JobDefinition.Unpartitioned (job : JobDefinition) : Prop :=
  ∀ entry ∈ job.steps.entries, ∀ step, entry.2 = .chunk step →
    ∀ partitions ∈ step.partitions, partitions.count ≤ 1

section Unpartitioned

variable {job : JobDefinition}

/-- An unpartitioned job is supported in both modes. -/
theorem JobDefinition.Unpartitioned.supported (h : job.Unpartitioned)
    (mode : InProcessPartitionViolationMode) :
    InProcessExecutionStrategy.assertPartitionsSupported mode job.steps.entries = .ok () := by
  unfold JobDefinition.Unpartitioned at h
  generalize job.steps.entries = entries at h ⊢
  induction entries with
  | nil => rfl
  | cons entry rest ih =>
      rw [List.forall_mem_cons] at h
      obtain ⟨hentry, hrest⟩ := h
      obtain ⟨stepId, step⟩ := entry
      cases step with
      | chunk step =>
          rw [InProcessExecutionStrategy.assertPartitionsSupported]
          cases hpartitions : step.partitions with
          | none => exact ih hrest
          | some partitions =>
              dsimp only
              rw [if_pos (.inl (hentry step rfl partitions hpartitions))]
              exact ih hrest
      | _ => exact ih hrest

/-- The start step is one of the steps. -/
theorem startPartitions_cases (job : JobDefinition) :
    startPartitions job = none ∨ ∃ step, job.steps.get? job.startStepId = some (.chunk step) ∧
      startPartitions job = step.partitions := by
  unfold startPartitions JobDefinition.step?
  cases hget : job.steps.get? job.startStepId with
  | none =>
      dsimp only
      by_cases hkey : objectPrototypeKeys.contains job.startStepId
      · rw [if_pos hkey]
        exact .inl rfl
      · rw [if_neg hkey]
        exact .inl rfl
  | some step =>
      cases step with
      | chunk step => exact .inr ⟨step, rfl, rfl⟩
      | _ => exact .inl rfl

/-- An unpartitioned job has fewer than two partitions. -/
theorem JobDefinition.Unpartitioned.partitionCount_lt (h : job.Unpartitioned) :
    partitionCount job < 2 := by
  unfold partitionCount
  rcases startPartitions_cases job with hnone | ⟨step, hstep, hpartitions⟩
  · rw [hnone]
    decide
  · rw [hpartitions]
    have hentry := (JsMap.get?_eq_some_iff _ _ _).mp hstep
    cases hcount : step.partitions with
    | none => decide
    | some partitions =>
        have hle := h _ hentry step rfl partitions hcount
        change partitions.count < 2
        omega

/-- A registered job has valid partitions, where it starts as well. -/
theorem validatePartitions_start (hvalid : DefinitionValidator.validate job = .ok ()) :
    validatePartitions (startPartitions job) = .ok () := by
  rcases startPartitions_cases job with hnone | ⟨step, hstep, hpartitions⟩
  · rw [hnone]
    rfl
  · rw [hpartitions]
    exact (DefinitionValidator.chunk_of_validateStep
      (DefinitionValidator.validateStep_of_validate hvalid hstep)).2

/-- Its launch is one message. -/
theorem JobDefinition.Unpartitioned.payloads (h : job.Unpartitioned) (transport : Transport)
    (ctx : ExecutionStrategyContext) : transport.payloads job ctx = [payloadOf job ctx none] := by
  have hcount : ¬ partitionCount job ≥ 2 := by
    have hlt := h.partitionCount_lt
    omega
  have hbullmq : BullmqRuntime.payloads job ctx = [payloadOf job ctx none] := by
    unfold BullmqRuntime.payloads BullmqRuntime.partitionOrdinals
    rw [if_neg hcount]
    rfl
  cases transport with
  | bullmq => exact hbullmq
  | kafka => exact (payloads_eq job ctx).symm.trans hbullmq

end Unpartitioned

/-! ### A launch up to its strategy -/

namespace Deployment

variable (D : Deployment)

/-- The host of the site, with another strategy. -/
def hostWith (strategy : Option (ExecutionStrategy α)) : Host α :=
  { registry := D.registry, canonicalJobKey := D.canonicalJobKey, strategy := strategy
    fuel := D.fuel }

/-- A launch that runs its execution itself, with what becomes of the execution. -/
def direct (env : Environment α υ) (jobId : String) (params : JobParameters)
    (identifyingParams : Option JobParameters) (s : World υ × Calls α) (f : JobExecution → β) :
    Prog.Outcome Thrown β × World υ × Calls α :=
  (JobLauncher.launch (D.hostWith none) jobId params identifyingParams >>= fun execution =>
    (.pure (f execution) : Code α β)).run (handle env).traced s

end Deployment

/-- The service starts a task for every launch, and otherwise changes at most what user code does
not see. -/
def ExternalTaskLauncher.Starts (env : Environment α υ) (R : υ → υ → Prop)
    (launcher : ExternalTaskLauncher α) : Prop :=
  ∀ request t, ∃ result t', (launcher request).run (handle env).traced t =
    (.returned result, t') ∧ Alike R t t'

/-! ### From the new execution on -/

section Created

variable {D : Deployment} {env : Environment α υ} {R : υ → υ → Prop} {jobId : String}
  {job : JobDefinition} {params : JobParameters} {identifyingParams : Option JobParameters}
  {execution : JobExecution} {s s₁ : World υ × Calls α}

/-- What a launch leaves when it is about to hand over. -/
structure Created (D : Deployment) (env : Environment α υ) (jobId : String) (job : JobDefinition)
    (params : JobParameters) (identifyingParams : Option JobParameters)
    (s : World υ × Calls α) (execution : JobExecution) (s₁ : World υ × Calls α) : Prop where
  run : (JobLauncher.create (D.hostWith none) job jobId params identifyingParams).run
    (handle env).traced s = (.returned execution, s₁)
  row : s₁.1.repo.getJobExecution execution.id = some execution
  queue : s₁.1.queue = s.1.queue

/-- Only a message to the broker changes the queue. -/
theorem queue_handle {o : Op α} (ho : o.kind ≠ .enqueue) (w : World υ) :
    (handle env o w).2.queue = w.queue := by
  cases o with
  | user call =>
      change (handleUser env call w).2.queue = w.queue
      unfold handleUser
      cases call.stepScope <;> rfl
  | enqueue payload => exact absurd rfl ho
  | _ => rfl

/-- Code that sends no message keeps the queue. -/
theorem queue_run (env : Environment α υ) {p : Code α β} {K : List OpKind}
    (hp : p.Uses (Looping K))
    (hK : .enqueue ∉ K) (s : World υ × Calls α) :
    (p.run (handle env).traced s).2.1.queue = s.1.queue := by
  refine hp.run_keeps (P := fun t : World υ × Calls α => t.1.queue = s.1.queue) ?_ rfl
  intro o t ho ht
  have hkind : o.kind ≠ .enqueue := fun heq => hK (heq ▸ ho)
  exact (queue_handle hkind t.1).trans ht

/-- Creating an execution draws an id and creates. -/
theorem JobLauncher.uses_create (host : Host α) (job : JobDefinition) (jobId : String)
    (params : JobParameters) (identifyingParams : Option JobParameters) :
    (create host job jobId params identifyingParams).Uses (On [.uuid, .createExecution]) := by
  have huuid : OpKind.uuid ∈ [OpKind.uuid, .createExecution] := by decide
  have hcreates : OpKind.createExecution ∈ [OpKind.uuid, .createExecution] := by decide
  refine Prog.Uses.bind ?_ fun key => uses_orThrow (uses_request hcreates)
  unfold jobKey
  refine Prog.Uses.ite (fun _ => ?_) fun _ => trivial
  exact (uses_request huuid).bind fun _ => trivial

/-- A launch creates its execution, or it is refused. -/
theorem create_cases (D : Deployment) (env : Environment α υ) (jobId : String)
    (job : JobDefinition) (params : JobParameters) (identifyingParams : Option JobParameters)
    (s : World υ × Calls α) :
    (∃ execution s₁, Created D env jobId job params identifyingParams s execution s₁) ∨
      ∃ err s₁, (JobLauncher.create (D.hostWith none) job jobId params identifyingParams).run
          (handle env).traced s = (.threw err, s₁) ∧ s₁.1.queue = s.1.queue := by
  have huses := JobLauncher.uses_create (D.hostWith none : Host α) job jobId params
    identifyingParams
  have hsettled := Prog.settled_of_uses (handle env).traced huses id s
  have hqueue := queue_run env (huses.mono (On.looping fun _ hk => hk)) (by decide) s
  have huntraced := Prog.run_traced (handle env)
    (JobLauncher.create (D.hostWith none) job jobId params identifyingParams) s
  cases hrun : (JobLauncher.create (D.hostWith none) job jobId params identifyingParams).run
      (handle env).traced s with
  | mk out s₁ =>
      rw [hrun] at hsettled hqueue huntraced
      cases out with
      | returned execution =>
          exact .inl ⟨execution, s₁, hrun, (JobLauncher.create_filed huntraced).2, hqueue⟩
      | threw err => exact .inr ⟨err, s₁, rfl, hqueue⟩
      | stuck => cases hsettled

/-- The id of a new execution comes from the generator. -/
theorem Created.id_issued (c : Created D env jobId job params identifyingParams s execution s₁) :
    ∃ n, execution.id = s.1.repo.idGen.next n := by
  have hkey : ∃ key s₂, (JobLauncher.jobKey (D.hostWith none) job (identifyingParams.getD params) :
      Code α String).run (handle env).traced s = (.returned key, s₂) ∧ s₂.1.repo = s.1.repo := by
    unfold JobLauncher.jobKey
    split
    · exact ⟨_, _, rfl, rfl⟩
    · exact ⟨_, _, rfl, rfl⟩
  obtain ⟨key, s₂, hkey, hrepo⟩ := hkey
  have hrun := c.run
  unfold JobLauncher.create at hrun
  rw [Prog.run_bind, hkey] at hrun
  change (Prog.ofExcept (s₂.1.repo.createExecutionAtomic s₂.1.clock jobId key params).1).run _ _ =
    _ at hrun
  rcases s₂.1.repo.createExecutionAtomic_cases s₂.1.clock jobId key params with
    ⟨err, hrefused, -⟩ | ⟨row, hrow, -, -, ⟨n, -, hid⟩, -⟩
  · rw [hrefused] at hrun
    cases hrun
  · rw [hrow] at hrun
    cases hrun
    rw [hrepo] at hid
    exact ⟨n, hid⟩

/-- What is true of every id is true of a created execution's. -/
theorem Created.id_of_all (c : Created D env jobId job params identifyingParams s execution s₁)
    {P : String → Prop} (hids : ∀ n, P (s.1.repo.idGen.next n)) : P execution.id := by
  obtain ⟨n, hn⟩ := c.id_issued
  rw [hn]
  exact hids n

/-- A message that the broker takes is in the queue. -/
theorem run_enqueue_traced {payload : JobPayload} {queueJobId : String} (s : World υ × Calls α)
    (h : (env.broker payload s.1.user).1 = .ok queueJobId) (f : String → Code α β) :
    (enqueue payload >>= f).run (handle env).traced s =
      (f queueJobId).run (handle env).traced
        ({ s.1 with
            user := (env.broker payload s.1.user).2
            queue := s.1.queue ++ [payload] },
          s.2 ++ [⟨.enqueue payload, .ok queueJobId⟩]) := by
  have hanswer : handle env (.enqueue payload) s.1 = (.ok queueJobId,
      { s.1 with
        user := (env.broker payload s.1.user).2
        queue := s.1.queue ++ [payload] }) := by
    unfold handle
    dsimp only
    rw [h]
  change (Prog.ofExcept (handle env (.enqueue payload) s.1).1 >>= f).run (handle env).traced
    ((handle env (.enqueue payload) s.1).2,
      s.2 ++ [⟨.enqueue payload, (handle env (.enqueue payload) s.1).1⟩]) = _
  rw [hanswer]
  rfl

/-- Both transports launch in the same way. -/
theorem Transport.launch_eq (transport : Transport) (job : JobDefinition) (params : JobParameters)
    (ctx : ExecutionStrategyContext) :
    (transport.launch job params ctx : Code α LaunchResult) =
      Prog.ofExcept (validatePartitions (startPartitions job)) >>= fun _ =>
        enqueueAll (transport.payloads job ctx) "" >>= fun last => .pure (.enqueued last) := by
  cases transport <;> rfl

namespace Created

variable (c : Created D env jobId job params identifyingParams s execution s₁)
include c

/-- A launch goes on from there. -/
theorem run_launch (hjob : D.registry.get jobId = .ok job)
    (strategy : Option (ExecutionStrategy α)) :
    (JobLauncher.launch (D.hostWith strategy) jobId params identifyingParams).run
        (handle env).traced s =
      (JobLauncher.handOver (D.hostWith strategy) job params execution).run
        (handle env).traced s₁ := by
  have hget : (D.hostWith strategy).registry.get jobId = .ok job := hjob
  have hrun : (JobLauncher.create (D.hostWith strategy) job jobId params identifyingParams).run
      (handle env).traced s = (.returned execution, s₁) := c.run
  rw [JobLauncher.launch_eq hget, Prog.run_bind, hrun]

/-- A launch creates its execution and hands it over. -/
theorem run_launch_bind (hjob : D.registry.get jobId = .ok job)
    (strategy : Option (ExecutionStrategy α)) (f : JobExecution → Code α β) :
    (JobLauncher.launch (D.hostWith strategy) jobId params identifyingParams >>= f).run
        (handle env).traced s =
      (JobLauncher.handOver (D.hostWith strategy) job params execution >>= f).run
        (handle env).traced s₁ := by
  rw [Prog.run_bind, Prog.run_bind, c.run_launch hjob]

/-- A direct launch runs the executor on the created execution. -/
theorem direct_eq (hjob : D.registry.get jobId = .ok job) (f : JobExecution → β) :
    D.direct env jobId params identifyingParams s f =
      (JobExecutor.execute D.fuel execution job {} >>= fun finished =>
        (.pure (f finished) : Code α β)).run (handle env).traced s₁ :=
  c.run_launch_bind hjob none _

/-- In the process, the execution is looked up before and behind the run. -/
theorem inProcess (hR : env.Ignores R) (hjob : D.registry.get jobId = .ok job)
    (hplain : job.Unpartitioned) (mode : InProcessPartitionViolationMode) :
    SameEnd R (D.direct env jobId params identifyingParams s fun _ => ())
      ((JobLauncher.launch (D.hostWith (some (InProcessExecutionStrategy.launch mode D.fuel))) jobId
        params identifyingParams >>= fun _ => (.pure () : Code α Unit)).run
        (handle env).traced s) := by
  rw [c.direct_eq hjob, c.run_launch_bind hjob]
  unfold JobLauncher.handOver Deployment.hostWith InProcessExecutionStrategy.launch
  dsimp only
  rw [hplain.supported mode]
  simp only [Prog.ofExcept, Prog.pure_bind, Prog.bind_assoc]
  rw [run_getJobExecution, c.row]
  simp only [Prog.pure_bind, Prog.bind_assoc]
  refine SameEnd.bind ((Alike.refl hR s₁).lookup _ _ |>.execute hR _ _ _ _) fun _ r r' hr => ?_
  rw [run_getJobExecution]
  exact ⟨rfl, hr.lookup _ _⟩

/-- A launch by a queue sends its one message. -/
theorem queued (hR : env.Overlooks R) (hjob : D.registry.get jobId = .ok job)
    (hplain : job.Unpartitioned) :
    ∃ s', (JobLauncher.launch (D.hostWith (some D.transport.launch)) jobId params
        identifyingParams >>= fun _ => (.pure () : Code α Unit)).run (handle env).traced s =
          (.returned (), s') ∧
      s'.1.queue = s.1.queue ++ [payloadOf job
        { executionId := execution.id, jobExecutionId := execution.id } none] ∧
      Alike R s₁ ({ s'.1 with queue := s.1.queue }, s'.2) := by
  have hvalid := validatePartitions_start (JobRegistry.get_eq_ok hjob).2
  have hpayloads := hplain.payloads D.transport
    { executionId := execution.id, jobExecutionId := execution.id }
  obtain ⟨queueJobId, htaken⟩ := hR.takes (payloadOf job
    { executionId := execution.id, jobExecutionId := execution.id } none) s₁.1.user
  have hunseen := hR.unseen (payloadOf job
    { executionId := execution.id, jobExecutionId := execution.id } none) _ _
    (hR.equivalence.refl s₁.1.user)
  rw [c.run_launch_bind hjob]
  unfold JobLauncher.handOver Deployment.hostWith
  dsimp only
  rw [D.transport.launch_eq, hvalid, hpayloads]
  unfold enqueueAll
  simp only [Prog.ofExcept, Prog.pure_bind, Prog.bind_assoc]
  rw [run_enqueue_traced s₁ htaken]
  refine ⟨_, rfl, ?_, ?_, hunseen, ?_⟩
  · exact congrArg (· ++ _) c.queue
  · dsimp only
    rw [← c.queue]
    rfl
  · exact (told_lookup _ _ _).trans (told_message _ _ _)

/-- A launch by an external task changes nothing before its task begins. -/
theorem external (hjob : D.registry.get jobId = .ok job) (values : ArgumentValues)
    (options : ExternalTaskStrategyOptions) {launcher : ExternalTaskLauncher α}
    (hlauncher : ExternalTaskLauncher.Starts env R launcher) :
    ∃ s', (JobLauncher.launch (D.hostWith (some (ExternalTaskExecutionStrategy.launch values
        options launcher))) jobId params identifyingParams).run (handle env).traced s =
          (.returned execution, s') ∧ Alike R s₁ s' ∧
      s'.1.repo.getJobExecution execution.id = some execution := by
  obtain ⟨result, s', hrun, halike⟩ := hlauncher (ExternalTaskExecutionStrategy.request values
    options job params { executionId := execution.id, jobExecutionId := execution.id }) s₁
  have hrow : s'.1.repo.getJobExecution execution.id = some execution := by
    rw [halike.world]
    exact c.row
  rw [c.run_launch hjob]
  unfold JobLauncher.handOver Deployment.hostWith ExternalTaskExecutionStrategy.launch
  dsimp only
  rw [Prog.bind_assoc, Prog.run_bind, hrun]
  dsimp only
  rw [Prog.pure_bind, run_getJobExecution, hrow]
  exact ⟨_, rfl, halike.lookup _ _, hrow⟩

end Created

end Created

end NestBatch
