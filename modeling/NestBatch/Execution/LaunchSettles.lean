import NestBatch.Execution.ResumeHistory
import NestBatch.Execution.RunReports

/-!
# What a settled launch leaves behind

A launch that runs its job in process creates the row first and runs the job
then.  Once it has resolved or rejected, the row no longer blocks the next
launch, with three exceptions: the strategy refuses the partitions of the job
after the row was created, a `before:job` listener throws outside of the `try`
block of the executor, or the `catch` block is reached by a value that has no
string form.
-/

namespace NestBatch

variable {α υ : Type}

/-- The execution is on file and does not block another launch. -/
def NoLongerBlocks (e : String) (w : World υ) : Prop :=
  ∃ row, w.repo.getJobExecution e = some row ∧ ¬ row.status.blocksLaunch ∧
    ∀ jobInstanceId, w.repo.getRunningJobExecution jobInstanceId ≠ some row

/-- An execution blocks the next launch by its status. -/
theorem noLongerBlocks_iff {e : String} {status : JobStatus} {w : World υ}
    (h : Recorded e status w) : NoLongerBlocks e w ↔ ¬ status.blocksLaunch := by
  obtain ⟨row, hrow, -, hstatus⟩ := h
  subst hstatus
  constructor
  · intro ⟨row', hrow', hblocks, _⟩
    rw [hrow] at hrow'
    cases hrow'
    exact hblocks
  · intro hblocks
    refine ⟨row, hrow, hblocks, ?_⟩
    intro jobInstanceId hrunning
    have hfound := List.find?_some hrunning
    rw [Bool.and_eq_true] at hfound
    exact hblocks hfound.2

/-- A final status does not block. -/
theorem not_blocks_of_final {status : JobStatus} (h : JobExecutor.Run.IsFinal status) :
    ¬ status.blocksLaunch := by
  rcases h with h | h <;> subst h <;> decide

/-- A launch that is let in files its execution, STARTING. -/
theorem InMemoryJobRepository.createExecutionAtomic_ok {repo : InMemoryJobRepository} {now : Time}
    {name jobKey : String} {params : JobParameters} {execution : JobExecution}
    (h : (repo.createExecutionAtomic now name jobKey params).1 = .ok execution) :
    execution.status = .STARTING ∧
      (repo.createExecutionAtomic now name jobKey params).2.getJobExecution execution.id =
        some execution := by
  unfold createExecutionAtomic at h ⊢
  dsimp only at h ⊢
  split at h
  · cases h
  · cases h
    exact ⟨rfl, JsMap.get?_set_self _ _ _⟩

namespace JobLauncher

/-- The launcher up to the creation of the row. -/
def create (host : Host α) (jobDef : JobDefinition) (jobId : String) (params : JobParameters)
    (identifyingParams : Option JobParameters) : Code α JobExecution := do
  let key ← jobKey host jobDef (identifyingParams.getD params)
  createExecutionAtomic jobId key params

section Launch

variable {env : Environment α υ} {host : Host α} {mode : Option InProcessPartitionViolationMode}
  {jobDef : JobDefinition} {jobId : String} {params : JobParameters}
  {identifyingParams : Option JobParameters} {execution : JobExecution} {w w₁ w' : World υ}
  {out : Prog.Outcome Thrown JobExecution}

/-- A launch creates an execution and hands it over. -/
theorem launch_eq (hget : host.registry.get jobId = .ok jobDef) :
    (launch host jobId params identifyingParams : Code α JobExecution) =
      create host jobDef jobId params identifyingParams >>= handOver host jobDef params := by
  unfold launch create
  rw [hget, Prog.bind_assoc]
  rfl

/-- The row a launch has created. -/
theorem create_filed (h : (create host jobDef jobId params identifyingParams).run (handle env) w =
    (.returned execution, w₁)) :
    execution.status = .STARTING ∧ w₁.repo.getJobExecution execution.id = some execution := by
  have hspec : (create host jobDef jobId params identifyingParams : Code α JobExecution).wp
      (rowLogic env) (fun out w' => ∀ execution, out = .ok execution →
        execution.status = .STARTING ∧
          w'.repo.getJobExecution execution.id = some execution) w := by
    refine Prog.wp_seq (R := fun out _ => ∃ key, out = .ok key) ?_ ?_ ?_
    · unfold jobKey
      split
      · exact Prog.wp_bind.mpr (Prog.wp_perform.mpr ⟨trivial, fun _ _ _ => ⟨_, rfl⟩⟩)
      · exact ⟨_, rfl⟩
    · intro key w₂ _
      refine Prog.wp_bind.mpr (Prog.wp_perform.mpr ⟨trivial, ?_⟩)
      intro r w₃ ht
      have hr : (w₂.repo.createExecutionAtomic w₂.clock jobId key params).1 = r :=
        congrArg Prod.fst ht
      have hw₃ : { w₂ with repo := (w₂.repo.createExecutionAtomic w₂.clock jobId key params).2 } =
          w₃ := congrArg Prod.snd ht
      subst hw₃
      refine (Prog.wp_ofExcept _).mpr ?_
      intro execution hok
      rw [hok] at hr
      exact InMemoryJobRepository.createExecutionAtomic_ok hr
    · intro err w₂ h
      obtain ⟨key, hkey⟩ := h
      cases hkey
  have hrun := Prog.wp_run hspec
  rw [h] at hrun
  exact hrun execution rfl

/-- The strategy, if there is one, takes the partitions of the job. -/
def TakesPartitions (mode : Option InProcessPartitionViolationMode) (jobDef : JobDefinition) :
    Prop :=
  ∀ m, mode = some m →
    InProcessExecutionStrategy.assertPartitionsSupported m jobDef.steps.entries = .ok ()

/-- The run of a new execution. -/
def newRun (execution : JobExecution) (jobDef : JobDefinition) : JobExecutor.Run :=
  { execution := execution, jobDef := jobDef, partition := {} }

theorem execute_new (fuel : Nat) (hstarting : execution.status = .STARTING) :
    (JobExecutor.execute fuel execution jobDef {} : Code α JobExecution) =
      (newRun execution jobDef).proceed fuel := by
  unfold JobExecutor.execute
  rw [if_neg (by simp [JobExecutor.isRestart, hstarting])]
  rfl

variable (hstrategy : host.strategy =
    mode.map fun m => InProcessExecutionStrategy.launch m host.fuel)
include hstrategy

/-- A refused hand-over changes nothing. -/
theorem handOver_refused {m : InProcessPartitionViolationMode} {err : Thrown}
    (hmode : mode = some m)
    (hrefused : InProcessExecutionStrategy.assertPartitionsSupported m jobDef.steps.entries =
      .error err) :
    (handOver host jobDef params execution : Code α JobExecution).run (handle env) w =
      (.threw err, w) := by
  unfold handOver
  rw [hstrategy, hmode]
  simp only [Option.map_some, InProcessExecutionStrategy.launch, hrefused, Prog.ofExcept,
    Prog.throw_bind]
  rfl

/-- Otherwise a new execution is run, and its world is that of the run. -/
theorem handOver_run (htakes : TakesPartitions mode jobDef)
    (hstarting : execution.status = .STARTING)
    (hrow : w.repo.getJobExecution execution.id = some execution)
    (h : (handOver host jobDef params execution : Code α JobExecution).run (handle env) w =
      (out, w')) (hsettled : out.settled) :
    ∃ out', ((newRun execution jobDef).proceed host.fuel : Code α JobExecution).run (handle env) w =
      (out', w') ∧ out'.settled := by
  unfold handOver at h
  cases hmode : mode with
  | none =>
      rw [hstrategy, hmode] at h
      simp only [Option.map_none, execute_new host.fuel hstarting] at h
      exact ⟨out, h, hsettled⟩
  | some m =>
      rw [hstrategy, hmode] at h
      simp only [Option.map_some, InProcessExecutionStrategy.launch, htakes m hmode, Prog.ofExcept,
        Prog.pure_bind, Prog.bind_assoc] at h
      rw [Prog.run_bind] at h
      have hlook : (getJobExecution execution.id : Code α _).run (handle env) w =
          (.returned (some execution), w) := congrArg (fun r => (Prog.Outcome.returned r, w)) hrow
      rw [hlook] at h
      simp only [execute_new host.fuel hstarting, Prog.bind_assoc, Prog.run_bind] at h
      cases hrun : ((newRun execution jobDef).proceed host.fuel : Code α JobExecution).run
          (handle env) w with
      | mk out' w₂ =>
          rw [hrun] at h
          cases out' with
          | returned finished =>
              have hw : w₂ = w' := congrArg Prod.snd h
              exact ⟨_, by rw [hw], rfl⟩
          | threw err =>
              have hw : w₂ = w' := congrArg Prod.snd h
              exact ⟨_, by rw [hw], rfl⟩
          | stuck =>
              have hout : Prog.Outcome.stuck = out := congrArg Prod.fst h
              rw [← hout] at hsettled
              cases hsettled

omit hstrategy in
/-- A run that has ended leaves a row that no longer blocks, unless an entry does not bear with
its `before:job` listener or the `catch` block has thrown. -/
theorem proceed_settles_iff (hrow : w.repo.getJobExecution execution.id = some execution)
    {fuel : Nat}
    (h : ((newRun execution jobDef).proceed fuel : Code α JobExecution).run (handle env) w =
      (out, w')) (hsettled : out.settled) :
    NoLongerBlocks execution.id w' ↔
      ListenerInvoker.Borne ((newRun execution jobDef).toldBefore env w).1 ∧
      (newRun execution jobDef).Speaks env fuel ((newRun execution jobDef).toldBefore env w).2 := by
  have hfile : OnFile (newRun execution jobDef).execution.id w := ⟨execution, hrow, rfl⟩
  have htold : ((newRun execution jobDef).prologue : Code α Unit).wp (rowLogic env) _ w :=
    JobExecutor.Run.prologue_told hfile
  have hprologue := Prog.wp_run
    (Prog.wp_and htold ((newRun execution jobDef).prologue_recorded hfile))
  rw [JobExecutor.Run.proceed_eq, Prog.run_bind] at h
  cases hrun : ((newRun execution jobDef).prologue : Code α Unit).run (handle env) w with
  | mk ended w₂ =>
      rw [hrun] at h hprologue
      cases ended with
      | threw err =>
          have hw : w₂ = w' := congrArg Prod.snd h
          subst hw
          obtain ⟨⟨hborne, -⟩, hrec⟩ := hprologue
          rw [show NoLongerBlocks execution.id w₂ ↔ _ from noLongerBlocks_iff hrec]
          refine iff_of_false (fun hblocks => hblocks rfl) ?_
          intro hboth
          cases hborne.mpr hboth.1
      | stuck =>
          have hout : Prog.Outcome.stuck = out := congrArg Prod.fst h
          rw [← hout] at hsettled
          cases hsettled
      | returned u =>
          obtain ⟨⟨hborne, hworld⟩, hstarted⟩ := hprologue
          rw [← hworld rfl]
          have hdrive := Prog.wp_run ((newRun execution jobDef).drive_returns_iff env hstarted fuel)
          have hsettle := Prog.wp_run ((newRun execution jobDef).settle_recorded env hstarted fuel)
          dsimp only at h
          rw [h] at hsettle
          have hleaves : (newRun execution jobDef).LeavesRow env fuel .STARTED w₂ w' := by
            cases out with
            | returned a => exact hsettle
            | threw err => exact hsettle
            | stuck => cases hsettled
          rcases hleaves with ⟨final, w₃, hfinal, hrec, hdrove⟩ | ⟨err, w₃, hrec, hdrove⟩
          · rw [hdrove] at hdrive
            rw [show NoLongerBlocks execution.id w' ↔ _ from noLongerBlocks_iff hrec]
            exact iff_of_true (not_blocks_of_final hfinal)
              ⟨hborne.mp rfl, hdrive.mp ⟨final, rfl⟩⟩
          · rw [hdrove] at hdrive
            rw [show NoLongerBlocks execution.id w' ↔ _ from noLongerBlocks_iff hrec]
            refine iff_of_false (fun hblocks => hblocks rfl) ?_
            intro hboth
            obtain ⟨final, hfinal⟩ := hdrive.mpr hboth.2
            cases hfinal

/-- **When a settled launch leaves a row that no longer blocks**: exactly when its strategy takes
the partitions of the job, every entry bears with its `before:job` listener, and no value without a
string form reaches the `catch` block. -/
theorem settled_launch_unblocks_iff (hget : host.registry.get jobId = .ok jobDef)
    (hcreated : (create host jobDef jobId params identifyingParams).run (handle env) w =
      (.returned execution, w₁))
    (hlaunch : (launch host jobId params identifyingParams).run (handle env) w = (out, w'))
    (hsettled : out.settled) :
    NoLongerBlocks execution.id w' ↔
      TakesPartitions mode jobDef ∧
      ListenerInvoker.Borne ((newRun execution jobDef).toldBefore env w₁).1 ∧
      (newRun execution jobDef).Speaks env host.fuel
        ((newRun execution jobDef).toldBefore env w₁).2 := by
  obtain ⟨hstarting, hrow⟩ := create_filed hcreated
  rw [launch_eq hget, Prog.run_bind, hcreated] at hlaunch
  dsimp only at hlaunch
  by_cases htakes : TakesPartitions mode jobDef
  · obtain ⟨out', hrun, hsettled'⟩ := handOver_run hstrategy htakes hstarting hrow hlaunch hsettled
    rw [proceed_settles_iff hrow hrun hsettled']
    simp only [htakes, true_and]
  · have hrefused : ∃ m err, mode = some m ∧
        InProcessExecutionStrategy.assertPartitionsSupported m jobDef.steps.entries =
          .error err := by
      unfold TakesPartitions at htakes
      rw [not_forall] at htakes
      obtain ⟨m, hm⟩ := htakes
      rw [Classical.not_imp] at hm
      cases hassert : InProcessExecutionStrategy.assertPartitionsSupported m
          jobDef.steps.entries with
      | ok u => exact absurd hassert hm.2
      | error err => exact ⟨m, err, hm.1, hassert⟩
    obtain ⟨m, err, hmode, hassert⟩ := hrefused
    rw [handOver_refused hstrategy hmode hassert] at hlaunch
    have hw : w₁ = w' := congrArg Prod.snd hlaunch
    subst hw
    have hrec : Recorded execution.id .STARTING w₁ := ⟨execution, hrow, rfl, hstarting⟩
    rw [noLongerBlocks_iff hrec]
    constructor
    · intro hblocks
      exact absurd rfl hblocks
    · intro hboth
      exact absurd hboth.1 htakes

end Launch

/-! ### A launch that settles, and three that block the next one -/

/-- A launch of the job "import" in a fresh world. -/
def firstLaunch (env : Environment Nat Nat) (host : Host Nat) :
    Prog.Outcome Thrown JobExecution × World Nat :=
  (launch host "import" []).run (handle env) freshWorld

theorem firstLaunch_eq (env : Environment Nat Nat) (host : Host Nat) :
    (launch host "import" []).run (handle env) freshWorld =
      ((firstLaunch env host).1, (firstLaunch env host).2) := rfl

/-- The world in which the row of the pairs job has just been created. -/
def pairsCreated : World Nat :=
  ((create pairsHost pairsJob "import" [] none).run (handle (willing [10, 20, 30])) freshWorld).2

/-- The first launch of the pairs job. -/
theorem settled_launch_unblocks_iff_pairs :
    let R := newRun (InMemoryJobRepository.newExecution "r" "" []) pairsJob
    NoLongerBlocks "r" (firstLaunch (willing [10, 20, 30]) pairsHost).2 ↔
      TakesPartitions none pairsJob ∧
      ListenerInvoker.Borne (R.toldBefore (willing [10, 20, 30]) pairsCreated).1 ∧
      R.Speaks (willing [10, 20, 30]) 5
        (R.toldBefore (willing [10, 20, 30]) pairsCreated).2 := by
  have hcreated : (create pairsHost pairsJob "import" [] none).run (handle (willing [10, 20, 30]))
      freshWorld = (.returned (InMemoryJobRepository.newExecution "r" "" []), pairsCreated) :=
    Prod.ext rfl rfl
  have hsettled : (firstLaunch (willing [10, 20, 30]) pairsHost).1.settled := by decide +kernel
  have hlaunch := firstLaunch_eq (willing [10, 20, 30]) pairsHost
  have hstrategy : pairsHost.strategy =
      (none : Option InProcessPartitionViolationMode).map fun m =>
        InProcessExecutionStrategy.launch m pairsHost.fuel := rfl
  have hiff := settled_launch_unblocks_iff hstrategy rfl hcreated hlaunch hsettled
  exact hiff

/-- The in-process strategy refuses the partitions of the job. -/
def splitHost : Host Nat :=
  let host : Host Nat :=
    .only (jobOf { pairsStep with partitions := some { count := 2 } } [] []) rfl 5
  { host with strategy := some (InProcessExecutionStrategy.launch .throw 5) }

/-- A critical listener before the job. -/
def beforeJobListener : ListenerDefinition :=
  { kind := .job, ref := { kind := .BuilderLambda, fn := some 4 }, phase := .before }

def gatedHost : Host Nat := .only (jobOf pairsStep [] [beforeJobListener]) rfl 5

/-- Every listener throws. -/
def gatekeeper (items : List Nat) : Environment Nat Nat :=
  { willing items with
    user := fun
      | .listener _ _ _, pos, _ => (.error (.error "not now"), pos, [])
      | call, pos, ctx => (willing items).user call pos ctx }

/-- A job whose step has a decider. -/
def decidedJob : JobDefinition :=
  { pairsJob with deciders := [{ afterStepId := "pairs", decide := 6 }] }

def decidedHost : Host Nat := .only decidedJob rfl 5

/-- The decider throws an object without a prototype. -/
def speechless (items : List Nat) : Environment Nat Nat :=
  { willing items with
    user := fun
      | .decide _ _, pos, _ => (.error .bareObject, pos, [])
      | call, pos, ctx => (willing items).user call pos ctx }

/-- The first launch has settled, its row still blocks, and the next launch is
rejected because of it. -/
def BlocksNext (env : Environment Nat Nat) (host : Host Nat) : Prop :=
  (firstLaunch env host).1.settled ∧ ¬ NoLongerBlocks "r" (firstLaunch env host).2 ∧
    ((launch host "import" []).run (handle env) (firstLaunch env host).2).1 =
      .threw (.JobExecutionAlreadyRunningError "r")

/-- Three launches that leave the next one blocked. -/
theorem settled_launch_may_block :
    BlocksNext (willing [10]) splitHost ∧ BlocksNext (gatekeeper [10]) gatedHost ∧
      BlocksNext (speechless [10]) decidedHost := by
  have hstarting : Recorded "r" .STARTING (firstLaunch (willing [10]) splitHost).2 := by
    decide +kernel
  have hgated : Recorded "r" .STARTED (firstLaunch (gatekeeper [10]) gatedHost).2 := by
    decide +kernel
  have hdecided : Recorded "r" .STARTED (firstLaunch (speechless [10]) decidedHost).2 := by
    decide +kernel
  refine ⟨⟨by decide +kernel, ?_, rfl⟩, ⟨by decide +kernel, ?_, rfl⟩, ⟨by decide +kernel, ?_, rfl⟩⟩
  · rw [noLongerBlocks_iff hstarting]
    decide
  · rw [noLongerBlocks_iff hgated]
    decide
  · rw [noLongerBlocks_iff hdecided]
    decide

end JobLauncher

end NestBatch
