import NestBatch.Execution.LaunchSettles
import NestBatch.Repository.InstanceKeys
import NestBatch.Schedule.Bullmq

/-!
# The fires that are skipped

The guard of the launcher refuses a fire under `skip` while an execution of the
schedule is active.  The row of an execution comes first and its payloads second: as
long as the broker takes the payloads of every fire that is let in, an active
execution has its payloads in the queue, and a fire that is skipped overlaps with
one.  A fire whose payloads are refused leaves a row that nothing will ever run, and
the fires after it are skipped for it.

The worker of the schedules takes one fire at a time; between two of them anything
else may happen, except that no one else launches under the keys of the schedule.
-/

namespace NestBatch

open InMemoryJobRepository (instanceKey)

variable {α υ : Type}

/-- The payloads of an execution of the job have been enqueued. -/
def Enqueued (job : JobDefinition) (executionId : String) (w : World υ) : Prop :=
  ∀ payload ∈ BullmqRuntime.payloads job (contextOf executionId), payload ∈ w.queue

/-! ### What an operation leaves of the queue and of the nonces -/

/-- Nothing is taken out of the queue. -/
theorem handle_queue (env : Environment α υ) (o : Op α) (w : World υ) :
    ∀ payload ∈ w.queue, payload ∈ (handle env o w).2.queue := by
  intro payload hpayload
  cases o with
  | enqueue other =>
      simp only [handle]
      split
      · exact List.mem_append_left _ hpayload
      · exact hpayload
  | user call =>
      change payload ∈ (handleUser env call w).2.queue
      unfold handleUser
      cases call.stepScope with
      | none => exact hpayload
      | some id => exact hpayload
  | _ => exact hpayload

/-- A nonce is used up. -/
theorem handle_uuid (env : Environment α υ) (o : Op α) (w : World υ) :
    (handle env o w).2.uuid = w.uuid ∧ w.uuidsIssued ≤ (handle env o w).2.uuidsIssued := by
  cases o with
  | randomUUID => exact ⟨rfl, Nat.le_succ _⟩
  | enqueue payload =>
      simp only [handle]
      split
      · exact ⟨rfl, Nat.le_refl _⟩
      · exact ⟨rfl, Nat.le_refl _⟩
  | user call =>
      change (handleUser env call w).2.uuid = w.uuid ∧
        w.uuidsIssued ≤ (handleUser env call w).2.uuidsIssued
      unfold handleUser
      cases call.stepScope with
      | none => exact ⟨rfl, Nat.le_refl _⟩
      | some id => exact ⟨rfl, Nat.le_refl _⟩
  | _ => exact ⟨rfl, Nat.le_refl _⟩

/-- The repository and the nonces are the same, and nothing has left the queue. -/
structure World.SameBooks (w w' : World υ) : Prop where
  repo : w'.repo = w.repo
  uuid : w'.uuid = w.uuid
  uuidsIssued : w'.uuidsIssued = w.uuidsIssued
  queue : ∀ payload ∈ w.queue, payload ∈ w'.queue

/-! ### A launch that enqueues -/

section HandOver

variable {env : Environment α υ}

/-- The broker does not throw what the guard of the launcher throws. -/
def BrokerForeign (env : Environment α υ) : Prop :=
  ∀ payload user err, (env.broker payload user).1 = .error err →
    err.name ≠ .jobExecutionAlreadyRunning

/-- A definition that validates has startable partitions. -/
theorem validatePartitions_of_validate {job : JobDefinition}
    (h : DefinitionValidator.validate job = .ok ()) :
    validatePartitions (startPartitions job) = .ok () := by
  unfold startPartitions JobDefinition.step?
  cases hget : job.steps.get? job.startStepId with
  | none =>
      dsimp only
      split
      · next step hstep =>
          split at hstep
          · cases hstep
          · cases hstep
      · rfl
  | some step =>
      have hstep := DefinitionValidator.validateStep_of_validate h hget
      cases step with
      | chunk step => exact (DefinitionValidator.chunk_of_validateStep hstep).2
      | _ => rfl

/-- A registered job has startable partitions. -/
theorem validatePartitions_of_get {registry : JobRegistry} {jobId : String} {job : JobDefinition}
    (h : registry.get jobId = .ok job) : validatePartitions (startPartitions job) = .ok () :=
  validatePartitions_of_validate (JobRegistry.get_eq_ok h).2

/-- Enqueuing touches the queue alone, and fails with an error of the broker. -/
theorem wp_enqueueAll (hforeign : BrokerForeign env) (payloads : List JobPayload) (last : String)
    (w : World υ) :
    (enqueueAll payloads last : Code α String).wp (rowLogic env)
      (fun out w' => w.SameBooks w' ∧
        ∀ err, out = .error err → err.name ≠ .jobExecutionAlreadyRunning) w := by
  induction payloads generalizing last w with
  | nil => exact ⟨⟨rfl, rfl, rfl, fun _ h => h⟩, fun err h => by cases h⟩
  | cons payload rest ih =>
      refine Prog.wp_bind.mpr (Prog.wp_bind.mpr (Prog.wp_perform.mpr ⟨trivial, ?_⟩))
      intro r w₁ ht
      have hqueue := handle_queue env (.enqueue payload) w
      cases hbroker : env.broker payload w.user with
      | mk answer user =>
          have herr := hforeign payload w.user
          rw [hbroker] at herr
          cases answer with
          | error err =>
              have hhandle : handle env (.enqueue payload) w =
                  (.error err, { w with user := user }) := by
                simp only [handle, hbroker]
              cases hhandle.symm.trans ht
              exact ⟨⟨rfl, rfl, rfl, fun _ h => h⟩, fun err' h => by cases h; exact herr err rfl⟩
          | ok queueJobId =>
              have hhandle : handle env (.enqueue payload) w =
                  (.ok queueJobId, { w with user := user, queue := w.queue ++ [payload] }) := by
                simp only [handle, hbroker]
              rw [hhandle] at hqueue
              cases hhandle.symm.trans ht
              change (enqueueAll rest queueJobId : Code α String).wp (rowLogic env) _ _
              refine Prog.wp_mono (ih queueJobId _) ?_
              intro out w' hrest
              obtain ⟨⟨hrepo, huuid, hissued, hkept⟩, hnot⟩ := hrest
              exact ⟨⟨hrepo, huuid, hissued, fun p hp => hkept p (hqueue p hp)⟩, hnot⟩

/-- Payloads that the broker takes are in the queue afterwards. -/
theorem wp_enqueueAll_taken {payloads : List JobPayload} {w : World υ}
    (htaken : firstRefusal env payloads w.user = none) (last : String) :
    (enqueueAll payloads last : Code α String).wp (rowLogic env)
      (fun _ w' => ∀ payload ∈ payloads, payload ∈ w'.queue) w := by
  have hrun : Enqueues payloads w (firstRefusal env payloads w.user)
      ((enqueueAll payloads last : Code α String).run (handle env) w) :=
    enqueueAll_run payloads last w
  rw [htaken] at hrun
  refine Prog.wp_mono (wp_as_run env _ w) ?_
  intro out w' hended payload hpayload
  rw [hended] at hrun
  rw [hrun.2]
  exact List.mem_append_right _ hpayload

end HandOver

namespace BullmqSchedule

variable (S : BullmqSchedule α) (env : Environment α υ) (jobId scheduleName : String)

/-- The key of the schedule under `skip`. -/
def canonicalKey : String := S.host.canonicalJobKey (identifyingParams scheduleName)

/-- The key of a launch of a job that allows duplicates. -/
def duplicateKey (nonce : String) : String := S.canonicalKey scheduleName ++ "::" ++ nonce

/-- The keys under which the instances of the schedule are filed. -/
def IsScheduleKey (key : String) : Prop :=
  key = instanceKey jobId (S.canonicalKey scheduleName) ∨
    ∃ nonce, key = instanceKey jobId (S.duplicateKey scheduleName nonce)

/-- An execution of the schedule is active, and its payloads have been enqueued. -/
def Overlaps (w : World υ) : Prop :=
  ∃ job executionId row, S.host.registry.get jobId = .ok job ∧
    w.repo.getJobExecution executionId = some row ∧ row.status.blocksLaunch ∧
    w.repo.ExecutionUnder (S.IsScheduleKey jobId scheduleName) executionId ∧
    Enqueued job executionId w

/-- If the guard lets a fire in, the broker refuses none of its payloads.  A job that allows
duplicates gets another key each time, so its fires do not stand in each other's way. -/
def BrokerTakes (w : World υ) : Prop :=
  ∀ job, S.host.registry.get jobId = .ok job → job.allowDuplicateInstances = false →
    ∀ now params execution, (w.repo.createExecutionAtomic now jobId (S.canonicalKey scheduleName)
      params).1 = .ok execution →
        firstRefusal env (BullmqRuntime.payloads job (contextOf execution.id)) w.user = none

/-- A fire of the schedule is attempted, the first time or again, in a world where `P` holds; or
something else happens. -/
inductive Step (P : World υ → Prop) : World υ → World υ → Prop
  | attempt {w : World υ} (fire : ScheduleFire) (hjobId : fire.jobId = jobId)
      (hname : fire.scheduleName = scheduleName) (h : P w) :
      Step P w ((S.processScheduleFire fire).run (handle env) w).2
  | other {w : World υ} (o : Op α)
      (ho : ∀ key, o.launchKey = some key → ¬ S.IsScheduleKey jobId scheduleName key) :
      Step P w (handle env o w).2

/-- Attempts of the fires of the schedule, and what happens between them. -/
def Runs (P : World υ → Prop) : World υ → World υ → Prop :=
  Relation.ReflTransGen (S.Step env jobId scheduleName P)

/-- Different nonces make different keys of a skipped duplicate. -/
theorem duplicateKey_injective {S : BullmqSchedule α} {jobId scheduleName nonce nonce' : String}
    (h : instanceKey jobId (S.duplicateKey scheduleName nonce) =
      instanceKey jobId (S.duplicateKey scheduleName nonce')) : nonce = nonce' :=
  (String.append_right_inj _).mp ((String.append_right_inj _).mp h)

/-! ### What the executions of a schedule have enqueued -/

/-- Executions of the schedule have been enqueued, and the keys to come are free. -/
structure FiresFiled (w : World υ) : Prop where
  keys : w.repo.KeysFiled
  enqueued : ∀ job, S.host.registry.get jobId = .ok job → job.allowDuplicateInstances = false →
    ∀ id, w.repo.ExecutionUnder (S.IsScheduleKey jobId scheduleName) id → Enqueued job id w
  fresh : ∀ job, S.host.registry.get jobId = .ok job → job.allowDuplicateInstances = true →
    ∀ n, w.uuidsIssued ≤ n → w.repo.instancesByKey.get?
      (instanceKey jobId (S.duplicateKey scheduleName (w.uuid.next n))) = none

variable {S env jobId scheduleName} {w w' : World υ}

theorem firesFiled_initial (idGen uuid : IdGenerator) (user : υ) :
    S.FiresFiled jobId scheduleName (World.initial idGen uuid user) where
  keys := InMemoryJobRepository.keysFiled_new idGen
  enqueued _ _ _ _ h := by
    obtain ⟨key, inst, row, -, hinst, -⟩ := h
    cases hinst
  fresh _ _ _ _ _ := rfl

/-! ### What happens between the attempts -/

/-- Only a launch of the schedule needs to be looked at. -/
theorem FiresFiled.other (h : S.FiresFiled jobId scheduleName w) {o : Op α}
    (ho : ∀ key, o.launchKey = some key → ¬ S.IsScheduleKey jobId scheduleName key) :
    S.FiresFiled jobId scheduleName (handle env o w).2 := by
  have hqueue : ∀ job id, Enqueued job id w → Enqueued job id (handle env o w).2 :=
    fun job id henqueued payload hpayload => handle_queue env o w _ (henqueued payload hpayload)
  obtain ⟨huuid, hissued⟩ := handle_uuid env o w
  cases hkey : o.launchKey with
  | none =>
      have hsame := handle_sameKeys env hkey w
      refine ⟨h.keys.same hsame, ?_, ?_⟩
      · intro job hjob hdup id hunder
        exact hqueue job id (h.enqueued job hjob hdup id (hunder.same hsame))
      · intro job hjob hdup n hn
        rw [hsame.instancesByKey, huuid]
        exact h.fresh job hjob hdup n (Nat.le_trans hissued hn)
  | some key =>
      have hforeign := ho key hkey
      cases o with
      | createExecutionAtomic name jobKey params =>
          cases hkey
          refine ⟨h.keys.createExecution w.clock name jobKey params, ?_, ?_⟩
          · intro job hjob hdup id hunder
            rcases hunder.of_createExecution h.keys with hold | ⟨hown, -⟩
            · exact h.enqueued job hjob hdup id hold
            · exact absurd hown hforeign
          · intro job hjob hdup n hn
            refine Eq.trans (InMemoryJobRepository.createExecutionAtomic_other_key ?_)
              (h.fresh job hjob hdup n hn)
            intro heq
            exact hforeign (.inr ⟨w.uuid.next n, heq.symm⟩)
      | _ => cases hkey

/-! ### An attempt -/

variable {fire : ScheduleFire}

/-- The scheduled instant of a fire reads the clock and nothing else. -/
theorem wp_scheduledAt (fire : ScheduleFire) (w : World υ) :
    (S.scheduledAt fire : Code α String).wp (rowLogic env)
      (fun out w' => (∃ time, out = .ok time) ∧ ∃ clock, w' = { w with clock := clock }) w := by
  unfold scheduledAt
  cases fire.timestamp with
  | some timestamp => exact ⟨⟨_, rfl⟩, w.clock, rfl⟩
  | none =>
      refine Prog.wp_bind.mpr (Prog.wp_perform.mpr ⟨trivial, ?_⟩)
      intro time w' ht
      cases ht
      exact ⟨⟨_, rfl⟩, w.clock + 1, rfl⟩

/-- A launch through BullMQ enqueues what it is handed, or fails. -/
theorem wp_handOver (hforeign : BrokerForeign env)
    (hstrategy : S.host.strategy = some BullmqRuntime.launch) {job : JobDefinition}
    (hpartitions : validatePartitions (startPartitions job) = .ok ()) (params : JobParameters)
    (execution : JobExecution) (w : World υ) :
    (JobLauncher.handOver S.host job params execution).wp (rowLogic env)
      (fun out w' => (w.SameBooks w' ∧
        ∀ err, out = .error err → err.name ≠ .jobExecutionAlreadyRunning) ∧
        (firstRefusal env (BullmqRuntime.payloads job (contextOf execution.id)) w.user = none →
          Enqueued job execution.id w')) w := by
  have heq : (JobLauncher.handOver S.host job params execution : Code α JobExecution) =
      enqueueAll (BullmqRuntime.payloads job (contextOf execution.id)) "" >>= fun _ =>
        getJobExecution execution.id >>= fun latest => .pure (latest.getD execution) := by
    unfold JobLauncher.handOver
    rw [hstrategy]
    change BullmqRuntime.launch job params (contextOf execution.id) >>= _ = _
    rw [BullmqRuntime.launch_valid hpartitions, Prog.bind_assoc]
    rfl
  have hbooks := wp_enqueueAll (α := α) hforeign
    (BullmqRuntime.payloads job (contextOf execution.id)) "" w
  have hqueue : (enqueueAll (BullmqRuntime.payloads job (contextOf execution.id)) "" :
      Code α String).wp (rowLogic env) (fun _ w' =>
        firstRefusal env (BullmqRuntime.payloads job (contextOf execution.id)) w.user = none →
          Enqueued job execution.id w') w := by
    by_cases htaken : firstRefusal env (BullmqRuntime.payloads job (contextOf execution.id))
        w.user = none
    · exact Prog.wp_mono (wp_enqueueAll_taken htaken "") fun _ _ h _ => h
    · exact Prog.wp_mono hbooks fun _ _ _ h => absurd h htaken
  rw [heq]
  refine Prog.wp_seq (Prog.wp_and hbooks hqueue) ?_ ?_
  · intro last w₁ h
    refine Prog.wp_bind.mpr (Prog.wp_perform.mpr ⟨trivial, ?_⟩)
    intro latest w₂ ht
    cases ht
    exact ⟨⟨h.1.1, fun err herr => by cases herr⟩, h.2⟩
  · intro err w₁ h
    refine ⟨⟨h.1.1, ?_⟩, h.2⟩
    intro err' herr'
    cases herr'
    exact h.1.2 err rfl

/-- Fires stay filed while the books stay. -/
theorem FiresFiled.books (h : S.FiresFiled jobId scheduleName w) (hsame : w.SameBooks w') :
    S.FiresFiled jobId scheduleName w' where
  keys := hsame.repo ▸ h.keys
  enqueued job hjob hdup id hunder payload hpayload :=
    hsame.queue _ (h.enqueued job hjob hdup id (hsame.repo ▸ hunder) payload hpayload)
  fresh job hjob hdup n hn := by
    rw [hsame.uuidsIssued] at hn
    rw [hsame.repo, hsame.uuid]
    exact h.fresh job hjob hdup n hn

/-- The rest of a launch, once its key is known. -/
def create (job : JobDefinition) (jobId key : String) (params : JobParameters) :
    Code α JobExecution := do
  let execution ← createExecutionAtomic jobId key params
  JobLauncher.handOver S.host job params execution

variable {job : JobDefinition}

/-- A schedule under one key: who is refused overlaps, who is let in is enqueued. -/
theorem wp_create_single (hforeign : BrokerForeign env)
    (hstrategy : S.host.strategy = some BullmqRuntime.launch)
    (hjob : S.host.registry.get jobId = .ok job) (hdup : job.allowDuplicateInstances = false)
    (h : S.FiresFiled jobId scheduleName w) (params : JobParameters) :
    (S.create job jobId (S.canonicalKey scheduleName) params).wp (rowLogic env)
      (fun out w' =>
        (S.BrokerTakes env jobId scheduleName w → S.FiresFiled jobId scheduleName w') ∧
        ∀ err, out = .error err → err.name = .jobExecutionAlreadyRunning →
          S.Overlaps jobId scheduleName w) w := by
  have hpartitions := validatePartitions_of_get hjob
  refine Prog.wp_bind.mpr (Prog.wp_bind.mpr (Prog.wp_perform.mpr ⟨trivial, ?_⟩))
  intro r w₁ ht
  have hr :
      (w.repo.createExecutionAtomic w.clock jobId (S.canonicalKey scheduleName) params).1 = r :=
    congrArg Prod.fst ht
  have hw₁ : { w with repo := (w.repo.createExecutionAtomic w.clock jobId
      (S.canonicalKey scheduleName) params).2 } = w₁ := congrArg Prod.snd ht
  subst hw₁
  have hkeys := h.keys.createExecution w.clock jobId (S.canonicalKey scheduleName) params
  cases r with
  | error err =>
      refine ⟨fun _ => ⟨hkeys, ?_, ?_⟩, ?_⟩
      · intro job' hjob' hdup' id hunder
        rcases hunder.of_createExecution h.keys with hold | ⟨-, execution, hok, -⟩
        · exact h.enqueued job' hjob' hdup' id hold
        · cases hok.symm.trans hr
      · intro job' hjob' hdup'
        cases hjob.symm.trans hjob'
        rw [hdup] at hdup'
        cases hdup'
      · intro err' _ _
        obtain ⟨-, id, row, hrow, hblocks, key, inst, row', hkey, hunder⟩ :=
          InMemoryJobRepository.createExecutionAtomic_refused h.keys hr
        have hschedule : w.repo.ExecutionUnder (S.IsScheduleKey jobId scheduleName) id :=
          ⟨key, inst, row', .inl hkey, hunder⟩
        exact ⟨job, id, row, hjob, hrow, hblocks, hschedule, h.enqueued job hjob hdup id hschedule⟩
  | ok execution =>
      change (JobLauncher.handOver S.host job params execution).wp (rowLogic env) _ _
      refine Prog.wp_mono (wp_handOver hforeign hstrategy hpartitions params execution _) ?_
      intro out w' hended
      obtain ⟨⟨hbooks, hnot⟩, henqueued⟩ := hended
      refine ⟨?_, fun err herr hname => absurd hname (hnot err herr)⟩
      intro htakes
      have htaken := henqueued (htakes job hjob hdup w.clock params execution hr)
      refine ⟨hbooks.repo ▸ hkeys, ?_, ?_⟩
      · intro job' hjob' hdup' id hunder
        cases hjob.symm.trans hjob'
        rw [hbooks.repo] at hunder
        rcases hunder.of_createExecution h.keys with hold | ⟨-, execution', hok, hid⟩
        · intro payload hpayload
          exact hbooks.queue _ (h.enqueued job hjob hdup id hold payload hpayload)
        · cases hok.symm.trans hr
          exact hid ▸ htaken
      · intro job' hjob' hdup'
        cases hjob.symm.trans hjob'
        rw [hdup] at hdup'
        cases hdup'

/-- A schedule of a job that allows duplicates: nobody is refused. -/
theorem wp_create_duplicate (hforeign : BrokerForeign env)
    (hstrategy : S.host.strategy = some BullmqRuntime.launch)
    (hjob : S.host.registry.get jobId = .ok job) (hdup : job.allowDuplicateInstances = true)
    (h : S.FiresFiled jobId scheduleName w) (params : JobParameters) :
    (S.create job jobId (S.duplicateKey scheduleName (w.uuid.next w.uuidsIssued)) params).wp
      (rowLogic env) (fun out w' => S.FiresFiled jobId scheduleName w' ∧
        ∀ err, out = .error err → err.name ≠ .jobExecutionAlreadyRunning)
      { w with uuidsIssued := w.uuidsIssued + 1 } := by
  have hpartitions := validatePartitions_of_get hjob
  have hfree := h.fresh job hjob hdup w.uuidsIssued (Nat.le_refl _)
  refine Prog.wp_bind.mpr (Prog.wp_bind.mpr (Prog.wp_perform.mpr ⟨trivial, ?_⟩))
  intro r w₁ ht
  have hr : (w.repo.createExecutionAtomic w.clock jobId
      (S.duplicateKey scheduleName (w.uuid.next w.uuidsIssued)) params).1 = r :=
    congrArg Prod.fst ht
  have hw₁ : { w with
      repo := (w.repo.createExecutionAtomic w.clock jobId
        (S.duplicateKey scheduleName (w.uuid.next w.uuidsIssued)) params).2
      uuidsIssued := w.uuidsIssued + 1 } = w₁ := congrArg Prod.snd ht
  subst hw₁
  cases r with
  | error err =>
      obtain ⟨-, id, row, -, -, key, inst, row', hkey, hinst, -⟩ :=
        InMemoryJobRepository.createExecutionAtomic_refused h.keys hr
      rw [hkey, hfree] at hinst
      cases hinst
  | ok execution =>
      change (JobLauncher.handOver S.host job params execution).wp (rowLogic env) _ _
      refine Prog.wp_mono (wp_handOver hforeign hstrategy hpartitions params execution _) ?_
      intro out w' hended
      obtain ⟨⟨hbooks, hnot⟩, -⟩ := hended
      refine ⟨FiresFiled.books ⟨h.keys.createExecution _ _ _ _, ?_, ?_⟩ hbooks, hnot⟩
      · intro job' hjob' hdup'
        cases hjob.symm.trans hjob'
        rw [hdup] at hdup'
        cases hdup'
      · intro job' hjob' hdup' n hn
        have hlater : w.uuidsIssued < n := hn
        refine Eq.trans (InMemoryJobRepository.createExecutionAtomic_other_key ?_)
          (h.fresh job' hjob' hdup' n (Nat.le_of_lt hlater))
        intro heq
        have hsame := w.uuid.unique (duplicateKey_injective heq)
        omega

/-- A launch of the schedule. -/
theorem wp_launch (hforeign : BrokerForeign env)
    (hstrategy : S.host.strategy = some BullmqRuntime.launch)
    (h : S.FiresFiled jobId scheduleName w) (params : JobParameters) :
    (JobLauncher.launch S.host jobId params (some (identifyingParams scheduleName))).wp
      (rowLogic env) (fun out w' =>
        (S.BrokerTakes env jobId scheduleName w → S.FiresFiled jobId scheduleName w') ∧
        ∀ err, out = .error err → err.name = .jobExecutionAlreadyRunning →
          S.Overlaps jobId scheduleName w) w := by
  unfold JobLauncher.launch
  cases hjob : S.host.registry.get jobId with
  | error err =>
      refine ⟨fun _ => h, ?_⟩
      intro err' herr' hname
      cases herr'
      rw [JobRegistry.get_eq_error hjob] at hname
      cases hname
  | ok job =>
      cases hdup : job.allowDuplicateInstances with
      | false =>
          have hkey : (JobLauncher.jobKey S.host job (identifyingParams scheduleName) :
              Code α String) = .pure (S.canonicalKey scheduleName) := by
            unfold JobLauncher.jobKey
            rw [hdup]
            rfl
          change (JobLauncher.jobKey S.host job (identifyingParams scheduleName) >>= fun key =>
            S.create job jobId key params).wp (rowLogic env) _ w
          rw [hkey]
          exact wp_create_single hforeign hstrategy hjob hdup h params
      | true =>
          have hkey : (JobLauncher.jobKey S.host job (identifyingParams scheduleName) :
              Code α String) = randomUUID >>= fun nonce =>
                .pure (S.duplicateKey scheduleName nonce) := by
            unfold JobLauncher.jobKey
            rw [hdup]
            rfl
          change (JobLauncher.jobKey S.host job (identifyingParams scheduleName) >>= fun key =>
            S.create job jobId key params).wp (rowLogic env) _ w
          rw [hkey, Prog.bind_assoc]
          refine Prog.wp_bind.mpr (Prog.wp_perform.mpr ⟨trivial, ?_⟩)
          intro nonce w₁ ht
          cases ht
          refine Prog.wp_mono (wp_create_duplicate hforeign hstrategy hjob hdup h params) ?_
          intro out w' hended
          exact ⟨fun _ => hended.1, fun err herr hname => absurd hname (hended.2 err herr)⟩

/-- The clock matters to none of this. -/
theorem FiresFiled.clock (h : S.FiresFiled jobId scheduleName w) (clock : Time) :
    S.FiresFiled jobId scheduleName { w with clock := clock } :=
  ⟨h.keys, h.enqueued, h.fresh⟩

/-- **One attempt**: whoever reports a skip has seen an overlap. -/
theorem wp_processScheduleFire (hforeign : BrokerForeign env)
    (hstrategy : S.host.strategy = some BullmqRuntime.launch)
    (hoverlap : S.overlap jobId scheduleName = .skip) (hjobId : fire.jobId = jobId)
    (hname : fire.scheduleName = scheduleName) (h : S.FiresFiled jobId scheduleName w) :
    (S.processScheduleFire fire).wp (rowLogic env) (fun out w' =>
      (S.BrokerTakes env jobId scheduleName w → S.FiresFiled jobId scheduleName w') ∧
        (out = .ok .skipped → S.Overlaps jobId scheduleName w)) w := by
  subst hjobId hname
  unfold processScheduleFire
  cases checkPayload fire with
  | error err => exact ⟨fun _ => h, fun hskipped => by cases hskipped⟩
  | ok u =>
      change ((S.scheduledAt fire) >>= _).wp (rowLogic env) _ w
      refine Prog.wp_seq (wp_scheduledAt fire w) ?_ ?_
      · intro scheduledAt w₁ hclock
        obtain ⟨-, clock, hw₁⟩ := hclock
        subst hw₁
        rw [if_pos hoverlap]
        refine Prog.wp_tryCatch.mpr ?_
        refine Prog.wp_seq (wp_launch hforeign hstrategy (h.clock clock) _) ?_ ?_
        · intro execution w' hended
          exact ⟨hended.1, fun hskipped => by cases hskipped⟩
        · intro err w' hended
          change (if S.overlap fire.jobId fire.scheduleName = .skip ∧
            err.name = .jobExecutionAlreadyRunning then .pure .skipped else .throw err :
              Code α FireReport).wp (rowLogic env) _ w'
          by_cases hrunning : err.name = .jobExecutionAlreadyRunning
          · rw [if_pos ⟨hoverlap, hrunning⟩]
            exact ⟨hended.1, fun _ => hended.2 err rfl hrunning⟩
          · rw [if_neg fun hboth => hrunning hboth.2]
            exact ⟨hended.1, fun hskipped => by cases hskipped⟩
      · intro err w₁ hclock
        obtain ⟨⟨time, htime⟩, -⟩ := hclock
        cases htime

/-! ### An attempt comes to an end -/

/-- What an attempt does. -/
def fireKinds : List OpKind := [.clock, .uuid, .createExecution, .enqueue, .getJob]

/-- Enqueueing makes only the calls of a fire. -/
theorem uses_enqueueAll (payloads : List JobPayload) (last : String) :
    (enqueueAll payloads last : Code α String).Uses (On fireKinds) := by
  induction payloads generalizing last with
  | nil => trivial
  | cons payload rest ih =>
      apply Prog.Uses.bind
      · exact uses_orThrow (uses_request (by simp [fireKinds, Op.kind]))
      · exact fun queueJobId => ih queueJobId

/-- A launch on the queue makes only the calls of a fire. -/
theorem uses_launch (hstrategy : S.host.strategy = some BullmqRuntime.launch) (jobId : String)
    (params : JobParameters) (identifying : Option JobParameters) :
    (JobLauncher.launch S.host jobId params identifying).Uses (On fireKinds) := by
  refine Prog.Uses.bind (Prog.uses_ofExcept _) fun jobDef => ?_
  refine Prog.Uses.bind ?_ fun key => ?_
  · refine .ite (fun _ => ?_) (fun _ => trivial)
    exact (uses_request (by simp [fireKinds, Op.kind])).bind fun _ => trivial
  · refine Prog.Uses.bind (uses_orThrow (uses_request (by simp [fireKinds, Op.kind])))
      fun execution => ?_
    unfold JobLauncher.handOver
    rw [hstrategy]
    refine Prog.Uses.bind ?_ fun _ =>
      (uses_request (by simp [fireKinds, Op.kind])).bind fun _ => trivial
    refine Prog.Uses.bind (Prog.uses_ofExcept _) fun _ => ?_
    exact (uses_enqueueAll _ _).bind fun _ => trivial

/-- Working off a fire makes only the calls of a fire. -/
theorem uses_processScheduleFire (hstrategy : S.host.strategy = some BullmqRuntime.launch)
    (fire : ScheduleFire) : (S.processScheduleFire fire).Uses (On fireKinds) := by
  refine Prog.Uses.bind (Prog.uses_ofExcept _) fun _ => ?_
  refine Prog.Uses.bind ?_ fun scheduledAt => ?_
  · unfold scheduledAt
    cases fire.timestamp with
    | some timestamp => trivial
    | none => exact (uses_now (by decide)).bind fun _ => trivial
  · refine Prog.Uses.tryCatch ((uses_launch hstrategy _ _ _).bind fun _ => trivial) fun err => ?_
    exact .ite (fun _ => trivial) (fun _ => trivial)

/-- What is said of the end of an attempt holds where its run ends. -/
theorem run_of_wp (hstrategy : S.host.strategy = some BullmqRuntime.launch)
    {Q : Except Thrown FireReport → World υ → Prop}
    (h : (S.processScheduleFire fire).wp (rowLogic env) Q w) :
    ∃ out, ((S.processScheduleFire fire).run (handle env) w).1 = .ended out ∧
      Q out ((S.processScheduleFire fire).run (handle env) w).2 := by
  have hsettled := Prog.settled_of_uses (handle env) (uses_processScheduleFire hstrategy fire)
    (fun hloops => hloops) w
  have hended := Prog.wp_run h
  cases hrun : (S.processScheduleFire fire).run (handle env) w with
  | mk out w' =>
      rw [hrun] at hsettled hended
      cases out with
      | returned report => exact ⟨.ok report, rfl, hended⟩
      | threw err => exact ⟨.error err, rfl, hended⟩
      | stuck => cases hsettled

/-! ### A run -/

/-- Fires stay filed over every run of the schedule. -/
theorem FiresFiled.run (hforeign : BrokerForeign env)
    (hstrategy : S.host.strategy = some BullmqRuntime.launch)
    (hoverlap : S.overlap jobId scheduleName = .skip) (h : S.FiresFiled jobId scheduleName w)
    (hrun : S.Runs env jobId scheduleName (S.BrokerTakes env jobId scheduleName) w w') :
    S.FiresFiled jobId scheduleName w' := by
  induction hrun with
  | refl => exact h
  | tail _ hstep ih =>
      cases hstep with
      | attempt fire hjobId hname htakes =>
          obtain ⟨out, -, hended⟩ := run_of_wp hstrategy
            (wp_processScheduleFire hforeign hstrategy hoverlap hjobId hname ih)
          exact hended.1 htakes
      | other o ho => exact ih.other ho

/-- **A fire is skipped only for an overlap**, in every run in which the broker takes the payloads
of every fire that the guard lets in: an execution of the schedule is active, and has been
enqueued. -/
theorem skipped_only_for_overlap (S : BullmqSchedule α) (env : Environment α υ)
    (hforeign : BrokerForeign env) (hstrategy : S.host.strategy = some BullmqRuntime.launch)
    {jobId scheduleName : String} (hoverlap : S.overlap jobId scheduleName = .skip)
    (idGen uuid : IdGenerator) (user : υ) {w : World υ}
    (hrun : S.Runs env jobId scheduleName (S.BrokerTakes env jobId scheduleName)
      (World.initial idGen uuid user) w)
    {fire : ScheduleFire} (hjobId : fire.jobId = jobId) (hname : fire.scheduleName = scheduleName)
    (hskipped : ((S.processScheduleFire fire).run (handle env) w).1 = .returned .skipped) :
    S.Overlaps jobId scheduleName w := by
  have hfiled := (firesFiled_initial idGen uuid user).run hforeign hstrategy hoverlap hrun
  obtain ⟨out, hout, hended⟩ := run_of_wp hstrategy
    (wp_processScheduleFire hforeign hstrategy hoverlap hjobId hname hfiled)
  rw [hskipped] at hout
  cases out with
  | ok report =>
      cases hout
      exact hended.2 rfl
  | error err => cases hout

/-! ### A broker that is down for a moment -/

/-- A broker that refuses the first payload it is handed. -/
def flakyBroker : Environment Nat Nat :=
  { willing [10, 20, 30] with
    broker := fun _ asked =>
      if asked = 0 then (.error (.error "Connection is closed."), 1) else (.ok "1", asked + 1) }

/-- An import that is scheduled under `skip`. -/
def nightlyImport : BullmqSchedule Nat where
  host :=
    { registry := JobRegistry.only (splitJob 1) rfl
      canonicalJobKey := fun _ => "key"
      strategy := some BullmqRuntime.launch
      fuel := 0 }
  scheduleRegistry := .empty
  toISOString := fun _ => "1970-01-01T00:00:00.000Z"

def nightlyFire (id : String) : ScheduleFire :=
  { jobId := "import", scheduleName := "nightly", methodName := "run", timestamp := some 0
    id := some id }

/-- Where an attempt of a nightly fire leads. -/
def afterFire (env : Environment Nat Nat) (id : String) (w : World Nat) : World Nat :=
  ((nightlyImport.processScheduleFire (nightlyFire id)).run (handle env) w).2

/-- The second of two fires is skipped while the first is in the queue. -/
theorem skipped_only_for_overlap_nightly :
    nightlyImport.Overlaps "import" "nightly"
      (afterFire (willing [10, 20, 30]) "1" freshWorld) := by
  have htakes : nightlyImport.BrokerTakes (willing [10, 20, 30]) "import" "nightly" freshWorld := by
    intro job hjob hdup now params execution hok
    cases hjob
    rfl
  have hforeign : BrokerForeign (willing [10, 20, 30] : Environment Nat Nat) := by
    intro payload user err herr
    cases herr
  have hrun : nightlyImport.Runs (willing [10, 20, 30]) "import" "nightly"
      (nightlyImport.BrokerTakes (willing [10, 20, 30]) "import" "nightly") freshWorld
      (afterFire (willing [10, 20, 30]) "1" freshWorld) :=
    .single (.attempt (nightlyFire "1") rfl rfl htakes)
  have hjobId : (nightlyFire "2").jobId = "import" := rfl
  have hname : (nightlyFire "2").scheduleName = "nightly" := rfl
  exact skipped_only_for_overlap nightlyImport (willing [10, 20, 30]) hforeign rfl rfl
    (unaryIds 'r') (unaryIds 'u') 0 hrun hjobId hname rfl

/-- The broker refuses the first attempt of a fire.  Its retry is skipped, and so is the next fire,
but no payload has ever been enqueued. -/
theorem skipped_without_overlap :
    let attempt := fun id w =>
      ((nightlyImport.processScheduleFire (nightlyFire id)).run (handle flakyBroker) w).1
    let refused := afterFire flakyBroker "1" freshWorld
    let retried := afterFire flakyBroker "1" refused
    attempt "1" freshWorld = .threw (.error "Connection is closed.") ∧
    attempt "1" refused = .returned .skipped ∧
    attempt "2" retried = .returned .skipped ∧
    nightlyImport.Runs flakyBroker "import" "nightly" (fun _ => True) freshWorld retried ∧
    ¬ nightlyImport.Overlaps "import" "nightly" refused ∧
    ¬ nightlyImport.Overlaps "import" "nightly" retried := by
  have hnever : ∀ w : World Nat, w.queue = [] → ¬ nightlyImport.Overlaps "import" "nightly" w := by
    intro w hempty h
    obtain ⟨job, id, row, hjob, -, -, -, henqueued⟩ := h
    cases hjob
    have hmem := henqueued (payloadOf (splitJob 1) (contextOf id) none) (List.mem_singleton.mpr rfl)
    rw [hempty] at hmem
    cases hmem
  have hstep : ∀ w, nightlyImport.Step flakyBroker "import" "nightly" (fun _ => True) w
      (afterFire flakyBroker "1" w) := fun w => .attempt (nightlyFire "1") rfl rfl trivial
  have hrun : nightlyImport.Runs flakyBroker "import" "nightly" (fun _ => True) freshWorld
      (afterFire flakyBroker "1" (afterFire flakyBroker "1" freshWorld)) :=
    .tail (.single (hstep freshWorld)) (hstep _)
  exact ⟨rfl, rfl, rfl, hrun, hnever _ rfl, hnever _ rfl⟩

end BullmqSchedule

end NestBatch
