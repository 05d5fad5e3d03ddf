import NestBatch.Transport.Site

/-!
# Every session keeps to its permit

A launch, a call of the operator and a delivery are taken through their code once,
against the log of their calls; what the repository answers is not looked at, but
for the id of a row.  The rule of a service then gives the permits to every session
of every interleaving.
-/

namespace NestBatch

variable {α β υ : Type}

/-- The kinds of operation that a permit is asked for. -/
def guardedKinds : List OpKind := [.createExecution, .updateJob, .createStep, .enqueue]

theorem Permit.allows_of_kind (permit : Permit α) {o : Op α} (h : o.kind ∉ guardedKinds)
    (calls : Calls α) : permit.Allows calls o := by
  cases o with
  | createExecutionAtomic => exact absurd (by simp [guardedKinds, Op.kind]) h
  | updateJobExecution => exact absurd (by simp [guardedKinds, Op.kind]) h
  | createStepExecution => exact absurd (by simp [guardedKinds, Op.kind]) h
  | enqueue => exact absurd (by simp [guardedKinds, Op.kind]) h
  | _ => trivial

/-- A permit lets a run of `e` do its work once something is known. -/
theorem Permit.letsRun {permit : Permit α} {e : String} {Known : Calls α → Prop}
    (hgrows : ∀ calls c, Known calls → Known (calls ++ [c]))
    (hsteps : ∀ calls, Known calls → permit.steps calls e)
    (hmarks : ∀ calls patch, Known calls → RunMark e calls patch → permit.marks calls e patch) :
    LetsRun permit.rules e Known where
  grows := hgrows
  side calls o ho := permit.allows_of_kind
    ((by decide : ∀ k ∈ sideKinds, k ∉ guardedKinds) _ ho) calls
  step calls _ hknown := hsteps calls hknown
  mark calls patch hknown hmark := hmarks calls patch hknown hmark

/-- Nothing has been written of `e`, and no run has just begun. -/
def Untouched (e : String) (calls : Calls α) : Prop :=
  jobWrites e calls = [] ∧ NotJustStarted calls

section Looking

variable {permit : Permit α} {e : String} {K : List OpKind} {loops : Prop} {calls : Calls α}

theorem untouched_nil : Untouched e ([] : Calls α) := ⟨rfl, notJustStarted_nil⟩

theorem Untouched.snoc (h : Untouched e calls) {o : Op α} (ho : o.kind ≠ .updateJob)
    (r : o.Resp) : Untouched e (calls ++ [⟨o, r⟩]) := by
  refine ⟨?_, notJustStarted_snoc (startedBy_of_kind ho r)⟩
  rw [jobWrites_snoc, jobWrite?_of_kind ho, h.1]
  rfl

/-- What asks for no permit leaves things as they are, and loses nothing that grows. -/
theorem permit_frame (hK : ∀ k ∈ K, k ∉ guardedKinds) {X : Calls α → Prop}
    (hX : ∀ calls c, X calls → X (calls ++ [c])) :
    (logged permit.rules True).Frame (On K loops)
      (fun calls => Untouched e calls ∧ X calls) where
  guard o calls ho _ := permit.allows_of_kind (hK _ ho) calls
  keep o calls r calls' ho h ht := by
    obtain ⟨hsnoc, -⟩ := ht
    subst hsnoc
    have hkind : o.kind ≠ .updateJob := by
      intro heq
      exact hK _ ho (heq ▸ by decide)
    exact ⟨h.1.snoc hkind r, hX calls _ h.2⟩
  loops _ := trivial

theorem quiet_frame (hK : ∀ k ∈ K, k ∉ guardedKinds) :
    (logged permit.rules True).Frame (On K loops) (NotJustStarted : Calls α → Prop) where
  guard o calls ho _ := permit.allows_of_kind (hK _ ho) calls
  keep o calls r calls' ho _ ht := by
    obtain ⟨hsnoc, -⟩ := ht
    subst hsnoc
    refine notJustStarted_snoc (startedBy_of_kind ?_ r)
    intro heq
    exact hK _ ho (heq ▸ by decide)
  loops _ := trivial

/-- The details of an execution: its row has been read. -/
theorem wp_details (h : Untouched e calls) :
    (JobExplorer.getJobExecutionDetails e : Code α JobExecutionDetails).wp
      (logged permit.rules True)
      (fun out calls' => Untouched e calls' ∧
        ∀ details, out = .ok details → HasRead e (· = details.jobExecution) calls') calls := by
  have hplain : ∀ k ∈ lookingKinds, k ∉ guardedKinds := by decide
  refine Prog.wp_bind.mpr (wp_call trivial fun answer hown => ?_)
  have hread : Untouched e (calls ++ [⟨.getJobExecution e, answer⟩]) :=
    h.snoc (by simp [Op.kind]) answer
  cases answer with
  | none => exact ⟨hread, fun _ hout => by cases hout⟩
  | some row =>
      have hrow : HasRead e (· = row) (calls ++ [⟨.getJobExecution e, some row⟩]) :=
        hasRead_snoc hown rfl
      have hframe : (logged permit.rules True).Frame (On lookingKinds)
          (fun calls => Untouched e calls ∧ HasRead e (· = row) calls) :=
        permit_frame hplain fun _ c hX => hX.snoc c
      have hgetInstance : OpKind.getInstance ∈ lookingKinds := by decide
      have hfind : OpKind.findSteps ∈ lookingKinds := by decide
      have hload : OpKind.loadContext ∈ lookingKinds := by decide
      refine Prog.wp_seq (Prog.wp_of_uses (uses_request hgetInstance) hframe ⟨hread, hrow⟩)
        (fun inst calls₁ h₁ => ?_) fun _ _ hend => ⟨hend.1, fun _ hout => by cases hout⟩
      cases inst with
      | none => exact ⟨h₁.1, fun _ hout => by cases hout⟩
      | some inst =>
          refine Prog.wp_seq (Prog.wp_of_uses (uses_request hfind) hframe h₁)
            (fun steps calls₂ h₂ => ?_) fun _ _ hend => ⟨hend.1, fun _ hout => by cases hout⟩
          refine Prog.wp_seq (Prog.wp_of_uses (uses_request hload) hframe h₂)
            (fun jobContext calls₃ h₃ => ?_) fun _ _ hend => ⟨hend.1, fun _ hout => by cases hout⟩
          refine Prog.wp_seq (Prog.wp_of_uses (JobExplorer.uses_stepContexts hload steps) hframe h₃)
            (fun contexts calls₄ h₄ => ?_) fun _ _ hend => ⟨hend.1, fun _ hout => by cases hout⟩
          refine ⟨h₄.1, ?_⟩
          intro details hout
          cases hout
          exact h₄.2

end Looking

namespace Deployment

variable (D : Deployment) {calls : Calls α}

/-! ### Calls of the operator -/

/-- The write of an operator, and the look at what it has written. -/
theorem wp_close {e : String} {status : JobStatus} {P : JobStatus → Prop}
    {patch : JobExecutionPatch} (hpatch : patch.status = some status) (hne : status ≠ .STARTED)
    (hread : HasRead e (P ·.status) calls) :
    (updateJobExecution e patch >>= fun _ => JobExplorer.getJobExecutionDetails e :
      Code α JobExecutionDetails).wp (logged (closePermit e status P).rules True)
      (fun _ calls' => NotJustStarted calls') calls := by
  have hquiet (answer : Except Thrown Unit) :
      NotJustStarted (calls ++ [⟨.updateJobExecution e patch, answer⟩]) := by
    refine notJustStarted_snoc ?_
    cases answer with
    | error err => rfl
    | ok u =>
        refine if_neg ?_
        rw [hpatch]
        exact fun heq => hne (Option.some.inj heq)
  refine Prog.wp_bind.mpr (Prog.wp_bind.mpr (wp_call ⟨rfl, hpatch, hread⟩ fun answer _ => ?_))
  refine (Prog.wp_ofExcept _).mpr ?_
  cases answer with
  | error err => exact hquiet _
  | ok u =>
      exact Prog.wp_of_uses (JobExplorer.uses_getJobExecutionDetails e) (quiet_frame (by decide))
        (hquiet _)

/-- Stopping keeps to the permit of closing with STOPPED. -/
theorem wp_stop (e : String) (h : Untouched e calls) :
    (JobOperator.stop e : Code α JobExecutionDetails).wp
      (logged (closePermit e .STOPPED (JobOperator.isActive · = true)).rules True)
      (fun _ calls' => NotJustStarted calls') calls := by
  refine Prog.wp_seq (wp_details h) (fun details calls₁ h₁ => ?_) fun _ _ hend => hend.1.2
  have hread := h₁.2 details rfl
  dsimp only
  split
  · exact h₁.1.2
  · split
    · exact h₁.1.2
    · next hactive =>
        refine Prog.wp_bind.mpr (wp_call trivial
          fun endTime _ => ?_)
        refine wp_close rfl (by decide) ?_
        obtain ⟨row, hrow, hid, heq⟩ := hread.snoc ⟨.now, endTime⟩
        refine ⟨row, hrow, hid, ?_⟩
        rw [heq]
        exact Bool.of_not_eq_false hactive

/-- Abandoning keeps to the permit of closing with ABANDONED. -/
theorem wp_abandon (e : String) (h : Untouched e calls) :
    (JobOperator.abandon e : Code α JobExecutionDetails).wp
      (logged (closePermit e .ABANDONED CanBeAbandoned).rules True)
      (fun _ calls' => NotJustStarted calls') calls := by
  refine Prog.wp_seq (wp_details h) (fun details calls₁ h₁ => ?_) fun _ _ hend => hend.1.2
  have hread := h₁.2 details rfl
  dsimp only
  split
  · exact h₁.1.2
  · next hnot =>
      split
      · exact h₁.1.2
      · next hended =>
          have hcan : CanBeAbandoned details.jobExecution.status := by
            obtain ⟨hactive, hcompleted⟩ := not_or.mp hended
            exact ⟨Bool.eq_false_iff.mpr hactive, hcompleted, hnot⟩
          have hgone (c : List (Prog.Call (Op α) Op.Resp)) (hpre : HasRead e
              (· = details.jobExecution) c) : HasRead e (CanBeAbandoned ·.status) c := by
            obtain ⟨row, hrow, hid, heq⟩ := hpre
            exact ⟨row, hrow, hid, heq ▸ hcan⟩
          unfold JobOperator.endTimeOr
          cases details.jobExecution.endTime with
          | some endTime => exact wp_close rfl (by decide) (hgone _ hread)
          | none =>
              refine Prog.wp_bind.mpr (wp_call trivial
                fun endTime _ => ?_)
              exact wp_close rfl (by decide) (hgone _ (hread.snoc _))

/-- Restarting keeps to the permit of running. -/
theorem wp_restart (e : String) (h : Untouched e calls) :
    (JobOperator.restart D.host e : Code α JobExecutionDetails).wp
      (logged (runPermit e (HasRead e (JobExecutor.isRestart · = true))).rules True)
      (fun _ calls' => NotJustStarted calls') calls := by
  have hlets : LetsRun (runPermit e (HasRead e (JobExecutor.isRestart · = true)) : Permit α).rules
      e (HasRead e (JobExecutor.isRestart · = true)) :=
    Permit.letsRun (fun _ c hread => hread.snoc c) (fun _ hknown => ⟨rfl, hknown⟩)
      fun _ _ hknown hmark => ⟨rfl, hmark, hknown⟩
  refine Prog.wp_seq (wp_details h) (fun details calls₁ h₁ => ?_) fun _ _ hend => hend.1.2
  obtain ⟨row, hrow, hid, heq⟩ := h₁.2 details rfl
  dsimp only
  split
  · exact h₁.1.2
  · next hstatus =>
      refine Prog.wp_bind.mpr ((Prog.wp_ofExcept _).mpr ?_)
      cases D.host.registry.get details.jobInstance.jobName with
      | error err => exact h₁.1.2
      | ok jobDef =>
          have hrestart : JobExecutor.isRestart details.jobExecution = true := by
            unfold JobExecutor.isRestart
            rw [Bool.or_eq_true, decide_eq_true_iff, decide_eq_true_iff]
            by_contra hnone
            obtain ⟨hfailed, hstopped⟩ := not_or.mp hnone
            exact hstatus ⟨hfailed, hstopped⟩
          rw [heq] at hid
          have hknown : HasRead e (JobExecutor.isRestart · = true) calls₁ :=
            ⟨row, hrow, heq ▸ hid, heq ▸ hrestart⟩
          subst hid
          refine Prog.wp_seq (hlets.wp_execute D.fuel jobDef {} hknown h₁.1.1 h₁.1.2)
            (fun execution calls₂ h₂ => ?_) fun _ _ hend => hend.2
          exact Prog.wp_of_uses (JobExplorer.uses_getJobExecutionDetails _)
            (quiet_frame (by decide)) h₂.2

/-! ### Deliveries -/

/-- A run that was let in, its result dropped. -/
theorem wp_driven {permit : Permit α} {execution : JobExecution} {Known : Calls α → Prop}
    (hlets : LetsRun permit.rules execution.id Known) (fuel : Nat) (jobDef : JobDefinition)
    (partition : PartitionArgs) (hknown : Known calls) (h : Untouched execution.id calls) :
    (JobExecutor.execute fuel execution jobDef partition >>= fun _ => .pure () : Code α Unit).wp
      (logged permit.rules True) (fun _ calls' => NotJustStarted calls') calls :=
  Prog.wp_seq (hlets.wp_execute fuel jobDef partition hknown h.1 h.2) (fun _ _ hend => hend.2)
    fun _ _ hend => hend.2


/-- **What a worker does with a message**: nothing, or it looks the execution up, and then rejects
the message or runs the execution as the job that the message names. -/
theorem consume_cases (transport : Transport) (registry : JobRegistry) (fuel : Nat)
    (payload : JobPayload) :
    (transport.consume registry fuel payload : Code α Unit) = .pure () ∨
    ∃ f : Option JobExecution → Code α Unit,
      transport.consume registry fuel payload = getJobExecution payload.executionId >>= f ∧
      ∀ answer, (∃ err, f answer = .throw err) ∨ ∃ row job partition, answer = some row ∧
        registry.get payload.jobId = .ok job ∧
        f answer = JobExecutor.execute fuel row job partition >>= fun _ => .pure () := by
  cases transport with
  | bullmq =>
      refine .inr ⟨_, Prog.bind_assoc _ _ _, fun answer => ?_⟩
      cases answer with
      | none => exact .inl ⟨_, rfl⟩
      | some row =>
          dsimp only
          cases hjob : registry.get payload.jobId with
          | error err => exact .inl ⟨err, rfl⟩
          | ok job => exact .inr ⟨row, job, {}, rfl, rfl, rfl⟩
  | kafka =>
      cases hprobe : KafkaRuntime.isProbe payload with
      | true =>
          refine .inl ?_
          change KafkaRuntime.processMessage registry fuel payload = _
          unfold KafkaRuntime.processMessage KafkaRuntime.route
          rw [hprobe]
          rfl
      | false =>
          refine .inr ⟨?f, ?_, fun answer => ?_⟩
          case refine_1 =>
            change KafkaRuntime.processMessage registry fuel payload = _
            unfold KafkaRuntime.processMessage KafkaRuntime.route
            rw [hprobe, if_neg (by decide)]
            exact Prog.bind_assoc _ _ _
          case refine_2 =>
            cases answer with
            | none => exact .inl ⟨_, rfl⟩
            | some row =>
                dsimp only
                cases hjob : registry.get payload.jobId with
                | error err => exact .inl ⟨err, rfl⟩
                | ok job =>
                    cases hrouted : KafkaRuntime.partitionArgs job payload with
                    | error err =>
                        refine .inl ⟨err, ?_⟩
                        change (Prog.ofExcept (KafkaRuntime.partitionArgs job payload) >>= _) >>= _
                          = _
                        rw [hrouted]
                        rfl
                    | ok partition =>
                        refine .inr ⟨row, job, partition, rfl, rfl, ?_⟩
                        change (Prog.ofExcept (KafkaRuntime.partitionArgs job payload) >>= _) >>= _
                          = _
                        rw [hrouted]
                        rfl

/-- Delivering keeps to the permit of running. -/
theorem wp_deliver (payload : JobPayload) (h : Untouched payload.executionId calls) :
    (D.transport.consume D.registry D.fuel payload : Code α Unit).wp
      (logged (runPermit payload.executionId
        (HasRead payload.executionId (D.Takes payload))).rules True)
      (fun _ calls' => NotJustStarted calls') calls := by
  have hlets : LetsRun (runPermit payload.executionId
      (HasRead payload.executionId (D.Takes payload)) : Permit α).rules
      payload.executionId (HasRead payload.executionId (D.Takes payload)) :=
    Permit.letsRun (fun _ c hread => hread.snoc c) (fun _ hknown => ⟨rfl, hknown⟩)
      fun _ _ hknown hmark => ⟨rfl, hmark, hknown⟩
  rcases consume_cases D.transport D.registry D.fuel payload with hnothing | ⟨f, hlook, hcases⟩
  · rw [hnothing]
    exact h.2
  · rw [hlook]
    refine Prog.wp_bind.mpr (wp_call trivial fun answer hown => ?_)
    have hread : Untouched payload.executionId
        (calls ++ [⟨.getJobExecution payload.executionId, answer⟩]) :=
      h.snoc (by simp [Op.kind]) answer
    refine Prog.afterwards_ok.mpr ?_
    rcases hcases answer with ⟨err, hthrow⟩ | ⟨row, job, partition, rfl, hjob, hrun⟩
    · rw [hthrow]
      exact hread.2
    · rw [hrun]
      by_cases hrefused : JobExecutor.isRestart row = true ∧ job.restartable = false
      · unfold JobExecutor.execute
        rw [if_pos hrefused]
        exact hread.2
      · have htakes : D.Takes payload row :=
          ⟨job, hjob, fun hrestart => Bool.of_not_eq_false fun hno => hrefused ⟨hrestart, hno⟩⟩
        have hid : row.id = payload.executionId := hown
        have hknown : HasRead payload.executionId (D.Takes payload)
            (calls ++ [⟨.getJobExecution payload.executionId, some row⟩]) :=
          hasRead_snoc hid htakes
        rw [← hid] at hlets hread hknown ⊢
        exact wp_driven hlets D.fuel job partition hknown hread

/-! ### Launches -/

/-- Nothing has been created, sent or written. -/
structure Blank (calls : Calls α) : Prop where
  launched : launchedIds calls = []
  sent : messagesSent calls = []
  untouched : ∀ e, Untouched e calls

theorem blank_nil : Blank ([] : Calls α) := ⟨rfl, rfl, fun _ => untouched_nil⟩

theorem Blank.snoc (h : Blank calls) {o : Op α} (ho : o.kind ∉ guardedKinds) (r : o.Resp) :
    Blank (calls ++ [⟨o, r⟩]) := by
  have hne {k : OpKind} (hk : k ∈ guardedKinds) : o.kind ≠ k := fun heq => ho (heq ▸ hk)
  refine ⟨?_, ?_, fun e => (h.untouched e).snoc (hne (by decide)) r⟩
  · rw [launchedIds_snoc, launchedBy_of_kind (hne (by decide)), h.launched]
    rfl
  · rw [messagesSent_snoc, messageSent_of_kind (hne (by decide)), h.sent]
    rfl

/-- The execution has been created, and nothing else has been done. -/
structure JustCreated (e : String) (calls : Calls α) : Prop where
  launched : launchedIds calls = [e]
  sent : messagesSent calls = []
  untouched : ∀ e, Untouched e calls

theorem JustCreated.snoc {e : String} (h : JustCreated e calls) {o : Op α}
    (ho : o.kind ∉ guardedKinds) (r : o.Resp) : JustCreated e (calls ++ [⟨o, r⟩]) := by
  have hne {k : OpKind} (hk : k ∈ guardedKinds) : o.kind ≠ k := fun heq => ho (heq ▸ hk)
  refine ⟨?_, ?_, fun e => (h.untouched e).snoc (hne (by decide)) r⟩
  · rw [launchedIds_snoc, launchedBy_of_kind (hne (by decide)), h.launched]
    rfl
  · rw [messagesSent_snoc, messageSent_of_kind (hne (by decide)), h.sent]
    rfl

section Launch

variable {jobId e : String} {jobDef : JobDefinition} {params : JobParameters}

/-- The logic of a launch. -/
abbrev launching (jobId : String) : Prog.Logic (Op α) Op.Resp (Calls α) :=
  logged (D.launchPermit jobId).rules True

/-- A launch that runs in process lets run what it launched. -/
theorem launch_letsRun (hstrategy : D.strategy ≠ .queued) (e : String) :
    LetsRun (D.launchPermit jobId : Permit α).rules e (fun calls => e ∈ launchedIds calls) :=
  Permit.letsRun (fun _ c hmem => mem_launchedIds_snoc hmem c)
    (fun _ hmem => ⟨hstrategy, hmem⟩) fun _ _ hmem hmark => ⟨hstrategy, hmem, hmark⟩

/-- Enqueuing payloads, one after the other. -/
theorem wp_enqueueAll (hstrategy : D.strategy = .queued) (hjob : D.registry.get jobId = .ok jobDef)
    {payloads : List JobPayload} (last : String) (hlaunched : e ∈ launchedIds calls)
    (hsent : messagesSent calls ++ payloads =
      D.transport.payloads jobDef { executionId := e, jobExecutionId := e })
    (hquiet : NotJustStarted calls) :
    (enqueueAll payloads last : Code α String).wp (D.launching jobId)
      (fun _ calls' => NotJustStarted calls') calls := by
  induction payloads generalizing calls last with
  | nil => exact hquiet
  | cons payload rest ih =>
      have hsends : (D.launchPermit jobId : Permit α).sends calls payload := by
        refine ⟨hstrategy, e, jobDef, hlaunched, hjob, rest, ?_⟩
        rw [List.append_assoc]
        exact hsent
      refine Prog.wp_bind.mpr (Prog.wp_bind.mpr (wp_call hsends fun answer _ => ?_))
      refine (Prog.wp_ofExcept _).mpr ?_
      cases answer with
      | error err => exact notJustStarted_snoc rfl
      | ok queueJobId =>
          refine ih queueJobId (mem_launchedIds_snoc hlaunched _) ?_ (notJustStarted_snoc rfl)
          rw [messagesSent_snoc, List.append_assoc]
          exact hsent

/-- A queued launch keeps to its permit. -/
theorem wp_launchQueued (hstrategy : D.strategy = .queued)
    (hjob : D.registry.get jobId = .ok jobDef) (h : JustCreated e calls) :
    (D.transport.launch jobDef params { executionId := e, jobExecutionId := e } :
      Code α LaunchResult).wp (D.launching jobId) (fun _ calls' => NotJustStarted calls')
      calls := by
  have hall (payloads : List JobPayload) (heq : payloads =
      D.transport.payloads jobDef { executionId := e, jobExecutionId := e }) :
      (do
        Prog.ofExcept (validatePartitions (startPartitions jobDef))
        let last ← enqueueAll payloads ""
        Prog.pure (.enqueued last) : Code α LaunchResult).wp (D.launching jobId)
        (fun _ calls' => NotJustStarted calls') calls := by
    refine Prog.wp_bind.mpr ((Prog.wp_ofExcept _).mpr ?_)
    cases validatePartitions (startPartitions jobDef) with
    | error err => exact (h.untouched e).2
    | ok u =>
        have hmem : e ∈ launchedIds calls := h.launched ▸ List.mem_singleton_self e
        have hsent : messagesSent calls ++ payloads =
            D.transport.payloads jobDef { executionId := e, jobExecutionId := e } := by
          rw [h.sent, heq]
          rfl
        exact Prog.wp_seq (D.wp_enqueueAll hstrategy hjob "" hmem hsent (h.untouched e).2)
          (fun _ _ hend => hend) fun _ _ hend => hend
  cases htransport : D.transport with
  | bullmq =>
      rw [htransport] at hall
      exact hall (BullmqRuntime.payloads jobDef { executionId := e, jobExecutionId := e }) rfl
  | kafka =>
      rw [htransport] at hall
      exact hall (KafkaRuntime.payloads jobDef { executionId := e, jobExecutionId := e }) rfl

/-- A launch in process keeps to its permit. -/
theorem wp_launchInProcess (hstrategy : D.strategy ≠ .queued)
    (mode : InProcessPartitionViolationMode) (h : JustCreated e calls) :
    (InProcessExecutionStrategy.launch mode D.fuel jobDef params
      { executionId := e, jobExecutionId := e } : Code α LaunchResult).wp (D.launching jobId)
      (fun _ calls' => NotJustStarted calls') calls := by
  refine Prog.wp_bind.mpr ((Prog.wp_ofExcept _).mpr ?_)
  cases InProcessExecutionStrategy.assertPartitionsSupported mode jobDef.steps.entries with
  | error err => exact (h.untouched e).2
  | ok u =>
      refine Prog.wp_bind.mpr (wp_call trivial fun answer hown => ?_)
      have hread : JustCreated e (calls ++ [⟨.getJobExecution e, answer⟩]) :=
        h.snoc (by simp [guardedKinds, Op.kind]) answer
      cases answer with
      | none => exact (hread.untouched e).2
      | some row =>
          have hid : row.id = e := hown
          subst hid
          have hmem := hread.launched ▸ List.mem_singleton_self row.id
          exact Prog.wp_seq ((D.launch_letsRun hstrategy row.id).wp_execute D.fuel jobDef {} hmem
            (hread.untouched row.id).1 (hread.untouched row.id).2) (fun _ _ hend => hend.2)
            fun _ _ hend => hend.2

/-- A launch that has created its execution hands it on. -/
theorem wp_handOver {execution : JobExecution} (hjob : D.registry.get jobId = .ok jobDef)
    (h : JustCreated execution.id calls) :
    (JobLauncher.handOver D.host jobDef params execution : Code α JobExecution).wp
      (D.launching jobId) (fun _ calls' => NotJustStarted calls') calls := by
  have hlook : ((getJobExecution execution.id >>= fun latest =>
      .pure (latest.getD execution)) : Code α JobExecution).Uses (On [.getJob]) :=
    (uses_request (List.mem_singleton_self OpKind.getJob)).bind fun _ => trivial
  have hthen (p : Code α LaunchResult) (hp : p.wp (D.launching jobId)
      (fun _ calls' => NotJustStarted calls') calls) :
      (p >>= fun _ => getJobExecution execution.id >>= fun latest =>
        .pure (latest.getD execution) : Code α JobExecution).wp (D.launching jobId)
        (fun _ calls' => NotJustStarted calls') calls :=
    Prog.wp_seq hp (fun _ _ hend => Prog.wp_of_uses hlook (quiet_frame (by decide)) hend)
      fun _ _ hend => hend
  unfold JobLauncher.handOver host executionStrategy
  cases hstrategy : D.strategy with
  | direct =>
      have hruns : D.strategy ≠ .queued := by
        rw [hstrategy]
        decide
      have hmem := h.launched ▸ List.mem_singleton_self execution.id
      exact Prog.wp_mono ((D.launch_letsRun hruns execution.id).wp_execute D.fuel jobDef {} hmem
        (h.untouched execution.id).1 (h.untouched execution.id).2) fun _ _ hend => hend.2
  | inProcess mode =>
      have hruns : D.strategy ≠ .queued := by
        rw [hstrategy]
        exact fun heq => by cases heq
      exact hthen _ (D.wp_launchInProcess hruns mode h)
  | queued => exact hthen _ (D.wp_launchQueued hstrategy hjob h)

/-- **A launch** keeps to its permit. -/
theorem wp_launch (identifyingParams : Option JobParameters) (h : Blank calls) :
    (JobLauncher.launch D.host jobId params identifyingParams : Code α JobExecution).wp
      (D.launching jobId) (fun _ calls' => NotJustStarted calls') calls := by
  refine Prog.wp_bind.mpr ((Prog.wp_ofExcept _).mpr ?_)
  cases hjob : D.host.registry.get jobId with
  | error err => exact (h.untouched "").2
  | ok jobDef =>
      have hkey : (JobLauncher.jobKey D.host jobDef (identifyingParams.getD params) :
          Code α String).wp (D.launching jobId)
          (fun out calls' => (∃ key, out = .ok key) ∧ Blank calls') calls := by
        unfold JobLauncher.jobKey
        split
        · refine Prog.wp_bind.mpr (wp_call trivial fun nonce _ => ?_)
          exact ⟨⟨_, rfl⟩, h.snoc (by simp [guardedKinds, Op.kind]) nonce⟩
        · exact ⟨⟨_, rfl⟩, h⟩
      refine Prog.wp_seq hkey (fun key calls₁ h₁ => ?_) fun _ _ hend => (hend.2.untouched "").2
      refine Prog.wp_bind.mpr (Prog.wp_bind.mpr (wp_call h₁.2.launched fun answer _ => ?_))
      refine (Prog.wp_ofExcept _).mpr ?_
      cases answer with
      | error err => exact notJustStarted_snoc rfl
      | ok execution =>
          refine D.wp_handOver hjob ⟨?_, ?_, fun e => ?_⟩
          · rw [launchedIds_snoc, h₁.2.launched]
            rfl
          · rw [messagesSent_snoc, h₁.2.sent]
            rfl
          · exact (h₁.2.untouched e).snoc (by simp [Op.kind]) _

end Launch

/-! ### The service -/

/-- Any program, its result dropped. -/
theorem wp_dropped {permit : Permit α} {p : Code α β}
    (hp : p.wp (logged permit.rules True) (fun _ calls' => NotJustStarted calls') calls) :
    (p >>= fun _ => .pure () : Code α Unit).wp (logged permit.rules True)
      (fun _ calls' => NotJustStarted calls') calls :=
  Prog.wp_seq hp (fun _ _ hend => hend) fun _ _ hend => hend

/-- Every request keeps to its own permit. -/
theorem wp_code (request : Request) : (D.code request : Code α Unit).wp (D.siteLogic request)
    (fun _ calls => NotJustStarted calls) [] := by
  cases request with
  | launch jobId params identifyingParams => exact wp_dropped (D.wp_launch _ blank_nil)
  | startNext jobId params =>
      refine wp_dropped (Prog.wp_bind.mpr (wp_call trivial fun runId _ => ?_))
      exact D.wp_launch none (blank_nil.snoc (by simp [guardedKinds, Op.kind]) runId)
  | restart e => exact wp_dropped (D.wp_restart e untouched_nil)
  | stop e => exact wp_dropped (wp_stop e untouched_nil)
  | abandon e => exact wp_dropped (wp_abandon e untouched_nil)
  | deliver payload kept => exact D.wp_deliver payload untouched_nil

/-- What comes to a site changes the queue at most, and there only takes the message away. -/
theorem arrive_eq_some {request : Request} {w w' : World υ} (h : arrive request w = some w') :
    (∀ payload ∈ w'.queue, payload ∈ w.queue) ∧ w'.repo = w.repo := by
  cases request with
  | deliver payload kept =>
      simp only [arrive] at h
      split at h
      · cases h
        cases kept with
        | true => exact ⟨fun _ hmem => hmem, rfl⟩
        | false => exact ⟨fun _ hmem => List.mem_of_mem_erase hmem, rfl⟩
      · cases h
  | _ =>
      cases h
      exact ⟨fun _ hmem => hmem, rfl⟩

/-- Where executions are filed, a look-up answers the row it asks for. -/
theorem answersOwnRow (env : Environment α υ) {w : World υ} (h : w.repo.ExecutionsFiled)
    (o : Op α) : AnswersOwnRow o (handle env o w).1 := by
  cases o with
  | getJobExecution e =>
      change AnswersOwnRow (Op.getJobExecution e : Op α) (w.repo.getJobExecution e)
      cases hrow : w.repo.getJobExecution e with
      | none => trivial
      | some row => exact h e row hrow
  | _ => trivial

variable (env : Environment α υ)

/-- **Every session keeps to its permit**, as long as executions are filed under their own ids. -/
theorem serves : (D.service env).Serves D.siteLogic (fun _ _ calls => NotJustStarted calls)
    (fun w => w.repo.ExecutionsFiled) where
  code := D.wp_code
  arrive request w w' h harrive := by
    obtain ⟨-, hrepo⟩ := arrive_eq_some harrive
    rw [hrepo]
    exact h
  answer request o w calls h _ := ⟨rfl, answersOwnRow env h o⟩
  keep request o w calls h _ := executionsFiled_run env (NestBatch.request o) h

/-- What is left of every session keeps to its permit. -/
abbrev Orderly (site : SiteState α υ) : Prop :=
  Prog.Service.Specified D.siteLogic (fun _ _ calls => NotJustStarted calls)
    (fun w => w.repo.ExecutionsFiled) site

/-- Every happening keeps the site orderly. -/
theorem orderly_step {site site' : SiteState α υ} {happening : Prog.Happening Request}
    (h : D.Orderly site) (hstep : (D.service env).machine.step site happening = some site') :
    D.Orderly site' := (D.serves env).step_keeps h hstep

end Deployment

end NestBatch
