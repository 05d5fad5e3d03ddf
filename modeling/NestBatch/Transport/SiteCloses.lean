import NestBatch.Transport.RunCloses
import NestBatch.Transport.SiteRecords

/-!
# Nothing is left STARTED

Whatever comes to a site, and in whatever order the operations of its sessions are
performed: an execution that is STARTED has been marked so by a session that is
still under way, or by one whose run a `before:job` listener has thrown out or whose
`catch` block has thrown.
-/

namespace NestBatch

variable {α υ : Type}

namespace Deployment

variable (D : Deployment) {calls : Calls α}

/-! ### What comes in closes what it opens -/

/-- Dropping the result keeps that the code ends closed. -/
theorem closes_dropped {β : Type} {p : Code α β} (hp : p.wp filedLogic EndsClosed calls) :
    (p >>= fun _ => .pure () : Code α Unit).wp filedLogic EndsClosed calls :=
  wp_ends_bind hp fun _ _ h => h.ends _

/-- Reading the details is unmarking. -/
theorem unmarking_details (e : String) :
    (JobExplorer.getJobExecutionDetails e : Code α JobExecutionDetails).Uses unmarking :=
  unmarking_of_kinds (JobExplorer.uses_getJobExecutionDetails e) (by decide)

theorem unmarking_now : (now : Code α Time).Uses unmarking :=
  unmarking_request (by simp [Op.kind])

theorem unmarking_look (e : String) :
    (getJobExecution e : Code α (Option JobExecution)).Uses unmarking :=
  unmarking_request (by simp [Op.kind])

theorem unmarking_uuid : (randomUUID : Code α String).Uses unmarking :=
  unmarking_request (by simp [Op.kind])

theorem unmarking_create (jobId key : String) (params : JobParameters) :
    (createExecutionAtomic jobId key params : Code α JobExecution).Uses unmarking :=
  (unmarking_request (by simp [Op.kind])).bind fun _ => Prog.uses_ofExcept _

/-- Enqueueing is unmarking. -/
theorem unmarking_enqueueAll (payloads : List JobPayload) (last : String) :
    (enqueueAll payloads last : Code α String).Uses unmarking := by
  induction payloads generalizing last with
  | nil => trivial
  | cons payload rest ih =>
      have hsend : (enqueue payload : Code α String).Uses unmarking :=
        (unmarking_request (by simp [Op.kind])).bind fun _ => Prog.uses_ofExcept _
      exact hsend.bind fun queueJobId => ih queueJobId

/-- Stopping is unmarking. -/
theorem unmarking_stop (e : String) :
    (JobOperator.stop e : Code α JobExecutionDetails).Uses unmarking := by
  refine (unmarking_details e).bind fun details => .ite (fun _ => trivial) fun _ =>
    .ite (fun _ => trivial) fun _ => unmarking_now.bind fun endTime => ?_
  have hmark : (some .STOPPED : Option JobStatus) ≠ some .STARTED := by decide
  exact (unmarking_update hmark).bind fun _ => unmarking_details e

/-- Abandoning is unmarking. -/
theorem unmarking_abandon (e : String) :
    (JobOperator.abandon e : Code α JobExecutionDetails).Uses unmarking := by
  have hend (endTime : Option Time) :
      (JobOperator.endTimeOr endTime : Code α Time).Uses unmarking := by
    cases endTime with
    | none => exact unmarking_now
    | some endTime => trivial
  refine (unmarking_details e).bind fun details => .ite (fun _ => trivial) fun _ =>
    .ite (fun _ => trivial) fun _ => (hend _).bind fun endTime => ?_
  have hmark : (some .ABANDONED : Option JobStatus) ≠ some .STARTED := by decide
  exact (unmarking_update hmark).bind fun _ => unmarking_details e

/-- A restart ends closed. -/
theorem restart_closes (e : String) (h : AllClosed calls) :
    (JobOperator.restart D.host e : Code α JobExecutionDetails).wp filedLogic EndsClosed calls := by
  refine wp_ends_bind (wp_unmarking (unmarking_details e) h) fun details calls₁ h₁ => ?_
  dsimp only
  split
  · exact h₁.ends _
  · refine Prog.wp_bind.mpr ((Prog.wp_ofExcept _).mpr ?_)
    cases D.host.registry.get details.jobInstance.jobName with
    | error err => exact h₁.ends _
    | ok jobDef =>
        exact wp_ends_bind (JobExecutor.execute_closes h₁ _ _ jobDef {}) fun execution _ h₂ =>
          wp_unmarking (unmarking_details execution.id) h₂

/-- Every execution strategy ends closed. -/
theorem strategy_closes {strategy : ExecutionStrategy α}
    (hstrategy : D.executionStrategy = some strategy) (jobDef : JobDefinition)
    (params : JobParameters) (ctx : ExecutionStrategyContext) (h : AllClosed calls) :
    (strategy jobDef params ctx).wp filedLogic EndsClosed calls := by
  have hqueued (payloads : List JobPayload) : (do
      Prog.ofExcept (validatePartitions (startPartitions jobDef))
      let last ← enqueueAll payloads ""
      Prog.pure (.enqueued last) : Code α LaunchResult).wp filedLogic EndsClosed calls := by
    refine Prog.wp_bind.mpr ((Prog.wp_ofExcept _).mpr ?_)
    cases validatePartitions (startPartitions jobDef) with
    | error err => exact h.ends _
    | ok u =>
        exact wp_ends_bind (wp_unmarking (unmarking_enqueueAll payloads "") h)
          fun _ _ h₁ => h₁.ends _
  unfold executionStrategy at hstrategy
  cases hsite : D.strategy with
  | direct =>
      rw [hsite] at hstrategy
      cases hstrategy
  | inProcess mode =>
      rw [hsite] at hstrategy
      cases hstrategy
      refine Prog.wp_bind.mpr ((Prog.wp_ofExcept _).mpr ?_)
      cases InProcessExecutionStrategy.assertPartitionsSupported mode jobDef.steps.entries with
      | error err => exact h.ends _
      | ok u =>
          refine wp_ends_bind (wp_unmarking (unmarking_look _) h) fun row calls₁ h₁ => ?_
          cases row with
          | none => exact h₁.ends _
          | some row =>
              exact wp_ends_bind (JobExecutor.execute_closes h₁ D.fuel row jobDef {})
                fun _ _ h₂ => h₂.ends _
  | queued =>
      rw [hsite] at hstrategy
      cases hstrategy
      cases D.transport with
      | bullmq => exact hqueued (BullmqRuntime.payloads jobDef ctx)
      | kafka => exact hqueued (KafkaRuntime.payloads jobDef ctx)

/-- A launch ends closed. -/
theorem launch_closes (jobId : String) (params : JobParameters)
    (identifyingParams : Option JobParameters) (h : AllClosed calls) :
    (JobLauncher.launch D.host jobId params identifyingParams : Code α JobExecution).wp filedLogic
      EndsClosed calls := by
  refine Prog.wp_bind.mpr ((Prog.wp_ofExcept _).mpr ?_)
  cases D.host.registry.get jobId with
  | error err => exact h.ends _
  | ok jobDef =>
      have hkey : (JobLauncher.jobKey D.host jobDef (identifyingParams.getD params) :
          Code α String).Uses unmarking :=
        .ite (fun _ => unmarking_uuid.bind fun _ => trivial) fun _ => trivial
      refine wp_ends_bind (wp_unmarking hkey h) fun key calls₁ h₁ => ?_
      refine wp_ends_bind (wp_unmarking (unmarking_create jobId key params) h₁)
        fun execution calls₂ h₂ => ?_
      unfold JobLauncher.handOver
      cases hstrategy : D.host.strategy with
      | none => exact JobExecutor.execute_closes h₂ _ _ jobDef {}
      | some strategy =>
          refine wp_ends_bind (D.strategy_closes hstrategy jobDef params _ h₂)
            fun _ calls₃ h₃ => ?_
          exact wp_unmarking ((unmarking_look _).bind fun _ => trivial) h₃

/-- A delivery ends closed. -/
theorem deliver_closes (payload : JobPayload) (h : AllClosed calls) :
    (D.transport.consume D.registry D.fuel payload : Code α Unit).wp filedLogic EndsClosed
      calls := by
  rcases consume_cases D.transport D.registry D.fuel payload with hnothing | ⟨f, hlook, hcases⟩
  · rw [hnothing]
    exact h.ends _
  · rw [hlook]
    refine wp_ends_bind (wp_unmarking (unmarking_look _) h) fun answer calls₁ h₁ => ?_
    rcases hcases answer with ⟨err, hthrow⟩ | ⟨row, job, partition, rfl, -, hrun⟩
    · rw [hthrow]
      exact h₁.ends _
    · rw [hrun]
      exact closes_dropped (JobExecutor.execute_closes h₁ D.fuel row job partition)

/-- Whatever comes in closes what it opens. -/
theorem code_closes (request : Request) :
    (D.code request : Code α Unit).wp filedLogic EndsClosed [] := by
  cases request with
  | launch jobId params identifyingParams =>
      exact closes_dropped (D.launch_closes _ _ _ closed_nil)
  | startNext jobId params =>
      exact closes_dropped (wp_ends_bind (wp_unmarking unmarking_uuid closed_nil) fun _ _ h =>
        D.launch_closes _ _ _ h)
  | restart e => exact closes_dropped (D.restart_closes e closed_nil)
  | stop e => exact closes_dropped (wp_unmarking (unmarking_stop e) closed_nil)
  | abandon e => exact closes_dropped (wp_unmarking (unmarking_abandon e) closed_nil)
  | deliver payload kept => exact D.deliver_closes payload closed_nil

/-! ### The site -/

/-- A session writes the status only of executions that it knows of. -/
theorem knownTo_of_marks {request : Request} {e : String} {patch : JobExecutionPatch}
    (h : (D.permit request).marks calls e patch) : KnownTo calls e := by
  have hread {P : JobExecution → Prop} {e' : String} (he : e = e') (h : HasRead e' P calls) :
      KnownTo calls e := by
    obtain ⟨row, hrow, hid, -⟩ := h
    exact .inr ⟨row, hrow, hid.trans he.symm⟩
  cases request with
  | launch => exact .inl h.2.1
  | startNext => exact .inl h.2.1
  | restart => exact hread h.1 h.2.2
  | deliver => exact hread h.1 h.2.2
  | stop => exact hread h.1 h.2.2
  | abandon => exact hread h.1 h.2.2

variable (env : Environment α υ)

/-- What is left of every session ends well, and whatever is STARTED and was not so from the start
`initial` is owed by a session. -/
structure Answered (initial : World υ) (site : SiteState α υ) : Prop where
  onRecord : D.OnRecord site
  ends : ∀ (n : Nat) (session : SiteSession α), site.sessions[n]? = some session →
    session.rest.wp filedLogic EndsClosed session.calls
  owed : ∀ e, ¬ Recorded e .STARTED initial → Recorded e .STARTED site.shared →
    ∃ (n : Nat) (session : SiteSession α), site.sessions[n]? = some session ∧
      Owes e session.calls

variable {D env} {site site' : SiteState α υ} {initial : World υ}
  {happening : Prog.Happening Request}

/-- Where a STARTED row comes from. -/
theorem started_before {w : World υ} (h : w.repo.ExecutionsFiled) {o : Op α} {e : String}
    (hafter : Recorded e .STARTED (handle env o w).2) :
    (Recorded e .STARTED w ∧ (statusWritten e ⟨o, (handle env o w).1⟩).getD .STARTED = .STARTED) ∨
      statusWritten e ⟨o, (handle env o w).1⟩ = some .STARTED := by
  by_cases hcreate : o.kind = .createExecution
  · cases o with
    | createExecutionAtomic name jobKey params =>
        refine .inl ⟨?_, rfl⟩
        rcases w.repo.createExecutionAtomic_cases w.clock name jobKey params with
          ⟨-, -, hsame⟩ | ⟨row, -, hstatus, hset, -⟩
        · exact hafter.congr hsame.symm
        · obtain ⟨found, hfound, hid, hstarted⟩ := hafter
          have hget : (w.repo.executions.set row.id row).get? e = some found := by
            rw [← hset]
            exact hfound
          rw [JsMap.get?_set] at hget
          split at hget
          · cases hget
            rw [hstatus] at hstarted
            cases hstarted
          · exact ⟨found, hget, hid, hstarted⟩
    | user call => cases call <;> cases hcreate
    | _ => cases hcreate
  · have hfiled : OnFile e w := by
      obtain ⟨found, hfound, hid, -⟩ := hafter
      by_cases hupdate : o.kind = .updateJob
      · cases o with
        | updateJobExecution id patch =>
            change (w.repo.updateJobExecution id patch).2.executions.get? e = some found at hfound
            unfold InMemoryJobRepository.updateJobExecution at hfound
            cases hcur : w.repo.executions.get? id with
            | none =>
                rw [hcur] at hfound
                exact ⟨found, hfound, hid⟩
            | some cur =>
                rw [hcur] at hfound
                by_cases he : e = id
                · subst he
                  exact ⟨cur, hcur, h e cur hcur⟩
                · exact ⟨found, (JsMap.get?_set_of_ne _ _ he).symm.trans hfound, hid⟩
        | user call => cases call <;> cases hupdate
        | _ => cases hupdate
      · refine ⟨found, ?_, hid⟩
        have hsame := handle_executions env hcreate hupdate w
        exact (congrArg (fun rows => rows.get? e) hsame).symm.trans hfound
    obtain ⟨status, hrecorded⟩ := hfiled.recorded
    have hwritten : Recorded e ((statusWritten e ⟨o, (handle env o w).1⟩).getD status)
        (handle env o w).2 := recorded_handle hcreate hrecorded
    have hstatus := hwritten.unique hafter
    cases hcall : statusWritten e ⟨o, (handle env o w).1⟩ with
    | none =>
        rw [hcall] at hstatus
        exact .inl ⟨hstatus ▸ hrecorded, rfl⟩
    | some written =>
        rw [hcall] at hstatus
        exact .inr (congrArg some hstatus)

/-- Status writes of executions on file succeed. -/
theorem answersOnFile {w : World υ} {o : Op α}
    (h : ∀ e patch, o = .updateJobExecution e patch → w.Files e) :
    AnswersOnFile o (handle env o w).1 := by
  cases o with
  | updateJobExecution e patch =>
      obtain ⟨row, hrow⟩ := Option.isSome_iff_exists.mp (h e patch rfl)
      change AnswersOnFile (.updateJobExecution e patch : Op α)
        (w.repo.updateJobExecution e patch).1
      unfold InMemoryJobRepository.updateJobExecution
      rw [hrow]
      trivial
  | _ => trivial

theorem answered_started (h : initial.repo.Consistent) :
    D.Answered initial (Prog.Service.started initial : SiteState α υ) where
  onRecord := D.onRecord_started h
  ends _ _ hsession := by cases hsession
  owed _ hnew hstarted := absurd hstarted hnew

/-- Every arrival keeps the site answered. -/
theorem Answered.come (h : D.Answered initial site) {request : Request} {w : World υ}
    (harrive : arrive request site.shared = some w)
    (honRecord : D.OnRecord ({ shared := w
                               sessions := site.sessions ++ [(D.service env).opened request] } :
      SiteState α υ)) :
    D.Answered initial ({ shared := w
                          sessions := site.sessions ++ [(D.service env).opened request] } :
      SiteState α υ) := by
  refine ⟨honRecord, fun n session hsession => ?_, fun e hnew hstarted => ?_⟩
  · rcases Prog.Service.come_cases hsession with hold | ⟨-, rfl⟩
    · exact h.ends n session hold
    · exact D.code_closes request
  · have hrepo := (arrive_eq_some harrive).2
    have hbefore : Recorded e .STARTED site.shared :=
      hstarted.congr (congrArg InMemoryJobRepository.executions hrepo.symm)
    obtain ⟨n, session, hsession, howes⟩ := h.owed e hnew hbefore
    obtain ⟨hlt, -⟩ := List.getElem?_eq_some_iff.mp hsession
    exact ⟨n, session, (List.getElem?_append_left hlt).trans hsession, howes⟩

/-- An operation leaves what is STARTED owed. -/
theorem Answered.act (h : D.Answered initial site) {n : Nat} {session : SiteSession α} {o : Op α}
    {k : o.Resp → Code α Unit} (hsession : site.sessions[n]? = some session)
    (hop : session.rest = .op o k)
    (honRecord : D.OnRecord ((D.service env).after site n session o k)) :
    D.Answered initial ((D.service env).after site n session o k) := by
  refine ⟨honRecord, fun m t ht => ?_, fun e hnew hstarted => ?_⟩
  · rcases Prog.Service.after_cases hsession ht with ⟨-, rfl⟩ | ⟨-, hold⟩
    · have hguard := h.onRecord.orderly.guard hsession hop
      have hends := h.ends n session hsession
      rw [hop] at hends
      refine hends.2 _ _ ⟨rfl, answersOnFile fun e patch heq => ?_⟩
      subst heq
      exact h.onRecord.known n session e hsession (D.knownTo_of_marks hguard)
    · exact h.ends m t hold
  · rcases started_before h.onRecord.orderly.1 hstarted with ⟨hbefore, hkeeps⟩ | hmarked
    · obtain ⟨m, t, ht, howes⟩ := h.owed e hnew hbefore
      by_cases hm : m = n
      · subst hm
        cases hsession.symm.trans ht
        refine ⟨m, _, Prog.Service.after_self hsession, ?_⟩
        cases hcall : statusWritten e ⟨o, (handle env o site.shared).1⟩ with
        | none => exact (owes_snoc_none hcall).mpr howes
        | some status =>
            rw [hcall] at hkeeps
            exact (owes_snoc_some hcall).mpr hkeeps
      · exact ⟨m, t, (Prog.Service.after_other hm).trans ht, howes⟩
    · exact ⟨n, _, Prog.Service.after_self hsession, (owes_snoc_some hmarked).mpr rfl⟩

/-- Every happening keeps the site answered. -/
theorem Answered.step (h : D.Answered initial site)
    (hstep : (D.service env).machine.step site happening = some site') :
    D.Answered initial site' := by
  have honRecord := (h.onRecord.step hstep).1
  cases happening with
  | come request =>
      obtain ⟨w, harrive, rfl⟩ := Prog.Service.step_come hstep
      exact h.come harrive honRecord
  | act n =>
      obtain ⟨session, o, k, hsession, hop, rfl⟩ := Prog.Service.step_act hstep
      exact h.act hsession hop honRecord

variable (D env)

/-- **Nothing is left STARTED** in any interleaving of launches, calls of the operator and
deliveries: of an execution that has come to be STARTED, some session has marked it so last, and
that session has not ended, or a `before:job` listener of the execution has thrown it out, or it
has caught a value without a string form and ended in the error of turning it into one. -/
theorem started_is_answered_for (h : initial.repo.Consistent)
    {happenings : List (Prog.Happening Request)}
    (hrun : (D.service env).machine.run (Prog.Service.started initial) happenings = some site)
    {e : String} (hnew : ¬ Recorded e .STARTED initial)
    (hstarted : Recorded e .STARTED site.shared) :
    ∃ (n : Nat) (session : SiteSession α), site.sessions[n]? = some session ∧
      Owes e session.calls ∧ (session.ended = false ∨ ThrownOut e session.calls ∨
        ∃ textErr, session.rest = .throw textErr ∧ TextThrew textErr session.calls) := by
  have hsite : D.Answered initial site := Machine.run_keeps
    (fun _ _ _ hsite hstep => hsite.step hstep) (answered_started h) hrun
  obtain ⟨n, session, hsession, howes⟩ := hsite.owed e hnew hstarted
  refine ⟨n, session, hsession, howes, ?_⟩
  have hends := hsite.ends n session hsession
  unfold Prog.Session.ended
  cases hrest : session.rest with
  | pure u =>
      rw [hrest] at hends
      exact absurd howes (hends.closed e)
  | throw err =>
      rw [hrest] at hends
      obtain ⟨err', hout, hexit⟩ := hends e howes
      cases hout
      exact .inr (hexit.imp_right fun hthrew => ⟨err, rfl, hthrew⟩)
  | spin => exact .inl rfl
  | op o k => exact .inl rfl

/-- A worker that has begun a run. -/
theorem started_is_answered_for_import :
    ∃ site, ((importSite .queued).service (willing [10, 20, 30])).machine.run
        (Prog.Service.started freshWorld) launchAndDelivery = some site ∧
      Recorded "r" .STARTED site.shared ∧
      ∃ (n : Nat) (session : SiteSession Nat), site.sessions[n]? = some session ∧
        Owes "r" session.calls ∧ (session.ended = false ∨ ThrownOut "r" session.calls ∨
          ∃ textErr, session.rest = .throw textErr ∧ TextThrew textErr session.calls) := by
  have hboth : ((((importSite .queued).service (willing [10, 20, 30])).machine.run
      (Prog.Service.started freshWorld) launchAndDelivery).any
        fun site => decide (Recorded "r" .STARTED site.shared)) = true := by decide +kernel
  obtain ⟨site, hrun, hdecided⟩ := (Option.any_eq_true _ _).mp hboth
  have hnew : ¬ Recorded "r" .STARTED freshWorld := by decide +kernel
  have hstarted : Recorded "r" .STARTED site.shared := of_decide_eq_true hdecided
  exact ⟨site, hrun, hstarted, started_is_answered_for (importSite .queued) (willing [10, 20, 30])
    (InMemoryJobRepository.consistent_new _) hrun hnew hstarted⟩

end Deployment

end NestBatch
