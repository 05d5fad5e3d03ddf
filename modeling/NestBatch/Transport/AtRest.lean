import NestBatch.Transport.SiteRecords

/-!
# Executions that nobody holds

An execution is at rest when no message for it will be taken up, what is left of
every session leaves it alone, and a session that has not looked yet will be turned
away.  It stays so: whatever else comes to the site, its row is not written again
and it gets no further step, until the operator asks for something that its status
allows.
-/

namespace NestBatch

variable {α υ : Type}

namespace Deployment

variable (D : Deployment)

/-- A request that starts anew does not get at the execution, given its row. -/
def TurnedAway (e : String) (row : JobExecution) : Request → Prop
  | .restart e' => e' = e → JobExecutor.isRestart row = false
  | .stop e' => e' = e → JobOperator.isActive row.status = false
  | .abandon e' => e' = e → ¬ CanBeAbandoned row.status
  | .deliver payload _ => payload.executionId = e → ¬ D.Takes payload row
  | _ => True

/-- Operations that leave the execution alone. -/
def leaving (e : String) (row : JobExecution) : Prog.Footprint (Op α) where
  ops o := (∀ patch, o ≠ .updateJobExecution e patch) ∧ (∀ name, o ≠ .createStepExecution e name) ∧
    ∀ payload, o = .enqueue payload → payload.executionId = e → ¬ D.Takes payload row
  loops := True

/-- A session that has seen nothing of the execution but this row, and is turned away. -/
structure Outsider (e : String) (row : JobExecution) (session : SiteSession α) : Prop where
  turned : D.TurnedAway e row session.request
  notLaunched : e ∉ launchedIds session.calls
  read : ∀ found ∈ rowsRead session.calls, found.id = e → found = row

/-- Nobody holds the execution. -/
structure AtRest (e : String) (row : JobExecution) (site : SiteState α υ) : Prop where
  onFile : site.shared.repo.executions.get? e = some row
  messages : ∀ payload ∈ site.shared.queue, payload.executionId = e → ¬ D.Takes payload row
  sessions : ∀ (n : Nat) (session : SiteSession α), site.sessions[n]? = some session →
    session.rest.Uses (D.leaving e row) ∨ D.Outsider e row session

variable {D} {e : String} {row : JobExecution} {env : Environment α υ}

/-- A session that has not acted yet is an outsider if it is turned away. -/
theorem outsider_of_turned {request : Request} {rest : Code α Unit}
    (h : D.TurnedAway e row request) : D.Outsider e row ⟨request, [], rest⟩ where
  turned := h
  notLaunched hmem := by cases hmem
  read _ hmem := by cases hmem

/-- What an outsider has read is the row at rest. -/
theorem Outsider.of_hasRead {session : SiteSession α} (h : D.Outsider e row session)
    {P : JobExecution → Prop} (hread : HasRead e P session.calls) : P row := by
  obtain ⟨found, hfound, hid, hP⟩ := hread
  rw [h.read found hfound hid] at hP
  exact hP

/-- An outsider's run is not let in. -/
theorem Outsider.not_let_in {session : SiteSession α} (h : D.Outsider e row session) :
    (session.request = .restart e → ¬ HasRead e (JobExecutor.isRestart · = true) session.calls) ∧
    ∀ payload kept, session.request = .deliver payload kept → payload.executionId = e →
      ¬ HasRead e (D.Takes payload) session.calls := by
  have hturned := h.turned
  constructor
  · intro hrequest hread
    have hrestart : JobExecutor.isRestart row = true := h.of_hasRead hread
    rw [hrequest] at hturned
    rw [hturned rfl] at hrestart
    cases hrestart
  · intro payload kept hrequest hfor hread
    rw [hrequest] at hturned
    exact hturned hfor (h.of_hasRead hread)

/-- An outsider may not mark the execution. -/
theorem Outsider.not_marks {session : SiteSession α} (h : D.Outsider e row session)
    {patch : JobExecutionPatch} :
    ¬ (D.permit session.request).marks session.calls e patch := by
  intro hmarks
  have hturned := h.turned
  cases hrequest : session.request with
  | launch =>
      rw [hrequest] at hmarks
      exact h.notLaunched hmarks.2.1
  | startNext =>
      rw [hrequest] at hmarks
      exact h.notLaunched hmarks.2.1
  | restart e' =>
      rw [hrequest] at hmarks
      obtain ⟨rfl, -, hread⟩ := hmarks
      exact h.not_let_in.1 hrequest hread
  | deliver payload kept =>
      rw [hrequest] at hmarks
      obtain ⟨rfl, -, hread⟩ := hmarks
      exact h.not_let_in.2 payload kept hrequest rfl hread
  | stop e' =>
      rw [hrequest] at hmarks hturned
      obtain ⟨rfl, -, hread⟩ := hmarks
      have hactive : JobOperator.isActive row.status = true := h.of_hasRead hread
      rw [hturned rfl] at hactive
      cases hactive
  | abandon e' =>
      rw [hrequest] at hmarks hturned
      obtain ⟨rfl, -, hread⟩ := hmarks
      exact hturned rfl (h.of_hasRead hread)

/-- An outsider may not create its steps. -/
theorem Outsider.not_steps {session : SiteSession α} (h : D.Outsider e row session) :
    ¬ (D.permit session.request).steps session.calls e := by
  intro hsteps
  cases hrequest : session.request with
  | launch =>
      rw [hrequest] at hsteps
      exact h.notLaunched hsteps.2
  | startNext =>
      rw [hrequest] at hsteps
      exact h.notLaunched hsteps.2
  | restart e' =>
      rw [hrequest] at hsteps
      obtain ⟨rfl, hread⟩ := hsteps
      exact h.not_let_in.1 hrequest hread
  | deliver payload kept =>
      rw [hrequest] at hsteps
      obtain ⟨rfl, hread⟩ := hsteps
      exact h.not_let_in.2 payload kept hrequest rfl hread
  | _ =>
      rw [hrequest] at hsteps
      exact hsteps

/-- An outsider may not send its messages. -/
theorem Outsider.not_sends {session : SiteSession α} (h : D.Outsider e row session)
    {payload : JobPayload} (hfor : payload.executionId = e) :
    ¬ (D.permit session.request).sends session.calls payload := by
  have hlaunch {jobId : String} :
      ¬ (D.launchPermit jobId).sends session.calls payload := by
    intro hsends
    obtain ⟨-, e', job, hlaunched, -, hprefix⟩ := hsends
    rw [Transport.payloads_eq] at hprefix
    have hmem := hprefix.subset (List.mem_append_right _ (List.mem_singleton_self payload))
    have hown : payload.executionId = e' := (payload_of_mem hmem).1
    rw [hfor] at hown
    exact h.notLaunched (hown ▸ hlaunched)
  cases hrequest : session.request with
  | launch => exact hlaunch
  | startNext => exact hlaunch
  | _ => exact id

/-- **An outsider leaves the execution alone.** -/
theorem Outsider.leaves {session : SiteSession α} (h : D.Outsider e row session) {o : Op α}
    (hallows : (D.permit session.request).Allows session.calls o) :
    (D.leaving e row : Prog.Footprint (Op α)).ops o := by
  refine ⟨?_, ?_, ?_⟩
  · intro patch heq
    subst heq
    exact h.not_marks hallows
  · intro name heq
    subst heq
    exact h.not_steps hallows
  · intro payload heq hfor _
    subst heq
    exact h.not_sends hfor hallows

section Steps

variable {site site' : SiteState α υ} {o : Op α}

/-- What leaves an execution alone does not change its row. -/
theorem row_of_leaving {w : World υ} (hconsistent : w.repo.Consistent)
    (hrow : w.repo.executions.get? e = some row)
    (ho : (D.leaving e row : Prog.Footprint (Op α)).ops o) :
    (handle env o w).2.repo.executions.get? e = some row ∧
      launchedBy ⟨o, (handle env o w).1⟩ ≠ some e := by
  by_cases hcreate : o.kind = .createExecution
  · cases o with
    | createExecutionAtomic name jobKey params =>
        rcases w.repo.createExecutionAtomic_cases w.clock name jobKey params with
          ⟨err, herr, hsame⟩ | ⟨new, hok, -, hset, ⟨i, hi, hid⟩, -⟩
        · refine ⟨(congrArg (·.get? e) hsame).trans hrow, ?_⟩
          simp only [handle, herr, launchedBy]
          exact fun heq => by cases heq
        · have hne : new.id ≠ e := by
            intro heq
            obtain ⟨j, hj, hid'⟩ := hconsistent.executionIssued e row hrow
            have hsame := w.repo.idGen.unique (hid.symm.trans (heq.trans hid'))
            omega
          constructor
          · simp only [handle, hset]
            exact (JsMap.get?_set_of_ne _ _ (Ne.symm hne)).trans hrow
          · simp only [handle, hok, launchedBy]
            exact fun heq => hne (Option.some.inj heq)
    | user call => cases call <;> cases hcreate
    | _ => cases hcreate
  · refine ⟨?_, ?_⟩
    · by_cases hupdate : o.kind = .updateJob
      · cases o with
        | updateJobExecution id patch =>
            have hne : e ≠ id := fun heq => ho.1 patch (heq ▸ rfl)
            cases hother : w.repo.executions.get? id with
            | none =>
                have hsame := InMemoryJobRepository.updateJobExecution_none hother patch
                exact (congrArg (fun repo => repo.executions.get? e) hsame).trans hrow
            | some other =>
                have hget := InMemoryJobRepository.get?_updateJobExecution hother patch e
                exact (hget.trans (if_neg hne)).trans hrow
        | user call => cases call <;> cases hupdate
        | _ => cases hupdate
      · exact (congrArg (·.get? e) (handle_executions env hcreate hupdate w)).trans hrow
    · rw [launchedBy_of_kind hcreate]
      exact fun heq => by cases heq

/-- Only a new step and its patches touch the rows of steps. -/
theorem handle_stepExecutions (env : Environment α υ) (hcreate : o.kind ≠ .createStep)
    (hupdate : o.kind ≠ .updateStep) (w : World υ) :
    (handle env o w).2.repo.stepExecutions = w.repo.stepExecutions := by
  cases o with
  | createExecutionAtomic name jobKey params =>
      exact (w.repo.createExecutionAtomic_frame w.clock name jobKey params).1
  | updateJobExecution id patch =>
      change (w.repo.updateJobExecution id patch).2.stepExecutions = _
      unfold InMemoryJobRepository.updateJobExecution
      split
      · rfl
      · rfl
  | createStepExecution => exact absurd rfl hcreate
  | updateStepExecution => exact absurd rfl hupdate
  | user call =>
      have hkind : (Op.user call).kind ∉ rowKinds := by
        cases call <;> simp [rowKinds, Op.kind, UserCall.kind]
      exact (handle_sameRows env hkind w).stepExecutions
  | enqueue payload =>
      simp only [handle]
      split
      · rfl
      · rfl
  | _ => rfl

/-- What leaves an execution alone gives it no step. -/
theorem steps_of_leaving {w : World υ}
    (ho : (D.leaving e row : Prog.Footprint (Op α)).ops o) {id : String} {step : StepExecution}
    (hstep : (handle env o w).2.repo.stepExecutions.get? id = some step)
    (hof : step.jobExecutionId = e) : (w.repo.stepExecutions.get? id).isSome = true := by
  by_cases hcreate : o.kind = .createStep
  · cases o with
    | createStepExecution e' name =>
        simp only [handle, InMemoryJobRepository.createStepExecution, JsMap.get?_set] at hstep
        split at hstep
        · cases hstep
          have hsame : e' = e := hof
          exact absurd (hsame ▸ rfl) (ho.2.1 name)
        · exact Option.isSome_of_eq_some hstep
    | user call => cases call <;> cases hcreate
    | _ => cases hcreate
  · by_cases hupdate : o.kind = .updateStep
    · cases o with
      | updateStepExecution stepExecutionId patch =>
          simp only [handle, InMemoryJobRepository.updateStepExecution] at hstep
          split at hstep
          · exact Option.isSome_of_eq_some hstep
          · next cur hcur =>
              simp only [JsMap.get?_set] at hstep
              split at hstep
              · next hid => exact hid ▸ Option.isSome_of_eq_some hcur
              · exact Option.isSome_of_eq_some hstep
      | user call => cases call <;> cases hupdate
      | _ => cases hupdate
    · rw [handle_stepExecutions env hcreate hupdate] at hstep
      exact Option.isSome_of_eq_some hstep

/-- What a call reads of the execution is its row. -/
theorem rowRead_eq {w : World υ} (hfiled : w.repo.ExecutionsFiled)
    (hrow : w.repo.executions.get? e = some row) {found : JobExecution}
    (hread : rowRead ⟨o, (handle env o w).1⟩ = some found) (hid : found.id = e) : found = row := by
  cases o with
  | getJobExecution id =>
      simp only [handle, InMemoryJobRepository.getJobExecution, rowRead] at hread
      cases hget : w.repo.executions.get? id with
      | none =>
          rw [hget] at hread
          cases hread
      | some other =>
          rw [hget] at hread
          cases hread
          have hsame : found.id = id := hfiled id found hget
          rw [← hsame, hid] at hget
          exact Option.some.inj (hget.symm.trans hrow)
  | _ => cases hread

/-- What leaves an execution alone sends no message that would be taken up for it. -/
theorem messages_of_leaving {w : World υ}
    (h : ∀ payload ∈ w.queue, payload.executionId = e → ¬ D.Takes payload row)
    (ho : (D.leaving e row : Prog.Footprint (Op α)).ops o) :
    ∀ payload ∈ (handle env o w).2.queue, payload.executionId = e → ¬ D.Takes payload row := by
  intro payload hpayload hfor
  rw [queue_after] at hpayload
  rcases List.mem_append.mp hpayload with hold | hsent
  · exact h payload hold hfor
  · cases o with
    | enqueue sent =>
        cases hanswer : (handle env (.enqueue sent : Op α) w).1 with
        | error err =>
            rw [hanswer] at hsent
            cases hsent
        | ok queueJobId =>
            rw [hanswer] at hsent
            have hsame : payload = sent := List.mem_singleton.mp hsent
            exact ho.2.2 payload (hsame ▸ rfl) hfor
    | _ => cases hsent

/-- An outsider that leaves the execution alone stays one. -/
theorem Outsider.act {w : World υ} {session : SiteSession α} (h : D.Outsider e row session)
    (hconsistent : w.repo.Consistent) (hrow : w.repo.executions.get? e = some row)
    (ho : (D.leaving e row : Prog.Footprint (Op α)).ops o) (rest : Code α Unit) :
    D.Outsider e row
      ⟨session.request, session.calls ++ [⟨o, (handle env o w).1⟩], rest⟩ where
  turned := h.turned
  notLaunched hmem := by
    rw [launchedIds_snoc] at hmem
    rcases List.mem_append.mp hmem with hold | hnew
    · exact h.notLaunched hold
    · exact (row_of_leaving hconsistent hrow ho).2 (Option.mem_toList.mp hnew)
  read found hfound hid := by
    rw [rowsRead_snoc] at hfound
    rcases List.mem_append.mp hfound with hold | hnew
    · exact h.read found hold hid
    · exact rowRead_eq hconsistent.executionOwn hrow (Option.mem_toList.mp hnew) hid

/-- An operation of a session keeps the execution at rest. -/
theorem AtRest.act (h : AtRest D e row site) (hrecord : D.OnRecord site) {n : Nat}
    {s : SiteSession α} {k : o.Resp → Code α Unit} (hs : site.sessions[n]? = some s)
    (hop : s.rest = .op o k) :
    (D.leaving e row : Prog.Footprint (Op α)).ops o ∧
      AtRest D e row ((D.service env).after site n s o k) := by
  have hleaves : (D.leaving e row : Prog.Footprint (Op α)).ops o := by
    rcases h.sessions n s hs with huses | houtside
    · rw [hop] at huses
      exact huses.1
    · exact houtside.leaves (hrecord.orderly.guard hs hop)
  refine ⟨hleaves, (row_of_leaving hrecord.consistent h.onFile hleaves).1,
    messages_of_leaving h.messages hleaves, fun m t ht => ?_⟩
  rcases Prog.Service.after_cases hs ht with ⟨-, rfl⟩ | ⟨-, hold⟩
  · rcases h.sessions n s hs with huses | houtside
    · rw [hop] at huses
      exact .inl (huses.2 _)
    · exact .inr (houtside.act hrecord.consistent h.onFile hleaves _)
  · exact h.sessions m t hold

/-- So does what comes to the site, if it is turned away. -/
theorem AtRest.come (h : AtRest D e row site) {request : Request} {w : World υ}
    (harrive : arrive request site.shared = some w)
    (hturned : (∃ payload kept, request = .deliver payload kept) ∨ D.TurnedAway e row request) :
    AtRest D e row
      { shared := w, sessions := site.sessions ++ [(D.service env).opened request] } := by
  obtain ⟨hqueue, hrepo⟩ := arrive_eq_some harrive
  have haway : D.TurnedAway e row request := by
    rcases hturned with ⟨payload, kept, rfl⟩ | haway
    · intro hfor
      simp only [arrive] at harrive
      split at harrive
      · next hmem => exact h.messages payload hmem hfor
      · cases harrive
    · exact haway
  refine ⟨?_, fun payload hmem => h.messages payload (hqueue payload hmem), fun m t ht => ?_⟩
  · change w.repo.executions.get? e = some row
    rw [hrepo]
    exact h.onFile
  · rcases Prog.Service.come_cases ht with hold | ⟨-, rfl⟩
    · exact h.sessions m t hold
    · exact .inr (outsider_of_turned haway)

end Steps

/-- **An execution at rest stays at rest**: whatever comes to the site and however the operations
interleave, its row is not written and it gets no step, as long as the operator asks for nothing
that its status allows. -/
theorem at_rest_stays (env : Environment α υ) {w : World υ} (hw : w.repo.Consistent)
    {before after : List (Prog.Happening Request)} {site site' : SiteState α υ}
    (hbefore : (D.service env).machine.run (Prog.Service.started w) before = some site)
    (hrest : AtRest D e row site)
    (hcome : ∀ request, Prog.Happening.come request ∈ after →
      (∃ payload kept, request = .deliver payload kept) ∨ D.TurnedAway e row request)
    (hafter : (D.service env).machine.run site after = some site') :
    site'.shared.repo.getJobExecution e = some row ∧
      ∀ id step, site'.shared.repo.stepExecutions.get? id = some step →
        step.jobExecutionId = e → (site.shared.repo.stepExecutions.get? id).isSome = true := by
  let Kept (t : SiteState α υ) : Prop := D.OnRecord t ∧ AtRest D e row t ∧
    ∀ id step, t.shared.repo.stepExecutions.get? id = some step → step.jobExecutionId = e →
      (site.shared.repo.stepExecutions.get? id).isSome = true
  let Comes (taken : List (Prog.Happening Request)) : Prop :=
    ∀ request, Prog.Happening.come request ∈ taken →
      (∃ payload kept, request = .deliver payload kept) ∨ D.TurnedAway e row request
  have htracks : Comes after → Kept site' := by
    refine Machine.run_tracks (M := (D.service env).machine) (p := [])
      (T := fun taken t => Comes taken → Kept t) ?_ (fun _ => ?_) hafter
    · intro taken t happening t' hkept hstep htaken
      obtain ⟨hrecord, hatRest, hsteps⟩ :=
        hkept fun request hmem => htaken request (List.mem_append_left _ hmem)
      obtain ⟨hrecord', hextends⟩ := hrecord.step hstep
      cases happening with
      | come request =>
          obtain ⟨w', harrive, rfl⟩ := Prog.Service.step_come hstep
          have hturned := htaken request (List.mem_append_right _ (List.mem_singleton_self _))
          refine ⟨hrecord', hatRest.come harrive hturned, ?_⟩
          change ∀ id step, w'.repo.stepExecutions.get? id = some step → _
          rw [(arrive_eq_some harrive).2]
          exact hsteps
      | act n =>
          obtain ⟨s, o, k, hs, hop, rfl⟩ := Prog.Service.step_act hstep
          obtain ⟨hleaves, hatRest'⟩ := hatRest.act hrecord hs hop
          refine ⟨hrecord', hatRest', fun id step hget hof => ?_⟩
          obtain ⟨old, hold⟩ := Option.isSome_iff_exists.mp (steps_of_leaving hleaves hget hof)
          obtain ⟨kept, hkept, hsame, -⟩ := hextends.steps id old hold
          cases hkept.symm.trans hget
          exact hsteps id old hold (hsame.symm.trans hof)
    · exact ⟨(D.onRecord_started hw).run hbefore, hrest,
        fun _ _ hget _ => Option.isSome_of_eq_some hget⟩
  obtain ⟨-, hatRest, hsteps⟩ := htracks hcome
  exact ⟨hatRest.onFile, hsteps⟩

theorem at_rest_stays_import :
    ∃ site' row, ((importSite .direct).service (willing [10, 20, 30])).machine.run
        (Prog.Service.started (launchedWorld 0 (splitJob 1))) [.come (.abandon "r"), .act 0] =
        some site' ∧
      site'.shared.repo.getJobExecution "r" = some row ∧
      ∀ id step, site'.shared.repo.stepExecutions.get? id = some step → step.jobExecutionId = "r" →
        ((launchedWorld 0 (splitJob 1)).repo.stepExecutions.get? id).isSome = true := by
  have hsome : (((importSite .direct).service (willing [10, 20, 30])).machine.run
      (Prog.Service.started (launchedWorld 0 (splitJob 1)))
      [.come (.abandon "r"), .act 0]).isSome = true := by decide +kernel
  obtain ⟨site', hrun⟩ := Option.isSome_iff_exists.mp hsome
  have hconsistent := ((InMemoryJobRepository.consistent_new (unaryIds 'r')).createExecution 0
    "import" "key" []).1
  have hrest : AtRest (importSite .direct) "r" (InMemoryJobRepository.newExecution "r" "" [])
      (Prog.Service.started (launchedWorld 0 (splitJob 1)) : SiteState Nat Nat) := by
    refine ⟨rfl, fun payload hmem => ?_, fun _ _ hs => (by cases hs)⟩
    cases hmem
  have hstart : ((importSite .direct).service (willing [10, 20, 30])).machine.run
      (Prog.Service.started (launchedWorld 0 (splitJob 1))) [] =
      some (Prog.Service.started (launchedWorld 0 (splitJob 1))) := rfl
  refine ⟨site', _, hrun, at_rest_stays (willing [10, 20, 30]) hconsistent hstart hrest
    (fun request hmem => ?_) hrun⟩
  simp only [List.mem_cons, List.not_mem_nil, reduceCtorEq, or_false,
    Prog.Happening.come.injEq] at hmem
  subst hmem
  exact .inr fun _ hcan => by cases hcan.1

/-- **What has COMPLETED or been ABANDONED is over for good**, once it is at rest: no request of any
kind gets at it. -/
theorem over_for_good (env : Environment α υ) {w : World υ} (hw : w.repo.Consistent)
    {before after : List (Prog.Happening Request)} {site site' : SiteState α υ}
    (hbefore : (D.service env).machine.run (Prog.Service.started w) before = some site)
    (hrest : AtRest D e row site) (hover : row.status = .COMPLETED ∨ row.status = .ABANDONED)
    (hafter : (D.service env).machine.run site after = some site') :
    site'.shared.repo.getJobExecution e = some row := by
  refine (at_rest_stays env hw hbefore hrest (fun request _ => ?_) hafter).1
  cases request with
  | deliver payload kept => exact .inl ⟨payload, kept, rfl⟩
  | launch => exact .inr trivial
  | startNext => exact .inr trivial
  | restart e' =>
      refine .inr fun _ => ?_
      unfold JobExecutor.isRestart
      rcases hover with hstatus | hstatus
      · rw [hstatus]
        rfl
      · rw [hstatus]
        rfl
  | stop e' =>
      refine .inr fun _ => ?_
      rcases hover with hstatus | hstatus
      · rw [hstatus]
        rfl
      · rw [hstatus]
        rfl
  | abandon e' =>
      refine .inr fun _ hcan => ?_
      rcases hover with hstatus | hstatus
      · exact hcan.2.1 hstatus
      · exact hcan.2.2 hstatus

end Deployment

end NestBatch
