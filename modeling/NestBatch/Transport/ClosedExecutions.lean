import NestBatch.Transport.ActiveExecutions
import NestBatch.Transport.AtRest

/-!
# Executions that are stopped or abandoned

`stop` and `abandon` write a status and tell nobody.  The executor writes over it
without looking, and a worker that takes a message up later runs a stopped
execution as a restart.  What is closed while nobody else has it in hand stays
closed and gets no step, until a restart looks it up.
-/

namespace NestBatch

variable {α υ : Type}

namespace Deployment

variable (D : Deployment)

/-- The statuses that `stop` and `abandon` write. -/
def IsClosed (status : JobStatus) : Prop := status = .STOPPED ∨ status = .ABANDONED

/-- The next operation of session `n` closes `e` and leaves `row`. -/
def Closing (site : SiteState α υ) (n : Nat) (e : String) (row : JobExecution) : Prop :=
  ∃ session patch k old, site.sessions[n]? = some session ∧
    session.rest = .op (.updateJobExecution e patch) k ∧
    site.shared.repo.executions.get? e = some old ∧ row = patch.applyTo old ∧
    IsClosed row.status

/-- A session that leaves a closed execution alone, until a restart looks it up.  A call of the
operator may close it again. -/
inductive LetsBe (e : String) (row : JobExecution) (session : SiteSession α) : Prop
  | done (hrest : session.rest.Uses (D.leaving e row))
  | outside (houtside : D.Outsider e row session)
  | operator (hrequest : session.request = .stop e ∨ session.request = .abandon e)
  | waiting (hrequest : session.request = .restart e)
      (hunread : ∀ found ∈ rowsRead session.calls, found.id ≠ e)

/-- Nobody but session `n` has the execution in hand: no message for it will be taken up, and no
other session can get at it. -/
structure LetGo (e : String) (row : JobExecution) (site : SiteState α υ) (n : Nat) : Prop where
  messages : ∀ payload ∈ site.shared.queue, payload.executionId = e → ¬ D.Takes payload row
  others : ∀ (m : Nat) (session : SiteSession α), m ≠ n → site.sessions[m]? = some session →
    D.LetsBe e row session

/-- A happening closes only what nobody else has in hand. -/
def ClosesAlone (site : SiteState α υ) (happening : Prog.Happening Request) : Prop :=
  ∀ n e row, happening = .act n → Closing site n e row → D.LetGo e row site n

/-- A restart looks the execution up for the first time. -/
def RestartLooks (site : SiteState α υ) (happening : Prog.Happening Request) (e : String) : Prop :=
  ∃ n session k, happening = .act n ∧ site.sessions[n]? = some session ∧
    session.request = .restart e ∧ session.rest = .op (.getJobExecution e) k ∧
    ∀ found ∈ rowsRead session.calls, found.id ≠ e

/-- The execution is closed, and nobody has it in hand. -/
structure Closed (e : String) (row : JobExecution) (site : SiteState α υ) : Prop where
  onFile : site.shared.repo.executions.get? e = some row
  closed : IsClosed row.status
  messages : ∀ payload ∈ site.shared.queue, payload.executionId = e → ¬ D.Takes payload row
  sessions : ∀ (n : Nat) (session : SiteSession α), site.sessions[n]? = some session →
    D.LetsBe e row session

variable {D} {env : Environment α υ} {site site' : SiteState α υ} {e : String}
  {row : JobExecution} {n : Nat} {session : SiteSession α} {o : Op α} {calls : Calls α}
  {request : Request}

/-- What a call of the operator writes closes the execution. -/
theorem closed_of_operator {patch : JobExecutionPatch}
    (hrequest : request = .stop e ∨ request = .abandon e)
    (hallows : (D.permit request).Allows calls (.updateJobExecution e patch)) :
    ∃ status, patch.status = some status ∧ IsClosed status := by
  rcases hrequest with rfl | rfl
  · exact ⟨_, hallows.2.1, .inl rfl⟩
  · exact ⟨_, hallows.2.1, .inr rfl⟩

/-- A session that lets the execution be leaves it alone, or closes it again. -/
theorem LetsBe.leaves_or_closes (h : D.LetsBe e row session) {k : o.Resp → Code α Unit}
    (hop : session.rest = .op o k) (hallows : (D.permit session.request).Allows session.calls o) :
    (D.leaving e row : Prog.Footprint (Op α)).ops o ∨
      (∃ patch, o = .updateJobExecution e patch) ∧
        (session.request = .stop e ∨ session.request = .abandon e) := by
  cases h with
  | done hrest =>
      rw [hop] at hrest
      exact .inl hrest.1
  | outside houtside => exact .inl (houtside.leaves hallows)
  | operator hrequest =>
      by_cases hcloses : ∃ patch, o = .updateJobExecution e patch
      · exact .inr ⟨hcloses, hrequest⟩
      · refine .inl ⟨fun patch heq => hcloses ⟨patch, heq⟩, fun name heq => ?_,
          fun payload heq _ => ?_⟩
        · subst heq
          rcases hrequest with hrequest | hrequest
          all_goals
            rw [hrequest] at hallows
            cases hallows
        · subst heq
          rcases hrequest with hrequest | hrequest
          all_goals
            rw [hrequest] at hallows
            cases hallows
  | waiting hrequest hunread =>
      have hnothing {P : JobExecution → Prop} : ¬ HasRead e P session.calls := by
        intro hread
        obtain ⟨found, hfound, hid, -⟩ := hread
        exact hunread found hfound hid
      rw [hrequest] at hallows
      refine .inl ⟨fun patch heq => ?_, fun name heq => ?_, fun payload heq _ => ?_⟩
      · subst heq
        exact absurd hallows.2.2 hnothing
      · subst heq
        exact absurd hallows.2 hnothing
      · subst heq
        cases hallows

/-- Only a look-up reads the row of an execution. -/
theorem look_of_rowRead {w : World υ} (hfiled : w.repo.ExecutionsFiled) {found : JobExecution}
    (hread : rowRead ⟨o, (handle env o w).1⟩ = some found) : o = .getJobExecution found.id := by
  cases o with
  | getJobExecution id =>
      simp only [handle, InMemoryJobRepository.getJobExecution, rowRead] at hread
      cases hget : w.repo.executions.get? id with
      | none =>
          rw [hget] at hread
          cases hread
      | some other =>
          rw [hget] at hread
          cases hread
          rw [hfiled id found hget]
  | _ => cases hread

/-- It goes on letting it be. -/
theorem LetsBe.act (h : D.LetsBe e row session) (hrecord : D.OnRecord site)
    (hrow : site.shared.repo.executions.get? e = some row) {k : o.Resp → Code α Unit}
    (hs : site.sessions[n]? = some session) (hop : session.rest = .op o k)
    (hleaves : (D.leaving e row : Prog.Footprint (Op α)).ops o)
    (hlooks : ¬ RestartLooks site (.act n) e) :
    D.LetsBe e row ⟨session.request,
      session.calls ++ [⟨o, (handle env o site.shared).1⟩], k (handle env o site.shared).1⟩ := by
  cases h with
  | done hrest =>
      rw [hop] at hrest
      exact .done (hrest.2 _)
  | outside houtside => exact .outside (houtside.act hrecord.consistent hrow hleaves _)
  | operator hrequest => exact .operator hrequest
  | waiting hrequest hunread =>
      refine .waiting hrequest fun found hfound hid => ?_
      rw [rowsRead_snoc] at hfound
      rcases List.mem_append.mp hfound with hold | hnew
      · exact hunread found hold hid
      · have hlook := look_of_rowRead hrecord.orderly.1 (Option.mem_toList.mp hnew)
        rw [hid] at hlook
        subst hlook
        exact hlooks ⟨n, session, k, rfl, hs, hrequest, hop, hunread⟩

/-- A request that comes in lets the execution be. -/
theorem letsBe_opened {w w' : World υ} (harrive : arrive request w = some w')
    (hmessages : ∀ payload ∈ w.queue, payload.executionId = e → ¬ D.Takes payload row) :
    D.LetsBe e row ((D.service env).opened request) := by
  have hunread : ∀ found ∈ rowsRead ([] : Calls α), found.id ≠ e := fun _ hmem => by cases hmem
  cases request with
  | launch => exact .outside (outsider_of_turned trivial)
  | startNext => exact .outside (outsider_of_turned trivial)
  | restart e' =>
      by_cases heq : e' = e
      · exact .waiting (congrArg _ heq) hunread
      · exact .outside (outsider_of_turned fun hsame => absurd hsame heq)
  | stop e' =>
      by_cases heq : e' = e
      · exact .operator (.inl (congrArg _ heq))
      · exact .outside (outsider_of_turned fun hsame => absurd hsame heq)
  | abandon e' =>
      by_cases heq : e' = e
      · exact .operator (.inr (congrArg _ heq))
      · exact .outside (outsider_of_turned fun hsame => absurd hsame heq)
  | deliver payload kept =>
      refine .outside (outsider_of_turned fun hfor => ?_)
      simp only [arrive] at harrive
      split at harrive
      · next hmem => exact hmessages payload hmem hfor
      · cases harrive

/-- **A closing write closes**, where nobody else has the execution in hand. -/
theorem closed_of_closing {patch : JobExecutionPatch} {k : Except Thrown Unit → Code α Unit}
    {old : JobExecution} (hs : site.sessions[n]? = some session)
    (hrequest : session.request = .stop e ∨ session.request = .abandon e)
    (hold : site.shared.repo.executions.get? e = some old)
    (hclosed : IsClosed (patch.applyTo old).status) (hlet : D.LetGo e (patch.applyTo old) site n) :
    D.Closed e (patch.applyTo old)
      ((D.service env).after site n session (.updateJobExecution e patch) k) where
  onFile := by
    have hget := InMemoryJobRepository.get?_updateJobExecution hold patch e
    rw [if_pos rfl] at hget
    exact hget
  closed := hclosed
  messages := hlet.messages
  sessions m t ht := by
    rcases Prog.Service.after_cases hs ht with ⟨-, rfl⟩ | ⟨hne, hother⟩
    · exact .operator hrequest
    · exact hlet.others m t hne hother

/-- A happening keeps a closed execution closed, and gives it no step. -/
theorem Closed.step (h : D.Closed e row site) (hrecord : D.OnRecord site)
    {happening : Prog.Happening Request}
    (hstep : (D.service env).machine.step site happening = some site')
    (halone : D.ClosesAlone site happening) (hlooks : ¬ RestartLooks site happening e) :
    (∃ row', D.Closed e row' site') ∧
      ∀ id step, site'.shared.repo.stepExecutions.get? id = some step →
        step.jobExecutionId = e → (site.shared.repo.stepExecutions.get? id).isSome = true := by
  cases happening with
  | come request =>
      obtain ⟨w, harrive, rfl⟩ := Prog.Service.step_come hstep
      obtain ⟨hqueue, hrepo⟩ := arrive_eq_some harrive
      refine ⟨⟨row, ⟨?_, h.closed, fun payload hmem => h.messages payload (hqueue payload hmem),
        fun m t ht => ?_⟩⟩, ?_⟩
      · change w.repo.executions.get? e = some row
        rw [hrepo]
        exact h.onFile
      · rcases Prog.Service.come_cases ht with hold | ⟨-, rfl⟩
        · exact h.sessions m t hold
        · exact letsBe_opened harrive h.messages
      · change ∀ id step, w.repo.stepExecutions.get? id = some step → _
        rw [hrepo]
        exact fun id step hget _ => Option.isSome_of_eq_some hget
  | act n =>
      obtain ⟨session, o, k, hs, hop, rfl⟩ := Prog.Service.step_act hstep
      have hallows := hrecord.orderly.guard hs hop
      rcases (h.sessions n session hs).leaves_or_closes hop hallows with
        hleaves | ⟨⟨patch, rfl⟩, hrequest⟩
      · refine ⟨⟨row, ⟨(row_of_leaving hrecord.consistent h.onFile hleaves).1, h.closed,
          messages_of_leaving h.messages hleaves, fun m t ht => ?_⟩⟩,
          fun id step hget hof => steps_of_leaving hleaves hget hof⟩
        rcases Prog.Service.after_cases hs ht with ⟨-, rfl⟩ | ⟨-, hother⟩
        · exact (h.sessions n session hs).act hrecord h.onFile hs hop hleaves hlooks
        · exact h.sessions m t hother
      · obtain ⟨status, hpatch, hclosed⟩ := closed_of_operator hrequest hallows
        have hstatus : (patch.applyTo row).status = status :=
          InMemoryJobRepository.applyTo_status hpatch
        rw [← hstatus] at hclosed
        have hlet := halone n e _ rfl
          ⟨session, patch, k, row, hs, hop, h.onFile, rfl, hclosed⟩
        refine ⟨⟨_, closed_of_closing hs hrequest h.onFile hclosed hlet⟩, fun id step hget _ => ?_⟩
        change (handle env (.updateJobExecution e patch) site.shared).2.repo.stepExecutions.get?
          id = some step at hget
        rw [handle_stepExecutions env (by simp [Op.kind]) (by simp [Op.kind])] at hget
        exact Option.isSome_of_eq_some hget

end Deployment

end NestBatch
