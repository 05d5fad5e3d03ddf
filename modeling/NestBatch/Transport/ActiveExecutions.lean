import NestBatch.Repository.ActiveRows
import NestBatch.Transport.SiteRules

/-!
# One run of an instance at a time

A launch is guarded by the repository; a restart and a delivered message are not:
the executor marks the execution STARTED whatever else is under way.  In any
interleaving, two executions of an instance are under way, or two runs drive one
execution, exactly if one of these marks is made where it should not be.
-/

namespace NestBatch

variable {α υ : Type}

/-! ### What a session drives -/

/-- The run tells its end. -/
def BatchEvent.endsRun (event : BatchEvent) : Bool :=
  event.type = .JOB_COMPLETED || event.type = .JOB_FAILED

/-- The execution that is driven after a call. -/
def drivenAfter (driven : Option String) : Prog.Call (Op α) Op.Resp → Option String
  | ⟨.emit event, _⟩ => if event.endsRun then none else driven
  | ⟨.updateJobExecution e patch, r⟩ => (startedBy (.updateJobExecution e patch) r).or driven
  | _ => driven

/-- The execution that calls drive: it has been marked STARTED, and its end has not been told. -/
def drivenBy (calls : Calls α) : Option String := calls.foldl drivenAfter none

/-- A session is in the middle of a run of `e`. -/
def Drives (session : SiteSession α) (e : String) : Prop :=
  session.ended = false ∧ drivenBy session.calls = some e

section Driving

variable {calls : Calls α} {e : String}

theorem drivenBy_snoc (calls : Calls α) (c : Prog.Call (Op α) Op.Resp) :
    drivenBy (calls ++ [c]) = drivenAfter (drivenBy calls) c := List.foldl_append

/-- A mark is driven from then on. -/
theorem drivenBy_mark {o : Op α} {r : o.Resp} (h : startedBy o r = some e) (calls : Calls α) :
    drivenBy (calls ++ [⟨o, r⟩]) = some e := by
  rw [drivenBy_snoc]
  cases o with
  | updateJobExecution id patch =>
      change (startedBy (.updateJobExecution id patch) r).or _ = _
      rw [h]
      rfl
  | _ => cases h

/-- Only a mark makes a session drive an execution. -/
theorem drivenBy_of_snoc {o : Op α} {r : o.Resp}
    (h : drivenBy (calls ++ [⟨o, r⟩]) = some e) :
    startedBy o r = some e ∨ drivenBy calls = some e := by
  rw [drivenBy_snoc] at h
  cases o with
  | emit event =>
      simp only [drivenAfter] at h
      split at h
      · cases h
      · exact .inr h
  | updateJobExecution id patch =>
      rcases Option.or_eq_some_iff.mp h with hmark | ⟨-, hold⟩
      · exact .inl hmark
      · exact .inr hold
  | _ => exact .inr h

/-- A mark that has been made, made of an execution on file. -/
theorem startedBy_handle {env : Environment α υ} {o : Op α} {w : World υ}
    (h : startedBy o (handle env o w).1 = some e) :
    ∃ patch, o = .updateJobExecution e patch ∧ patch.status = some .STARTED ∧
      (w.repo.executions.get? e).isSome = true := by
  cases o with
  | updateJobExecution id patch =>
      simp only [handle, InMemoryJobRepository.updateJobExecution] at h
      split at h
      · cases h
      · next row hrow =>
          simp only [startedBy] at h
          split at h
          · next hstatus =>
              cases h
              exact ⟨patch, rfl, hstatus, Option.isSome_of_eq_some hrow⟩
          · cases h
  | _ => cases h

/-- A mark of an execution on file is made. -/
theorem startedBy_of_mark {env : Environment α υ} {patch : JobExecutionPatch} {w : World υ}
    (hpatch : patch.status = some .STARTED)
    (hfile : (w.repo.executions.get? e).isSome = true) :
    startedBy (.updateJobExecution e patch : Op α)
      (handle env (.updateJobExecution e patch) w).1 = some e := by
  obtain ⟨row, hrow⟩ := Option.isSome_iff_exists.mp hfile
  simp only [handle, InMemoryJobRepository.updateJobExecution, hrow, startedBy, if_pos hpatch]

end Driving

/-! ### Exclusion -/

/-- No instance has two executions under way, and no execution is driven by two sessions. -/
structure Exclusive (site : SiteState α υ) : Prop where
  oneActive : site.shared.repo.OneActive
  oneDriver : ∀ (m n : Nat) (s t : SiteSession α) (e : String), site.sessions[m]? = some s →
    site.sessions[n]? = some t → Drives s e → Drives t e → m = n

/-- The next operation of session `n` marks `e` STARTED. -/
def Starting (site : SiteState α υ) (n : Nat) (e : String) : Prop :=
  ∃ session patch k, site.sessions[n]? = some session ∧
    session.rest = .op (.updateJobExecution e patch) k ∧ patch.status = some .STARTED ∧
    (site.shared.repo.executions.get? e).isSome = true

/-- No other execution of the instance is under way, and no other session drives `e`. -/
def FreeFor (site : SiteState α υ) (n : Nat) (e : String) : Prop :=
  site.shared.repo.Uncontested e ∧
    ∀ (m : Nat) (session : SiteSession α), m ≠ n → site.sessions[m]? = some session →
      ¬ Drives session e

/-- A happening marks an execution STARTED only where it is free. -/
def MarksFreely (site : SiteState α υ) (happening : Prog.Happening Request) : Prop :=
  ∀ n e, happening = .act n → Starting site n e → FreeFor site n e

namespace Deployment

variable (D : Deployment) (env : Environment α υ)

section Steps

variable {D env} {site : SiteState α υ} {n : Nat} {session : SiteSession α} {o : Op α}
  {k : o.Resp → Code α Unit}

/-- A session that comes in drives nothing. -/
theorem exclusive_come {w : World υ} {request : Request} (hrepo : w.repo = site.shared.repo) :
    Exclusive ({ shared := w, sessions := site.sessions ++ [(D.service env).opened request] } :
      SiteState α υ) ↔ Exclusive site := by
  have hnew {m : Nat} {t : SiteSession α} {e : String} (ht : (site.sessions ++
      [(D.service env).opened request])[m]? = some t) (hdrives : Drives t e) :
      site.sessions[m]? = some t := by
    rcases Prog.Service.come_cases ht with hold | ⟨-, rfl⟩
    · exact hold
    · cases hdrives.2
  constructor
  · intro h
    refine ⟨hrepo ▸ h.oneActive, fun m n s t e hs ht hds hdt => ?_⟩
    have hkept {m : Nat} {s : SiteSession α} (hs : site.sessions[m]? = some s) :
        (site.sessions ++ [(D.service env).opened request])[m]? = some s :=
      (List.getElem?_append_left (List.getElem?_eq_some_iff.mp hs).1).trans hs
    exact h.oneDriver m n s t e (hkept hs) (hkept ht) hds hdt
  · intro h
    exact ⟨by rw [hrepo]; exact h.oneActive, fun m n s t e hs ht hds hdt =>
      h.oneDriver m n s t e (hnew hs hds) (hnew ht hdt) hds hdt⟩

/-- The statuses that sessions write. -/
theorem status_of_allows {request : Request} {calls : Calls α} {e : String}
    {patch : JobExecutionPatch}
    (h : (D.permit request).Allows calls (.updateJobExecution e patch)) :
    ∃ status, patch.status = some status ∧ (status.blocksLaunch = true → status = .STARTED) := by
  have hrun (hmark : RunMark e calls patch) : ∃ status, patch.status = some status ∧
      (status.blocksLaunch = true → status = .STARTED) := by
    rcases hmark with ⟨hstarted, -⟩ | hfailed | hcompleted
    · exact ⟨_, hstarted, fun _ => rfl⟩
    · exact ⟨_, hfailed, fun hblocks => by cases hblocks⟩
    · exact ⟨_, hcompleted, fun hblocks => by cases hblocks⟩
  cases request with
  | launch => exact hrun h.2.2
  | startNext => exact hrun h.2.2
  | restart => exact hrun (h.1 ▸ h.2.1)
  | deliver => exact hrun (h.1 ▸ h.2.1)
  | stop => exact ⟨_, h.2.1, fun hblocks => by cases hblocks⟩
  | abandon => exact ⟨_, h.2.1, fun hblocks => by cases hblocks⟩

/-- A session that has just marked an execution STARTED goes on. -/
theorem goes_on {request : Request} {calls : Calls α} {e : String} {r : o.Resp}
    {rest : Code α Unit} (hmark : startedBy o r = some e)
    (hrest : rest.wp (D.siteLogic request) (fun _ calls => NotJustStarted calls)
      (calls ++ [⟨o, r⟩])) :
    (Prog.Session.mk request (calls ++ [⟨o, r⟩]) rest : SiteSession α).ended = false := by
  have hends : ¬ NotJustStarted (calls ++ [⟨o, r⟩]) := by
    intro hquiet
    have hnone := hquiet _ List.getLast?_concat
    rw [hmark] at hnone
    cases hnone
  cases rest with
  | pure u => exact absurd hrest hends
  | throw err => exact absurd hrest hends
  | _ => rfl

/-- Two sessions drive one execution after an operation of session `n` only if it is a mark. -/
theorem oneDriver_act (hex : Exclusive site) (hsession : site.sessions[n]? = some session)
    (hop : session.rest = .op o k) (hfree : ∀ e, Starting site n e → FreeFor site n e)
    {m : Nat} {t : SiteSession α} {e : String} (hm : m ≠ n) (ht : site.sessions[m]? = some t)
    (hdrives : Drives t e) (hdriven : drivenBy
      (session.calls ++ [⟨o, (handle env o site.shared).1⟩]) = some e) : False := by
  rcases drivenBy_of_snoc hdriven with hmark | hold
  · obtain ⟨patch, rfl, hpatch, hfile⟩ := startedBy_handle hmark
    exact (hfree e ⟨session, patch, k, hsession, hop, hpatch, hfile⟩).2 m t hm ht hdrives
  · have hgoing : Drives session e := by
      refine ⟨?_, hold⟩
      unfold Prog.Session.ended
      rw [hop]
    exact hm (hex.oneDriver m n t session e ht hsession hdrives hgoing)

/-- **An operation keeps the site exclusive exactly if it marks freely.** -/
theorem exclusive_act (hord : D.Orderly site) (hex : Exclusive site)
    (hsession : site.sessions[n]? = some session) (hop : session.rest = .op o k) :
    Exclusive ((D.service env).after site n session o k) ↔
      ∀ e, Starting site n e → FreeFor site n e := by
  constructor
  · intro hafter e hstarting
    obtain ⟨other, patch, k', hother, hop', hpatch, hfile⟩ := hstarting
    cases hother.symm.trans hsession
    rw [hop] at hop'
    cases hop'
    obtain ⟨row, hrow⟩ := Option.isSome_iff_exists.mp hfile
    refine ⟨InMemoryJobRepository.uncontested_of_update hrow hpatch rfl hafter.oneActive, ?_⟩
    intro m t hm ht hdrives
    have hmark : startedBy (.updateJobExecution e patch : Op α)
        (handle env (.updateJobExecution e patch) site.shared).1 = some e :=
      startedBy_of_mark hpatch hfile
    have hspec := hord.2 n session hsession
    rw [hop] at hspec
    have hrest := hspec.2 _ _ ((D.serves env).answer session.request
      (.updateJobExecution e patch) site.shared session.calls hord.1 hspec.1)
    have hnow := Prog.Service.after_self (S := D.service env) (o := .updateJobExecution e patch)
      (k := k') hsession
    have hothers : ((D.service env).after site n session (.updateJobExecution e patch)
        k').sessions[m]? = some t := (Prog.Service.after_other hm).trans ht
    exact hm (hafter.oneDriver m n t _ e hothers hnow hdrives
      ⟨goes_on hmark hrest, drivenBy_mark hmark session.calls⟩)
  · intro hfree
    refine ⟨?_, ?_⟩
    · change (handle env o site.shared).2.repo.OneActive
      by_cases hcreate : o.kind = .createExecution
      · cases o with
        | createExecutionAtomic name jobKey params =>
            exact hex.oneActive.create site.shared.clock name jobKey params
        | user call => cases call <;> cases hcreate
        | _ => cases hcreate
      · by_cases hupdate : o.kind = .updateJob
        · cases o with
          | updateJobExecution e patch =>
              obtain ⟨status, hpatch, hblocks⟩ :=
                status_of_allows (D := D) (hord.guard hsession hop)
              refine hex.oneActive.update hpatch fun hactive => ?_
              rw [hblocks hactive] at hpatch
              intro row hrow
              exact (hfree e ⟨session, patch, k, hsession, hop, hpatch,
                Option.isSome_of_eq_some hrow⟩).1 row hrow
          | user call => cases call <;> cases hupdate
          | _ => cases hupdate
        · exact hex.oneActive.of_same (handle_executions env hcreate hupdate site.shared)
    · intro m m' s t e hs ht hds hdt
      rcases Prog.Service.after_cases hsession hs with ⟨hm, hself⟩ | ⟨hm, hold⟩
      · subst hm hself
        rcases Prog.Service.after_cases hsession ht with ⟨hm', -⟩ | ⟨hm', hold'⟩
        · exact hm'.symm
        · exact (oneDriver_act hex hsession hop hfree hm' hold' hdt hds.2).elim
      · rcases Prog.Service.after_cases hsession ht with ⟨hm', hself⟩ | ⟨hm', hold'⟩
        · subst hm' hself
          exact (oneDriver_act hex hsession hop hfree hm hold hds hdt.2).elim
        · exact hex.oneDriver m m' s t e hold hold' hds hdt

end Steps

/-- A happening keeps the site exclusive exactly if it marks freely. -/
theorem exclusive_step {site site' : SiteState α υ} {happening : Prog.Happening Request}
    (hord : D.Orderly site) (hex : Exclusive site)
    (hstep : (D.service env).machine.step site happening = some site') :
    Exclusive site' ↔ MarksFreely site happening := by
  cases happening with
  | come request =>
      obtain ⟨w, harrive, rfl⟩ := Prog.Service.step_come hstep
      constructor
      · intro _ n e heq
        cases heq
      · exact fun _ => (exclusive_come (arrive_eq_some harrive).2).mpr hex
  | act n =>
      obtain ⟨session, o, k, hsession, hop, rfl⟩ := Prog.Service.step_act hstep
      rw [exclusive_act hord hex hsession hop]
      constructor
      · intro hfree n' e heq
        cases heq
        exact hfree e
      · exact fun hfree e => hfree n e rfl

/-- **When one run of an instance is under way at a time**, in any interleaving of launches, calls
of the operator and deliveries: exactly if every execution that is marked STARTED is free then. -/
theorem exclusive_throughout_iff {w : World υ} (hfiled : w.repo.ExecutionsFiled)
    (hone : w.repo.OneActive) (happenings : List (Prog.Happening Request)) :
    (∀ before site, before <+: happenings →
      (D.service env).machine.run (Prog.Service.started w) before = some site → Exclusive site) ↔
    ∀ before happening site site', before ++ [happening] <+: happenings →
      (D.service env).machine.run (Prog.Service.started w) before = some site →
      (D.service env).machine.step site happening = some site' → MarksFreely site happening := by
  have hstart : Exclusive (Prog.Service.started w : SiteState α υ) :=
    ⟨hone, fun _ _ _ _ _ hs => by cases hs⟩
  exact Machine.throughout_iff (fun _ _ _ hord hstep => D.orderly_step env hord hstep)
    (fun _ _ _ hord hex hstep => D.exclusive_step env hord hex hstep)
    (Prog.Service.specified_started hfiled) hstart happenings

theorem exclusive_throughout_iff_import :
    (∀ before site, before <+: launchAndDelivery →
      ((importSite .queued).service (willing [10, 20, 30])).machine.run
        (Prog.Service.started freshWorld) before = some site → Exclusive site) ↔
    ∀ before happening site site', before ++ [happening] <+: launchAndDelivery →
      ((importSite .queued).service (willing [10, 20, 30])).machine.run
        (Prog.Service.started freshWorld) before = some site →
      ((importSite .queued).service (willing [10, 20, 30])).machine.step site happening =
        some site' → MarksFreely site happening :=
  exclusive_throughout_iff _ _ (executionsFiled_new _) (InMemoryJobRepository.oneActive_new _) _

/-- A world with an execution that has failed, and a later one of the same instance. -/
def failedBefore : World Nat :=
  let launched := launchedWorld 0 (splitJob 1)
  let failed := launched.repo.updateJobExecution "r" { status := some .FAILED }
  { launched with repo := (failed.2.createExecutionAtomic 0 "import" "key" []).2 }

/-- The restart of the failed execution is not stopped by the later one. -/
example : (((importSite .direct).service (willing [10, 20, 30])).machine.run
      (Prog.Service.started failedBefore) (.come (.restart "r") :: List.replicate 6 (.act 0))).map
      (fun site => site.shared.repo.executions.values.map (·.status)) =
    some [.STARTED, .STARTING] := by
  decide +kernel

end Deployment

end NestBatch
