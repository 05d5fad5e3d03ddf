import NestBatch.Transport.SiteLedgers

/-!
# Checkpoints in every interleaving

Whatever comes to a site, and in whatever order the operations of its sessions are
performed: persisted checkpoints only move forward, a chunk is handed to a writer
only right behind the persisted checkpoint of its step execution, by the one session
that has begun it, and a session that has found a step execution FAILED passes behind
everything that was checkpointed of it (`checkpoints_in_step`).
-/

namespace NestBatch

variable {α υ : Type}

/-- The ledger that the calls of a session have written. -/
def ledgerOf (calls : Calls α) : Ledger := calls.foldl (fun g c => g.advance c.1 c.2) {}

theorem ledgerOf_snoc (calls : Calls α) (o : Op α) (r : o.Resp) :
    ledgerOf (calls ++ [⟨o, r⟩]) = (ledgerOf calls).advance o r := List.foldl_append

/-- What a session is about to hand to a writer: the context of the chunk. -/
def aboutToWrite (session : SiteSession α) : Option ItemExecutionContext :=
  match session.rest with
  | .op (.user (.write _ _ ctx)) _ => some ctx
  | _ => none

theorem aboutToWrite_eq_some {session : SiteSession α} {ctx : ItemExecutionContext}
    (h : aboutToWrite session = some ctx) :
    ∃ writer items k, session.rest = .op (.user (.write writer items ctx)) k := by
  unfold aboutToWrite at h
  split at h
  · next writer items ctx' k hop =>
      obtain rfl := Option.some.inj h
      exact ⟨writer, items, k, hop⟩
  · cases h

/-- The step executions that an operation reads or moves are those of its own ledger, so it leaves
others alone. -/
theorem Ledger.Allows.leaves {resumes : String → Prop} {g g' : Ledger} {o : Op α}
    (h : g.Allows resumes o)
    (hapart : ∀ id, (g.begun.get? id).isSome = true → g'.begun.get? id = none) : g'.Leaves o := by
  cases o with
  | saveExecutionContext scope ctx =>
      obtain ⟨id, rfl, hopened, -⟩ := h
      exact ⟨id, rfl, hapart id hopened.begun⟩
  | updateStepExecution id patch => exact hapart id h.1.begun
  | _ => trivial

namespace Deployment

variable (D : Deployment) (env : Environment α υ)

/-- What is left of every session keeps to its ledger, the repository bears every ledger out, and
no two sessions have begun one step execution. -/
structure InStep (site : SiteState α υ) : Prop where
  files : site.shared.CheckpointsFiled
  keeps : ∀ (n : Nat) (session : SiteSession α), site.sessions[n]? = some session →
    session.rest.wp (ledgerLogic fun _ => False) (fun _ g => g.Settled) (ledgerOf session.calls)
  right : ∀ (n : Nat) (session : SiteSession α), site.sessions[n]? = some session →
    (ledgerOf session.calls).Right site.shared
  apart : ∀ (m n : Nat) (s t : SiteSession α) (id : String), site.sessions[m]? = some s →
    site.sessions[n]? = some t → ((ledgerOf s.calls).begun.get? id).isSome = true →
    ((ledgerOf t.calls).begun.get? id).isSome = true → m = n

theorem inStep_started {w : World υ} (h : w.CheckpointsFiled) :
    InStep (Prog.Service.started w : SiteState α υ) where
  files := h
  keeps _ _ hsession := by cases hsession
  right _ _ hsession := by cases hsession
  apart _ _ _ _ _ hs := by cases hs

variable {D env} {site site' : SiteState α υ} {happening : Prog.Happening Request}

/-- The checkpoints of a world, from one moment to a later one. -/
def Forward (w w' : World υ) : Prop :=
  ∀ id, nextChunk (w.checkpoint id) ≤ nextChunk (w'.checkpoint id)

/-- A session that comes in has begun nothing. -/
theorem InStep.come (h : InStep site) {request : Request} {w : World υ}
    (hrepo : w.repo = site.shared.repo) :
    InStep ({ shared := w, sessions := site.sessions ++ [(D.service env).opened request] } :
      SiteState α υ) := by
  obtain ⟨repo, clock, uuid, uuidsIssued, queue, user⟩ := w
  change repo = site.shared.repo at hrepo
  subst hrepo
  have hempty {m : Nat} {t : SiteSession α} {id : String}
      (ht : (site.sessions ++ [(D.service env).opened request])[m]? = some t)
      (hbegun : ((ledgerOf t.calls).begun.get? id).isSome = true) :
      site.sessions[m]? = some t := by
    rcases Prog.Service.come_cases ht with hold | ⟨-, rfl⟩
    · exact hold
    · cases hbegun
  refine ⟨⟨h.files.steps, h.files.blank, h.files.reached⟩, fun n t ht => ?_, fun n t ht => ?_,
    fun m n s t id hs ht hbs hbt => h.apart m n s t id (hempty hs hbs) (hempty ht hbt) hbs hbt⟩
  · rcases Prog.Service.come_cases ht with hold | ⟨-, rfl⟩
    · exact h.keeps n t hold
    · exact D.keepsLedger_code request _ Ledger.settled_empty
  · rcases Prog.Service.come_cases ht with hold | ⟨-, rfl⟩
    · have hright := h.right n t hold
      exact { toSound := hright.toSound, filed := hright.filed, checkpoint := hright.checkpoint,
              failed := hright.failed, look := hright.look, begun := hright.begun }
    · exact Ledger.right_empty _

section Act

variable {n : Nat} {session : SiteSession α} {o : Op α} {k : o.Resp → Code α Unit}

/-- The next operation of a session is one that its ledger allows. -/
theorem InStep.allows (h : InStep site) (hsession : site.sessions[n]? = some session)
    (hop : session.rest = .op o k) : (ledgerOf session.calls).Allows (fun _ => False) o := by
  have hkeeps := h.keeps n session hsession
  rw [hop] at hkeeps
  exact hkeeps.1

/-- What a session begins is new to all others. -/
theorem InStep.begins (h : InStep site) {id : String} {r : o.Resp}
    (hr : r = (handle env o site.shared).1) {g : Ledger}
    (hbegun : ((g.advance o r).begun.get? id).isSome = true) :
    (g.begun.get? id).isSome = true ∨ site.shared.repo.stepExecutions.get? id = none := by
  cases o with
  | createStepExecution e name =>
      subst hr
      rw [Ledger.begun_create] at hbegun
      split at hbegun
      · next heq =>
          subst heq
          exact .inr h.files.steps.fresh
      · exact .inl hbegun
  | saveExecutionContext scope ctx => cases scope <;> exact .inl hbegun
  | _ => exact .inl hbegun

/-- **An operation keeps the ledgers and the repository in step.** -/
theorem InStep.act (henv : env.KeepsCheckpoint) (h : InStep site)
    (hsession : site.sessions[n]? = some session) (hop : session.rest = .op o k) :
    InStep ((D.service env).after site n session o k) := by
  have hallowed := h.allows hsession hop
  have hown := h.right n session hsession
  have hnew : ∀ {m : Nat} {t : SiteSession α} {id : String}, m ≠ n →
      site.sessions[m]? = some t → ((ledgerOf t.calls).begun.get? id).isSome = true →
      ((ledgerOf (session.calls ++ [⟨o, (handle env o site.shared).1⟩])).begun.get? id).isSome =
        true → False := by
    intro m t id hm ht hbt hbs
    rw [ledgerOf_snoc] at hbs
    rcases h.begins rfl hbs with hbefore | hfresh
    · exact hm (h.apart m n t session id ht hsession hbt hbefore)
    · have hfiled := (h.right m t ht).filed id hbt
      rw [hfresh] at hfiled
      cases hfiled
  refine ⟨hown.toTells.files henv h.files hallowed, fun m t ht => ?_, fun m t ht => ?_,
    fun m m' s t id hs ht hbs hbt => ?_⟩
  · rcases Prog.Service.after_cases hsession ht with ⟨-, rfl⟩ | ⟨-, hold⟩
    · have hkeeps := h.keeps n session hsession
      rw [hop] at hkeeps
      dsimp only
      rw [ledgerOf_snoc]
      exact hkeeps.2 _ _ ⟨rfl, hown.toTells.answers henv h.files⟩
    · exact h.keeps m t hold
  · rcases Prog.Service.after_cases hsession ht with ⟨-, rfl⟩ | ⟨hm, hold⟩
    · dsimp only
      rw [ledgerOf_snoc]
      exact hown.advance henv h.files hallowed
    · refine (h.right m t hold).other henv h.files.steps (hallowed.leaves fun id hbegun => ?_)
        fun id => hown.toTells.failed_stays henv h.files.steps hallowed
      refine Option.not_isSome_iff_eq_none.mp fun hbt => ?_
      exact hm (h.apart m n t session id hold hsession hbt hbegun)
  · rcases Prog.Service.after_cases hsession hs with ⟨hm, rfl⟩ | ⟨hm, hold⟩
    · rcases Prog.Service.after_cases hsession ht with ⟨hm', -⟩ | ⟨hm', hold'⟩
      · exact hm.trans hm'.symm
      · exact (hnew hm' hold' hbt hbs).elim
    · rcases Prog.Service.after_cases hsession ht with ⟨hm', rfl⟩ | ⟨hm', hold'⟩
      · exact (hnew hm hold hbs hbt).elim
      · exact h.apart m m' s t id hold hold' hbs hbt

/-- An operation moves no checkpoint back. -/
theorem InStep.forward (henv : env.KeepsCheckpoint) (h : InStep site)
    (hsession : site.sessions[n]? = some session) (hop : session.rest = .op o k) :
    Forward site.shared (handle env o site.shared).2 :=
  (h.right n session hsession).toTells.forward henv (h.allows hsession hop)

end Act

/-- Every happening keeps the site in step and its checkpoints going forward. -/
theorem InStep.step (henv : env.KeepsCheckpoint) (h : InStep site)
    (hstep : (D.service env).machine.step site happening = some site') :
    InStep site' ∧ Forward site.shared site'.shared := by
  cases happening with
  | come request =>
      obtain ⟨w, harrive, rfl⟩ := Prog.Service.step_come hstep
      have hrepo := (arrive_eq_some harrive).2
      refine ⟨h.come hrepo, fun id => ?_⟩
      have hcheckpoint : w.checkpoint id = site.shared.checkpoint id := by
        simp only [World.checkpoint, hrepo]
      exact Int.le_of_eq (congrArg nextChunk hcheckpoint.symm)
  | act n =>
      obtain ⟨session, o, k, hsession, hop, rfl⟩ := Prog.Service.step_act hstep
      exact ⟨h.act henv hsession hop, h.forward henv hsession hop⟩

variable (D)

/-- **Checkpoints in every interleaving** of launches, calls of the operator and deliveries.
Between any two moments no persisted checkpoint moves back.  And when a session is about to hand a
chunk to a writer, it is the one right behind the persisted checkpoint of its step execution; no
other session has begun that; and if an execution of the step that had FAILED was found before,
it lies behind the checkpoint of this, too, which nobody moves any more. -/
theorem checkpoints_in_step (henv : env.KeepsCheckpoint) {w : World υ} (h : w.CheckpointsFiled)
    {before after : List (Prog.Happening Request)}
    (hbefore : (D.service env).machine.run (Prog.Service.started w) before = some site)
    (hafter : (D.service env).machine.run site after = some site') :
    Forward site.shared site'.shared ∧
    ∀ (n : Nat) (session : SiteSession α) (ctx : ItemExecutionContext),
      site'.sessions[n]? = some session → aboutToWrite session = some ctx →
      ctx.chunkIndex = nextChunk (site'.shared.checkpoint ctx.stepExecutionId) ∧
      (∀ (m : Nat) (t : SiteSession α), site'.sessions[m]? = some t → m ≠ n →
        (ledgerOf t.calls).begun.get? ctx.stepExecutionId = none) ∧
      ∃ entry, (ledgerOf session.calls).begun.get? ctx.stepExecutionId = some entry ∧
        ∀ prior, entry.prior = some prior → prior.status = .FAILED →
          site'.shared.Failed prior.id ∧
          nextChunk (site'.shared.checkpoint prior.id) ≤ ctx.chunkIndex := by
  have hsite : InStep site := Machine.run_keeps
    (fun _ _ _ hsite hstep => (hsite.step henv hstep).1) (inStep_started h) hbefore
  have hboth : InStep site' ∧ Forward site.shared site'.shared :=
    Machine.run_keeps (P := fun t => InStep t ∧ Forward site.shared t.shared)
      (fun _ _ _ ht hstep => ⟨(ht.1.step henv hstep).1,
        fun id => Int.le_trans (ht.2 id) ((ht.1.step henv hstep).2 id)⟩)
      ⟨hsite, fun _ => Int.le_refl _⟩ hafter
  refine ⟨hboth.2, fun n session ctx hsession hwrite => ?_⟩
  obtain ⟨writer, items, k, hop⟩ := aboutToWrite_eq_some hwrite
  have hright := hboth.1.right n session hsession
  obtain ⟨entry, hentry, hfrom, hindex⟩ :=
    hright.toTells.write_behind (hboth.1.allows hsession hop)
  refine ⟨hindex, fun m t ht hm => ?_, entry, hentry, fun prior hprior hfailed => ?_⟩
  · refine Option.not_isSome_iff_eq_none.mp fun hbt => ?_
    exact hm (hboth.1.apart m n t session _ ht hsession hbt (Option.isSome_of_eq_some hentry))
  · obtain ⟨hstays, hstart⟩ := hright.begun _ entry prior hentry hprior hfailed
    rw [hstart] at hfrom
    exact ⟨hstays, hfrom⟩

/-- A writer that fails at chunk 1. -/
def fullDisk : Environment Nat Nat :=
  listEnvironment [10, 20, 30, 40, 50, 60, 70, 80] fun _ k =>
    if k = 1 then some (.error "disk full") else none

/-- A launch that fails, and its restart up to the moment when it writes. -/
def launchAndRestart : List (Prog.Happening Request) :=
  .come (.launch "import" [] none) :: List.replicate 29 (.act 0) ++
    .come (.restart "r") :: List.replicate 22 (.act 1)

theorem checkpoints_in_step_restart :
    ∃ site session ctx, ((importSite .direct).service fullDisk).machine.run
        (Prog.Service.started freshWorld) launchAndRestart = some site ∧
      site.sessions[1]? = some session ∧ aboutToWrite session = some ctx ∧
      ctx.chunkIndex = nextChunk (site.shared.checkpoint ctx.stepExecutionId) := by
  have hwrites : ((((importSite .direct).service fullDisk).machine.run
      (Prog.Service.started freshWorld) launchAndRestart).bind fun site =>
        (site.sessions[1]?).bind aboutToWrite).isSome = true := by decide +kernel
  obtain ⟨ctx, hctx⟩ := Option.isSome_iff_exists.mp hwrites
  obtain ⟨site, hrun, hsome⟩ := Option.bind_eq_some_iff.mp hctx
  obtain ⟨session, hsession, hwrite⟩ := Option.bind_eq_some_iff.mp hsome
  have hstay : ((importSite .direct).service fullDisk).machine.run site [] = some site := rfl
  have hstep := checkpoints_in_step (importSite .direct) (listEnvironment_keepsCheckpoint _ _)
    (checkpointsFiled_initial _ _ 0) hrun hstay
  exact ⟨site, session, ctx, hrun, hsession, hwrite, (hstep.2 1 session ctx hsession hwrite).1⟩

end Deployment

end NestBatch
