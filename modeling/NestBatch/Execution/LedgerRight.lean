import NestBatch.Execution.RunLedger
import NestBatch.Repository.ExecutionRows

/-!
# The ledger and the repository

A ledger is right when the repository bears it out: the step executions that it has
begun are on file with the checkpoints that it has saved last, as FAILED only where
it has declared them so, and what it takes over is the checkpoint of a step execution
on file as FAILED.  What is done by the rules of a ledger leaves it right
(`Ledger.Right.advance`), and so does what others do to step executions of their own
(`Ledger.Right.other`).
-/

namespace NestBatch

variable {α β υ : Type}

/-- Step executions are filed in order, checkpoints are those of step executions on file, and none
is before the first chunk. -/
structure World.CheckpointsFiled (w : World υ) : Prop where
  steps : w.repo.StepsFiled
  blank : ∀ id, w.repo.stepExecutions.get? id = none → w.checkpoint id = none
  reached : ∀ id, 0 ≤ nextChunk (w.checkpoint id)

/-- A step execution is on file as FAILED. -/
def World.Failed (w : World υ) (id : String) : Prop :=
  ∃ row, w.repo.stepExecutions.get? id = some row ∧ row.status = .FAILED

theorem checkpointsFiled_initial (idGen uuid : IdGenerator) (user : υ) :
    (World.initial idGen uuid user).CheckpointsFiled where
  steps := (InMemoryJobRepository.filed_new idGen "").steps
  blank _ _ := rfl
  reached _ := Int.le_refl 0

section Operations

variable {env : Environment α υ} {w : World υ} {o : Op α}

/-- The rows of the steps after an operation that neither creates nor updates one. -/
theorem stepExecutions_handle (env : Environment α υ) (hcreate : o.kind ≠ .createStep)
    (hupdate : o.kind ≠ .updateStep) (w : World υ) :
    (handle env o w).2.repo.stepExecutions = w.repo.stepExecutions := by
  cases o with
  | createExecutionAtomic name jobKey params =>
      exact (w.repo.createExecutionAtomic_frame w.clock name jobKey params).1
  | updateJobExecution e patch =>
      change (w.repo.updateJobExecution e patch).2.stepExecutions = _
      unfold InMemoryJobRepository.updateJobExecution
      split
      · rfl
      · rfl
  | createStepExecution => exact absurd rfl hcreate
  | updateStepExecution => exact absurd rfl hupdate
  | user call =>
      exact (handle_sameRows env (by cases call <;> simp [rowKinds, Op.kind, UserCall.kind])
        w).stepExecutions
  | _ => exact (handle_sameRows env (by simp [rowKinds, Op.kind]) w).stepExecutions

/-- The row of a step after an update of one. -/
theorem stepRow_updated (repo : InMemoryJobRepository) (updated : String)
    (patch : StepExecutionPatch) (id : String) :
    (repo.updateStepExecution updated patch).2.stepExecutions.get? id =
      (repo.stepExecutions.get? id).map
        fun row => if id = updated then patch.applyTo row else row := by
  unfold InMemoryJobRepository.updateStepExecution
  split
  · next hnone =>
      by_cases heq : id = updated
      · rw [heq, hnone]
        rfl
      · simp only [if_neg heq, Option.map_id']
  · next cur hcur =>
      dsimp only
      rw [JsMap.get?_set]
      split
      · next heq =>
          rw [heq, hcur]
          rfl
      · exact Option.map_id'.symm

/-- A launch keeps the step rows filed. -/
theorem stepsFiled_launch {repo : InMemoryJobRepository} (h : repo.StepsFiled) (now : Time)
    (name jobKey : String) (params : JobParameters) :
    (repo.createExecutionAtomic now name jobKey params).2.StepsFiled := by
  have hinst : (repo.getOrCreateJobInstance now name jobKey).2.StepsFiled := by
    unfold InMemoryJobRepository.getOrCreateJobInstance
    split
    · exact h
    · exact h.of_issued rfl (Nat.le_succ _) rfl
  unfold InMemoryJobRepository.createExecutionAtomic
  dsimp only
  split
  · exact hinst
  · exact hinst.of_issued rfl (Nat.le_succ _) rfl

/-- No operation files step executions wrongly. -/
theorem stepsFiled_handle (env : Environment α υ) (o : Op α) {w : World υ}
    (h : w.repo.StepsFiled) : (handle env o w).2.repo.StepsFiled := by
  cases o with
  | createExecutionAtomic name jobKey params => exact stepsFiled_launch h w.clock name jobKey params
  | updateJobExecution e patch =>
      change (w.repo.updateJobExecution e patch).2.StepsFiled
      unfold InMemoryJobRepository.updateJobExecution
      split
      · exact h
      · exact h.of_issued rfl (Nat.le_refl _) rfl
  | createStepExecution e name => exact h.create e name
  | updateStepExecution id patch => exact h.update id patch
  | user call =>
      exact (handle_sameRows env (by cases call <;> simp [rowKinds, Op.kind, UserCall.kind])
        w).stepsFiled h
  | _ => exact (handle_sameRows env (by simp [rowKinds, Op.kind]) w).stepsFiled h

/-- Which step executions are on file after an operation. -/
theorem stepFiled_handle (env : Environment α υ) (o : Op α) (w : World υ) {id : String}
    (h : (w.repo.stepExecutions.get? id).isSome = true) :
    ((handle env o w).2.repo.stepExecutions.get? id).isSome = true := by
  by_cases hcreate : o.kind = .createStep
  · cases o with
    | createStepExecution e name =>
        change ((w.repo.stepExecutions.set _ _).get? id).isSome = true
        rw [JsMap.get?_set]
        split
        · rfl
        · exact h
    | user call => cases call <;> cases hcreate
    | _ => cases hcreate
  · by_cases hupdate : o.kind = .updateStep
    · cases o with
      | updateStepExecution updated patch =>
          change ((w.repo.updateStepExecution updated patch).2.stepExecutions.get? id).isSome = _
          rw [stepRow_updated, Option.isSome_map]
          exact h
      | user call => cases call <;> cases hupdate
      | _ => cases hupdate
    · rw [stepExecutions_handle env hcreate hupdate]
      exact h

/-- What a save does to the persisted checkpoints. -/
theorem checkpoint_saved (env : Environment α υ) (w : World υ) (id : String)
    (ctx : ExecutionContext) (id' : String) :
    (handle env (.saveExecutionContext (.stepExecutionId id) ctx) w).2.checkpoint id' =
      if id' = id then readLastCheckpoint ctx else w.checkpoint id' := by
  change readLastCheckpoint ((w.repo.saveExecutionContext (.stepExecutionId id)
    ctx).getExecutionContext (.stepExecutionId id')) = _
  split
  · next heq =>
      subst heq
      exact checkpoint_save_self _ _ _
  · next hne =>
      rw [InMemoryJobRepository.getExecutionContext_save_of_ne _ _ (by simpa using hne)]
      rfl

/-- Checkpoints stay in order while they are saved for step executions on file. -/
theorem World.CheckpointsFiled.handle (henv : env.KeepsCheckpoint) (h : w.CheckpointsFiled)
    (hsave : ∀ scope ctx, o = .saveExecutionContext scope ctx → ∃ id,
      scope = .stepExecutionId id ∧ (w.repo.stepExecutions.get? id).isSome = true ∧
        0 ≤ nextChunk (readLastCheckpoint ctx)) :
    (handle env o w).2.CheckpointsFiled := by
  have hblank (id : String) (hnone : (NestBatch.handle env o w).2.repo.stepExecutions.get? id =
      none) : w.repo.stepExecutions.get? id = none := by
    cases hrow : w.repo.stepExecutions.get? id with
    | none => rfl
    | some row =>
        have hkept := stepFiled_handle env o w (Option.isSome_of_eq_some hrow)
        rw [hnone] at hkept
        cases hkept
  have hsteps := stepsFiled_handle env o h.steps
  by_cases hkind : o.kind = .saveContext
  · cases o with
    | saveExecutionContext scope ctx =>
        obtain ⟨id, rfl, hfiled, hreached⟩ := hsave scope ctx rfl
        refine ⟨hsteps, fun id' hnone => ?_, fun id' => ?_⟩
        · rw [checkpoint_saved, if_neg]
          · exact h.blank id' (hblank id' hnone)
          · intro heq
            rw [← heq, hblank id' hnone] at hfiled
            cases hfiled
        · rw [checkpoint_saved]
          split
          · exact hreached
          · exact h.reached id'
    | user call => cases call <;> cases hkind
    | _ => cases hkind
  · refine ⟨hsteps, fun id hnone => ?_, fun id => ?_⟩
    · rw [checkpoint_handle henv hkind]
      exact h.blank id (hblank id hnone)
    · rw [checkpoint_handle henv hkind]
      exact h.reached id

end Operations

/-! ### The ledger and the world -/

namespace Ledger

variable {env : Environment α υ} {w w' : World υ} {g : Ledger} {o : Op α}
  {resumes : String → Prop}

/-- The operations keep a ledger sound. -/
theorem Sound.advance (h : g.Sound) (hallowed : g.Allows resumes o) (r : o.Resp) :
    (g.advance o r).Sound := by
  have hlook (look : Option Look) : ({ g with look := look } : Ledger).Sound :=
    ⟨h.blank, h.reached⟩
  cases o with
  | saveExecutionContext scope ctx =>
      obtain ⟨id, rfl, hopened, hforward⟩ := hallowed
      exact h.save hopened.begun (Int.le_trans (h.reached id) hforward)
  | createStepExecution e name =>
      refine ⟨fun id hnone => h.blank id ?_, h.reached⟩
      have hset : (g.begun.set r.id g.entry).get? id = none := hnone
      rw [JsMap.get?_set] at hset
      split at hset
      · cases hset
      · exact hset
  | updateStepExecution id patch =>
      change ({ g with look := none, closed := if patch.status = some .FAILED then
        id :: g.closed else g.closed } : Ledger).Sound
      split
      · exact h.close hallowed.1.begun
      · exact hlook none
  | _ => exact hlook _

/-- The step executions begun are on file, with the checkpoints that the ledger has saved, and as
FAILED only where it has declared them so. -/
structure Tells (g : Ledger) (w : World υ) : Prop extends Sound g where
  filed : ∀ id, (g.begun.get? id).isSome = true → (w.repo.stepExecutions.get? id).isSome = true
  checkpoint : ∀ id, (g.begun.get? id).isSome = true → w.checkpoint id = g.checkpoint id
  failed : ∀ id, (g.begun.get? id).isSome = true → w.Failed id → id ∈ g.closed

/-- An operation leaves the step executions of a ledger alone. -/
def Leaves (g : Ledger) : Op α → Prop
  | .saveExecutionContext scope _ => ∃ id, scope = .stepExecutionId id ∧ g.begun.get? id = none
  | .updateStepExecution id _ => g.begun.get? id = none
  | _ => True

/-- A step execution that is on file as FAILED after an operation has been so before, or is
declared to be. -/
theorem failed_handle {id : String} (h : (w.repo.stepExecutions.get? id).isSome = true)
    (hsteps : w.repo.StepsFiled) (hfailed : (handle env o w).2.Failed id) :
    w.Failed id ∨ ∃ patch, o = .updateStepExecution id patch ∧ patch.status = some .FAILED := by
  obtain ⟨row, hrow, hstatus⟩ := hfailed
  by_cases hcreate : o.kind = .createStep
  · cases o with
    | createStepExecution e name =>
        have hset : (w.repo.stepExecutions.set w.repo.nextId _).get? id = some row := hrow
        rw [JsMap.get?_set_of_ne] at hset
        · exact .inl ⟨row, hset, hstatus⟩
        · intro heq
          rw [heq, hsteps.fresh] at h
          cases h
    | user call => cases call <;> cases hcreate
    | _ => cases hcreate
  · by_cases hupdate : o.kind = .updateStep
    · cases o with
      | updateStepExecution updated patch =>
          change (w.repo.updateStepExecution updated patch).2.stepExecutions.get? id = _ at hrow
          rw [stepRow_updated] at hrow
          obtain ⟨cur, hcur, rfl⟩ := Option.map_eq_some_iff.mp hrow
          by_cases heq : id = updated
          · subst heq
            rw [if_pos rfl] at hstatus
            cases hpatch : patch.status with
            | none =>
                refine .inl ⟨cur, hcur, ?_⟩
                simpa [StepExecutionPatch.applyTo, hpatch] using hstatus
            | some status =>
                refine .inr ⟨patch, rfl, ?_⟩
                have hsame : status = .FAILED := by
                  simpa [StepExecutionPatch.applyTo, hpatch] using hstatus
                rw [hpatch, hsame]
          · rw [if_neg heq] at hstatus
            exact .inl ⟨cur, hcur, hstatus⟩
      | user call => cases call <;> cases hupdate
      | _ => cases hupdate
    · rw [stepExecutions_handle env hcreate hupdate] at hrow
      exact .inl ⟨row, hrow, hstatus⟩

/-- What leaves the step executions of a ledger alone leaves it right. -/
theorem Tells.other (henv : env.KeepsCheckpoint) (h : g.Tells w) (hsteps : w.repo.StepsFiled)
    (hleaves : g.Leaves o) : g.Tells (handle env o w).2 := by
  refine { toSound := h.toSound, filed := fun id hbegun => stepFiled_handle env o w
             (h.filed id hbegun), checkpoint := fun id hbegun => ?_,
           failed := fun id hbegun hfailed => ?_ }
  · by_cases hkind : o.kind = .saveContext
    · cases o with
      | saveExecutionContext scope ctx =>
          obtain ⟨saved, rfl, hnone⟩ := hleaves
          rw [checkpoint_saved, if_neg]
          · exact h.checkpoint id hbegun
          · intro heq
            rw [heq, hnone] at hbegun
            cases hbegun
      | user call => cases call <;> cases hkind
      | _ => cases hkind
    · rw [checkpoint_handle henv hkind]
      exact h.checkpoint id hbegun
  · rcases failed_handle (h.filed id hbegun) hsteps hfailed with hbefore | ⟨patch, rfl, -⟩
    · exact h.failed id hbegun hbefore
    · rw [show g.begun.get? id = none from hleaves] at hbegun
      cases hbegun

/-- A new step execution is in no ledger. -/
theorem Tells.fresh (h : g.Tells w) (hsteps : w.repo.StepsFiled) :
    g.begun.get? w.repo.nextId = none := by
  refine Option.not_isSome_iff_eq_none.mp fun hbegun => ?_
  have hfiled := h.filed _ hbegun
  rw [hsteps.fresh] at hfiled
  cases hfiled

/-- The world answers as the ledger expects. -/
theorem Tells.answers (henv : env.KeepsCheckpoint) (h : g.Tells w)
    (hfiles : w.CheckpointsFiled) : g.Answers o (handle env o w).1 := by
  cases o with
  | user call =>
      cases call with
      | updateStream stream ctx =>
          change Progress.handedOn ctx (handle env (.user (.updateStream stream ctx)) w).1 = true
          cases hanswer : (handle env (.user (.updateStream stream ctx)) w).1 with
          | error err => rfl
          | ok ctx' =>
              simpa [Progress.handedOn] using henv.streams stream w.user ctx _ ctx' hanswer
      | _ => trivial
  | createStepExecution e name => exact h.fresh hfiles.steps
  | getExecutionContext scope =>
      cases scope with
      | stepExecutionId id => exact hfiles.reached id
      | jobExecutionId e => trivial
  | _ => trivial

/-- What is begun after an operation. -/
theorem begun_create (g : Ledger) (e name : String)
    (row : (Op.createStepExecution e name : Op α).Resp) (id : String) :
    (g.advance (.createStepExecution e name : Op α) row).begun.get? id =
      if id = row.id then some g.entry else g.begun.get? id := JsMap.get?_set _ _ _ _

/-- What is done by the rules of a ledger leaves it right. -/
theorem Tells.advance (henv : env.KeepsCheckpoint) (h : g.Tells w) (hfiles : w.CheckpointsFiled)
    (hallowed : g.Allows resumes o) :
    (g.advance o (handle env o w).1).Tells (handle env o w).2 := by
  have hsound := h.toSound.advance hallowed (handle env o w).1
  have hkept (hleaves : g.Leaves o) : g.Tells (handle env o w).2 :=
    h.other henv hfiles.steps hleaves
  cases o with
  | saveExecutionContext scope ctx =>
      obtain ⟨id, rfl, hopened, hforward⟩ := hallowed
      refine { toSound := hsound, filed := h.filed, checkpoint := fun id' hbegun => ?_,
               failed := h.failed }
      rw [checkpoint_saved]
      refine Eq.trans ?_ (g.checkpoint_save id (readLastCheckpoint ctx) id').symm
      split
      · rfl
      · exact h.checkpoint id' hbegun
  | createStepExecution e name =>
      have hfresh := h.fresh hfiles.steps
      have hold := hkept trivial
      refine { toSound := hsound, filed := fun id hbegun => ?_, checkpoint := fun id hbegun => ?_,
               failed := fun id hbegun hfailed => ?_ }
      · rw [begun_create] at hbegun
        split at hbegun
        · next heq =>
            subst heq
            exact Option.isSome_of_eq_some (JsMap.get?_set_self _ _ _)
        · exact hold.filed id hbegun
      · rw [begun_create] at hbegun
        split at hbegun
        · next heq =>
            subst heq
            exact (hfiles.blank _ hfiles.steps.fresh).trans (h.blank _ hfresh).1.symm
        · exact hold.checkpoint id hbegun
      · rw [begun_create] at hbegun
        split at hbegun
        · next heq =>
            subst heq
            obtain ⟨row, hrow, hstatus⟩ := hfailed
            have hcreated := (JsMap.get?_set_self _ _ _).symm.trans hrow
            obtain rfl := Option.some.inj hcreated
            cases hstatus
        · exact hold.failed id hbegun hfailed
  | updateStepExecution id patch =>
      refine { toSound := hsound, filed := fun id' hbegun => stepFiled_handle env _ w
                 (h.filed id' hbegun), checkpoint := fun id' hbegun => ?_,
               failed := fun id' hbegun hfailed => ?_ }
      · rw [checkpoint_handle henv (by simp [Op.kind])]
        exact h.checkpoint id' hbegun
      · change id' ∈ (if patch.status = some .FAILED then id :: g.closed else g.closed)
        rcases failed_handle (h.filed id' hbegun) hfiles.steps hfailed with hbefore | hdeclared
        · have hclosed := h.failed id' hbegun hbefore
          split
          · exact List.mem_cons_of_mem _ hclosed
          · exact hclosed
        · obtain ⟨declared, heq, hstatus⟩ := hdeclared
          cases heq
          rw [if_pos hstatus]
          exact List.mem_cons_self
  | _ =>
      have hsame := hkept trivial
      exact { toSound := hsound, filed := hsame.filed, checkpoint := hsame.checkpoint,
              failed := hsame.failed }

/-- **What has been declared FAILED is left alone**: an operation by the rules of any ledger that
is right moves neither its status nor its checkpoint. -/
theorem Tells.failed_stays (henv : env.KeepsCheckpoint) (h : g.Tells w)
    (hsteps : w.repo.StepsFiled) (hallowed : g.Allows resumes o) {id : String}
    (hfailed : w.Failed id) :
    (handle env o w).2.Failed id ∧ (handle env o w).2.checkpoint id = w.checkpoint id := by
  have hne {id' : String} (hopened : g.Opened id') : id ≠ id' := by
    intro heq
    subst heq
    exact hopened.opened (h.failed id hopened.begun hfailed)
  obtain ⟨row, hrow, hstatus⟩ := hfailed
  constructor
  · by_cases hcreate : o.kind = .createStep
    · cases o with
      | createStepExecution e name =>
          refine ⟨row, ?_, hstatus⟩
          change (w.repo.stepExecutions.set w.repo.nextId _).get? id = some row
          rw [JsMap.get?_set_of_ne]
          · exact hrow
          · intro heq
            rw [heq, hsteps.fresh] at hrow
            cases hrow
      | user call => cases call <;> cases hcreate
      | _ => cases hcreate
    · by_cases hupdate : o.kind = .updateStep
      · cases o with
        | updateStepExecution updated patch =>
            refine ⟨row, ?_, hstatus⟩
            change (w.repo.updateStepExecution updated patch).2.stepExecutions.get? id = some row
            rw [stepRow_updated, hrow, Option.map_some, if_neg (hne hallowed.1)]
        | user call => cases call <;> cases hupdate
        | _ => cases hupdate
      · exact ⟨row, by rw [stepExecutions_handle env hcreate hupdate]; exact hrow, hstatus⟩
  · by_cases hkind : o.kind = .saveContext
    · cases o with
      | saveExecutionContext scope ctx =>
          obtain ⟨saved, rfl, hopened, -⟩ := hallowed
          rw [checkpoint_saved, if_neg (hne hopened)]
      | user call => cases call <;> cases hkind
      | _ => cases hkind
    · exact checkpoint_handle henv hkind w id

/-- **Checkpoints move only forward** by the rules of a ledger that is right. -/
theorem Tells.forward (henv : env.KeepsCheckpoint) (h : g.Tells w) (hallowed : g.Allows resumes o)
    (id : String) :
    nextChunk (w.checkpoint id) ≤ nextChunk ((handle env o w).2.checkpoint id) := by
  by_cases hkind : o.kind = .saveContext
  · cases o with
    | saveExecutionContext scope ctx =>
        obtain ⟨saved, rfl, hopened, hforward⟩ := hallowed
        rw [checkpoint_saved]
        split
        · next heq =>
            subst heq
            rw [h.checkpoint id hopened.begun]
            exact hforward
        · exact Int.le_refl _
    | user call => cases call <;> cases hkind
    | _ => cases hkind
  · exact Int.le_of_eq (congrArg nextChunk (checkpoint_handle henv hkind w id).symm)

/-- What is taken over, or about to be, is the checkpoint of a step execution on file as FAILED. -/
structure TakesOver (g : Ledger) (w : World υ) : Prop where
  look : ∀ look prior, g.look = some look → look.prior = some prior → prior.status = .FAILED →
    w.Failed prior.id ∧
      ∀ ctx, look.context = some ctx → readLastCheckpoint ctx = w.checkpoint prior.id
  begun : ∀ id entry prior, g.begun.get? id = some entry → entry.prior = some prior →
    prior.status = .FAILED → w.Failed prior.id ∧ entry.start = w.checkpoint prior.id

/-- What is FAILED stays as it is from one world to the next. -/
def FailedStays (w w' : World υ) : Prop :=
  ∀ id, w.Failed id → w'.Failed id ∧ w'.checkpoint id = w.checkpoint id

/-- A take-over lasts while failed steps stay. -/
theorem TakesOver.stays (h : g.TakesOver w) (hstays : FailedStays w w') : g.TakesOver w' where
  look look prior hlook hprior hstatus := by
    obtain ⟨hfailed, hread⟩ := h.look look prior hlook hprior hstatus
    obtain ⟨hfailed', hsame⟩ := hstays prior.id hfailed
    exact ⟨hfailed', fun ctx hctx => (hread ctx hctx).trans hsame.symm⟩
  begun id entry prior hentry hprior hstatus := by
    obtain ⟨hfailed, hstart⟩ := h.begun id entry prior hentry hprior hstatus
    obtain ⟨hfailed', hsame⟩ := hstays prior.id hfailed
    exact ⟨hfailed', hstart.trans hsame.symm⟩

/-- Nothing is looked for any more. -/
theorem TakesOver.settled (h : g.TakesOver w) {saved : JsMap String (Option Int)}
    {closed : List String} :
    ({ g with look := none, saved := saved, closed := closed } : Ledger).TakesOver w where
  look _ _ hlook := by cases hlook
  begun := h.begun

/-- What is done by the rules of a ledger takes over what it should. -/
theorem TakesOver.advance (h : g.TakesOver w) (hsteps : w.repo.StepsFiled)
    (hallowed : g.Allows resumes o)
    (hstays : FailedStays w (handle env o w).2) :
    (g.advance o (handle env o w).1).TakesOver (handle env o w).2 := by
  have hkept := h.stays hstays
  cases o with
  | findLatestStepExecution e name =>
      refine { look := fun look prior hlook hprior hstatus => ?_, begun := h.begun }
      obtain rfl := Option.some.inj hlook
      have hlatest : w.repo.findLatestStepExecution e name = some prior := hprior
      refine ⟨⟨prior, ?_, hstatus⟩, fun _ hctx => by cases hctx⟩
      exact InMemoryJobRepository.get?_of_findLatest hsteps hlatest
  | getExecutionContext scope =>
      refine { look := fun look prior hlook hprior hstatus => ?_, begun := h.begun }
      change g.look.map (·.read scope (w.repo.getExecutionContext scope)) = some look at hlook
      obtain ⟨before, hbefore, rfl⟩ := Option.map_eq_some_iff.mp hlook
      have hsame : before.prior = some prior := by
        rw [← hprior]
        unfold Look.read
        split
        · rfl
        · rfl
      obtain ⟨hfailed, hread⟩ := h.look before prior hbefore hsame hstatus
      refine ⟨hfailed, fun ctx hctx => ?_⟩
      unfold Look.read at hctx
      split at hctx
      · next hscope =>
          rw [hsame] at hscope
          obtain rfl := Option.some.inj hscope
          obtain rfl := Option.some.inj hctx
          rfl
      · exact hread ctx hctx
  | createStepExecution e name =>
      refine { look := fun _ _ hlook => by cases hlook
               begun := fun id entry prior hentry hprior hstatus => ?_ }
      rw [begun_create] at hentry
      split at hentry
      · -- the context has been read of what was found
        obtain rfl := Option.some.inj hentry
        obtain ⟨look, hlook, hfound⟩ := Option.bind_eq_some_iff.mp hprior
        obtain ⟨hfailed, hread⟩ := hkept.look look prior hlook hfound hstatus
        obtain ⟨ctx, hctx⟩ :=
          Option.isSome_iff_exists.mp (hallowed.1 look prior hlook hfound hstatus)
        refine ⟨hfailed, ?_⟩
        change (g.look.bind (·.context)).bind readLastCheckpoint = _
        rw [hlook, Option.bind_some, hctx]
        exact hread ctx hctx
      · exact hkept.begun id entry prior hentry hprior hstatus
  | saveExecutionContext scope ctx =>
      cases scope with
      | stepExecutionId id => exact hkept.settled
      | jobExecutionId e => exact hkept.settled
  | _ => exact hkept.settled

/-- A ledger that is right, and takes over what it should. -/
structure Right (g : Ledger) (w : World υ) : Prop extends Tells g w, TakesOver g w

/-- A ledger that is right stays so by its own call. -/
theorem Right.advance (henv : env.KeepsCheckpoint) (h : g.Right w) (hfiles : w.CheckpointsFiled)
    (hallowed : g.Allows resumes o) :
    (g.advance o (handle env o w).1).Right (handle env o w).2 where
  toTells := h.toTells.advance henv hfiles hallowed
  toTakesOver := h.toTakesOver.advance hfiles.steps hallowed fun _ =>
    h.toTells.failed_stays henv hfiles.steps hallowed

/-- A ledger that is right stays so by another's call. -/
theorem Right.other (henv : env.KeepsCheckpoint) (h : g.Right w) (hsteps : w.repo.StepsFiled)
    (hleaves : g.Leaves o) (hstays : FailedStays w (handle env o w).2) :
    g.Right (handle env o w).2 where
  toTells := h.toTells.other henv hsteps hleaves
  toTakesOver := h.toTakesOver.stays hstays

theorem right_empty (w : World υ) : ({} : Ledger).Right w where
  toSound := settled_empty.toSound
  filed _ hbegun := by cases hbegun
  checkpoint _ hbegun := by cases hbegun
  failed _ hbegun := by cases hbegun
  look _ _ hlook := by cases hlook
  begun _ _ _ hbegun := by cases hbegun

/-- Checkpoints stay in order where ledgers are kept to. -/
theorem Tells.files (henv : env.KeepsCheckpoint) (h : g.Tells w) (hfiles : w.CheckpointsFiled)
    (hallowed : g.Allows resumes o) : (handle env o w).2.CheckpointsFiled := by
  refine hfiles.handle henv fun scope ctx heq => ?_
  subst heq
  obtain ⟨id, rfl, hopened, hforward⟩ := hallowed
  exact ⟨id, rfl, h.filed id hopened.begun, Int.le_trans (h.toSound.reached id) hforward⟩

/-- What a step execution has begun with stays what it was. -/
theorem begun_advance {o : Op α} {r : o.Resp} (hanswers : g.Answers o r) {id : String}
    {entry : Begun} (h : g.begun.get? id = some entry) :
    (g.advance o r).begun.get? id = some entry := by
  cases o with
  | createStepExecution e name =>
      rw [begun_create, if_neg]
      · exact h
      · intro heq
        rw [heq, show g.begun.get? r.id = none from hanswers] at h
        cases h
  | saveExecutionContext scope ctx => cases scope <;> exact h
  | _ => exact h

/-- What a write shows of the ledger. -/
theorem Tells.write_behind (h : g.Tells w) {writer : Handle} {items : List α}
    {ctx : ItemExecutionContext}
    (hallowed : g.Allows resumes (.user (.write writer items ctx))) :
    ∃ entry, g.begun.get? ctx.stepExecutionId = some entry ∧
      nextChunk entry.start ≤ ctx.chunkIndex ∧
      ctx.chunkIndex = nextChunk (w.checkpoint ctx.stepExecutionId) := by
  obtain ⟨-, entry, hentry, hfrom, hindex⟩ := hallowed
  refine ⟨entry, hentry, hfrom, ?_⟩
  rw [h.checkpoint _ (Option.isSome_of_eq_some hentry), hindex]

end Ledger

end NestBatch
