import NestBatch.Execution.StepFootprint
import NestBatch.Repository.StepRows

/-!
# What the operations do to the repository

The logic of a world with its calls, and the frames of the operations in it:
four kinds of operation touch rows of the repository, the others leave all of
them alone.
-/

namespace NestBatch

open ListenerInvoker

variable {α β υ : Type}

/-- The calls a program has made, oldest first. -/
abbrev Calls (α : Type) := List (Prog.Call (Op α) Op.Resp)

/-- The logic of the operations as they are, with the calls written down. -/
def worldLogic (env : Environment α υ) : Prog.Logic (Op α) Op.Resp (World υ × Calls α) :=
  (handle env).traced.logic fun _ _ => True

/-- A call of user code is answered by the environment on some context. -/
theorem handleUser_env (env : Environment α υ) (call : UserCall α) (w : World υ) :
    ∃ ctx, (handleUser env call w).1 = (env.user call w.user ctx).1 ∧
      (handleUser env call w).2.user = (env.user call w.user ctx).2.1 := by
  unfold handleUser
  cases call.stepScope with
  | none => exact ⟨_, rfl, rfl⟩
  | some id => exact ⟨_, rfl, rfl⟩

/-- An operation that calls no user code and no broker leaves both alone. -/
theorem handle_user_of_kind {env : Environment α υ} {o : Op α} (huser : ∀ call, o ≠ .user call)
    (henqueue : ∀ payload, o ≠ .enqueue payload) (w : World υ) :
    (handle env o w).2.user = w.user := by
  cases o with
  | user call => exact absurd rfl (huser call)
  | enqueue payload => exact absurd rfl (henqueue payload)
  | _ => rfl

/-- The kinds of operation that touch a row of an execution or of a step. -/
def rowKinds : List OpKind := [.createExecution, .updateJob, .createStep, .updateStep]

/-- The rows and the ids issued are the same. -/
structure InMemoryJobRepository.SameRows (repo repo' : InMemoryJobRepository) : Prop where
  idGen : repo'.idGen = repo.idGen
  issued : repo'.issued = repo.issued
  instances : repo'.instances = repo.instances
  executions : repo'.executions = repo.executions
  stepExecutions : repo'.stepExecutions = repo.stepExecutions

namespace InMemoryJobRepository.SameRows

variable {repo repo' repo'' : InMemoryJobRepository}

theorem refl (repo : InMemoryJobRepository) : SameRows repo repo := ⟨rfl, rfl, rfl, rfl, rfl⟩

theorem trans (h : SameRows repo repo') (h' : SameRows repo' repo'') : SameRows repo repo'' :=
  ⟨h'.idGen.trans h.idGen, h'.issued.trans h.issued, h'.instances.trans h.instances,
    h'.executions.trans h.executions, h'.stepExecutions.trans h.stepExecutions⟩

/-- Rows that are the same are filed the same. -/
theorem stepsFiled (h : SameRows repo repo') (hfiled : repo.StepsFiled) : repo'.StepsFiled where
  own id step hget := hfiled.own id step (h.stepExecutions ▸ hget)
  issued id step hget := by
    rw [h.stepExecutions] at hget
    rw [h.idGen, h.issued]
    exact hfiled.issued id step hget

/-- Where the rows are the same, so is the latest execution of a step. -/
theorem findLatest (h : SameRows repo repo') (e name : String) :
    repo'.findLatestStepExecution e name = repo.findLatestStepExecution e name := by
  unfold findLatestStepExecution
  rw [h.stepExecutions]

theorem getJobExecution (h : SameRows repo repo') (e : String) :
    repo'.getJobExecution e = repo.getJobExecution e := by
  unfold InMemoryJobRepository.getJobExecution
  rw [h.executions]

end InMemoryJobRepository.SameRows

/-- Saving contexts leaves the rows alone. -/
theorem sameRows_saveAll (scope : ExecutionScope) (saves : List JsonValue)
    (repo : InMemoryJobRepository) : repo.SameRows (World.saveAll repo scope saves) := by
  induction saves generalizing repo with
  | nil => exact .refl repo
  | cons data rest ih =>
      have hsave : repo.SameRows (repo.saveExecutionContext scope { data := data, version := 0 }) :=
        ⟨rfl, rfl, rfl, rfl, rfl⟩
      exact hsave.trans (ih _)

/-- Only the row operations touch rows. -/
theorem handle_sameRows (env : Environment α υ) {o : Op α} (ho : o.kind ∉ rowKinds) (w : World υ) :
    w.repo.SameRows (handle env o w).2.repo := by
  cases o with
  | createExecutionAtomic => exact absurd (by simp [rowKinds, Op.kind]) ho
  | updateJobExecution => exact absurd (by simp [rowKinds, Op.kind]) ho
  | createStepExecution => exact absurd (by simp [rowKinds, Op.kind]) ho
  | updateStepExecution => exact absurd (by simp [rowKinds, Op.kind]) ho
  | user call =>
      change w.repo.SameRows (handleUser env call w).2.repo
      unfold handleUser
      cases call.stepScope with
      | none => exact .refl _
      | some id => exact sameRows_saveAll _ _ _
  | enqueue payload =>
      simp only [handle]
      split
      · exact .refl _
      · exact .refl _
  | _ => exact ⟨rfl, rfl, rfl, rfl, rfl⟩

/-- Operations that touch no row keep what is said of the rows. -/
theorem world_frame (env : Environment α υ) {K : List OpKind} {loops : Prop}
    (h : ∀ k ∈ K, k ∉ rowKinds) (repo : InMemoryJobRepository) :
    (worldLogic env).Frame (On K loops) (fun s => repo.SameRows s.1.repo) where
  guard _ _ _ _ := trivial
  keep o s r s' ho hs ht := by
    cases ht
    exact hs.trans (handle_sameRows env (h _ ho) s.1)
  loops _ := trivial

/-- Only a launch files a new execution. -/
theorem absent_frame (env : Environment α υ) {K : List OpKind} {loops : Prop}
    (h : .createExecution ∉ K) (e : String) :
    (worldLogic env).Frame (On K loops) (fun s => s.1.repo.getJobExecution e = none) where
  guard _ _ _ _ := trivial
  keep o s r s' ho hs ht := by
    cases ht
    have hkind : o.kind ≠ .createExecution := fun hk => h (hk ▸ ho)
    cases o with
    | createExecutionAtomic => exact absurd rfl hkind
    | updateJobExecution executionId patch =>
        change (s.1.repo.updateJobExecution executionId patch).2.getJobExecution e = none
        unfold InMemoryJobRepository.updateJobExecution
        split
        · exact hs
        · next cur hcur =>
            have hne : e ≠ executionId := by
              intro heq
              rw [← heq] at hcur
              exact absurd (hcur.symm.trans hs) (by simp)
            exact (JsMap.get?_set_of_ne _ _ hne).trans hs
    | createStepExecution => exact hs
    | updateStepExecution stepExecutionId patch =>
        change (s.1.repo.updateStepExecution stepExecutionId patch).2.getJobExecution e = none
        unfold InMemoryJobRepository.updateStepExecution
        split <;> exact hs
    | user call =>
        rw [(handle_sameRows env (by cases call <;> simp [rowKinds, Op.kind, UserCall.kind])
          s.1).getJobExecution]
        exact hs
    | _ =>
        rw [(handle_sameRows env (by simp [rowKinds, Op.kind]) s.1).getJobExecution]
        exact hs
  loops _ := trivial

end NestBatch
