import NestBatch.Execution.CheckpointSafety
import NestBatch.Execution.RunFootprint

/-!
# The ledger of step executions

What the calls of a run show of its step executions: which ones it has begun, with
the checkpoint that each takes over from an earlier one, the checkpoint that it has
last saved of each, and which it has declared FAILED.  The rules of the ledger are
those of the checkpoint protocol for every step execution at once: a chunk is written
only right behind the checkpoint of its step execution, checkpoints never go back, a
step execution that has been declared FAILED is left alone, and a restart does not
pass over one.  A chunk step keeps to them, whatever its calls are answered
(`wp_chunkStep`).
-/

namespace NestBatch

variable {α β : Type}

/-- The latest step execution of a name as a run has found it, and its context once that is
read. -/
structure Look where
  jobExecutionId : String
  stepName : String
  prior : Option StepExecution
  context : Option ExecutionContext := none

/-- A context is read, that of the step execution found or another. -/
def Look.read (look : Look) (scope : ExecutionScope) (ctx : ExecutionContext) : Look :=
  if look.prior.map (fun prior => ExecutionScope.stepExecutionId prior.id) = some scope then
    { look with context := some ctx }
  else look

/-- What a step execution has begun with: the checkpoint that it takes over, and the step
execution that was found before. -/
structure Begun where
  start : Option Int
  prior : Option StepExecution

/-- The step executions begun, which of them last, the checkpoints saved and the step executions
declared FAILED, with what was looked up last. -/
structure Ledger where
  look : Option Look := none
  begun : JsMap String Begun := .empty
  current : Option String := none
  saved : JsMap String (Option Int) := .empty
  closed : List String := []

namespace Ledger

/-- The checkpoint that was saved last of a step execution. -/
def checkpoint (g : Ledger) (stepExecutionId : String) : Option Int :=
  (g.saved.get? stepExecutionId).join

/-- The checkpoint that a step execution takes over when it is begun now. -/
def takenOver (g : Ledger) : Option Int :=
  (g.look.bind (·.context)).bind readLastCheckpoint

/-- The entry of a step execution that is begun now. -/
def entry (g : Ledger) : Begun :=
  { start := g.takenOver, prior := g.look.bind (·.prior) }

/-- The effect of an operation on the ledger. -/
def advance : (o : Op α) → o.Resp → Ledger → Ledger
  | .findLatestStepExecution jobExecutionId stepName, prior, g =>
      { g with look := some { jobExecutionId := jobExecutionId, stepName := stepName
                              prior := prior } }
  | .getExecutionContext scope, ctx, g => { g with look := g.look.map (·.read scope ctx) }
  | .createStepExecution _ _, step, g =>
      { g with look := none, begun := g.begun.set step.id g.entry, current := some step.id }
  | .updateStepExecution id patch, _, g =>
      { g with look := none
               closed := if patch.status = some .FAILED then id :: g.closed else g.closed }
  | .saveExecutionContext (.stepExecutionId id) ctx, _, g =>
      { g with look := none, saved := g.saved.set id (readLastCheckpoint ctx) }
  | _, _, g => { g with look := none }

/-- A step of this name has been looked for. -/
def LookedUp (g : Ledger) (jobExecutionId stepName : String) : Prop :=
  ∃ look, g.look = some look ∧ look.jobExecutionId = jobExecutionId ∧ look.stepName = stepName

/-- The context has been read of a step execution that was found to have failed. -/
def HasRead (g : Ledger) : Prop :=
  ∀ look prior, g.look = some look → look.prior = some prior → prior.status = .FAILED →
    look.context.isSome = true

/-- A step execution has been begun last, and not been declared FAILED. -/
structure Opened (g : Ledger) (id : String) : Prop where
  begun : (g.begun.get? id).isSome = true
  current : g.current = some id
  opened : id ∉ g.closed

/-- The checkpoint that a step execution takes over has been brought along. -/
def Carried (g : Ledger) (id : String) : Prop :=
  ∀ entry, g.begun.get? id = some entry → nextChunk entry.start ≤ nextChunk (g.checkpoint id)

/-- What an operation asks of the ledger.  `resumes` are the names of the steps that are to
take over what an earlier step execution has left. -/
def Allows (resumes : String → Prop) (g : Ledger) : Op α → Prop
  | .user (.write _ _ ctx) => g.current = some ctx.stepExecutionId ∧
      ∃ entry, g.begun.get? ctx.stepExecutionId = some entry ∧
      nextChunk entry.start ≤ ctx.chunkIndex ∧
      ctx.chunkIndex = nextChunk (g.checkpoint ctx.stepExecutionId)
  | .saveExecutionContext scope ctx => ∃ id, scope = .stepExecutionId id ∧ g.Opened id ∧
      nextChunk (g.checkpoint id) ≤ nextChunk (readLastCheckpoint ctx)
  | .createStepExecution jobExecutionId stepName =>
      g.HasRead ∧ (resumes stepName → g.LookedUp jobExecutionId stepName)
  | .updateStepExecution id _ => g.Opened id ∧ g.Carried id
  | _ => True

/-- How an operation is answered: streams hand the checkpoint on, ids are new, and what is
read back was saved by the executor. -/
def Answers (g : Ledger) : (o : Op α) → o.Resp → Prop
  | .user (.updateStream _ ctx), r => Progress.handedOn ctx r = true
  | .createStepExecution _ _, step => g.begun.get? step.id = none
  | .getExecutionContext (.stepExecutionId _), ctx => 0 ≤ nextChunk (readLastCheckpoint ctx)
  | _, _ => True

/-- A step execution that has not been begun has no checkpoint and has not been declared FAILED, and
no other has a bad checkpoint. -/
structure Sound (g : Ledger) : Prop where
  blank : ∀ id, g.begun.get? id = none → g.checkpoint id = none ∧ id ∉ g.closed
  reached : ∀ id, 0 ≤ nextChunk (g.checkpoint id)

/-- Between steps, and while one is under way, nothing is looked for. -/
structure Settled (g : Ledger) : Prop extends Sound g where
  look : g.look = none

variable {g : Ledger} {resumes : String → Prop}

theorem settled_empty : ({} : Ledger).Settled where
  blank _ _ := ⟨rfl, List.not_mem_nil⟩
  reached _ := Int.le_refl 0
  look := rfl

/-- The kinds of operation that the ledger keeps to or that change it. -/
def kinds : List OpKind := [.findLatestStep, .createStep, .updateStep, .saveContext, .write]

theorem allows_of_kind {o : Op α} (h : o.kind ∉ kinds) : g.Allows resumes o := by
  cases o with
  | user call =>
      cases call with
      | write => exact absurd (by simp [kinds, Op.kind, UserCall.kind]) h
      | _ => trivial
  | createStepExecution => exact absurd (by simp [kinds, Op.kind]) h
  | updateStepExecution => exact absurd (by simp [kinds, Op.kind]) h
  | saveExecutionContext => exact absurd (by simp [kinds, Op.kind]) h
  | _ => trivial

theorem advance_of_kind {o : Op α} (h : o.kind ∉ kinds) (hlook : g.look = none) (r : o.Resp) :
    g.advance o r = g := by
  have hsame : ({ g with look := none } : Ledger) = g := by rw [← hlook]
  cases o with
  | findLatestStepExecution => exact absurd (by simp [kinds, Op.kind]) h
  | createStepExecution => exact absurd (by simp [kinds, Op.kind]) h
  | updateStepExecution => exact absurd (by simp [kinds, Op.kind]) h
  | saveExecutionContext => exact absurd (by simp [kinds, Op.kind]) h
  | getExecutionContext scope =>
      change ({ g with look := g.look.map (·.read scope r) } : Ledger) = g
      rw [hlook, Option.map_none]
      exact hsame
  | _ => exact hsame

/-- The checkpoints after one of them is saved. -/
theorem checkpoint_save (g : Ledger) (id : String) (checkpoint : Option Int) (id' : String) :
    ({ g with look := none, saved := g.saved.set id checkpoint } : Ledger).checkpoint id' =
      if id' = id then checkpoint else g.checkpoint id' := by
  unfold Ledger.checkpoint
  dsimp only
  rw [JsMap.get?_set]
  split
  · rfl
  · rfl

/-- Saving a checkpoint of a step execution that has been begun. -/
theorem Sound.save (h : g.Sound) {id : String} (hbegun : (g.begun.get? id).isSome = true)
    {checkpoint : Option Int} (hreached : 0 ≤ nextChunk checkpoint) :
    ({ g with look := none, saved := g.saved.set id checkpoint } : Ledger).Sound where
  blank id' hnone := by
    refine ⟨?_, (h.blank id' hnone).2⟩
    rw [checkpoint_save, if_neg]
    · exact (h.blank id' hnone).1
    · intro heq
      subst heq
      rw [show g.begun.get? id' = none from hnone] at hbegun
      cases hbegun
  reached id' := by
    rw [checkpoint_save]
    split
    · exact hreached
    · exact h.reached id'

/-- Declaring a step execution FAILED that has been begun. -/
theorem Sound.close (h : g.Sound) {id : String} (hbegun : (g.begun.get? id).isSome = true) :
    ({ g with look := none, closed := id :: g.closed } : Ledger).Sound where
  blank id' hnone := by
    refine ⟨(h.blank id' hnone).1, List.not_mem_cons_of_ne_of_not_mem ?_ (h.blank id' hnone).2⟩
    intro heq
    subst heq
    rw [show g.begun.get? id' = none from hnone] at hbegun
    cases hbegun
  reached id' := h.reached id'

end Ledger

/-- The rules of the ledger. -/
def ledgerLogic (resumes : String → Prop) : Prog.Logic (Op α) Op.Resp Ledger where
  trans o g r g' := g' = g.advance o r ∧ g.Answers o r
  guard o g := g.Allows resumes o
  loops := True

section Quiet

variable {resumes : String → Prop} {g : Ledger} {K : List OpKind}

/-- Operations that the ledger does not look at leave it as it is. -/
theorem ledger_frame (hK : ∀ k ∈ K, k ∉ Ledger.kinds) (hlook : g.look = none) :
    (ledgerLogic (α := α) resumes).Frame (Looping K) (g = ·) where
  guard _ _ ho _ := Ledger.allows_of_kind (hK _ ho)
  keep o g₁ r g₂ ho h ht := by
    obtain ⟨hadvance, -⟩ := ht
    subst h
    rw [Ledger.advance_of_kind (hK _ ho) hlook] at hadvance
    exact hadvance.symm
  loops _ := trivial

/-- Code outside the ledger leaves it as it is. -/
theorem wp_quiet {p : Code α β} (hp : p.Uses (Looping K)) (hK : ∀ k ∈ K, k ∉ Ledger.kinds)
    (hg : g.Settled) : p.wp (ledgerLogic resumes) (fun _ g' => g = g') g :=
  Prog.wp_of_uses hp (ledger_frame hK hg.look) rfl

/-- Code that the ledger does not look at, and what follows it. -/
theorem wp_quiet_seq {γ : Type} {p : Code α β} {f : β → Code α γ}
    {Q : Except Thrown γ → Ledger → Prop} (hp : p.Uses (Looping K))
    (hK : ∀ k ∈ K, k ∉ Ledger.kinds) (hg : g.Settled)
    (hok : ∀ b, (f b).wp (ledgerLogic resumes) Q g) (herr : ∀ err, Q (.error err) g) :
    (p >>= f).wp (ledgerLogic resumes) Q g := by
  refine Prog.wp_seq (wp_quiet hp hK hg) (fun b g' heq => ?_) fun err g' heq => ?_
  · subst heq
    exact hok b
  · subst heq
    exact herr err

end Quiet

/-! ### A chunk step -/

/-- A step execution is under way. -/
structure Ledger.UnderWay (id : String) (g : Ledger) : Prop extends Ledger.Settled g,
    Ledger.Opened g id where
  carried : g.Carried id

/-- A step execution under way, which resumes from the checkpoint that it has taken over. -/
structure Ledger.Resumed (id : String) (resume : Option Int) (g : Ledger) : Prop extends
    Ledger.Settled g where
  started : ∃ entry, g.begun.get? id = some entry ∧ entry.start = resume
  current : g.current = some id
  opened : id ∉ g.closed
  checkpoint : g.checkpoint id = resume

/-- A resumed step is under way. -/
theorem Ledger.Resumed.underWay {g : Ledger} {id : String} {resume : Option Int}
    (h : g.Resumed id resume) : g.UnderWay id where
  toSettled := h.toSettled
  begun := by
    obtain ⟨entry, hentry, -⟩ := h.started
    exact Option.isSome_of_eq_some hentry
  current := h.current
  opened := h.opened
  carried entry hentry := by
    obtain ⟨entry', hentry', hstart⟩ := h.started
    obtain rfl := Option.some.inj (hentry'.symm.trans hentry)
    exact Int.le_of_eq (congrArg nextChunk (hstart.trans h.checkpoint.symm))

/-- The ledger agrees with the protocol of one step execution. -/
structure Ledger.Mirrors (id : String) (entry : Begun) (g : Ledger) (progress : Progress) :
    Prop where
  settled : g.Settled
  begun : g.begun.get? id = some entry
  current : g.current = some id
  opened : id ∉ g.closed
  started : nextChunk entry.start ≤ progress.next
  checkpoint : g.checkpoint id = progress.checkpoint
  honest : progress.honest = true

section ChunkStep

variable {resumes : String → Prop} {id : String} {entry : Begun} {g : Ledger}
  {policies : Policies} {progress : Progress}

/-- A mirrored step is under way. -/
theorem Ledger.Mirrors.underWay (h : g.Mirrors id entry progress) : g.UnderWay id where
  toSettled := h.settled
  begun := Option.isSome_of_eq_some h.begun
  current := h.current
  opened := h.opened
  carried entry' hentry' := by
    obtain rfl := Option.some.inj (h.begun.symm.trans hentry')
    rw [h.checkpoint]
    exact h.started

/-- What the progress of a mirrored step allows, the ledger allows. -/
theorem Ledger.Mirrors.allows (h : g.Mirrors id entry progress) {o : Op α}
    (hkind : o.kind ∈ stepKinds) (hallowed : progress.Allows policies id o) :
    g.Allows resumes o := by
  cases o with
  | user call =>
      cases call with
      | write writer items ctx =>
          obtain ⟨rfl, hindex, -⟩ := hallowed
          refine ⟨h.current, entry, h.begun, ?_, ?_⟩
          · rw [hindex]
            exact h.started
          · rw [hindex, h.checkpoint]
      | _ => trivial
  | saveExecutionContext scope ctx =>
      obtain ⟨rfl, hsaved, -⟩ := hallowed
      refine ⟨id, rfl, h.underWay.toOpened, ?_⟩
      rw [h.checkpoint, hsaved h.honest]
      exact Int.le_of_lt (Int.lt_succ progress.next)
  | createStepExecution => exact absurd hkind (by simp [stepKinds, Op.kind])
  | updateStepExecution => exact absurd hkind (by simp [stepKinds, Op.kind])
  | _ => trivial

/-- Whatever the protocol allows, the ledger follows. -/
theorem Ledger.Mirrors.advance (h : g.Mirrors id entry progress) {o : Op α}
    (hkind : o.kind ∈ stepKinds) (hallowed : progress.Allows policies id o) {r : o.Resp}
    (hanswers : g.Answers o r) :
    (g.advance o r).Mirrors id entry (progress.advance o r) := by
  have hnext : 0 ≤ progress.next := by
    have hreached := h.settled.reached id
    rw [h.checkpoint] at hreached
    exact hreached
  have hquiet (hk : o.kind ∉ Ledger.kinds) : g.advance o r = g :=
    Ledger.advance_of_kind hk h.settled.look r
  cases o with
  | user call =>
      cases call with
      | write writer items ctx =>
          have hsame : g.advance (.user (.write writer items ctx) : Op α) r = g := by
            change ({ g with look := none } : Ledger) = g
            rw [← h.settled.look]
          rw [hsame]
          exact ⟨h.settled, h.begun, h.current, h.opened, h.started, h.checkpoint, h.honest⟩
      | updateStream stream ctx =>
          rw [hquiet (by simp [Ledger.kinds, Op.kind, UserCall.kind])]
          refine ⟨h.settled, h.begun, h.current, h.opened, h.started, h.checkpoint, ?_⟩
          change (progress.honest && Progress.handedOn ctx r) = true
          rw [h.honest, show Progress.handedOn ctx r = true from hanswers]
          rfl
      | _ =>
          rw [hquiet (by simp [Ledger.kinds, Op.kind, UserCall.kind])]
          exact ⟨h.settled, h.begun, h.current, h.opened, h.started, h.checkpoint, h.honest⟩
  | saveExecutionContext scope ctx =>
      obtain ⟨rfl, hsaved, -⟩ := hallowed
      have hctx := hsaved h.honest
      have hadvance : g.advance (.saveExecutionContext (.stepExecutionId id) ctx : Op α) r =
          { g with look := none, saved := g.saved.set id (some progress.next) } := by
        rw [← hctx]
        rfl
      have hmoved : nextChunk (some progress.next) = progress.next + 1 := rfl
      have hsound : ({ g with look := none, saved := g.saved.set id (some progress.next) } :
          Ledger).Sound := h.settled.toSound.save h.underWay.begun (by omega)
      rw [hadvance]
      refine ⟨⟨hsound, rfl⟩, h.begun, h.current, h.opened, ?_, ?_, h.honest⟩
      · have hstarted := h.started
        change nextChunk entry.start ≤ nextChunk (some progress.next)
        omega
      · exact (Ledger.checkpoint_save g id (some progress.next) id).trans (if_pos rfl)
  | createStepExecution => exact absurd hkind (by simp [stepKinds, Op.kind])
  | updateStepExecution => exact absurd hkind (by simp [stepKinds, Op.kind])
  | findLatestStepExecution => exact absurd hkind (by simp [stepKinds, Op.kind])
  | _ =>
      rw [hquiet (by simp [Ledger.kinds, Op.kind])]
      exact ⟨h.settled, h.begun, h.current, h.opened, h.started, h.checkpoint, h.honest⟩

/-- **A chunk step** that resumes from the checkpoint it has taken over keeps to the ledger. -/
theorem wp_chunkStep {context : ChunkExecutionContext}
    (hg : g.Resumed context.stepExecutionId context.resumeFromChunkIndex)
    (fuel : Nat) (step : ChunkStepDefinition) :
    (ChunkStepExecutor.execute fuel step context : Code α StepResult).wp (ledgerLogic resumes)
      (fun _ g' => g'.UnderWay context.stepExecutionId) g := by
  have hpolicies : ∀ compiled, Policies.compile step = .ok compiled →
      compiled = Policies.of step := by
    intro compiled h
    simp [Policies.of, h]
  have hreached := hg.reached context.stepExecutionId
  rw [hg.checkpoint] at hreached
  have hprotocol := Prog.wp_within (ChunkStepExecutor.uses_execute fuel step context)
    (ChunkStepExecutor.execute_follows (α := α) hpolicies
      (g := { checkpoint := context.resumeFromChunkIndex }) ⟨rfl, rfl⟩ rfl hreached fuel)
  obtain ⟨entry, hentry, hstart⟩ := hg.started
  have hmirrors : g.Mirrors context.stepExecutionId entry
      { checkpoint := context.resumeFromChunkIndex } :=
    ⟨hg.toSettled, hentry, hg.current, hg.opened, Int.le_of_eq (congrArg nextChunk hstart),
      hg.checkpoint, rfl⟩
  refine Prog.wp_mono (Prog.wp_simulate ?_ ?_ (fun _ => trivial) hprotocol hmirrors) ?_
  · intro o g₁ progress h hallowed
    exact h.allows hallowed.1 hallowed.2
  · intro o g₁ r g₂ progress h hallowed ht
    obtain ⟨rfl, hanswers⟩ := ht
    exact ⟨_, rfl, h.advance hallowed.1 hallowed.2 hanswers⟩
  · intro _ g₁ h
    obtain ⟨progress, hmirrors, -⟩ := h
    exact hmirrors.underWay

end ChunkStep

end NestBatch
