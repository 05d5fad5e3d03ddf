import NestBatch.Execution.Checkpoint
import NestBatch.Execution.ChunkTrail
import NestBatch.Execution.ListEnvironment

/-!
# The checkpoint never runs ahead of the writes

The protocol of `Checkpoint` against the repository: the persisted checkpoint is
the one of the protocol, or none where item code has saved a step context
without one, the calls made so far show which chunks were passed and written,
and a restart hands the checkpoint on by copying the step context.  An `Attempt`
is one run of the chunk step executor, cut off anywhere; a `Lineage` is an
attempt with the earlier ones its context was copied from.
-/

namespace NestBatch

variable {α υ : Type}

/-- The checkpoint persisted for a step execution. -/
def World.checkpoint (w : World υ) (stepExecutionId : String) : Option Int :=
  readLastCheckpoint (w.repo.getExecutionContext (.stepExecutionId stepExecutionId))

/-- User code does not write the checkpoint: what the item code saves to the step context, and
what a stream hands back, has the checkpoint found there, or none. -/
structure Environment.LeavesCheckpoint (env : Environment α υ) : Prop where
  saves : ∀ call user ctx data, call.stepScope.isSome → data ∈ (env.user call user ctx).2.2 →
    readLastCheckpoint { data := data, version := 0 } = readLastCheckpoint ctx ∨
      readLastCheckpoint { data := data, version := 0 } = none
  streams : ∀ stream user ctx ctx₀ ctx',
    (env.user (.updateStream stream ctx) user ctx₀).1 = .ok ctx' →
      readLastCheckpoint ctx' = readLastCheckpoint ctx ∨ readLastCheckpoint ctx' = none

/-- User code keeps the checkpoint: the item code in what it saves to the step
context, a stream in the context it hands back. -/
structure Environment.KeepsCheckpoint (env : Environment α υ) : Prop where
  saves : ∀ call user ctx data, call.stepScope.isSome → data ∈ (env.user call user ctx).2.2 →
    readLastCheckpoint { data := data, version := 0 } = readLastCheckpoint ctx
  streams : ∀ stream user ctx ctx₀ ctx',
    (env.user (.updateStream stream ctx) user ctx₀).1 = .ok ctx' →
      readLastCheckpoint ctx' = readLastCheckpoint ctx

/-- Keeping the checkpoint is one way of leaving it. -/
theorem Environment.KeepsCheckpoint.leaves {env : Environment α υ} (h : env.KeepsCheckpoint) :
    env.LeavesCheckpoint where
  saves call user ctx data hscope hdata := .inl (h.saves call user ctx data hscope hdata)
  streams stream user ctx ctx₀ ctx' hctx' := .inl (h.streams stream user ctx ctx₀ ctx' hctx')

/-! ### What the operations do to the persisted checkpoint -/

namespace InMemoryJobRepository

theorem getExecutionContext_save_self (repo : InMemoryJobRepository) (scope : ExecutionScope)
    (ctx : ExecutionContext) :
    ((repo.saveExecutionContext scope ctx).getExecutionContext scope).data = ctx.data := by
  simp [saveExecutionContext, getExecutionContext]

/-- A save under one scope leaves the others alone. -/
theorem getExecutionContext_save_of_ne (repo : InMemoryJobRepository)
    {scope scope' : ExecutionScope}
    (ctx : ExecutionContext) (h : scope' ≠ scope) :
    (repo.saveExecutionContext scope ctx).getExecutionContext scope' =
      repo.getExecutionContext scope' := by
  simp [saveExecutionContext, getExecutionContext, JsMap.get?_set_of_ne _ _ h]

end InMemoryJobRepository

/-- The checkpoint under a scope after a save to it. -/
theorem checkpoint_save_self (repo : InMemoryJobRepository) (scope : ExecutionScope)
    (ctx : ExecutionContext) :
    readLastCheckpoint ((repo.saveExecutionContext scope ctx).getExecutionContext scope) =
      readLastCheckpoint ctx := by
  have h := repo.getExecutionContext_save_self scope ctx
  unfold readLastCheckpoint
  rw [h]

/-- What is true of the data under a scope, and of all that is saved there, stays true. -/
theorem holds_saveAll {P : JsonValue → Prop} {scope scope' : ExecutionScope}
    {saves : List JsonValue} {repo : InMemoryJobRepository}
    (hsaves : scope' = scope → ∀ data ∈ saves, P data)
    (h : P (repo.getExecutionContext scope').data) :
    P ((World.saveAll repo scope saves).getExecutionContext scope').data := by
  induction saves generalizing repo with
  | nil => exact h
  | cons data rest ih =>
      refine ih (fun hscope d hd => hsaves hscope d (List.mem_cons_of_mem _ hd)) ?_
      by_cases hscope : scope' = scope
      · rw [hscope, InMemoryJobRepository.getExecutionContext_save_self]
        exact hsaves hscope data List.mem_cons_self
      · rw [InMemoryJobRepository.getExecutionContext_save_of_ne _ _ hscope]
        exact h

/-- What is true of the data under a scope stays true when all that user code saves there is so. -/
theorem holds_handleUser {P : JsonValue → Prop} {env : Environment α υ} {call : UserCall α}
    {scope : ExecutionScope} {w : World υ} (h : P (w.repo.getExecutionContext scope).data)
    (hsaves : ∀ data, call.stepScope.isSome →
      data ∈ (env.user call w.user (w.repo.getExecutionContext scope)).2.2 → P data) :
    P ((handleUser env call w).2.repo.getExecutionContext scope).data := by
  unfold handleUser
  cases hscope : call.stepScope with
  | none => exact h
  | some id =>
      refine holds_saveAll ?_ h
      intro hsame data hdata
      subst hsame
      exact hsaves data (by rw [hscope]; rfl) hdata

/-- Saves that keep a view of the data they find leave it as it was, under every scope. -/
theorem data_saveAll {τ : Type} (view : JsonValue → τ) (scope scope' : ExecutionScope)
    (saves : List JsonValue) (repo : InMemoryJobRepository)
    (h : ∀ data ∈ saves, view data = view (repo.getExecutionContext scope).data) :
    view ((World.saveAll repo scope saves).getExecutionContext scope').data =
      view (repo.getExecutionContext scope').data := by
  refine holds_saveAll (P := (view · = view (repo.getExecutionContext scope').data)) ?_ rfl
  intro hscope data hdata
  rw [hscope]
  exact h data hdata

/-- User code whose saves keep a view of the data they find leaves it as it was. -/
theorem data_handleUser {τ : Type} (view : JsonValue → τ) {env : Environment α υ}
    {call : UserCall α} (scope : ExecutionScope)
    (hsaves : ∀ user ctx data, call.stepScope.isSome → data ∈ (env.user call user ctx).2.2 →
      view data = view ctx.data) (w : World υ) :
    view ((handleUser env call w).2.repo.getExecutionContext scope).data =
      view (w.repo.getExecutionContext scope).data :=
  holds_handleUser (P := (view · = view (w.repo.getExecutionContext scope).data)) rfl
    fun data hscope hdata => hsaves _ _ data hscope hdata

/-- Only a save or user code changes the data under a scope. -/
theorem data_handle {τ : Type} (view : JsonValue → τ) {env : Environment α υ} {o : Op α}
    (ho : o.kind ≠ .saveContext) (scope : ExecutionScope) (w : World υ)
    (huser : ∀ call, o = .user call →
      view ((handleUser env call w).2.repo.getExecutionContext scope).data =
        view (w.repo.getExecutionContext scope).data) :
    view ((handle env o w).2.repo.getExecutionContext scope).data =
      view (w.repo.getExecutionContext scope).data := by
  cases o with
  | saveExecutionContext => exact absurd rfl ho
  | user call => exact huser call rfl
  | createExecutionAtomic name jobKey params =>
      have hframe := w.repo.createExecutionAtomic_frame w.clock name jobKey params
      simp only [handle, InMemoryJobRepository.getExecutionContext, hframe.2]
  | updateJobExecution id patch =>
      change view ((w.repo.updateJobExecution id patch).2.getExecutionContext _).data = _
      unfold InMemoryJobRepository.updateJobExecution
      split <;> rfl
  | updateStepExecution id patch =>
      change view ((w.repo.updateStepExecution id patch).2.getExecutionContext _).data = _
      unfold InMemoryJobRepository.updateStepExecution
      split <;> rfl
  | enqueue payload =>
      simp only [handle]
      split <;> rfl
  | _ => rfl

/-- Only a save moves a checkpoint. -/
theorem checkpoint_handle {env : Environment α υ} (henv : env.KeepsCheckpoint) {o : Op α}
    (ho : o.kind ≠ .saveContext) (w : World υ) (stepExecutionId : String) :
    (handle env o w).2.checkpoint stepExecutionId = w.checkpoint stepExecutionId := by
  apply data_handle (fun data => readLastCheckpoint { data := data, version := 0 }) ho
  intro call _
  exact data_handleUser _ _ (henv.saves call) w

/-- Where the checkpoint is not written, it stays as it was or is dropped. -/
theorem checkpoint_handle_leaves {env : Environment α υ} (henv : env.LeavesCheckpoint) {o : Op α}
    (ho : o.kind ≠ .saveContext) (w : World υ) (stepExecutionId : String) :
    (handle env o w).2.checkpoint stepExecutionId = w.checkpoint stepExecutionId ∨
      (handle env o w).2.checkpoint stepExecutionId = none := by
  let alone (data : JsonValue) : Prop :=
    readLastCheckpoint { data := data, version := 0 } = w.checkpoint stepExecutionId ∨
      readLastCheckpoint { data := data, version := 0 } = none
  have halone : alone (w.repo.getExecutionContext (.stepExecutionId stepExecutionId)).data :=
    .inl rfl
  suffices h : alone ((handle env o w).2.repo.getExecutionContext
      (.stepExecutionId stepExecutionId)).data from h
  by_cases huser : ∃ call, o = .user call
  · obtain ⟨call, rfl⟩ := huser
    exact holds_handleUser halone fun data hscope hdata => henv.saves _ _ _ data hscope hdata
  · have hkept : alone ((handle env o w).2.repo.getExecutionContext
        (.stepExecutionId stepExecutionId)).data =
          alone (w.repo.getExecutionContext (.stepExecutionId stepExecutionId)).data :=
      data_handle alone ho _ w fun call hcall => absurd ⟨call, hcall⟩ huser
    exact hkept ▸ halone

/-! ### What the calls of a run show -/

/-- A write of chunk `chunkIndex` was answered by `answer`. -/
def WriteAnswered (calls : Calls α) (stepExecutionId : String) (chunkIndex : Int)
    (answer : Except Thrown (Option WriterResult)) : Prop :=
  ∃ writer items ctx, ctx.stepExecutionId = stepExecutionId ∧ ctx.chunkIndex = chunkIndex ∧
    (⟨.user (.write writer items ctx), answer⟩ : Prog.Call (Op α) Op.Resp) ∈ calls

/-- A writer returned for chunk `chunkIndex`. -/
def ChunkWritten (calls : Calls α) (stepExecutionId : String) (chunkIndex : Int) : Prop :=
  ∃ value, WriteAnswered calls stepExecutionId chunkIndex (.ok value)

/-- The policies of a step; those of a step that does not compile are never used. -/
def Policies.of (step : ChunkStepDefinition) : Policies :=
  match Policies.compile step with
  | .ok policies => policies
  | .error _ => { skip := none, retry := none, skipLimit := 0, retryLimit := 0 }

/-- Chunk `chunkIndex` was marked as passed. -/
def ChunkMarked (calls : Calls α) (stepExecutionId : String) (chunkIndex : Int) : Prop :=
  ∃ items ending, (⟨.passed stepExecutionId chunkIndex items ending, ()⟩ :
    Prog.Call (Op α) Op.Resp) ∈ calls

/-- Chunk `chunkIndex` was passed: the calls before its mark show that the writer returned for what
was kept of its items, that its error is one the policy skips, or that nothing of them was left to
write. -/
def ChunkPassed (step : ChunkStepDefinition) (calls : Calls α) (stepExecutionId : String)
    (chunkIndex : Int) : Prop :=
  ∃ items ending before,
    before ++ [⟨.passed stepExecutionId chunkIndex items ending, ()⟩] <+: calls ∧
    (trailOf before).Shows step stepExecutionId chunkIndex items ending

section Mono

variable {calls calls' : Calls α} {sid : String} {i : Int}

theorem ChunkMarked.mono (h : ChunkMarked calls sid i) (hsub : calls ⊆ calls') :
    ChunkMarked calls' sid i := by
  obtain ⟨items, ending, hmem⟩ := h
  exact ⟨items, ending, hsub hmem⟩

end Mono

/-! ### The protocol tells the truth -/

/-- A world with its calls agrees with a protocol state.  `earlier` are the
chunks passed before this run; `steady` says that this run's user code keeps the checkpoint. -/
structure Agrees (steady : Prop) (sid : String) (earlier : Int → Prop)
    (s : World υ × Calls α) (g : Progress) : Prop where
  checkpoint : s.1.checkpoint sid = g.checkpoint ∨ s.1.checkpoint sid = none
  kept : g.kept = true
  unmoved : steady → s.1.checkpoint sid = g.checkpoint ∧ g.honest = true
  nonneg : 0 ≤ g.next
  covered : ∀ i, 0 ≤ i → i < g.next → earlier i ∨ ChunkMarked s.2 sid i
  passed : g.passed = true → ChunkMarked s.2 sid g.next
  written : ∀ i, ChunkWritten s.2 sid i → 0 ≤ i ∧ i ≤ g.next

section Agrees

variable {steady : Prop} {sid : String} {earlier : Int → Prop} {w w' : World υ} {calls : Calls α}
  {g : Progress}

/-- A call that is no write shows no new answer of the writer. -/
theorem writeAnswered_append {o : Op α} (ho : o.kind ≠ .write) {r : o.Resp} {i : Int}
    {answer : Except Thrown (Option WriterResult)}
    (h : WriteAnswered (calls ++ [⟨o, r⟩]) sid i answer) : WriteAnswered calls sid i answer := by
  obtain ⟨writer, items, ctx, hsid, hi, hmem⟩ := h
  rcases List.mem_append.mp hmem with hmem | hmem
  · exact ⟨writer, items, ctx, hsid, hi, hmem⟩
  · have heq := List.mem_singleton.mp hmem
    cases heq
    exact absurd rfl ho

/-- An operation the protocol does not look at keeps the agreement. -/
theorem Agrees.keep (h : Agrees steady sid earlier (w, calls) g) {o : Op α}
    (hwrite : o.kind ≠ .write)
    (hcheckpoint : w'.checkpoint sid = w.checkpoint sid ∨ w'.checkpoint sid = none)
    (hsteady : steady → w'.checkpoint sid = w.checkpoint sid) (r : o.Resp) :
    Agrees steady sid earlier (w', calls ++ [⟨o, r⟩]) g := by
  have hsub : calls ⊆ calls ++ [⟨o, r⟩] := List.subset_append_left _ _
  refine ⟨?_, h.kept, ?_, h.nonneg, ?_, ?_, ?_⟩
  · have hbefore := h.checkpoint
    change w'.checkpoint sid = g.checkpoint ∨ w'.checkpoint sid = none
    grind
  · intro hs
    exact (h.unmoved hs).imp_left (hsteady hs).trans
  · intro i h0 hi
    exact (h.covered i h0 hi).imp_right (·.mono hsub)
  · exact fun hp => (h.passed hp).mono hsub
  · intro i hi
    obtain ⟨value, hi⟩ := hi
    exact h.written i ⟨value, writeAnswered_append hwrite hi⟩

/-- A write of the chunk at hand. -/
theorem Agrees.write (h : Agrees steady sid earlier (w, calls) g) {writer : Handle}
    {items : List α} {ctx : ItemExecutionContext} (hindex : ctx.chunkIndex = g.next)
    (hcheckpoint : w'.checkpoint sid = w.checkpoint sid ∨ w'.checkpoint sid = none)
    (hsteady : steady → w'.checkpoint sid = w.checkpoint sid)
    (r : Except Thrown (Option WriterResult)) :
    Agrees steady sid earlier (w', calls ++ [⟨.user (.write writer items ctx), r⟩])
      { g with lastWrite := some r } := by
  have hsub : calls ⊆ calls ++ [⟨.user (.write writer items ctx), r⟩] :=
    List.subset_append_left _ _
  refine ⟨?_, h.kept, ?_, h.nonneg, ?_, ?_, ?_⟩
  · have hbefore := h.checkpoint
    change w'.checkpoint sid = g.checkpoint ∨ w'.checkpoint sid = none
    grind
  · intro hs
    exact (h.unmoved hs).imp_left (hsteady hs).trans
  · intro i h0 hi
    exact (h.covered i h0 hi).imp_right (·.mono hsub)
  · exact fun hp => (h.passed hp).mono hsub
  · intro i hi
    obtain ⟨value, writer', items', ctx', hsid', hi', hmem⟩ := hi
    rcases List.mem_append.mp hmem with hmem | hmem
    · exact h.written i ⟨value, writer', items', ctx', hsid', hi', hmem⟩
    · have heq := List.mem_singleton.mp hmem
      cases heq
      have hlast : i = g.next := hi'.symm.trans hindex
      exact ⟨hlast ▸ h.nonneg, Int.le_of_eq hlast⟩

/-- The chunk at hand is passed. -/
theorem Agrees.pass (h : Agrees steady sid earlier (w, calls) g) (items : List α)
    (ending : ChunkEnd) :
    Agrees steady sid earlier (w, calls ++ [⟨.passed sid g.next items ending, ()⟩])
      { g with passed := true } := by
  have hkeep : Agrees steady sid earlier
      (w, calls ++ [⟨.passed sid g.next items ending, ()⟩]) g :=
    h.keep (o := .passed sid g.next items ending) (fun h => by cases h) (.inl rfl)
      (fun _ => rfl) ()
  exact { hkeep with passed := fun _ => ⟨items, ending, by simp⟩ }

/-- What a stream hands back changes at most what is known of the checkpoint. -/
theorem Agrees.handOn (h : Agrees steady sid earlier (w, calls) g) {stream : Handle}
    {ctx : ExecutionContext} {r : Except Thrown ExecutionContext}
    (hleft : Progress.leftAlone ctx r = true)
    (hsteady : steady → Progress.handedOn ctx r = true) :
    Agrees steady sid earlier (w, calls)
      (g.advance (.user (.updateStream stream ctx) : Op α) r) := by
  refine { h with kept := ?_, unmoved := ?_ }
  · change (g.kept && Progress.leftAlone ctx r) = true
    rw [h.kept, hleft]
    rfl
  · intro hs
    refine ⟨(h.unmoved hs).1, ?_⟩
    change (g.honest && Progress.handedOn ctx r) = true
    rw [(h.unmoved hs).2, hsteady hs]
    rfl

/-- The checkpoint of a passed chunk is saved. -/
theorem Agrees.save (h : Agrees steady sid earlier (w, calls) g) (hpassed : g.passed = true)
    {o : Op α} (hwrite : o.kind ≠ .write) (r : o.Resp)
    (hcheckpoint : w'.checkpoint sid = some g.next ∨ w'.checkpoint sid = none)
    (hsteady : steady → w'.checkpoint sid = some g.next) :
    Agrees steady sid earlier (w', calls ++ [⟨o, r⟩])
      { checkpoint := some g.next, honest := g.honest, kept := g.kept } := by
  have hsub : calls ⊆ calls ++ [⟨o, r⟩] := List.subset_append_left _ _
  have hnonneg := h.nonneg
  refine ⟨hcheckpoint, h.kept, fun hs => ⟨hsteady hs, (h.unmoved hs).2⟩, ?_, ?_, ?_, ?_⟩
  · change 0 ≤ g.next + 1
    omega
  · intro i h0 hi
    have hi' : i < g.next + 1 := hi
    by_cases hlast : i = g.next
    · exact .inr (hlast ▸ (h.passed hpassed).mono hsub)
    · exact (h.covered i h0 (by omega)).imp_right (·.mono hsub)
  · exact fun hp => by cases hp
  · intro i hi
    obtain ⟨value, hi⟩ := hi
    have hbound := h.written i ⟨value, writeAnswered_append hwrite hi⟩
    change 0 ≤ i ∧ i ≤ g.next + 1
    omega

end Agrees

/-- **Refinement.**  Whatever the executor does where the protocol allows it, the
protocol follows, and the repository and the calls agree with it. -/
theorem agrees_follows {env : Environment α υ} (henv : env.LeavesCheckpoint)
    (policies : Policies) (sid : String) (earlier : Int → Prop) :
    Prog.Follows (protocol policies sid) (handle env).traced.trans
      (Agrees env.KeepsCheckpoint sid earlier) := by
  intro o s r s' g hrel hallowed ht
  obtain ⟨w, calls⟩ := s
  cases ht
  refine ⟨g.advance o (handle env o w).1, rfl, ?_⟩
  cases o with
  | user call =>
      have hkind : (Op.user call).kind ≠ .saveContext := by
        cases call <;> simp [Op.kind, UserCall.kind]
      have hleft := checkpoint_handle_leaves henv hkind w sid
      have hkept (hsteady : env.KeepsCheckpoint) := checkpoint_handle hsteady hkind w sid
      cases call with
      | write writer items ctx => exact hrel.write hallowed.2.1 hleft hkept _
      | updateStream stream ctx =>
          have hkeep := hrel.keep (o := .user (.updateStream stream ctx))
            (by simp [Op.kind, UserCall.kind]) hleft hkept
            (handle env (.user (.updateStream stream ctx)) w).1
          refine hkeep.handOn ?_ ?_
          · cases hanswer : (handle env (.user (.updateStream stream ctx)) w).1 with
            | error err => rfl
            | ok ctx' => exact decide_eq_true (henv.streams stream w.user ctx _ ctx' hanswer)
          · intro hsteady
            cases hanswer : (handle env (.user (.updateStream stream ctx)) w).1 with
            | error err => rfl
            | ok ctx' => exact decide_eq_true (hsteady.streams stream w.user ctx _ ctx' hanswer)
      | _ => exact hrel.keep (by simp [Op.kind, UserCall.kind]) hleft hkept _
  | passed id chunkIndex items ending =>
      obtain ⟨rfl, rfl, -⟩ := hallowed
      exact hrel.pass items ending
  | saveExecutionContext scope ctx =>
      obtain ⟨rfl, hsaved, hleft, hpassed⟩ := hallowed
      refine hrel.save hpassed (by simp [Op.kind]) _ ?_ ?_
      · have hself := checkpoint_save_self w.repo (.stepExecutionId sid) ctx
        exact (hleft hrel.kept).imp hself.trans hself.trans
      · intro hsteady
        exact (checkpoint_save_self _ _ _).trans (hsaved (hrel.unmoved hsteady).2)
  | _ =>
      exact hrel.keep (by simp [Op.kind]) (checkpoint_handle_leaves henv (by simp [Op.kind]) w sid)
        (fun hsteady => checkpoint_handle hsteady (by simp [Op.kind]) w sid) _

/-! ### Runs and their lineage -/

/-- One run of the chunk step executor, cut off somewhere. -/
structure Attempt (α υ : Type) where
  env : Environment α υ
  fuel : Nat
  context : ChunkExecutionContext
  start : World υ
  current : World υ
  calls : Calls α

namespace Attempt

variable {step : ChunkStepDefinition}

def stepExecutionId (a : Attempt α υ) : String := a.context.stepExecutionId

/-- The calls are those of a run of the executor on `step`, from `start` to `current`. -/
def IsRunOf (step : ChunkStepDefinition) (a : Attempt α υ) : Prop :=
  ∃ rest, Prog.Reaches (handle a.env).traced.trans
    (ChunkStepExecutor.execute a.fuel step a.context, (a.start, [])) (rest, (a.current, a.calls))

/-- The checkpoint persisted now. -/
def checkpoint (a : Attempt α υ) : Option Int := a.current.checkpoint a.stepExecutionId

def Passed (step : ChunkStepDefinition) (a : Attempt α υ) (chunkIndex : Int) : Prop :=
  ChunkPassed step a.calls a.stepExecutionId chunkIndex

def Written (a : Attempt α υ) (chunkIndex : Int) : Prop :=
  ChunkWritten a.calls a.stepExecutionId chunkIndex

/-- A chunk that a run marks as passed was passed. -/
theorem IsRunOf.passed {a : Attempt α υ} (hrun : a.IsRunOf step) {i : Int}
    (h : ChunkMarked a.calls a.stepExecutionId i) : a.Passed step i := by
  obtain ⟨rest, hreach⟩ := hrun
  obtain ⟨items, ending, hmem⟩ := h
  obtain ⟨before, hprefix, hshows⟩ := shown_of_met (ChunkStepExecutor.met_of_run hreach) hmem
  exact ⟨items, ending, before, hprefix, hshows⟩

/-- What every state of a run says, given what its first state says. -/
theorem agrees {a : Attempt α υ} (hrun : a.IsRunOf step) (henv : a.env.LeavesCheckpoint)
    {earlier : Int → Prop}
    (hresume : a.context.resumeFromChunkIndex = a.start.checkpoint a.stepExecutionId)
    (hnonneg : 0 ≤ nextChunk (a.start.checkpoint a.stepExecutionId))
    (hearlier : ∀ i, 0 ≤ i → i < nextChunk (a.start.checkpoint a.stepExecutionId) → earlier i) :
    ∃ g, Agrees a.env.KeepsCheckpoint a.stepExecutionId earlier (a.current, a.calls) g := by
  obtain ⟨rest, hreach⟩ := hrun
  have hstart : Agrees a.env.KeepsCheckpoint a.stepExecutionId earlier
      (a.start, ([] : Calls α)) { checkpoint := a.start.checkpoint a.stepExecutionId } := by
    refine ⟨.inl rfl, rfl, fun _ => ⟨rfl, rfl⟩, hnonneg, ?_, ?_, ?_⟩
    · exact fun i h0 hi => .inl (hearlier i h0 hi)
    · exact fun h => by cases h
    · intro i hi
      obtain ⟨_, _, _, _, _, _, hmem⟩ := hi
      cases hmem
  have hpolicies : ∀ compiled, Policies.compile step = .ok compiled →
      compiled = Policies.of step := by
    intro compiled h
    simp [Policies.of, h]
  have hfollow := ChunkStepExecutor.execute_follows (α := α) hpolicies
    (g := { checkpoint := a.start.checkpoint a.stepExecutionId }) ⟨rfl, rfl⟩ hresume.symm hnonneg
    a.fuel
  obtain ⟨g, hg, -⟩ := Prog.reaches_simulate
    (agrees_follows henv (Policies.of step) a.stepExecutionId earlier) hreach hfollow hstart
  exact ⟨g, hg⟩

end Attempt

/-- A run with the earlier ones its step context was copied from, newest first.
The first of them found no checkpoint; every other resumes from the copied one. -/
inductive Lineage (step : ChunkStepDefinition) : Attempt α υ → List (Attempt α υ) → Prop
  | fresh {a : Attempt α υ} (hrun : a.IsRunOf step) (henv : a.env.LeavesCheckpoint)
      (hnone : a.start.checkpoint a.stepExecutionId = none)
      (hresume : a.context.resumeFromChunkIndex = none) : Lineage step a []
  | resumed {a b : Attempt α υ} {earlier : List (Attempt α υ)} (hb : Lineage step b earlier)
      (hrun : a.IsRunOf step) (henv : a.env.LeavesCheckpoint)
      (hcopy : a.start.checkpoint a.stepExecutionId = b.checkpoint)
      (hresume : a.context.resumeFromChunkIndex = b.checkpoint) : Lineage step a (b :: earlier)

section Lineages

variable {step : ChunkStepDefinition} {a : Attempt α υ} {earlier : List (Attempt α υ)}

/-- Each attempt of a lineage is a run of the step. -/
theorem Lineage.isRunOf (h : Lineage step a earlier) : a.IsRunOf step := by
  cases h with
  | fresh hrun => exact hrun
  | resumed hb hrun => exact hrun

/-- A chunk behind which the protocol stands was passed along the lineage. -/
theorem Agrees.passed_of_covered {g : Progress} {steady : Prop}
    (hg : Agrees steady a.stepExecutionId (fun i => ∃ b ∈ earlier, b.Passed step i)
      (a.current, a.calls) g) (hrun : a.IsRunOf step) {i : Int} (h0 : 0 ≤ i) (hi : i < g.next) :
    ∃ b ∈ a :: earlier, b.Passed step i := by
  rcases hg.covered i h0 hi with hearlier | hmarked
  · obtain ⟨b, hb, hpassed⟩ := hearlier
    exact ⟨b, List.mem_cons_of_mem _ hb, hpassed⟩
  · exact ⟨a, List.mem_cons_self, hrun.passed hmarked⟩

/-- Along a lineage every state agrees with a protocol state. -/
theorem Lineage.agrees (h : Lineage step a earlier) :
    ∃ g, Agrees a.env.KeepsCheckpoint a.stepExecutionId
      (fun i => ∃ b ∈ earlier, b.Passed step i) (a.current, a.calls) g := by
  induction h with
  | fresh hrun henv hnone hresume =>
      refine Attempt.agrees hrun henv (hresume.trans hnone.symm) ?_ ?_
      · simp [hnone, nextChunk]
      · intro i h0 hi
        simp only [hnone, nextChunk] at hi
        omega
  | @resumed a b earlier hb hrun henv hcopy hresume ih =>
      obtain ⟨g, hg⟩ := ih
      have hbehind : nextChunk b.checkpoint = g.next ∨ nextChunk b.checkpoint = 0 :=
        hg.checkpoint.imp (congrArg nextChunk) (congrArg nextChunk)
      have hnonneg := hg.nonneg
      refine Attempt.agrees hrun henv (hresume.trans hcopy.symm) ?_ ?_
      · rw [hcopy]
        omega
      · intro i h0 hi
        rw [hcopy] at hi
        exact hg.passed_of_covered hb.isRunOf h0 (by omega)

/-- **The checkpoint never runs ahead of the writes.**  Wherever a run is cut
off: up to the persisted checkpoint every chunk was passed in this run or in one
whose context was copied, and this run has written at most one chunk beyond it.
Without one it has written at most chunk 0, if its user code keeps the checkpoint. -/
theorem checkpoint_never_ahead (h : Lineage step a earlier) :
    match a.checkpoint with
    | some k => (∀ i, 0 ≤ i → i ≤ k → ∃ b ∈ a :: earlier, b.Passed step i) ∧
        ∀ i, a.Written i → i ≤ k + 1
    | none => a.env.KeepsCheckpoint → ∀ i, a.Written i → i = 0 := by
  obtain ⟨g, hg⟩ := h.agrees
  cases hk : a.checkpoint with
  | some k =>
      have hcheckpoint : g.checkpoint = some k := by
        rcases hg.checkpoint with hsame | hnone
        · exact hsame.symm.trans hk
        · exact absurd (hk.symm.trans hnone) (by simp)
      have hnext : g.next = k + 1 := congrArg nextChunk hcheckpoint
      refine ⟨?_, ?_⟩
      · intro i h0 hi
        exact hg.passed_of_covered h.isRunOf h0 (by omega)
      · intro i hi
        have hbound := (hg.written i hi).2
        omega
  | none =>
      intro hkeeps i hi
      have hcheckpoint : g.checkpoint = none := (hg.unmoved hkeeps).1.symm.trans hk
      have hnext : g.next = 0 := congrArg nextChunk hcheckpoint
      have hbound := hg.written i hi
      omega

end Lineages

/-! ### A lineage of two runs -/

/-- The run from start to end. -/
def Attempt.toEnd (env : Environment α υ) (fuel : Nat) (step : ChunkStepDefinition)
    (context : ChunkExecutionContext) (start : World υ) : Attempt α υ :=
  let s := ((ChunkStepExecutor.execute fuel step context : Code α StepResult).run
    (handle env).traced (start, [])).2
  { env := env, fuel := fuel, context := context, start := start, current := s.1, calls := s.2 }

/-- An attempt run to its end is a run of the step. -/
theorem Attempt.toEnd_isRunOf (env : Environment α υ) (fuel : Nat) (step : ChunkStepDefinition)
    (context : ChunkExecutionContext) (start : World υ) :
    (Attempt.toEnd env fuel step context start).IsRunOf step := Prog.reaches_run

@[simp] theorem Attempt.toEnd_env (env : Environment α υ) (fuel : Nat)
    (step : ChunkStepDefinition) (context : ChunkExecutionContext) (start : World υ) :
    (Attempt.toEnd env fuel step context start).env = env := rfl

/-- Lists are read and written without a word about the checkpoint. -/
theorem listEnvironment_keepsCheckpoint (items : List α)
    (refuses : Handle → Int → Option Thrown) :
    (listEnvironment items refuses).KeepsCheckpoint where
  saves call user ctx data _ hdata := by
    cases call <;> cases hdata
  streams stream user ctx ctx₀ ctx' h := by
    cases h
    rfl

/-- A step that reads and writes by lambdas, two items a chunk. -/
def pairsStep : ChunkStepDefinition :=
  { id := "pairs", chunkSize := 2, reader := { kind := .BuilderLambda, fn := some 0 }
    writer := { kind := .BuilderLambda, fn := some 1 } }

/-- Its writer fails at chunk 1. -/
def brokenRun : Attempt Nat Nat :=
  .toEnd (listEnvironment [10, 20, 30] fun _ k => if k = 1 then some (.error "disk full") else none)
    4 pairsStep { jobExecutionId := "e", stepExecutionId := "s1", jobParameters := [] }
    (.initial (unaryIds 'r') (unaryIds 'u') 0)

/-- The restart of it, on a copy of its step context. -/
def resumedRun : Attempt Nat Nat :=
  .toEnd (willing [10, 20, 30]) 4 pairsStep
    { jobExecutionId := "e", stepExecutionId := "s2", jobParameters := []
      resumeFromChunkIndex := brokenRun.checkpoint }
    { brokenRun.current with
      repo := brokenRun.current.repo.saveExecutionContext (.stepExecutionId "s2")
        (brokenRun.current.repo.getExecutionContext (.stepExecutionId "s1"))
      user := 0 }

/-- The two runs of a step that was resumed, the first of which failed. -/
theorem checkpoint_never_ahead_resumed :
    match resumedRun.checkpoint with
    | some k => (∀ i, 0 ≤ i → i ≤ k → ∃ b ∈ [resumedRun, brokenRun], b.Passed pairsStep i) ∧
        ∀ i, resumedRun.Written i → i ≤ k + 1
    | none => resumedRun.env.KeepsCheckpoint → ∀ i, resumedRun.Written i → i = 0 := by
  have hleaves : brokenRun.env.LeavesCheckpoint := by
    rw [brokenRun, Attempt.toEnd_env]
    exact (listEnvironment_keepsCheckpoint _ _).leaves
  have hleaves' : resumedRun.env.LeavesCheckpoint := by
    rw [resumedRun, Attempt.toEnd_env]
    exact (listEnvironment_keepsCheckpoint _ _).leaves
  have hbroken : Lineage pairsStep brokenRun [] :=
    .fresh (Attempt.toEnd_isRunOf _ _ _ _ _) hleaves (by decide) rfl
  have hresumed : Lineage pairsStep resumedRun [brokenRun] :=
    .resumed hbroken (Attempt.toEnd_isRunOf _ _ _ _ _) hleaves' (by decide) rfl
  exact checkpoint_never_ahead hresumed

/-- Every read saves the position of the reader, and nothing else, as the step context. -/
def offsetting (items : List α) : Environment α Nat :=
  { willing items with
    user := fun
      | .read _ _, pos, _ =>
          (.ok items[pos]?, pos + 1, [.obj [("offset", .num pos)]])
      | call, pos, ctx => (willing items).user call pos ctx }

/-- An item code that saves its offset leaves the checkpoint where it is, or drops it. -/
theorem offsetting_leavesCheckpoint (items : List α) : (offsetting items).LeavesCheckpoint where
  saves call user ctx data _ hdata := by
    cases call with
    | read reader item =>
        obtain rfl := List.mem_singleton.mp hdata
        exact .inr rfl
    | _ => cases hdata
  streams stream user ctx ctx₀ ctx' h := by
    cases h
    exact .inl rfl

/-- The step with a reader that saves its position. -/
def offsetRun : Attempt Nat Nat :=
  .toEnd (offsetting [10, 20, 30]) 4 pairsStep
    { jobExecutionId := "e", stepExecutionId := "s1", jobParameters := [] }
    (.initial (unaryIds 'r') (unaryIds 'u') 0)

/-- The read behind chunk 1 takes the checkpoint out of the context, with both chunks written. -/
theorem offset_replaces_checkpoint : Lineage pairsStep offsetRun [] ∧
    offsetRun.checkpoint = none ∧ offsetRun.Written 0 ∧ offsetRun.Written 1 := by
  have hleaves : offsetRun.env.LeavesCheckpoint := by
    rw [offsetRun, Attempt.toEnd_env]
    exact offsetting_leavesCheckpoint _
  refine ⟨.fresh (Attempt.toEnd_isRunOf _ _ _ _ _) hleaves (by decide) rfl, by decide, ?_, ?_⟩
  · exact ⟨none, _, _, _, rfl, rfl, List.mem_of_getElem? (i := 5) rfl⟩
  · exact ⟨none, _, _, _, rfl, rfl, List.mem_of_getElem? (i := 12) rfl⟩

end NestBatch
