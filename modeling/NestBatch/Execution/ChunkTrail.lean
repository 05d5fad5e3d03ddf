import NestBatch.Execution.CallLog

/-!
# What a chunk that is passed has come through

The executor calls a chunk written, skipped or empty when it passes it.  What it says is what the
calls since the last read show: which of the items the processor kept, and how the last write of
what was kept was answered.
-/

namespace NestBatch

variable {α υ : Type}

/-- What has been asked since the last read: the items handed to the processor with its answers,
and the last write. -/
structure Trail (α : Type) where
  answers : List (α × Except Thrown (Option α)) := []
  lastWrite : Option (ItemExecutionContext × List α × Except Thrown (Option WriterResult)) := none

/-- The processor has answered. -/
def Trail.answered (t : Trail α) (item : α) (r : Except Thrown (Option α)) : Trail α :=
  { t with answers := t.answers ++ [(item, r)] }

def Trail.advance : (o : Op α) → o.Resp → Trail α → Trail α
  | .user (.read _ _), _, _ => {}
  | .user (.process _ item _), r, t => t.answered item r
  | .user (.write _ items ctx), r, t => { t with lastWrite := some (ctx, items, r) }
  | _, _, t => t

/-- The trail that a log ends with. -/
def trailOf (calls : Calls α) : Trail α :=
  calls.foldl (fun t c => t.advance c.1 c.2) {}

theorem trailOf_snoc (calls : Calls α) (o : Op α) (r : o.Resp) :
    trailOf (calls ++ [⟨o, r⟩]) = (trailOf calls).advance o r := by
  unfold trailOf
  rw [List.foldl_append]
  rfl

/-- The items are handed to the processor one after the other, each until it is kept, dropped, or
its error is one that is skipped; `kept` are the values of those kept. -/
inductive Settles (skips : Thrown → Bool) :
    (items : List α) → List (α × Except Thrown (Option α)) → (kept : List α) → Prop
  | nil : Settles skips [] [] []
  | retried {items answers kept} (h : Settles skips items answers kept) (item : α)
      (err : Thrown) : Settles skips items (answers ++ [(item, .error err)]) kept
  | kept {items answers kept} (h : Settles skips items answers kept) (item value : α) :
      Settles skips (items ++ [item]) (answers ++ [(item, .ok (some value))]) (kept ++ [value])
  | dropped {items answers kept} (h : Settles skips items answers kept) (item : α) :
      Settles skips (items ++ [item]) (answers ++ [(item, .ok none)]) kept
  | skipped {items answers kept} (h : Settles skips items answers kept) (item : α) {err : Thrown}
      (herr : skips err = true) :
      Settles skips (items ++ [item]) (answers ++ [(item, .error err)]) kept

/-- What is left of the items of a chunk to write: without a processor, all of them. -/
def ChunkStepDefinition.Keeps (step : ChunkStepDefinition) (items : List α)
    (answers : List (α × Except Thrown (Option α))) (kept : List α) : Prop :=
  (step.processor = none ∧ kept = items) ∨
    (step.processor ≠ none ∧ Settles step.skips items answers kept)

/-- How the write phase of a chunk ended, by the last write of what was kept of it. -/
def ChunkEnd.ShownBy (skips : Thrown → Bool) (sid : String) (k : Int) (kept : List α)
    (lastWrite : Option (ItemExecutionContext × List α × Except Thrown (Option WriterResult))) :
    ChunkEnd → Prop
  | .written => ∃ ctx value, lastWrite = some (ctx, kept, .ok value) ∧
      ctx.stepExecutionId = sid ∧ ctx.chunkIndex = k
  | .writeSkipped => ∃ ctx err, lastWrite = some (ctx, kept, .error err) ∧
      skips err = true ∧ ctx.stepExecutionId = sid ∧ ctx.chunkIndex = k
  | .nothingToWrite => kept = [] ∧ lastWrite = none

/-- The trail of a chunk shows that it may be passed as it is: the writer returned, its error is
skipped by the policy, or nothing of it is left to write. -/
def Trail.Shows (step : ChunkStepDefinition) (sid : String) (k : Int) (items : List α)
    (ending : ChunkEnd) (t : Trail α) : Prop :=
  ∃ kept, step.Keeps items t.answers kept ∧ ending.ShownBy step.skips sid k kept t.lastWrite

/-- A chunk is passed on such a trail only. -/
def Trail.Allows (step : ChunkStepDefinition) (t : Trail α) : Op α → Prop
  | .passed sid k items ending => t.Shows step sid k items ending
  | _ => True

/-- What is asked of the calls of a step. -/
def passRules (step : ChunkStepDefinition) : CallRules α where
  demands calls o := (trailOf calls).Allows step o

/-- The rules for the trail alone. -/
def trails (step : ChunkStepDefinition) : Prog.Logic (Op α) Op.Resp (Trail α) where
  trans o t r t' := t' = t.advance o r
  guard o t := t.Allows step o
  loops := True

/-- The operations the trail is about. -/
def trailKinds : List OpKind := [.read, .process, .write, .passed]

section Frame

variable {step : ChunkStepDefinition} {K : List OpKind}

theorem Trail.advance_of_kind {o : Op α} (h : o.kind ∉ trailKinds) (r : o.Resp) (t : Trail α) :
    t.advance o r = t := by
  cases o with
  | user call =>
      cases call with
      | read => exact absurd (by simp [trailKinds, Op.kind, UserCall.kind]) h
      | process => exact absurd (by simp [trailKinds, Op.kind, UserCall.kind]) h
      | write => exact absurd (by simp [trailKinds, Op.kind, UserCall.kind]) h
      | _ => rfl
  | _ => rfl

theorem Trail.allows_of_kind {o : Op α} (h : o.kind ≠ .passed) (t : Trail α) :
    t.Allows step o := by
  cases o with
  | passed => exact absurd rfl h
  | _ => trivial

/-- Operations that the trail is not about keep whatever is said of it. -/
theorem trails_frame (h : ∀ k ∈ K, k ∉ trailKinds) (J : Trail α → Prop) :
    (trails step).Frame (On K) J where
  guard _ t ho _ := t.allows_of_kind fun heq => h _ ho (heq ▸ by decide)
  keep o t r t' ho ht htrans := by
    rw [show t' = t.advance o r from htrans, Trail.advance_of_kind (h _ ho)]
    exact ht
  loops h := h.elim

/-- Operations that pass no chunk may come at any time. -/
theorem trails_any (h : .passed ∉ K) : (trails (α := α) step).Frame (On K) fun _ => True where
  guard _ t ho _ := t.allows_of_kind fun heq => h (heq ▸ ho)
  keep _ _ _ _ _ _ _ := trivial
  loops h := h.elim

end Frame

namespace ChunkStepExecutor

open ListenerInvoker

namespace Setting

variable {S : Setting} {step : ChunkStepDefinition} {k : Int} {done : List α} {kept : List α}
  {item : α} {l : Locals} {t : Trail α}

/-- What the loop of a setting has of its step. -/
structure Serves (S : Setting) (step : ChunkStepDefinition) : Prop where
  processor : S.processor = none ↔ step.processor = none
  skips : S.policies.skips = step.skips

/-- The items of the chunk up to here, with what the processor has said of them. -/
def processStates (step : ChunkStepDefinition) (done kept : List α) (item : α) :
    PhaseStates (Trail α) (Option α) where
  I t := t.lastWrite = none ∧ Settles step.skips done t.answers kept
  V value t := t.lastWrite = none ∧ ∃ answers, t.answers = answers ++ [(item, .ok value)] ∧
    Settles step.skips done answers kept
  E err t := t.lastWrite = none ∧ ∃ answers, t.answers = answers ++ [(item, .error err)] ∧
    Settles step.skips done answers kept
  A _ := True

variable (step) in
/-- Processing an item leaves the trail of its answer. -/
theorem processStates_sound (S : Setting) (processor : Handle) :
    (processStates step done kept item).Sound (trails step)
      (orThrow (request (.user (.process processor item (S.itemContext k)))))
      (S.processHooks k item) := by
  refine .of_frame (S.processHooks_within (K := [.listener]) (by decide) k item)
    (trails_frame (by decide)) ?_ ?_ (fun _ _ => trivial) fun _ _ _ => trivial
  · intro t h
    refine wp_orThrow.mpr (Prog.wp_perform.mpr ⟨trivial, ?_⟩)
    intro r t' ht
    rw [show t' = _ from ht]
    cases r with
    | error err => exact ⟨h.1, t.answers, rfl, h.2⟩
    | ok value => exact ⟨h.1, t.answers, rfl, h.2⟩
  · intro err t h
    obtain ⟨hnone, answers, hanswers, hsettles⟩ := h
    refine ⟨hnone, ?_⟩
    rw [hanswers]
    exact hsettles.retried item err

/-- What a process phase leaves of its items. -/
theorem wp_processPhase_trail (hS : S.Serves step) (items : List α) {processed : List α}
    (h : t.lastWrite = none ∧ step.Keeps done t.answers processed) :
    Scoped.wp (trails step) (S.processPhase k items processed) (fun out _ t' =>
      ∀ processed', out = .ok processed' →
        t'.lastWrite = none ∧ step.Keeps (done ++ items) t'.answers processed') l t := by
  induction items generalizing done processed l t with
  | nil =>
      intro processed' heq
      cases heq
      rw [List.append_nil]
      exact h
  | cons item items ih =>
      have hdone : done ++ item :: items = (done ++ [item]) ++ items := by
        rw [List.append_assoc]
        rfl
      rw [hdone]
      unfold processPhase
      cases hprocessor : S.processor with
      | none =>
          have hnone := hS.processor.mp hprocessor
          refine ih ⟨h.1, Or.inl ⟨hnone, ?_⟩⟩
          rcases h.2 with ⟨-, hall⟩ | ⟨hsome, -⟩
          · rw [hall]
          · exact absurd hnone hsome
      | some processor =>
          have hsome : step.processor ≠ none := by
            intro hnone
            rw [hS.processor.mpr hnone] at hprocessor
            cases hprocessor
          have hsettles : Settles step.skips done t.answers processed := by
            rcases h.2 with ⟨hnone, -⟩ | ⟨-, hsettles⟩
            · exact absurd hnone hsome
            · exact hsettles
          refine Scoped.wp_seq (wp_runPhase S.policies
            (processStates_sound step S processor.target) ⟨h.1, hsettles⟩) ?_
            fun _ _ _ _ _ h => by cases h
          intro r l' t' hended
          obtain ⟨-, hended⟩ := hended
          cases r with
          | skipped =>
              obtain ⟨err, skipCount, attempt, ⟨hwrite, answers, hanswers, hbefore⟩, hskip⟩ :=
                hended
              refine ih ⟨hwrite, Or.inr ⟨hsome, ?_⟩⟩
              rw [hanswers]
              exact hbefore.skipped item (hS.skips ▸ (consult_skip hskip).1)
          | ok answer =>
              obtain ⟨hwrite, answers, hanswers, hbefore⟩ := hended
              cases answer with
              | some value =>
                  refine ih ⟨hwrite, Or.inr ⟨hsome, ?_⟩⟩
                  rw [hanswers]
                  exact hbefore.kept item value
              | none =>
                  dsimp only
                  rw [Scoped.wp_bind, Scoped.wp_modify, Scoped.afterwards_ok]
                  refine ih ⟨hwrite, Or.inr ⟨hsome, ?_⟩⟩
                  rw [hanswers]
                  exact hbefore.dropped item

/-- The writes of what was kept of a chunk. -/
def writeTrails (S : Setting) (k : Int) (kept : List α)
    (answers : List (α × Except Thrown (Option α))) :
    PhaseStates (Trail α) (Option WriterResult) where
  I t := t.answers = answers
  V value t := t.answers = answers ∧ t.lastWrite = some (S.itemContext k, kept, .ok value)
  E err t := t.answers = answers ∧ t.lastWrite = some (S.itemContext k, kept, .error err)
  A _ := True

variable (step) in
/-- A write leaves the trail of its answer. -/
theorem writeTrails_sound (S : Setting) (answers : List (α × Except Thrown (Option α))) :
    (writeTrails S k kept answers).Sound (trails step) (S.write k kept) (S.writeHooks k kept) := by
  refine .of_frame (S.writeHooks_within (K := [.listener]) (by decide) k kept)
    (trails_frame (by decide)) ?_ (fun _ _ h => h.1) (fun _ _ => trivial) fun _ _ _ => trivial
  intro t h
  refine wp_orThrow.mpr (Prog.wp_perform.mpr ⟨trivial, ?_⟩)
  intro r t' ht
  rw [show t' = _ from ht]
  cases r with
  | error err => exact ⟨h, rfl⟩
  | ok value => exact ⟨h, rfl⟩

/-- A write phase ends as its last write shows. -/
theorem wp_writePhase_trail (hS : S.Serves step) {items : List α}
    (h : t.lastWrite = none ∧ step.Keeps items t.answers kept) :
    Scoped.wp (trails step) (S.writePhase k kept) (fun out _ t' => ∀ ending, out = .ok ending →
      t'.Shows step S.context.stepExecutionId k items ending) l t := by
  unfold writePhase
  split
  · next hempty =>
      intro ending heq
      cases heq
      exact ⟨kept, h.2, List.isEmpty_iff.mp hempty, h.1⟩
  · refine Scoped.wp_seq (wp_runPhase S.policies
      (writeTrails_sound step S t.answers) rfl) ?_ fun _ _ _ _ _ h => by cases h
    intro r l' t' hended
    obtain ⟨-, hended⟩ := hended
    cases r with
    | ok value =>
        refine wp_seq_countWrite (trails_frame (by decide) _) hended ?_
        intro l'' t'' _ hwritten ending heq
        cases heq
        refine ⟨kept, ?_, S.itemContext k, value, hwritten.2, rfl, rfl⟩
        rw [hwritten.1]
        exact h.2
    | skipped =>
        obtain ⟨err, skipCount, attempt, ⟨hanswers, hwrite⟩, hskip⟩ := hended
        intro ending heq
        cases heq
        refine ⟨kept, ?_, S.itemContext k, err, hwrite, hS.skips ▸ (consult_skip hskip).1, rfl, rfl⟩
        rw [hanswers]
        exact h.2

/-- **A chunk is passed as its trail shows**; nothing is said of the trail behind that. -/
theorem wp_commitChunk_trail (hS : S.Serves step) (items : List α) (ht : t = {}) :
    Scoped.wp (trails step) (S.commitChunk k items) (fun _ _ _ => True) l t := by
  have hstart : t.lastWrite = none ∧ step.Keeps ([] : List α) t.answers [] := by
    rw [ht]
    refine ⟨rfl, ?_⟩
    by_cases hnone : step.processor = none
    · exact Or.inl ⟨hnone, rfl⟩
    · exact Or.inr ⟨hnone, .nil⟩
  unfold commitChunk
  refine Scoped.wp_seq (wp_processPhase_trail hS items hstart) ?_ fun _ _ _ _ => trivial
  intro kept l₁ t₁ h₁
  refine Scoped.wp_seq (wp_writePhase_trail hS (h₁ kept rfl)) ?_ fun _ _ _ _ => trivial
  intro ending l₂ t₂ h₂
  refine Scoped.wp_bind.mpr (Scoped.wp_lift.mpr (Prog.wp_perform.mpr ⟨h₂ ending rfl, ?_⟩))
  intro _ t₃ _
  refine Scoped.wp_seq (Scoped.wp_of_keeps S.keeps_checkpoint (trails_any (by decide)) trivial) ?_
    fun _ _ _ _ => trivial
  intro _ l₄ t₄ _
  rw [Scoped.wp_bind, Scoped.wp_get, Scoped.afterwards_ok]
  refine wp_seq_quiet (K := [.listener]) (quiet_lift (uses_invokeMatching (by decide) _ _ _))
    (trails_any (by decide)) trivial ?_ fun _ _ _ _ _ => trivial
  intro _ l₅ t₅ _ _
  rw [Scoped.wp_modify]
  trivial

/-- Behind a read there is no trail. -/
def readTrails : PhaseStates (Trail α) (Option α) where
  I _ := True
  V _ t := t = {}
  E _ t := t = {}
  A _ := True

variable (step) in
/-- A read leaves no trail. -/
theorem readTrails_sound (S : Setting) :
    (readTrails (α := α)).Sound (trails step) (S.read k) (S.readHooks k) := by
  refine .of_frame (S.readHooks_within (K := [.listener]) (by decide) k)
    (trails_frame (by decide)) ?_ (fun _ _ _ => trivial) (fun _ _ => trivial) fun _ _ _ => trivial
  intro t _
  refine wp_orThrow.mpr (Prog.wp_perform.mpr ⟨trivial, ?_⟩)
  intro r t' ht
  rw [show t' = _ from ht]
  cases r with
  | error err => rfl
  | ok item => rfl

/-- A chunk that has items begins with a read. -/
theorem wp_readPhase_trail (n : Nat) {items : List α} (h : items = [] ∨ t = {}) :
    Scoped.wp (trails step) (S.readPhase k n items) (fun out _ t' =>
      ∀ items', out = .ok items' → items' = [] ∨ t' = {}) l t := by
  induction n generalizing items l t with
  | zero =>
      intro items' heq
      cases heq
      exact h
  | succ n ih =>
      unfold readPhase
      refine Scoped.wp_seq (wp_runPhase S.policies (readTrails_sound step S) trivial) ?_
        fun _ _ _ _ _ h => by cases h
      intro r l' t' hended
      obtain ⟨-, hended⟩ := hended
      cases r with
      | skipped =>
          obtain ⟨_, _, _, hfresh, _⟩ := hended
          exact ih (Or.inr hfresh)
      | ok answer =>
          cases answer with
          | none =>
              intro items' heq
              cases heq
              exact Or.inr hended
          | some item =>
              dsimp only
              rw [Scoped.wp_bind, Scoped.wp_modify, Scoped.afterwards_ok]
              exact ih (Or.inr hended)

/-- **The step lemma.** -/
theorem wp_iteration_trail (hS : S.Serves step) :
    Scoped.wp (trails step) (S.iteration : ChunkCode α Bool) (fun _ _ _ => True) l t := by
  unfold iteration
  rw [Scoped.wp_bind, Scoped.wp_get, Scoped.afterwards_ok]
  split
  · unfold drainChunk
    rw [Scoped.wp_bind, Scoped.wp_get, Scoped.afterwards_ok]
    split
    · trivial
    · refine Scoped.wp_seq (Scoped.wp_lift_of_uses (S.uses_drainItems (K := [.read]) (by decide)
        _ _ _) (trails_any (by decide)) trivial) ?_ fun _ _ _ _ => trivial
      intro drained l₁ t₁ _
      split
      · trivial
      · trivial
  · unfold runChunk
    rw [Scoped.wp_bind, Scoped.wp_get, Scoped.afterwards_ok]
    split
    · trivial
    · refine wp_seq_quiet (K := [.listener]) (quiet_lift (uses_invokeMatching (by decide) _ _ _))
        (trails_any (by decide)) trivial ?_ fun _ _ _ _ _ => trivial
      intro _ l₁ t₁ _ _
      refine Scoped.wp_seq (wp_readPhase_trail _ (Or.inl rfl)) ?_ fun _ _ _ _ => trivial
      intro items l₂ t₂ h₂
      split
      · rw [Scoped.wp_bind, Scoped.wp_get, Scoped.afterwards_ok]
        refine wp_seq_quiet (K := [.listener]) (quiet_lift (uses_invokeMatching (by decide) _ _ _))
          (trails_any (by decide)) trivial ?_ fun _ _ _ _ _ => trivial
        intro _ l₃ t₃ _ _
        trivial
      · next hitems =>
          have hfresh : t₂ = {} := (h₂ items rfl).resolve_left fun h => hitems (by rw [h]; rfl)
          refine Scoped.wp_seq (wp_commitChunk_trail hS items hfresh) ?_ fun _ _ _ _ => trivial
          intro _ l₃ t₃ _
          trivial

/-- **The run lemma.** -/
theorem wp_chunkLoop_trail (hS : S.Serves step) (fuel : Nat) :
    Scoped.wp (trails step) (S.chunkLoop fuel : ChunkCode α Unit) (fun _ _ _ => True) l t := by
  induction fuel generalizing l t with
  | zero => trivial
  | succ fuel ih =>
      refine Scoped.wp_seq (wp_iteration_trail hS) ?_ fun _ _ _ _ => trivial
      intro again l' t' _
      cases again with
      | true => exact ih
      | false => trivial

end Setting

variable {step : ChunkStepDefinition} {context : ChunkExecutionContext} {fuel : Nat}

/-- **Every chunk that a step passes** is passed as its trail shows. -/
theorem execute_trails (fuel : Nat) (t : Trail α) :
    (execute fuel step context : Code α StepResult).wp (trails step) (fun _ _ => True) t := by
  refine Prog.wp_mono (wp_execute_of_body (J := fun _ => True) (A := fun _ => True)
    (C := fun _ => True) (D := fun _ => True) (trails_any (by decide)) (trails_any (by decide))
    (fun _ _ => trivial) (fun _ _ _ _ _ _ _ _ => trivial) (fun _ _ => trivial) ?_ trivial)
    fun _ _ _ => trivial
  intro policies partition t₁ hpolicies _ _
  refine wp_body_of_prepare (trails_any (by decide)) (fun _ _ => trivial) ?_
  have hplain {p : Code α ItemHandler} (hp : p.Uses (On prepareKinds)) (t : Trail α) :
      p.wp (trails step) (fun out _ => True ∧ ∀ handler, out = .ok handler → True) t :=
    Prog.wp_mono (Prog.wp_of_uses hp (trails_any (by decide)) trivial)
      fun _ _ _ => ⟨trivial, fun _ _ => trivial⟩
  refine wp_prepare_of_stages (K := prepareKinds) (J := fun _ => True) (R := fun _ => True)
    (W := fun _ => True) (by decide) (trails_any (by decide)) (fun _ _ _ => trivial)
    (hplain (uses_resolveReader (by decide) (by decide) _ _ _) t₁)
    (fun t _ => hplain (uses_resolveHandler (by decide) _ _ _ _) t) ?_
  intro t₂ _
  have hload : OpKind.loadContext ∈ prepareKinds := by decide
  refine Prog.wp_mono (Prog.wp_of_uses (uses_request hload) (trails_any (by decide)) trivial) ?_
  intro out t₃ _
  refine ⟨trivial, ?_⟩
  intro ctx _ S hfor _ _ hprocessor
  refine Scoped.wp_mono (Scoped.wp_of_keeps (keeps_openStreams (K := prepareKinds) (by decide) _)
    (trails_any (by decide)) trivial) ?_
  intro out l₄ t₄ _
  cases out with
  | error err => trivial
  | ok u =>
      have hserves : S.Serves step := by
        refine ⟨hprocessor, ?_⟩
        rw [hfor.policies]
        exact funext (Policies.compile_skips hpolicies)
      exact Scoped.wp_mono (Setting.wp_chunkLoop_trail hserves fuel)
        fun _ _ _ _ => ⟨trivial, fun _ => trivial⟩

/-- The rules for the trail are the rules for the log. -/
theorem trails_follows (env : Environment α υ) : Prog.Follows (trails step) (worldLogic env).trans
    fun s t => trailOf s.2 = t ∧ (passRules step).Met s.2 := by
  intro o s r s' t hrel hallowed ht
  obtain ⟨htrail, hmet⟩ := hrel
  subst htrail
  cases ht
  exact ⟨_, rfl, trailOf_snoc s.2 o _, hmet.snoc hallowed⟩

/-- In the world, behind any calls. -/
theorem execute_met {env : Environment α υ} {s : World υ × Calls α} (fuel : Nat)
    (context : ChunkExecutionContext) (h : (passRules step).Met s.2) :
    (execute fuel step context : Code α StepResult).wp (worldLogic env)
      (fun _ s' => (passRules step).Met s'.2) s := by
  refine Prog.wp_mono (Prog.wp_simulate (fun _ _ _ _ _ => trivial) (trails_follows env)
    (fun h => h) (execute_trails fuel (trailOf s.2)) ⟨rfl, h⟩) ?_
  intro out s' hended
  obtain ⟨_, ⟨-, hmet⟩, -⟩ := hended
  exact hmet

/-- Wherever a run is cut off. -/
theorem met_of_run {env : Environment α υ} {w w' : World υ} {rest : Code α StepResult}
    {calls : Calls α} (hrun : Prog.Reaches (handle env).traced.trans
      (execute fuel step context, (w, [])) (rest, (w', calls))) : (passRules step).Met calls := by
  obtain ⟨_, ⟨-, hmet⟩, -⟩ := Prog.reaches_simulate (trails_follows env) hrun
    (execute_trails fuel (trailOf [])) ⟨rfl, throughout_nil⟩
  exact hmet

end ChunkStepExecutor

/-- What such a log says of a chunk that it passes. -/
theorem shown_of_met {step : ChunkStepDefinition} {calls : Calls α} (h : (passRules step).Met calls)
    {sid : String} {k : Int} {items : List α} {ending : ChunkEnd}
    (hmem : (⟨.passed sid k items ending, ()⟩ : Prog.Call (Op α) Op.Resp) ∈ calls) :
    ∃ before, before ++ [⟨.passed sid k items ending, ()⟩] <+: calls ∧
      (trailOf before).Shows step sid k items ending := by
  obtain ⟨before, after, hcalls⟩ := List.append_of_mem hmem
  have hprefix : before ++ [⟨.passed sid k items ending, ()⟩] <+: calls := by
    refine ⟨after, ?_⟩
    rw [hcalls, List.append_assoc]
    rfl
  exact ⟨before, hprefix, h before _ hprefix⟩

end NestBatch
