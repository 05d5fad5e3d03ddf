import NestBatch.Execution.ChunkRules

/-!
# The checkpoint protocol

What the writes, the checkpoint and the passing of chunks have to do with each
other, said without the executor: a chunk is written only when it is the next
one after the checkpoint, it is passed once, and the checkpoint moves to it only
then.  `Progress` is the state of that protocol and `protocol` its rules, with
the answers of all user code left open.  A stream may hand back a context whose
checkpoint it has changed or dropped; the protocol remembers that, and asks for
the right checkpoint only while no stream has done so.

The main theorem, `execute_follows`, says that every run of the chunk step
executor obeys the protocol from start to wherever it is cut off.
-/

namespace NestBatch

/-- The chunk after a checkpoint. -/
def nextChunk : Option Int → Int
  | none => 0
  | some k => k + 1

/-- Where a chunk step stands. -/
structure Progress where
  checkpoint : Option Int
  /-- The answer of the last write of the chunk at hand. -/
  lastWrite : Option (Except Thrown (Option WriterResult)) := none
  /-- The chunk at hand is passed and its checkpoint is not yet saved. -/
  passed : Bool := false
  /-- No stream has changed the checkpoint in a context it was handed. -/
  honest : Bool := true
  /-- No stream has set another checkpoint in a context it was handed; it may have dropped it. -/
  kept : Bool := true

/-- The chunk a step is at. -/
abbrev Progress.next (g : Progress) : Int := nextChunk g.checkpoint

/-- The last write of a chunk explains how its write phase ended. -/
def ChunkEnd.BackedBy (policies : Policies)
    (lastWrite : Option (Except Thrown (Option WriterResult))) : ChunkEnd → Prop
  | .written => ∃ value, lastWrite = some (.ok value)
  | .writeSkipped => ∃ err skipCount attempt, lastWrite = some (.error err) ∧
      ChunkStepExecutor.consult policies err skipCount attempt = .skip
  | .nothingToWrite => lastWrite = none

namespace Progress

variable {α : Type}

/-- Whether a stream hands the checkpoint on as it found it. -/
def handedOn (ctx : ExecutionContext) : Except Thrown ExecutionContext → Bool
  | .ok ctx' => readLastCheckpoint ctx' = readLastCheckpoint ctx
  | .error _ => true

/-- Whether a stream hands the checkpoint on as it found it, or no checkpoint. -/
def leftAlone (ctx : ExecutionContext) : Except Thrown ExecutionContext → Bool
  | .ok ctx' => readLastCheckpoint ctx' = readLastCheckpoint ctx ∨ readLastCheckpoint ctx' = none
  | .error _ => true

/-- A stream that hands the checkpoint on leaves it alone. -/
theorem leftAlone_of_handedOn {ctx : ExecutionContext} {r : Except Thrown ExecutionContext}
    (h : handedOn ctx r = true) : leftAlone ctx r = true := by
  cases r with
  | error err => rfl
  | ok ctx' => exact decide_eq_true (.inl (of_decide_eq_true h))

/-- The effect of an operation on the protocol state. -/
def advance : (o : Op α) → o.Resp → Progress → Progress
  | .user (.write _ _ _), r, g => { g with lastWrite := some r }
  | .user (.updateStream _ ctx), r, g =>
      { g with honest := g.honest && handedOn ctx r, kept := g.kept && leftAlone ctx r }
  | .passed _ _ _ _, _, g => { g with passed := true }
  | .saveExecutionContext _ _, _, g =>
      { checkpoint := some g.next, honest := g.honest, kept := g.kept }
  | _, _, g => g

/-- What an operation asks of the protocol state. -/
def Allows (policies : Policies) (stepExecutionId : String) (g : Progress) : Op α → Prop
  | .user (.write _ _ ctx) =>
      ctx.stepExecutionId = stepExecutionId ∧ ctx.chunkIndex = g.next ∧ g.passed = false
  | .passed id chunkIndex _ ending =>
      id = stepExecutionId ∧ chunkIndex = g.next ∧ g.passed = false ∧
        ending.BackedBy policies g.lastWrite
  | .saveExecutionContext scope ctx =>
      scope = .stepExecutionId stepExecutionId ∧
        (g.honest = true → readLastCheckpoint ctx = some g.next) ∧
        (g.kept = true → readLastCheckpoint ctx = some g.next ∨ readLastCheckpoint ctx = none) ∧
        g.passed = true
  | _ => True

/-- A stream that hands the checkpoint on leaves the protocol where it is. -/
theorem advance_updateStream {stream : Handle} {ctx : ExecutionContext}
    {r : Except Thrown ExecutionContext} (h : handedOn ctx r = true) (g : Progress) :
    g.advance (.user (.updateStream stream ctx) : Op α) r = g := by
  unfold advance
  simp only [h, leftAlone_of_handedOn h, Bool.and_true]

end Progress

/-- The rules of the protocol, for one step execution. -/
def protocol {α : Type} (policies : Policies) (stepExecutionId : String) :
    Prog.Logic (Op α) Op.Resp Progress where
  trans o g r g' := g' = g.advance o r
  guard o g := g.Allows policies stepExecutionId o
  loops := True

/-- The operations the protocol looks at. -/
def protocolKinds : List OpKind := [.write, .updateStream, .passed, .saveContext]

section Frame

variable {α : Type} {policies : Policies} {sid : String} {K : List OpKind}

theorem Progress.advance_of_kind {o : Op α} (h : o.kind ∉ protocolKinds) (r : o.Resp)
    (g : Progress) : g.advance o r = g := by
  cases o with
  | user call =>
      cases call with
      | write => exact absurd (by simp [protocolKinds, Op.kind, UserCall.kind]) h
      | updateStream => exact absurd (by simp [protocolKinds, Op.kind, UserCall.kind]) h
      | _ => rfl
  | passed => exact absurd (by simp [protocolKinds, Op.kind]) h
  | saveExecutionContext => exact absurd (by simp [protocolKinds, Op.kind]) h
  | _ => rfl

theorem Progress.allows_of_kind {o : Op α} (h : o.kind ∉ protocolKinds) (g : Progress) :
    g.Allows policies sid o := by
  cases o with
  | user call =>
      cases call with
      | write => exact absurd (by simp [protocolKinds, Op.kind, UserCall.kind]) h
      | _ => trivial
  | passed => exact absurd (by simp [protocolKinds, Op.kind]) h
  | saveExecutionContext => exact absurd (by simp [protocolKinds, Op.kind]) h
  | _ => trivial

/-- Operations the protocol does not look at keep whatever is said of its state. -/
theorem protocol_frame (h : ∀ k ∈ K, k ∉ protocolKinds) (J : Progress → Prop) :
    (protocol (α := α) policies sid).Frame (On K) J where
  guard _ g ho _ := g.allows_of_kind (h _ ho)
  keep o g r g' ho hg ht := by
    rw [show g' = g.advance o r from ht, Progress.advance_of_kind (h _ ho)]
    exact hg
  loops h := h.elim

end Frame

namespace ChunkStepExecutor

open ListenerInvoker

variable {α : Type} {step : ChunkStepDefinition} {context : ChunkExecutionContext}

namespace Setting

variable (S : Setting)

/-- The rules for the step execution of a setting. -/
def rules : Prog.Logic (Op α) Op.Resp Progress :=
  protocol S.policies S.context.stepExecutionId

/-- Listeners leave the protocol state alone. -/
theorem rules_listeners (J : Progress → Prop) : (S.rules (α := α)).Frame (On [.listener]) J :=
  protocol_frame (by decide) J

/-- The states of a write phase that starts in `g`. -/
def writeStates (g : Progress) : PhaseStates Progress (Option WriterResult) where
  I g' := g'.checkpoint = g.checkpoint ∧ g'.passed = false
  V value g' := (g'.checkpoint = g.checkpoint ∧ g'.passed = false) ∧
    g'.lastWrite = some (.ok value)
  E err g' := (g'.checkpoint = g.checkpoint ∧ g'.passed = false) ∧
    g'.lastWrite = some (.error err)
  A _ := True

/-- A single attempt to write the chunk at hand. -/
theorem wp_write {g g' : Progress} (hg' : (writeStates g).I g') (processed : List α) :
    (S.write g.next processed).wp S.rules (writeStates g).attempted g' := by
  obtain ⟨hcheckpoint, hpassed⟩ := hg'
  refine wp_orThrow.mpr (Prog.wp_perform.mpr ⟨⟨rfl, ?_, hpassed⟩, ?_⟩)
  · exact congrArg nextChunk hcheckpoint.symm
  · intro out g'' heq
    subst heq
    rcases out with err | value
    · exact ⟨⟨hcheckpoint, hpassed⟩, rfl⟩
    · exact ⟨⟨hcheckpoint, hpassed⟩, rfl⟩

/-- A write keeps to the protocol. -/
theorem writeStates_sound (g : Progress) (processed : List α) :
    (writeStates g).Sound S.rules (S.write g.next processed) (S.writeHooks g.next processed) :=
  .of_frame (S.writeHooks_within (by decide) g.next processed) S.rules_listeners
    (fun _ hg' => S.wp_write hg' processed) (fun _ _ h => h.1) (fun _ _ => trivial)
    fun _ _ _ => trivial

/-- The write phase of the chunk at hand: the last write explains its end. -/
theorem wp_writePhase {g : Progress} (hpassed : g.passed = false) (hnone : g.lastWrite = none)
    (processed : List α) {l : Locals} :
    Scoped.wp S.rules (S.writePhase g.next processed) (fun out l' g' => SameChunk l l' ∧
      match out with
      | .ok ending => (g'.checkpoint = g.checkpoint ∧ g'.passed = false) ∧
          ending.BackedBy S.policies g'.lastWrite
      | .error _ => True) l g := by
  unfold writePhase
  split
  · exact ⟨.refl l, ⟨rfl, hpassed⟩, hnone⟩
  · have hphase := wp_runPhase (l := l) (s := g) S.policies (S.writeStates_sound g processed)
      ⟨rfl, hpassed⟩
    refine Scoped.wp_seq hphase ?_ fun _ l' _ h => ⟨h.1, trivial⟩
    intro outcome l' g' hcase
    obtain ⟨hl, hended⟩ := hcase
    rcases outcome with value | _
    · refine wp_seq_countWrite (protocol_frame (by decide) ((writeStates g).V value)) hended ?_
      intro l'' g'' hcounted hended'
      exact ⟨.trans _ _ _ hl hcounted, hended'.1, value, hended'.2⟩
    · obtain ⟨err, skipCount, attempt, ⟨hstate, hlast⟩, hskip⟩ := hended
      exact ⟨hl, hstate, err, skipCount, attempt, hlast, hskip⟩

/-- Between chunks: nothing of the chunk at hand has happened yet. -/
def Fresh (g : Progress) : Prop := g.passed = false ∧ g.lastWrite = none

/-- While no stream changes it, the checkpoint comes out as it went in. -/
theorem wp_updateStreams (streams : List Handle) (ctx : ExecutionContext) (g : Progress) :
    (updateStreams streams ctx : Code α ExecutionContext).wp S.rules (fun out g' =>
      g'.checkpoint = g.checkpoint ∧ g'.passed = g.passed ∧
      ∀ ctx', out = .ok ctx' →
        (g'.honest = true → readLastCheckpoint ctx' = readLastCheckpoint ctx ∧ g.honest = true) ∧
        (g'.kept = true → (readLastCheckpoint ctx' = readLastCheckpoint ctx ∨
          readLastCheckpoint ctx' = none) ∧ g.kept = true)) g := by
  induction streams generalizing ctx g with
  | nil =>
      refine ⟨rfl, rfl, ?_⟩
      intro ctx' h
      cases h
      exact ⟨fun hhonest => ⟨rfl, hhonest⟩, fun hkept => ⟨.inl rfl, hkept⟩⟩
  | cons stream rest ih =>
      refine Prog.wp_bind.mpr (wp_orThrow.mpr (Prog.wp_perform.mpr ⟨trivial, ?_⟩))
      intro outcome g' heq
      subst heq
      rcases outcome with err | next
      · exact ⟨rfl, rfl, fun _ h => by cases h⟩
      · refine Prog.wp_mono (ih next _) ?_
        intro out g' h
        obtain ⟨hcheckpoint, hpassed, hhanded⟩ := h
        refine ⟨hcheckpoint, hpassed, ?_⟩
        intro ctx' hout
        obtain ⟨hhonest', hkept'⟩ := hhanded ctx' hout
        constructor
        · intro hhonest
          obtain ⟨hctx', hbefore⟩ := hhonest' hhonest
          have hboth : g.honest = true ∧ readLastCheckpoint next = readLastCheckpoint ctx := by
            simpa [Progress.advance, Progress.handedOn] using hbefore
          exact ⟨hctx'.trans hboth.2, hboth.1⟩
        · intro hkept
          obtain ⟨hctx', hbefore⟩ := hkept' hkept
          have hboth : g.kept = true ∧ (readLastCheckpoint next = readLastCheckpoint ctx ∨
              readLastCheckpoint next = none) := by
            simpa [Progress.advance, Progress.leftAlone] using hbefore
          -- a checkpoint that one stream drops stays dropped
          refine ⟨?_, hboth.1⟩
          grind

/-- Saving the checkpoint of a passed chunk moves the protocol to the next one. -/
theorem wp_checkpoint {g : Progress} (hpassed : g.passed = true) {l : Locals}
    (hl : l.chunkIndex = g.next) :
    Scoped.wp S.rules (S.checkpoint : ChunkCode α Unit) (fun out l' g' => out = .ok () →
      l'.chunkIndex = l.chunkIndex ∧ g'.checkpoint = some g.next ∧ Fresh g') l g := by
  unfold checkpoint
  rw [Scoped.wp_bind, Scoped.wp_modify, Scoped.afterwards_ok, Scoped.wp_bind, Scoped.wp_get,
    Scoped.afterwards_ok, Scoped.wp_bind, Scoped.wp_lift]
  refine Prog.wp_mono (S.wp_updateStreams _ _ g) ?_
  intro outcome g₁ hcase
  obtain ⟨hcheckpoint, hpassed₁, hhanded⟩ := hcase
  rcases outcome with err | next
  · exact fun h => by cases h
  · have hsame : g₁.next = g.next := congrArg nextChunk hcheckpoint
    have hset (ctx : ExecutionContext) :
        readLastCheckpoint (withLastChunkIndex ctx l.chunkIndex) = some g₁.next := by
      rw [readLastCheckpoint_withLastChunkIndex, hl, hsame]
    have hsaved : g₁.honest = true → readLastCheckpoint next = some g₁.next := by
      intro hhonest
      rw [((hhanded next rfl).1 hhonest).1, hset]
    have hkept : g₁.kept = true →
        readLastCheckpoint next = some g₁.next ∨ readLastCheckpoint next = none := by
      intro hkept
      exact ((hhanded next rfl).2 hkept).1.imp_left fun h => h.trans (hset _)
    rw [Scoped.afterwards_ok, Scoped.wp_bind, Scoped.wp_modify, Scoped.afterwards_ok,
      Scoped.wp_bind, Scoped.wp_lift]
    refine Prog.wp_perform.mpr ⟨⟨rfl, hsaved, hkept, hpassed₁.trans hpassed⟩, ?_⟩
    intro _ g₂ heq
    subst heq
    refine Scoped.wp_bind.mpr (Scoped.wp_lift.mpr (Prog.wp_perform.mpr ⟨trivial, ?_⟩))
    intro reloaded g₃ heq
    subst heq
    exact fun _ => ⟨rfl, congrArg some hsame, rfl, rfl⟩

/-- A chunk that commits is the one at hand, and the next one is at hand after it. -/
theorem wp_commitChunk {g : Progress} (hg : Fresh g) {l : Locals} (hl : l.chunkIndex = g.next)
    (items : List α) :
    Scoped.wp S.rules (S.commitChunk l.chunkIndex items) (fun out l' g' => out = .ok () →
      l'.chunkIndex = g'.next ∧ g'.checkpoint = some g.next ∧ Fresh g') l g := by
  unfold commitChunk
  refine wp_seq_quiet (S.quiet_processPhase (K := [.process, .listener]) (by decide) (by decide)
    _ _ _) (protocol_frame (by decide) (g = ·)) rfl ?_ fun _ _ _ _ _ h => by cases h
  intro processed l₁ _ hl₁ heq
  subst heq
  rw [hl]
  refine Scoped.wp_seq (S.wp_writePhase hg.1 hg.2 processed) ?_ fun _ _ _ _ h => by cases h
  intro ending l₂ g₂ hcase
  obtain ⟨hl₂, ⟨hcheckpoint, hpassed⟩, hbacked⟩ := hcase
  have hnext : g₂.next = l.chunkIndex := (congrArg nextChunk hcheckpoint).trans hl.symm
  refine Scoped.wp_bind.mpr (Scoped.wp_lift.mpr (Prog.wp_perform.mpr
    ⟨⟨rfl, hl.symm.trans hnext.symm, hpassed, hbacked⟩, ?_⟩))
  intro _ g₃ heq
  subst heq
  have hindex : l₂.chunkIndex = l.chunkIndex := hl₂.chunkIndex.trans hl₁.chunkIndex
  refine Scoped.wp_seq (S.wp_checkpoint rfl (hindex.trans hnext.symm)) ?_
    fun _ _ _ _ h => by cases h
  intro _ l₄ g₄ h₄
  obtain ⟨hl₄, hg₄, hfresh⟩ := h₄ rfl
  rw [Scoped.wp_bind, Scoped.wp_get, Scoped.afterwards_ok]
  refine wp_seq_quiet (K := [.listener]) (quiet_lift (uses_invokeMatching (by decide) _ _ _))
    (S.rules_listeners (g₄ = ·)) rfl ?_ fun _ _ _ _ _ h => by cases h
  intro _ l₅ _ hl₅ heq
  subst heq
  rw [Scoped.wp_modify]
  intro _
  have hcommitted : g₄.checkpoint = some g.next := by
    rw [hg₄]
    exact congrArg (some ∘ nextChunk) hcheckpoint
  refine ⟨?_, hcommitted, hfresh⟩
  have hlast : l₅.chunkIndex = g.next := by
    rw [hl₅.chunkIndex, hl₄, hindex, hl]
  have hnew : g₄.next = g.next + 1 := congrArg nextChunk hcommitted
  rw [hnew]
  exact congrArg (· + 1) hlast

/-- What an iteration on the chunk at hand leaves: the next chunk, or the end at this one. -/
def IterationEnd (g : Progress) : Except Thrown Bool → Locals → Progress → Prop
  | .ok true, l', g' => l'.chunkIndex = g'.next ∧ g'.checkpoint = some g.next ∧ Fresh g'
  | .ok false, l', g' => l'.chunkIndex ≤ g'.next
  | .error _, _, _ => True

/-- The iteration reads, processes, writes and commits the chunk at hand, or ends the loop. -/
theorem wp_runChunk {g : Progress} (hg : Fresh g) {l : Locals} (hl : l.chunkIndex = g.next) :
    Scoped.wp S.rules (S.runChunk : ChunkCode α Bool) (IterationEnd g) l g := by
  unfold runChunk
  rw [Scoped.wp_bind, Scoped.wp_get, Scoped.afterwards_ok]
  split
  · exact Int.le_of_eq hl
  · refine wp_seq_quiet (K := [.listener]) (quiet_lift (uses_invokeMatching (by decide) _ _ _))
      (S.rules_listeners (g = ·)) rfl ?_ fun _ _ _ _ _ => trivial
    intro _ l₁ g₁ hl₁ hg₁
    subst hg₁
    refine wp_seq_quiet (S.quiet_readPhase (K := [.read, .listener]) (by decide) (by decide) _ _ _)
      (protocol_frame (by decide) (g = ·)) rfl ?_ fun _ _ _ _ _ => trivial
    intro items l₂ g₂ hl₂ hg₂
    subst hg₂
    have hindex : l₂.chunkIndex = l.chunkIndex := hl₂.chunkIndex.trans hl₁.chunkIndex
    split
    · rw [Scoped.wp_bind, Scoped.wp_get, Scoped.afterwards_ok]
      refine wp_seq_quiet (K := [.listener]) (quiet_lift (uses_invokeMatching (by decide) _ _ _))
        (S.rules_listeners (g = ·)) rfl ?_ fun _ _ _ _ _ => trivial
      intro _ l₃ g₃ hl₃ hg₃
      subst hg₃
      exact Int.le_of_eq (hl₃.chunkIndex.trans (hindex.trans hl))
    · rw [← hindex]
      refine Scoped.wp_seq (S.wp_commitChunk hg (hindex.trans hl) items) ?_ fun _ _ _ _ => trivial
      intro _ l₃ g₃ h₃
      exact h₃ rfl

/-- At the head of the loop: at the next chunk, or still draining towards it. -/
structure AtHead (l : Locals) (g : Progress) : Prop where
  fresh : Fresh g
  resumed : ∀ resume, S.context.resumeFromChunkIndex = some resume → resume < g.next
  place : l.chunkIndex = g.next ∨ (g.checkpoint = S.context.resumeFromChunkIndex ∧
    S.reader.isStream = false ∧ 0 ≤ l.chunkIndex ∧ l.chunkIndex ≤ g.next)

variable {S}

/-- A chunk that need not be drained is the next one. -/
theorem AtHead.next {l : Locals} {g : Progress} (h : S.AtHead l g)
    (hdrain : S.mustDrain l.chunkIndex = false) : l.chunkIndex = g.next := by
  rcases h.place with h' | ⟨hcheckpoint, hplain, hlow, hhigh⟩
  · exact h'
  · unfold Progress.next at hhigh ⊢
    rw [hcheckpoint] at hhigh ⊢
    unfold mustDrain at hdrain
    cases hresume : S.context.resumeFromChunkIndex with
    | none =>
        simp only [hresume, nextChunk] at hhigh ⊢
        omega
    | some resume =>
        simp only [hresume, nextChunk, hplain, Bool.not_false, Bool.true_and,
          decide_eq_false_iff_not] at hdrain hhigh ⊢
        omega

/-- Draining a chunk stays on the way to the next one. -/
theorem AtHead.drain {l : Locals} {g : Progress} (h : S.AtHead l g)
    (hdrain : S.mustDrain l.chunkIndex = true) :
    S.AtHead { l with chunkIndex := l.chunkIndex + 1 } g := by
  unfold mustDrain at hdrain
  cases hresume : S.context.resumeFromChunkIndex with
  | none => simp [hresume] at hdrain
  | some resume =>
      simp only [hresume, Bool.and_eq_true, Bool.not_eq_true', decide_eq_true_eq] at hdrain
      have hlt := h.resumed resume hresume
      refine ⟨h.fresh, h.resumed, ?_⟩
      rcases h.place with h' | ⟨hcheckpoint, hplain, hlow, hhigh⟩
      · omega
      · exact .inr ⟨hcheckpoint, hplain, by dsimp only; omega, by dsimp only; omega⟩

/-- Committing the next chunk leads to the head of the loop again. -/
theorem AtHead.commit {l l' : Locals} {g g' : Progress} (h : S.AtHead l g)
    (hl' : l'.chunkIndex = g'.next) (hg' : g'.checkpoint = some g.next) (hfresh : Fresh g') :
    S.AtHead l' g' := by
  refine ⟨hfresh, ?_, .inl hl'⟩
  intro resume hresume
  have hlt := h.resumed resume hresume
  have hnext : g'.next = g.next + 1 := congrArg nextChunk hg'
  omega

/-- The loop is never ahead of the next chunk. -/
theorem AtHead.le_next {l : Locals} {g : Progress} (h : S.AtHead l g) : l.chunkIndex ≤ g.next := by
  rcases h.place with h' | ⟨-, -, -, hhigh⟩
  · exact Int.le_of_eq h'
  · exact hhigh

/-- Where the loop starts, the checkpoint being the one the run resumes from. -/
theorem atHead_first {l : Locals} {g : Progress} (hfresh : Fresh g)
    (hcheckpoint : g.checkpoint = S.context.resumeFromChunkIndex) (hnonneg : 0 ≤ g.next)
    (hl : SameCounters { chunkIndex := S.firstChunk } l) : S.AtHead l g := by
  have hindex : l.chunkIndex = S.firstChunk := hl.chunkIndex
  unfold firstChunk at hindex
  refine ⟨hfresh, ?_, ?_⟩
  · intro resume hresume
    unfold Progress.next
    rw [hcheckpoint, hresume]
    exact Int.lt_add_one_iff.mpr (Int.le_refl resume)
  · cases hresume : S.context.resumeFromChunkIndex with
    | none =>
        refine .inl ?_
        rw [hresume] at hindex
        unfold Progress.next
        rw [hcheckpoint, hresume, hindex]
        rfl
    | some resume =>
        rw [hresume] at hindex
        cases hstream : S.reader.isStream with
        | true =>
            refine .inl ?_
            unfold Progress.next
            rw [hcheckpoint, hresume, hindex]
            simp [hstream, nextChunk]
        | false =>
            simp only [hstream, Bool.false_eq_true, if_false] at hindex
            exact .inr ⟨hresume ▸ hcheckpoint, rfl, by omega, by omega⟩

/-- What the chunk loop keeps from one iteration to the next, and where it ends. -/
def LoopState (S : Setting) : Except Thrown Bool → Locals → Progress → Prop
  | .ok true, l, g => S.AtHead l g
  | .ok false, l, g => l.chunkIndex ≤ g.next
  | .error _, _, _ => True

/-- **The step lemma of the chunk loop.** -/
theorem wp_iteration {g : Progress} {l : Locals} (h : S.AtHead l g) :
    Scoped.wp S.rules (S.iteration : ChunkCode α Bool) S.LoopState l g := by
  unfold iteration
  rw [Scoped.wp_bind, Scoped.wp_get, Scoped.afterwards_ok]
  split
  · next hdrain =>
      unfold drainChunk
      rw [Scoped.wp_bind, Scoped.wp_get, Scoped.afterwards_ok]
      split
      · exact h.le_next
      · refine Scoped.wp_seq (Scoped.wp_lift_of_uses (S.uses_drainItems (K := [.read])
          (by decide) _ _ _) (protocol_frame (by decide) (g = ·)) rfl) ?_ fun _ _ _ _ => trivial
        intro drained l₁ g₁ h₁
        obtain ⟨rfl, rfl⟩ := h₁
        split
        · exact h.le_next
        · rw [Scoped.wp_bind, Scoped.wp_modify, Scoped.afterwards_ok]
          exact h.drain hdrain
  · next hdrain =>
      have hnext := h.next (Bool.not_eq_true _ ▸ hdrain)
      refine Scoped.wp_mono (S.wp_runChunk h.fresh hnext) ?_
      intro out l' g' hout
      match out with
      | .ok true => exact h.commit hout.1 hout.2.1 hout.2.2
      | .ok false => exact hout
      | .error _ => trivial

/-- **The run lemma of the chunk loop.** -/
theorem wp_chunkLoop (fuel : Nat) {g : Progress} {l : Locals} (h : S.AtHead l g) :
    Scoped.wp S.rules (S.chunkLoop fuel : ChunkCode α Unit)
      (fun out l' g' => out = .ok () → l'.chunkIndex ≤ g'.next) l g := by
  induction fuel generalizing l g with
  | zero => trivial
  | succ fuel ih =>
      refine Scoped.wp_seq (wp_iteration h) ?_ fun _ _ _ _ h => by cases h
      intro again l' g' hagain
      cases again with
      | true => exact ih hagain
      | false => exact fun _ => hagain

end Setting

/-- The states of a step that resumes in `g`. -/
def protocolStates (g : Progress) : StepStates Progress where
  J g' := g = g'
  A _ := True
  C _ := True
  R _ := True

/-- A step keeps to the protocol. -/
theorem protocolStates_sound {policies : Policies} {sid : String} (g : Progress) :
    (protocolStates g).Sound (α := α) (protocol policies sid) step context where
  before := protocol_frame (by decide) _
  preparing := protocol_frame (by decide) _
  closing := protocol_frame (by decide) _
  closingC := protocol_frame (by decide) _
  reader s hs := by
    refine Prog.wp_mono (Prog.wp_of_uses (F := On prepareKinds)
      (uses_resolveReader (by decide) (by decide) _ _ _) (protocol_frame (by decide) (g = ·)) hs) ?_
    intro out s' h
    exact ⟨h, fun _ _ => trivial⟩
  weaken _ _ := trivial
  ended _ _ := trivial

/-- The loop of a step is the loop of the protocol, and ends at the chunk at hand. -/
theorem wp_loop_protocol {policies compiled : Policies} {partition : Option (Int × Int)}
    (hpolicies : ∀ compiled, Policies.compile step = .ok compiled → compiled = policies)
    {g : Progress} (hfresh : Setting.Fresh g)
    (hcheckpoint : g.checkpoint = context.resumeFromChunkIndex) (hnonneg : 0 ≤ g.next) (fuel : Nat)
    {S : Setting} {l : Locals} (hcompiled : Policies.compile step = .ok compiled)
    (hS : S.For step context compiled partition)
    (hl : SameCounters { chunkIndex := S.firstChunk } l) :
    Scoped.wp (protocol policies context.stepExecutionId) (S.chunkLoop fuel : ChunkCode α Unit)
      (fun out l' g' => out = .ok () → l'.chunkIndex ≤ g'.next) l g := by
  obtain rfl := hpolicies compiled hcompiled
  have hrules : protocol compiled context.stepExecutionId = (S.rules : Prog.Logic (Op α) _ _) := by
    unfold Setting.rules
    rw [hS.policies, hS.context]
  rw [hrules]
  exact Setting.wp_chunkLoop fuel
    (Setting.atHead_first hfresh (hS.context ▸ hcheckpoint) hnonneg hl)

/-- **The chunk step executor follows the checkpoint protocol**, from the
checkpoint it resumes from. -/
theorem execute_follows {policies : Policies}
    (hpolicies : ∀ compiled, Policies.compile step = .ok compiled → compiled = policies)
    {g : Progress} (hfresh : Setting.Fresh g)
    (hcheckpoint : g.checkpoint = context.resumeFromChunkIndex) (hnonneg : 0 ≤ g.next)
    (fuel : Nat) :
    (execute fuel step context : Code α StepResult).wp
      (protocol policies context.stepExecutionId) (fun _ _ => True) g := by
  have hloop : (protocolStates g).Loop (α := α) (protocol policies context.stepExecutionId)
      step context fuel := by
    intro compiled partition S l s hcompiled _ hS _ hl hs
    obtain rfl : g = s := hs
    refine Scoped.wp_mono (wp_loop_protocol hpolicies hfresh hcheckpoint hnonneg fuel hcompiled hS
      hl) ?_
    intro _ _ _ _
    exact ⟨trivial, fun _ => trivial⟩
  refine Prog.wp_mono (StepStates.wp_execute (D := fun _ => True) (protocolStates_sound g) hloop
    (fun _ _ _ _ _ _ _ _ => trivial) (fun _ _ => trivial) rfl) ?_
  intro _ _ _
  trivial

end ChunkStepExecutor

end NestBatch
