import NestBatch.Execution.ChunkRules

/-!
# The header flag and the checkpoint

What the flag of a writer has to do with the checkpoint of its step, said without the
writer.  A writer takes its flag from the context that it is opened on and hands it on to
the context that is saved behind every chunk; a write that goes well leaves the flag set.

The main theorem, `execute_flags`, says that the chunk step executor writes only where
the flag of a file with text is set.  A run whose checkpoint knew of the text leaves a
checkpoint that does, unless other code throws between a write and its checkpoint.
-/

namespace NestBatch

/-- What matters to the header of a file. -/
structure HeaderState where
  /-- The file has some text. -/
  text : Bool
  /-- The flag of the writer. -/
  flag : Bool
  /-- The flag in the context that is persisted for the step. -/
  saved : Bool

/-- The writer in its step. -/
structure HeaderStep where
  writer : Handle
  stepExecutionId : String
  /-- The lambda that the step has for its writer, if it has one. -/
  lambda : Option Handle
  /-- The flag in a context. -/
  flag : ExecutionContext → Bool
  /-- Neither a listener behind a write nor a stream that is updated throws. -/
  calm : Prop

namespace HeaderState

variable {α : Type}

/-- The flag is set if there is text. -/
def Flagged (g : HeaderState) : Prop := g.text = true → g.flag = true

/-- So is the one that a restart would find. -/
def Saved (g : HeaderState) : Prop := g.text = true → g.saved = true

/-- What an operation may answer, and what becomes of the flags. -/
def Moves (H : HeaderStep) : (o : Op α) → HeaderState → o.Resp → HeaderState → Prop
  | .user (.invoke fn), g, r, g' => g' = g ∧ (H.lambda = some fn → ∀ c, r = .ok c →
      ChunkStepExecutor.fromLambda fn c = { target := H.writer, isStream := true })
  | .user (.openStream stream ctx), g, r, g' =>
      (∀ ctx', r = .ok ctx' → H.flag ctx' = H.flag ctx) ∧
        g' = if stream = H.writer then { g with flag := H.flag ctx } else g
  | .user (.updateStream stream ctx), g, r, g' => g' = g ∧
      (∀ ctx', r = .ok ctx' →
        H.flag ctx' = if stream = H.writer then g.flag else H.flag ctx) ∧
      (H.calm → ∀ err, r ≠ .error err)
  | .user (.write writer _ _), g, r, g' =>
      if writer = H.writer then
        g'.saved = g.saved ∧ (g.Flagged → g'.Flagged) ∧ ∀ err, r = .error err → g'.text = g.text
      else g' = g
  | .user (.listener _ key _), g, r, g' => g' = g ∧
      (H.calm → key = .lifecycle .after .itemWrite → r = .ok ())
  | .getExecutionContext scope, g, r, g' => g' = g ∧
      (scope = .stepExecutionId H.stepExecutionId → H.flag r = g.saved)
  | .saveExecutionContext scope ctx, g, _, g' =>
      g' = if scope = .stepExecutionId H.stepExecutionId then { g with saved := H.flag ctx } else g
  | _, g, _, g' => g' = g

/-- A batch is written only where the flag of a file with text is set. -/
def Allows (H : HeaderStep) (g : HeaderState) : Op α → Prop
  | .user (.write writer _ _) => writer = H.writer → g.Flagged
  | _ => True

/-- The operations that move a flag. -/
def movingKinds : List OpKind := [.openStream, .write, .saveContext]

/-- Other calls leave the header's state alone. -/
theorem Moves.eq {H : HeaderStep} {o : Op α} {g g' : HeaderState} {r : o.Resp}
    (ho : o.kind ∉ movingKinds) (h : Moves H o g r g') : g' = g := by
  cases o with
  | user call =>
      cases call with
      | openStream => exact absurd (by simp [movingKinds, Op.kind, UserCall.kind]) ho
      | write => exact absurd (by simp [movingKinds, Op.kind, UserCall.kind]) ho
      | invoke => exact h.1
      | updateStream => exact h.1
      | listener => exact h.1
      | _ => exact h
  | saveExecutionContext => exact absurd (by simp [movingKinds, Op.kind]) ho
  | getExecutionContext => exact h.1
  | _ => exact h

theorem allows_of_kind {H : HeaderStep} {o : Op α} (ho : o.kind ∉ movingKinds) (g : HeaderState) :
    g.Allows H o := by
  cases o with
  | user call =>
      cases call with
      | write => exact absurd (by simp [movingKinds, Op.kind, UserCall.kind]) ho
      | _ => trivial
  | _ => trivial

end HeaderState

/-- The rules of the flags. -/
def headerRules {α : Type} (H : HeaderStep) : Prog.Logic (Op α) Op.Resp HeaderState where
  trans o g r g' := HeaderState.Moves H o g r g'
  guard o g := g.Allows H o
  loops := True

/-- Operations that move no flag keep whatever is said of them. -/
theorem headerRules_frame {α : Type} {H : HeaderStep} {K : List OpKind}
    (hK : ∀ k ∈ K, k ∉ HeaderState.movingKinds) (J : HeaderState → Prop) :
    (headerRules (α := α) H).Frame (On K) J where
  guard _ g ho _ := HeaderState.allows_of_kind (hK _ ho) g
  keep _ _ _ _ ho hg ht := HeaderState.Moves.eq (hK _ ho) ht ▸ hg
  loops h := h.elim

namespace ChunkStepExecutor

open ListenerInvoker HeaderState

variable {α : Type} {H : HeaderStep} {S : Setting} {step : ChunkStepDefinition}
  {context : ChunkExecutionContext} {g : HeaderState} {l : Locals}

/-- What the loop needs of the flags, and keeps. -/
structure Ready (H : HeaderStep) (g : HeaderState) : Prop where
  flagged : g.Flagged
  saved : H.calm → g.Saved

/-- The writer of the step, opened last. -/
structure Setting.Writes (H : HeaderStep) (S : Setting) : Prop where
  writer : S.writer = { target := H.writer, isStream := true }
  stepExecutionId : S.context.stepExecutionId = H.stepExecutionId

/-- A setting that writes has the writer as its last stream. -/
theorem Setting.Writes.streams (hS : S.Writes H) : ∃ front, S.streams = front ++ [H.writer] := by
  refine ⟨if S.reader.isStream then [S.reader.target] else [], ?_⟩
  unfold Setting.streams
  rw [hS.writer]
  rfl

/-! ### Opening and updating the streams -/

/-- A stream that is opened keeps the flag in the context, and the writer takes it. -/
theorem wp_openStreams_flag (streams : List Handle) (hctx : H.flag l.streamContext = g.saved)
    (hsaved : g.Saved) (hopened : H.writer ∈ l.openedStreams → g.Flagged) :
    Scoped.wp (headerRules H) (openStreams streams : ChunkCode α Unit) (fun out l' g' =>
      g'.Saved ∧ (out = .ok () → l'.openedStreams = l.openedStreams ++ streams ∧
        (H.writer ∈ l'.openedStreams → g'.Flagged))) l g := by
  induction streams generalizing l g with
  | nil => exact ⟨hsaved, fun _ => ⟨(List.append_nil _).symm, hopened⟩⟩
  | cons stream rest ih =>
      refine wp_openStreams_cons trivial ?_
      intro answer g' ht
      obtain ⟨hflag, hmoved⟩ := ht
      have hsaved' : g'.saved = g.saved ∧ g'.Saved := by
        rw [hmoved]
        split
        · exact ⟨rfl, hsaved⟩
        · exact ⟨rfl, hsaved⟩
      cases answer with
      | error err => exact ⟨hsaved'.2, fun h => by cases h⟩
      | ok ctx =>
          have hopened' : H.writer ∈ l.openedStreams ++ [stream] → g'.Flagged := by
            intro hmem
            rw [hmoved]
            split
            · next hwriter =>
                intro htext
                exact hctx.trans (hsaved htext)
            · next hother =>
                rcases List.mem_append.mp hmem with hmem | hmem
                · exact hopened hmem
                · exact absurd (List.mem_singleton.mp hmem).symm hother
          refine Scoped.wp_mono (ih (((hflag ctx rfl).trans hctx).trans hsaved'.1.symm) hsaved'.2
            hopened') ?_
          intro out l₂ g₂ h₂
          refine ⟨h₂.1, fun hout => ?_⟩
          obtain ⟨hstreams, hflagged⟩ := h₂.2 hout
          exact ⟨hstreams.trans (List.append_assoc _ _ _), hflagged⟩

/-- What the writer is last to update has its flag. -/
theorem wp_updateStreams_flag (front : List Handle) (ctx : ExecutionContext) (g : HeaderState) :
    (updateStreams (front ++ [H.writer]) ctx : Code α ExecutionContext).wp (headerRules H)
      (fun out g' => g' = g ∧ (∀ ctx', out = .ok ctx' → H.flag ctx' = g.flag) ∧
        (H.calm → ∀ err, out ≠ .error err)) g := by
  induction front generalizing ctx with
  | nil =>
      refine Prog.wp_bind.mpr (wp_orThrow.mpr (Prog.wp_perform.mpr ⟨trivial, ?_⟩))
      intro r g' ht
      obtain ⟨rfl, hflag, hcalm⟩ := ht
      cases r with
      | error err => exact ⟨rfl, fun _ h => (by cases h), fun h => absurd rfl (hcalm h err)⟩
      | ok next =>
          have hnext := hflag next rfl
          rw [if_pos rfl] at hnext
          refine ⟨rfl, ?_, fun _ err h => by cases h⟩
          intro ctx' hcase
          cases hcase
          exact hnext
  | cons stream rest ih =>
      refine Prog.wp_bind.mpr (wp_orThrow.mpr (Prog.wp_perform.mpr ⟨trivial, ?_⟩))
      intro r g' ht
      obtain ⟨rfl, -, hcalm⟩ := ht
      cases r with
      | error err => exact ⟨rfl, fun _ h => (by cases h), fun h => absurd rfl (hcalm h err)⟩
      | ok next => exact ih next

/-! ### Writing a chunk, and its checkpoint -/

/-- The states of a write phase. -/
def headerWriteStates (H : HeaderStep) : PhaseStates HeaderState (Option WriterResult) where
  I g := Ready H g
  V _ g := g.Flagged
  E _ g := Ready H g
  A g := H.calm → g.Saved

/-- A write leaves the flag set, and a file without text as it was where it fails. -/
theorem wp_write_flag (hS : S.Writes H) (k : Int) (processed : List α) (hg : Ready H g) :
    (S.write k processed).wp (headerRules H) (headerWriteStates H).attempted g := by
  have htarget : S.writer.target = H.writer := congrArg ItemHandler.target hS.writer
  refine wp_orThrow.mpr (Prog.wp_perform.mpr ⟨fun _ => hg.flagged, ?_⟩)
  intro r g' ht
  have hmoved : g'.saved = g.saved ∧ (g.Flagged → g'.Flagged) ∧
      ∀ err, r = .error err → g'.text = g.text := by
    change if S.writer.target = H.writer then _ else _ at ht
    rwa [if_pos htarget] at ht
  obtain ⟨hsaved, hflagged, htext⟩ := hmoved
  cases r with
  | ok value => exact hflagged hg.flagged
  | error err =>
      refine ⟨hflagged hg.flagged, fun hcalm => ?_⟩
      unfold Saved
      rw [hsaved, htext err rfl]
      exact hg.saved hcalm

/-- The states of the header are sound for a write. -/
theorem headerWriteStates_sound (hS : S.Writes H) (k : Int) (processed : List α) :
    (headerWriteStates H).Sound (headerRules H) (S.write k processed)
      (S.writeHooks k processed) := by
  have hlisteners (J : HeaderState → Prop) :
      (headerRules (α := α) H).Frame (On [.listener]) J := headerRules_frame (by decide) J
  have hhooks := S.writeHooks_within (K := [.listener]) (by decide) k processed
  refine { before := keepsOr_of_uses hhooks.before (hlisteners _) fun _ h => h.saved
           attempt := fun _ h => wp_write_flag hS k processed h
           after := fun value => ?_
           onError := fun err => keepsOr_of_uses (hhooks.onError err) (hlisteners _)
             fun _ h => h.saved
           onSkip := fun err => keepsOr_of_uses (hhooks.onSkip err) (hlisteners _)
             fun _ h => h.saved
           fail := fun _ _ h => h.saved
           retry := fun _ _ h => h }
  -- behind a write only a listener could throw
  by_cases hcalm : H.calm
  · exact wp_invokeMatching_ok (L := headerRules H) (fun _ _ _ _ ht => ht.2 hcalm rfl)
      (hlisteners _) _
  · exact keepsOr_of_uses (hhooks.after value) (hlisteners _) fun _ _ h => absurd h hcalm

/-- The write phase flags the header, and leaves it saved where it calmly fails. -/
theorem wp_writePhase_flag (hS : S.Writes H) (k : Int) (processed : List α) (hg : Ready H g) :
    Scoped.wp (headerRules H) (S.writePhase k processed) (fun out l' g' => SameChunk l l' ∧
      match out with
      | .ok _ => g'.Flagged
      | .error _ => H.calm → g'.Saved) l g := by
  unfold Setting.writePhase
  split
  · exact ⟨.refl l, hg.flagged⟩
  · refine Scoped.wp_seq (wp_runPhase S.policies (headerWriteStates_sound hS k processed) hg) ?_
      fun _ _ _ h => h
    intro written l₁ g₁ h₁
    obtain ⟨hl₁, hended⟩ := h₁
    match written with
    | .ok value =>
        refine wp_seq_countWrite (headerRules_frame (by decide) _) hended ?_
        intro l₂ g₂ hcounted hended'
        exact ⟨.trans _ _ _ hl₁ hcounted, hended'⟩
    | .skipped =>
        obtain ⟨_, _, _, hready, _⟩ := hended
        exact ⟨hl₁, hready.flagged⟩

/-- The checkpoint that is saved has the flag of the writer. -/
theorem wp_checkpoint_flag (hS : S.Writes H) (hstreams : l.openedStreams = S.streams)
    (hflagged : g.Flagged) :
    Scoped.wp (headerRules H) (S.checkpoint : ChunkCode α Unit) (fun out l' g' =>
      match out with
      | .ok _ => l'.openedStreams = S.streams ∧ Ready H g'
      | .error _ => H.calm → g'.Saved) l g := by
  obtain ⟨front, hfront⟩ := hS.streams
  unfold Setting.checkpoint
  rw [Scoped.wp_bind, Scoped.wp_modify, Scoped.afterwards_ok, Scoped.wp_bind, Scoped.wp_get,
    Scoped.afterwards_ok, Scoped.wp_bind, Scoped.wp_lift]
  dsimp only
  rw [hstreams, hfront]
  refine Prog.wp_mono (wp_updateStreams_flag front _ g) ?_
  intro out g₁ h₁
  obtain ⟨rfl, hflag, hcalm⟩ := h₁
  cases out with
  | error err => exact fun h => absurd rfl (hcalm h err)
  | ok next =>
      rw [Scoped.afterwards_ok, Scoped.wp_bind, Scoped.wp_modify, Scoped.afterwards_ok,
        Scoped.wp_bind, Scoped.wp_lift]
      refine Prog.wp_perform.mpr ⟨trivial, ?_⟩
      intro _ g₂ ht₂
      have hsaved : g₂ = { g₁ with saved := g₁.flag } := by
        change g₂ = if ExecutionScope.stepExecutionId S.context.stepExecutionId =
          .stepExecutionId H.stepExecutionId then _ else _ at ht₂
        rwa [hS.stepExecutionId, if_pos rfl, hflag next rfl] at ht₂
      refine Scoped.wp_bind.mpr (Scoped.wp_lift.mpr (Prog.wp_perform.mpr ⟨trivial, ?_⟩))
      intro reloaded g₃ ht₃
      obtain rfl : g₃ = g₂ := ht₃.1
      subst hsaved
      exact ⟨rfl, hflagged, fun _ => hflagged⟩

/-! ### The chunk loop -/

/-- The head of the loop. -/
structure FlaggedHead (H : HeaderStep) (S : Setting) (l : Locals) (g : HeaderState) : Prop where
  streams : l.openedStreams = S.streams
  ready : Ready H g

/-- The head of the loop keeps its flag while the chunk stays. -/
theorem FlaggedHead.keep {l' : Locals} (h : FlaggedHead H S l g) (hl : SameChunk l l')
    {g' : HeaderState} (hg : Ready H g') : FlaggedHead H S l' g' :=
  ⟨hl.openedStreams.trans h.streams, hg⟩

/-- How a part of the loop may end. -/
def LeavesFlags {β : Type} (H : HeaderStep) (S : Setting) :
    Except Thrown β → Locals → HeaderState → Prop
  | .ok _, l, g => FlaggedHead H S l g
  | .error _, _, g => H.calm → g.Saved

theorem quiet_frame {K : List OpKind} (hK : ∀ k ∈ K, k ∉ movingKinds) :
    (headerRules (α := α) H).Frame (On K) (Ready H) := headerRules_frame hK _

/-- Sequencing after code that moves no flag. -/
theorem wp_seq_unmoved {β γ : Type} {K : List OpKind} {c : ChunkCode α β} {f : β → ChunkCode α γ}
    (hc : Quiet K c) (hK : ∀ k ∈ K, k ∉ movingKinds) (h : FlaggedHead H S l g)
    (hok : ∀ b l' g', SameChunk l l' → FlaggedHead H S l' g' →
      Scoped.wp (headerRules H) (f b) (LeavesFlags H S) l' g') :
    Scoped.wp (headerRules H) (c >>= f) (LeavesFlags H S) l g :=
  wp_seq_quiet hc (quiet_frame hK) h.ready (fun b l' g' hl hg => hok b l' g' hl (h.keep hl hg))
    fun _ _ _ _ hg => hg.saved

/-- The commit of a chunk leaves the header's flag saved. -/
theorem wp_commitChunk_flag (hS : S.Writes H) (k : Int) (items : List α)
    (h : FlaggedHead H S l g) :
    Scoped.wp (headerRules H) (S.commitChunk k items) (LeavesFlags H S) l g := by
  unfold Setting.commitChunk
  refine wp_seq_unmoved (S.quiet_processPhase (K := [.process, .listener]) (by decide) (by decide)
    _ _ _) (by decide) h ?_
  intro processed l₁ g₁ _ h₁
  refine Scoped.wp_seq (wp_writePhase_flag hS k processed h₁.ready) ?_ fun _ _ _ h' => h'.2
  intro ending l₂ g₂ h₂
  obtain ⟨hl₂, hflagged⟩ := h₂
  refine Scoped.wp_bind.mpr (Scoped.wp_lift.mpr (Prog.wp_perform.mpr ⟨trivial, ?_⟩))
  intro _ g₃ ht₃
  obtain rfl : g₃ = g₂ := ht₃
  refine Scoped.wp_seq (wp_checkpoint_flag hS (hl₂.openedStreams.trans h₁.streams) hflagged) ?_
    fun _ _ _ h' => h'
  intro _ l₄ g₄ h₄
  rw [Scoped.wp_bind, Scoped.wp_get, Scoped.afterwards_ok]
  refine wp_seq_unmoved (K := [.listener]) (quiet_lift (uses_invokeMatching (by decide) _ _ _))
    (by decide) ⟨h₄.1, h₄.2⟩ ?_
  intro _ l₅ g₅ _ h₅
  rw [Scoped.wp_modify]
  exact ⟨h₅.streams, h₅.ready⟩

/-- One turn of the chunk loop leaves the header's flag. -/
theorem wp_runChunk_flag (hS : S.Writes H) (h : FlaggedHead H S l g) :
    Scoped.wp (headerRules H) (S.runChunk : ChunkCode α Bool) (LeavesFlags H S) l g := by
  unfold Setting.runChunk
  rw [Scoped.wp_bind, Scoped.wp_get, Scoped.afterwards_ok]
  split
  · exact h
  · refine wp_seq_unmoved (K := [.listener]) (quiet_lift (uses_invokeMatching (by decide) _ _ _))
      (by decide) h ?_
    intro _ l₁ g₁ _ h₁
    refine wp_seq_unmoved (S.quiet_readPhase (K := [.read, .listener]) (by decide) (by decide)
      _ _ _) (by decide) h₁ ?_
    intro items l₂ g₂ _ h₂
    split
    · rw [Scoped.wp_bind, Scoped.wp_get, Scoped.afterwards_ok]
      refine wp_seq_unmoved (K := [.listener]) (quiet_lift (uses_invokeMatching (by decide) _ _ _))
        (by decide) h₂ ?_
      exact fun _ _ _ _ h₃ => h₃
    · refine Scoped.wp_seq (wp_commitChunk_flag hS l.chunkIndex items h₂) ?_ fun _ _ _ h' => h'
      exact fun _ _ _ h₃ => h₃

/-- A drained chunk leaves the header's flag. -/
theorem wp_drainChunk_flag (h : FlaggedHead H S l g) :
    Scoped.wp (headerRules H) (S.drainChunk : ChunkCode α Bool) (LeavesFlags H S) l g := by
  unfold Setting.drainChunk
  rw [Scoped.wp_bind, Scoped.wp_get, Scoped.afterwards_ok]
  split
  · exact h
  · refine wp_seq_unmoved (K := [.read]) (quiet_lift (S.uses_drainItems (by decide) _ _ _))
      (by decide) h ?_
    intro drained l₁ g₁ _ h₁
    split
    · exact h₁
    · rw [Scoped.wp_bind, Scoped.wp_modify, Scoped.afterwards_ok]
      exact ⟨h₁.streams, h₁.ready⟩

/-- **The run lemma of the chunk loop.** -/
theorem wp_chunkLoop_flag (hS : S.Writes H) (fuel : Nat) (h : FlaggedHead H S l g) :
    Scoped.wp (headerRules H) (S.chunkLoop fuel : ChunkCode α Unit) (LeavesFlags H S) l g := by
  induction fuel generalizing l g with
  | zero => trivial
  | succ fuel ih =>
      have hiteration : Scoped.wp (headerRules H) (S.iteration : ChunkCode α Bool)
          (LeavesFlags H S) l g := by
        unfold Setting.iteration
        rw [Scoped.wp_bind, Scoped.wp_get, Scoped.afterwards_ok]
        split
        · exact wp_drainChunk_flag h
        · exact wp_runChunk_flag hS h
      refine Scoped.wp_seq hiteration ?_ fun _ _ _ h' => h'
      intro again l' g' h'
      cases again with
      | true => exact ih h'
      | false => exact h'

/-! ### The step -/

/-- The step resolves its writer to the one whose header it is. -/
structure ResolvesWriter (H : HeaderStep) (step : ChunkStepDefinition)
    (context : ChunkExecutionContext) : Prop where
  stepExecutionId : context.stepExecutionId = H.stepExecutionId
  lambda : H.lambda = step.writer.fn
  provider : ∀ c, resolveProviderToken "writer" step.writer context.providerResolvers = .ok c →
    c.target = H.writer ∧ c.isStream = true
  method : ∀ fn, resolveMethod "writer" "Writer" step.writer context ≠ .ok fn

/-- The preparation leaves a saved header ready. -/
theorem wp_prepare_flag (hstep : ResolvesWriter H step context) (policies : Policies)
    (partition : Option (Int × Int)) (hg : g.Saved) :
    Scoped.wp (headerRules H) (prepare step context policies partition : ChunkCode α Setting)
      (fun out l' g' =>
        match out with
        | .ok S => S.Writes H ∧ FlaggedHead H S l' g'
        | .error _ => g'.Saved) {} g := by
  refine wp_prepare_of_resolving (K := [.invoke, .factory]) (J := Saved) (R := fun _ => True)
    (W := fun writer => writer = { target := H.writer, isStream := true }) (by decide)
    (headerRules_frame (by decide) _) (fun _ _ h => h) ?_ ?_ ?_
  · exact Prog.wp_mono (Prog.wp_of_uses (F := On [.invoke, .factory])
      (uses_resolveReader (by decide) (by decide) _ _ _) (headerRules_frame (by decide) Saved) hg)
      fun _ _ h => ⟨h, fun _ _ => trivial⟩
  · intro g₁ hg₁
    refine wp_resolveHandler (headerRules_frame (by decide) _) ?_ ?_ ?_ hg₁
    · exact fun fn s r s' hfn ht c hc => ht.2 (hstep.lambda.trans hfn) c hc
    · intro c hc
      obtain ⟨htarget, hstream⟩ := hstep.provider c hc
      rw [htarget, hstream]
    · exact fun fn hfn => absurd hfn (hstep.method fn)
  · intro g₁ hg₁
    refine Prog.wp_perform.mpr ⟨trivial, ?_⟩
    intro ctx g₂ ht
    obtain ⟨rfl, hctx⟩ := ht
    refine ⟨hg₁, ?_⟩
    intro _ hcase S hS hgiven hwriter
    cases hcase
    obtain - := hgiven
    have hwrites : S.Writes H := ⟨hwriter, hS.context ▸ hstep.stepExecutionId⟩
    refine Scoped.wp_mono (wp_openStreams_flag S.streams (l := { streamContext := ctx })
      (hctx (congrArg _ hstep.stepExecutionId)) hg₁ fun h => by cases h) ?_
    intro out l₃ g₃ h₃
    cases out with
    | error err => exact h₃.1
    | ok u =>
        obtain ⟨hstreams, hflagged⟩ := h₃.2 rfl
        have hopened : l₃.openedStreams = S.streams := hstreams
        obtain ⟨front, hfront⟩ := hwrites.streams
        refine ⟨hwrites, hopened, hflagged ?_, fun _ => h₃.1⟩
        rw [hopened, hfront]
        exact List.mem_append_right _ (List.mem_singleton_self _)

/-- **The executor keeps the flags**: it writes only where the flag of a file with text is set, and
what it leaves is known to the checkpoint. -/
theorem execute_flags (hstep : ResolvesWriter H step context) (fuel : Nat) (hg : g.Saved) :
    (execute fuel step context : Code α StepResult).wp (headerRules H)
      (fun _ g' => H.calm → g'.Saved) g := by
  have hclosing : (headerRules (α := α) H).Frame (On closingKinds) fun g => H.calm → g.Saved :=
    headerRules_frame (by decide) _
  refine Prog.wp_mono (wp_execute_of_body (C := fun g => H.calm → g.Saved) (D := fun _ => True)
    (J := Saved) (headerRules_frame (by decide) _) hclosing (fun _ h _ => h)
    (fun _ _ _ _ _ _ _ _ => trivial) (fun _ _ => trivial) ?_ hg) fun _ _ h => h.1
  intro policies partition g₁ _ _ hg₁
  refine wp_body_of_prepare hclosing (fun _ h => h) ?_
  refine Scoped.wp_mono (wp_prepare_flag hstep policies partition hg₁) ?_
  intro out l₂ g₂ h₂
  cases out with
  | error err => exact fun _ => h₂
  | ok S =>
      refine Scoped.wp_mono (wp_chunkLoop_flag h₂.1 fuel h₂.2) ?_
      intro out l₃ g₃ h₃
      cases out with
      | error err => exact ⟨h₃, fun h => by cases h⟩
      | ok u => exact ⟨h₃.ready.saved, fun _ => h₃.ready.saved⟩

end ChunkStepExecutor

end NestBatch
