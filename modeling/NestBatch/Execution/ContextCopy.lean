import NestBatch.Execution.ChunkRules

/-!
# The executor's copy of the step context

The chunk step executor loads the context of its step, carries it through a
chunk as `streamContext` and saves it at the checkpoint.  `copyRules` are the
rules of that: what is saved is, but for the checkpoint and what the streams
keep in the context, what was loaded last.
-/

namespace NestBatch

variable {α β : Type}

/-- `data[key]`. -/
def JsonValue.key? : JsonValue → String → Option JsonValue
  | .obj fields, key => JsonValue.getField fields key
  | _, _ => none

/-- The data are the same outside of the reserved keys. -/
def SameOutside (reserved : String → Prop) (before after : JsonValue) : Prop :=
  ∀ key, ¬ reserved key → after.key? key = before.key? key

section SameOutside

variable {reserved : String → Prop} {a b c : JsonValue}

theorem SameOutside.refl (reserved : String → Prop) (a : JsonValue) : SameOutside reserved a a :=
  fun _ _ => rfl

theorem SameOutside.trans (h : SameOutside reserved a b) (h' : SameOutside reserved b c) :
    SameOutside reserved a c := fun key hkey => (h' key hkey).trans (h key hkey)

/-- The checkpoint goes to its own key. -/
theorem sameOutside_withLastChunkIndex (hreserved : reserved lastChunkIndexKey)
    (ctx : ExecutionContext) (chunkIndex : Int) :
    SameOutside reserved ctx.data (withLastChunkIndex ctx chunkIndex).data := by
  intro key hkey
  have hne : key ≠ lastChunkIndexKey := by
    intro heq
    rw [heq] at hkey
    exact hkey hreserved
  unfold withLastChunkIndex
  cases ctx.data with
  | obj fields => exact JsonValue.getField_setField_of_ne fields _ hne
  | _ => simp [JsonValue.key?, JsonValue.getField, Ne.symm hne]

end SameOutside

/-- A stream hands a context back as it got it, but for its own keys. -/
def HandsOn (reserved : String → Prop) (ctx : ExecutionContext)
    (answer : Except Thrown ExecutionContext) : Prop :=
  ∀ ctx', answer = .ok ctx' → SameOutside reserved ctx.data ctx'.data

/-- What is asked of the answer of an operation. -/
def StreamsHandOn (reserved : String → Prop) : (o : Op α) → o.Resp → Prop
  | .user (.openStream _ ctx), answer => HandsOn reserved ctx answer
  | .user (.updateStream _ ctx), answer => HandsOn reserved ctx answer
  | _, _ => True

/-- The data loaded last. -/
def loadedBy : (o : Op α) → o.Resp → Option JsonValue → Option JsonValue
  | .getExecutionContext _, ctx, _ => some ctx.data
  | _, _, copy => copy

/-- Only the context of the step is loaded, and only a copy of what was loaded is saved. -/
def SavesCopy (reserved : String → Prop) (sid : String) (copy : Option JsonValue) : Op α → Prop
  | .getExecutionContext scope => scope = .stepExecutionId sid
  | .saveExecutionContext scope ctx => scope = .stepExecutionId sid ∧
      ∃ data, copy = some data ∧ SameOutside reserved data ctx.data
  | _ => True

/-- The rules for the context of one step execution. -/
def copyRules (reserved : String → Prop) (sid : String) :
    Prog.Logic (Op α) Op.Resp (Option JsonValue) where
  trans o copy r copy' := StreamsHandOn reserved o r ∧ copy' = loadedBy o r copy
  guard o copy := SavesCopy reserved sid copy o
  loops := True

/-- The kinds of operation the rules look at. -/
def copyKinds : List OpKind := [.loadContext, .saveContext]

section Frame

variable {reserved : String → Prop} {sid : String} {K : List OpKind}

theorem loadedBy_of_kind {o : Op α} (h : o.kind ∉ copyKinds) (r : o.Resp)
    (copy : Option JsonValue) : loadedBy o r copy = copy := by
  cases o with
  | getExecutionContext scope => exact absurd (by simp [copyKinds, Op.kind]) h
  | _ => rfl

theorem savesCopy_of_kind {o : Op α} (h : o.kind ∉ copyKinds) (copy : Option JsonValue) :
    SavesCopy reserved sid copy o := by
  cases o with
  | getExecutionContext scope => exact absurd (by simp [copyKinds, Op.kind]) h
  | saveExecutionContext scope ctx => exact absurd (by simp [copyKinds, Op.kind]) h
  | _ => trivial

theorem copyRules_frame (h : ∀ k ∈ K, k ∉ copyKinds) (J : Option JsonValue → Prop) :
    (copyRules (α := α) reserved sid).Frame (On K) J where
  guard _ copy ho _ := savesCopy_of_kind (h _ ho) copy
  keep o copy r copy' ho hcopy ht := by
    rw [ht.2, loadedBy_of_kind (h _ ho)]
    exact hcopy
  loops h := h.elim

end Frame

namespace ChunkStepExecutor

open ListenerInvoker

variable {reserved : String → Prop} {sid : String} {step : ChunkStepDefinition}
  {context : ChunkExecutionContext} {l l' : Locals} {copy : Option JsonValue}

/-- The local context is a copy of what was loaded last. -/
def Locals.Carries (reserved : String → Prop) (l : Locals) (copy : Option JsonValue) : Prop :=
  ∃ data, copy = some data ∧ SameOutside reserved data l.streamContext.data

/-- Wherever the code goes on, it carries a copy. -/
def Carrying (reserved : String → Prop) : Except Thrown β → Locals → Option JsonValue → Prop
  | .ok _, l, copy => l.Carries reserved copy
  | .error _, _, _ => True

theorem Locals.Carries.same (h : l.Carries reserved copy) (hl : SameChunk l l') :
    l'.Carries reserved copy := by
  obtain ⟨data, hcopy, hsame⟩ := h
  refine ⟨data, hcopy, ?_⟩
  rw [hl.streamContext]
  exact hsame

/-- A phase that only counts carries the copy through. -/
theorem wp_carry {K : List OpKind} {c : ChunkCode α β} (hc : Quiet K c)
    (hK : ∀ k ∈ K, k ∉ copyKinds) (h : l.Carries reserved copy) :
    Scoped.wp (copyRules reserved sid) c (fun _ l' copy' => l'.Carries reserved copy') l copy := by
  refine Scoped.wp_mono (Scoped.wp_of_keeps hc (copyRules_frame hK (copy = ·)) rfl) ?_
  intro out l' copy' hout
  obtain ⟨hl, hcopy⟩ := hout
  subst hcopy
  exact h.same hl

/-- Quiet code may be run before code that carries the copy. -/
theorem wp_seq_carry {γ : Type} {K : List OpKind} {c : ChunkCode α β} {f : β → ChunkCode α γ}
    (hc : Quiet K c) (hK : ∀ k ∈ K, k ∉ copyKinds) (h : l.Carries reserved copy)
    (hok : ∀ b l' copy', l'.Carries reserved copy' →
      Scoped.wp (copyRules reserved sid) (f b) (Carrying reserved) l' copy') :
    Scoped.wp (copyRules reserved sid) (c >>= f) (Carrying reserved) l copy :=
  Scoped.wp_seq (wp_carry hc hK h) hok fun _ _ _ _ => trivial

/-- Opening the streams. -/
theorem wp_openStreams_copy (streams : List Handle) (h : l.Carries reserved copy) :
    Scoped.wp (copyRules reserved sid) (openStreams streams : ChunkCode α Unit) (Carrying reserved)
      l copy := by
  induction streams generalizing l with
  | nil => exact h
  | cons stream rest ih =>
      refine wp_openStreams_cons trivial ?_
      intro answer copy' ht
      obtain ⟨hhands, hcopy⟩ := ht
      subst hcopy
      cases answer with
      | error err => trivial
      | ok ctx =>
          apply ih
          obtain ⟨data, hdata, hsame⟩ := h
          exact ⟨data, hdata, hsame.trans (hhands ctx rfl)⟩

/-- Updating the streams. -/
theorem wp_updateStreams_copy (copy : Option JsonValue) (streams : List Handle)
    (ctx : ExecutionContext) :
    (updateStreams streams ctx : Code α ExecutionContext).wp (copyRules reserved sid)
      (fun out copy' => copy' = copy ∧ HandsOn reserved ctx out) copy := by
  induction streams generalizing ctx with
  | nil =>
      refine ⟨rfl, ?_⟩
      intro ctx' hctx
      cases hctx
      exact .refl reserved ctx.data
  | cons stream rest ih =>
      refine Prog.wp_bind.mpr (wp_orThrow.mpr (Prog.wp_perform.mpr ⟨trivial, ?_⟩))
      intro answer copy' ht
      obtain ⟨hhands, hcopy⟩ := ht
      subst hcopy
      cases answer with
      | error err => exact ⟨rfl, fun _ hctx => by cases hctx⟩
      | ok next =>
          refine Prog.wp_mono (ih next) ?_
          intro out copy' hout
          refine ⟨hout.1, ?_⟩
          intro ctx' hctx
          exact (hhands next rfl).trans (hout.2 ctx' hctx)

namespace Setting

variable (S : Setting)

/-- The checkpoint saves the copy, and loads the next one. -/
theorem wp_checkpoint_copy (hreserved : reserved lastChunkIndexKey) (h : l.Carries reserved copy) :
    Scoped.wp (copyRules reserved S.context.stepExecutionId) (S.checkpoint : ChunkCode α Unit)
      (Carrying reserved) l copy := by
  unfold checkpoint
  rw [Scoped.wp_bind, Scoped.wp_modify, Scoped.afterwards_ok, Scoped.wp_bind, Scoped.wp_get,
    Scoped.afterwards_ok, Scoped.wp_bind, Scoped.wp_lift]
  refine Prog.wp_mono (wp_updateStreams_copy copy _ _) ?_
  intro out copy₁ hout
  obtain ⟨hcopy, hhands⟩ := hout
  subst hcopy
  cases out with
  | error err => trivial
  | ok next =>
      rw [Scoped.afterwards_ok, Scoped.wp_bind, Scoped.wp_modify, Scoped.afterwards_ok,
        Scoped.wp_bind, Scoped.wp_lift]
      obtain ⟨data, hdata, hsame⟩ := h
      have hmarked := sameOutside_withLastChunkIndex hreserved l.streamContext l.chunkIndex
      have hsaved : SameOutside reserved data next.data :=
        (hsame.trans hmarked).trans (hhands next rfl)
      refine Prog.wp_perform.mpr ⟨⟨rfl, data, hdata, hsaved⟩, ?_⟩
      intro _ copy₂ _
      refine Scoped.wp_bind.mpr (Scoped.wp_lift.mpr (Prog.wp_perform.mpr ⟨rfl, ?_⟩))
      intro reloaded copy₃ ht
      obtain ⟨-, hcopy₃⟩ := ht
      subst hcopy₃
      exact ⟨reloaded.data, rfl, .refl reserved reloaded.data⟩

/-- The commit of a chunk saves the carried copy, changed at its own key alone. -/
theorem wp_commitChunk_copy (hreserved : reserved lastChunkIndexKey) (h : l.Carries reserved copy)
    (chunkIndex : Int) (items : List α) :
    Scoped.wp (copyRules reserved S.context.stepExecutionId) (S.commitChunk chunkIndex items)
      (Carrying reserved) l copy := by
  unfold commitChunk
  refine wp_seq_carry (S.quiet_processPhase (K := [.process, .listener]) (by decide) (by decide)
    _ _ _) (by decide) h ?_
  intro processed l₁ copy₁ h₁
  refine wp_seq_carry (S.quiet_writePhase (K := [.write, .lengthOf, .listener]) (by decide)
    (by decide) (by decide) _ _) (by decide) h₁ ?_
  intro ending l₂ copy₂ h₂
  have hpassed : OpKind.passed ∈ [OpKind.passed] := List.mem_singleton_self _
  refine wp_seq_carry (quiet_lift (uses_request hpassed)) (by decide) h₂ ?_
  intro _ l₃ copy₃ h₃
  refine Scoped.wp_seq (S.wp_checkpoint_copy hreserved h₃) ?_ fun _ _ _ _ => trivial
  intro _ l₄ copy₄ h₄
  rw [Scoped.wp_bind, Scoped.wp_get, Scoped.afterwards_ok]
  refine wp_seq_carry (K := [.listener]) (quiet_lift (uses_invokeMatching (by decide) _ _ _))
    (by decide) h₄ ?_
  intro _ l₅ copy₅ h₅
  exact h₅

/-- One turn of the chunk loop carries the copy on. -/
theorem wp_runChunk_copy (hreserved : reserved lastChunkIndexKey) (h : l.Carries reserved copy) :
    Scoped.wp (copyRules reserved S.context.stepExecutionId) (S.runChunk : ChunkCode α Bool)
      (Carrying reserved) l copy := by
  unfold runChunk
  rw [Scoped.wp_bind, Scoped.wp_get, Scoped.afterwards_ok]
  split
  · exact h
  · refine wp_seq_carry (K := [.listener]) (quiet_lift (uses_invokeMatching (by decide) _ _ _))
      (by decide) h ?_
    intro _ l₁ copy₁ h₁
    refine wp_seq_carry (S.quiet_readPhase (K := [.read, .listener]) (by decide) (by decide) _ _ _)
      (by decide) h₁ ?_
    intro items l₂ copy₂ h₂
    split
    · rw [Scoped.wp_bind, Scoped.wp_get, Scoped.afterwards_ok]
      refine wp_seq_carry (K := [.listener]) (quiet_lift (uses_invokeMatching (by decide) _ _ _))
        (by decide) h₂ ?_
      intro _ l₃ copy₃ h₃
      exact h₃
    · refine Scoped.wp_seq (S.wp_commitChunk_copy hreserved h₂ _ _) ?_ fun _ _ _ _ => trivial
      intro _ l₃ copy₃ h₃
      exact h₃

/-- The step lemma of the chunk loop. -/
theorem wp_iteration_copy (hreserved : reserved lastChunkIndexKey) (h : l.Carries reserved copy) :
    Scoped.wp (copyRules reserved S.context.stepExecutionId) (S.iteration : ChunkCode α Bool)
      (Carrying reserved) l copy := by
  unfold iteration
  rw [Scoped.wp_bind, Scoped.wp_get, Scoped.afterwards_ok]
  split
  · unfold drainChunk
    rw [Scoped.wp_bind, Scoped.wp_get, Scoped.afterwards_ok]
    split
    · exact h
    · refine wp_seq_carry (K := [.read]) (quiet_lift (S.uses_drainItems (by decide) _ _ _))
        (by decide) h ?_
      intro drained l₁ copy₁ h₁
      split
      · exact h₁
      · exact h₁
  · exact S.wp_runChunk_copy hreserved h

/-- The run lemma of the chunk loop. -/
theorem wp_chunkLoop_copy (hreserved : reserved lastChunkIndexKey) (h : l.Carries reserved copy)
    (fuel : Nat) :
    Scoped.wp (copyRules reserved S.context.stepExecutionId) (S.chunkLoop fuel : ChunkCode α Unit)
      (Carrying reserved) l copy := by
  induction fuel generalizing l copy with
  | zero => trivial
  | succ fuel ih =>
      refine Scoped.wp_seq (S.wp_iteration_copy hreserved h) ?_ fun _ _ _ _ => trivial
      intro again l' copy' h'
      cases again with
      | true => exact ih h'
      | false => exact h'

end Setting

/-- Preparing a step loads the first copy. -/
theorem wp_prepare_copy (hsid : context.stepExecutionId = sid) (policies : Policies)
    (partition : Option (Int × Int)) (l : Locals) (copy : Option JsonValue) :
    Scoped.wp (copyRules reserved sid)
      (prepare step context policies partition : ChunkCode α Setting)
      (fun out l' copy' => ∀ S, out = .ok S → S.context = context ∧ l'.Carries reserved copy')
      l copy := by
  have hfail : ∀ {e : Thrown} {l' : Locals} {copy' : Option JsonValue} (S : Setting),
      (Except.error e : Except Thrown Setting) = .ok S →
        S.context = context ∧ l'.Carries reserved copy' := by
    intro e l' copy' S hS
    cases hS
  have hreader : (resolveReader step.reader context step : Code α ItemHandler).wp
      (copyRules reserved sid) (fun out _ => True ∧ ∀ reader, out = .ok reader → True) copy :=
    Prog.wp_mono (Prog.wp_of_uses (uses_resolveReader (K := [.invoke, .factory]) (by decide)
      (by decide) _ _ _) (copyRules_frame (by decide) fun _ => True) trivial)
      fun _ _ _ => ⟨trivial, fun _ _ => trivial⟩
  refine wp_prepare_of_opening (List.mem_singleton.mpr rfl)
    (copyRules_frame (by decide) fun _ => True) (fun _ _ _ => hfail) hreader ?_
  intro copy₃ _
  have hload : SavesCopy (α := α) reserved sid copy₃
      (.getExecutionContext (.stepExecutionId context.stepExecutionId)) :=
    congrArg ExecutionScope.stepExecutionId hsid
  refine Prog.wp_perform.mpr ⟨hload, ?_⟩
  intro loaded copy₄ ht
  obtain ⟨-, hcopy₄⟩ := ht
  subst hcopy₄
  refine ⟨trivial, ?_⟩
  intro ctx hctx S hS _
  cases hctx
  refine Scoped.wp_mono (wp_openStreams_copy _ ⟨loaded.data, rfl, .refl reserved loaded.data⟩) ?_
  intro out l₅ copy₅ h₅
  cases out with
  | error err => exact hfail
  | ok u =>
      intro S' hS'
      cases hS'
      exact ⟨hS.context, h₅⟩

/-- **The executor saves what it has loaded**, in every run and as far as it goes. -/
theorem execute_saves_copy (hreserved : reserved lastChunkIndexKey) (fuel : Nat)
    (step : ChunkStepDefinition) (context : ChunkExecutionContext) (copy : Option JsonValue) :
    (execute fuel step context : Code α StepResult).wp
      (copyRules reserved context.stepExecutionId) (fun _ _ => True) copy := by
  have hframe : ∀ {K : List OpKind}, (∀ k ∈ K, k ∉ copyKinds) →
      (copyRules (α := α) reserved context.stepExecutionId).Frame (On K) fun _ => True :=
    fun hK => copyRules_frame hK _
  have hclosing : (copyRules (α := α) reserved context.stepExecutionId).Frame (On closingKinds)
      fun _ => True := hframe (by decide)
  refine Prog.wp_bind.mpr ((Prog.wp_ofExcept _).mpr ?_)
  cases Policies.compile step with
  | error err => trivial
  | ok policies =>
      refine Prog.wp_bind.mpr ((Prog.wp_ofExcept _).mpr ?_)
      cases resolveRange step context with
      | error err => trivial
      | ok partition =>
          refine Prog.wp_seq (Prog.wp_of_uses
            (uses_invokeMatching (K := [.listener]) (by decide) _ _ _)
            (hframe (by decide)) trivial) ?_ fun _ _ _ => trivial
          intro _ copy₁ _
          have hbody : Scoped.wp (copyRules reserved context.stepExecutionId)
              (body fuel step context policies partition : ChunkCode α StepResult)
              (fun _ _ _ => True) {} copy₁ := by
            unfold body
            refine Scoped.wp_seq (wp_prepare_copy rfl policies partition {} copy₁) ?_
              fun _ _ _ _ => trivial
            intro S l₂ copy₂ h₂
            obtain ⟨hS, hcarries⟩ := h₂ S rfl
            rw [← hS]
            refine Scoped.wp_seq (S.wp_chunkLoop_copy hreserved hcarries fuel) ?_
              fun _ _ _ _ => trivial
            intro _ l₃ copy₃ _
            rw [Scoped.wp_bind, Scoped.wp_get, Scoped.afterwards_ok, Scoped.wp_bind,
              Scoped.wp_modify, Scoped.afterwards_ok]
            rw [hS]
            refine Scoped.wp_seq (Scoped.wp_lift_of_uses (uses_closeStreams (by decide) _) hclosing
              trivial) ?_ fun _ _ _ _ => trivial
            intro _ l₄ copy₄ _
            refine Scoped.wp_mono (Scoped.wp_lift_of_uses
              (ListenerInvoker.uses_invokeAfterStep (by decide) _ _ _) hclosing trivial) ?_
            intro _ _ _ _
            trivial
          refine Prog.wp_seq hbody ?_ fun _ _ h => h.elim
          intro outcome copy₂ _
          obtain ⟨out, l⟩ := outcome
          cases out with
          | ok result => trivial
          | error err =>
              refine Prog.wp_mono (wp_onFailure (D := fun _ => True) hclosing
                (fun _ _ _ _ _ _ _ _ => trivial) (fun _ _ => trivial) err l trivial) ?_
              intro _ _ _
              trivial

end ChunkStepExecutor

end NestBatch
