import NestBatch.Execution.LoopRules

/-!
# Errors with a string form

`String(err)` is what the executors keep of an error, and a value without a string
form makes it throw.  Where user code throws no such value, a chunk step throws
none either.
-/

namespace NestBatch

variable {α β υ : Type}

/-- `String(err)` returns. -/
def Thrown.HasText (err : Thrown) : Prop := ∃ text, err.text = .ok text

/-- An error that has a text is one of those with a text. -/
theorem Thrown.HasText.only {err : Thrown} (h : err.HasText) : err.Only Thrown.HasText := by
  refine ⟨h, ?_⟩
  intro err' herr'
  obtain ⟨text, htext⟩ := h
  rw [htext] at herr'
  cases herr'

/-- An answer of user code that throws nothing without a string form. -/
def ThrowsText : (o : Op α) → o.Resp → Prop
  | .user call, r => ∀ err, call.thrown r = some err → err.HasText
  | _, _ => True

def textRules : CallRules α := { allowed := fun _ => ThrowsText }

/-- User code that throws nothing without a string form. -/
def Environment.ThrowsTexts (env : Environment α υ) : Prop :=
  ∀ (call : UserCall α) (user : υ) ctx,
    ThrowsText (.user call) (env.user call user ctx).1

/-- User code whose errors have texts answers by the rules about them. -/
theorem Environment.ThrowsTexts.answersAs {env : Environment α υ} (h : env.ThrowsTexts) :
    AnswersAs env textRules (fun _ _ => True) := by
  refine answersAs_of_user h ?_ rfl
  intro o r hother
  cases o with
  | user call => exact absurd rfl (hother call)
  | _ => trivial

/-- Code that throws nothing without a string form, unless user code does. -/
def ThrowsTexts (out : Except Thrown β) : Prop := ∀ err, out = .error err → err.HasText

theorem throwsTexts_ok (b : β) : ThrowsTexts (.ok b : Except Thrown β) := fun _ h => by cases h

theorem throwsTexts_error {err : Thrown} (h : err.HasText) :
    ThrowsTexts (.error err : Except Thrown β) := by
  intro err' heq
  cases heq
  exact h

/-- A sequence throws errors with texts where both parts do. -/
theorem ThrowsTexts.bind {γ : Type} {x : Except Thrown β} {f : β → Except Thrown γ}
    (hx : ThrowsTexts x) (hf : ∀ b, ThrowsTexts (f b)) : ThrowsTexts (x >>= f) := by
  cases x with
  | error err => exact throwsTexts_error (hx err rfl)
  | ok b => exact hf b

/-- What an answer throws has a text. -/
theorem throwing_of_throwsText {o : Op α} {r : o.Resp} (h : ThrowsText o r) :
    Throwing Thrown.HasText o r := by
  cases o with
  | user call => exact fun _ err herr => (h err herr).only
  | _ => trivial

/-- The errors of the library have texts. -/
theorem coversErrors_hasText : CoversErrors Thrown.HasText where
  message _ := ⟨_, rfl⟩
  reference := ⟨_, rfl⟩

/-- What throws texts outside the phases throws them in the log. -/
theorem throwsTexts_of_throwsOnly {p : Code α β} (h : ThrowsOnly Thrown.HasText p)
    (calls : Calls α) :
    p.wp (logged textRules True) (fun out _ => ThrowsTexts out) calls := by
  have hfollows : Prog.Follows (Prog.answering (Throwing Thrown.HasText))
      (logged (textRules (α := α)) True).trans (fun _ _ => True) := by
    intro o calls₁ r calls₂ _ _ _ ht
    exact ⟨(), throwing_of_throwsText ht.2, trivial⟩
  refine Prog.wp_mono (Prog.wp_simulate (fun _ _ _ _ _ => trivial) hfollows (fun _ => trivial) h
    trivial) ?_
  intro out calls' hout
  obtain ⟨_, -, htexts⟩ := hout
  exact htexts

/-- Nothing is said of the log itself. -/
theorem texts_frame {loops : Prop} {K : List OpKind} (c : Prop) :
    (logged (textRules (α := α)) loops).Frame (On K) (fun _ => c) :=
  logged_frame (fun _ _ _ _ => trivial) fun _ _ _ _ _ h => h

namespace ListenerInvoker

/-- An entry bears with the answer of its listener: what it throws, if anything, is dropped with a
warning. -/
def BearsWith (entry : ListenerEntry) (out : Except Thrown Unit) : Prop :=
  ∀ err, out = .error err → entry.nonCritical = true ∧ err.HasText

theorem bearsWith_ok (entry : ListenerEntry) : BearsWith entry (.ok ()) := fun _ h => by cases h

/-- An outcome that a listener bears is passed over. -/
theorem settle_of_bearsWith {entry : ListenerEntry} {out : Except Thrown Unit}
    (h : BearsWith entry out) : (settle entry out : Code α Unit) = .pure () := by
  rcases out with err | ⟨⟩
  · obtain ⟨hcritical, text, htext⟩ := h err rfl
    have hwarn : warn err = .ok () := warn_eq_ok.mpr ⟨text, htext⟩
    have hsettle : (settle entry (.error err) : Code α Unit) = .ofExcept (warn err) :=
      if_pos hcritical
    rw [hsettle, hwarn]
    rfl
  · rfl

/-- An outcome that a listener does not bear is thrown. -/
theorem settle_of_not_bearsWith {entry : ListenerEntry} {out : Except Thrown Unit}
    (h : ¬ BearsWith entry out) : ∃ err, (settle entry out : Code α Unit) = .throw err := by
  rcases out with err | ⟨⟩
  · by_cases hcritical : entry.nonCritical = true
    · have hsettle : (settle entry (.error err) : Code α Unit) = .ofExcept (warn err) :=
        if_pos hcritical
      cases hwarn : warn err with
      | ok u =>
          refine absurd ?_ h
          intro err' heq
          cases heq
          exact ⟨hcritical, warn_eq_ok.mp hwarn⟩
      | error err' => exact ⟨err', hsettle.trans (congrArg Prog.ofExcept hwarn)⟩
    · exact ⟨err, if_neg hcritical⟩
  · exact absurd (bearsWith_ok entry) h

end ListenerInvoker

namespace ChunkStepExecutor

open ListenerInvoker

/-- A step whose policies do not compile says so. -/
theorem compile_text {step : ChunkStepDefinition} : ThrowsTexts (Policies.compile step) := by
  intro err h
  unfold Policies.compile at h
  cases hskip : step.skipPolicy.mapM compileSkipPolicy with
  | error err' =>
      rw [hskip] at h
      cases h
      cases hpolicy : step.skipPolicy with
      | none =>
          rw [hpolicy] at hskip
          cases hskip
      | some config =>
          rw [hpolicy, Option.mapM_some] at hskip
          unfold compileSkipPolicy at hskip
          split at hskip
          · cases hskip
            exact ⟨_, rfl⟩
          · cases hskip
  | ok skip =>
      rw [hskip] at h
      cases hpolicy : step.retryPolicy with
      | none =>
          rw [hpolicy] at h
          cases h
      | some config =>
          rw [hpolicy, Option.mapM_some] at h
          unfold compileRetryPolicy at h
          split at h
          · cases h
            exact ⟨_, rfl⟩
          · cases h

/-- A failed attempt ends in its own error or in one of the executor's. -/
theorem consult_text {policies : Policies} {err err' : Thrown} {skipCount attempt : Nat}
    (herr : err.HasText) (h : consult policies err skipCount attempt = .fail err') :
    err'.HasText := by
  rcases consult_fail h with ⟨-, -, hlimit⟩ | ⟨-, hretry | hsame | htest⟩
  · rw [hlimit]
    exact ⟨_, rfl⟩
  · rw [hretry]
    exact ⟨_, rfl⟩
  · rw [hsame]
    exact herr
  · rw [htest]
    exact ⟨_, rfl⟩

/-- What the loop throws has a text. -/
def texts : LoopStates α where
  holds _ _ _ _ := True
  threw err _ := err.HasText

/-- An error with a text is judged to have one. -/
theorem judged_texts {policies : Policies} {fuel : Nat} {stage skipped : Stage α} {l : Locals}
    {err : Thrown} {calls : Calls α} (herr : err.HasText) :
    texts.Judged policies fuel stage skipped l err calls := by
  intro attempt
  cases hc : consult policies err l.skipCount attempt with
  | skip => trivial
  | retry => trivial
  | fail err' => exact consult_text herr hc

/-- The loop throws errors with texts where user code does. -/
theorem texts_sound (S : Setting) :
    (texts (α := α)).Sound S textRules True Thrown.HasText where
  quiet _ _ _ := texts_frame True
  counters _ _ _ _ _ _ _ := trivial
  silent _ _ _ _ _ _ _ _ _ := trivial
  read _ _ _ _ _ _ _ := by
    refine ⟨trivial, ?_⟩
    intro r hr
    cases hanswer : (r : Except Thrown (Option α)) with
    | error err => exact judged_texts (hr err (congrArg UserCall.thrown.thrownBy hanswer))
    | ok item => cases item <;> trivial
  process _ _ _ _ _ _ _ _ _ _ := by
    refine ⟨trivial, ?_⟩
    intro r hr
    cases hanswer : (r : Except Thrown (Option α)) with
    | error err => exact judged_texts (hr err (congrArg UserCall.thrown.thrownBy hanswer))
    | ok value => cases value <;> trivial
  write _ _ _ _ _ _ _ := by
    refine ⟨trivial, ?_⟩
    intro r hr
    cases hanswer : (r : Except Thrown (Option WriterResult)) with
    | error err => exact judged_texts (hr err (congrArg UserCall.thrown.thrownBy hanswer))
    | ok value => trivial
  length _ _ _ _ _ _ := ⟨trivial, fun _ _ => trivial⟩
  drain _ _ _ _ _ _ _ := by
    refine ⟨trivial, ?_⟩
    intro r hr
    cases hanswer : (r : Except Thrown (Option α)) with
    | error err => exact hr err (congrArg UserCall.thrown.thrownBy hanswer)
    | ok item => cases item <;> trivial
  throwing _ _ _ hr := throwing_of_throwsText hr
  fails _ _ _ _ _ _ herr := herr
  exhausted _ _ _ _ _ _ _ := ⟨_, rfl⟩
  threwQuiet err := texts_frame err.HasText
  onError _ _ _ _ hJ := wp_ends (fun _ _ _ hr => throwing_of_throwsText hr)
    (uses_invokeMatching (by decide) _ _ _) (throwsOnly_invokeMatching _ _ _) hJ fun _ _ _ h => h
  spin _ _ _ := trivial

section Step

variable {fuel : Nat} {step : ChunkStepDefinition} {context : ChunkExecutionContext}

/-- The `try` block throws texts. -/
theorem body_texts (policies : Policies) (partition : Option (Int × Int)) (calls : Calls α) :
    Scoped.wp (logged textRules True) (body fuel step context policies partition)
      (fun out _ _ => ThrowsTexts out) {} calls := by
  refine Scoped.wp_mono (wp_body_ends (J := fun _ => True) (E := fun _ => True)
    (A := fun err _ => err.HasText) (fun _ _ _ hr => throwing_of_throwsText hr)
    coversErrors_hasText (texts_frame True) (texts_frame True) (fun _ _ _ h => h)
    (fun _ _ _ h => h) ?_ trivial) ?_
  · intro S l calls₁ _ _ _
    refine Scoped.wp_mono ((texts_sound S).wp_chunkLoop fuel trivial) ?_
    intro out l' calls' hout
    cases out with
    | ok u => trivial
    | error err => exact hout
  · intro out l' calls' hout
    cases out with
    | ok result => exact throwsTexts_ok result
    | error err => exact throwsTexts_error hout

/-- And so does the `catch` block. -/
theorem onFailure_texts {err : Thrown} (herr : err.HasText) (l : Locals) (calls : Calls α) :
    (onFailure step context err l : Code α StepResult).wp (logged textRules True)
      (fun out _ => ThrowsTexts out) calls := by
  have hreport (finalError : Thrown) (hfinal : finalError.HasText) (calls : Calls α) :
      (invokeOnError context.listenerResolvers .chunk
          (buildListenerContext step context (some l.chunkIndex)) finalError >>= fun _ =>
        Prog.ofExcept finalError.text >>= fun exitMessage =>
        invokeOnError context.listenerResolvers .step (buildListenerContext step context)
          finalError >>= fun _ =>
        invokeAfterStep (buildListenerContext step context) context.listenerResolvers
          (l.result .FAILED "FAILED" exitMessage) : Code α StepResult).wp (logged textRules True)
        (fun out _ => ThrowsTexts out) calls := by
    refine Prog.wp_seq (throwsTexts_of_throwsOnly (throwsOnly_invokeMatching _ _ _) calls) ?_
      fun thrown _ h => throwsTexts_error (h thrown rfl)
    intro _ calls₁ _
    obtain ⟨exitMessage, htext⟩ := hfinal
    refine Prog.wp_bind.mpr ((Prog.wp_ofExcept _).mpr ?_)
    rw [htext]
    refine Prog.wp_seq (throwsTexts_of_throwsOnly (throwsOnly_invokeMatching _ _ _) calls₁) ?_
      fun thrown _ h => throwsTexts_error (h thrown rfl)
    intro _ calls₂ _
    exact throwsTexts_of_throwsOnly (throwsOnly_invokeAfterStep _ _ _) calls₂
  refine Prog.wp_bind.mpr (Prog.wp_attempt.mpr (Prog.wp_mono
    (throwsTexts_of_throwsOnly (throwsOnly_closeStreams _) calls) ?_))
  intro closed calls₁ hclosed
  cases closed with
  | ok u => exact hreport err herr calls₁
  | error closeErr => exact hreport closeErr (hclosed closeErr rfl) calls₁

/-- **A chunk step throws texts**, as its user code and its partition do. -/
theorem execute_texts (hrange : ThrowsTexts (resolveRange step context)) (calls : Calls α) :
    (execute fuel step context : Code α StepResult).wp (logged textRules True)
      (fun out _ => ThrowsTexts out) calls := by
  refine Prog.wp_bind.mpr ((Prog.wp_ofExcept _).mpr ?_)
  cases hpolicies : Policies.compile step with
  | error err => exact throwsTexts_error (compile_text err hpolicies)
  | ok policies =>
      refine Prog.wp_bind.mpr ((Prog.wp_ofExcept _).mpr ?_)
      cases hpartition : resolveRange step context with
      | error err => exact throwsTexts_error (hrange err hpartition)
      | ok partition =>
          refine Prog.wp_seq (throwsTexts_of_throwsOnly (throwsOnly_invokeMatching _ _ _) calls) ?_
            fun err _ h => throwsTexts_error (h err rfl)
          intro _ calls₁ _
          refine Prog.wp_bind.mpr (Prog.wp_mono (body_texts policies partition calls₁) ?_)
          intro outcome calls₂ h₂
          cases outcome with
          | error err => exact h₂.elim
          | ok outcome =>
              obtain ⟨err | result, l⟩ := outcome
              · exact onFailure_texts (h₂ err rfl) l calls₂
              · exact throwsTexts_ok result

/-- In the world. -/
theorem execute_throwsTexts {env : Environment α υ} (htexts : env.ThrowsTexts)
    (hrange : ThrowsTexts (resolveRange step context)) (fuel : Nat) (s : World υ × Calls α) :
    (execute fuel step context : Code α StepResult).wp (worldLogic env)
      (fun out _ => ThrowsTexts out) s :=
  Prog.wp_mono (wp_of_logged htexts.answersAs (execute_texts hrange s.2) trivial) fun _ _ h => h.1

end Step

end ChunkStepExecutor

end NestBatch
