import NestBatch.Execution.AfterStepNotice

/-!
# The streams of a chunk step are closed

Whatever throws, the streams that were opened are closed behind the chunk loop or
in the `catch` block, last opened first.  The first `close` that throws ends the
closing, and takes the place of the error that the step failed with.
-/

namespace NestBatch

variable {α υ : Type}

/-- A stream that was opened. -/
def openedBy : Prog.Call (Op α) Op.Resp → Option Handle
  | ⟨.user (.openStream stream _), .ok _⟩ => some stream
  | _ => none

/-- A stream that was closed, and how that ended. -/
def closedBy : Prog.Call (Op α) Op.Resp → Option (Handle × Except Thrown Unit)
  | ⟨.user (.closeStream stream), out⟩ => some (stream, out)
  | _ => none

/-- The streams whose `open` succeeded, in that order. -/
def opened (calls : Calls α) : List Handle := calls.filterMap openedBy

/-- The calls of `close`. -/
def closes (calls : Calls α) : List (Handle × Except Thrown Unit) := calls.filterMap closedBy

theorem opened_snoc (calls : Calls α) (c : Prog.Call (Op α) Op.Resp) :
    opened (calls ++ [c]) = opened calls ++ (openedBy c).toList :=
  filterMap_snoc openedBy calls c

theorem closes_snoc (calls : Calls α) (c : Prog.Call (Op α) Op.Resp) :
    closes (calls ++ [c]) = closes calls ++ (closedBy c).toList :=
  filterMap_snoc closedBy calls c

theorem opened_frame {K : List OpKind} (hK : .openStream ∉ K) (loops : Prop) (xs : List Handle) :
    (anyCalls : Prog.Logic (Op α) Op.Resp (Calls α)).Frame (On K loops)
      (fun calls => opened calls = xs) := by
  refine selected_frame ?_ xs
  intro o r ho
  cases o with
  | user call =>
      cases call with
      | openStream => exact absurd ho hK
      | _ => rfl
  | _ => rfl

theorem closes_frame {K : List OpKind} (hK : .closeStream ∉ K) (loops : Prop)
    (xs : List (Handle × Except Thrown Unit)) :
    (anyCalls : Prog.Logic (Op α) Op.Resp (Calls α)).Frame (On K loops)
      (fun calls => closes calls = xs) := by
  refine selected_frame ?_ xs
  intro o r ho
  cases o with
  | user call =>
      cases call with
      | closeStream => exact absurd ho hK
      | _ => rfl
  | _ => rfl

namespace ListenerInvoker

/-- A round whose listeners leave the message ends with it. -/
theorem Round.message {entries : List ListenerEntry} {result last : StepResult} {ns : List Notice}
    (h : Round entries result ns (.ok last))
    (hkept : ∀ n ∈ ns, n.left.exitMessage = n.told.exitMessage) :
    last.exitMessage = result.exitMessage := by
  generalize hfinal : Except.ok last = final at h
  induction h with
  | done result =>
      cases hfinal
      rfl
  | next result left out hout hrest ih =>
      have hrestKept := ih (fun n hn => hkept n (List.mem_cons_of_mem _ hn)) hfinal
      exact hrestKept.trans (hkept _ List.mem_cons_self)
  | refused => cases hfinal

end ListenerInvoker

namespace ChunkStepExecutor

open ListenerInvoker

/-! ### Closing streams in an order -/

/-- The streams are closed in the given order, until one throws. -/
inductive Closing : List Handle → List (Handle × Except Thrown Unit) → Except Thrown Unit → Prop
  | done : Closing [] [] (.ok ())
  | next {rest : List Handle} {cs : List (Handle × Except Thrown Unit)} {out : Except Thrown Unit}
      (stream : Handle) (hrest : Closing rest cs out) :
      Closing (stream :: rest) ((stream, .ok ()) :: cs) out
  | threw (stream : Handle) (rest : List Handle) (err : Thrown) :
      Closing (stream :: rest) [(stream, .error err)] (.error err)

section Closing

variable {order : List Handle} {cs : List (Handle × Except Thrown Unit)} {out : Except Thrown Unit}

/-- All are closed if and only if none but the last throws. -/
theorem Closing.all_iff (h : Closing order cs out) :
    cs.map Prod.fst = order ↔
      ∀ i c err, cs[i]? = some c → c.2 = .error err → i + 1 = order.length := by
  induction h with
  | done => simp
  | @next rest cs out stream hrest ih =>
      rw [List.map_cons, List.cons_eq_cons, and_iff_right rfl, ih]
      constructor
      · intro hlast i c err hi hc
        cases i with
        | zero =>
            cases hi
            cases hc
        | succ i =>
            have hlength := hlast i c err hi hc
            rw [List.length_cons]
            omega
      · intro hlast i c err hi hc
        have hlength := hlast (i + 1) c err hi hc
        rw [List.length_cons] at hlength
        omega
  | threw stream rest err =>
      rw [List.map_cons, List.cons_eq_cons, and_iff_right rfl]
      constructor
      · intro hrest i c err' hi hc
        cases i with
        | zero =>
            rw [← hrest]
            rfl
        | succ i => cases hi
      · intro hlast
        have hlength := hlast 0 _ err rfl rfl
        rw [List.length_cons] at hlength
        exact (List.eq_nil_of_length_eq_zero (by omega)).symm

/-- What a `close` throws is what the closing throws. -/
theorem Closing.error_iff (h : Closing order cs out) (err : Thrown) :
    (∃ c ∈ cs, c.2 = .error err) ↔ out = .error err := by
  induction h with
  | done => simp
  | next stream hrest ih => simp [ih]
  | threw stream rest err' => simp

end Closing

variable {step : ChunkStepDefinition} {context : ChunkExecutionContext}

/-- **Closing the streams** opens none, and tells nobody. -/
theorem wp_closeInOrder (order : List Handle) (calls : Calls α) :
    (closeInOrder order : Code α Unit).wp anyCalls (fun out calls' => ∃ cs,
      closes calls' = closes calls ++ cs ∧ Closing order cs out ∧ opened calls' = opened calls ∧
        notices calls' = notices calls) calls := by
  induction order generalizing calls with
  | nil => exact ⟨[], (List.append_nil _).symm, .done, rfl, rfl⟩
  | cons stream rest ih =>
      refine Prog.wp_bind.mpr (wp_orThrow.mpr (wp_call trivial ?_))
      intro r _
      have hcloses := closes_snoc calls ⟨.user (.closeStream stream), r⟩
      have hopened := opened_snoc calls ⟨.user (.closeStream stream), r⟩
      have hnotices := notices_snoc calls ⟨.user (.closeStream stream), r⟩
      rw [show openedBy (⟨.user (.closeStream stream), r⟩ : Prog.Call (Op α) Op.Resp) = none
        from rfl,
        Option.toList_none, List.append_nil] at hopened
      rw [show Notice.of (⟨.user (.closeStream stream), r⟩ : Prog.Call (Op α) Op.Resp) = none
        from rfl,
        Option.toList_none, List.append_nil] at hnotices
      rcases r with err | ⟨⟩
      · exact ⟨_, hcloses, .threw stream rest err, hopened, hnotices⟩
      · refine Prog.wp_mono (ih _) ?_
        intro out calls' h
        obtain ⟨cs, hcs, hclosing, hopened', hnotices'⟩ := h
        refine ⟨_, ?_, .next stream hclosing, hopened'.trans hopened, hnotices'.trans hnotices⟩
        rw [hcs, hcloses, List.append_assoc]
        rfl

/-! ### What a step does with its streams -/

/-- Nothing was closed yet, and the streams that are open are the ones that were opened. -/
def Holding (l : Locals) (calls : Calls α) : Prop :=
  closes calls = [] ∧ opened calls = l.openedStreams

theorem holding_frame {K : List OpKind} (hopen : .openStream ∉ K) (hclose : .closeStream ∉ K)
    (loops : Prop) (l : Locals) : (anyCalls : Prog.Logic (Op α) Op.Resp (Calls α)).Frame
      (On K loops) (fun calls => Holding l calls) :=
  (closes_frame hclose loops []).and (opened_frame hopen loops l.openedStreams)

/-- Opening the streams holds every one that was opened. -/
theorem wp_openStreams_holding (streams : List Handle) {l : Locals} {calls : Calls α}
    (h : Holding l calls) :
    Scoped.wp anyCalls (openStreams streams : ChunkCode α Unit)
      (fun _ l' calls' => Holding l' calls') l calls := by
  induction streams generalizing l calls with
  | nil => exact h
  | cons stream rest ih =>
      refine wp_openStreams_cons trivial ?_
      intro answer calls' ht
      obtain ⟨hsnoc, -⟩ := ht
      subst hsnoc
      have hcloses := closes_snoc calls ⟨.user (.openStream stream l.streamContext), answer⟩
      have hopened := opened_snoc calls ⟨.user (.openStream stream l.streamContext), answer⟩
      rw [h.1] at hcloses
      rw [h.2] at hopened
      cases answer with
      | error err => exact ⟨hcloses, hopened.trans (List.append_nil _)⟩
      | ok ctx => exact ih ⟨hcloses, hopened⟩

/-- The preparation holds the streams it opened. -/
theorem wp_prepare_holding (policies : Policies) (partition : Option (Int × Int))
    {calls : Calls α} (h : Holding {} calls) :
    Scoped.wp anyCalls (prepare step context policies partition)
      (fun _ l calls' => Holding l calls') {} calls := by
  have hreader : (resolveReader step.reader context step : Code α ItemHandler).Uses
      (On [.invoke, .factory]) := uses_resolveReader (by decide) (by decide) _ _ _
  have hload : (getExecutionContext (.stepExecutionId context.stepExecutionId) :
      Code α ExecutionContext).Uses (On [.loadContext]) :=
    uses_request (by simp [Op.kind])
  refine wp_prepare_of_opening (K := [.invoke]) (R := fun _ => True) (by decide)
    (holding_frame (by decide) (by decide) False {}) (fun _ _ h' => h')
    (Prog.wp_mono (Prog.wp_of_uses hreader (holding_frame (by decide) (by decide) False {}) h)
      fun _ _ h' => ⟨h', fun _ _ => trivial⟩) ?_
  intro calls₃ h₃
  refine Prog.wp_mono (Prog.wp_of_uses hload (holding_frame (by decide) (by decide) False {}) h₃) ?_
  intro out calls₄ h₄
  refine ⟨h₄, ?_⟩
  intro ctx _ S _ _
  refine Scoped.wp_mono (wp_openStreams_holding S.streams (l := { streamContext := ctx }) h₄) ?_
  intro out l₅ calls₅ h₅
  cases out with
  | error err => exact h₅
  | ok u => exact h₅

/-- How the `try` block may leave the streams: all of them open, or closed in turn. -/
def LeavesStreams (out : Except Thrown StepResult) (l : Locals) (calls : Calls α) : Prop :=
  ((∃ err, out = .error err) ∧ Holding l calls) ∨
  (l.openedStreams = [] ∧ ∃ closed, Closing (opened calls).reverse (closes calls) closed)

/-- The body leaves its streams opened, and closed or not as it ended. -/
theorem wp_body_streams (fuel : Nat) (policies : Policies) (partition : Option (Int × Int))
    {calls : Calls α} (h : Holding {} calls) :
    Scoped.wp anyCalls (body fuel step context policies partition) LeavesStreams {} calls := by
  unfold body
  refine Scoped.wp_seq (wp_prepare_holding policies partition h) ?_
    fun err _ _ h' => Or.inl ⟨⟨err, rfl⟩, h'⟩
  intro S l₁ calls₁ h₁
  have hloop := Scoped.wp_of_keeps (l := l₁) (S.stays_chunkLoop fuel)
    (holding_frame (by decide) (by decide) True l₁) h₁
  have hkept {l : Locals} {calls : Calls α}
      (h : Leaves Locals.openedStreams l₁ l ∧ Holding l₁ calls) : Holding l calls :=
    ⟨h.2.1, h.2.2.trans h.1.symm⟩
  refine Scoped.wp_seq hloop ?_ fun err _ _ h' => Or.inl ⟨⟨err, rfl⟩, hkept h'⟩
  intro _ l₂ calls₂ h₂
  obtain ⟨hcloses, hopened⟩ := hkept h₂
  rw [Scoped.wp_bind, Scoped.wp_get, Scoped.afterwards_ok, Scoped.wp_bind, Scoped.wp_modify,
    Scoped.afterwards_ok, Scoped.wp_bind, Scoped.wp_lift]
  refine Prog.wp_mono (wp_closeInOrder l₂.openedStreams.reverse calls₂) ?_
  intro out calls₃ hcase
  obtain ⟨cs, hcs, hclosing, hopened', -⟩ := hcase
  rw [hcloses, List.nil_append] at hcs
  rw [← hopened, ← hopened', ← hcs] at hclosing
  cases out with
  | error err => exact Or.inr ⟨rfl, _, hclosing⟩
  | ok u =>
      rw [Scoped.afterwards_ok, Scoped.wp_lift]
      refine Prog.wp_mono (Prog.wp_of_uses
        (uses_invokeAfterStep (K := [.afterStep]) (by decide) _ _ _)
        ((closes_frame (by decide) False (closes calls₃)).and
          (opened_frame (by decide) False (opened calls₃))) ⟨rfl, rfl⟩) ?_
      intro out calls₄ hcase
      obtain ⟨hcloses₄, hopened₄⟩ := hcase
      rw [← hcloses₄, ← hopened₄] at hclosing
      exact Or.inr ⟨rfl, _, hclosing⟩

/-- The error that a failed step reports. -/
def finalError (err : Thrown) : Except Thrown Unit → Thrown
  | .ok () => err
  | .error closeErr => closeErr

/-- What the `catch` block does behind the calls `before`: it closes `streams`, last opened first,
and reports the error of a `close` that throws instead of `err`. -/
def Recovers (entries : List ListenerEntry) (err : Thrown) (streams : List Handle)
    (before : Calls α) (out : Except Thrown StepResult) (calls : Calls α) : Prop :=
  ∃ cs closed, Closing streams.reverse cs closed ∧ closes calls = closes before ++ cs ∧
    opened calls = opened before ∧ ∀ result, out = .ok result → ∃ made ns,
      (finalError err closed).text = .ok made.exitMessage ∧
      notices calls = notices before ++ ns ∧ Round entries made ns out

/-- The failure handler closes what the body left open. -/
theorem wp_onFailure_recovers (err : Thrown) (l : Locals) (calls : Calls α) :
    (onFailure step context err l).wp anyCalls
      (Recovers (afterStepEntries context.listenerResolvers) err l.openedStreams calls) calls := by
  refine Prog.wp_bind.mpr (Prog.wp_attempt.mpr
    (Prog.wp_mono (wp_closeInOrder l.openedStreams.reverse calls) ?_))
  intro closed calls₁ hcase
  obtain ⟨cs, hcs, hclosing, hopened, hnotices⟩ := hcase
  rw [Prog.afterwards_ok]
  -- from here on no stream is opened or closed
  have hframe (K : List OpKind) (hopen : .openStream ∉ K) (hclose : .closeStream ∉ K) :
      (anyCalls : Prog.Logic (Op α) Op.Resp (Calls α)).Frame (On K)
        (fun calls' => closes calls' = closes calls ++ cs ∧ opened calls' = opened calls) :=
    (closes_frame hclose False _).and (opened_frame hopen False _)
  have hlisteners (kind : ListenerKind) (ctx : ListenerContext) (e : Thrown) {calls' : Calls α}
      (h : (closes calls' = closes calls ++ cs ∧ opened calls' = opened calls) ∧
        notices calls' = notices calls) :
      (invokeOnError context.listenerResolvers kind ctx e).wp anyCalls
        (fun _ calls' => (closes calls' = closes calls ++ cs ∧ opened calls' = opened calls) ∧
          notices calls' = notices calls) calls' :=
    Prog.wp_of_uses (uses_invokeMatching (K := [.listener]) (by decide) _ _ _)
      ((hframe _ (by decide) (by decide)).and (notices_frame (by decide) False _)) h
  have hthrew (e : Thrown) (calls' : Calls α)
      (h : (closes calls' = closes calls ++ cs ∧ opened calls' = opened calls) ∧
        notices calls' = notices calls) :
      Recovers (afterStepEntries context.listenerResolvers) err l.openedStreams calls (.error e)
        calls' := by
    refine ⟨cs, closed, hclosing, h.1.1, h.1.2, ?_⟩
    intro result hresult
    cases hresult
  refine Prog.wp_seq (hlisteners _ _ _ ⟨⟨hcs, hopened⟩, hnotices⟩) ?_ hthrew
  intro _ calls₂ h₂
  refine Prog.wp_bind.mpr ((Prog.wp_ofExcept _).mpr ?_)
  cases htext : Thrown.text _ with
  | error textErr => exact hthrew textErr calls₂ h₂
  | ok exitMessage =>
      refine Prog.wp_seq (hlisteners _ _ _ h₂) ?_ hthrew
      intro _ calls₃ h₃
      refine Prog.wp_mono (Prog.wp_and (wp_invokeAfterStep_round _ _ _ calls₃)
        (Prog.wp_of_uses (uses_invokeAfterStep (K := [.afterStep]) (by decide) _ _ _)
          (hframe _ (by decide) (by decide)) h₃.1)) ?_
      intro out calls₄ hcase
      obtain ⟨⟨ns, hns, hround⟩, hcs₄, hopened₄⟩ := hcase
      rw [h₃.2] at hns
      refine ⟨cs, closed, hclosing, hcs₄, hopened₄, ?_⟩
      intro result _
      refine ⟨_, ns, ?_, hns, hround⟩
      cases closed with
      | ok u => exact htext
      | error closeErr => exact htext

/-- **What a step does with its streams**: it closes the opened ones in turn, last opened first. -/
theorem wp_execute_streams (fuel : Nat) :
    (execute fuel step context : Code α StepResult).wp anyCalls (fun _ calls => ∃ closed,
      Closing (opened calls).reverse (closes calls) closed) [] := by
  have hnone {calls : Calls α} (h : Holding {} calls) : ∃ closed,
      Closing (opened calls).reverse (closes calls) closed := by
    rw [h.1, h.2]
    exact ⟨_, .done⟩
  unfold execute
  refine Prog.wp_bind.mpr ((Prog.wp_ofExcept _).mpr ?_)
  cases Policies.compile step with
  | error err => exact ⟨_, .done⟩
  | ok policies =>
      refine Prog.wp_bind.mpr ((Prog.wp_ofExcept _).mpr ?_)
      cases resolveRange step context with
      | error err => exact ⟨_, .done⟩
      | ok partition =>
          have hbefore : (invokeBefore context.listenerResolvers .step
              (buildListenerContext step context) : Code α Unit).Uses (On [.listener]) :=
            uses_invokeMatching (by decide) _ _ _
          refine Prog.wp_seq (Prog.wp_of_uses hbefore
            (holding_frame (by decide) (by decide) False {}) ⟨rfl, rfl⟩) ?_ fun _ _ h => hnone h
          intro _ calls₁ h₁
          refine Prog.wp_seq (wp_body_streams fuel policies partition h₁) ?_ fun _ _ h => h.elim
          intro hcase calls₂ hstreams
          obtain ⟨out, l⟩ := hcase
          cases out with
          | ok result =>
              rcases hstreams with ⟨⟨err, herr⟩, -⟩ | ⟨-, hclosed⟩
              · cases herr
              · exact hclosed
          | error err =>
              refine Prog.wp_mono (wp_onFailure_recovers err l calls₂) ?_
              intro out calls₃ hcase
              obtain ⟨cs, closed, hclosing, hcloses, hopened, -⟩ := hcase
              rcases hstreams with ⟨-, hnone₂, hopened₂⟩ | ⟨hempty, closed₂, hclosing₂⟩
              · rw [hnone₂, List.nil_append] at hcloses
                rw [hopened, hopened₂, hcloses]
                exact ⟨closed, hclosing⟩
              · rw [hempty] at hclosing
                cases hclosing
                rw [List.append_nil] at hcloses
                rw [hopened, hcloses]
                exact ⟨closed₂, hclosing₂⟩

/-! ### When the streams are closed and the error is the real one -/

section Run

variable {env : Environment α υ} {fuel : Nat} {w : World υ} {out : Except Thrown StepResult}
  {calls : Calls α}

/-- The step failed with `err` before it began to close its streams. -/
def FailsBeforeClosing (env : Environment α υ) (fuel : Nat) (step : ChunkStepDefinition)
    (context : ChunkExecutionContext) (w : World υ) (err : Thrown) : Prop :=
  ∃ before, TryEnds env fuel step context w (.error err) before ∧ closes before = []

/-- The `after:step` listeners leave the exit message alone. -/
def MessageKept (calls : Calls α) : Prop :=
  ∀ n ∈ notices calls, n.left.exitMessage = n.told.exitMessage

/-- **The streams are closed and the real error is reported**: each stream that was opened is closed
once, last opened first, no other is closed, and a step that failed before closing returns the
message of the error it failed with. -/
structure ClosesStreams (env : Environment α υ) (fuel : Nat) (step : ChunkStepDefinition)
    (context : ChunkExecutionContext) (w : World υ) (out : Except Thrown StepResult)
    (calls : Calls α) : Prop where
  closed : (closes calls).map Prod.fst = (opened calls).reverse
  realError : ∀ err result, FailsBeforeClosing env fuel step context w err → out = .ok result →
    MessageKept calls → err.text = .ok result.exitMessage

/-- **No `close` does harm**: none throws but that of the stream opened first, and where the step
failed before none throws anything with another message. -/
structure HarmlessCloses (env : Environment α υ) (fuel : Nat) (step : ChunkStepDefinition)
    (context : ChunkExecutionContext) (w : World υ) (out : Except Thrown StepResult)
    (calls : Calls α) : Prop where
  last : ∀ i c err, (closes calls)[i]? = some c → c.2 = .error err → i + 1 = (opened calls).length
  sameMessage : ∀ err result, FailsBeforeClosing env fuel step context w err → out = .ok result →
    MessageKept calls → ∀ c ∈ closes calls, ∀ closeErr, c.2 = .error closeErr →
      closeErr.text = err.text

/-- What a step that failed before closing reports. -/
theorem recovers_of_failsBeforeClosing (hrun : Finishes env fuel step context w out calls)
    {err : Thrown} (hfails : FailsBeforeClosing env fuel step context w err) {result : StepResult}
    (hout : out = .ok result) (hkept : MessageKept calls) : ∃ order closed,
      Closing order (closes calls) closed ∧
        (finalError err closed).text = .ok result.exitMessage := by
  obtain ⟨before, htry, hnone⟩ := hfails
  obtain ⟨l, w₁, hexecute⟩ := htry.run_execute
  obtain ⟨w', hfinished⟩ := hrun
  have hrecovers : (onFailure step context err l).wp anyCalls
      (Recovers (afterStepEntries context.listenerResolvers) err l.openedStreams before) before :=
    wp_onFailure_recovers err l before
  have hended := Prog.wp_run (wp_of_logged (anyCalls_answers env) hrecovers (w := w₁) trivial)
  have hcatch : Prog.run (handle env).traced (onFailure step context err l) (w₁, before) =
      (Prog.Outcome.ended out, (w', calls)) := hexecute.symm.trans hfinished
  rw [hcatch] at hended
  subst hout
  obtain ⟨⟨cs, closed, hclosing, hcloses, -, hmade⟩, -⟩ := hended
  obtain ⟨made, ns, hmessage, hns, hround⟩ := hmade result rfl
  rw [hnone, List.nil_append] at hcloses
  rw [← hcloses] at hclosing
  have hsame : result.exitMessage = made.exitMessage := by
    refine hround.message fun n hn => hkept n ?_
    rw [hns]
    exact List.mem_append_right _ hn
  rw [← hsame] at hmessage
  exact ⟨_, closed, hclosing, hmessage⟩

/-- **When the streams are closed and the real error is reported**: exactly when no `close` does
harm, whatever else throws. -/
theorem closesStreams_iff (env : Environment α υ) (fuel : Nat) (step : ChunkStepDefinition)
    (context : ChunkExecutionContext) (w : World υ) (out : Except Thrown StepResult)
    (calls : Calls α) (hrun : Finishes env fuel step context w out calls) :
    ClosesStreams env fuel step context w out calls ↔
      HarmlessCloses env fuel step context w out calls := by
  obtain ⟨closed, hclosing⟩ := hrun.of_logged (wp_execute_streams fuel)
  have hall := hclosing.all_iff
  rw [List.length_reverse] at hall
  constructor
  · intro h
    refine ⟨hall.mp h.closed, ?_⟩
    intro err result hfails hout hkept c hc closeErr hcloseErr
    obtain ⟨order, closed', hclosing', hmessage⟩ :=
      recovers_of_failsBeforeClosing hrun hfails hout hkept
    have hclosed := (hclosing'.error_iff closeErr).mp ⟨c, hc, hcloseErr⟩
    rw [hclosed] at hmessage
    exact hmessage.trans (h.realError err result hfails hout hkept).symm
  · intro h
    refine ⟨hall.mpr h.last, ?_⟩
    intro err result hfails hout hkept
    obtain ⟨order, closed', hclosing', hmessage⟩ :=
      recovers_of_failsBeforeClosing hrun hfails hout hkept
    cases hclosed : closed' with
    | ok u =>
        rw [hclosed] at hmessage
        exact hmessage
    | error closeErr =>
        obtain ⟨c, hc, hcloseErr⟩ := (hclosing'.error_iff closeErr).mpr hclosed
        rw [hclosed] at hmessage
        exact (h.sameMessage err result hfails hout hkept c hc closeErr hcloseErr).symm.trans
          hmessage

end Run

/-- An empty input that may throw, behind a reader and a writer that are streams; the writer may
throw when it is closed. -/
def streaming (read close : Except Thrown Unit) : Environment Nat Nat where
  user
    | .invoke fn, n, _ => (.ok { target := fn, isStream := true }, n, [])
    | .read _ _, n, _ => (read.map fun _ => none, n, [])
    | .closeStream stream, n, _ => (if stream = 1 then close else .ok (), n, [])
    | call, n, ctx => (willing []).user call n ctx
  broker _ n := (.ok "queued", n)

/-- The run of a step over two streams. -/
def streamedRun (read close : Except Thrown Unit) :
    Prog.Outcome Thrown StepResult × World Nat × Calls Nat :=
  Prog.run (handle (streaming read close)).traced (execute 2 (plainStep 10 none none) plainContext)
    (World.initial (unaryIds 'i') (unaryIds 'u') 0, [])

/-- A streamed run closes its streams. -/
theorem closesStreams_of_streamed :
    ClosesStreams (streaming (.ok ()) (.ok ())) 2 (plainStep 10 none none) plainContext
      (World.initial (unaryIds 'i') (unaryIds 'u') 0)
      (.ok ⟨.COMPLETED, "COMPLETED", "", 0, 0, 0, some 0⟩) (streamedRun (.ok ()) (.ok ())).2.2 := by
  have hrun : Finishes (streaming (.ok ()) (.ok ())) 2 (plainStep 10 none none) plainContext
      (World.initial (unaryIds 'i') (unaryIds 'u') 0)
      (.ok ⟨.COMPLETED, "COMPLETED", "", 0, 0, 0, some 0⟩)
      (streamedRun (.ok ()) (.ok ())).2.2 := ⟨(streamedRun (.ok ()) (.ok ())).2.1, rfl⟩
  have hcloses : closes (streamedRun (.ok ()) (.ok ())).2.2 = [(1, .ok ()), (0, .ok ())] := rfl
  have hclosed : ∀ c ∈ closes (streamedRun (.ok ()) (.ok ())).2.2, c.2 = .ok () := by
    rw [hcloses]
    intro c hc
    rcases List.mem_cons.mp hc with rfl | hc
    · rfl
    · rw [List.mem_singleton.mp hc]
  refine (closesStreams_iff _ _ _ _ _ _ _ hrun).mpr ⟨?_, ?_⟩
  · intro i c err hi herr
    rw [hclosed c (List.mem_of_getElem? hi)] at herr
    cases herr
  · intro err result _ _ _ c hc closeErr herr
    rw [hclosed c hc] at herr
    cases herr

/-- **A stream that cannot be closed keeps the other open**, and hides what went wrong: the writer
throws when it is closed, the reader is not closed at all, and the step reports the writer's error
instead of the reader's. -/
theorem reader_left_open :
    (streamedRun (.error (.error "read")) (.error (.error "close"))).1 =
      .returned ⟨.FAILED, "FAILED", "close", 0, 0, 0, some 0⟩ ∧
    opened (streamedRun (.error (.error "read")) (.error (.error "close"))).2.2 = [0, 1] ∧
    closes (streamedRun (.error (.error "read")) (.error (.error "close"))).2.2 =
      [(1, .error (.error "close"))] ∧
    ¬ ClosesStreams (streaming (.error (.error "read")) (.error (.error "close"))) 2
      (plainStep 10 none none) plainContext (World.initial (unaryIds 'i') (unaryIds 'u') 0)
      (.ok ⟨.FAILED, "FAILED", "close", 0, 0, 0, some 0⟩)
      (streamedRun (.error (.error "read")) (.error (.error "close"))).2.2 := by
  refine ⟨rfl, rfl, rfl, ?_⟩
  intro h
  have hclosed := congrArg List.length h.closed
  cases hclosed

end ChunkStepExecutor

end NestBatch
