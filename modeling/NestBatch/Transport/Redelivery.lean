import NestBatch.Execution.ResumeHistory
import NestBatch.Execution.RunFootprint
import NestBatch.Lib.Sessions
import NestBatch.Transport.Agreement

/-!
# Messages that are delivered again

A broker delivers a message at least once, and a delivery can be made while an earlier one is
still under way.  A worker hands each delivery to the job executor, which asks the row of the
execution only whether it is to be restarted: an execution that has COMPLETED is driven once more
like a new one.
-/

namespace NestBatch

variable {α β υ : Type}

/-- The transports that deliver messages. -/
inductive Transport
  | bullmq
  | kafka
  deriving DecidableEq, Repr

/-- What a worker of the transport does with a payload. -/
def Transport.consume (transport : Transport) (registry : JobRegistry) (fuel : Nat)
    (payload : JobPayload) : Code α Unit :=
  match transport with
  | .bullmq => BullmqRuntime.processJob registry fuel payload
  | .kafka => KafkaRuntime.processMessage registry fuel payload

/-- The partition that the worker of the transport has a message run as. -/
def Transport.partitionArgs (transport : Transport) (jobDef : JobDefinition)
    (payload : JobPayload) : Except Thrown PartitionArgs :=
  match transport with
  | .bullmq => .ok {}
  | .kafka => KafkaRuntime.partitionArgs jobDef payload

/-- A message that a worker hands to the job executor. -/
structure IsHandedOver (registry : JobRegistry) (payload : JobPayload) (jobDef : JobDefinition) :
    Prop where
  registered : registry.get payload.jobId = .ok jobDef
  genuine : KafkaRuntime.isProbe payload = false
  routed : ∃ partition, KafkaRuntime.partitionArgs jobDef payload = .ok partition

/-- A worker looks the row up and hands it to the job executor. -/
theorem Transport.consume_eq (transport : Transport) (fuel : Nat) {registry : JobRegistry}
    {payload : JobPayload} {jobDef : JobDefinition}
    (hmessage : IsHandedOver registry payload jobDef) :
    ∃ partition, transport.partitionArgs jobDef payload = .ok partition ∧
      ∃ f : Option JobExecution → Code α Unit,
      transport.consume registry fuel payload = getJobExecution payload.executionId >>= f ∧
      ∀ row, f (some row) =
        JobExecutor.execute fuel row jobDef partition >>= fun _ => .pure () := by
  cases transport with
  | bullmq =>
      refine ⟨{}, rfl, _, Prog.bind_assoc _ _ _, fun row => ?_⟩
      dsimp only
      rw [hmessage.registered]
      rfl
  | kafka =>
      obtain ⟨partition, hrouted⟩ := hmessage.routed
      refine ⟨partition, hrouted, ?f, ?_, fun row => ?_⟩
      case refine_1 =>
        change KafkaRuntime.processMessage registry fuel payload = _
        unfold KafkaRuntime.processMessage KafkaRuntime.route
        rw [hmessage.genuine, if_neg (by decide)]
        exact Prog.bind_assoc _ _ _
      case refine_2 =>
        dsimp only
        rw [hmessage.registered]
        change (Prog.ofExcept (KafkaRuntime.partitionArgs jobDef payload) >>= _) >>= _ = _
        rw [hrouted]
        rfl

/-- A message of a registered job that is not partitioned. -/
structure IsMessageOf (registry : JobRegistry) (payload : JobPayload) (jobDef : JobDefinition) :
    Prop where
  registered : registry.get payload.jobId = .ok jobDef
  whole : payload.partitionIndex = none
  genuine : KafkaRuntime.isProbe payload = false

/-- A message for a registered job is handed over. -/
theorem IsMessageOf.isHandedOver {registry : JobRegistry} {payload : JobPayload}
    {jobDef : JobDefinition} (h : IsMessageOf registry payload jobDef) :
    IsHandedOver registry payload jobDef :=
  ⟨h.registered, h.genuine, {},
    (KafkaRuntime.partitionArgs_eq_empty_iff payload jobDef).mpr h.whole⟩

/-- The calls that drive nothing: looking, announcing, and asking for the time. -/
def idleKinds : List OpKind := [.getJob, .listener, .clock, .emit]

/-! ### One delivery -/

/-- The calls have written a final status of the execution. -/
def HasClosed (e : String) (calls : Calls α) : Prop :=
  ∃ patch ∈ jobWrites e calls, ClosingMark patch

instance (e : String) (calls : Calls α) : Decidable (HasClosed e calls) :=
  inferInstanceAs (Decidable (∃ patch ∈ jobWrites e calls, ClosingMark patch))

theorem not_hasClosed_nil (e : String) : ¬ HasClosed e ([] : Calls α) := by
  intro h
  obtain ⟨patch, hmem, -⟩ := h
  cases hmem

/-- A call closes an execution by writing a final status of it, and no other way. -/
theorem hasClosed_snoc {e : String} {calls : Calls α} {o : Op α} {r : o.Resp}
    (h : HasClosed e (calls ++ [⟨o, r⟩])) :
    HasClosed e calls ∨ ∃ patch, o = .updateJobExecution e patch ∧ ClosingMark patch := by
  obtain ⟨patch, hmem, hclosing⟩ := h
  rw [jobWrites_snoc] at hmem
  rcases List.mem_append.mp hmem with hold | hnew
  · exact .inl ⟨patch, hold, hclosing⟩
  · have hwrite := Option.mem_toList.mp hnew
    cases o with
    | updateJobExecution id patch' =>
        by_cases hid : id = e
        · have hsame : some patch' = some patch := (if_pos hid).symm.trans hwrite
          cases hsame
          exact .inr ⟨patch, hid ▸ rfl, hclosing⟩
        · cases (if_neg hid).symm.trans hwrite
    | user call => cases call <;> cases hwrite
    | _ => cases hwrite

/-- The execution is found under its id, and can be written to. -/
def AnswersOnFileOf (e : String) : (o : Op α) → o.Resp → Prop
  | .getJobExecution id, r => id = e → ∃ row : JobExecution, r = some row ∧ row.id = e
  | .updateJobExecution id _, r => id = e → r = .ok ()
  | _, _ => True

/-- A delivery creates no execution, and drives its own no further once it has closed it. -/
def finalRules (e : String) : CallRules α where
  demands calls o := o.kind ≠ .createExecution ∧ (HasClosed e calls → o.kind ∈ idleKinds)
  allowed _ := AnswersOnFileOf e

/-- Operations that close no execution. -/
def unclosing (e : String) : Prog.Footprint (Op α) where
  ops o := o.kind ≠ .createExecution ∧
    ∀ patch, o = .updateJobExecution e patch → ¬ ClosingMark patch
  loops := True

section Frames

variable {e : String} {K : List OpKind}

/-- Calls that neither create nor update a job do not close it. -/
theorem unclosing_of_kinds {p : Code α β} (hp : p.Uses (Looping K)) (hcreate : .createExecution ∉ K)
    (hupdate : .updateJob ∉ K) : p.Uses (unclosing e) := by
  refine hp.mono ⟨fun o ho => ⟨fun heq => hcreate (heq ▸ ho), fun patch heq => ?_⟩,
    fun _ => trivial⟩
  subst heq
  exact absurd ho hupdate

/-- An execution stays open behind them. -/
theorem unclosed_frame : (logged (finalRules (α := α) e) True).Frame (unclosing e)
    (fun calls => ¬ HasClosed e calls) where
  guard _ _ ho hopen := ⟨ho.1, fun hclosed => absurd hclosed hopen⟩
  keep _ _ _ _ ho hopen ht := by
    obtain ⟨hsnoc, -⟩ := ht
    subst hsnoc
    intro hclosed
    rcases hasClosed_snoc hclosed with hold | ⟨patch, heq, hclosing⟩
    · exact hopen hold
    · exact ho.2 patch heq hclosing
  loops _ := trivial

/-- And idle calls are always in order. -/
theorem idle_frame (hidle : ∀ k ∈ K, k ∈ idleKinds) :
    (logged (finalRules (α := α) e) True).Frame (Looping K) (fun _ => True) where
  guard o _ ho _ := by
    have hkind := hidle _ ho
    refine ⟨fun heq => ?_, fun _ => hkind⟩
    rw [heq] at hkind
    exact absurd hkind (by decide)
  keep _ _ _ _ _ _ _ := trivial
  loops _ := trivial

end Frames

namespace JobExecutor.Run

variable (R : Run) {calls : Calls α}

/-- A final status is written, and what is left is in order whatever the log. -/
theorem wp_final {patch : JobExecutionPatch} {p : Code α β}
    {Q : Except Thrown β → Calls α → Prop} (hopen : ¬ HasClosed R.execution.id calls)
    (hp : ∀ calls', p.wp (logged (finalRules R.execution.id) True) Q calls') :
    (updateJobExecution R.execution.id patch >>= fun _ => p).wp
      (logged (finalRules R.execution.id) True) Q calls := by
  have hdemands : (finalRules R.execution.id : CallRules α).demands calls
      (.updateJobExecution R.execution.id patch) :=
    ⟨(fun heq => by cases heq), fun hclosed => absurd hclosed hopen⟩
  refine Prog.wp_bind.mpr (Prog.wp_bind.mpr (wp_call hdemands fun r hr => ?_))
  have hok : r = .ok () := hr rfl
  subst hok
  exact hp _

/-- The final write is made at the time of the clock. -/
theorem wp_finalNow {patch : Time → JobExecutionPatch} {p : Code α β}
    {Q : Except Thrown β → Calls α → Prop} (hopen : ¬ HasClosed R.execution.id calls)
    (hp : ∀ calls', p.wp (logged (finalRules R.execution.id) True) Q calls') :
    (now >>= fun time => updateJobExecution R.execution.id (patch time) >>= fun _ => p).wp
      (logged (finalRules R.execution.id) True) Q calls := by
  have hdemands : (finalRules R.execution.id : CallRules α).demands calls .now :=
    ⟨(fun heq => by cases heq), fun hclosed => absurd hclosed hopen⟩
  refine Prog.wp_bind.mpr (wp_call hdemands fun time _ => R.wp_final ?_ hp)
  intro hclosed
  rcases hasClosed_snoc hclosed with hold | ⟨patch, heq, -⟩
  · exact hopen hold
  · cases heq

/-- The step loop leaves its execution open, unless it has failed it. -/
theorem stepLoop_unclosed (hopen : ¬ HasClosed R.execution.id calls) (loopFuel fuel : Nat)
    (stepId : String) : (R.stepLoop loopFuel fuel stepId : Code α JobStatus).wp
      (logged (finalRules R.execution.id) True)
      (fun out calls' => out = .ok .FAILED ∨ ¬ HasClosed R.execution.id calls') calls := by
  induction fuel generalizing stepId calls with
  | zero => trivial
  | succ fuel ih =>
      have hfail {calls' : Calls α} (hopen' : ¬ HasClosed R.execution.id calls')
          (exitCode exitMessage : String) : (R.failJob exitCode exitMessage : Code α JobStatus).wp
            (logged (finalRules R.execution.id) True)
            (fun out calls'' => out = .ok .FAILED ∨ ¬ HasClosed R.execution.id calls'') calls' :=
        R.wp_finalNow hopen' fun _ => Or.inl rfl
      have hstep (step : StepDefinition) : (R.runStep loopFuel step :
          Code α (StepExecution × StepResult)).Uses (unclosing R.execution.id) :=
        unclosing_of_kinds (R.uses_runStep loopFuel step) (by decide) (by decide)
      have hdecide (ctx : DeciderContext) : (R.resolveDeciderExitStatus stepId ctx :
          Code α (Option String)).Uses (unclosing R.execution.id) :=
        unclosing_of_kinds (K := [.decide]) (R.uses_resolveDecider (by decide) stepId ctx)
          (by decide) (by decide)
      unfold stepLoop
      cases R.jobDef.step? stepId with
      | none => exact hfail hopen _ _
      | some step =>
          refine Prog.wp_seq (Prog.wp_of_uses (hstep step) unclosed_frame hopen) ?_
            fun _ _ h => .inr h
          intro ran calls₁ hopen₁
          refine Prog.wp_seq (Prog.wp_of_uses (hdecide _) unclosed_frame hopen₁) ?_
            fun _ _ h => .inr h
          intro decider calls₂ hopen₂
          refine Prog.wp_bind.mpr ((Prog.wp_ofExcept _).mpr ?_)
          cases nextStep R.jobDef stepId decider ran.2 with
          | error err => exact .inr hopen₂
          | ok next =>
              cases next with
              | goto next => exact ih hopen₂ next
              | finish => exact .inr hopen₂
              | fail => exact hfail hopen₂ _ _

/-- The last status that a run writes is its final one. -/
theorem drive_final (hopen : ¬ HasClosed R.execution.id calls) (fuel : Nat) :
    (R.drive fuel : Code α JobStatus).wp (logged (finalRules R.execution.id) True)
      (fun _ _ => True) calls := by
  refine Prog.wp_tryCatch.mpr (Prog.wp_seq (R.stepLoop_unclosed hopen fuel fuel _) ?_ ?_)
  · intro status calls₁ h₁
    unfold completeJob
    by_cases hcompleted : status = .COMPLETED
    · rw [if_pos hcompleted]
      rcases h₁ with hfailed | hopen₁
      · cases hcompleted.symm.trans (Except.ok.inj hfailed)
      · exact R.wp_finalNow hopen₁ fun _ => trivial
    · rw [if_neg hcompleted]
      trivial
  · intro err calls₁ h₁
    rcases h₁ with hfailed | hopen₁
    · cases hfailed
    · change (R.onError err : Code α JobStatus).wp _ _ _
      cases htext : err.text with
      | error textErr =>
          rw [R.onError_of_textless htext]
          have hdemands : (finalRules R.execution.id : CallRules α).demands calls₁ .now :=
            ⟨(fun heq => by cases heq), fun hclosed => absurd hclosed hopen₁⟩
          exact Prog.wp_bind.mpr (wp_call hdemands fun _ _ => trivial)
      | ok exitMessage =>
          rw [R.onError_of_text htext]
          exact R.wp_finalNow hopen₁ fun _ => trivial

/-- **A run drives its execution no further** once it has closed it. -/
theorem proceed_final (hopen : ¬ HasClosed R.execution.id calls) (fuel : Nat) :
    (R.proceed fuel : Code α JobExecution).wp (logged (finalRules R.execution.id) True)
      (fun _ _ => True) calls := by
  have hstart (time : Time) : (updateJobExecution R.execution.id (startPatch time) :
      Code α Unit).Uses (unclosing R.execution.id) := by
    refine Prog.Uses.bind ((Prog.uses_perform _).mpr ⟨(fun heq => by cases heq), ?_⟩)
      fun _ => Prog.uses_ofExcept _
    intro patch heq hclosing
    cases heq
    rcases hclosing with h | h
    · cases h
    · cases h
  have hside {γ : Type} {p : Code α γ} (hp : p.Uses (Looping [.clock, .emit, .listener])) :
      p.Uses (unclosing R.execution.id) := unclosing_of_kinds hp (by decide) (by decide)
  have hprologue : (R.prologue : Code α Unit).Uses (unclosing R.execution.id) := by
    refine Prog.Uses.bind ?_ fun _ => hside (ListenerInvoker.uses_invokeMatching (by decide) _ _ _)
    refine (hside (uses_now (by decide))).bind fun startTime => (hstart startTime).bind fun _ => ?_
    exact hside ((uses_now (by decide)).bind fun _ => uses_emit (by decide) _)
  rw [R.proceed_eq]
  refine Prog.wp_seq (Prog.wp_of_uses hprologue unclosed_frame hopen) ?_ fun _ _ _ => trivial
  intro _ calls₁ hopen₁
  refine Prog.wp_seq (R.drive_final hopen₁ fuel) ?_ fun _ _ _ => trivial
  intro status calls₂ _
  have htail : (R.finish status >>= fun _ => getJobExecution R.execution.id >>= fun latest =>
      .pure (latest.getD R.execution) : Code α JobExecution).Uses (Looping idleKinds) := by
    have hget : OpKind.getJob ∈ idleKinds := by decide
    refine Prog.Uses.bind ?_ fun _ => (uses_request hget).bind fun _ => trivial
    exact (ListenerInvoker.uses_invokeMatching (by decide) _ _ _).bind fun _ =>
      (uses_now (by decide)).bind fun _ => uses_emit (by decide) _
  exact Prog.wp_of_uses htail (idle_frame fun _ hk => hk) trivial

end JobExecutor.Run

section Consumers

variable {registry : JobRegistry} {fuel : Nat} {payload : JobPayload}

/-- **A delivery drives its execution no further** once it has closed it. -/
theorem Transport.consume_final (transport : Transport) :
    (transport.consume registry fuel payload : Code α Unit).wp
      (logged (finalRules payload.executionId) True) (fun _ _ => True) [] := by
  have hexecute (row : JobExecution) (jobDef : JobDefinition) (partition : PartitionArgs)
      (calls : Calls α) (hid : row.id = payload.executionId)
      (hopen : ¬ HasClosed payload.executionId calls) :
      (JobExecutor.execute fuel row jobDef partition >>= fun _ => .pure () : Code α Unit).wp
        (logged (finalRules payload.executionId) True) (fun _ _ => True) calls := by
    rw [← hid] at hopen ⊢
    refine Prog.wp_seq (R := fun _ _ => True) ?_ (fun _ _ _ => trivial) fun _ _ _ => trivial
    unfold JobExecutor.execute
    split
    · trivial
    · exact JobExecutor.Run.proceed_final
        { execution := row, jobDef := jobDef, partition := partition } hopen fuel
  have hlook {γ : Type} {Q : Except Thrown γ → Calls α → Prop} {f : Option JobExecution → Code α γ}
      (hf : ∀ row calls, row.id = payload.executionId → ¬ HasClosed payload.executionId calls →
        (f (some row)).wp (logged (finalRules payload.executionId) True) Q calls) :
      (getJobExecution payload.executionId >>= f).wp
        (logged (finalRules payload.executionId) True) Q [] := by
    have hdemands : (finalRules payload.executionId : CallRules α).demands []
        (.getJobExecution payload.executionId) :=
      ⟨(fun heq => by cases heq), fun hclosed => absurd hclosed (not_hasClosed_nil _)⟩
    refine Prog.wp_bind.mpr (wp_call hdemands fun found hfound => ?_)
    obtain ⟨row, rfl, hid⟩ := hfound rfl
    refine hf row _ hid ?_
    intro hclosed
    rcases hasClosed_snoc hclosed with hold | ⟨patch, heq, -⟩
    · exact not_hasClosed_nil _ hold
    · cases heq
  cases transport with
  | bullmq =>
      refine Prog.wp_bind.mpr (hlook fun row calls hid hopen => ?_)
      refine Prog.wp_bind.mpr ((Prog.wp_ofExcept _).mpr ?_)
      cases registry.get payload.jobId with
      | error err => trivial
      | ok jobDef => exact hexecute row jobDef {} calls hid hopen
  | kafka =>
      refine Prog.wp_bind.mpr ?_
      unfold KafkaRuntime.route
      split
      · trivial
      · refine hlook fun row calls hid hopen => ?_
        refine Prog.wp_bind.mpr ((Prog.wp_ofExcept _).mpr ?_)
        cases registry.get payload.jobId with
        | error err => trivial
        | ok jobDef =>
            refine Prog.wp_bind.mpr ((Prog.wp_ofExcept _).mpr ?_)
            cases KafkaRuntime.partitionArgs jobDef payload with
            | error err => trivial
            | ok partition => exact hexecute row jobDef partition calls hid hopen

end Consumers

/-! ### All deliveries of a message -/

/-- The deliveries of a message, as they come in: each is worked off by a program of its own, and
the operations of all of them interleave.  One that takes no further turn has died. -/
def deliveries (env : Environment α υ) (consume : Code α Unit) :
    Prog.Service Unit (Op α) Op.Resp Thrown Unit (World υ) :=
  { code := fun _ => consume, arrive := fun _ w => some w, handler := handle env }

/-- The deliveries that have been made, with the world they share. -/
abbrev Deliveries (α υ : Type) := Prog.Site Unit (Op α) Op.Resp Thrown Unit (World υ)

/-- A delivery that is being worked off. -/
abbrev DeliverySession (α : Type) := Prog.Session Unit (Op α) Op.Resp Thrown Unit

/-- The calls that a delivery has made so far. -/
def callsOf (s : Deliveries α υ) (n : Nat) : Calls α := ((s.sessions[n]?).map (·.calls)).getD []

/-- The execution is not driven between two states: it is COMPLETED, and no delivery has done more
than to look, to announce and to ask for the time; no step is run, no item written, no status. -/
structure NotDriven (e : String) (s s' : Deliveries α υ) : Prop where
  completed : Recorded e .COMPLETED s'.shared
  idle : ∀ (n : Nat) (session : DeliverySession α), s'.sessions[n]? = some session → ∃ more,
    session.calls = callsOf s n ++ more ∧ ∀ call ∈ more, call.1.kind ∈ idleKinds

/-- What can happen without harm: while the execution is COMPLETED no delivery is made, and only
deliveries take turns that have written its final status themselves. -/
def Harmless (e : String) (s : Deliveries α υ) : Prog.Happening Unit → Prop
  | .come _ => ¬ Recorded e .COMPLETED s.shared
  | .act n => Recorded e .COMPLETED s.shared → HasClosed e (callsOf s n)

/-- Whatever happens is harmless where it happens. -/
def Calm (S : Prog.Service Unit (Op α) Op.Resp Thrown Unit (World υ)) (e : String) :
    Deliveries α υ → List (Prog.Happening Unit) → Prop
  | _, [] => True
  | s, happening :: rest =>
      Harmless e s happening ∧ ∀ s', S.step s happening = some s' → Calm S e s' rest

/-- Once the execution has COMPLETED it is never driven again, whatever happens. -/
def StaysCompleted (S : Prog.Service Unit (Op α) Op.Resp Thrown Unit (World υ)) (start : World υ)
    (e : String) : Prop :=
  ∀ before s, S.machine.run (Prog.Service.started start) before = some s →
    Recorded e .COMPLETED s.shared → ∀ after s', S.machine.run s after = some s' → NotDriven e s s'

/-- The calls of a session are those it has made. -/
theorem callsOf_eq {s : Deliveries α υ} {n : Nat} {session : DeliverySession α}
    (h : s.sessions[n]? = some session) : callsOf s n = session.calls := by
  unfold callsOf
  rw [h]
  rfl

theorem NotDriven.refl {e : String} {s : Deliveries α υ} (h : Recorded e .COMPLETED s.shared) :
    NotDriven e s s := by
  refine ⟨h, fun n session hsession => ⟨[], ?_, fun _ hmem => by cases hmem⟩⟩
  rw [callsOf_eq hsession, List.append_nil]

section Deliveries

variable {env : Environment α υ} {registry : JobRegistry} {fuel : Nat} {payload : JobPayload}
  {transport : Transport} {start : World υ}

/-- The world answers the deliveries of an execution on file, and leaves it there. -/
theorem deliveries_serve : (deliveries env (transport.consume registry fuel payload)).Serves
    (fun _ => logged (finalRules payload.executionId) True) (fun _ _ _ => True)
    (OnFile payload.executionId) where
  code _ := transport.consume_final
  arrive _ _ _ h harrive := by
    cases harrive
    exact h
  answer _ o w calls h _ := by
    refine ⟨rfl, ?_⟩
    obtain ⟨row, hrow, hid⟩ := h
    cases o with
    | getJobExecution id =>
        intro heq
        subst heq
        exact ⟨row, hrow, hid⟩
    | updateJobExecution id patch =>
        intro heq
        subst heq
        exact (updateJobExecution_self hrow patch).1
    | _ => trivial
  keep _ o w _ h hdemands := by
    have hcreate : OpKind.createExecution ∉ [o.kind] :=
      fun hmem => hdemands.1 (List.mem_singleton.mp hmem).symm
    have hframe : (rowLogic env).Frame (On [o.kind]) (OnFile payload.executionId) :=
      onFile_frame env hcreate
    exact hframe.keep o w _ _ (List.mem_singleton.mpr rfl) h rfl

/-- What is left of every delivery drives the execution no further once it has closed it. -/
abbrev InOrder (e : String) (s : Deliveries α υ) : Prop :=
  Prog.Service.Specified (fun _ : Unit => logged (finalRules (α := α) e) True)
    (fun _ (_ : Except Thrown Unit) _ => True) (OnFile e) s

/-- A turn of a delivery that has closed the execution is an idle one. -/
theorem NotDriven.act {e : String} {s s₁ : Deliveries α υ} {consume : Code α Unit} {n : Nat}
    (h : NotDriven e s s₁) (horder : InOrder e s₁) {session : DeliverySession α} {o : Op α}
    {k : o.Resp → Code α Unit} (hsession : s₁.sessions[n]? = some session)
    (hop : session.rest = .op o k) (hclosed : HasClosed e session.calls) :
    NotDriven e s ((deliveries env consume).after s₁ n session o k) := by
  obtain ⟨hcreate, hidle⟩ := horder.guard hsession hop
  have hkind : o.kind ∈ idleKinds := hidle hclosed
  have hupdate : OpKind.updateJob ∉ [o.kind] := by
    intro hmem
    rw [← List.mem_singleton.mp hmem] at hkind
    exact absurd hkind (by decide)
  have hframe : (rowLogic env).Frame (On [o.kind]) (Recorded e .COMPLETED) :=
    recorded_frame env (fun hmem => hcreate (List.mem_singleton.mp hmem).symm) hupdate
  refine ⟨hframe.keep o s₁.shared _ _ (List.mem_singleton.mpr rfl) h.completed rfl, ?_⟩
  intro m t ht
  rcases Prog.Service.after_cases hsession ht with ⟨rfl, rfl⟩ | ⟨-, hold⟩
  · obtain ⟨more, hcalls, hmore⟩ := h.idle m session hsession
    refine ⟨more ++ [⟨o, (handle env o s₁.shared).1⟩], ?_, ?_⟩
    · rw [← List.append_assoc, ← hcalls]
      rfl
    · intro call hmem
      rcases List.mem_append.mp hmem with hold | hlast
      · exact hmore call hold
      · rw [List.mem_singleton.mp hlast]
        exact hkind
  · exact h.idle m t hold

/-- **As long as only harmless things happen** to an execution that has COMPLETED, it is not
driven. -/
theorem notDriven_of_calm {s s₁ s' : Deliveries α υ} {after : List (Prog.Happening Unit)}
    (h : NotDriven payload.executionId s s₁) (horder : InOrder payload.executionId s₁)
    (hcalm : Calm (deliveries env (transport.consume registry fuel payload)) payload.executionId
      s₁ after)
    (hrun : (deliveries env (transport.consume registry fuel payload)).machine.run s₁ after =
      some s') : NotDriven payload.executionId s s' := by
  induction after generalizing s₁ with
  | nil =>
      cases hrun
      exact h
  | cons happening rest ih =>
      obtain ⟨s₂, hstep, hrest⟩ := Machine.run_cons_eq_some hrun
      obtain ⟨hharmless, hcalm'⟩ := hcalm
      refine ih ?_ (deliveries_serve.step_keeps horder hstep) (hcalm' s₂ hstep) hrest
      cases happening with
      | come request => exact absurd h.completed hharmless
      | act n =>
          obtain ⟨session, o, k, hsession, hop, rfl⟩ := Prog.Service.step_act hstep
          have hclosed := hharmless h.completed
          rw [callsOf_eq hsession] at hclosed
          exact h.act horder hsession hop hclosed

/-! ### A delivery that is made late -/

/-- A delivery that finds its execution COMPLETED looks it up, asks for the time and marks it
STARTED. -/
theorem Transport.consume_marks (transport : Transport) (fuel : Nat) {registry : JobRegistry}
    {payload : JobPayload} {jobDef : JobDefinition}
    (hmessage : IsHandedOver registry payload jobDef) :
    ∃ f : Option JobExecution → Code α Unit,
      transport.consume registry fuel payload = .op (.getJobExecution payload.executionId) f ∧
      ∀ row : JobExecution, row.status = .COMPLETED → ∃ k : Time → Code α Unit,
        f (some row) = .op .now k ∧ ∀ time, ∃ k', k time =
          .op (.updateJobExecution row.id (startPatch time)) k' := by
  obtain ⟨partition, -, f, hconsume, hhands⟩ := transport.consume_eq (α := α) fuel hmessage
  refine ⟨f, hconsume, fun row hstatus => ?_⟩
  have hproceed : JobExecutor.execute fuel row jobDef partition =
      ({ execution := row, jobDef := jobDef, partition := partition } : JobExecutor.Run).proceed
        (α := α) fuel := by
    refine if_neg fun hrestart => ?_
    have hnew : JobExecutor.isRestart row = false := by
      unfold JobExecutor.isRestart
      rw [hstatus]
      decide
    rw [hnew] at hrestart
    cases hrestart.1
  rw [hhands, hproceed]
  exact ⟨_, rfl, fun _ => ⟨_, rfl⟩⟩

/-- **A late delivery drives its execution**: made while it is COMPLETED and given three turns, it
has set it back to STARTED. -/
theorem late_delivery_starts {jobDef : JobDefinition}
    (hmessage : IsHandedOver registry payload jobDef) {s : Deliveries α υ}
    (hdone : Recorded payload.executionId .COMPLETED s.shared) :
    ∃ s', (deliveries env (transport.consume registry fuel payload)).machine.run s
        (.come () :: List.replicate 3 (.act s.sessions.length)) = some s' ∧
      Recorded payload.executionId .STARTED s'.shared := by
  obtain ⟨f, hconsume, hmarks⟩ := transport.consume_marks (α := α) fuel hmessage
  obtain ⟨row, hrow, hid, hstatus⟩ := hdone
  obtain ⟨k, hnow, hupdate⟩ := hmarks row hstatus
  let S := deliveries env (transport.consume registry fuel payload)
  let n := s.sessions.length
  let s₁ : Deliveries α υ := { shared := s.shared, sessions := s.sessions ++ [S.opened ()] }
  have hcome : S.step s (.come ()) = some s₁ := rfl
  have hopened : s₁.sessions[n]? = some (S.opened ()) := by
    change (s.sessions ++ [S.opened ()])[s.sessions.length]? = _
    simp
  have hlook := Prog.Service.act_eq (S := S) hopened hconsume
  have hlooked := Prog.Service.after_self (S := S) (o := .getJobExecution payload.executionId)
    (k := f) hopened
  have hfound : f (handle env (.getJobExecution payload.executionId) s.shared).1 = .op .now k := by
    change f (s.shared.repo.getJobExecution payload.executionId) = _
    rw [hrow]
    exact hnow
  have hask := Prog.Service.act_eq (S := S) hlooked hfound
  have hasked := Prog.Service.after_self (S := S) (o := .now) (k := k) hlooked
  obtain ⟨k', hmark⟩ := hupdate (handle env (.now : Op α) s.shared).1
  have hact := Prog.Service.act_eq (S := S) hasked hmark
  refine ⟨_, Machine.run_cons (hcome : S.machine.step s (.come ()) = some s₁)
    (Machine.run_cons hlook (Machine.run_cons hask (Machine.run_cons hact rfl))), ?_⟩
  rw [hid]
  exact ⟨_, (updateJobExecution_self hrow _).2, hid, rfl⟩

/-- **When redelivery is harmless.**  As long as no delivery is made while the execution is
COMPLETED, and only deliveries take turns meanwhile that have written its final status themselves,
it is not driven again; and a delivery that is made while it is COMPLETED can drive it. -/
theorem redelivery_harmless {jobDef : JobDefinition}
    (hmessage : IsMessageOf registry payload jobDef)
    (hfile : OnFile payload.executionId start) {before : List (Prog.Happening Unit)}
    {s : Deliveries α υ}
    (hrun : (deliveries env (transport.consume registry fuel payload)).machine.run
      (Prog.Service.started start) before = some s)
    (hdone : Recorded payload.executionId .COMPLETED s.shared) :
    (∀ after s', Calm (deliveries env (transport.consume registry fuel payload))
        payload.executionId s after →
      (deliveries env (transport.consume registry fuel payload)).machine.run s after = some s' →
        NotDriven payload.executionId s s') ∧
    ∃ turns s', (deliveries env (transport.consume registry fuel payload)).machine.run s
        (.come () :: turns) = some s' ∧ Recorded payload.executionId .STARTED s'.shared := by
  have horder : InOrder payload.executionId s :=
    deliveries_serve.run_keeps (Prog.Service.specified_started hfile) hrun
  refine ⟨fun after s' hcalm hafter => ?_, ?_⟩
  · exact notDriven_of_calm (NotDriven.refl hdone) horder hcalm hafter
  · obtain ⟨s', hlate, hstarted⟩ := late_delivery_starts hmessage.isHandedOver hdone
    exact ⟨_, s', hlate, hstarted⟩

end Deliveries

/-! ### Two deliveries of one message -/

/-- A list whose reader starts over whenever it is made. -/
def reopened (items : List α) : Environment α Nat where
  user
    | .invoke fn, _, _ => (.ok { target := fn, isFunction := true }, 0, [])
    | call, pos, ctx => (willing items).user call pos ctx
  broker _ pos := (.ok "queued", pos)

def pairsMessage : JobPayload :=
  payloadOf pairsJob { executionId := "r", jobExecutionId := "r" } none

/-- The sample message is one of the sample job. -/
theorem pairsMessage_isMessageOf : IsMessageOf pairsHost.registry pairsMessage pairsJob :=
  ⟨rfl, rfl, by decide⟩

def pairsDeliveries (transport : Transport) :
    Prog.Service Unit (Op Nat) Op.Resp Thrown Unit (World Nat) :=
  deliveries (reopened [10, 20, 30]) (transport.consume pairsHost.registry 5 pairsMessage)

/-- The launched job, after these deliveries. -/
def pairsAfter (transport : Transport) (happenings : List (Prog.Happening Unit)) :
    Option (Deliveries Nat Nat) :=
  (pairsDeliveries transport).machine.run (Prog.Service.started (launchedWorld 0 pairsJob))
    happenings

/-- The `n`th delivery is made, and given so many turns. -/
def oneDelivery (n turns : Nat) : List (Prog.Happening Unit) :=
  .come () :: List.replicate turns (.act n)

/-- The delivery that has completed the job announces it. -/
theorem redelivery_harmless_pairs : ∃ s s', pairsAfter .kafka (oneDelivery 0 32) = some s ∧
    (pairsDeliveries .kafka).machine.run s [.act 0] = some s' ∧ NotDriven "r" s s' := by
  have hlaunched : Recorded "r" .STARTING (launchedWorld 0 pairsJob) := by decide +kernel
  have hcompleted : (pairsAfter .kafka (oneDelivery 0 32)).any (fun s : Deliveries Nat Nat =>
      decide (Recorded "r" .COMPLETED s.shared ∧ HasClosed "r" (callsOf s 0)) &&
        ((pairsDeliveries .kafka).machine.run s [.act 0]).isSome) = true := by decide +kernel
  obtain ⟨s, hrun, hdecided⟩ := (Option.any_eq_true _ _).mp hcompleted
  obtain ⟨hstate, hsome⟩ := Bool.and_eq_true_iff.mp hdecided
  obtain ⟨hdone, hclosed⟩ := of_decide_eq_true hstate
  obtain ⟨s', hact⟩ := Option.isSome_iff_exists.mp hsome
  exact ⟨s, s', hrun, hact, (redelivery_harmless pairsMessage_isMessageOf hlaunched.onFile hrun
    hdone).1 [.act 0] s' ⟨fun _ => hclosed, fun _ _ => trivial⟩ hact⟩

/-- The second of two deliveries writes every item again. -/
def RepeatsJob (transport : Transport) : Prop :=
  (pairsAfter transport (oneDelivery 0 35)).any (fun s =>
    decide (Recorded "r" .COMPLETED s.shared ∧ writtenItems (callsOf s 0) = [10, 20, 30])) ∧
  (pairsAfter transport (oneDelivery 0 35 ++ oneDelivery 1 35)).any (fun s =>
    decide (writtenItems (callsOf s 1) = [10, 20, 30])) ∧
  ¬ StaysCompleted (pairsDeliveries transport) (launchedWorld 0 pairsJob) "r"

/-- A redelivered message repeats the job on both transports. -/
theorem redelivery_repeats_job : RepeatsJob .bullmq ∧ RepeatsJob .kafka := by
  have hrepeats (transport : Transport) (hfirst : (pairsAfter transport (oneDelivery 0 35)).any
      (fun s => decide (Recorded "r" .COMPLETED s.shared)) = true) :
      ¬ StaysCompleted (pairsDeliveries transport) (launchedWorld 0 pairsJob) "r" := by
    intro hstays
    obtain ⟨s, hrun, hdecided⟩ := (Option.any_eq_true _ _).mp hfirst
    have hdone : Recorded "r" .COMPLETED s.shared := of_decide_eq_true hdecided
    have hrestarts : ∃ s', (pairsDeliveries transport).machine.run s
        (.come () :: List.replicate 3 (.act s.sessions.length)) = some s' ∧
          Recorded "r" .STARTED s'.shared :=
      late_delivery_starts pairsMessage_isMessageOf.isHandedOver hdone
    obtain ⟨s', hlate, hstarted⟩ := hrestarts
    cases hstarted.unique (hstays _ s hrun hdone _ s' hlate).completed
  exact ⟨⟨by decide +kernel, by decide +kernel, hrepeats .bullmq (by decide +kernel)⟩,
    ⟨by decide +kernel, by decide +kernel, hrepeats .kafka (by decide +kernel)⟩⟩

end NestBatch
