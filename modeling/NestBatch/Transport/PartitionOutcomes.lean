import NestBatch.Execution.OwnContexts
import NestBatch.Transport.FanOut
import NestBatch.Transport.Redelivery

/-!
# What comes of the partitions of a job

All partitions share the row of one execution.  Each message drives it from STARTED to
a status of its own, and the status a message finds decides whether it counts as a
restart: of a partition that failed, the next one takes over checkpoint and row.
-/

namespace NestBatch

variable {α β υ : Type}

/-! ### The statuses of a log -/

/-- The status that a call writes to an execution. -/
def statusWritten (e : String) (c : Prog.Call (Op α) Op.Resp) : Option JobStatus :=
  match c.1 with
  | .updateJobExecution id patch => if id = e then patch.status else none
  | _ => none

def statusesWritten (e : String) (calls : Calls α) : List JobStatus :=
  calls.filterMap (statusWritten e)

/-- Where the statuses of a log leave a row that was in `status` before. -/
def lastStatus (e : String) (status : JobStatus) (calls : Calls α) : JobStatus :=
  (statusesWritten e calls).getLast?.getD status

section Statuses

variable {e : String} {status : JobStatus} {calls : Calls α} {env : Environment α υ}

theorem statusesWritten_snoc (e : String) (calls : Calls α) (c : Prog.Call (Op α) Op.Resp) :
    statusesWritten e (calls ++ [c]) = statusesWritten e calls ++ (statusWritten e c).toList :=
  filterMap_snoc _ _ _

theorem lastStatus_snoc (e : String) (status : JobStatus) (calls : Calls α)
    (c : Prog.Call (Op α) Op.Resp) : lastStatus e status (calls ++ [c]) =
      (statusWritten e c).getD (lastStatus e status calls) := by
  unfold lastStatus
  rw [statusesWritten_snoc]
  cases statusWritten e c with
  | none => rw [Option.toList_none, List.append_nil]; rfl
  | some written => rw [Option.toList_some, List.getLast?_concat]; rfl

/-- An operation leaves a row as the log says. -/
theorem recorded_handle {o : Op α} (hcreate : o.kind ≠ .createExecution) {w : World υ}
    (h : Recorded e status w) :
    Recorded e ((statusWritten e ⟨o, (handle env o w).1⟩).getD status) (handle env o w).2 := by
  by_cases hupdate : o.kind = .updateJob
  · cases o with
    | updateJobExecution id patch =>
        obtain ⟨row, hrow, hid, hstatus⟩ := h
        unfold InMemoryJobRepository.getJobExecution at hrow
        change Recorded e ((if id = e then patch.status else none).getD status)
          { w with repo := (w.repo.updateJobExecution id patch).2 }
        unfold InMemoryJobRepository.updateJobExecution
        by_cases he : id = e
        · subst he
          rw [if_pos rfl, hrow]
          refine ⟨patch.applyTo row, JsMap.get?_set_self _ _ _, hid, ?_⟩
          rw [← hstatus]
          rfl
        · rw [if_neg he]
          cases w.repo.executions.get? id with
          | none => exact ⟨row, hrow, hid, hstatus⟩
          | some cur =>
              exact ⟨row, (JsMap.get?_set_of_ne _ _ (Ne.symm he)).trans hrow, hid, hstatus⟩
    | user call => cases call <;> cases hupdate
    | _ => cases hupdate
  · have hnone : statusWritten e ⟨o, (handle env o w).1⟩ = none := by
      cases o with
      | updateJobExecution => exact absurd rfl hupdate
      | _ => rfl
    rw [hnone]
    exact h.congr (handle_executions env hcreate hupdate w)

/-- **The row is what the log says it is.** -/
theorem wp_lastStatus {p : Code α β} (hp : p.Uses (Looping runKinds)) {w : World υ}
    (h : Recorded e (lastStatus e status calls) w) : p.wp (worldLogic env)
      (fun _ s' => Recorded e (lastStatus e status s'.2) s'.1) (w, calls) := by
  have hframe : (worldLogic env).Frame (Looping runKinds)
      fun s => Recorded e (lastStatus e status s.2) s.1 :=
    { guard := fun _ _ _ _ => trivial
      keep := fun o s r s' ho hs ht => by
        cases ht
        dsimp only
        rw [lastStatus_snoc]
        have hcreate : OpKind.createExecution ∉ runKinds := by decide
        exact recorded_handle (fun heq => hcreate (heq ▸ ho)) hs
      loops := fun _ => trivial }
  exact Prog.wp_of_uses hp hframe h

end Statuses

/-- What code adds to a log that begins with a status leaves it the first. -/
theorem wp_first_kept {env : Environment α υ} {e : String} {status : JobStatus} (p : Code α β)
    {s : World υ × Calls α} (h : (statusesWritten e s.2).head? = some status) :
    p.wp (worldLogic env) (fun _ s' => (statusesWritten e s'.2).head? = some status) s := by
  have hgrows : AnswersAs env {} fun (_ : World υ) calls =>
      (statusesWritten e calls).head? = some status := by
    intro o w calls hfirst
    refine ⟨trivial, ?_⟩
    dsimp only
    rw [statusesWritten_snoc, List.head?_append, hfirst]
    rfl
  exact hgrows.wp p h

section Execute

variable {env : Environment α υ} {execution : JobExecution} {jobDef : JobDefinition}
  {partition : PartitionArgs} {fuel : Nat} {w : World υ} {calls : Calls α}

/-- What a run that was let in and is no restart has done. -/
structure TookUp (e : String) (status : JobStatus) (s : World υ × Calls α) : Prop where
  letIn : (statusesWritten e s.2).head? = some .STARTED
  own : ownRules.Met s.2
  recorded : Recorded e (lastStatus e status s.2) s.1
  ended : ∃ status', Recorded e status' s.1 ∧
    (status' = .STARTED ∨ JobExecutor.Run.IsFinal status')

/-- The calls of code that keeps to its own are such calls. -/
theorem wp_met {p : Code α β} (hp : KeepsToOwn p calls) (hmet : ownRules.Met calls) :
    p.wp (worldLogic env) (fun _ s' => ownRules.Met s'.2) (w, calls) := by
  have hfollows : Prog.Follows (logged ownRules True) (worldLogic env).trans
      (fun (s : World υ × Calls α) calls => s.2 = calls ∧ ownRules.Met calls) := by
    intro o s r s' calls' hrel hdemands ht
    obtain ⟨hcalls, hmet'⟩ := hrel
    subst hcalls
    cases ht
    exact ⟨_, ⟨rfl, trivial⟩, rfl, hmet'.snoc hdemands⟩
  refine Prog.wp_mono (Prog.wp_simulate (fun _ _ _ _ _ => trivial) hfollows (fun _ => trivial) hp
    ⟨rfl, hmet⟩) ?_
  intro out s' hout
  obtain ⟨calls', ⟨hcalls, hmet'⟩, -⟩ := hout
  rw [hcalls]
  exact hmet'

/-- A new execution that was taken up leaves its calls on the record. -/
theorem JobExecutor.wp_execute_tookUp {status : JobStatus}
    (hnew : JobExecutor.isRestart execution = false) (hrecorded : Recorded execution.id status w)
    (hnone : statusesWritten execution.id calls = []) (hmet : ownRules.Met calls) :
    (JobExecutor.execute fuel execution jobDef partition : Code α JobExecution).wp
      (worldLogic env) (fun _ s' => TookUp execution.id status s') (w, calls) := by
  let R : Run := { execution := execution, jobDef := jobDef, partition := partition }
  have hproceed : JobExecutor.execute fuel execution jobDef partition =
      (R.proceed fuel : Code α JobExecution) := if_neg fun h => by
    rw [hnew] at h
    cases h.1
  rw [hproceed]
  have hletIn : (R.proceed fuel : Code α JobExecution).wp (worldLogic env)
      (fun _ s' => (statusesWritten execution.id s'.2).head? = some .STARTED) (w, calls) := by
    refine Prog.wp_op.mpr ⟨trivial, ?_⟩
    intro time s₁ ht₁
    refine Prog.wp_op.mpr ⟨trivial, ?_⟩
    intro answer s₂ ht₂
    cases ht₁
    cases ht₂
    refine wp_first_kept _ ?_
    dsimp only
    rw [statusesWritten_snoc, statusesWritten_snoc, hnone]
    unfold statusWritten
    dsimp only
    rw [if_pos rfl]
    rfl
  have hended : (R.proceed fuel : Code α JobExecution).wp (rowLogic env)
      (fun _ w' => ∃ status', Recorded execution.id status' w' ∧
        (status' = .STARTED ∨ Run.IsFinal status')) w := by
    rw [R.proceed_eq]
    refine Prog.wp_seq (R.prologue_recorded hrecorded.onFile) ?_
      fun _ _ hstarted => ⟨.STARTED, hstarted, .inl rfl⟩
    intro _ w₁ h₁
    refine Prog.wp_mono (R.settle_recorded env h₁ fuel) ?_
    intro out w₂ h₂
    rcases h₂ with ⟨final, -, hfinal, hrecorded', -⟩ | ⟨-, -, hstarted, -⟩
    · exact ⟨final, hrecorded', .inr hfinal⟩
    · exact ⟨.STARTED, hstarted, .inl rfl⟩
  have hrow : Recorded execution.id (lastStatus execution.id status calls) w := by
    unfold lastStatus
    rw [hnone]
    exact hrecorded
  refine Prog.wp_mono (Prog.wp_and (Prog.wp_and hletIn (wp_met (R.proceed_own hnew fuel) hmet))
    (Prog.wp_and (wp_lastStatus (R.uses_proceed fuel) hrow) (Prog.wp_traced (fun _ _ => trivial)
      hended))) ?_
  intro out s' h
  exact ⟨h.1.1, h.1.2, h.2.1, h.2.2⟩

end Execute

/-! ### The messages of a launch -/

/-- A payload of a registered job is handed over, unless it is the probe's. -/
theorem isHandedOver_of_mem {registry : JobRegistry} {jobDef : JobDefinition}
    {ctx : ExecutionStrategyContext} (hregistered : registry.get jobDef.id = .ok jobDef)
    (hgenuine : ¬ (jobDef.id = "probe" ∧ ctx.executionId = "probe")) {payload : JobPayload}
    (hmem : payload ∈ partitionPayloads jobDef ctx) : IsHandedOver registry payload jobDef := by
  obtain ⟨i, hi, rfl⟩ := List.mem_map.mp hmem
  obtain ⟨hnonneg, hlt⟩ := mem_ordinals.mp hi
  refine ⟨hregistered, ?_, { partitionIndex := some i, partitionCount := partitionCount jobDef },
    ?_⟩
  · unfold KafkaRuntime.isProbe
    rw [Bool.and_eq_false_iff, decide_eq_false_iff_not, decide_eq_false_iff_not]
    exact not_and_or.mp hgenuine
  · unfold KafkaRuntime.partitionArgs enforcePartitionIndex
    dsimp only [payloadOf]
    rw [if_neg (by omega)]
    rfl

/-- Every payload carries the execution that was launched. -/
theorem executionId_of_mem {jobDef : JobDefinition} {ctx : ExecutionStrategyContext}
    {payload : JobPayload} (hmem : payload ∈ partitionPayloads jobDef ctx) :
    payload.executionId = ctx.executionId := by
  obtain ⟨i, -, rfl⟩ := List.mem_map.mp hmem
  rfl

section Consume

variable {env : Environment α υ} {registry : JobRegistry} {fuel : Nat} {payload : JobPayload}
  {jobDef : JobDefinition} {w : World υ}

/-- A worker is handed a message whose row is on file. -/
theorem Transport.wp_consume (transport : Transport)
    (hmessage : IsHandedOver registry payload jobDef) {row : JobExecution}
    (hrow : w.repo.getJobExecution payload.executionId = some row)
    {Q : Except Thrown Unit → World υ × Calls α → Prop}
    (hexecute : ∀ partition, transport.partitionArgs jobDef payload = .ok partition →
      (JobExecutor.execute fuel row jobDef partition >>= fun _ => .pure () : Code α Unit).wp
        (worldLogic env) Q (w, [⟨.getJobExecution payload.executionId, some row⟩])) :
    (transport.consume registry fuel payload : Code α Unit).wp (worldLogic env) Q (w, []) := by
  obtain ⟨partition, hrouted, f, hconsume, hhands⟩ := transport.consume_eq (α := α) fuel hmessage
  rw [hconsume]
  refine Prog.wp_bind.mpr (Prog.wp_perform.mpr ⟨trivial, ?_⟩)
  intro found s' ht
  cases ht
  change (f (w.repo.getJobExecution payload.executionId)).wp (worldLogic env) _
    (w, [⟨.getJobExecution payload.executionId, w.repo.getJobExecution payload.executionId⟩])
  rw [hrow, hhands]
  exact hexecute partition hrouted

/-- A message that finds its row neither FAILED nor STOPPED. -/
theorem Transport.wp_consume_tookUp (transport : Transport)
    (hmessage : IsHandedOver registry payload jobDef) {status : JobStatus}
    (hrecorded : Recorded payload.executionId status w)
    (hfresh : status ≠ .FAILED ∧ status ≠ .STOPPED) :
    (transport.consume registry fuel payload : Code α Unit).wp (worldLogic env)
      (fun _ s' => TookUp payload.executionId status s') (w, []) := by
  obtain ⟨row, hrow, hid, hstatus⟩ := hrecorded
  refine transport.wp_consume hmessage hrow fun partition _ => ?_
  rw [← hid]
  refine Prog.wp_seq (JobExecutor.wp_execute_tookUp ?_ ⟨row, hid ▸ hrow, rfl, hstatus⟩ rfl ?_)
    (fun _ _ h => h) fun _ _ h => h
  · unfold JobExecutor.isRestart
    rw [hstatus]
    simpa using hfresh
  · exact throughout_nil.snoc trivial

end Consume

/-! ### One message after another -/

/-- A message that was worked off: the world it found, the calls made for it, and the world it
left. -/
structure Turn (α υ : Type) where
  payload : JobPayload
  before : World υ
  calls : Calls α
  after : World υ

/-- The messages are worked off one after the other, each until its run ends. -/
inductive WorkedOff (env : Environment α υ) (consume : JobPayload → Code α Unit) :
    World υ → List (Turn α υ) → World υ → Prop
  | done (w : World υ) : WorkedOff env consume w [] w
  | turn {payload : JobPayload} {w w' final : World υ} {calls : Calls α} {turns : List (Turn α υ)}
      {out : Except Thrown Unit}
      (hrun : (consume payload).run (handle env).traced (w, []) = (.ended out, (w', calls)))
      (hrest : WorkedOff env consume w' turns final) :
      WorkedOff env consume w (⟨payload, w, calls, w'⟩ :: turns) final

/-- The run ends its execution COMPLETED. -/
def Turn.Completes (e : String) (t : Turn α υ) : Prop :=
  (statusesWritten e t.calls).getLast? = some .COMPLETED

/-- The run is let in, and begins with nothing that an earlier one has left. -/
structure Turn.Independent (e : String) (t : Turn α υ) : Prop where
  letIn : (statusesWritten e t.calls).head? = some .STARTED
  own : ownRules.Met t.calls

/-- The execution COMPLETED only if every partition did, and none is bound to another. -/
structure CombinesSoundly (e : String) (turns : List (Turn α υ)) (final : World υ) : Prop where
  completed : Recorded e .COMPLETED final → ∀ t ∈ turns, t.Completes e
  independent : ∀ t ∈ turns, t.Independent e

/-- The message finds its row neither FAILED, nor still STARTED by a run that was given up before
its steps. -/
def Turn.FindsSettled (e : String) (t : Turn α υ) : Prop :=
  ¬ Recorded e .FAILED t.before ∧ ¬ Recorded e .STARTED t.before

section Outcomes

variable {env : Environment α υ} {registry : JobRegistry} {fuel : Nat} {jobDef : JobDefinition}
  {start final : World υ} {turns : List (Turn α υ)} {e : String}

/-- A status that a run leaves its row in. -/
def IsLeft (status : JobStatus) : Prop := status = .STARTED ∨ JobExecutor.Run.IsFinal status

/-- A message that is worked off was taken up with the status on record. -/
theorem tookUp_of_run {transport : Transport} {payload : JobPayload} {w : World υ}
    (hmessage : IsHandedOver registry payload jobDef) {status : JobStatus}
    (hrecorded : Recorded payload.executionId status w)
    (hfresh : status ≠ .FAILED ∧ status ≠ .STOPPED) {out : Except Thrown Unit}
    {s : World υ × Calls α} (hrun : (transport.consume registry fuel payload).run
      (handle env).traced (w, []) = (.ended out, s)) : TookUp payload.executionId status s := by
  have hwp : (transport.consume registry fuel payload : Code α Unit).wp (worldLogic env)
      (fun _ s' => TookUp payload.executionId status s') (w, []) :=
    transport.wp_consume_tookUp hmessage hrecorded hfresh
  have hended := Prog.wp_run hwp
  rw [hrun] at hended
  cases out with
  | ok u => exact hended
  | error err => exact hended

/-- Where the last status of a run is COMPLETED, it completes its execution. -/
theorem TookUp.completes {status : JobStatus} {payload : JobPayload} {w w' : World υ}
    {calls : Calls α} (h : TookUp e status (w', calls)) (hcompleted : Recorded e .COMPLETED w') :
    Turn.Completes e ⟨payload, w, calls, w'⟩ := by
  have hlast : lastStatus e status calls = .COMPLETED := h.recorded.unique hcompleted
  unfold lastStatus at hlast
  unfold Turn.Completes
  dsimp only
  cases hstatus : (statusesWritten e calls).getLast? with
  | none =>
      have hfirst := h.letIn
      rw [List.getLast?_eq_none_iff.mp hstatus] at hfirst
      cases hfirst
  | some last =>
      rw [hstatus] at hlast
      exact congrArg some hlast

/-- Before a message, and at the end, the row COMPLETED if it is to be COMPLETED in the end. -/
theorem WorkedOff.completed {consume : JobPayload → Code α Unit} {w : World υ}
    (hworked : WorkedOff env consume w turns final) (hsettled : ∀ t ∈ turns, t.FindsSettled e)
    {status : JobStatus} (hrecorded : Recorded e status w) (hleft : IsLeft status)
    (hfinal : Recorded e .COMPLETED final) : Recorded e .COMPLETED w := by
  cases hworked with
  | done => exact hfinal
  | turn hrun hrest =>
      obtain ⟨hfailed, hstarted⟩ := hsettled _ List.mem_cons_self
      rcases hleft with rfl | rfl | rfl
      · exact absurd hrecorded hstarted
      · exact hrecorded
      · exact absurd hrecorded hfailed

/-- Turns that each find a settled row combine soundly. -/
theorem combinesSoundly_of_turns {transport : Transport}
    (hworked : WorkedOff env (transport.consume registry fuel) start turns final)
    (hmessages : ∀ t ∈ turns, IsHandedOver registry t.payload jobDef ∧ t.payload.executionId = e)
    (hsettled : ∀ t ∈ turns, t.FindsSettled e) {status : JobStatus}
    (hrecorded : Recorded e status start) (hstatus : status = .STARTING ∨ IsLeft status) :
    CombinesSoundly e turns final := by
  induction hworked generalizing status with
  | done w => exact ⟨fun _ t ht => (by cases ht), fun t ht => (by cases ht)⟩
  | @turn payload w w' final calls turns out hrun hrest ih =>
      obtain ⟨hmessage, rfl⟩ := hmessages _ List.mem_cons_self
      have hfresh : status ≠ .FAILED ∧ status ≠ .STOPPED := by
        obtain ⟨hfailed, -⟩ := hsettled _ List.mem_cons_self
        rcases hstatus with rfl | rfl | rfl | rfl
        · decide
        · decide
        · decide
        · exact absurd hrecorded hfailed
      have htook := tookUp_of_run hmessage hrecorded hfresh hrun
      obtain ⟨status', hrecorded', hleft⟩ := htook.ended
      have hsettled' : ∀ t ∈ turns, t.FindsSettled payload.executionId :=
        fun t ht => hsettled t (List.mem_cons_of_mem _ ht)
      have hothers := ih (fun t ht => hmessages t (List.mem_cons_of_mem _ ht)) hsettled'
        hrecorded' (.inr hleft)
      constructor
      · intro hfinal t ht
        rcases List.mem_cons.mp ht with rfl | hmem
        · exact htook.completes (hrest.completed hsettled' hrecorded' hleft hfinal)
        · exact hothers.completed hfinal t hmem
      · intro t ht
        rcases List.mem_cons.mp ht with rfl | hmem
        · exact ⟨htook.letIn, htook.own⟩
        · exact hothers.independent t hmem

/-- **When the partitions of a job combine soundly**: in every order of their messages in which
none finds the row FAILED, or still STARTED. -/
theorem partitions_combine_soundly {transport : Transport} {ctx : ExecutionStrategyContext}
    (hregistered : registry.get jobDef.id = .ok jobDef)
    (hgenuine : ¬ (jobDef.id = "probe" ∧ ctx.executionId = "probe"))
    (hlaunched : Recorded ctx.executionId .STARTING start)
    (hworked : WorkedOff env (transport.consume registry fuel) start turns final)
    (hmessages : (turns.map Turn.payload).Perm (partitionPayloads jobDef ctx))
    (hsettled : ∀ t ∈ turns, t.FindsSettled ctx.executionId) :
    CombinesSoundly ctx.executionId turns final := by
  have hparts : ∀ t ∈ turns, IsHandedOver registry t.payload jobDef ∧
      t.payload.executionId = ctx.executionId := by
    intro t ht
    have hmem := hmessages.mem_iff.mp (List.mem_map_of_mem ht)
    exact ⟨isHandedOver_of_mem hregistered hgenuine hmem, executionId_of_mem hmem⟩
  exact combinesSoundly_of_turns hworked hparts hsettled hlaunched (.inl rfl)

end Outcomes

/-! ### Two partitions -/

/-- What comes of a message. -/
def turnOf (env : Environment α υ) (consume : JobPayload → Code α Unit) (w : World υ)
    (payload : JobPayload) : Turn α υ :=
  let ran := (consume payload).run (handle env).traced (w, [])
  { payload := payload, before := w, calls := ran.2.2, after := ran.2.1 }

/-- One more message is worked off first. -/
theorem WorkedOff.cons {env : Environment α υ} {consume : JobPayload → Code α Unit}
    {w final : World υ} {turns : List (Turn α υ)} (payload : JobPayload)
    (hended : ((consume payload).run (handle env).traced (w, [])).1 = .returned ())
    (hrest : WorkedOff env consume (turnOf env consume w payload).after turns final) :
    WorkedOff env consume w (turnOf env consume w payload :: turns) final := by
  have hrun : (consume payload).run (handle env).traced (w, []) = (.ended (.ok ()),
      ((turnOf env consume w payload).after, (turnOf env consume w payload).calls)) :=
    Prod.ext hended rfl
  exact .turn hrun hrest

/-- The items at the positions from a multiple of ten on: a reader that is made starts over.  The
disk is full at the position `full`. -/
def filling (full : Nat) : Environment Nat Nat where
  user
    | .invoke fn, pos, _ => (.ok { target := fn, isFunction := true }, (pos / 10 + 1) * 10, [])
    | .read _ _, pos, _ => (.ok [10, 20, 30][pos % 10]?, pos + 1, [])
    | .write _ _ _, pos, _ =>
        (if pos = full then .error (.error "disk full") else .ok none, pos, [])
    | call, pos, ctx => (willing []).user call pos ctx
  broker _ pos := (.ok "queued", pos)

theorem splitJob_valid : DefinitionValidator.validate (splitJob 2) = .ok () := rfl

def splitRegistry : JobRegistry := .only (splitJob 2) splitJob_valid

def launchContext : ExecutionStrategyContext := { executionId := "r", jobExecutionId := "r" }

/-- The Kafka worker on a partition. -/
def halfTurn (full : Nat) (w : World Nat) (i : Int) : Turn Nat Nat :=
  turnOf (filling full) (Transport.kafka.consume splitRegistry 5) w
    (payloadOf (splitJob 2) launchContext (some i))

def firstTurn (full : Nat) : Turn Nat Nat := halfTurn full (launchedWorld 0 (splitJob 2)) 0

def secondTurn (full : Nat) : Turn Nat Nat := halfTurn full (firstTurn full).after 1

/-- Both messages, worked off in their order. -/
def BothWorkedOff (full : Nat) : Prop :=
  WorkedOff (filling full) (Transport.kafka.consume splitRegistry 5) (launchedWorld 0 (splitJob 2))
    [firstTurn full, secondTurn full] (secondTurn full).after

/-- The message of a partition is worked off without an error. -/
def HalfEnds (full : Nat) (w : World Nat) (i : Int) : Prop :=
  ((Transport.kafka.consume splitRegistry 5 (payloadOf (splitJob 2) launchContext (some i))).run
    (handle (filling full)).traced (w, [])).1 = .returned ()

/-- The two halves of the sample are both worked off. -/
theorem bothWorkedOff {full : Nat} (hfirst : HalfEnds full (launchedWorld 0 (splitJob 2)) 0)
    (hsecond : HalfEnds full (firstTurn full).after 1) : BothWorkedOff full :=
  .cons (payloadOf (splitJob 2) launchContext (some 0)) hfirst
    (.cons (payloadOf (splitJob 2) launchContext (some 1)) hsecond (.done _))

/-- Two partitions that both come to their end. -/
theorem partitions_combine_soundly_halves :
    BothWorkedOff 0 ∧ CombinesSoundly "r" [firstTurn 0, secondTurn 0] (secondTurn 0).after := by
  have hfirst : HalfEnds 0 (launchedWorld 0 (splitJob 2)) 0 := by
    unfold HalfEnds
    decide +kernel
  have hsecond : HalfEnds 0 (firstTurn 0).after 1 := by
    unfold HalfEnds
    decide +kernel
  have hsettled : ∀ t ∈ [firstTurn 0, secondTurn 0], t.FindsSettled "r" := by
    intro t ht
    rcases List.mem_pair.mp ht with rfl | rfl
    · exact ⟨by decide +kernel, by decide +kernel⟩
    · exact ⟨by decide +kernel, by decide +kernel⟩
  have hregistered : splitRegistry.get (splitJob 2).id = .ok (splitJob 2) := rfl
  have hlaunched : Recorded "r" .STARTING (launchedWorld 0 (splitJob 2)) := by decide +kernel
  have hmessages : ([firstTurn 0, secondTurn 0].map Turn.payload).Perm
      (partitionPayloads (splitJob 2) launchContext) := .refl _
  have hworked := bothWorkedOff hfirst hsecond
  exact ⟨hworked, partitions_combine_soundly hregistered (fun h => absurd h.1 (by decide))
    hlaunched hworked hmessages hsettled⟩

/-- The first partition fails; the second skips the chunk that the first has written, and its
execution is COMPLETED. -/
theorem failed_half_is_passed_over :
    BothWorkedOff 24 ∧ statusesWritten "r" (firstTurn 24).calls = [.STARTED, .FAILED] ∧
      Recorded "r" .COMPLETED (secondTurn 24).after ∧
      (∃ c ∈ (secondTurn 24).calls, c.1.kind = .findLatestStep) ∧
      writtenItems (secondTurn 24).calls = [30] ∧
      ¬ CombinesSoundly "r" [firstTurn 24, secondTurn 24] (secondTurn 24).after := by
  have hended : HalfEnds 24 (launchedWorld 0 (splitJob 2)) 0 ∧
      HalfEnds 24 (firstTurn 24).after 1 := by
    unfold HalfEnds
    exact ⟨by decide +kernel, by decide +kernel⟩
  have hfirst : statusesWritten "r" (firstTurn 24).calls = [.STARTED, .FAILED] := by
    decide +kernel
  have hcompleted : Recorded "r" .COMPLETED (secondTurn 24).after := by decide +kernel
  refine ⟨bothWorkedOff hended.1 hended.2, hfirst, hcompleted, by decide +kernel,
    by decide +kernel, ?_⟩
  intro hsound
  have hcompletes := hsound.completed hcompleted (firstTurn 24) List.mem_cons_self
  unfold Turn.Completes at hcompletes
  rw [hfirst] at hcompletes
  cases hcompletes

end NestBatch
