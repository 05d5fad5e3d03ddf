import NestBatch.Execution.StepPath
import NestBatch.Transport.PartitionOutcomes

/-!
# The steps behind a partitioned step

A launch of a partitioned job enqueues a message for each partition, and every message
drives the flow of the whole job: the steps behind the start step are executed on the
way of each of them.
-/

namespace NestBatch

variable {α β υ : Type}

/-- An element is found once in several lists when it is found once in one of them, and in no
other. -/
theorem count_flatMap_eq_one_iff {γ δ : Type} [DecidableEq δ] {f : γ → List δ} {xs : List γ}
    {d : δ} : (xs.flatMap f).count d = 1 ↔ ∃ before x after, xs = before ++ x :: after ∧
      (f x).count d = 1 ∧ ∀ y ∈ before ++ after, d ∉ f y := by
  induction xs with
  | nil => simp
  | cons x xs ih =>
      have hnone : (xs.flatMap f).count d = 0 ↔ ∀ y ∈ xs, d ∉ f y := by
        rw [List.count_eq_zero, List.mem_flatMap]
        exact ⟨fun h y hy hd => h ⟨y, hy, hd⟩, fun h ⟨y, hy, hd⟩ => h y hy hd⟩
      rw [List.flatMap_cons, List.count_append]
      constructor
      · intro h
        by_cases hx : (f x).count d = 0
        · obtain ⟨before, y, after, rfl, hy, hothers⟩ := ih.mp (by omega)
          refine ⟨x :: before, y, after, rfl, hy, ?_⟩
          intro z hz
          rcases List.mem_cons.mp hz with rfl | hz
          · exact List.count_eq_zero.mp hx
          · exact hothers z hz
        · exact ⟨[], x, xs, rfl, by omega, hnone.mp (by omega)⟩
      · intro h
        obtain ⟨before, y, after, hsplit, hy, hothers⟩ := h
        cases before with
        | nil =>
            obtain ⟨rfl, rfl⟩ := List.cons.inj hsplit
            rw [hy, hnone.mpr hothers]
        | cons z before =>
            obtain ⟨rfl, rfl⟩ := List.cons.inj hsplit
            have hx : (f x).count d = 0 :=
              List.count_eq_zero.mpr (hothers x List.mem_cons_self)
            rw [hx, ih.mpr ⟨before, y, after, rfl, hy,
              fun w hw => hothers w (List.mem_cons_of_mem _ hw)⟩]

/-! ### What a message executes -/

/-- The steps that a turn has executed. -/
def Turn.executed (e : String) (t : Turn α υ) : List String := stepsCreated e t.calls

/-- The worker was done with the message, and left the execution COMPLETED. -/
structure Turn.Succeeds (env : Environment α υ) (consume : JobPayload → Code α Unit) (e : String)
    (t : Turn α υ) : Prop where
  returned : (consume t.payload).run (handle env).traced (t.before, []) =
    (.returned (), (t.after, t.calls))
  completes : t.Completes e

/-- What the step executors and deciders report to the run that the worker makes of the message. -/
def Transport.Told (transport : Transport) (env : Environment α υ) (fuel : Nat)
    (jobDef : JobDefinition) (t : Turn α υ) (reports : List TurnReport) : Prop :=
  ∃ row partition, t.before.repo.getJobExecution t.payload.executionId = some row ∧
    transport.partitionArgs jobDef t.payload = .ok partition ∧
    let R : JobExecutor.Run := { execution := row, jobDef := jobDef, partition := partition }
    R.LoopReports env fuel fuel jobDef.startStepId (R.toldBefore env t.before).2 reports

section Turns

variable {env : Environment α υ} {registry : JobRegistry} {fuel : Nat} {jobDef : JobDefinition}
  {transport : Transport} {e : String}

/-- A message is told one thing. -/
theorem Transport.Told.unique {t : Turn α υ} {reports reports' : List TurnReport}
    (h : transport.Told env fuel jobDef t reports)
    (h' : transport.Told env fuel jobDef t reports') : reports = reports' := by
  obtain ⟨row, partition, hrow, hpartition, hreports⟩ := h
  obtain ⟨row', partition', hrow', hpartition', hreports'⟩ := h'
  cases hrow.symm.trans hrow'
  cases hpartition.symm.trans hpartition'
  exact hreports.unique hreports'

/-- **A message executes the steps on the path of what it is told.** -/
theorem executed_eq_path {t : Turn α υ} (hmessage : IsHandedOver registry t.payload jobDef)
    (hfile : OnFile t.payload.executionId t.before)
    (hsucceeds : t.Succeeds env (transport.consume registry fuel) t.payload.executionId) :
    ∃ reports, transport.Told env fuel jobDef t reports ∧
      t.executed t.payload.executionId = jobDef.path jobDef.startStepId reports := by
  obtain ⟨row, hrow, hid⟩ := hfile
  have hrowFile : OnFile row.id t.before := ⟨row, by rw [hid, hrow], rfl⟩
  have hwent : (transport.consume registry fuel t.payload : Code α Unit).wp (worldLogic env)
      (fun out s' => out = .ok () → ∃ reports, transport.Told env fuel jobDef t reports ∧
        stepsCreated row.id s'.2 = jobDef.path jobDef.startStepId reports)
      (t.before, []) := by
    refine transport.wp_consume hmessage hrow fun partition hpartition => ?_
    refine Prog.wp_seq (JobExecutor.execute_path hrowFile fuel jobDef partition) ?_
      fun _ _ _ hok => by cases hok
    intro latest s₁ h₁ _
    obtain ⟨reports, hreports, hcalls⟩ := h₁ latest rfl
    exact ⟨reports, ⟨row, partition, hrow, hpartition, hreports⟩, hcalls⟩
  have hended := Prog.wp_run hwent
  rw [hsucceeds.returned, hid] at hended
  exact hended rfl

/-- A worker takes no execution off the file. -/
theorem onFile_of_consumed {payload : JobPayload} {w w' : World υ} {calls : Calls α}
    {out : Except Thrown Unit} (hmessage : IsHandedOver registry payload jobDef)
    (hfile : OnFile payload.executionId w)
    (hrun : (transport.consume registry fuel payload).run (handle env).traced (w, []) =
      (.ended out, (w', calls))) : OnFile payload.executionId w' := by
  obtain ⟨row, hrow, hid⟩ := hfile
  have hkept : (transport.consume registry fuel payload : Code α Unit).wp (worldLogic env)
      (fun _ s' => OnFile payload.executionId s'.1) (w, []) := by
    refine transport.wp_consume hmessage hrow fun partition _ => Prog.wp_traced
      (fun _ _ => trivial) (Prog.wp_of_uses ((JobExecutor.uses_execute fuel row jobDef
        partition).bind fun _ => trivial) (onFile_frame env (by decide)) ⟨row, hrow, hid⟩)
  have hended := Prog.wp_run hkept
  rw [hrun] at hended
  cases out with
  | ok u => exact hended
  | error err => exact hended

/-- Every message of a sequence finds its row on file. -/
theorem WorkedOff.onFile {start final : World υ} {turns : List (Turn α υ)}
    (hworked : WorkedOff env (transport.consume registry fuel) start turns final)
    (hmessages : ∀ t ∈ turns, IsHandedOver registry t.payload jobDef ∧ t.payload.executionId = e)
    (hfile : OnFile e start) : ∀ t ∈ turns, OnFile e t.before := by
  induction hworked with
  | done w => exact fun t ht => (by cases ht)
  | turn hrun hrest ih =>
      intro t ht
      rcases List.mem_cons.mp ht with rfl | hmem
      · exact hfile
      · obtain ⟨hmessage, rfl⟩ := hmessages _ List.mem_cons_self
        exact ih (fun t ht => hmessages t (List.mem_cons_of_mem _ ht))
          (onFile_of_consumed hmessage hfile hrun) t hmem

end Turns

/-! ### What a launch executes -/

/-- Every step but the start step is found once. -/
def FurtherStepsOnce (jobDef : JobDefinition) (names : List String) : Prop :=
  ∀ entry ∈ jobDef.steps.entries, entry.1 ≠ jobDef.startStepId → names.count entry.2.id = 1

/-- Every step but the start step is on the path of what one message is told, once, and of no
other. -/
def FurtherStepsApart (jobDef : JobDefinition) (reports : List (List TurnReport)) : Prop :=
  ∀ entry ∈ jobDef.steps.entries, entry.1 ≠ jobDef.startStepId →
    ∃ before told after, reports = before ++ told :: after ∧
      (jobDef.path jobDef.startStepId told).count entry.2.id = 1 ∧
      ∀ other ∈ before ++ after, entry.2.id ∉ jobDef.path jobDef.startStepId other

instance (jobDef : JobDefinition) (names : List String) :
    Decidable (FurtherStepsOnce jobDef names) :=
  inferInstanceAs (Decidable (∀ entry ∈ jobDef.steps.entries, _ → _))

/-- The further steps run once exactly when the reports keep them apart. -/
theorem furtherStepsApart_iff {jobDef : JobDefinition} {reports : List (List TurnReport)} :
    FurtherStepsOnce jobDef (reports.flatMap (jobDef.path jobDef.startStepId)) ↔
      FurtherStepsApart jobDef reports :=
  forall_congr' fun _ => forall_congr' fun _ => forall_congr' fun _ => count_flatMap_eq_one_iff

section Launches

variable {env : Environment α υ} {registry : JobRegistry} {fuel : Nat} {jobDef : JobDefinition}
  {transport : Transport} {ctx : ExecutionStrategyContext} {start final : World υ} {e : String}
  {turns : List (Turn α υ)}

/-- What the messages are told, one after the other, is one list for each. -/
theorem told_unique {reports reports' : List (List TurnReport)}
    (h : List.Forall₂ (transport.Told env fuel jobDef) turns reports)
    (h' : List.Forall₂ (transport.Told env fuel jobDef) turns reports') : reports = reports' := by
  induction h generalizing reports' with
  | nil =>
      cases h'
      rfl
  | cons htold _ ih =>
      cases h' with
      | cons htold' hrest' => rw [htold.unique htold', ih hrest']

/-- The messages execute the steps on the paths of what they are told. -/
theorem executed_eq_paths (hturns : ∀ t ∈ turns, ∃ reports,
      transport.Told env fuel jobDef t reports ∧
        t.executed e = jobDef.path jobDef.startStepId reports) :
    ∃ reports, List.Forall₂ (transport.Told env fuel jobDef) turns reports ∧
      turns.flatMap (Turn.executed e) = reports.flatMap (jobDef.path jobDef.startStepId) := by
  induction turns with
  | nil => exact ⟨[], .nil, rfl⟩
  | cons t rest ih =>
      obtain ⟨told, htold, hexecuted⟩ := hturns t List.mem_cons_self
      obtain ⟨reports, hreports, hrest⟩ := ih fun t ht => hturns t (List.mem_cons_of_mem _ ht)
      refine ⟨told :: reports, .cons htold hreports, ?_⟩
      rw [List.flatMap_cons, List.flatMap_cons, hexecuted, hrest]

/-- **When the steps behind a partitioned step are executed once**: exactly where what the messages
are told, by the executors of their steps and by the deciders, leads one message alone to each of
these steps, and once. -/
theorem further_steps_once_iff (hregistered : registry.get jobDef.id = .ok jobDef)
    (hgenuine : ¬ (jobDef.id = "probe" ∧ ctx.executionId = "probe"))
    (hfile : OnFile ctx.executionId start)
    (hworked : WorkedOff env (transport.consume registry fuel) start turns final)
    (hmessages : (turns.map Turn.payload).Perm (partitionPayloads jobDef ctx))
    (hsucceeds : ∀ t ∈ turns,
      t.Succeeds env (transport.consume registry fuel) ctx.executionId) :
    FurtherStepsOnce jobDef (turns.flatMap (Turn.executed ctx.executionId)) ↔
      ∃ reports, List.Forall₂ (transport.Told env fuel jobDef) turns reports ∧
        FurtherStepsApart jobDef reports := by
  have hparts : ∀ t ∈ turns, IsHandedOver registry t.payload jobDef ∧
      t.payload.executionId = ctx.executionId := by
    intro t ht
    have hmem := hmessages.mem_iff.mp (List.mem_map_of_mem ht)
    exact ⟨isHandedOver_of_mem hregistered hgenuine hmem, executionId_of_mem hmem⟩
  obtain ⟨reports, hreports, hexecuted⟩ := executed_eq_paths (e := ctx.executionId)
    fun t ht => by
      obtain ⟨hmessage, hid⟩ := hparts t ht
      have hbefore := hworked.onFile hparts hfile t ht
      have hturn := hsucceeds t ht
      rw [← hid] at hbefore hturn ⊢
      exact executed_eq_path hmessage hbefore hturn
  rw [hexecuted, furtherStepsApart_iff]
  constructor
  · exact fun hapart => ⟨reports, hreports, hapart⟩
  · intro h
    obtain ⟨reports', hreports', hapart⟩ := h
    exact told_unique hreports hreports' ▸ hapart

end Launches

/-- Messages that are told alike repeat the steps on their path, and leave out the others. -/
theorem not_apart_of_alike {jobDef : JobDefinition} {reports : List (List TurnReport)}
    {names : List String} (hlength : 2 ≤ reports.length)
    (halike : ∀ told ∈ reports, jobDef.path jobDef.startStepId told = names)
    {entry : String × StepDefinition} (hentry : entry ∈ jobDef.steps.entries)
    (hne : entry.1 ≠ jobDef.startStepId) : ¬ FurtherStepsApart jobDef reports := by
  intro hapart
  obtain ⟨before, told, after, rfl, honce, hothers⟩ := hapart entry hentry hne
  have hnonempty : before ++ after ≠ [] := by
    intro hnil
    obtain ⟨rfl, rfl⟩ := List.append_eq_nil_iff.mp hnil
    simp at hlength
  obtain ⟨other, hother⟩ := List.exists_mem_of_ne_nil _ hnonempty
  have hmem : other ∈ before ++ told :: after := by
    rcases List.mem_append.mp hother with hbefore | hafter
    · exact List.mem_append_left _ hbefore
    · exact List.mem_append_right _ (List.mem_cons_of_mem _ hafter)
  refine hothers other hother ?_
  rw [halike other hmem, ← halike told (List.mem_append_right _ List.mem_cons_self)]
  exact List.count_pos_iff.mp (by omega)

/-! ### Two partitions and the steps behind them -/

/-- The partitioned step, and two tasklets behind it. -/
def behindSplit (deciders : List DeciderDefinition) (transitions : List TransitionDefinition) :
    JobDefinition :=
  { splitJob 2 with
    steps := ((splitJob 2).steps.set "left" (.tasklet
      { id := "left", tasklet := { kind := .BuilderLambda, fn := some 2 } })).set "right" (.tasklet
      { id := "right", tasklet := { kind := .BuilderLambda, fn := some 3 } })
    deciders := deciders
    transitions := transitions }

/-- One tasklet after the other. -/
def bothBehind : JobDefinition :=
  behindSplit [] [{ fromStepId := "load", onStatus := "COMPLETED", toStepId := some "left" },
    { fromStepId := "left", onStatus := "COMPLETED", toStepId := some "right" }]

/-- One of the tasklets, as a decider says. -/
def eitherBehind : JobDefinition :=
  behindSplit [{ afterStepId := "load", decide := 4 }]
    [{ fromStepId := "load", onStatus := "LEFT", toStepId := some "left" },
      { fromStepId := "load", onStatus := "RIGHT", toStepId := some "right" },
      { fromStepId := "left", onStatus := "COMPLETED", toStepId := none }]

/-- The decider says left once. -/
def sides : Environment Nat Nat :=
  { filling 0 with
    user := fun
      | .decide _ _, pos, _ => (.ok (if pos < 30 then "LEFT" else "RIGHT"), pos, [])
      | call, pos, ctx => (filling 0).user call pos ctx }

theorem bothBehind_valid : DefinitionValidator.validate bothBehind = .ok () := rfl

theorem eitherBehind_valid : DefinitionValidator.validate eitherBehind = .ok () := rfl

def bothWorker : JobPayload → Code Nat Unit :=
  Transport.kafka.consume (.only bothBehind bothBehind_valid) 5

def eitherWorker : JobPayload → Code Nat Unit :=
  Transport.kafka.consume (.only eitherBehind eitherBehind_valid) 5

/-- The message of a partition. -/
def partMessage (job : JobDefinition) (i : Int) : JobPayload := payloadOf job launchContext (some i)

/-- The turns of two messages of the job. -/
def twoTurns (env : Environment Nat Nat) (consume : JobPayload → Code Nat Unit)
    (job : JobDefinition) : Turn Nat Nat × Turn Nat Nat :=
  let first := turnOf env consume (launchedWorld 0 job) (partMessage job 0)
  (first, turnOf env consume first.after (partMessage job 1))

/-- The two turns, as a list. -/
def turnsOf (env : Environment Nat Nat) (consume : JobPayload → Code Nat Unit)
    (job : JobDefinition) : List (Turn Nat Nat) :=
  [(twoTurns env consume job).1, (twoTurns env consume job).2]

/-- Both messages are worked off without failure. -/
def BothSucceed (env : Environment Nat Nat) (consume : JobPayload → Code Nat Unit)
    (job : JobDefinition) : Prop :=
  WorkedOff env consume (launchedWorld 0 job) (turnsOf env consume job)
      (twoTurns env consume job).2.after ∧
    ∀ t ∈ turnsOf env consume job, t.Succeeds env consume "r"

/-- Two parts that both succeed take the two turns of the sample. -/
theorem bothSucceed {env : Environment Nat Nat} {consume : JobPayload → Code Nat Unit}
    {job : JobDefinition}
    (hfirst : ((consume (partMessage job 0)).run (handle env).traced
      (launchedWorld 0 job, [])).1 = .returned ())
    (hsecond : ((consume (partMessage job 1)).run (handle env).traced
      ((twoTurns env consume job).1.after, [])).1 = .returned ())
    (hcompletes : (twoTurns env consume job).1.Completes "r" ∧
      (twoTurns env consume job).2.Completes "r") : BothSucceed env consume job := by
  constructor
  · exact .cons (partMessage job 0) hfirst (.cons (partMessage job 1) hsecond (.done _))
  · intro t ht
    rcases List.mem_pair.mp ht with rfl | rfl
    · exact ⟨Prod.ext hfirst rfl, hcompletes.1⟩
    · exact ⟨Prod.ext hsecond rfl, hcompletes.2⟩

/-- Where the decider sends one message left and the other right, both tasklets run once. -/
theorem further_steps_once_either : BothSucceed sides eitherWorker eitherBehind ∧
    ∃ reports, List.Forall₂ (Transport.kafka.Told sides 5 eitherBehind)
        (turnsOf sides eitherWorker eitherBehind) reports ∧
      FurtherStepsApart eitherBehind reports := by
  have hsucceed : BothSucceed sides eitherWorker eitherBehind :=
    bothSucceed (by decide +kernel) (by decide +kernel)
      ⟨by unfold Turn.Completes; decide +kernel, by unfold Turn.Completes; decide +kernel⟩
  have hregistered : (JobRegistry.only eitherBehind eitherBehind_valid).get eitherBehind.id =
      .ok eitherBehind := rfl
  have hlaunched : Recorded "r" .STARTING (launchedWorld 0 eitherBehind) := by decide +kernel
  have hmessages : ((turnsOf sides eitherWorker eitherBehind).map Turn.payload).Perm
      (partitionPayloads eitherBehind launchContext) := .refl _
  have honce : FurtherStepsOnce eitherBehind
      ((turnsOf sides eitherWorker eitherBehind).flatMap (Turn.executed "r")) := by decide +kernel
  refine ⟨hsucceed, ?_⟩
  exact (further_steps_once_iff hregistered (fun h => absurd h.1 (by decide)) hlaunched.onFile
    hsucceed.1 hmessages hsucceed.2).mp honce

/-- Two tasklets behind a partitioned step, each executed by both of its partitions. -/
theorem tasklets_run_for_each_partition :
    BothSucceed (filling 0) bothWorker bothBehind ∧
    ((turnsOf (filling 0) bothWorker bothBehind).map (Turn.executed "r")) =
      [["load", "left", "right"], ["load", "left", "right"]] ∧
    ¬ FurtherStepsOnce bothBehind
      ((turnsOf (filling 0) bothWorker bothBehind).flatMap (Turn.executed "r")) := by
  have hsucceed : BothSucceed (filling 0) bothWorker bothBehind :=
    bothSucceed (by decide +kernel) (by decide +kernel)
      ⟨by unfold Turn.Completes; decide +kernel, by unfold Turn.Completes; decide +kernel⟩
  exact ⟨hsucceed, by decide +kernel, by decide +kernel⟩

end NestBatch
