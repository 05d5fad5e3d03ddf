import NestBatch.Execution.ListEnvironment

/-!
# Whether the transports route alike

Both producers enqueue the same payloads, but the BullMQ worker drops the
partition index of a payload on the way to the executor.  What a worker hands
over is compared here for any payload in any world; the two workers agree on
exactly the payloads without partition index.
-/

namespace NestBatch

variable {α υ : Type}

/-- The arguments of a call of `JobExecutor.execute`. -/
abbrev HandOver := JobExecution × JobDefinition × PartitionArgs

/-- What a route ends with, run in `w`; a route that throws hands over nothing. -/
def outcomeIn {β : Type} (env : Environment α υ) (w : World υ) (route : Code α β) : Option β :=
  match (route.run (handle env) w).1 with
  | .returned x => some x
  | _ => none

/-- What `processJob` hands to the executor. -/
def BullmqRuntime.handsOver (env : Environment α υ) (registry : JobRegistry)
    (payload : JobPayload) (w : World υ) : Option HandOver :=
  outcomeIn env w (BullmqRuntime.route registry payload)

/-- What `processMessage` hands to the executor. -/
def KafkaRuntime.handsOver (env : Environment α υ) (registry : JobRegistry)
    (payload : JobPayload) (w : World υ) : Option HandOver :=
  (outcomeIn env w (KafkaRuntime.route registry payload)).join

/-- Looking an execution up goes on with the row of the repository. -/
theorem outcomeIn_getJobExecution {β : Type} (env : Environment α υ) (w : World υ) (id : String)
    (f : Option JobExecution → Code α β) :
    outcomeIn env w (getJobExecution id >>= f) = outcomeIn env w (f (w.repo.getJobExecution id)) :=
  rfl

/-- A thrown error hands over nothing. -/
theorem outcomeIn_ofExcept {β γ : Type} (env : Environment α υ) (w : World υ)
    (x : Except Thrown γ) (f : γ → Code α β) :
    outcomeIn env w (Prog.ofExcept x >>= f) =
      match x with
      | .ok a => outcomeIn env w (f a)
      | .error _ => none := by
  cases x <;> rfl

/-! ### The producers -/

/-- The ordinals are the numbers below the count. -/
theorem mem_ordinals {count i : Int} : i ∈ ordinals count ↔ 0 ≤ i ∧ i < count := by
  unfold ordinals
  rw [List.mem_map]
  constructor
  · intro h
    obtain ⟨n, hn, hi⟩ := h
    have hlt := List.mem_range.mp hn
    omega
  · intro h
    refine ⟨i.toNat, List.mem_range.mpr ?_, ?_⟩
    · omega
    · omega

/-- Both producers enqueue the same payloads in the same order. -/
theorem payloads_eq (job : JobDefinition) (ctx : ExecutionStrategyContext) :
    BullmqRuntime.payloads job ctx = KafkaRuntime.payloads job ctx := by
  unfold BullmqRuntime.payloads KafkaRuntime.payloads BullmqRuntime.partitionOrdinals
    KafkaRuntime.partitionOrdinals
  by_cases hcount : partitionCount job ≥ 2
  · rw [if_pos hcount, if_pos hcount, List.map_map]
    apply List.map_congr_left
    intro i hi
    have hnonneg := (mem_ordinals.mp hi).1
    simp [hnonneg]
  · rw [if_neg hcount, if_neg hcount]
    rfl

/-! ### The workers -/

section Workers

variable (env : Environment α υ) (registry : JobRegistry) (payload : JobPayload) (w : World υ)

/-- The BullMQ worker hands the row and the definition over, without partition routing. -/
theorem BullmqRuntime.handsOver_eq : BullmqRuntime.handsOver env registry payload w =
    match w.repo.getJobExecution payload.executionId, registry.get payload.jobId with
    | some execution, .ok job => some (execution, job, {})
    | _, _ => none := by
  unfold BullmqRuntime.handsOver BullmqRuntime.route
  rw [outcomeIn_getJobExecution]
  cases w.repo.getJobExecution payload.executionId with
  | none => rfl
  | some execution =>
      cases registry.get payload.jobId with
      | error err => rfl
      | ok job => rfl

/-- The Kafka worker checks the index against the start step and hands it on. -/
theorem KafkaRuntime.handsOver_eq (hprobe : KafkaRuntime.isProbe payload = false) :
    KafkaRuntime.handsOver env registry payload w =
    match w.repo.getJobExecution payload.executionId, registry.get payload.jobId with
    | some execution, .ok job =>
        match KafkaRuntime.partitionArgs job payload with
        | .ok partition => some (execution, job, partition)
        | .error _ => none
    | _, _ => none := by
  unfold KafkaRuntime.handsOver KafkaRuntime.route
  rw [hprobe, if_neg (by decide), outcomeIn_getJobExecution]
  cases w.repo.getJobExecution payload.executionId with
  | none => rfl
  | some execution =>
      dsimp only
      rw [outcomeIn_ofExcept]
      cases registry.get payload.jobId with
      | error err => rfl
      | ok job =>
          dsimp only
          rw [outcomeIn_ofExcept]
          cases KafkaRuntime.partitionArgs job payload with
          | error err => rfl
          | ok partition => rfl

/-- A probe is dropped. -/
theorem KafkaRuntime.handsOver_probe (hprobe : KafkaRuntime.isProbe payload = true) :
    KafkaRuntime.handsOver env registry payload w = none := by
  unfold KafkaRuntime.handsOver outcomeIn KafkaRuntime.route
  rw [hprobe]
  rfl

/-- Routing is empty exactly for a payload without index. -/
theorem KafkaRuntime.partitionArgs_eq_empty_iff (job : JobDefinition) :
    KafkaRuntime.partitionArgs job payload = .ok {} ↔ payload.partitionIndex = none := by
  unfold KafkaRuntime.partitionArgs
  cases payload.partitionIndex with
  | none => simp
  | some i =>
      simp only [reduceCtorEq, iff_false]
      cases enforcePartitionIndex i (partitionCount job) with
      | error err => exact fun h => by cases h
      | ok u => exact fun h => by cases h

/-- **Where the two workers agree.**  For a message of a known job and execution
they do exactly when it carries no partition index and is no probe. -/
theorem workers_agree_iff :
    BullmqRuntime.handsOver env registry payload w = KafkaRuntime.handsOver env registry payload w ↔
      (payload.partitionIndex = none ∧ KafkaRuntime.isProbe payload = false) ∨
        w.repo.getJobExecution payload.executionId = none ∨
        ∃ err, registry.get payload.jobId = .error err := by
  rw [BullmqRuntime.handsOver_eq]
  cases hprobe : KafkaRuntime.isProbe payload with
  | true =>
      rw [KafkaRuntime.handsOver_probe _ _ _ _ hprobe]
      cases w.repo.getJobExecution payload.executionId with
      | none => simp
      | some execution =>
          cases registry.get payload.jobId with
          | error err => simp
          | ok job => simp
  | false =>
      rw [KafkaRuntime.handsOver_eq _ _ _ _ hprobe]
      cases w.repo.getJobExecution payload.executionId with
      | none => simp
      | some execution =>
          cases registry.get payload.jobId with
          | error err => simp
          | ok job =>
              have hempty := KafkaRuntime.partitionArgs_eq_empty_iff payload job
              rw [← hempty]
              cases hargs : KafkaRuntime.partitionArgs job payload with
              | error err => simp [hargs]
              | ok partition => simp [hargs, eq_comm]

end Workers

/-! ### A partitioned launch -/

/-- A job of one chunk step, split in `count`. -/
def splitJob (count : Int) : JobDefinition :=
  { id := "import"
    steps := JsMap.empty.set "load" (.chunk
      { id := "load", chunkSize := 2, reader := { kind := .BuilderLambda, fn := some 0 }
        writer := { kind := .BuilderLambda, fn := some 1 }
        partitions := some { count := count } })
    startStepId := "load"
    restartable := true }

/-- A world that holds one execution of the job, just launched. -/
def launchedWorld {υ : Type} (user : υ) (job : JobDefinition) : World υ :=
  let w := World.initial (unaryIds 'r') (unaryIds 'u') user
  { w with repo := (w.repo.createExecutionAtomic 0 job.id "key" []).2 }

/-- Of the first of two payloads the Kafka worker hands its index over, the
BullMQ worker does not. -/
theorem workers_disagree :
    let registry := JobRegistry.only (splitJob 2) rfl
    let w := launchedWorld 0 (splitJob 2)
    let payload := payloadOf (splitJob 2) { executionId := "r", jobExecutionId := "r" } (some 0)
    payload ∈ BullmqRuntime.payloads (splitJob 2) { executionId := "r", jobExecutionId := "r" } ∧
    (KafkaRuntime.handsOver (willing [10, 20, 30]) registry payload w).map (·.2.2) =
      some { partitionIndex := some 0, partitionCount := some 2 } ∧
    (BullmqRuntime.handsOver (willing [10, 20, 30]) registry payload w).map (·.2.2) = some {} := by
  decide

end NestBatch
