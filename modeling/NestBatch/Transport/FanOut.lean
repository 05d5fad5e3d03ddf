import NestBatch.Transport.Agreement

/-!
# How far a fan-out comes

A launch of a partitioned job enqueues its payloads one after the other, each in a call
of its own.  The broker may refuse any of them, and what it has taken before stays in
the queue.
-/

namespace NestBatch

variable {α υ : Type} {env : Environment α υ} {w : World υ}

/-! ### What the broker takes -/

/-- The position of the first of the payloads that the broker refuses. -/
def firstRefusal (env : Environment α υ) : List JobPayload → υ → Option Nat
  | [], _ => none
  | payload :: rest, user =>
      match env.broker payload user with
      | (.error _, _) => some 0
      | (.ok _, user) => (firstRefusal env rest user).map (· + 1)

/-- The code after an `enqueue` sees the broker's answer. -/
theorem run_enqueue {β : Type} (payload : JobPayload) (f : String → Code α β) (w : World υ) :
    (enqueue payload >>= f).run (handle env) w =
      match env.broker payload w.user with
      | (.ok queueJobId, user) =>
          (f queueJobId).run (handle env) { w with user := user, queue := w.queue ++ [payload] }
      | (.error err, user) => (.threw err, { w with user := user }) := by
  have hperform : (enqueue payload >>= f).run (handle env) w =
      (Prog.ofExcept (handle env (.enqueue payload) w).1 >>= f).run (handle env)
        (handle env (.enqueue payload) w).2 := rfl
  rw [hperform]
  cases hbroker : env.broker payload w.user with
  | mk answer user =>
      cases answer with
      | ok queueJobId =>
          have hhandle : handle env (.enqueue payload) w =
              (.ok queueJobId, { w with user := user, queue := w.queue ++ [payload] }) := by
            simp only [handle, hbroker]
          rw [hhandle]
          rfl
      | error err =>
          have hhandle : handle env (.enqueue payload) w =
              (.error err, { w with user := user }) := by
            simp only [handle, hbroker]
          rw [hhandle]
          rfl

/-- What enqueuing a list of payloads ends with, given where the broker refuses. -/
def Enqueues (payloads : List JobPayload) (w : World υ) (refusal : Option Nat)
    (end_ : Prog.Outcome Thrown String × World υ) : Prop :=
  match refusal with
  | none => (∃ queueJobId, end_.1 = .returned queueJobId) ∧ end_.2.queue = w.queue ++ payloads
  | some i =>
      (∃ err, end_.1 = .threw err) ∧ i < payloads.length ∧
        end_.2.queue = w.queue ++ payloads.take i

/-- All of them are taken, or those before the one that is refused. -/
theorem enqueueAll_run (payloads : List JobPayload) (last : String) (w : World υ) :
    Enqueues payloads w (firstRefusal env payloads w.user)
      ((enqueueAll payloads last : Code α String).run (handle env) w) := by
  induction payloads generalizing last w with
  | nil => exact ⟨⟨last, rfl⟩, (List.append_nil _).symm⟩
  | cons payload rest ih =>
      unfold enqueueAll firstRefusal
      rw [run_enqueue]
      cases hbroker : env.broker payload w.user with
      | mk answer user =>
          cases answer with
          | error err => exact ⟨⟨err, rfl⟩, Nat.succ_pos _, (List.append_nil _).symm⟩
          | ok queueJobId =>
              have hrest := ih queueJobId { w with user := user, queue := w.queue ++ [payload] }
              dsimp only at hrest ⊢
              cases hrefusal : firstRefusal env rest user with
              | none =>
                  rw [hrefusal] at hrest
                  refine ⟨hrest.1, hrest.2.trans ?_⟩
                  rw [List.append_assoc]
                  rfl
              | some i =>
                  rw [hrefusal] at hrest
                  refine ⟨hrest.1, Nat.succ_lt_succ hrest.2.1, hrest.2.2.trans ?_⟩
                  rw [List.append_assoc]
                  rfl

/-! ### A launch -/

/-- The payloads of a partitioned launch: one for each partition. -/
def partitionPayloads (job : JobDefinition) (ctx : ExecutionStrategyContext) : List JobPayload :=
  (ordinals (partitionCount job)).map fun partitionIndex => payloadOf job ctx (some partitionIndex)

/-- A partitioned job is handed over as one payload for each partition. -/
theorem payloads_of_partitioned {job : JobDefinition} (hcount : partitionCount job ≥ 2)
    (ctx : ExecutionStrategyContext) :
    BullmqRuntime.payloads job ctx = partitionPayloads job ctx := by
  unfold BullmqRuntime.payloads BullmqRuntime.partitionOrdinals
  rw [if_pos hcount, List.map_map]
  rfl

/-- A launch resolves with every partition in the queue, or rejects with none. -/
def AllOrNothing (env : Environment α υ) (launch : ExecutionStrategy α) (job : JobDefinition)
    (params : JobParameters) (ctx : ExecutionStrategyContext) (w : World υ) : Prop :=
  let launched := (launch job params ctx).run (handle env) w
  (∃ queueJobId, launched.1 = .returned (.enqueued queueJobId) ∧
    launched.2.queue = w.queue ++ partitionPayloads job ctx) ∨
  (∃ err, launched.1 = .threw err ∧ launched.2.queue = w.queue)

/-- Where the partitions are valid, a launch does nothing but enqueue its payloads. -/
theorem BullmqRuntime.launch_valid {job : JobDefinition}
    (hvalid : validatePartitions (startPartitions job) = .ok ()) (params : JobParameters)
    (ctx : ExecutionStrategyContext) :
    (BullmqRuntime.launch job params ctx : Code α LaunchResult) =
      enqueueAll (BullmqRuntime.payloads job ctx) "" >>= fun last => .pure (.enqueued last) := by
  unfold BullmqRuntime.launch
  rw [hvalid]
  rfl

/-- Launching a partitioned job enqueues its payloads in order. -/
theorem BullmqRuntime.launch_partitioned {job : JobDefinition} (hcount : partitionCount job ≥ 2)
    (params : JobParameters) (ctx : ExecutionStrategyContext) :
    (BullmqRuntime.launch job params ctx : Code α LaunchResult) =
      enqueueAll (partitionPayloads job ctx) "" >>= fun last => .pure (.enqueued last) := by
  have hvalid : validatePartitions (startPartitions job) = .ok () := by
    unfold partitionCount at hcount
    cases hpartitions : startPartitions job with
    | none => rfl
    | some partitions =>
        rw [hpartitions] at hcount
        have hpos : ¬ partitions.count ≤ 0 := by
          change partitions.count ≥ 2 at hcount
          omega
        exact if_neg hpos
  rw [launch_valid hvalid, payloads_of_partitioned hcount]

/-- The two transports launch alike. -/
theorem launch_eq (job : JobDefinition) (params : JobParameters) (ctx : ExecutionStrategyContext) :
    (KafkaRuntime.launch job params ctx : Code α LaunchResult) =
      BullmqRuntime.launch job params ctx := by
  unfold KafkaRuntime.launch BullmqRuntime.launch
  rw [payloads_eq]

/-- BullMQ hands over all partitions or none exactly when no later one is refused. -/
theorem BullmqRuntime.allOrNothing_iff {job : JobDefinition} (hcount : partitionCount job ≥ 2)
    (params : JobParameters) (ctx : ExecutionStrategyContext) (w : World υ) :
    AllOrNothing env BullmqRuntime.launch job params ctx w ↔
      ∀ i, firstRefusal env (partitionPayloads job ctx) w.user = some i → i = 0 := by
  have hrun : Enqueues (partitionPayloads job ctx) w
      (firstRefusal env (partitionPayloads job ctx) w.user)
      ((enqueueAll (partitionPayloads job ctx) "" : Code α String).run (handle env) w) :=
    enqueueAll_run _ "" w
  unfold AllOrNothing
  rw [BullmqRuntime.launch_partitioned hcount, Prog.run_bind]
  cases hended : (enqueueAll (partitionPayloads job ctx) "" : Code α String).run (handle env) w with
  | mk out w' =>
      rw [hended] at hrun
      cases hrefusal : firstRefusal env (partitionPayloads job ctx) w.user with
      | none =>
          rw [hrefusal] at hrun
          obtain ⟨⟨queueJobId, hout⟩, hqueue⟩ := hrun
          cases hout
          exact ⟨(fun _ i hi => by cases hi), fun _ => .inl ⟨queueJobId, rfl, hqueue⟩⟩
      | some i =>
          rw [hrefusal] at hrun
          obtain ⟨⟨err, hout⟩, hlt, hqueue⟩ := hrun
          cases hout
          constructor
          · intro h j hj
            cases hj
            rcases h with ⟨queueJobId, hreturned, -⟩ | ⟨err', -, hnothing⟩
            · cases hreturned
            · have hlength := congrArg List.length (hqueue.symm.trans hnothing)
              rw [List.length_append, List.length_take] at hlength
              omega
          · intro h
            have hzero := h i rfl
            subst hzero
            exact .inr ⟨err, rfl, hqueue.trans (List.append_nil _)⟩

/-- Kafka hands over all partitions or none exactly when no later one is refused. -/
theorem KafkaRuntime.allOrNothing_iff {job : JobDefinition} (hcount : partitionCount job ≥ 2)
    (params : JobParameters) (ctx : ExecutionStrategyContext) (w : World υ) :
    AllOrNothing env KafkaRuntime.launch job params ctx w ↔
      ∀ i, firstRefusal env (partitionPayloads job ctx) w.user = some i → i = 0 := by
  have hsame : AllOrNothing env KafkaRuntime.launch job params ctx w ↔
      AllOrNothing env BullmqRuntime.launch job params ctx w := by
    unfold AllOrNothing
    rw [launch_eq]
  exact hsame.trans (BullmqRuntime.allOrNothing_iff hcount params ctx w)

/-- **A fan-out is all or nothing** exactly where the broker refuses no payload or the first:
whatever it refuses later leaves the partitions before it in the queue. -/
theorem fan_out_all_or_nothing_iff (env : Environment α υ) {job : JobDefinition}
    (hcount : partitionCount job ≥ 2) (params : JobParameters) (ctx : ExecutionStrategyContext)
    (w : World υ) :
    (AllOrNothing env BullmqRuntime.launch job params ctx w ↔
      ∀ i, firstRefusal env (partitionPayloads job ctx) w.user = some i → i = 0) ∧
    (AllOrNothing env KafkaRuntime.launch job params ctx w ↔
      ∀ i, firstRefusal env (partitionPayloads job ctx) w.user = some i → i = 0) :=
  ⟨BullmqRuntime.allOrNothing_iff hcount params ctx w,
    KafkaRuntime.allOrNothing_iff hcount params ctx w⟩

/-! ### A broker that goes down -/

/-- A broker that takes one payload and then is gone. -/
def failingBroker : Environment Nat Nat :=
  { willing [10, 20, 30] with
    broker := fun _ taken =>
      if taken = 0 then (.ok "1", 1) else (.error (.error "Connection is closed."), taken) }

/-- The strategy context of an execution. -/
def contextOf (executionId : String) : ExecutionStrategyContext :=
  { executionId := executionId, jobExecutionId := executionId }

/-- With a broker that takes both partitions a launch is all, with one that takes none it is
nothing. -/
theorem fan_out_all_or_nothing_whole :
    (AllOrNothing (willing [10, 20, 30]) BullmqRuntime.launch (splitJob 2) [] (contextOf "r")
        (launchedWorld 0 (splitJob 2)) ↔
      ∀ i, firstRefusal (willing [10, 20, 30]) (partitionPayloads (splitJob 2) (contextOf "r")) 0 =
        some i → i = 0) ∧
    (AllOrNothing failingBroker KafkaRuntime.launch (splitJob 2) [] (contextOf "r")
        (launchedWorld 1 (splitJob 2)) ↔
      ∀ i, firstRefusal failingBroker (partitionPayloads (splitJob 2) (contextOf "r")) 1 =
        some i → i = 0) :=
  ⟨(fan_out_all_or_nothing_iff (willing [10, 20, 30]) (by decide) [] (contextOf "r")
      (launchedWorld 0 (splitJob 2))).1,
    (fan_out_all_or_nothing_iff failingBroker (by decide) [] (contextOf "r")
      (launchedWorld 1 (splitJob 2))).2⟩

/-- The broker goes down after the first of two partitions: both launches reject, and that
partition is in the queue, where the workers hand it to the executor. -/
theorem fan_out_torn :
    let job := splitJob 2
    let registry := JobRegistry.only job rfl
    let w := launchedWorld 0 job
    let first := payloadOf job (contextOf "r") (some 0)
    let bullmq := (BullmqRuntime.launch job [] (contextOf "r")).run (handle failingBroker) w
    let kafka := (KafkaRuntime.launch job [] (contextOf "r")).run (handle failingBroker) w
    (bullmq.1 = .threw (.error "Connection is closed.") ∧ bullmq.2.queue = [first] ∧
      (BullmqRuntime.handsOver failingBroker registry first bullmq.2).isSome) ∧
    (kafka.1 = .threw (.error "Connection is closed.") ∧ kafka.2.queue = [first] ∧
      (KafkaRuntime.handsOver failingBroker registry first kafka.2).isSome) ∧
    ¬ AllOrNothing failingBroker BullmqRuntime.launch job [] (contextOf "r") w ∧
    ¬ AllOrNothing failingBroker KafkaRuntime.launch job [] (contextOf "r") w := by
  refine ⟨⟨rfl, rfl, rfl⟩, ⟨rfl, rfl, rfl⟩, ?_, ?_⟩
  · intro h
    have hfirst := (BullmqRuntime.allOrNothing_iff (by decide) _ _ _).mp h 1 rfl
    cases hfirst
  · intro h
    have hfirst := (KafkaRuntime.allOrNothing_iff (by decide) _ _ _).mp h 1 rfl
    cases hfirst

end NestBatch
