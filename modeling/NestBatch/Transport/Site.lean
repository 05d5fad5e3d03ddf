import NestBatch.Execution.RunFootprint
import NestBatch.Lib.Sessions
import NestBatch.Transport.Redelivery

/-!
# The site

One repository and one queue, and everything that comes to them: launches by any
strategy, the calls of the operator, and the messages that the workers take from
the queue.  Each of these is a session, and the operations of all sessions
interleave; a worker that dies takes no further turn, and the broker may deliver a
message again.

What a session may do is said of its own log of calls (`Deployment.permit`): a
launch creates one execution and drives or enqueues that one; a restart and a
delivery drive the execution that they name, which they have looked up before; a
stop and an abandon write the one status that they are for.
-/

namespace NestBatch

variable {α υ : Type}

/-- Where a launch hands its execution. -/
inductive Strategy
  | direct
  | inProcess (mode : InProcessPartitionViolationMode)
  | queued
  deriving DecidableEq, Repr

/-- `launch` of the transport's runtime. -/
def Transport.launch : Transport → ExecutionStrategy α
  | .bullmq => BullmqRuntime.launch
  | .kafka => KafkaRuntime.launch

/-- The payloads that a launch hands to the broker. -/
def Transport.payloads : Transport → JobDefinition → ExecutionStrategyContext → List JobPayload
  | .bullmq => BullmqRuntime.payloads
  | .kafka => KafkaRuntime.payloads

/-- What is configured of a site. -/
structure Deployment where
  registry : JobRegistry
  canonicalJobKey : JobParameters → String
  strategy : Strategy
  transport : Transport
  fuel : Nat

/-- What can come to a site. -/
inductive Request
  | launch (jobId : String) (params : JobParameters) (identifyingParams : Option JobParameters)
  | startNext (jobId : String) (params : JobParameters)
  | restart (executionId : String)
  | stop (executionId : String)
  | abandon (executionId : String)
  /-- A worker takes a message; a message that is kept can be delivered again. -/
  | deliver (payload : JobPayload) (kept : Bool)

namespace Deployment

variable (D : Deployment)

/-- The strategy that Nest injects. -/
def executionStrategy : Option (ExecutionStrategy α) :=
  match D.strategy with
  | .direct => none
  | .inProcess mode => some (InProcessExecutionStrategy.launch mode D.fuel)
  | .queued => some D.transport.launch

def host : Host α :=
  { registry := D.registry, canonicalJobKey := D.canonicalJobKey
    strategy := D.executionStrategy, fuel := D.fuel }

/-- What a session does. -/
def code : Request → Code α Unit
  | .launch jobId params identifyingParams =>
      JobLauncher.launch D.host jobId params identifyingParams >>= fun _ => .pure ()
  | .startNext jobId params =>
      JobOperator.startNextInstance D.host jobId params >>= fun _ => .pure ()
  | .restart executionId => JobOperator.restart D.host executionId >>= fun _ => .pure ()
  | .stop executionId => JobOperator.stop executionId >>= fun _ => .pure ()
  | .abandon executionId => JobOperator.abandon executionId >>= fun _ => .pure ()
  | .deliver payload _ => D.transport.consume D.registry D.fuel payload

/-- Only messages that are in the queue are delivered. -/
def arrive : Request → World υ → Option (World υ)
  | .deliver payload kept, w =>
      if payload ∈ w.queue then
        some (if kept then w else { w with queue := w.queue.erase payload })
      else none
  | _, w => some w

/-- The site as a service. -/
def service (env : Environment α υ) :
    Prog.Service Request (Op α) Op.Resp Thrown Unit (World υ) :=
  { code := D.code, arrive := arrive, handler := handle env }

end Deployment

/-- A session of a site. -/
abbrev SiteSession (α : Type) := Prog.Session Request (Op α) Op.Resp Thrown Unit

/-- The state of a site. -/
abbrev SiteState (α υ : Type) := Prog.Site Request (Op α) Op.Resp Thrown Unit (World υ)

/-! ### What the log of a session says -/

/-- The execution that a call has created. -/
def launchedBy : Prog.Call (Op α) Op.Resp → Option String
  | ⟨.createExecutionAtomic _ _ _, .ok row⟩ => some row.id
  | _ => none

def launchedIds (calls : Calls α) : List String := calls.filterMap launchedBy

/-- The row that a call has read. -/
def rowRead : Prog.Call (Op α) Op.Resp → Option JobExecution
  | ⟨.getJobExecution _, some row⟩ => some row
  | _ => none

def rowsRead (calls : Calls α) : List JobExecution := calls.filterMap rowRead

/-- The message that the broker has taken. -/
def messageSent : Prog.Call (Op α) Op.Resp → Option JobPayload
  | ⟨.enqueue payload, .ok _⟩ => some payload
  | _ => none

def messagesSent (calls : Calls α) : List JobPayload := calls.filterMap messageSent

section Logs

variable {calls : Calls α} {c : Prog.Call (Op α) Op.Resp}

theorem launchedIds_snoc :
    launchedIds (calls ++ [c]) = launchedIds calls ++ (launchedBy c).toList :=
  filterMap_snoc launchedBy calls c

theorem rowsRead_snoc : rowsRead (calls ++ [c]) = rowsRead calls ++ (rowRead c).toList :=
  filterMap_snoc rowRead calls c

theorem messagesSent_snoc :
    messagesSent (calls ++ [c]) = messagesSent calls ++ (messageSent c).toList :=
  filterMap_snoc messageSent calls c

theorem launchedBy_of_kind {o : Op α} (h : o.kind ≠ .createExecution) (r : o.Resp) :
    launchedBy ⟨o, r⟩ = none := by
  cases o with
  | createExecutionAtomic => exact absurd rfl h
  | _ => rfl

theorem messageSent_of_kind {o : Op α} (h : o.kind ≠ .enqueue) (r : o.Resp) :
    messageSent ⟨o, r⟩ = none := by
  cases o with
  | enqueue => exact absurd rfl h
  | _ => rfl

/-- A row of the execution has been read, of which something holds. -/
def HasRead (e : String) (P : JobExecution → Prop) (calls : Calls α) : Prop :=
  ∃ row ∈ rowsRead calls, row.id = e ∧ P row

theorem HasRead.snoc {e : String} {P : JobExecution → Prop} (h : HasRead e P calls)
    (c : Prog.Call (Op α) Op.Resp) : HasRead e P (calls ++ [c]) := by
  obtain ⟨row, hrow, hP⟩ := h
  refine ⟨row, ?_, hP⟩
  rw [rowsRead_snoc]
  exact List.mem_append_left _ hrow

theorem hasRead_snoc {e : String} {P : JobExecution → Prop} {id : String} {row : JobExecution}
    (hid : row.id = e) (hP : P row) :
    HasRead e P (calls ++ [⟨.getJobExecution id, some row⟩]) := by
  refine ⟨row, ?_, hid, hP⟩
  rw [rowsRead_snoc]
  exact List.mem_append_right _ (List.mem_singleton_self row)

theorem mem_launchedIds_snoc {e : String} (h : e ∈ launchedIds calls)
    (c : Prog.Call (Op α) Op.Resp) : e ∈ launchedIds (calls ++ [c]) := by
  rw [launchedIds_snoc]
  exact List.mem_append_left _ h

end Logs

/-! ### What a session may do -/

/-- What a session may do, given its calls so far. -/
structure Permit (α : Type) where
  creates : Calls α → Prop
  marks : Calls α → String → JobExecutionPatch → Prop
  steps : Calls α → String → Prop
  sends : Calls α → JobPayload → Prop

/-- The row that is looked up answers with its own id. -/
def AnswersOwnRow : (o : Op α) → o.Resp → Prop
  | .getJobExecution e, some row => row.id = e
  | _, _ => True

/-- What a permit asks of an operation. -/
def Permit.Allows (permit : Permit α) (calls : Calls α) : Op α → Prop
  | .createExecutionAtomic _ _ _ => permit.creates calls
  | .updateJobExecution e patch => permit.marks calls e patch
  | .createStepExecution e _ => permit.steps calls e
  | .enqueue payload => permit.sends calls payload
  | _ => True

def Permit.rules (permit : Permit α) : CallRules α where
  demands := permit.Allows
  allowed _ := AnswersOwnRow

/-- The permit of a run: it marks and has steps of `e` only, once it is let in. -/
def runPermit (e : String) (LetIn : Calls α → Prop) : Permit α where
  creates _ := False
  marks calls e' patch := e' = e ∧ RunMark e calls patch ∧ LetIn calls
  steps calls e' := e' = e ∧ LetIn calls
  sends _ _ := False

/-- The permit of a call of the operator that writes one status. -/
def closePermit (e : String) (status : JobStatus) (P : JobStatus → Prop) : Permit α where
  creates _ := False
  marks calls e' patch := e' = e ∧ patch.status = some status ∧ HasRead e (P ·.status) calls
  steps _ _ := False
  sends _ _ := False

/-- Statuses that can be abandoned. -/
def CanBeAbandoned (status : JobStatus) : Prop :=
  JobOperator.isActive status = false ∧ status ≠ .COMPLETED ∧ status ≠ .ABANDONED

namespace Deployment

variable (D : Deployment)

/-- The permit of a launch. -/
def launchPermit (jobId : String) : Permit α where
  creates calls := launchedIds calls = []
  marks calls e patch := D.strategy ≠ .queued ∧ e ∈ launchedIds calls ∧ RunMark e calls patch
  steps calls e := D.strategy ≠ .queued ∧ e ∈ launchedIds calls
  sends calls payload := D.strategy = .queued ∧ ∃ e job, e ∈ launchedIds calls ∧
    D.registry.get jobId = .ok job ∧ messagesSent calls ++ [payload] <+:
      D.transport.payloads job { executionId := e, jobExecutionId := e }

/-- A worker lets a message in: its job is registered, and restartable if this is a restart. -/
def Takes (payload : JobPayload) (row : JobExecution) : Prop :=
  ∃ job, D.registry.get payload.jobId = .ok job ∧
    (JobExecutor.isRestart row = true → job.restartable = true)

def permit : Request → Permit α
  | .launch jobId _ _ => D.launchPermit jobId
  | .startNext jobId _ => D.launchPermit jobId
  | .restart e => runPermit e (HasRead e (JobExecutor.isRestart · = true))
  | .stop e => closePermit e .STOPPED (JobOperator.isActive · = true)
  | .abandon e => closePermit e .ABANDONED CanBeAbandoned
  | .deliver payload _ => runPermit payload.executionId
      (HasRead payload.executionId (D.Takes payload))

/-- The rules of a request. -/
def siteLogic (request : Request) : Prog.Logic (Op α) Op.Resp (Calls α) :=
  logged (D.permit request).rules True

end Deployment

theorem importJob_valid : DefinitionValidator.validate (splitJob 1) = .ok () := rfl

/-- A site with one job, whose only step is not partitioned. -/
def importSite (strategy : Strategy) : Deployment :=
  { registry := .only (splitJob 1) importJob_valid, canonicalJobKey := fun _ => "key"
    strategy := strategy, transport := .bullmq, fuel := 5 }

/-- What happens from a launch on, up to the moment its worker has begun to run. -/
def launchAndDelivery : List (Prog.Happening Request) :=
  [.come (.launch "import" [] none), .act 0, .act 0, .come (.deliver (payloadOf (splitJob 1)
    { executionId := "r", jobExecutionId := "r" } none) false), .act 1, .act 1, .act 1, .act 0]

end NestBatch
