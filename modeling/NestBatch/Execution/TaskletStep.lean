import NestBatch.Execution.ChunkStep

/-!
# The tasklet step executor

`TaskletStepExecutor.execute`: the before-step listeners, the tasklet in a
transaction, the error listeners when it throws, and the after-step listeners
on the live result.  The in-memory transaction manager runs the tasklet
directly.
-/

namespace NestBatch

structure TaskletExecutionContext where
  jobExecutionId : String
  stepExecutionId : Option String := none
  stepName : Option String := none
  jobParameters : JobParameters := []
  listenerResolvers : ResolverMap := []
  providerResolvers : Option (List (String × Component)) := none

namespace TaskletStepExecutor

variable {α : Type}

def taskletContext (context : TaskletExecutionContext) : TaskletContext :=
  { jobExecutionId := context.jobExecutionId
    stepExecutionId := context.stepExecutionId.getD "<pending>"
    jobParameters := context.jobParameters }

def listenerContext (step : TaskletStepDefinition) (context : TaskletExecutionContext) :
    ListenerContext :=
  { jobExecutionId := context.jobExecutionId
    stepExecutionId := context.stepExecutionId.getD "<pending>"
    stepName := some (context.stepName.getD step.id)
    jobParameters := context.jobParameters }

/-- The function or object whose `execute` is called. -/
def resolveTasklet (ref : Ref) (context : TaskletExecutionContext) : Code α Handle :=
  match ref.kind, ref.fn with
  | .undefined, _ => .throw ChunkStepExecutor.notAReference
  | .BuilderLambda, some fn => do
      let result ← orThrow (request (.user (.invoke fn)))
      .pure (ChunkStepExecutor.fromLambda fn result).target
  | .BuilderLambda, none =>
      .throw (.error "Tasklet resolution not supported for ref kind: builder-lambda")
  | .ProviderToken, _ => do
      let resolved ← .ofExcept
        (ChunkStepExecutor.resolveProviderToken "tasklet" ref context.providerResolvers)
      .pure resolved.target
  | .Method, _ => .throw (.error "Tasklet resolution not supported for ref kind: method")

/-- The body of the `try` block: the value of the tasklet as a string. -/
def runTasklet (step : TaskletStepDefinition) (context : TaskletExecutionContext) :
    Code α (Option String) := do
  let tasklet ← resolveTasklet step.tasklet context
  orThrow (request (.user (.tasklet tasklet (taskletContext context))))

/-- A tasklet counts nothing. -/
def result (status : StepStatus) (exitCode exitMessage : String) : StepResult :=
  { status := status, exitCode := exitCode, exitMessage := exitMessage, readCount := 0
    writeCount := 0, skipCount := 0, commitCount := none }

/-- The result of a tasklet that returned, or that threw after telling the listeners. -/
def outcome (step : TaskletStepDefinition) (context : TaskletExecutionContext) :
    Except Thrown (Option String) → Code α StepResult
  | .ok value => .pure (result .COMPLETED "COMPLETED" (value.getD ""))
  | .error err => do
      ListenerInvoker.invokeOnErrorStepLegacy context.listenerResolvers
        (listenerContext step context) err
      let exitMessage ← .ofExcept err.text
      .pure (result .FAILED "FAILED" exitMessage)

def execute (step : TaskletStepDefinition) (context : TaskletExecutionContext) :
    Code α StepResult := do
  ListenerInvoker.invokeBeforeStepLegacy context.listenerResolvers (listenerContext step context)
  let value ← (runTasklet step context : Code α (Option String)).attempt
  let res ← outcome step context value
  ListenerInvoker.invokeAfterStepLegacy context.listenerResolvers (listenerContext step context) res

end TaskletStepExecutor

end NestBatch
