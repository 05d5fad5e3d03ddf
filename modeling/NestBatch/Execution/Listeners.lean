import NestBatch.Effects

/-!
# Listener dispatch

`ListenerInvoker` walks a resolver map in insertion order and calls every entry
whose key starts with `phase:kind:`.  The name segment of a key is unique, so
here a key is only its prefix and a resolver map is a list.  An entry that
throws aborts the walk unless it is non-critical.
-/

namespace NestBatch

/-- A listener function and whether its errors are swallowed. -/
structure ListenerEntry where
  fn : Handle
  nonCritical : Bool := false
  deriving DecidableEq, Repr

/-- The listeners of a job, each under the point it listens at. -/
abbrev ResolverMap := List (ListenerKey × ListenerEntry)

variable {α : Type}

namespace ListenerInvoker

/-- The warning about a non-critical listener, which quotes its error (`formatError`).  Only
whether the error can be quoted matters. -/
def warn (err : Thrown) : Except Thrown Unit := err.text.map fun _ => ()

/-- A warning throws exactly when the error has no text. -/
theorem warn_eq_error {err err' : Thrown} : warn err = .error err' ↔ err.text = .error err' := by
  unfold warn
  cases err.text <;> simp [Except.map]

theorem warn_eq_ok {err : Thrown} : warn err = .ok () ↔ ∃ message, err.text = .ok message := by
  unfold warn
  cases err.text <;> simp [Except.map]

/-- Apply the failure policy of an entry to the outcome of its call. -/
def settle (entry : ListenerEntry) : Except Thrown Unit → Code α Unit
  | .ok () => .pure ()
  | .error err => if entry.nonCritical then .ofExcept (warn err) else .throw err

/-- Call every listener under `key`, in order, with the same arguments. -/
def invokeMatching (key : ListenerKey) (args : ListenerArgs α) : ResolverMap → Code α Unit
  | [] => .pure ()
  | (k, entry) :: rest =>
      if k = key then do
        let out ← request (.user (.listener entry.fn key args))
        settle entry out
        invokeMatching key args rest
      else invokeMatching key args rest

/-- Tells the `before` listeners of a kind. -/
def invokeBefore (resolvers : ResolverMap) (kind : ListenerKind) (ctx : ListenerContext) :
    Code α Unit :=
  invokeMatching (.lifecycle .before kind) (.ctx ctx) resolvers

/-- Tells the `after:job` listeners the status. -/
def invokeAfterJob (resolvers : ResolverMap) (ctx : ListenerContext) (status : JobStatus) :
    Code α Unit :=
  invokeMatching (.lifecycle .after .job) (.afterJob ctx status) resolvers

/-- Tells the `after:chunk` listeners the progress. -/
def invokeAfterChunk (resolvers : ResolverMap) (ctx : ListenerContext)
    (progress : ChunkProgress) : Code α Unit :=
  invokeMatching (.lifecycle .after .chunk) (.afterChunk ctx progress) resolvers

/-- `after:step` listeners are handed the live result, and leave it changed. -/
def invokeAfterStep (ctx : ListenerContext) : ResolverMap → StepResult → Code α StepResult
  | [], result => .pure result
  | (k, entry) :: rest, result =>
      if k = .lifecycle .after .step then do
        let out ← request (.user (.afterStep entry.fn ctx result))
        settle entry out.1
        invokeAfterStep ctx rest out.2
      else invokeAfterStep ctx rest result

/-- Tells the `onError` listeners of a kind. -/
def invokeOnError (resolvers : ResolverMap) (kind : ListenerKind) (ctx : ListenerContext)
    (err : Thrown) : Code α Unit :=
  invokeMatching (.lifecycle .onError kind) (.onError ctx err) resolvers

/-- Tells the `before:itemRead` listeners. -/
def invokeBeforeRead (resolvers : ResolverMap) (ctx : ListenerContext) : Code α Unit :=
  invokeMatching (.lifecycle .before .itemRead) (.ctx ctx) resolvers

/-- Tells the `after:itemRead` listeners the item. -/
def invokeAfterRead (resolvers : ResolverMap) (item : α) (ctx : ListenerContext) : Code α Unit :=
  invokeMatching (.lifecycle .after .itemRead) (.afterRead item ctx) resolvers

/-- Tells the `onError:itemRead` listeners. -/
def invokeOnReadError (resolvers : ResolverMap) (err : Thrown) (ctx : ListenerContext) :
    Code α Unit :=
  invokeMatching (.lifecycle .onError .itemRead) (.readError err ctx) resolvers

/-- Tells the `before:itemProcess` listeners. -/
def invokeBeforeProcess (resolvers : ResolverMap) (item : α) (ctx : ListenerContext) :
    Code α Unit :=
  invokeMatching (.lifecycle .before .itemProcess) (.beforeProcess item ctx) resolvers

/-- Tells the `after:itemProcess` listeners the result. -/
def invokeAfterProcess (resolvers : ResolverMap) (item : α) (result : Option α)
    (ctx : ListenerContext) : Code α Unit :=
  invokeMatching (.lifecycle .after .itemProcess) (.afterProcess item result ctx) resolvers

/-- Tells the `onError:itemProcess` listeners. -/
def invokeOnProcessError (resolvers : ResolverMap) (item : α) (err : Thrown)
    (ctx : ListenerContext) : Code α Unit :=
  invokeMatching (.lifecycle .onError .itemProcess) (.processError item err ctx) resolvers

/-- Tells the `before:itemWrite` listeners. -/
def invokeBeforeWrite (resolvers : ResolverMap) (items : List α) (ctx : ListenerContext) :
    Code α Unit :=
  invokeMatching (.lifecycle .before .itemWrite) (.beforeWrite items ctx) resolvers

/-- Tells the `after:itemWrite` listeners the result. -/
def invokeAfterWrite (resolvers : ResolverMap) (items : List α) (result : Option WriterResult)
    (ctx : ListenerContext) : Code α Unit :=
  invokeMatching (.lifecycle .after .itemWrite) (.afterWrite items result ctx) resolvers

/-- Tells the `onError:itemWrite` listeners. -/
def invokeOnWriteError (resolvers : ResolverMap) (items : List α) (err : Thrown)
    (ctx : ListenerContext) : Code α Unit :=
  invokeMatching (.lifecycle .onError .itemWrite) (.writeError items err ctx) resolvers

/-- Tells the `onSkip` listeners of a skipped read. -/
def invokeOnSkipRead (resolvers : ResolverMap) (err : Thrown) : Code α Unit :=
  invokeMatching (.onSkip .read) (.skipRead err) resolvers

/-- Tells the `onSkip` listeners of a skipped item. -/
def invokeOnSkipProcess (resolvers : ResolverMap) (item : α) (err : Thrown) : Code α Unit :=
  invokeMatching (.onSkip .process) (.skipProcess item err) resolvers

/-- Tells the `onSkip` listeners of a skipped write. -/
def invokeOnSkipWrite (resolvers : ResolverMap) (items : List α) (err : Thrown) : Code α Unit :=
  invokeMatching (.onSkip .write) (.skipWrite items err) resolvers

/-- `convertLegacyResolvers`: the step-level entries of one phase.  The legacy
shape has no failure policy, so every entry is critical. -/
def convertLegacyResolvers (legacy : ResolverMap) (phase : ListenerPhase) : ResolverMap :=
  (legacy.filter fun e => e.1 = .lifecycle phase .step).map fun e => (e.1, { fn := e.2.fn })

/-- `invokeBeforeStep`, on the legacy map. -/
def invokeBeforeStepLegacy (legacy : ResolverMap) (ctx : ListenerContext) : Code α Unit :=
  invokeBefore (convertLegacyResolvers legacy .before) .step ctx

/-- `invokeAfterStep`, on the legacy map. -/
def invokeAfterStepLegacy (legacy : ResolverMap) (ctx : ListenerContext) (result : StepResult) :
    Code α StepResult :=
  invokeAfterStep ctx (convertLegacyResolvers legacy .after) result

/-- `invokeOnErrorStep`, on the legacy map. -/
def invokeOnErrorStepLegacy (legacy : ResolverMap) (ctx : ListenerContext) (err : Thrown) :
    Code α Unit :=
  invokeOnError (convertLegacyResolvers legacy .onError) .step ctx err

end ListenerInvoker

end NestBatch
