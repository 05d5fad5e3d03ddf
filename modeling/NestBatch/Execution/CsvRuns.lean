import NestBatch.Execution.CsvEnvironment
import NestBatch.Execution.PlainStep
import NestBatch.Execution.RetryAttempts

/-!
# The header over runs and restarts

A run of the chunk step executor around a CSV writer, cut off anywhere, and the runs that
were restarted from its checkpoint: the file stays headed once as long as every batch is
regular.

What goes wrong otherwise: `write` sets the flag before it appends.  An append with the
header that fails leaves the flag set, and the batch that is written next, by a retry, behind
a skip, or by a restart from a checkpoint with this flag, goes without the header.
-/

namespace NestBatch

open CsvFileItemWriter

variable {α υ : Type}

/-- A run of the executor around the writer, at some point of it. -/
structure CsvRun (α υ : Type) where
  appendFile : JsString → υ → Option Thrown × υ
  others : Environment α υ
  step : ChunkStepDefinition
  context : ChunkExecutionContext
  fuel : Nat
  start : World (CsvState × υ)
  rest : Code α StepResult
  current : World (CsvState × υ)

namespace CsvRun

variable (E : CsvExport α) (run : CsvRun α υ)

/-- All batches of the run meet the condition. -/
structure IsRegular : Prop where
  fits : E.Fits run.others run.step run.context
  reaches : Prog.Reaches (E.trans run.appendFile run.others)
    (ChunkStepExecutor.execute run.fuel run.step run.context, run.start) (run.rest, run.current)

/-- The text of the file. -/
def file : JsString := run.current.user.1.file.getD []

/-- The flag in the context that is persisted for the step, in some world. -/
def savedFlag (w : World (CsvState × υ)) : Bool :=
  E.flagIn (w.repo.getExecutionContext (.stepExecutionId run.context.stepExecutionId)).data

/-- The step has returned or thrown. -/
def Ended : Prop := ∃ out, run.rest = .ofExcept out

/-- The checkpoint knows of the header: the flag is saved for a file with text.  A run that
came to its end, with no failure but of an append, leaves it so. -/
def Restartable : Prop :=
  (run.Ended ∧ CsvExport.Calm run.others) ∨
    (run.file ≠ [] → run.savedFlag E run.current = true)

variable {E run}

/-- One run: from a headed file and a checkpoint that knows of it to such a file and, where it can
be restarted, such a checkpoint. -/
theorem IsRegular.headed (h : run.IsRegular E)
    (hheaded : HeadedOnce (headerLines E.options) (run.start.user.1.file.getD []))
    (hsaved : run.start.user.1.file.getD [] ≠ [] → run.savedFlag E run.start = true) :
    HeadedOnce (headerLines E.options) run.file ∧
      (run.Restartable E → run.file ≠ [] → run.savedFlag E run.current = true) := by
  have hstep : ChunkStepExecutor.ResolvesWriter
      (E.headerStep run.step run.context.stepExecutionId (CsvExport.Calm run.others))
      run.step run.context := ⟨rfl, rfl, h.fits.provider, h.fits.method⟩
  have hstart : (E.headerState run.context.stepExecutionId run.start).Saved := fun htext =>
    hsaved ((CsvExport.text_iff _ _).mp htext)
  obtain ⟨g, ⟨hheaded', rfl⟩, hrest⟩ := Prog.reaches_simulate
    (CsvExport.follows h.fits run.context.stepExecutionId) h.reaches
    (ChunkStepExecutor.execute_flags hstep run.fuel hstart) ⟨hheaded, rfl⟩
  refine ⟨hheaded', ?_⟩
  intro hcase htext
  rcases hcase with ⟨⟨out, hout⟩, hcalm⟩ | hknown
  · change Prog.wp _ run.rest _ _ at hrest
    rw [hout, Prog.wp_ofExcept] at hrest
    exact hrest hcalm ((CsvExport.text_iff _ _).mpr htext)
  · exact hknown htext

end CsvRun

/-- A run with those it was restarted from, newest first.  The first began without a text; every
other one finds the file, and a copy of the flag in the checkpoint, as the one before left them. -/
inductive CsvLineage (E : CsvExport α) : CsvRun α υ → List (CsvRun α υ) → Prop
  | fresh {run : CsvRun α υ} (hrun : run.IsRegular E)
      (hempty : run.start.user.1.file.getD [] = []) : CsvLineage E run []
  | restarted {run previous : CsvRun α υ} {earlier : List (CsvRun α υ)}
      (hprevious : CsvLineage E previous earlier) (hsafe : previous.Restartable E)
      (hrun : run.IsRegular E) (hfile : run.start.user.1.file.getD [] = previous.file)
      (hcopy : run.savedFlag E run.start = previous.savedFlag E previous.current) :
      CsvLineage E run (previous :: earlier)

/-- **The header is written exactly once**: wherever a run is cut off, and however often it was
restarted, a file with text starts with the lines of the header and has them nowhere else. -/
theorem csv_header_written_once {E : CsvExport α} {run : CsvRun α υ}
    {earlier : List (CsvRun α υ)} (h : CsvLineage E run earlier) :
    HeadedOnce (headerLines E.options) run.file := by
  have hboth : HeadedOnce (headerLines E.options) run.file ∧
      (run.Restartable E → run.file ≠ [] → run.savedFlag E run.current = true) := by
    induction h with
    | fresh hrun hempty => exact hrun.headed (Or.inl hempty) fun htext => absurd hempty htext
    | restarted _ hsafe hrun hfile hcopy ih =>
        refine hrun.headed (hfile ▸ ih.1) fun htext => ?_
        rw [hcopy]
        exact ih.2 hsafe (hfile ▸ htext)
  exact hboth.1

/-! ### An export of numbers -/

/-- A file with one column. -/
def numberExport : CsvExport Nat where
  writerHandle := 1
  options := { path := "ids.csv", headers := [JsString.units "id"] }
  writesHeader := rfl
  row n := JsMap.empty.set (JsString.units "id") [0x30 + UInt16.ofNat n]

/-- A list of items to read, and the number of appends so far; the lambda of the writer makes a
stream. -/
def exportOthers (items : List Nat) : Environment Nat (Nat × Nat) where
  user
    | .invoke fn, s, _ => (.ok { target := fn, isFunction := fn != 1, isStream := fn == 1 }, s, [])
    | call, s, ctx =>
        let (answer, pos, saves) := (willing items).user call s.1 ctx
        (answer, (pos, s.2), saves)
  broker _ s := (.ok "queued", s)

/-- The first append fails. -/
def failsFirst (_ : JsString) (s : Nat × Nat) : Option Thrown × (Nat × Nat) :=
  (if s.2 = 0 then some (.error "EIO: i/o error, write") else none, (s.1, s.2 + 1))

def exportStep (retry : Option RetryPolicyConfig) : ChunkStepDefinition :=
  { ChunkStepExecutor.plainStep 2 none none with retryPolicy := retry }

def exportContext (sid : String) : ChunkExecutionContext :=
  { ChunkStepExecutor.plainContext with stepExecutionId := sid }

/-- The listed numbers fit every step of the export. -/
theorem exportOthers_fits (items : List Nat) (retry : Option RetryPolicyConfig) (sid : String) :
    numberExport.Fits (exportOthers items) (exportStep retry) (exportContext sid) where
  lambda fn user saved c hfn h := by
    cases hfn
    cases h
    rfl
  provider c h := by cases h
  method fn h := by cases h
  opens stream ctx user saved ctx' h := by
    cases h
    rfl
  updates stream ctx user saved ctx' h := by
    cases h
    rfl
  saves call user saved data h := by
    cases call <;> cases h

/-- The listed numbers write calmly. -/
theorem exportOthers_calm (items : List Nat) : CsvExport.Calm (exportOthers items) where
  listener fn args user saved := rfl
  update stream ctx user saved err h := by cases h

/-- An export, run to its end. -/
def exportOutcome (items : List Nat) (retry : Option RetryPolicyConfig) (sid : String)
    (start : World (CsvState × (Nat × Nat))) :
    Prog.Outcome Thrown StepResult × World (CsvState × (Nat × Nat)) :=
  (ChunkStepExecutor.execute 4 (exportStep retry) (exportContext sid)).run
    (handle (numberExport.environment failsFirst (exportOthers items))) start

/-- The run of it that answers `result`. -/
def exportRun (items : List Nat) (retry : Option RetryPolicyConfig) (sid : String)
    (start : World (CsvState × (Nat × Nat))) (result : StepResult) : CsvRun Nat (Nat × Nat) :=
  { appendFile := failsFirst, others := exportOthers items, step := exportStep retry
    context := exportContext sid, fuel := 4, start := start, rest := .ofExcept (.ok result)
    current := (exportOutcome items retry sid start).2 }

/-- A run that meets the regular calls is a regular one. -/
theorem exportRun_isRegular {items : List Nat} {retry : Option RetryPolicyConfig} {sid : String}
    {start : World (CsvState × (Nat × Nat))} {result : StepResult}
    (hmeets : Prog.runMeets (handle (numberExport.environment failsFirst (exportOthers items)))
      numberExport.Regular (ChunkStepExecutor.execute 4 (exportStep retry) (exportContext sid))
      start = true)
    (hresult : (exportOutcome items retry sid start).1 = .returned result) :
    (exportRun items retry sid start result).IsRegular numberExport := by
  have hended : (exportOutcome items retry sid start).1 = .ended (.ok result) := hresult
  exact ⟨exportOthers_fits items retry sid, Prog.reaches_of_runMeets hmeets hended⟩

/-- Three numbers and no policy, so that the first append ends the run. -/
def brokenExport : CsvRun Nat (Nat × Nat) :=
  exportRun [1, 2, 3] none "s1" (.initial (unaryIds 'r') (unaryIds 'u') ({}, (0, 0)))
    { status := .FAILED, exitCode := "FAILED", exitMessage := "EIO: i/o error, write"
      readCount := 2, writeCount := 0, skipCount := 0, commitCount := some 0 }

/-- The restart of it, on a copy of its step context. -/
def resumedExport : CsvRun Nat (Nat × Nat) :=
  exportRun [1, 2, 3] none "s2"
    { brokenExport.current with
      repo := brokenExport.current.repo.saveExecutionContext (.stepExecutionId "s2")
        (brokenExport.current.repo.getExecutionContext (.stepExecutionId "s1"))
      user := ({ file := brokenExport.current.user.1.file }, (0, 1)) }
    { status := .COMPLETED, exitCode := "COMPLETED", exitMessage := ""
      readCount := 3, writeCount := 3, skipCount := 0, commitCount := some 2 }

/-- The resumed export has its header once. -/
theorem csv_header_written_once_resumed :
    resumedExport.file = JsString.units "id\n1\n2\n3\n" ∧
      HeadedOnce (headerLines numberExport.options) resumedExport.file := by
  have hbroken : CsvLineage numberExport brokenExport [] :=
    .fresh (exportRun_isRegular (by decide +kernel) (by decide +kernel)) rfl
  have hresumed : CsvLineage numberExport resumedExport [brokenExport] :=
    .restarted hbroken (Or.inl ⟨⟨.ok _, rfl⟩, exportOthers_calm _⟩)
      (exportRun_isRegular (by decide +kernel) (by decide +kernel)) rfl (by decide +kernel)
  exact ⟨by decide +kernel, csv_header_written_once hresumed⟩

/-- **A retried append loses the header**: three retries are allowed, the first append fails, and
the batch is written without the header by the second. -/
theorem retried_append_loses_header :
    let start : World (CsvState × (Nat × Nat)) :=
      .initial (unaryIds 'r') (unaryIds 'u') ({}, (0, 0))
    let retry := some (ChunkStepExecutor.retryErrors 3)
    let ended := exportOutcome [1, 2] retry "s1" start
    numberExport.Fits (exportOthers [1, 2]) (exportStep retry) (exportContext "s1") ∧
      CsvExport.Calm (exportOthers [1, 2]) ∧ start.user.1.file = none ∧
      ended.1 = .returned { status := .COMPLETED, exitCode := "COMPLETED", exitMessage := ""
                            readCount := 2, writeCount := 2, skipCount := 0
                            commitCount := some 1 } ∧
      ended.2.user.1.file = some (JsString.units "1\n2\n") ∧
      ¬ HeadedOnce (headerLines numberExport.options) (ended.2.user.1.file.getD []) := by
  intro start retry ended
  have hfile : ended.2.user.1.file = some (JsString.units "1\n2\n") := by decide +kernel
  refine ⟨exportOthers_fits _ _ _, exportOthers_calm _, rfl, by decide +kernel, hfile, ?_⟩
  have hrows : JsString.units "1\n2\n" = JsString.toWellFormed (terminated
      (([1, 2].map numberExport.row).map (rowLine numberExport.options))) := by decide +kernel
  rw [hfile, Option.getD_some, hrows]
  exact not_headedOnce_rows (List.cons_ne_nil _ _) (by decide +kernel)

end NestBatch
