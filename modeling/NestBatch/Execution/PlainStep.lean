import NestBatch.Lib.CallScript
import NestBatch.Execution.ListEnvironment
import NestBatch.Execution.LoopRules

/-!
# A plain step over a script

A reader that answers as a script says, a writer that takes everything, no
processor and no listener: nothing but the chunk loop decides how such a step
ends.  What the loop can do is shown here of runs that really come to their end.
-/

namespace NestBatch

variable {α : Type}

/-- A call of the reader. -/
def readsMade : (o : Op α) → o.Resp → Nat
  | .user (.read _ _), _ => 1
  | _, _ => 0

theorem readsMade_of_kind {o : Op α} (h : o.kind ≠ .read) (r : o.Resp) : readsMade o r = 0 := by
  cases o with
  | user call =>
      cases call with
      | read => exact absurd rfl h
      | _ => rfl
  | _ => rfl

/-- A reader that answers as the script says; its state is the number of calls so far. -/
def scriptedReading (script : CallScript Thrown α) : Environment α Nat where
  user
    | .read _ _, pos, _ => (script pos, pos + 1, [])
    | call, pos, ctx => (willing []).user call pos ctx
  broker _ pos := (.ok "queued", pos)

/-- How it answers, behind the calls made so far. -/
def ScriptedAnswer (script : CallScript Thrown α) (calls : Calls α) : (o : Op α) → o.Resp → Prop
  | .user (.read _ _), r => r = script (tally readsMade calls)
  | .user (.invoke fn), r => r = .ok { target := fn, isFunction := true }
  | .user (.write _ _ _), r => r = .ok none
  | .user call, r => call.Succeeds r
  | _, _ => True

/-- The rules of a reader that is answered by a script. -/
def scriptRules (script : CallScript Thrown α) : CallRules α := { allowed := ScriptedAnswer script }

/-- A call of the scripted reader is answered by the script and moves it on. -/
theorem scriptedReading_user {script : CallScript Thrown α} (call : UserCall α) {w : World Nat}
    {calls : Calls α} (hpos : w.user = tally readsMade calls) :
    ScriptedAnswer script calls (.user call) (handleUser (scriptedReading script) call w).1 ∧
      (handleUser (scriptedReading script) call w).2.user = tally readsMade
        (calls ++ [⟨.user call, (handleUser (scriptedReading script) call w).1⟩]) := by
  obtain ⟨ctx, hanswer, huser⟩ := handleUser_env (scriptedReading script) call w
  have hwilling := willing_succeeds ([] : List α) call w.user ctx
  have hallowed : ScriptedAnswer script calls (.user call)
      ((scriptedReading script).user call w.user ctx).1 := by
    cases call with
    | read reader itemContext => exact congrArg script hpos
    | invoke fn => exact rfl
    | write writer items itemContext => exact rfl
    | _ => exact hwilling
  rw [← hanswer] at hallowed
  refine ⟨hallowed, huser.trans (Eq.trans ?_ (tally_snoc readsMade calls (.user call) _).symm)⟩
  cases call with
  | read reader itemContext => exact congrArg (· + 1) hpos
  | _ => exact hpos

/-- The scripted reader answers as its script says. -/
theorem scriptedReading_answers (script : CallScript Thrown α) :
    AnswersAs (scriptedReading script) (scriptRules script)
      (fun w calls => w.user = tally readsMade calls ∧ (scriptRules script).Fair calls) := by
  have hanswers : ∀ (o : Op α) w calls, w.user = tally readsMade calls →
      ScriptedAnswer script calls o (handle (scriptedReading script) o w).1 ∧
        (handle (scriptedReading script) o w).2.user =
          tally readsMade (calls ++ [⟨o, (handle (scriptedReading script) o w).1⟩]) := by
    intro o w calls hpos
    cases o with
    | user call => exact scriptedReading_user call hpos
    | enqueue payload => exact ⟨trivial, hpos.trans (tally_snoc_zero rfl).symm⟩
    | _ => exact ⟨trivial, hpos.trans (tally_snoc_zero rfl).symm⟩
  intro o w calls hrel
  obtain ⟨hallowed, hpos⟩ := hanswers o w calls hrel.1
  exact ⟨hallowed, hpos, hrel.2.snoc hallowed⟩

/-- Every run over the script answers so. -/
theorem scripted_of_returns {script : CallScript Thrown α} {fuel : Nat} {step : ChunkStepDefinition}
    {context : ChunkExecutionContext} {w : World Nat} {result : StepResult} {calls : Calls α}
    (hw : w.user = 0) (h : ChunkStepExecutor.Returns (scriptedReading script) fuel step context w
      result calls) : (scriptRules script).Fair calls := by
  obtain ⟨w', hrun⟩ := h
  have hstart : w.user = tally readsMade ([] : Calls α) ∧ (scriptRules script).Fair [] :=
    ⟨hw, throughout_nil⟩
  have hended := Prog.wp_run ((scriptedReading_answers script).wp
    (ChunkStepExecutor.execute fuel step context) hstart)
  rw [hrun] at hended
  exact hended.2

/-- What succeeds throws nothing. -/
theorem UserCall.Succeeds.thrown {call : UserCall α} {r : call.Resp} (h : call.Succeeds r) :
    call.thrown r = none := by
  cases call with
  | process processor item ctx =>
      have hr : r = Except.ok (some item) := h
      rw [hr]
      rfl
  | closeStream stream =>
      have hr : r = Except.ok () := h
      rw [hr]
      rfl
  | listener fn key args =>
      have hr : r = Except.ok () := h
      rw [hr]
      rfl
  | afterStep fn ctx result =>
      have hr : r = (Except.ok (), result) := h
      rw [hr]
      rfl
  | lengthOf items => rfl
  | _ =>
      obtain ⟨value, hr⟩ := h
      rw [hr]
      rfl

/-- Nobody but the reader throws anything. -/
theorem throwing_of_scripted {script : CallScript Thrown α} {calls : Calls α} {o : Op α}
    {r : o.Resp} (h : ScriptedAnswer script calls o r) : Throwing (fun _ => False) o r := by
  cases o with
  | user call =>
      intro hkind err hthrown
      have hsucceeds : call.Succeeds r := by
        cases call with
        | read => exact absurd (by simp [phaseKinds, UserCall.kind]) hkind
        | write => exact absurd (by simp [phaseKinds, UserCall.kind]) hkind
        | invoke fn => exact ⟨_, h⟩
        | _ => exact h
      rw [hsucceeds.thrown] at hthrown
      cases hthrown
  | _ => trivial

namespace ChunkStepExecutor

/-- A step with no processor that makes its reader and its writer itself; as a partition it has the
given range. -/
def plainStep (size : Nat) (range : Option (Int × Int)) (skip : Option SkipPolicyConfig) :
    ChunkStepDefinition :=
  { id := "plain", chunkSize := size, reader := { kind := .BuilderLambda, fn := some 0 }
    writer := { kind := .BuilderLambda, fn := some 1 }, skipPolicy := skip
    partitions := some { count := 1, range := range.map fun r _ _ => .ok r } }

/-- One of one partition. -/
def plainContext : ChunkExecutionContext :=
  { jobExecutionId := "e", stepExecutionId := "s1", partitionIndex := some 0
    partitionCount := some 1 }

def plainSetting (size : Nat) (range : Option (Int × Int)) (skip : Option SkipPolicyConfig) :
    Setting where
  step := plainStep size range skip
  context := plainContext
  policies := { skip := skip, retry := none, skipLimit := (skip.map (·.limit)).getD 0,
                retryLimit := 0 }
  partition := range
  reader := { target := 0, isStream := false }
  processor := none
  writer := { target := 1, isStream := false }

/-- A plain step that is split in any way. -/
def splitStep (size : Nat) (partitions : Option ChunkPartitionConfig)
    (skip : Option SkipPolicyConfig) : ChunkStepDefinition :=
  { plainStep size none skip with partitions := partitions }

/-- One of its partitions. -/
def splitContext (index count : Int) : ChunkExecutionContext :=
  { plainContext with partitionIndex := some index, partitionCount := some count }

def splitSetting (size : Nat) (partitions : Option ChunkPartitionConfig)
    (range : Option (Int × Int)) (skip : Option SkipPolicyConfig) (index count : Int) : Setting :=
  { plainSetting size range skip with
    step := splitStep size partitions skip
    context := splitContext index count }

section Plain

variable {size : Nat} {partitions : Option ChunkPartitionConfig} {range : Option (Int × Int)}
  {skip : Option SkipPolicyConfig} {index count : Int}

/-- A split step compiles to the policies of a plain one. -/
theorem compile_splitStep (hskip : ∀ config, skip = some config → 0 < config.limit) :
    Policies.compile (splitStep size partitions skip) =
      .ok (plainSetting size range skip).policies := by
  cases skip with
  | none => rfl
  | some config =>
      have hcompiled : compileSkipPolicy config = .ok config := by
        unfold compileSkipPolicy
        exact if_neg (Int.not_le.mpr (hskip config rfl))
      change (Except.bind (Option.mapM compileSkipPolicy (some config)) fun skip => _) = _
      rw [Option.mapM_some, hcompiled]
      rfl

/-- A plain step resolves to its own range. -/
theorem resolveRange_plainStep
    (hrange : ∀ from_ to_, range = some (from_, to_) → 0 ≤ from_ ∧ from_ ≤ to_) :
    resolveRange (plainStep size range skip) plainContext = .ok range := by
  cases range with
  | none => rfl
  | some r =>
      obtain ⟨from_, to_⟩ := r
      obtain ⟨hfrom, hto⟩ := hrange from_ to_ rfl
      change (if from_ < 0 ∨ to_ < from_ then _ else pure (some (from_, to_))) = _
      exact if_neg fun h => h.elim (Int.not_lt.mpr hfrom) (Int.not_lt.mpr hto)

/-- Nothing but the preparation of a step has been called. -/
def Preparing (calls : Calls α) : Prop := ∀ c ∈ calls, c.1.kind ∈ prepareKinds

theorem Preparing.snoc {calls : Calls α} (h : Preparing calls) {o : Op α} (r : o.Resp)
    (ho : o.kind ∈ prepareKinds) : Preparing (calls ++ [⟨o, r⟩]) := by
  intro c hc
  rcases List.mem_append.mp hc with hold | hlast
  · exact h c hold
  · rw [List.mem_singleton.mp hlast]
    exact ho

variable {script : CallScript Thrown α} {calls : Calls α}

/-- A lambda makes a function, which is taken as it is. -/
theorem wp_lambda_plain (fn : Handle) (h : Preparing calls) :
    (orThrow (request (.user (.invoke fn))) >>= fun result => .pure (fromLambda fn result) :
      Code α ItemHandler).wp (logged (scriptRules script) False)
        (fun out calls' => out = .ok { target := fn, isStream := false } ∧ Preparing calls')
        calls := by
  refine Prog.wp_bind.mpr (wp_orThrow.mpr (wp_call trivial ?_))
  intro r hr
  have hmade : r = Except.ok { target := fn, isFunction := true } := hr
  subst hmade
  exact ⟨rfl, h.snoc _ (by simp [Op.kind, UserCall.kind, prepareKinds])⟩

/-- Preparing a split step gives the plain setting over its partition. -/
theorem wp_prepare_split (h : Preparing calls) :
    Scoped.wp (logged (scriptRules script) False)
      (prepare (splitStep size partitions skip) (splitContext index count)
        (plainSetting size range skip).policies range)
      (fun out l calls' => out = .ok (splitSetting size partitions range skip index count) ∧
        SameCounters {} l ∧ Preparing calls') {} calls := by
  have hprocessor : (resolveProcessorOf (splitStep size partitions skip)
      (splitContext index count) : Code α (Option ItemHandler)) = .pure none := rfl
  unfold prepare
  rw [Scoped.wp_bind, Scoped.wp_lift]
  refine Prog.wp_mono (wp_lambda_plain 0 h) ?_
  intro out calls₁ h₁
  obtain ⟨hreader, h₁⟩ := h₁
  subst hreader
  rw [Scoped.afterwards_ok, Scoped.wp_bind, Scoped.wp_lift, hprocessor, Prog.wp_pure,
    Scoped.afterwards_ok, Scoped.wp_bind, Scoped.wp_lift]
  refine Prog.wp_mono (wp_lambda_plain 1 h₁) ?_
  intro out calls₂ h₂
  obtain ⟨hwriter, h₂⟩ := h₂
  subst hwriter
  rw [Scoped.afterwards_ok, Scoped.wp_bind, Scoped.wp_lift]
  refine wp_call trivial ?_
  intro ctx _
  exact ⟨rfl, ⟨rfl, rfl, rfl, rfl, rfl⟩, h₂.snoc _ (by simp [Op.kind, prepareKinds])⟩

end Plain

/-- What holds at each stage of a plain step, with the iterations to come and the reads made. -/
structure PlainStates (α : Type) where
  holds : Nat → Stage α → Locals → Nat → Prop

namespace PlainStates

variable (P : PlainStates α)

def loop : LoopStates α where
  holds fuel stage l calls := P.holds fuel stage l (tally readsMade calls)
  threw _ _ := False

/-- Behind read number `n`, which does not end the step. -/
def AfterRead (S : Setting) (fuel : Nat) (k : Int) (left : Nat) (items : List α) (l : Locals)
    (n : Nat) : Except Thrown (Option α) → Prop
  | .ok (some item) => P.holds fuel (.reading k left (items ++ [item]))
      { l with readCount := l.readCount + 1 } (n + 1)
  | .ok none => P.holds fuel (.reading k 0 items) l (n + 1)
  | .error err => S.policies.skips err = true ∧ (l.skipCount : Int) + 1 ≤ S.policies.skipLimit ∧
      P.holds fuel (.reading k left items) l.counted (n + 1)

/-- Every read takes the loop from stage to stage, and so does what happens between the reads. -/
structure Sound (S : Setting) (script : CallScript Thrown α) : Prop where
  counters : ∀ fuel stage l l' n, SameCounters l l' → P.holds fuel stage l n →
    P.holds fuel stage l' n
  spin : ∀ l n, ¬ P.holds 0 .head l n
  silent : ∀ fuel stage l fuel' stage' l' n, Silent S fuel stage l fuel' stage' l' →
    P.holds fuel stage l n → P.holds fuel' stage' l' n
  read : ∀ fuel k left items l n, P.holds fuel (.reading k (left + 1) items) l n →
    P.AfterRead S fuel k left items l n (script n)
  write : ∀ fuel k processed l n, processed ≠ [] → P.holds fuel (.processing k [] processed) l n →
    P.holds fuel (.written k processed none) l n
  length : ∀ fuel k processed l n, P.holds fuel (.written k processed none) l n →
    P.holds fuel (.committing k) (l.wrote processed.length 0) n
  drain : ∀ fuel k left drained l n, ¬ P.holds fuel (.draining k left drained) l n

section Rules

variable {P} {S : Setting} {script : CallScript Thrown α}

/-- Reads apart, no call makes a difference. -/
theorem loop_frame {K : List OpKind} (hK : .read ∉ K) (fuel : Nat) (stage : Stage α) (l : Locals) :
    (logged (scriptRules script) False).Frame (On K) (P.loop.holds fuel stage l) := by
  refine logged_frame (fun _ _ _ _ => trivial) ?_
  intro calls o r ho _ h
  change P.holds fuel stage l (tally readsMade _)
  rw [tally_snoc_zero (readsMade_of_kind (fun heq => hK (heq ▸ ho)) r)]
  exact h

/-- Every read is one more in the log. -/
theorem afterRead_loop {S : Setting} {fuel : Nat} {k : Int} {left n : Nat} {items : List α}
    {l : Locals} {r : Except Thrown (Option α)} {calls : Calls α}
    (hcount : tally readsMade calls = n + 1) (h : P.AfterRead S fuel k left items l n r) :
    P.loop.AfterRead S.policies fuel k left items l r calls := by
  match r with
  | .ok none =>
      change P.holds _ _ _ (tally readsMade calls)
      rw [hcount]
      exact h
  | .ok (some item) =>
      change P.holds _ _ _ (tally readsMade calls)
      rw [hcount]
      exact h
  | .error err =>
      obtain ⟨hskips, hroom, hskipped⟩ := h
      intro attempt
      rw [consult_of_skips hskips hroom]
      change P.holds _ _ _ (tally readsMade calls)
      rw [hcount]
      exact hskipped

/-- With no processor and nothing retried, that is all there is to a loop that throws nothing. -/
theorem Sound.loop (hP : P.Sound S script) (hretry : S.policies.retry = none)
    (hprocessor : S.processor = none) :
    P.loop.Sound S (scriptRules script) False fun _ => False where
  throwing _ _ _ hr := throwing_of_scripted hr
  fails _ _ _ _ _ _ h := h
  exhausted _ _ _ _ _ _ hretries := by
    rw [hretry] at hretries
    cases hretries
  quiet fuel stage l := loop_frame (by decide) fuel stage l
  threwQuiet _ := logged_frame (fun _ _ _ _ => trivial) fun _ _ _ _ _ h => h
  onError key _ args J hJ := by
    have hanswers : ∀ fn calls (r : Except Thrown Unit) calls',
        (logged (scriptRules script) False).trans
          (.user (.listener fn key args) : Op α) calls r calls' → r = .ok () :=
      fun fn calls r calls' ht => ht.2
    have hkeeps := wp_invokeMatching_ok (A := fun _ => False) hanswers hJ S.listeners
    intro calls h
    refine Prog.wp_mono (hkeeps calls h) ?_
    intro out calls' hout
    cases out with
    | ok u => exact hout
    | error err => exact hout
  counters _ _ _ _ _ hl h := hP.counters _ _ _ _ _ hl h
  spin _ _ h := hP.spin _ _ h
  silent _ _ _ _ _ _ _ hmove h := hP.silent _ _ _ _ _ _ _ hmove h
  read fuel k left items l calls h := by
    refine ⟨trivial, ?_⟩
    intro r hr
    have hanswer : r = script (tally readsMade calls) := hr
    rw [hanswer]
    exact afterRead_loop (tally_snoc _ _ _ _) (hP.read fuel k left items l _ h)
  process _ _ _ _ _ _ _ _ hprocess := by
    rw [hprocessor] at hprocess
    cases hprocess
  write fuel k processed l calls hprocessed h := by
    refine ⟨trivial, ?_⟩
    intro r hr
    have hanswer : r = Except.ok none := hr
    subst hanswer
    have hcount : tally readsMade (calls ++ [⟨.user (.write S.writer.target processed
        (S.itemContext k)), .ok none⟩]) = tally readsMade calls := tally_snoc_zero rfl
    change P.holds fuel (.written k processed none) _ (tally readsMade _)
    rw [hcount]
    exact hP.write fuel k processed l _ hprocessed h
  length fuel k processed l calls h := by
    refine ⟨trivial, ?_⟩
    intro n hn
    have hlength : n = processed.length := hn
    subst hlength
    have hcount : tally readsMade (calls ++ [⟨.user (.lengthOf processed), processed.length⟩]) =
        tally readsMade calls := tally_snoc_zero rfl
    change P.holds fuel (.committing k) _ (tally readsMade _)
    rw [hcount]
    exact hP.length fuel k processed l _ h
  drain _ _ _ _ _ _ h := absurd h (hP.drain _ _ _ _ _ _)

variable {size : Nat} {partitions : Option ChunkPartitionConfig} {range : Option (Int × Int)}
  {skip : Option SkipPolicyConfig} {index count : Int} {fuel : Nat}

section Split

variable (hP : P.Sound (splitSetting size partitions range skip index count) script)

include hP in
/-- The whole step ends as its loop ends. -/
theorem Sound.wp_execute (hskip : ∀ config, skip = some config → 0 < config.limit)
    (hrange : resolveRange (splitStep size partitions skip) (splitContext index count) = .ok range)
    (hstart : ∀ l, SameCounters {} l → P.holds fuel .head l 0) :
    (execute fuel (splitStep size partitions skip) (splitContext index count) :
      Code α StepResult).wp (logged (scriptRules script) False) (fun out calls => ∃ l fuel',
        out = .ok (l.result .COMPLETED "COMPLETED" "") ∧
          P.holds fuel' .ended l (tally readsMade calls)) [] := by
  have hbody : Scoped.wp (logged (scriptRules script) False)
      (body fuel (splitStep size partitions skip) (splitContext index count)
        (plainSetting size range skip).policies range)
      (fun out _ calls => ∃ l fuel', out = .ok (l.result .COMPLETED "COMPLETED" "") ∧
        P.holds fuel' .ended l (tally readsMade calls)) {} ([] : Calls α) := by
    refine Scoped.wp_seq (wp_prepare_split fun _ h => by cases h) ?_ fun _ _ _ h => by cases h.1
    intro S l₁ calls₁ h₁
    obtain ⟨hS, hl, hpreparing⟩ := h₁
    cases hS
    have hnone : tally readsMade calls₁ = 0 := tally_eq_zero fun c hc =>
      readsMade_of_kind (fun heq => by
        have hkind := hpreparing c hc
        rw [heq] at hkind
        exact absurd hkind (by decide)) c.2
    have hhead : P.loop.holds fuel .head l₁ calls₁ := by
      change P.holds fuel .head l₁ (tally readsMade calls₁)
      rw [hnone]
      exact hstart l₁ hl
    refine Scoped.wp_seq ((hP.loop rfl rfl).wp_chunkLoop fuel hhead) ?_ fun _ _ _ h => h.elim
    intro _ l₂ calls₂ h₂
    obtain ⟨fuel', hended⟩ := h₂
    rw [Scoped.wp_bind, Scoped.wp_get, Scoped.afterwards_ok, Scoped.wp_bind, Scoped.wp_modify,
      Scoped.afterwards_ok]
    refine wp_seq_hook (A := fun _ _ => False) (wp_ends (fun _ _ _ hr => throwing_of_scripted hr)
      (uses_closeStreams (by decide) _) (throwsOnly_closeStreams _)
      (loop_frame (K := closingKinds) (by decide) fuel' .ended l₂) fun _ _ _ h => h) hended ?_
      fun _ _ h => h.elim
    intro _ calls₃ h₃
    exact ⟨l₂, fuel', rfl, h₃⟩
  unfold execute
  rw [compile_splitStep hskip, hrange]
  change Prog.wp _ (body fuel (splitStep size partitions skip) (splitContext index count)
    (plainSetting size range skip).policies range {} >>=
      recover (splitStep size partitions skip) (splitContext index count)) _ _
  refine Prog.wp_seq hbody ?_ fun _ _ h => h.elim
  intro outcome calls' h
  obtain ⟨out, l⟩ := outcome
  obtain ⟨l', fuel', hout, hended⟩ := h
  cases hout
  exact ⟨l', fuel', rfl, hended⟩

include hP in
/-- **A partition of a plain step comes to its end**, with what its loop leaves. -/
theorem Sound.completes_split (hskip : ∀ config, skip = some config → 0 < config.limit)
    (hrange : resolveRange (splitStep size partitions skip) (splitContext index count) = .ok range)
    (hstart : ∀ l, SameCounters {} l → P.holds fuel .head l 0) {w : World Nat} (hw : w.user = 0) :
    ∃ l calls fuel', P.holds fuel' .ended l (tally readsMade calls) ∧
      Returns (scriptedReading script) fuel (splitStep size partitions skip)
        (splitContext index count) w (l.result .COMPLETED "COMPLETED" "") calls := by
  obtain ⟨out, hended, hout⟩ := Prog.wp_run_total (wp_total_of_logged
    (scriptedReading_answers script) (hP.wp_execute hskip hrange hstart) (w := w)
    ⟨hw, throughout_nil⟩)
  obtain ⟨⟨l, fuel', heq, hholds⟩, -⟩ := hout
  rw [heq] at hended
  exact ⟨l, _, fuel', hholds, _, Prod.ext hended rfl⟩

end Split

/-- **A plain step comes to its end**, with what its loop leaves. -/
theorem Sound.completes (hP : P.Sound (plainSetting size range skip) script)
    (hskip : ∀ config, skip = some config → 0 < config.limit)
    (hrange : ∀ from_ to_, range = some (from_, to_) → 0 ≤ from_ ∧ from_ ≤ to_)
    (hstart : ∀ l, SameCounters {} l → P.holds fuel .head l 0) {w : World Nat} (hw : w.user = 0) :
    ∃ l calls fuel', P.holds fuel' .ended l (tally readsMade calls) ∧
      Returns (scriptedReading script) fuel (plainStep size range skip) plainContext w
        (l.result .COMPLETED "COMPLETED" "") calls := by
  have hsplit : P.Sound (splitSetting size (plainStep size range skip).partitions range skip 0 1)
      script := hP
  exact hsplit.completes_split hskip (resolveRange_plainStep hrange) hstart hw

end Rules

end PlainStates

end ChunkStepExecutor

end NestBatch
