import NestBatch.Execution.PlainStep

/-!
# What COMPLETED says of the input

The chunk loop takes a chunk without items for the end of the input.  A chunk all
of whose reads were skipped has no items either, whatever the reader still has.
-/

namespace NestBatch

variable {α υ : Type}

/-- What is counted on: the reader answers as the script says, and a failed step stays failed. -/
def FollowsScript (script : CallScript Thrown α) (calls : Calls α) : (o : Op α) → o.Resp → Prop
  | .user (.read _ _), r => r = script (tally readsMade calls)
  | .user (.afterStep _ _ result), r => result.status = .FAILED → r.2.status = .FAILED
  | _, _ => True

/-- The rules of a reader that follows a script. -/
def followRules (script : CallScript Thrown α) : CallRules α := { allowed := FollowsScript script }

namespace ChunkStepExecutor

open ListenerInvoker

/-- Read `n` is next at a stage of the loop, the input not having ended yet. -/
def Stage.Drawn (script : CallScript Thrown α) (size : Nat) : Stage α → (n : Nat) → Prop
  | .head, n => ∃ j, n = script.start size j ∧ ∀ i < j, script.chunk size i ≠ []
  | .reading _ left items, n => ∃ j, script.InBatch size j left n items ∧
      ∀ i < j, script.chunk size i ≠ []
  | .processing _ _ _, n => ∃ j, n = script.start size j ∧ ∀ i < j, script.chunk size i ≠ []
  | .written _ _ _, n => ∃ j, n = script.start size j ∧ ∀ i < j, script.chunk size i ≠ []
  | .committing _, n => ∃ j, n = script.start size j ∧ ∀ i < j, script.chunk size i ≠ []
  | .draining _ left drained, n => ∃ j items, items.length = drained ∧
      script.InBatch size j left n items ∧ ∀ i < j, script.chunk size i ≠ []
  | .ended, _ => False

/-- The reader has found the end, or every error so far was skipped and paid for. -/
def Drawing (script : CallScript Thrown α) (size : Nat) (limit : Int) (stage : Stage α)
    (skipCount n : Nat) : Prop :=
  script.EndedBefore n ∨ (script.failuresBefore n ≤ skipCount ∧
    (script.failuresBefore n : Int) ≤ limit ∧ stage.Drawn script size n)

/-- The calls of the reader, at every stage. -/
def drawing (script : CallScript Thrown α) (size : Nat) (limit : Int) : LoopStates α where
  holds _ stage l calls := Drawing script size limit stage l.skipCount (tally readsMade calls)
  threw _ _ := True

section Drawing

variable {script : CallScript Thrown α} {size : Nat} {limit : Int} {stage stage' : Stage α}
  {skipCount skipCount' n : Nat}

theorem Drawing.mono (h : Drawing script size limit stage skipCount n)
    (hle : skipCount ≤ skipCount')
    (hstage : stage.Drawn script size n → stage'.Drawn script size n) :
    Drawing script size limit stage' skipCount' n := by
  rcases h with hend | ⟨hcount, hlimit, hdrawn⟩
  · exact Or.inl hend
  · exact Or.inr ⟨by omega, hlimit, hstage hdrawn⟩

/-- A chunk that was read is behind, if it has items. -/
theorem drawn_next {j : Nat} {items : List α} (h : script.InBatch size j 0 n items)
    (hitems : items ≠ []) (hfull : ∀ i < j, script.chunk size i ≠ []) :
    n = script.start size (j + 1) ∧ ∀ i < j + 1, script.chunk size i ≠ [] := by
  obtain ⟨hn, hchunk⟩ := h.done
  refine ⟨hn, ?_⟩
  intro i hi
  by_cases hlast : i = j
  · rw [hlast, hchunk]
    exact hitems
  · exact hfull i (by omega)

/-- Where a chunk without items marks the end, one that was paid for has found it. -/
theorem ended_of_blank (hmarks : script.MarksEnd size limit) {j : Nat}
    (h : script.InBatch size j 0 n []) (hfull : ∀ i < j, script.chunk size i ≠ [])
    (hlimit : (script.failuresBefore n : Int) ≤ limit) : script.EndedBefore n := by
  obtain ⟨hn, hchunk⟩ := h.done
  rcases hmarks j hfull hchunk with hend | hover
  · rw [hn]
    exact hend
  · rw [← hn] at hover
    omega

/-- **Between the calls** the loop only ends where the input has. -/
theorem drawing_silent {S : Setting} (hcap : ∀ n, S.cap n = size) (hlimit : 0 ≤ limit)
    (hmarks : script.MarksEnd size limit) {fuel fuel' : Nat} {l l' : Locals}
    (hmove : Silent S fuel stage l fuel' stage' l')
    (h : Drawing script size limit stage l.skipCount n) :
    Drawing script size limit stage' l'.skipCount n := by
  rcases h with hend | ⟨hcount, hpaid, hdrawn⟩
  · exact Or.inl hend
  · cases hmove with
    | full hzero =>
        rw [hcap] at hzero
        subst hzero
        have hblank : script.chunk 0 0 = [] := rfl
        rcases hmarks 0 (fun _ h => absurd h (Nat.not_lt_zero _)) hblank with hend | hover
        · obtain ⟨m, hm, -⟩ := hend
          exact absurd hm (Nat.not_lt_zero m)
        · exact absurd hover (Int.not_lt.mpr hlimit)
    | start _ _ =>
        obtain ⟨j, hn, hfull⟩ := hdrawn
        subst hn
        rw [hcap]
        exact Or.inr ⟨hcount, hpaid, j, CallScript.inBatch_start size j, hfull⟩
    | blank =>
        obtain ⟨j, hbatch, hfull⟩ := hdrawn
        exact Or.inl (ended_of_blank hmarks hbatch hfull hpaid)
    | process hitems =>
        obtain ⟨j, hbatch, hfull⟩ := hdrawn
        exact Or.inr ⟨hcount, hpaid, j + 1, drawn_next hbatch hitems hfull⟩
    | copy _ => exact Or.inr ⟨hcount, hpaid, hdrawn⟩
    | nothing => exact Or.inr ⟨hcount, hpaid, hdrawn⟩
    | @reported _ l _ _ report =>
        have hle : script.failuresBefore n ≤ l.skipCount + report.skipped := by omega
        exact Or.inr ⟨hle, hpaid, hdrawn⟩
    | commit => exact Or.inr ⟨hcount, hpaid, hdrawn⟩
    | drain _ _ =>
        obtain ⟨j, hn, hfull⟩ := hdrawn
        subst hn
        rw [hcap]
        exact Or.inr ⟨hcount, hpaid, j, [], rfl, CallScript.inBatch_start size j, hfull⟩
    | dry =>
        obtain ⟨j, items, hlength, hbatch, hfull⟩ := hdrawn
        rw [List.eq_nil_of_length_eq_zero hlength] at hbatch
        exact Or.inl (ended_of_blank hmarks hbatch hfull hpaid)
    | drained hdrained =>
        obtain ⟨j, items, hlength, hbatch, hfull⟩ := hdrawn
        have hitems : items ≠ [] := by
          intro hnil
          rw [hnil] at hlength
          exact hdrained hlength.symm
        exact Or.inr ⟨hcount, hpaid, j + 1, drawn_next hbatch hitems hfull⟩

/-- Calls that read nothing leave it alone. -/
theorem drawing_snoc {fuel : Nat} {l : Locals} {calls : Calls α} {o : Op α} {r : o.Resp}
    (h : (drawing script size limit).holds fuel stage l calls) (hnone : readsMade o r = 0) :
    (drawing script size limit).holds fuel stage l (calls ++ [⟨o, r⟩]) := by
  change Drawing script size limit stage l.skipCount (tally readsMade _)
  rw [tally_snoc_zero hnone]
  exact h

/-- A read of a chunk draws the next call of the script. -/
theorem drawing_read {policies : Policies} (hpolicy : policies.skipLimit = limit) {fuel : Nat}
    {k : Int} {left : Nat} {items : List α} {l : Locals} {calls : Calls α}
    (hskipped : ∀ err, script n = .error err → policies.skips err = true)
    (hcount : tally readsMade calls = n + 1)
    (h : Drawing script size limit (.reading k (left + 1) items) l.skipCount n) :
    (drawing script size limit).AfterRead policies fuel k left items l (script n) calls := by
  have hended : script.EndedBefore n → ∀ (stage : Stage α) (l : Locals),
      (drawing script size limit).holds fuel stage l calls := by
    intro hend stage l
    refine Or.inl (hend.mono ?_)
    omega
  cases hr : script n with
  | ok item =>
      cases item with
      | none => exact Or.inl ⟨n, by omega, hr⟩
      | some item =>
          rcases h with hend | ⟨hpast, hpaid, j, hbatch, hfull⟩
          · exact hended hend _ _
          · refine Or.inr ?_
            rw [hcount, CallScript.failuresBefore_ok hr]
            exact ⟨hpast, hpaid, j, hbatch.item hr, hfull⟩
  | error err =>
      intro attempt
      cases hc : consult policies err l.skipCount attempt with
      | skip =>
          rcases h with hend | ⟨hpast, hpaid, j, hbatch, hfull⟩
          · exact hended hend _ _
          · have hroom := (consult_skip hc).2
            refine Or.inr ?_
            rw [hcount, CallScript.failuresBefore_error hr]
            exact ⟨Nat.succ_le_succ hpast, by omega, j, hbatch.failed hr, hfull⟩
      | retry =>
          exact absurd (hskipped err hr) (Bool.eq_false_iff.mp (consult_retry hc).1)
      | fail err' => trivial

/-- A read of the drain does so too. -/
theorem drawing_drain {fuel : Nat} {k : Int} {left drained : Nat} {l : Locals} {calls : Calls α}
    (hcount : tally readsMade calls = n + 1)
    (h : Drawing script size limit (.draining k (left + 1) drained) l.skipCount n) :
    (drawing script size limit).AfterDrain fuel k left drained l (script n) calls := by
  cases hr : script n with
  | ok item =>
      cases item with
      | none => exact Or.inl ⟨n, by omega, hr⟩
      | some item =>
          rcases h with hend | ⟨hpast, hpaid, j, items, hlength, hbatch, hfull⟩
          · refine Or.inl (hend.mono ?_)
            omega
          · refine Or.inr ?_
            rw [hcount, CallScript.failuresBefore_ok hr]
            refine ⟨hpast, hpaid, j, items ++ [item], ?_, hbatch.item hr, hfull⟩
            rw [List.length_append, List.length_singleton, hlength]
  | error err => trivial

end Drawing

/-- Every call of the chunk loop draws the script on. -/
theorem drawing_advances {script : CallScript Thrown α} {S : Setting} {size : Nat} {limit : Int}
    (hcap : ∀ n, S.cap n = size) (hpolicy : S.policies.skipLimit = limit) (hlimit : 0 ≤ limit)
    (hskipped : ∀ n err, script n = .error err → S.policies.skips err = true)
    (hmarks : script.MarksEnd size limit) :
    (drawing script size limit).Advances S (followRules script) True where
  quiet fuel stage l := by
    refine logged_frame (fun _ _ _ _ => trivial) ?_
    intro calls o r ho _ h
    refine drawing_snoc h (readsMade_of_kind ?_ r)
    intro heq
    exact absurd (heq ▸ ho : OpKind.read ∈ LoopStates.quietKinds) (by decide)
  counters _ stage l l' calls hl h := by
    change Drawing script size limit stage l'.skipCount _
    rw [hl.skipCount]
    exact h
  silent _ _ _ _ _ _ _ hmove h := drawing_silent hcap hlimit hmarks hmove h
  read fuel k left items l calls h := by
    refine ⟨trivial, ?_⟩
    intro r hr
    have hanswer : r = script (tally readsMade calls) := hr
    rw [hanswer]
    exact drawing_read hpolicy (hskipped _) (tally_snoc _ _ _ _) h
  process fuel k item rest processed l calls processor _ h := by
    refine ⟨trivial, ?_⟩
    intro r _
    have hstay : Drawing script size limit (.processing k rest processed : Stage α)
        l.counted.skipCount (tally readsMade calls) := Drawing.mono h (Nat.le_succ _) fun h => h
    match r with
    | .ok none => exact drawing_snoc hstay rfl
    | .ok (some value) => exact drawing_snoc h rfl
    | .error err =>
        intro attempt
        cases consult S.policies err l.skipCount attempt with
        | skip => exact drawing_snoc hstay rfl
        | retry => exact drawing_snoc h rfl
        | fail err' => trivial
  write fuel k processed l calls _ h := by
    refine ⟨trivial, ?_⟩
    intro r _
    match r with
    | .ok value =>
        have hkept : (drawing script size limit).holds fuel (.written k processed value) l calls :=
          h
        exact drawing_snoc hkept rfl
    | .error err =>
        intro attempt
        cases consult S.policies err l.skipCount attempt with
        | skip => exact drawing_snoc (Drawing.mono h (Nat.le_succ _) fun h => h) rfl
        | retry => exact drawing_snoc h rfl
        | fail err' => trivial
  length fuel k _ l calls h := by
    have hkept : (drawing script size limit).holds fuel (.committing k) l calls := h
    exact ⟨trivial, fun n _ => drawing_snoc hkept rfl⟩
  drain fuel k left drained l calls h := by
    refine ⟨trivial, ?_⟩
    intro r hr
    have hanswer : r = script (tally readsMade calls) := hr
    rw [hanswer]
    exact drawing_drain (tally_snoc _ _ _ _) h

/-- **A step that does not fail has found the end**, where a chunk without items marks it. -/
theorem execute_drawing {script : CallScript Thrown α} {step : ChunkStepDefinition}
    {context : ChunkExecutionContext} {fuel : Nat}
    (hskipped : ∀ n err, script n = .error err → step.skips err = true)
    (hmarks : script.MarksEnd step.chunkSize ((step.skipPolicy.map (·.limit)).getD 0))
    (hwhole : resolveRange step context = .ok none) :
    (execute fuel step context : Code α StepResult).wp (logged (followRules script) True)
      (EndsWith fun result calls =>
        result.status ≠ .FAILED → script.EndedBefore (tally readsMade calls)) [] := by
  have hframe : ∀ {K : List OpKind}, .read ∉ K → ∀ J : Nat → Prop,
      (logged (followRules script) True).Frame (On K) (fun calls => J (tally readsMade calls)) := by
    intro K hK J
    refine logged_frame (fun _ _ _ _ => trivial) ?_
    intro calls o r ho _ h
    rw [tally_snoc_zero (readsMade_of_kind (fun heq => hK (heq ▸ ho)) r)]
    exact h
  refine wp_execute_result
    (fun result => hframe (by decide) fun n => result.status ≠ .FAILED → script.EndedBefore n) ?_
    (hframe (by decide) (· = 0)) (hframe (by decide) (· = 0)) ?_ ?_ rfl
  · intro fn ctx result calls r calls' ht h hfailed
    have hstays : result.status = .FAILED → r.2.status = .FAILED := ht.2
    exact h fun heq => hfailed (hstays heq)
  · intro l exitMessage calls hnot
    exact absurd rfl hnot
  · intro policies partition S l calls hcompiled hpartition hS hl hnone
    obtain ⟨-, hlimit, hpos⟩ := Policies.compile_fields hcompiled
    have hpartition' : S.partition = none :=
      hS.partition.trans (Except.ok.inj (hpartition.symm.trans hwhole))
    have hcap : ∀ n, S.cap n = step.chunkSize := by
      intro n
      unfold Setting.cap
      rw [hpartition', hS.step]
    have hnonneg : 0 ≤ (step.skipPolicy.map (·.limit)).getD 0 := by
      cases hskip : step.skipPolicy with
      | none => exact Int.le_refl 0
      | some config => exact Int.le_of_lt (hpos config hskip)
    have hskips : ∀ n err, script n = .error err → S.policies.skips err = true := by
      intro n err herr
      rw [hS.policies, Policies.compile_skips hcompiled]
      exact hskipped n err herr
    have hhead : (drawing script step.chunkSize ((step.skipPolicy.map (·.limit)).getD 0)).holds
        fuel .head l calls := by
      refine Or.inr ?_
      rw [hnone]
      exact ⟨Nat.zero_le _, hnonneg, 0, rfl, fun i hi => absurd hi (Nat.not_lt_zero i)⟩
    have hpolicy : S.policies.skipLimit = (step.skipPolicy.map (·.limit)).getD 0 := by
      rw [hS.policies]
      exact hlimit
    have hsound := (drawing_advances hcap hpolicy hnonneg hskips hmarks).sound (fun _ _ => trivial)
      fun _ _ _ => trivial
    refine Scoped.wp_mono (hsound.wp_chunkLoop fuel hhead) ?_
    intro out l' calls' hout hok _
    subst hok
    obtain ⟨_, hend | ⟨-, -, hdrawn⟩⟩ := hout
    · exact hend
    · exact hdrawn.elim

/-! ### Up to the first chunk without items -/

/-- On the way to chunk `k`, with the iterations still to come and read `n` next. -/
def Stage.Approaching (script : CallScript Thrown α) (size k : Nat) :
    Stage α → (fuel n : Nat) → Prop
  | .head, fuel, n => ∃ j ≤ k, n = script.start size j ∧ k < fuel + j
  | .reading _ left items, fuel, n => ∃ j ≤ k, script.InBatch size j left n items ∧ k ≤ fuel + j
  | .processing _ _ _, fuel, n => ∃ j < k, n = script.start size (j + 1) ∧ k ≤ fuel + j
  | .written _ _ value, fuel, n =>
      value = none ∧ ∃ j < k, n = script.start size (j + 1) ∧ k ≤ fuel + j
  | .committing _, fuel, n => ∃ j < k, n = script.start size (j + 1) ∧ k ≤ fuel + j
  | .draining _ _ _, _, _ => False
  | .ended, _, n => n = script.start size (k + 1)

/-- Every error is skipped on the way there. -/
def approaching (script : CallScript Thrown α) (size k : Nat) : PlainStates α where
  holds fuel stage l n := l.skipCount = script.failuresBefore n ∧
    stage.Approaching script size k fuel n

section Approaching

variable {script : CallScript Thrown α} {size k : Nat} {skip : Option SkipPolicyConfig}

/-- The chunk at hand is the blank one, or comes before it. -/
theorem approaching_silent (hfull : ∀ j < k, script.chunk size j ≠ [])
    (hblank : script.chunk size k = []) {fuel fuel' n : Nat} {stage stage' : Stage α}
    {l l' : Locals} (hmove : Silent (plainSetting size none skip) fuel stage l fuel' stage' l')
    (h : stage.Approaching script size k fuel n) : stage'.Approaching script size k fuel' n := by
  cases hmove with
  | full hzero =>
      obtain ⟨j, -, hn, -⟩ := h
      have hsize : size = 0 := hzero
      subst hsize
      rw [CallScript.start_zero] at hn
      exact hn.trans (CallScript.start_zero (k + 1)).symm
  | start _ _ =>
      obtain ⟨j, hj, hn, hfuel⟩ := h
      subst hn
      exact ⟨j, hj, CallScript.inBatch_start size j, by omega⟩
  | blank =>
      obtain ⟨j, hj, hbatch, -⟩ := h
      obtain ⟨hn, hchunk⟩ := hbatch.done
      by_cases hlast : j = k
      · rw [hlast] at hn
        exact hn
      · exact absurd hchunk (hfull j (by omega))
  | process hitems =>
      obtain ⟨j, hj, hbatch, hfuel⟩ := h
      obtain ⟨hn, hchunk⟩ := hbatch.done
      have hbefore : j ≠ k := by
        intro heq
        rw [heq] at hchunk
        exact hitems (hchunk.symm.trans hblank)
      exact ⟨j, by omega, hn, hfuel⟩
  | copy _ => exact h
  | nothing => exact h
  | reported => cases h.1
  | commit =>
      obtain ⟨j, hj, hn, hfuel⟩ := h
      exact ⟨j + 1, hj, hn, by omega⟩
  | drain hdrain _ => cases hdrain
  | dry => exact h.elim
  | drained _ => exact h.elim

/-- An approach to a blank chunk is sound. -/
theorem approaching_sound (hfull : ∀ j < k, script.chunk size j ≠ [])
    (hblank : script.chunk size k = []) (hmore : ¬ script.EndedBefore (script.start size (k + 1)))
    (hpaid : (script.failuresBefore (script.start size (k + 1)) : Int) ≤
      (skip.map (·.limit)).getD 0)
    (hskipped : ∀ n err, script n = .error err →
      (plainSetting size none skip).policies.skips err = true) :
    (approaching script size k).Sound (plainSetting size none skip) script where
  counters _ _ _ _ _ hl h := ⟨hl.skipCount.trans h.1, h.2⟩
  spin l n h := by
    obtain ⟨-, j, hj, -, hfuel⟩ := h
    omega
  silent fuel stage l fuel' stage' l' n hmove h := by
    refine ⟨?_, approaching_silent hfull hblank hmove h.2⟩
    have hcount := h.1
    cases hmove with
    | reported => cases h.2.1
    | _ => exact hcount
  read fuel k' left items l n h := by
    obtain ⟨hcount, j, hj, hbatch, hfuel⟩ := h
    have hlast : n < script.start size (k + 1) :=
      Nat.lt_of_lt_of_le hbatch.lt (CallScript.start_le size (by omega))
    cases hr : script n with
    | ok item =>
        cases item with
        | none => exact absurd ⟨n, hlast, hr⟩ hmore
        | some item =>
            have hsame := CallScript.failuresBefore_ok hr
            exact ⟨hcount.trans hsame.symm, j, hj, hbatch.item hr, hfuel⟩
    | error err =>
        have hnext := CallScript.failuresBefore_error hr
        have hroom : script.failuresBefore (n + 1) ≤
            script.failuresBefore (script.start size (k + 1)) :=
          CallScript.failuresBefore_mono hlast
        refine ⟨hskipped n err hr, ?_, ?_, j, hj, hbatch.failed hr, hfuel⟩
        · change (l.skipCount : Int) + 1 ≤ (skip.map (·.limit)).getD 0
          omega
        · rw [hnext]
          exact congrArg (· + 1) hcount
  write _ _ _ _ _ _ h := ⟨h.1, rfl, h.2⟩
  length _ _ _ _ _ h := ⟨h.1, h.2.2⟩
  drain _ _ _ _ _ _ h := h.2

end Approaching

end ChunkStepExecutor

/-- A completed step with this chunk size and skip policy, run as a whole, owes nothing to a reader
that answers as the script says: the reader has said that it has no more, and has not. -/
def ExhaustsInput (script : CallScript Thrown α) (size : Nat) (skip : Option SkipPolicyConfig) :
    Prop :=
  ∀ (υ : Type) (env : Environment α υ) (fuel : Nat) (step : ChunkStepDefinition)
    (context : ChunkExecutionContext) (w : World υ) (result : StepResult) (calls : Calls α),
    step.chunkSize = size → step.skipPolicy = skip →
      ChunkStepExecutor.resolveRange step context = .ok none →
      ChunkStepExecutor.Returns env fuel step context w result calls →
      (followRules script).Fair calls → result.status = .COMPLETED →
        script.EndedBefore (tally readsMade calls) ∧
          ∀ n, tally readsMade calls ≤ n → script n = .ok none

/-- A scripted answer follows the script. -/
theorem follows_of_scripted {script : CallScript Thrown α} {calls : Calls α} {o : Op α}
    {r : o.Resp} (h : ScriptedAnswer script calls o r) : FollowsScript script calls o r := by
  cases o with
  | user call =>
      cases call with
      | read reader ctx => exact h
      | afterStep fn ctx result =>
          have hr : r = (Except.ok (), result) := h
          rw [hr]
          exact fun hfailed => hfailed
      | _ => trivial
  | _ => trivial

/-- **When COMPLETED means that the input was exhausted**: for a reader whose errors are all covered
by the skip policy and that stays at its end, exactly where no chunk is filled with errors that the
limit allows. -/
theorem completed_exhausts_input_iff {script : CallScript Thrown α} {size : Nat}
    {skip : Option SkipPolicyConfig} (hlimit : ∀ config, skip = some config → 0 < config.limit)
    (hcovered : ∀ n err, script n = .error err →
      ∃ config, skip = some config ∧ shouldSkip config err 0 config.limit = .ok true)
    (hfinal : ∀ m n, m ≤ n → script m = .ok none → script n = .ok none) :
    ExhaustsInput script size skip ↔ script.MarksEnd size ((skip.map (·.limit)).getD 0) := by
  constructor
  · intro hexhausts k hfull hblank
    by_contra hneither
    rw [not_or, Int.not_lt] at hneither
    have hskips : ∀ n err, script n = .error err →
        (ChunkStepExecutor.plainSetting size none skip).policies.skips err = true := by
      intro n err herr
      obtain ⟨config, hskip, hcovers⟩ := hcovered n err herr
      subst hskip
      exact decide_eq_true hcovers
    have hsound := ChunkStepExecutor.approaching_sound hfull hblank hneither.1 hneither.2 hskips
    have hw : (World.initial (unaryIds 'r') (unaryIds 'u') 0).user = 0 := rfl
    have hstart : ∀ l, ChunkStepExecutor.SameCounters {} l →
        (ChunkStepExecutor.approaching script size k).holds (k + 1) .head l 0 :=
      fun l hl => ⟨hl.skipCount, 0, Nat.zero_le k, rfl, Nat.lt_succ_self k⟩
    obtain ⟨l, calls, fuel', hended, hreturns⟩ :=
      hsound.completes hlimit (fun _ _ h => by cases h) hstart hw
    have hfair := scripted_of_returns hw hreturns
    have hreads : tally readsMade calls = script.start size (k + 1) := hended.2
    have hend := (hexhausts _ _ _ _ _ _ _ calls rfl rfl rfl hreturns
      (hfair.mono fun _ _ h => follows_of_scripted h) rfl).1
    rw [hreads] at hend
    exact hneither.1 hend
  · intro hmarks υ env fuel step context w result calls hsize hskip hwhole hreturns hfair
      hcompleted
    have hskips : ∀ n err, script n = .error err → step.skips err = true := by
      intro n err herr
      obtain ⟨config, hconfig, hcovers⟩ := hcovered n err herr
      unfold ChunkStepDefinition.skips
      rw [hskip, hconfig]
      exact decide_eq_true hcovers
    rw [← hsize, ← hskip] at hmarks
    have hend := hreturns.of_fair hfair (ChunkStepExecutor.execute_drawing hskips hmarks hwhole)
      (by
        rw [hcompleted]
        exact fun heq => by cases heq)
    refine ⟨hend, ?_⟩
    intro n hn
    obtain ⟨m, hm, hnone⟩ := hend
    exact hfinal m n (by omega) hnone

/-- A reader over rows, some of which can not be read. -/
def rowScript (rows : List (Except Thrown (Option Nat))) : CallScript Thrown Nat :=
  fun n => rows.getD n (.ok none)

def tornRow : Except Thrown (Option Nat) := .error (.error "torn row")

/-- Up to five torn rows are skipped. -/
def tornPolicy : SkipPolicyConfig where
  limit := 5
  skippable := [{ prototypeInstanceofError := true, length := 1
                  hasInstance := fun err => some (err = .error "torn row")
                  call := fun _ => none }]

/-- What can be said of a reader row by row. -/
theorem rowScript_cases {P : Except Thrown (Option Nat) → Prop}
    {rows : List (Except Thrown (Option Nat))} (hrows : ∀ row ∈ rows, P row) (hend : P (.ok none))
    (n : Nat) : P (rowScript rows n) := by
  unfold rowScript
  rw [List.getD_eq_getElem?_getD]
  cases hrow : rows[n]? with
  | none => exact hend
  | some row => exact hrows row (List.mem_of_getElem? hrow)

/-- The policy covers all torn rows. -/
theorem tornPolicy_covers {rows : List (Except Thrown (Option Nat))}
    (hrows : ∀ row ∈ rows, row = tornRow ∨ ∃ answer, row = .ok answer) (n : Nat) (err : Thrown)
    (herr : rowScript rows n = .error err) :
    ∃ config, some tornPolicy = some config ∧ shouldSkip config err 0 config.limit = .ok true := by
  refine ⟨tornPolicy, rfl, ?_⟩
  rcases rowScript_cases hrows (Or.inr ⟨none, rfl⟩) n with htorn | ⟨answer, hok⟩
  · rw [htorn] at herr
    cases herr
    decide
  · rw [hok] at herr
    cases herr

/-- Rows that are all there are followed by the end. -/
theorem rowScript_final {rows : List (Except Thrown (Option Nat))}
    (hrows : ∀ row ∈ rows, row ≠ .ok none) {m n : Nat} (hle : m ≤ n)
    (hend : rowScript rows m = .ok none) : rowScript rows n = .ok none := by
  unfold rowScript at hend ⊢
  rw [List.getD_eq_getElem?_getD] at hend ⊢
  cases hrow : rows[m]? with
  | none =>
      rw [List.getElem?_eq_none_iff] at hrow
      rw [List.getElem?_eq_none (by omega)]
      rfl
  | some row =>
      rw [hrow] at hend
      exact absurd hend (hrows row (List.mem_of_getElem? hrow))

/-- One torn row beside one that is whole. -/
theorem completed_exhausts_input_rows :
    ExhaustsInput (rowScript [.ok (some 10), tornRow]) 2 (some tornPolicy) := by
  have hlimit : ∀ config, some tornPolicy = some config → 0 < config.limit := by
    intro config heq
    cases heq
    decide
  have hcovers : ∀ row ∈ [.ok (some 10), tornRow], row = tornRow ∨ ∃ answer, row = .ok answer := by
    intro row hrow
    simp only [List.mem_cons, List.not_mem_nil, or_false] at hrow
    rcases hrow with hrow | hrow
    · exact Or.inr ⟨_, hrow⟩
    · exact Or.inl hrow
  have hthere : ∀ row ∈ [.ok (some 10), tornRow], row ≠ .ok none := by
    intro row hrow
    simp only [List.mem_cons, List.not_mem_nil, or_false] at hrow
    rcases hrow with hrow | hrow
    · rw [hrow]
      exact fun h => by cases h
    · rw [hrow]
      exact fun h => by cases h
  refine (completed_exhausts_input_iff hlimit (tornPolicy_covers hcovers)
    fun m n hle => rowScript_final hthere hle).mpr ?_
  intro k hfull hblank
  match k with
  | 0 => cases hblank
  | 1 => exact Or.inl ⟨2, by decide, rfl⟩
  | k + 2 => exact absurd rfl (hfull 1 (by omega))

/-- Two torn rows make a chunk without items, and the row behind them is never read. -/
def tornRun : Prog.Outcome Thrown StepResult × World Nat × Calls Nat :=
  Prog.run (handle (scriptedReading (rowScript [tornRow, tornRow, .ok (some 30)]))).traced
    (ChunkStepExecutor.execute 4 (ChunkStepExecutor.plainStep 2 none (some tornPolicy))
      ChunkStepExecutor.plainContext) (.initial (unaryIds 'r') (unaryIds 'u') 0, [])

/-- Two torn rows fill a chunk and end the input early. -/
theorem torn_chunk_ends_input :
    (∀ n err, rowScript [tornRow, tornRow, .ok (some 30)] n = .error err →
      ∃ config, some tornPolicy = some config ∧ shouldSkip config err 0 config.limit = .ok true) ∧
    ¬ ExhaustsInput (rowScript [tornRow, tornRow, .ok (some 30)]) 2 (some tornPolicy) := by
  refine ⟨tornPolicy_covers ?_, ?_⟩
  · intro row hrow
    simp only [List.mem_cons, List.not_mem_nil, or_false] at hrow
    rcases hrow with hrow | hrow | hrow
    · exact Or.inl hrow
    · exact Or.inl hrow
    · exact Or.inr ⟨_, hrow⟩
  · intro hexhausts
    have hrun : tornRun.1 = .returned
        { status := .COMPLETED, exitCode := "COMPLETED", exitMessage := "", readCount := 0
          writeCount := 0, skipCount := 2, commitCount := some 0 } := by decide +kernel
    have hreads : tally readsMade tornRun.2.2 = 2 := by decide +kernel
    have hreturns : ChunkStepExecutor.Returns
        (scriptedReading (rowScript [tornRow, tornRow, .ok (some 30)])) 4
        (ChunkStepExecutor.plainStep 2 none (some tornPolicy)) ChunkStepExecutor.plainContext
        (.initial (unaryIds 'r') (unaryIds 'u') 0) _ tornRun.2.2 := ⟨_, Prod.ext hrun rfl⟩
    have hfair := scripted_of_returns rfl hreturns
    have hend := (hexhausts _ _ _ _ _ _ _ _ rfl rfl rfl hreturns
      (hfair.mono fun _ _ h => follows_of_scripted h) rfl).2 2 (Nat.le_of_eq hreads)
    cases hend

end NestBatch
