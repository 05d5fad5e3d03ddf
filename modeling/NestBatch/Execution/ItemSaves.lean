import NestBatch.Execution.ContextCopy
import NestBatch.Execution.CheckpointSafety
import NestBatch.Lib.SharedDoc

/-!
# What item code saves to the step context

A reader, a processor and a writer may save the context of their step while a
chunk is under way.  The executor is the keeper of the same context: it loads a
copy, and stores the copy at the checkpoint.  The accesses of a run are written
down; they say when the checkpoints keep what the item code has saved.
-/

namespace NestBatch

variable {α υ : Type}

/-- The data persisted for a step execution. -/
def World.stepData (w : World υ) (sid : String) : JsonValue :=
  (w.repo.getExecutionContext (.stepExecutionId sid)).data

/-- The saves of one call, each of them replacing what the one before it left. -/
def savedInTurn : JsonValue → List JsonValue → List (DocAccess JsonValue) →
    List (DocAccess JsonValue)
  | _, [], log => log
  | before, after :: rest, log => savedInTurn after rest (.save before after :: log)

/-- Write down how an operation accesses the context of the step, latest first. -/
def noteAccess (env : Environment α υ) (sid : String) :
    Op α → World υ → List (DocAccess JsonValue) → List (DocAccess JsonValue)
  | .getExecutionContext scope, w, log =>
      if scope = .stepExecutionId sid then .load (w.stepData sid) :: log else log
  | .saveExecutionContext scope ctx, _, log =>
      if scope = .stepExecutionId sid then .store ctx.data :: log else log
  | .user call, w, log =>
      if call.stepScope = some sid then
        savedInTurn (w.stepData sid)
          (env.user call w.user (w.repo.getExecutionContext (.stepExecutionId sid))).2.2 log
      else log
  | _, _, log => log

/-- The meaning of the operations, with the accesses written down. -/
def noted (env : Environment α υ) (sid : String) :
    Prog.Handler (Op α) Op.Resp (World υ × List (DocAccess JsonValue)) :=
  fun o s => ((handle env o s.1).1, (handle env o s.1).2, noteAccess env sid o s.1 s.2)

/-- Item code leaves the reserved keys alone, and the streams all the others. -/
structure Environment.KeepsKeys (env : Environment α υ) (reserved : String → Prop) : Prop where
  saves : ∀ call user ctx data, call.stepScope.isSome → data ∈ (env.user call user ctx).2.2 →
    ∀ key, reserved key → data.key? key = ctx.data.key? key
  opens : ∀ stream user ctx ctx₀,
    HandsOn reserved ctx (env.user (.openStream stream ctx) user ctx₀).1
  updates : ∀ stream user ctx ctx₀,
    HandsOn reserved ctx (env.user (.updateStream stream ctx) user ctx₀).1

/-! ### The log and the repository -/

/-- Saves made by other hands do not change what the owner loaded last. -/
theorem loaded?_savedInTurn (before : JsonValue) (saves : List JsonValue)
    (log : List (DocAccess JsonValue)) :
    DocAccess.loaded? (savedInTurn before saves log) = DocAccess.loaded? log := by
  induction saves generalizing before log with
  | nil => rfl
  | cons after rest ih => exact ih after (.save before after :: log)

/-- After a row of saves to the step's own scope the last one is what the row holds. -/
theorem stepData_saveAll (repo : InMemoryJobRepository) (sid : String) (saves : List JsonValue) :
    ((World.saveAll repo (.stepExecutionId sid) saves).getExecutionContext
      (.stepExecutionId sid)).data =
      saves.getLastD (repo.getExecutionContext (.stepExecutionId sid)).data := by
  induction saves generalizing repo with
  | nil => rfl
  | cons data rest ih =>
      change ((World.saveAll (repo.saveExecutionContext (.stepExecutionId sid)
        { data := data, version := 0 }) _ rest).getExecutionContext _).data = _
      rw [ih, repo.getExecutionContext_save_self, List.getLastD_cons]

/-- Saves to another scope leave the step's context alone. -/
theorem stepData_saveAll_of_ne {sid : String} {scope : ExecutionScope}
    (hne : .stepExecutionId sid ≠ scope) (saves : List JsonValue) (repo : InMemoryJobRepository) :
    (World.saveAll repo scope saves).getExecutionContext (.stepExecutionId sid) =
      repo.getExecutionContext (.stepExecutionId sid) := by
  induction saves generalizing repo with
  | nil => rfl
  | cons data rest ih =>
      change (World.saveAll (repo.saveExecutionContext scope { data := data, version := 0 })
        scope rest).getExecutionContext _ = _
      rw [ih, repo.getExecutionContext_save_of_ne _ hne]

section Played

variable {reserved : String → Prop} {log : List (DocAccess JsonValue)} {before : JsonValue}

/-- Saves that leave the reserved keys alone continue a log. -/
theorem played_savedInTurn {saves : List JsonValue} (ctx : JsonValue)
    (h : DocAccess.Played JsonValue.key? (fun key => ¬ reserved key) log before)
    (hbefore : ∀ key, reserved key → before.key? key = ctx.key? key)
    (hsaves : ∀ data ∈ saves, ∀ key, reserved key → data.key? key = ctx.key? key) :
    DocAccess.Played JsonValue.key? (fun key => ¬ reserved key) (savedInTurn before saves log)
      (saves.getLastD before) := by
  induction saves generalizing before log with
  | nil => exact h
  | cons after rest ih =>
      rw [List.getLastD_cons]
      have hafter := hsaves after List.mem_cons_self
      apply ih
      · apply h.save
        intro key hchanged hreserved
        exact hchanged ((hafter key hreserved).trans (hbefore key hreserved).symm)
      · exact hafter
      · intro data hdata
        exact hsaves data (List.mem_cons_of_mem _ hdata)

end Played

/-- An operation that is no call of item code and no save leaves the data of a step alone. -/
theorem stepData_handle (env : Environment α υ) {o : Op α} {sid : String} {w : World υ}
    (hsave : o.kind ≠ .saveContext)
    (huser : ∀ call, o = .user call → call.stepScope ≠ some sid) :
    (handle env o w).2.stepData sid = w.stepData sid := by
  apply data_handle id hsave
  intro call hcall
  unfold handleUser
  cases hscope : call.stepScope with
  | none => rfl
  | some other =>
      have hne : ExecutionScope.stepExecutionId sid ≠ .stepExecutionId other := by
        intro heq
        cases heq
        exact huser call hcall hscope
      exact congrArg ExecutionContext.data (stepData_saveAll_of_ne hne _ w.repo)

/-- The log tells how the data of the step came about, and what the executor loaded last. -/
structure LogTells (reserved : String → Prop) (sid : String)
    (s : World υ × List (DocAccess JsonValue)) (copy : Option JsonValue) : Prop where
  played : DocAccess.Played JsonValue.key? (fun key => ¬ reserved key) s.2 (s.1.stepData sid)
  loaded : DocAccess.loaded? s.2 = copy

/-- **Refinement.**  The log follows the rules that the executor keeps. -/
theorem logTells_follows {env : Environment α υ} {reserved : String → Prop} (sid : String)
    (hkeeps : env.KeepsKeys reserved) :
    Prog.Follows (copyRules (α := α) reserved sid) (noted env sid).trans
      (LogTells reserved sid) := by
  intro o s r s' copy htells hallowed ht
  obtain ⟨w, log⟩ := s
  cases ht
  have hquiet : o.kind ≠ .saveContext → (∀ call, o = .user call → call.stepScope ≠ some sid) →
      noteAccess env sid o w log = log → loadedBy o (handle env o w).1 copy = copy →
      LogTells reserved sid ((handle env o w).2, noteAccess env sid o w log)
        (loadedBy o (handle env o w).1 copy) := by
    intro hsave huser hlog hcopy
    rw [hlog, hcopy]
    refine ⟨?_, htells.loaded⟩
    have hdata := stepData_handle env (w := w) hsave huser
    rw [hdata]
    exact htells.played
  refine ⟨loadedBy o (handle env o w).1 copy, ⟨?_, rfl⟩, ?_⟩
  · cases o with
    | user call =>
        cases call with
        | openStream stream ctx => exact hkeeps.opens stream _ ctx _
        | updateStream stream ctx => exact hkeeps.updates stream _ ctx _
        | _ => trivial
    | _ => trivial
  · cases o with
    | getExecutionContext scope =>
        have hscope : scope = .stepExecutionId sid := hallowed
        subst hscope
        have hlog : noteAccess env sid (.getExecutionContext (.stepExecutionId sid)) w log =
            .load (w.stepData sid) :: log := if_pos rfl
        rw [hlog]
        exact ⟨htells.played.load, rfl⟩
    | saveExecutionContext scope ctx =>
        obtain ⟨hscope, data, hcopy, hsame⟩ := hallowed
        subst hscope
        have hlog : noteAccess env sid (.saveExecutionContext (.stepExecutionId sid) ctx) w log =
            .store ctx.data :: log := if_pos rfl
        rw [hlog]
        refine ⟨?_, htells.loaded⟩
        have hdata :
            (handle env (.saveExecutionContext (.stepExecutionId sid) ctx : Op α) w).2.stepData
            sid = ctx.data := w.repo.getExecutionContext_save_self _ _
        rw [hdata]
        exact htells.played.store (htells.loaded.trans hcopy) hsame
    | user call =>
        by_cases hscope : call.stepScope = some sid
        · have hlog : noteAccess env sid (.user call) w log = savedInTurn (w.stepData sid)
              (env.user call w.user (w.repo.getExecutionContext (.stepExecutionId sid))).2.2 log :=
            if_pos hscope
          have hdata : (handle env (.user call) w).2.stepData sid =
              (env.user call w.user (w.repo.getExecutionContext
                (.stepExecutionId sid))).2.2.getLastD (w.stepData sid) := by
            change (handleUser env call w).2.stepData sid = _
            unfold handleUser
            rw [hscope]
            exact stepData_saveAll w.repo sid _
          rw [hlog]
          refine ⟨?_, (loaded?_savedInTurn _ _ _).trans htells.loaded⟩
          rw [hdata]
          refine played_savedInTurn (w.stepData sid) htells.played (fun _ _ => rfl) ?_
          intro data hmem
          exact hkeeps.saves call _ _ data (by rw [hscope]; rfl) hmem
        · apply hquiet
          · cases call <;> simp [Op.kind, UserCall.kind]
          · intro call' heq
            cases heq
            exact hscope
          · exact if_neg hscope
          · rfl
    | _ => exact hquiet (by simp [Op.kind]) (fun _ h => by cases h) rfl rfl

/-- **What item code has saved outlives the checkpoints** of a run, wherever the run has come to,
exactly when no checkpoint followed on a save that changed what the executor had loaded. -/
theorem item_saves_survive_iff {reserved : String → Prop} (hreserved : reserved lastChunkIndexKey)
    {env : Environment α υ} (hkeeps : env.KeepsKeys reserved) {fuel : Nat}
    {step : ChunkStepDefinition} {context : ChunkExecutionContext} {w w' : World υ}
    {log : List (DocAccess JsonValue)} {rest : Code α StepResult}
    (hreach : Prog.Reaches (noted env context.stepExecutionId).trans
      (ChunkStepExecutor.execute fuel step context, (w, [])) (rest, (w', log))) :
    (DocAccess.Survived JsonValue.key? log ∧
      ∀ key value, DocAccess.LastSaved JsonValue.key? log key value →
        (w'.stepData context.stepExecutionId).key? key = some value) ↔
      DocAccess.Undisturbed JsonValue.key? log := by
  have hstart : LogTells reserved context.stepExecutionId (w, []) none := ⟨.start _, rfl⟩
  have hrules := ChunkStepExecutor.execute_saves_copy (α := α) hreserved fuel step context none
  obtain ⟨copy, htells, -⟩ := Prog.reaches_simulate
    (logTells_follows context.stepExecutionId hkeeps) hreach hrules hstart
  exact htells.played.survived_iff

/-! ### A writer that keeps a tally -/

/-- The context with the size of the chunk just written under a key of its own. -/
def withWritten (ctx : ExecutionContext) (written : Nat) : JsonValue :=
  match ctx.data with
  | .obj fields => .obj (JsonValue.setField fields "written" (.num written))
  | _ => .obj [("written", .num written)]

/-- A list environment whose writer saves the size of every chunk to the step context. -/
def tallying (items : List Nat) : Environment Nat Nat :=
  { willing items with
    user := fun
      | .write _ chunk _, pos, ctx => (.ok none, pos, [withWritten ctx chunk.length])
      | call, pos, ctx => (willing items).user call pos ctx }

/-- The tallying code writes no key of the framework's. -/
theorem tallying_keepsKeys (items : List Nat) :
    (tallying items).KeepsKeys (· = lastChunkIndexKey) where
  saves call user ctx data hscope hdata key hkey := by
    cases call with
    | write writer chunk itemContext =>
        have heq : data = withWritten ctx chunk.length := List.mem_singleton.mp hdata
        subst heq hkey
        have hne : lastChunkIndexKey ≠ "written" := by decide
        unfold withWritten
        cases ctx.data with
        | obj fields => exact JsonValue.getField_setField_of_ne fields _ hne
        | _ => simp [JsonValue.key?, JsonValue.getField, Ne.symm hne]
    | _ => cases hdata
  opens stream user ctx ctx₀ ctx' hctx := by
    cases hctx
    exact .refl _ _
  updates stream user ctx ctx₀ ctx' hctx := by
    cases hctx
    exact .refl _ _

def tallyContext : ChunkExecutionContext :=
  { jobExecutionId := "e", stepExecutionId := "s1" }

/-- Three items in chunks of two. -/
def tallyRun : Prog.Outcome Thrown StepResult × World Nat × List (DocAccess JsonValue) :=
  (ChunkStepExecutor.execute 4 pairsStep tallyContext).run (noted (tallying [10, 20, 30]) "s1")
    (.initial (unaryIds 'r') (unaryIds 'u') 0, [])

/-- The accesses of the tallying run, in order. -/
theorem tallyRun_log : tallyRun.2.2 =
    [.load (.obj [("lastChunkIndex", .num 1)]), .store (.obj [("lastChunkIndex", .num 1)]),
      .save (.obj [("lastChunkIndex", .num 0)])
        (.obj [("lastChunkIndex", .num 0), ("written", .num 1)]),
      .load (.obj [("lastChunkIndex", .num 0)]), .store (.obj [("lastChunkIndex", .num 0)]),
      .save .null (.obj [("written", .num 2)]), .load .null] := rfl

theorem item_saves_survive_iff_tally :
    (DocAccess.Survived JsonValue.key? tallyRun.2.2 ∧
      ∀ key value, DocAccess.LastSaved JsonValue.key? tallyRun.2.2 key value →
        (tallyRun.2.1.stepData "s1").key? key = some value) ↔
      DocAccess.Undisturbed JsonValue.key? tallyRun.2.2 := by
  have hreach : ∃ rest, Prog.Reaches
      (noted (tallying [10, 20, 30]) tallyContext.stepExecutionId).trans
      (ChunkStepExecutor.execute 4 pairsStep tallyContext,
        (.initial (unaryIds 'r') (unaryIds 'u') 0, []))
      (rest, (tallyRun.2.1, tallyRun.2.2)) := Prog.reaches_run
  obtain ⟨rest, hreach⟩ := hreach
  refine item_saves_survive_iff ?_ (tallying_keepsKeys _) hreach
  rfl

/-- The checkpoint of a chunk drops what its writer has just saved. -/
theorem item_save_may_be_lost :
    (tallying [10, 20, 30]).KeepsKeys (· = lastChunkIndexKey) ∧
    ¬ (DocAccess.Survived JsonValue.key? tallyRun.2.2 ∧
      ∀ key value, DocAccess.LastSaved JsonValue.key? tallyRun.2.2 key value →
        (tallyRun.2.1.stepData "s1").key? key = some value) := by
  refine ⟨tallying_keepsKeys _, ?_⟩
  intro h
  have hsurvived := h.1
  rw [tallyRun_log] at hsurvived
  have hsaved := hsurvived.2 "written" (.num 1) (Or.inl ⟨(fun heq => by cases heq), rfl⟩)
  cases hsaved

end NestBatch
