import NestBatch.Execution.TakenOver

/-!
# Records of committed chunks

A chunk of a step is on record once the checkpoint of an execution of the step covers
it.  What keeps to a ledger keeps the records: step executions stay on file, and their
checkpoints move only forward.  A ledger is in the lead when the step execution that
is under way is the latest of its step and has begun behind none of the others; then
an execution of a step that is on file as FAILED, as the latest, is behind none of
them either.
-/

namespace NestBatch

variable {α β υ : Type}

/-- A chunk of a step is recorded as committed: it is covered by the checkpoint of an execution
of the step. -/
def World.Recorded (w : World υ) (e stepName : String) (index : Int) : Prop :=
  ∃ row ∈ w.repo.stepRows e stepName, index < nextChunk (w.checkpoint row.id)

instance (w : World υ) (e stepName : String) (index : Int) :
    Decidable (w.Recorded e stepName index) :=
  inferInstanceAs (Decidable (∃ row ∈ w.repo.stepRows e stepName, _))

/-- The step executions of an execution are what they were, and so are their checkpoints. -/
structure SameRecords (e : String) (w w' : World υ) : Prop where
  rows : ∀ name, w'.repo.stepRows e name = w.repo.stepRows e name
  checkpoint : ∀ name, ∀ row ∈ w.repo.stepRows e name,
    w'.checkpoint row.id = w.checkpoint row.id

/-- The executions of a step stay on file, and their checkpoints move only forward. -/
structure KeepsRecords (e : String) (w w' : World υ) : Prop where
  rows : ∀ name, ∀ row ∈ w.repo.stepRows e name,
    ∃ row' ∈ w'.repo.stepRows e name, row'.id = row.id
  forward : ∀ name, ∀ row ∈ w.repo.stepRows e name,
    nextChunk (w.checkpoint row.id) ≤ nextChunk (w'.checkpoint row.id)

section Records

variable {e : String} {w w' w'' : World υ}

theorem SameRecords.refl (w : World υ) : SameRecords e w w where
  rows _ := rfl
  checkpoint _ _ _ := rfl

theorem SameRecords.trans (h : SameRecords e w w') (h' : SameRecords e w' w'') :
    SameRecords e w w'' where
  rows name := (h'.rows name).trans (h.rows name)
  checkpoint name row hrow := by
    have hrow' : row ∈ w'.repo.stepRows e name := by
      rw [h.rows]
      exact hrow
    exact (h'.checkpoint name row hrow').trans (h.checkpoint name row hrow)

theorem KeepsRecords.refl (w : World υ) : KeepsRecords e w w where
  rows _ row hrow := ⟨row, hrow, rfl⟩
  forward _ _ _ := Int.le_refl _

theorem KeepsRecords.trans (h : KeepsRecords e w w') (h' : KeepsRecords e w' w'') :
    KeepsRecords e w w'' where
  rows name row hrow := by
    obtain ⟨row', hrow', hid⟩ := h.rows name row hrow
    obtain ⟨row'', hrow'', hid'⟩ := h'.rows name row' hrow'
    exact ⟨row'', hrow'', hid'.trans hid⟩
  forward name row hrow := by
    obtain ⟨row', hrow', hid⟩ := h.rows name row hrow
    have hlater := h'.forward name row' hrow'
    rw [hid] at hlater
    exact Int.le_trans (h.forward name row hrow) hlater

/-- What is on record stays on record. -/
theorem KeepsRecords.recorded (h : KeepsRecords e w w') {name : String} {index : Int}
    (hrecorded : w.Recorded e name index) : w'.Recorded e name index := by
  obtain ⟨row, hrow, hindex⟩ := hrecorded
  obtain ⟨row', hrow', hid⟩ := h.rows name row hrow
  refine ⟨row', hrow', ?_⟩
  rw [hid]
  exact Int.lt_of_lt_of_le hindex (h.forward name row hrow)

/-- The same records are kept. -/
theorem SameRecords.keeps (h : SameRecords e w w') : KeepsRecords e w w' where
  rows name row hrow := ⟨row, by rw [h.rows]; exact hrow, rfl⟩
  forward name row hrow := Int.le_of_eq (congrArg nextChunk (h.checkpoint name row hrow).symm)

variable {env : Environment α υ} {o : Op α}

/-- The executions of a step after an operation are those before it, and one that it creates. -/
theorem stepRows_handle (env : Environment α υ) (hsteps : w.repo.StepsFiled) (o : Op α)
    (name : String) :
    (∃ f : StepExecution → StepExecution, (∀ row, (f row).id = row.id) ∧
      (handle env o w).2.repo.stepRows e name = (w.repo.stepRows e name).map f) ∨
    o = .createStepExecution e name ∧ (handle env o w).2.repo.stepRows e name =
      w.repo.stepRows e name ++ [InMemoryJobRepository.newStepExecution w.repo.nextId e name] := by
  by_cases hcreate : o.kind = .createStep
  · cases o with
    | createStepExecution e' name' =>
        have hrows := InMemoryJobRepository.stepRows_create hsteps e' name' e name
        by_cases hsame : e' = e ∧ name' = name
        · obtain ⟨rfl, rfl⟩ := hsame
          rw [if_pos ⟨rfl, rfl⟩] at hrows
          exact .inr ⟨rfl, hrows⟩
        · rw [if_neg hsame, List.append_nil] at hrows
          exact .inl ⟨id, fun _ => rfl, hrows.trans (List.map_id _).symm⟩
    | user call => cases call <;> cases hcreate
    | _ => cases hcreate
  · by_cases hupdate : o.kind = .updateStep
    · cases o with
      | updateStepExecution id patch =>
          refine .inl ⟨_, fun row => ?_,
            InMemoryJobRepository.stepRows_update hsteps id patch e name⟩
          split
          · rfl
          · rfl
      | user call => cases call <;> cases hupdate
      | _ => cases hupdate
    · refine .inl ⟨id, fun _ => rfl, ?_⟩
      rw [List.map_id]
      unfold InMemoryJobRepository.stepRows
      rw [stepExecutions_handle env hcreate hupdate]

/-- The kinds of operation that write to the steps of an execution. -/
def stepWrites : List OpKind := [.createStep, .updateStep, .saveContext]

/-- Other operations leave the records alone. -/
theorem sameRecords_handle (henv : env.KeepsCheckpoint) (hk : o.kind ∉ stepWrites) (w : World υ) :
    SameRecords e w (handle env o w).2 where
  rows name := by
    unfold InMemoryJobRepository.stepRows
    rw [stepExecutions_handle env (fun heq => hk (by simp [stepWrites, heq]))
      (fun heq => hk (by simp [stepWrites, heq]))]
  checkpoint _ row _ := checkpoint_handle henv (fun heq => hk (by simp [stepWrites, heq])) w row.id

variable {g : Ledger} {resumes : String → Prop}

/-- An operation by the rules of a ledger that is right keeps the records. -/
theorem keepsRecords_handle (henv : env.KeepsCheckpoint) (h : g.Alone w)
    (hallowed : g.Allows resumes o) : KeepsRecords e w (handle env o w).2 where
  rows name row hrow := by
    rcases stepRows_handle env h.files.steps o name with ⟨f, hid, hrows⟩ | ⟨-, hrows⟩
    · rw [hrows]
      exact ⟨f row, List.mem_map_of_mem hrow, hid row⟩
    · rw [hrows]
      exact ⟨row, List.mem_append_left _ hrow, rfl⟩
  forward _ row _ := h.toTells.forward henv hallowed row.id

/-- **Code that keeps to the ledger keeps the records**, wherever it is interrupted. -/
theorem records_of_reaches {p p' : Code α β} {Q : Except Thrown β → Ledger → Prop}
    {T : (o : Op α) → World υ → o.Resp → World υ → Prop}
    (hT : ∀ o w r w', T o w r w' → handle env o w = (r, w')) (henv : env.KeepsCheckpoint)
    (hp : p.wp (ledgerLogic resumes) Q g) (h : g.Alone w)
    (hreach : Prog.Reaches T (p, w) (p', w')) :
    ∃ g', (g'.Alone w' ∧ KeepsRecords e w w') ∧ p'.wp (ledgerLogic resumes) Q g' := by
  have hfollows : Prog.Follows (ledgerLogic (α := α) resumes) T
      (fun v g => g.Alone v ∧ KeepsRecords e w v) := by
    intro o v r v' g hrel hallowed ht
    have heq := hT o v r v' ht
    obtain ⟨g', ht', halone⟩ := alone_follows henv resumes o v r v' g hrel.1 hallowed heq
    have hkept : KeepsRecords e v (handle env o v).2 := keepsRecords_handle henv hrel.1 hallowed
    rw [heq] at hkept
    exact ⟨g', ht', halone, hrel.2.trans hkept⟩
  exact Prog.reaches_simulate hfollows hreach hp ⟨h, .refl w⟩

end Records

/-! ### What is taken over -/

namespace Ledger

variable {env : Environment α υ} {w : World υ} {g : Ledger} {resumes : String → Prop}

/-- A context that has been read of a step execution looked up has no bad checkpoint. -/
def ReadsReached (g : Ledger) : Prop :=
  ∀ look ctx, g.look = some look → look.context = some ctx → 0 ≤ nextChunk (readLastCheckpoint ctx)

/-- So a step is begun with no bad checkpoint. -/
theorem ReadsReached.entry (h : g.ReadsReached) : 0 ≤ nextChunk g.entry.start := by
  change 0 ≤ nextChunk ((g.look.bind (·.context)).bind readLastCheckpoint)
  cases hctx : g.look.bind (·.context) with
  | none => exact Int.le_refl 0
  | some ctx =>
      obtain ⟨look, hlook, hread⟩ := Option.bind_eq_some_iff.mp hctx
      exact h look ctx hlook hread

/-- What is on file is read. -/
theorem ReadsReached.advance (h : g.ReadsReached) (hfiles : w.CheckpointsFiled) (o : Op α) :
    (g.advance o (handle env o w).1).ReadsReached := by
  intro look ctx hlook hctx
  cases o with
  | findLatestStepExecution e name =>
      obtain rfl := Option.some.inj hlook
      cases hctx
  | getExecutionContext scope =>
      obtain ⟨before, hbefore, rfl⟩ := Option.map_eq_some_iff.mp hlook
      unfold Look.read at hctx
      split at hctx
      · next hscope =>
          obtain ⟨prior, -, rfl⟩ := Option.map_eq_some_iff.mp hscope
          obtain rfl := Option.some.inj hctx
          exact hfiles.reached prior.id
      · exact h before ctx hbefore hctx
  | saveExecutionContext scope ctx => cases scope <;> cases hlook
  | _ => cases hlook

/-- What is begun after an operation was begun before, or is what the operation begins. -/
theorem begun_of_advance (env : Environment α υ) {o : Op α} {id : String} {entry : Begun}
    (h : (g.advance o (handle env o w).1).begun.get? id = some entry) :
    g.begun.get? id = some entry ∨ (∃ e name, o = .createStepExecution e name) ∧
      id = w.repo.nextId ∧ entry = g.entry := by
  cases o with
  | createStepExecution e name =>
      rw [begun_create] at h
      split at h
      · next heq => exact .inr ⟨⟨e, name, rfl⟩, heq, (Option.some.inj h).symm⟩
      · exact .inl h
  | saveExecutionContext scope ctx => cases scope <;> exact .inl h
  | _ => exact .inl h

/-- A step that is looked for is begun with the checkpoint of the execution found, if that one has
failed. -/
theorem Alone.entry_start (h : g.Alone w) {e name : String}
    (hallowed : g.Allows (α := α) resumes (.createStepExecution e name)) (hresumes : resumes name)
    {prior : StepExecution} (hprior : w.repo.findLatestStepExecution e name = some prior)
    (hfailed : prior.status = .FAILED) : g.entry.start = w.checkpoint prior.id := by
  obtain ⟨look, hlook, hjob, hname⟩ := hallowed.2 hresumes
  have hfound := h.found look hlook
  rw [hjob, hname, hprior] at hfound
  obtain ⟨ctx, hctx⟩ :=
    Option.isSome_iff_exists.mp (hallowed.1 look prior hlook hfound hfailed)
  change (g.look.bind (·.context)).bind readLastCheckpoint = _
  rw [hlook, Option.bind_some, hctx]
  exact (h.look look prior hlook hfound hfailed).2 ctx hctx

end Ledger

/-! ### Who leads -/

/-- An execution of a step that is on file as FAILED, as the latest, is behind no other. -/
def World.FailedLeads (w : World υ) (e : String) : Prop :=
  ∀ name prior, w.repo.findLatestStepExecution e name = some prior → prior.status = .FAILED →
    ∀ row ∈ w.repo.stepRows e name,
      nextChunk (w.checkpoint row.id) ≤ nextChunk (w.checkpoint prior.id)

/-- The latest step execution depends on the step's rows alone. -/
theorem findLatest_of_sameRows {e : String} {w w' : World υ}
    (h : ∀ name, w'.repo.stepRows e name = w.repo.stepRows e name)
    (name : String) : w'.repo.findLatestStepExecution e name =
      w.repo.findLatestStepExecution e name := by
  rw [InMemoryJobRepository.findLatestStepExecution_eq, h,
    InMemoryJobRepository.findLatestStepExecution_eq]

/-- Who leads depends on the records alone. -/
theorem failedLeads_of_same {e : String} {w w' : World υ} (h : SameRecords e w w')
    (hleads : w.FailedLeads e) : w'.FailedLeads e := by
  intro name prior hprior hfailed row hrow
  rw [findLatest_of_sameRows h.rows] at hprior
  rw [h.rows] at hrow
  have hmem := List.mem_of_getLast? hprior
  rw [h.checkpoint name row hrow, h.checkpoint name prior hmem]
  exact hleads name prior hprior hfailed row hrow

/-- The step execution under way is the latest of its step, and has begun behind no other. -/
structure Ledger.Leads (g : Ledger) (e : String) (w : World υ) : Prop where
  failed : w.FailedLeads e
  current : ∀ id entry name, g.current = some id → g.begun.get? id = some entry →
    ∀ row ∈ w.repo.stepRows e name, row.id = id →
      w.repo.findLatestStepExecution e name = some row ∧
      ∀ other ∈ w.repo.stepRows e name, other.id ≠ id →
        nextChunk (w.checkpoint other.id) ≤ nextChunk entry.start

namespace Ledger

variable {env : Environment α υ} {e : String} {w w' : World υ} {g g' : Ledger}
  {resumes : String → Prop} {o : Op α}

/-- What other operations leave of the ledger. -/
theorem begun_of_quiet (hk : o.kind ∉ stepWrites) (g : Ledger) (r : o.Resp) :
    (g.advance o r).current = g.current ∧ (g.advance o r).begun = g.begun := by
  cases o with
  | createStepExecution => exact absurd (by simp [stepWrites, Op.kind]) hk
  | saveExecutionContext => exact absurd (by simp [stepWrites, Op.kind]) hk
  | _ => exact ⟨rfl, rfl⟩

/-- The lead is kept while the records and the step under way are what they were. -/
theorem Leads.same (h : g.Leads e w) (hsame : SameRecords e w w')
    (hcurrent : g'.current = g.current) (hbegun : g'.begun = g.begun) : g'.Leads e w' where
  failed := failedLeads_of_same hsame h.failed
  current id entry name hid hentry row hrow hrowId := by
    rw [hcurrent] at hid
    rw [hbegun] at hentry
    rw [hsame.rows] at hrow
    obtain ⟨hlatest, hothers⟩ := h.current id entry name hid hentry row hrow hrowId
    rw [findLatest_of_sameRows hsame.rows]
    refine ⟨hlatest, fun other hother hne => ?_⟩
    rw [hsame.rows] at hother
    rw [hsame.checkpoint name other hother]
    exact hothers other hother hne

/-- A step is begun behind none of its executions. -/
theorem Leads.create (henv : env.KeepsCheckpoint) (h : g.Leads e w) (hsteps : w.repo.StepsFiled)
    {begun name : String} (hbehind : begun = e → ∀ row ∈ w.repo.stepRows e name,
      nextChunk (w.checkpoint row.id) ≤ nextChunk g.entry.start) :
    (g.advance (.createStepExecution begun name : Op α)
      (handle env (.createStepExecution begun name) w).1).Leads e
      (handle env (.createStepExecution begun name : Op α) w).2 := by
  have hcheckpoint (id : String) :
      (handle env (.createStepExecution begun name : Op α) w).2.checkpoint id = w.checkpoint id :=
    checkpoint_handle henv (by simp [Op.kind]) w id
  have hrows (name' : String) :
      (handle env (.createStepExecution begun name : Op α) w).2.repo.stepRows e name' =
        w.repo.stepRows e name' ++ if begun = e ∧ name = name' then
          [InMemoryJobRepository.newStepExecution w.repo.nextId begun name] else [] :=
    InMemoryJobRepository.stepRows_create hsteps begun name e name'
  constructor
  · intro name' prior hprior hfailed row hrow
    rw [InMemoryJobRepository.findLatestStepExecution_eq] at hprior
    rw [hcheckpoint, hcheckpoint]
    by_cases hnew : begun = e ∧ name = name'
    · -- the new row is the latest, and has not failed
      rw [hrows, if_pos hnew, List.getLast?_append] at hprior
      obtain rfl := Option.some.inj hprior
      cases hfailed
    · rw [hrows, if_neg hnew, List.append_nil] at hprior hrow
      exact h.failed name' prior hprior hfailed row hrow
  · intro id entry name' hid hentry row hrow hrowId
    obtain rfl : w.repo.nextId = id := Option.some.inj hid
    have hset : (g.begun.set w.repo.nextId g.entry).get? w.repo.nextId = some entry := hentry
    rw [JsMap.get?_set_self] at hset
    obtain rfl := Option.some.inj hset
    have hfresh : ∀ name', ∀ old ∈ w.repo.stepRows e name', old.id ≠ w.repo.nextId := by
      intro name' old hold heq
      have hfiled := InMemoryJobRepository.get?_of_mem_stepRows hsteps hold
      rw [heq, hsteps.fresh] at hfiled
      cases hfiled
    rw [hrows] at hrow
    rcases List.mem_append.mp hrow with hold | hnew
    · exact absurd hrowId (hfresh name' row hold)
    · split at hnew
      · next hsame =>
          obtain ⟨rfl, rfl⟩ := hsame
          rw [List.mem_singleton.mp hnew]
          refine ⟨InMemoryJobRepository.findLatest_create hsteps begun name, ?_⟩
          intro other hother hne
          rw [hrows] at hother
          rw [hcheckpoint]
          rcases List.mem_append.mp hother with hold | hself
          · exact hbehind rfl other hold
          · rw [if_pos ⟨rfl, rfl⟩] at hself
            rw [List.mem_singleton.mp hself] at hne
            exact absurd rfl hne
      · cases hnew

/-- The step execution under way gets its status. -/
theorem Leads.update (henv : env.KeepsCheckpoint) (h : g.Leads e w) (htells : g.Tells w)
    (hsteps : w.repo.StepsFiled) {id : String} {patch : StepExecutionPatch}
    (hopened : g.Opened id) (hcarried : g.Carried id) :
    (g.advance (.updateStepExecution id patch : Op α)
      (handle env (.updateStepExecution id patch) w).1).Leads e
      (handle env (.updateStepExecution id patch : Op α) w).2 := by
  have hcheckpoint (id' : String) :
      (handle env (.updateStepExecution id patch : Op α) w).2.checkpoint id' = w.checkpoint id' :=
    checkpoint_handle henv (by simp [Op.kind]) w id'
  have hrows (name : String) :
      (handle env (.updateStepExecution id patch : Op α) w).2.repo.stepRows e name =
        (w.repo.stepRows e name).map fun row => if row.id = id then patch.applyTo row else row :=
    InMemoryJobRepository.stepRows_update hsteps id patch e name
  have hsameId (row : StepExecution) :
      (if row.id = id then patch.applyTo row else row).id = row.id := by
    split
    · rfl
    · rfl
  constructor
  · intro name prior hprior hfailed row hrow
    rw [InMemoryJobRepository.findLatestStepExecution_eq, hrows, List.getLast?_map] at hprior
    obtain ⟨latest, hlatest, rfl⟩ := Option.map_eq_some_iff.mp hprior
    rw [hrows] at hrow
    obtain ⟨before, hbefore, rfl⟩ := List.mem_map.mp hrow
    rw [hcheckpoint, hcheckpoint, hsameId, hsameId]
    by_cases hmoved : latest.id = id
    · obtain ⟨entry, hentry⟩ := Option.isSome_iff_exists.mp hopened.begun
      have hothers := (h.current id entry name hopened.current hentry latest
        (List.mem_of_getLast? hlatest) hmoved).2
      have hstart := hcarried entry hentry
      rw [← htells.checkpoint id hopened.begun] at hstart
      rw [hmoved]
      by_cases hself : before.id = id
      · exact Int.le_of_eq (by rw [hself])
      · exact Int.le_trans (hothers before hbefore hself) hstart
    · rw [if_neg hmoved] at hfailed
      exact h.failed name latest hlatest hfailed before hbefore
  · intro current entry name hcurrent hentry row hrow hrowId
    rw [hrows] at hrow
    obtain ⟨before, hbefore, rfl⟩ := List.mem_map.mp hrow
    rw [hsameId] at hrowId
    obtain ⟨hlatest, hothers⟩ := h.current current entry name hcurrent hentry before hbefore hrowId
    rw [InMemoryJobRepository.findLatestStepExecution_eq] at hlatest ⊢
    refine ⟨by rw [hrows, List.getLast?_map, hlatest]; rfl, fun other hother hne => ?_⟩
    rw [hrows] at hother
    obtain ⟨old, hold, rfl⟩ := List.mem_map.mp hother
    rw [hsameId] at hne
    rw [hcheckpoint, hsameId]
    exact hothers old hold hne

/-- The checkpoint of the step execution under way moves forward. -/
theorem Leads.save (h : g.Leads e w) (htells : g.Tells w) {id : String} {ctx : ExecutionContext}
    (hopened : g.Opened id)
    (hforward : nextChunk (g.checkpoint id) ≤ nextChunk (readLastCheckpoint ctx)) :
    (g.advance (.saveExecutionContext (.stepExecutionId id) ctx : Op α)
      (handle env (.saveExecutionContext (.stepExecutionId id) ctx) w).1).Leads e
      (handle env (.saveExecutionContext (.stepExecutionId id) ctx : Op α) w).2 := by
  have hlatest (name : String) : (handle env (.saveExecutionContext (.stepExecutionId id) ctx :
      Op α) w).2.repo.findLatestStepExecution e name = w.repo.findLatestStepExecution e name := rfl
  rw [← htells.checkpoint id hopened.begun] at hforward
  constructor
  · intro name prior hprior hfailed row hrow
    rw [hlatest] at hprior
    have hbehind := h.failed name prior hprior hfailed row hrow
    rw [checkpoint_saved, checkpoint_saved]
    by_cases hmoved : row.id = id
    · -- it is the latest of its step
      obtain ⟨entry, hentry⟩ := Option.isSome_iff_exists.mp hopened.begun
      have hself := (h.current id entry name hopened.current hentry row hrow hmoved).1
      obtain rfl := Option.some.inj (hself.symm.trans hprior)
      exact Int.le_refl _
    · rw [if_neg hmoved]
      split
      · next hprior =>
          rw [hprior] at hbehind
          exact Int.le_trans hbehind hforward
      · exact hbehind
  · intro current entry name hcurrent hentry row hrow hrowId
    obtain ⟨hself, hothers⟩ := h.current current entry name hcurrent hentry row hrow hrowId
    refine ⟨hself, fun other hother hne => ?_⟩
    have heq : id = current := Option.some.inj (hopened.current.symm.trans hcurrent)
    rw [checkpoint_saved, if_neg fun hid => hne (hid.trans heq)]
    exact hothers other hother hne

/-- **The lead is kept** by the rules of a ledger that is right, where each step is begun behind
none of its executions. -/
theorem Leads.advance (henv : env.KeepsCheckpoint) (h : g.Leads e w) (halone : g.Alone w)
    (hallowed : g.Allows resumes o)
    (hbehind : ∀ name, o = .createStepExecution e name → ∀ row ∈ w.repo.stepRows e name,
      nextChunk (w.checkpoint row.id) ≤ nextChunk g.entry.start) :
    (g.advance o (handle env o w).1).Leads e (handle env o w).2 := by
  have hquiet (hk : o.kind ∉ stepWrites) : (g.advance o (handle env o w).1).Leads e
      (handle env o w).2 := by
    refine h.same (sameRecords_handle henv hk w) ?_ ?_
    · exact (begun_of_quiet hk g _).1
    · exact (begun_of_quiet hk g _).2
  cases o with
  | createStepExecution begun name =>
      refine h.create henv halone.files.steps fun heq row hrow => ?_
      subst heq
      exact hbehind name rfl row hrow
  | updateStepExecution id patch =>
      exact h.update henv halone.toTells halone.files.steps hallowed.1 hallowed.2
  | saveExecutionContext scope ctx =>
      obtain ⟨id, rfl, hopened, hforward⟩ := hallowed
      exact h.save halone.toTells hopened hforward
  | user call => exact hquiet (by cases call <;> simp [stepWrites, Op.kind, UserCall.kind])
  | _ => exact hquiet (by simp [stepWrites, Op.kind])

end Ledger

end NestBatch
