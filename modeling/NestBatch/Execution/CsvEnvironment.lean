import NestBatch.Execution.CheckpointSafety
import NestBatch.Execution.HeaderProtocol
import NestBatch.Io.CsvHeader

/-!
# A chunk step that writes a CSV file

User code around a `CsvFileItemWriter`: the writer and its file are part of the state,
everything else is any other user code.  `appendFile` writes all of a text or fails, in
which case it writes nothing.

Of such a world the protocol of `HeaderProtocol` sees whether the file has text, and the
flags.  The file stays headed once as long as each batch meets a flag that is not set
without need, and no row repeats the header.
-/

namespace NestBatch

open CsvFileItemWriter

/-- The writer of a step, and its file. -/
structure CsvState where
  writer : CsvFileItemWriter := {}
  file : TextFile := none

/-- A writer that writes a header.  `row` has the texts of the values of an item. -/
structure CsvExport (α : Type) where
  writerHandle : Handle
  options : CsvFileItemWriterOptions
  writesHeader : options.writeHeader.getD true = true
  row : α → CsvRow

variable {α υ : Type}

namespace CsvExport

variable (E : CsvExport α)

/-- `write`, with the error of an `appendFile` that fails. -/
def writeBatch (appendFile : JsString → υ → Option Thrown × υ) (items : List α)
    (state : CsvState) (user : υ) : Except Thrown (Option WriterResult) × CsvState × υ :=
  let (text, writer) := CsvFileItemWriter.write E.options state.writer (items.map E.row)
  match text with
  | none => (.ok none, { state with writer := writer }, user)
  | some text =>
      match appendFile text user with
      | (some err, user) => (.error err, { state with writer := writer }, user)
      | (none, user) => (.ok none, { writer := writer, file := state.file.append text }, user)

/-- The user code of such a step: the writer by its handle, and `others` for the rest. -/
def environment (appendFile : JsString → υ → Option Thrown × υ) (others : Environment α υ) :
    Environment α (CsvState × υ) where
  user call s saved :=
    let passOn : call.Resp × (CsvState × υ) × List JsonValue :=
      let (answer, user, saves) := others.user call s.2 saved
      (answer, (s.1, user), saves)
    match call, passOn with
    | .openStream stream ctx, passOn =>
        if stream = E.writerHandle then
          (.ok ctx, ({ s.1 with writer := open_ E.options ctx }, s.2), [])
        else passOn
    | .write writer items _, passOn =>
        if writer = E.writerHandle then
          let (answer, state, user) := E.writeBatch appendFile items s.1 s.2
          (answer, (state, user), [])
        else passOn
    | .updateStream stream ctx, passOn =>
        if stream = E.writerHandle then (.ok (update E.options s.1.writer ctx), s, []) else passOn
    | .closeStream stream, passOn =>
        if stream = E.writerHandle then (.ok (), s, []) else passOn
    | _, passOn => passOn
  broker payload s :=
    let (answer, user) := others.broker payload s.2
    (answer, (s.1, user))

/-- The flag in the data of a context. -/
def flagIn (data : JsonValue) : Bool :=
  (open_ E.options { data := data, version := 0 }).headerWritten.truthy

/-- What is asked of the code around the writer: the step's writer is this one, and the record of
the writer is left alone in the contexts that are handed on or saved. -/
structure Fits (others : Environment α υ) (step : ChunkStepDefinition)
    (context : ChunkExecutionContext) : Prop where
  lambda : ∀ fn user saved c, step.writer.fn = some fn →
    (others.user (.invoke fn) user saved).1 = .ok c →
      ChunkStepExecutor.fromLambda fn c = { target := E.writerHandle, isStream := true }
  provider : ∀ c, ChunkStepExecutor.resolveProviderToken "writer" step.writer
    context.providerResolvers = .ok c → c.target = E.writerHandle ∧ c.isStream = true
  method : ∀ fn, ChunkStepExecutor.resolveMethod "writer" "Writer" step.writer context ≠ .ok fn
  opens : ∀ stream ctx user saved ctx', (others.user (.openStream stream ctx) user saved).1 =
    .ok ctx' → E.flagIn ctx'.data = E.flagIn ctx.data
  updates : ∀ stream ctx user saved ctx', (others.user (.updateStream stream ctx) user saved).1 =
    .ok ctx' → E.flagIn ctx'.data = E.flagIn ctx.data
  saves : ∀ call user saved data, data ∈ (others.user call user saved).2.2 →
    E.flagIn data = E.flagIn saved.data

/-- Behind a write nothing else throws: neither a listener, nor a stream that is updated. -/
structure Calm (others : Environment α υ) : Prop where
  listener : ∀ fn args user saved,
    (others.user (.listener fn (.lifecycle .after .itemWrite) args) user saved).1 = .ok ()
  update : ∀ stream ctx user saved err,
    (others.user (.updateStream stream ctx) user saved).1 ≠ .error err

/-- Whether a batch meets the condition under which it keeps the header in front: the flag is set
only if there is text, and its rows are apart from the header. -/
def Regular : Op α → World (CsvState × υ) → Prop
  | .user (.write writer items _), w => writer = E.writerHandle → items ≠ [] →
      (w.user.1.writer.headerWritten.truthy = true → w.user.1.file.getD [] ≠ []) ∧
        ∀ item ∈ items, Apart E.options (E.row item)
  | _, _ => True

instance (o : Op α) (w : World (CsvState × υ)) : Decidable (E.Regular o w) := by
  unfold Regular
  split
  · infer_instance
  · infer_instance

/-- The steps of a run whose batches meet the condition. -/
def trans (appendFile : JsString → υ → Option Thrown × υ) (others : Environment α υ) (o : Op α)
    (w : World (CsvState × υ)) (r : o.Resp) (w' : World (CsvState × υ)) : Prop :=
  handle (E.environment appendFile others) o w = (r, w') ∧ E.Regular o w

/-! ### What the protocol sees -/

/-- The writer among the steps of the protocol. -/
def headerStep (step : ChunkStepDefinition) (stepExecutionId : String) (calm : Prop) :
    HeaderStep where
  writer := E.writerHandle
  stepExecutionId := stepExecutionId
  lambda := step.writer.fn
  flag ctx := E.flagIn ctx.data
  calm := calm

/-- The flags of a world. -/
def headerState (stepExecutionId : String) (w : World (CsvState × υ)) : HeaderState where
  text := !(w.user.1.file.getD []).isEmpty
  flag := w.user.1.writer.headerWritten.truthy
  saved := E.flagIn (w.repo.getExecutionContext (.stepExecutionId stepExecutionId)).data

/-- The file is headed once, and the flags are as seen. -/
structure Shows (stepExecutionId : String) (w : World (CsvState × υ)) (g : HeaderState) :
    Prop where
  headed : HeadedOnce (headerLines E.options) (w.user.1.file.getD [])
  state : g = E.headerState stepExecutionId w

section Steps

variable {E} {appendFile : JsString → υ → Option Thrown × υ} {others : Environment α υ}
  {step : ChunkStepDefinition} {context : ChunkExecutionContext} {w : World (CsvState × υ)}

/-- The header's text is there exactly when the file is not empty. -/
theorem text_iff (sid : String) (w : World (CsvState × υ)) :
    (E.headerState sid w).text = true ↔ w.user.1.file.getD [] ≠ [] := by
  unfold headerState
  rw [Bool.not_eq_true', List.isEmpty_eq_false_iff]

/-- What is no call of the writer's leaves the writer and its file alone. -/
theorem handle_user {o : Op α} (ho : o.kind ∉ [OpKind.openStream, .write])
    (w : World (CsvState × υ)) :
    (handle (E.environment appendFile others) o w).2.user.1 = w.user.1 := by
  cases o with
  | user call =>
      obtain ⟨ctx, -, huser⟩ := handleUser_env (E.environment appendFile others) call w
      change (handleUser (E.environment appendFile others) call w).2.user.1 = w.user.1
      rw [huser]
      cases call with
      | openStream => exact absurd (by simp [Op.kind, UserCall.kind]) ho
      | write => exact absurd (by simp [Op.kind, UserCall.kind]) ho
      | updateStream stream ctx' =>
          simp only [environment]
          split
          · rfl
          · rfl
      | closeStream stream =>
          simp only [environment]
          split
          · rfl
          · rfl
      | _ => rfl
  | enqueue payload =>
      simp only [handle, environment]
      split
      · rfl
      · rfl
  | _ => rfl

/-- User code leaves the persisted flag alone. -/
theorem environment_saves (hfits : E.Fits others step context) (call : UserCall α)
    (s : CsvState × υ) (saved : ExecutionContext) {data : JsonValue}
    (hdata : data ∈ ((E.environment appendFile others).user call s saved).2.2) :
    E.flagIn data = E.flagIn saved.data := by
  have hothers := hfits.saves call s.2 saved data
  cases call with
  | openStream | write | updateStream | closeStream =>
      simp only [environment] at hdata
      split at hdata
      · cases hdata
      · exact hothers hdata
  | _ => exact hothers hdata

variable (appendFile) in
/-- Only the saving of a context changes the saved flag. -/
theorem handle_saved (hfits : E.Fits others step context) {o : Op α} (ho : o.kind ≠ .saveContext)
    (scope : ExecutionScope) (w : World (CsvState × υ)) :
    E.flagIn
        ((handle (E.environment appendFile others) o w).2.repo.getExecutionContext scope).data =
      E.flagIn (w.repo.getExecutionContext scope).data :=
  data_handle E.flagIn ho scope w fun _ _ =>
    data_handleUser E.flagIn scope
      (fun s saved _ _ hdata => environment_saves hfits _ s saved hdata) w

/-- An operation that moves no flag. -/
theorem headerState_handle (hfits : E.Fits others step context) {o : Op α}
    (ho : o.kind ∉ HeaderState.movingKinds) (sid : String) (w : World (CsvState × υ)) :
    E.headerState sid (handle (E.environment appendFile others) o w).2 = E.headerState sid w := by
  have huser : (handle (E.environment appendFile others) o w).2.user.1 = w.user.1 :=
    handle_user (fun hmem => ho (by
      simp only [HeaderState.movingKinds, List.mem_cons, List.not_mem_nil, or_false] at hmem ⊢
      rcases hmem with h | h
      · exact Or.inl h
      · exact Or.inr (Or.inl h))) w
  have hsaved := handle_saved appendFile hfits (o := o)
    (fun h => ho (by simp [HeaderState.movingKinds, h])) (.stepExecutionId sid) w
  unfold headerState
  rw [huser, hsaved]

/-- Only a write changes the file. -/
theorem handle_file {o : Op α} (ho : o.kind ≠ .write) (w : World (CsvState × υ)) :
    (handle (E.environment appendFile others) o w).2.user.1.file = w.user.1.file := by
  by_cases hopen : o.kind = .openStream
  · cases o with
    | user call =>
        cases call with
        | openStream stream ctx =>
            obtain ⟨saved, -, huser⟩ :=
              handleUser_env (E.environment appendFile others) (.openStream stream ctx) w
            change (handleUser (E.environment appendFile others) (.openStream stream ctx)
              w).2.user.1.file = _
            rw [huser]
            simp only [environment]
            split
            · rfl
            · rfl
        | _ => cases hopen
    | _ => cases hopen
  · rw [handle_user (by simp [hopen, ho])]

/-- A stream that is opened. -/
theorem moves_open (hfits : E.Fits others step context) (sid : String) (calm : Prop)
    (stream : Handle) (ctx : ExecutionContext) (w : World (CsvState × υ)) :
    HeaderState.Moves (E.headerStep step sid calm) (.user (.openStream stream ctx) : Op α)
      (E.headerState sid w)
      (handle (E.environment appendFile others) (.user (.openStream stream ctx)) w).1
      (E.headerState sid
        (handle (E.environment appendFile others) (.user (.openStream stream ctx)) w).2) := by
  have hsaved := handle_saved appendFile hfits
    (o := .user (.openStream stream ctx)) (by simp [Op.kind, UserCall.kind])
    (.stepExecutionId sid) w
  obtain ⟨saved, hanswer, huser⟩ :=
    handleUser_env (E.environment appendFile others) (.openStream stream ctx) w
  by_cases hstream : stream = E.writerHandle
  · have hopened : (E.environment appendFile others).user (.openStream stream ctx) w.user saved =
        (.ok ctx, ({ w.user.1 with writer := open_ E.options ctx }, w.user.2), []) := by
      simp only [environment, if_pos hstream]
    refine ⟨?_, ?_⟩
    · intro ctx' hctx
      change (handleUser _ _ w).1 = _ at hctx
      rw [hanswer, hopened] at hctx
      cases hctx
      rfl
    · change _ = if stream = E.writerHandle then _ else _
      rw [if_pos hstream]
      unfold headerState
      rw [hsaved]
      change HeaderState.mk (!((handleUser _ _ w).2.user.1.file.getD []).isEmpty)
        (handleUser _ _ w).2.user.1.writer.headerWritten.truthy _ = _
      rw [huser, hopened]
      rfl
  · have hopened : (E.environment appendFile others).user (.openStream stream ctx) w.user saved =
        ((others.user (.openStream stream ctx) w.user.2 saved).1,
          (w.user.1, (others.user (.openStream stream ctx) w.user.2 saved).2.1),
          (others.user (.openStream stream ctx) w.user.2 saved).2.2) := by
      simp only [environment, if_neg hstream]
    refine ⟨?_, ?_⟩
    · intro ctx' hctx
      change (handleUser _ _ w).1 = _ at hctx
      rw [hanswer, hopened] at hctx
      exact hfits.opens stream ctx _ _ ctx' hctx
    · change _ = if stream = E.writerHandle then _ else _
      rw [if_neg hstream]
      unfold headerState
      rw [hsaved]
      change HeaderState.mk (!((handleUser _ _ w).2.user.1.file.getD []).isEmpty)
        (handleUser _ _ w).2.user.1.writer.headerWritten.truthy _ = _
      rw [huser, hopened]

/-- A stream that is updated. -/
theorem moves_update (hfits : E.Fits others step context) (sid : String) (stream : Handle)
    (ctx : ExecutionContext) (w : World (CsvState × υ)) :
    HeaderState.Moves (E.headerStep step sid (Calm others))
      (.user (.updateStream stream ctx) : Op α) (E.headerState sid w)
      (handle (E.environment appendFile others) (.user (.updateStream stream ctx)) w).1
      (E.headerState sid
        (handle (E.environment appendFile others) (.user (.updateStream stream ctx)) w).2) := by
  refine ⟨headerState_handle hfits (by simp [HeaderState.movingKinds, Op.kind, UserCall.kind]) sid
    w, ?_⟩
  obtain ⟨saved, hanswer, -⟩ :=
    handleUser_env (E.environment appendFile others) (.updateStream stream ctx) w
  change (∀ ctx', (handleUser _ _ w).1 = _ → _) ∧ (_ → ∀ err, (handleUser _ _ w).1 ≠ _)
  rw [hanswer]
  by_cases hstream : stream = E.writerHandle
  · have hupdated : ((E.environment appendFile others).user (.updateStream stream ctx) w.user
        saved).1 = .ok (update E.options w.user.1.writer ctx) := by
      simp only [environment, if_pos hstream]
      rfl
    rw [hupdated]
    refine ⟨?_, fun _ err h => by cases h⟩
    intro ctx' hcase
    cases hcase
    change E.flagIn _ = if stream = E.writerHandle then _ else _
    rw [if_pos hstream]
    exact congrArg JsonValue.truthy
      (readCheckpointValue_of_record (readCheckpoint_write_self ctx _ _) _)
  · have hupdated : ((E.environment appendFile others).user (.updateStream stream ctx) w.user
        saved).1 = (others.user (.updateStream stream ctx) w.user.2 saved).1 := by
      simp only [environment, if_neg hstream]
    rw [hupdated]
    refine ⟨?_, fun hcalm => hcalm.update stream ctx _ _⟩
    intro ctx' hctx
    change _ = if stream = E.writerHandle then _ else _
    rw [if_neg hstream]
    exact hfits.updates stream ctx _ _ ctx' hctx

variable (E appendFile) in
/-- What becomes of a batch: nothing for no items, and else the append decides. -/
theorem writeBatch_cases (items : List α) (state : CsvState) (user : υ) :
    (∃ user', E.writeBatch appendFile items state user = (.ok none, state, user')) ∨
    (∃ text writer err user', CsvFileItemWriter.write E.options state.writer (items.map E.row) =
        (some text, writer) ∧ appendFile text user = (some err, user') ∧
      E.writeBatch appendFile items state user =
        (.error err, { state with writer := writer }, user')) ∨
    (∃ text writer user', CsvFileItemWriter.write E.options state.writer (items.map E.row) =
        (some text, writer) ∧ appendFile text user = (none, user') ∧
      E.writeBatch appendFile items state user =
        (.ok none, { writer := writer, file := state.file.append text }, user')) := by
  unfold writeBatch
  by_cases hitems : items.map E.row = []
  · refine Or.inl ⟨user, ?_⟩
    rw [hitems]
    rfl
  · rw [write_of_ne_nil hitems]
    cases happend : appendFile _ user with
    | mk failed user' =>
        cases failed with
        | some err =>
            refine Or.inr (Or.inl ⟨_, _, err, user', rfl, happend, ?_⟩)
            dsimp only
            rw [happend]
        | none =>
            refine Or.inr (Or.inr ⟨_, _, user', rfl, happend, ?_⟩)
            dsimp only
            rw [happend]

/-- Behind a batch of some items the flag is set. -/
theorem truthy_of_write (E : CsvExport α) {writer writer' : CsvFileItemWriter}
    {items : List CsvRow} {text : JsString} (hwrite : write E.options writer items =
      (some text, writer')) : writer'.headerWritten.truthy = true := by
  have hne : items ≠ [] := by
    intro heq
    subst heq
    cases hwrite
  rw [write_of_ne_nil hne] at hwrite
  obtain rfl := (Prod.mk.inj hwrite).2
  split
  · rfl
  · next hemits =>
      rw [emitsHeader, E.writesHeader, Bool.true_and, Bool.not_eq_true', Bool.not_eq_false]
        at hemits
      exact hemits

variable (appendFile) in
/-- **A regular batch** leaves the file headed once, and the flag of a file with text set. -/
theorem writeBatch_headed (items : List α) {state : CsvState} (user : υ)
    (hheaded : HeadedOnce (headerLines E.options) (state.file.getD []))
    (hflagged : state.file.getD [] ≠ [] → state.writer.headerWritten.truthy = true)
    (hneeded : items ≠ [] → state.writer.headerWritten.truthy = true → state.file.getD [] ≠ [])
    (hapart : ∀ item ∈ items, Apart E.options (E.row item)) :
    HeadedOnce (headerLines E.options)
        ((E.writeBatch appendFile items state user).2.1.file.getD []) ∧
      ((E.writeBatch appendFile items state user).2.1.file.getD [] ≠ [] →
        (E.writeBatch appendFile items state user).2.1.writer.headerWritten.truthy = true) ∧
      ∀ err, (E.writeBatch appendFile items state user).1 = .error err →
        (E.writeBatch appendFile items state user).2.1.file = state.file := by
  rcases writeBatch_cases E appendFile items state user with
    ⟨user', hbatch⟩ | ⟨text, writer, err, user', hwrite, -, hbatch⟩ |
    ⟨text, writer, user', hwrite, -, hbatch⟩
  · rw [hbatch]
    exact ⟨hheaded, hflagged, fun _ _ => rfl⟩
  · rw [hbatch]
    exact ⟨hheaded, fun _ => truthy_of_write E hwrite, fun _ _ => rfl⟩
  · rw [hbatch]
    refine ⟨?_, fun _ => truthy_of_write E hwrite, fun err h => by cases h⟩
    have hne : items ≠ [] := by
      intro heq
      subst heq
      cases hwrite
    have hemits : emitsHeader E.options state.writer = true ↔ state.file.getD [] = [] := by
      rw [emitsHeader, E.writesHeader, Bool.true_and, Bool.not_eq_true']
      constructor
      · intro hunset
        by_contra htext
        rw [hflagged htext] at hunset
        cases hunset
      · intro hempty
        by_contra hset
        exact hneeded hne (Bool.not_eq_false _ ▸ hset) hempty
    refine hheaded.write hemits ?_ (congrArg Prod.fst hwrite)
    intro row hrow
    obtain ⟨item, hitem, rfl⟩ := List.mem_map.mp hrow
    exact hapart item hitem

variable (appendFile) in
/-- A batch that is written where the rules of the flags allow it. -/
theorem shows_write (hfits : E.Fits others step context) {sid : String} (calm : Prop)
    {writer : Handle} {items : List α} {ctx : ItemExecutionContext}
    (hheaded : HeadedOnce (headerLines E.options) (w.user.1.file.getD []))
    (hallowed : writer = E.writerHandle → (E.headerState sid w).Flagged)
    (hregular : E.Regular (.user (.write writer items ctx)) w) :
    HeaderState.Moves (E.headerStep step sid calm) (.user (.write writer items ctx) : Op α)
        (E.headerState sid w)
        (handle (E.environment appendFile others) (.user (.write writer items ctx)) w).1
        (E.headerState sid
          (handle (E.environment appendFile others) (.user (.write writer items ctx)) w).2) ∧
      HeadedOnce (headerLines E.options)
        ((handle (E.environment appendFile others)
          (.user (.write writer items ctx)) w).2.user.1.file.getD []) := by
  have hsaved := handle_saved appendFile hfits
    (o := .user (.write writer items ctx)) (by simp [Op.kind, UserCall.kind])
    (.stepExecutionId sid) w
  obtain ⟨saved, hanswer, huser⟩ :=
    handleUser_env (E.environment appendFile others) (.write writer items ctx) w
  by_cases hwriter : writer = E.writerHandle
  · obtain ⟨hheaded', hflagged', hfailed⟩ :=
      writeBatch_headed appendFile items w.user.2 hheaded
        (fun htext => hallowed hwriter ((text_iff sid w).mpr htext))
        (fun hne => (hregular hwriter hne).1)
        (fun item hitem => (hregular hwriter (List.ne_nil_of_mem hitem)).2 item hitem)
    have hbatch : (E.environment appendFile others).user (.write writer items ctx) w.user saved =
        ((E.writeBatch appendFile items w.user.1 w.user.2).1,
          ((E.writeBatch appendFile items w.user.1 w.user.2).2.1,
            (E.writeBatch appendFile items w.user.1 w.user.2).2.2), []) := by
      simp only [environment, if_pos hwriter]
      rfl
    rw [hbatch] at hanswer huser
    have hstate : (handle (E.environment appendFile others)
        (.user (.write writer items ctx)) w).2.user.1 =
          (E.writeBatch appendFile items w.user.1 w.user.2).2.1 := by
      change (handleUser _ _ w).2.user.1 = _
      rw [huser]
    refine ⟨?_, by rw [hstate]; exact hheaded'⟩
    change if writer = E.writerHandle then _ else _
    rw [if_pos hwriter]
    refine ⟨hsaved, fun _ htext => ?_, fun err herr => ?_⟩
    · rw [text_iff, hstate] at htext
      unfold headerState
      rw [hstate]
      exact hflagged' htext
    · have herror := hfailed err (hanswer.symm.trans herr)
      unfold headerState
      rw [hstate, herror]
  · have hbatch : (E.environment appendFile others).user (.write writer items ctx) w.user saved =
        ((others.user (.write writer items ctx) w.user.2 saved).1,
          (w.user.1, (others.user (.write writer items ctx) w.user.2 saved).2.1),
          (others.user (.write writer items ctx) w.user.2 saved).2.2) := by
      simp only [environment, if_neg hwriter]
    rw [hbatch] at huser
    have hstate : (handle (E.environment appendFile others)
        (.user (.write writer items ctx)) w).2.user.1 = w.user.1 := by
      change (handleUser _ _ w).2.user.1 = _
      rw [huser]
    refine ⟨?_, by rw [hstate]; exact hheaded⟩
    change if writer = E.writerHandle then _ else _
    rw [if_neg hwriter]
    unfold headerState
    rw [hsaved, hstate]

/-- **Refinement.**  The operations answer as the rules of the flags have it, and regular batches
keep the file headed once. -/
theorem follows (hfits : E.Fits others step context) (sid : String) :
    Prog.Follows (headerRules (E.headerStep step sid (Calm others)))
      (E.trans appendFile others) (E.Shows sid) := by
  intro o w r w' g hshows hallowed ht
  obtain ⟨hanswer, hregular⟩ := ht
  obtain ⟨hheaded, rfl⟩ := hshows
  obtain rfl : (handle (E.environment appendFile others) o w).1 = r := congrArg Prod.fst hanswer
  obtain rfl : (handle (E.environment appendFile others) o w).2 = w' := congrArg Prod.snd hanswer
  refine ⟨E.headerState sid (handle (E.environment appendFile others) o w).2, ?_⟩
  by_cases hwrite : o.kind = .write
  · cases o with
    | user call =>
        cases call with
        | write writer items ctx =>
            have hwritten := shows_write appendFile hfits (Calm others) hheaded hallowed hregular
            exact ⟨hwritten.1, hwritten.2, rfl⟩
        | _ => cases hwrite
    | _ => cases hwrite
  · refine ⟨?_, by rw [handle_file hwrite]; exact hheaded, rfl⟩
    have hsame : o.kind ∉ HeaderState.movingKinds →
        E.headerState sid (handle (E.environment appendFile others) o w).2 =
          E.headerState sid w := fun ho => headerState_handle hfits ho sid w
    cases o with
    | user call =>
        cases call with
        | write => exact absurd rfl hwrite
        | openStream stream ctx => exact moves_open hfits sid _ stream ctx w
        | updateStream stream ctx => exact moves_update hfits sid stream ctx w
        | invoke fn =>
            refine ⟨hsame (by simp [HeaderState.movingKinds, Op.kind, UserCall.kind]), ?_⟩
            exact fun hfn c hc => hfits.lambda fn _ _ c hfn hc
        | listener fn key args =>
            refine ⟨hsame (by simp [HeaderState.movingKinds, Op.kind, UserCall.kind]), ?_⟩
            intro hcalm heq
            subst heq
            exact hcalm.listener fn args _ _
        | _ => exact hsame (by simp [HeaderState.movingKinds, Op.kind, UserCall.kind])
    | getExecutionContext scope =>
        refine ⟨hsame (by simp [HeaderState.movingKinds, Op.kind]), ?_⟩
        intro heq
        subst heq
        rfl
    | saveExecutionContext scope ctx =>
        change _ = if scope = .stepExecutionId sid then _ else _
        unfold headerState
        split
        · next hscope =>
            subst hscope
            exact congrArg _ (congrArg E.flagIn (w.repo.getExecutionContext_save_self _ ctx))
        · next hscope =>
            exact congrArg _ (congrArg (fun c => E.flagIn c.data)
              (w.repo.getExecutionContext_save_of_ne ctx (Ne.symm hscope)))
    | _ => exact hsame (by simp [HeaderState.movingKinds, Op.kind])

end Steps

end CsvExport

end NestBatch
