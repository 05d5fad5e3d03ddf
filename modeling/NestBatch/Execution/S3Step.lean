import NestBatch.Execution.S3Environment

/-!
# The export step

One run of the chunk step executor between an S3 reader and an S3 writer.  At the
head of the chunk loop the two streams are in step and everything before them is
stored.  A chunk that is written puts the parcel with the next number into its
object, whether for the first time or again, and the checkpoint moves both
streams together.  So wherever the step fails, nothing is stored that should
not be, and the context it leaves is one to resume from.
-/

namespace NestBatch

open ListenerInvoker

variable {α υ : Type}

/-- The kinds of operation that move rows, contexts, streams or objects. -/
def s3Kinds : List OpKind :=
  rowKinds ++ [.saveContext, .read, .write, .openStream, .updateStream, .closeStream]

namespace S3Export

variable {E : S3Export α} {client : S3ObjectClient υ} {others : Environment α υ}
  {w w' w₀ w₁ w₂ : World (S3State × υ)}

/-- All is as in `w₀`, but for the streams, which are as given. -/
structure At (E : S3Export α) (w₀ : World (S3State × υ)) (reader : S3JsonlItemReader)
    (writer : S3ChunkJsonlItemWriter) (w : World (S3State × υ)) : Prop where
  rows : w₀.repo.SameRows w.repo
  objects : w.user.1.objects = w₀.user.1.objects
  places : ∀ scope, E.place (w.repo.getExecutionContext scope).data =
    E.place (w₀.repo.getExecutionContext scope).data
  reader : w.user.1.reader = reader
  writer : w.user.1.writer = writer

/-- All is as in `w₀`, but for the streams. -/
def SameStore (E : S3Export α) (w₀ w : World (S3State × υ)) : Prop :=
  E.At w₀ w.user.1.reader w.user.1.writer w

theorem At.refl (w : World (S3State × υ)) : E.At w w.user.1.reader w.user.1.writer w :=
  ⟨.refl _, rfl, fun _ => rfl, rfl, rfl⟩

theorem At.trans {reader reader' : S3JsonlItemReader} {writer writer' : S3ChunkJsonlItemWriter}
    (h : E.At w₀ reader writer w₁) (h' : E.At w₁ reader' writer' w₂) :
    E.At w₀ reader' writer' w₂ where
  rows := h.rows.trans h'.rows
  objects := h'.objects.trans h.objects
  places scope := (h'.places scope).trans (h.places scope)
  reader := h'.reader
  writer := h'.writer

/-- Standing at a place changes neither rows nor objects. -/
theorem At.sameStore {reader : S3JsonlItemReader} {writer : S3ChunkJsonlItemWriter}
    (h : E.At w₀ reader writer w) : E.SameStore w₀ w := ⟨h.rows, h.objects, h.places, rfl, rfl⟩

/-! ### What the operations leave alone -/

/-- The logic of such a step. -/
abbrev logic (E : S3Export α) (client : S3ObjectClient υ) (others : Environment α υ) :
    Prog.Logic (Op α) Op.Resp (World (S3State × υ) × Calls α) :=
  (worldLogic (E.environment client others)).total

/-- User code that is not one of the streams. -/
theorem handleUser_at (hfits : E.Fits client others) {call : UserCall α}
    (hcall : call.kind ∉ s3Kinds) (w : World (S3State × υ)) :
    E.At w w.user.1.reader w.user.1.writer
      (handleUser (E.environment client others) call w).2 := by
  have hpass : ∀ s saved, (E.environment client others).user call s saved =
      ((others.user call s.2 saved).1, (s.1, (others.user call s.2 saved).2.1),
        (others.user call s.2 saved).2.2) := by
    intro s saved
    cases call with
    | read => exact absurd (by simp [s3Kinds, UserCall.kind]) hcall
    | write => exact absurd (by simp [s3Kinds, UserCall.kind]) hcall
    | openStream => exact absurd (by simp [s3Kinds, UserCall.kind]) hcall
    | updateStream => exact absurd (by simp [s3Kinds, UserCall.kind]) hcall
    | closeStream => exact absurd (by simp [s3Kinds, UserCall.kind]) hcall
    | _ => rfl
  unfold handleUser
  cases call.stepScope with
  | none =>
      simp only [hpass]
      exact ⟨.refl _, rfl, fun _ => rfl, rfl, rfl⟩
  | some id =>
      simp only [hpass]
      refine ⟨sameRows_saveAll _ _ _, rfl, fun scope => ?_, rfl, rfl⟩
      exact data_saveAll E.place _ scope _ _ fun data hdata => hfits.saves _ _ _ data hdata

/-- A call that is none of the store's leaves reader and writer where they are. -/
theorem handle_at (hfits : E.Fits client others) {o : Op α} (ho : o.kind ∉ s3Kinds)
    (w : World (S3State × υ)) : E.At w w.user.1.reader w.user.1.writer
      (handle (E.environment client others) o w).2 := by
  cases o with
  | createExecutionAtomic => exact absurd (by simp [s3Kinds, rowKinds, Op.kind]) ho
  | updateJobExecution => exact absurd (by simp [s3Kinds, rowKinds, Op.kind]) ho
  | createStepExecution => exact absurd (by simp [s3Kinds, rowKinds, Op.kind]) ho
  | updateStepExecution => exact absurd (by simp [s3Kinds, rowKinds, Op.kind]) ho
  | saveExecutionContext => exact absurd (by simp [s3Kinds, rowKinds, Op.kind]) ho
  | user call => exact handleUser_at hfits ho w
  | enqueue payload =>
      simp only [handle]
      split
      · exact ⟨.refl _, rfl, fun _ => rfl, rfl, rfl⟩
      · exact ⟨.refl _, rfl, fun _ => rfl, rfl, rfl⟩
  | _ => exact ⟨.refl _, rfl, fun _ => rfl, rfl, rfl⟩

/-- Closing a stream. -/
theorem handle_close (stream : Handle) (w : World (S3State × υ)) :
    E.SameStore w (handle (E.environment client others)
      (.user (.closeStream stream) : Op α) w).2 := by
  have hcases : (handle (E.environment client others) (.user (.closeStream stream) : Op α) w).2 =
      { w with user := ((E.environment client others).user (.closeStream stream) w.user
        { data := .null, version := 0 }).2.1 } := rfl
  have hobjects : ((E.environment client others).user (.closeStream stream) w.user
      { data := .null, version := 0 }).2.1.1.objects = w.user.1.objects := by
    unfold environment
    dsimp only
    split
    · rfl
    · split <;> rfl
  rw [hcases]
  exact ⟨.refl _, hobjects, fun _ => rfl, rfl, rfl⟩

section Frames

variable {K : List OpKind} (hfits : E.Fits client others)
include hfits

/-- Operations that are none of the streams' keep everything where it is. -/
theorem at_frame (hK : ∀ k ∈ K, k ∉ s3Kinds) (w₀ : World (S3State × υ))
    (reader : S3JsonlItemReader) (writer : S3ChunkJsonlItemWriter) :
    (E.logic client others).Frame (On K) fun s => E.At w₀ reader writer s.1 where
  guard _ _ _ _ := trivial
  keep o s r s' ho hs ht := by
    cases ht
    have hkept := hs.trans (handle_at hfits (hK _ ho) s.1)
    exact ⟨hkept.rows, hkept.objects, hkept.places, hkept.reader.trans hs.reader,
      hkept.writer.trans hs.writer⟩
  loops h := h.elim

theorem listener_frame (w₀ : World (S3State × υ)) (reader : S3JsonlItemReader)
    (writer : S3ChunkJsonlItemWriter) :
    (E.logic client others).Frame (On [.listener]) fun s => E.At w₀ reader writer s.1 :=
  at_frame hfits (by decide) w₀ reader writer

/-- So does closing the streams, but for the streams themselves. -/
theorem sameStore_frame (w₀ : World (S3State × υ)) :
    (E.logic client others).Frame (On ChunkStepExecutor.closingKinds)
      fun s => E.SameStore w₀ s.1 where
  guard _ _ _ _ := trivial
  keep o s r s' ho hs ht := by
    cases ht
    by_cases hclose : o.kind = .closeStream
    · cases o with
      | user call =>
          cases call with
          | closeStream stream =>
              have hclosed : E.SameStore s.1 (handle (E.environment client others)
                (.user (.closeStream stream) : Op α) s.1).2 := handle_close stream s.1
              exact At.sameStore (At.trans hs hclosed)
          | _ => cases hclose
      | _ => cases hclose
    · refine (hs.trans (handle_at hfits ?_ s.1)).sameStore
      have hkind : o.kind ∈ ChunkStepExecutor.closingKinds := ho
      simp only [ChunkStepExecutor.closingKinds, List.mem_cons, List.not_mem_nil, or_false] at hkind
      rcases hkind with hkind | hkind | hkind
      · exact absurd hkind hclose
      · rw [hkind]
        decide
      · rw [hkind]
        decide
  loops h := h.elim

end Frames

/-! ### The streams at work -/

/-- What the reader answers. -/
theorem handle_read (E : S3Export α) (client : S3ObjectClient υ) (others : Environment α υ)
    (ctx : ItemExecutionContext) (w : World (S3State × υ)) :
    handle (E.environment client others) (.user (.read E.readerHandle ctx)) w =
      ((S3JsonlItemReader.read E.readerOptions w.user.1.reader).1,
        { w with user := ({ w.user.1 with
            reader := (S3JsonlItemReader.read E.readerOptions w.user.1.reader).2 },
          w.user.2) }) := by
  unfold handle handleUser environment
  simp only [UserCall.stepScope, if_true, World.saveAll]
  rfl

/-- The world once the writer has put its parcel. -/
def wrote (E : S3Export α) (items : List α) (w : World (S3State × υ)) : World (S3State × υ) :=
  { w with user := ({ w.user.1 with
      writer := { chunkIndex := w.user.1.writer.chunkIndex + 1 }
      objects := Function.update w.user.1.objects
        (S3ChunkJsonlItemWriter.location E.writerOptions w.user.1.writer.chunkIndex)
        (some ((E.render items).getD "")) }, w.user.2) }

/-- A write call is the S3 writer's own write. -/
theorem handle_write (E : S3Export α) (client : S3ObjectClient υ) (others : Environment α υ)
    (items : List α) (ctx : ItemExecutionContext) (w : World (S3State × υ)) :
    handle (E.environment client others) (.user (.write E.writerHandle items ctx)) w =
      let written := S3ChunkJsonlItemWriter.write E.writerOptions client items w.user.1.objects
        w.user.1.writer w.user.2
      ((written.1.map fun _ => none : Except Thrown (Option WriterResult)),
        { w with user := ({ w.user.1 with writer := written.2.1, objects := written.2.2.1 },
          written.2.2.2) }) := by
  unfold handle handleUser environment
  simp only [UserCall.stepScope, if_true, World.saveAll]
  rfl

/-- A write that goes well puts the whole parcel, one that fails changes nothing. -/
theorem write_cases (hfits : E.Fits client others) (hwell : E.WellFormed) {items : List α}
    (hitems : items ≠ []) (objects : S3Objects) (writer : S3ChunkJsonlItemWriter) (user : υ) :
    let written := S3ChunkJsonlItemWriter.write E.writerOptions client items objects writer user
    (∃ err, written.1 = .error err ∧ E.Unskippable err ∧ written.2.1 = writer ∧
        written.2.2.1 = objects) ∨
      (written.1 = .ok () ∧ (E.render items).isSome = true ∧
        written.2.1 = { chunkIndex := writer.chunkIndex + 1 } ∧
        written.2.2.1 = Function.update objects
          (S3ChunkJsonlItemWriter.location E.writerOptions writer.chunkIndex)
          (some ((E.render items).getD ""))) := by
  unfold S3ChunkJsonlItemWriter.write render
  rw [if_neg (by simpa using hitems)]
  cases hbody : S3ChunkJsonlItemWriter.body E.writerOptions items with
  | error err => exact .inl ⟨err, rfl, hwell.printable items err hbody, rfl, rfl⟩
  | ok text =>
      dsimp only [S3ObjectClient.putObject]
      split
      · next err objects' user' hput =>
          split at hput
          · next err' user'' hrefused =>
              cases hput
              exact .inl ⟨err, rfl, hfits.refusal _ _ err (congrArg Prod.fst hrefused), rfl, rfl⟩
          · cases hput
      · next objects' user' hput =>
          split at hput
          · cases hput
          · cases hput
            exact .inr ⟨rfl, rfl, rfl, rfl⟩

/-! ### What a run never spoils -/

/-- The source and the objects are as they should be, every step execution of `e`
has a context to resume from, and an execution that is COMPLETED has stored everything. -/
structure Clean (E : S3Export α) (e jobId : String) (w : World (S3State × υ)) : Prop where
  filed : w.repo.StepsFiled
  fresh : ∀ n, w.repo.issued ≤ n →
    E.place (w.repo.getExecutionContext (.stepExecutionId (w.repo.idGen.next n))).data = (0, 0)
  intact : E.Intact w.user.1.objects
  contexts : ∀ sid row, w.repo.stepExecutions.get? sid = some row → row.jobExecutionId = e →
    E.Resumes w.user.1.objects (w.repo.getExecutionContext (.stepExecutionId sid)).data
  owner : ∀ row, w.repo.getJobExecution e = some row → row.id = e ∧
    ∃ inst, w.repo.getJobInstance row.jobInstanceId = some inst ∧ inst.jobName = jobId
  done : ∀ row, w.repo.getJobExecution e = some row → row.status = .COMPLETED →
    E.Finished w.user.1.objects

/-- The head of the chunk loop of a step execution. -/
structure AtHead (E : S3Export α) (e jobId sid : String) (w : World (S3State × υ)) : Prop where
  clean : E.Clean e jobId w
  row : ∃ row, w.repo.stepExecutions.get? sid = some row ∧ row.jobExecutionId = e
  place : E.AtPlace w.user.1.objects w.user.1.reader w.user.1.writer.chunkIndex

section Clean

variable {e jobId sid : String} {reader : S3JsonlItemReader} {writer : S3ChunkJsonlItemWriter}
  {objects : S3Objects} {items : List α} {n : Nat}

theorem Resumes.congr {data data' : JsonValue} (h : E.Resumes objects data)
    (hplace : E.place data' = E.place data) : E.Resumes objects data' := by
  unfold Resumes at h ⊢
  rw [hplace]
  exact h

/-- The store stays clean while only the places move. -/
theorem Clean.of_at (h : E.Clean e jobId w) (hat : E.At w reader writer w') :
    E.Clean e jobId w' := by
  have hget : w'.repo.getJobExecution e = w.repo.getJobExecution e := hat.rows.getJobExecution e
  refine ⟨hat.rows.stepsFiled h.filed, ?_, hat.objects ▸ h.intact, ?_, ?_, ?_⟩
  · intro n hn
    rw [hat.rows.issued] at hn
    rw [hat.rows.idGen, hat.places]
    exact h.fresh n hn
  · intro sid row hrow he
    rw [hat.rows.stepExecutions] at hrow
    rw [hat.objects]
    exact (h.contexts sid row hrow he).congr (hat.places _)
  · intro row hrow
    rw [hget] at hrow
    unfold InMemoryJobRepository.getJobInstance
    rw [hat.rows.instances]
    exact h.owner row hrow
  · intro row hrow hstatus
    rw [hget] at hrow
    rw [hat.objects]
    exact h.done row hrow hstatus

/-- The numbered objects once one of them is put. -/
theorem sink_put (E : S3Export α) (objects : S3Objects) (n : Nat) (body : Option String) :
    E.sink (Function.update objects (S3ChunkJsonlItemWriter.location E.writerOptions n) body) =
      Function.update (E.sink objects) n body := by
  funext i
  unfold sink
  by_cases hi : i = n
  · rw [hi, Function.update_self, Function.update_self]
  · have hne := (S3ChunkJsonlItemWriter.location_injective E.writerOptions).ne hi
    rw [Function.update_of_ne hi, Function.update_of_ne hne]

/-- Putting a parcel takes nothing away. -/
theorem AtPlace.put {chunkIndex : Int} (h : E.AtPlace objects reader chunkIndex) (n : Nat)
    (body : String) : E.AtPlace (Function.update objects
      (S3ChunkJsonlItemWriter.location E.writerOptions n) (some body)) reader chunkIndex := by
  obtain ⟨k, hk, hstep, hholds⟩ := h.inStep
  refine ⟨h.lines, h.nonneg, k, hk, hstep, ?_⟩
  rw [sink_put]
  exact hholds.file

/-- Putting the parcel of a number under that number spoils nothing. -/
theorem Clean.wrote (hwell : E.WellFormed) (h : E.Clean e jobId w)
    (hindex : w.user.1.writer.chunkIndex = n) (hparcel : E.parcels[n]? = some items)
    (hrender : (E.render items).isSome = true) : E.Clean e jobId (E.wrote items w) := by
  obtain ⟨body, hbody⟩ := Option.isSome_iff_exists.mp hrender
  have hobjects : (E.wrote items w).user.1.objects = Function.update w.user.1.objects
      (S3ChunkJsonlItemWriter.location E.writerOptions n) (some body) := by
    unfold S3Export.wrote
    rw [hindex, hbody]
    rfl
  refine ⟨h.filed, h.fresh, ⟨?_, ?_⟩, ?_, h.owner, ?_⟩
  · rw [hobjects, Function.update_of_ne (hwell.apart n).symm]
    exact h.intact.source
  · rw [hobjects, sink_put]
    exact h.intact.faithful.file hparcel hbody
  · intro sid row hrow he
    rw [hobjects]
    exact (h.contexts sid row hrow he).put n body
  · intro row hrow hstatus
    rw [hobjects]
    unfold Finished
    rw [sink_put]
    exact (h.done row hrow hstatus).file

/-- The head of the loop is kept while only the places move. -/
theorem AtHead.of_at (h : E.AtHead e jobId sid w)
    (hat : E.At w w.user.1.reader w.user.1.writer w') : E.AtHead e jobId sid w' := by
  refine ⟨h.clean.of_at hat, ?_, ?_⟩
  · rw [hat.rows.stepExecutions]
    exact h.row
  · rw [hat.objects, hat.reader, hat.writer]
    exact h.place

/-- A chunk of which nothing is left: the reader moves on, the writer stays. -/
theorem AtHead.drop (h : E.AtHead e jobId sid w)
    (hchunk : (E.chunkAt w.user.1.reader).1 ≠ [])
    (hnone : (E.chunkAt w.user.1.reader).1.filterMap E.process = [])
    (hat : E.At w (E.chunkAt w.user.1.reader).2 w.user.1.writer w') : E.AtHead e jobId sid w' := by
  obtain ⟨n, hindex, hstep, hholds⟩ := h.place.inStep
  have hmoves := S3JsonlItemReader.readChunk_moves E.readerOptions E.step.chunkSize h.place.nonneg
  have hadvance := E.transfer_advance hchunk
  rw [hnone] at hadvance
  refine ⟨h.clean.of_at hat, ?_, ?_⟩
  · rw [hat.rows.stepExecutions]
    exact h.row
  · rw [hat.objects, hat.reader, hat.writer]
    exact ⟨hmoves.1.trans h.place.lines, Int.le_trans h.place.nonneg hmoves.2, n, hindex,
      hstep.advance hadvance, hholds⟩

/-- A chunk of which something is left: its parcel is put, and both streams move on. -/
theorem AtHead.put (hwell : E.WellFormed) (h : E.AtHead e jobId sid w)
    (hchunk : (E.chunkAt w.user.1.reader).1 ≠ [])
    (hitems : (E.chunkAt w.user.1.reader).1.filterMap E.process = items) (hne : items ≠ [])
    (hrender : (E.render items).isSome = true)
    (hat : E.At (E.wrote items w) (E.chunkAt w.user.1.reader).2
      { chunkIndex := w.user.1.writer.chunkIndex + 1 } w') :
    E.AtHead e jobId sid w' := by
  obtain ⟨n, hindex, hstep, hholds⟩ := h.place.inStep
  have hmoves := S3JsonlItemReader.readChunk_moves E.readerOptions E.step.chunkSize h.place.nonneg
  have hadvance := E.transfer_advance hchunk
  have hparcel : parcelOf items = some items := by
    cases items with
    | nil => exact absurd rfl hne
    | cons item rest => rfl
  rw [hitems, hparcel] at hadvance
  refine ⟨(h.clean.wrote hwell hindex (hstep.parcel hadvance) hrender).of_at hat, ?_, ?_⟩
  · rw [hat.rows.stepExecutions]
    exact h.row
  · rw [hat.objects, hat.reader, hat.writer]
    refine ⟨hmoves.1.trans h.place.lines, Int.le_trans h.place.nonneg hmoves.2, n + 1, ?_,
      hstep.advance hadvance, ?_⟩
    · dsimp only
      omega
    · unfold S3Export.wrote
      rw [hindex, sink_put]
      exact hholds.succ

/-- At the end of the source everything is stored. -/
theorem AtHead.finished (h : E.AtHead e jobId sid w)
    (hchunk : (E.chunkAt w.user.1.reader).1 = []) : E.Finished w.user.1.objects := by
  obtain ⟨n, hindex, hstep, hholds⟩ := h.place.inStep
  have hended : E.transfer.advance w.user.1.reader = none := s3Transfer_ended hchunk
  have hlength : n = E.parcels.length := hstep.ended hended
  unfold Finished
  rw [← hlength]
  exact hholds

end Clean

/-! ### The phases of a chunk -/

/-- The setting of a step that resolved to the two streams. -/
structure Prepared (E : S3Export α) (sid : String) (S : ChunkStepExecutor.Setting) : Prop where
  step : S.step = E.step
  stepExecutionId : S.context.stepExecutionId = sid
  reader : S.reader = { target := E.readerHandle, isStream := true }
  writer : S.writer = { target := E.writerHandle, isStream := true }
  processor : S.processor = none → E.step.processor = none
  skip : S.policies.skip = E.step.skipPolicy
  partition : S.partition = none

/-- An error that no policy takes is not skipped. -/
theorem Unskippable.consult {policies : Policies} (hskip : policies.skip = E.step.skipPolicy)
    {err : Thrown} (h : E.Unskippable err) (skipCount attempt : Nat) :
    ChunkStepExecutor.consult policies err skipCount attempt ≠ .skip := by
  intro hskipped
  have hskips := (ChunkStepExecutor.consult_skip hskipped).1
  unfold Policies.skips Policies.covers at hskips
  cases hpolicy : policies.skip with
  | none =>
      rw [hpolicy] at hskips
      cases hskips
  | some policy =>
      rw [hpolicy] at hskips
      have hanswer := answered_eq_ok.mp (of_decide_eq_true hskips)
      unfold SkipPolicy.shouldSkip at hanswer
      split at hanswer
      · cases hanswer
      · exact h policy (hskip.symm.trans hpolicy) hanswer

open ChunkStepExecutor

section Phases

variable {S : Setting} {e jobId sid : String} {reader : S3JsonlItemReader}
  {writer : S3ChunkJsonlItemWriter} {l : Locals} {s : World (S3State × υ) × Calls α}

/-- The states of reading one item. -/
def readStates (E : S3Export α) (w₀ : World (S3State × υ)) (reader : S3JsonlItemReader)
    (writer : S3ChunkJsonlItemWriter) : PhaseStates (World (S3State × υ) × Calls α) (Option α) where
  I s := E.At w₀ reader writer s.1
  V found s := (S3JsonlItemReader.read E.readerOptions reader).1 = .ok found ∧
    E.At w₀ (S3JsonlItemReader.read E.readerOptions reader).2 writer s.1
  E _ s := False ∧ E.At w₀ reader writer s.1
  A s := E.SameStore w₀ s.1

/-- The states of processing one item. -/
def processStates (E : S3Export α) (w₀ : World (S3State × υ)) (reader : S3JsonlItemReader)
    (writer : S3ChunkJsonlItemWriter) (item : α) :
    PhaseStates (World (S3State × υ) × Calls α) (Option α) where
  I s := E.At w₀ reader writer s.1
  V value s := value = E.process item ∧ E.At w₀ reader writer s.1
  E err s := (E.process item = none ∨ E.Unskippable err) ∧ E.At w₀ reader writer s.1
  A s := E.SameStore w₀ s.1

variable (hfits : E.Fits client others) (hwell : E.WellFormed) (hS : E.Prepared sid S)

section Process

include hfits

/-- The hooks of a process call leave reader and writer where they are. -/
theorem processStates_sound (k : Int) (processor : Handle) (item : α) :
    (processStates E w₀ reader writer item).Sound (E.logic client others)
      (orThrow (request (.user (.process processor item (S.itemContext k)))))
      (S.processHooks k item) := by
  refine .of_frames (K := [.listener]) (S.processHooks_within (by decide) k item)
    (listener_frame hfits _ _ _) (fun _ => (listener_frame hfits _ _ _).and_left _)
    (fun _ => (listener_frame hfits _ _ _).and_left _) ?_ (fun _ _ h => h.2)
    (fun _ h => h.sameStore) fun _ _ h => h.2.sameStore
  intro s hs
  refine wp_orThrow.mpr (Prog.wp_perform.mpr ⟨trivial, ?_⟩)
  intro r s' ht
  have hprocess : OpKind.process ∈ [OpKind.process] := List.mem_singleton_self _
  have hat := (at_frame hfits (K := [.process]) (by decide) w₀ reader writer).keep
    (.user (.process processor item (S.itemContext k))) s r s' hprocess hs ht
  have hanswer : (others.user (.process processor item (S.itemContext k)) s.1.user.2
      (s.1.repo.getExecutionContext (.stepExecutionId (S.itemContext k).stepExecutionId))).1 = r :=
    congrArg Prod.fst ht
  cases r with
  | error err => exact ⟨hfits.throwing _ _ _ _ _ err hanswer, hat⟩
  | ok value => exact ⟨hfits.process _ _ _ _ _ value hanswer, hat⟩

end Process

include hS

/-- One read moves the reader on, and does not throw. -/
theorem wp_read (hplace : 0 ≤ reader.index)
    (hreadable : S3JsonlItemReader.Readable E.readerOptions reader.lines) (k : Int)
    (hs : E.At w₀ reader writer s.1) :
    (S.read k : Code α (Option α)).wp (E.logic client others)
      (readStates E w₀ reader writer).attempted s := by
  unfold Setting.read
  rw [hS.reader]
  refine wp_orThrow.mpr (Prog.wp_perform.mpr ⟨trivial, ?_⟩)
  intro r s' ht
  obtain ⟨found, hfound⟩ := S3JsonlItemReader.read_ok hplace hreadable
  have hhandled := handle_read E client others (S.itemContext k) s.1
  rw [hs.reader] at hhandled
  have hr : (S3JsonlItemReader.read E.readerOptions reader).1 = r :=
    (congrArg Prod.fst hhandled).symm.trans (congrArg Prod.fst ht)
  have hs' : { s.1 with user := ({ s.1.user.1 with
      reader := (S3JsonlItemReader.read E.readerOptions reader).2 }, s.1.user.2) } = s'.1 :=
    (congrArg Prod.snd hhandled).symm.trans (congrArg (fun t => t.2.1) ht)
  obtain rfl := hr.symm.trans hfound
  refine ⟨hfound, ?_⟩
  rw [← hs']
  exact ⟨hs.rows, hs.objects, hs.places, rfl, hs.writer⟩

include hfits

/-- The read phase reads a chunk, or throws on the way. -/
theorem wp_readPhase (k : Int) (n : Nat) (items : List α) (hplace : 0 ≤ reader.index)
    (hreadable : S3JsonlItemReader.Readable E.readerOptions reader.lines)
    (hs : E.At w₀ reader writer s.1) :
    Scoped.wp (E.logic client others) (S.readPhase k n items) (fun out l' s' => SameChunk l l' ∧
      match out with
      | .ok read => read = items ++ (S3JsonlItemReader.readChunk E.readerOptions n reader).1 ∧
          E.At w₀ (S3JsonlItemReader.readChunk E.readerOptions n reader).2 writer s'.1
      | .error _ => E.SameStore w₀ s'.1) l s := by
  induction n generalizing reader items l s with
  | zero => exact ⟨.refl l, (List.append_nil items).symm, hs⟩
  | succ n ih =>
      have hsound : (readStates E w₀ reader writer).Sound (E.logic client others) (S.read k)
          (S.readHooks k) :=
        .of_frames (K := [.listener]) (S.readHooks_within (by decide) k)
          (listener_frame hfits _ _ _)
          (fun _ => (listener_frame hfits _ _ _).and_left _)
          (fun _ => (listener_frame hfits _ _ _).and_left _)
          (fun _ hs => wp_read hS hplace hreadable k hs) (fun _ _ h => h.1.elim)
          (fun _ h => h.sameStore) fun _ _ h => h.2.sameStore
      refine Scoped.wp_seq (wp_runPhase S.policies hsound hs) ?_ fun _ _ _ h => h
      intro found l₁ s₁ h₁
      obtain ⟨hl₁, hended⟩ := h₁
      have hmoves := S3JsonlItemReader.read_moves E.readerOptions hplace
      match found with
      | .skipped =>
          obtain ⟨_, _, _, hnever, _⟩ := hended
          exact hnever.1.elim
      | .ok none =>
          obtain ⟨hfound, hat⟩ := hended
          rw [S3JsonlItemReader.readChunk_end n hfound]
          exact ⟨hl₁, (List.append_nil items).symm, hat⟩
      | .ok (some item) =>
          obtain ⟨hfound, hat⟩ := hended
          rw [S3JsonlItemReader.readChunk_item n hfound]
          refine Scoped.wp_mono (ih (items ++ [item]) (Int.le_trans hplace hmoves.2)
            (by rw [hmoves.1]; exact hreadable) hat) ?_
          intro out l₂ s₂ h₂
          have hcounted : SameChunk l₁ { l₁ with readCount := l₁.readCount + 1 } :=
            ⟨rfl, rfl, rfl, rfl⟩
          have hl : SameChunk l l₂ := .trans _ _ _ (.trans _ _ _ hl₁ hcounted) h₂.1
          cases out with
          | error err => exact ⟨hl, h₂.2⟩
          | ok read =>
              refine ⟨hl, h₂.2.1.trans ?_, h₂.2.2⟩
              rw [List.append_assoc]
              rfl

include hwell

/-- The process phase keeps what the processor keeps, or throws on the way. -/
theorem wp_processPhase (k : Int) (items processed : List α) (hs : E.At w₀ reader writer s.1) :
    Scoped.wp (E.logic client others) (S.processPhase k items processed)
      (fun out l' s' => SameChunk l l' ∧
        match out with
        | .ok kept => kept = processed ++ items.filterMap E.process ∧ E.At w₀ reader writer s'.1
        | .error _ => E.SameStore w₀ s'.1) l s := by
  induction items generalizing processed l s with
  | nil => exact ⟨.refl l, (List.append_nil processed).symm, hs⟩
  | cons item items ih =>
      have hcons : (item :: items).filterMap E.process =
          (E.process item).toList ++ items.filterMap E.process := by
        cases hitem : E.process item with
        | none => rw [List.filterMap_cons_none hitem]; rfl
        | some value => rw [List.filterMap_cons_some hitem]; rfl
      -- the rest of the items, behind whatever was kept of this one
      have hrest {l₁ : Locals} {s₁ : World (S3State × υ) × Calls α} {kept : Option α}
          (hkept : kept = E.process item) (hl₁ : SameChunk l l₁)
          (hat : E.At w₀ reader writer s₁.1) :
          Scoped.wp (E.logic client others) (S.processPhase k items (processed ++ kept.toList))
            (fun out l' s' => SameChunk l l' ∧
              match out with
              | .ok kept => kept = processed ++ (item :: items).filterMap E.process ∧
                  E.At w₀ reader writer s'.1
              | .error _ => E.SameStore w₀ s'.1) l₁ s₁ := by
        refine Scoped.wp_mono (ih (processed ++ kept.toList) hat) ?_
        intro out l₂ s₂ h₂
        have hl : SameChunk l l₂ := .trans _ _ _ hl₁ h₂.1
        cases out with
        | error err => exact ⟨hl, h₂.2⟩
        | ok found =>
            refine ⟨hl, h₂.2.1.trans ?_, h₂.2.2⟩
            rw [hcons, hkept, List.append_assoc]
      unfold Setting.processPhase
      cases hprocessor : S.processor with
      | none =>
          have hplain := hwell.plain (hS.processor hprocessor) item
          exact hrest hplain.symm (.refl l) hs
      | some processor =>
          have hsound : (processStates E w₀ reader writer item).Sound (E.logic client others)
              (orThrow (request (.user (.process processor.target item (S.itemContext k)))))
              (S.processHooks k item) := processStates_sound hfits k processor.target item
          refine Scoped.wp_seq (wp_runPhase S.policies hsound hs) ?_ fun _ _ _ h => h
          intro found l₁ s₁ h₁
          obtain ⟨hl₁, hended⟩ := h₁
          cases found with
          | skipped =>
              obtain ⟨err, skipCount, attempt, ⟨hdropped, hat⟩, hskipped⟩ := hended
              rcases hdropped with hdropped | hunskippable
              · have hnothing := hrest hdropped.symm hl₁ hat
                rw [Option.toList_none, List.append_nil] at hnothing
                exact hnothing
              · exact absurd hskipped (hunskippable.consult hS.skip skipCount attempt)
          | ok kept =>
              cases kept with
              | some value => exact hrest hended.1 hl₁ hended.2
              | none =>
                  have hcounted : SameChunk l₁ { l₁ with skipCount := l₁.skipCount + 1 } :=
                    ⟨rfl, rfl, rfl, rfl⟩
                  have hnothing := hrest hended.1 (.trans _ _ _ hl₁ hcounted) hended.2
                  rw [Option.toList_none, List.append_nil] at hnothing
                  exact hnothing

/-- The states of writing a parcel. -/
def writeStates (E : S3Export α) (e jobId : String) (w₀ : World (S3State × υ))
    (reader : S3JsonlItemReader) (items : List α) :
    PhaseStates (World (S3State × υ) × Calls α) (Option WriterResult) where
  I s := E.At w₀ reader w₀.user.1.writer s.1
  V _ s := (E.render items).isSome = true ∧
    E.At (E.wrote items w₀) reader { chunkIndex := w₀.user.1.writer.chunkIndex + 1 } s.1
  E err s := E.Unskippable err ∧ E.At w₀ reader w₀.user.1.writer s.1
  A s := E.Clean e jobId s.1

/-- One write puts the parcel, or fails in a way that is not skipped. -/
theorem wp_write (k : Int) {items : List α} (hne : items ≠ [])
    (hs : E.At w₀ reader w₀.user.1.writer s.1) :
    (S.write k items).wp (E.logic client others)
      (writeStates E e jobId w₀ reader items).attempted s := by
  unfold Setting.write
  rw [hS.writer]
  refine wp_orThrow.mpr (Prog.wp_perform.mpr ⟨trivial, ?_⟩)
  intro r s' ht
  have hcases := write_cases hfits hwell hne s.1.user.1.objects s.1.user.1.writer s.1.user.2
  have hhandled := handle_write E client others items (S.itemContext k) s.1
  generalize S3ChunkJsonlItemWriter.write E.writerOptions client items s.1.user.1.objects
    s.1.user.1.writer s.1.user.2 = written at hcases hhandled
  have hr : (written.1.map fun _ => none : Except Thrown (Option WriterResult)) = r :=
    (congrArg Prod.fst hhandled).symm.trans (congrArg Prod.fst ht)
  have hs' : { s.1 with user := ({ s.1.user.1 with
      writer := written.2.1
      objects := written.2.2.1 }, written.2.2.2) } = s'.1 :=
    (congrArg Prod.snd hhandled).symm.trans (congrArg (fun t => t.2.1) ht)
  rcases hcases with ⟨err, hrefused, hunskippable, hwriter, hobjects⟩ |
    ⟨hdone, hrender, hwriter, hobjects⟩
  · rw [hrefused] at hr
    subst hr
    rw [hwriter, hobjects] at hs'
    refine ⟨hunskippable, ?_⟩
    rw [← hs']
    exact ⟨hs.rows, hs.objects, hs.places, hs.reader, hs.writer⟩
  · rw [hdone] at hr
    subst hr
    rw [hwriter, hobjects, hs.writer, hs.objects] at hs'
    refine ⟨hrender, ?_⟩
    rw [← hs']
    exact ⟨hs.rows, rfl, hs.places, hs.reader, rfl⟩

/-- The write phase leads to the head of the loop behind the chunk, or throws where
nothing is spoilt. -/
theorem wp_writePhase (k : Int) {items : List α} (hhead : E.AtHead e jobId sid w₀)
    (hchunk : (E.chunkAt w₀.user.1.reader).1 ≠ [])
    (hitems : (E.chunkAt w₀.user.1.reader).1.filterMap E.process = items)
    (hs : E.At w₀ (E.chunkAt w₀.user.1.reader).2 w₀.user.1.writer s.1) :
    Scoped.wp (E.logic client others) (S.writePhase k items) (fun out l' s' => SameChunk l l' ∧
      match out with
      | .ok _ => E.AtHead e jobId sid s'.1 ∧
          s'.1.user.1.reader = (E.chunkAt w₀.user.1.reader).2
      | .error _ => E.Clean e jobId s'.1) l s := by
  unfold Setting.writePhase
  split
  · next hempty =>
      obtain rfl : items = [] := List.isEmpty_iff.mp hempty
      exact ⟨.refl l, hhead.drop hchunk hitems hs, hs.reader⟩
  · next hnonempty =>
      have hne : items ≠ [] := fun h => hnonempty (List.isEmpty_iff.mpr h)
      have hput (value : Option WriterResult) {s' : World (S3State × υ) × Calls α}
          (h : (writeStates E e jobId w₀ (E.chunkAt w₀.user.1.reader).2 items).V value s') :
          E.AtHead e jobId sid s'.1 := hhead.put hwell hchunk hitems hne h.1 h.2
      have hsound : (writeStates E e jobId w₀ (E.chunkAt w₀.user.1.reader).2 items).Sound
          (E.logic client others) (S.write k items) (S.writeHooks k items) :=
        .of_frames (K := [.listener]) (S.writeHooks_within (by decide) k items)
          (listener_frame hfits _ _ _) (fun _ => (listener_frame hfits _ _ _).and_left _)
          (fun _ => (listener_frame hfits _ _ _).and_left _)
          (fun _ hs => wp_write hfits hwell hS k hne hs) (fun _ _ h => h.2)
          (fun _ h => hhead.clean.of_at h) fun _ _ h => (hput _ h).clean
      refine Scoped.wp_seq (wp_runPhase S.policies hsound hs) ?_ fun _ _ _ h => h
      intro written l₁ s₁ h₁
      obtain ⟨hl₁, hended⟩ := h₁
      match written with
      | .ok value =>
          refine wp_seq_countWrite ((at_frame hfits (by decide) _ _ _).and_left _) hended ?_
          intro l₂ s₂ hcounted hended'
          exact ⟨.trans _ _ _ hl₁ hcounted, hput value hended', hended'.2.reader⟩
      | .skipped =>
          obtain ⟨err, skipCount, attempt, hfailed, hskipped⟩ := hended
          exact absurd hskipped (hfailed.1.consult hS.skip skipCount attempt)

end Phases

end S3Export

end NestBatch
