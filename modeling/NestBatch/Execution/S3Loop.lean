import NestBatch.Execution.S3Step

/-!
# The export step, from its streams to its result

The two streams are opened on the context of the step, and the chunk loop keeps them in
step: a chunk that is passed moves both of them, and the checkpoint records where they are.
The step reports success only behind the last chunk, where everything is stored.
-/

namespace NestBatch

open ListenerInvoker

variable {α υ : Type}

namespace S3Export

variable {E : S3Export α} {client : S3ObjectClient υ} {others : Environment α υ}
  {w w' : World (S3State × υ)} {e jobId sid : String}

/-! ### Saved places -/

/-- Where a step begins that has nothing to resume from. -/
theorem resumes_fresh (E : S3Export α) (objects : S3Objects) {data : JsonValue}
    (hplace : E.place data = (0, 0)) : E.Resumes objects data := by
  unfold Resumes
  rw [hplace]
  exact ⟨rfl, Int.le_refl 0, 0, rfl, ⟨Nat.zero_le _, rfl⟩,
    fun i hi => absurd hi (Nat.not_lt_zero i)⟩

/-- A context to resume from, saved for a step execution. -/
theorem Clean.save (h : E.Clean e jobId w) {row : StepExecution}
    (hrow : w.repo.stepExecutions.get? sid = some row) {ctx : ExecutionContext}
    (hctx : E.Resumes w.user.1.objects ctx.data) :
    E.Clean e jobId
      { w with repo := w.repo.saveExecutionContext (.stepExecutionId sid) ctx } := by
  refine ⟨⟨h.filed.own, h.filed.issued⟩, ?_, h.intact, ?_, h.owner, h.done⟩
  · intro n hn
    obtain ⟨k, hk, hid⟩ := h.filed.issued sid row hrow
    have hne : w.repo.idGen.next n ≠ sid := by
      intro heq
      have hnk := w.repo.idGen.unique (heq.trans hid)
      change w.repo.issued ≤ n at hn
      omega
    have hscope : ExecutionScope.stepExecutionId (w.repo.idGen.next n) ≠ .stepExecutionId sid :=
      fun heq => hne (ExecutionScope.stepExecutionId.inj heq)
    have hother := w.repo.getExecutionContext_save_of_ne ctx hscope
    change E.place ((w.repo.saveExecutionContext _ ctx).getExecutionContext
      (.stepExecutionId (w.repo.idGen.next n))).data = _
    rw [hother]
    exact h.fresh n hn
  · intro sid' row' hrow' he
    by_cases hsid : sid' = sid
    · subst hsid
      have hself := w.repo.getExecutionContext_save_self (.stepExecutionId sid') ctx
      change E.Resumes _ ((w.repo.saveExecutionContext _ ctx).getExecutionContext _).data
      rw [hself]
      exact hctx
    · have hscope : ExecutionScope.stepExecutionId sid' ≠ .stepExecutionId sid :=
        fun heq => hsid (ExecutionScope.stepExecutionId.inj heq)
      have hother := w.repo.getExecutionContext_save_of_ne ctx hscope
      change E.Resumes _ ((w.repo.saveExecutionContext _ ctx).getExecutionContext _).data
      rw [hother]
      exact h.contexts sid' row' hrow' he

/-- What the two streams write into a context. -/
theorem place_update (hwell : E.WellFormed) (reader : S3JsonlItemReader)
    (writer : S3ChunkJsonlItemWriter) (ctx : ExecutionContext) :
    E.place (S3ChunkJsonlItemWriter.update E.writerOptions writer
      (S3JsonlItemReader.update E.readerOptions reader ctx)).data =
      (reader.index, writer.chunkIndex) := by
  let ctx' := S3JsonlItemReader.update E.readerOptions reader ctx
  have hreader : readCheckpoint (S3ChunkJsonlItemWriter.update E.writerOptions writer ctx')
      (S3JsonlItemReader.checkpointKey E.readerOptions) = [("index", .num reader.index)] :=
    (readCheckpoint_write_of_ne ctx' _ hwell.keys).trans (readCheckpoint_write_self ctx _ _)
  have hwriter : readCheckpoint (S3ChunkJsonlItemWriter.update E.writerOptions writer ctx')
      (S3ChunkJsonlItemWriter.checkpointKey E.writerOptions) =
        [("chunkIndex", .num writer.chunkIndex)] := readCheckpoint_write_self ctx' _ _
  exact Prod.ext (readCheckpointNumber_of_record hreader 0)
    (readCheckpointNumber_of_record hwriter 0)

/-! ### The chunk loop -/

section Loop

open ChunkStepExecutor

variable {S : Setting} {l : Locals} {s : World (S3State × υ) × Calls α}

/-- The streams of the step, in opening order. -/
def streams (E : S3Export α) : List Handle := [E.readerHandle, E.writerHandle]

/-- A prepared step opens the streams of the export. -/
theorem Prepared.streams (hS : E.Prepared sid S) : S.streams = E.streams := by
  unfold Setting.streams
  rw [hS.reader, hS.writer]
  rfl

/-- The head of the chunk loop, with the streams open. -/
structure InLoop (E : S3Export α) (e jobId sid : String) (l : Locals)
    (w : World (S3State × υ)) : Prop where
  head : E.AtHead e jobId sid w
  streams : l.openedStreams = E.streams

/-- Everything is stored, and nothing is spoilt. -/
structure Done (E : S3Export α) (e jobId : String) (w : World (S3State × υ)) : Prop where
  clean : E.Clean e jobId w
  finished : E.Finished w.user.1.objects

/-- A finished step stays finished while only the places move. -/
theorem Done.of_at {reader : S3JsonlItemReader} {writer : S3ChunkJsonlItemWriter}
    (h : E.Done e jobId w) (hat : E.At w reader writer w') : E.Done e jobId w' :=
  ⟨h.clean.of_at hat, hat.objects ▸ h.finished⟩

/-- The reader's update puts its place into the context. -/
theorem handle_updateReader (E : S3Export α) (client : S3ObjectClient υ) (others : Environment α υ)
    (ctx : ExecutionContext) (w : World (S3State × υ)) :
    handle (E.environment client others) (.user (.updateStream E.readerHandle ctx)) w =
      (.ok (S3JsonlItemReader.update E.readerOptions w.user.1.reader ctx), w) := by
  unfold handle handleUser environment
  simp only [UserCall.stepScope, if_true]
  rfl

/-- The writer's update puts its place into the context. -/
theorem handle_updateWriter (hwell : E.WellFormed) (client : S3ObjectClient υ)
    (others : Environment α υ) (ctx : ExecutionContext) (w : World (S3State × υ)) :
    handle (E.environment client others) (.user (.updateStream E.writerHandle ctx)) w =
      (.ok (S3ChunkJsonlItemWriter.update E.writerOptions w.user.1.writer ctx), w) := by
  unfold handle handleUser environment
  simp only [UserCall.stepScope, if_neg hwell.handles.symm, if_true]
  rfl

/-- The streams write down where they are. -/
theorem wp_updateStreams (hwell : E.WellFormed) (ctx : ExecutionContext) :
    (updateStreams E.streams ctx : Code α ExecutionContext).wp (E.logic client others)
      (fun out s' => s'.1 = s.1 ∧ ∃ next, out = .ok next ∧
        E.place next.data = (s.1.user.1.reader.index, s.1.user.1.writer.chunkIndex)) s := by
  refine Prog.wp_bind.mpr (wp_orThrow.mpr (Prog.wp_perform.mpr ⟨trivial, ?_⟩))
  intro r s₁ ht₁
  have hreader := handle_updateReader E client others ctx s.1
  have hr : r = .ok (S3JsonlItemReader.update E.readerOptions s.1.user.1.reader ctx) :=
    (congrArg Prod.fst ht₁).symm.trans (congrArg Prod.fst hreader)
  have hs₁ : s₁.1 = s.1 :=
    (congrArg (fun t => t.2.1) ht₁).symm.trans (congrArg Prod.snd hreader)
  subst hr
  refine Prog.wp_bind.mpr (wp_orThrow.mpr (Prog.wp_perform.mpr ⟨trivial, ?_⟩))
  intro r s₂ ht₂
  have hwriter := handle_updateWriter hwell client others
    (S3JsonlItemReader.update E.readerOptions s.1.user.1.reader ctx) s₁.1
  have hr : r = .ok (S3ChunkJsonlItemWriter.update E.writerOptions s₁.1.user.1.writer
      (S3JsonlItemReader.update E.readerOptions s.1.user.1.reader ctx)) :=
    (congrArg Prod.fst ht₂).symm.trans (congrArg Prod.fst hwriter)
  have hs₂ : s₂.1 = s₁.1 :=
    (congrArg (fun t => t.2.1) ht₂).symm.trans (congrArg Prod.snd hwriter)
  subst hr
  refine ⟨hs₂.trans hs₁, _, rfl, ?_⟩
  rw [hs₁]
  exact place_update hwell _ _ ctx

/-- Streams at the head of the loop leave a place to resume from. -/
theorem AtPlace.resumes {objects : S3Objects} {reader : S3JsonlItemReader} {chunkIndex : Int}
    (h : E.AtPlace objects reader chunkIndex) {data : JsonValue}
    (hplace : E.place data = (reader.index, chunkIndex)) : E.Resumes objects data := by
  unfold Resumes
  rw [hplace, ← h.lines]
  exact h

/-- The checkpoint records where the streams are. -/
theorem wp_checkpoint (hwell : E.WellFormed) (hS : E.Prepared sid S)
    (h : E.InLoop e jobId sid l s.1) :
    Scoped.wp (E.logic client others) (S.checkpoint : ChunkCode α Unit) (fun out l' s' =>
      (∃ u, out = .ok u) ∧ E.InLoop e jobId sid l' s'.1 ∧
        s'.1.user.1.reader = s.1.user.1.reader) l s := by
  unfold Setting.checkpoint
  rw [Scoped.wp_bind, Scoped.wp_modify, Scoped.afterwards_ok, Scoped.wp_bind, Scoped.wp_get,
    Scoped.afterwards_ok, Scoped.wp_bind, Scoped.wp_lift]
  dsimp only
  rw [h.streams]
  refine Prog.wp_mono (wp_updateStreams hwell _) ?_
  intro out s₁ hcase
  obtain ⟨hs₁, next, rfl, hplace⟩ := hcase
  rw [Scoped.afterwards_ok, Scoped.wp_bind, Scoped.wp_modify, Scoped.afterwards_ok,
    Scoped.wp_bind, Scoped.wp_lift]
  refine Prog.wp_perform.mpr ⟨trivial, ?_⟩
  intro _ s₂ ht₂
  obtain ⟨row, hrow, he⟩ := h.head.row
  have hs₂ : s₂.1 =
      { s.1 with repo := s.1.repo.saveExecutionContext (.stepExecutionId sid) next } := by
    rw [← hs₁, ← hS.stepExecutionId]
    exact (congrArg (fun t => t.2.1) ht₂).symm
  have hclean := h.head.clean.save hrow (h.head.place.resumes hplace)
  rw [← hs₂] at hclean
  refine Scoped.wp_bind.mpr (Scoped.wp_lift.mpr (Prog.wp_perform.mpr ⟨trivial, ?_⟩))
  intro reloaded s₃ ht₃
  have hs₃ : s₃.1 = s₂.1 := (congrArg (fun t => t.2.1) ht₃).symm
  refine ⟨⟨(), rfl⟩, ⟨⟨?_, ?_, ?_⟩, rfl⟩, ?_⟩
  · rw [hs₃]
    exact hclean
  · rw [hs₃, hs₂]
    exact ⟨row, hrow, he⟩
  · rw [hs₃, hs₂]
    exact h.head.place
  · rw [hs₃, hs₂]

/-! ### One chunk -/

section Chunk

variable (hfits : E.Fits client others)
include hfits

/-- Operations that are none of the streams' keep the head of the loop. -/
theorem head_frame {K : List OpKind} (hK : ∀ k ∈ K, k ∉ s3Kinds) (reader : S3JsonlItemReader) :
    (E.logic client others).Frame (On K) fun s =>
      E.AtHead e jobId sid s.1 ∧ s.1.user.1.reader = reader where
  guard _ _ _ _ := trivial
  keep o s r s' ho hs ht := by
    cases ht
    have hat := handle_at hfits (hK _ ho) s.1
    exact ⟨hs.1.of_at hat, hat.reader.trans hs.2⟩
  loops h := h.elim

/-- They keep what is stored. -/
theorem done_frame {K : List OpKind} (hK : ∀ k ∈ K, k ∉ s3Kinds) :
    (E.logic client others).Frame (On K) fun s => E.Done e jobId s.1 where
  guard _ _ _ _ := trivial
  keep o s r s' ho hs ht := by
    cases ht
    exact hs.of_at (handle_at hfits (hK _ ho) s.1)
  loops h := h.elim

/-- How a chunk that is read ends: at the head of the loop, behind the chunk, or where nothing is
spoilt. -/
def Committed {β : Type} (E : S3Export α) (e jobId sid : String) (reader : S3JsonlItemReader) :
    Except Thrown β → Locals → World (S3State × υ) × Calls α → Prop
  | .ok _, l, s => E.InLoop e jobId sid l s.1 ∧ s.1.user.1.reader = reader
  | .error _, _, s => E.Clean e jobId s.1

variable (hwell : E.WellFormed) (hS : E.Prepared sid S)
include hwell hS

/-- The commit of a chunk stores its parcel and keeps the rows with the objects. -/
theorem wp_commitChunk (k : Int) {items : List α} (hhead : E.AtHead e jobId sid w)
    (hstreams : l.openedStreams = E.streams) (hitems : items = (E.chunkAt w.user.1.reader).1)
    (hchunk : items ≠ [])
    (hs : E.At w (E.chunkAt w.user.1.reader).2 w.user.1.writer s.1) :
    Scoped.wp (E.logic client others) (S.commitChunk k items)
      (Committed E e jobId sid (E.chunkAt w.user.1.reader).2) l s := by
  subst hitems
  unfold Setting.commitChunk
  refine Scoped.wp_seq (wp_processPhase hfits hwell hS k _ [] hs) ?_
    fun _ _ _ h => hhead.clean.of_at h.2
  intro processed l₁ s₁ hcase
  obtain ⟨hl₁, hprocessed, hs₁⟩ := hcase
  refine Scoped.wp_seq (wp_writePhase hfits hwell hS k hhead hchunk hprocessed.symm hs₁) ?_
    fun _ _ _ h => h.2
  intro ending l₂ s₂ hcase
  obtain ⟨hl₂, hhead₂, hreader₂⟩ := hcase
  refine Scoped.wp_bind.mpr (Scoped.wp_lift.mpr (Prog.wp_perform.mpr ⟨trivial, ?_⟩))
  intro _ s₃ ht₃
  have hs₃ : s₃.1 = s₂.1 := (congrArg (fun t => t.2.1) ht₃).symm
  have hloop₃ : E.InLoop e jobId sid l₂ s₃.1 := by
    rw [hs₃]
    exact ⟨hhead₂, hl₂.openedStreams.trans (hl₁.openedStreams.trans hstreams)⟩
  refine Scoped.wp_seq (wp_checkpoint hwell hS hloop₃) ?_ ?_
  · intro _ l₄ s₄ hcase
    obtain ⟨-, hloop₄, hreader₄⟩ := hcase
    rw [Scoped.wp_bind, Scoped.wp_get, Scoped.afterwards_ok]
    refine wp_seq_quiet (K := [.listener]) (quiet_lift (uses_invokeMatching (by decide) _ _ _))
      (head_frame hfits (by decide) s₄.1.user.1.reader) ⟨hloop₄.head, rfl⟩ ?_
      fun _ _ _ _ h => h.1.clean
    intro _ l₅ s₅ hl₅ hcase
    obtain ⟨hhead₅, hreader₅⟩ := hcase
    rw [Scoped.wp_modify]
    refine ⟨⟨hhead₅, hl₅.openedStreams.trans hloop₄.streams⟩, ?_⟩
    rw [hreader₅, hreader₄, hs₃, hreader₂]
  · intro err l₄ s₄ hcase
    obtain ⟨⟨u, hu⟩, -⟩ := hcase
    cases hu

/-- How a turn of the loop ends: with fewer lines to read, or with everything stored. -/
def Turned (E : S3Export α) (e jobId sid : String) (reader : S3JsonlItemReader) :
    Except Thrown Bool → Locals → World (S3State × υ) × Calls α → Prop
  | .ok true, l, s => E.InLoop e jobId sid l s.1 ∧
      S3JsonlItemReader.linesLeft s.1.user.1.reader < S3JsonlItemReader.linesLeft reader
  | .ok false, _, s => E.Done e jobId s.1
  | .error _, _, s => E.Clean e jobId s.1

/-- One turn of the chunk loop hands out one parcel of the transfer or ends it. -/
theorem wp_runChunk (hsize : 0 < E.step.chunkSize) (h : E.InLoop e jobId sid l s.1) :
    Scoped.wp (E.logic client others) (S.runChunk : ChunkCode α Bool)
      (Turned E e jobId sid s.1.user.1.reader) l s := by
  have hcap : S.cap l.readCount = E.step.chunkSize := by
    unfold Setting.cap
    rw [hS.partition, hS.step]
  unfold Setting.runChunk
  rw [Scoped.wp_bind, Scoped.wp_get, Scoped.afterwards_ok, hcap, if_neg (by omega)]
  refine wp_seq_quiet (K := [.listener]) (quiet_lift (uses_invokeMatching (by decide) _ _ _))
    (head_frame hfits (by decide) s.1.user.1.reader) ⟨h.head, rfl⟩ ?_ fun _ _ _ _ h => h.1.clean
  intro _ l₁ s₁ hl₁ hcase
  obtain ⟨hhead, hreader⟩ := hcase
  rw [← hreader]
  have hreadable : S3JsonlItemReader.Readable E.readerOptions s₁.1.user.1.reader.lines := by
    rw [hhead.place.lines]
    exact hwell.readable
  refine Scoped.wp_seq (wp_readPhase hfits hS l.chunkIndex E.step.chunkSize []
    hhead.place.nonneg hreadable (.refl s₁.1)) ?_ fun _ _ _ h => hhead.clean.of_at h.2
  intro items l₂ s₂ hcase
  obtain ⟨hl₂, hitems, hs₂⟩ := hcase
  rw [List.nil_append] at hitems
  split
  · next hempty =>
      have hnone : (E.chunkAt s₁.1.user.1.reader).1 = [] := hitems ▸ List.isEmpty_iff.mp hempty
      have hdone : E.Done e jobId s₂.1 :=
        ⟨hhead.clean.of_at hs₂, hs₂.objects ▸ hhead.finished hnone⟩
      rw [Scoped.wp_bind, Scoped.wp_get, Scoped.afterwards_ok]
      refine wp_seq_quiet (K := [.listener]) (quiet_lift (uses_invokeMatching (by decide) _ _ _))
        (done_frame hfits (by decide)) hdone ?_ fun _ _ _ _ h => h.clean
      exact fun _ _ _ _ h => h
  · next hnonempty =>
      have hchunk : items ≠ [] := fun hnil => hnonempty (List.isEmpty_iff.mpr hnil)
      have hstreams := hl₂.openedStreams.trans (hl₁.openedStreams.trans h.streams)
      refine Scoped.wp_seq (wp_commitChunk hfits hwell hS l.chunkIndex hhead hstreams hitems hchunk
        hs₂) ?_ fun _ _ _ h => h
      intro _ l₃ s₃ hcase
      obtain ⟨hloop, hreader₃⟩ := hcase
      refine ⟨hloop, ?_⟩
      rw [hreader₃]
      exact (S3JsonlItemReader.readChunk_shrinks E.step.chunkSize (hitems ▸ hchunk)).2

/-- **The run lemma of the chunk loop**: a loop that ends has stored everything, and whatever way it
is left, nothing is spoilt. -/
theorem wp_chunkLoop (hsize : 0 < E.step.chunkSize) (fuel : Nat)
    (h : E.InLoop e jobId sid l s.1)
    (hfuel : S3JsonlItemReader.linesLeft s.1.user.1.reader < fuel) :
    Scoped.wp (E.logic client others) (S.chunkLoop fuel : ChunkCode α Unit)
      (fun out _ s' => E.Clean e jobId s'.1 ∧ (out = .ok () → E.Done e jobId s'.1)) l s := by
  induction fuel generalizing l s with
  | zero => exact absurd hfuel (Nat.not_lt_zero _)
  | succ fuel ih =>
      have hdrain : S.mustDrain l.chunkIndex = false := by
        unfold Setting.mustDrain
        rw [hS.reader]
        split
        · rfl
        · rfl
      have hturn : Scoped.wp (E.logic client others) (S.iteration : ChunkCode α Bool)
          (Turned E e jobId sid s.1.user.1.reader) l s := by
        unfold Setting.iteration
        rw [Scoped.wp_bind, Scoped.wp_get, Scoped.afterwards_ok, hdrain,
          if_neg Bool.false_ne_true]
        exact wp_runChunk hfits hwell hS hsize h
      refine Scoped.wp_seq hturn ?_ fun _ _ _ h' => ⟨h', fun hout => by cases hout⟩
      intro again l' s' h'
      cases again with
      | true => exact ih h'.1 (Nat.lt_of_lt_of_le h'.2 (Nat.le_of_lt_succ hfuel))
      | false => exact ⟨h'.clean, fun _ => h'⟩

end Chunk

end Loop

/-! ### The step -/

section Step

open ChunkStepExecutor

variable {context : ChunkExecutionContext} {s : World (S3State × υ) × Calls α}

/-- A step execution that resolves its handlers by lambdas and is no partition. -/
structure Plain (sid : String) (context : ChunkExecutionContext) : Prop where
  stepExecutionId : context.stepExecutionId = sid
  providers : context.providerResolvers = none
  resolvers : context.resolvers = []
  partition : context.partitionIndex = none

/-- Before the streams are opened. -/
structure Entered (E : S3Export α) (e jobId sid : String) (w : World (S3State × υ)) : Prop where
  clean : E.Clean e jobId w
  row : ∃ row, w.repo.stepExecutions.get? sid = some row ∧ row.jobExecutionId = e

/-- An entered step stays entered while only the places move. -/
theorem Entered.of_at {reader : S3JsonlItemReader} {writer : S3ChunkJsonlItemWriter}
    (h : E.Entered e jobId sid w) (hat : E.At w reader writer w') : E.Entered e jobId sid w' := by
  refine ⟨h.clean.of_at hat, ?_⟩
  rw [hat.rows.stepExecutions]
  exact h.row

/-- A role without a provider resolves to no component. -/
theorem not_provided {role : String} {ref : Ref} {c : Component} :
    resolveProviderToken role ref none ≠ .ok c := by
  intro h
  unfold resolveProviderToken at h
  split at h
  · cases h
  · cases h
  · cases h

/-- Without resolvers no method resolves. -/
theorem not_resolved {role Role : String} {ref : Ref} {fn : Handle}
    (hcontext : context.resolvers = []) : resolveMethod role Role ref context ≠ .ok fn := by
  intro h
  unfold resolveMethod at h
  rw [hcontext] at h
  split at h
  · cases h
  · cases h

section Streams

variable (E client others)

/-- The reader is opened at the place its context holds. -/
theorem handle_openReader (ctx : ExecutionContext) (w : World (S3State × υ)) :
    handle (E.environment client others) (.user (.openStream E.readerHandle ctx)) w =
      let opened := S3JsonlItemReader.open_ E.readerOptions client ctx w.user.1.objects
        w.user.1.reader w.user.2
      ((opened.1.map fun _ => ctx : Except Thrown ExecutionContext),
        { w with user := ({ w.user.1 with reader := opened.2.1 }, opened.2.2) }) := by
  unfold handle handleUser environment
  simp only [UserCall.stepScope, if_true]
  rfl

variable {E}

/-- The writer is opened at the place its context holds. -/
theorem handle_openWriter (hwell : E.WellFormed) (ctx : ExecutionContext)
    (w : World (S3State × υ)) :
    handle (E.environment client others) (.user (.openStream E.writerHandle ctx)) w =
      (.ok ctx, { w with user := ({ w.user.1 with
        writer := S3ChunkJsonlItemWriter.open_ E.writerOptions ctx }, w.user.2) }) := by
  unfold handle handleUser environment
  simp only [UserCall.stepScope, if_neg hwell.handles.symm, if_true]
  rfl

/-- A source that is there is opened, unless the client refuses. -/
theorem open_cases {objects : S3Objects}
    (hsource : objects E.readerOptions.toS3ObjectLocation = some E.body) (ctx : ExecutionContext)
    (reader : S3JsonlItemReader) (user : υ) :
    let opened := S3JsonlItemReader.open_ E.readerOptions client ctx objects reader user
    (∃ err, opened.1 = .error err) ∨
      (opened.1 = .ok () ∧
        opened.2.1 = S3JsonlItemReader.opened E.readerOptions E.body ctx) := by
  unfold S3JsonlItemReader.open_ S3ObjectClient.getObject
  dsimp only
  rw [hsource]
  cases client.refusesGet E.readerOptions.toS3ObjectLocation user with
  | mk refused user' =>
      cases refused with
      | some err => exact .inl ⟨err, rfl⟩
      | none => exact .inr ⟨rfl, rfl⟩

end Streams

variable {l : Locals}

/-- The streams open where the context has them. -/
theorem wp_openStreams (hwell : E.WellFormed) (hentered : E.Entered e jobId sid s.1)
    (hctx : E.Resumes s.1.user.1.objects l.streamContext.data) (hopened : l.openedStreams = []) :
    Scoped.wp (E.logic client others) (openStreams E.streams : ChunkCode α Unit) (fun out l' s' =>
      match out with
      | .ok _ => E.InLoop e jobId sid l' s'.1
      | .error _ => E.Clean e jobId s'.1) l s := by
  refine wp_openStreams_cons trivial ?_
  intro answer s₁ ht₁
  have hreader := handle_openReader E client others l.streamContext s.1
  have hcases := open_cases client hentered.clean.intact.source l.streamContext
    s.1.user.1.reader s.1.user.2
  generalize S3JsonlItemReader.open_ E.readerOptions client l.streamContext s.1.user.1.objects
    s.1.user.1.reader s.1.user.2 = opened at hcases hreader
  have hanswer : (opened.1.map fun _ => l.streamContext : Except Thrown ExecutionContext) =
      answer := (congrArg Prod.fst hreader).symm.trans (congrArg Prod.fst ht₁)
  have hs₁ : { s.1 with user := ({ s.1.user.1 with reader := opened.2.1 }, opened.2.2) } = s₁.1 :=
    (congrArg Prod.snd hreader).symm.trans (congrArg (fun t => t.2.1) ht₁)
  have hat : E.At s.1 opened.2.1 s.1.user.1.writer s₁.1 := by
    rw [← hs₁]
    exact ⟨.refl _, rfl, fun _ => rfl, rfl, rfl⟩
  have hentered₁ := hentered.of_at hat
  rcases hcases with ⟨err, herr⟩ | ⟨hok, hplaced⟩
  · rw [herr] at hanswer
    subst hanswer
    exact hentered₁.clean
  · rw [hok] at hanswer
    subst hanswer
    refine wp_openStreams_cons trivial ?_
    intro answer s₂ ht₂
    have hwriter := handle_openWriter client others hwell l.streamContext s₁.1
    have hanswer : .ok l.streamContext = answer :=
      (congrArg Prod.fst hwriter).symm.trans (congrArg Prod.fst ht₂)
    subst hanswer
    have hs₂ : { s₁.1 with user := ({ s₁.1.user.1 with
        writer := S3ChunkJsonlItemWriter.open_ E.writerOptions l.streamContext },
          s₁.1.user.2) } = s₂.1 :=
      (congrArg Prod.snd hwriter).symm.trans (congrArg (fun t => t.2.1) ht₂)
    have hat₂ : E.At s.1 (S3JsonlItemReader.opened E.readerOptions E.body l.streamContext)
        (S3ChunkJsonlItemWriter.open_ E.writerOptions l.streamContext) s₂.1 := by
      rw [← hs₂, ← hs₁, ← hplaced]
      exact ⟨.refl _, rfl, fun _ => rfl, rfl, rfl⟩
    have hentered₂ := hentered.of_at hat₂
    refine ⟨⟨hentered₂.clean, hentered₂.row, ?_⟩, ?_⟩
    · rw [hat₂.objects, hat₂.reader, hat₂.writer]
      exact hctx
    · rw [hopened]
      rfl

section Fitting

variable (hfits : E.Fits client others)
include hfits

theorem entered_frame {K : List OpKind} (hK : ∀ k ∈ K, k ∉ s3Kinds) :
    (E.logic client others).Frame (On K) fun s => E.Entered e jobId sid s.1 where
  guard _ _ _ _ := trivial
  keep o s r s' ho hs ht := by
    cases ht
    exact hs.of_at (handle_at hfits (hK _ ho) s.1)
  loops h := h.elim

/-- The reader of the step is the stream. -/
theorem wp_resolveReader (hplain : Plain sid context) (hs : E.Entered e jobId sid s.1) :
    (resolveReader E.step.reader context E.step : Code α ItemHandler).wp (E.logic client others)
      (fun out s' => E.Entered e jobId sid s'.1 ∧ ∀ reader, out = .ok reader →
        reader = { target := E.readerHandle, isStream := true }) s := by
  have hthrow (err : Thrown) {s' : World (S3State × υ) × Calls α}
      (h : E.Entered e jobId sid s'.1) : E.Entered e jobId sid s'.1 ∧
        ∀ reader : ItemHandler, Except.error err = .ok reader →
          reader = { target := E.readerHandle, isStream := true } := ⟨h, fun _ h => by cases h⟩
  have hok {s' : World (S3State × υ) × Calls α} (h : E.Entered e jobId sid s'.1) :
      E.Entered e jobId sid s'.1 ∧ ∀ reader : ItemHandler,
        (.ok { target := E.readerHandle, isStream := true } : Except Thrown _) = .ok reader →
          reader = { target := E.readerHandle, isStream := true } := by
    refine ⟨h, ?_⟩
    intro _ hcase
    cases hcase
    rfl
  unfold resolveReader
  split
  · exact hthrow _ hs
  · next fn _ hfn =>
      refine Prog.wp_bind.mpr (wp_orThrow.mpr (Prog.wp_perform.mpr ⟨trivial, ?_⟩))
      intro r s₁ ht₁
      have hkind : OpKind.invoke ∈ [OpKind.invoke] := List.mem_singleton_self _
      have hs₁ := (entered_frame hfits (by decide)).keep (.user (.invoke fn)) s r s₁ hkind hs ht₁
      have hanswer : (others.user (.invoke fn) s.1.user.2 { data := .null, version := 0 }).1 = r :=
        congrArg Prod.fst ht₁
      cases r with
      | error err => exact hthrow err hs₁
      | ok c =>
          rcases hfits.reader fn _ _ c hfn hanswer with rfl | ⟨hfactory, hfunction⟩
          · change (if E.step.reader.factory then _ else _ : Code α ItemHandler).wp _ _ s₁
            split
            · exact hok hs₁
            · exact hok hs₁
          · change (if E.step.reader.factory then _ else _ : Code α ItemHandler).wp _ _ s₁
            rw [if_pos hfactory]
            unfold invokeReaderFactory callFactory
            rw [if_pos hfunction]
            refine Prog.wp_bind.mpr (wp_orThrow.mpr (Prog.wp_perform.mpr ⟨trivial, ?_⟩))
            intro r s₂ ht₂
            have hkind : OpKind.factory ∈ [OpKind.factory] := List.mem_singleton_self _
            have hs₂ := (entered_frame hfits (by decide)).keep _ s₁ r s₂ hkind hs₁ ht₂
            have hmade := congrArg Prod.fst ht₂
            cases r with
            | error err => exact hthrow err hs₂
            | ok made =>
                obtain rfl := hfits.factory _ _ _ _ made hmade
                exact hok hs₂
  · exact hthrow _ hs
  · cases hresolved : resolveProviderToken "reader" E.step.reader context.providerResolvers with
    | error err => exact hthrow err hs
    | ok resolved =>
        rw [hplain.providers] at hresolved
        exact absurd hresolved not_provided
  · cases hresolved : resolveMethod "reader" "Reader" E.step.reader context with
    | error err => exact hthrow err hs
    | ok fn => exact absurd hresolved (not_resolved hplain.resolvers)

/-- The writer of the step is the stream. -/
theorem wp_resolveWriter (hplain : Plain sid context) (hs : E.Entered e jobId sid s.1) :
    (resolveWriter E.step.writer context : Code α ItemHandler).wp (E.logic client others)
      (fun out s' => E.Entered e jobId sid s'.1 ∧ ∀ writer, out = .ok writer →
        writer = { target := E.writerHandle, isStream := true }) s := by
  refine wp_resolveHandler (entered_frame hfits (by decide)) ?_ ?_ ?_ hs
  · intro fn s₁ r s₂ hfn ht c hc
    have hanswer : (others.user (.invoke fn) s₁.1.user.2 { data := .null, version := 0 }).1 = r :=
      congrArg Prod.fst ht
    obtain rfl := hfits.writer fn _ _ c hfn (hanswer.trans hc)
    rfl
  · intro c hc
    rw [hplain.providers] at hc
    exact absurd hc not_provided
  · exact fun fn hfn => absurd hfn (not_resolved hplain.resolvers)

variable (hwell : E.WellFormed)
include hwell

/-- Preparing the step leads to the head of its loop. -/
theorem wp_prepare (hplain : Plain sid context) {policies : Policies}
    {partition : Option (Int × Int)} (hpolicies : Policies.compile E.step = .ok policies)
    (hpartition : resolveRange E.step context = .ok partition) (hs : E.Entered e jobId sid s.1) :
    Scoped.wp (E.logic client others) (prepare E.step context policies partition)
      (fun out l s' => match out with
        | .ok S => E.Prepared sid S ∧ E.InLoop e jobId sid l s'.1
        | .error _ => E.Clean e jobId s'.1) {} s := by
  refine wp_prepare_of_stages (K := [.invoke]) (J := fun s => E.Entered e jobId sid s.1)
    (R := fun reader => reader = { target := E.readerHandle, isStream := true })
    (W := fun writer => writer = { target := E.writerHandle, isStream := true }) (by decide)
    (entered_frame hfits (by decide)) (fun _ _ h => h.clean) (wp_resolveReader hfits hplain hs)
    (fun _ h => wp_resolveWriter hfits hplain h) ?_
  intro s₁ hs₁
  refine Prog.wp_perform.mpr ⟨trivial, ?_⟩
  intro ctx s₂ ht₂
  have hs₂ : s₁.1 = s₂.1 := congrArg (fun t => t.2.1) ht₂
  have hctx : s₁.1.repo.getExecutionContext (.stepExecutionId sid) = ctx := by
    rw [← hplain.stepExecutionId]
    exact congrArg Prod.fst ht₂
  rw [hs₂] at hs₁ hctx
  refine ⟨hs₁, ?_⟩
  intro _ hcase S hS hreader hwriter hprocessor
  cases hcase
  have hprepared : E.Prepared sid S := by
    refine ⟨hS.step, hS.context ▸ hplain.stepExecutionId, hreader, hwriter, hprocessor.mp, ?_, ?_⟩
    · rw [hS.policies, Policies.compile_skip hpolicies]
    · unfold resolveRange at hpartition
      rw [hplain.partition] at hpartition
      cases hpartition
      exact hS.partition
  obtain ⟨row, hrow, he⟩ := hs₁.row
  have hresumes : E.Resumes s₂.1.user.1.objects ctx.data :=
    hctx ▸ hs₁.clean.contexts sid row hrow he
  rw [hprepared.streams]
  refine Scoped.wp_mono (wp_openStreams (l := { streamContext := ctx }) hwell hs₁ hresumes rfl) ?_
  intro out l₃ s₃ h₃
  cases out with
  | error err => exact h₃
  | ok u => exact ⟨hprepared, h₃.head, h₃.streams⟩

/-- **The export step**: it comes to an end and spoils nothing, and unless it reports a failure
everything is stored. -/
theorem wp_execute (hplain : Plain sid context) (hsize : 0 < E.step.chunkSize) {fuel : Nat}
    (hfuel : (splitLines E.body).length < fuel) (hs : E.Entered e jobId sid s.1) :
    (execute fuel E.step context : Code α StepResult).wp (E.logic client others) (fun out s' =>
      E.Clean e jobId s'.1 ∧ ∀ result, out = .ok result →
        E.Done e jobId s'.1 ∨ result.status = .FAILED) s := by
  have hclosing {P : World (S3State × υ) → Prop}
      (hP : ∀ {w w' : World (S3State × υ)}, P w → E.SameStore w w' → P w') :
      (E.logic client others).Frame (On closingKinds) fun s => P s.1 :=
    ⟨fun _ _ _ _ => trivial,
      fun o s r s' ho h ht => hP h ((sameStore_frame hfits s.1).keep o s r s' ho (.refl s.1) ht),
      fun h => h.elim⟩
  have hkeep : KeepsResult (E.logic client others) fun result => result.status = .FAILED := by
    intro fn ctx result s₁ r s₂ ht hfailed
    have hanswer : (others.user (.afterStep fn ctx result) s₁.1.user.2
        { data := .null, version := 0 }).1 = r := congrArg Prod.fst ht
    rw [← hanswer]
    exact hfits.outcome fn ctx result _ _ hfailed
  refine wp_execute_of_body (J := fun s => E.Entered e jobId sid s.1)
    (A := fun s => E.Clean e jobId s.1) (C := fun s => E.Done e jobId s.1)
    (entered_frame hfits (by decide)) (hclosing fun h hat => h.of_at hat) (fun _ h => h.clean) hkeep
    (fun _ h => h) ?_ hs
  intro policies partition s₁ hpolicies hpartition hs₁
  refine wp_body_of_prepare (hclosing fun h hat => h.of_at hat) (fun _ h => h.clean) ?_
  refine Scoped.wp_mono (wp_prepare hfits hwell hplain hpolicies hpartition hs₁) ?_
  intro out l₂ s₂ h₂
  cases out with
  | error err => exact h₂
  | ok S =>
      refine wp_chunkLoop hfits hwell h₂.1 hsize fuel h₂.2 ?_
      have hplace := h₂.2.head.place
      have hnonneg := hplace.nonneg
      unfold S3JsonlItemReader.linesLeft
      rw [hplace.lines]
      omega

end Fitting

end Step

end S3Export

end NestBatch
