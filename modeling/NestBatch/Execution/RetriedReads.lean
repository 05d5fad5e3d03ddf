import NestBatch.Execution.CheckpointSafety
import NestBatch.Execution.UnskippedReads
import NestBatch.Execution.PlainStep
import NestBatch.Execution.RetryAttempts
import NestBatch.Io.JsonlReaders

/-!
# Records behind a failed read

The executor retries a read by calling `read` again.  A JSONL reader has moved on
by then: the retry reads the next line, and the line that could not be parsed or
mapped is passed over for good.  `JsonlImport` is a step's reader and the content it
reads, among any other user code; beside the reader its state keeps which lines were
delivered.
-/

namespace NestBatch

/-- A JSONL reader at work. -/
structure JsonlState where
  reader : LineReader := {}
  /-- the calls of `mapItem` so far -/
  counts : LineCounts := fun _ => 0
  /-- the lines that a read answered with -/
  delivered : List Int := []

/-- The reader of a chunk step, and what it reads. -/
structure JsonlImport (ν α : Type) where
  target : Handle
  reader : JsonlItemReader ν α
  content : String

variable {ν α υ : Type}

namespace JsonlImport

variable (I : JsonlImport ν α)

/-- `open`, once the content is there. -/
def openOn (ctx : ExecutionContext) (raw : String) (state : JsonlState) : JsonlState :=
  { state with reader := I.reader.opened raw ctx }

/-- `read`.  The line of an item is the one in front of the index it leaves. -/
def take (state : JsonlState) : Except Thrown (Option α) × JsonlState :=
  let (answer, reader, counts) := I.reader.read state.reader state.counts
  let delivered :=
    match answer with
    | .ok (some _) => state.delivered ++ [reader.index - 1]
    | _ => state.delivered
  (answer, { state with reader := reader, counts := counts, delivered := delivered })

/-- User code around the reader.  `fetch` is `readFile` or `getObject`. -/
def environment (fetch : υ → Except Thrown String × υ) (others : Environment α υ) :
    Environment α (JsonlState × υ) where
  user call s saved :=
    let passOn : call.Resp × (JsonlState × υ) × List JsonValue :=
      let (answer, user, saves) := others.user call s.2 saved
      (answer, (s.1, user), saves)
    match call, passOn with
    | .openStream stream ctx, passOn =>
        if stream = I.target then
          match fetch s.2 with
          | (.error err, user) => (.error err, (s.1, user), [])
          | (.ok raw, user) => (.ok ctx, (I.openOn ctx raw s.1, user), [])
        else passOn
    | .read reader _, passOn =>
        if reader = I.target then ((I.take s.1).1, ((I.take s.1).2, s.2), [])
        else passOn
    | .updateStream stream ctx, passOn =>
        if stream = I.target then
          (.ok (writeCheckpoint ctx I.reader.checkpointKey [("index", .num s.1.reader.index)]),
            s, [])
        else passOn
    | .closeStream stream, passOn =>
        if stream = I.target then
          (.ok (), ({ s.1 with reader := { s.1.reader with lines := [] } }, s.2), [])
        else passOn
    | _, passOn => passOn
  broker payload s :=
    let (answer, user) := others.broker payload s.2
    (answer, (s.1, user))

/-- The index that a context has for the reader. -/
def place (data : JsonValue) : Int :=
  readCheckpointNumber { data := data, version := 0 } I.reader.checkpointKey "index" 0

/-- What is asked of the code around the reader: the content is what is fetched, the step's reader
resolves to this one, which is a stream, its record is left alone in the contexts that are saved,
and a FAILED result stays FAILED. -/
structure Fits (fetch : υ → Except Thrown String × υ) (others : Environment α υ)
    (step : ChunkStepDefinition) (context : ChunkExecutionContext) : Prop where
  content : ∀ user raw, (fetch user).1 = .ok raw → raw = I.content
  reader : ∀ s reader s', Prog.run (handle (I.environment fetch others)).traced
    (ChunkStepExecutor.resolveReader step.reader context step) s = (.returned reader, s') →
      reader = { target := I.target, isStream := true }
  saves : ∀ call user saved data, data ∈ (others.user call user saved).2.2 →
    I.place data = I.place saved.data
  outcome : ∀ fn ctx result user saved, result.status = .FAILED →
    (others.user (.afterStep fn ctx result) user saved).1.2.status = .FAILED

/-- A line that is neither blank nor `null`. -/
def Wanted (i : Int) : Prop :=
  ∃ (n : Nat) (line : String), i = n ∧ (splitLines I.content)[n]? = some line ∧
    jsTrim line ≠ "" ∧ I.reader.isNull line = false

/-- What is to be read from an index on, with what the next attempt at each line comes to. -/
def visitsAt (counts : LineCounts) (start : Int) : List (Int × Feed.Answer Thrown α) :=
  I.reader.visits counts { lines := splitLines I.content, index := start }

/-- No attempt at a line fails. -/
def Unfailing (counts : LineCounts) (start : Int) : Prop :=
  ∀ err, .error err ∉ (I.visitsAt counts start).map Prod.snd

/-- The next attempt at the line has an item, and what comes of the lines in front of it neither
lets the step take a chunk without items for the end nor uses up its range. -/
def Arrives (limits : Feed.Limits) (counts : LineCounts) (start i : Int) : Prop :=
  ∃ before item after, I.visitsAt counts start = before ++ (i, .ok (some item)) :: after ∧
    limits.Wants (before.map Prod.snd)

/-! ### What a read leaves -/

/-- The lines delivered by some visits. -/
def deliveredBy (taken : List (Int × Feed.Answer Thrown α)) : List Int :=
  taken.filterMap fun visit => (Feed.item? visit.2).map fun _ => visit.1

/-- A place is delivered exactly when an item was taken from it. -/
theorem mem_deliveredBy {taken : List (Int × Feed.Answer Thrown α)} {i : Int} :
    i ∈ deliveredBy taken ↔ ∃ item, (i, .ok (some item)) ∈ taken := by
  unfold deliveredBy
  rw [List.mem_filterMap]
  constructor
  · intro h
    obtain ⟨⟨j, answer⟩, hmem, hline⟩ := h
    rcases answer with err | item
    · cases hline
    · cases item with
      | none => cases hline
      | some item =>
          cases hline
          exact ⟨item, hmem⟩
  · intro h
    obtain ⟨item, hmem⟩ := h
    exact ⟨_, hmem, rfl⟩

/-- Since the reader was opened at `start` in `first`, the reads were answered with `answers`;
`left` is still to be read. -/
def Served (first : JsonlState) (start : Int) (state : JsonlState)
    (answers : List (Feed.Answer Thrown α)) (left : List (Int × Feed.Answer Thrown α)) : Prop :=
  ∃ taken idle, I.visitsAt first.counts start = taken ++ left ∧
    answers = taken.map Prod.snd ++ List.replicate idle (.ok none) ∧ (idle ≠ 0 → left = []) ∧
    state.delivered = first.delivered ++ deliveredBy taken

section Served

variable {I} {first state : JsonlState} {start : Int} {answers : List (Feed.Answer Thrown α)}
  {left : List (Int × Feed.Answer Thrown α)}

/-- **One read.** -/
theorem Served.take
    (h : I.Served first start state answers (I.reader.visits state.counts state.reader)) :
    I.Served first start (I.take state).2 (answers ++ [(I.take state).1])
      (I.reader.visits (I.take state).2.counts (I.take state).2.reader) := by
  obtain ⟨taken, idle, hvisits, hanswers, hidle, hdelivered⟩ := h
  have htake := JsonlItemReader.read_visits I.reader state.reader state.counts
  unfold JsonlImport.take
  revert htake
  rcases I.reader.read state.reader state.counts with ⟨answer, reader, counts⟩
  intro hcase
  rcases hcase with ⟨hnone, hanswer, hend⟩ | ⟨visit, hnext, hanswer, hindex⟩
  · dsimp only at hanswer hend ⊢
    subst hanswer
    rw [hnone] at hvisits
    rw [hend]
    refine ⟨taken, idle + 1, hvisits, ?_, fun _ => rfl, hdelivered⟩
    rw [hanswers, List.replicate_succ', List.append_assoc]
  · dsimp only at hanswer hnext hindex ⊢
    have hzero : idle = 0 := by
      by_contra hsome
      rw [hidle hsome] at hnext
      cases hnext
    rw [hzero, List.replicate_zero, List.append_nil] at hanswers
    rw [hnext, List.append_cons] at hvisits
    refine ⟨taken ++ [visit], 0, hvisits, ?_, fun h => absurd rfl h, ?_⟩
    · rw [hanswers, hanswer, List.map_append, List.replicate_zero, List.append_nil]
      rfl
    · have hline : deliveredBy (taken ++ [visit]) = deliveredBy taken ++ deliveredBy [visit] :=
        List.filterMap_append
      rw [hline, ← List.append_assoc, ← hdelivered, hanswer, hindex, Int.add_sub_cancel]
      obtain ⟨line, outcome⟩ := visit
      match outcome with
      | .error err => exact (List.append_nil _).symm
      | .ok none => exact (List.append_nil _).symm
      | .ok (some item) => rfl

/-- Where no attempt fails, no answer is an error. -/
theorem Served.no_error (h : I.Served first start state answers left)
    (hnone : I.Unfailing first.counts start) (err : Thrown) : .error err ∉ answers := by
  obtain ⟨taken, idle, hvisits, hanswers, -, -⟩ := h
  intro hmem
  rw [hanswers] at hmem
  rcases List.mem_append.mp hmem with htaken | hidle
  · refine hnone err ?_
    rw [hvisits, List.map_append]
    exact List.mem_append_left _ htaken
  · cases List.eq_of_mem_replicate hidle

/-- **Which lines were delivered**, once the reads are over. -/
theorem Served.delivered_iff {limits : Feed.Limits} (h : I.Served first start state answers left)
    (hover : limits.Over answers) (i : Int) :
    i ∈ state.delivered ↔
      i ∈ first.delivered ∨ I.Arrives limits first.counts start i := by
  obtain ⟨taken, idle, hvisits, hanswers, hidle, hdelivered⟩ := h
  rw [hanswers] at hover
  have hleft : idle ≠ 0 → left.map Prod.snd = [] := by
    intro hsome
    rw [hidle hsome]
    rfl
  have hmade {before after : List (Int × Feed.Answer Thrown α)} {visit : Int × Feed.Answer Thrown α}
      (heq : taken ++ left = before ++ visit :: after) :
      before.length < taken.length ↔ limits.Wants (before.map Prod.snd) := by
    have hmap := congrArg (List.map Prod.snd) heq
    rw [List.map_append, List.map_append, List.map_cons] at hmap
    have hiff := hover.made_iff hleft hmap
    rw [List.length_map, List.length_map] at hiff
    exact hiff
  rw [hdelivered, List.mem_append, mem_deliveredBy]
  refine or_congr_right ?_
  unfold Arrives
  rw [hvisits]
  constructor
  · intro hcase
    obtain ⟨item, hmem⟩ := hcase
    obtain ⟨before, after, rfl⟩ := List.append_of_mem hmem
    have heq : (before ++ (i, .ok (some item)) :: after) ++ left =
        before ++ (i, .ok (some item)) :: (after ++ left) := List.append_assoc _ _ _
    refine ⟨before, item, after ++ left, heq, (hmade heq).mp ?_⟩
    rw [List.length_append, List.length_cons]
    omega
  · intro hcase
    obtain ⟨before, item, after, heq, hwants⟩ := hcase
    have hlt := (hmade heq).mpr hwants
    have hget : (taken ++ left)[before.length]? = some (i, .ok (some item)) := by
      rw [heq, List.getElem?_append_right (Nat.le_refl _), Nat.sub_self]
      rfl
    rw [List.getElem?_append_left hlt] at hget
    exact ⟨item, List.mem_of_getElem? hget⟩

end Served

/-! ### The reader among the user code -/

/-- Nothing was read since `first`. -/
structure Fresh (first state : JsonlState) : Prop where
  counts : state.counts = first.counts
  delivered : state.delivered = first.delivered

/-- The same, and the reader is open at `start`. -/
structure Ready (first : JsonlState) (start : Int) (state : JsonlState) : Prop
    extends Fresh first state where
  reader : state.reader = { lines := splitLines I.content, index := start }

section World

variable {I} {fetch : υ → Except Thrown String × υ} {others : Environment α υ}
  {first : JsonlState} {start : Int} {w : World (JsonlState × υ)}

/-- What is ready has served nothing yet. -/
theorem Ready.served {state : JsonlState} (h : I.Ready first start state) :
    I.Served first start state [] (I.reader.visits state.counts state.reader) := by
  refine ⟨[], 0, ?_, rfl, fun hsome => absurd rfl hsome, ?_⟩
  · rw [h.counts, h.reader]
    rfl
  · rw [h.delivered]
    exact (List.append_nil _).symm

/-- What is not the reader's leaves it alone. -/
theorem handle_same {o : Op α} (ho : o.kind ∉ [OpKind.read, .openStream, .closeStream])
    (w : World (JsonlState × υ)) :
    (handle (I.environment fetch others) o w).2.user.1 = w.user.1 := by
  cases o with
  | user call =>
      obtain ⟨ctx, -, huser⟩ := handleUser_env (I.environment fetch others) call w
      change (handleUser (I.environment fetch others) call w).2.user.1 = w.user.1
      rw [huser]
      cases call with
      | read => exact absurd (by simp [Op.kind, UserCall.kind]) ho
      | openStream => exact absurd (by simp [Op.kind, UserCall.kind]) ho
      | closeStream => exact absurd (by simp [Op.kind, UserCall.kind]) ho
      | updateStream stream ctx' =>
          simp only [environment]
          split
          · rfl
          · rfl
      | _ => rfl
  | enqueue payload =>
      simp only [handle, environment]
      split
      · rfl
      · rfl
  | _ => rfl

/-- A read of the reader. -/
theorem handle_read (ctx : ItemExecutionContext) (w : World (JsonlState × υ)) :
    handle (I.environment fetch others) (.user (.read I.target ctx) : Op α) w =
      ((I.take w.user.1).1, { w with user := ((I.take w.user.1).2, w.user.2) }) := by
  unfold handle handleUser environment
  simp only [UserCall.stepScope, if_true, World.saveAll]
  rfl

/-- One of anything else. -/
theorem handle_read_other {reader : Handle} (h : reader ≠ I.target) (ctx : ItemExecutionContext)
    (w : World (JsonlState × υ)) :
    (handle (I.environment fetch others) (.user (.read reader ctx) : Op α) w).2.user.1 =
      w.user.1 := by
  obtain ⟨ctx', -, huser⟩ := handleUser_env (I.environment fetch others) (.read reader ctx) w
  change (handleUser (I.environment fetch others) (.read reader ctx) w).2.user.1 = w.user.1
  rw [huser]
  simp only [environment]
  rw [if_neg h]

/-- Opening a stream opens the reader, or leaves it as it was. -/
theorem handle_open (others : Environment α υ)
    (hcontent : ∀ user raw, (fetch user).1 = .ok raw → raw = I.content) (stream : Handle)
    (ctx : ExecutionContext) (w : World (JsonlState × υ)) :
    let out := handle (I.environment fetch others) (.user (.openStream stream ctx) : Op α) w
    (out.2.user.1 = w.user.1 ∧ (stream = I.target → ∃ err, out.1 = .error err)) ∨
      (out.2.user.1 = I.openOn ctx I.content w.user.1 ∧ out.1 = .ok ctx) := by
  obtain ⟨saved, hanswer, huser⟩ :=
    handleUser_env (I.environment fetch others) (.openStream stream ctx) w
  dsimp only [handle]
  rw [hanswer, huser]
  simp only [environment]
  by_cases hstream : stream = I.target
  · rw [if_pos hstream]
    rcases hfetch : fetch w.user.2 with ⟨err | raw, user⟩
    · exact Or.inl ⟨rfl, fun _ => ⟨err, rfl⟩⟩
    · rw [← hcontent w.user.2 raw (congrArg Prod.fst hfetch)]
      exact Or.inr ⟨rfl, rfl⟩
  · rw [if_neg hstream]
    exact Or.inl ⟨rfl, fun h => absurd h hstream⟩

/-- Closing one delivers nothing. -/
theorem handle_close (I : JsonlImport ν α) (fetch : υ → Except Thrown String × υ)
    (others : Environment α υ) (stream : Handle) (w : World (JsonlState × υ)) :
    (handle (I.environment fetch others)
      (.user (.closeStream stream) : Op α) w).2.user.1.delivered =
      w.user.1.delivered := by
  obtain ⟨saved, -, huser⟩ := handleUser_env (I.environment fetch others) (.closeStream stream) w
  dsimp only [handle]
  rw [huser]
  simp only [environment]
  split
  · rfl
  · rfl

/-- Only a read delivers; opening is left out here. -/
theorem handle_delivered {o : Op α} (ho : o.kind ∉ [OpKind.read, .openStream])
    (w : World (JsonlState × υ)) :
    (handle (I.environment fetch others) o w).2.user.1.delivered = w.user.1.delivered := by
  by_cases hclose : o.kind = .closeStream
  · cases o with
    | user call =>
        cases call with
        | closeStream stream => exact handle_close I fetch others stream w
        | _ => cases hclose
    | _ => cases hclose
  · have hother : o.kind ∉ [OpKind.read, .openStream, .closeStream] := by
      simpa [hclose] using ho
    rw [handle_same hother]

/-- A fresh reader that is opened is ready at the place of its context. -/
theorem Fresh.openOn {state : JsonlState} (h : Fresh first state) (ctx : ExecutionContext) :
    I.Ready first (I.place ctx.data) (I.openOn ctx I.content state) :=
  ⟨⟨h.counts, h.delivered⟩, rfl⟩

/-- Around the reader nothing else is saved. -/
theorem environment_saves {call : UserCall α} {s : JsonlState × υ} {saved : ExecutionContext}
    {data : JsonValue} (h : data ∈ ((I.environment fetch others).user call s saved).2.2) :
    data ∈ (others.user call s.2 saved).2.2 := by
  cases call with
  | openStream stream ctx =>
      simp only [environment] at h
      split at h
      · split at h
        · cases h
        · cases h
      · exact h
  | read reader ctx =>
      simp only [environment] at h
      split at h
      · cases h
      · exact h
  | updateStream stream ctx =>
      simp only [environment] at h
      split at h
      · cases h
      · exact h
  | closeStream stream =>
      simp only [environment] at h
      split at h
      · cases h
      · exact h
  | _ => exact h

/-! ### What the operations of a step keep -/

/-- The logic of the step. -/
abbrev logic (I : JsonlImport ν α) (fetch : υ → Except Thrown String × υ)
    (others : Environment α υ) :
    Prog.Logic (Op α) Op.Resp (World (JsonlState × υ) × Calls α) :=
  worldLogic (I.environment fetch others)

/-- Nothing was read since `first`, and the context of the step has `start` for the reader. -/
structure Untouched (I : JsonlImport ν α) (stepExecutionId : String) (first : JsonlState)
    (start : Int) (s : World (JsonlState × υ) × Calls α) : Prop where
  unread : readAnswers I.target s.2 = []
  fresh : Fresh first s.1.user.1
  place : I.place (s.1.repo.getExecutionContext (.stepExecutionId stepExecutionId)).data = start

/-- Nothing was read, and the reader is open. -/
structure Opened (I : JsonlImport ν α) (first : JsonlState) (start : Int)
    (s : World (JsonlState × υ) × Calls α) : Prop where
  unread : readAnswers I.target s.2 = []
  ready : I.Ready first start s.1.user.1

/-- What comes before the streams of a step are opened. -/
theorem untouched_frame (stepExecutionId : String)
    (hsaves : ∀ call user saved data, data ∈ (others.user call user saved).2.2 →
      I.place data = I.place saved.data) {K : List OpKind}
    (hK : ∀ k ∈ K, k ∉ [OpKind.read, .openStream, .closeStream, .saveContext]) :
    (I.logic fetch others).Frame (On K) (I.Untouched stepExecutionId first start) where
  guard _ _ _ _ := trivial
  keep o s r s' ho h ht := by
    cases ht
    have hkind := hK _ ho
    have hread : o.kind ≠ .read := fun heq => hkind (by simp [heq])
    have hsave : o.kind ≠ .saveContext := fun heq => hkind (by simp [heq])
    have hother : o.kind ∉ [OpKind.read, .openStream, .closeStream] := fun hmem =>
      hkind (List.mem_append_left [OpKind.saveContext] hmem)
    refine ⟨(readAnswers_none _ (readOf_of_kind _ hread _)).trans h.unread, ?_, ?_⟩
    · change Fresh first (handle (I.environment fetch others) o s.1).2.user.1
      rw [handle_same hother]
      exact h.fresh
    · refine (data_handle I.place hsave _ s.1 ?_).trans h.place
      intro call _
      exact data_handleUser I.place _
        (fun user saved data _ hdata => hsaves _ _ _ _ (environment_saves hdata)) s.1
  loops h := h.elim

/-- The reads so far, with what is still to come. -/
def Serving (I : JsonlImport ν α) (first : JsonlState) (start : Int)
    (s : World (JsonlState × υ) × Calls α) : Prop :=
  I.Served first start s.1.user.1 (readAnswers I.target s.2)
    (I.reader.visits s.1.user.1.counts s.1.user.1.reader)

/-- The chunk loop reads, and does nothing else to the reader. -/
theorem serving_frame (I : JsonlImport ν α) (fetch : υ → Except Thrown String × υ)
    (others : Environment α υ) (first : JsonlState) (start : Int) {K : List OpKind} {loops : Prop}
    (hopen : .openStream ∉ K) (hclose : .closeStream ∉ K) :
    (I.logic fetch others).Frame (On K loops) (I.Serving first start) where
  guard _ _ _ _ := trivial
  keep o s r s' ho h ht := by
    cases ht
    have hsame (hnone : readOf I.target ⟨o, (handle (I.environment fetch others) o s.1).1⟩ = none)
        (hstate : (handle (I.environment fetch others) o s.1).2.user.1 = s.1.user.1) :
        I.Serving first start ((handle (I.environment fetch others) o s.1).2,
          s.2 ++ [⟨o, (handle (I.environment fetch others) o s.1).1⟩]) := by
      unfold Serving
      rw [readAnswers_none _ hnone, hstate]
      exact h
    by_cases hread : o.kind = .read
    · cases o with
      | user call =>
          cases call with
          | read reader ctx =>
              by_cases htarget : reader = I.target
              · subst htarget
                have htaken := Served.take h
                change I.Served first start _ (readAnswers I.target (s.2 ++ [⟨_, _⟩])) _
                rw [handle_read, readAnswers_read]
                exact htaken
              · exact hsame (if_neg htarget) (handle_read_other htarget ctx s.1)
          | _ => cases hread
      | _ => cases hread
    · refine hsame (readOf_of_kind _ hread _) (handle_same ?_ s.1)
      have hopens : o.kind ≠ .openStream := fun heq => hopen (heq ▸ ho)
      have hcloses : o.kind ≠ .closeStream := fun heq => hclose (heq ▸ ho)
      simp [hread, hopens, hcloses]
  loops _ := trivial

/-- All the reads are over. -/
def Finished (I : JsonlImport ν α) (limits : Feed.Limits) (first : JsonlState) (start : Int)
    (s : World (JsonlState × υ) × Calls α) : Prop :=
  limits.Over (readAnswers I.target s.2) ∧
    ∃ left, I.Served first start s.1.user.1 (readAnswers I.target s.2) left

/-- Closing a step keeps that. -/
theorem finished_frame {limits : Feed.Limits} {K : List OpKind} {loops : Prop} (hread : .read ∉ K)
    (hopen : .openStream ∉ K) :
    (I.logic fetch others).Frame (On K loops) (I.Finished limits first start) where
  guard _ _ _ _ := trivial
  keep o s r s' ho h ht := by
    cases ht
    have hkind : o.kind ≠ .read := fun heq => hread (heq ▸ ho)
    have hopens : o.kind ≠ .openStream := fun heq => hopen (heq ▸ ho)
    obtain ⟨hover, left, taken, idle, hvisits, hanswers, hidle, hdelivered⟩ := h
    unfold Finished Served
    rw [readAnswers_none _ (readOf_of_kind _ hkind _)]
    dsimp only
    rw [handle_delivered (by simp [hkind, hopens])]
    exact ⟨hover, left, taken, idle, hvisits, hanswers, hidle, hdelivered⟩
  loops _ := trivial

/-! ### The step -/

open ChunkStepExecutor

variable {step : ChunkStepDefinition} {context : ChunkExecutionContext}

/-- **The chunk loop** ends when all its reads are made. -/
theorem wp_chunkLoop_finished {S : Setting} {policies : Policies} {partition : Option (Int × Int)}
    (hS : S.For step context policies partition)
    (hreader : S.reader = { target := I.target, isStream := true })
    (hskip : S.policies.skip = none ∨ I.Unfailing first.counts start) (fuel : Nat) {l : Locals}
    (hl : SameCounters { chunkIndex := S.firstChunk } l)
    {s : World (JsonlState × υ) × Calls α} (h : I.Opened first start s) :
    Scoped.wp (I.logic fetch others) (S.chunkLoop fuel : ChunkCode α Unit)
      (fun out _ s' => True ∧ (out = .ok () → I.Finished (step.limits partition) first start s'))
        l s := by
  have htarget : S.reader.target = I.target := by rw [hreader]
  have hstream : S.reader.isStream = true := by rw [hreader]
  have hsound := (feeding_advances (α := α) hstream).sound (fun _ _ => trivial)
    fun _ _ _ => trivial
  have hhead : (feeding S).holds fuel .head l s.2 := by
    change S.limits.Drawn (readAnswers _ _) ∧ _ = Feed.itemCount (readAnswers _ _) ∧
      S.Begins (readAnswers _ _)
    rw [htarget, h.unread]
    exact ⟨Feed.Limits.drawn_nil, hl.readCount, Feed.not_runsDry_nil _, Or.inl (Nat.dvd_zero _)⟩
  have hserving : I.Serving first start s := by
    unfold Serving
    rw [h.unread]
    exact h.ready.served
  have hfed := wp_of_logged (answersAs_assumed (I.environment fetch others) (unskipped S))
    (w := s.1) (wp_assumed (hsound.wp_chunkLoop fuel hhead)) trivial
  have hserved := Scoped.wp_of_keeps (l := l) (S.stays_chunkLoop fuel)
    (serving_frame I fetch others first start (by decide) (by decide)) hserving
  refine Prog.wp_mono (Prog.wp_and hfed hserved) ?_
  intro outcome s' hcase
  obtain ⟨⟨hfed, -⟩, hserved⟩ := hcase
  rcases outcome with err | ⟨out, l'⟩
  · exact hserved
  · refine ⟨trivial, ?_⟩
    intro hout
    subst hout
    have hfair : (unskipped S).Fair s'.2 := by
      refine fair_unskipped fun err herr => hskip.resolve_right fun hnone => ?_
      rw [htarget] at herr
      exact hserved.2.no_error hnone err herr
    obtain ⟨_, hdrawn, -, hended⟩ := hfed hfair
    have hlimits : S.limits = step.limits partition := by
      unfold Setting.limits
      rw [hS.step, hS.partition]
    rw [htarget, hlimits] at hdrawn
    have hnone : ¬ S.limits.Wants (readAnswers S.reader.target s'.2) := hended
    rw [htarget, hlimits] at hnone
    exact ⟨⟨hdrawn, hnone⟩, _, hserved.2⟩

variable (hfits : I.Fits fetch others step context)
include hfits

/-- Only the reader's own calls and the saves touch the import. -/
theorem Fits.frame {K : List OpKind}
    (hK : ∀ k ∈ K, k ∉ [OpKind.read, .openStream, .closeStream, .saveContext]) :
    (I.logic fetch others).Frame (On K)
      (I.Untouched context.stepExecutionId first start) :=
  untouched_frame context.stepExecutionId hfits.saves hK

/-- The step's reader is this one. -/
theorem Fits.wp_resolveReader {s : World (JsonlState × υ) × Calls α}
    (h : I.Untouched context.stepExecutionId first start s) :
    (resolveReader step.reader context step : Code α ItemHandler).wp (I.logic fetch others)
      (fun out s' => I.Untouched context.stepExecutionId first start s' ∧
        ∀ reader, out = .ok reader → reader = { target := I.target, isStream := true }) s := by
  have hkinds : ∀ k ∈ [OpKind.invoke, .factory],
      k ∉ [OpKind.read, .openStream, .closeStream, .saveContext] := by decide
  refine Prog.wp_mono (Prog.wp_and (Prog.wp_self (fun _ _ => trivial) _ s)
    (Prog.wp_of_uses (uses_resolveReader (by decide) (by decide) _ _ _) (hfits.frame hkinds) h)) ?_
  intro out s' hcase
  obtain ⟨hrun, huntouched⟩ := hcase
  refine ⟨huntouched, ?_⟩
  intro reader hout
  subst hout
  exact hfits.reader s reader s' hrun

/-- The context of the step is loaded. -/
theorem Fits.wp_loadContext {s : World (JsonlState × υ) × Calls α}
    (h : I.Untouched context.stepExecutionId first start s) :
    (getExecutionContext (.stepExecutionId context.stepExecutionId) :
      Code α ExecutionContext).wp (I.logic fetch others)
      (fun out s' => I.Untouched context.stepExecutionId first start s' ∧
        ∀ ctx, out = .ok ctx → I.place ctx.data = start) s := by
  have hkinds : ∀ k ∈ [OpKind.loadContext],
      k ∉ [OpKind.read, .openStream, .closeStream, .saveContext] := by decide
  apply Prog.wp_perform.mpr
  refine ⟨trivial, ?_⟩
  intro r s' ht
  refine ⟨(hfits.frame hkinds).keep _ s r s' (List.mem_singleton.mpr rfl) h ht, ?_⟩
  cases ht
  intro ctx hctx
  cases hctx
  exact h.place

/-- Opening one stream opens the reader on the context at hand, or leaves it as it was. -/
theorem Fits.wp_openStream {stream : Handle} {rest : List Handle} {l : Locals}
    {s : World (JsonlState × υ) × Calls α} {Q : Except Thrown Unit → Locals →
      World (JsonlState × υ) × Calls α → Prop} (herror : ∀ err l' s', Q (.error err) l' s')
    (hnext : ∀ ctx w', (w'.user.1 = s.1.user.1 ∧ stream ≠ I.target) ∨
        (w'.user.1 = I.openOn l.streamContext I.content s.1.user.1 ∧ ctx = l.streamContext) →
      Scoped.wp (I.logic fetch others) (openStreams rest : ChunkCode α Unit) Q
        { l with streamContext := ctx, openedStreams := l.openedStreams ++ [stream] }
        (w', s.2 ++ [⟨.user (.openStream stream l.streamContext), .ok ctx⟩])) :
    Scoped.wp (I.logic fetch others) (openStreams (stream :: rest) : ChunkCode α Unit) Q l s := by
  refine ChunkStepExecutor.wp_openStreams_cons trivial ?_
  intro answer s' ht
  have hopened := handle_open others hfits.content stream l.streamContext s.1
  cases ht
  revert hopened
  rcases handle (I.environment fetch others) (.user (.openStream stream l.streamContext) : Op α) s.1
    with ⟨answer, w⟩
  intro hopened
  have hanswer : ∃ out : Except Thrown ExecutionContext, answer = out := ⟨answer, rfl⟩
  obtain ⟨err | ctx, rfl⟩ := hanswer
  · exact herror _ _ _
  · apply hnext
    rcases hopened with ⟨hstate, htarget⟩ | ⟨hstate, hctx⟩
    · refine Or.inl ⟨hstate, fun heq => ?_⟩
      obtain ⟨err, herr⟩ := htarget heq
      cases herr
    · exact Or.inr ⟨hstate, Except.ok.inj hctx⟩

/-- Opening the streams opens the reader, which is the first of them. -/
theorem Fits.wp_openStreams {rest : List Handle} (hrest : rest.length ≤ 1) {l : Locals}
    {s : World (JsonlState × υ) × Calls α} (hplace : I.place l.streamContext.data = start)
    (h : I.Untouched context.stepExecutionId first start s) :
    Scoped.wp (I.logic fetch others) (openStreams (I.target :: rest) : ChunkCode α Unit)
      (fun out l' s' => out = .ok () → SameCounters l l' ∧ I.Opened first start s') l s := by
  have hdone {l₀ l' : Locals} {s' : World (JsonlState × υ) × Calls α} (hl : SameCounters l₀ l')
      (hopened : I.Opened first start s') :
      Scoped.wp (I.logic fetch others) (openStreams [] : ChunkCode α Unit)
        (fun out l' s' => out = .ok () → SameCounters l₀ l' ∧ I.Opened first start s') l' s' :=
    fun _ => ⟨hl, hopened⟩
  refine hfits.wp_openStream (fun _ _ _ hout => by cases hout) ?_
  intro ctx w' hcase
  rcases hcase with ⟨-, hother⟩ | ⟨hstate, rfl⟩
  · exact absurd rfl hother
  · have hready : I.Ready first start w'.user.1 := by
      rw [hstate, ← hplace]
      exact h.fresh.openOn l.streamContext
    have hunread := (readAnswers_none s.2
      (c := ⟨.user (.openStream I.target l.streamContext), .ok l.streamContext⟩)
        (readOf_of_kind I.target (by simp [Op.kind, UserCall.kind]) _)).trans h.unread
    cases rest with
    | nil => exact hdone ⟨rfl, rfl, rfl, rfl, rfl⟩ ⟨hunread, hready⟩
    | cons stream more =>
        obtain rfl : more = [] := List.eq_nil_of_length_eq_zero (by simpa using hrest)
        refine hfits.wp_openStream (fun _ _ _ hout => by cases hout) ?_
        intro ctx w'' hopened
        refine hdone ⟨rfl, rfl, rfl, rfl, rfl⟩
          ⟨(readAnswers_none _ (readOf_of_kind _ (by simp [Op.kind, UserCall.kind]) _)).trans
            hunread, ?_⟩
        rcases hopened with ⟨hsame, -⟩ | ⟨hagain, -⟩
        · dsimp only at hsame ⊢
          rw [hsame]
          exact hready
        · dsimp only at hagain ⊢
          rw [hagain, ← hplace]
          exact Fresh.openOn hready.toFresh l.streamContext

/-- **Preparing a step** resolves and opens the reader, and reads nothing. -/
theorem Fits.wp_prepare (policies : Policies) (partition : Option (Int × Int))
    {s : World (JsonlState × υ) × Calls α}
    (h : I.Untouched context.stepExecutionId first start s) :
    Scoped.wp (I.logic fetch others) (prepare step context policies partition)
      (fun out l s' => ∀ S, out = .ok S → S.For step context policies partition ∧
        S.reader = { target := I.target, isStream := true } ∧
        SameCounters { chunkIndex := S.firstChunk } l ∧ I.Opened first start s') {} s := by
  have hthrew {err : Thrown} {l : Locals} {s' : World (JsonlState × υ) × Calls α} :
      ∀ S : Setting, (Except.error err : Except Thrown Setting) = .ok S →
        S.For step context policies partition ∧
        S.reader = { target := I.target, isStream := true } ∧
        SameCounters { chunkIndex := S.firstChunk } l ∧ I.Opened first start s' :=
    fun _ hout => by cases hout
  refine wp_prepare_of_opening (K := [.invoke]) (by decide) (hfits.frame (by decide))
    (fun _ _ _ => hthrew) (hfits.wp_resolveReader h) ?_
  intro s₃ h₃
  refine Prog.wp_mono (hfits.wp_loadContext h₃) ?_
  intro out s₄ hcase
  obtain ⟨h₄, hplace⟩ := hcase
  refine ⟨h₄, ?_⟩
  intro ctx hctx S hS hreader
  have hstreams : S.streams =
      I.target :: (if S.writer.isStream then [S.writer.target] else []) := by
    unfold Setting.streams
    rw [hreader]
    rfl
  have hrest : (if S.writer.isStream then [S.writer.target] else []).length ≤ 1 := by
    split
    · exact Nat.le_refl 1
    · exact Nat.zero_le 1
  rw [hstreams]
  refine Scoped.wp_mono (hfits.wp_openStreams hrest (hplace ctx hctx) h₄) ?_
  intro out l₅ s₅ h₅
  cases out with
  | error err => exact hthrew
  | ok u =>
      obtain ⟨hl₅, hopened⟩ := h₅ rfl
      intro S' hS'
      cases hS'
      exact ⟨hS, hreader, ⟨hl₅.readCount, hl₅.writeCount, hl₅.skipCount, hl₅.commitCount, rfl⟩,
        hopened⟩

/-- What a step that does not fail has read. -/
theorem Fits.wp_execute (fuel : Nat) {range : Option (Int × Int)}
    (w : World (JsonlState × υ))
    (hskip : step.skipPolicy = none ∨ I.Unfailing w.user.1.counts
      (I.place (w.repo.getExecutionContext (.stepExecutionId context.stepExecutionId)).data))
    (hrange : resolveRange step context = .ok range) :
    (execute fuel step context : Code α StepResult).wp (I.logic fetch others)
      (fun out s' => True ∧ ∀ result, out = .ok result →
        I.Finished (step.limits range) w.user.1
          (I.place (w.repo.getExecutionContext (.stepExecutionId context.stepExecutionId)).data)
            s' ∨
          result.status = .FAILED) (w, []) := by
  have hkeep : KeepsResult (I.logic fetch others) fun result => result.status = .FAILED := by
    intro fn ctx result s r s' ht hfailed
    cases ht
    obtain ⟨ctx', hanswer, -⟩ := handleUser_env (I.environment fetch others)
      (.afterStep fn ctx result) s.1
    change (handleUser (I.environment fetch others) (.afterStep fn ctx result) s.1).1.2.status = _
    rw [hanswer]
    exact hfits.outcome fn ctx result _ _ hfailed
  refine wp_execute_of_body (A := fun _ => True)
    (J := I.Untouched context.stepExecutionId w.user.1 _) (hfits.frame (by decide))
    ⟨fun _ _ _ _ => trivial, fun _ _ _ _ _ _ _ => trivial, fun h => h.elim⟩ (fun _ _ => trivial)
    hkeep (fun _ h => h) ?_ ⟨rfl, ⟨rfl, rfl⟩, rfl⟩
  intro policies partition s hpolicies hpartition h
  refine wp_body_of_prepare (finished_frame (by decide) (by decide)) (fun _ _ => trivial)
    (Scoped.wp_mono (hfits.wp_prepare policies partition h) ?_)
  intro out l₁ s₁ h₁
  cases out with
  | error err => trivial
  | ok S =>
      obtain ⟨hS, hreader, hl, hopened⟩ := h₁ S rfl
      have hpolicy : S.policies.skip = none ∨ _ := hskip.imp_left fun hnone => by
        rw [hS.policies, Policies.compile_skip hpolicies, hnone]
      obtain rfl : partition = range := Except.ok.inj (hpartition.symm.trans hrange)
      exact wp_chunkLoop_finished hS hreader hpolicy fuel hl hopened

end World

end JsonlImport

/-- **When a COMPLETED step has lost no record.**  A step without a skip policy, whatever it
retries, has delivered every line, itself or before it was restarted, exactly where the first
attempt at each line that was still to be delivered has an item, and no chunk is cut to nothing in
front of it. -/
theorem completed_delivers_lines_iff {I : JsonlImport ν α} {fetch : υ → Except Thrown String × υ}
    {others : Environment α υ} {fuel : Nat} {step : ChunkStepDefinition}
    {context : ChunkExecutionContext} {range : Option (Int × Int)} {w w' : World (JsonlState × υ)}
    {result : StepResult} {calls : Calls α} (hfits : I.Fits fetch others step context)
    (hskip : step.skipPolicy = none)
    (hrange : ChunkStepExecutor.resolveRange step context = .ok range)
    (hrun : Prog.run (handle (I.environment fetch others)).traced
      (ChunkStepExecutor.execute fuel step context) (w, []) = (.returned result, (w', calls)))
    (hcompleted : result.status = .COMPLETED) :
    (∀ i, I.Wanted i → i ∈ w'.user.1.delivered) ↔
      ∀ i, I.Wanted i → i ∈ w.user.1.delivered ∨
        I.Arrives (step.limits range) w.user.1.counts
          (I.place (w.repo.getExecutionContext (.stepExecutionId context.stepExecutionId)).data)
            i := by
  have hended := Prog.wp_run (hfits.wp_execute fuel w (Or.inl hskip) hrange)
  rw [hrun] at hended
  obtain ⟨hover, left, hserved⟩ := (hended.2 result rfl).resolve_right
    (by rw [hcompleted]; exact fun heq => by cases heq)
  refine forall_congr' fun i => forall_congr' fun _ => ?_
  exact hserved.delivered_iff hover i

namespace JsonlImport

/-- Of a reader that passes over `null`, in a step whose chunks have items, only the first attempt
at the line itself matters. -/
theorem arrives_iff_of_passesNull {I : JsonlImport ν α} (hnull : I.reader.passesNull = true)
    {limits : Feed.Limits} (hroom : ∀ n, limits.room n) {counts : LineCounts} {start : Int}
    {n : Nat}
    {line : String} (hline : (splitLines I.content)[n]? = some line) (htext : jsTrim line ≠ "")
    (hvalue : I.reader.isNull line = false) :
    I.Arrives limits counts start n ↔
      start ≤ n ∧ ∃ item, (I.reader.mapLine line n counts).1 = .ok (some item) := by
  have hvisited : ∀ answer, ((n : Int), answer) ∈ I.visitsAt counts start ↔
      start ≤ n ∧ answer = (I.reader.mapLine line n counts).1 := by
    intro answer
    unfold visitsAt
    rw [JsonlItemReader.mem_visits, hline]
    constructor
    · intro h
      obtain ⟨hstart, line', hsame, -, hanswer⟩ := h
      cases hsame
      exact ⟨hstart, hanswer⟩
    · intro h
      obtain ⟨hstart, hanswer⟩ := h
      exact ⟨hstart, line, rfl, by simp [JsonlItemReader.passes, htext, hvalue], hanswer⟩
  constructor
  · intro h
    obtain ⟨before, item, after, heq, -⟩ := h
    have hmem : ((n : Int), Except.ok (some item)) ∈ I.visitsAt counts start := by
      rw [heq]
      exact List.mem_append_right _ List.mem_cons_self
    obtain ⟨hstart, hanswer⟩ := (hvisited _).mp hmem
    exact ⟨hstart, item, hanswer.symm⟩
  · intro h
    obtain ⟨hstart, item, hanswer⟩ := h
    obtain ⟨before, after, heq⟩ := List.append_of_mem ((hvisited _).mpr ⟨hstart, hanswer.symm⟩)
    refine ⟨before, item, after, heq, Feed.not_runsDry_of_items ?_, hroom _⟩
    intro answer hmem hnone
    obtain ⟨visit, hvisit, rfl⟩ := List.mem_map.mp hmem
    have hvisits : visit ∈ I.visitsAt counts start := by
      rw [heq]
      exact List.mem_append_left _ hvisit
    exact JsonlItemReader.visits_ne_none hnull hvisits hnone

end JsonlImport

/-! ### An import of numbers -/

/-- What a text of digits, or `null`, is parsed to. -/
def parseNumber : String → Except Thrown (Option Nat)
  | "1" => .ok (some 1)
  | "2" => .ok (some 2)
  | "3" => .ok (some 3)
  | "null" => .ok none
  | _ => .error ⟨.user "SyntaxError", "Unexpected end of JSON input"⟩

/-- The lines of a file. -/
def fileImport (content : String) : JsonlImport Nat Nat where
  target := 0
  reader := .file { path := "numbers.jsonl", parse := parseNumber }
  content := content

/-- The lines of an object; the second line can not be mapped at once. -/
def objectImport (content : String) : JsonlImport Nat Nat where
  target := 0
  reader := .s3
    { bucket := "data", key := "numbers.jsonl", parse := parseNumber, asItem := id
      mapItem := some fun value lineIndex attempt =>
        if lineIndex = 1 ∧ attempt = 0 then .error ⟨.user "ServiceUnavailable", "try again"⟩
        else .ok value }
  content := content

/-- The lambda of the reader makes a stream, that of the writer is one itself. -/
def importOthers : Environment Nat Nat where
  user
    | .invoke fn, pos, _ =>
        (.ok { target := fn, isFunction := fn != 0, isStream := fn == 0 }, pos, [])
    | call, pos, ctx => (willing []).user call pos ctx
  broker _ pos := (.ok "queued", pos)

/-- A step that retries three times and skips nothing. -/
def importStep : ChunkStepDefinition :=
  { ChunkStepExecutor.plainStep 2 none none with
    retryPolicy := some (ChunkStepExecutor.retryErrors 3) }

def JsonlImport.start : World (JsonlState × Nat) := .initial (unaryIds 'r') (unaryIds 'u') ({}, 0)

def JsonlImport.run (I : JsonlImport Nat Nat) :
    Prog.Outcome Thrown StepResult × World (JsonlState × Nat) × Calls Nat :=
  Prog.run (handle (I.environment (fun pos => (.ok I.content, pos)) importOthers)).traced
    (ChunkStepExecutor.execute 8 importStep ChunkStepExecutor.plainContext) (JsonlImport.start, [])

/-- What the step answers when it has read `n` numbers and written them in `c` chunks. -/
def importResult (n c : Nat) : StepResult :=
  { status := .COMPLETED, exitCode := "COMPLETED", exitMessage := "", readCount := n
    writeCount := n, skipCount := 0, commitCount := some c }

/-- Every import on the first handle fits its own step. -/
theorem import_fits (I : JsonlImport Nat Nat) (htarget : I.target = 0) :
    I.Fits (fun pos => (.ok I.content, pos)) importOthers importStep
      ChunkStepExecutor.plainContext where
  content user raw h := (Except.ok.inj h).symm
  reader s reader s' h := by
    cases h
    rw [htarget]
    rfl
  saves call user saved data h := by
    cases call <;> cases h
  outcome fn ctx result user saved h := h

/-- The two lines with an item are delivered. -/
theorem completed_delivers_lines_iff_file :
    (fileImport "1\n\n3").run.1 = .returned (importResult 2 1) ∧
      0 ∈ (fileImport "1\n\n3").run.2.1.user.1.delivered ∧
      2 ∈ (fileImport "1\n\n3").run.2.1.user.1.delivered := by
  have hresult : (fileImport "1\n\n3").run.1 = .returned (importResult 2 1) := by decide +kernel
  have hrun : (fileImport "1\n\n3").run = (.returned (importResult 2 1),
      (fileImport "1\n\n3").run.2.1, (fileImport "1\n\n3").run.2.2) := Prod.ext hresult rfl
  have hall := (completed_delivers_lines_iff (import_fits _ rfl) rfl rfl hrun rfl).mpr <| by
    intro i h
    obtain ⟨n, line, rfl, hline, htext, hvalue⟩ := h
    refine Or.inr ((JsonlImport.arrives_iff_of_passesNull rfl (fun _ => Nat.zero_lt_succ 1) hline
      htext hvalue).mpr ⟨Int.natCast_nonneg n, ?_⟩)
    match n with
    | 0 =>
        cases hline
        exact ⟨1, rfl⟩
    | 1 =>
        cases hline
        exact absurd rfl htext
    | 2 =>
        cases hline
        exact ⟨3, rfl⟩
    | n + 3 => cases hline
  exact ⟨hresult, hall 0 ⟨0, "1", rfl, rfl, by decide +kernel, rfl⟩,
    hall 2 ⟨2, "3", rfl, rfl, by decide +kernel, rfl⟩⟩

/-- **A retried read loses the line**: the step COMPLETES, and the line that could not be parsed, or
not mapped at the first attempt, is not delivered. -/
theorem retried_line_lost :
    importStep.retryPolicy.isSome = true ∧ importStep.skipPolicy = none ∧
    ((fileImport "1\n?\n3").run.1 = .returned (importResult 2 1) ∧
      ¬ ∀ i, (fileImport "1\n?\n3").Wanted i →
        i ∈ (fileImport "1\n?\n3").run.2.1.user.1.delivered) ∧
    ((objectImport "1\n2\n3").run.1 = .returned (importResult 2 1) ∧
      ¬ ∀ i, (objectImport "1\n2\n3").Wanted i →
        i ∈ (objectImport "1\n2\n3").run.2.1.user.1.delivered) := by
  refine ⟨rfl, rfl, ⟨by decide +kernel, ?_⟩, ⟨by decide +kernel, ?_⟩⟩
  · intro hall
    have hlost : (1 : Int) ∉ (fileImport "1\n?\n3").run.2.1.user.1.delivered := by decide +kernel
    exact hlost (hall 1 ⟨1, "?", rfl, rfl, by decide +kernel, rfl⟩)
  · intro hall
    have hlost : (1 : Int) ∉ (objectImport "1\n2\n3").run.2.1.user.1.delivered := by
      decide +kernel
    exact hlost (hall 1 ⟨1, "2", rfl, rfl, by decide +kernel, rfl⟩)

end NestBatch
