import NestBatch.Lib.Feed
import NestBatch.Execution.LoopRules

/-!
# What a step that skips nothing has read

Where no read is skipped, a failed one is retried or ends the step, so the chunks are
cut from the answers that did not fail.  How many reads a step makes that comes to
its end can then be told from what they answered: the chunk loop is a consumer in
the sense of `Feed`, and the chunk size or the range of a partition are its limits.
-/

namespace NestBatch

variable {α : Type}

/-- What a read of `target` answered. -/
def readOf (target : Handle) : Prog.Call (Op α) Op.Resp → Option (Feed.Answer Thrown α)
  | ⟨.user (.read reader _), r⟩ => if reader = target then some r else none
  | _ => none

/-- The answers of a reader, in order. -/
def readAnswers (target : Handle) (calls : Calls α) : List (Feed.Answer Thrown α) :=
  calls.filterMap (readOf target)

theorem readOf_of_kind (target : Handle) {o : Op α} (h : o.kind ≠ .read) (r : o.Resp) :
    readOf target ⟨o, r⟩ = none := by
  cases o with
  | user call =>
      cases call with
      | read => exact absurd rfl h
      | _ => rfl
  | _ => rfl

theorem readAnswers_snoc (target : Handle) (calls : Calls α) (c : Prog.Call (Op α) Op.Resp) :
    readAnswers target (calls ++ [c]) = readAnswers target calls ++ (readOf target c).toList :=
  filterMap_snoc (readOf target) calls c

/-- A read adds its answer. -/
theorem readAnswers_read (target : Handle) (calls : Calls α) (ctx : ItemExecutionContext)
    (r : Except Thrown (Option α)) :
    readAnswers target (calls ++ [⟨.user (.read target ctx), r⟩]) =
      readAnswers target calls ++ [r] := by
  have hread : readOf target (⟨.user (.read target ctx), r⟩ : Prog.Call (Op α) Op.Resp) = some r :=
    if_pos rfl
  rw [readAnswers_snoc, hread]
  rfl

/-- Calls of something else. -/
theorem readAnswers_none {target : Handle} (calls : Calls α) {c : Prog.Call (Op α) Op.Resp}
    (h : readOf target c = none) :
    readAnswers target (calls ++ [c]) = readAnswers target calls := by
  rw [readAnswers_snoc, h]
  exact List.append_nil _

/-- The limits of a step: a chunk of a partition takes what is left of the range, so that none
begins anew as long as there is something left. -/
def ChunkStepDefinition.limits (step : ChunkStepDefinition) : Option (Int × Int) → Feed.Limits
  | none =>
      { stride := step.chunkSize
        room := fun _ => 0 < step.chunkSize
        room_mono := fun _ h => h }
  | some (from_, to_) =>
      { stride := 0
        room := fun n => (n : Int) < to_ - from_
        room_mono := by
          intro m n hle h
          omega }

namespace ChunkStepExecutor

namespace Setting

variable (S : Setting)

def limits : Feed.Limits := S.step.limits S.partition

/-- Where a chunk stands that has `items` items, `readCount` being read altogether, and may be given
`left` more. -/
def Filling (readCount left items : Nat) : Prop :=
  match S.partition with
  | none => items + left = S.step.chunkSize
  | some (from_, to_) => (readCount : Int) + left = to_ - from_

variable {S} {readCount left items base : Nat}

/-- There is room as long as a chunk may have items. -/
theorem cap_eq_zero_iff : S.cap readCount = 0 ↔ ¬ S.limits.room readCount := by
  unfold cap limits ChunkStepDefinition.limits
  cases S.partition with
  | none =>
      change S.step.chunkSize = 0 ↔ ¬ 0 < S.step.chunkSize
      omega
  | some range =>
      change (range.2 - range.1 - (readCount : Int)).toNat = 0 ↔
        ¬ (readCount : Int) < range.2 - range.1
      omega

theorem filling_start (h : S.cap readCount ≠ 0) : S.Filling readCount (S.cap readCount) 0 := by
  unfold cap at h ⊢
  unfold Filling
  cases hpartition : S.partition with
  | none => exact Nat.zero_add _
  | some range =>
      rw [hpartition] at h
      change (readCount : Int) + (range.2 - range.1 - (readCount : Int)).toNat = _
      have hroom : (range.2 - range.1 - (readCount : Int)).toNat ≠ 0 := h
      omega

/-- One more item. -/
theorem Filling.item (h : S.Filling readCount (left + 1) items) :
    S.Filling (readCount + 1) left (items + 1) := by
  unfold Filling at h ⊢
  cases hpartition : S.partition with
  | none =>
      rw [hpartition] at h
      dsimp only at h ⊢
      omega
  | some range =>
      rw [hpartition] at h
      dsimp only at h ⊢
      omega

/-- While a read is left there is room. -/
theorem Filling.room (h : S.Filling readCount (left + 1) items) : S.limits.room readCount := by
  unfold Filling at h
  unfold limits ChunkStepDefinition.limits
  cases hpartition : S.partition with
  | none =>
      rw [hpartition] at h
      change 0 < S.step.chunkSize
      dsimp only at h
      omega
  | some range =>
      rw [hpartition] at h
      change (readCount : Int) < range.2 - range.1
      dsimp only at h
      omega

/-- A chunk that may be given more has either no items or not come to where the next one begins. -/
theorem Filling.begins_iff (h : S.Filling readCount (left + 1) items)
    (hbase : S.limits.stride ∣ base) : S.limits.stride ∣ base + items ↔ items = 0 := by
  rw [Nat.dvd_add_right hbase]
  unfold Filling at h
  unfold limits ChunkStepDefinition.limits
  cases hpartition : S.partition with
  | none =>
      rw [hpartition] at h
      dsimp only at h
      change S.step.chunkSize ∣ items ↔ items = 0
      constructor
      · intro hdvd
        by_contra hsome
        have hle := Nat.le_of_dvd (Nat.pos_of_ne_zero hsome) hdvd
        omega
      · intro hzero
        rw [hzero]
        exact Nat.dvd_zero _
  | some range => exact Nat.zero_dvd

/-- A full chunk ends where the next one begins, or there is nothing left. -/
theorem Filling.full (h : S.Filling readCount 0 items) (hbase : S.limits.stride ∣ base) :
    S.limits.stride ∣ base + items ∨ ¬ S.limits.room readCount := by
  rw [Nat.dvd_add_right hbase]
  unfold Filling at h
  unfold limits ChunkStepDefinition.limits
  cases hpartition : S.partition with
  | none =>
      rw [hpartition] at h
      have hitems : items = S.step.chunkSize := h
      rw [hitems]
      exact Or.inl (Nat.dvd_refl _)
  | some range =>
      rw [hpartition] at h
      refine Or.inr ?_
      change ¬ (readCount : Int) < range.2 - range.1
      dsimp only at h
      omega

/-- A chunk that may not be given anything. -/
theorem Filling.nothing (h : S.Filling readCount 0 0) : ¬ S.limits.room readCount := by
  unfold Filling at h
  unfold limits ChunkStepDefinition.limits
  cases hpartition : S.partition with
  | none =>
      rw [hpartition] at h
      have hsize : 0 + 0 = S.step.chunkSize := h
      change ¬ 0 < S.step.chunkSize
      omega
  | some range =>
      rw [hpartition] at h
      change ¬ (readCount : Int) < range.2 - range.1
      dsimp only at h
      omega

/-- A stream is not drained. -/
theorem mustDrain_stream (h : S.reader.isStream = true) (k : Int) : S.mustDrain k = false := by
  unfold mustDrain
  cases S.context.resumeFromChunkIndex with
  | none => rfl
  | some resume =>
      rw [h]
      rfl

end Setting

/-! ### At every stage -/

/-- A chunk begins here, or there is nothing left. -/
def Setting.Begins (S : Setting) (answers : List (Feed.Answer Thrown α)) : Prop :=
  ¬ Feed.RunsDry S.limits.stride answers ∧
    (S.limits.stride ∣ Feed.sinceGap answers ∨ ¬ S.limits.room (Feed.itemCount answers))

/-- What the answers so far say at a stage of the loop. -/
def Stage.Fed (S : Setting) : Stage α → List (Feed.Answer Thrown α) → Prop
  | .reading _ left items, answers =>
      (¬ Feed.RunsDry S.limits.stride answers ∧
        S.Filling (Feed.itemCount answers) left items.length ∧
        ∃ base, S.limits.stride ∣ base ∧ Feed.sinceGap answers = base + items.length) ∨
      (left = 0 ∧ Feed.sinceGap answers = 0 ∧
        (Feed.RunsDry S.limits.stride answers ↔ items = []))
  | .draining _ _ _, _ => False
  | .ended, answers => ¬ S.limits.Wants answers
  | _, answers => S.Begins answers

/-- The reads that were made, at every stage. -/
def feeding (S : Setting) : LoopStates α where
  holds _ stage l calls := S.limits.Drawn (readAnswers S.reader.target calls) ∧
    l.readCount = Feed.itemCount (readAnswers S.reader.target calls) ∧
    stage.Fed S (readAnswers S.reader.target calls)
  threw _ _ := True

section Feeding

variable {S : Setting} {answers : List (Feed.Answer Thrown α)}

/-- **Between the calls** the loop ends where no more reads are wanted. -/
theorem fed_silent (hstream : S.reader.isStream = true) {fuel fuel' : Nat} {stage stage' : Stage α}
    {l l' : Locals} (hmove : Silent S fuel stage l fuel' stage' l')
    (hcount : l.readCount = Feed.itemCount answers) (h : stage.Fed S answers) :
    l'.readCount = Feed.itemCount answers ∧ stage'.Fed S answers := by
  cases hmove with
  | full hcap =>
      rw [hcount] at hcap
      exact ⟨hcount, fun hwants => Setting.cap_eq_zero_iff.mp hcap hwants.2⟩
  | start hdrain hcap =>
      rw [hcount] at hcap
      rw [hcount]
      obtain ⟨hdry, hbegins⟩ := h
      have hroom := fun hnone => hcap (Setting.cap_eq_zero_iff.mpr hnone)
      refine ⟨rfl, Or.inl ⟨hdry, Setting.filling_start hcap, ?_⟩⟩
      exact ⟨_, hbegins.resolve_right hroom, rfl⟩
  | blank =>
      refine ⟨hcount, fun hwants => ?_⟩
      rcases h with ⟨-, hfilling, -⟩ | ⟨-, -, hdry⟩
      · exact hfilling.nothing hwants.2
      · exact hwants.1 (hdry.mpr rfl)
  | process hitems =>
      rcases h with ⟨hdry, hfilling, base, hbase, hsince⟩ | ⟨-, hsince, hdry⟩
      · have hfull := hfilling.full hbase
        rw [← hsince] at hfull
        exact ⟨hcount, hdry, hfull⟩
      · have hgap := Nat.dvd_zero S.limits.stride
        rw [← hsince] at hgap
        exact ⟨hcount, fun h => hitems (hdry.mp h), Or.inl hgap⟩
  | copy _ => exact ⟨hcount, h⟩
  | nothing => exact ⟨hcount, h⟩
  | reported => exact ⟨hcount, h⟩
  | commit => exact ⟨hcount, h⟩
  | drain hdrain _ =>
      rw [Setting.mustDrain_stream hstream] at hdrain
      cases hdrain
  | dry => exact h.elim
  | drained _ => exact h.elim

/-- A chunk that may be given more is under way. -/
theorem fed_reading {k : Int} {left : Nat} {items : List α}
    (h : (Stage.reading k (left + 1) items).Fed S answers) : S.limits.Wants answers := by
  rcases h with ⟨hdry, hfilling, -⟩ | ⟨hleft, -⟩
  · exact ⟨hdry, hfilling.room⟩
  · cases hleft

/-- **A read** that fails leaves the chunk as it was. -/
theorem fed_error {k : Int} {left : Nat} {items : List α} (err : Thrown)
    (h : (Stage.reading k (left + 1) items).Fed S answers) :
    Feed.itemCount (answers ++ [.error err]) = Feed.itemCount answers ∧
      (Stage.reading k (left + 1) items).Fed S (answers ++ [.error err]) := by
  have hcount : Feed.itemCount (answers ++ [.error err]) = Feed.itemCount answers :=
    Feed.itemCount_snoc answers (.error err)
  refine ⟨hcount, ?_⟩
  rcases h with ⟨hdry, hfilling, base, hbase, hsince⟩ | ⟨hleft, -⟩
  · refine Or.inl ⟨?_, ?_, base, hbase, (Feed.sinceGap_snoc answers _).trans hsince⟩
    · intro hdry'
      rcases Feed.runsDry_snoc.mp hdry' with hold | ⟨hlast, -⟩
      · exact hdry hold
      · cases hlast
    · rw [hcount]
      exact hfilling
  · cases hleft

/-- One with an item is one item more. -/
theorem fed_item {k : Int} {left : Nat} {items : List α} (item : α)
    (h : (Stage.reading k (left + 1) items).Fed S answers) :
    Feed.itemCount (answers ++ [.ok (some item)]) = Feed.itemCount answers + 1 ∧
      (Stage.reading k left (items ++ [item])).Fed S (answers ++ [.ok (some item)]) := by
  have hcount : Feed.itemCount (answers ++ [.ok (some item)]) = Feed.itemCount answers + 1 :=
    Feed.itemCount_snoc answers (.ok (some item))
  refine ⟨hcount, ?_⟩
  rcases h with ⟨hdry, hfilling, base, hbase, hsince⟩ | ⟨hleft, -⟩
  · refine Or.inl ⟨?_, ?_, base, hbase, ?_⟩
    · intro hdry'
      rcases Feed.runsDry_snoc.mp hdry' with hold | ⟨hlast, -⟩
      · exact hdry hold
      · cases hlast
    · rw [hcount, List.length_append, List.length_singleton]
      exact hfilling.item
    · rw [Feed.sinceGap_snoc, hsince, List.length_append, List.length_singleton]
      exact Nat.add_assoc base items.length 1
  · cases hleft

/-- One without cuts the chunk short. -/
theorem fed_none {k : Int} {left : Nat} {items : List α}
    (h : (Stage.reading k (left + 1) items).Fed S answers) :
    Feed.itemCount (answers ++ [.ok none]) = Feed.itemCount answers ∧
      (Stage.reading k 0 items).Fed S (answers ++ [.ok none]) := by
  refine ⟨Feed.itemCount_snoc answers (.ok none), ?_⟩
  rcases h with ⟨hdry, hfilling, base, hbase, hsince⟩ | ⟨hleft, -⟩
  · have hbegins := hfilling.begins_iff hbase
    rw [← hsince, List.length_eq_zero_iff] at hbegins
    refine Or.inr ⟨rfl, Feed.sinceGap_snoc answers _, ?_⟩
    rw [Feed.runsDry_snoc, ← hbegins]
    simp [hdry]
  · cases hleft

end Feeding

/-- Calls that read nothing leave it alone. -/
theorem feeding_snoc {S : Setting} {fuel : Nat} {stage : Stage α} {l : Locals} {calls : Calls α}
    {o : Op α} (ho : o.kind ≠ .read) (r : o.Resp) (h : (feeding S).holds fuel stage l calls) :
    (feeding S).holds fuel stage l (calls ++ [⟨o, r⟩]) := by
  change S.limits.Drawn (readAnswers _ _) ∧ _ = Feed.itemCount (readAnswers _ _) ∧
    stage.Fed S (readAnswers _ _)
  rw [readAnswers_none calls (readOf_of_kind _ ho r)]
  exact h

/-- A read keeps the feeding in step, where errors are skipped by no policy. -/
theorem feeding_read {S : Setting} {fuel : Nat} {k : Int} {left : Nat} {items : List α}
    {l : Locals} {calls : Calls α} {r : Except Thrown (Option α)}
    (hskip : ∀ err, r = .error err → S.policies.skip = none)
    (h : (feeding S).holds fuel (.reading k (left + 1) items) l calls)
    (ctx : ItemExecutionContext) :
    (feeding S).AfterRead S.policies fuel k left items l r
      (calls ++ [⟨.user (.read S.reader.target ctx), r⟩]) := by
  obtain ⟨hdrawn, hcount, hfed⟩ := h
  have hread := readAnswers_read S.reader.target calls ctx r
  have hmade : S.limits.Drawn (readAnswers S.reader.target
      (calls ++ [⟨.user (.read S.reader.target ctx), r⟩])) := by
    rw [hread]
    exact hdrawn.snoc (fed_reading hfed) r
  match r with
  | .ok none =>
      obtain ⟨hitems, hcut⟩ := fed_none hfed
      rw [← hread] at hitems hcut
      exact ⟨hmade, hcount.trans hitems.symm, hcut⟩
  | .ok (some item) =>
      obtain ⟨hitems, hmore⟩ := fed_item item hfed
      rw [← hread] at hitems hmore
      exact ⟨hmade, (congrArg (· + 1) hcount).trans hitems.symm, hmore⟩
  | .error err =>
      obtain ⟨hitems, hsame⟩ := fed_error err hfed
      rw [← hread] at hitems hsame
      intro attempt
      cases hc : consult S.policies err l.skipCount attempt with
      | skip =>
          have hskips := (consult_skip hc).1
          unfold Policies.skips Policies.covers at hskips
          rw [hskip err rfl] at hskips
          cases hskips
      | retry => exact ⟨hmade, hcount.trans hitems.symm, hsame⟩
      | fail err' => trivial

/-- Where there is a skip policy, no read fails. -/
def unskipped (S : Setting) : CallRules α where
  allowed _ o r := ∀ err, readOf S.reader.target ⟨o, r⟩ = some (.error err) → S.policies.skip = none

/-- Without a skip policy every log is fair to the unskipped. -/
theorem fair_unskipped {S : Setting} {calls : Calls α}
    (h : ∀ err, .error err ∈ readAnswers S.reader.target calls → S.policies.skip = none) :
    (unskipped S).Fair calls :=
  throughout_of_forall fun c hc err herr => h err (List.mem_filterMap.mpr ⟨c, hc, herr⟩)

/-- **The chunk loop is a consumer** with the limits of its step. -/
theorem feeding_advances {S : Setting} (hstream : S.reader.isStream = true) :
    (feeding (α := α) S).Advances S (unskipped S) True where
  quiet fuel stage l := by
    refine logged_frame (fun _ _ _ _ => trivial) ?_
    intro calls o r ho _ h
    refine feeding_snoc ?_ r h
    intro heq
    exact absurd (heq ▸ ho : OpKind.read ∈ LoopStates.quietKinds) (by decide)
  counters _ _ l l' calls hl h := ⟨h.1, hl.readCount.trans h.2.1, h.2.2⟩
  silent _ _ _ _ _ _ _ hmove h := ⟨h.1, fed_silent hstream hmove h.2.1 h.2.2⟩
  read fuel k left items l calls h := by
    refine ⟨trivial, fun r hr => feeding_read (fun err herr => hr err ?_) h _⟩
    rw [herr]
    exact if_pos rfl
  process fuel k item rest processed l calls processor _ h := by
    refine ⟨trivial, ?_⟩
    intro r _
    have hsame := feeding_snoc (o := .user (.process processor.target item (S.itemContext k)))
      (by simp [Op.kind, UserCall.kind]) r h
    cases r with
    | ok kept =>
        cases kept with
        | none => exact hsame
        | some value => exact hsame
    | error err =>
        intro attempt
        cases consult S.policies err l.skipCount attempt with
        | skip => exact hsame
        | retry => exact hsame
        | fail err' => trivial
  write fuel k processed l calls _ h := by
    refine ⟨trivial, ?_⟩
    intro r _
    have hsame := feeding_snoc (o := .user (.write S.writer.target processed (S.itemContext k)))
      (by simp [Op.kind, UserCall.kind]) r h
    cases r with
    | ok reported =>
        cases reported with
        | none => exact hsame
        | some counts => exact hsame
    | error err =>
        intro attempt
        cases consult S.policies err l.skipCount attempt with
        | skip => exact hsame
        | retry => exact hsame
        | fail err' => trivial
  length _ _ processed _ _ h := ⟨trivial, fun n _ =>
    feeding_snoc (o := .user (.lengthOf processed)) (by simp [Op.kind, UserCall.kind]) n h⟩
  drain fuel k left drained l calls h := h.2.2.elim

end ChunkStepExecutor

end NestBatch
