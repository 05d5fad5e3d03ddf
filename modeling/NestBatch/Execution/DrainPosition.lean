import NestBatch.Execution.ResumeStep
import NestBatch.Execution.ScriptedReader

/-!
# Where the drain of a restart leaves the reader

Two runs over one script of reads: the first commits chunks `0` to `c`, the
second resumes behind them with a fresh reader.  Their calls show how many reads
each has made for the chunks up to `c`, and which items have been delivered.
-/

namespace NestBatch

variable {α υ : Type}

/-! ### What the calls show -/

/-- A read, with the chunk it was made for and its answer. -/
def Op.readCall : (o : Op α) → o.Resp → Option (Int × Except Thrown (Option α))
  | .user (.read _ ctx), r => some (ctx.chunkIndex, r)
  | _, _ => none

/-- The reads of a run, oldest first. -/
def readCalls (calls : Calls α) : List (Int × Except Thrown (Option α)) :=
  calls.filterMap fun c => c.1.readCall c.2

/-- How many reads were made for the chunks up to `c`. -/
def readsThrough (c : Int) (calls : Calls α) : Nat :=
  (readCalls calls).countP fun read => read.1 ≤ c

/-- The items of the chunks passed, oldest first. -/
def deliveredItems (calls : Calls α) : List α := (passedChunks calls).flatMap (·.2.1)

/-- The items of the chunks passed up to `c`. -/
def deliveredThrough (c : Int) (calls : Calls α) : List α :=
  ((passedChunks calls).filter fun passed => passed.1 ≤ c).flatMap (·.2.1)

theorem readCalls_append (calls : Calls α) (o : Op α) (r : o.Resp) :
    readCalls (calls ++ [⟨o, r⟩]) = readCalls calls ++ (o.readCall r).toList := by
  unfold readCalls
  rw [List.filterMap_append]
  cases h : o.readCall r with
  | none => simp [h]
  | some read => simp [h]

theorem readCall_of_kind {o : Op α} (h : o.kind ≠ .read) (r : o.Resp) : o.readCall r = none := by
  cases o with
  | user call =>
      cases call with
      | read => exact absurd rfl h
      | _ => rfl
  | _ => rfl

/-- The passing of a chunk adds it to the passed ones. -/
theorem passedChunks_pass (calls : Calls α) (sid : String) (k : Int) (items : List α)
    (ending : ChunkEnd) : passedChunks (calls ++ [⟨.passed sid k items ending, ()⟩]) =
      passedChunks calls ++ [(k, items, ending)] := by
  unfold passedChunks
  rw [List.filterMap_append]
  rfl

/-- Chunks `lo` to `next - 1` of a script. -/
def chunksFrom (script : CallScript Thrown α) (size lo next : Nat) : List (Int × List α) :=
  (List.range' lo (next - lo)).map fun (k : Nat) => ((k : Int), script.chunk size k)

/-- The user code of a step whose reader answers as `script` says; `pos` is where the reader is. -/
structure Environment.ReadsScript (env : Environment α υ) (script : CallScript Thrown α)
    (step : ChunkStepDefinition) (pos : υ → Nat) : Prop where
  yields : ∀ (call : UserCall α) (user : υ) ctx,
    YieldsCall script (.user call) (pos user) (env.user call user ctx).1
  moves : ∀ (call : UserCall α) (user : υ) ctx,
    Reads (.user call) (pos user) (pos (env.user call user ctx).2.1)
  plain : ∀ (call : UserCall α) (user : υ) ctx,
    PlainAnswer step (.user call) (env.user call user ctx).1
  broker : ∀ payload user, pos (env.broker payload user).2 = pos user

/-- The calls of a run stand where the logic of the scripted reader says.  The run has passed
the chunks from `lo` on. -/
structure ReadsTell (script : CallScript Thrown α) (size lo : Nat) (pos : υ → Nat)
    (s : World υ × Calls α) (g : ReadPlace) : Prop where
  position : pos s.1.user = g.reads
  count : (readCalls s.2).length = g.reads
  reads : ∀ n read, (readCalls s.2)[n]? = some read → read.2 = script n ∧ 0 ≤ read.1 ∧
    script.start size read.1.toNat ≤ n ∧ n < script.start size (read.1.toNat + 1)
  ahead : lo ≤ g.next
  passed : (passedChunks s.2).map (fun p => (p.1, p.2.1)) = chunksFrom script size lo g.next
  done : ∀ k, lo ≤ k → k < g.next → script.start size (k + 1) ≤ g.reads ∧
    ∀ j ≤ k, script.chunk size j ≠ []

section ReadsTell

variable {script : CallScript Thrown α} {step : ChunkStepDefinition} {size lo : Nat}
  {pos : υ → Nat} {w w' : World υ} {calls : Calls α} {g : ReadPlace}

/-- An operation that reads nothing and passes nothing. -/
theorem ReadsTell.keep (h : ReadsTell script size lo pos (w, calls) g) {o : Op α}
    (hread : o.kind ≠ .read) (hpassed : o.kind ≠ .passed) (hpos : pos w'.user = pos w.user)
    (r : o.Resp) : ReadsTell script size lo pos (w', calls ++ [⟨o, r⟩]) g := by
  have hreads : readCalls (calls ++ [⟨o, r⟩]) = readCalls calls := by
    rw [readCalls_append, readCall_of_kind hread, Option.toList_none, List.append_nil]
  refine ⟨hpos.trans h.position, ?_, ?_, h.ahead, ?_, h.done⟩
  · rw [hreads]
    exact h.count
  · rw [hreads]
    exact h.reads
  · rw [passedChunks_append hpassed]
    exact h.passed

/-- A read. -/
theorem ReadsTell.read (h : ReadsTell script size lo pos (w, calls) g) {reader : Handle}
    {ctx : ItemExecutionContext} (hplace : ReadsInPlace script size g (.user (.read reader ctx)))
    (hpos : pos w'.user = g.reads + 1) {r : Except Thrown (Option α)} (hr : r = script g.reads) :
    ReadsTell script size lo pos (w', calls ++ [⟨.user (.read reader ctx), r⟩])
      { g with reads := g.reads + 1 } := by
  have hreads : readCalls (calls ++ [⟨.user (.read reader ctx), r⟩]) =
      readCalls calls ++ [(ctx.chunkIndex, r)] :=
    readCalls_append calls (.user (.read reader ctx) : Op α) r
  refine ⟨hpos, ?_, ?_, h.ahead, ?_, ?_⟩
  · rw [hreads, List.length_append, h.count]
    rfl
  · intro n read hget
    rw [hreads] at hget
    by_cases hlt : n < (readCalls calls).length
    · rw [List.getElem?_append_left hlt] at hget
      exact h.reads n read hget
    · rw [List.getElem?_append_right (Nat.not_lt.mp hlt)] at hget
      have hlast : n - (readCalls calls).length = 0 := by
        have hbound := (List.getElem?_eq_some_iff.mp hget).1
        rw [List.length_singleton] at hbound
        omega
      rw [hlast] at hget
      cases hget
      have hn : n = g.reads := by
        have hcount : (readCalls calls).length = g.reads := h.count
        omega
      subst hn
      exact ⟨hr, hplace⟩
  · have hpassed : passedChunks (calls ++ [⟨.user (.read reader ctx), r⟩]) = passedChunks calls :=
      passedChunks_append (o := .user (.read reader ctx)) (by simp [Op.kind, UserCall.kind]) r
    exact (congrArg (List.map fun p => (p.1, p.2.1)) hpassed).trans h.passed
  · intro k hlo hk
    obtain ⟨hbehind, hyielded⟩ := h.done k hlo hk
    exact ⟨Nat.le_succ_of_le hbehind, hyielded⟩

/-- The next chunk is passed. -/
theorem ReadsTell.pass (h : ReadsTell script size lo pos (w, calls) g) {sid : String}
    {chunkIndex : Int} {items : List α} {ending : ChunkEnd}
    (hplace : ReadsInPlace script size g (.passed sid chunkIndex items ending)) :
    ReadsTell script size lo pos (w, calls ++ [⟨.passed sid chunkIndex items ending, ()⟩])
      { g with next := g.next + 1 } := by
  obtain ⟨hindex, hreads, hitems, hyielded⟩ := hplace
  have hsame : readCalls (calls ++ [⟨.passed sid chunkIndex items ending, ()⟩]) =
      readCalls calls := by
    unfold readCalls
    rw [List.filterMap_append]
    exact List.append_nil _
  have hlength : g.next + 1 - lo = g.next - lo + 1 := by
    have hlo := h.ahead
    omega
  have hlast : lo + (g.next - lo) = g.next := by
    have hlo := h.ahead
    omega
  refine ⟨h.position, ?_, ?_, Nat.le_succ_of_le h.ahead, ?_, ?_⟩
  · rw [hsame]
    exact h.count
  · rw [hsame]
    exact h.reads
  · rw [passedChunks_pass, List.map_append, h.passed, hindex, hitems]
    unfold chunksFrom
    dsimp only
    rw [hlength, List.range'_concat, List.map_append, Nat.one_mul, hlast]
    rfl
  · intro k hlo hk
    by_cases hold : k < g.next
    · exact h.done k hlo hold
    · have hk' : k = g.next := by
        dsimp only at hk
        omega
      rw [hk']
      exact ⟨Nat.le_of_eq hreads.symm, hyielded⟩

/-- **Refinement.**  What the operations do, the logic of the scripted reader can follow. -/
theorem readsTell_follows {env : Environment α υ} (henv : env.ReadsScript script step pos)
    (lo : Nat) :
    Prog.Follows (scripted script step) (handle env).traced.trans
      (ReadsTell script step.chunkSize lo pos) := by
  intro o s r s' g htells hplace ht
  obtain ⟨w, calls⟩ := s
  cases ht
  have hposition := htells.position
  have hquiet : (∀ call, o ≠ .user call) → (∀ payload, o ≠ .enqueue payload) →
      o.kind ≠ .read → o.kind ≠ .passed → ReadsTell script step.chunkSize lo pos
        ((handle env o w).2, calls ++ [⟨o, (handle env o w).1⟩]) g := by
    intro huser henqueue hread hpassed
    exact htells.keep hread hpassed (congrArg pos (handle_user_of_kind huser henqueue w)) _
  cases o with
  | user call =>
      obtain ⟨ctx, hanswer, huser⟩ := handleUser_env env call w
      have hyields := henv.yields call w.user ctx
      have hmoves := henv.moves call w.user ctx
      have hplain := henv.plain call w.user ctx
      rw [← hanswer] at hyields hplain
      rw [← huser] at hmoves
      change pos w.user = g.reads at hposition
      rw [hposition] at hyields hmoves
      have hstart : g.reads = 0 → (call.kind = .invoke ∨ call.kind = .factory) →
          pos (handleUser env call w).2.user = g.reads := by
        intro hzero hkind
        cases call with
        | invoke fn => exact hmoves.elim id fun h => h.trans hzero.symm
        | factory fn itemContext => exact hmoves.elim id fun h => h.trans hzero.symm
        | _ => simp [UserCall.kind] at hkind
      cases call with
      | read reader itemContext =>
          exact ⟨{ g with reads := g.reads + 1 }, ⟨rfl, hyields, rfl, hplain⟩,
            htells.read hplace hmoves hyields⟩
      | invoke fn =>
          have hsame := hstart hplace (Or.inl rfl)
          exact ⟨g, ⟨Or.inl rfl, hyields, rfl, hplain⟩,
            htells.keep (by simp [Op.kind, UserCall.kind]) (by simp [Op.kind, UserCall.kind])
              (hsame.trans hposition.symm) _⟩
      | factory fn itemContext =>
          have hsame := hstart hplace (Or.inr rfl)
          exact ⟨g, ⟨Or.inl rfl, hyields, rfl, hplain⟩,
            htells.keep (by simp [Op.kind, UserCall.kind]) (by simp [Op.kind, UserCall.kind])
              (hsame.trans hposition.symm) _⟩
      | _ =>
          exact ⟨g, ⟨rfl, hyields, rfl, hplain⟩,
            htells.keep (by simp [Op.kind, UserCall.kind]) (by simp [Op.kind, UserCall.kind])
              (Eq.trans hmoves hposition.symm) _⟩
  | passed sid chunkIndex items ending =>
      exact ⟨{ g with next := g.next + 1 }, ⟨rfl, trivial, rfl, trivial⟩, htells.pass hplace⟩
  | enqueue payload =>
      refine ⟨g, ⟨rfl, trivial, rfl, trivial⟩, ?_⟩
      apply htells.keep (by simp [Op.kind]) (by simp [Op.kind])
      have hbroker := henv.broker payload w.user
      simp only [handle]
      split
      · exact hbroker
      · exact hbroker
  | _ =>
      exact ⟨g, ⟨rfl, trivial, rfl, trivial⟩,
        hquiet (fun _ h => by cases h) (fun _ h => by cases h) (by simp [Op.kind])
          (by simp [Op.kind])⟩

end ReadsTell

/-! ### The step -/

namespace ChunkStepExecutor

open Setting

variable {script : CallScript Thrown α} {step : ChunkStepDefinition}
  {context : ChunkExecutionContext}

/-- The states of a step that processes from chunk `lo` on. -/
def scriptStates (script : CallScript Thrown α) (size lo : Nat) : StepStates ReadPlace where
  J g := g = { reads := 0, next := lo }
  A g := g.reads = 0 ∨ PastDrain script size lo g
  C g := AtEnd script size lo g
  R reader := reader.isStream = false

/-- The places of the script are sound for every step of a plain provider. -/
theorem scriptStates_sound (hproviders : PlainProvider step context) (size lo : Nat) :
    (scriptStates script size lo).Sound (scripted script step) step context where
  before := scripted_frame (by decide) _
  preparing := scripted_frame_start (by decide) lo
  closing := scripted_frame (by decide) _
  closingC := scripted_frame (by decide) _
  reader g hg := wp_resolveReader_plain (scripted_frame_start (by decide) lo)
    (fun _ _ _ _ _ ht => ht.2.2.2) hproviders (fun _ _ _ _ ht => ht.2.2.2) hg
  weaken g hg := Or.inl (congrArg ReadPlace.reads hg)
  ended g hg := Or.inr (Or.inl (Nat.le_trans (script.start_le size hg.processed) hg.reads))

/-- **A step over a scripted reader**: it ends behind the chunks that are drained unless a read of
them fails, and if it does not report FAILED, at a chunk without an item. -/
theorem execute_script (hproviders : PlainProvider step context)
    (hpartition : context.partitionIndex = none) (hsize : 0 < step.chunkSize)
    (hskips : ∀ policies, Policies.compile step = .ok policies → SkipsFailures script policies)
    {lo : Nat} (hlo : (nextChunk context.resumeFromChunkIndex).toNat = lo)
    (hcommitted : ∀ j < lo, script.chunk step.chunkSize j ≠ []) (fuel : Nat) :
    (execute fuel step context : Code α StepResult).wp (scripted script step) (fun out g =>
      (g.reads = 0 ∨ PastDrain script step.chunkSize lo g) ∧
      ∀ result, out = .ok result →
        AtEnd script step.chunkSize lo g ∨ result.status = .FAILED) { reads := 0, next := lo } := by
  have hloop : (scriptStates script step.chunkSize lo).Loop (α := α) (scripted script step) step
      context fuel := by
    intro policies partition S l g hcompiled hresolved hS hplain hl hg
    have hstart : g = { reads := 0, next := lo } := hg
    have hnone : S.partition = none := by
      unfold resolveRange at hresolved
      rw [hpartition] at hresolved
      cases hresolved
      exact hS.partition
    have hstream : S.reader.isStream = false := hplain
    have hfirst : S.firstProcessed = lo := by
      unfold firstProcessed
      rw [hS.context]
      exact hlo
    have hindex : l.chunkIndex = (0 : Nat) := by
      refine hl.chunkIndex.trans ?_
      change S.firstChunk = 0
      unfold firstChunk
      split
      · simp [hstream]
      · rfl
    have hat : S.AtBatch script l g 0 := by
      refine ⟨hindex, ?_, fun j hj => absurd hj (Nat.not_lt_zero j), ?_⟩
      · rw [hstart]
        rfl
      · rw [hstart, hfirst, Nat.zero_max]
    have hskips' : SkipsFailures script S.policies := by
      rw [hS.policies]
      exact hskips policies hcompiled
    rw [← hS.step] at hsize hcommitted
    rw [← hfirst] at hcommitted
    have hrun := wp_chunkLoop_script hnone hsize hskips' hstream hcommitted fuel hat
    rw [hS.step, hfirst] at hrun
    refine Scoped.wp_mono hrun ?_
    intro out l' g' hout
    cases out with
    | ok u =>
        have hend : AtEnd script step.chunkSize lo g' := hout
        exact ⟨(scriptStates_sound hproviders step.chunkSize lo).ended g' hend, fun _ => hend⟩
    | error err => exact ⟨Or.inr hout, fun h => by cases h⟩
  have hkeep : KeepsResult (scripted script step) (fun result => result.status = .FAILED) := by
    intro fn ctx result g r g' ht hfailed
    exact ht.2.2.2 hfailed
  exact StepStates.wp_execute (scriptStates_sound hproviders step.chunkSize lo) hloop hkeep
    (fun _ h => h) rfl

end ChunkStepExecutor

/-! ### A run and its restart -/

/-- A list whose elements are in a class exactly below a bound. -/
theorem countP_eq_min {β : Type} {p : β → Bool} {xs : List β} {bound : Nat}
    (h : ∀ n x, xs[n]? = some x → (p x = true ↔ n < bound)) :
    xs.countP p = min xs.length bound := by
  induction xs generalizing bound with
  | nil => simp
  | cons x xs ih =>
      have hhead := h 0 x rfl
      have htail : ∀ n y, xs[n]? = some y → (p y = true ↔ n < bound - 1) := by
        intro n y hget
        have hy := h (n + 1) y hget
        rw [hy]
        omega
      have hrest := ih htail
      rw [List.length_cons]
      by_cases hx : p x = true
      · rw [List.countP_cons_of_pos hx, hrest]
        have hbound := hhead.mp hx
        omega
      · rw [List.countP_cons_of_neg hx, hrest]
        have hbound : ¬ 0 < bound := fun hlt => hx (hhead.mpr hlt)
        omega

section Tells

variable {script : CallScript Thrown α} {size lo c : Nat} {pos : υ → Nat} {w : World υ}
  {calls : Calls α} {g : ReadPlace}

/-- A read of a run was made for a chunk up to `c` when it is a call of one. -/
theorem ReadsTell.through_iff (h : ReadsTell script size lo pos (w, calls) g) {n : Nat}
    {read : Int × Except Thrown (Option α)} (hread : (readCalls calls)[n]? = some read) :
    read.1 ≤ (c : Int) ↔ n < script.start size (c + 1) := by
  obtain ⟨-, hnonneg, hlow, hhigh⟩ := h.reads n read hread
  rw [CallScript.lt_start_iff hlow hhigh]
  omega

/-- The reads up to a chunk are those made, as far as its batch goes. -/
theorem ReadsTell.readsThrough_eq (h : ReadsTell script size lo pos (w, calls) g) :
    readsThrough c calls = min g.reads (script.start size (c + 1)) := by
  have hcount : (readCalls calls).length = g.reads := h.count
  rw [← hcount]
  apply countP_eq_min
  intro n read hread
  rw [decide_eq_true_eq]
  exact h.through_iff hread

/-- The items of the chunks passed. -/
theorem ReadsTell.deliveredItems_eq (h : ReadsTell script size lo pos (w, calls) g) :
    deliveredItems calls = (List.range' lo (g.next - lo)).flatMap (script.chunk size) := by
  have hitems : deliveredItems calls =
      ((passedChunks calls).map fun p => (p.1, p.2.1)).flatMap (·.2) := by
    rw [List.flatMap_map]
    rfl
  have hpassed : (passedChunks calls).map (fun p => (p.1, p.2.1)) =
    chunksFrom script size lo g.next := h.passed
  rw [hitems, hpassed, chunksFrom, List.flatMap_map]

/-- The items of the chunks passed up to `c` by a run from the start. -/
theorem ReadsTell.deliveredThrough_eq (h : ReadsTell script size 0 pos (w, calls) g)
    (hc : c < g.next) :
    deliveredThrough c calls = script.itemsBefore (script.start size (c + 1)) := by
  have hitems : deliveredThrough c calls =
      (((passedChunks calls).map fun p => (p.1, p.2.1)).filter fun p => p.1 ≤ (c : Int)).flatMap
        (·.2) := by
    rw [List.filter_map, List.flatMap_map]
    rfl
  have hpassed : (passedChunks calls).map (fun p => (p.1, p.2.1)) =
    chunksFrom script size 0 g.next := h.passed
  have hfilter : (List.range' 0 (g.next - 0)).filter
      (fun (k : Nat) => decide ((k : Int) ≤ (c : Int))) = List.range (c + 1) := by
    rw [Nat.sub_zero, ← List.range_eq_range', CallScript.range_split hc, List.filter_append]
    have hlow : (List.range (c + 1)).filter (fun (k : Nat) => decide ((k : Int) ≤ (c : Int))) =
        List.range (c + 1) := by
      rw [List.filter_eq_self]
      intro k hk
      have hlt := List.mem_range.mp hk
      rw [decide_eq_true_eq]
      omega
    have hhigh : (List.range' (c + 1) (g.next - (c + 1))).filter
        (fun (k : Nat) => decide ((k : Int) ≤ (c : Int))) = [] := by
      rw [List.filter_eq_nil_iff]
      intro k hk
      have hbounds := List.mem_range'_1.mp hk
      rw [decide_eq_true_eq]
      omega
    rw [hlow, hhigh, List.append_nil]
  rw [hitems, hpassed, chunksFrom, List.filter_map, List.flatMap_map,
    CallScript.itemsBefore_start, ← hfilter]
  rfl

end Tells

namespace Attempt

variable {script : CallScript Thrown α} {step : ChunkStepDefinition}

/-- The executor has come to `rest` in this run. -/
def CameTo (step : ChunkStepDefinition) (a : Attempt α υ) (rest : Code α StepResult) : Prop :=
  Prog.Reaches (handle a.env).traced.trans
    (ChunkStepExecutor.execute a.fuel step a.context, (a.start, [])) (rest, (a.current, a.calls))

/-- A run of the whole step with a fresh plain reader that answers as `script` says. -/
structure OverScript (script : CallScript Thrown α) (step : ChunkStepDefinition) (pos : υ → Nat)
    (a : Attempt α υ) : Prop where
  env : a.env.ReadsScript script step pos
  fresh : pos a.start.user = 0
  provider : ChunkStepExecutor.PlainProvider step a.context
  unpartitioned : a.context.partitionIndex = none

/-- What the calls of such a run show, and what is left of the run. -/
theorem readsTell {pos : υ → Nat} {a : Attempt α υ} {rest : Code α StepResult}
    (hrun : a.CameTo step rest) (hscript : a.OverScript script step pos)
    (hsize : 0 < step.chunkSize)
    (hskips : ∀ policies, Policies.compile step = .ok policies → SkipsFailures script policies)
    {lo : Nat} (hlo : (nextChunk a.context.resumeFromChunkIndex).toNat = lo)
    (hcommitted : ∀ j < lo, script.chunk step.chunkSize j ≠ []) :
    ∃ g, ReadsTell script step.chunkSize lo pos (a.current, a.calls) g ∧
      rest.wp (scripted script step) (fun out g =>
        (g.reads = 0 ∨ ChunkStepExecutor.Setting.PastDrain script step.chunkSize lo g) ∧
        ∀ result, out = .ok result →
          ChunkStepExecutor.Setting.AtEnd script step.chunkSize lo g ∨
            result.status = .FAILED) g := by
  have hstart : ReadsTell script step.chunkSize lo pos (a.start, ([] : Calls α))
      { reads := 0, next := lo } := by
    refine ⟨hscript.fresh, rfl, ?_, Nat.le_refl lo, ?_, ?_⟩
    · intro n read hread
      cases hread
    · unfold chunksFrom
      rw [Nat.sub_self]
      rfl
    · intro k hlow hhigh
      exact absurd hhigh (Nat.not_lt.mpr hlow)
  exact Prog.reaches_simulate (readsTell_follows hscript.env lo) hrun
    (ChunkStepExecutor.execute_script hscript.provider hscript.unpartitioned hsize hskips hlo
      hcommitted a.fuel) hstart

end Attempt

/-- The restart has left the skip phase with its reader where the first run had it when chunk `c`
ended, and has gone on from there. -/
structure Repositions (script : CallScript Thrown α) (c : Nat) (first second : Calls α) : Prop where
  position : readsThrough c second = readsThrough c first
  answered : ∀ read ∈ readCalls second, read.1 ≤ (c : Int) → ∃ answer, read.2 = .ok answer
  continued : ∃ n, deliveredThrough c first ++ deliveredItems second = script.itemsBefore n

/-- Together the two runs have delivered all items up to an end of input. -/
def DeliversAll (script : CallScript Thrown α) (c : Nat) (first second : Calls α) : Prop :=
  ∃ n, script n = .ok none ∧
    deliveredThrough c first ++ deliveredItems second = script.itemsBefore n

/-- Where the loop stops behind chunk `c`, at the first chunk without an item, no item follows
before the reader has nothing more. -/
def EndsAtEnd (script : CallScript Thrown α) (size c : Nat) : Prop :=
  ∀ k, c < k → script.chunk size k = [] → (∀ j, c < j → j < k → script.chunk size j ≠ []) →
    ∃ n, script n = .ok none ∧ script.itemsBefore n = script.itemsBefore (script.start size k)

section TwoRuns

variable {υ' : Type} {script : CallScript Thrown α} {size c : Nat} {pos : υ → Nat} {w₁ : World υ}
  {first : Calls α} {g₁ : ReadPlace} {pos' : υ' → Nat} {w₂ : World υ'} {second : Calls α}
  {g₂ : ReadPlace}

/-- A chunk that a run from the start has passed. -/
theorem ReadsTell.lt_next (h : ReadsTell script size 0 pos (w₁, first) g₁)
    (hcommitted : (c : Int) ∈ (passedChunks first).map (·.1)) : c < g₁.next := by
  have hindexes : (passedChunks first).map (·.1) =
      (chunksFrom script size 0 g₁.next).map (·.1) := by
    rw [← h.passed, List.map_map]
    rfl
  rw [hindexes] at hcommitted
  unfold chunksFrom at hcommitted
  rw [List.map_map] at hcommitted
  obtain ⟨k, hk, heq⟩ := List.mem_map.mp hcommitted
  have hbounds := List.mem_range'_1.mp hk
  have hkc : (k : Int) = c := heq
  omega

variable (h₁ : ReadsTell script size 0 pos (w₁, first) g₁) (hc : c < g₁.next)
  (h₂ : ReadsTell script size (c + 1) pos' (w₂, second) g₂)
include h₁ hc h₂

/-- What the two runs deliver together. -/
theorem ReadsTell.together : deliveredThrough c first ++ deliveredItems second =
    script.itemsBefore (script.start size g₂.next) := by
  have hahead : c + 1 ≤ g₂.next := h₂.ahead
  rw [h₁.deliveredThrough_eq hc, h₂.deliveredItems_eq, CallScript.itemsBefore_start,
    CallScript.itemsBefore_start, CallScript.range_split hahead, List.flatMap_append]

/-- **The restart repositions** exactly when no read of the committed chunks failed, if it then
comes to the end of them. -/
theorem ReadsTell.repositions_iff
    (hreached : (∀ n < script.start size (c + 1), script.Answers n) →
      script.start size (c + 1) ≤ g₂.reads) :
    Repositions script c first second ↔ ∀ n < script.start size (c + 1), script.Answers n := by
  have hthrough₁ := h₁.readsThrough_eq (c := c)
  have hthrough₂ := h₂.readsThrough_eq (c := c)
  rw [Nat.min_eq_right (h₁.done c (Nat.zero_le c) hc).1] at hthrough₁
  constructor
  · intro h n hn
    have hposition := h.position
    rw [hthrough₁, hthrough₂] at hposition
    have hlength : n < (readCalls second).length := by
      have hcount : (readCalls second).length = g₂.reads := h₂.count
      omega
    have hget := List.getElem?_eq_getElem hlength
    have hindex := (h₂.through_iff hget).mpr hn
    obtain ⟨answer, hanswer⟩ := h.answered _ (List.getElem_mem hlength) hindex
    exact ⟨answer, (h₂.reads n _ hget).1.symm.trans hanswer⟩
  · intro h
    refine ⟨?_, ?_, _, h₁.together hc h₂⟩
    · rw [hthrough₁, hthrough₂]
      exact Nat.min_eq_right (hreached h)
    · intro read hmem hindex
      obtain ⟨n, hget⟩ := List.mem_iff_getElem?.mp hmem
      obtain ⟨answer, hanswer⟩ := h n ((h₂.through_iff hget).mp hindex)
      exact ⟨answer, (h₂.reads n read hget).1.trans hanswer⟩

/-- A restart that stops where the loop does has delivered the rest exactly when nothing follows. -/
theorem ReadsTell.deliversAll_iff
    (hend : ChunkStepExecutor.Setting.AtEnd script size (c + 1) g₂) :
    DeliversAll script c first second ↔ EndsAtEnd script size c := by
  have hprocessed := hend.processed
  unfold DeliversAll
  rw [h₁.together hc h₂]
  constructor
  · intro h k hk hempty hbetween
    obtain ⟨n, hn, hitems⟩ := h
    have hsame : k = g₂.next := by
      by_cases hlt : k < g₂.next
      · exact absurd hempty (hend.yielded k hlt)
      · by_cases hgt : g₂.next < k
        · exact absurd hend.empty (hbetween g₂.next (by omega) hgt)
        · omega
    rw [hsame]
    exact ⟨n, hn, hitems.symm⟩
  · intro h
    obtain ⟨n, hn, hitems⟩ := h g₂.next (by omega) hend.empty fun j _ hj => hend.yielded j hj
    exact ⟨n, hn, hitems.symm⟩

end TwoRuns

/-- **What a drain can reposition**: exactly when no read of the committed chunks failed, the
restart leaves its skip phase where the first run was, and if it then completes, it has delivered
the rest exactly when the loop does not take skipped reads for the end of input. -/
theorem drain_repositions_iff {υ' : Type} {script : CallScript Thrown α}
    {step : ChunkStepDefinition} (hsize : 0 < step.chunkSize)
    (hskips : ∀ policies, Policies.compile step = .ok policies → SkipsFailures script policies)
    {first : Attempt α υ} {pos : υ → Nat} (hfirst : first.IsRunOf step)
    (hscript : first.OverScript script step pos)
    (hnew : first.context.resumeFromChunkIndex = none)
    {c : Nat} (hcommitted : (c : Int) ∈ (passedChunks first.calls).map (·.1))
    {second : Attempt α υ'} {pos' : υ' → Nat} {rest : Code α StepResult}
    (hsecond : second.CameTo step rest) (hscript' : second.OverScript script step pos')
    (hresume : second.context.resumeFromChunkIndex = some (c : Int))
    (hpast : (∃ read ∈ readCalls second.calls, (c : Int) < read.1) ∨
      (readCalls second.calls ≠ [] ∧ ∃ out, rest = Prog.ofExcept out)) :
    (Repositions script c first.calls second.calls ↔
      ∀ n < script.start step.chunkSize (c + 1), script.Answers n) ∧
    ∀ result, rest = .pure result → result.status = .COMPLETED →
      (DeliversAll script c first.calls second.calls ↔ EndsAtEnd script step.chunkSize c) := by
  obtain ⟨rest₁, hfirst⟩ := hfirst
  have hlo₁ : (nextChunk first.context.resumeFromChunkIndex).toNat = 0 := by
    rw [hnew]
    rfl
  obtain ⟨g₁, htells₁, -⟩ := Attempt.readsTell hfirst hscript hsize hskips hlo₁
    fun j hj => absurd hj (Nat.not_lt_zero j)
  have hc := htells₁.lt_next hcommitted
  obtain ⟨-, hyielded⟩ := htells₁.done c (Nat.zero_le c) hc
  have hlo₂ : (nextChunk second.context.resumeFromChunkIndex).toNat = c + 1 := by
    rw [hresume]
    rfl
  obtain ⟨g₂, htells₂, hrest⟩ := Attempt.readsTell hsecond hscript' hsize hskips hlo₂
    fun j hj => hyielded j (Nat.le_of_lt_succ hj)
  have hcount : (readCalls second.calls).length = g₂.reads := htells₂.count
  refine ⟨htells₁.repositions_iff hc htells₂ fun h => ?_, ?_⟩
  · rcases hpast with hlater | hended
    · obtain ⟨read, hmem, hindex⟩ := hlater
      obtain ⟨n, hget⟩ := List.mem_iff_getElem?.mp hmem
      have hlength := (List.getElem?_eq_some_iff.mp hget).1
      have hnot : ¬ n < script.start step.chunkSize (c + 1) :=
        fun hlt => Int.not_le.mpr hindex ((htells₂.through_iff hget).mpr hlt)
      omega
    · obtain ⟨hsome, out, hout⟩ := hended
      rw [hout, Prog.wp_ofExcept] at hrest
      rcases hrest.1 with hzero | hpast
      · rw [hzero, List.length_eq_zero_iff] at hcount
        exact absurd hcount hsome
      · rcases hpast with hreached | hfails
        · exact hreached
        · obtain ⟨n, hn, hfails⟩ := hfails
          exact absurd (h n hn) hfails
  · intro result hreturned hcompleted
    subst hreturned
    have hend : ChunkStepExecutor.Setting.AtEnd script step.chunkSize (c + 1) g₂ := by
      rcases hrest.2 result rfl with hend | hfailed
      · exact hend
      · rw [hcompleted] at hfailed
        cases hfailed
    exact htells₁.deliversAll_iff hc htells₂ hend

/-! ### A reader that fails now and then -/

/-- A list environment whose reader answers as a script says. -/
def scriptEnvironment (script : CallScript Thrown Nat) (refuses : Handle → Int → Option Thrown) :
    Environment Nat Nat :=
  { listEnvironment ([] : List Nat) refuses with
    user := fun
      | .read _ _, pos, _ => (script pos, pos + 1, [])
      | call, pos, ctx => (listEnvironment [] refuses).user call pos ctx }

/-- The environment of a script reads that script. -/
theorem scriptEnvironment_readsScript (script : CallScript Thrown Nat)
    (refuses : Handle → Int → Option Thrown) (step : ChunkStepDefinition) :
    (scriptEnvironment script refuses).ReadsScript script step id where
  yields call user ctx := by
    cases call with
    | read => rfl
    | _ => trivial
  moves call user ctx := by
    cases call with
    | invoke => exact Or.inl rfl
    | factory => exact Or.inl rfl
    | _ => rfl
  plain call user ctx := by
    cases call with
    | invoke fn =>
        intro _ c hc
        cases hc
        rfl
    | factory fn itemContext =>
        intro c hc
        cases hc
        rfl
    | afterStep fn itemContext result => exact id
    | _ => trivial
  broker payload user := rfl

/-- `pairsStep`, skipping rows that cannot be read. -/
def lenientStep : ChunkStepDefinition :=
  { pairsStep with
    skipPolicy := some
      { limit := 5
        skippable := [{ prototypeInstanceofError := true, length := 1
                        hasInstance := fun err => some (err = .error "bad row")
                        call := fun _ => none }] } }

/-- Three items, and a row among them that cannot be read. -/
def threeItems (badRow : Nat) : CallScript Thrown Nat := fun n =>
  if n = badRow then .error (.error "bad row")
  else .ok [10, 20, 30][if n < badRow then n else n - 1]?

/-- The lenient step skips every failure of the script. -/
theorem lenientStep_skips (badRow : Nat) (policies : Policies)
    (h : Policies.compile lenientStep = .ok policies) :
    SkipsFailures (threeItems badRow) policies := by
  cases h
  intro n err herr
  have hbad : err = .error "bad row" := by
    unfold threeItems at herr
    split at herr
    · cases herr
      rfl
    · cases herr
  subst hbad
  rfl

/-- The run over a script whose writer fails at chunk 1. -/
def cutShort (script : CallScript Thrown Nat) : Attempt Nat Nat :=
  .toEnd (scriptEnvironment script fun _ k => if k = 1 then some (.error "disk full") else none)
    4 lenientStep { jobExecutionId := "e", stepExecutionId := "s1" }
    (.initial (unaryIds 'r') (unaryIds 'u') 0)

/-- Its restart behind chunk 0, with a fresh reader. -/
def restartOf (script : CallScript Thrown Nat) : Attempt Nat Nat :=
  .toEnd (scriptEnvironment script fun _ _ => none) 4 lenientStep
    { jobExecutionId := "e", stepExecutionId := "s2", resumeFromChunkIndex := some 0 }
    { (cutShort script).current with user := 0 }

/-- The run that is cut short reads over the script. -/
theorem cutShort_overScript (script : CallScript Thrown Nat) :
    (cutShort script).OverScript script lenientStep id :=
  ⟨scriptEnvironment_readsScript _ _ _, rfl, ChunkStepExecutor.plainProvider_of_none rfl, rfl⟩

/-- The restart reads over the script. -/
theorem restartOf_overScript (script : CallScript Thrown Nat) :
    (restartOf script).OverScript script lenientStep id :=
  ⟨scriptEnvironment_readsScript _ _ _, rfl, ChunkStepExecutor.plainProvider_of_none rfl, rfl⟩

theorem drain_repositions_iff_threeItems :
    Repositions (threeItems 2) 0 (cutShort (threeItems 2)).calls
      (restartOf (threeItems 2)).calls := by
  have hrun : (restartOf (threeItems 2)).IsRunOf lenientStep := Attempt.toEnd_isRunOf _ _ _ _ _
  obtain ⟨rest, hcame⟩ := hrun
  have hpassed : (passedChunks (cutShort (threeItems 2)).calls).map (·.1) = [0] := rfl
  have hreads : (readCalls (restartOf (threeItems 2)).calls).map (·.1) = [0, 0, 1, 1, 2] := rfl
  have hcommitted :
      ((0 : Nat) : Int) ∈ (passedChunks (cutShort (threeItems 2)).calls).map (·.1) := by
    rw [hpassed]
    exact List.mem_singleton_self _
  have hpast : ∃ read ∈ readCalls (restartOf (threeItems 2)).calls, ((0 : Nat) : Int) < read.1 := by
    have hlater : (1 : Int) ∈ (readCalls (restartOf (threeItems 2)).calls).map (·.1) := by
      rw [hreads]
      decide
    obtain ⟨read, hmem, hindex⟩ := List.mem_map.mp hlater
    exact ⟨read, hmem, by omega⟩
  refine (drain_repositions_iff (by decide) (lenientStep_skips _) (Attempt.toEnd_isRunOf _ _ _ _ _)
    (cutShort_overScript _) rfl hcommitted hcame (restartOf_overScript _) rfl
    (Or.inl hpast)).1.mpr ?_
  intro n hn
  have hstart : (threeItems 2).start lenientStep.chunkSize (0 + 1) = 2 := rfl
  rw [hstart] at hn
  unfold CallScript.Answers threeItems
  rw [if_neg (by omega)]
  exact ⟨_, rfl⟩

/-- A read that the first run has skipped ends the restart in its drain. -/
theorem drain_may_fail :
    (cutShort (threeItems 0)).IsRunOf lenientStep ∧
    (cutShort (threeItems 0)).OverScript (threeItems 0) lenientStep id ∧
    (passedChunks (cutShort (threeItems 0)).calls).map (·.1) = [0] ∧
    (restartOf (threeItems 0)).IsRunOf lenientStep ∧
    (restartOf (threeItems 0)).OverScript (threeItems 0) lenientStep id ∧
    ¬ Repositions (threeItems 0) 0 (cutShort (threeItems 0)).calls
      (restartOf (threeItems 0)).calls := by
  refine ⟨Attempt.toEnd_isRunOf _ _ _ _ _, cutShort_overScript _, rfl,
    Attempt.toEnd_isRunOf _ _ _ _ _, restartOf_overScript _, ?_⟩
  intro h
  have hposition := h.position
  have hsecond : readsThrough (0 : Nat) (restartOf (threeItems 0)).calls = 1 := rfl
  have hfirst : readsThrough (0 : Nat) (cutShort (threeItems 0)).calls = 2 := rfl
  rw [hsecond, hfirst] at hposition
  cases hposition

end NestBatch
