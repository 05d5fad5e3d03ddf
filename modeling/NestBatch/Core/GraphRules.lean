import NestBatch.Core.Validation
import NestBatch.Lib.GraphSearch
import Mathlib.Data.List.Perm.Subperm

/-!
# The graph rules of the validator

The last two rules ask that every step can be reached from the start step and
that the transitions have no cycle.  The loops that decide them end, and decide
them by what can be reached from the start step; the endpoints of a transition
are looked up with `in`, so a cycle may stand where no step leads.
-/

namespace NestBatch

namespace DefinitionValidator

open GraphSearch

/-- Rules 1 to 4. -/
def checkRules (job : JobDefinition) : Except Thrown Unit := do
  if job.stepOrder = [] then
    throw (.InvalidFlowGraphError "EMPTY_JOB" ("Job \"" ++ job.id ++ "\" has no steps"))
  if job.hasStep job.startStepId = false then
    throw (.InvalidFlowGraphError "NO_START_STEP"
      ("Job \"" ++ job.id ++ "\" startStepId \"" ++ job.startStepId ++ "\" is not in steps"))
  job.steps.entries.forM fun e => validateStep e.1 e.2
  job.transitions.forM (validateTransition job)
  validateDeciders job job.deciders []

/-- Rule 5 for one step. -/
def checkReachable (job : JobDefinition) (stepId : String) : Except Thrown Unit :=
  if (collectReachable job).contains stepId then .ok ()
  else .error (.InvalidFlowGraphError "UNREACHABLE_STEP"
    ("Step \"" ++ stepId ++ "\" is unreachable from startStepId \"" ++ job.startStepId ++ "\""))

/-- Validation checks the rules, then that every step is reached, then that none is on a cycle. -/
theorem validate_eq (job : JobDefinition) : validate job = (do
    checkRules job
    job.stepOrder.forM (checkReachable job)
    assertAcyclic job) := by
  unfold validate checkRules
  by_cases hsteps : job.stepOrder = []
  · rw [if_pos hsteps, if_pos hsteps]
    rfl
  · rw [if_neg hsteps, if_neg hsteps]
    by_cases hstart : job.hasStep job.startStepId = false
    · rw [if_pos hstart, if_pos hstart]
      rfl
    · rw [if_neg hstart, if_neg hstart]
      simp only [bind_assoc]
      rfl

/-! ### Both loops end -/

section Loops

variable (job : JobDefinition)

/-- The targets of a step are where its transitions lead. -/
theorem mem_targets_iff {a b : String} :
    b ∈ targets job a ↔ ∃ t ∈ job.transitions, t.fromStepId = a ∧ t.toStepId = some b := by
  unfold targets
  rw [List.mem_filterMap]
  constructor
  · intro hcase
    obtain ⟨t, ht, h⟩ := hcase
    split at h
    · next hfrom => exact ⟨t, ht, hfrom, h⟩
    · cases h
  · intro hcase
    obtain ⟨t, ht, hfrom, hto⟩ := hcase
    exact ⟨t, ht, by rw [if_pos hfrom, hto]⟩

/-- Transitions from steps not reached yet. -/
def pending (reachable : List String) : Nat :=
  job.transitions.countP fun t => t.fromStepId ∉ reachable

/-- A step has no more targets than transitions. -/
theorem length_targets_le (a : String) :
    (targets job a).length ≤ job.transitions.countP fun t => t.fromStepId = a := by
  unfold targets
  induction job.transitions with
  | nil => exact Nat.le_refl _
  | cons t ts ih =>
      rw [List.countP_cons]
      by_cases h : t.fromStepId = a
      · cases hto : t.toStepId with
        | none =>
            rw [List.filterMap_cons_none (by rw [if_pos h, hto])]
            omega
        | some b =>
            rw [List.filterMap_cons_some (by rw [if_pos h, hto]), List.length_cons]
            simp only [h, decide_true, if_true]
            omega
      · rw [List.filterMap_cons_none (by rw [if_neg h])]
        omega

/-- Reaching a step takes its transitions from the ones that are pending. -/
theorem pending_append {cur : String} {reachable : List String} (h : cur ∉ reachable) :
    pending job (reachable ++ [cur]) + job.transitions.countP (fun t => t.fromStepId = cur) =
      pending job reachable := by
  unfold pending
  induction job.transitions with
  | nil => rfl
  | cons t ts ih =>
      simp only [List.countP_cons, List.mem_append, List.mem_singleton, not_or] at ih ⊢
      by_cases heq : t.fromStepId = cur
      · simp only [heq, h, not_true_eq_false, and_false, decide_false, not_false_eq_true,
          decide_true, if_true]
        simp only [Bool.false_eq_true, if_false]
        omega
      · simp only [heq, not_false_eq_true, and_true, decide_false]
        simp only [Bool.false_eq_true, if_false]
        omega

/-- **The queue loop ends**: the fuel outlasts the queue and what can still enter it. -/
theorem collects_collectReachableFrom (fuel : Nat) (queue reachable : List String)
    (h : queue.length + pending job reachable ≤ fuel) :
    Collects (targets job) queue reachable (collectReachableFrom job fuel queue reachable) := by
  induction fuel generalizing queue reachable with
  | zero =>
      cases queue with
      | nil => exact .done reachable
      | cons cur queue =>
          rw [List.length_cons] at h
          omega
  | succ fuel ih =>
      cases queue with
      | nil => exact .done reachable
      | cons cur queue =>
          rw [List.length_cons] at h
          unfold collectReachableFrom
          by_cases hcur : cur ∈ reachable
          · rw [if_pos (List.contains_iff_mem.mpr hcur)]
            apply Collects.seen hcur
            apply ih
            omega
          · rw [if_neg (by simpa using hcur)]
            apply Collects.expand hcur
            apply ih
            have hpending := pending_append job hcur
            have htargets := length_targets_le job cur
            have hfilter := List.length_filter_le
              (fun t => !(reachable ++ [cur]).contains t) (targets job cur)
            rw [List.length_append]
            omega

/-- Collecting the reachable steps is a graph search from the start. -/
theorem collects_collectReachable :
    Collects (targets job) [job.startStepId] [] (collectReachable job) := by
  apply collects_collectReachableFrom
  have hall : pending job [] ≤ job.transitions.length := List.countP_le_length
  rw [List.length_singleton]
  omega

/-- What `assertAcyclic` throws for a path that runs into itself. -/
def cycleDetected (path : List String) : Thrown :=
  .InvalidFlowGraphError "CYCLE_DETECTED"
    ("Cycle detected in job \"" ++ job.id ++ "\": " ++ " -> ".intercalate path)

/-- What the code makes of the end of a search. -/
def outcome : Except (List String) (Marks String) → Except Thrown Search
  | .error path => .error (cycleDetected job path)
  | .ok marks => .ok { visited := marks.visited, inStack := marks.inStack }

/-- **The depth-first search ends**, as no path through `nodes` without a repetition is as deep. -/
theorem explores_detectCycle {nodes : List String}
    (hnodes : ∀ a, ∀ b ∈ targets job a, b ∈ nodes) (depth : Nat) (path sources : List String)
    (search : Search) (hpath : path.Nodup) (hsub : path ⊆ nodes) (hsources : sources ⊆ nodes)
    (hstack : search.inStack = path.reverse) (hdepth : nodes.length < path.length + depth) :
    ∃ result, Explores (targets job) path sources ⟨search.visited, search.inStack⟩ result ∧
      sources.foldlM (fun search target => detectCycle job depth path target search) search =
        outcome job result := by
  induction depth generalizing path sources search with
  | zero =>
      have hle := (hpath.subperm hsub).length_le
      omega
  | succ depth ih =>
      induction sources generalizing search with
      | nil => exact ⟨_, .nil, rfl⟩
      | cons a rest ihrest =>
          have hrest : rest ⊆ nodes := fun b hb => hsources (List.mem_cons_of_mem a hb)
          rw [List.foldlM_cons, detectCycle]
          by_cases hcycle : a ∈ search.inStack
          · rw [if_pos (List.contains_iff_mem.mpr hcycle)]
            exact ⟨_, .cycle hcycle, rfl⟩
          · rw [if_neg (by simpa using hcycle)]
            by_cases hvisited : a ∈ search.visited
            · rw [if_pos (List.contains_iff_mem.mpr hvisited)]
              obtain ⟨result, hexplores, hfold⟩ := ihrest search hrest hstack
              exact ⟨result, .seen hcycle hvisited hexplores, hfold⟩
            · rw [if_neg (by simpa using hvisited)]
              have hnodup : (path ++ [a]).Nodup := by
                rw [hstack, List.mem_reverse] at hcycle
                exact List.nodup_append.mpr ⟨hpath, List.nodup_singleton a, by
                  intro b hb c hc
                  rw [List.mem_singleton.mp hc]
                  exact fun heq => hcycle (heq ▸ hb)⟩
              have hsub' : path ++ [a] ⊆ nodes := by
                apply List.append_subset.mpr
                exact ⟨hsub, by simpa using hsources List.mem_cons_self⟩
              obtain ⟨inner, hinner, hfold⟩ := ih (path ++ [a]) (targets job a)
                { visited := a :: search.visited, inStack := a :: search.inStack } hnodup hsub'
                (hnodes a) (by rw [List.reverse_append, ← hstack]; rfl)
                (by rw [List.length_append, List.length_singleton]; omega)
              rw [hfold]
              cases inner with
              | error found => exact ⟨_, .fail hcycle hvisited hinner, rfl⟩
              | ok marks =>
                  have hback : marks.inStack.erase a = search.inStack := by
                    rw [hinner.stack]
                    exact List.erase_cons_head a search.inStack
                  obtain ⟨result, hexplores, hlast⟩ := ihrest
                    { visited := marks.visited, inStack := marks.inStack.erase a } hrest
                    (hback.trans hstack)
                  exact ⟨result, .expand hcycle hvisited hinner hexplores, hlast⟩

/-- The cycle check is a graph search that fails at a step on its own path. -/
theorem explores_assertAcyclic :
    ∃ result, Explores (targets job) [] [job.startStepId] ⟨[], []⟩ result ∧
      assertAcyclic job = (outcome job result).map fun _ => () := by
  have hnodes : ∀ a, ∀ b ∈ targets job a,
      b ∈ job.startStepId :: job.transitions.filterMap TransitionDefinition.toStepId := by
    intro a b hb
    obtain ⟨t, ht, -, hto⟩ := (mem_targets_iff job).mp hb
    exact List.mem_cons_of_mem _ (List.mem_filterMap.mpr ⟨t, ht, hto⟩)
  have hlength := List.length_filterMap_le TransitionDefinition.toStepId job.transitions
  obtain ⟨result, hexplores, hfold⟩ := explores_detectCycle job hnodes (job.transitions.length + 2)
    [] [job.startStepId] {} List.nodup_nil (List.nil_subset _)
    (by simp) rfl
    (by rw [List.length_cons, List.length_nil]; omega)
  refine ⟨result, hexplores, ?_⟩
  rw [← hfold, assertAcyclic, List.foldlM_cons]
  simp only [List.foldlM_nil, bind_pure]
  cases detectCycle job (job.transitions.length + 2) [] job.startStepId {} <;> rfl

end Loops

/-! ### What the rules decide -/

/-- Every step can be reached from the start step. -/
def AllReachable (job : JobDefinition) : Prop :=
  ∀ stepId ∈ job.stepOrder, Reaches (targets job) job.startStepId stepId

/-- No step lies on a cycle. -/
def Acyclic (job : JobDefinition) : Prop := ∀ stepId, ¬ OnCycle (targets job) stepId

/-- A cycle can be reached from the start step. -/
def ReachesCycle (job : JobDefinition) : Prop :=
  ∃ stepId, Reaches (targets job) job.startStepId stepId ∧ OnCycle (targets job) stepId

/-- Validation throws an `InvalidFlowGraphError` of this code. -/
def Throws (job : JobDefinition) (code : String) : Prop :=
  ∃ err, validate job = .error err ∧ err.name = .invalidFlowGraph code

/-- The same steps and transitions in another order. -/
structure Reordered (job job' : JobDefinition) : Prop where
  id : job'.id = job.id
  startStepId : job'.startStepId = job.startStepId
  steps : job.steps.entries.Perm job'.steps.entries
  transitions : job.transitions.Perm job'.transitions
  deciders : job'.deciders = job.deciders

/-- **The graph rules are decided exactly**: both loops end, a job is accepted where every step can
be reached and no cycle exists, the error names the rule that is violated, and the order of the
steps and the transitions does not matter. -/
structure DecidesGraphRules (job : JobDefinition) : Prop where
  collects : Collects (targets job) [job.startStepId] [] (collectReachable job)
  explores : ∃ result, Explores (targets job) [] [job.startStepId] ⟨[], []⟩ result ∧
    assertAcyclic job = (outcome job result).map fun _ => ()
  accepts : validate job = .ok () ↔ AllReachable job ∧ Acyclic job
  unreachable : Throws job "UNREACHABLE_STEP" ↔ ¬ AllReachable job
  cycle : Throws job "CYCLE_DETECTED" ↔ AllReachable job ∧ ¬ Acyclic job
  orderFree : ∀ job', Reordered job job' →
    (validate job' = .ok () ↔ validate job = .ok ()) ∧ ∀ code, Throws job' code ↔ Throws job code

section Rules

variable {job job' : JobDefinition}

/-- What is collected is what the start reaches. -/
theorem mem_collectReachable_iff {stepId : String} :
    stepId ∈ collectReachable job ↔ Reaches (targets job) job.startStepId stepId :=
  (collects_collectReachable job).mem_iff_reaches

/-- The check of a step passes exactly when the start reaches it. -/
theorem checkReachable_eq_ok_iff {stepId : String} :
    checkReachable job stepId = .ok () ↔ Reaches (targets job) job.startStepId stepId := by
  rw [← mem_collectReachable_iff]
  unfold checkReachable
  by_cases h : stepId ∈ collectReachable job
  · simp [h]
  · simp [h]

/-- The steps are checked one by one; the first that fails is reported. -/
theorem checkReachable_forM (job : JobDefinition) (stepIds : List String) :
    stepIds.forM (checkReachable job) = .ok () ∧
        (∀ stepId ∈ stepIds, Reaches (targets job) job.startStepId stepId) ∨
      ∃ err, stepIds.forM (checkReachable job) = .error err ∧
        err.name = .invalidFlowGraph "UNREACHABLE_STEP" ∧
        ∃ stepId ∈ stepIds, ¬ Reaches (targets job) job.startStepId stepId := by
  induction stepIds with
  | nil => exact .inl ⟨rfl, fun _ h => absurd h List.not_mem_nil⟩
  | cons first rest ih =>
      have hcons : (first :: rest).forM (checkReachable job) =
          checkReachable job first >>= fun _ => rest.forM (checkReachable job) := rfl
      rw [hcons]
      by_cases hfirst : Reaches (targets job) job.startStepId first
      · rw [checkReachable_eq_ok_iff.mpr hfirst]
        rcases ih with ⟨hok, hall⟩ | ⟨err, herr, hname, stepId, hmem, hnot⟩
        · exact .inl ⟨hok, List.forall_mem_cons.mpr ⟨hfirst, hall⟩⟩
        · exact .inr ⟨err, herr, hname, stepId, List.mem_cons_of_mem _ hmem, hnot⟩
      · right
        have hnot : ¬ first ∈ collectReachable job := fun h =>
          hfirst (mem_collectReachable_iff.mp h)
        unfold checkReachable
        rw [if_neg (by simpa using hnot)]
        exact ⟨_, rfl, rfl, first, List.mem_cons_self, hfirst⟩

/-- The cycle check passes without a reached cycle and names one otherwise. -/
theorem assertAcyclic_cases (job : JobDefinition) :
    assertAcyclic job = .ok () ∧ ¬ ReachesCycle job ∨
      ∃ err, assertAcyclic job = .error err ∧ err.name = .invalidFlowGraph "CYCLE_DETECTED" ∧
        ReachesCycle job := by
  obtain ⟨result, hexplores, heq⟩ := explores_assertAcyclic job
  have hiff := hexplores.error_iff
  rw [heq]
  cases result with
  | ok marks =>
      left
      refine ⟨rfl, fun hcycle => ?_⟩
      obtain ⟨found, hfound⟩ := hiff.mpr hcycle
      cases hfound
  | error found => exact .inr ⟨_, rfl, rfl, hiff.mp ⟨found, rfl⟩⟩

/-- **What validation answers** once the first rules are met. -/
theorem validate_cases (h : checkRules job = .ok ()) :
    validate job = .ok () ∧ AllReachable job ∧ ¬ ReachesCycle job ∨
      (∃ err, validate job = .error err ∧ err.name = .invalidFlowGraph "UNREACHABLE_STEP") ∧
        ¬ AllReachable job ∨
      (∃ err, validate job = .error err ∧ err.name = .invalidFlowGraph "CYCLE_DETECTED") ∧
        AllReachable job ∧ ReachesCycle job := by
  rw [validate_eq, h]
  rcases checkReachable_forM job job.stepOrder with
    ⟨hok, hall⟩ | ⟨err, herr, hname, stepId, hmem, hnot⟩
  · rcases assertAcyclic_cases job with ⟨hacyclic, hnone⟩ | ⟨err, herr, hname, hcycle⟩
    · left
      exact ⟨by rw [hok, hacyclic]; rfl, hall, hnone⟩
    · right; right
      exact ⟨⟨err, by rw [hok, herr]; rfl, hname⟩, hall, hcycle⟩
  · right; left
    exact ⟨⟨err, by rw [herr]; rfl, hname⟩, fun hall => hnot (hall stepId hmem)⟩

/-- Where the rules pass, validation asks that all is reached and no cycle is. -/
theorem validate_eq_ok_iff (h : checkRules job = .ok ()) :
    validate job = .ok () ↔ AllReachable job ∧ ¬ ReachesCycle job := by
  rcases validate_cases h with ⟨hok, hboth⟩ | ⟨⟨err, herr, -⟩, hnot⟩ | ⟨⟨err, herr, -⟩, -, hcycle⟩
  · exact ⟨fun _ => hboth, fun _ => hok⟩
  · simp [herr, hnot]
  · simp [herr, hcycle]

/-- The unreachable step is reported exactly when there is one. -/
theorem throws_unreachable_iff (h : checkRules job = .ok ()) :
    Throws job "UNREACHABLE_STEP" ↔ ¬ AllReachable job := by
  unfold Throws
  rcases validate_cases h with ⟨hok, hboth⟩ | ⟨hthrows, hnot⟩ | ⟨⟨err, herr, hname⟩, hall, -⟩
  · simp [hok, hboth.1]
  · exact ⟨fun _ => hnot, fun _ => hthrows⟩
  · simp [herr, hname, hall]

/-- The cycle is reported exactly when all is reached and there is one. -/
theorem throws_cycle_iff (h : checkRules job = .ok ()) :
    Throws job "CYCLE_DETECTED" ↔ AllReachable job ∧ ReachesCycle job := by
  unfold Throws
  rcases validate_cases h with ⟨hok, hboth⟩ | ⟨⟨err, herr, hname⟩, hnot⟩ | ⟨hthrows, hboth⟩
  · simp [hok, hboth.2]
  · simp [herr, hname, hnot]
  · exact ⟨fun _ => hboth, fun _ => hthrows⟩

/-- Nothing else is thrown. -/
theorem code_of_throws (h : checkRules job = .ok ()) {code : String} (hcode : Throws job code) :
    code = "UNREACHABLE_STEP" ∨ code = "CYCLE_DETECTED" := by
  obtain ⟨err, herr, hname⟩ := hcode
  rcases validate_cases h with ⟨hok, -⟩ | ⟨⟨err', herr', hname'⟩, -⟩ | ⟨⟨err', herr', hname'⟩, -⟩
  · rw [hok] at herr
    cases herr
  · rw [herr'] at herr
    cases herr
    rw [hname'] at hname
    cases hname
    exact .inl rfl
  · rw [herr'] at herr
    cases herr
    rw [hname'] at hname
    cases hname
    exact .inr rfl

/-! ### Another order -/

/-- Reordered transitions have the same targets. -/
theorem Reordered.mem_targets (h : Reordered job job') (a b : String) :
    b ∈ targets job' a ↔ b ∈ targets job a := by
  rw [mem_targets_iff, mem_targets_iff]
  simp only [h.transitions.mem_iff]

/-- Reordered transitions have the same edges. -/
theorem Reordered.edge (h : Reordered job job') : Edge (targets job') = Edge (targets job) := by
  funext a b
  exact propext (h.mem_targets a b)

/-- Reordering keeps the steps that are had. -/
theorem Reordered.hasStep (h : Reordered job job') : job'.hasStep = job.hasStep := by
  funext stepId
  have hsome : (job'.steps.get? stepId).isSome = (job.steps.get? stepId).isSome := by
    apply Bool.eq_iff_iff.mpr
    simp only [Option.isSome_iff_exists, JsMap.get?_eq_some_iff, h.steps.mem_iff]
  unfold JobDefinition.hasStep
  rw [hsome]

/-- A list of checks passes when every one does. -/
theorem forM_of_ok {β : Type} {check : β → Except Thrown Unit} {xs : List β}
    (h : ∀ x ∈ xs, check x = .ok ()) : xs.forM check = .ok () := by
  induction xs with
  | nil => rfl
  | cons first rest ih =>
      have hcons : (first :: rest).forM check = check first >>= fun _ => rest.forM check := rfl
      rw [hcons, h first List.mem_cons_self, ih fun x hx => h x (List.mem_cons_of_mem _ hx)]
      rfl

/-- A check that all members pass is passed in any order. -/
theorem forM_perm {β : Type} {check : β → Except Thrown Unit} {xs ys : List β} (hperm : xs.Perm ys)
    (h : xs.forM check = .ok ()) : ys.forM check = .ok () :=
  forM_of_ok fun y hy => ok_of_forM h y (hperm.mem_iff.mpr hy)

/-- What the first rules ask of a job, one by one. -/
theorem checkRules_eq_ok_iff : checkRules job = .ok () ↔ job.stepOrder ≠ [] ∧
    job.hasStep job.startStepId = true ∧
    (job.steps.entries.forM fun e => validateStep e.1 e.2) = .ok () ∧
    job.transitions.forM (validateTransition job) = .ok () ∧
    validateDeciders job job.deciders [] = .ok () := by
  unfold checkRules
  constructor
  · intro h
    obtain ⟨hne, h⟩ := ok_of_guard h
    obtain ⟨hstart, h⟩ := ok_of_guard h
    obtain ⟨u, hsteps, h⟩ := ok_of_bind h
    obtain ⟨u, htransitions, hdeciders⟩ := ok_of_bind h
    exact ⟨hne, eq_true_of_ne_false hstart, hsteps, htransitions, hdeciders⟩
  · intro hcase
    obtain ⟨hne, hstart, hsteps, htransitions, hdeciders⟩ := hcase
    rw [if_neg hne, if_neg (by simp [hstart]), hsteps, htransitions, hdeciders]
    rfl

/-- The check of the deciders does not depend on the order of the transitions. -/
theorem Reordered.validateDeciders (h : Reordered job job') (deciders : List DeciderDefinition)
    (seen : List String) :
    DefinitionValidator.validateDeciders job' deciders seen =
      DefinitionValidator.validateDeciders job deciders seen := by
  induction deciders generalizing seen with
  | nil => rfl
  | cons d rest ih =>
      simp only [DefinitionValidator.validateDeciders, h.hasStep, ih]

/-- The rules do not depend on the order of the transitions. -/
theorem Reordered.checkRules (h : Reordered job job')
    (hrules : DefinitionValidator.checkRules job = .ok ()) :
    DefinitionValidator.checkRules job' = .ok () := by
  obtain ⟨hne, hstart, hsteps, htransitions, hdeciders⟩ := checkRules_eq_ok_iff.mp hrules
  have htransition : validateTransition job' = validateTransition job := by
    funext t
    simp only [validateTransition, h.hasStep]
  apply checkRules_eq_ok_iff.mpr
  rw [h.startStepId, h.hasStep, htransition, h.deciders, h.validateDeciders]
  refine ⟨?_, hstart, forM_perm h.steps hsteps, forM_perm h.transitions htransitions, hdeciders⟩
  intro hnil
  have hkeys : job.stepOrder.Perm job'.stepOrder := h.steps.map Prod.fst
  rw [hnil] at hkeys
  exact hne hkeys.eq_nil

/-- Reordering keeps what the start reaches. -/
theorem Reordered.reaches (h : Reordered job job') (stepId : String) :
    Reaches (targets job') job'.startStepId stepId ↔
      Reaches (targets job) job.startStepId stepId := by
  unfold Reaches
  rw [h.edge, h.startStepId]

/-- Reordering keeps that every step is reached. -/
theorem Reordered.allReachable (h : Reordered job job') : AllReachable job' ↔ AllReachable job := by
  have hkeys : job.stepOrder.Perm job'.stepOrder := h.steps.map Prod.fst
  unfold AllReachable
  simp only [h.reaches, hkeys.mem_iff]

/-- Reordering keeps whether a cycle is reached. -/
theorem Reordered.reachesCycle (h : Reordered job job') : ReachesCycle job' ↔ ReachesCycle job := by
  unfold ReachesCycle OnCycle
  simp only [h.reaches, h.edge]

/-- **The order of steps and transitions does not matter.** -/
theorem Reordered.validate (h : Reordered job job')
    (hrules : DefinitionValidator.checkRules job = .ok ()) :
    (DefinitionValidator.validate job' = .ok () ↔ DefinitionValidator.validate job = .ok ()) ∧
      ∀ code, Throws job' code ↔ Throws job code := by
  have hrules' := h.checkRules hrules
  have hunreachable : Throws job' "UNREACHABLE_STEP" ↔ Throws job "UNREACHABLE_STEP" := by
    rw [throws_unreachable_iff hrules', throws_unreachable_iff hrules, h.allReachable]
  have hcycle : Throws job' "CYCLE_DETECTED" ↔ Throws job "CYCLE_DETECTED" := by
    rw [throws_cycle_iff hrules', throws_cycle_iff hrules, h.allReachable, h.reachesCycle]
  constructor
  · rw [validate_eq_ok_iff hrules', validate_eq_ok_iff hrules, h.allReachable, h.reachesCycle]
  · intro code
    constructor
    · intro hthrows
      rcases code_of_throws hrules' hthrows with rfl | rfl
      · exact hunreachable.mp hthrows
      · exact hcycle.mp hthrows
    · intro hthrows
      rcases code_of_throws hrules hthrows with rfl | rfl
      · exact hunreachable.mpr hthrows
      · exact hcycle.mpr hthrows

/-- If there is a cycle, one can be reached from the start step. -/
def CyclesShow (job : JobDefinition) : Prop := Acyclic job ∨ ReachesCycle job

/-- A job that reaches a cycle has one. -/
theorem not_acyclic_of_reachesCycle (h : ReachesCycle job) : ¬ Acyclic job := by
  obtain ⟨stepId, -, hcycle⟩ := h
  exact fun hacyclic => hacyclic stepId hcycle

/-- **When the graph rules are decided exactly**: where some step cannot be reached, no cycle exists
or one can be reached. -/
theorem decidesGraphRules_iff (job : JobDefinition) (h : checkRules job = .ok ()) :
    DecidesGraphRules job ↔ ¬ AllReachable job ∨ CyclesShow job := by
  constructor
  · intro hdecides
    by_cases hall : AllReachable job
    · right
      by_cases hcycle : ReachesCycle job
      · exact .inr hcycle
      · have hok := (validate_eq_ok_iff h).mpr ⟨hall, hcycle⟩
        exact .inl (hdecides.accepts.mp hok).2
    · exact .inl hall
  · intro hshow
    have hacyclic : AllReachable job → (¬ ReachesCycle job ↔ Acyclic job) := by
      intro hall
      rcases hshow with hnot | hacyclic | hcycle
      · exact absurd hall hnot
      · exact ⟨fun _ => hacyclic, fun _ hcycle => not_acyclic_of_reachesCycle hcycle hacyclic⟩
      · exact ⟨fun hnot => absurd hcycle hnot,
          fun h => absurd h (not_acyclic_of_reachesCycle hcycle)⟩
    constructor
    · exact collects_collectReachable job
    · exact explores_assertAcyclic job
    · rw [validate_eq_ok_iff h]
      exact and_congr_right hacyclic
    · exact throws_unreachable_iff h
    · rw [throws_cycle_iff h]
      exact and_congr_right fun hall => by rw [← hacyclic hall, not_not]
    · intro job' hreordered
      exact hreordered.validate h

/-- A node on a cycle is where a transition leads. -/
theorem target_of_onCycle {stepId : String} (h : OnCycle (targets job) stepId) :
    ∃ t ∈ job.transitions, t.toStepId = some stepId := by
  obtain ⟨a, -, hedge⟩ := Relation.TransGen.tail'_iff.mp h
  obtain ⟨t, ht, -, hto⟩ := (mem_targets_iff job).mp hedge
  exact ⟨t, ht, hto⟩

/-- **What hides from the search** goes by the names that every object has. -/
theorem inherited_of_hidden_cycle (h : checkRules job = .ok ()) (hall : AllReachable job)
    (hnone : ¬ ReachesCycle job) {stepId : String} (hcycle : OnCycle (targets job) stepId) :
    stepId ∉ job.stepOrder ∧ stepId ∈ objectPrototypeKeys := by
  have hown : stepId ∉ job.stepOrder := fun hmem => hnone ⟨stepId, hall stepId hmem, hcycle⟩
  refine ⟨hown, ?_⟩
  obtain ⟨t, ht, hto⟩ := target_of_onCycle hcycle
  obtain ⟨-, -, -, htransitions, -⟩ := checkRules_eq_ok_iff.mp h
  have hfound := hasStep_of_validateTransition (ok_of_forM htransitions t ht) hto
  unfold JobDefinition.hasStep at hfound
  rcases Bool.or_eq_true_iff.mp hfound with hget | hinherited
  · obtain ⟨step, hget⟩ := Option.isSome_iff_exists.mp hget
    have hentry := (JsMap.get?_eq_some_iff _ _ _).mp hget
    exact absurd (List.mem_map_of_mem hentry) hown
  · exact List.contains_iff_mem.mp hinherited

/-- The names transitions lead to and from are steps of the job's own. -/
def OwnEndpoints (job : JobDefinition) : Prop :=
  ∀ t ∈ job.transitions, t.fromStepId ∈ job.stepOrder ∧
    ∀ stepId, t.toStepId = some stepId → stepId ∈ job.stepOrder

/-- Among its own steps a job with all of them reachable hides no cycle. -/
theorem cyclesShow_of_ownEndpoints (hown : OwnEndpoints job) (hall : AllReachable job) :
    CyclesShow job := by
  by_cases hacyclic : Acyclic job
  · exact .inl hacyclic
  · right
    unfold Acyclic at hacyclic
    push Not at hacyclic
    obtain ⟨stepId, hcycle⟩ := hacyclic
    obtain ⟨t, ht, hto⟩ := target_of_onCycle hcycle
    exact ⟨stepId, hall stepId ((hown t ht).2 stepId hto), hcycle⟩

end Rules

/-- One step, and a transition from a name that every object has to itself. -/
def inheritedLoop : JobDefinition where
  id := "nightly"
  steps := JsMap.empty.set "load" (.tasklet { id := "load", tasklet := { kind := .BuilderLambda } })
  startStepId := "load"
  transitions :=
    [{ fromStepId := "toString", onStatus := "COMPLETED", toStepId := some "toString" }]
  restartable := true

/-- **A cycle among inherited names is accepted.** -/
theorem inherited_loop_accepted :
    checkRules inheritedLoop = .ok () ∧ ¬ DecidesGraphRules inheritedLoop := by
  have hrules : checkRules inheritedLoop = .ok () := by rfl
  refine ⟨hrules, fun h => ?_⟩
  have hok : validate inheritedLoop = .ok () := by rfl
  have hacyclic := (h.accepts.mp hok).2
  apply hacyclic "toString"
  exact .single List.mem_cons_self

/-- A job whose only transition ends it. -/
def singleStep : JobDefinition :=
  { inheritedLoop with
    transitions := [{ fromStepId := "load", onStatus := "*", toStepId := none }] }

theorem decidesGraphRules_single : DecidesGraphRules singleStep := by
  apply (decidesGraphRules_iff singleStep rfl).mpr
  right; left
  intro stepId hcycle
  obtain ⟨t, ht, hto⟩ := target_of_onCycle hcycle
  rw [List.mem_singleton.mp ht] at hto
  cases hto

end DefinitionValidator

end NestBatch
