import Mathlib.Data.List.Induction
import NestBatch.Execution.ListEnvironment
import NestBatch.Repository.InstanceKeys

/-!
# Which calls share an instance

A history of the two operations of the in-memory repository that create instances.  Both
file an instance under the text `name::key`, so two calls resolve to the same instance
if and only if these texts are the same.  Whether the instances are told apart by the pair
of name and key is then a matter of the calls alone: no two of them may have one text for
two pairs.
-/

namespace NestBatch

/-- A call of one of the two operations, at some time. -/
inductive InstanceCall
  | getOrCreateJobInstance (now : Time) (name jobKey : String)
  | createExecutionAtomic (now : Time) (name jobKey : String) (params : JobParameters)

inductive InstanceAnswer
  | found (inst : JobInstance)
  | created (exec : JobExecution)
  | refused (err : Thrown)

namespace InstanceCall

/-- Name and key. -/
def pair : InstanceCall → String × String
  | getOrCreateJobInstance _ name jobKey => (name, jobKey)
  | createExecutionAtomic _ name jobKey _ => (name, jobKey)

/-- The text under which the instance is filed. -/
def key (call : InstanceCall) : String :=
  InMemoryJobRepository.instanceKey call.pair.1 call.pair.2

end InstanceCall

/-- The instance that an answer is about. -/
def InstanceAnswer.instanceId : InstanceAnswer → Option String
  | found inst => some inst.id
  | created exec => some exec.jobInstanceId
  | refused _ => none

/-- Calls with their answers, oldest first. -/
abbrev InstanceHistory := List (InstanceCall × InstanceAnswer)

namespace InMemoryJobRepository

/-- Answer a call. -/
def perform (repo : InMemoryJobRepository) : InstanceCall → InstanceAnswer × InMemoryJobRepository
  | .getOrCreateJobInstance now name jobKey =>
      let (inst, repo) := repo.getOrCreateJobInstance now name jobKey
      (.found inst, repo)
  | .createExecutionAtomic now name jobKey params =>
      match repo.createExecutionAtomic now name jobKey params with
      | (.ok exec, repo) => (.created exec, repo)
      | (.error err, repo) => (.refused err, repo)

/-- One more call. -/
def extend (done : InstanceHistory × InMemoryJobRepository) (call : InstanceCall) :
    InstanceHistory × InMemoryJobRepository :=
  (done.1 ++ [(call, (done.2.perform call).1)], (done.2.perform call).2)

/-- Calls one after another. -/
def performAll (repo : InMemoryJobRepository) (calls : List InstanceCall) :
    InstanceHistory × InMemoryJobRepository :=
  calls.foldl extend ([], repo)

theorem performAll_snoc (repo : InMemoryJobRepository) (calls : List InstanceCall)
    (call : InstanceCall) :
    repo.performAll (calls ++ [call]) = extend (repo.performAll calls) call := by
  unfold performAll
  rw [List.foldl_append]
  rfl

/-- What was performed are the calls, in order. -/
theorem map_fst_performAll (repo : InMemoryJobRepository) (calls : List InstanceCall) :
    (repo.performAll calls).1.map Prod.fst = calls := by
  induction calls using List.reverseRecOn with
  | nil => rfl
  | append_singleton calls call ih =>
      rw [performAll_snoc, extend, List.map_append, ih]
      rfl

/-- **Instances are told apart by name and key**: two calls resolve to the same one if and only if
they have the same pair, it is stored with the pair of the call, and a call is refused only for
an execution that a call with its own pair has created. -/
structure ToldApart (done : InstanceHistory) (repo : InMemoryJobRepository) : Prop where
  same : ∀ d ∈ done, ∀ d' ∈ done, ∀ id id', d.2.instanceId = some id →
    d'.2.instanceId = some id' → (id = id' ↔ d.1.pair = d'.1.pair)
  stored : ∀ d ∈ done, ∀ id, d.2.instanceId = some id → ∃ inst,
    repo.getJobInstance id = some inst ∧ (inst.jobName, inst.jobKey) = d.1.pair
  answered : ∀ d ∈ done, ∀ inst, d.2 = .found inst → (inst.jobName, inst.jobKey) = d.1.pair
  refused : ∀ before d after err, done = before ++ d :: after → d.2 = .refused err →
    ∃ d' ∈ before, ∃ exec, d'.2 = .created exec ∧ d'.1.pair = d.1.pair ∧
      err = .JobExecutionAlreadyRunningError exec.id

/-- No two calls have one text for two pairs. -/
def NoneAlike (calls : List InstanceCall) : Prop :=
  ∀ call ∈ calls, ∀ call' ∈ calls, call.key = call'.key → call.pair = call'.pair

/-! ### What the repository knows of a history -/

/-- The answer is about the instance filed under the text of the call. -/
structure Resolved (repo : InMemoryJobRepository) (d : InstanceCall × InstanceAnswer) : Prop where
  filed : ∀ id, d.2.instanceId = some id → ∃ inst,
    repo.instancesByKey.get? d.1.key = some inst ∧ inst.id = id
  found : ∀ inst, d.2 = .found inst → repo.instancesByKey.get? d.1.key = some inst

structure Tracks (done : InstanceHistory) (repo : InMemoryJobRepository) : Prop where
  keys : repo.KeysFiled
  resolved : ∀ d ∈ done, repo.Resolved d
  origin : ∀ key inst, repo.instancesByKey.get? key = some inst →
    repo.instances.get? inst.id = some inst ∧
      ∃ d ∈ done, d.1.key = key ∧ d.1.pair = (inst.jobName, inst.jobKey)
  rows : ∀ id row, repo.executions.get? id = some row → ∃ d ∈ done, ∃ exec,
    d.2 = .created exec ∧ exec.id = row.id ∧ exec.jobInstanceId = row.jobInstanceId
  refused : ∀ before d after err, done = before ++ d :: after → d.2 = .refused err →
    ∃ d' ∈ before, ∃ exec, d'.2 = .created exec ∧ d'.1.key = d.1.key ∧
      err = .JobExecutionAlreadyRunningError exec.id

theorem tracks_new (idGen : IdGenerator) : Tracks [] (new idGen) where
  keys := keysFiled_new idGen
  resolved _ h := by cases h
  origin _ _ h := by cases h
  rows _ _ h := by cases h
  refused before d after _ h := absurd h.symm (List.append_ne_nil_of_right_ne_nil _ (by simp))

variable {repo repo' : InMemoryJobRepository} {done : InstanceHistory} {now : Time}
  {name jobKey : String} {params : JobParameters}

/-- What is filed stays filed. -/
theorem getOrCreateJobInstance_keeps {key : String} {inst : JobInstance}
    (h : repo.instancesByKey.get? key = some inst) :
    (repo.getOrCreateJobInstance now name jobKey).2.instancesByKey.get? key = some inst := by
  unfold getOrCreateJobInstance
  cases hget : repo.instancesByKey.get? (instanceKey name jobKey) with
  | some existing => exact h
  | none =>
      have hne : key ≠ instanceKey name jobKey := by
        intro heq
        subst heq
        rw [hget] at h
        cases h
      exact (JsMap.get?_set_of_ne _ _ hne).trans h

/-- An instance that is filed afterwards was filed before, or has the pair of the call. -/
theorem getOrCreateJobInstance_origin (hkeys : repo.KeysFiled)
    (hstored : ∀ key inst, repo.instancesByKey.get? key = some inst →
      repo.instances.get? inst.id = some inst) {key : String} {inst : JobInstance}
    (h : (repo.getOrCreateJobInstance now name jobKey).2.instancesByKey.get? key = some inst) :
    (repo.getOrCreateJobInstance now name jobKey).2.instances.get? inst.id = some inst ∧
      (repo.instancesByKey.get? key = some inst ∨
        (instanceKey name jobKey = key ∧ (name, jobKey) = (inst.jobName, inst.jobKey))) := by
  unfold getOrCreateJobInstance at h ⊢
  cases hget : repo.instancesByKey.get? (instanceKey name jobKey) with
  | some existing =>
      rw [hget] at h
      exact ⟨hstored key inst h, Or.inl h⟩
  | none =>
      rw [hget] at h
      simp only [JsMap.get?_set] at h ⊢
      split at h
      · next hkey =>
          cases h
          rw [if_pos rfl]
          exact ⟨rfl, Or.inr ⟨hkey.symm, rfl⟩⟩
      · obtain ⟨n, hn, hid⟩ := hkeys.instances key inst h
        have hfresh : inst.id ≠ repo.nextId := by
          rw [hid]
          intro heq
          have hsame : n = repo.issued := repo.idGen.unique heq
          omega
        rw [if_neg hfresh]
        exact ⟨hstored key inst h, Or.inl h⟩

/-- A call is answered about the instance that is filed under its text. -/
theorem resolved_perform (repo : InMemoryJobRepository) (call : InstanceCall) :
    (repo.perform call).2.Resolved (call, (repo.perform call).1) := by
  cases call with
  | getOrCreateJobInstance now name jobKey =>
      have hfiled := repo.getOrCreateJobInstance_filed now name jobKey
      constructor
      · intro id hid
        cases hid
        exact ⟨_, hfiled, rfl⟩
      · intro inst hinst
        cases hinst
        exact hfiled
  | createExecutionAtomic now name jobKey params =>
      have hfiled := repo.getOrCreateJobInstance_filed now name jobKey
      unfold perform createExecutionAtomic
      cases hinst : repo.getOrCreateJobInstance now name jobKey with
      | mk inst repo' =>
          rw [hinst] at hfiled
          cases hrunning : repo'.getRunningJobExecution inst.id with
          | some exec =>
              simp only [hinst, hrunning]
              exact ⟨fun _ hid => (by cases hid), fun _ hinst => (by cases hinst)⟩
          | none =>
              simp only [hinst, hrunning]
              refine ⟨fun id hid => ?_, fun _ h => by cases h⟩
              cases hid
              exact ⟨inst, hfiled, rfl⟩

/-- A step that adds an answer, where the repository keeps what it has filed. -/
theorem Tracks.snoc (h : Tracks done repo) {d : InstanceCall × InstanceAnswer}
    (hkeys : repo'.KeysFiled)
    (hkept : ∀ key inst, repo.instancesByKey.get? key = some inst →
      repo'.instancesByKey.get? key = some inst)
    (hresolved : repo'.Resolved d)
    (horigin : ∀ key inst, repo'.instancesByKey.get? key = some inst →
      repo'.instances.get? inst.id = some inst ∧ (repo.instancesByKey.get? key = some inst ∨
        (d.1.key = key ∧ d.1.pair = (inst.jobName, inst.jobKey))))
    (hrows : ∀ id row, repo'.executions.get? id = some row →
      repo.executions.get? id = some row ∨ d.2 = .created row)
    (hrefused : ∀ err, d.2 = .refused err → ∃ d' ∈ done, ∃ exec, d'.2 = .created exec ∧
      d'.1.key = d.1.key ∧ err = .JobExecutionAlreadyRunningError exec.id) :
    Tracks (done ++ [d]) repo' where
  keys := hkeys
  resolved e he := by
    rcases List.mem_append.mp he with he | he
    · have hold := h.resolved e he
      refine ⟨fun id hid => ?_, fun inst hinst => hkept _ _ (hold.found inst hinst)⟩
      obtain ⟨inst, hget, hinst⟩ := hold.filed id hid
      exact ⟨inst, hkept _ _ hget, hinst⟩
    · rw [List.mem_singleton.mp he]
      exact hresolved
  origin key inst hget := by
    obtain ⟨hstored, hold | hnew⟩ := horigin key inst hget
    · obtain ⟨e, he, hpair⟩ := (h.origin key inst hold).2
      exact ⟨hstored, e, List.mem_append_left _ he, hpair⟩
    · exact ⟨hstored, d, List.mem_append_right _ (List.mem_singleton_self d), hnew⟩
  rows id row hrow := by
    rcases hrows id row hrow with hold | hnew
    · obtain ⟨e, he, exec, hexec⟩ := h.rows id row hold
      exact ⟨e, List.mem_append_left _ he, exec, hexec⟩
    · exact ⟨d, List.mem_append_right _ (List.mem_singleton_self d), row, hnew, rfl, rfl⟩
  refused before e after err heq herr := by
    rcases List.eq_nil_or_concat after with rfl | ⟨after, last, rfl⟩
    · obtain ⟨rfl, hlast⟩ := List.append_inj' heq rfl
      cases hlast
      exact hrefused err herr
    · rw [List.concat_eq_append, ← List.cons_append, ← List.append_assoc] at heq
      obtain ⟨rfl, -⟩ := List.append_inj' heq rfl
      exact h.refused before e after err rfl herr

/-- **The step lemma**: what is known of a history is known of one more call. -/
theorem Tracks.perform (h : Tracks done repo) (call : InstanceCall) :
    Tracks (done ++ [(call, (repo.perform call).1)]) (repo.perform call).2 := by
  have hstored key inst (hget : repo.instancesByKey.get? key = some inst) :
      repo.instances.get? inst.id = some inst := (h.origin key inst hget).1
  have hresolved := repo.resolved_perform call
  cases call with
  | getOrCreateJobInstance now name jobKey =>
      have hframe := repo.getOrCreateJobInstance_frame now name jobKey
      refine h.snoc (h.keys.getOrCreate now name jobKey)
        (fun _ _ => getOrCreateJobInstance_keeps) hresolved
        (fun _ _ => getOrCreateJobInstance_origin h.keys hstored) ?_ fun _ herr => by cases herr
      intro id row hrow
      exact Or.inl ((congrArg (JsMap.get? · id) hframe.1).symm.trans hrow)
  | createExecutionAtomic now name jobKey params =>
      have hkeys := h.keys.createExecution now name jobKey params
      have hkept : ∀ key inst, repo.instancesByKey.get? key = some inst →
          (repo.getOrCreateJobInstance now name jobKey).2.instancesByKey.get? key = some inst :=
        fun _ _ => getOrCreateJobInstance_keeps
      have horigin : ∀ key inst,
          (repo.getOrCreateJobInstance now name jobKey).2.instancesByKey.get? key = some inst → _ :=
        fun _ _ => getOrCreateJobInstance_origin h.keys hstored
      have hframe := repo.getOrCreateJobInstance_frame now name jobKey
      have hfiled := repo.getOrCreateJobInstance_filed now name jobKey
      have hdistinct := (h.keys.getOrCreate now name jobKey).distinct
      unfold InMemoryJobRepository.perform createExecutionAtomic at hresolved ⊢
      unfold createExecutionAtomic at hkeys
      cases hinst : repo.getOrCreateJobInstance now name jobKey with
      | mk inst repo₁ =>
          rw [hinst] at hkept horigin hframe hfiled hdistinct
          simp only [hinst] at hkeys hresolved ⊢
          cases hrunning : repo₁.getRunningJobExecution inst.id with
          | some exec =>
              simp only [hrunning] at hkeys hresolved ⊢
              refine h.snoc hkeys hkept hresolved horigin ?_ ?_
              · intro id row hrow
                exact Or.inl ((congrArg (JsMap.get? · id) hframe.1).symm.trans hrow)
              · intro err herr
                cases herr
                -- the row that is running was created by a call under the same text
                have hfound := List.find?_some hrunning
                rw [Bool.and_eq_true, decide_eq_true_eq] at hfound
                obtain ⟨id, hid⟩ :=
                  (JsMap.mem_values_iff _ _).mp (List.mem_of_find?_eq_some hrunning)
                obtain ⟨d', hd', exec', hcreated, hexec, hinstance⟩ :=
                  h.rows id exec ((congrArg (JsMap.get? · id) hframe.1).symm.trans hid)
                obtain ⟨inst', hget, hid'⟩ := (h.resolved d' hd').filed exec'.jobInstanceId
                  (congrArg InstanceAnswer.instanceId hcreated)
                refine ⟨d', hd', exec', hcreated, ?_, by rw [hexec]⟩
                exact hdistinct _ _ _ _ (hkept _ _ hget) hfiled
                  (hid'.trans (hinstance.trans hfound.1))
          | none =>
              simp only [hrunning] at hkeys hresolved ⊢
              refine h.snoc hkeys hkept hresolved horigin ?_ fun _ herr => by cases herr
              intro id row hrow
              simp only [createJobExecution, JsMap.get?_set] at hrow
              split at hrow
              · cases hrow
                exact Or.inr rfl
              · exact Or.inl ((congrArg (JsMap.get? · id) hframe.1).symm.trans hrow)

/-- **The run lemma.** -/
theorem tracks_performAll (idGen : IdGenerator) (calls : List InstanceCall) :
    Tracks ((new idGen).performAll calls).1 ((new idGen).performAll calls).2 := by
  induction calls using List.reverseRecOn with
  | nil => exact tracks_new idGen
  | append_singleton calls call ih =>
      rw [performAll_snoc]
      exact ih.perform call

/-! ### Told apart by pairs -/

/-- Two answers are about one instance if and only if their calls have one text. -/
theorem Tracks.same_iff (h : Tracks done repo) {d d' : InstanceCall × InstanceAnswer}
    (hd : d ∈ done) (hd' : d' ∈ done) {id id' : String} (hid : d.2.instanceId = some id)
    (hid' : d'.2.instanceId = some id') : id = id' ↔ d.1.key = d'.1.key := by
  obtain ⟨inst, hget, rfl⟩ := (h.resolved d hd).filed id hid
  obtain ⟨inst', hget', rfl⟩ := (h.resolved d' hd').filed id' hid'
  constructor
  · exact h.keys.distinct _ _ _ _ hget hget'
  · intro hkey
    rw [hkey] at hget
    exact congrArg JobInstance.id (Option.some.inj (hget.symm.trans hget'))

/-- Calls with the same pair have the same key. -/
theorem key_eq_of_pair_eq {call call' : InstanceCall} (h : call.pair = call'.pair) :
    call.key = call'.key := by
  unfold InstanceCall.key
  rw [h]

/-- Where no two calls look alike the instances are told apart. -/
theorem Tracks.toldApart (h : Tracks done repo) (halike : NoneAlike (done.map Prod.fst)) :
    ToldApart done repo := by
  have hpair : ∀ d ∈ done, ∀ d' ∈ done, d.1.key = d'.1.key → d.1.pair = d'.1.pair :=
    fun d hd d' hd' => halike _ (List.mem_map_of_mem hd) _ (List.mem_map_of_mem hd')
  have horigin : ∀ d ∈ done, ∀ inst, repo.instancesByKey.get? d.1.key = some inst →
      repo.getJobInstance inst.id = some inst ∧ (inst.jobName, inst.jobKey) = d.1.pair := by
    intro d hd inst hget
    obtain ⟨hstored, e, he, hkey, hown⟩ := h.origin _ inst hget
    exact ⟨hstored, hown.symm.trans (hpair e he d hd hkey)⟩
  refine ⟨?_, ?_, ?_, ?_⟩
  · intro d hd d' hd' id id' hid hid'
    rw [h.same_iff hd hd' hid hid']
    exact ⟨hpair d hd d' hd', key_eq_of_pair_eq⟩
  · intro d hd id hid
    obtain ⟨inst, hget, rfl⟩ := (h.resolved d hd).filed id hid
    exact ⟨inst, horigin d hd inst hget⟩
  · intro d hd inst hinst
    exact (horigin d hd inst ((h.resolved d hd).found inst hinst)).2
  · intro before d after err heq herr
    obtain ⟨d', hd', exec, hcreated, hkey, hexec⟩ := h.refused before d after err heq herr
    have hmem' : d' ∈ done := heq ▸ List.mem_append_left _ hd'
    have hmem : d ∈ done := heq ▸ List.mem_append_right _ List.mem_cons_self
    exact ⟨d', hd', exec, hcreated, hpair d' hmem' d hmem hkey, hexec⟩

/-- Every call has a partner with its pair whose answer is about an instance: itself, or the one
that has created what it is refused for. -/
theorem ToldApart.partner (h : ToldApart done repo) {d : InstanceCall × InstanceAnswer}
    (hd : d ∈ done) : ∃ d' ∈ done, d'.1.pair = d.1.pair ∧ ∃ id, d'.2.instanceId = some id := by
  cases hanswer : d.2 with
  | found inst => exact ⟨d, hd, rfl, inst.id, by rw [hanswer]; rfl⟩
  | created exec => exact ⟨d, hd, rfl, exec.jobInstanceId, by rw [hanswer]; rfl⟩
  | refused err =>
      obtain ⟨before, after, heq⟩ := List.append_of_mem hd
      obtain ⟨d', hd', exec, hcreated, hpair, -⟩ := h.refused before d after err heq hanswer
      refine ⟨d', heq ▸ List.mem_append_left _ hd', hpair, exec.jobInstanceId, ?_⟩
      rw [hcreated]
      rfl

/-- Instances that are told apart come of calls of which none look alike. -/
theorem Tracks.noneAlike (h : Tracks done repo) (htold : ToldApart done repo) :
    NoneAlike (done.map Prod.fst) := by
  intro call hcall call' hcall' hkey
  obtain ⟨d, hd, rfl⟩ := List.mem_map.mp hcall
  obtain ⟨d', hd', rfl⟩ := List.mem_map.mp hcall'
  obtain ⟨e, he, hpair, id, hid⟩ := htold.partner hd
  obtain ⟨e', he', hpair', id', hid'⟩ := htold.partner hd'
  have htexts : e.1.key = e'.1.key :=
    (key_eq_of_pair_eq hpair).trans (hkey.trans (key_eq_of_pair_eq hpair').symm)
  have hsame := (h.same_iff he he' hid hid').mpr htexts
  exact hpair.symm.trans (((htold.same e he e' he' id id' hid hid').mp hsame).trans hpair')

/-- **When instances are told apart by name and key**: exactly where no two of the calls have one
text `name::key` for two pairs. -/
theorem instances_told_apart_iff (idGen : IdGenerator) (calls : List InstanceCall) :
    ToldApart ((new idGen).performAll calls).1 ((new idGen).performAll calls).2 ↔
      NoneAlike calls := by
  have htracks := tracks_performAll idGen calls
  constructor
  · intro htold
    have halike := htracks.noneAlike htold
    rwa [map_fst_performAll] at halike
  · intro halike
    refine htracks.toldApart ?_
    rwa [map_fst_performAll]

/-- A name without a colon can be told from the key behind it. -/
theorem instanceKey_inj {name name' jobKey jobKey' : String} (hname : ':' ∉ name.toList)
    (hname' : ':' ∉ name'.toList) (h : instanceKey name jobKey = instanceKey name' jobKey') :
    name = name' ∧ jobKey = jobKey' := by
  have htake (name jobKey : String) (hname : ':' ∉ name.toList) :
      (instanceKey name jobKey).toList.takeWhile (· != ':') = name.toList := by
    have hunits : (instanceKey name jobKey).toList =
        name.toList ++ ':' :: ':' :: jobKey.toList := by
      simp [instanceKey]
    rw [hunits, List.takeWhile_append_of_pos]
    · exact List.append_nil _
    · intro c hc
      exact bne_iff_ne.mpr fun heq => hname (heq ▸ hc)
  have hnames := congrArg (fun text => text.toList.takeWhile (· != ':')) h
  rw [htake _ _ hname, htake _ _ hname'] at hnames
  have hsame := String.toList_inj.mp hnames
  subst hsame
  refine ⟨rfl, String.toList_inj.mp ?_⟩
  have hlist := congrArg String.toList h
  simp only [instanceKey, String.toList_append] at hlist
  exact List.append_cancel_left hlist

/-- So calls for jobs whose names have no colon are told apart. -/
theorem noneAlike_of_no_colon {calls : List InstanceCall}
    (h : ∀ call ∈ calls, ':' ∉ call.pair.1.toList) : NoneAlike calls := by
  intro call hcall call' hcall' hkey
  obtain ⟨hname, hjobKey⟩ := instanceKey_inj (h call hcall) (h call' hcall') hkey
  exact Prod.ext hname hjobKey

/-- A launch of job `a::b` under the key `c`, and one of job `a` under the key `b::c`. -/
def twoLaunches : List InstanceCall :=
  [.createExecutionAtomic 0 "a::b" "c" [], .createExecutionAtomic 0 "a" "b::c" []]

/-- **One instance for two pairs**: the second launch is refused for the execution of the first. -/
theorem instances_shared :
    ((new (unaryIds 'r')).performAll twoLaunches).1.map Prod.snd =
        [.created (newExecution "r" "" []),
          .refused (.JobExecutionAlreadyRunningError "r")] ∧
      ¬ ToldApart ((new (unaryIds 'r')).performAll twoLaunches).1
        ((new (unaryIds 'r')).performAll twoLaunches).2 := by
  refine ⟨rfl, ?_⟩
  intro htold
  have halike := (tracks_performAll (unaryIds 'r') twoLaunches).noneAlike htold
  rw [map_fst_performAll] at halike
  have hpairs := halike _ List.mem_cons_self _ (List.mem_cons_of_mem _ List.mem_cons_self) rfl
  exact absurd hpairs (by decide)

end InMemoryJobRepository

end NestBatch
