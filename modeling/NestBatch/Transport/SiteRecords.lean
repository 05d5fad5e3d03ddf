import NestBatch.Repository.ActiveRows
import NestBatch.Transport.SiteRules

/-!
# What a site has on record

Whatever comes to a site and however the operations interleave, the repository
stays consistent and only grows, the executions that a session has created or read
stay on file, and every message in the queue is one that a worker can hand over.
-/

namespace NestBatch

variable {α υ : Type}

/-- The execution is on file. -/
def World.Files (w : World υ) (e : String) : Prop := (w.repo.executions.get? e).isSome = true

/-- What is on file stays on file as the repository is extended. -/
theorem World.Files.of_extends {w w' : World υ} {e : String} (h : w.Files e)
    (hextends : w.repo.Extends w'.repo) : w'.Files e := by
  obtain ⟨row, hrow⟩ := Option.isSome_iff_exists.mp h
  obtain ⟨row', hrow', -⟩ := hextends.executions e row hrow
  exact Option.isSome_of_eq_some hrow'

/-- The executions that a log knows of: created, or read. -/
def KnownTo (calls : Calls α) (e : String) : Prop :=
  e ∈ launchedIds calls ∨ ∃ row ∈ rowsRead calls, row.id = e

theorem knownTo_snoc {calls : Calls α} {c : Prog.Call (Op α) Op.Resp} {e : String}
    (h : KnownTo (calls ++ [c]) e) : KnownTo calls e ∨ launchedBy c = some e ∨
      ∃ row, rowRead c = some row ∧ row.id = e := by
  rcases h with hlaunched | ⟨row, hrow, hid⟩
  · rw [launchedIds_snoc] at hlaunched
    rcases List.mem_append.mp hlaunched with hold | hnew
    · exact .inl (.inl hold)
    · exact .inr (.inl (Option.mem_toList.mp hnew))
  · rw [rowsRead_snoc] at hrow
    rcases List.mem_append.mp hrow with hold | hnew
    · exact .inl (.inr ⟨row, hold, hid⟩)
    · exact .inr (.inr ⟨row, Option.mem_toList.mp hnew, hid⟩)

/-- What a call creates or reads is on file after it. -/
theorem files_after (env : Environment α υ) {w : World υ} (h : w.repo.ExecutionsFiled) {o : Op α}
    {e : String} (hknown : launchedBy ⟨o, (handle env o w).1⟩ = some e ∨
      ∃ row, rowRead ⟨o, (handle env o w).1⟩ = some row ∧ row.id = e) :
    (handle env o w).2.Files e := by
  cases o with
  | createExecutionAtomic name jobKey params =>
      rcases w.repo.createExecutionAtomic_cases w.clock name jobKey params with
        ⟨err, herr, -⟩ | ⟨row, hok, -, hset, -⟩
      · simp only [handle, herr, launchedBy, rowRead] at hknown
        rcases hknown with hnone | ⟨row, hnone, -⟩
        · cases hnone
        · cases hnone
      · simp only [handle, hok, launchedBy, rowRead] at hknown
        rcases hknown with hsome | ⟨row, hnone, -⟩
        · cases hsome
          unfold World.Files
          simp only [handle, hset, JsMap.get?_set_self, Option.isSome_some]
        · cases hnone
  | getJobExecution id =>
      rcases hknown with hnone | ⟨row, hrow, hid⟩
      · cases hnone
      · simp only [handle, InMemoryJobRepository.getJobExecution, rowRead] at hrow
        cases hget : w.repo.executions.get? id with
        | none =>
            rw [hget] at hrow
            cases hrow
        | some found =>
            rw [hget] at hrow
            cases hrow
            have hsame : row.id = id := h id row hget
            rw [hsame] at hid
            exact hid ▸ Option.isSome_of_eq_some hget
  | _ =>
      rcases hknown with hnone | ⟨row, hnone, -⟩
      · cases hnone
      · cases hnone

namespace Deployment

variable (D : Deployment) (env : Environment α υ)

/-- A permit for steps is given only for executions that the session knows of. -/
theorem knownTo_of_steps {request : Request} {calls : Calls α} {e : String}
    (h : (D.permit request).steps calls e) : KnownTo calls e := by
  cases request with
  | launch => exact .inl h.2
  | startNext => exact .inl h.2
  | restart =>
      obtain ⟨rfl, row, hrow, hid, -⟩ := h
      exact .inr ⟨row, hrow, hid⟩
  | deliver =>
      obtain ⟨rfl, row, hrow, hid, -⟩ := h
      exact .inr ⟨row, hrow, hid⟩
  | stop => exact h.elim
  | abandon => exact h.elim

/-! ### The repository -/

/-- The repository is consistent, and what the sessions know of is on file. -/
structure OnRecord (site : SiteState α υ) : Prop where
  orderly : D.Orderly site
  consistent : site.shared.repo.Consistent
  known : ∀ (n : Nat) (session : SiteSession α) (e : String), site.sessions[n]? = some session →
    KnownTo session.calls e → site.shared.Files e

theorem onRecord_started {w : World υ} (h : w.repo.Consistent) :
    D.OnRecord (Prog.Service.started w : SiteState α υ) where
  orderly := Prog.Service.specified_started h.executionOwn
  consistent := h
  known _ _ _ hsession _ := by cases hsession

variable {D env} {site site' : SiteState α υ} {happening : Prog.Happening Request}

/-- Every happening keeps the records, and loses none. -/
theorem OnRecord.step (h : D.OnRecord site)
    (hstep : (D.service env).machine.step site happening = some site') :
    D.OnRecord site' ∧ site.shared.repo.Extends site'.shared.repo := by
  have horderly := D.orderly_step env h.orderly hstep
  cases happening with
  | come request =>
      obtain ⟨w, harrive, rfl⟩ := Prog.Service.step_come hstep
      have hrepo := (arrive_eq_some harrive).2
      refine ⟨⟨horderly, hrepo ▸ h.consistent, fun n session e hsession hknown => ?_⟩,
        hrepo ▸ .refl _⟩
      rcases Prog.Service.come_cases hsession with hold | ⟨-, rfl⟩
      · change (w.repo.executions.get? e).isSome = true
        rw [hrepo]
        exact h.known n session e hold hknown
      · rcases hknown with hnone | ⟨row, hnone, -⟩
        · cases hnone
        · cases hnone
  | act n =>
      obtain ⟨session, o, k, hsession, hop, rfl⟩ := Prog.Service.step_act hstep
      have hguard := h.orderly.guard hsession hop
      have hkept := handle_consistent env h.consistent (o := o) fun e name heq => by
        subst heq
        have hsteps : (D.permit session.request).steps session.calls e := hguard
        exact Option.isSome_iff_exists.mp (h.known n session e hsession (D.knownTo_of_steps hsteps))
      refine ⟨⟨horderly, hkept.1, fun m t e ht hknown => ?_⟩, hkept.2⟩
      rcases Prog.Service.after_cases hsession ht with ⟨-, rfl⟩ | ⟨-, hold⟩
      · rcases knownTo_snoc hknown with hold | hnew
        · exact (h.known n session e hsession hold).of_extends hkept.2
        · exact files_after env h.orderly.1 hnew
      · exact (h.known m t e hold hknown).of_extends hkept.2

/-- Every run of happenings keeps the site on record. -/
theorem OnRecord.run (h : D.OnRecord site) {happenings : List (Prog.Happening Request)}
    (hrun : (D.service env).machine.run site happenings = some site') : D.OnRecord site' :=
  Machine.run_keeps (fun _ _ _ hsite hstep => (hsite.step hstep).1) h hrun

variable (D env)

/-- **The repository keeps its integrity**: in any interleaving it is consistent, and what is on
file at any time stays on file, with what it belongs to. -/
theorem repository_keeps_integrity {w : World υ} (h : w.repo.Consistent)
    {before after : List (Prog.Happening Request)}
    (hbefore : (D.service env).machine.run (Prog.Service.started w) before = some site)
    (hafter : (D.service env).machine.run site after = some site') :
    site'.shared.repo.Consistent ∧ site.shared.repo.Extends site'.shared.repo := by
  have hsite := (D.onRecord_started h).run hbefore
  have hboth : D.OnRecord site' ∧ site.shared.repo.Extends site'.shared.repo :=
    Machine.run_keeps (P := fun t => D.OnRecord t ∧ site.shared.repo.Extends t.shared.repo)
      (fun _ _ _ ht hstep => ⟨(ht.1.step hstep).1, ht.2.trans (ht.1.step hstep).2⟩)
      ⟨hsite, .refl _⟩ hafter
  exact ⟨hboth.1.consistent, hboth.2⟩

theorem repository_keeps_integrity_import :
    ∃ site, ((importSite .queued).service (willing [10, 20, 30])).machine.run
        (Prog.Service.started freshWorld) launchAndDelivery = some site ∧
      site.shared.repo.Consistent ∧ site.shared.repo.Extends site.shared.repo := by
  have hsome : (((importSite .queued).service (willing [10, 20, 30])).machine.run
      (Prog.Service.started freshWorld) launchAndDelivery).isSome = true := by decide +kernel
  obtain ⟨site, hrun⟩ := Option.isSome_iff_exists.mp hsome
  have hstay : ((importSite .queued).service (willing [10, 20, 30])).machine.run site [] =
      some site := rfl
  exact ⟨site, hrun, repository_keeps_integrity (importSite .queued) (willing [10, 20, 30])
    (InMemoryJobRepository.consistent_new _) hrun hstay⟩

/-! ### The queue -/

/-- A message that is in the queue, or that a worker has taken. -/
def Outstanding (site : SiteState α υ) (payload : JobPayload) : Prop :=
  payload ∈ site.shared.queue ∨ ∃ (n : Nat) (session : SiteSession α) (kept : Bool),
    site.sessions[n]? = some session ∧ session.request = .deliver payload kept

/-- A message is one of those that a launch of its job sends, and its execution is on file. -/
def Genuine (w : World υ) (payload : JobPayload) : Prop :=
  w.Files payload.executionId ∧ ∃ job, D.registry.get payload.jobId = .ok job ∧
    payload ∈ BullmqRuntime.payloads job
      { executionId := payload.executionId, jobExecutionId := payload.executionId }

/-- The messages of a launch carry the execution and the job of the launch. -/
theorem payload_of_mem {job : JobDefinition} {ctx : ExecutionStrategyContext}
    {payload : JobPayload} (h : payload ∈ BullmqRuntime.payloads job ctx) :
    payload.executionId = ctx.executionId ∧ payload.jobId = job.id := by
  obtain ⟨index, -, rfl⟩ := List.mem_map.mp h
  exact ⟨rfl, rfl⟩

/-- The Kafka worker accepts the partition index of every message of a launch. -/
theorem partitionArgs_of_mem {job : JobDefinition} {ctx : ExecutionStrategyContext}
    {payload : JobPayload} (h : payload ∈ BullmqRuntime.payloads job ctx) :
    ∃ partition, KafkaRuntime.partitionArgs job payload = .ok partition ∧
      partition.partitionIndex = payload.partitionIndex := by
  unfold BullmqRuntime.payloads BullmqRuntime.partitionOrdinals at h
  obtain ⟨index, hindex, rfl⟩ := List.mem_map.mp h
  split at hindex
  · obtain ⟨i, hi, rfl⟩ := List.mem_map.mp hindex
    obtain ⟨hnonneg, hlt⟩ := mem_ordinals.mp hi
    refine ⟨{ partitionIndex := some i, partitionCount := some (partitionCount job) }, ?_, rfl⟩
    have hinside : ¬ (i < 0 ∨ i ≥ partitionCount job) := by omega
    unfold KafkaRuntime.partitionArgs payloadOf enforcePartitionIndex
    simp only [if_neg hinside]
    rfl
  · obtain rfl := List.mem_singleton.mp hindex
    exact ⟨{}, rfl, rfl⟩

/-- Both transports make the same payloads. -/
theorem Transport.payloads_eq (transport : Transport) (job : JobDefinition)
    (ctx : ExecutionStrategyContext) :
    transport.payloads job ctx = BullmqRuntime.payloads job ctx := by
  cases transport with
  | bullmq => rfl
  | kafka => exact (NestBatch.payloads_eq job ctx).symm

/-- The queue after an operation. -/
theorem queue_after (env : Environment α υ) (o : Op α) (w : World υ) :
    (handle env o w).2.queue =
      w.queue ++ (messageSent ⟨o, (handle env o w).1⟩).toList := by
  cases o with
  | enqueue payload =>
      simp only [handle]
      split
      · rfl
      · exact (List.append_nil _).symm
  | user call =>
      simp only [messageSent, Option.toList_none, List.append_nil]
      change (handleUser env call w).2.queue = w.queue
      unfold handleUser
      split
      · rfl
      · rfl
  | _ => exact (List.append_nil _).symm

/-- What a permit lets a session send is genuine. -/
theorem genuine_of_sends {D : Deployment} {request : Request} {calls : Calls α}
    {payload : JobPayload} {w : World υ} (hfiles : ∀ e, KnownTo calls e → w.Files e)
    (h : (D.permit request).sends calls payload) : D.Genuine w payload := by
  have hlaunch {jobId : String} (h : (D.launchPermit jobId).sends calls payload) :
      D.Genuine w payload := by
    obtain ⟨-, e, job, hlaunched, hjob, hprefix⟩ := h
    rw [Transport.payloads_eq] at hprefix
    have hmem := hprefix.subset (List.mem_append_right _ (List.mem_singleton_self payload))
    obtain ⟨he, hid⟩ := payload_of_mem hmem
    have hjobId : job.id = jobId := (JobRegistry.get_eq_ok hjob).1
    refine ⟨hfiles _ (.inl (he ▸ hlaunched)), job, ?_, ?_⟩
    · rw [hid, hjobId]
      exact hjob
    · rw [he]
      exact hmem
  cases request with
  | launch => exact hlaunch h
  | startNext => exact hlaunch h
  | _ => exact h.elim

variable {D env}

/-- Every outstanding message is genuine. -/
theorem OnRecord.genuine_step (h : D.OnRecord site)
    (hgenuine : ∀ payload, Outstanding site payload → D.Genuine site.shared payload)
    (hstep : (D.service env).machine.step site happening = some site') :
    ∀ payload, Outstanding site' payload → D.Genuine site'.shared payload := by
  obtain ⟨-, hextends⟩ := h.step hstep
  have hkept {payload : JobPayload} (hold : D.Genuine site.shared payload) :
      D.Genuine site'.shared payload := ⟨hold.1.of_extends hextends, hold.2⟩
  intro payload hpayload
  cases happening with
  | come request =>
      obtain ⟨w, harrive, rfl⟩ := Prog.Service.step_come hstep
      rcases hpayload with hqueued | ⟨n, session, kept, hsession, hrequest⟩
      · exact hkept (hgenuine payload (.inl ((arrive_eq_some harrive).1 payload hqueued)))
      · rcases Prog.Service.come_cases hsession with hold | ⟨-, rfl⟩
        · exact hkept (hgenuine payload (.inr ⟨n, session, kept, hold, hrequest⟩))
        · obtain rfl : request = .deliver payload kept := hrequest
          refine hkept (hgenuine payload (.inl ?_))
          change arrive (.deliver payload kept) site.shared = some w at harrive
          simp only [arrive] at harrive
          split at harrive
          · next hmem => exact hmem
          · cases harrive
  | act n =>
      obtain ⟨session, o, k, hsession, hop, rfl⟩ := Prog.Service.step_act hstep
      rcases hpayload with hqueued | ⟨m, t, kept, ht, hrequest⟩
      · change payload ∈ (handle env o site.shared).2.queue at hqueued
        rw [queue_after] at hqueued
        rcases List.mem_append.mp hqueued with hold | hsent
        · exact hkept (hgenuine payload (.inl hold))
        · have hguard := h.orderly.guard hsession hop
          cases o with
          | enqueue sent =>
              have hsame : payload = sent := by
                have hmessage := Option.mem_toList.mp hsent
                cases hanswer : (handle env (.enqueue sent) site.shared).1 with
                | error err =>
                    rw [hanswer] at hmessage
                    cases hmessage
                | ok queueJobId =>
                    rw [hanswer] at hmessage
                    exact (Option.some.inj hmessage).symm
              subst hsame
              exact hkept (genuine_of_sends (fun e => h.known n session e hsession) hguard)
          | _ => cases hsent
      · rcases Prog.Service.after_cases hsession ht with ⟨-, rfl⟩ | ⟨-, hold⟩
        · exact hkept (hgenuine payload (.inr ⟨n, session, kept, hsession, hrequest⟩))
        · exact hkept (hgenuine payload (.inr ⟨m, t, kept, hold, hrequest⟩))

variable (D env)

/-- **No message is lost to its worker**: in any interleaving, every message that is in the queue or
in the hands of a worker can be handed over by either transport, and Kafka's worker hands its
partition on. -/
theorem messages_handed_over {w : World υ} (h : w.repo.Consistent) (hqueue : w.queue = [])
    {happenings : List (Prog.Happening Request)}
    (hrun : (D.service env).machine.run (Prog.Service.started w) happenings = some site)
    {payload : JobPayload} (hpayload : Outstanding site payload)
    (hprobe : KafkaRuntime.isProbe payload = false) :
    ∃ row job partition, site.shared.repo.getJobExecution payload.executionId = some row ∧
      D.registry.get payload.jobId = .ok job ∧
      partition.partitionIndex = payload.partitionIndex ∧
      BullmqRuntime.handsOver env D.registry payload site.shared = some (row, job, {}) ∧
      KafkaRuntime.handsOver env D.registry payload site.shared = some (row, job, partition) := by
  have hstart : ∀ payload, Outstanding (Prog.Service.started w : SiteState α υ) payload →
      D.Genuine w payload := by
    intro payload hpayload
    rcases hpayload with hqueued | ⟨n, session, kept, hsession, -⟩
    · change payload ∈ w.queue at hqueued
      rw [hqueue] at hqueued
      cases hqueued
    · cases hsession
  have hboth : D.OnRecord site ∧
      ∀ payload, Outstanding site payload → D.Genuine site.shared payload :=
    Machine.run_keeps (P := fun t => D.OnRecord t ∧
        ∀ payload, Outstanding t payload → D.Genuine t.shared payload)
      (fun _ _ _ ht hstep => ⟨(ht.1.step hstep).1, ht.1.genuine_step ht.2 hstep⟩)
      ⟨D.onRecord_started h, hstart⟩ hrun
  obtain ⟨hfiles, job, hjob, hmem⟩ := hboth.2 payload hpayload
  obtain ⟨row, hrow⟩ := Option.isSome_iff_exists.mp hfiles
  have hlook : site.shared.repo.getJobExecution payload.executionId = some row := hrow
  obtain ⟨partition, hpartition, hindex⟩ := partitionArgs_of_mem hmem
  refine ⟨row, job, partition, hlook, hjob, hindex, ?_, ?_⟩
  · rw [BullmqRuntime.handsOver_eq, hlook, hjob]
  · rw [KafkaRuntime.handsOver_eq _ _ _ _ hprobe, hlook, hjob]
    dsimp only
    rw [hpartition]

theorem messages_handed_over_import :
    ∃ site payload, ((importSite .queued).service (willing [10, 20, 30])).machine.run
        (Prog.Service.started freshWorld) (launchAndDelivery.take 3) = some site ∧
      Outstanding site payload ∧
      ∃ row job partition, site.shared.repo.getJobExecution payload.executionId = some row ∧
        (importSite .queued).registry.get payload.jobId = .ok job ∧
        partition.partitionIndex = payload.partitionIndex ∧
        BullmqRuntime.handsOver (willing [10, 20, 30]) (importSite .queued).registry payload
          site.shared = some (row, job, {}) ∧
        KafkaRuntime.handsOver (willing [10, 20, 30]) (importSite .queued).registry payload
          site.shared = some (row, job, partition) := by
  have hqueue : (((importSite .queued).service (willing [10, 20, 30])).machine.run
      (Prog.Service.started freshWorld) (launchAndDelivery.take 3)).map (·.shared.queue) =
      some [payloadOf (splitJob 1) { executionId := "r", jobExecutionId := "r" } none] := by
    decide +kernel
  obtain ⟨site, hrun, hqueued⟩ := Option.map_eq_some_iff.mp hqueue
  have houtstanding : Outstanding site
      (payloadOf (splitJob 1) { executionId := "r", jobExecutionId := "r" } none) :=
    .inl (hqueued ▸ List.mem_singleton_self _)
  exact ⟨site, _, hrun, houtstanding, messages_handed_over (importSite .queued)
    (willing [10, 20, 30]) (InMemoryJobRepository.consistent_new _) rfl hrun houtstanding rfl⟩

end Deployment

end NestBatch
