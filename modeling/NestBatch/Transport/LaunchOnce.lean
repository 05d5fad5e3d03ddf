import NestBatch.Transport.ActiveExecutions
import NestBatch.Transport.SiteRecords

/-!
# Launches alone

Where nothing is restarted or stopped by hand, no job starts with a partitioned step
and no message is delivered twice, the guard of the launch is enough: at any time
each execution has one holder at most, the session that created it, its message,
or the worker that took the message, and only a holder marks an execution.
-/

namespace NestBatch

variable {α υ : Type}

/-- Launches, and deliveries of messages that are not delivered again. -/
def Request.isPlain : Request → Bool
  | .launch _ _ _ => true
  | .startNext _ _ => true
  | .deliver _ kept => !kept
  | _ => false

namespace Deployment

variable (D : Deployment)

/-- No registered job starts with a partitioned step. -/
def Unpartitioned : Prop := ∀ jobId job, D.registry.get jobId = .ok job → partitionCount job < 2

/-- What a launch holds: the execution that it has created, until it has sent its message. -/
def HoldsNew (calls : Calls α) (e : String) : Prop :=
  e ∈ launchedIds calls ∧ (D.strategy = .queued → messagesSent calls = [])

/-- What a session holds. -/
def Holds : Request → Calls α → String → Prop
  | .launch _ _ _, calls, e => D.HoldsNew calls e
  | .startNext _ _, calls, e => D.HoldsNew calls e
  | .deliver payload _, _, e => e = payload.executionId
  | _, _, _ => False

section Holding

variable {D} {request : Request} {calls : Calls α} {e : String}

theorem not_holds_nil (h : request.isPlain = true)
    (hnot : ∀ payload kept, request ≠ .deliver payload kept) :
    ¬ D.Holds request ([] : Calls α) e := by
  cases request with
  | launch => exact fun hholds => by cases hholds.1
  | startNext => exact fun hholds => by cases hholds.1
  | deliver payload kept => exact absurd rfl (hnot payload kept)
  | _ => exact id

theorem HoldsNew.of_snoc {c : Prog.Call (Op α) Op.Resp} (h : D.HoldsNew (calls ++ [c]) e) :
    D.HoldsNew calls e ∨ launchedBy c = some e := by
  obtain ⟨hmem, hsent⟩ := h
  rw [launchedIds_snoc] at hmem
  rcases List.mem_append.mp hmem with hold | hnew
  · refine .inl ⟨hold, fun hqueued => ?_⟩
    have hnone := hsent hqueued
    rw [messagesSent_snoc] at hnone
    exact (List.append_eq_nil_iff.mp hnone).1
  · exact .inr (Option.mem_toList.mp hnew)

/-- A session comes to hold an execution only by creating it. -/
theorem holds_of_snoc {c : Prog.Call (Op α) Op.Resp} (h : D.Holds request (calls ++ [c]) e) :
    D.Holds request calls e ∨ launchedBy c = some e := by
  cases request with
  | launch => exact HoldsNew.of_snoc h
  | startNext => exact HoldsNew.of_snoc h
  | deliver => exact .inl h
  | _ => exact h.elim

/-- A session keeps what it holds, unless it sends a message. -/
theorem holds_snoc {c : Prog.Call (Op α) Op.Resp} (h : D.Holds request calls e)
    (hsent : messageSent c = none) : D.Holds request (calls ++ [c]) e := by
  have hnew (h : D.HoldsNew calls e) : D.HoldsNew (calls ++ [c]) e := by
    refine ⟨mem_launchedIds_snoc h.1 c, fun hqueued => ?_⟩
    rw [messagesSent_snoc, h.2 hqueued, hsent]
    rfl
  cases request with
  | launch => exact hnew h
  | startNext => exact hnew h
  | deliver => exact h
  | _ => exact h

/-- Only a holder marks an execution, and it does so as a run. -/
theorem holds_of_marks (hplain : request.isPlain = true) {patch : JobExecutionPatch}
    (h : (D.permit request).marks calls e patch) :
    D.Holds request calls e ∧ RunMark e calls patch := by
  cases request with
  | launch => exact ⟨⟨h.2.1, fun hqueued => absurd hqueued h.1⟩, h.2.2⟩
  | startNext => exact ⟨⟨h.2.1, fun hqueued => absurd hqueued h.1⟩, h.2.2⟩
  | deliver => exact ⟨h.1, h.1 ▸ h.2.1⟩
  | _ => cases hplain

/-- A launch that sends a message gives up what it holds. -/
theorem holds_of_sends (hunpartitioned : D.Unpartitioned) {payload : JobPayload}
    (h : (D.permit request).sends calls payload) :
    D.strategy = .queued ∧ D.Holds request calls payload.executionId ∧
      ∀ r e, ¬ D.Holds request (calls ++ [⟨.enqueue payload, .ok r⟩]) e := by
  have hlaunch {jobId : String} (h : (D.launchPermit jobId).sends calls payload) :
      D.strategy = .queued ∧ D.HoldsNew calls payload.executionId ∧
        ∀ r e, ¬ D.HoldsNew (calls ++ [⟨.enqueue payload, .ok r⟩]) e := by
    obtain ⟨hqueued, e, job, hlaunched, hjob, hprefix⟩ := h
    have hone : ¬ partitionCount job ≥ 2 := Int.not_le.mpr (hunpartitioned jobId job hjob)
    rw [Transport.payloads_eq] at hprefix
    unfold BullmqRuntime.payloads BullmqRuntime.partitionOrdinals at hprefix
    rw [if_neg hone, List.map_singleton] at hprefix
    have hlength := hprefix.length_le
    rw [List.length_append, List.length_singleton, List.length_singleton] at hlength
    have hnone : messagesSent calls = [] := List.eq_nil_of_length_eq_zero (by omega)
    have hmem := hprefix.subset (List.mem_append_right _ (List.mem_singleton_self payload))
    obtain rfl := List.mem_singleton.mp hmem
    refine ⟨hqueued, ⟨hlaunched, fun _ => hnone⟩, fun r e' hholds => ?_⟩
    have hsent := hholds.2 hqueued
    rw [messagesSent_snoc] at hsent
    exact List.cons_ne_nil _ _ (List.append_eq_nil_iff.mp hsent).2
  cases request with
  | launch => exact hlaunch h
  | startNext => exact hlaunch h
  | _ => exact h.elim

end Holding

/-! ### One holder -/

/-- The messages of an execution in the queue. -/
def messagesFor (w : World υ) (e : String) : List JobPayload :=
  w.queue.filter fun payload => payload.executionId = e

/-- The row of the execution is STARTING. -/
def IsStarting (w : World υ) (e : String) : Prop :=
  ∃ row, w.repo.executions.get? e = some row ∧ row.status = .STARTING

/-- `e` has one holder at most, a session or a message; until a holder has written, its row is
STARTING. -/
structure Sole (site : SiteState α υ) (e : String) : Prop where
  oneSession : ∀ (m n : Nat) (s t : SiteSession α), site.sessions[m]? = some s →
    site.sessions[n]? = some t → D.Holds s.request s.calls e → D.Holds t.request t.calls e → m = n
  oneMessage : (messagesFor site.shared e).length ≤ 1
  notBoth : ∀ (n : Nat) (s : SiteSession α), site.sessions[n]? = some s →
    D.Holds s.request s.calls e → messagesFor site.shared e = []
  messagePending : messagesFor site.shared e ≠ [] → IsStarting site.shared e
  sessionPending : ∀ (n : Nat) (s : SiteSession α), site.sessions[n]? = some s →
    D.Holds s.request s.calls e → jobWrites e s.calls = [] → IsStarting site.shared e
  files : ∀ (n : Nat) (s : SiteSession α), site.sessions[n]? = some s →
    D.Holds s.request s.calls e → site.shared.Files e

section Sole

variable {D} {site : SiteState α υ} {e : String}

/-- An execution that is starting is on file. -/
theorem IsStarting.files {w : World υ} (h : IsStarting w e) : w.Files e := by
  obtain ⟨row, hrow, -⟩ := h
  exact Option.isSome_of_eq_some hrow

/-- An execution that is not on file has no holder. -/
theorem Sole.unheld (h : D.Sole site e) (hfile : ¬ site.shared.Files e) :
    (∀ (n : Nat) (s : SiteSession α), site.sessions[n]? = some s →
      ¬ D.Holds s.request s.calls e) ∧ messagesFor site.shared e = [] := by
  refine ⟨fun n s hs hholds => hfile (h.files n s hs hholds), ?_⟩
  by_contra hne
  exact hfile (h.messagePending hne).files

/-- Changes that do not concern `e`. -/
theorem Sole.of_kept {site' : SiteState α υ} (h : D.Sole site e)
    (hsessions : ∀ (m : Nat) (t : SiteSession α), site'.sessions[m]? = some t →
      D.Holds t.request t.calls e → ∃ s, site.sessions[m]? = some s ∧
        D.Holds s.request s.calls e ∧ (jobWrites e t.calls = [] → jobWrites e s.calls = []))
    (hmessages : messagesFor site'.shared e = messagesFor site.shared e)
    (hrow : site'.shared.repo.executions.get? e = site.shared.repo.executions.get? e) :
    D.Sole site' e := by
  have hstarting (h : IsStarting site.shared e) : IsStarting site'.shared e := by
    obtain ⟨row, hget, hstatus⟩ := h
    exact ⟨row, hrow.trans hget, hstatus⟩
  constructor
  · intro m n s t hs ht hholds hholds'
    obtain ⟨s₀, hs₀, hholds₀, -⟩ := hsessions m s hs hholds
    obtain ⟨t₀, ht₀, hholds₁, -⟩ := hsessions n t ht hholds'
    exact h.oneSession m n s₀ t₀ hs₀ ht₀ hholds₀ hholds₁
  · rw [hmessages]
    exact h.oneMessage
  · intro n s hs hholds
    obtain ⟨s₀, hs₀, hholds₀, -⟩ := hsessions n s hs hholds
    rw [hmessages]
    exact h.notBoth n s₀ hs₀ hholds₀
  · intro hne
    rw [hmessages] at hne
    exact hstarting (h.messagePending hne)
  · intro n s hs hholds hwrites
    obtain ⟨s₀, hs₀, hholds₀, hwrites₀⟩ := hsessions n s hs hholds
    exact hstarting (h.sessionPending n s₀ hs₀ hholds₀ (hwrites₀ hwrites))
  · intro n s hs hholds
    obtain ⟨s₀, hs₀, hholds₀, -⟩ := hsessions n s hs hholds
    unfold World.Files
    rw [hrow]
    exact h.files n s₀ hs₀ hholds₀

end Sole

/-- Launches alone: every session is plain, every execution has one holder at most, what a session
drives it holds, and a launch that only enqueues writes nothing. -/
structure Single (site : SiteState α υ) : Prop where
  record : D.OnRecord site
  plain : ∀ (n : Nat) (s : SiteSession α), site.sessions[n]? = some s → s.request.isPlain = true
  sole : ∀ e, D.Sole site e
  drives : ∀ (n : Nat) (s : SiteSession α) (e : String), site.sessions[n]? = some s →
    drivenBy s.calls = some e → D.Holds s.request s.calls e
  silent : D.strategy = .queued → ∀ (n : Nat) (s : SiteSession α) (e : String),
    site.sessions[n]? = some s → (∀ payload kept, s.request ≠ .deliver payload kept) →
      jobWrites e s.calls = []
  oneActive : site.shared.repo.OneActive

/-- A single site is exclusive. -/
theorem Single.exclusive {D : Deployment} {site : SiteState α υ} (h : D.Single site) :
    Exclusive site where
  oneActive := h.oneActive
  oneDriver m n s t e hs ht hds hdt :=
    (h.sole e).oneSession m n s t hs ht (h.drives m s e hs hds.2) (h.drives n t e ht hdt.2)

/-! ### One operation -/

section Acting

variable {D} {env : Environment α υ} {site : SiteState α υ} {n : Nat} {s : SiteSession α} {o : Op α}
  {k : o.Resp → Code α Unit} {e : String}

/-- A call adds the message it sends, if that is for the execution. -/
theorem messagesFor_after (env : Environment α υ) (o : Op α) (w : World υ) (e : String) :
    messagesFor (handle env o w).2 e = messagesFor w e ++
      (messageSent ⟨o, (handle env o w).1⟩).toList.filter fun p => p.executionId = e := by
  unfold messagesFor
  rw [queue_after, List.filter_append]

/-- A call that sends nothing keeps the messages. -/
theorem messagesFor_after_none {w : World υ} (hsent : messageSent ⟨o, (handle env o w).1⟩ = none)
    (e : String) : messagesFor (handle env o w).2 e = messagesFor w e := by
  rw [messagesFor_after, hsent]
  exact List.append_nil _

/-- An operation that does not concern `e`. -/
theorem Sole.act (h : D.Sole site e) (hs : site.sessions[n]? = some s)
    (hnew : launchedBy ⟨o, (handle env o site.shared).1⟩ ≠ some e)
    (hmessages : messagesFor (handle env o site.shared).2 e = messagesFor site.shared e)
    (hrow : (handle env o site.shared).2.repo.executions.get? e =
      site.shared.repo.executions.get? e) :
    D.Sole ((D.service env).after site n s o k) e := by
  refine h.of_kept (fun m t ht hholds => ?_) hmessages hrow
  rcases Prog.Service.after_cases hs ht with ⟨hm, hself⟩ | ⟨-, hold⟩
  · subst hm hself
    refine ⟨s, hs, (holds_of_snoc hholds).resolve_right hnew, fun hwrites => ?_⟩
    rw [jobWrites_snoc] at hwrites
    exact (List.append_eq_nil_iff.mp hwrites).1
  · exact ⟨t, hold, hholds, id⟩

/-- A launch creates an execution: the session is its one holder. -/
theorem Sole.create (h : D.Sole site e) (hs : site.sessions[n]? = some s)
    (hfresh : ¬ site.shared.Files e) (hstarting : IsStarting (handle env o site.shared).2 e)
    (hsent : messageSent ⟨o, (handle env o site.shared).1⟩ = none) :
    D.Sole ((D.service env).after site n s o k) e := by
  obtain ⟨hsessions, hmessages⟩ := h.unheld hfresh
  have hnone : messagesFor (handle env o site.shared).2 e = [] :=
    (messagesFor_after_none hsent e).trans hmessages
  have honly {m : Nat} {t : SiteSession α}
      (ht : ((D.service env).after site n s o k).sessions[m]? = some t)
      (hholds : D.Holds t.request t.calls e) : m = n := by
    rcases Prog.Service.after_cases hs ht with ⟨hm, -⟩ | ⟨-, hold⟩
    · exact hm
    · exact absurd hholds (hsessions m t hold)
  constructor
  · exact fun m m' t t' ht ht' hholds hholds' => (honly ht hholds).trans (honly ht' hholds').symm
  · change (messagesFor (handle env o site.shared).2 e).length ≤ 1
    rw [hnone]
    exact Nat.zero_le _
  · exact fun _ _ _ _ => hnone
  · exact fun hne => absurd hnone hne
  · exact fun _ _ _ _ _ => hstarting
  · exact fun _ _ _ _ => hstarting.files

/-- The holder of an execution writes its row. -/
theorem Sole.mark (h : D.Sole site e) (hs : site.sessions[n]? = some s)
    (hholds : D.Holds s.request s.calls e) {patch : JobExecutionPatch}
    {k : Except Thrown Unit → Code α Unit} :
    D.Sole ((D.service env).after site n s (.updateJobExecution e patch) k) e := by
  have hnone : messagesFor (handle env (.updateJobExecution e patch : Op α) site.shared).2 e = [] :=
    (messagesFor_after_none rfl e).trans (h.notBoth n s hs hholds)
  have hback {m : Nat} {t : SiteSession α}
      (ht : ((D.service env).after site n s (.updateJobExecution e patch) k).sessions[m]? = some t)
      (hholds' : D.Holds t.request t.calls e) : m = n := by
    rcases Prog.Service.after_cases hs ht with ⟨hm, -⟩ | ⟨-, hold⟩
    · exact hm
    · exact h.oneSession m n t s hold hs hholds' hholds
  have hfiles : (handle env (.updateJobExecution e patch : Op α) site.shared).2.Files e := by
    obtain ⟨row, hrow⟩ := Option.isSome_iff_exists.mp (h.files n s hs hholds)
    exact Option.isSome_of_eq_some
      ((InMemoryJobRepository.get?_updateJobExecution hrow patch e).trans (if_pos rfl))
  constructor
  · exact fun m m' t t' ht ht' hh hh' => (hback ht hh).trans (hback ht' hh').symm
  · change (messagesFor (handle env (.updateJobExecution e patch) site.shared).2 e).length ≤ 1
    rw [hnone]
    exact Nat.zero_le _
  · exact fun _ _ _ _ => hnone
  · exact fun hne => absurd hnone hne
  · intro m t ht hh hwrites
    obtain rfl := hback ht hh
    cases (Prog.Service.after_self hs).symm.trans ht
    rw [jobWrites_snoc] at hwrites
    have hlast := (List.append_eq_nil_iff.mp hwrites).2
    simp [jobWrite?] at hlast
  · exact fun _ _ _ _ => hfiles

/-- The holder of an execution sends its message. -/
theorem Sole.send (h : D.Sole site e) (hs : site.sessions[n]? = some s)
    (hholds : D.Holds s.request s.calls e) (hwrites : jobWrites e s.calls = [])
    {payload : JobPayload} (hfor : payload.executionId = e)
    {k : Except Thrown String → Code α Unit} {queueJobId : String}
    (hanswer : (handle env (.enqueue payload : Op α) site.shared).1 = .ok queueJobId)
    (hgone : ¬ D.Holds s.request (s.calls ++ [⟨.enqueue payload, .ok queueJobId⟩]) e) :
    D.Sole ((D.service env).after site n s (.enqueue payload) k) e := by
  have hmessages : messagesFor (handle env (.enqueue payload : Op α) site.shared).2 e =
      [payload] := by
    rw [messagesFor_after, h.notBoth n s hs hholds, hanswer]
    simp [messageSent, hfor]
  have hexecutions : (handle env (.enqueue payload : Op α) site.shared).2.repo.executions =
      site.shared.repo.executions := handle_executions env (by simp [Op.kind]) (by simp [Op.kind]) _
  have hstarting : IsStarting (handle env (.enqueue payload : Op α) site.shared).2 e := by
    unfold IsStarting
    rw [hexecutions]
    exact h.sessionPending n s hs hholds hwrites
  have hnobody {m : Nat} {t : SiteSession α}
      (ht : ((D.service env).after site n s (.enqueue payload) k).sessions[m]? = some t) :
      ¬ D.Holds t.request t.calls e := by
    intro hh
    rcases Prog.Service.after_cases hs ht with ⟨-, hself⟩ | ⟨hm, hold⟩
    · subst hself
      refine hgone ?_
      rw [← hanswer]
      exact hh
    · exact hm (h.oneSession m n t s hold hs hh hholds)
  constructor
  · exact fun m m' t t' ht _ hh _ => absurd hh (hnobody ht)
  · change (messagesFor (handle env (.enqueue payload : Op α) site.shared).2 e).length ≤ 1
    rw [hmessages]
    exact Nat.le_refl _
  · exact fun m t ht hh => absurd hh (hnobody ht)
  · exact fun _ => hstarting
  · exact fun m t ht hh => absurd hh (hnobody ht)
  · exact fun m t ht hh => absurd hh (hnobody ht)

end Acting

/-! ### One arrival -/

section Coming

variable {D} {env : Environment α υ} {site : SiteState α υ} {request : Request} {w : World υ}
  {e : String}

/-- A session that comes in and does not hold `e`. -/
theorem Sole.come (h : D.Sole site e) (hrepo : w.repo = site.shared.repo)
    (hmessages : messagesFor w e = messagesFor site.shared e)
    (hnot : ¬ D.Holds request ([] : Calls α) e) :
    D.Sole ({ shared := w, sessions := site.sessions ++ [(D.service env).opened request] } :
      SiteState α υ) e := by
  refine h.of_kept (fun m t ht hholds => ?_) hmessages (by rw [hrepo])
  rcases Prog.Service.come_cases ht with hold | ⟨-, hself⟩
  · exact ⟨t, hold, hholds, id⟩
  · subst hself
    exact absurd hholds hnot

/-- A worker takes the message of an execution: it is its one holder. -/
theorem Sole.deliver (h : D.Sole site e) (hrepo : w.repo = site.shared.repo)
    (hmessages : messagesFor site.shared e ≠ []) (hnone : messagesFor w e = []) :
    D.Sole ({ shared := w, sessions := site.sessions ++ [(D.service env).opened request] } :
      SiteState α υ) e := by
  have honly {m : Nat} {t : SiteSession α}
      (ht : (site.sessions ++ [(D.service env).opened request])[m]? = some t)
      (hholds : D.Holds t.request t.calls e) : m = site.sessions.length := by
    rcases Prog.Service.come_cases ht with hold | ⟨hm, -⟩
    · exact absurd (h.notBoth m t hold hholds) hmessages
    · exact hm
  have hstarting : IsStarting w e := by
    unfold IsStarting
    rw [hrepo]
    exact h.messagePending hmessages
  constructor
  · exact fun m m' t t' ht ht' hh hh' => (honly ht hh).trans (honly ht' hh').symm
  · change (messagesFor w e).length ≤ 1
    rw [hnone]
    exact Nat.zero_le _
  · exact fun _ _ _ _ => hnone
  · exact fun hne => absurd hnone hne
  · exact fun _ _ _ _ _ => hstarting
  · exact fun _ _ _ _ => hstarting.files

/-- Taking a message away, seen from its execution and from the others. -/
theorem messagesFor_erase {queue : List JobPayload} {payload : JobPayload} (hmem : payload ∈ queue)
    (hone : (queue.filter fun p => p.executionId = payload.executionId).length ≤ 1) :
    ((queue.erase payload).filter fun p => p.executionId = payload.executionId) = [] ∧
      ∀ e, payload.executionId ≠ e → ((queue.erase payload).filter fun p => p.executionId = e) =
        queue.filter fun p => p.executionId = e := by
  obtain ⟨before, after, hnot, hqueue, herase⟩ := List.exists_erase_eq hmem
  rw [herase, hqueue]
  rw [hqueue, List.filter_append, List.filter_cons_of_pos (by simp), List.length_append,
    List.length_cons] at hone
  constructor
  · rw [List.filter_append]
    refine List.append_eq_nil_iff.mpr ⟨?_, ?_⟩
    · exact List.eq_nil_of_length_eq_zero (by omega)
    · exact List.eq_nil_of_length_eq_zero (by omega)
  · intro e hne
    rw [List.filter_append, List.filter_append, List.filter_cons_of_neg (by simpa using hne)]

end Coming

/-! ### Every interleaving -/

/-- What is driven has been written. -/
theorem jobWrites_of_driven {calls : Calls α} {e : String} (h : drivenBy calls = some e) :
    jobWrites e calls ≠ [] := by
  induction calls using List.reverseRecOn with
  | nil => cases h
  | append_singleton calls c ih =>
      obtain ⟨o, r⟩ := c
      rw [jobWrites_snoc]
      intro hnone
      obtain ⟨hbefore, hlast⟩ := List.append_eq_nil_iff.mp hnone
      rcases drivenBy_of_snoc h with hmark | hold
      · cases o with
        | updateJobExecution id patch =>
            have hid : id = e := by
              cases r with
              | error err => cases hmark
              | ok u =>
                  simp only [startedBy] at hmark
                  split at hmark
                  · exact Option.some.inj hmark
                  · cases hmark
            simp [jobWrite?, hid] at hlast
        | _ => cases hmark
      · exact ih hold hbefore

section Steps

variable {D} {env : Environment α υ} {site site' : SiteState α υ} {n : Nat} {s : SiteSession α}
  {o : Op α} {k : o.Resp → Code α Unit}

/-- The permit of the next operation of a session. -/
theorem Single.guard (h : D.Single site) (hs : site.sessions[n]? = some s)
    (hop : s.rest = .op o k) : (D.permit s.request).Allows s.calls o :=
  h.record.orderly.guard hs hop

/-- What a session drives it still holds after an operation, and a launch that only enqueues has
still written nothing. -/
theorem Single.act (h : D.Single site) (hunpartitioned : D.Unpartitioned)
    (hs : site.sessions[n]? = some s) (hop : s.rest = .op o k)
    (hstep : (D.service env).machine.step site (.act n) =
      some ((D.service env).after site n s o k))
    (hsole : ∀ e, D.Sole ((D.service env).after site n s o k) e)
    (hone : (handle env o site.shared).2.repo.OneActive) :
    D.Single ((D.service env).after site n s o k) where
  record := (h.record.step hstep).1
  plain m t ht := by
    rcases Prog.Service.after_cases hs ht with ⟨-, rfl⟩ | ⟨-, hold⟩
    · exact h.plain n s hs
    · exact h.plain m t hold
  sole := hsole
  drives m t e ht hdriven := by
    rcases Prog.Service.after_cases hs ht with ⟨-, rfl⟩ | ⟨-, hold⟩
    · rcases drivenBy_of_snoc hdriven with hmark | hbefore
      · obtain ⟨patch, rfl, -, -⟩ := startedBy_handle hmark
        exact holds_snoc (holds_of_marks (h.plain n s hs) (h.guard hs hop)).1 rfl
      · cases hsent : messageSent ⟨o, (handle env o site.shared).1⟩ with
        | none => exact holds_snoc (h.drives n s e hs hbefore) hsent
        | some payload =>
            cases o with
            | enqueue sent =>
                have hsends : (D.permit s.request).sends s.calls sent := h.guard hs hop
                have hlaunch : ∀ payload kept, s.request ≠ .deliver payload kept := by
                  intro payload kept heq
                  rw [heq] at hsends
                  exact hsends
                have hqueued := (holds_of_sends hunpartitioned hsends).1
                exact absurd (h.silent hqueued n s e hs hlaunch) (jobWrites_of_driven hbefore)
            | _ => cases hsent
    · exact h.drives m t e hold hdriven
  silent hqueued m t e ht hlaunch := by
    rcases Prog.Service.after_cases hs ht with ⟨-, rfl⟩ | ⟨-, hold⟩
    · rw [jobWrites_snoc, h.silent hqueued n s e hs hlaunch]
      cases o with
      | updateJobExecution id patch =>
          have hmarks : (D.permit s.request).marks s.calls id patch := h.guard hs hop
          have hplain := h.plain n s hs
          cases hrequest : s.request with
          | launch =>
              rw [hrequest] at hmarks
              exact absurd hqueued hmarks.1
          | startNext =>
              rw [hrequest] at hmarks
              exact absurd hqueued hmarks.1
          | deliver payload kept => exact absurd hrequest (hlaunch payload kept)
          | _ =>
              rw [hrequest] at hplain
              cases hplain
      | _ => rfl
    · exact h.silent hqueued m t e hold hlaunch
  oneActive := hone

/-- An execution is created. -/
theorem Single.create_sole (h : D.Single site) (hs : site.sessions[n]? = some s)
    {name jobKey : String} {params : JobParameters}
    {k : Except Thrown JobExecution → Code α Unit} (e : String) :
    D.Sole ((D.service env).after site n s (.createExecutionAtomic name jobKey params) k) e := by
  have hsent (r : Except Thrown JobExecution) :
      messageSent (⟨.createExecutionAtomic name jobKey params, r⟩ : Prog.Call (Op α) Op.Resp) =
        none := rfl
  rcases site.shared.repo.createExecutionAtomic_cases site.shared.clock name jobKey params with
    ⟨err, herr, hsame⟩ | ⟨row, hok, hstatus, hset, ⟨i, hi, hid⟩, -⟩
  · refine (h.sole e).act hs ?_ (messagesFor_after_none (hsent _) e) (congrArg (·.get? e) hsame)
    simp only [handle, herr, launchedBy]
    exact fun heq => by cases heq
  · by_cases he : e = row.id
    · subst he
      refine (h.sole row.id).create hs ?_ ⟨row, ?_, hstatus⟩ (hsent _)
      · intro hfiles
        obtain ⟨old, hold⟩ := Option.isSome_iff_exists.mp hfiles
        obtain ⟨j, hj, hid'⟩ := h.record.consistent.executionIssued row.id old hold
        have hsame := site.shared.repo.idGen.unique (hid.symm.trans hid')
        omega
      · simp only [handle, hset, JsMap.get?_set_self]
    · refine (h.sole e).act hs ?_ (messagesFor_after_none (hsent _) e) ?_
      · simp only [handle, hok, launchedBy]
        exact fun heq => he (Option.some.inj heq).symm
      · simp only [handle, hset]
        exact JsMap.get?_set_of_ne _ _ he

/-- The row of an execution is written. -/
theorem Single.mark_sole (h : D.Single site) (hs : site.sessions[n]? = some s) {id : String}
    {patch : JobExecutionPatch} {k : Except Thrown Unit → Code α Unit}
    (hop : s.rest = .op (.updateJobExecution id patch) k) (e : String) :
    D.Sole ((D.service env).after site n s (.updateJobExecution id patch) k) e := by
  by_cases he : e = id
  · subst he
    exact (h.sole e).mark hs (holds_of_marks (h.plain n s hs) (h.guard hs hop)).1
  · refine (h.sole e).act hs (fun heq => by cases heq) (messagesFor_after_none rfl e) ?_
    cases hrow : site.shared.repo.executions.get? id with
    | none =>
        have hsame := InMemoryJobRepository.updateJobExecution_none hrow patch
        exact congrArg (fun repo => repo.executions.get? e) hsame
    | some row =>
        exact (InMemoryJobRepository.get?_updateJobExecution hrow patch e).trans (if_neg he)

/-- A message is sent. -/
theorem Single.send_sole (h : D.Single site) (hunpartitioned : D.Unpartitioned)
    (hs : site.sessions[n]? = some s) {payload : JobPayload}
    {k : Except Thrown String → Code α Unit} (hop : s.rest = .op (.enqueue payload) k)
    (e : String) : D.Sole ((D.service env).after site n s (.enqueue payload) k) e := by
  have hsends : (D.permit s.request).sends s.calls payload := h.guard hs hop
  obtain ⟨hqueued, hholds, hgone⟩ := holds_of_sends hunpartitioned hsends
  have hlaunch : ∀ payload kept, s.request ≠ .deliver payload kept := by
    intro payload kept heq
    rw [heq] at hsends
    exact hsends
  have hexecutions : (handle env (.enqueue payload : Op α) site.shared).2.repo.executions =
      site.shared.repo.executions := handle_executions env (by simp [Op.kind]) (by simp [Op.kind]) _
  have hrow := congrArg (·.get? e) hexecutions
  cases hanswer : (handle env (.enqueue payload : Op α) site.shared).1 with
  | error err =>
      refine (h.sole e).act hs (fun heq => by cases heq) (messagesFor_after_none ?_ e) hrow
      rw [hanswer]
      rfl
  | ok queueJobId =>
      by_cases he : payload.executionId = e
      · subst he
        exact (h.sole _).send hs hholds (h.silent hqueued n s _ hs hlaunch) rfl hanswer
          (hgone queueJobId _)
      · refine (h.sole e).act hs (fun heq => by cases heq) ?_ hrow
        rw [messagesFor_after, hanswer]
        simp [messageSent, he]

/-- A mark is made of an execution that is STARTING. -/
theorem Single.isStarting_of_mark (h : D.Single site) (hs : site.sessions[n]? = some s) {e : String}
    {patch : JobExecutionPatch} (hmarks : (D.permit s.request).marks s.calls e patch)
    (hpatch : patch.status = some .STARTED) : IsStarting site.shared e := by
  obtain ⟨hholds, hmark⟩ := holds_of_marks (h.plain n s hs) hmarks
  rcases hmark with ⟨-, hwrites⟩ | hfailed | hcompleted
  · exact (h.sole e).sessionPending n s hs hholds hwrites
  · rw [hpatch] at hfailed
    cases hfailed
  · rw [hpatch] at hcompleted
    cases hcompleted

/-- Every act keeps executions single where no job is partitioned. -/
theorem Single.step_act (h : D.Single site) (hunpartitioned : D.Unpartitioned)
    (hs : site.sessions[n]? = some s) (hop : s.rest = .op o k)
    (hstep : (D.service env).machine.step site (.act n) =
      some ((D.service env).after site n s o k)) :
    D.Single ((D.service env).after site n s o k) := by
  cases hkind : decide (o.kind ∈ [OpKind.createExecution, .updateJob, .enqueue]) with
  | false =>
      have hother := of_decide_eq_false hkind
      have hne {kind : OpKind} (hmem : kind ∈ [OpKind.createExecution, .updateJob, .enqueue]) :
          o.kind ≠ kind := fun heq => hother (heq ▸ hmem)
      have hexecutions := handle_executions env (hne (by decide)) (hne (by decide)) site.shared
      refine h.act hunpartitioned hs hop hstep (fun e => ?_) (h.oneActive.of_same hexecutions)
      refine (h.sole e).act hs ?_ (messagesFor_after_none
        (messageSent_of_kind (hne (by decide)) _) e) (congrArg (·.get? e) hexecutions)
      rw [launchedBy_of_kind (hne (by decide))]
      exact fun heq => by cases heq
  | true =>
      cases o with
      | createExecutionAtomic name jobKey params =>
          exact h.act hunpartitioned hs hop hstep (h.create_sole hs)
            (h.oneActive.create site.shared.clock name jobKey params)
      | enqueue payload =>
          exact h.act hunpartitioned hs hop hstep (h.send_sole hunpartitioned hs hop)
            (h.oneActive.of_same (handle_executions env (by simp [Op.kind]) (by simp [Op.kind]) _))
      | updateJobExecution e patch =>
          refine h.act hunpartitioned hs hop hstep (h.mark_sole hs hop) ?_
          have hguard := h.guard hs hop
          obtain ⟨status, hpatch, hblocks⟩ := status_of_allows hguard
          refine h.oneActive.update hpatch fun hactive => ?_
          rw [hblocks hactive] at hpatch
          obtain ⟨row, hrow, hstatus⟩ := h.isStarting_of_mark hs hguard hpatch
          refine h.oneActive.uncontested hrow ?_
          rw [hstatus]
          rfl
      | user call => cases call <;> cases hkind
      | _ => cases hkind

/-- Every plain arrival keeps executions single. -/
theorem Single.step_come (h : D.Single site) {request : Request} {w : World υ}
    (hplain : request.isPlain = true) (harrive : arrive request site.shared = some w)
    (hstep : (D.service env).machine.step site (.come request) =
      some { shared := w, sessions := site.sessions ++ [(D.service env).opened request] }) :
    D.Single ({ shared := w, sessions := site.sessions ++ [(D.service env).opened request] } :
      SiteState α υ) where
  record := (h.record.step hstep).1
  plain m t ht := by
    rcases Prog.Service.come_cases ht with hold | ⟨-, rfl⟩
    · exact h.plain m t hold
    · exact hplain
  sole e := by
    have hrepo := (arrive_eq_some harrive).2
    have hlaunch (hnot : ∀ payload kept, request ≠ .deliver payload kept)
        (hsame : w = site.shared) :
        D.Sole ({ shared := w, sessions := site.sessions ++ [(D.service env).opened request] } :
          SiteState α υ) e := by
      subst hsame
      exact (h.sole e).come rfl rfl (not_holds_nil hplain hnot)
    cases request with
    | launch => exact hlaunch (fun _ _ heq => by cases heq) (Option.some.inj harrive).symm
    | startNext => exact hlaunch (fun _ _ heq => by cases heq) (Option.some.inj harrive).symm
    | deliver payload kept =>
        cases kept with
        | true => cases hplain
        | false =>
            simp only [arrive] at harrive
            split at harrive
            · next hmem =>
                cases harrive
                have hone := (h.sole payload.executionId).oneMessage
                obtain ⟨hgone, hothers⟩ := messagesFor_erase hmem hone
                by_cases he : payload.executionId = e
                · subst he
                  have hsome : messagesFor site.shared payload.executionId ≠ [] :=
                    List.ne_nil_of_mem (List.mem_filter.mpr ⟨hmem, by simp⟩)
                  exact (h.sole _).deliver rfl hsome hgone
                · exact (h.sole e).come rfl (hothers e he) fun heq => he heq.symm
            · cases harrive
    | _ => cases hplain
  drives m t e ht hdriven := by
    rcases Prog.Service.come_cases ht with hold | ⟨-, rfl⟩
    · exact h.drives m t e hold hdriven
    · cases hdriven
  silent hqueued m t e ht hlaunch := by
    rcases Prog.Service.come_cases ht with hold | ⟨-, rfl⟩
    · exact h.silent hqueued m t e hold hlaunch
    · rfl
  oneActive := by
    rw [(arrive_eq_some harrive).2]
    exact h.oneActive

/-- Launches and deliveries keep a site single. -/
theorem Single.step (h : D.Single site) (hunpartitioned : D.Unpartitioned)
    {happening : Prog.Happening Request}
    (hplain : ∀ request, happening = .come request → request.isPlain = true)
    (hstep : (D.service env).machine.step site happening = some site') : D.Single site' := by
  cases happening with
  | come request =>
      obtain ⟨w, harrive, rfl⟩ := Prog.Service.step_come hstep
      exact h.step_come (hplain request rfl) harrive hstep
  | act n =>
      obtain ⟨s, o, k, hs, hop, rfl⟩ := Prog.Service.step_act hstep
      exact h.step_act hunpartitioned hs hop hstep

end Steps

theorem single_started {w : World υ} (h : w.repo.Consistent) (hone : w.repo.OneActive)
    (hqueue : w.queue = []) : D.Single (Prog.Service.started w : SiteState α υ) where
  record := D.onRecord_started h
  plain _ _ hs := by cases hs
  sole e := by
    have hnone : messagesFor w e = [] := by
      unfold messagesFor
      rw [hqueue]
      rfl
    refine ⟨fun _ _ _ _ hs => (by cases hs), ?_, fun _ _ hs => (by cases hs),
      fun hne => absurd hnone hne, fun _ _ hs => (by cases hs), fun _ _ hs => (by cases hs)⟩
    change (messagesFor w e).length ≤ 1
    rw [hnone]
    exact Nat.zero_le _
  drives _ _ _ hs := by cases hs
  silent _ _ _ _ hs := by cases hs
  oneActive := hone

/-- **Launches alone keep one run of an instance at a time**: in any interleaving of launches and
deliveries, without a partitioned start and without a message delivered twice, the site is
exclusive, and an execution is marked STARTED only while it is STARTING. -/
theorem launches_exclusive (env : Environment α υ) (hunpartitioned : D.Unpartitioned) {w : World υ}
    (h : w.repo.Consistent) (hone : w.repo.OneActive) (hqueue : w.queue = [])
    {happenings : List (Prog.Happening Request)}
    (hplain : ∀ request, Prog.Happening.come request ∈ happenings → request.isPlain = true)
    {site : SiteState α υ}
    (hrun : (D.service env).machine.run (Prog.Service.started w) happenings = some site) :
    Exclusive site ∧ ∀ n e, Starting site n e → IsStarting site.shared e := by
  have htracks : (∀ request, Prog.Happening.come request ∈ happenings → request.isPlain = true) →
      D.Single site := by
    refine Machine.run_tracks (M := (D.service env).machine) (p := [])
      (T := fun taken site => (∀ request, Prog.Happening.come request ∈ taken →
        request.isPlain = true) → D.Single site) ?_ (fun _ => D.single_started h hone hqueue) hrun
    intro taken site₁ happening site₂ hbefore hstep htaken
    refine (hbefore fun request hmem => htaken request (List.mem_append_left _ hmem)).step
      hunpartitioned (fun request heq => htaken request ?_) hstep
    exact List.mem_append_right _ (List.mem_singleton.mpr heq.symm)
  have hsingle := htracks hplain
  refine ⟨hsingle.exclusive, fun n e hstarting => ?_⟩
  obtain ⟨s, patch, k, hs, hop, hpatch, -⟩ := hstarting
  exact hsingle.isStarting_of_mark hs (hsingle.guard hs hop) hpatch

theorem launches_exclusive_import :
    ∃ site, ((importSite .queued).service (willing [10, 20, 30])).machine.run
        (Prog.Service.started freshWorld) launchAndDelivery = some site ∧
      Exclusive site ∧ ∀ n e, Starting site n e → IsStarting site.shared e := by
  have hsome : (((importSite .queued).service (willing [10, 20, 30])).machine.run
      (Prog.Service.started freshWorld) launchAndDelivery).isSome = true := by decide +kernel
  obtain ⟨site, hrun⟩ := Option.isSome_iff_exists.mp hsome
  have hunpartitioned : (importSite .queued).Unpartitioned := by
    intro jobId job hjob
    rw [JobRegistry.get_only importJob_valid hjob]
    decide
  refine ⟨site, hrun, launches_exclusive (importSite .queued) (willing [10, 20, 30]) hunpartitioned
    (InMemoryJobRepository.consistent_new _) (InMemoryJobRepository.oneActive_new _) rfl ?_ hrun⟩
  intro request hmem
  simp only [launchAndDelivery, List.mem_cons, List.not_mem_nil, reduceCtorEq, false_or, or_false,
    Prog.Happening.come.injEq] at hmem
  rcases hmem with rfl | rfl
  · rfl
  · rfl

end Deployment

end NestBatch
