import NestBatch.Transport.ActiveExecutions
import NestBatch.Transport.SiteRecords

/-!
# Runs that are begun twice

The launcher lets one execution of an instance in at a time, and whatever is
begun first is free: its row is still STARTING, so no other execution of the
instance is under way and nobody has it in hand.  The executor does not look at
the row again when it begins.  So it is the later marks that count: a run begun
of an execution that was stopped, has ended or is being driven must find it free.
-/

namespace NestBatch

variable {α υ : Type}

/-- The execution has been marked, whatever has become of it since. -/
def InMemoryJobRepository.Begun (e : String) (repo : InMemoryJobRepository) : Prop :=
  ∃ row, repo.executions.get? e = some row ∧ row.status ≠ .STARTING

/-- The row of the execution is as its launch has filed it. -/
def InMemoryJobRepository.Unbegun (e : String) (repo : InMemoryJobRepository) : Prop :=
  ∃ row, repo.executions.get? e = some row ∧ row.status = .STARTING

/-- A run that has begun is not unbegun. -/
theorem InMemoryJobRepository.Begun.not_unbegun {e : String} {repo : InMemoryJobRepository}
    (h : repo.Begun e) : ¬ repo.Unbegun e := by
  intro hunbegun
  obtain ⟨row, hrow, hbegun⟩ := h
  obtain ⟨row', hrow', hstarting⟩ := hunbegun
  rw [Option.some.inj (hrow.symm.trans hrow')] at hbegun
  exact hbegun hstarting

/-- A happening begins a run only of an execution that is STARTING, or that is free. -/
def BeginsFreely (site : SiteState α υ) (happening : Prog.Happening Request) : Prop :=
  ∀ n e, happening = .act n → Starting site n e →
    site.shared.repo.Unbegun e ∨ FreeFor site n e

/-- What the sessions drive has been begun. -/
def DrivesBegun (site : SiteState α υ) : Prop :=
  ∀ (n : Nat) (session : SiteSession α) (e : String), site.sessions[n]? = some session →
    drivenBy session.calls = some e → site.shared.repo.Begun e

namespace Deployment

variable {D : Deployment} {env : Environment α υ}

section Steps

variable {site site' : SiteState α υ} {o : Op α} {e : String} {request : Request}
  {calls : Calls α}

/-- No session takes a mark back. -/
theorem begun_handle {w : World υ} (hconsistent : w.repo.Consistent)
    (hallows : (D.permit request).Allows calls o) (h : w.repo.Begun e) :
    (handle env o w).2.repo.Begun e := by
  obtain ⟨row, hrow, hbegun⟩ := h
  by_cases hcreate : o.kind = .createExecution
  · cases o with
    | createExecutionAtomic name jobKey params =>
        rcases w.repo.createExecutionAtomic_cases w.clock name jobKey params with
          ⟨err, -, hsame⟩ | ⟨new, -, -, hset, ⟨i, hi, hid⟩, -⟩
        · exact ⟨row, (congrArg (·.get? e) hsame).trans hrow, hbegun⟩
        · have hne : e ≠ new.id := by
            intro heq
            obtain ⟨j, hj, hid'⟩ := hconsistent.executionIssued e row hrow
            have hsame := w.repo.idGen.unique (hid.symm.trans (heq.symm.trans hid'))
            omega
          refine ⟨row, ?_, hbegun⟩
          change (w.repo.createExecutionAtomic w.clock name jobKey params).2.executions.get? e = _
          rw [hset, JsMap.get?_set_of_ne _ _ hne]
          exact hrow
    | user call => cases call <;> cases hcreate
    | _ => cases hcreate
  · by_cases hupdate : o.kind = .updateJob
    · cases o with
      | updateJobExecution id patch =>
          obtain ⟨status, hpatch, hblocks⟩ := status_of_allows (D := D) hallows
          change (w.repo.updateJobExecution id patch).2.Begun e
          cases hother : w.repo.executions.get? id with
          | none =>
              rw [InMemoryJobRepository.updateJobExecution_none hother]
              exact ⟨row, hrow, hbegun⟩
          | some other =>
              have hget := InMemoryJobRepository.get?_updateJobExecution hother patch e
              by_cases hid : e = id
              · rw [if_pos hid] at hget
                refine ⟨_, hget, ?_⟩
                rw [InMemoryJobRepository.applyTo_status hpatch]
                intro hstarting
                rw [hstarting] at hblocks
                cases hblocks rfl
              · rw [if_neg hid] at hget
                exact ⟨row, hget.trans hrow, hbegun⟩
      | user call => cases call <;> cases hupdate
      | _ => cases hupdate
    · exact ⟨row, (congrArg (·.get? e) (handle_executions env hcreate hupdate w)).trans hrow,
        hbegun⟩

/-- A mark begins the execution. -/
theorem begun_of_mark {w : World υ} (hmark : startedBy o (handle env o w).1 = some e) :
    (handle env o w).2.repo.Begun e := by
  obtain ⟨patch, rfl, hpatch, hfile⟩ := startedBy_handle hmark
  obtain ⟨row, hrow⟩ := Option.isSome_iff_exists.mp hfile
  have hget := InMemoryJobRepository.get?_updateJobExecution hrow patch e
  rw [if_pos rfl] at hget
  refine ⟨_, hget, ?_⟩
  rw [InMemoryJobRepository.applyTo_status hpatch]
  decide

/-- What the sessions drive stays begun. -/
theorem drivesBegun_step {happening : Prog.Happening Request} (hrecord : D.OnRecord site)
    (h : DrivesBegun site) (hstep : (D.service env).machine.step site happening = some site') :
    DrivesBegun site' := by
  cases happening with
  | come request =>
      obtain ⟨w, harrive, rfl⟩ := Prog.Service.step_come hstep
      intro m t e' ht hdriven
      change w.repo.Begun e'
      rw [(arrive_eq_some harrive).2]
      rcases Prog.Service.come_cases ht with hold | ⟨-, rfl⟩
      · exact h m t e' hold hdriven
      · cases hdriven
  | act n =>
      obtain ⟨session, o, k, hsession, hop, rfl⟩ := Prog.Service.step_act hstep
      have hallows := hrecord.orderly.guard hsession hop
      have hkept {e' : String} (hbegun : site.shared.repo.Begun e') :
          (handle env o site.shared).2.repo.Begun e' :=
        begun_handle hrecord.consistent hallows hbegun
      intro m t e' ht hdriven
      change (handle env o site.shared).2.repo.Begun e'
      rcases Prog.Service.after_cases hsession ht with ⟨-, rfl⟩ | ⟨-, hold⟩
      · rcases drivenBy_of_snoc hdriven with hmark | hdriven'
        · exact begun_of_mark hmark
        · exact hkept (h n session e' hsession hdriven')
      · exact hkept (h m t e' hold hdriven)

/-- What nobody has begun is free. -/
theorem freeFor_of_unbegun (h : DrivesBegun site) (hex : Exclusive site)
    (hunbegun : site.shared.repo.Unbegun e) (n : Nat) : FreeFor site n e := by
  obtain ⟨row, hrow, hstarting⟩ := hunbegun
  have hactive : row.status.blocksLaunch = true := by rw [hstarting]; rfl
  refine ⟨hex.oneActive.uncontested hrow hactive, ?_⟩
  intro m session _ hsession hdrives
  exact (h m session e hsession hdrives.2).not_unbegun ⟨row, hrow, hstarting⟩

/-- First marks are made freely. -/
theorem marksFreely_iff_beginsFreely (h : DrivesBegun site) (hex : Exclusive site)
    (happening : Prog.Happening Request) :
    MarksFreely site happening ↔ BeginsFreely site happening := by
  constructor
  · intro hmarks n e' heq hstarting
    exact .inr (hmarks n e' heq hstarting)
  · intro hbegins n e' heq hstarting
    rcases hbegins n e' heq hstarting with hunbegun | hfree
    · exact freeFor_of_unbegun h hex hunbegun n
    · exact hfree

end Steps

/-- **When no two runs overlap**, in any interleaving of launches, calls of the operator and
deliveries: exactly if every run that is begun of an execution which is no longer STARTING finds
it free. -/
theorem runs_apart_iff (D : Deployment) (env : Environment α υ) {w : World υ}
    (hconsistent : w.repo.Consistent) (hone : w.repo.OneActive)
    (happenings : List (Prog.Happening Request)) :
    (∀ before site, before <+: happenings →
      (D.service env).machine.run (Prog.Service.started w) before = some site → Exclusive site) ↔
    ∀ before happening site site', before ++ [happening] <+: happenings →
      (D.service env).machine.run (Prog.Service.started w) before = some site →
      (D.service env).machine.step site happening = some site' → BeginsFreely site happening := by
  have hstart : Exclusive (Prog.Service.started w : SiteState α υ) :=
    ⟨hone, fun _ _ _ _ _ hs => by cases hs⟩
  have hbegun : DrivesBegun (Prog.Service.started w : SiteState α υ) :=
    fun _ _ _ hs => by cases hs
  refine Machine.throughout_iff (I := fun site => D.OnRecord site ∧ DrivesBegun site) ?_ ?_
    ⟨D.onRecord_started hconsistent, hbegun⟩ hstart happenings
  · intro site happening site' h hstep
    exact ⟨(h.1.step hstep).1, drivesBegun_step h.1 h.2 hstep⟩
  · intro site happening site' h hex hstep
    rw [D.exclusive_step env h.1.orderly hex hstep]
    exact marksFreely_iff_beginsFreely h.2 hex happening

theorem runs_apart_iff_import :
    (∀ before site, before <+: launchAndDelivery →
      ((importSite .queued).service (willing [10, 20, 30])).machine.run
        (Prog.Service.started freshWorld) before = some site → Exclusive site) ↔
    ∀ before happening site site', before ++ [happening] <+: launchAndDelivery →
      ((importSite .queued).service (willing [10, 20, 30])).machine.run
        (Prog.Service.started freshWorld) before = some site →
      ((importSite .queued).service (willing [10, 20, 30])).machine.step site happening =
        some site' → BeginsFreely site happening :=
  runs_apart_iff _ _ (InMemoryJobRepository.consistent_new _)
    (InMemoryJobRepository.oneActive_new _) _

/-- A launch that has been begun is stopped, and restarted while it still runs. -/
def stoppedAndRestarted : List (Prog.Happening Request) :=
  .come (.launch "import" [] none) :: List.replicate 3 (.act 0) ++
    (.come (.stop "r") :: List.replicate 6 (.act 1)) ++
    (.come (.restart "r") :: List.replicate 7 (.act 2))

/-- A launch is stopped before it begins, and begins when the next launch has been let in. -/
def stoppedAndBegun : List (Prog.Happening Request) :=
  [.come (.launch "import" [] none), .act 0, .come (.stop "r")] ++ List.replicate 6 (.act 1) ++
    [.come (.launch "import" [] none), .act 2, .act 0, .act 0]

/-- The execution "r" is driven by its launch and by its restart; "r" and "rr" are under way for one
instance. -/
theorem runs_may_overlap :
    (∃ site, ((importSite .direct).service (willing [10, 20, 30])).machine.run
        (Prog.Service.started freshWorld) stoppedAndRestarted = some site ∧
      ∃ s t, site.sessions[0]? = some s ∧ site.sessions[2]? = some t ∧ Drives s "r" ∧
        Drives t "r") ∧
    ∃ site, ((importSite .direct).service (willing [10, 20, 30])).machine.run
        (Prog.Service.started freshWorld) stoppedAndBegun = some site ∧
      ¬ site.shared.repo.OneActive := by
  constructor
  · have hdriven : (((importSite .direct).service (willing [10, 20, 30])).machine.run
        (Prog.Service.started freshWorld) stoppedAndRestarted).map
          (fun site => [0, 2].map fun n =>
            (site.sessions[n]?).map fun t => (t.ended, drivenBy t.calls)) =
        some [some (false, some "r"), some (false, some "r")] := by decide +kernel
    obtain ⟨site, hsite, hpair⟩ := Option.map_eq_some_iff.mp hdriven
    have hboth := List.cons.inj hpair
    obtain ⟨s, hs, hdrives⟩ := Option.map_eq_some_iff.mp hboth.1
    obtain ⟨t, ht, hdrives'⟩ := Option.map_eq_some_iff.mp (List.cons.inj hboth.2).1
    exact ⟨site, hsite, s, t, hs, ht, Prod.mk.inj hdrives, Prod.mk.inj hdrives'⟩
  · have hrows : (((importSite .direct).service (willing [10, 20, 30])).machine.run
        (Prog.Service.started freshWorld) stoppedAndBegun).map
          (fun site => ["r", "rr"].map fun e =>
            (site.shared.repo.executions.get? e).map fun row => (row.jobInstanceId, row.status)) =
        some [some ("", .STARTED), some ("", .STARTING)] := by decide +kernel
    obtain ⟨site, hsite, hpair⟩ := Option.map_eq_some_iff.mp hrows
    have hboth := List.cons.inj hpair
    obtain ⟨row, hrow, hactive⟩ := Option.map_eq_some_iff.mp hboth.1
    obtain ⟨row', hrow', hactive'⟩ := Option.map_eq_some_iff.mp (List.cons.inj hboth.2).1
    obtain ⟨hinst, hstatus⟩ := Prod.mk.inj hactive
    obtain ⟨hinst', hstatus'⟩ := Prod.mk.inj hactive'
    refine ⟨site, hsite, fun hone => ?_⟩
    have hsame := hone "r" "rr" row row' hrow hrow' (hinst.trans hinst'.symm)
      (by rw [hstatus]; rfl) (by rw [hstatus']; rfl)
    exact absurd hsame (by decide)

end Deployment

end NestBatch
