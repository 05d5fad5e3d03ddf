import NestBatch.Schedule.Kafka

/-!
# The timer of a Kafka schedule and its cron expression

`installSchedule` turns `*/N * * * *` into a timer of `N` minutes.  The expression is anchored to
the clock: it denotes the whole minutes whose number within the hour `N` divides.  The timer is
anchored to its installation: it fires `N` minutes after it, and every `N` minutes from then on.

Only the minutes of the hour matter.  A zone is given by what its clock is ahead; a change of it
by whole hours moves no instant of an expression.
-/

namespace NestBatch

namespace KafkaSchedule

/-- A minute, in milliseconds. -/
def minute : Nat := 60 * 1000

/-- An hour, in milliseconds. -/
def hour : Nat := 60 * minute

/-- The `N` of `*/N * * * *`. -/
def stepOf (cron : String) : Option Nat :=
  match splitSpaces (jsTrim cron) with
  | [minutePart, "*", "*", "*", "*"] =>
      (stepDigits minutePart).map fun digits =>
        digits.foldl (fun n digit => 10 * n + (digit.toNat - 48)) 0
  | _ => none

/-- The instants that `*/N * * * *` denotes in a zone whose clock is ahead by `offset`. -/
def Denotes (cron : String) (offset : Nat) (t : Nat) : Prop :=
  ∃ n, stepOf cron = some n ∧ (t + offset) % minute = 0 ∧ (t + offset) / minute % 60 % n = 0

/-- The instants at which the timer of an entry fires that was installed at `installed`. -/
def Fires (entry : BatchScheduleEntry) (installed t : Nat) : Prop :=
  ∃ intervalMs, installSchedule entry = some intervalMs ∧ ∃ k, t = installed + (k + 1) * intervalMs

/-- After `since` and up to `last`, the timer fires when the expression says so. -/
def FollowsCron (entry : BatchScheduleEntry) (offset : Nat) (installed since last : Nat) : Prop :=
  ∀ t, since < t → t ≤ last → (Fires entry installed t ↔ Denotes entry.cron offset t)

/-! ### The two sets of instants -/

section Instants

variable {entry : BatchScheduleEntry} {offset n intervalMs : Nat} {installed t : Nat}

/-- What the parser accepts is a step of an hour at most, in minutes. -/
theorem stepOf_of_parse {cron : String} (h : parseCronToIntervalMs cron = some intervalMs) :
    ∃ n, stepOf cron = some n ∧ 0 < n ∧ n ≤ 60 ∧ intervalMs = n * minute := by
  unfold parseCronToIntervalMs at h
  split at h
  · rename_i heq
    split at h
    · cases h
    · rename_i digits hdigits
      dsimp only at h
      split at h
      · cases h
      · rename_i hbound
        have hinterval := Option.some.inj h
        refine ⟨digits.foldl (fun n digit => 10 * n + (digit.toNat - 48)) 0, ?_, by omega,
          by omega, ?_⟩
        · rw [stepOf, heq]
          simp only [hdigits, Option.map_some]
        · unfold minute
          omega
  · cases h

/-- An installed entry fires at the multiples of its interval after its installation. -/
theorem fires_iff (h : installSchedule entry = some intervalMs)
    (hlate : installed < t) : Fires entry installed t ↔ intervalMs ∣ t - installed := by
  constructor
  · intro hfires
    obtain ⟨intervalMs', h', k, hk⟩ := hfires
    cases h.symm.trans h'
    refine ⟨k + 1, ?_⟩
    rw [hk, Nat.add_sub_cancel_left, Nat.mul_comm]
  · intro hdvd
    obtain ⟨k, hk⟩ := hdvd
    cases k with
    | zero =>
        rw [Nat.mul_zero] at hk
        omega
    | succ k =>
        refine ⟨intervalMs, h, k, ?_⟩
        rw [Nat.mul_comm] at hk
        omega

/-- A step cron denotes the minutes that its step divides. -/
theorem denotes_iff {cron : String} (h : stepOf cron = some n) :
    Denotes cron offset t ↔ minute ∣ t + offset ∧ n ∣ (t + offset) / minute % 60 := by
  constructor
  · intro hdenotes
    obtain ⟨n', h', hminute, hstep⟩ := hdenotes
    cases h.symm.trans h'
    exact ⟨Nat.dvd_of_mod_eq_zero hminute, Nat.dvd_of_mod_eq_zero hstep⟩
  · intro hdvd
    exact ⟨n, h, Nat.mod_eq_zero_of_dvd hdvd.1, Nat.mod_eq_zero_of_dvd hdvd.2⟩

/-- A step that divides the hour restarts at no hour. -/
theorem denotes_iff_dvd {cron : String} (h : stepOf cron = some n) (hn : n ∣ 60) :
    Denotes cron offset t ↔ n * minute ∣ t + offset := by
  rw [denotes_iff h, Nat.dvd_mod_iff hn]
  constructor
  · intro hdvd
    obtain ⟨⟨m, hm⟩, hstep⟩ := hdvd
    rw [hm, Nat.mul_div_cancel_left m (by decide)] at hstep
    rw [hm, Nat.mul_comm n]
    exact Nat.mul_dvd_mul_left minute hstep
  · intro hdvd
    refine ⟨Nat.dvd_trans (Nat.dvd_mul_left minute n) hdvd, ?_⟩
    rw [Nat.mul_comm] at hdvd
    exact Nat.dvd_div_of_mul_dvd hdvd

/-- The full hours are denoted. -/
theorem denotes_hour {cron : String} (h : stepOf cron = some n) (hhour : hour ∣ t + offset) :
    Denotes cron offset t := by
  obtain ⟨m, hm⟩ := hhour
  rw [denotes_iff h]
  refine ⟨Nat.dvd_trans (Nat.dvd_mul_left minute 60) ⟨m, hm⟩, ?_⟩
  have hminute : (t + offset) / minute = 60 * m := by
    unfold hour at hm
    rw [hm, Nat.mul_right_comm, Nat.mul_div_cancel _ (by decide)]
  rw [hminute, Nat.mul_mod_right]
  exact Nat.dvd_zero n

/-- The last instant denoted before a full hour is what the hour leaves over when it is cut into
steps. -/
theorem denotes_before_hour {cron : String} (h : stepOf cron = some n) (hn : 0 < n ∧ n ≤ 60)
    (hpos : 0 < 60 % n) (hhour : hour ∣ t + 60 % n * minute + offset) :
    Denotes cron offset t := by
  obtain ⟨m, hm⟩ := hhour
  have hleft : 60 % n < n := Nat.mod_lt 60 hn.1
  have hcut : n ∣ 60 - 60 % n := Nat.dvd_sub_mod 60
  unfold hour at hm
  have hwhole : t + offset = minute * (60 * m - 60 % n) := by
    rw [Nat.mul_sub, ← Nat.mul_assoc, Nat.mul_comm minute 60, Nat.mul_comm minute (60 % n)]
    omega
  rw [denotes_iff h]
  refine ⟨⟨_, hwhole⟩, ?_⟩
  rw [hwhole, Nat.mul_div_cancel_left _ (by decide)]
  have hminute : (60 * m - 60 % n) % 60 = 60 - 60 % n := by
    generalize 60 % n = left at *
    unfold minute at hm
    omega
  rw [hminute]
  exact hcut

end Instants

/-! ### The fires of a timer -/

section Follows

variable {entry : BatchScheduleEntry} {offset intervalMs : Nat} {installed since last : Nat}

/-- The interval that is installed is the one parsed. -/
theorem parse_of_installSchedule (h : installSchedule entry = some intervalMs) :
    parseCronToIntervalMs entry.cron = some intervalMs := by
  unfold installSchedule at h
  split at h
  · cases h
  · exact h

/-- A timer that divides the hour and was installed at an instant of its expression fires at the
instants of the expression. -/
theorem followsCron_of_aligned (h : installSchedule entry = some intervalMs)
    (hafter : installed ≤ since) (hdivides : intervalMs ∣ hour)
    (haligned : intervalMs ∣ installed + offset) :
    FollowsCron entry offset installed since last := by
  intro t hsince _
  obtain ⟨n, hstep, -, -, hinterval⟩ := stepOf_of_parse (parse_of_installSchedule h)
  have hn : n ∣ 60 := by
    rw [hinterval] at hdivides
    exact Nat.dvd_of_mul_dvd_mul_right (by decide) hdivides
  have hlate : installed < t := Nat.lt_of_le_of_lt hafter hsince
  have hsplit : t + offset = t - installed + (installed + offset) := by
    rw [← Nat.add_assoc, Nat.sub_add_cancel (Nat.le_of_lt hlate)]
  rw [fires_iff h hlate, denotes_iff_dvd hstep hn, ← hinterval, hsplit,
    ← Nat.dvd_add_iff_left haligned]

/-- In every two hours there is a full hour that has an hour in front of it. -/
theorem exists_hour (offset : Nat) (since : Nat) :
    ∃ t, since + hour < t ∧ t ≤ since + 2 * hour ∧ hour ∣ t + offset := by
  have hrest : (since + offset) % hour < hour := Nat.mod_lt _ (by decide)
  have hfloor := Nat.div_add_mod (since + offset) hour
  refine ⟨since + 2 * hour - (since + offset) % hour, ?_, Nat.sub_le _ _,
    (since + offset) / hour + 2, ?_⟩
  · omega
  · rw [Nat.mul_add]
    omega

/-- Two hours in which the timer fires at the instants of its expression tell that it does so for
good: the last instant of an hour and the next full hour are a multiple of the interval apart. -/
theorem aligned_of_followsCron (h : installSchedule entry = some intervalMs)
    (hafter : installed ≤ since) (hlong : since + 2 * hour ≤ last)
    (hfollows : FollowsCron entry offset installed since last) :
    intervalMs ∣ hour ∧ intervalMs ∣ installed + offset := by
  obtain ⟨n, hstep, hpos, hle, hinterval⟩ := stepOf_of_parse (parse_of_installSchedule h)
  obtain ⟨t, hlate, hearly, hhour⟩ := exists_hour offset since
  -- the full hour is a fire
  have hfull : intervalMs ∣ t - installed := by
    rw [← fires_iff h (by omega)]
    exact (hfollows t (by omega) (by omega)).mpr (denotes_hour hstep hhour)
  have hn : n ∣ 60 := by
    refine Nat.dvd_of_mod_eq_zero (Nat.eq_zero_of_not_pos fun hleft => ?_)
    have hleft' : 60 % n < n := Nat.mod_lt 60 hpos
    have hgap : 60 % n * minute < hour := by
      unfold hour
      exact Nat.mul_lt_mul_of_pos_right (by omega) (by decide)
    have hbefore : intervalMs ∣ t - 60 % n * minute - installed := by
      rw [← fires_iff h (by omega)]
      refine (hfollows _ (by omega) (by omega)).mpr (denotes_before_hour hstep ⟨hpos, hle⟩ hleft ?_)
      rw [Nat.sub_add_cancel (by omega)]
      exact hhour
    have hapart : intervalMs ∣ 60 % n * minute := by
      have hsplit : t - installed = t - 60 % n * minute - installed + 60 % n * minute := by omega
      rw [hsplit] at hfull
      exact (Nat.dvd_add_iff_right hbefore).mpr hfull
    rw [hinterval] at hapart
    exact absurd (Nat.le_of_dvd hleft (Nat.dvd_of_mul_dvd_mul_right (by decide) hapart))
      (Nat.not_le.mpr hleft')
  refine ⟨hinterval ▸ Nat.mul_dvd_mul_right hn minute, ?_⟩
  have hclock : intervalMs ∣ t + offset := by
    rw [hinterval, ← denotes_iff_dvd hstep hn]
    exact denotes_hour hstep hhour
  have hsplit : t + offset = t - installed + (installed + offset) := by omega
  rw [hsplit] at hclock
  exact (Nat.dvd_add_iff_right hfull).mpr hclock

end Follows

/-- **When a Kafka schedule keeps to its cron expression.**  The timer of an entry that is
installed fires at the instants of the expression, whatever the window is, if and only if its
interval divides the hour and it was installed at an instant that is a multiple of the interval on
the clock of the zone.  Any window of two hours tells. -/
theorem interval_follows_cron_iff (entry : BatchScheduleEntry) (offset intervalMs : Nat)
    (installed : Nat) (h : installSchedule entry = some intervalMs) :
    ((∀ since last, installed ≤ since → FollowsCron entry offset installed since last) ↔
      intervalMs ∣ hour ∧ intervalMs ∣ installed + offset) ∧
    ∀ since last, installed ≤ since → since + 2 * hour ≤ last →
      (FollowsCron entry offset installed since last ↔
        intervalMs ∣ hour ∧ intervalMs ∣ installed + offset) := by
  refine ⟨⟨fun hfollows => ?_, fun haligned since last hafter => ?_⟩,
    fun since last hafter hlong => ⟨fun hfollows => ?_, fun haligned => ?_⟩⟩
  · exact aligned_of_followsCron h (Nat.le_refl installed) (Nat.le_refl _)
      (hfollows installed _ (Nat.le_refl installed))
  · exact followsCron_of_aligned h hafter haligned.1 haligned.2
  · exact aligned_of_followsCron h hafter hlong hfollows
  · exact followsCron_of_aligned h hafter haligned.1 haligned.2

/-- Every five minutes, installed at a full hour: a day of it. -/
theorem interval_follows_cron_import :
    FollowsCron everyFiveMinutes 0 3600000 3600000 (3600000 + 24 * hour) :=
  (interval_follows_cron_iff everyFiveMinutes 0 300000 3600000 (by decide +kernel)).1.mpr
    (by decide) _ _ (Nat.le_refl _)

/-- **Every forty-five minutes the timer goes its own way.**  Installed at a full hour, it misses
the next one and fires half an hour after it, at an instant that is none of the expression. -/
theorem interval_leaves_hour :
    let entry := { everyFiveMinutes with cron := "*/45 * * * *" }
    Denotes entry.cron 0 hour ∧ ¬ Fires entry 0 hour ∧
    Fires entry 0 (90 * minute) ∧ ¬ Denotes entry.cron 0 (90 * minute) ∧
    ¬ FollowsCron entry 0 0 0 hour := by
  intro entry
  have hinstalled : installSchedule entry = some (45 * minute) := by decide +kernel
  have hstep : stepOf entry.cron = some 45 := by decide +kernel
  have hdenoted : Denotes entry.cron 0 hour := by
    rw [denotes_iff hstep]
    decide
  have hmissed : ¬ Fires entry 0 hour := by
    rw [fires_iff hinstalled (by decide)]
    decide
  refine ⟨hdenoted, hmissed, ?_, ?_, fun hfollows => hmissed ?_⟩
  · rw [fires_iff hinstalled (by decide)]
    decide
  · rw [denotes_iff hstep]
    decide
  · exact (hfollows hour (by decide) (Nat.le_refl hour)).mpr hdenoted

end KafkaSchedule

end NestBatch
