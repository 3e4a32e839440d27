import InferenceFleet.Launch
import InferenceFleet.Proofs.Messages
import InferenceFleet.Proofs.Settings.Precedence

/-!
# Starting with settings that pass the check

The check refuses intervals of zero and nothing else, so a control plane starts with checked
settings unless they ask for more permits than there can be (`launch_of_checked`,
`too_many_permits`). The monitor can tell of every node whether it was silent for too long, whatever
the timeout: a time of silence is a span, and a timeout that is none is longer than all of them.
-/

namespace InferenceFleet

namespace Processor
variable {permits : Nat}

theorem ofPermits_of_le (h : permits ≤ unlimitedPermits) :
    ofPermits permits = .ok { free := permits } := if_pos h

theorem ofPermits_of_lt (h : unlimitedPermits < permits) :
    ofPermits permits = .error (.tooManyPermits permits) := if_neg (Nat.not_le.2 h)

/-- A limit that can be kept gives permits that can be counted, at least one of them. -/
theorem permits_bounds {limit : Nat} (h : limit ≤ unlimitedPermits) :
    1 ≤ Processor.permits limit ∧ Processor.permits limit ≤ unlimitedPermits := by
  unfold Processor.permits
  split
  · exact ⟨by decide, Nat.le_refl _⟩
  · exact ⟨by omega, h⟩

end Processor

namespace Monitor
theorem start_ofSettings (h : HeartbeatSettings) : (ofSettings h).start = .ok (ofSettings h) := by
  refine if_neg ?_
  show ¬ max h.sweepIntervalSecs.toNat 1 * 1000000000 = 0
  omega

end Monitor

namespace Settings
variable {s : Settings}

theorem intervals_pos (h : checked s = .ok s) : 1 ≤ s.heartbeat.timeoutSecs.toNat ∧
    1 ≤ s.heartbeat.sweepIntervalSecs.toNat ∧ 1 ≤ s.processor.pollIntervalMs.toNat := by
  have hpos {w : UInt64} (hw : w ≠ 0) : 1 ≤ w.toNat :=
    Nat.pos_of_ne_zero fun hzero => hw (UInt64.toNat_inj.1 hzero)
  rw [checked_eq] at h
  split at h
  · cases h
  split at h
  · cases h
  split at h
  · cases h
  exact ⟨hpos ‹_›, hpos ‹_›, hpos ‹_›⟩

theorem launch_eq (s : Settings) : s.launch =
    (Processor.ofPermits (Processor.permits s.processor.maxConcurrentJobs.toNat)).map
      fun processor =>
        { fleet := { processor }
          key := .ofSetting s.auth.apiKey
          pollInterval := max s.processor.pollIntervalMs.toNat 1 * 1000000
          monitor := .ofSettings s.heartbeat } := by
  unfold launch
  rw [Monitor.start_ofSettings]
  cases Processor.ofPermits (Processor.permits s.processor.maxConcurrentJobs.toNat) <;> rfl

/-- Checked settings start a control plane just if they ask for no more permits than there can be;
zero asks for as many as there can be. The permits, the time of a wait for a job and the time
between two sweeps are what is set, and none is nothing. For each node and each instant it can be
told whether the node was silent for too long, and by that nodes are swept. -/
theorem launch_of_checked (h : checked s = .ok s) :
    let limit := s.processor.maxConcurrentJobs.toNat
    let m := Monitor.ofSettings s.heartbeat
    (limit ≤ Processor.unlimitedPermits → ∃ p, s.launch = .ok p ∧ p.monitor = m ∧
      (1 ≤ p.fleet.processor.free ∧ p.fleet.processor.free ≤ Processor.unlimitedPermits ∧
        p.fleet.processor.free = if limit = 0 then Processor.unlimitedPermits else limit) ∧
      1000000 ≤ p.pollInterval ∧ p.pollInterval = s.processor.pollIntervalMs.toNat * 1000000) ∧
    (Processor.unlimitedPermits < limit → s.launch = .error (.tooManyPermits limit)) ∧
    (1000000000 ≤ m.sweepInterval ∧
      m.sweepInterval = s.heartbeat.sweepIntervalSecs.toNat * 1000000000) ∧
    m.timeout = s.heartbeat.timeoutSecs.toNat * 1000000000 ∧
    (∀ now n, ∃ stale, Registry.isStale? now m.timeout n = some stale ∧
      (stale = true ↔ m.timeout ≤ Span.longest ∧ ∀ seen ∈ n.lastSeen,
        (m.timeout : Int) < now.since seen + now.leapSeconds seen * 1000000000)) ∧
    ∀ now r, Registry.stale r now m.timeout =
      (r.list.filter fun n => Registry.isStale? now m.timeout n = some true).map (·.id) := by
  obtain ⟨-, hsweep, hpoll⟩ := intervals_pos h
  intro limit m
  have hlaunch := launch_eq s
  refine ⟨fun hlimit => ?_, fun hlimit => ?_, ?_, rfl,
    fun now n => Registry.isStale?_eq_some now m.timeout n, fun now r => rfl⟩
  · have hpermits := Processor.permits_bounds hlimit
    rw [Processor.ofPermits_of_le hpermits.2] at hlaunch
    refine ⟨_, hlaunch, rfl, ⟨hpermits.1, hpermits.2, rfl⟩, ?_⟩
    rw [Nat.max_eq_left hpoll]
    exact ⟨Nat.mul_le_mul_right 1000000 hpoll, rfl⟩
  · have hpermits : Processor.permits limit = limit := if_neg (by omega)
    rw [hpermits, Processor.ofPermits_of_lt hlimit] at hlaunch
    exact hlaunch
  · show 1000000000 ≤ max _ 1 * 1000000000 ∧ max _ 1 * 1000000000 = _
    rw [Nat.max_eq_left hsweep]
    exact ⟨Nat.mul_le_mul_right 1000000000 hsweep, rfl⟩

/-- Everything as large as it can be. No node is ever silent for as long as the timeout, not even
one that was last seen when the calendar began. -/
theorem launch_of_checked_largest :
    let s : Settings := {
      heartbeat := { timeoutSecs := -1, sweepIntervalSecs := -1 }
      processor := { pollIntervalMs := -1, maxConcurrentJobs := 2305843009213693951 } }
    let now : Instant := .ofNanos (Instant.lastSecond * 1000000000)
    let n : Node :=
      { id := "a", hostname := "a", lastSeen := some (.ofNanos (Instant.firstSecond * 1000000000)) }
    checked s = .ok s ∧
      (∃ p, s.launch = .ok p ∧ p.fleet.processor.free = 2305843009213693951 ∧
        p.pollInterval = 18446744073709551615000000) ∧
      (Monitor.ofSettings s.heartbeat).sweepInterval = 18446744073709551615000000000 ∧
      Registry.isStale? now (Monitor.ofSettings s.heartbeat).timeout n = some false := by
  intro s now n
  have hchecked : checked s = .ok s := by decide
  obtain ⟨hlaunch, -, ⟨-, hsweep⟩, htimeout, hstale, -⟩ := launch_of_checked hchecked
  obtain ⟨p, hp, -, ⟨-, -, hpermits⟩, -, hpoll⟩ := hlaunch (by decide)
  obtain ⟨stale, hanswer, hiff⟩ := hstale now n
  refine ⟨hchecked, ⟨p, hp, hpermits.trans (by decide +kernel),
    hpoll.trans (by decide +kernel)⟩, hsweep.trans (by decide +kernel), ?_⟩
  have hfresh : stale = false := by
    rw [Bool.eq_false_iff, ne_eq, hiff, htimeout]
    exact fun h => absurd h.1 (by decide)
  rw [hanswer, hfresh]

/-- A variable may ask for one permit too many: the settings load and pass the check, and cannot be
started. -/
theorem too_many_permits :
    ∃ s, load [] defaultPath
        [("FLEET__PROCESSOR__MAX_CONCURRENT_JOBS", "2305843009213693952")] = .ok s ∧
      checked s = .ok s ∧ s.launch = .error (.tooManyPermits 2305843009213693952) := by
  have hloads : ((load [] defaultPath
      [("FLEET__PROCESSOR__MAX_CONCURRENT_JOBS", "2305843009213693952")]).toOption.map fun s =>
        (decide (checked s = .ok s), s.processor.maxConcurrentJobs)) =
      some (true, 2305843009213693952) := by
    decide +kernel
  obtain ⟨s, hs, hsettings⟩ := Option.map_eq_some_iff.1 hloads
  obtain ⟨hchecked, hlimit⟩ := Prod.mk.inj hsettings
  have hchecked := of_decide_eq_true hchecked
  refine ⟨s, of_toOption hs, hchecked, ?_⟩
  have hmany : s.processor.maxConcurrentJobs.toNat = 2305843009213693952 := by rw [hlimit]; rfl
  rw [launch_eq, hmany]
  rfl

end Settings

end InferenceFleet
