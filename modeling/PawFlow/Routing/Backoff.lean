import PawFlow.Lib.Runs
import PawFlow.Routing.Router

/-!
# Failures of one candidate

`record_success`, `record_failure` and `clear_health` of `core/llm_routing_store.py` on the row of
one candidate, with every argument they take and the two ways a failure is not recorded: a back-off
that is no float, and a number that is no SQLite integer.
-/

namespace PawFlow.Routing

open PawFlow.Lib

/-- The arguments of `record_failure`. -/
structure FailureArgs where
  failureKind : String := ""
  providerStatus : Int := 0
  cooldownUntil : Time := 0
  locked : Bool := false
  transientThreshold : Int := 3

namespace FailureArgs

/-- `max(1, int(transient_threshold))`. -/
def threshold (a : FailureArgs) : Nat := (max 1 a.transientThreshold).toNat

/-- `str(failure_kind or "unknown")[:64]`. -/
def kind (a : FailureArgs) : String :=
  .ofList ((if a.failureKind = "" then "unknown" else a.failureKind).toList.take 64)

/-- The state after this many failures. -/
def state (a : FailureArgs) (failures : Nat) (now : Time) : HealthState :=
  if a.locked then .locked
  else if now < a.cooldownUntil ∨ a.threshold ≤ failures then .cooldown
  else .degraded

end FailureArgs

/-- `min(_MAX_COOLDOWN_SECONDS, _BASE_COOLDOWN_SECONDS * 2 ** exponent)`. -/
def backoff (exponent : Nat) : Time :=
  min Store.maxCooldownSeconds (Store.baseCooldownSeconds * (2 ^ exponent : Nat))

/-- From `2 ** 1024` on an integer is no float. -/
def floatExponents : Nat := 1024

/-- A value of an `INTEGER` column. -/
def fitsInteger (n : Int) : Bool := -2 ^ 63 ≤ n && n < 2 ^ 63

/-- The `cooldown_until` that `record_failure` writes. -/
def FailureArgs.cooldown (a : FailureArgs) (failures : Nat) (now : Time) : Except String Time :=
  if a.state failures now = .cooldown ∧ a.cooldownUntil ≤ now then
    if floatExponents ≤ failures - a.threshold then .error "int too large to convert to float"
    else .ok (now + backoff (failures - a.threshold))
  else .ok a.cooldownUntil

/-- The row that `record_failure` writes. -/
def FailureArgs.row (a : FailureArgs) (old : HealthRecord) (cooldownUntil now : Time) :
    HealthRecord :=
  let failures := old.consecutiveFailures + 1
  { old with
    state := a.state failures now
    consecutiveFailures := failures
    lastFailureAt := now
    cooldownUntil
    lastFailureKind := a.kind
    lastStatus := a.providerStatus
    updatedAt := now
    revision := old.revision + 1 }

/-- `record_failure` on the row of a candidate. -/
def recordFailure (row : Option HealthRecord) (a : FailureArgs) (now : Time) :
    Except String HealthRecord :=
  let old := row.getD {}
  let failures := old.consecutiveFailures + 1
  (a.cooldown failures now).bind fun cooldownUntil =>
    if fitsInteger failures ∧ fitsInteger a.providerStatus then
      .ok (a.row old cooldownUntil now)
    else .error "Python int too large to convert to SQLite INTEGER"

def recordSuccess (row : Option HealthRecord) (now : Time) : HealthRecord :=
  let old := row.getD {}
  { old with
    state := .healthy, consecutiveFailures := 0, lastSuccessAt := now, cooldownUntil := 0
    lastFailureKind := "", lastStatus := 0, updatedAt := now, revision := old.revision + 1 }

/-- A call on the candidate, at a reading of the clock. -/
inductive Report
  | success (now : Time)
  | failure (a : FailureArgs) (now : Time)
  | clear

/-- The row, with the failures recorded since the last success or clear. -/
structure Tracked where
  row : Option HealthRecord := none
  since : Nat := 0

namespace Tracked

/-- What `get_health` shows. -/
def record (s : Tracked) : HealthRecord := s.row.getD {}

def report (s : Tracked) : Report → Tracked
  | .success now => { row := some (recordSuccess s.row now), since := 0 }
  | .failure a now =>
    match recordFailure s.row a now with
    | .ok row => { row := some row, since := s.since + 1 }
    | .error _ => s
  | .clear => { row := none, since := 0 }

def step (s : Tracked) (r : Report) : Option Tracked := some (s.report r)

/-- What is asked of a failure: it is recorded, keeps a lock and a running cooldown, counts one
more, and backs off by the formula where the provider gives no deadline. -/
structure Recorded (s : Tracked) (a : FailureArgs) (now : Time) (row : HealthRecord) : Prop where
  returned : recordFailure s.row a now = .ok row
  locked : s.record.state = .locked → row.state = .locked
  cooldown : now < s.record.cooldownUntil → s.record.cooldownUntil ≤ row.cooldownUntil
  backoff : row.state = .cooldown → a.cooldownUntil ≤ now →
    a.threshold ≤ row.consecutiveFailures ∧
      row.cooldownUntil = now + min Store.maxCooldownSeconds
        (Store.baseCooldownSeconds * 2 ^ (row.consecutiveFailures - a.threshold))

/-- Health only improves on success: every failure is recorded as it should be, and the count is
the number of failures since the last success or clear. -/
def OnlyImproves (s : Tracked) (r : Report) : Prop :=
  (s.report r).record.consecutiveFailures = (s.report r).since ∧
    match r with
    | .failure a now => ∃ row, s.Recorded a now row
    | _ => True

/-- The numbers of a failure fit: those of the row, and the power of the back-off if it is used. -/
def Fits (s : Tracked) (a : FailureArgs) (now : Time) : Prop :=
  fitsInteger (s.record.consecutiveFailures + 1 : Nat) ∧ fitsInteger a.providerStatus ∧
    (a.locked = false → a.cooldownUntil ≤ now →
      s.record.consecutiveFailures + 1 < a.threshold + floatExponents)

/-- A running cooldown does not end later than the new one: than the deadline handed over, or than
the back-off where none is and the threshold is reached. -/
def Outlasts (s : Tracked) (a : FailureArgs) (now : Time) : Prop :=
  if a.locked ∨ now < a.cooldownUntil then s.record.cooldownUntil ≤ a.cooldownUntil
  else a.threshold ≤ s.record.consecutiveFailures + 1 ∧
    s.record.cooldownUntil ≤
      now + Routing.backoff (s.record.consecutiveFailures + 1 - a.threshold)

/-- The numbers fit, a locked candidate fails with a lock, a running cooldown is outlasted. -/
def Worsens (s : Tracked) : Report → Prop
  | .failure a now => s.Fits a now ∧ (s.record.state = .locked → a.locked) ∧
      (now < s.record.cooldownUntil → s.Outlasts a now)
  | _ => True

/-! ## One failure -/

section

variable {s : Tracked} {a : FailureArgs} {now : Time}

variable {failures : Nat}

theorem backsOff_iff :
    (a.state failures now = .cooldown ∧ a.cooldownUntil ≤ now) ↔
      a.locked = false ∧ a.cooldownUntil ≤ now ∧ a.threshold ≤ failures := by
  unfold FailureArgs.state
  cases a.locked with
  | true => simp
  | false =>
    by_cases hpast : a.cooldownUntil ≤ now
    · have hnot : ¬ now < a.cooldownUntil := not_lt.mpr hpast
      by_cases hreached : a.threshold ≤ failures <;> simp [hpast, hnot, hreached]
    · simp [hpast]

theorem state_eq_locked : a.state failures now = .locked ↔ a.locked = true := by
  unfold FailureArgs.state
  cases a.locked with
  | true => simp
  | false => simp only [Bool.false_eq_true, if_false, iff_false]; split <;> simp

variable (a now) in
theorem cooldown_cases (failures : Nat) :
    (a.locked = true ∨ now < a.cooldownUntil) ∧ a.cooldown failures now = .ok a.cooldownUntil ∨
    (a.locked = false ∧ a.cooldownUntil ≤ now ∧ failures < a.threshold ∧
      a.cooldown failures now = .ok a.cooldownUntil) ∨
    (a.locked = false ∧ a.cooldownUntil ≤ now ∧ a.threshold ≤ failures ∧
      a.cooldown failures now =
        if floatExponents ≤ failures - a.threshold then .error "int too large to convert to float"
        else .ok (now + Routing.backoff (failures - a.threshold))) := by
  by_cases hback : a.state failures now = .cooldown ∧ a.cooldownUntil ≤ now
  · obtain ⟨hlocked, hpast, hreached⟩ := backsOff_iff.mp hback
    exact Or.inr (Or.inr ⟨hlocked, hpast, hreached, if_pos hback⟩)
  · have hgiven : a.cooldown failures now = .ok a.cooldownUntil := if_neg hback
    rw [backsOff_iff] at hback
    cases hlocked : a.locked with
    | true => exact Or.inl ⟨Or.inl rfl, hgiven⟩
    | false =>
      by_cases hpast : a.cooldownUntil ≤ now
      · refine Or.inr (Or.inl ⟨rfl, hpast, ?_, hgiven⟩)
        by_contra hnot
        exact hback ⟨hlocked, hpast, not_lt.mp hnot⟩
      · exact Or.inl ⟨Or.inr (not_le.mp hpast), hgiven⟩

theorem cooldown_returns (failures : Nat) :
    (∃ cooldownUntil, a.cooldown failures now = .ok cooldownUntil) ↔
      (a.locked = false → a.cooldownUntil ≤ now → failures < a.threshold + floatExponents) := by
  rcases cooldown_cases a now failures with
    ⟨hgiven, hdeadline⟩ | ⟨-, -, hfew, hdeadline⟩ | ⟨hlocked, hpast, hreached, hdeadline⟩
  · refine iff_of_true ⟨_, hdeadline⟩ fun hlocked hpast => ?_
    rcases hgiven with h | h
    · exact absurd h (by simp [hlocked])
    · exact absurd hpast (not_le.mpr h)
  · exact iff_of_true ⟨_, hdeadline⟩ fun _ _ => lt_of_lt_of_le hfew (Nat.le_add_right _ _)
  · rw [hdeadline]
    split
    · next hlarge =>
      refine iff_of_false (by simp) fun h => ?_
      have := h hlocked hpast
      omega
    · next hsmall => exact iff_of_true ⟨_, rfl⟩ fun _ _ => by omega

theorem bind_eq_ok {α β ε : Type} {x : Except ε α} {f : α → Except ε β} {b : β} :
    x.bind f = .ok b ↔ ∃ a, x = .ok a ∧ f a = .ok b := by
  cases x with
  | error e => simp [Except.bind]
  | ok a => simp [Except.bind]

/-- A failure is recorded exactly if its numbers fit; the row then has the deadline handed over,
or the back-off. -/
theorem recordFailure_eq_ok {row : HealthRecord} :
    recordFailure s.row a now = .ok row ↔ s.Fits a now ∧
      ∃ cooldownUntil, a.cooldown (s.record.consecutiveFailures + 1) now = .ok cooldownUntil ∧
        row = a.row s.record cooldownUntil now := by
  show ((a.cooldown (s.record.consecutiveFailures + 1) now).bind _ = _) ↔ _
  rw [bind_eq_ok]
  have hnumbers (d : Time) : (if fitsInteger (s.record.consecutiveFailures + 1 : Nat) ∧
      fitsInteger a.providerStatus then .ok (a.row s.record d now)
      else .error "Python int too large to convert to SQLite INTEGER" : Except String HealthRecord) =
        .ok row ↔ (fitsInteger (s.record.consecutiveFailures + 1 : Nat) ∧
          fitsInteger a.providerStatus) ∧ row = a.row s.record d now := by
    split
    · next h => exact ⟨fun heq => ⟨h, (Except.ok.inj heq).symm⟩, fun heq => by rw [heq.2]⟩
    · next h => exact iff_of_false (by simp) fun heq => h heq.1
  constructor
  · rintro ⟨d, hd, hrow⟩
    obtain ⟨⟨hcount, hstatus⟩, hrow⟩ := (hnumbers d).mp hrow
    exact ⟨⟨hcount, hstatus, (cooldown_returns _).mp ⟨d, hd⟩⟩, d, hd, hrow⟩
  · rintro ⟨hfits, d, hd, hrow⟩
    exact ⟨d, hd, (hnumbers d).mpr ⟨⟨hfits.1, hfits.2.1⟩, hrow⟩⟩

/-- **One failure** is recorded as it should be exactly under the condition. -/
theorem recorded_iff : (∃ row, s.Recorded a now row) ↔ s.Worsens (.failure a now) := by
  constructor
  · rintro ⟨row, h⟩
    obtain ⟨hfits, d, hd, rfl⟩ := recordFailure_eq_ok.mp h.returned
    refine ⟨hfits, fun hlocked => state_eq_locked.mp (h.locked hlocked), fun hrunning => ?_⟩
    have hle : s.record.cooldownUntil ≤ d := h.cooldown hrunning
    unfold Outlasts
    rcases cooldown_cases a now (s.record.consecutiveFailures + 1) with
      ⟨hgiven, hdeadline⟩ | ⟨hlocked, hpast, hfew, hdeadline⟩ |
      ⟨hlocked, hpast, hreached, hdeadline⟩
    · rw [if_pos hgiven]
      rwa [Except.ok.inj (hd.symm.trans hdeadline)] at hle
    · -- the deadline in the past cannot outlast the running cooldown
      rw [Except.ok.inj (hd.symm.trans hdeadline)] at hle
      exact absurd (hle.trans hpast) (not_le.mpr hrunning)
    · rw [if_neg (by simp [hlocked, hpast])]
      rw [hdeadline] at hd
      split at hd
      · exact absurd hd (by simp)
      · rw [← Except.ok.inj hd] at hle
        exact ⟨hreached, hle⟩
  · rintro ⟨hfits, hlock, hrunning⟩
    obtain ⟨d, hd⟩ := (cooldown_returns _).mpr hfits.2.2
    refine ⟨a.row s.record d now, recordFailure_eq_ok.mpr ⟨hfits, d, hd, rfl⟩, ?_, ?_, ?_⟩
    · exact fun hlocked => state_eq_locked.mpr (hlock hlocked)
    · intro hnow
      have hlasts := hrunning hnow
      show s.record.cooldownUntil ≤ d
      unfold Outlasts at hlasts
      rcases cooldown_cases a now (s.record.consecutiveFailures + 1) with
        ⟨hgiven, hdeadline⟩ | ⟨hlocked, hpast, hfew, hdeadline⟩ |
        ⟨hlocked, hpast, hreached, hdeadline⟩
      · rw [if_pos hgiven] at hlasts
        rwa [Except.ok.inj (hd.symm.trans hdeadline)]
      · rw [if_neg (by simp [hlocked, hpast])] at hlasts
        exact absurd hlasts.1 (not_le.mpr hfew)
      · rw [if_neg (by simp [hlocked, hpast])] at hlasts
        rw [hdeadline] at hd
        split at hd
        · exact absurd hd (by simp)
        · rw [← Except.ok.inj hd]
          exact hlasts.2
    · intro hcooldown hpast
      have hback := And.intro hcooldown hpast
      rw [show (a.row s.record d now).state = a.state (s.record.consecutiveFailures + 1) now from rfl,
        backsOff_iff] at hback
      obtain ⟨-, -, hreached⟩ := hback
      refine ⟨hreached, ?_⟩
      show d = _
      rw [FailureArgs.cooldown, if_pos ⟨hcooldown, hpast⟩] at hd
      split at hd
      · exact absurd hd (by simp)
      · rw [← Except.ok.inj hd]
        simp [backoff, FailureArgs.row]

end

/-! ## Every sequence of reports -/

/-- The row counts the failures since the last success or clear. -/
def Counts (s : Tracked) : Prop := s.record.consecutiveFailures = s.since

theorem report_ok {s : Tracked} {a : FailureArgs} {now : Time} {row : HealthRecord}
    (h : recordFailure s.row a now = .ok row) :
    s.report (.failure a now) = { row := some row, since := s.since + 1 } := by
  simp [report, h]

theorem report_error {s : Tracked} {a : FailureArgs} {now : Time} {e : String}
    (h : recordFailure s.row a now = .error e) : s.report (.failure a now) = s := by
  simp [report, h]

theorem counts_report {s : Tracked} (r : Report) (h : s.Counts) : (s.report r).Counts := by
  cases r with
  | success now => rfl
  | clear => rfl
  | failure a now =>
    cases hrow : recordFailure s.row a now with
    | error e => rwa [report_error hrow]
    | ok row =>
      obtain ⟨-, d, -, rfl⟩ := recordFailure_eq_ok.mp hrow
      rw [report_ok hrow]
      show s.record.consecutiveFailures + 1 = s.since + 1
      rw [h]

theorem onlyImproves_iff {s : Tracked} (r : Report) (h : s.Counts) :
    s.OnlyImproves r ↔ s.Worsens r := by
  have hcounts := counts_report r h
  cases r with
  | success now => exact iff_of_true ⟨hcounts, trivial⟩ trivial
  | clear => exact iff_of_true ⟨hcounts, trivial⟩ trivial
  | failure a now => exact (and_iff_right hcounts).trans recorded_iff

/-- **Health only improves on success**, in a sequence of reports on a candidate, exactly if every
failure meets the condition. -/
theorem health_only_improves (reports : List Report) :
    AllSteps step OnlyImproves {} reports ↔ AllSteps step Worsens {} reports := by
  refine allSteps_congr Counts (fun s r t hs hstep => ?_) rfl
  obtain rfl := Option.some.inj hstep
  exact ⟨counts_report r hs, onlyImproves_iff r hs⟩

/-- An invalid credential, then a rate limit that a call in flight runs into. -/
def unlockedRun : List Report :=
  [.failure { failureKind := "auth_invalid", locked := true } 0,
    .failure { failureKind := "rate_limited", cooldownUntil := 60 } 1]

/-- A transient failure without a deadline. -/
def transientFailure : Report := .failure { failureKind := "transient" } 0

theorem transientFailures_counted : ∀ n ≤ 1026, ∃ s : Tracked,
    (List.replicate n transientFailure).foldlM step {} = some s ∧
      s.record.consecutiveFailures = n := by
  intro n
  induction n with
  | zero => exact fun _ => ⟨_, rfl, rfl⟩
  | succ n ih =>
    intro hn
    obtain ⟨s, hs, hcount⟩ := ih (by omega)
    have hfits : s.Fits { failureKind := "transient" } 0 := by
      refine ⟨?_, by decide, fun _ _ => ?_⟩
      · rw [hcount]
        simp only [fitsInteger, Bool.and_eq_true, decide_eq_true_eq]
        omega
      · rw [hcount]
        show n + 1 < 3 + 1024
        omega
    obtain ⟨d, hd⟩ := (cooldown_returns _).mpr hfits.2.2
    have hrow := recordFailure_eq_ok.mpr ⟨hfits, d, hd, rfl⟩
    refine ⟨s.report transientFailure, ?_, ?_⟩
    · rw [List.replicate_succ', List.foldlM_append, hs]
      rfl
    · rw [transientFailure, report_ok hrow]
      show s.record.consecutiveFailures + 1 = n + 1
      rw [hcount]

/-- The rate limit takes the lock away, and the 1027th transient failure raises. -/
theorem not_health_only_improves :
    ¬ AllSteps step OnlyImproves {} unlockedRun ∧
      ¬ AllSteps step OnlyImproves {} (List.replicate 1027 transientFailure) := by
  rw [health_only_improves, health_only_improves]
  constructor
  · intro h
    have hlocked := (h _ rfl).2 _ rfl
    exact absurd (hlocked.1.2.1 rfl) (by decide)
  · intro h
    obtain ⟨s, hs, hcount⟩ := transientFailures_counted 1026 le_rfl
    rw [List.replicate_succ'] at h
    have hpower := (h.at_last hs rfl).1.2.2 rfl le_rfl
    rw [hcount] at hpower
    exact absurd hpower (by decide)

end Tracked

end PawFlow.Routing
