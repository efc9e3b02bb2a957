import Indexterity.Runs
import Mathlib.Data.List.Chain

/-!
# Pacing: a slow cluster gets longer, and less often

`jobs/pacing.ts`. At tier `k` a pass has `2 ^ k` budgets every `2 ^ k` hours. Tiers are the
integers of the stored column, and instants milliseconds since the epoch.
-/

namespace Indexterity

/-- `ClusterTaskOutcome` of `metrics/jobs.ts`. -/
inductive ClusterTaskOutcome where
  | ok
  | unreachable
  | tunnelDown
  | unsupported
  | credentials
  | insecure
  | gone
  | timedOut
  | error
deriving DecidableEq

def PASS_BUDGET_MS : ℚ := 300000

def MAX_TIER : Int := 2

def STEP_UP_SHARE : ℚ := 3 / 4

def STEP_DOWN_SHARE : ℚ := 1 / 2

def clamped (tier : Int) : Nat := (min MAX_TIER (max 0 tier)).toNat

def pacedBudgetMs (tier : Int) : ℚ := PASS_BUDGET_MS * 2 ^ clamped tier

def pacedEveryHours (tier : Int) : Int := 2 ^ clamped tier

def nextTier (tier : Int) (outcome : ClusterTaskOutcome) (durationMs : ℚ) : Int :=
  let current : Int := clamped tier
  if outcome = .timedOut then clamped (current + 1)
  else if outcome ≠ .ok then current
  else if STEP_UP_SHARE * pacedBudgetMs current ≤ durationMs then clamped (current + 1)
  else if 0 < current ∧ durationMs ≤ STEP_DOWN_SHARE * pacedBudgetMs (current - 1) then current - 1
  else current

def clockHour (instant : Int) : Int := instant / HOUR_MS

def isDue (tier : Int) (lastStartedAt : Option Int) (now : Int) : Bool :=
  match lastStartedAt with
  | none => true
  | some started =>
    clamped tier = 0 || pacedEveryHours (clamped tier) ≤ clockHour now - clockHour started

theorem clamped_clamped (tier : Int) : clamped (clamped tier) = clamped tier := by
  simp only [clamped, MAX_TIER]
  omega

theorem pacedBudgetMs_mono {tier tier' : Int} (h : clamped tier ≤ clamped tier') :
    pacedBudgetMs tier ≤ pacedBudgetMs tier' :=
  mul_le_mul_of_nonneg_left (pow_le_pow_right₀ one_le_two h) (by norm_num [PASS_BUDGET_MS])

/-- A run fits into the budget of the tier it leads to. -/
theorem duration_le_nextTier {tier : Int} {durationMs : ℚ} (outcome : ClusterTaskOutcome)
    (h : durationMs ≤ pacedBudgetMs tier) :
    durationMs ≤ pacedBudgetMs (nextTier tier outcome durationMs) := by
  have hup : clamped tier ≤ clamped (clamped (clamped tier + 1)) := by
    simp only [clamped, MAX_TIER]
    omega
  have hstays : clamped tier ≤ clamped (clamped tier) := (clamped_clamped tier).ge
  unfold nextTier
  simp only
  split_ifs with _ _ _ hdown
  · exact h.trans (pacedBudgetMs_mono hup)
  · exact h.trans (pacedBudgetMs_mono hstays)
  · exact h.trans (pacedBudgetMs_mono hup)
  · have hpos : 0 ≤ pacedBudgetMs (clamped tier - 1) := by
      unfold pacedBudgetMs PASS_BUDGET_MS
      positivity
    refine hdown.2.trans ?_
    unfold STEP_DOWN_SHARE
    linarith
  · exact h.trans (pacedBudgetMs_mono hstays)

/-! ## Runs in a row -/

structure PacedRun where
  tier : Int
  startedAt : Int
  outcome : ClusterTaskOutcome
  durationMs : ℚ

/-- The next run has the tier that the last one gave, in a later hour in which it is due. -/
structure PacedRun.Next (run next : PacedRun) : Prop where
  tier : next.tier = nextTier run.tier run.outcome run.durationMs
  later : clockHour run.startedAt < clockHour next.startedAt
  due : isDue next.tier (some run.startedAt) next.startedAt = true

/-- The runs of one pass of one cluster. -/
structure PacedRuns where
  runs : List PacedRun
  unpaced : ∀ run ∈ runs.head?, run.tier = 0
  fits : ∀ run ∈ runs, run.durationMs ≤ pacedBudgetMs run.tier
  next : runs.IsChain PacedRun.Next

section
variable {run next : PacedRun} (h : run.Next next)
include h

theorem PacedRun.Next.every :
    pacedEveryHours next.tier ≤ clockHour next.startedAt - clockHour run.startedAt := by
  have hdue := h.due
  have hlater := h.later
  simp only [isDue, Bool.or_eq_true, decide_eq_true_eq] at hdue
  rcases hdue with hzero | hhours
  · rw [pacedEveryHours, hzero]
    omega
  · rwa [pacedEveryHours, clamped_clamped] at hhours

theorem PacedRun.Next.duration_le (hfits : run.durationMs ≤ pacedBudgetMs run.tier) :
    run.durationMs ≤
      PASS_BUDGET_MS * (clockHour next.startedAt - clockHour run.startedAt : Int) := by
  have hevery : (2 : ℚ) ^ clamped next.tier ≤
      (clockHour next.startedAt - clockHour run.startedAt : Int) := by
    exact_mod_cast h.every
  calc run.durationMs ≤ pacedBudgetMs next.tier := h.tier ▸ duration_le_nextTier run.outcome hfits
    _ ≤ _ := mul_le_mul_of_nonneg_left hevery (by norm_num [PASS_BUDGET_MS])

end

theorem sum_durations_le {first following : PacedRun} {more : List PacedRun}
    (hnext : (first :: more ++ [following]).IsChain PacedRun.Next)
    (hfits : ∀ run ∈ first :: more, run.durationMs ≤ pacedBudgetMs run.tier) :
    ((first :: more).map PacedRun.durationMs).sum ≤
      PASS_BUDGET_MS * (clockHour following.startedAt - clockHour first.startedAt : Int) := by
  induction more generalizing first with
  | nil =>
    obtain ⟨h, -⟩ := List.isChain_cons_cons.mp hnext
    simpa using h.duration_le (hfits first List.mem_cons_self)
  | cons second more ih =>
    obtain ⟨h, hrest⟩ := List.isChain_cons_cons.mp hnext
    obtain ⟨hfirst, hmore⟩ := List.forall_mem_cons.mp hfits
    have hsum := ih hrest hmore
    have hone := h.duration_le hfirst
    rw [List.map_cons, List.sum_cons]
    push_cast at hsum hone ⊢
    linarith

/-- Whatever becomes of its runs, a pass takes no more of the worker than one budget an hour. -/
theorem paced_share_le (history : PacedRuns) (before more after : List PacedRun)
    (first following : PacedRun)
    (h : history.runs = before ++ (first :: more ++ [following]) ++ after) :
    ((first :: more).map PacedRun.durationMs).sum ≤
      PASS_BUDGET_MS * (clockHour following.startedAt - clockHour first.startedAt : Int) := by
  have hnext := (h ▸ history.next).left_of_append.right_of_append
  refine sum_durations_le hnext fun run hrun => history.fits run ?_
  rw [h]
  exact List.mem_append_left _ (List.mem_append_right _ (List.mem_append_left _ hrun))

def timedOutOnce : PacedRuns where
  runs := [⟨0, 0, .timedOut, 300000⟩, ⟨1, 2 * HOUR_MS, .ok, 0⟩]
  unpaced := by simp
  fits := by simp [pacedBudgetMs, PASS_BUDGET_MS, clamped, MAX_TIER]
  next := List.isChain_pair.mpr ⟨rfl, by decide, by decide⟩

theorem paced_share_timedOut : (300000 : ℚ) ≤ PASS_BUDGET_MS * 2 := by
  simpa [clockHour, HOUR_MS] using
    paced_share_le timedOutOnce [] [] [] ⟨0, 0, .timedOut, 300000⟩ ⟨1, 2 * HOUR_MS, .ok, 0⟩ rfl

end Indexterity
