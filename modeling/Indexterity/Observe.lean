import Indexterity.Classify

/-!
# Observe: how long a hidden index is watched

`analysis/observe.ts`. The window is the first rule that applies: periodic use extends
it, live use and proven idleness shorten it, long tenure extends it, and otherwise the
policy stands. Each rule is its own definition; `dynamicObserveDays` tries them in turn.
Days are exact rationals.
-/

namespace Indexterity

structure ObserveWindow where
  days : ℚ
  reason : Option String
deriving DecidableEq

def SHORTEN_FLOOR_DAYS : ℚ := 7
def EXTEND_CAP_DAYS : ℚ := 90
def TENURE_MARGIN_DAYS : Int := 1
def LONG_TENURE_MULTIPLE : ℚ := 2
def VETERAN_MULTIPLE : ℚ := 3 / 2
def DENSE_GAP_DAYS : ℚ := 2
def DENSE_RECENT_DAYS : ℚ := 3

structure ObserveContext where
  /-- `none` also where the stamp does not parse. -/
  watchingSince : Option Int
  now : Int

def inDays (ms : Int) : ℚ := (ms : ℚ) / DAY_MS

def largestSightingGapDays (sorted : List UsagePoint) : ℚ :=
  ((observationGaps UsagePoint.toRun sorted).map Gap.ms).foldl max 0 / DAY_MS

/-- Days since the index appeared, where the cluster was watched before it did. -/
def knownTenureDays (sorted : List UsagePoint) (context : ObserveContext) : Option ℚ :=
  match sorted.head?, context.watchingSince with
  | some first, some watchStart =>
    if TENURE_MARGIN_DAYS * DAY_MS ≤ first.spanStart - watchStart then
      some (inDays (context.now - first.spanStart))
    else none
  | _, _ => none

def periodicWindow (active : List UsagePoint) (policyDays : ℚ) : Option ObserveWindow :=
  let gapDays : Int := ⌈largestSightingGapDays active⌉
  let extended : ℚ := min (2 * gapDays) (max EXTEND_CAP_DAYS policyDays)
  if policyDays < extended then
    some ⟨extended, some ("periodic usage with gaps up to " ++ toString gapDays ++
      " days — window extended to cover a full cycle")⟩
  else none

def stillBusyWindow (active : List UsagePoint) (policyDays : ℚ) (context : ObserveContext) :
    Option ObserveWindow :=
  match active.getLast? with
  | none => none
  | some lastActive =>
    if largestSightingGapDays active ≤ DENSE_GAP_DAYS ∧
        inDays (context.now - lastActive.spanEnd) ≤ DENSE_RECENT_DAYS then
      let days := min SHORTEN_FLOOR_DAYS policyDays
      some ⟨days,
        if days < policyDays then
          some ("queried steadily and still in use — at that rate a regression shows up within " ++
            "days of hiding it, so the window is shortened rather than left open")
        else none⟩
    else none

def cadenceWindow (active : List UsagePoint) (policyDays : ℚ) (context : ObserveContext) :
    Option ObserveWindow :=
  if 2 ≤ totalObservations UsagePoint.toRun active then
    (periodicWindow active policyDays).or (stillBusyWindow active policyDays context)
  else none

def veteranWindow (active : List UsagePoint) (tenureDays : Option ℚ) (policyDays : ℚ) :
    Option ObserveWindow :=
  match tenureDays with
  | none => none
  | some tenure =>
    if !active.isEmpty ∧ LONG_TENURE_MULTIPLE * policyDays ≤ tenure then
      let extended : ℚ :=
        min (max EXTEND_CAP_DAYS policyDays) (mathRound (policyDays * VETERAN_MULTIPLE))
      if policyDays < extended then
        some ⟨extended, some ("in place " ++ toString ⌊tenure⌋ ++
          " days and used during that time — " ++
          "window extended before removing a long-standing index")⟩
      else none
    else none

def provenIdleWindow (sorted active : List UsagePoint) (policyDays : ℚ) :
    Option ObserveWindow :=
  match sorted.head?, sorted.getLast? with
  | some first, some last =>
    let spanDays : Int := ⌊inDays (last.spanEnd - first.spanStart)⌋
    let shortened : ℚ := max (min SHORTEN_FLOOR_DAYS policyDays) ⌊policyDays / 2⌋
    if active.isEmpty ∧ 2 ≤ totalObservations UsagePoint.toRun sorted ∧
        2 * policyDays ≤ spanDays ∧ shortened < policyDays then
      some ⟨shortened, some ("zero usage across " ++ toString spanDays ++
        " days of history — window shortened")⟩
    else none
  | _, _ => none

def bornHereWindow (active : List UsagePoint) (tenureDays : Option ℚ) (policyDays : ℚ) :
    Option ObserveWindow :=
  match tenureDays with
  | none => none
  | some tenure =>
    let scaled : ℚ := max (min SHORTEN_FLOOR_DAYS policyDays) (min policyDays ⌈tenure⌉)
    if active.isEmpty ∧ scaled < policyDays then
      some ⟨scaled, some ("created " ++ toString ⌊tenure⌋ ++
        " days ago and unused for its whole life — window shortened to match its age")⟩
    else none

def dynamicObserveDays (history : List UsagePoint) (policyDays : ℚ) (context : ObserveContext) :
    ObserveWindow :=
  let sorted := sortedRuns UsagePoint.toRun history
  let active := activePoints sorted
  let tenureDays := knownTenureDays sorted context
  ((((cadenceWindow active policyDays context).or
    (veteranWindow active tenureDays policyDays)).or
    (provenIdleWindow sorted active policyDays)).or
    (bornHereWindow active tenureDays policyDays)).getD ⟨policyDays, none⟩

/-! ## What the rules can tell apart -/

variable {active : List UsagePoint} {context : ObserveContext}

theorem provenIdleWindow_of_active (sorted : List UsagePoint) (policyDays : ℚ) (h : active ≠ []) :
    provenIdleWindow sorted active policyDays = none := by
  unfold provenIdleWindow
  split <;> simp [h]

theorem bornHereWindow_of_active (tenureDays : Option ℚ) (policyDays : ℚ) (h : active ≠ []) :
    bornHereWindow active tenureDays policyDays = none := by
  unfold bornHereWindow
  split <;> simp [h]

theorem veteranWindow_congr {active' : List UsagePoint} (h : active ≠ []) (h' : active' ≠ [])
    (tenureDays : Option ℚ) (policyDays : ℚ) :
    veteranWindow active tenureDays policyDays = veteranWindow active' tenureDays policyDays := by
  simp only [veteranWindow, List.isEmpty_eq_false_iff.mpr h, List.isEmpty_eq_false_iff.mpr h']

theorem knownTenureDays_of_unwatched (sorted : List UsagePoint) (now : Int) :
    knownTenureDays sorted ⟨none, now⟩ = none := by
  cases sorted <;> rfl

/-! ## Bounds -/

section Bounds
variable {sorted active : List UsagePoint} {policyDays : ℚ} {context : ObserveContext}
  {tenureDays : Option ℚ} {window : ObserveWindow}

theorem days_of_stillBusyWindow (h : stillBusyWindow active policyDays context = some window) :
    largestSightingGapDays active ≤ 2 ∧ window.days = min 7 policyDays := by
  unfold stillBusyWindow at h
  split at h
  · cases h
  · obtain ⟨hdense, ⟨⟩⟩ := Option.ite_none_right_eq_some.mp h
    exact ⟨hdense.1, rfl⟩

theorem days_of_veteranWindow (h : veteranWindow active tenureDays policyDays = some window) :
    policyDays < window.days ∧ window.days ≤ max 90 policyDays := by
  unfold veteranWindow at h
  split at h
  · cases h
  · obtain ⟨-, hextended⟩ := Option.ite_none_right_eq_some.mp h
    obtain ⟨hlt, ⟨⟩⟩ := Option.ite_none_right_eq_some.mp hextended
    exact ⟨hlt, min_le_left _ _⟩

theorem days_of_idleWindow (h : (provenIdleWindow sorted active policyDays).or
    (bornHereWindow active tenureDays policyDays) = some window) :
    active = [] ∧ min 7 policyDays ≤ window.days ∧ window.days < policyDays := by
  obtain h | ⟨-, h⟩ := Option.or_eq_some_iff.mp h
  · unfold provenIdleWindow at h
    split at h
    · obtain ⟨⟨hidle, -, -, hlt⟩, ⟨⟩⟩ := Option.ite_none_right_eq_some.mp h
      exact ⟨List.isEmpty_iff.mp hidle, le_max_left _ _, hlt⟩
    · cases h
  · unfold bornHereWindow at h
    split at h
    · cases h
    · obtain ⟨⟨hidle, hlt⟩, ⟨⟩⟩ := Option.ite_none_right_eq_some.mp h
      exact ⟨List.isEmpty_iff.mp hidle, le_max_left _ _, hlt⟩

/-- The window the rules come to stays between a week and ninety days, or the policy where that
lies outside; and twice the cadence of the use fits into it, as far as the cap allows. -/
theorem days_bounds : let days := ((((cadenceWindow active policyDays context).or
      (veteranWindow active tenureDays policyDays)).or
      (provenIdleWindow sorted active policyDays)).or
      (bornHereWindow active tenureDays policyDays)).getD ⟨policyDays, none⟩ |>.days
    (min 7 policyDays ≤ days ∧ days ≤ max 90 policyDays) ∧
      (2 ≤ totalObservations UsagePoint.toRun active →
        min (2 * ⌈largestSightingGapDays active⌉ : ℚ) (max 90 policyDays) ≤ days) := by
  have hpolicy : min 7 policyDays ≤ policyDays ∧ policyDays ≤ max 90 policyDays :=
    ⟨min_le_right _ _, le_max_right _ _⟩
  -- where the periodic rule does not extend the window, the policy is long enough
  have hshort (h : periodicWindow active policyDays = none) :
      min (2 * ⌈largestSightingGapDays active⌉ : ℚ) (max 90 policyDays) ≤ policyDays :=
    not_lt.mp fun hlt => by simp [periodicWindow, EXTEND_CAP_DAYS, hlt] at h
  cases hcadence : cadenceWindow active policyDays context with
  | some window =>
    obtain ⟨-, hcadence⟩ := Option.ite_none_right_eq_some.mp hcadence
    obtain hperiodic | ⟨hnone, hbusy⟩ := Option.or_eq_some_iff.mp hcadence
    · obtain ⟨hlt, ⟨⟩⟩ := Option.ite_none_right_eq_some.mp hperiodic
      exact ⟨⟨hpolicy.1.trans hlt.le, min_le_right _ _⟩, fun _ => le_rfl⟩
    · obtain ⟨hgap, hdays⟩ := days_of_stillBusyWindow hbusy
      have hceil : (⌈largestSightingGapDays active⌉ : ℚ) ≤ 2 := by
        exact_mod_cast Int.ceil_le.mpr hgap
      refine ⟨⟨hdays.ge, hdays.le.trans (hpolicy.1.trans hpolicy.2)⟩, fun _ => ?_⟩
      refine (le_min ?_ (hshort hnone)).trans hdays.ge
      exact (min_le_left _ _).trans (by linarith)
  | none =>
    have hlong (htotal : 2 ≤ totalObservations UsagePoint.toRun active) :
        active ≠ [] ∧ periodicWindow active policyDays = none := by
      refine ⟨?_, (Option.or_eq_none_iff.mp ((if_pos htotal).symm.trans hcadence)).1⟩
      rintro rfl
      cases htotal
    rw [Option.none_or]
    cases hveteran : veteranWindow active tenureDays policyDays with
    | some window =>
      obtain ⟨hlt, hcap⟩ := days_of_veteranWindow hveteran
      exact ⟨⟨hpolicy.1.trans hlt.le, hcap⟩, fun h => (hshort (hlong h).2).trans hlt.le⟩
    | none =>
      rw [Option.none_or]
      cases hidle : (provenIdleWindow sorted active policyDays).or
          (bornHereWindow active tenureDays policyDays) with
      | some window =>
        obtain ⟨hnil, hfloor, hlt⟩ := days_of_idleWindow hidle
        exact ⟨⟨hfloor, hlt.le.trans hpolicy.2⟩, fun h => absurd hnil (hlong h).1⟩
      | none => exact ⟨hpolicy, fun h => hshort (hlong h).2⟩

end Bounds

/-- Twice the cadence that a history shows fits into its window, up to the cap; and the window
is never shorter than a week nor longer than ninety days, unless the policy is. -/
theorem dynamicObserveDays_bounds (history : List UsagePoint) (policyDays : ℚ)
    (context : ObserveContext) :
    let active := activePoints (sortedRuns UsagePoint.toRun history)
    let days := (dynamicObserveDays history policyDays context).days
    (min 7 policyDays ≤ days ∧ days ≤ max 90 policyDays) ∧
      (2 ≤ totalObservations UsagePoint.toRun active →
        min (2 * ⌈largestSightingGapDays active⌉ : ℚ) (max 90 policyDays) ≤ days) :=
  days_bounds

section Rules
variable {history : List UsagePoint} (hsorted : InOrder UsagePoint.toRun history)
include hsorted

theorem dynamicObserveDays_single (policyDays : ℚ) (context : ObserveContext)
    (hactive : activePoints history ≠ [])
    (htotal : totalObservations UsagePoint.toRun (activePoints history) < 2) :
    dynamicObserveDays history policyDays context =
      (veteranWindow (activePoints history) (knownTenureDays history context) policyDays).getD
        ⟨policyDays, none⟩ := by
  simp only [dynamicObserveDays, sortedRuns_of_inOrder _ hsorted,
    provenIdleWindow_of_active _ _ hactive, bornHereWindow_of_active _ _ hactive, Option.or_none]
  rw [cadenceWindow, if_neg (not_le.mpr htotal), Option.none_or]

theorem days_lt_of_idle {policyDays tenure : ℚ} (hidle : activePoints history = [])
    (htenure : knownTenureDays history context = some tenure)
    (hfloor : SHORTEN_FLOOR_DAYS < policyDays) (hyoung : (⌈tenure⌉ : ℚ) < policyDays) :
    (dynamicObserveDays history policyDays context).days < policyDays := by
  simp only [dynamicObserveDays, sortedRuns_of_inOrder _ hsorted, hidle, htenure]
  have hcadence : cadenceWindow [] policyDays context = none := rfl
  have hveteran : veteranWindow [] (some tenure) policyDays = none := rfl
  rw [hcadence, hveteran, Option.none_or, Option.none_or]
  cases hidle : (provenIdleWindow history [] policyDays).or
      (bornHereWindow [] (some tenure) policyDays) with
  | some window => exact (days_of_idleWindow hidle).2.2
  | none =>
    have hscaled :
        max (min SHORTEN_FLOOR_DAYS policyDays) (min policyDays ⌈tenure⌉) < policyDays :=
      max_lt (lt_of_le_of_lt (min_le_left _ _) hfloor) (lt_of_le_of_lt (min_le_right _ _) hyoung)
    simp [bornHereWindow, hscaled] at hidle

theorem dynamicObserveDays_eq_policy {policyDays : ℚ} {last : UsagePoint}
    (hlast : (activePoints history).getLast? = some last)
    (hgap : (2 * ⌈largestSightingGapDays (activePoints history)⌉ : ℚ) ≤ policyDays)
    (hquiet : DENSE_RECENT_DAYS < inDays (context.now - last.spanEnd))
    (hyoung : ∀ tenure ∈ knownTenureDays history context,
      tenure < LONG_TENURE_MULTIPLE * policyDays) :
    dynamicObserveDays history policyDays context = ⟨policyDays, none⟩ := by
  have hactive : activePoints history ≠ [] := by
    intro h
    simp [h] at hlast
  have hperiodic : periodicWindow (activePoints history) policyDays = none := by
    simp only [periodicWindow, ite_eq_right_iff, reduceCtorEq, imp_false, not_lt]
    exact le_trans (min_le_left _ _) hgap
  have hbusy : stillBusyWindow (activePoints history) policyDays context = none := by
    simp only [stillBusyWindow, hlast]
    exact if_neg fun h => absurd h.2 (not_le.mpr hquiet)
  have hcadence : cadenceWindow (activePoints history) policyDays context = none := by
    simp [cadenceWindow, hperiodic, hbusy]
  have hveteran : veteranWindow (activePoints history) (knownTenureDays history context)
      policyDays = none := by
    unfold veteranWindow
    split
    · rfl
    · rename_i tenure htenure
      exact if_neg fun h => absurd h.2 (not_le.mpr (hyoung tenure htenure))
  simp [dynamicObserveDays, sortedRuns_of_inOrder _ hsorted, hcadence, hveteran,
    provenIdleWindow_of_active _ _ hactive, bornHereWindow_of_active _ _ hactive]

theorem one_lt_days_of_gap (htotal : 2 ≤ totalObservations UsagePoint.toRun (activePoints history))
    (hgap : 0 < largestSightingGapDays (activePoints history)) :
    1 < (dynamicObserveDays history 1 context).days := by
  have hceil : (1 : ℚ) ≤ ⌈largestSightingGapDays (activePoints history)⌉ := by
    exact_mod_cast Int.one_le_ceil_iff.mpr hgap
  have hextended : (1 : ℚ) <
      min (2 * (⌈largestSightingGapDays (activePoints history)⌉ : ℚ)) (max EXTEND_CAP_DAYS 1) := by
    refine lt_min (by linarith) (lt_max_of_lt_left ?_)
    norm_num [EXTEND_CAP_DAYS]
  simp [dynamicObserveDays, sortedRuns_of_inOrder _ hsorted, cadenceWindow, htotal,
    periodicWindow, hextended]

end Rules

theorem exists_window_ne_of_idle {idle used : List UsagePoint}
    (hi : InOrder UsagePoint.toRun idle) (hu : InOrder UsagePoint.toRun used)
    {first first' : UsagePoint} (hfirst : idle.head? = some first)
    (hfirst' : used.head? = some first') (hstart : first.spanStart = first'.spanStart)
    (hidle : activePoints idle = []) (hused : activePoints used ≠ []) :
    ∃ policyDays context,
      dynamicObserveDays idle policyDays context ≠ dynamicObserveDays used policyDays context := by
  obtain ⟨last, hlast⟩ : ∃ last, (activePoints used).getLast? = some last :=
    ⟨_, List.getLast?_eq_some_getLast hused⟩
  let context : ObserveContext := ⟨some (first.spanStart - DAY_MS), last.spanEnd + 4 * DAY_MS⟩
  let tenure : ℚ := inDays (context.now - first.spanStart)
  have htenure : knownTenureDays idle context = some tenure := by
    simp [knownTenureDays, hfirst, context, TENURE_MARGIN_DAYS, tenure]
  have htenure' : knownTenureDays used context = some tenure := by
    simp [knownTenureDays, hfirst', ← hstart, context, TENURE_MARGIN_DAYS, tenure]
  -- a policy longer than every length either history can show
  let policyDays : ℚ :=
    |2 * (⌈largestSightingGapDays (activePoints used)⌉ : ℚ)| + |(⌈tenure⌉ : ℚ)| + 8
  have hgap := le_abs_self (2 * (⌈largestSightingGapDays (activePoints used)⌉ : ℚ))
  have hgap0 := abs_nonneg (2 * (⌈largestSightingGapDays (activePoints used)⌉ : ℚ))
  have hten := le_abs_self (⌈tenure⌉ : ℚ)
  have hten0 := abs_nonneg (⌈tenure⌉ : ℚ)
  refine ⟨policyDays, context, fun heq => ?_⟩
  have hshort : (dynamicObserveDays idle policyDays context).days < policyDays := by
    refine days_lt_of_idle hi hidle htenure ?_ ?_
    · simp only [SHORTEN_FLOOR_DAYS, policyDays]
      linarith
    · linarith
  have hpolicy : dynamicObserveDays used policyDays context = ⟨policyDays, none⟩ := by
    refine dynamicObserveDays_eq_policy hu hlast ?_ ?_ ?_
    · linarith
    · norm_num [DENSE_RECENT_DAYS, inDays, context, DAY_MS]
    · intro t ht
      rw [htenure'] at ht
      rw [← Option.some.inj ht]
      have := Int.le_ceil tenure
      simp only [LONG_TENURE_MULTIPLE, policyDays]
      linarith
  rw [heq, hpolicy] at hshort
  exact lt_irrefl _ hshort

end Indexterity
