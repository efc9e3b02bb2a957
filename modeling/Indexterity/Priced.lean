import Indexterity.Classify

/-!
# Priced runs

Everything `foldUsage` asks of a run is its span, the activity against the run
before it, whether its counters restarted since, and when they started. A priced
run is those four facts. The fold factors through them: two histories with the same
prices have the same fold, wherever the prices were taken from.
-/

namespace Indexterity

structure PricedRun where
  run : Run
  activity : Int
  restarted : Bool
  started : Option Int
deriving DecidableEq, Repr

def price (host : Host) (previous : Option UsageSnapshot) : List UsageSnapshot → List PricedRun
  | [] => []
  | run :: rest =>
    { run := run.toRun
      activity := runActivity previous run
      restarted := previous.any fun before => restartedBetween host before run
      started := countersStartedAt host run } :: price host (some run) rest

def pricedSeries (runs : List PricedRun) : List UsagePoint :=
  runs.flatMap fun p => pointsOf p.run p.activity

def pricedEpochsFrom (first previous : PricedRun) : List PricedRun → List CounterEpoch
  | [] => [closeEpoch first.run.spanStart first.started previous.run.spanEnd]
  | p :: rest =>
    if p.restarted then
      closeEpoch first.run.spanStart first.started previous.run.spanEnd ::
        pricedEpochsFrom p p rest
    else pricedEpochsFrom first p rest

def pricedEpochs : List PricedRun → List CounterEpoch
  | [] => []
  | first :: rest => pricedEpochsFrom first first rest

def pricedBlind (previous next : PricedRun) : Option BlindWindow :=
  blindHole previous.run.spanEnd next.run.spanStart next.started next.restarted

def pricedBlindWindows (minBlindMs : Int) : List PricedRun → List BlindWindow
  | [] => []
  | [_] => []
  | p :: next :: rest =>
    longerThan minBlindMs (pricedBlind p next) ++ pricedBlindWindows minBlindMs (next :: rest)

def latestOf (points : List UsagePoint) : Option Int :=
  (points.map fun point => point.spanEnd).foldl laterOf none

def foldPriced (runs : List PricedRun) (minBlindMs : Int) : UsageFold where
  runs := runs.length
  observations := totalObservations UsagePoint.toRun (pricedSeries runs)
  activeRuns := totalObservations UsagePoint.toRun (activePoints (pricedSeries runs))
  trustedWatchMs := epochsLength (pricedEpochs runs)
  newestEndMs := (runs.map fun p => p.run.spanEnd).max?
  latestActivityMs := latestOf (activePoints (pricedSeries runs))
  maxInteriorGapMs := (runs.map fun p => p.run.interiorGap).foldl max 0
  blindWindows := pricedBlindWindows minBlindMs runs

/-! ## Observations of a priced series -/

theorem pricedSeries_cons (p : PricedRun) (runs : List PricedRun) :
    pricedSeries (p :: runs) = pointsOf p.run p.activity ++ pricedSeries runs := rfl

theorem totalObservations_append (xs ys : List UsagePoint) :
    totalObservations UsagePoint.toRun (xs ++ ys) =
      totalObservations UsagePoint.toRun xs + totalObservations UsagePoint.toRun ys := by
  simp [totalObservations]

theorem totalObservations_pointsOf (run : Run) (ops : Int) :
    totalObservations UsagePoint.toRun (pointsOf run ops) = run.observationsOf := by
  have hone := run.one_le_observationsOf
  unfold pointsOf
  split_ifs with h0 h1
  · simp only [totalObservations, List.map_cons, List.map_nil, List.sum_cons, List.sum_nil]
    simp only [Run.observationsOf] at hone ⊢
    omega
  · simp only [totalObservations, List.map_cons, List.map_nil, List.sum_cons, List.sum_nil]
    simp only [Run.observationsOf] at hone h1 ⊢
    omega
  · simp only [totalObservations, List.map_cons, List.map_nil, List.sum_cons, List.sum_nil]
    simp only [Run.observationsOf] at hone h1 ⊢
    omega

theorem totalObservations_pricedSeries (runs : List PricedRun) :
    totalObservations UsagePoint.toRun (pricedSeries runs) =
      (runs.map fun p => p.run.observationsOf).sum := by
  induction runs with
  | nil => rfl
  | cons p runs ih =>
    rw [pricedSeries_cons, totalObservations_append, totalObservations_pointsOf, ih,
      List.map_cons, List.sum_cons]

section Refinement
variable (host : Host) (previous : Option UsageSnapshot) (runs : List UsageSnapshot)

theorem length_price :
    (price host previous runs).length = runs.length := by
  induction runs generalizing previous with
  | nil => rfl
  | cons run rest ih => simp [price, ih]

theorem map_run_price :
    (price host previous runs).map PricedRun.run = runs.map UsageSnapshot.toRun := by
  induction runs generalizing previous with
  | nil => rfl
  | cons run rest ih => simp [price, ih]

theorem seriesFrom_eq_pricedSeries :
    seriesFrom previous runs = pricedSeries (price host previous runs) := by
  induction runs generalizing previous with
  | nil => rfl
  | cons run rest ih => simp [seriesFrom, price, pricedSeries, ih]

theorem epochsFrom_eq_pricedEpochsFrom (first previous : UsageSnapshot)
    (p q : PricedRun) (runs : List UsageSnapshot)
    (hp : p.run = first.toRun ∧ p.started = countersStartedAt host first)
    (hq : q.run = previous.toRun) :
    epochsFrom host first previous runs =
      pricedEpochsFrom p q (price host (some previous) runs) := by
  induction runs generalizing first previous p q with
  | nil => simp [epochsFrom, price, pricedEpochsFrom, close, hp.1, hp.2, hq]
  | cons run rest ih =>
    simp only [epochsFrom, price, pricedEpochsFrom, close, hp.1, hp.2, hq, Option.any_some]
    split
    · exact congrArg _ (ih run run _ _ ⟨rfl, rfl⟩ rfl)
    · exact ih first run p _ hp rfl

theorem blindWindowsOf_eq_pricedBlindWindows (minBlindMs : Int)
    (previous : Option UsageSnapshot) (runs : List UsageSnapshot) :
    blindWindowsOf host minBlindMs runs =
      pricedBlindWindows minBlindMs (price host previous runs) := by
  induction runs generalizing previous with
  | nil => rfl
  | cons run rest ih =>
    cases rest with
    | nil => rfl
    | cons next rest =>
      have htail := ih (some run)
      simp only [blindWindowsOf, price, pricedBlindWindows, pricedBlind, blindWindow,
        Option.any_some, htail]

theorem counterEpochs_eq_pricedEpochs {sorted : List UsageSnapshot}
    (h : sortedRuns UsageSnapshot.toRun sorted = sorted) :
    counterEpochs host sorted = pricedEpochs (price host none sorted) := by
  rw [counterEpochs, h]
  cases sorted with
  | nil => rfl
  | cons first rest =>
    exact epochsFrom_eq_pricedEpochsFrom host first first _ _ rest ⟨rfl, rfl⟩ rfl

theorem map_price (f : Run → Int) (previous : Option UsageSnapshot) (runs : List UsageSnapshot) :
    ((price host previous runs).map fun p => f p.run) = runs.map fun run => f run.toRun := by
  have h := congrArg (List.map f) (map_run_price host previous runs)
  simpa [List.map_map, Function.comp_def] using h

theorem foldUsage_eq_foldPriced (history : List UsageSnapshot) (minBlindMs : Int) :
    foldUsage host history minBlindMs =
      foldPriced (price host none (sortedRuns UsageSnapshot.toRun history)) minBlindMs := by
  have hsorted := sortedRuns_idem UsageSnapshot.toRun history
  unfold foldUsage
  generalize sortedRuns UsageSnapshot.toRun history = sorted at hsorted ⊢
  have hseries : usageSeries sorted = pricedSeries (price host none sorted) := by
    rw [usageSeries, hsorted, seriesFrom_eq_pricedSeries]
  simp only [foldPriced, length_price, hseries, trustedWatchMs, latestOf,
    counterEpochs_eq_pricedEpochs host hsorted, map_price host Run.spanEnd,
    map_price host Run.interiorGap, blindWindowsOf_eq_pricedBlindWindows host minBlindMs none]

theorem foldUsage_congr {xs ys : List UsageSnapshot} (hx : InOrder UsageSnapshot.toRun xs)
    (hy : InOrder UsageSnapshot.toRun ys) (h : price host none xs = price host none ys)
    (minBlindMs : Int) : foldUsage host xs minBlindMs = foldUsage host ys minBlindMs := by
  rw [foldUsage_eq_foldPriced, foldUsage_eq_foldPriced, sortedRuns_of_inOrder _ hx,
    sortedRuns_of_inOrder _ hy, h]

end Refinement

end Indexterity
