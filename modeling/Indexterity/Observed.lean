import Indexterity.Runs
import Indexterity.Library.Consecutive

/-!
# Observed: how much of an observe window happened

`analysis/observed.ts` and the reading side of `analysis/own-outage.ts`. Consecutive
readings of cumulative latency counters are differenced into windows; what was
observed is the summed length of the windows, and the verdict compares their average
with the average before the change.
-/

namespace Indexterity

open Library

structure LatencyReading extends Run where
  readOps : Int
  readLatencyMicros : Int
  writeOps : Int
  writeLatencyMicros : Int
deriving DecidableEq, Repr

structure OwnOutage where
  fromMs : Int
  toMs : Int

def spansOwnOutage (outages : List OwnOutage) (startMs endMs : Int) : Bool :=
  outages.any fun outage => decide (startMs < outage.toMs) && decide (outage.fromMs < endMs)

def ownOutageMs (outages : List OwnOutage) (startMs endMs : Int) : Int :=
  (outages.map fun outage => max 0 (min endMs outage.toMs - max startMs outage.fromMs)).sum

def OBSERVE_WALLCLOCK_MULTIPLE : ℚ := 3

inductive ObservedVerdict where
  | REGRESSED
  | STABLE
  | INCOMPLETE
  | NO_BASELINE
deriving DecidableEq, Repr

structure ObservedWindow where
  verdict : ObservedVerdict
  observedMs : Int
  ratio : Option ℚ
deriving DecidableEq

structure Window where
  startMs : Int
  endMs : Int
  micros : Int
  ops : Int
deriving DecidableEq, Repr

inductive LatencyMetric where
  | read
  | write
deriving DecidableEq, Repr

def deltaOf (metric : LatencyMetric) (previous next : LatencyReading) : Int × Int :=
  match metric with
  | .read => (next.readOps - previous.readOps, next.readLatencyMicros - previous.readLatencyMicros)
  | .write =>
    (next.writeOps - previous.writeOps, next.writeLatencyMicros - previous.writeLatencyMicros)

/-- One pair of the loop of `windowsOf`: only a counter that fell is excluded. -/
def windowBetween (metric : LatencyMetric) (previous next : LatencyReading) : List Window :=
  let delta := deltaOf metric previous next
  if delta.1 < 0 ∨ delta.2 < 0 then []
  else [⟨previous.spanEnd, next.spanStart, delta.2, delta.1⟩]

/-- The loop of `windowsOf` over an already sorted series. -/
def windowsFrom (metric : LatencyMetric) : List LatencyReading → List Window
  | [] => []
  | [_] => []
  | previous :: next :: rest =>
    windowBetween metric previous next ++ windowsFrom metric (next :: rest)

theorem windowsFrom_eq (metric : LatencyMetric) (readings : List LatencyReading) :
    windowsFrom metric readings =
      ((neighbours readings).map fun p => windowBetween metric p.1 p.2).flatten := by
  induction readings with
  | nil => rfl
  | cons r rest ih =>
    cases rest with
    | nil => rfl
    | cons next rest => rw [windowsFrom, ih, neighbours_cons_cons, List.map_cons, List.flatten_cons]

def windowsOf (readings : List LatencyReading) (metric : LatencyMetric) : List Window :=
  windowsFrom metric (sortedRuns LatencyReading.toRun readings)

def totalOps (windows : List Window) : Int := (windows.map Window.ops).sum

def averageMicrosPerOp (windows : List Window) : Option ℚ :=
  if 0 < totalOps windows then
    some (((windows.map Window.micros).sum : Int) / (totalOps windows : Int))
  else none

def windowsLength (windows : List Window) : Int :=
  (windows.map fun window => window.endMs - window.startMs).sum

theorem windowsLength_append (ws vs : List Window) :
    windowsLength (ws ++ vs) = windowsLength ws + windowsLength vs := by
  simp [windowsLength]

structure ObservedOptions where
  factor : ℚ
  minWindowOps : ℚ
  recordedBaselineMicrosPerOp : Option ℚ
  ownOutages : List OwnOutage

/-- The verdict on the windows `since` a change, given those `before` it. -/
def observedVerdict (since before : List Window) (observeMs : ℚ) (options : ObservedOptions) :
    ObservedVerdict × Option ℚ :=
  if (windowsLength since : ℚ) < observeMs then (.INCOMPLETE, none)
  else if (totalOps since : ℚ) < options.minWindowOps then (.STABLE, none)
  else
    match (averageMicrosPerOp before).or options.recordedBaselineMicrosPerOp with
    | none => (.NO_BASELINE, none)
    | some baseline =>
      if baseline ≤ 0 then (.NO_BASELINE, none)
      else
        match averageMicrosPerOp since with
        | none => (.NO_BASELINE, none)
        | some current =>
          (if options.factor < current / baseline then .REGRESSED else .STABLE,
            some (current / baseline))

def observedWindow (readings : List LatencyReading) (metric : LatencyMetric) (fromMs : Int)
    (observeDays : ℚ) (options : ObservedOptions) : ObservedWindow :=
  let windows := (windowsOf readings metric).filter fun window =>
    !spansOwnOutage options.ownOutages window.startMs window.endMs
  let observeMs := observeDays * DAY_MS
  let since := windows.filter fun window => fromMs ≤ window.startMs
  let before := windows.filter fun window =>
    decide (window.endMs ≤ fromMs) && decide ((fromMs : ℚ) - observeMs ≤ window.startMs)
  let verdict := observedVerdict since before observeMs options
  ⟨verdict.1, windowsLength since, verdict.2⟩

def outstayedWindow (hiddenAtMs : Int) (observeDays : ℚ) (nowMs outageMs : Int) : Bool :=
  decide (observeDays * OBSERVE_WALLCLOCK_MULTIPLE * DAY_MS < (nowMs - hiddenAtMs - outageMs : Int))

structure ObservationFold where
  hasHistory : Bool
  elapsedMs : Int
  drawableMs : Int
deriving DecidableEq, Repr

def foldObservation (readings : List LatencyReading) (metric : LatencyMetric) :
    ObservationFold :=
  let sorted := sortedRuns LatencyReading.toRun readings
  match sorted.head?, sorted.getLast? with
  | some first, some last =>
    ⟨true, last.spanEnd - first.spanStart, windowsLength (windowsOf readings metric)⟩
  | _, _ => ⟨false, 0, 0⟩

def observationCanFinishFrom (fold : ObservationFold) (observeDays : ℚ) : Bool :=
  if !fold.hasHistory then true
  else if fold.elapsedMs ≤ 0 then true
  else if fold.drawableMs ≤ 0 then false
  else decide (observeDays / ((fold.drawableMs : ℚ) / fold.elapsedMs) ≤
    observeDays * OBSERVE_WALLCLOCK_MULTIPLE)

def observationCanFinish (readings : List LatencyReading) (metric : LatencyMetric)
    (observeDays : ℚ) : Bool :=
  observationCanFinishFrom (foldObservation readings metric) observeDays

end Indexterity
