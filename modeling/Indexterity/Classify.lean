import Indexterity.Usage

/-!
# Classify: what a usage history proves

`analysis/classify.ts`. A history is folded into a handful of numbers (`foldUsage`)
and every gate and class is decided on those numbers alone. Thresholds are the
options' own numbers, so they are rationals; instants and lengths are milliseconds.
-/

namespace Indexterity

structure ClassifyOptions where
  recentHours : ℚ
  minHistory : ℚ
  minHistoryDays : ℚ
  minActiveHours : ℚ
  maxGapHours : ℚ

def MAX_GAP_HOURS : Int := 48

def MAX_GAP_MS : Int := MAX_GAP_HOURS * HOUR_MS

structure CounterEpoch where
  startMs : Int
  endMs : Int
deriving DecidableEq, Repr

structure BlindWindow where
  startMs : Int
  endMs : Int
deriving DecidableEq, Repr

inductive UsageClass where
  | FLAT_ZERO
  | PERIODIC_ALIVE
  | PERIODIC_DEAD
  | CONTINUOUS
deriving DecidableEq, Repr

inductive UsageTrustRefusal where
  | noHistory
  | tooFewCollects
  | spanTooShort
  | collectionIdle
  | gapInsideRun
  | gapBetweenRuns
  | historyStale
deriving DecidableEq, Repr

structure UsageFold where
  runs : Int
  observations : Int
  activeRuns : Int
  trustedWatchMs : Int
  /-- `none` is NaN, which only an empty history gives. -/
  newestEndMs : Option Int
  latestActivityMs : Option Int
  maxInteriorGapMs : Int
  blindWindows : List BlindWindow
deriving DecidableEq, Repr

section Clock
variable (host : Host)

def restartedBetween (previous next : UsageSnapshot) : Bool :=
  match next.countersRestarted with
  | some restarted => restarted
  | none => countersRestartedBetween host (some previous.perMember) next.perMember

def countersStartedAt (run : UsageSnapshot) : Option Int :=
  match run.countersStartedAt with
  | some stored => some stored
  | none => (latestCounterStart host run.perMember).bind host.dateParse

end Clock

/-- An epoch begins where it was first read or where its counters started, whichever
is later, and cannot run past its own end. -/
def closeEpoch (spanStart : Int) (started : Option Int) (stop : Int) : CounterEpoch :=
  match started with
  | none => ⟨min spanStart stop, stop⟩
  | some start => ⟨min (max spanStart start) stop, stop⟩

def blindHole (fromMs untilMs : Int) (started : Option Int) (restarted : Bool) :
    Option BlindWindow :=
  if untilMs ≤ fromMs then none
  else
    match started with
    | none => some ⟨fromMs, untilMs⟩
    | some start =>
      if fromMs < start then some ⟨fromMs, min untilMs start⟩
      else if restarted then some ⟨fromMs, untilMs⟩
      else none

section Fold
variable (host : Host)

def close (first : UsageSnapshot) (stop : Int) : CounterEpoch :=
  closeEpoch first.spanStart (countersStartedAt host first) stop

/-- The loop of `counterEpochs` once the epoch `first` is open and `previous` was the
last run read. -/
def epochsFrom (first previous : UsageSnapshot) : List UsageSnapshot → List CounterEpoch
  | [] => [close host first previous.spanEnd]
  | run :: rest =>
    if restartedBetween host previous run then
      close host first previous.spanEnd :: epochsFrom run run rest
    else epochsFrom first run rest

def counterEpochs (history : List UsageSnapshot) : List CounterEpoch :=
  match sortedRuns UsageSnapshot.toRun history with
  | [] => []
  | first :: rest => epochsFrom host first first rest

def epochsLength (epochs : List CounterEpoch) : Int :=
  (epochs.map fun epoch => epoch.endMs - epoch.startMs).sum

def trustedWatchMs (history : List UsageSnapshot) : Int :=
  epochsLength (counterEpochs host history)

def blindWindow (previous next : UsageSnapshot) : Option BlindWindow :=
  blindHole previous.spanEnd next.spanStart (countersStartedAt host next)
    (restartedBetween host previous next)

def longerThan (minBlindMs : Int) (blind : Option BlindWindow) : List BlindWindow :=
  (blind.filter fun w => minBlindMs < w.endMs - w.startMs).toList

def blindWindowsOf (minBlindMs : Int) : List UsageSnapshot → List BlindWindow
  | [] => []
  | [_] => []
  | run :: next :: rest =>
    longerThan minBlindMs (blindWindow host run next) ++ blindWindowsOf minBlindMs (next :: rest)

def activePoints (series : List UsagePoint) : List UsagePoint :=
  series.filter fun point => 0 < point.ops

def laterOf (latest : Option Int) (instant : Int) : Option Int :=
  match latest with
  | none => some instant
  | some best => if best < instant then some instant else some best

def foldUsage (history : List UsageSnapshot) (minBlindMs : Int) : UsageFold :=
  let sorted := sortedRuns UsageSnapshot.toRun history
  let series := usageSeries sorted
  { runs := sorted.length
    observations := totalObservations UsagePoint.toRun series
    activeRuns := totalObservations UsagePoint.toRun (activePoints series)
    trustedWatchMs := trustedWatchMs host sorted
    newestEndMs := (sorted.map fun run => run.spanEnd).max?
    latestActivityMs :=
      ((activePoints series).map fun point => point.spanEnd).foldl laterOf none
    maxInteriorGapMs := (sorted.map fun run => run.interiorGap).foldl max 0
    blindWindows := blindWindowsOf host minBlindMs sorted }

end Fold

def BLIND_RECOVERY_DAYS : Int := 30

def usageTrustRefusalFrom (fold : UsageFold) (options : ClassifyOptions) (now : Int)
    (collectionActiveHours : Option ℚ) : Option UsageTrustRefusal :=
  let maxGap : ℚ := options.maxGapHours * HOUR_MS
  let recovered : Int := now - BLIND_RECOVERY_DAYS * 24 * HOUR_MS
  if (fold.observations : ℚ) < options.minHistory then some .tooFewCollects
  else if fold.runs = 0 then some .noHistory
  else if (fold.trustedWatchMs : ℚ) < options.minHistoryDays * 24 * HOUR_MS then
    some .spanTooShort
  else if collectionActiveHours.any (fun hours => hours < options.minActiveHours) then
    some .collectionIdle
  else if maxGap < fold.maxInteriorGapMs then some .gapInsideRun
  else if fold.blindWindows.any
      (fun w => maxGap < (w.endMs - w.startMs : Int) && recovered < w.endMs) then
    some .gapBetweenRuns
  else if fold.newestEndMs.any (fun newest => maxGap < (now - newest : Int)) then
    some .historyStale
  else none

def usageHistoryIsTrustworthyFrom (fold : UsageFold) (options : ClassifyOptions) (now : Int)
    (collectionActiveHours : Option ℚ) : Bool :=
  (usageTrustRefusalFrom fold options now collectionActiveHours).isNone

def trustedWatchDaysFrom (fold : UsageFold) : Int :=
  ⌊(fold.trustedWatchMs : ℚ) / (24 * HOUR_MS)⌋

def recentlyActive (fold : UsageFold) (options : ClassifyOptions) : Bool :=
  match fold.newestEndMs, fold.latestActivityMs with
  | some newest, some latest => decide ((newest : ℚ) - options.recentHours * HOUR_MS ≤ latest)
  | _, _ => false

def classifyUsageFrom (fold : UsageFold) (options : ClassifyOptions) : UsageClass :=
  if (fold.observations : ℚ) < options.minHistory then .FLAT_ZERO
  else if fold.activeRuns = 0 then .FLAT_ZERO
  else if fold.activeRuns = fold.observations then .CONTINUOUS
  else if recentlyActive fold options then .PERIODIC_ALIVE
  else .PERIODIC_DEAD

/-! ## The active points of a run -/

def sighting (m : Run × Int) : UsagePoint :=
  ⟨⟨m.1.capturedAt, m.1.capturedAt, some 1, some 0⟩, m.2⟩

theorem activePoints_pointsOf (run : Run) (ops : Int) :
    activePoints (pointsOf run ops) = if 0 < ops then [sighting (run, ops)] else [] := by
  unfold pointsOf
  by_cases hops : ops = 0
  · simp [activePoints, hops]
  · split_ifs <;> simp [activePoints, sighting, *]

end Indexterity
