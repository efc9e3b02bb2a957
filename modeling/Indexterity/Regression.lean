import Indexterity.Observed

/-!
# Regression: latency against one stored sample

`analysis/regression.ts`. Samples are cumulative counters; a pair of them is compared by the
average latency between the two against the average up to the first. The oldest baseline of
a run of builds is the sample from before the run.
-/

namespace Indexterity

structure LatencySample where
  ops : Int
  latencyMicros : Int
deriving DecidableEq, Repr

structure RegressionOptions where
  factor : ℚ
  minWindowOps : Int

inductive RegressionVerdict where
  | REGRESSED
  | STABLE
  | UNOBSERVABLE
deriving DecidableEq, Repr

def latencyRatio (baseline current : LatencySample) (minWindowOps : Int) : Option ℚ :=
  let windowOps := current.ops - baseline.ops
  if windowOps < minWindowOps then none
  else
    let windowAvg : ℚ := (current.latencyMicros - baseline.latencyMicros : Int) / windowOps
    let baselineAvg : ℚ := if 0 < baseline.ops then (baseline.latencyMicros : ℚ) / baseline.ops else 0
    if baselineAvg ≤ 0 then none else some (windowAvg / baselineAvg)

def evaluateRegression (baseline current : LatencySample) (options : RegressionOptions) :
    RegressionVerdict :=
  if current.ops < baseline.ops ∨ current.latencyMicros < baseline.latencyMicros then .UNOBSERVABLE
  else
    match latencyRatio baseline current options.minWindowOps with
    | none => .STABLE
    | some ratio => if options.factor < ratio then .REGRESSED else .STABLE

structure BuildBaseline where
  builtAt : Int
  baseline : LatencySample
deriving DecidableEq, Repr

def oldestLiveBaseline (baselines : List BuildBaseline) : Option BuildBaseline :=
  baselines.foldl (fun oldest candidate =>
    match oldest with
    | none => some candidate
    | some held => if candidate.builtAt < held.builtAt then some candidate else some held) none

end Indexterity
