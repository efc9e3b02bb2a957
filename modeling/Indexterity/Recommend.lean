import Indexterity.Classify
import Indexterity.Redundancy

/-!
# Recommend: which drops one collection is offered

`analysis/recommend.ts` with the drop half of `analysis/score.ts`. Redundancy is
decided against the whole input list, usage against each index's own history, and the
two passes share only the set of names already found redundant. A record by index name
is a function, `none` where it has no entry.
-/

namespace Indexterity

/-! ## Scores -/

structure DropSignals where
  usageClass : Option UsageClass
  snapshots : Int
  redundant : Bool
  sizeBytes : ℚ
  regressionWeight : ℚ

def GB : ℚ := 1024 ^ 3
def SNAPSHOTS_FOR_FULL_CREDIT : ℚ := 125
def SNAPSHOTS_FOR_A_WEEK : Int := 28
def THIN_EVIDENCE_MAX : ℚ := 25
def REGRESSION_PENALTY : ℚ := 40

def thinEvidencePenalty (snapshots : Int) : Int :=
  if SNAPSHOTS_FOR_A_WEEK ≤ snapshots then 0
  else mathRound (THIN_EVIDENCE_MAX * (1 - (snapshots : ℚ) / SNAPSHOTS_FOR_A_WEEK))

def clamp (score : ℚ) : Int := max 0 (min 100 (mathRound score))

def dropScore (host : Host) (signals : DropSignals) : Int :=
  let argument : ℚ :=
    if signals.redundant then 55
    else
      match signals.usageClass with
      | some .FLAT_ZERO => 50
      | some .PERIODIC_DEAD => 35
      | _ => 0
  let history : ℚ := min 25 ⌊25 * (signals.snapshots : ℚ) / SNAPSHOTS_FOR_FULL_CREDIT⌋
  let thin : ℚ := if signals.usageClass.isSome then thinEvidencePenalty signals.snapshots else 0
  let size : ℚ :=
    if 0 < signals.sizeBytes then
      min 20 (mathRound (20 * host.log10 (1 + 9 * signals.sizeBytes / GB)))
    else 0
  clamp (argument + history - thin + size - signals.regressionWeight * REGRESSION_PENALTY)

/-! ## Findings -/

inductive RecommendationType where
  | DROP_UNUSED
  | DROP_REDUNDANT
  | MERGE
  | CREATE
  | UPDATE
  | REORDER
  | ADVISORY_REVIEW
deriving DecidableEq, Repr

structure IndexInput where
  spec : IndexSpec
  usage : UsageFold
  /-- A drop of this index is already proposed, approved or hidden. -/
  pendingRemoval : Bool
deriving DecidableEq

structure RecommendationCandidate where
  type : RecommendationType
  indexName : String
  usageClass : Option UsageClass
  rationale : String
  score : Int
  estimatedBytesSaved : ℚ
  evidenceDays : Option Int
deriving DecidableEq

def advisoryRationale (spec : IndexSpec) : String :=
  let operator := if spec.keys.any fun key => key.direction == .text then "$text" else "$near"
  "No recorded usage, but this index is the only way its queries run: hiding it makes " ++
    operator ++ " fail outright rather than run slower, so the observe window cannot test " ++
    "the drop and the engine never proposes one. If the feature it served is gone, drop it " ++
    "yourself with dropIndex."

def UsageClass.isDead : UsageClass → Bool
  | FLAT_ZERO => true
  | PERIODIC_DEAD => true
  | _ => false

/-- What a collection's indexes are judged with. -/
structure CollectionFacts where
  host : Host
  sizes : String → Option ℚ
  options : ClassifyOptions
  regressionWeights : String → Option ℚ
  now : Int
  activeHours : Option ℚ

section Collection
variable (facts : CollectionFacts) (indexes : List IndexInput)

def eligible : List IndexInput := indexes.filter fun index => !isNeverDrop index.spec

def coveringOf (candidate : IndexInput) : Option IndexInput :=
  indexes.find? fun other => !other.pendingRemoval && isRedundantPrefix candidate.spec other.spec

def trusted (index : IndexInput) : Bool :=
  usageHistoryIsTrustworthyFrom index.usage facts.options facts.now facts.activeHours

def sizeBytesOf (name : String) : ℚ := (facts.sizes name).getD 0

def scoreOf (index : IndexInput) (usageClass : Option UsageClass) (redundant : Bool) : Int :=
  dropScore facts.host
    { usageClass, snapshots := index.usage.observations, redundant
      sizeBytes := sizeBytesOf facts index.spec.name
      regressionWeight := (facts.regressionWeights index.spec.name).getD 0 }

def redundantRationale (candidate covering : IndexSpec) : String :=
  if servedByBackwardWalk candidate covering then
    "Key-prefix of " ++ covering.name ++ " with every direction reversed, which the " ++
      "server serves by reading that index backwards — so it already covers this one."
  else "Key-prefix of " ++ covering.name ++ ", which already covers it."

def redundantFinding (candidate : IndexInput) : Option RecommendationCandidate :=
  (coveringOf indexes candidate).map fun covering =>
    { type := .DROP_REDUNDANT
      indexName := candidate.spec.name
      usageClass := none
      rationale := redundantRationale candidate.spec covering.spec
      score := scoreOf facts candidate none true
      estimatedBytesSaved := sizeBytesOf facts candidate.spec.name
      evidenceDays := none }

def redundantNames : List String :=
  ((eligible indexes).filter fun candidate => (coveringOf indexes candidate).isSome).map
    fun candidate => candidate.spec.name

def unusedRationale : UsageClass → String
  | .PERIODIC_DEAD => "Was periodic, then went quiet — the workload using it appears retired."
  | _ => "No recorded usage across the observation window."

/-- The verdict of the usage gates: a class that argues for a drop, on a history that can
be trusted. -/
def deadClass (index : IndexInput) : Option UsageClass :=
  if trusted facts index then
    let usageClass := classifyUsageFrom index.usage facts.options
    if usageClass.isDead then some usageClass else none
  else none

def usageFinding (type : RecommendationType) (rationale : UsageClass → String)
    (index : IndexInput) : Option RecommendationCandidate :=
  (deadClass facts index).map fun usageClass =>
    { type
      indexName := index.spec.name
      usageClass := some usageClass
      rationale := rationale usageClass
      score := scoreOf facts index (some usageClass) false
      estimatedBytesSaved := sizeBytesOf facts index.spec.name
      evidenceDays := some (trustedWatchDaysFrom index.usage) }

def unusedFindings : List RecommendationCandidate :=
  ((eligible indexes).filter fun index =>
    !(redundantNames indexes).contains index.spec.name).filterMap
      (usageFinding facts .DROP_UNUSED unusedRationale)

def advisoryFindings : List RecommendationCandidate :=
  (indexes.filter fun index => hideBreaksQueries index.spec).filterMap fun index =>
    usageFinding facts .ADVISORY_REVIEW (fun _ => advisoryRationale index.spec) index

def uniqueRationale (index wider : IndexSpec) : String :=
  "Unique index whose keys are a prefix of " ++ wider.name ++
    (if servedByBackwardWalk index wider then
      " (with every direction reversed, which that index serves by being read backwards)"
    else "") ++
    " — the index data is " ++
    "redundant, but dropping it would lose the uniqueness constraint. If the constraint " ++
    "is obsolete, drop it yourself; if not, consider making " ++ wider.name ++ " unique " ++
    "and dropping this one. Never auto-dropped."

def uniqueFinding (index : IndexInput) : Option RecommendationCandidate :=
  if !index.spec.unique || index.spec.name == "_id_" || index.spec.isShardKey then none
  else if ((advisoryFindings facts indexes).map fun c => c.indexName).contains index.spec.name then
    none
  else
    (indexes.find? fun other => !other.pendingRemoval && isKeyPrefix index.spec other.spec &&
      coversIncludes index.spec other.spec).map fun wider =>
        { type := .ADVISORY_REVIEW
          indexName := index.spec.name
          usageClass := none
          rationale := uniqueRationale index.spec wider.spec
          score := scoreOf facts index none true
          estimatedBytesSaved := sizeBytesOf facts index.spec.name
          evidenceDays := none }

def recommendForCollection : List RecommendationCandidate :=
  (eligible indexes).filterMap (redundantFinding facts indexes) ++ unusedFindings facts indexes ++
    advisoryFindings facts indexes ++ indexes.filterMap (uniqueFinding facts indexes)

end Collection

end Indexterity
