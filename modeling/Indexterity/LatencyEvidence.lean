import Indexterity.Activity
import Indexterity.Latency
import Indexterity.Library.Sql

/-!
# Latency evidence: the folds of a collection, computed by a query

`jobs/latency-evidence.ts`, for the rows of one namespace. The query orders the rows once with
`lag` beside each, derives everything either fold reads of a row and the one before it, groups
equal gaps, ranks the groups to find their weighted median, and sums. Every common table
expression of the query is a definition here. `double precision` is exact.

It agrees with `foldActivity` and `foldObservation` over the same rows. Gaps grouped and gaps
one by one have the same weight up to every length, and a weighted median depends on no more.
-/

namespace Indexterity

open Library

abbrev LatencySampleRow := LatencyRow CollectedLatency

/-- A row of `steps`. -/
structure EvidenceStep where
  capturedAt : Int
  lastSeenAt : Int
  betweenMs : Option Int
  interiorMs : Option ℚ
  interiorWeight : Int
  moved : Bool
  drawable : Bool

/-- A row of `ranked`. -/
structure RankedGap where
  ms : ℚ
  cumulative : Int
  total : Int
  nextMs : Option ℚ

/-- A row of the result. -/
structure EvidenceRow where
  capMs : Option ℚ
  activeMs : Option ℚ
  elapsedMs : Int
  drawableMs : Option Int

structure CollectionEvidence where
  activity : ActivityFold
  observation : ObservationFold
deriving DecidableEq

def NO_EVIDENCE : CollectionEvidence := ⟨⟨0, false⟩, ⟨false, 0, 0⟩⟩

section Query

def retained (since : Int) (rows : List LatencySampleRow) : List LatencySampleRow :=
  rows.filter fun row => decide (since ≤ row.lastSeenAt)

def orderedRows (rows : List LatencySampleRow) : List LatencySampleRow :=
  Sql.orderBy LatencyRow.capturedAt rows

/-- What is read of a row and the one before it. Without one before it every comparison with it
is null, and the row neither moved nor is drawable. -/
def evidenceStep (previous : Option LatencySampleRow) (row : LatencySampleRow) : EvidenceStep where
  capturedAt := row.capturedAt
  lastSeenAt := row.lastSeenAt
  betweenMs := previous.map fun p => row.capturedAt - p.lastSeenAt
  interiorMs :=
    if 1 < row.observations ∧ row.capturedAt < row.lastSeenAt then
      some (((row.lastSeenAt - row.capturedAt : Int) : ℚ) / (row.observations - 1 : Int))
    else none
  interiorWeight := row.observations - 1
  moved := previous.any fun p =>
    decide (0 ≤ row.sample.selfReadOps - p.sample.selfReadOps) &&
      decide (0 < row.sample.readOps - p.sample.readOps -
        (row.sample.selfReadOps - p.sample.selfReadOps))
  drawable := previous.any fun p =>
    decide (0 ≤ row.sample.readOps - p.sample.readOps) &&
      decide (0 ≤ row.sample.readLatencyMicros - p.sample.readLatencyMicros)

def evidenceSteps (rows : List LatencySampleRow) : List EvidenceStep :=
  (withPrevious none (orderedRows rows)).map fun p => evidenceStep p.1 p.2

def interiorGapOf (step : EvidenceStep) : List Gap :=
  match step.interiorMs with
  | some ms => if 0 < ms then [⟨ms, step.interiorWeight⟩] else []
  | none => []

def betweenGapOf (step : EvidenceStep) : List Gap :=
  match step.betweenMs with
  | some ms => if 0 < ms then [⟨ms, 1⟩] else []
  | none => []

def gapsOfSteps (steps : List EvidenceStep) : List Gap :=
  steps.flatMap interiorGapOf ++ steps.flatMap betweenGapOf

def buckets (gaps : List Gap) : List Gap :=
  (Sql.groupBy Gap.ms gaps).map fun group => ⟨group.1, (group.2.map Gap.weight).sum⟩

def rank (total : Int) (p : (Gap × Int) × Option (Gap × Int)) : RankedGap :=
  ⟨p.1.1.ms, p.1.2, total, p.2.map fun next => next.1.ms⟩

def ranked (buckets : List Gap) : List RankedGap :=
  (Sql.withNext (Sql.withRunningSum Gap.weight 0 (Sql.orderBy Gap.ms buckets))).map
    (rank (buckets.map Gap.weight).sum)

def RankedGap.capMs (gap : RankedGap) : ℚ :=
  match gap.nextMs with
  | some next => if gap.cumulative * 2 = gap.total then (gap.ms + next) / 2 else gap.ms
  | none => gap.ms

def medianCap (ranked : List RankedGap) : Option ℚ :=
  (Sql.orderBy RankedGap.cumulative
    (ranked.filter fun gap => decide (gap.total ≤ gap.cumulative * 2))).head?.map RankedGap.capMs

/-- `least` of the three is over values that are there. -/
def creditOf (capMs : Option ℚ) (step : EvidenceStep) : Option ℚ :=
  match capMs, step.betweenMs with
  | some cap, some ms =>
    if step.moved then some (min (min (ms : ℚ) cap) MAX_ACTIVE_CREDIT_MS) else none
  | _, _ => none

def drawableOf (step : EvidenceStep) : Option Int := if step.drawable then step.betweenMs else none

def evidenceRow (steps : List EvidenceStep) : Option EvidenceRow := do
  let newest ← (steps.map EvidenceStep.lastSeenAt).max?
  let oldest ← (steps.map EvidenceStep.capturedAt).min?
  let capMs := medianCap (ranked (buckets (gapsOfSteps steps)))
  some
    { capMs := capMs
      activeMs := Sql.sum (steps.map (creditOf capMs))
      elapsedMs := newest - oldest
      drawableMs := Sql.sum (steps.map drawableOf) }

def evidenceOf (row : EvidenceRow) : CollectionEvidence where
  activity :=
    match row.capMs with
    | none => ⟨0, false⟩
    | some _ => ⟨row.activeMs.getD 0, true⟩
  observation := ⟨true, row.elapsedMs, row.drawableMs.getD 0⟩

def collectionEvidence (since : Int) (rows : List LatencySampleRow) : Option CollectionEvidence :=
  (evidenceRow (evidenceSteps (retained since rows))).map evidenceOf

end Query

def activityOf (row : LatencySampleRow) : ActivityPoint where
  toRun := row.run
  readOps := row.sample.readOps
  selfReadOps := row.sample.selfReadOps

/-! ## The median of the groups -/

variable {seen total : Int} {next row : LatencySampleRow}

section Median
variable {gaps : List Gap}

theorem mem_buckets {bucket : Gap} (h : bucket ∈ buckets gaps) (hpos : ∀ g ∈ gaps, 0 < g.weight) :
    0 < bucket.weight := by
  obtain ⟨group, hgroup, rfl⟩ := List.mem_map.mp h
  obtain ⟨hne, hrows⟩ := Sql.key_of_mem_groupBy Gap.ms hgroup
  exact List.sum_pos _ (List.forall_mem_map.mpr fun g hg => hpos g (hrows g hg).1) (by simpa using hne)

/-- A group stands for its gaps: all of one length, and weighing as much together. -/
theorem repeatedGaps_buckets (hpos : ∀ g ∈ gaps, 0 < g.weight) :
    (repeatedGaps (buckets gaps)).Perm (repeatedGaps gaps) := by
  have hsum (xs : List Gap) : (repeatedGaps xs : Multiset ℚ) =
      (xs.map fun gap => (repeatedGaps [gap] : Multiset ℚ)).sum := by
    induction xs with
    | nil => rfl
    | cons gap xs ih =>
      rw [List.map_cons, List.sum_cons, ← ih, Multiset.coe_add]
      simp [repeatedGaps]
  rw [← Multiset.coe_eq_coe, hsum, hsum gaps, ← Sql.sum_groupBy Gap.ms _ gaps, buckets, List.map_map]
  refine congrArg List.sum (List.map_congr_left fun group hgroup => ?_)
  have hrows := (Sql.key_of_mem_groupBy Gap.ms hgroup).2
  have hlength := length_repeatedGaps fun gap hgap => hpos gap (hrows gap hgap).1
  have hgroup : repeatedGaps group.2 = List.replicate (group.2.map Gap.weight).sum.toNat group.1 := by
    refine List.eq_replicate_iff.mpr ⟨by omega, fun ms hms => ?_⟩
    obtain ⟨gap, hgap, hms⟩ := List.mem_flatMap.mp hms
    rw [List.eq_of_mem_replicate hms, (hrows gap hgap).2]
  rw [← hsum, hgroup]
  simp [repeatedGaps]

def ranksFrom (total seen : Int) (gaps : List Gap) : List RankedGap :=
  (Sql.withNext (Sql.withRunningSum Gap.weight seen gaps)).map (rank total)

theorem ranksFrom_cons (total seen : Int) (gap : Gap) (rest : List Gap) :
    ranksFrom total seen (gap :: rest) =
      ⟨gap.ms, seen + gap.weight, total, rest.head?.map Gap.ms⟩ ::
        ranksFrom total (seen + gap.weight) rest := by
  cases rest <;> rfl

section
variable (hpos : ∀ g ∈ gaps, 0 < g.weight)
include hpos

theorem le_cumulative :
    ∀ r ∈ ranksFrom total seen gaps, seen ≤ r.cumulative ∧ r.total = total := by
  induction gaps generalizing seen with
  | nil => exact nofun
  | cons gap rest ih =>
    obtain ⟨hgap, hrest⟩ := List.forall_mem_cons.mp hpos
    rw [ranksFrom_cons]
    refine List.forall_mem_cons.mpr ⟨⟨by dsimp only; omega, rfl⟩, fun r hr => ?_⟩
    obtain ⟨hle, htotal⟩ := ih hrest r hr
    exact ⟨by omega, htotal⟩

theorem ranksFrom_sorted :
    (ranksFrom total seen gaps).Pairwise fun a b => a.cumulative ≤ b.cumulative := by
  induction gaps generalizing seen with
  | nil => exact .nil
  | cons gap rest ih =>
    have hrest := (List.forall_mem_cons.mp hpos).2
    exact List.pairwise_cons.mpr ⟨fun r hr => (le_cumulative hrest r hr).1, ih hrest⟩

theorem find_ranksFrom {last : ℚ} (hne : gaps ≠ []) (hseen : 0 ≤ seen)
    (htotal : seen + (gaps.map Gap.weight).sum = total) :
    ((ranksFrom total seen gaps).find? fun r => decide (r.total ≤ r.cumulative * 2)).map
      RankedGap.capMs = some (medianFrom total last seen gaps) := by
  induction gaps generalizing seen with
  | nil => exact absurd rfl hne
  | cons gap rest ih =>
    obtain ⟨hgap, hrest⟩ := List.forall_mem_cons.mp hpos
    rw [List.map_cons, List.sum_cons] at htotal
    rw [ranksFrom_cons]
    unfold medianFrom
    by_cases hreached : total ≤ (seen + gap.weight) * 2
    · rw [List.find?_cons_of_pos (by simpa using hreached), Option.map_some]
      rcases hreached.eq_or_lt with heq | hlt
      · rw [if_neg heq.not_lt, if_pos heq.symm]
        cases rest with
        | nil => rfl
        | cons next rest => exact congrArg some (if_pos heq.symm)
      · rw [if_pos hlt]
        cases rest with
        | nil => rfl
        | cons next rest => exact congrArg some (if_neg hlt.ne')
    · have hne' : rest ≠ [] := by
        rintro rfl
        simp at htotal
        omega
      rw [List.find?_cons_of_neg (by simpa using hreached), if_neg (by omega), if_neg (by omega)]
      exact ih hrest hne' (by omega) (by omega)

end

theorem medianCap_eq (hne : gaps ≠ []) (hpos : ∀ g ∈ gaps, 0 < g.weight) :
    medianCap (ranked (buckets gaps)) = some (median (repeatedGaps gaps)) := by
  have hperm := Sql.orderBy_perm Gap.ms (buckets gaps)
  have hweights : ∀ g ∈ Sql.orderBy Gap.ms (buckets gaps), 0 < g.weight :=
    fun g hg => mem_buckets (hperm.mem_iff.mp hg) hpos
  have hsum : ((Sql.orderBy Gap.ms (buckets gaps)).map Gap.weight).sum =
      ((buckets gaps).map Gap.weight).sum := (hperm.map Gap.weight).sum_eq
  have hrepeated : (repeatedGaps (Sql.orderBy Gap.ms (buckets gaps))).Perm (repeatedGaps gaps) :=
    (repeatedGaps_perm hperm).trans (repeatedGaps_buckets hpos)
  have hlength := length_repeatedGaps hweights
  have htotal : 0 < ((buckets gaps).map Gap.weight).sum := by
    rw [← hsum, ← hlength, hrepeated.length_eq, length_repeatedGaps hpos]
    exact List.sum_pos _ (List.forall_mem_map.mpr hpos) (by simpa using hne)
  have hsorted : Sql.orderBy Gap.ms (buckets gaps) ≠ [] := by
    intro hnil
    rw [← hsum, hnil] at htotal
    exact absurd htotal (lt_irrefl _)
  have hmedian : median (repeatedGaps gaps) =
      medianFrom ((buckets gaps).map Gap.weight).sum 0 0 (Sql.orderBy Gap.ms (buckets gaps)) := by
    rw [← median_perm hrepeated, median_of_sorted (repeatedGaps_sorted (Sql.orderBy_sorted _ _))]
    exact (@medianFrom_eq_middle _ [] _ _ hweights (hlength.trans hsum) htotal).symm
  have hranked : ranked (buckets gaps) = ranksFrom ((buckets gaps).map Gap.weight).sum 0
      (Sql.orderBy Gap.ms (buckets gaps)) := rfl
  rw [hmedian, medianCap, hranked, Sql.orderBy_of_sorted _
    ((ranksFrom_sorted hweights).sublist List.filter_sublist), List.head?_filter]
  exact find_ranksFrom hweights hsorted le_rfl ((Int.zero_add _).trans hsum)

end Median

/-! ## The rows in order -/

section Rows
variable {rows : List LatencySampleRow}

theorem sortedRuns_rows {τ : Type} (toRun : τ → Run) (read : LatencySampleRow → τ)
    (hread : ∀ row, toRun (read row) = row.run) (rows : List LatencySampleRow) :
    sortedRuns toRun (rows.map read) = (orderedRows rows).map read :=
  sortedRuns_map toRun (fun row => congrArg Run.capturedAt (hread row)) rows

end Rows

/-! ## The gaps -/

section Gaps
variable {α β : Type}

theorem observationGaps_perm (run : α → Run) (xs : List α) :
    (observationGaps run xs).Perm (xs.flatMap (fun x => interiorGaps (run x)) ++
      (neighbours xs).flatMap fun p => betweenGaps (run p.1) (run p.2)) := by
  induction xs with
  | nil => exact .nil
  | cons x xs ih =>
    cases xs with
    | nil => simp [observationGaps]
    | cons y xs =>
      change (interiorGaps (run x) ++ betweenGaps (run x) (run y) ++
        observationGaps run (y :: xs)).Perm (interiorGaps (run x) ++ _ ++
          (betweenGaps (run x) (run y) ++ _))
      rw [List.append_assoc, List.append_assoc]
      refine ((ih.append_left _).trans ?_).append_left _
      rw [← List.append_assoc, ← List.append_assoc]
      exact List.perm_append_comm.append_right _

variable {rows : List LatencySampleRow}

theorem interiorGapOf_evidenceStep (previous : Option LatencySampleRow)
    (hforward : row.capturedAt ≤ row.lastSeenAt) (hobserved : 1 ≤ row.observations) :
    interiorGapOf (evidenceStep previous row) = interiorGaps row.run := by
  have hcount : row.run.observationsOf = row.observations := max_eq_right hobserved
  have hstart : row.run.spanStart = row.capturedAt := rfl
  have hend : row.run.spanEnd = row.lastSeenAt := max_eq_right hforward
  unfold interiorGapOf evidenceStep interiorGaps
  rw [hcount, hstart, hend]
  by_cases hspan : 1 < row.observations ∧ row.capturedAt < row.lastSeenAt
  · have hms : (0 : ℚ) < ((row.lastSeenAt - row.capturedAt : Int) : ℚ) /
        ((row.observations - 1 : Int) : ℚ) :=
      div_pos (Int.cast_pos.mpr (sub_pos.mpr hspan.2)) (Int.cast_pos.mpr (sub_pos.mpr hspan.1))
    rw [if_pos hspan, if_pos ⟨hspan.1, sub_pos.mpr hspan.2⟩]
    exact if_pos hms
  · rw [if_neg hspan, if_neg fun h => hspan ⟨h.1, sub_pos.mp h.2⟩]

theorem betweenGapOf_evidenceStep (hforward : row.capturedAt ≤ row.lastSeenAt) :
    betweenGapOf (evidenceStep (some row) next) = betweenGaps row.run next.run := by
  have hend : row.run.spanEnd = row.lastSeenAt := max_eq_right hforward
  unfold betweenGaps
  rw [hend]
  rfl

theorem gapsOfSteps_perm (hforward : ∀ row ∈ rows, row.capturedAt ≤ row.lastSeenAt)
    (hobserved : ∀ row ∈ rows, 1 ≤ row.observations) :
    (gapsOfSteps (evidenceSteps rows)).Perm
      (observationGaps LatencyRow.run (orderedRows rows)) := by
  have hmem : ∀ row ∈ orderedRows rows, row ∈ rows :=
    fun row hrow => (Sql.orderBy_perm LatencyRow.capturedAt rows).mem_iff.mp hrow
  have hinterior : (evidenceSteps rows).flatMap interiorGapOf =
      (orderedRows rows).flatMap fun row => interiorGaps row.run := by
    rw [evidenceSteps, List.flatMap_map, ← map_snd_withPrevious none (orderedRows rows),
      List.flatMap_map, map_snd_withPrevious]
    refine List.flatMap_congr fun p hp => ?_
    have hrow : p.2 ∈ rows := hmem _ (by
      rw [← map_snd_withPrevious none (orderedRows rows)]
      exact List.mem_map_of_mem hp)
    exact interiorGapOf_evidenceStep p.1 (hforward _ hrow) (hobserved _ hrow)
  have hbetween : (evidenceSteps rows).flatMap betweenGapOf =
      (neighbours (orderedRows rows)).flatMap fun p => betweenGaps p.1.run p.2.run := by
    rw [evidenceSteps]
    cases hrows : orderedRows rows with
    | nil => rfl
    | cons first rest =>
      rw [withPrevious_none_cons, List.map_cons, List.flatMap_cons, List.map_map, List.flatMap_map]
      refine List.flatMap_congr fun p hp => ?_
      have hrow : p.1 ∈ rows := hmem _ (hrows ▸ (mem_of_mem_neighbours hp).1)
      exact betweenGapOf_evidenceStep (hforward _ hrow)
  rw [gapsOfSteps, hinterior, hbetween]
  exact (observationGaps_perm _ _).symm

end Gaps

/-! ## The folds -/

section Folds
variable {rows : List LatencySampleRow}

theorem sum_evidenceSteps {M : Type} [AddMonoid M] {f : EvidenceStep → Option M}
    (hfirst : ∀ row, f (evidenceStep none row) = none) :
    (Sql.sum ((evidenceSteps rows).map f)).getD 0 =
      ((neighbours (orderedRows rows)).map fun p =>
        (f (evidenceStep (some p.1) p.2)).getD 0).sum := by
  rw [Sql.sum_getD, evidenceSteps]
  cases orderedRows rows with
  | nil => rfl
  | cons first rest =>
    rw [withPrevious_none_cons]
    simp [hfirst, Function.comp_def]

theorem creditOf_evidenceStep {cap : ℚ} (hforward : row.capturedAt ≤ row.lastSeenAt) :
    (creditOf (some cap) (evidenceStep (some row) next)).getD 0 =
      activeCredit (min cap MAX_ACTIVE_CREDIT_MS) (activityOf row) (activityOf next) := by
  have hend : (activityOf row).spanEnd = row.lastSeenAt := max_eq_right hforward
  have hmoved : (evidenceStep (some row) next).moved = true ↔
      readsMoved (activityOf row) (activityOf next) := by
    simp [evidenceStep, readsMoved, activityOf]
  unfold activeCredit
  rw [hend, ← min_assoc]
  by_cases h : readsMoved (activityOf row) (activityOf next)
  · rw [if_pos h]
    exact congrArg (fun credit : Option ℚ => credit.getD 0) (if_pos (hmoved.mpr h))
  · rw [if_neg h]
    exact congrArg (fun credit : Option ℚ => credit.getD 0) (if_neg (mt hmoved.mp h))

theorem activity_evidence (hforward : ∀ row ∈ rows, row.capturedAt ≤ row.lastSeenAt)
    (hobserved : ∀ row ∈ rows, 1 ≤ row.observations) {row : EvidenceRow}
    (hrow : evidenceRow (evidenceSteps rows) = some row) :
    (evidenceOf row).activity = foldActivity (rows.map activityOf) := by
  have hmem : ∀ row ∈ orderedRows rows, row ∈ rows :=
    fun row hrow => (Sql.orderBy_perm LatencyRow.capturedAt rows).mem_iff.mp hrow
  have hgaps := gapsOfSteps_perm hforward hobserved
  have hsorted := sortedRuns_rows ActivityPoint.toRun activityOf (fun _ => rfl) rows
  have hseries : observationGaps ActivityPoint.toRun (sortedRuns ActivityPoint.toRun
      (sortedRuns ActivityPoint.toRun (rows.map activityOf))) =
      observationGaps LatencyRow.run (orderedRows rows) := by
    rw [sortedRuns_idem, hsorted, observationGaps_map]
    rfl
  have hmedian := medianObservationGap_eq ActivityPoint.toRun
    (sortedRuns ActivityPoint.toRun (rows.map activityOf))
  rw [hseries] at hmedian
  unfold evidenceRow at hrow
  obtain ⟨newest, -, hrow⟩ := Option.bind_eq_some_iff.mp hrow
  obtain ⟨oldest, -, hrow⟩ := Option.bind_eq_some_iff.mp hrow
  obtain rfl := Option.some.inj hrow
  unfold evidenceOf foldActivity
  dsimp only
  by_cases hnil : observationGaps LatencyRow.run (orderedRows rows) = []
  · have hempty : gapsOfSteps (evidenceSteps rows) = [] := List.perm_nil.mp (hnil ▸ hgaps)
    rw [hmedian, hnil, hempty, if_pos (by simp [repeatedGaps, median, middle])]
    rfl
  · have hpos := medianObservationGap_pos ActivityPoint.toRun
      (sortedRuns ActivityPoint.toRun (rows.map activityOf)) (hseries.trans_ne hnil)
    have hweights : ∀ g ∈ gapsOfSteps (evidenceSteps rows), 0 < g.weight :=
      fun g hg => (observationGaps_pos _ (hgaps.mem_iff.mp hg)).2
    rw [medianCap_eq (fun hgone => hnil (List.nil_perm.mp (hgone ▸ hgaps))) hweights,
      median_perm (repeatedGaps_perm hgaps), ← hmedian, if_neg hpos.ne', hsorted,
      neighbours_map, List.map_map]
    dsimp only
    rw [sum_evidenceSteps fun _ => rfl]
    congr 2
    refine List.map_congr_left fun p hp => ?_
    exact creditOf_evidenceStep (hforward _ (hmem _ (mem_of_mem_neighbours hp).1))

theorem windowsLength_windowBetween (hforward : row.capturedAt ≤ row.lastSeenAt) :
    windowsLength (windowBetween .read (readingOf id row) (readingOf id next)) =
      (drawableOf (evidenceStep (some row) next)).getD 0 := by
  have hend : (readingOf id row).spanEnd = row.lastSeenAt := spanEnd_readingOf hforward
  have hdrawn : (evidenceStep (some row) next).drawable = true ↔
      ¬ (next.sample.readOps - row.sample.readOps < 0 ∨
        next.sample.readLatencyMicros - row.sample.readLatencyMicros < 0) := by
    simp [evidenceStep]
  unfold windowBetween drawableOf
  rw [hend]
  by_cases hfell : next.sample.readOps - row.sample.readOps < 0 ∨
      next.sample.readLatencyMicros - row.sample.readLatencyMicros < 0
  · rw [if_neg fun h => hdrawn.mp h hfell]
    exact congrArg windowsLength (if_pos hfell)
  · rw [if_pos (hdrawn.mpr hfell)]
    refine (congrArg windowsLength (if_neg hfell)).trans ?_
    exact List.sum_singleton

theorem windowsLength_windowsFrom {rows : List LatencySampleRow}
    (hforward : ∀ row ∈ rows, row.capturedAt ≤ row.lastSeenAt) :
    windowsLength (windowsFrom .read (rows.map (readingOf id))) =
      ((neighbours rows).map fun p => (drawableOf (evidenceStep (some p.1) p.2)).getD 0).sum := by
  rw [windowsFrom_eq, neighbours_map, List.map_map, windowsLength, List.map_flatten,
    List.sum_flatten, List.map_map, List.map_map]
  refine congrArg List.sum (List.map_congr_left fun p hp => ?_)
  exact windowsLength_windowBetween (hforward p.1 (mem_of_mem_neighbours hp).1)

theorem observation_evidence (happart : Apart (rows.map LatencyRow.span))
    (hforward : ∀ row ∈ rows, row.capturedAt ≤ row.lastSeenAt) {row : EvidenceRow}
    (hrow : evidenceRow (evidenceSteps rows) = some row) :
    (evidenceOf row).observation = foldObservation (rows.map (readingOf id)) .read := by
  have hsorted := sortedRuns_rows LatencyReading.toRun (readingOf id) (fun _ => rfl) rows
  have hmem : ∀ row ∈ orderedRows rows, row.capturedAt ≤ row.lastSeenAt :=
    fun row hrow => hforward row ((Sql.orderBy_perm LatencyRow.capturedAt rows).mem_iff.mp hrow)
  have hbehind : (orderedRows rows).Pairwise fun a b => a.lastSeenAt < b.capturedAt :=
    Sql.orderBy_of_apart happart hforward
  have hdrawable : (Sql.sum ((evidenceSteps rows).map drawableOf)).getD 0 =
      windowsLength (windowsOf (rows.map (readingOf id)) .read) := by
    rw [sum_evidenceSteps fun _ => rfl, windowsOf, hsorted, windowsLength_windowsFrom hmem]
  have hends (f : EvidenceStep → Int) (g : LatencySampleRow → Int)
      (hfg : ∀ p row, f (evidenceStep p row) = g row) :
      (evidenceSteps rows).map f = (orderedRows rows).map g := by
    rw [evidenceSteps, List.map_map, ← map_snd_withPrevious none (orderedRows rows), List.map_map,
      map_snd_withPrevious]
    exact List.map_congr_left fun p _ => hfg p.1 p.2
  unfold evidenceRow at hrow
  rw [hends _ LatencyRow.lastSeenAt fun _ _ => rfl, hends _ LatencyRow.capturedAt fun _ _ => rfl]
    at hrow
  obtain ⟨newest, hnewest, hrow⟩ := Option.bind_eq_some_iff.mp hrow
  obtain ⟨oldest, holdest, hrow⟩ := Option.bind_eq_some_iff.mp hrow
  obtain rfl := Option.some.inj hrow
  have hstarts : ((orderedRows rows).map LatencyRow.capturedAt).Pairwise (· ≤ ·) :=
    List.pairwise_map.mpr (Sql.orderBy_sorted LatencyRow.capturedAt rows)
  have hstops : ((orderedRows rows).map LatencyRow.lastSeenAt).Pairwise (· ≤ ·) := by
    refine List.pairwise_map.mpr ((List.Pairwise.and_mem.mp hbehind).imp ?_)
    rintro a b ⟨-, hb, hlt⟩
    exact hlt.le.trans (hmem b hb)
  rw [Sql.max?_of_sorted hstops, List.getLast?_map, Option.map_eq_some_iff] at hnewest
  rw [Sql.min?_of_sorted hstarts, List.head?_map, Option.map_eq_some_iff] at holdest
  obtain ⟨last, hlast, rfl⟩ := hnewest
  obtain ⟨first, hfirst, rfl⟩ := holdest
  have hend : (readingOf id last).spanEnd = last.lastSeenAt :=
    spanEnd_readingOf (hmem last (List.mem_of_getLast? hlast))
  unfold evidenceOf foldObservation
  dsimp only
  rw [hsorted, ← hdrawable, List.head?_map, List.getLast?_map, hfirst, hlast]
  dsimp only [Option.map_some]
  rw [hend]
  rfl

theorem isSome_evidenceRow : (evidenceRow (evidenceSteps rows)).isSome ↔ rows ≠ [] := by
  have hlength : (evidenceSteps rows).length = rows.length := by
    have hpairs := congrArg List.length (map_snd_withPrevious none (orderedRows rows))
    rw [List.length_map] at hpairs
    rw [evidenceSteps, List.length_map, hpairs]
    exact (Sql.orderBy_perm LatencyRow.capturedAt rows).length_eq
  unfold evidenceRow
  cases hsteps : evidenceSteps rows with
  | nil =>
    rw [hsteps] at hlength
    simp [List.eq_nil_of_length_eq_zero hlength.symm]
  | cons step steps =>
    have hne : rows ≠ [] := by
      rintro rfl
      rw [hsteps] at hlength
      cases hlength
    simp [hne, List.max?_cons, List.min?_cons]

end Folds

/-- The query and the folds over the same rows agree: a namespace with a reading in the window
has an entry with both folds, and without one the entry that stands in for it has them. -/
theorem collectionEvidence_eq_folds (since : Int) (rows : List LatencySampleRow)
    (happart : Apart (rows.map LatencyRow.span))
    (hforward : ∀ row ∈ rows, row.capturedAt ≤ row.lastSeenAt)
    (hobserved : ∀ row ∈ rows, 1 ≤ row.observations) :
    let window := retained since rows
    ((collectionEvidence since rows).isSome ↔ window ≠ []) ∧
      (collectionEvidence since rows).getD NO_EVIDENCE =
        ⟨foldActivity (window.map activityOf), foldObservation (window.map (readingOf id)) .read⟩ := by
  intro window
  have hsub : window.Sublist rows := List.filter_sublist
  have hsome := @isSome_evidenceRow window
  unfold collectionEvidence
  refine ⟨by rw [Option.isSome_map]; exact hsome, ?_⟩
  change ((evidenceRow (evidenceSteps window)).map evidenceOf).getD NO_EVIDENCE = _
  cases hrow : evidenceRow (evidenceSteps window) with
  | none =>
    rw [hrow] at hsome
    have hempty : window = [] := by simpa using hsome
    rw [hempty]
    rfl
  | some row =>
    have hactivity := activity_evidence (fun row hr => hforward row (hsub.subset hr))
      (fun row hr => hobserved row (hsub.subset hr)) hrow
    have hobservation := observation_evidence (happart.sublist (hsub.map LatencyRow.span))
      (fun row hr => hforward row (hsub.subset hr)) hrow
    rw [← hactivity, ← hobservation]
    rfl

/-- Two runs of two collects, an hour apart. -/
theorem collectionEvidence_of_two_runs :
    let rows : List LatencySampleRow :=
      [⟨7200000, 10800000, 2, 3600000, ⟨8, 2, 90, 0, 0⟩⟩, ⟨0, 3600000, 2, 3600000, ⟨5, 1, 40, 0, 0⟩⟩]
    (collectionEvidence 0 rows).getD NO_EVIDENCE =
        ⟨foldActivity ((retained 0 rows).map activityOf),
          foldObservation ((retained 0 rows).map (readingOf id)) .read⟩ ∧
      (collectionEvidence 0 rows).getD NO_EVIDENCE =
        ⟨⟨3600000, true⟩, ⟨true, 10800000, 3600000⟩⟩ :=
  ⟨(collectionEvidence_eq_folds 0 _ (by decide) (by decide) (by decide)).2, by decide +kernel⟩

end Indexterity
