import Indexterity.Runs
import Indexterity.Library.Consecutive
import Indexterity.Library.Median

/-!
# Activity: when a collection was read

`analysis/activity.ts`, and the weighted median of `analysis/types.ts` that caps it. Reads are
cumulative, so an interval between two readings is active where the counter moved by more than
the product's own reads; it is credited its length, and no more than the usual interval between
two observations or an hour.
-/

namespace Indexterity

open Library

structure ActivityPoint extends Run where
  readOps : Int
  /-- How many of the reads were the product's own. -/
  selfReadOps : Int
deriving DecidableEq, Repr

def MAX_ACTIVE_CREDIT_MS : ℚ := 3600000

/-- The loop of `medianObservationGap` over gaps in order, `last` being what it falls back to. -/
def medianFrom (total : Int) (last : ℚ) : Int → List Gap → ℚ
  | _, [] => last
  | seen, gap :: rest =>
    if total < (seen + gap.weight) * 2 then gap.ms
    else if (seen + gap.weight) * 2 = total then
      match rest with
      | [] => gap.ms
      | next :: _ => (gap.ms + next.ms) / 2
    else medianFrom total last (seen + gap.weight) rest

def sortedGaps (gaps : List Gap) : List Gap := gaps.insertionSort fun a b => a.ms ≤ b.ms

def medianObservationGap {α : Type} (run : α → Run) (runs : List α) : ℚ :=
  let gaps := sortedGaps (observationGaps run (sortedRuns run runs))
  match gaps.getLast? with
  | none => 0
  | some last => medianFrom ((gaps.map Gap.weight).sum) last.ms 0 gaps

structure ActivityFold where
  activeMs : ℚ
  measurable : Bool
deriving DecidableEq

/-- The counter moved between two readings by more than the product's own reads. A tally that
went back is one that started again, and says nothing. -/
def readsMoved (previous current : ActivityPoint) : Prop :=
  previous.selfReadOps ≤ current.selfReadOps ∧
    0 < current.readOps - previous.readOps - (current.selfReadOps - previous.selfReadOps)
  deriving Decidable

def activeCredit (cap : ℚ) (previous current : ActivityPoint) : ℚ :=
  if readsMoved previous current then min ((current.spanStart - previous.spanEnd : Int) : ℚ) cap
  else 0

def foldActivity (points : List ActivityPoint) : ActivityFold :=
  let sorted := sortedRuns ActivityPoint.toRun points
  let median := medianObservationGap ActivityPoint.toRun sorted
  if median = 0 then ⟨0, false⟩
  else
    let cap := min median MAX_ACTIVE_CREDIT_MS
    ⟨((neighbours sorted).map fun p => activeCredit cap p.1 p.2).sum, true⟩

def activeHoursFrom (fold : ActivityFold) : ℚ :=
  if fold.measurable then fold.activeMs / HOUR_MS else 0

def activeHours (points : List ActivityPoint) : ℚ := activeHoursFrom (foldActivity points)

/-! ## The median of the gaps -/

/-- The gaps one by one, each as often as it was observed. -/
def repeatedGaps (gaps : List Gap) : List ℚ :=
  gaps.flatMap fun gap => List.replicate gap.weight.toNat gap.ms

variable {gap : Gap} {gaps : List Gap}

theorem interiorGaps_pos {r : Run} (h : gap ∈ interiorGaps r) : 0 < gap.ms ∧ 0 < gap.weight := by
  unfold interiorGaps at h
  split at h
  · rename_i hspan
    obtain rfl := List.mem_singleton.mp h
    have hweight : (0 : Int) < r.observationsOf - 1 := by omega
    exact ⟨div_pos (Int.cast_pos.mpr hspan.2) (Int.cast_pos.mpr hweight), hweight⟩
  · cases h

theorem betweenGaps_pos {r next : Run} (h : gap ∈ betweenGaps r next) :
    0 < gap.ms ∧ 0 < gap.weight := by
  unfold betweenGaps at h
  split at h
  · rename_i hspan
    obtain rfl := List.mem_singleton.mp h
    exact ⟨Int.cast_pos.mpr hspan, one_pos⟩
  · cases h

theorem observationGaps_pos {α : Type} (run : α → Run) {runs : List α}
    (h : gap ∈ observationGaps run runs) : 0 < gap.ms ∧ 0 < gap.weight := by
  induction runs with
  | nil => cases h
  | cons r rest ih =>
    cases rest with
    | nil => exact interiorGaps_pos h
    | cons next rest =>
      rw [observationGaps, List.mem_append, List.mem_append] at h
      rcases h with (h | h) | h
      · exact interiorGaps_pos h
      · exact betweenGaps_pos h
      · exact ih h

theorem repeatedGaps_perm {gaps' : List Gap} (h : gaps.Perm gaps') :
    (repeatedGaps gaps).Perm (repeatedGaps gaps') :=
  h.flatMap_right _

theorem repeatedGaps_sorted (h : gaps.Pairwise fun a b => a.ms ≤ b.ms) :
    (repeatedGaps gaps).Pairwise (· ≤ ·) := by
  refine List.pairwise_flatMap.mpr ⟨fun gap _ => ?_, h.imp fun hle x hx y hy => ?_⟩
  · exact List.pairwise_replicate.mpr (.inr le_rfl)
  · rwa [List.eq_of_mem_replicate hx, List.eq_of_mem_replicate hy]

theorem length_repeatedGaps (h : ∀ g ∈ gaps, 0 < g.weight) :
    ((repeatedGaps gaps).length : Int) = (gaps.map Gap.weight).sum := by
  induction gaps with
  | nil => rfl
  | cons gap gaps ih =>
    obtain ⟨hgap, hgaps⟩ := List.forall_mem_cons.mp h
    have hlength := ih hgaps
    simp only [repeatedGaps, List.flatMap_cons, List.length_append, List.length_replicate,
      List.map_cons, List.sum_cons] at hlength ⊢
    omega

/-- The walk stops at the gap the middle is in, or behind which it is. -/
theorem medianFrom_eq_middle {walked : List ℚ} {total : Int} {last : ℚ}
    (hweights : ∀ g ∈ gaps, 0 < g.weight)
    (htotal : ((walked ++ repeatedGaps gaps).length : Int) = total)
    (hwalked : (walked.length : Int) * 2 < total) :
    medianFrom total last walked.length gaps = middle (walked ++ repeatedGaps gaps) := by
  induction gaps generalizing walked with
  | nil => simp [repeatedGaps] at htotal; omega
  | cons gap rest ih =>
    obtain ⟨hgap, hrest⟩ := List.forall_mem_cons.mp hweights
    obtain ⟨n, hn⟩ := Int.eq_ofNat_of_zero_le hgap.le
    have hsplit : walked ++ repeatedGaps (gap :: rest) =
        walked ++ List.replicate n gap.ms ++ repeatedGaps rest := by
      simp [repeatedGaps, hn]
    rw [hsplit, List.length_append, List.length_append, List.length_replicate] at htotal
    rw [hsplit]
    unfold medianFrom
    split
    · exact (middle_within (by omega) (by omega)).symm
    · split
      · cases rest with
        | nil => simp [repeatedGaps] at htotal; omega
        | cons next rest =>
          have hnext := (List.forall_mem_cons.mp hrest).1
          refine (middle_between ?_ ?_ ?_).symm
          · rw [List.length_append, List.length_replicate]
            omega
          · simp [List.getLast?_append, List.getLast?_replicate, show n ≠ 0 by omega]
          · simp [repeatedGaps, List.head?_append, List.head?_replicate, hnext]
      · have hstep := @ih (walked ++ List.replicate n gap.ms) hrest
          (by simpa [add_assoc] using htotal) (by simp; omega)
        simpa [hn] using hstep

section Median
variable {α : Type} (run : α → Run) (runs : List α)

theorem medianObservationGap_eq : medianObservationGap run runs =
    median (repeatedGaps (observationGaps run (sortedRuns run runs))) := by
  generalize hgaps : observationGaps run (sortedRuns run runs) = gaps
  have hperm : (sortedGaps gaps).Perm gaps := List.perm_insertionSort _ gaps
  have hweights : ∀ g ∈ sortedGaps gaps, 0 < g.weight := fun g hg =>
    (observationGaps_pos run (hgaps ▸ hperm.mem_iff.mp hg)).2
  have hsorted : (sortedGaps gaps).Pairwise fun a b => a.ms ≤ b.ms := by
    exact List.pairwise_insertionSort _ _
  rw [← median_perm (repeatedGaps_perm hperm), median_of_sorted (repeatedGaps_sorted hsorted)]
  unfold medianObservationGap
  rw [hgaps]
  dsimp only
  cases hlast : (sortedGaps gaps).getLast? with
  | none =>
    rw [List.getLast?_eq_none_iff.mp hlast]
    simp [repeatedGaps, middle]
  | some last =>
    have hne : sortedGaps gaps ≠ [] := fun hnil => by simp [hnil] at hlast
    have hlength := length_repeatedGaps hweights
    exact @medianFrom_eq_middle _ [] _ _ hweights hlength
      (List.sum_pos _ (List.forall_mem_map.mpr hweights) (by simpa using hne))

theorem medianObservationGap_pos (h : observationGaps run (sortedRuns run runs) ≠ []) :
    0 < medianObservationGap run runs := by
  rw [medianObservationGap_eq]
  obtain ⟨gap, hgap⟩ := List.exists_mem_of_ne_nil _ h
  refine median_pos (fun hnil => ?_) fun x hx => ?_
  · have hnone := List.flatMap_eq_nil_iff.mp hnil gap hgap
    have hpos := (observationGaps_pos run hgap).2
    simp at hnone
    omega
  · obtain ⟨gap, hgap, hx⟩ := List.mem_flatMap.mp hx
    rw [List.eq_of_mem_replicate hx]
    exact (observationGaps_pos run hgap).1

theorem medianObservationGap_nonneg : 0 ≤ medianObservationGap run runs := by
  by_cases h : observationGaps run (sortedRuns run runs) = []
  · simp [medianObservationGap, sortedGaps, h]
  · exact (medianObservationGap_pos run runs h).le

theorem medianObservationGap_sortedRuns :
    medianObservationGap run (sortedRuns run runs) = medianObservationGap run runs := by
  simp only [medianObservationGap, sortedRuns_idem]

/-- The usual interval is the median of the intervals, each as often as it was observed. Runs
that start together and differ are taken in the order they come in; but for these, the order
does not matter. -/
theorem medianObservationGap_median :
    medianObservationGap run runs =
        median (repeatedGaps (observationGaps run (sortedRuns run runs))) ∧
      (∀ gap ∈ observationGaps run (sortedRuns run runs), 0 < gap.ms ∧ 0 < gap.weight) ∧
      (observationGaps run (sortedRuns run runs) = [] → medianObservationGap run runs = 0) ∧
      ((∀ a ∈ runs, ∀ b ∈ runs, ∀ t, (run a).capturedAt = some t → (run b).capturedAt = some t →
          run a = run b) →
        ∀ runs', runs.Perm runs' → medianObservationGap run runs' = medianObservationGap run runs) := by
  refine ⟨medianObservationGap_eq run runs, fun _ => observationGaps_pos run, fun h => ?_, ?_⟩
  · simp [medianObservationGap, sortedGaps, h]
  · intro hties runs' hperm
    have hgaps (xs : List α) :
        observationGaps run xs = observationGaps id (xs.map run) := (observationGaps_map id run xs).symm
    rw [medianObservationGap, medianObservationGap, hgaps, hgaps (sortedRuns run runs),
      sortedRuns_perm run hperm hties]

/-- Of two runs that start together, the one that is read last says when the next gap starts. -/
theorem medianObservationGap_same_start :
    let long : Run := ⟨some 0, some 10, some 1, none⟩
    let short : Run := ⟨some 0, some 0, some 1, none⟩
    let next : Run := ⟨some 20, some 20, some 1, none⟩
    [long, short, next].Perm [short, long, next] ∧
      medianObservationGap id [long, short, next] = 20 ∧
      medianObservationGap id [short, long, next] = 10 := by
  decide

end Median

/-! ## Active time -/

def Spaced (points : List ActivityPoint) : Prop :=
  points.Pairwise fun a b => a.spanEnd < b.spanStart

variable {current previous : ActivityPoint} {points : List ActivityPoint}

theorem activeCredit_eq_zero_iff {cap : ℚ} (hcap : 0 < cap)
    (h : previous.spanEnd < current.spanStart) :
    activeCredit cap previous current = 0 ↔ ¬ readsMoved previous current := by
  unfold activeCredit
  split
  · rename_i hmoved
    have hpos : (0 : ℚ) < ((current.spanStart - previous.spanEnd : Int) : ℚ) :=
      Int.cast_pos.mpr (sub_pos.mpr h)
    exact iff_of_false (lt_min hpos hcap).ne' (not_not.mpr hmoved)
  · rename_i hmoved
    exact iff_of_true rfl hmoved

theorem activeCredit_bounds {cap : ℚ} (hcap : 0 ≤ cap) (h : previous.spanEnd < current.spanStart) :
    0 ≤ activeCredit cap previous current ∧ activeCredit cap previous current ≤ cap ∧
      activeCredit cap previous current ≤ ((current.spanStart - previous.spanEnd : Int) : ℚ) := by
  have hhole : (0 : ℚ) ≤ ((current.spanStart - previous.spanEnd : Int) : ℚ) :=
    Int.cast_nonneg (sub_nonneg.mpr h.le)
  unfold activeCredit
  split
  · exact ⟨le_min hhole hcap, min_le_right _ _, min_le_left _ _⟩
  · exact ⟨le_rfl, hcap, hhole⟩

theorem observationGaps_ne_nil (h : Spaced points) {p : ActivityPoint × ActivityPoint}
    (hp : p ∈ neighbours points) : observationGaps ActivityPoint.toRun points ≠ [] := by
  cases points with
  | nil => cases hp
  | cons first rest =>
    cases rest with
    | nil => cases hp
    | cons next rest =>
      have hlt : first.spanEnd < next.spanStart := (List.pairwise_cons.mp h).1 _ List.mem_cons_self
      have hgap : betweenGaps first.toRun next.toRun ≠ [] := by
        unfold betweenGaps
        rw [if_pos (sub_pos.mpr hlt)]
        exact List.cons_ne_nil _ _
      simp [observationGaps, hgap]

theorem foldActivity_idle_iff (horder : InOrder ActivityPoint.toRun points) (h : Spaced points) :
    (foldActivity points).activeMs = 0 ↔ ∀ p ∈ neighbours points, ¬ readsMoved p.1 p.2 := by
  have hlt (p) (hp : p ∈ neighbours points) : p.1.spanEnd < p.2.spanStart :=
    rel_of_mem_neighbours h hp
  have hmedian (p) (hp : p ∈ neighbours points) :
      0 < medianObservationGap ActivityPoint.toRun points :=
    medianObservationGap_pos _ _ (by
      rw [sortedRuns_of_inOrder _ horder]
      exact observationGaps_ne_nil h hp)
  unfold foldActivity
  dsimp only
  rw [sortedRuns_of_inOrder _ horder]
  split
  · rename_i hzero
    exact iff_of_true rfl fun p hp => absurd hzero (hmedian p hp).ne'
  · have hcap (p) (hp : p ∈ neighbours points) :
        0 < min (medianObservationGap ActivityPoint.toRun points) MAX_ACTIVE_CREDIT_MS :=
      lt_min (hmedian p hp) (by norm_num [MAX_ACTIVE_CREDIT_MS])
    rw [sum_map_eq_zero_iff fun p hp => (activeCredit_bounds (hcap p hp).le (hlt p hp)).1]
    exact forall₂_congr fun p hp => activeCredit_eq_zero_iff (hcap p hp) (hlt p hp)

end Indexterity
