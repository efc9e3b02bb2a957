import Indexterity.Observe
import Indexterity.Segments

/-!
# The observe window apply computes

`applyCluster` selects the members of each row but none of the stored columns, so it
differences what the writer has already emptied: every superseded run reads as idle
and the newest one in full. The window it computes is the window of the untouched
members exactly when that reading sees as many active runs as there were.
-/

namespace Indexterity

def applyWindow (since : Int) (rows : List SnapshotRow) (policyDays : ℚ)
    (context : ObserveContext) : ObserveWindow :=
  dynamicObserveDays (usageSeries ((keptSince since rows).map memberSnapshot)) policyDays context

def movedRuns (previous : Option (List MemberUsage)) : List (List MemberUsage) → Nat
  | [] => 0
  | members :: rest =>
    (if 0 < activityBetween previous members then 1 else 0) + movedRuns (some members) rest

/-! ## Series of movements -/

def seriesOf (moves : List (Run × Int)) : List UsagePoint :=
  moves.flatMap fun m => pointsOf m.1 m.2

theorem pointsOf_capturedAt {run : Run} {ops : Int} {point : UsagePoint}
    (h : point ∈ pointsOf run ops) : point.capturedAt = run.capturedAt := by
  unfold pointsOf at h
  split_ifs at h <;> simp at h
  · rw [h]
  · rcases h with h | h <;> rw [h]
  · rw [h]

theorem activePoints_seriesOf (moves : List (Run × Int)) :
    activePoints (seriesOf moves) = (moves.filter fun m => 0 < m.2).map sighting := by
  induction moves with
  | nil => rfl
  | cons m moves ih =>
    have hsplit : activePoints (seriesOf (m :: moves)) =
        activePoints (pointsOf m.1 m.2) ++ activePoints (seriesOf moves) :=
      List.filter_append _ _
    rw [hsplit, activePoints_pointsOf, ih, List.filter_cons]
    by_cases hpos : 0 < m.2 <;> simp [hpos]

variable {moves : List (Run × Int)}

theorem inOrder_seriesOf (hsome : ∀ m ∈ moves, m.1.capturedAt.isSome = true)
    (hmoves : moves.Pairwise fun a b => a.1.spanStart ≤ b.1.spanStart) :
    InOrder UsagePoint.toRun (seriesOf moves) := by
  constructor
  · intro point hpoint
    obtain ⟨m, hm, hp⟩ := List.mem_flatMap.mp hpoint
    rw [pointsOf_capturedAt hp]
    exact hsome m hm
  · refine List.pairwise_flatMap.mpr ⟨fun m _ => ?_, hmoves.imp fun {a b} hab x hx y hy => ?_⟩
    · refine List.Pairwise.imp_mem.mpr (List.pairwise_of_forall fun x y hx hy => ?_)
      simp [Run.spanStart, pointsOf_capturedAt hx, pointsOf_capturedAt hy]
    · simpa [Run.spanStart, pointsOf_capturedAt hx, pointsOf_capturedAt hy] using hab

theorem head_seriesOf (m : Run × Int) (moves : List (Run × Int)) :
    ∃ first, (seriesOf (m :: moves)).head? = some first ∧
      first.spanStart = m.1.spanStart := by
  obtain ⟨first, rest, hpoints⟩ : ∃ first rest, pointsOf m.1 m.2 = first :: rest := by
    unfold pointsOf
    split_ifs <;> exact ⟨_, _, rfl⟩
  have hmem : first ∈ pointsOf m.1 m.2 := hpoints ▸ List.mem_cons_self
  refine ⟨first, ?_, ?_⟩
  · simp [seriesOf, hpoints]
  · simp [Run.spanStart, pointsOf_capturedAt hmem]

theorem totalObservations_sighting (moves : List (Run × Int)) :
    totalObservations UsagePoint.toRun (moves.map sighting) = moves.length := by
  induction moves with
  | nil => rfl
  | cons m moves ih =>
    rw [List.map_cons, totalObservations_cons, ih, List.length_cons]
    simp [sighting, Run.observationsOf]
    omega

theorem le_foldl_max (xs : List ℚ) (a : ℚ) : a ≤ xs.foldl max a := by
  induction xs generalizing a with
  | nil => exact le_refl a
  | cons x xs ih => exact le_trans (le_max_left a x) (ih _)

theorem largestSightingGapDays_pos {a b : Run × Int} (rest : List (Run × Int))
    (h : a.1.spanStart < b.1.spanStart) :
    0 < largestSightingGapDays ((a :: b :: rest).map sighting) := by
  have hend : (sighting a).spanEnd = a.1.spanStart := by
    unfold Run.spanEnd Run.spanStart sighting
    cases a.1.capturedAt <;> simp
  have hbetween : betweenGaps (sighting a).toRun (sighting b).toRun =
      [⟨(b.1.spanStart - a.1.spanStart : Int), 1⟩] := by
    have hstart : (sighting b).spanStart = b.1.spanStart := rfl
    rw [betweenGaps, hend, hstart, if_pos (by omega)]
  have hinterior : interiorGaps (sighting a).toRun = [] := by
    simp [interiorGaps, sighting, Run.observationsOf]
  have hpos : (0 : ℚ) < (b.1.spanStart - a.1.spanStart : Int) := by
    exact_mod_cast (by omega : 0 < b.1.spanStart - a.1.spanStart)
  simp only [largestSightingGapDays, List.map_cons, observationGaps, hinterior, hbetween,
    List.nil_append, List.cons_append, List.foldl_cons]
  refine div_pos (lt_of_lt_of_le hpos (le_trans (le_max_right 0 _) (le_foldl_max _ _))) ?_
  norm_num [DAY_MS]

def moved (moves : List (Run × Int)) : Nat := (moves.filter fun m => 0 < m.2).length

/-- Runs at parsed, strictly increasing starts, none with a negative activity. -/
structure WellMoved (moves : List (Run × Int)) : Prop where
  parsed : ∀ m ∈ moves, m.1.capturedAt.isSome = true
  increasing : moves.Pairwise fun a b => a.1.spanStart < b.1.spanStart
  nonneg : ∀ m ∈ moves, 0 ≤ m.2

theorem totalObservations_active (moves : List (Run × Int)) :
    totalObservations UsagePoint.toRun (activePoints (seriesOf moves)) = moved moves := by
  rw [activePoints_seriesOf, totalObservations_sighting]
  rfl

theorem activePoints_eq_nil_iff (moves : List (Run × Int)) :
    activePoints (seriesOf moves) = [] ↔ moved moves = 0 := by
  rw [activePoints_seriesOf, List.map_eq_nil_iff, moved, List.length_eq_zero_iff]

theorem active_ne_nil (h1 : moved moves = 1) : activePoints (seriesOf moves) ≠ [] := by
  rw [Ne, activePoints_eq_nil_iff, h1]
  exact one_ne_zero

namespace WellMoved

variable (h : WellMoved moves)
include h

theorem inOrder : InOrder UsagePoint.toRun (seriesOf moves) :=
  inOrder_seriesOf h.parsed (h.increasing.imp le_of_lt)

theorem eq_idle (h0 : moved moves = 0) :
    moves = (moves.map Prod.fst).map fun run => (run, 0) := by
  have hnone := List.filter_eq_nil_iff.mp (List.length_eq_zero_iff.mp h0)
  rw [List.map_map]
  refine (List.map_id _).symm.trans (List.map_congr_left fun m hm => ?_)
  have hle : m.2 ≤ 0 := by simpa using hnone m hm
  exact Prod.ext rfl (le_antisymm hle (h.nonneg m hm))

theorem gap_pos (h2 : 2 ≤ moved moves) :
    0 < largestSightingGapDays (activePoints (seriesOf moves)) := by
  rw [activePoints_seriesOf]
  have hincreasing := h.increasing.filter fun m => 0 < m.2
  match hm : moves.filter fun m => 0 < m.2 with
  | [] => simp [moved, hm] at h2
  | [m] => simp [moved, hm] at h2
  | a :: b :: rest =>
    rw [hm] at hincreasing ⊢
    exact largestSightingGapDays_pos rest
      ((List.pairwise_cons.mp hincreasing).1 b List.mem_cons_self)

theorem window_single (h1 : moved moves = 1) (policyDays : ℚ) (context : ObserveContext) :
    dynamicObserveDays (seriesOf moves) policyDays context =
      (veteranWindow (activePoints (seriesOf moves))
        (knownTenureDays (seriesOf moves) context) policyDays).getD ⟨policyDays, none⟩ := by
  refine dynamicObserveDays_single h.inOrder policyDays context (active_ne_nil h1) ?_
  rw [totalObservations_active, h1]
  norm_num

end WellMoved

theorem knownTenureDays_seriesOf {xs ys : List (Run × Int)}
    (hruns : xs.map Prod.fst = ys.map Prod.fst) (context : ObserveContext) :
    knownTenureDays (seriesOf xs) context = knownTenureDays (seriesOf ys) context := by
  cases xs with
  | nil =>
    cases ys with
    | nil => rfl
    | cons y ys => simp at hruns
  | cons x xs =>
    cases ys with
    | nil => simp at hruns
    | cons y ys =>
      obtain ⟨first, hfirst, hstart⟩ := head_seriesOf x xs
      obtain ⟨first', hfirst', hstart'⟩ := head_seriesOf y ys
      have hxy : x.1 = y.1 := (List.cons.inj hruns).1
      simp only [knownTenureDays, hfirst, hfirst']
      cases context.watchingSince with
      | none => rfl
      | some watchStart => simp only [hstart, hstart', hxy]

theorem exists_window_ne {idle used : List (Run × Int)} (hi : WellMoved idle) (hu : WellMoved used)
    (hruns : idle.map Prod.fst = used.map Prod.fst) (h0 : moved idle = 0) (h1 : moved used ≠ 0) :
    ∃ policyDays context, dynamicObserveDays (seriesOf idle) policyDays context ≠
      dynamicObserveDays (seriesOf used) policyDays context := by
  cases idle with
  | nil =>
    have hnil : used = [] := List.map_eq_nil_iff.mp hruns.symm
    simp [hnil, moved] at h1
  | cons x xs =>
    cases used with
    | nil => simp at hruns
    | cons y ys =>
      obtain ⟨first, hfirst, hstart⟩ := head_seriesOf x xs
      obtain ⟨first', hfirst', hstart'⟩ := head_seriesOf y ys
      have hxy : x.1 = y.1 := (List.cons.inj hruns).1
      exact exists_window_ne_of_idle hi.inOrder hu.inOrder hfirst hfirst'
        (by rw [hstart, hstart', hxy]) ((activePoints_eq_nil_iff _).mpr h0)
        (fun h => h1 ((activePoints_eq_nil_iff _).mp h))

/-- Two readings of the same runs, the first with at most one run that moved, give one
window under every policy and clock exactly when as many runs moved in the second. -/
theorem windows_eq_iff {xs ys : List (Run × Int)} (hx : WellMoved xs) (hy : WellMoved ys)
    (hruns : xs.map Prod.fst = ys.map Prod.fst) (hone : moved xs ≤ 1) :
    (∀ policyDays context, dynamicObserveDays (seriesOf xs) policyDays context =
      dynamicObserveDays (seriesOf ys) policyDays context) ↔ moved ys = moved xs := by
  constructor
  · intro hall
    by_contra hne
    rcases Nat.eq_zero_or_pos (moved xs) with hx0 | hx0
    · obtain ⟨policyDays, context, h⟩ :=
        exists_window_ne hx hy hruns hx0 (fun hy0 => hne (hy0.trans hx0.symm))
      exact h (hall policyDays context)
    · have hx1 : moved xs = 1 := by omega
      rcases Nat.eq_zero_or_pos (moved ys) with hy0 | hy0
      · obtain ⟨policyDays, context, h⟩ := exists_window_ne hy hx hruns.symm hy0 (by omega)
        exact h (hall policyDays context).symm
      · -- one sighting cannot extend a policy of one day, two do
        have h2 : 2 ≤ moved ys := by omega
        have htotal : 2 ≤ totalObservations UsagePoint.toRun (activePoints (seriesOf ys)) := by
          rw [totalObservations_active]
          exact_mod_cast h2
        have hlong : 1 < (dynamicObserveDays (seriesOf ys) 1 ⟨none, 0⟩).days :=
          one_lt_days_of_gap hy.inOrder htotal (hy.gap_pos h2)
        rw [← hall, hx.window_single hx1, knownTenureDays_of_unwatched] at hlong
        exact lt_irrefl _ hlong
  · intro hmoved policyDays context
    rcases Nat.eq_zero_or_pos (moved xs) with hx0 | hx0
    · rw [hx.eq_idle hx0, hy.eq_idle (hmoved.trans hx0), hruns]
    · have hx1 : moved xs = 1 := by omega
      have hy1 := hmoved.trans hx1
      rw [hx.window_single hx1, hy.window_single hy1, knownTenureDays_seriesOf hruns,
        veteranWindow_congr (active_ne_nil hx1) (active_ne_nil hy1)]

/-! ## What the two readings of the rows move -/

def fullMoves (previous : Option (List MemberUsage)) : List Segment → List (Run × Int)
  | [] => []
  | s :: rest =>
    (s.run, activityBetween previous s.first.perMember) :: fullMoves (some s.first.perMember) rest

def trimmedMoves : List Segment → List (Run × Int)
  | [] => []
  | [s] => [(s.run, activityBetween none s.first.perMember)]
  | s :: t :: rest => (s.run, 0) :: trimmedMoves (t :: rest)

section Moves
variable (host : Host) (previous : Option (List MemberUsage)) (segs : List Segment)

theorem seriesFrom_fullMoves (p : Option UsageSnapshot) :
    seriesFrom p ((segmentRows host id previous segs).map memberSnapshot) =
      seriesOf (fullMoves (p.map UsageSnapshot.perMember) segs) := by
  rw [seriesFrom_eq_pricedSeries host, price_segmentRows_members]
  generalize p.map UsageSnapshot.perMember = before
  induction segs generalizing before with
  | nil => rfl
  | cons s rest ih => exact congrArg _ (ih (some s.first.perMember))

theorem seriesFrom_trimmedMoves
    (p : Option UsageSnapshot) (hp : ∀ before ∈ p, before.perMember = []) :
    seriesFrom p ((segmentRows host trimSupersededMembers previous segs).map memberSnapshot) =
      seriesOf (trimmedMoves segs) := by
  induction segs generalizing previous p with
  | nil => rfl
  | cons s rest ih =>
    cases rest with
    | nil =>
      cases p with
      | none => rfl
      | some before =>
        have hempty := hp before rfl
        simp [segmentRows, seriesFrom, runActivity, memberSnapshot, hempty, activityBetween_nil,
          seriesOf, trimmedMoves, activityBetween_none]
        rfl
    | cons t ts =>
      have htail := ih (some s.first.perMember)
        (some (memberSnapshot (trimSupersededMembers (segmentRow host previous s)))) ?_
      · rw [segmentRows, List.map_cons, seriesFrom, htail]
        cases p <;> rfl
      · intro before hb
        rw [← Option.some.inj hb]
        rfl

theorem fullMoves_nonneg :
    ∀ m ∈ fullMoves previous segs, 0 ≤ m.2 := by
  induction segs generalizing previous with
  | nil => simp [fullMoves]
  | cons s rest ih =>
    intro m hm
    rcases List.mem_cons.mp hm with rfl | hm
    · exact activityBetween_nonneg _ _
    · exact ih _ m hm

theorem trimmedMoves_nonneg : ∀ m ∈ trimmedMoves segs, 0 ≤ m.2 := by
  induction segs with
  | nil => simp [trimmedMoves]
  | cons s rest ih =>
    cases rest with
    | nil => simp [trimmedMoves, activityBetween_nonneg]
    | cons t ts =>
      intro m hm
      rcases List.mem_cons.mp hm with rfl | hm
      · exact le_refl _
      · exact ih m hm

theorem map_fst_fullMoves :
    (fullMoves previous segs).map Prod.fst = segs.map Segment.run := by
  induction segs generalizing previous with
  | nil => rfl
  | cons s rest ih => simp [fullMoves, ih]

theorem map_fst_trimmedMoves :
    (trimmedMoves segs).map Prod.fst = segs.map Segment.run := by
  induction segs with
  | nil => rfl
  | cons s rest ih =>
    cases rest with
    | nil => rfl
    | cons t ts => simpa [trimmedMoves] using ih

theorem moved_fullMoves :
    moved (fullMoves previous segs) =
      movedRuns previous (segs.map fun s => s.first.perMember) := by
  induction segs generalizing previous with
  | nil => rfl
  | cons s rest ih =>
    have h := ih (some s.first.perMember)
    simp only [moved] at h
    by_cases hpos : 0 < activityBetween previous s.first.perMember <;>
      simp [moved, fullMoves, movedRuns, hpos, h]
    omega

theorem moved_trimmedMoves :
    moved (trimmedMoves segs) =
      movedRuns none (segs.map fun s => s.first.perMember).getLast?.toList := by
  induction segs with
  | nil => rfl
  | cons s rest ih =>
    cases rest with
    | nil =>
      by_cases hpos : 0 < activityBetween none s.first.perMember <;>
        simp [moved, trimmedMoves, movedRuns, hpos]
    | cons t ts => simpa [moved, trimmedMoves, List.getLast?_cons_cons] using ih

theorem wellMoved_of_segments {segs : List Segment} (h : Successive segs) (hruns : moves.map Prod.fst = segs.map Segment.run)
    (hnonneg : ∀ m ∈ moves, 0 ≤ m.2) : WellMoved moves := by
  refine ⟨fun m hm => ?_, ?_, hnonneg⟩
  · have hmem : m.1 ∈ segs.map Segment.run := hruns ▸ List.mem_map_of_mem hm
    obtain ⟨s, _, hs⟩ := List.mem_map.mp hmem
    rw [← hs]
    rfl
  · have hpair : (segs.map Segment.run).Pairwise fun a b => a.spanStart < b.spanStart :=
      List.pairwise_map.mpr (h.imp fun hst => hst.1)
    rw [← hruns] at hpair
    simpa [List.pairwise_map] using hpair

end Moves

def heldMembers (host : Host) (since : Int) (cs : List Collect) : List (List MemberUsage) :=
  (keptSince since (collectedUntrimmed host cs)).map SnapshotRow.perMember

theorem perMember_segmentRows (host : Host) (previous : Option (List MemberUsage))
    (segs : List Segment) :
    (segmentRows host id previous segs).map SnapshotRow.perMember =
      segs.map fun s => s.first.perMember := by
  induction segs generalizing previous with
  | nil => rfl
  | cons s rest ih =>
    cases rest with
    | nil => rfl
    | cons t ts => exact congrArg _ (ih _)

/-- Apply's window over the emptied rows is the window over the untouched ones, under
every policy and clock, exactly when the newest run read alone and in full moves as
often as the runs of the window do against each other. -/
theorem applyWindow_collected_iff (host : Host) (cs : List Collect)
    (hcs : cs.Pairwise fun a b => a.now < b.now) (since : Int) :
    (∀ policyDays context, applyWindow since (collected host cs) policyDays context =
      applyWindow since (collectedUntrimmed host cs) policyDays context) ↔
      movedRuns none (heldMembers host since cs) =
        movedRuns none (heldMembers host since cs).getLast?.toList := by
  have hle := hcs.imp fun {a b : Collect} (h : a.now < b.now) => le_of_lt h
  have hsucc := successive_segments host hcs
  have hkept : Successive (keptSegments since (segments host cs)) := hsucc.filter _
  obtain ⟨before, hb⟩ :=
    keptSince_segmentRows host onlyMembers_trimSupersededMembers none since hsucc
  obtain ⟨before', hb'⟩ := keptSince_segmentRows host onlyMembers_id none since hsucc
  simp only [applyWindow, heldMembers, collected_eq_segmentRows host hle,
    collectedUntrimmed_eq_segmentRows host hle, hb, hb', usageSeries]
  generalize keptSegments since (segments host cs) = segs at hkept
  rw [sortedRuns_of_inOrder _ (inOrder_segmentRows host onlyMembers_trimSupersededMembers
      before hkept.inOrder memberSnapshot fun _ => rfl),
    sortedRuns_of_inOrder _ (inOrder_segmentRows host onlyMembers_id before' hkept.inOrder
      memberSnapshot fun _ => rfl),
    seriesFrom_trimmedMoves host before segs none (by simp), seriesFrom_fullMoves,
    perMember_segmentRows, ← moved_fullMoves, ← moved_trimmedMoves]
  have hx := wellMoved_of_segments hkept (map_fst_trimmedMoves segs) (trimmedMoves_nonneg segs)
  have hy := wellMoved_of_segments hkept (map_fst_fullMoves none segs) (fullMoves_nonneg none segs)
  refine windows_eq_iff hx hy ?_ ?_
  · rw [map_fst_trimmedMoves, map_fst_fullMoves]
  · rw [moved_trimmedMoves]
    cases (segs.map fun s => s.first.perMember).getLast? with
    | none => simp [movedRuns]
    | some members =>
      simp only [Option.toList_some, movedRuns]
      split <;> omega

/-- An index first seen without an operation: the run that is superseded had nothing to lose. -/
theorem applyWindow_collected_once :
    let cs : List Collect := [⟨0, [⟨"a", 0, some "0"⟩]⟩, ⟨HOUR_MS, [⟨"a", 5, some "0"⟩]⟩]
    ∀ policyDays context, applyWindow 0 (collected decimalHost cs) policyDays context =
      applyWindow 0 (collectedUntrimmed decimalHost cs) policyDays context :=
  (applyWindow_collected_iff decimalHost _ (by decide) 0).mpr (by decide)

/-- A job every forty days: the emptied rows read as one sighting, and the policy's
thirty days stand where the members themselves ask for eighty. -/
theorem applyWindow_collected_cadence :
    let cs : List Collect := [⟨0, [⟨"a", 10, some "0"⟩]⟩, ⟨40 * DAY_MS, [⟨"a", 20, some "0"⟩]⟩,
      ⟨80 * DAY_MS, [⟨"a", 30, some "0"⟩]⟩]
    let context : ObserveContext := ⟨some 0, 81 * DAY_MS⟩
    cs.Pairwise (fun a b => a.now < b.now) ∧
      applyWindow 0 (collected decimalHost cs) 30 context = ⟨30, none⟩ ∧
      (applyWindow 0 (collectedUntrimmed decimalHost cs) 30 context).days = 80 ∧
      applyWindow 0 (collected decimalHost cs) 30 context ≠
        applyWindow 0 (collectedUntrimmed decimalHost cs) 30 context := by
  decide +kernel

end Indexterity
