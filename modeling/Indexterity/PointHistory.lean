import Indexterity.Segments

/-!
# Runs against points

A run stands for the collects it was extended by. Stored instead one row a collect,
every collect after the first of a run is a quiet point: no activity, no restart, and
a hole before it no wider than the collector's tolerance. So the two histories fold to
the same numbers, up to holes the gates do not look at. This rests on the extend rule
merging only readings of the same counters, which it decides by fingerprint.
-/

namespace Indexterity

open Library

section Rows
variable (host : Host)

/-- Every collect stored as its own row, priced against the collect before it. -/
def pointRows (previous : Option (List MemberUsage)) : List Collect → List SnapshotRow
  | [] => []
  | c :: rest => insertedRow host previous c :: pointRows (some c.perMember) rest

def SameMembers (was now : List MemberUsage) : Prop :=
  was.Perm now ∧ OneEach MemberUsage.member was

instance (was now : List MemberUsage) : Decidable (SameMembers was now) :=
  inferInstanceAs (Decidable (was.Perm now ∧
    ∀ m ∈ was, ∀ n ∈ was, m.member = n.member → m = n))

def Confirms (c d : Collect) : Prop :=
  extendsRun (some ⟨counterFingerprint host c.perMember, c.now⟩)
    (counterFingerprint host d.perMember) d.now = true →
    SameMembers c.perMember d.perMember
  deriving Decidable

def point (c : Collect) : Segment := ⟨c, []⟩

theorem pointRows_eq_segmentRows (previous : Option (List MemberUsage)) (cs : List Collect) :
    pointRows host previous cs = segmentRows host id previous (cs.map point) := by
  induction cs generalizing previous with
  | nil => rfl
  | cons c cs ih =>
    have hrow : insertedRow host previous c = segmentRow host previous (point c) := by
      simp [segmentRow, insertedRow, point, Segment.last, Segment.maxGap, Segment.widestGap]
    rw [pointRows, ih, hrow]
    cases cs with
    | nil => rfl
    | cons d cs => rfl

end Rows

/-! ## Readings of the same counters -/

section Counters
variable (host : Host) {was now : List MemberUsage}

section
variable (h : SameMembers was now)
include h

theorem SameMembers.memberOf_eq (name : String) : memberOf was name = memberOf now name :=
  lookupLast_perm _ h.1 h.2 name

theorem SameMembers.memberOf_self {m : MemberUsage} (hm : m ∈ now) :
    memberOf was m.member = some m :=
  (lookupLast_eq_some_iff _ h.2 _ _).mpr ⟨h.1.mem_iff.mpr hm, rfl⟩

theorem SameMembers.activity : activityBetween (some was) now = 0 := by
  apply List.sum_eq_zero
  intro a ha
  obtain ⟨m, hm, rfl⟩ := List.mem_map.mp ha
  simp [memberActivity, h.memberOf_self hm]

theorem SameMembers.restarted :
    countersRestartedBetween host (some was) now = false := by
  apply List.any_eq_false.mpr
  intro m hm
  simp only [Option.getD_some, h.memberOf_self hm, lt_irrefl, decide_false, Bool.false_or]
  unfold sinceMovedForward
  cases parseSince host m with
  | none => simp
  | some start => simp

end

theorem pricedSegments_congr
    (h : ∀ name, memberOf was name = memberOf now name) (segs : List Segment) :
    pricedSegments host (some was) segs = pricedSegments host (some now) segs := by
  cases segs with
  | nil => rfl
  | cons s rest =>
    have hactivity : memberActivity was = memberActivity now := by
      funext m
      rw [memberActivity, memberActivity, h]
    simp only [pricedSegments, activityBetween, countersRestartedBetween, Option.getD_some,
      hactivity, h]

end Counters

/-! ## Steady segments -/

def Repeats (c d : Collect) : Prop :=
  SameMembers c.perMember d.perMember ∧ c.now ≤ d.now ∧ d.now - c.now ≤ MAX_GAP_MS

def Steady (s : Segment) : Prop := s.collects.IsChain Repeats

variable {cs later : List Collect} {c : Collect} {s : Segment} {f g : UsageFold}

section Steady
variable (host : Host)

theorem extendsRun_iff (run : CurrentRun) (fingerprint : String) (now : Int) :
    extendsRun (some run) fingerprint now = true ↔
      run.fingerprint = fingerprint ∧ run.lastSeenAt ≤ now ∧ now - run.lastSeenAt ≤ MAX_GAP_MS := by
  simp only [extendsRun, Bool.and_eq_true, decide_eq_true_eq, and_assoc, sub_nonneg]

/-- Along a cut every segment repeats one reading: the fingerprint of its last collect
is the one the extend rule compares with. -/
theorem steady_segmentsFrom (s : Segment) (cs : List Collect) (hs : Steady s)
    (hprint : counterFingerprint host s.last.perMember = counterFingerprint host s.first.perMember)
    (hcs : (s.last :: cs).IsChain (Confirms host)) : ∀ t ∈ segmentsFrom host s cs, Steady t := by
  induction cs generalizing s with
  | nil =>
    intro t ht
    rw [List.mem_singleton.mp ht]
    exact hs
  | cons c cs ih =>
    obtain ⟨hstep, hrest⟩ := List.isChain_cons_cons.mp hcs
    unfold segmentsFrom
    split
    · rename_i hext
      obtain ⟨hfp, hle, hgap⟩ := (extendsRun_iff _ _ _).mp hext
      have hsame : SameMembers s.last.perMember c.perMember := by
        apply hstep
        exact (extendsRun_iff _ _ _).mpr ⟨hprint.trans hfp, hle, hgap⟩
      apply ih (s.extend c)
      · apply List.IsChain.append hs (List.isChain_singleton c)
        intro x hx y hy
        rw [s.getLast?_collects] at hx
        rw [← Option.some.inj hx, ← Option.some.inj hy]
        exact ⟨hsame, hle, hgap⟩
      · rw [Segment.last_extend]
        exact hfp.symm
      · rw [Segment.last_extend]
        exact hrest
    · intro t ht
      rcases List.mem_cons.mp ht with rfl | ht
      · exact hs
      · exact ih ⟨c, []⟩ (List.isChain_singleton c) rfl hrest t ht

theorem steady_segments (hcs : cs.IsChain (Confirms host)) : ∀ s ∈ segments host cs, Steady s := by
  cases cs with
  | nil => simp [segments]
  | cons c cs => exact steady_segmentsFrom host ⟨c, []⟩ cs (List.isChain_singleton c) rfl hcs

section
variable (h : (c :: later).IsChain Repeats)
include h

theorem memberOf_getLastD (name : String) :
    memberOf (later.getLastD c).perMember name = memberOf c.perMember name := by
  induction later generalizing c with
  | nil => rfl
  | cons d later ih =>
    obtain ⟨hcd, hrest⟩ := List.isChain_cons_cons.mp h
    rw [List.getLastD_cons, ih hrest, hcd.1.memberOf_eq]

theorem le_getLastD :
    ∀ x ∈ c :: later, x.now ≤ (later.getLastD c).now := by
  induction later generalizing c with
  | nil => simp
  | cons d later ih =>
    obtain ⟨hcd, hrest⟩ := List.isChain_cons_cons.mp h
    have hlater := ih hrest
    intro x hx
    rw [List.getLastD_cons]
    rcases List.mem_cons.mp hx with rfl | hx
    · exact le_trans hcd.2.1 (hlater d List.mem_cons_self)
    · exact hlater x hx

theorem widestGap_le {gap : Int} (hgap : gap ≤ MAX_GAP_MS) :
    Segment.widestGap c.now gap later ≤ MAX_GAP_MS := by
  induction later generalizing c gap with
  | nil => exact hgap
  | cons d later ih =>
    obtain ⟨hcd, hrest⟩ := List.isChain_cons_cons.mp h
    exact ih hrest (max_le hgap hcd.2.2)

end

theorem Steady.spanEnd (h : Steady s) : s.run.spanEnd = s.last.now :=
  max_eq_right (le_getLastD h s.first List.mem_cons_self)

theorem Steady.interiorGap_le (h : Steady s) : s.run.interiorGap ≤ MAX_GAP_MS := by
  have hgap : s.maxGap ≤ MAX_GAP_MS := widestGap_le h (by decide)
  simp only [Run.interiorGap, Segment.run]
  split
  · decide
  · exact hgap

@[simp] theorem spanEnd_point (c : Collect) : (point c).run.spanEnd = c.now :=
  max_self c.now

end Steady

/-! ## The prices of the points -/

variable {segs : List Segment}

section Prices
variable (host : Host)

def quietPoint (c : Collect) : PricedRun where
  run := (point c).run
  activity := 0
  restarted := false
  started := startedAt host c.perMember

def firstPoint (previous : Option (List MemberUsage)) (c : Collect) : PricedRun where
  run := (point c).run
  activity := activityBetween previous c.perMember
  restarted := countersRestartedBetween host previous c.perMember
  started := startedAt host c.perMember

@[simp] theorem spanEnd_quietPoint (c : Collect) : (quietPoint host c).run.spanEnd = c.now :=
  spanEnd_point c

@[simp] theorem spanEnd_firstPoint (previous : Option (List MemberUsage)) (c : Collect) :
    (firstPoint host previous c).run.spanEnd = c.now :=
  spanEnd_point c

/-- The points of a list of segments: each segment moves at its first collect only. -/
def pricedPoints (previous : Option (List MemberUsage)) : List Segment → List PricedRun
  | [] => []
  | s :: rest =>
    firstPoint host previous s.first :: (s.later.map (quietPoint host) ++
      pricedPoints (some s.first.perMember) rest)

theorem pricedSegments_quiet (h : (c :: later).IsChain Repeats) (rest : List Segment) :
    pricedSegments host (some c.perMember) (later.map point ++ rest) =
      later.map (quietPoint host) ++ pricedSegments host (some (later.getLastD c).perMember) rest := by
  induction later generalizing c with
  | nil => rfl
  | cons d later ih =>
    obtain ⟨hcd, hrest⟩ := List.isChain_cons_cons.mp h
    rw [List.map_cons, List.cons_append, pricedSegments]
    simp only [point, hcd.1.activity, hcd.1.restarted]
    rw [List.getLastD_cons]
    exact congrArg _ (ih hrest)

theorem pricedSegments_points (previous : Option (List MemberUsage)) (h : ∀ s ∈ segs, Steady s) :
    pricedSegments host previous ((segs.flatMap Segment.collects).map point) =
      pricedPoints host previous segs := by
  induction segs generalizing previous with
  | nil => rfl
  | cons s rest ih =>
    have hs : Steady s := h s List.mem_cons_self
    have hrest := ih (some s.first.perMember) fun t ht => h t (List.mem_cons_of_mem s ht)
    rw [List.flatMap_cons, List.map_append, Segment.collects, List.map_cons, List.cons_append,
      pricedSegments, pricedPoints]
    have hlater := pricedSegments_quiet host hs ((rest.flatMap Segment.collects).map point)
    rw [pricedSegments_congr host (memberOf_getLastD hs), hrest] at hlater
    exact congrArg _ hlater

end Prices

/-! ## What the folds agree on -/

section Folds
variable (host : Host) (previous : Option (List MemberUsage))

theorem observations_points (segs : List Segment) :
    totalObservations UsagePoint.toRun (pricedSeries (pricedPoints host previous segs)) =
      totalObservations UsagePoint.toRun (pricedSeries (pricedSegments host previous segs)) := by
  rw [totalObservations_pricedSeries, totalObservations_pricedSeries]
  induction segs generalizing previous with
  | nil => rfl
  | cons s rest ih =>
    have hlater : ((s.later.map (quietPoint host)).map fun p => p.run.observationsOf) =
        s.later.map fun _ => 1 := by
      rw [List.map_map]
      rfl
    have hfirst : (firstPoint host previous s.first).run.observationsOf = 1 := rfl
    have hrun : s.run.observationsOf = s.later.length + 1 := by
      simp only [Run.observationsOf, Segment.run]
      omega
    simp only [pricedPoints, pricedSegments, List.map_cons, List.map_append, List.sum_cons,
      List.sum_append, ih, hlater, hfirst, hrun, List.map_const', List.sum_replicate]
    simp
    omega

theorem activePoints_quiet (cs : List Collect) :
    activePoints (pricedSeries (cs.map (quietPoint host))) = [] := by
  induction cs with
  | nil => rfl
  | cons c cs ih =>
    exact ih

theorem activePoints_points (segs : List Segment) :
    activePoints (pricedSeries (pricedPoints host previous segs)) =
      activePoints (pricedSeries (pricedSegments host previous segs)) := by
  induction segs generalizing previous with
  | nil => rfl
  | cons s rest ih =>
    have hfirst : activePoints (pointsOf (point s.first).run
          (activityBetween previous s.first.perMember)) =
        activePoints (pointsOf s.run (activityBetween previous s.first.perMember)) := by
      rw [activePoints_pointsOf, activePoints_pointsOf]
      rfl
    have hsplit : pricedSeries (s.later.map (quietPoint host) ++
          pricedPoints host (some s.first.perMember) rest) =
        pricedSeries (s.later.map (quietPoint host)) ++
          pricedSeries (pricedPoints host (some s.first.perMember) rest) := List.flatMap_append
    have hquiet := activePoints_quiet host s.later
    have hrest := ih (some s.first.perMember)
    unfold activePoints at hfirst hquiet hrest ⊢
    rw [pricedPoints, pricedSegments, pricedSeries_cons, pricedSeries_cons, hsplit,
      List.filter_append, List.filter_append, List.filter_append, hquiet, hrest]
    exact congrArg (· ++ _) hfirst

theorem pricedEpochsFrom_quiet (first p : PricedRun) (c : Collect) (later : List Collect)
    (hp : p.run.spanEnd = c.now) (rest : List PricedRun) :
    ∃ q : PricedRun, q.run.spanEnd = (later.getLastD c).now ∧
      pricedEpochsFrom first p (later.map (quietPoint host) ++ rest) =
        pricedEpochsFrom first q rest := by
  induction later generalizing p c with
  | nil => exact ⟨p, hp, rfl⟩
  | cons d later ih =>
    rw [List.getLastD_cons]
    exact ih (quietPoint host d) d (spanEnd_quietPoint host d)

variable {p : PricedRun}

theorem pricedEpochsFrom_segment (hs : Steady s) (first : PricedRun)
    (previous : Option (List MemberUsage)) (rest : List PricedRun) :
    ∃ q : PricedRun, q.run.spanEnd = s.run.spanEnd ∧
      pricedEpochsFrom first (firstPoint host previous s.first)
        (s.later.map (quietPoint host) ++ rest) = pricedEpochsFrom first q rest := by
  rw [hs.spanEnd]
  exact pricedEpochsFrom_quiet host first _ s.first s.later (spanEnd_firstPoint _ _ _) rest

theorem pricedEpochsFrom_points {first first' p' : PricedRun}
    (hstart : first.run.spanStart = first'.run.spanStart)
    (hstarted : first.started = first'.started) (hend : p.run.spanEnd = p'.run.spanEnd)
    (previous : Option (List MemberUsage)) (h : ∀ s ∈ segs, Steady s) :
    pricedEpochsFrom first p (pricedPoints host previous segs) =
      pricedEpochsFrom first' p' (pricedSegments host previous segs) := by
  induction segs generalizing first first' p p' previous with
  | nil => simp only [pricedPoints, pricedSegments, pricedEpochsFrom, hstart, hstarted, hend]
  | cons s rest ih =>
    have hs : Steady s := h s List.mem_cons_self
    have hrest : ∀ t ∈ rest, Steady t := fun t ht => h t (List.mem_cons_of_mem s ht)
    simp only [pricedPoints, pricedSegments, pricedEpochsFrom]
    rw [show (firstPoint host previous s.first).restarted =
      countersRestartedBetween host previous s.first.perMember from rfl]
    split
    · -- the epoch closes here and the segment opens the next one
      obtain ⟨q, hq, hquiet⟩ := pricedEpochsFrom_segment host hs _ previous _
      rw [hquiet, hstart, hstarted, hend]
      apply congrArg (List.cons _)
      refine ih ?_ ?_ hq _ hrest
      · rfl
      · rfl
    · obtain ⟨q, hq, hquiet⟩ := pricedEpochsFrom_segment host hs first previous _
      rw [hquiet]
      exact ih hstart hstarted hq _ hrest

theorem pricedEpochs_points (h : ∀ s ∈ segs, Steady s) :
    pricedEpochs (pricedPoints host previous segs) =
      pricedEpochs (pricedSegments host previous segs) := by
  cases segs with
  | nil => rfl
  | cons s rest =>
    obtain ⟨q, hq, hquiet⟩ := pricedEpochsFrom_segment host (h s List.mem_cons_self)
      (firstPoint host previous s.first) previous (pricedPoints host (some s.first.perMember) rest)
    rw [pricedPoints, pricedSegments, pricedEpochs, pricedEpochs, hquiet]
    refine pricedEpochsFrom_points host ?_ ?_ hq _ fun t ht => h t (List.mem_cons_of_mem s ht)
    · rfl
    · rfl

theorem map_run_pricedPoints (segs : List Segment) :
    (pricedPoints host previous segs).map PricedRun.run =
      (segs.flatMap Segment.collects).map fun c => (point c).run := by
  induction segs generalizing previous with
  | nil => rfl
  | cons s rest ih =>
    rw [pricedPoints, List.map_cons, List.map_append, ih, List.flatMap_cons, Segment.collects,
      List.map_append, List.map_cons, List.cons_append, List.map_map]
    rfl

theorem map_run_pricedSegments (segs : List Segment) :
    (pricedSegments host previous segs).map PricedRun.run = segs.map Segment.run := by
  induction segs generalizing previous with
  | nil => rfl
  | cons s rest ih => rw [pricedSegments, List.map_cons, ih, List.map_cons]

theorem max?_eq_of_bounded {xs ys : List Int} (hxy : ∀ x ∈ xs, ∃ y ∈ ys, x ≤ y)
    (hyx : ∀ y ∈ ys, ∃ x ∈ xs, y ≤ x) : xs.max? = ys.max? := by
  cases hx : xs.max? with
  | none =>
    have hnil : xs = [] := List.max?_eq_none_iff.mp hx
    cases ys with
    | nil => rfl
    | cons y ys =>
      obtain ⟨x, hmem, -⟩ := hyx y List.mem_cons_self
      simp [hnil] at hmem
  | some a =>
    obtain ⟨ha, hmax⟩ := List.max?_eq_some_iff.mp hx
    symm
    apply List.max?_eq_some_iff.mpr
    have hbound : ∀ y ∈ ys, y ≤ a := by
      intro y hy
      obtain ⟨x, hmem, hle⟩ := hyx y hy
      exact le_trans hle (hmax x hmem)
    obtain ⟨y, hy, hle⟩ := hxy a ha
    exact ⟨le_antisymm hle (hbound y hy) ▸ hy, hbound⟩

theorem newestEnd_points (h : ∀ s ∈ segs, Steady s) :
    ((pricedPoints host previous segs).map fun p => p.run.spanEnd).max? =
      ((pricedSegments host previous segs).map fun p => p.run.spanEnd).max? := by
  have hpoints := congrArg (List.map Run.spanEnd) (map_run_pricedPoints host previous segs)
  have hsegs := congrArg (List.map Run.spanEnd) (map_run_pricedSegments host previous segs)
  rw [List.map_map] at hpoints hsegs
  apply (congrArg List.max? hpoints).trans (Eq.trans ?_ (congrArg List.max? hsegs).symm)
  apply max?_eq_of_bounded
  · intro e he
    simp only [List.map_map, List.mem_map, List.mem_flatMap, Function.comp_apply,
      spanEnd_point] at he
    obtain ⟨c, ⟨s, hs, hc⟩, rfl⟩ := he
    refine ⟨s.run.spanEnd, List.mem_map_of_mem (List.mem_map_of_mem hs), ?_⟩
    rw [(h s hs).spanEnd]
    exact le_getLastD (h s hs) c hc
  · intro e he
    rw [List.map_map] at he
    obtain ⟨s, hs, rfl⟩ := List.mem_map.mp he
    refine ⟨s.last.now, ?_, le_of_eq (h s hs).spanEnd⟩
    rw [← spanEnd_point s.last]
    exact List.mem_map_of_mem (List.mem_map_of_mem (List.mem_flatMap.mpr ⟨s, hs, s.last_mem⟩))

theorem foldl_max_le {bound : Int} (hbound : 0 ≤ bound) {gaps : List Int}
    (h : ∀ gap ∈ gaps, gap ≤ bound) : gaps.foldl max 0 ≤ bound := by
  apply List.foldlRecOn (motive := fun widest => widest ≤ bound) gaps max hbound
  intro widest hw gap hgap
  exact max_le hw (h gap hgap)

theorem blindHole_short {fromMs untilMs : Int} {started : Option Int} {restarted : Bool}
    (h : untilMs - fromMs ≤ MAX_GAP_MS) {w : BlindWindow}
    (hw : blindHole fromMs untilMs started restarted = some w) :
    w.endMs - w.startMs ≤ MAX_GAP_MS := by
  unfold blindHole at hw
  split at hw
  · cases hw
  · cases started with
    | none =>
      rw [← Option.some.inj hw]
      exact h
    | some start =>
      simp only at hw
      split_ifs at hw
      · rw [← Option.some.inj hw]
        simp only
        omega
      · rw [← Option.some.inj hw]
        exact h

def longBlinds (windows : List BlindWindow) : List BlindWindow :=
  windows.filter fun w => MAX_GAP_MS < w.endMs - w.startMs

theorem longBlinds_short {q : PricedRun} (h : q.run.spanStart - p.run.spanEnd ≤ MAX_GAP_MS)
    (minBlindMs : Int) : longBlinds (longerThan minBlindMs (pricedBlind p q)) = [] := by
  apply List.filter_eq_nil_iff.mpr
  intro w hw
  have hmem : pricedBlind p q = some w := by
    simp only [longerThan, Option.mem_toList, Option.filter_eq_some_iff] at hw
    exact hw.1
  have hshort := blindHole_short h hmem
  simp only [decide_eq_true_eq]
  omega

variable (minBlindMs : Int)

theorem longBlinds_quiet
    (hp : p.run.spanEnd = c.now) (h : (c :: later).IsChain Repeats) (rest : List PricedRun) :
    ∃ q : PricedRun, q.run.spanEnd = (later.getLastD c).now ∧
      longBlinds (pricedBlindWindows minBlindMs (p :: (later.map (quietPoint host) ++ rest))) =
        longBlinds (pricedBlindWindows minBlindMs (q :: rest)) := by
  induction later generalizing p c with
  | nil => exact ⟨p, hp, rfl⟩
  | cons d later ih =>
    obtain ⟨hcd, hrest⟩ := List.isChain_cons_cons.mp h
    obtain ⟨q, hq, hquiet⟩ := ih (spanEnd_quietPoint host d) hrest
    refine ⟨q, ?_, ?_⟩
    · rw [List.getLastD_cons]
      exact hq
    · have hhole : (quietPoint host d).run.spanStart - p.run.spanEnd ≤ MAX_GAP_MS := by
        rw [hp]
        exact hcd.2.2
      have hshort := longBlinds_short hhole minBlindMs
      rw [List.map_cons, List.cons_append, pricedBlindWindows, longBlinds, List.filter_append]
      rw [longBlinds] at hshort
      rw [hshort, List.nil_append]
      exact hquiet

theorem longBlinds_points (previous : Option (List MemberUsage)) (h : ∀ s ∈ segs, Steady s) :
    longBlinds (pricedBlindWindows minBlindMs (pricedPoints host previous segs)) =
      longBlinds (pricedBlindWindows minBlindMs (pricedSegments host previous segs)) := by
  induction segs generalizing previous with
  | nil => rfl
  | cons s rest ih =>
    have hs : Steady s := h s List.mem_cons_self
    obtain ⟨q, hq, hquiet⟩ := longBlinds_quiet host minBlindMs
      (spanEnd_firstPoint host previous s.first) hs (pricedPoints host (some s.first.perMember) rest)
    have hrest := ih (some s.first.perMember) fun t ht => h t (List.mem_cons_of_mem s ht)
    rw [pricedPoints, hquiet]
    cases rest with
    | nil => rfl
    | cons t rest =>
      have hend : q.run.spanEnd = s.run.spanEnd := hq.trans hs.spanEnd.symm
      -- the hole between the two segments reads the same from either side
      have hhole : pricedBlind q (firstPoint host (some s.first.perMember) t.first) =
          blindHole s.run.spanEnd t.run.spanStart (startedAt host t.first.perMember)
            (countersRestartedBetween host (some s.first.perMember) t.first.perMember) := by
        rw [pricedBlind, hend]
        rfl
      simp only [pricedPoints, pricedSegments, longBlinds, pricedBlindWindows,
        List.filter_append] at hrest ⊢
      rw [hrest, hhole]
      rfl

/-! ## The gates -/

/-- Two folds no gate can tell apart while it tolerates what the collector tolerates. -/
structure FoldsAgree (f g : UsageFold) : Prop where
  runs : f.runs = 0 ↔ g.runs = 0
  observations : f.observations = g.observations
  activeRuns : f.activeRuns = g.activeRuns
  trustedWatchMs : f.trustedWatchMs = g.trustedWatchMs
  newestEndMs : f.newestEndMs = g.newestEndMs
  latestActivityMs : f.latestActivityMs = g.latestActivityMs
  left_short : f.maxInteriorGapMs ≤ MAX_GAP_MS
  right_short : g.maxInteriorGapMs ≤ MAX_GAP_MS
  blindWindows : longBlinds f.blindWindows = longBlinds g.blindWindows

theorem any_longBlinds {accepts : BlindWindow → Bool}
    (h : ∀ w, accepts w = true → MAX_GAP_MS < w.endMs - w.startMs) (windows : List BlindWindow) :
    (longBlinds windows).any accepts = windows.any accepts := by
  rw [longBlinds, List.any_filter]
  apply congrArg (windows.any ·)
  funext w
  by_cases hw : accepts w = true
  · simp [h w hw]
  · simp [hw]

theorem FoldsAgree.usageTrustRefusalFrom_eq (h : FoldsAgree f g) {options : ClassifyOptions}
    (hgap : MAX_GAP_HOURS ≤ options.maxGapHours) (now : Int) (activeHours : Option ℚ) :
    usageTrustRefusalFrom f options now activeHours =
      usageTrustRefusalFrom g options now activeHours := by
  have hms : ((MAX_GAP_MS : Int) : ℚ) ≤ options.maxGapHours * HOUR_MS := by
    rw [MAX_GAP_MS, Int.cast_mul]
    apply mul_le_mul_of_nonneg_right hgap
    norm_num [HOUR_MS]
  have hf : ¬ options.maxGapHours * HOUR_MS < f.maxInteriorGapMs :=
    not_lt.mpr (le_trans (Int.cast_le.mpr h.left_short) hms)
  have hg : ¬ options.maxGapHours * HOUR_MS < g.maxInteriorGapMs :=
    not_lt.mpr (le_trans (Int.cast_le.mpr h.right_short) hms)
  have hblind : ∀ recovered : Int,
      f.blindWindows.any (fun w => options.maxGapHours * HOUR_MS < (w.endMs - w.startMs : Int) &&
          recovered < w.endMs) =
        g.blindWindows.any (fun w => options.maxGapHours * HOUR_MS < (w.endMs - w.startMs : Int) &&
          recovered < w.endMs) := by
    intro recovered
    rw [← any_longBlinds ?_ f.blindWindows, ← any_longBlinds ?_ g.blindWindows, h.blindWindows]
    all_goals
      intro w hw
      have hlong := of_decide_eq_true (Bool.and_eq_true_iff.mp hw).1
      exact Int.cast_lt.mp (lt_of_le_of_lt hms hlong)
  simp only [usageTrustRefusalFrom, h.observations, h.runs, h.trustedWatchMs, hf, hg, hblind,
    h.newestEndMs]

theorem FoldsAgree.classifyUsageFrom_eq (h : FoldsAgree f g) (options : ClassifyOptions) :
    classifyUsageFrom f options = classifyUsageFrom g options := by
  have hrecent : recentlyActive f options = recentlyActive g options := by
    unfold recentlyActive
    rw [h.newestEndMs, h.latestActivityMs]
  simp only [classifyUsageFrom, h.observations, h.activeRuns, hrecent]

theorem foldsAgree_points (h : ∀ s ∈ segs, Steady s) :
    FoldsAgree (foldPriced (pricedSegments host none segs) minBlindMs)
      (foldPriced (pricedPoints host none segs) minBlindMs) := by
  have hactive := activePoints_points host none segs
  refine ⟨?_, ?_, ?_, ?_, ?_, ?_, ?_, ?_, ?_⟩
  · cases segs with
    | nil => rfl
    | cons s rest => simp [foldPriced, pricedSegments, pricedPoints]; omega
  · exact (observations_points host none segs).symm
  · exact congrArg (totalObservations UsagePoint.toRun) hactive.symm
  · exact congrArg epochsLength (pricedEpochs_points host none h).symm
  · exact (newestEnd_points host none h).symm
  · exact congrArg latestOf hactive.symm
  · apply foldl_max_le (by decide)
    intro gap hgap
    obtain ⟨p, hp, rfl⟩ := List.mem_map.mp hgap
    have hrun : p.run ∈ segs.map Segment.run := by
      rw [← map_run_pricedSegments host none]
      exact List.mem_map_of_mem hp
    obtain ⟨s, hs, hsrun⟩ := List.mem_map.mp hrun
    rw [← hsrun]
    exact (h s hs).interiorGap_le
  · apply foldl_max_le (by decide)
    intro gap hgap
    obtain ⟨p, hp, rfl⟩ := List.mem_map.mp hgap
    have hrun : p.run ∈ (segs.flatMap Segment.collects).map fun c => (point c).run := by
      rw [← map_run_pricedPoints host none]
      exact List.mem_map_of_mem hp
    obtain ⟨c, -, hcrun⟩ := List.mem_map.mp hrun
    rw [← hcrun]
    exact Steady.interiorGap_le (List.isChain_singleton c)
  · exact (longBlinds_points host minBlindMs none h).symm

section
variable (hcs : cs.Pairwise fun a b => a.now ≤ b.now)
include hcs

theorem foldUsage_collected (minBlindMs : Int) :
    foldUsage host ((collected host cs).map storedSnapshot) minBlindMs =
      foldPriced (pricedSegments host none (segments host cs)) minBlindMs := by
  have hordered : (segments host cs).Pairwise fun s t => s.first.now ≤ t.first.now := by
    rw [← flatMap_segments host cs, List.pairwise_flatMap] at hcs
    apply hcs.2.imp
    intro s t hst
    exact hst s.first List.mem_cons_self t.first List.mem_cons_self
  rw [foldUsage_eq_foldPriced, collected_eq_segmentRows host hcs, sortedRuns_of_inOrder,
    price_segmentRows_stored host onlyMembers_trimSupersededMembers]
  · rfl
  · exact inOrder_segmentRows host onlyMembers_trimSupersededMembers none hordered _ fun _ => rfl

theorem foldUsage_pointRows (minBlindMs : Int) :
    foldUsage host ((pointRows host none cs).map storedSnapshot) minBlindMs =
      foldPriced (pricedSegments host none (cs.map point)) minBlindMs := by
  have hordered : (cs.map point).Pairwise fun s t => s.first.now ≤ t.first.now :=
    List.pairwise_map.mpr hcs
  rw [foldUsage_eq_foldPriced, pointRows_eq_segmentRows, sortedRuns_of_inOrder,
    price_segmentRows_stored host onlyMembers_id]
  · rfl
  · exact inOrder_segmentRows host onlyMembers_id none hordered _ fun _ => rfl

end

/-- The stored rows and one row a collect give every gate and every class the same
answer, in every history whose runs are extended by readings of their own counters. -/
theorem gates_stored_eq_points (cs : List Collect) (hcs : cs.Pairwise fun a b => a.now ≤ b.now)
    (hconfirms : cs.IsChain (Confirms host)) (minBlindMs : Int) (options : ClassifyOptions)
    (hgap : 48 ≤ options.maxGapHours) (now : Int) (activeHours : Option ℚ) :
    let stored := foldUsage host ((collected host cs).map storedSnapshot) minBlindMs
    let points := foldUsage host ((pointRows host none cs).map storedSnapshot) minBlindMs
    usageTrustRefusalFrom stored options now activeHours =
        usageTrustRefusalFrom points options now activeHours ∧
      classifyUsageFrom stored options = classifyUsageFrom points options := by
  intro stored points
  have hsteady := steady_segments host hconfirms
  have hagree : FoldsAgree stored points := by
    have hprices := pricedSegments_points host none hsteady
    rw [flatMap_segments] at hprices
    have hfolds := foldsAgree_points host minBlindMs hsteady
    rwa [← hprices, ← foldUsage_collected host hcs, ← foldUsage_pointRows host hcs] at hfolds
  have hms : ((MAX_GAP_HOURS : Int) : ℚ) ≤ options.maxGapHours := by
    simpa [MAX_GAP_HOURS] using hgap
  exact ⟨hagree.usageTrustRefusalFrom_eq hms now activeHours, hagree.classifyUsageFrom_eq options⟩

end Folds

/-! ## Two members, and one member twice -/

def everyCollect : ClassifyOptions where
  recentHours := 24
  minHistory := 2
  minHistoryDays := 0
  minActiveHours := 0
  maxGapHours := 48

/-- The order two members are reported in is no change. -/
theorem gates_stored_eq_points_reordered :
    let cs : List Collect := [⟨0, [⟨"a", 5, some "0"⟩, ⟨"b", 2, none⟩]⟩,
      ⟨3600000, [⟨"b", 2, none⟩, ⟨"a", 5, some "0"⟩]⟩, ⟨7200000, [⟨"a", 6, some "0"⟩]⟩]
    let stored := foldUsage decimalHost ((collected decimalHost cs).map storedSnapshot) 0
    let points := foldUsage decimalHost ((pointRows decimalHost none cs).map storedSnapshot) 0
    usageTrustRefusalFrom stored everyCollect 7200000 none =
        usageTrustRefusalFrom points everyCollect 7200000 none ∧
      classifyUsageFrom stored everyCollect = classifyUsageFrom points everyCollect :=
  gates_stored_eq_points decimalHost _ (by decide) (by decide) 0 everyCollect (by decide)
    7200000 none

/-- Two shards reported under one name: each is differenced against the other, so the
repeated reading moves at every collect, and as a run it moves once. -/
theorem gates_stored_ne_points_one_name :
    let reading : List MemberUsage := [⟨"m", 10, some "0"⟩, ⟨"m", 0, some "0"⟩]
    let cs : List Collect := [⟨0, reading⟩, ⟨3600000, reading⟩, ⟨7200000, reading⟩]
    let stored := foldUsage decimalHost ((collected decimalHost cs).map storedSnapshot) 0
    let points := foldUsage decimalHost ((pointRows decimalHost none cs).map storedSnapshot) 0
    (cs.Pairwise fun a b => a.now ≤ b.now) ∧ 48 ≤ everyCollect.maxGapHours ∧
      classifyUsageFrom stored everyCollect = .PERIODIC_ALIVE ∧
      classifyUsageFrom points everyCollect = .CONTINUOUS := by
  decide +kernel

end Indexterity
