import Indexterity.Observed

/-!
# One history, two encodings

Storage merges identical readings into one run; the same observations could as well
be stored one by one. `windowsOf` measures the holes between stored readings only, so
splitting a run into its observations adds the whole span of the run to what was
observed and changes nothing else.
-/

namespace Indexterity

open Library

def pointAt (run : LatencyReading) (instant : Int) : LatencyReading :=
  { run with
    capturedAt := some instant
    lastSeenAt := some instant
    observations := some 1
    maxGapMs := some 0 }

@[simp] theorem spanStart_pointAt (run : LatencyReading) (t : Int) :
    (pointAt run t).spanStart = t := rfl

@[simp] theorem spanEnd_pointAt (run : LatencyReading) (t : Int) : (pointAt run t).spanEnd = t :=
  max_self t

def quietWindows : List Int → List Window
  | [] => []
  | [_] => []
  | t :: u :: rest => ⟨t, u, 0, 0⟩ :: quietWindows (u :: rest)

/-- The instants of a run's observations: as many as it counts, from the first to the
last stamp. -/
structure Instants (run : LatencyReading) (instants : List Int) : Prop where
  count : (instants.length : Int) = run.observationsOf
  increasing : instants.Pairwise (· < ·)
  first : instants.head? = some run.spanStart
  last : instants.getLast? = some run.spanEnd

variable {instants : List Int}

section
variable {run : LatencyReading} (h : Instants run instants)
include h

theorem Instants.point_iff : run.observationsOf = 1 ↔ run.spanStart = run.spanEnd := by
  rw [← h.count]
  obtain ⟨rest, hrest⟩ := List.head?_eq_some_iff.mp h.first
  have hincreasing := h.increasing
  have hlast := h.last
  rw [hrest] at hincreasing hlast ⊢
  cases rest with
  | nil => simpa using hlast
  | cons t rest =>
    have hmem : run.spanEnd ∈ t :: rest :=
      List.mem_of_getLast? (by rwa [List.getLast?_cons_cons] at hlast)
    have hlt := (List.pairwise_cons.mp hincreasing).1 _ hmem
    simp only [List.length_cons]
    omega

theorem Instants.head_split (older newer : List LatencyReading) :
    ∃ first first', (older ++ run :: newer).head? = some first ∧
      (older ++ instants.map (pointAt run) ++ newer).head? = some first' ∧
      first.spanStart = first'.spanStart := by
  obtain ⟨rest, rfl⟩ := List.head?_eq_some_iff.mp h.first
  cases older with
  | nil => exact ⟨_, _, rfl, rfl, rfl⟩
  | cons a older => exact ⟨_, _, rfl, rfl, rfl⟩

theorem Instants.getLast_split (older newer : List LatencyReading) :
    ∃ last last', (older ++ run :: newer).getLast? = some last ∧
      (older ++ instants.map (pointAt run) ++ newer).getLast? = some last' ∧
      last.spanEnd = last'.spanEnd := by
  obtain ⟨init, rfl⟩ := List.getLast?_eq_some_iff.mp h.last
  rcases List.eq_nil_or_concat newer with rfl | ⟨newer, b, rfl⟩
  · exact ⟨run, pointAt run run.spanEnd, by simp, by simp, (spanEnd_pointAt _ _).symm⟩
  · exact ⟨b, b, by simp [List.getLast?_cons], by simp [List.getLast?_cons], rfl⟩

theorem Instants.quietWindows_of_point (hpoint : run.spanStart = run.spanEnd) :
    quietWindows instants = [] := by
  have hone : instants.length = 1 := by
    have := h.count
    rw [h.point_iff.mpr hpoint] at this
    omega
  obtain ⟨t, rfl⟩ := List.length_eq_one_iff.mp hone
  rfl

end

def DisjointSpans (readings : List LatencyReading) : Prop :=
  (readings.filter fun r => r.capturedAt.isSome).Pairwise fun a b =>
    a.spanEnd < b.spanStart ∨ b.spanEnd < a.spanStart

/-! ## Windows of a series, cut at a reading -/

section Cut
variable (metric : LatencyMetric)

theorem windowBetween_pointAt_end (run b : LatencyReading) :
    windowBetween metric (pointAt run run.spanEnd) b = windowBetween metric run b := by
  unfold windowBetween
  rw [spanEnd_pointAt]
  cases metric <;> rfl

theorem windowsFrom_within {run : LatencyReading} {points : List LatencyReading} (hne : points ≠ [])
    (hfirst : ∀ p ∈ points.head?, ∀ a, windowBetween metric a p = windowBetween metric a run)
    (hlast : ∀ p ∈ points.getLast?, ∀ b, windowBetween metric p b = windowBetween metric run b)
    (older newer : List LatencyReading) :
    windowsFrom metric (older ++ points ++ newer) =
      windowsFrom metric (older ++ [run]) ++ windowsFrom metric points ++
        windowsFrom metric (run :: newer) := by
  simp only [windowsFrom_eq]
  rw [map_neighbours_within hne hfirst hlast, List.flatten_append, List.flatten_append]

theorem windowsFrom_points (run : LatencyReading) (instants : List Int) :
    windowsFrom metric (instants.map (pointAt run)) = quietWindows instants := by
  induction instants with
  | nil => rfl
  | cons t rest ih =>
    cases rest with
    | nil => rfl
    | cons u rest =>
      have hquiet : windowBetween metric (pointAt run t) (pointAt run u) = [⟨t, u, 0, 0⟩] := by
        cases metric <;> simp [windowBetween, deltaOf, pointAt, Run.spanEnd, Run.spanStart]
      simp only [List.map_cons] at ih ⊢
      rw [windowsFrom, hquiet, ih]
      rfl

theorem windowsLength_quiet {a b : Int} (ha : instants.head? = some a)
    (hb : instants.getLast? = some b) : windowsLength (quietWindows instants) = b - a := by
  induction instants generalizing a with
  | nil => simp at ha
  | cons t rest ih =>
    cases rest with
    | nil =>
      simp only [List.head?_cons, List.getLast?_singleton, Option.some.injEq] at ha hb
      simp [quietWindows, windowsLength, ← ha, ← hb]
    | cons u rest =>
      have hrest := ih rfl (by rwa [List.getLast?_cons_cons] at hb)
      simp only [List.head?_cons, Option.some.injEq] at ha
      simp only [windowsLength] at hrest
      simp [quietWindows, windowsLength, hrest, ← ha]

theorem startMs_of_mem_quiet {w : Window} (h : w ∈ quietWindows instants) :
    w.startMs ∈ instants := by
  induction instants with
  | nil => simp [quietWindows] at h
  | cons t rest ih =>
    cases rest with
    | nil => simp [quietWindows] at h
    | cons u rest =>
      rcases List.mem_cons.mp h with rfl | h
      · exact List.mem_cons_self
      · exact List.mem_cons_of_mem t (ih h)

end Cut

theorem foldObservation_of_ends (metric : LatencyMetric) {readings : List LatencyReading}
    {first last : LatencyReading}
    (hfirst : (sortedRuns LatencyReading.toRun readings).head? = some first)
    (hlast : (sortedRuns LatencyReading.toRun readings).getLast? = some last) :
    foldObservation readings metric =
      ⟨true, last.spanEnd - first.spanStart, windowsLength (windowsOf readings metric)⟩ := by
  simp [foldObservation, hfirst, hlast]

/-! ## A run and its observations -/

section Split
variable {before after : List LatencyReading} {run : LatencyReading}

theorem Instants.sorted_split (hi : Instants run instants) {older newer : List LatencyReading}
    (hperm : (older ++ newer).Perm ((before ++ after).filter fun r => r.capturedAt.isSome))
    (hpair : (older ++ run :: newer).Pairwise fun a b => a.spanEnd < b.spanStart) :
    sortedRuns LatencyReading.toRun (before ++ instants.map (pointAt run) ++ after) =
      older ++ instants.map (pointAt run) ++ newer := by
  refine sortedRuns_split (fun p hp => ?_) (List.pairwise_map.mpr hi.increasing) hperm hpair
  obtain ⟨t, ht, rfl⟩ := List.mem_map.mp hp
  obtain ⟨hlow, hhigh⟩ := bounds_of_increasing hi.increasing hi.first hi.last t ht
  exact ⟨rfl, by simpa using hlow, by simpa using hhigh⟩

variable (hdisjoint : DisjointSpans (before ++ run :: after)) (hrun : run.capturedAt.isSome = true)
include hdisjoint hrun

section
variable (hi : Instants run instants) (metric : LatencyMetric)
include hi

theorem exists_windowsOf_split :
    ∃ earlier later, windowsOf (before ++ run :: after) metric = earlier ++ later ∧
      windowsOf (before ++ instants.map (pointAt run) ++ after) metric =
        earlier ++ quietWindows instants ++ later := by
  obtain ⟨older, newer, hsorted, hperm, hpair⟩ := exists_sorted_around hdisjoint hrun
  have hsplit := hi.sorted_split hperm hpair
  refine ⟨windowsFrom metric (older ++ [run]), windowsFrom metric (run :: newer), ?_, ?_⟩
  · have hcut := @windowsFrom_within metric run [run] (by simp) (by simp) (by simp) older newer
    rw [windowsOf, hsorted]
    simpa [windowsFrom] using hcut
  · rw [windowsOf, hsplit, ← windowsFrom_points metric run instants]
    refine windowsFrom_within metric (fun hnil => ?_) ?_ ?_ older newer
    · have hfirst := hi.first
      rw [List.map_eq_nil_iff.mp hnil] at hfirst
      cases hfirst
    · rw [List.head?_map, hi.first]
      rintro p ⟨⟩ a
      cases metric <;> rfl
    · rw [List.getLast?_map, hi.last]
      rintro p ⟨⟩ b
      exact windowBetween_pointAt_end metric run b

theorem foldObservation_split :
    foldObservation (before ++ instants.map (pointAt run) ++ after) metric =
      { foldObservation (before ++ run :: after) metric with
        drawableMs := (foldObservation (before ++ run :: after) metric).drawableMs +
          (run.spanEnd - run.spanStart) } := by
  obtain ⟨older, newer, hsorted, hperm, hpair⟩ := exists_sorted_around hdisjoint hrun
  have hsplit := hi.sorted_split hperm hpair
  obtain ⟨earlier, later, hwindows, hwindows'⟩ := exists_windowsOf_split hdisjoint hrun hi metric
  obtain ⟨first, first', hfirst, hfirst', hstart⟩ := hi.head_split older newer
  obtain ⟨last, last', hlast, hlast', hend⟩ := hi.getLast_split older newer
  rw [← hsorted] at hfirst hlast
  rw [← hsplit] at hfirst' hlast'
  rw [foldObservation_of_ends metric hfirst hlast, foldObservation_of_ends metric hfirst' hlast',
    hwindows, hwindows', hstart, hend]
  simp only [windowsLength_append, windowsLength_quiet hi.first hi.last,
    ObservationFold.mk.injEq, true_and]
  omega

theorem observedMs_split {fromMs : Int} (hfrom : fromMs ≤ run.spanStart) (observeDays : ℚ)
    {options : ObservedOptions} (hown : options.ownOutages = []) :
    (observedWindow (before ++ instants.map (pointAt run) ++ after) metric fromMs observeDays
      options).observedMs =
      (observedWindow (before ++ run :: after) metric fromMs observeDays options).observedMs +
        (run.spanEnd - run.spanStart) := by
  obtain ⟨earlier, later, hwindows, hwindows'⟩ := exists_windowsOf_split hdisjoint hrun hi metric
  have hquiet : (quietWindows instants).filter (fun w => decide (fromMs ≤ w.startMs)) =
      quietWindows instants := by
    refine List.filter_eq_self.mpr fun w hw => ?_
    have hstart := bounds_of_increasing hi.increasing hi.first hi.last _ (startMs_of_mem_quiet hw)
    exact decide_eq_true (le_trans hfrom hstart.1)
  simp only [observedWindow, hown, spansOwnOutage, List.any_nil, Bool.not_false, List.filter_true,
    hwindows, hwindows', List.filter_append, hquiet, windowsLength_append,
    windowsLength_quiet hi.first hi.last]
  omega

end

/-- The two encodings agree on what was observed from every instant before the run, and
on whether the observation can finish, exactly when the run is a single observation. -/
theorem observed_split_iff {instants : List Int} (hi : Instants run instants)
    (metric : LatencyMetric) (observeDays : ℚ) {options : ObservedOptions}
    (hown : options.ownOutages = []) :
    ((∀ fromMs, fromMs ≤ run.spanStart →
        (observedWindow (before ++ instants.map (pointAt run) ++ after) metric fromMs observeDays
          options).observedMs =
          (observedWindow (before ++ run :: after) metric fromMs observeDays options).observedMs ∧
        (observedWindow (before ++ instants.map (pointAt run) ++ after) metric fromMs observeDays
          options).verdict =
          (observedWindow (before ++ run :: after) metric fromMs observeDays options).verdict) ∧
      observationCanFinish (before ++ instants.map (pointAt run) ++ after) metric observeDays =
        observationCanFinish (before ++ run :: after) metric observeDays) ↔
      run.observationsOf = 1 := by
  rw [hi.point_iff]
  constructor
  · rintro ⟨hall, -⟩
    have hsame := (hall run.spanStart (le_refl _)).1
    rw [observedMs_split hdisjoint hrun hi metric (le_refl _) observeDays hown] at hsame
    omega
  · intro hpoint
    have hsingle := hi.quietWindows_of_point hpoint
    obtain ⟨earlier, later, hwindows, hwindows'⟩ := exists_windowsOf_split hdisjoint hrun hi metric
    have hsame : windowsOf (before ++ instants.map (pointAt run) ++ after) metric =
        windowsOf (before ++ run :: after) metric := by
      rw [hwindows, hwindows', hsingle, List.append_nil]
    refine ⟨fun fromMs _ => ?_, ?_⟩
    · simp only [observedWindow, hsame, and_self]
    · have hfold := foldObservation_split hdisjoint hrun hi metric
      rw [observationCanFinish, hfold, hpoint, sub_self, add_zero]
      rfl

end Split

/-- A reading that is its own point. -/
theorem observed_split_point :
    let run : LatencyReading := ⟨⟨some 0, some 0, some 1, some 0⟩, 5, 5, 0, 0⟩
    let later : LatencyReading := ⟨⟨some DAY_MS, none, none, none⟩, 9, 9, 0, 0⟩
    let options : ObservedOptions := ⟨2, 1, none, []⟩
    (∀ fromMs, fromMs ≤ run.spanStart →
        (observedWindow [pointAt run 0, later] .read fromMs 1 options).observedMs =
          (observedWindow [run, later] .read fromMs 1 options).observedMs ∧
        (observedWindow [pointAt run 0, later] .read fromMs 1 options).verdict =
          (observedWindow [run, later] .read fromMs 1 options).verdict) ∧
      observationCanFinish [pointAt run 0, later] .read 1 =
        observationCanFinish [run, later] .read 1 := by
  intro run later options
  have hdisjoint : DisjointSpans ([] ++ run :: [later]) := by
    unfold DisjointSpans
    decide
  have hi : Instants run [0] := ⟨by decide, by decide, by decide, by decide⟩
  exact (observed_split_iff hdisjoint rfl hi .read 1 rfl).mpr (by decide)

/-- Two quiet days, confirmed three times: nothing is observed while they are one run,
and the window cannot finish; the same three readings fill it and finish it. -/
theorem observed_merged_quiet :
    let run : LatencyReading :=
      ⟨⟨some 0, some (2 * DAY_MS), some 3, some DAY_MS⟩, 5, 5, 0, 0⟩
    let points := [0, DAY_MS, 2 * DAY_MS].map (pointAt run)
    let options : ObservedOptions := ⟨2, 1, none, []⟩
    (Instants run [0, DAY_MS, 2 * DAY_MS] ∧ DisjointSpans [run]) ∧
      observedWindow [run] .read 0 2 options = ⟨.INCOMPLETE, 0, none⟩ ∧
      observedWindow points .read 0 2 options = ⟨.STABLE, 2 * DAY_MS, none⟩ ∧
      observationCanFinish [run] .read 2 = false ∧ observationCanFinish points .read 2 = true := by
  refine ⟨⟨⟨by decide, by decide, by decide, by decide⟩, ?_⟩, by decide +kernel⟩
  unfold DisjointSpans
  decide

end Indexterity
