import Indexterity.Activity

/-!
# Activity of one history, two encodings

A run stands for its observations at even distances. Read one by one they leave the usual
interval and every credited hole where they are: the median counts an interval of the run as
often as the run has it, and between the readings of one run no counter moves.
-/

namespace Indexterity

open Library

/-- A reading of `point`'s counters at one instant. -/
def ActivityPoint.at (point : ActivityPoint) (instant : Int) : ActivityPoint :=
  { point with toRun := ⟨some instant, some instant, some 1, some 0⟩ }

variable (point : ActivityPoint)

@[simp] theorem spanStart_at (t : Int) : (point.at t).spanStart = t := rfl

@[simp] theorem spanEnd_at (t : Int) : (point.at t).spanEnd = t :=
  max_self t

theorem interiorGaps_at (t : Int) : interiorGaps (point.at t).toRun = [] :=
  rfl

/-- The instants of a run's observations, `step` apart. -/
structure EvenInstants (run : Run) (step : Int) (instants : List Int) : Prop where
  count : (instants.length : Int) = run.observationsOf
  increasing : instants.Pairwise (· < ·)
  even : ∀ p ∈ neighbours instants, p.2 - p.1 = step
  first : instants.head? = some run.spanStart
  last : instants.getLast? = some run.spanEnd

section Even
variable {instants : List Int} {step : Int}

theorem last_sub_first_of_even (h : ∀ p ∈ neighbours instants, p.2 - p.1 = step) {a b : Int}
    (ha : instants.head? = some a) (hb : instants.getLast? = some b) :
    b - a = ((instants.length - 1 : Nat) : Int) * step := by
  induction instants generalizing a with
  | nil => cases ha
  | cons t rest ih =>
    cases rest with
    | nil =>
      cases ha
      cases hb
      simp
    | cons u rest =>
      obtain ⟨htu, hrest⟩ := List.forall_mem_cons.mp h
      have hle := ih hrest rfl (by rwa [List.getLast?_cons_cons] at hb)
      cases ha
      simp only [List.length_cons, Nat.add_sub_cancel, Nat.cast_add, Nat.cast_one] at hle htu ⊢
      linarith

theorem observationGaps_at (point : ActivityPoint)
    (heven : ∀ p ∈ neighbours instants, p.2 - p.1 = step)
    (hincreasing : instants.Pairwise (· < ·)) :
    observationGaps ActivityPoint.toRun (instants.map point.at) =
      List.replicate (instants.length - 1) ⟨step, 1⟩ := by
  induction instants with
  | nil => rfl
  | cons t rest ih =>
    cases rest with
    | nil => rfl
    | cons u rest =>
      obtain ⟨htu, hrest⟩ := List.forall_mem_cons.mp heven
      obtain ⟨hlt, hincreasing⟩ := List.pairwise_cons.mp hincreasing
      have hgap : betweenGaps (point.at t).toRun (point.at u).toRun = [⟨step, 1⟩] := by
        have hpos : 0 < u - t := sub_pos.mpr (hlt u List.mem_cons_self)
        unfold betweenGaps
        rw [spanStart_at, spanEnd_at, if_pos hpos, htu]
      have hlater := ih hrest hincreasing
      simp only [List.map_cons] at hlater ⊢
      rw [observationGaps, interiorGaps_at, hgap, hlater]
      rfl

variable {run : Run}

variable (h : EvenInstants run step instants) (hmany : 1 < instants.length)
include h hmany

theorem EvenInstants.step_pos :
    0 < step := by
  match instants, h, hmany with
  | t :: u :: rest, h, _ =>
    have hlt := (List.pairwise_cons.mp h.increasing).1 u List.mem_cons_self
    have hstep := h.even (t, u) List.mem_cons_self
    exact hstep ▸ sub_pos.mpr hlt

theorem EvenInstants.interiorGaps_eq :
    interiorGaps run = [⟨step, ((instants.length - 1 : Nat) : Int)⟩] := by
  have hspan := last_sub_first_of_even h.even h.first h.last
  have hcount := h.count
  have hcast : run.observationsOf - 1 = ((instants.length - 1 : Nat) : Int) := by omega
  have hpos : 0 < ((instants.length - 1 : Nat) : Int) * step :=
    mul_pos (by omega) (h.step_pos hmany)
  have hne : ((instants.length - 1 : Nat) : ℚ) ≠ 0 := Nat.cast_ne_zero.mpr (by omega)
  unfold interiorGaps
  rw [hspan, hcast, if_pos ⟨by omega, hpos⟩, Int.cast_mul, Int.cast_natCast,
    mul_div_cancel_left₀ _ hne]

end Even

/-! ## The usual interval -/

section Gaps
variable {α : Type} {run : α → Run}

theorem observationGaps_append {points : List α} {last : α} (hne : points ≠ [])
    (hlast : ∀ p ∈ points.getLast?, (run p).spanEnd = (run last).spanEnd)
    (hpoint : interiorGaps (run last) = []) (newer : List α) :
    observationGaps run (points ++ newer) =
      observationGaps run points ++ observationGaps run (last :: newer) := by
  induction points with
  | nil => exact absurd rfl hne
  | cons p points ih =>
    cases points with
    | nil => cases newer <;> simp [observationGaps, betweenGaps, hpoint, hlast p rfl]
    | cons q points =>
      have hrest := ih (List.cons_ne_nil q points) (by simpa using hlast)
      simp only [List.cons_append, observationGaps, List.append_assoc] at hrest ⊢
      rw [hrest]

/-- The gaps of a series in which `points` fill the time from `first` to `last`. -/
theorem observationGaps_within {points : List α} {first last : α} (hne : points ≠ [])
    (hfirst : ∀ p ∈ points.head?, (run p).spanStart = (run first).spanStart)
    (hlast : ∀ p ∈ points.getLast?, (run p).spanEnd = (run last).spanEnd)
    (hpoint : interiorGaps (run first) = [] ∧ interiorGaps (run last) = []) (older newer : List α) :
    observationGaps run (older ++ points ++ newer) =
      observationGaps run (older ++ [first]) ++ observationGaps run points ++
        observationGaps run (last :: newer) := by
  induction older with
  | nil => simpa [observationGaps, hpoint.1] using observationGaps_append hne hlast hpoint.2 newer
  | cons a older ih =>
    cases older with
    | nil =>
      obtain ⟨p, rest, rfl⟩ := List.exists_cons_of_ne_nil hne
      simpa [observationGaps, betweenGaps, hpoint.1, hfirst p rfl] using ih
    | cons b older =>
      simp only [List.cons_append, observationGaps, List.append_assoc] at ih ⊢
      rw [ih]

theorem medianObservationGap_spread {runs runs' : List α} {earlier later : List Gap}
    {step : Int} {n : Nat}
    (h : observationGaps run (sortedRuns run runs) = earlier ++ [⟨step, n⟩] ++ later)
    (h' : observationGaps run (sortedRuns run runs') =
      earlier ++ List.replicate n ⟨step, 1⟩ ++ later) :
    medianObservationGap run runs' = medianObservationGap run runs := by
  rw [medianObservationGap_eq, medianObservationGap_eq, h, h']
  simp [repeatedGaps, List.flatMap_replicate]

end Gaps

/-! ## A run and its observations -/

section Split
variable {before after older newer : List ActivityPoint} {run : ActivityPoint} {step : Int}
  {instants : List Int}

section
variable (h : EvenInstants run.toRun step instants)
include h

theorem EvenInstants.ne_nil :
    instants.map run.at ≠ [] := by
  rintro hnil
  have hfirst := h.first
  rw [List.map_eq_nil_iff.mp hnil] at hfirst
  cases hfirst

theorem EvenInstants.head_at :
    (instants.map run.at).head? = some (run.at run.spanStart) := by
  rw [List.head?_map, h.first, Option.map_some]

theorem EvenInstants.getLast_at :
    (instants.map run.at).getLast? = some (run.at run.spanEnd) := by
  rw [List.getLast?_map, h.last, Option.map_some]

end

theorem sum_activeCredit_split (cap : ℚ) (h : EvenInstants run.toRun step instants) :
    ((neighbours (older ++ instants.map run.at ++ newer)).map
        fun p => activeCredit cap p.1 p.2).sum =
      ((neighbours (older ++ run :: newer)).map fun p => activeCredit cap p.1 p.2).sum := by
  have hone := map_neighbours_within (f := fun p => activeCredit cap p.1 p.2) (x := run)
    (List.cons_ne_nil run []) (by simp) (by simp) older newer
  rw [List.append_assoc, List.singleton_append] at hone
  rw [hone, map_neighbours_within (x := run) h.ne_nil]
  · have hquiet : ((neighbours (instants.map run.at)).map
        fun p => activeCredit cap p.1 p.2).sum = 0 := by
      rw [neighbours_map, List.map_map]
      exact List.sum_eq_zero (List.forall_mem_map.mpr fun p _ => by
        simp [activeCredit, readsMoved, ActivityPoint.at])
    simp [hquiet]
  · rw [h.head_at]
    rintro p ⟨⟩ a
    rfl
  · rw [h.getLast_at]
    rintro p ⟨⟩ b
    unfold activeCredit
    rw [spanEnd_at]
    rfl

theorem medianObservationGap_split (h : EvenInstants run.toRun step instants)
    (hold : sortedRuns ActivityPoint.toRun before = older ++ run :: newer)
    (hsplit : sortedRuns ActivityPoint.toRun after = older ++ instants.map run.at ++ newer) :
    medianObservationGap ActivityPoint.toRun after =
      medianObservationGap ActivityPoint.toRun before := by
  have hrun := @observationGaps_within _ ActivityPoint.toRun [run] (run.at run.spanStart)
    (run.at run.spanEnd) (List.cons_ne_nil _ _) (by simp) (by simp) ⟨rfl, rfl⟩ older newer
  have hpoints := @observationGaps_within _ ActivityPoint.toRun _ (run.at run.spanStart)
    (run.at run.spanEnd) h.ne_nil (by simp [h.head_at]) (by simp [h.getLast_at]) ⟨rfl, rfl⟩
    older newer
  rw [observationGaps_at run h.even h.increasing, ← hsplit] at hpoints
  rw [List.append_assoc, List.singleton_append, ← hold] at hrun
  rcases Nat.lt_or_ge 1 instants.length with hmany | hone
  · rw [observationGaps, h.interiorGaps_eq hmany] at hrun
    exact medianObservationGap_spread hrun hpoints
  · -- a single observation has no interval of its own
    have hnone : interiorGaps run.toRun = [] :=
      if_neg fun hinside => absurd hinside.1 (by rw [← h.count]; omega)
    rw [Nat.sub_eq_zero_of_le hone, List.replicate_zero] at hpoints
    rw [observationGaps, hnone, ← hpoints] at hrun
    simp only [medianObservationGap, hrun]

variable (hdisjoint : DisjointRuns ActivityPoint.toRun (before ++ run :: after))
variable (hrun : run.capturedAt.isSome = true)
include hdisjoint hrun

theorem foldActivity_split (h : EvenInstants run.toRun step instants) :
    foldActivity (before ++ instants.map run.at ++ after) =
      foldActivity (before ++ run :: after) := by
  obtain ⟨older, newer, hsorted, hperm, hpair⟩ := exists_sorted_around hdisjoint hrun
  have hsplit : sortedRuns ActivityPoint.toRun (before ++ instants.map run.at ++ after) =
      older ++ instants.map run.at ++ newer := by
    refine sortedRuns_split (fun p hp => ?_) (List.pairwise_map.mpr h.increasing) hperm hpair
    obtain ⟨t, ht, rfl⟩ := List.mem_map.mp hp
    obtain ⟨hlow, hhigh⟩ := bounds_of_increasing h.increasing h.first h.last t ht
    exact ⟨rfl, hlow, (spanEnd_at run t).trans_le hhigh⟩
  unfold foldActivity
  dsimp only
  have hmedian := medianObservationGap_split h
    ((sortedRuns_idem _ _).trans hsorted) ((sortedRuns_idem _ _).trans hsplit)
  rw [hmedian, hsplit, hsorted, sum_activeCredit_split _ h]

end Split

/-- Active time is credited hole by hole, each at most its length, an hour and the usual
interval, whether or not the readings of a run are stored as one. -/
theorem foldActivity_of_disjoint {points : List ActivityPoint}
    (hdisjoint : DisjointRuns ActivityPoint.toRun points) :
    let holes := neighbours (sortedRuns ActivityPoint.toRun points)
    let cap := min (medianObservationGap ActivityPoint.toRun points) MAX_ACTIVE_CREDIT_MS
    (foldActivity points).activeMs = (holes.map fun p => activeCredit cap p.1 p.2).sum ∧
      (∀ p ∈ holes, 0 ≤ activeCredit cap p.1 p.2 ∧ activeCredit cap p.1 p.2 ≤ cap) ∧
      (foldActivity points).activeMs ≤
        (holes.map fun p => ((p.2.spanStart - p.1.spanEnd : Int) : ℚ)).sum ∧
      ∀ before run after step instants, points = before ++ run :: after →
        run.capturedAt.isSome = true → EvenInstants run.toRun step instants →
        foldActivity (before ++ instants.map run.at ++ after) = foldActivity points := by
  intro holes cap
  have hmedian := medianObservationGap_nonneg ActivityPoint.toRun points
  have hcap : 0 ≤ cap := le_min hmedian (by norm_num [MAX_ACTIVE_CREDIT_MS])
  have hbounds (p) (hp : p ∈ holes) :=
    activeCredit_bounds hcap (rel_of_mem_neighbours (pairwise_sorted_of_disjoint hdisjoint) hp)
  have hsum : (foldActivity points).activeMs =
      (holes.map fun p => activeCredit cap p.1 p.2).sum := by
    unfold foldActivity
    dsimp only
    rw [medianObservationGap_sortedRuns]
    split
    · rename_i hzero
      have hnone : cap ≤ 0 := (min_le_left _ _).trans hzero.le
      refine ((sum_map_eq_zero_iff fun p hp => (hbounds p hp).1).mpr fun p hp => ?_).symm
      exact le_antisymm ((hbounds p hp).2.1.trans hnone) (hbounds p hp).1
    · rfl
  refine ⟨hsum, fun p hp => ⟨(hbounds p hp).1, (hbounds p hp).2.1⟩, ?_, ?_⟩
  · rw [hsum]
    exact List.sum_le_sum fun p hp => (hbounds p hp).2.2
  · rintro before run after step instants rfl hrun h
    exact foldActivity_split hdisjoint hrun h

/-- Two observations a tenth of a second apart, and one later. -/
def confirmedRun : ActivityPoint := ⟨⟨some 0, some 100, some 2, some 100⟩, 5, 0⟩

def movedReading : ActivityPoint := ⟨⟨some 180, none, none, none⟩, 9, 0⟩

theorem foldActivity_confirmedRun :
    foldActivity [confirmedRun.at 0, confirmedRun.at 100, movedReading] =
      foldActivity [confirmedRun, movedReading] := by
  have hdisjoint : DisjointRuns ActivityPoint.toRun [confirmedRun, movedReading] := by
    unfold DisjointRuns
    decide
  exact (foldActivity_of_disjoint hdisjoint).2.2.2 [] confirmedRun [movedReading] 100 [0, 100] rfl
    rfl ⟨by decide, by decide, by decide, by decide, by decide⟩

/-- Three even readings of the run that counts two halve the usual interval, and with it what
the later hole is credited. -/
theorem foldActivity_oversplit :
    DisjointRuns ActivityPoint.toRun [confirmedRun, movedReading] ∧
      (∀ p ∈ neighbours [0, 50, (100 : Int)], p.2 - p.1 = 50) ∧
      foldActivity [confirmedRun, movedReading] = ⟨80, true⟩ ∧
      foldActivity ([0, 50, 100].map confirmedRun.at ++ [movedReading]) = ⟨50, true⟩ := by
  refine ⟨?_, by decide, by decide +kernel, by decide +kernel⟩
  unfold DisjointRuns
  decide

end Indexterity
