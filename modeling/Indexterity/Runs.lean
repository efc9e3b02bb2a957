import Mathlib.Data.List.Sort
import Mathlib.Data.Rat.Floor

/-!
# Runs: readings that cover a span

`analysis/types.ts`. A reading of a cumulative counter covers the closed interval
from the instant it was first seen to the instant it was last confirmed. Stamps are
milliseconds since the epoch, as `getTime` reads them; a stamp that does not parse
is `none`. Fractions of a millisecond and of a day are exact rationals.
-/

namespace Indexterity

/-- What the JavaScript host supplies and this repository only calls. -/
structure Host where
  /-- `Date.parse`; `none` is NaN. -/
  dateParse : String → Option Int
  /-- `String.prototype.localeCompare`. -/
  localeCompare : String → String → Int
  /-- `String.prototype.toLowerCase`. -/
  toLowerCase : String → String
  /-- `Math.log10`. -/
  log10 : ℚ → ℚ

/-- A host to run the model on: stamps are decimal milliseconds, names compare by
code point, every letter is lower case already and no size has a logarithm. -/
def decimalHost : Host where
  dateParse := fun stamp =>
    if stamp = "" then none
    else some (stamp.toList.foldl (fun n c => 10 * n + ((c.toNat : Int) - 48)) 0)
  localeCompare := fun a b => if a = b then 0 else if a < b then -1 else 1
  toLowerCase := id
  log10 := fun _ => 0

def HOUR_MS : Int := 3600000

def DAY_MS : Int := 86400000

def mathRound (x : ℚ) : Int := ⌊x + 1 / 2⌋

structure Run where
  capturedAt : Option Int
  /-- Absent and unparseable stamps are read alike. -/
  lastSeenAt : Option Int
  observations : Option Int
  maxGapMs : Option Int
deriving DecidableEq, Repr

namespace Run

/-- Read only behind `sortedRuns`, which drops the runs without a start. -/
def spanStart (run : Run) : Int := run.capturedAt.getD 0

/-- Never earlier than the start: a `lastSeenAt` behind it is a point reading. -/
def spanEnd (run : Run) : Int :=
  match run.lastSeenAt with
  | none => run.spanStart
  | some seen => max run.spanStart seen

def interiorGap (run : Run) : Int :=
  match run.maxGapMs with
  | none => 0
  | some gap => if gap < 0 then 0 else gap

def observationsOf (run : Run) : Int :=
  match run.observations with
  | none => 1
  | some count => max 1 count

theorem spanStart_le_spanEnd (run : Run) : run.spanStart ≤ run.spanEnd := by
  unfold spanEnd
  split
  · exact le_refl _
  · exact le_max_left _ _

theorem one_le_observationsOf (run : Run) : 1 ≤ run.observationsOf := by
  unfold observationsOf
  split
  · exact le_refl _
  · exact le_max_left _ _

end Run

theorem bounds_of_increasing {instants : List Int} (h : instants.Pairwise (· < ·)) {a b : Int}
    (ha : instants.head? = some a) (hb : instants.getLast? = some b) :
    ∀ t ∈ instants, a ≤ t ∧ t ≤ b := by
  intro t ht
  constructor
  · obtain ⟨rest, rfl⟩ := List.head?_eq_some_iff.mp ha
    rcases List.mem_cons.mp ht with rfl | ht
    · exact le_refl _
    · exact le_of_lt ((List.pairwise_cons.mp h).1 t ht)
  · obtain ⟨rest, rfl⟩ := List.getLast?_eq_some_iff.mp hb
    rcases List.mem_append.mp ht with ht | ht
    · exact le_of_lt ((List.pairwise_append.mp h).2.2 t ht _ List.mem_cons_self)
    · exact le_of_eq (List.mem_singleton.mp ht)

section Series
variable {α : Type} (run : α → Run)

def totalObservations (runs : List α) : Int :=
  (runs.map fun r => (run r).observationsOf).sum

def sortedRuns (runs : List α) : List α :=
  (runs.filter fun r => (run r).capturedAt.isSome).insertionSort
    fun a b => (run a).spanStart ≤ (run b).spanStart

def InOrder (runs : List α) : Prop :=
  (∀ r ∈ runs, (run r).capturedAt.isSome = true) ∧
    runs.Pairwise fun a b => (run a).spanStart ≤ (run b).spanStart

theorem sortedRuns_of_inOrder {runs : List α} (h : InOrder run runs) :
    sortedRuns run runs = runs := by
  unfold sortedRuns
  rw [List.filter_eq_self.mpr h.1]
  exact h.2.insertionSort_eq

theorem sortedRuns_inOrder (runs : List α) : InOrder run (sortedRuns run runs) := by
  constructor
  · intro r hr
    have hm := (List.mem_insertionSort _).mp hr
    exact (List.mem_filter.mp hm).2
  · exact List.pairwise_insertionSort _ _

theorem sortedRuns_idem (runs : List α) :
    sortedRuns run (sortedRuns run runs) = sortedRuns run runs :=
  sortedRuns_of_inOrder run (sortedRuns_inOrder run runs)

theorem sortedRuns_eq_of_perm {runs sorted : List α}
    (hperm : sorted.Perm (runs.filter fun r => (run r).capturedAt.isSome))
    (hsorted : sorted.Pairwise fun a b => (run a).spanStart < (run b).spanStart) :
    sortedRuns run runs = sorted := by
  have hsame : (sortedRuns run runs).Perm sorted :=
    (List.perm_insertionSort _ _).trans hperm.symm
  have hdistinct : (sorted.map fun r => (run r).spanStart).Nodup :=
    List.pairwise_map.mpr (hsorted.imp ne_of_lt)
  refine hsame.eq_of_pairwise ?_ (sortedRuns_inOrder run runs).2 (hsorted.imp le_of_lt)
  intro a b ha hb hab hba
  exact List.inj_on_of_nodup_map hdistinct (hsame.mem_iff.mp ha) hb (le_antisymm hab hba)

theorem sortedRuns_perm {runs runs' : List α} (h : runs.Perm runs')
    (hties : ∀ a ∈ runs, ∀ b ∈ runs, ∀ t, (run a).capturedAt = some t →
      (run b).capturedAt = some t → run a = run b) :
    (sortedRuns run runs).map run = (sortedRuns run runs').map run := by
  have hperm (xs : List α) : (sortedRuns run xs).Perm
      (xs.filter fun r => (run r).capturedAt.isSome) := List.perm_insertionSort _ _
  have hsame := ((hperm runs).trans (h.filter _)).trans (hperm runs').symm
  have hsorted (xs : List α) : ((sortedRuns run xs).map run).Pairwise
      fun a b => a.spanStart ≤ b.spanStart := List.pairwise_map.mpr (sortedRuns_inOrder run xs).2
  refine (hsame.map run).eq_of_pairwise ?_ (hsorted runs) (hsorted runs')
  intro _ _ hx hy hab hba
  obtain ⟨a, ha, rfl⟩ := List.mem_map.mp hx
  obtain ⟨b, hb, rfl⟩ := List.mem_map.mp hy
  obtain ⟨ha, hstart⟩ := List.mem_filter.mp ((hperm runs).mem_iff.mp ha)
  obtain ⟨hb, hstart'⟩ := List.mem_filter.mp ((hperm runs).mem_iff.mp (hsame.mem_iff.mpr hb))
  obtain ⟨t, ht⟩ := Option.isSome_iff_exists.mp hstart
  obtain ⟨t', ht'⟩ := Option.isSome_iff_exists.mp hstart'
  have heq : t = t' := by simpa [Run.spanStart, ht, ht'] using le_antisymm hab hba
  exact hties a ha b hb t ht (heq ▸ ht')

theorem sortedRuns_map {ρ : Type} {start : ρ → Int} {read : ρ → α}
    (h : ∀ row, (run (read row)).capturedAt = some (start row)) (rows : List ρ) :
    sortedRuns run (rows.map read) =
      (rows.insertionSort fun a b => start a ≤ start b).map read := by
  have hstart (row : ρ) : (run (read row)).spanStart = start row := by
    rw [Run.spanStart, h, Option.getD_some]
  have hparsed : ((rows.map read).filter fun r => (run r).capturedAt.isSome) = rows.map read :=
    List.filter_eq_self.mpr (List.forall_mem_map.mpr fun row _ => by rw [h, Option.isSome_some])
  rw [sortedRuns, hparsed]
  refine (List.map_insertionSort _ _ _ _ fun a _ b _ => ?_).symm
  rw [hstart, hstart]

def DisjointRuns (runs : List α) : Prop :=
  (runs.filter fun r => (run r).capturedAt.isSome).Pairwise fun a b =>
    (run a).spanEnd < (run b).spanStart ∨ (run b).spanEnd < (run a).spanStart

section Disjoint
variable {run} {before after : List α} {r : α}

theorem pairwise_sorted_of_disjoint {runs : List α} (h : DisjointRuns run runs) :
    (sortedRuns run runs).Pairwise fun a b => (run a).spanEnd < (run b).spanStart := by
  have hperm : (sortedRuns run runs).Perm (runs.filter fun r => (run r).capturedAt.isSome) :=
    List.perm_insertionSort _ _
  have hdisjoint := (hperm.pairwise_iff fun {a b} hab => Or.symm hab).mpr h
  refine hdisjoint.imp₂ (fun {a b} hab hle => ?_) (sortedRuns_inOrder _ runs).2
  have hb := (run b).spanStart_le_spanEnd
  omega

theorem exists_sorted_around (hdisjoint : DisjointRuns run (before ++ r :: after))
    (hr : (run r).capturedAt.isSome = true) :
    ∃ older newer, sortedRuns run (before ++ r :: after) = older ++ r :: newer ∧
      (older ++ newer).Perm ((before ++ after).filter fun r => (run r).capturedAt.isSome) ∧
      (older ++ r :: newer).Pairwise fun a b => (run a).spanEnd < (run b).spanStart := by
  have hperm : (sortedRuns run (before ++ r :: after)).Perm
      ((before ++ r :: after).filter fun r => (run r).capturedAt.isSome) :=
    List.perm_insertionSort _ _
  have hmem : r ∈ sortedRuns run (before ++ r :: after) :=
    hperm.mem_iff.mpr (List.mem_filter.mpr ⟨by simp, hr⟩)
  obtain ⟨older, newer, hsorted⟩ := List.append_of_mem hmem
  refine ⟨older, newer, hsorted, ?_, hsorted ▸ pairwise_sorted_of_disjoint hdisjoint⟩
  simp only [hsorted, List.filter_append, List.filter_cons, hr, if_true] at hperm
  rw [List.filter_append]
  exact (List.perm_middle.symm.trans (hperm.trans List.perm_middle)).cons_inv

/-- Readings inside the span of a run sort to the place of the run. -/
theorem sortedRuns_split {points older newer : List α}
    (hpoint : ∀ p ∈ points, (run p).capturedAt.isSome = true ∧
      (run r).spanStart ≤ (run p).spanStart ∧ (run p).spanEnd ≤ (run r).spanEnd)
    (hincreasing : points.Pairwise fun a b => (run a).spanStart < (run b).spanStart)
    (hperm : (older ++ newer).Perm ((before ++ after).filter fun r => (run r).capturedAt.isSome))
    (hpair : (older ++ r :: newer).Pairwise fun a b => (run a).spanEnd < (run b).spanStart) :
    sortedRuns run (before ++ points ++ after) = older ++ points ++ newer := by
  obtain ⟨holder, hrest, hcross⟩ := List.pairwise_append.mp hpair
  obtain ⟨hnext, hnewer⟩ := List.pairwise_cons.mp hrest
  refine sortedRuns_eq_of_perm _ ?_ ?_
  · have hparsed : points.filter (fun r => (run r).capturedAt.isSome) = points :=
      List.filter_eq_self.mpr fun p hp => (hpoint p hp).1
    simp only [List.filter_append, hparsed] at hperm ⊢
    rw [List.append_assoc, List.append_assoc]
    exact (List.perm_append_comm_assoc _ _ _).trans
      ((hperm.append_left _).trans (List.perm_append_comm_assoc _ _ _))
  · have hlift : ∀ a b, (run a).spanEnd < (run b).spanStart →
        (run a).spanStart < (run b).spanStart :=
      fun a _ h => lt_of_le_of_lt (run a).spanStart_le_spanEnd h
    rw [List.append_assoc]
    refine List.pairwise_append.mpr ⟨holder.imp (hlift _ _),
      List.pairwise_append.mpr ⟨hincreasing, hnewer.imp (hlift _ _), ?_⟩, ?_⟩
    · intro p hp b hb
      have hle := (hpoint p hp).2.2
      have hlt := hnext b hb
      have hspan := (run p).spanStart_le_spanEnd
      omega
    · intro a ha b hb
      rcases List.mem_append.mp hb with hb | hb
      · have hle := (hpoint b hb).2.1
        have hlt := hcross a ha r List.mem_cons_self
        have hspan := (run a).spanStart_le_spanEnd
        omega
      · exact hlift a b (hcross a ha b (List.mem_cons_of_mem r hb))

end Disjoint

/-- One interval between two consecutive observations, and how many such
intervals it stands for. -/
structure Gap where
  ms : ℚ
  weight : Int

/-- The `n - 1` intervals a run of `n` observations contributes, evenly spaced. -/
def interiorGaps (r : Run) : List Gap :=
  if 1 < r.observationsOf ∧ 0 < r.spanEnd - r.spanStart then
    [⟨((r.spanEnd - r.spanStart : Int) : ℚ) / (r.observationsOf - 1 : Int), r.observationsOf - 1⟩]
  else []

def betweenGaps (r next : Run) : List Gap :=
  if 0 < next.spanStart - r.spanEnd then [⟨(next.spanStart - r.spanEnd : Int), 1⟩] else []

def observationGaps : List α → List Gap
  | [] => []
  | [r] => interiorGaps (run r)
  | r :: next :: rest =>
    interiorGaps (run r) ++ betweenGaps (run r) (run next) ++ observationGaps (next :: rest)

theorem observationGaps_map {β : Type} (f : β → α) (xs : List β) :
    observationGaps run (xs.map f) = observationGaps (fun x => run (f x)) xs := by
  induction xs with
  | nil => rfl
  | cons x xs ih =>
    cases xs with
    | nil => rfl
    | cons y xs =>
      rw [List.map_cons, List.map_cons, observationGaps, observationGaps, ← List.map_cons, ih]

theorem totalObservations_cons (r : α) (rs : List α) :
    totalObservations run (r :: rs) = (run r).observationsOf + totalObservations run rs := by
  simp [totalObservations]

end Series

end Indexterity
