import Indexterity.Recommend
import Mathlib.Data.Finset.Max

/-!
# What covers a redundant index after every proposed drop

A redundancy finding rests on a cover that stays. Along a chain of covers the longest
one is covered by nothing, so the redundancy pass alone never takes an index together
with all that covers it. The usage pass can: it may judge that longest cover unused.
-/

namespace Indexterity

section Collection
variable (facts : CollectionFacts) (indexes : List IndexInput)

def standingCovers (index : IndexInput) : List IndexInput :=
  indexes.filter fun other =>
    !other.pendingRemoval && isRedundantPrefix index.spec other.spec

variable {index : IndexInput}

theorem mem_standingCovers {other : IndexInput} :
    other ∈ standingCovers indexes index ↔
      other ∈ indexes ∧ other.pendingRemoval = false ∧
        isRedundantPrefix index.spec other.spec = true := by
  simp [standingCovers]

theorem coveringOf_isSome_iff (index : IndexInput) :
    (coveringOf indexes index).isSome = true ↔ standingCovers indexes index ≠ [] := by
  simp [coveringOf, standingCovers, List.find?_isSome, List.filter_eq_nil_iff]

def proposes (type : RecommendationType) (name : String) : Prop :=
  ∃ c ∈ recommendForCollection facts indexes, c.type = type ∧ c.indexName = name

variable {c : RecommendationCandidate}

theorem usageFinding_type {type : RecommendationType} {rationale : UsageClass → String}
    (h : usageFinding facts type rationale index = some c) :
    c.type = type ∧ c.indexName = index.spec.name ∧ (deadClass facts index).isSome = true := by
  obtain ⟨usageClass, hdead, rfl⟩ := Option.map_eq_some_iff.mp h
  exact ⟨rfl, rfl, by simp [hdead]⟩

theorem redundantFinding_type (h : redundantFinding facts indexes index = some c) :
    c.type = .DROP_REDUNDANT ∧ c.indexName = index.spec.name ∧
      standingCovers indexes index ≠ [] := by
  obtain ⟨covering, hcovering, rfl⟩ := Option.map_eq_some_iff.mp h
  exact ⟨rfl, rfl, (coveringOf_isSome_iff indexes index).mp (by simp [hcovering])⟩

theorem uniqueFinding_type
    (h : uniqueFinding facts indexes index = some c) : c.type = .ADVISORY_REVIEW := by
  unfold uniqueFinding at h
  split_ifs at h
  obtain ⟨wider, -, rfl⟩ := Option.map_eq_some_iff.mp h
  rfl

theorem mem_recommendForCollection (h : c ∈ recommendForCollection facts indexes) :
    (∃ index ∈ eligible indexes, redundantFinding facts indexes index = some c) ∨
      (∃ index ∈ eligible indexes, index.spec.name ∉ redundantNames indexes ∧
        usageFinding facts .DROP_UNUSED unusedRationale index = some c) ∨
      c.type = .ADVISORY_REVIEW := by
  simp only [recommendForCollection, List.mem_append, List.mem_filterMap] at h
  rcases h with ((⟨index, hindex, hc⟩ | h) | h) | ⟨index, hindex, hc⟩
  · exact .inl ⟨index, hindex, hc⟩
  · obtain ⟨index, hindex, hc⟩ := List.mem_filterMap.mp h
    obtain ⟨hmem, hname⟩ := List.mem_filter.mp hindex
    exact .inr (.inl ⟨index, hmem, by simpa using hname, hc⟩)
  · obtain ⟨index, _, hc⟩ := List.mem_filterMap.mp h
    exact .inr (.inr (usageFinding_type facts hc).1)
  · exact .inr (.inr (uniqueFinding_type facts indexes hc))

section Distinct
variable {indexes} (hnames : (indexes.map fun index => index.spec.name).Nodup)
include hnames

theorem eq_of_name_eq {a b : IndexInput} (ha : a ∈ indexes) (hb : b ∈ indexes)
    (h : a.spec.name = b.spec.name) : a = b :=
  List.inj_on_of_nodup_map hnames ha hb h

section
variable (hindex : index ∈ indexes)
include hindex

theorem mem_redundantNames_iff :
    index.spec.name ∈ redundantNames indexes ↔
      isNeverDrop index.spec = false ∧ standingCovers indexes index ≠ [] := by
  constructor
  · intro h
    obtain ⟨other, hother, hname⟩ := List.mem_map.mp h
    obtain ⟨heligible, hcovered⟩ := List.mem_filter.mp hother
    obtain ⟨hmem, hdrop⟩ := List.mem_filter.mp heligible
    rw [← eq_of_name_eq hnames hmem hindex hname]
    exact ⟨by simpa using hdrop, (coveringOf_isSome_iff indexes other).mp hcovered⟩
  · rintro ⟨hdrop, hcovered⟩
    refine List.mem_map.mpr ⟨index, List.mem_filter.mpr ⟨?_, ?_⟩, rfl⟩
    · exact List.mem_filter.mpr ⟨hindex, by simp [hdrop]⟩
    · exact (coveringOf_isSome_iff indexes index).mpr hcovered

theorem proposes_redundant_iff :
    proposes facts indexes .DROP_REDUNDANT index.spec.name ↔
      isNeverDrop index.spec = false ∧ standingCovers indexes index ≠ [] := by
  constructor
  · rintro ⟨c, hc, htype, hname⟩
    rcases mem_recommendForCollection facts indexes hc with
      ⟨other, hother, hfound⟩ | ⟨other, hother, -, hfound⟩ | hadvisory
    · obtain ⟨-, hother', hcovered⟩ := redundantFinding_type facts indexes hfound
      obtain ⟨hmem, hdrop⟩ := List.mem_filter.mp hother
      rw [← eq_of_name_eq hnames hmem hindex (hother'.symm.trans hname)]
      exact ⟨by simpa using hdrop, hcovered⟩
    · rw [(usageFinding_type facts hfound).1] at htype
      cases htype
    · rw [hadvisory] at htype
      cases htype
  · rintro ⟨hdrop, hcovered⟩
    obtain ⟨c, hc⟩ : ∃ c, redundantFinding facts indexes index = some c := by
      rw [← Option.isSome_iff_exists, redundantFinding, Option.isSome_map, coveringOf_isSome_iff]
      exact hcovered
    obtain ⟨htype, hname, -⟩ := redundantFinding_type facts indexes hc
    refine ⟨c, ?_, htype, hname⟩
    simp only [recommendForCollection, List.mem_append, List.mem_filterMap]
    exact .inl (.inl (.inl ⟨index, List.mem_filter.mpr ⟨hindex, by simp [hdrop]⟩, hc⟩))

theorem proposes_unused_iff :
    proposes facts indexes .DROP_UNUSED index.spec.name ↔
      isNeverDrop index.spec = false ∧ standingCovers indexes index = [] ∧
        (deadClass facts index).isSome = true := by
  constructor
  · rintro ⟨c, hc, htype, hname⟩
    rcases mem_recommendForCollection facts indexes hc with
      ⟨other, hother, hfound⟩ | ⟨other, hother, hspared, hfound⟩ | hadvisory
    · rw [(redundantFinding_type facts indexes hfound).1] at htype
      cases htype
    · obtain ⟨-, hother', hdead⟩ := usageFinding_type facts hfound
      obtain ⟨hmem, hdrop⟩ := List.mem_filter.mp hother
      rw [eq_of_name_eq hnames hmem hindex (hother'.symm.trans hname)] at hspared hdead hdrop
      rw [mem_redundantNames_iff hnames hindex] at hspared
      have hdrop' : isNeverDrop index.spec = false := by simpa using hdrop
      exact ⟨hdrop', by_contra fun h => hspared ⟨hdrop', h⟩, hdead⟩
    · rw [hadvisory] at htype
      cases htype
  · rintro ⟨hdrop, huncovered, hdead⟩
    obtain ⟨c, hc⟩ : ∃ c, usageFinding facts .DROP_UNUSED unusedRationale index = some c := by
      rw [← Option.isSome_iff_exists, usageFinding, Option.isSome_map]
      exact hdead
    obtain ⟨htype, hname, -⟩ := usageFinding_type facts hc
    refine ⟨c, ?_, htype, hname⟩
    have hspared : index.spec.name ∉ redundantNames indexes := by
      rw [mem_redundantNames_iff hnames hindex]
      exact fun h => h.2 huncovered
    simp only [recommendForCollection, List.mem_append]
    refine .inl (.inl (.inr (List.mem_filterMap.mpr ⟨index, List.mem_filter.mpr ⟨?_, ?_⟩, hc⟩)))
    · exact List.mem_filter.mpr ⟨hindex, by simp [hdrop]⟩
    · simpa using hspared

end

theorem standingCovers_trans {a b c : IndexInput} (ha : a ∈ indexes)
    (hb : b ∈ standingCovers indexes a) (hc : c ∈ standingCovers indexes b) :
    c ∈ standingCovers indexes a := by
  obtain ⟨-, -, hab⟩ := (mem_standingCovers indexes).mp hb
  obtain ⟨hmem, hstanding, hbc⟩ := (mem_standingCovers indexes).mp hc
  refine (mem_standingCovers indexes).mpr ⟨hmem, hstanding, isRedundantPrefix_trans hab hbc ?_⟩
  intro hname
  have hlen := (isRedundantPrefix_length hab).trans (isRedundantPrefix_length hbc)
  rw [eq_of_name_eq hnames ha hmem hname] at hlen
  exact lt_irrefl _ hlen

theorem exists_widest_cover (hindex : index ∈ indexes)
    (hcovered : standingCovers indexes index ≠ []) :
    ∃ widest ∈ standingCovers indexes index, standingCovers indexes widest = [] := by
  obtain ⟨widest, hwidest, hmax⟩ := (standingCovers indexes index).toFinset.exists_max_image
    (fun cover => cover.spec.keys.length) (List.toFinset_nonempty_iff _ |>.mpr hcovered)
  rw [List.mem_toFinset] at hwidest
  refine ⟨widest, hwidest, List.eq_nil_iff_forall_not_mem.mpr fun wider hwider => ?_⟩
  have hle := hmax wider (List.mem_toFinset.mpr (standingCovers_trans hnames hindex hwidest hwider))
  have hlt := isRedundantPrefix_length ((mem_standingCovers indexes).mp hwider).2.2
  omega

theorem not_proposed_iff (hindex : index ∈ indexes) :
    (¬ proposes facts indexes .DROP_REDUNDANT index.spec.name ∧
      ¬ proposes facts indexes .DROP_UNUSED index.spec.name) ↔
      isNeverDrop index.spec = true ∨
        (standingCovers indexes index = [] ∧ deadClass facts index = none) := by
  rw [proposes_redundant_iff facts hnames hindex, proposes_unused_iff facts hnames hindex]
  cases isNeverDrop index.spec <;> cases hdead : deadClass facts index <;> simp

/-- Every redundant index keeps a cover through all the drops of one result, exactly
when, wherever the usage gates judge a cover dead that nothing covers, the indexes under
it have another cover that is protected, or uncovered and not judged dead. -/
theorem redundant_keeps_cover_iff :
    (∀ index ∈ indexes, proposes facts indexes .DROP_REDUNDANT index.spec.name →
      ∃ cover ∈ indexes, isRedundantPrefix index.spec cover.spec = true ∧
        cover.pendingRemoval = false ∧
        ¬ proposes facts indexes .DROP_REDUNDANT cover.spec.name ∧
        ¬ proposes facts indexes .DROP_UNUSED cover.spec.name) ↔
      ∀ index ∈ indexes, isNeverDrop index.spec = false →
        ∀ dead ∈ standingCovers indexes index, standingCovers indexes dead = [] →
          (deadClass facts dead).isSome = true →
          ∃ cover ∈ standingCovers indexes index, isNeverDrop cover.spec = true ∨
            (standingCovers indexes cover = [] ∧ deadClass facts cover = none) := by
  constructor
  · intro h index hindex hdrop dead hdead _ _
    have hcovered : standingCovers indexes index ≠ [] := List.ne_nil_of_mem hdead
    obtain ⟨cover, hmem, hcovers, hstanding, hkept⟩ :=
      h index hindex ((proposes_redundant_iff facts hnames hindex).mpr ⟨hdrop, hcovered⟩)
    exact ⟨cover, (mem_standingCovers indexes).mpr ⟨hmem, hstanding, hcovers⟩,
      (not_proposed_iff facts hnames hmem).mp hkept⟩
  · intro h index hindex hproposed
    obtain ⟨hdrop, hcovered⟩ := (proposes_redundant_iff facts hnames hindex).mp hproposed
    obtain ⟨cover, hcover, hkept⟩ : ∃ cover ∈ standingCovers indexes index,
        isNeverDrop cover.spec = true ∨
          (standingCovers indexes cover = [] ∧ deadClass facts cover = none) := by
      obtain ⟨widest, hwidest, huncovered⟩ := exists_widest_cover hnames hindex hcovered
      cases hdead : deadClass facts widest with
      | none => exact ⟨widest, hwidest, .inr ⟨huncovered, hdead⟩⟩
      | some _ => exact h index hindex hdrop widest hwidest huncovered (by simp [hdead])
    obtain ⟨hmem, hstanding, hcovers⟩ := (mem_standingCovers indexes).mp hcover
    exact ⟨cover, hmem, hcovers, hstanding, (not_proposed_iff facts hnames hmem).mpr hkept⟩

end Distinct
end Collection

def twoCollects (activeRuns : Int) : UsageFold where
  runs := 2
  observations := 2
  activeRuns := activeRuns
  trustedWatchMs := DAY_MS
  newestEndMs := some DAY_MS
  latestActivityMs := if activeRuns = 0 then none else some DAY_MS
  maxInteriorGapMs := 0
  blindWindows := []

def oneDayFacts : CollectionFacts where
  host := decimalHost
  sizes := fun _ => none
  options := ⟨24, 2, 1, 0, 48⟩
  regressionWeights := fun _ => none
  now := DAY_MS
  activeHours := none

/-- Both indexes in use: the cover stays. -/
theorem redundant_keeps_cover_in_use :
    let indexes : List IndexInput := [⟨ascending "a_1" ["a"], twoCollects 2, false⟩,
      ⟨ascending "a_1_b_1" ["a", "b"], twoCollects 2, false⟩]
    ∀ index ∈ indexes, proposes oneDayFacts indexes .DROP_REDUNDANT index.spec.name →
      ∃ cover ∈ indexes, isRedundantPrefix index.spec cover.spec = true ∧
        cover.pendingRemoval = false ∧
        ¬ proposes oneDayFacts indexes .DROP_REDUNDANT cover.spec.name ∧
        ¬ proposes oneDayFacts indexes .DROP_UNUSED cover.spec.name :=
  (redundant_keeps_cover_iff oneDayFacts (by decide)).mpr (by decide +kernel)

/-- The narrow index in use, the wide one not: both are proposed, and nothing is left
of what covered the narrow one. -/
theorem redundant_loses_unused_cover :
    let indexes : List IndexInput := [⟨ascending "a_1" ["a"], twoCollects 2, false⟩,
      ⟨ascending "a_1_b_1" ["a", "b"], twoCollects 0, false⟩]
    (indexes.map fun index => index.spec.name).Nodup ∧
      ¬ ∀ index ∈ indexes, proposes oneDayFacts indexes .DROP_REDUNDANT index.spec.name →
        ∃ cover ∈ indexes, isRedundantPrefix index.spec cover.spec = true ∧
          cover.pendingRemoval = false ∧
          ¬ proposes oneDayFacts indexes .DROP_REDUNDANT cover.spec.name ∧
          ¬ proposes oneDayFacts indexes .DROP_UNUSED cover.spec.name := by
  unfold proposes
  decide +kernel

end Indexterity
