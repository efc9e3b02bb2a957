import Indexterity.PointHistory
import Indexterity.Preflight
import Indexterity.RecommendCover

/-!
# Use before a proposal, seen again by the preflight

The usage gates judge an index by what each collect adds to its counters. The preflight of
`jobs/preflight.ts` reads the counters themselves, which stand for everything since they began.
So an index that was used, and then was not for long enough, is proposed and refused.
-/

namespace Indexterity

def Collect.totalOps (c : Collect) : Int := (c.perMember.map MemberUsage.ops).sum

/-- An index judged on the rows that a history of collects leaves of it. -/
def historyInput (host : Host) (minBlindMs : Int) (spec : IndexSpec) (cs : List Collect)
    (pendingRemoval : Bool) : IndexInput :=
  ⟨spec, foldUsage host ((collected host cs).map storedSnapshot) minBlindMs, pendingRemoval⟩

def unusedTarget (spec : IndexSpec) : DropTarget := ⟨.DROP_UNUSED, spec.name, none⟩

section Unchanged
variable {facts : CollectionFacts} {indexes : List IndexInput}
variable (hnames : (indexes.map fun index => index.spec.name).Nodup)
include hnames

theorem specNamed_of_mem {index : IndexInput} (hindex : index ∈ indexes) :
    specNamed (indexes.map IndexInput.spec) index.spec.name = some index.spec := by
  have hsome : (specNamed (indexes.map IndexInput.spec) index.spec.name).isSome = true := by
    rw [specNamed, List.find?_isSome]
    exact ⟨index.spec, List.mem_map_of_mem hindex, by simp⟩
  obtain ⟨spec, hspec⟩ := Option.isSome_iff_exists.mp hsome
  obtain ⟨hmem, hname⟩ := specNamed_some hspec
  obtain ⟨other, hother, rfl⟩ := List.mem_map.mp hmem
  rw [hspec, eq_of_name_eq hnames hother hindex hname]

/-- On the indexes it was proposed from, a drop of the usage pass can fail the preflight by the
counters and by a hint only. -/
theorem unused_safe_iff {index : IndexInput} (hindex : index ∈ indexes)
    (hproposed : proposes facts indexes .DROP_UNUSED index.spec.name) (reads : PreflightReads) :
    (preflightDrop (indexes.map IndexInput.spec) reads (unusedTarget index.spec)).safe = true ↔
      reads.ops index.spec.name ≤ 0 ∧ index.spec.name ∉ reads.hinted := by
  obtain ⟨hdrop, -, -⟩ := (proposes_unused_iff facts hnames hindex).mp hproposed
  have hprotected : protectedRefusal (indexes.map IndexInput.spec) index.spec none = none := by
    rw [protectedRefusal, hdrop]
    rfl
  have hcover : coverRefusal (indexes.map IndexInput.spec) index.spec (unusedTarget index.spec) =
      none := by
    rw [coverRefusal, if_neg (by simp [unusedTarget, DropTarget.isPlainRedundant])]
  have husage : usageRefusal reads index.spec (unusedTarget index.spec) = none ↔
      reads.ops index.spec.name ≤ 0 := by
    rw [usageRefusal, ite_eq_right_iff]
    simp [unusedTarget]
  have hhint : hintRefusal reads index.spec = none ↔ index.spec.name ∉ reads.hinted := by
    rw [hintRefusal, ite_eq_right_iff]
    simp
  rw [preflightDrop_safe_iff]
  constructor
  · rintro ⟨spec, hspec, -, -, hops, hhinted⟩
    obtain rfl := Option.some.inj ((specNamed_of_mem hnames hindex).symm.trans hspec)
    exact ⟨husage.mp hops, hhint.mp hhinted⟩
  · rintro ⟨hops, hhinted⟩
    exact ⟨index.spec, specNamed_of_mem hnames hindex, hprotected, hcover, husage.mpr hops,
      hhint.mpr hhinted⟩

end Unchanged

/-- A drop that the usage pass proposed passes the preflight on the state the newest collect read,
exactly when the counters of the index stood at zero in that collect. -/
theorem proposed_unused_safe_iff (facts : CollectionFacts) (host : Host) (minBlindMs : Int)
    (before after : List IndexInput) (spec : IndexSpec) (cs : List Collect) (newest : Collect)
    (pendingRemoval : Bool) (reads : PreflightReads)
    (hnames : ((before ++ historyInput host minBlindMs spec (cs ++ [newest]) pendingRemoval ::
      after).map fun index => index.spec.name).Nodup)
    (hproposed : proposes facts (before ++ historyInput host minBlindMs spec (cs ++ [newest])
      pendingRemoval :: after) .DROP_UNUSED spec.name)
    (hops : reads.ops spec.name = newest.totalOps) (hhint : spec.name ∉ reads.hinted) :
    (preflightDrop ((before ++ historyInput host minBlindMs spec (cs ++ [newest])
      pendingRemoval :: after).map IndexInput.spec) reads (unusedTarget spec)).safe = true ↔
        newest.totalOps ≤ 0 := by
  have hmem : historyInput host minBlindMs spec (cs ++ [newest]) pendingRemoval ∈
      before ++ historyInput host minBlindMs spec (cs ++ [newest]) pendingRemoval :: after :=
    List.mem_append_right _ List.mem_cons_self
  have hsafe := unused_safe_iff hnames hmem hproposed reads
  exact hsafe.trans ⟨fun h => hops ▸ h.1, fun h => ⟨hops.trans_le h, hhint⟩⟩

def dailyCollects (ops : List Int) : List Collect :=
  (ops.zipIdx).map fun p => ⟨p.2 * DAY_MS, [⟨"m", p.1, some "0"⟩]⟩

/-- Judged on the fourth day, by a policy that takes a day for recent. -/
def fourthDayFacts : CollectionFacts := { oneDayFacts with now := 4 * DAY_MS }

/-- Never used: proposed, and safe. -/
theorem never_used_proposed_safe :
    let index := historyInput decimalHost MAX_GAP_MS (ascending "a_1" ["a"])
      (dailyCollects [0, 0, 0, 0] ++ [⟨4 * DAY_MS, [⟨"m", 0, some "0"⟩]⟩]) false
    (preflightDrop (([] ++ index :: []).map IndexInput.spec) ⟨fun _ => 0, []⟩
      (unusedTarget (ascending "a_1" ["a"]))).safe = true := by
  refine (proposed_unused_safe_iff fourthDayFacts decimalHost MAX_GAP_MS [] [] _ _ _ false
    ⟨fun _ => 0, []⟩ ?_ ?_ ?_ ?_).mpr ?_
  · decide
  · unfold proposes
    decide +kernel
  · decide
  · exact List.not_mem_nil
  · decide

/-- Used on the first day and never again: proposed, and refused for that use. -/
theorem used_once_proposed_refused :
    let cs := dailyCollects [0, 5, 5, 5, 5]
    let index := historyInput decimalHost MAX_GAP_MS (ascending "a_1" ["a"]) cs false
    proposes fourthDayFacts [index] .DROP_UNUSED "a_1" ∧
      cs.getLast?.map Collect.totalOps = some 5 ∧
      preflightDrop [index.spec] ⟨fun _ => 5, []⟩ (unusedTarget index.spec) =
        ⟨false, "index now has 5 recent ops", some index.spec⟩ := by
  unfold proposes
  decide +kernel

end Indexterity
