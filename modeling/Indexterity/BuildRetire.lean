import Indexterity.BuildWorth

/-!
# What a build replaces, and whether it can go

A narrowing stores its keys and the name it retires, so what it builds has none of the
options the retired index may carry. Retirements are checked by `preflightDrop` against
the live indexes and the built one. The check for a redundancy drop asks for a proper
extension that covers: a re-order passes by enforcing the same rule, a narrowing only where
another index covers what it narrows.
-/

namespace Indexterity

open Library

/-! ## Options -/

/-- The two hold the same documents, compare alike and carry the same columns. -/
def SameOptions (a b : IndexSpec) : Prop :=
  a.sparse = b.sparse ∧ a.partialFilter = b.partialFilter ∧ a.collation = b.collation ∧
    a.includes = b.includes

/-- What a narrowing builds has the options of the index it retires exactly where that has
none. Its keys, where they read back as written, are the leading ones. -/
theorem narrowing_sameOptions_iff (jsonb : PartialFilter → PartialFilter) (host : Host)
    (shapes : List QueryShape) (existing : List IndexSpec) (options : WorkloadOptions)
    (name : String) (candidate : NarrowCandidate)
    (hcandidate : candidate ∈ recommendNarrowing host shapes existing options) :
    (∃ retired ∈ existing, retired.name = candidate.indexName ∧
      (KeysKept candidate.keys →
        (builtIndex ((narrowingRow name candidate).stored jsonb)).keys <+: retired.keys)) ∧
    ∀ retired ∈ existing, retired.name = candidate.indexName →
      (SameOptions (builtIndex ((narrowingRow name candidate).stored jsonb)) retired ↔
        retired.sparse = false ∧ retired.partialFilter = none ∧ retired.collation = none ∧
          retired.includes = []) := by
  constructor
  · obtain ⟨retired, hretired, dropped, hnarrows⟩ := exists_narrowed hcandidate
    refine ⟨retired, hretired, hnarrows.name.symm, fun hkept => ?_⟩
    have hspec := spec_narrowingRow jsonb name hkept
    rw [spec_eq_builtIndex (.inl rfl)] at hspec
    rw [hspec, hnarrows.keys]
    exact List.prefix_append _ _
  · intro retired _ _
    have hnone : SameOptions (builtIndex ((narrowingRow name candidate).stored jsonb)) retired ↔
        false = retired.sparse ∧ none = retired.partialFilter ∧ none = retired.collation ∧
          [] = retired.includes := Iff.rfl
    rw [hnone]
    simp only [eq_comm]

/-- A dense index on three fields, narrowed to two. -/
theorem narrowing_sameOptions_dense :
    let wide := ascending "a_1_b_1_c_1" ["a", "b", "c"]
    ∃ candidate ∈ recommendNarrowing decimalHost [scanOf ["a", "b"] [] []] [wide]
        everyScan.toWorkloadOptions,
      SameOptions (builtIndex ((narrowingRow "a_1_b_1" candidate).stored id)) wide := by
  intro wide
  obtain ⟨candidate, hcandidate, hname⟩ : ∃ candidate ∈ recommendNarrowing decimalHost
      [scanOf ["a", "b"] [] []] [wide] everyScan.toWorkloadOptions,
      candidate.indexName = wide.name := by decide
  refine ⟨candidate, hcandidate, ?_⟩
  exact ((narrowing_sameOptions_iff id decimalHost _ [wide] _ "a_1_b_1" candidate hcandidate).2 wide
    List.mem_cons_self hname.symm).mpr ⟨rfl, rfl, rfl, rfl⟩

/-- Sparse, filtered, under a collation, or with a column: narrowed, the option is gone. -/
theorem narrowing_loses_options :
    let wide := ascending "a_1_b_1_c_1" ["a", "b", "c"]
    let filter : PartialFilter := [("status", .constant (.str "open"))]
    ∀ retired ∈ [{ wide with sparse := true },
        { wide with isPartial := true, partialFilter := some filter },
        { wide with collation := some "fr" }, { wide with includes := ["total"] }],
      ∃ candidate ∈ recommendNarrowing decimalHost [scanOf ["a", "b"] [] []] [retired]
          everyScan.toWorkloadOptions,
        candidate.indexName = retired.name ∧
          ¬ SameOptions (builtIndex ((narrowingRow "a_1_b_1" candidate).stored id)) retired := by
  unfold SameOptions
  decide

/-! ## Retirements -/

def liveAfter (live : List IndexSpec) (row : BuildRow) : List IndexSpec := live ++ [builtIndex row]

/-- A dense index without a collation whose keys lead the extension's, forwards or
backwards, and whose columns are among its fields. -/
def ExtendedBy (retired : IndexSpec) (keys : List SortKey) : Prop :=
  retired.isPartial = false ∧ retired.sparse = false ∧ retired.collation = none ∧
    retired.includes ⊆ fieldNames keys ∧ retired.keys.length < keys.length ∧
    retired.fields <+: fieldNames keys ∧ DirectionsAgree retired keys
  deriving Decidable

variable {index : IndexSpec} {name : String}

theorem not_protected (h : isNeverDrop index = false) :
    index.unique = false ∧ index.ttl = false := by
  simp only [isNeverDrop, Bool.or_eq_false_iff] at h
  exact ⟨h.1.1.1.2, h.1.1.2⟩

theorem Leads.fields_prefix {d : IndexDirection → Option IndexDirection} {xs ys : List IndexKey}
    (h : Leads d xs ys) : xs.map IndexKey.field <+: ys.map IndexKey.field := by
  rw [← h.span.1]
  exact (List.take_prefix _ _).map _

theorem isRedundantPrefix_proposedIndex_iff {retired : IndexSpec} (keys : List SortKey)
    (hunprotected : isNeverDrop retired = false) (hname : retired.name ≠ name) :
    isRedundantPrefix retired (proposedIndex name keys none) = true ↔ ExtendedBy retired keys := by
  obtain ⟨hunique, httl⟩ := not_protected hunprotected
  have hlength : (proposedIndex name keys none).keys.length = keys.length := by
    simp [proposedIndex]
  have hoptions : optionsCompatible retired (proposedIndex name keys none) = true ↔
      retired.isPartial = false ∧ retired.sparse = false ∧ retired.collation = none := by
    rw [optionsCompatible_iff]
    simp [hunique, httl, proposedIndex, and_assoc]
  rw [isRedundantPrefix_iff, hoptions, coversIncludes_proposedIndex_iff, hlength]
  have horder : coversKeyOrder retired (proposedIndex name keys none) = true ↔
      retired.fields <+: fieldNames keys ∧ DirectionsAgree retired keys := by
    constructor
    · intro hcovers
      have hleading : retired.fields <+: fieldNames keys := by
        rw [← fields_proposedIndex name keys none]
        rcases (coversKeyOrder_iff _ _).mp hcovers with h | h
        · exact h.fields_prefix
        · exact h.fields_prefix
      exact ⟨hleading, (coversKeyOrder_proposedIndex_iff hleading name none).mp hcovers⟩
    · rintro ⟨hleading, hagree⟩
      exact (coversKeyOrder_proposedIndex_iff hleading name none).mpr hagree
  rw [horder, ExtendedBy]
  tauto

theorem hintRefusal_eq_none_iff (reads : PreflightReads) (spec : IndexSpec) :
    hintRefusal reads spec = none ↔ spec.name ∉ reads.hinted := by
  rw [hintRefusal, ite_eq_right_iff, imp_iff_not (Option.some_ne_none _), List.contains_iff_mem]

theorem LiveIndexes.specNamed_liveAfter (live : LiveIndexes) (row : BuildRow)
    (hindex : index ∈ live.specs) :
    specNamed (liveAfter live.specs row) index.name = some index := by
  rw [specNamed, liveAfter, List.find?_append,
    find?_of_nodup IndexSpec.name live.names_nodup hindex]
  rfl

section Retirement
variable (live : LiveIndexes) (reads : PreflightReads) {row : BuildRow} {retired : IndexSpec}
variable (hfree : ∀ index ∈ live.specs, index.name ≠ row.indexName)

theorem plain_retirement_safe_iff (hretired : retired ∈ live.specs)
    (hunprotected : isNeverDrop retired = false) :
    (preflightDrop (liveAfter live.specs row) reads
        ⟨.DROP_REDUNDANT, retired.name, none⟩).safe = true ↔
      retired.name ∉ reads.hinted ∧ ((∃ other ∈ live.specs, isRedundantPrefix retired other = true) ∨
        isRedundantPrefix retired (builtIndex row) = true) := by
  have hprotected : protectedRefusal (liveAfter live.specs row) retired none = none := by
    simp [protectedRefusal, hunprotected]
  have hcover : coverRefusal (liveAfter live.specs row) retired
      ⟨.DROP_REDUNDANT, retired.name, none⟩ = none ↔
        (∃ other ∈ live.specs, isRedundantPrefix retired other = true) ∨
          isRedundantPrefix retired (builtIndex row) = true := by
    rw [coverRefusal, ite_eq_right_iff, imp_iff_not (Option.some_ne_none _)]
    simp only [DropTarget.isPlainRedundant, beq_self_eq_true, Option.isNone_none, Bool.and_self,
      Bool.true_and, Option.isNone_iff_eq_none, List.find?_eq_none, liveAfter, List.mem_append,
      List.mem_singleton]
    push Not
    simp only [or_and_right, exists_or, exists_eq_left]
  have husage : usageRefusal reads retired ⟨.DROP_REDUNDANT, retired.name, none⟩ = none := rfl
  rw [preflightDrop_safe_iff, live.specNamed_liveAfter row hretired]
  simp only [Option.some.injEq, exists_eq_left', hprotected, hcover, husage,
    hintRefusal_eq_none_iff, true_and]
  exact and_comm

include hfree

theorem superseded_retirement_safe_iff (hretired : retired ∈ live.specs)
    (hprotected : isNeverDrop retired = true) (hunhinted : retired.name ∉ reads.hinted) :
    (preflightDrop (liveAfter live.specs row) reads
        ⟨.DROP_REDUNDANT, retired.name, some row.indexName⟩).safe = true ↔
      enforcesTheSame retired (builtIndex row) = true := by
  have hreplacement : specNamed (liveAfter live.specs row) row.indexName =
      some (builtIndex row) := by
    have hnone : live.specs.find? (fun index => index.name == row.indexName) = none := by
      rw [List.find?_eq_none]
      intro index hindex
      simpa using hfree index hindex
    rw [specNamed, liveAfter, List.find?_append, hnone]
    have hown : (builtIndex row).name = row.indexName := rfl
    simp [hown]
  have hrefusal : protectedRefusal (liveAfter live.specs row) retired (some row.indexName) = none ↔
      enforcesTheSame retired (builtIndex row) = true := by
    simp only [protectedRefusal, hprotected, Bool.not_true, Bool.false_eq_true, if_false,
      hreplacement]
    simp
  have hcover : coverRefusal (liveAfter live.specs row) retired
      ⟨.DROP_REDUNDANT, retired.name, some row.indexName⟩ = none := rfl
  have husage : usageRefusal reads retired
      ⟨.DROP_REDUNDANT, retired.name, some row.indexName⟩ = none := rfl
  rw [preflightDrop_safe_iff, live.specNamed_liveAfter row hretired]
  simp only [Option.some.injEq, exists_eq_left', hrefusal, hcover, husage,
    hintRefusal_eq_none_iff, hunhinted, not_false_eq_true, and_true]

end Retirement

/-- A create retires unprotected indexes and re-orders none; one it extends makes it an
UPDATE. -/
theorem candidate_retires {host : Host} {stringify : ConstantValue → String}
    {shapes : List QueryShape} {existing : List IndexSpec} {options : CreateOptions}
    {candidate : CreateCandidate}
    (h : candidate ∈ (recommendCreates host stringify shapes existing options).candidates) :
    candidate.type ≠ .REORDER ∧ ∀ name ∈ candidate.retireIndexes,
      ∃ index ∈ existing, index.name = name ∧ isNeverDrop index = false ∧
        (ExtendedBy index candidate.keys → candidate.type = .UPDATE) := by
  obtain ⟨want, -, rfl⟩ := List.mem_map.mp h
  have hunprotected {index : IndexSpec} (hcompatible : compatible host want index = true) :
      isNeverDrop index = false := by
    simp only [compatible, Bool.and_eq_true, Bool.not_eq_true'] at hcompatible
    exact hcompatible.1
  unfold candidateOf
  cases hextend : extendable host existing want with
  | some index =>
    refine ⟨by simp, fun name hname => ?_⟩
    rw [List.mem_singleton.mp hname]
    have hfound := List.find?_some hextend
    simp only [Bool.and_eq_true] at hfound
    exact ⟨index, List.mem_of_find?_eq_some hextend, rfl, hunprotected hfound.1, fun _ => rfl⟩
  | none =>
    simp only
    split_ifs
    · refine ⟨by simp, fun name hname => ?_⟩
      obtain ⟨index, hsingle, rfl⟩ := List.mem_map.mp hname
      obtain ⟨hindex, hguard⟩ := List.mem_filter.mp hsingle
      simp only [Bool.and_eq_true, beq_iff_eq] at hguard
      refine ⟨index, hindex, rfl, hunprotected hguard.1.1, ?_⟩
      rintro ⟨-, -, -, -, hlength, hleads, -⟩
      -- one on the first key would have been extended instead
      have hnot := List.find?_eq_none.mp hextend index hindex
      rw [hguard.1.1, Bool.true_and, isPrefix_iff] at hnot
      refine absurd ⟨?_, hleads, ?_⟩ hnot
      · intro hnil
        have hzero := congrArg List.length hnil
        simp [IndexSpec.fields, hguard.1.2] at hzero
      · simpa [IndexSpec.fields, fieldNames] using hlength
    · exact ⟨by simp, by simp⟩

theorem isRedundantPrefix_of_isPartial {a b : IndexSpec} (h : b.isPartial = true) :
    isRedundantPrefix a b = false := by
  rw [Bool.eq_false_iff, ne_eq, isRedundantPrefix_iff, optionsCompatible_iff]
  rintro ⟨⟨-, -, ⟨hunfiltered, -⟩, -⟩, -⟩
  rw [h] at hunfiltered
  cases hunfiltered

theorem enforcesTheSame_reorderedIndex_iff (jsonb : PartialFilter → PartialFilter)
    {hinted : List String} {candidate : ReorderCandidate} (h : Reorders hinted index candidate)
    (hname : index.name ≠ name) :
    enforcesTheSame index (reorderedIndex jsonb name candidate) = true ↔
      index.partialFilter.map jsonb = index.partialFilter := by
  have hfields : (reorderedIndex jsonb name candidate).fields = index.fields := by
    rw [← h.fields]
    simp [IndexSpec.fields, reorderedIndex, fieldNames, SortKey.indexKey, Function.comp_def]
  have hlength : (reorderedIndex jsonb name candidate).keys.length = index.keys.length := by
    simpa [IndexSpec.fields] using congrArg List.length hfields
  have hordered : ((reorderedIndex jsonb name candidate).keys.any fun key =>
      key.direction != .asc && key.direction != .desc) = false := by
    rw [List.any_eq_false]
    intro key hkey
    obtain ⟨wanted, -, rfl⟩ := List.mem_map.mp hkey
    cases hdirection : wanted.direction <;> simp [SortKey.indexKey, hdirection, SortDirection.index]
  have hincludes : coversIncludes index (reorderedIndex jsonb name candidate) = true := by
    rw [coversIncludes_iff]
    intro column hcolumn
    have hcarried : (reorderedIndex jsonb name candidate).includes = index.includes := by
      rw [reorderedIndex, h.spec]
    rw [hcarried]
    exact .inr hcolumn
  have hunique : (reorderedIndex jsonb name candidate).unique = index.unique := by
    rw [reorderedIndex, h.spec]
  have hsparse : (reorderedIndex jsonb name candidate).sparse = index.sparse := by
    rw [reorderedIndex, h.spec]
  have hcollation : (reorderedIndex jsonb name candidate).collation = index.collation := by
    rw [reorderedIndex, h.spec]
  have hfilter : (reorderedIndex jsonb name candidate).partialFilter =
      index.partialFilter.map jsonb := by
    rw [reorderedIndex, h.spec]
  have hhidden : (reorderedIndex jsonb name candidate).hidden = false := rfl
  have hname' : ¬ (reorderedIndex jsonb name candidate).name = index.name := fun heq => hname heq.symm
  simp only [enforcesTheSame, hname', hlength, hfields, hordered, hunique, hsparse, hcollation,
    hfilter, hhidden, hincludes, ne_eq, not_true_eq_false, if_false, Bool.false_eq_true]
  simp

theorem mem_retireSuperseded {standing : List String} {row : BuildRow} {target : DropTarget}
    (h : target ∈ retireSuperseded standing row) :
    target.indexName ∈ row.target.retire ∧ target =
      ⟨.DROP_REDUNDANT, target.indexName,
        if row.type = .REORDER then some row.indexName else none⟩ := by
  obtain ⟨name, hname, rfl⟩ := List.mem_map.mp h
  exact ⟨(List.mem_filter.mp hname).1, rfl⟩

/-- Rows whose keys read back as written, with nothing changed but the build. What an UPDATE
or a MERGE retires passes where nothing hints at it and another index covers it already,
or the build is an unfiltered UPDATE that extends it. What a narrowing retires passes where nothing
hints at it and another index covers it already. What a re-order retires passes where the
stored filter reads back the same. -/
theorem retirement_safe_iff (jsonb : PartialFilter → PartialFilter) (host : Host)
    (stringify : ConstantValue → String) (shapes : List QueryShape) (live : LiveIndexes)
    (options : CreateOptions) (reads : PreflightReads) (standing : List String) (name : String)
    (hfree : ∀ index ∈ live.specs, index.name ≠ name) :
    (∀ candidate ∈ (recommendCreates host stringify shapes live.specs options).candidates,
      KeysKept candidate.keys →
      let row := (createRow name candidate).stored jsonb
      ∀ target ∈ retireSuperseded standing row,
        ∃ retired ∈ live.specs, retired.name = target.indexName ∧
          ((preflightDrop (liveAfter live.specs row) reads target).safe = true ↔
            retired.name ∉ reads.hinted ∧
              ((∃ other ∈ live.specs, isRedundantPrefix retired other = true) ∨
                candidate.type = .UPDATE ∧ candidate.partialFilter = none ∧
                  ExtendedBy retired candidate.keys))) ∧
    (∀ candidate ∈ recommendNarrowing host shapes live.specs options.toWorkloadOptions,
      KeysKept candidate.keys →
      let row := (narrowingRow name candidate).stored jsonb
      ∀ target ∈ retireSuperseded standing row,
        ∃ retired ∈ live.specs, retired.name = target.indexName ∧
          ((preflightDrop (liveAfter live.specs row) reads target).safe = true ↔
            retired.name ∉ reads.hinted ∧
              ∃ other ∈ live.specs, isRedundantPrefix retired other = true)) ∧
    (∀ candidate ∈ recommendReorder shapes live.specs options.toWorkloadOptions reads.hinted,
      KeysKept candidate.keys →
      let row := (reorderRow name candidate).stored jsonb
      ∀ target ∈ retireSuperseded standing row,
        ∃ retired ∈ live.specs, retired.name = target.indexName ∧
          ((preflightDrop (liveAfter live.specs row) reads target).safe = true ↔
            retired.partialFilter.map jsonb = retired.partialFilter)) := by
  refine ⟨?_, ?_, ?_⟩
  · intro candidate hcandidate hkept row target htarget
    obtain ⟨htype, hretires⟩ := candidate_retires hcandidate
    obtain ⟨hmem, htarget'⟩ := mem_retireSuperseded htarget
    obtain ⟨retired, hretired, hname, hunprotected, hupdate⟩ := hretires _ hmem
    refine ⟨retired, hretired, hname, ?_⟩
    have hplain : ¬ row.type = .REORDER := htype
    rw [if_neg hplain, ← hname] at htarget'
    rw [htarget', plain_retirement_safe_iff live reads hretired hunprotected]
    have hbuilt : builtIndex row = { proposedIndex name candidate.keys candidate.partialFilter with
        partialFilter := (candidate.partialFilter.map filterValues).map jsonb } := by
      rw [← spec_eq_builtIndex (.inr rfl)]
      exact spec_createRow jsonb name hkept
    have hextends : isRedundantPrefix retired (builtIndex row) = true ↔
        candidate.type = .UPDATE ∧ candidate.partialFilter = none ∧
          ExtendedBy retired candidate.keys := by
      rw [hbuilt]
      cases hfilter : candidate.partialFilter with
      | none =>
        have hcovers := isRedundantPrefix_proposedIndex_iff candidate.keys hunprotected
          (hfree retired hretired)
        exact hcovers.trans ⟨fun h => ⟨hupdate h, rfl, h⟩, fun h => h.2.2⟩
      | some filter =>
        rw [isRedundantPrefix_of_isPartial rfl]
        simp
    rw [hextends]
  · intro candidate hcandidate hkept row target htarget
    obtain ⟨retired, hretired, dropped, hnarrows⟩ := exists_narrowed hcandidate
    obtain ⟨hmem, htarget'⟩ := mem_retireSuperseded htarget
    have hname : retired.name = target.indexName := by
      rw [List.mem_singleton.mp hmem, hnarrows.name]
    refine ⟨retired, hretired, hname, ?_⟩
    have hplain : ¬ row.type = .REORDER := nofun
    rw [if_neg hplain, ← hname] at htarget'
    rw [htarget', plain_retirement_safe_iff live reads hretired hnarrows.unprotected]
    have hbuilt : builtIndex row = proposedIndex name candidate.keys none := by
      rw [← spec_eq_builtIndex (.inl rfl)]
      exact spec_narrowingRow jsonb name hkept
    -- the build is shorter than what it retires
    have hshorter : ¬ isRedundantPrefix retired (builtIndex row) = true := by
      rw [hbuilt]
      intro hcovers
      have hlength := isRedundantPrefix_length hcovers
      rw [hnarrows.keys] at hlength
      simp [proposedIndex] at hlength
    rw [or_iff_left hshorter]
  · intro candidate hcandidate hkept row target htarget
    obtain ⟨retired, hretired, hreorders⟩ := exists_reordered hcandidate
    obtain ⟨hmem, htarget'⟩ := mem_retireSuperseded htarget
    have hname : retired.name = target.indexName := by
      rw [List.mem_singleton.mp hmem, hreorders.name]
    refine ⟨retired, hretired, hname, ?_⟩
    have htype : row.type = .REORDER := rfl
    rw [if_pos htype, ← hname] at htarget'
    have hprotected : isNeverDrop retired = true := by simp [isNeverDrop, hreorders.unique]
    rw [htarget', superseded_retirement_safe_iff live reads hfree hretired hprotected
      hreorders.unhinted, ← spec_eq_builtIndex (.inl rfl), spec_reorderRow jsonb name hkept]
    exact enforcesTheSame_reorderedIndex_iff jsonb hreorders (hfree retired hretired)

def singleLive : LiveIndexes where
  specs := [ascending "a_1" ["a"]]
  names_nodup := by decide
  partial_marked := by decide

/-- An index on one field, extended to two, can be retired. -/
theorem retirement_safe_single :
    ∃ candidate ∈ (recommendCreates decimalHost (fun _ => "") [scanOf ["a", "b"] [] []]
        singleLive.specs everyScan).candidates,
      ∃ target ∈ retireSuperseded [] ((createRow "a_1_b_1" candidate).stored id),
        (preflightDrop (liveAfter singleLive.specs ((createRow "a_1_b_1" candidate).stored id))
          ⟨fun _ => 0, []⟩ target).safe = true := by
  obtain ⟨candidate, hcandidate, hkept, hkind, htarget⟩ : ∃ candidate ∈
      (recommendCreates decimalHost (fun _ => "") [scanOf ["a", "b"] [] []] singleLive.specs
        everyScan).candidates,
      KeysKept candidate.keys ∧ (candidate.type = .UPDATE ∧ candidate.partialFilter = none ∧
        ExtendedBy (ascending "a_1" ["a"]) candidate.keys) ∧
      (⟨.DROP_REDUNDANT, "a_1", none⟩ : DropTarget) ∈
        retireSuperseded [] ((createRow "a_1_b_1" candidate).stored id) := by decide
  refine ⟨candidate, hcandidate, _, htarget, ?_⟩
  obtain ⟨retired, hretired, -, hsafe⟩ := (retirement_safe_iff id decimalHost (fun _ => "")
    [scanOf ["a", "b"] [] []] singleLive everyScan ⟨fun _ => 0, []⟩ [] "a_1_b_1" (by decide)).1
    candidate hcandidate hkept _ htarget
  rw [List.mem_singleton.mp hretired] at hsafe
  exact hsafe.mpr ⟨by decide, .inr hkind⟩

/-- Nothing has changed but the build, and preflight refuses: what a narrowing retires, both
singles of a MERGE, and an index in other directions than its extension. -/
theorem retirement_refused :
    let refused (row : BuildRow) (live : List IndexSpec) :=
      (retireSuperseded [] row).all fun target =>
        preflightDrop (liveAfter live row) ⟨fun _ => 0, []⟩ target ==
          ⟨false, "covering index no longer present", specNamed live target.indexName⟩
    let wide := ascending "a_1_b_1_c_1" ["a", "b", "c"]
    let singles := [ascending "b_1" ["b"], ascending "c_1" ["c"]]
    let mixed := { ascending "mixed" ["a", "b"] with keys := [⟨"a", .asc⟩, ⟨"b", .desc⟩] }
    let creates (live : List IndexSpec) := (recommendCreates decimalHost (fun _ => "")
      [scanOf ["a", "b", "c"] [] []] live everyScan).candidates
    (∃ candidate ∈ recommendNarrowing decimalHost [scanOf ["a", "b"] [] []] [wide]
        everyScan.toWorkloadOptions,
      candidate.indexName = "a_1_b_1_c_1" ∧
        refused ((narrowingRow "a_1_b_1" candidate).stored id) [wide] = true) ∧
    (∃ candidate ∈ creates singles, candidate.type = .MERGE ∧
      candidate.retireIndexes = ["b_1", "c_1"] ∧
        refused ((createRow "a_1_b_1_c_1" candidate).stored id) singles = true) ∧
    ∃ candidate ∈ creates [mixed], candidate.type = .UPDATE ∧ candidate.retireIndexes = ["mixed"] ∧
      refused ((createRow "a_1_b_1_c_1" candidate).stored id) [mixed] = true := by
  decide

end Indexterity
