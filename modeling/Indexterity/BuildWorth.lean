import Indexterity.BuildRow
import Indexterity.WorkloadRetire
import Indexterity.WorkloadLead

/-!
# Whether a proposed build is still worth building

`notWorthBuilding` against the indexes the proposal was derived from. What the create side
proposes no live index covers: one that did would have served the shape that asked. A
re-order is not covered by the index it re-orders, and may be by another unique one. A
narrowing is covered by the very index it narrows unless that one is restricted.
-/

namespace Indexterity

open Library

/-! ## Covering under a free name -/

variable {a b index : IndexSpec} {candidate : CreateCandidate}

theorem coversKeyOrder_length (h : coversKeyOrder a b = true) : a.keys.length ≤ b.keys.length := by
  have hleads : ∀ {d : IndexDirection → Option IndexDirection} {xs ys : List IndexKey},
      Leads d xs ys → xs.length ≤ ys.length := by
    intro d xs
    induction xs with
    | nil => exact fun _ => Nat.zero_le _
    | cons x xs ih =>
      rintro (_ | ⟨y, ys⟩) h
      · exact h.elim
      · exact Nat.succ_le_succ (ih h.2.2)
  rcases (coversKeyOrder_iff a b).mp h with h | h
  · exact hleads h
  · exact hleads h

theorem isCoveredBy_iff (hname : a.name ≠ b.name) :
    isCoveredBy a b = true ↔
      optionsCompatible a b = true ∧ coversIncludes a b = true ∧ coversKeyOrder a b = true := by
  have hredundant := isRedundantPrefix_iff a b
  unfold isCoveredBy
  split_ifs with hleading hoptions
  · obtain ⟨hopt, hincl, -, -, hord⟩ := hredundant.mp hleading
    simp [hopt, hincl, hord]
  · simp only [Bool.or_eq_true, Bool.not_eq_true'] at hoptions
    rcases hoptions with h | h <;> simp [h]
  · simp only [Bool.or_eq_true, Bool.not_eq_true', not_or, Bool.not_eq_false] at hoptions
    obtain ⟨hopt, hincl⟩ := hoptions
    rw [Bool.and_eq_true, beq_iff_eq]
    constructor
    · rintro ⟨-, hord⟩
      exact ⟨hopt, hincl, hord⟩
    · rintro ⟨-, -, hord⟩
      refine ⟨?_, hord⟩
      -- a proper prefix would have been a redundant one
      by_contra hlength
      have hlt := Nat.lt_of_le_of_ne (coversKeyOrder_length hord) hlength
      exact hleading (hredundant.mpr ⟨hopt, hincl, hname, hlt, hord⟩)

theorem notWorthBuilding_eq_none_iff {candidate : IndexSpec} {live : List IndexSpec}
    (hfree : ∀ index ∈ live, index.name ≠ candidate.name) :
    notWorthBuilding candidate live = none ↔
      ∀ index ∈ live, ¬ (optionsCompatible candidate index = true ∧
        coversIncludes candidate index = true ∧ coversKeyOrder candidate index = true) := by
  have hname : ¬ (live.any fun index => index.name == candidate.name) = true := by
    simpa using hfree
  rw [notWorthBuilding, if_neg hname, Option.map_eq_none_iff, List.find?_eq_none]
  refine forall₂_congr fun index hindex => not_congr ?_
  exact isCoveredBy_iff (hfree index hindex).symm

/-- The index answers for keys: it holds every document, is visible, compares as asked and
walks them forwards or backwards. -/
def Answers (index : IndexSpec) (keys : List SortKey) (collation : Option String) : Prop :=
  index.isPartial = false ∧ index.sparse = false ∧ index.hidden = false ∧
    index.collation = collation ∧
    (Leads some (keys.map SortKey.indexKey) index.keys ∨
      Leads IndexDirection.negate (keys.map SortKey.indexKey) index.keys)

/-! ## The create side -/

def NotServed (host : Host) (existing : List IndexSpec) (want : Want) : Prop :=
  ∀ index ∈ existing,
    servesWant host index want.wantedKeys want.blocks want.partialFilter = false

theorem Leads.span {d : IndexDirection → Option IndexDirection} {xs ys : List IndexKey}
    (h : Leads d xs ys) :
    (ys.take xs.length).map IndexKey.field = xs.map IndexKey.field ∧
      (ys.take xs.length).map (fun key => some key.direction) = xs.map fun key => d key.direction := by
  induction xs generalizing ys with
  | nil => simp
  | cons x xs ih =>
    cases ys with
    | nil => exact h.elim
    | cons y ys =>
      obtain ⟨hfields, hdirections⟩ := ih h.2.2
      simp [hfields, hdirections, h.1, h.2.1]

theorem servesWant_of_leads {host : Host} {want : Want} (hwant : Formed want)
    (hsparse : index.sparse = false) (hfilter : index.partialFilter = none) (reversed : Bool)
    (h : Leads (if reversed then IndexDirection.negate else some)
      ((leadWith want).map SortKey.indexKey) index.keys) :
    servesWant host index want.wantedKeys want.blocks want.partialFilter = true := by
  have hd (direction : SortDirection) :
      (if reversed then IndexDirection.negate else some) direction.index =
        some (if reversed then direction.reverse else direction).index := by
    cases reversed
    · rfl
    · exact negate_index direction
  set equality := want.lead ++ want.blocks.equality.filter fun field => field ∉ want.lead
  have hperm : equality.Perm want.blocks.equality :=
    perm_append_filter hwant.lead_nodup hwant.lead_subset hwant.laidOut.parts.1 (List.Perm.refl _)
  have hled : leadWith want = ascendingKeys equality ++ want.blocks.sort ++
      ascendingKeys want.blocks.range := leadWith_eq hwant
  have hlength : ((leadWith want).map SortKey.indexKey).length = (fieldNames want.wantedKeys).length := by
    rw [hwant.laidOut.fields, hled]
    simp [ascendingKeys, fieldNames, hperm.length_eq]
  obtain ⟨hfields, hdirections⟩ := h.span
  rw [hlength] at hfields hdirections
  unfold servesWant
  simp only [hsparse, hfilter, Option.isNone_none, Bool.true_or, Bool.not_true, Bool.or_self,
    Bool.false_eq_true, if_false]
  split
  · rfl
  rw [if_neg, if_neg]
  · apply spanServes_of_blocks hperm (List.Perm.refl _)
    · rw [hfields, hled]
      simp [SortKey.indexKey, ascendingKeys, fieldNames, Function.comp_def]
    · refine ⟨reversed, ?_⟩
      have hall : (index.keys.take (fieldNames want.wantedKeys).length).map IndexKey.direction =
          (leadWith want).map fun key =>
            (if reversed then key.direction.reverse else key.direction).index := by
        apply List.map_injective_iff.mpr (Option.some_injective _)
        simpa [SortKey.indexKey, hd, Function.comp_def] using hdirections
      have hblocks : (ascendingKeys equality ++ want.blocks.sort).length =
          want.blocks.equality.length + want.blocks.sort.length := by
        simp [ascendingKeys, hperm.length_eq]
      have hfront : (ascendingKeys equality).length = want.blocks.equality.length := by
        simp [ascendingKeys, hperm.length_eq]
      rw [List.map_drop, List.map_take, hall, hled, ← List.map_take, ← List.map_drop,
        List.take_left' hblocks, List.drop_left' hfront]
  · rw [List.any_eq_true]
    rintro ⟨key, hkey, hspecial⟩
    have hmem := List.mem_map_of_mem (f := fun key : IndexKey => some key.direction) hkey
    rw [hdirections, List.map_map] at hmem
    obtain ⟨wanted, -, heq⟩ := List.mem_map.mp hmem
    simp only [Function.comp_apply, SortKey.indexKey, hd, Option.some.injEq] at heq
    rw [← heq] at hspecial
    cases hdir : (if reversed then wanted.direction.reverse else wanted.direction) <;>
      simp [hdir, SortDirection.index] at hspecial
  · have := congrArg List.length hfields
    simp only [List.length_map] at this
    rw [this, ← hlength]
    simp

theorem formed_notServed_survivor (host : Host) (existing : List IndexSpec)
    (options : CreateOptions) (shapes : List QueryShape) :
    ∀ want ∈ consolidate (wantsOf host existing options shapes).wants,
      Formed want ∧ NotServed host existing want := by
  refine consolidate_forall _ ?_ ?_ (foldsMeet_true _ _)
  · intro want widest hwant hwidest habs _
    exact ⟨formed_absorb hwant.1 hwidest.1 habs, hwidest.2⟩
  · intro want hwant
    obtain ⟨first, rest, hstands⟩ :=
      (wantsStand_wantsOf host existing options shapes).stands want hwant
    refine ⟨formed_of_standsFor _ _ _ hstands, fun index hindex => ?_⟩
    have hnone := isServed_head host existing options hstands.standing
    rw [hstands.wantedKeys, hstands.blocks, hstands.partialFilter]
    exact Bool.eq_false_of_not_eq_true (List.any_eq_false.mp hnone index hindex)

/-! ## Three kinds of row -/

theorem covers_iff_answers (spec index : IndexSpec) {keys : List SortKey}
    (hkeys : spec.keys = keys.map SortKey.indexKey)
    (hdense : spec.isPartial = false ∧ spec.sparse = false ∧ spec.ttl = false) :
    optionsCompatible spec index = true ∧ coversIncludes spec index = true ∧
        coversKeyOrder spec index = true ↔
      (spec.unique = true → index.unique = true) ∧ Answers index keys spec.collation ∧
        ∀ column ∈ spec.includes, column ∈ index.fields ∨ column ∈ index.includes := by
  rw [optionsCompatible_iff, coversIncludes_iff, coversKeyOrder_iff, hkeys, Answers]
  constructor
  · rintro ⟨⟨hunique, -, ⟨hunfiltered, hsparse, hhidden⟩, hcollation⟩, hincludes, horder⟩
    exact ⟨hunique, ⟨hunfiltered, hsparse, hhidden, hcollation.symm, horder⟩, hincludes⟩
  · rintro ⟨hunique, ⟨hunfiltered, hsparse, hhidden, hcollation, horder⟩, hincludes⟩
    exact ⟨⟨hunique, hdense, ⟨hunfiltered, hsparse, hhidden⟩, hcollation.symm⟩, hincludes, horder⟩

theorem leads_of_append (front : List IndexKey) (back : List IndexKey) :
    Leads some front (front ++ back) := by
  induction front with
  | nil => trivial
  | cons key front ih => exact ⟨rfl, rfl, ih⟩

section Kinds
variable (jsonb : PartialFilter → PartialFilter) (name : String)

def reorderedIndex (candidate : ReorderCandidate) : IndexSpec :=
  { candidate.spec with
    name := name
    keys := candidate.keys.map SortKey.indexKey
    ttl := false
    isPartial := candidate.spec.partialFilter.isSome
    partialFilter := candidate.spec.partialFilter.map jsonb
    hidden := false
    isShardKey := false }

theorem spec_createRow (hkept : KeysKept candidate.keys) :
    ((createRow name candidate).stored jsonb).spec =
      { proposedIndex name candidate.keys candidate.partialFilter with
        partialFilter := (candidate.partialFilter.map filterValues).map jsonb } := by
  have hkeys : decodeKeys ((createRow name candidate).stored jsonb).target.keys = candidate.keys :=
    (decodeKeys_encodeKeys_iff _).mpr hkept
  rw [BuildRow.spec, hkeys]
  simp only [specOf, createRow, BuildRow.stored, proposedIndex, Option.map_none, Option.bind_none,
    Option.or_none, Option.isSome_map, Option.getD_none]
  rfl

theorem spec_narrowingRow {candidate : NarrowCandidate} (hkept : KeysKept candidate.keys) :
    ((narrowingRow name candidate).stored jsonb).spec = proposedIndex name candidate.keys none := by
  have hkeys : decodeKeys ((narrowingRow name candidate).stored jsonb).target.keys =
      candidate.keys := (decodeKeys_encodeKeys_iff _).mpr hkept
  rw [BuildRow.spec, hkeys]
  rfl

theorem spec_reorderRow {candidate : ReorderCandidate} (hkept : KeysKept candidate.keys) :
    ((reorderRow name candidate).stored jsonb).spec = reorderedIndex jsonb name candidate := by
  have hkeys : decodeKeys ((reorderRow name candidate).stored jsonb).target.keys =
      candidate.keys := (decodeKeys_encodeKeys_iff _).mpr hkept
  rw [BuildRow.spec, hkeys]
  simp [specOf, reorderRow, BuildRow.stored, reorderedIndex]

end Kinds

theorem LiveIndexes.eq_of_name (live : LiveIndexes) (ha : a ∈ live.specs) (hb : b ∈ live.specs)
    (h : a.name = b.name) : a = b :=
  List.inj_on_of_nodup_map live.names_nodup ha hb h

def Restricted (index : IndexSpec) : Prop :=
  index.isPartial = true ∨ index.sparse = true ∨ index.hidden = true ∨ index.collation ≠ none

section Worth
variable (jsonb : PartialFilter → PartialFilter) (shapes : List QueryShape) (live : LiveIndexes)
variable (options : CreateOptions) {name : String}
variable (hfree : ∀ index ∈ live.specs, index.name ≠ name)
include hfree

theorem create_worth (host : Host) (stringify : ConstantValue → String)
    (hcandidate : candidate ∈ (recommendCreates host stringify shapes live.specs options).candidates)
    (hkept : KeysKept candidate.keys) :
    notWorthBuilding ((createRow name candidate).stored jsonb).spec live.specs = none := by
  obtain ⟨want, hwant, hkeys, -, -⟩ :=
    exists_survivor host stringify live.specs options shapes hcandidate
  obtain ⟨hformed, hnot⟩ := formed_notServed_survivor host live.specs options shapes want hwant
  rw [spec_createRow jsonb name hkept]
  refine (notWorthBuilding_eq_none_iff hfree).mpr ?_
  rintro index hindex ⟨hoptions, -, horder⟩
  obtain ⟨-, -, ⟨hunfiltered, hsparse, -⟩, -⟩ := (optionsCompatible_iff _ _).mp hoptions
  have hnoFilter : index.partialFilter = none := live.partial_marked index hindex hunfiltered
  have hserves : servesWant host index want.wantedKeys want.blocks want.partialFilter = true := by
    rcases (coversKeyOrder_iff _ _).mp horder with hleads | hleads
    · refine servesWant_of_leads hformed hsparse hnoFilter false ?_
      rw [← hkeys]
      exact hleads
    · refine servesWant_of_leads hformed hsparse hnoFilter true ?_
      rw [← hkeys]
      exact hleads
  rw [hnot index hindex] at hserves
  cases hserves

theorem narrowing_worth_iff (host : Host) {candidate : NarrowCandidate}
    (hcandidate : candidate ∈ recommendNarrowing host shapes live.specs options.toWorkloadOptions)
    (hkept : KeysKept candidate.keys) (hindex : index ∈ live.specs)
    (hname : index.name = candidate.indexName) :
    notWorthBuilding ((narrowingRow name candidate).stored jsonb).spec live.specs = none ↔
      Restricted index ∧ ∀ other ∈ live.specs, other.name ≠ index.name →
        ¬ Answers other candidate.keys none := by
  obtain ⟨narrowed, hnarrowed, dropped, hnarrows⟩ := exists_narrowed hcandidate
  obtain rfl : index = narrowed := live.eq_of_name hindex hnarrowed (hname.trans hnarrows.name)
  rw [spec_narrowingRow jsonb name hkept, notWorthBuilding_eq_none_iff hfree]
  have hcovers (other : IndexSpec) :
      _ ↔ (_ → other.unique = true) ∧ Answers other candidate.keys none ∧ _ :=
    covers_iff_answers (proposedIndex name candidate.keys none) other rfl ⟨rfl, rfl, rfl⟩
  have hown : Answers index candidate.keys none ↔ ¬ Restricted index := by
    have hleads : Leads some (candidate.keys.map SortKey.indexKey) index.keys := by
      rw [hnarrows.keys]
      exact leads_of_append _ _
    simp [Answers, Restricted, hleads, not_or]
  constructor
  · intro hnone
    refine ⟨?_, fun other hother _ hanswers => hnone other hother ?_⟩
    · by_contra hfull
      exact hnone index hindex ((hcovers index).mpr ⟨nofun, hown.mpr hfull, nofun⟩)
    · exact (hcovers other).mpr ⟨nofun, hanswers, nofun⟩
  · rintro ⟨hrestricted, hothers⟩ other hother hcovered
    obtain ⟨-, hanswers, -⟩ := (hcovers other).mp hcovered
    by_cases hother' : other.name = index.name
    · obtain rfl := live.eq_of_name hother hindex hother'
      exact hown.mp hanswers hrestricted
    · exact hothers other hother hother' hanswers

theorem reorder_worth_iff (hinted : List String) {candidate : ReorderCandidate}
    (hcandidate : candidate ∈
      recommendReorder shapes live.specs options.toWorkloadOptions hinted)
    (hkept : KeysKept candidate.keys) :
    notWorthBuilding ((reorderRow name candidate).stored jsonb).spec live.specs = none ↔
      candidate.spec.partialFilter.isSome = true ∨ candidate.spec.sparse = true ∨
        ∀ other ∈ live.specs, other.name ≠ candidate.indexName →
          ¬ (other.unique = true ∧ Answers other candidate.keys candidate.spec.collation ∧
            ∀ column ∈ candidate.spec.includes,
              column ∈ other.fields ∨ column ∈ other.includes) := by
  obtain ⟨index, hindex, hreorders⟩ := exists_reordered hcandidate
  rw [spec_reorderRow jsonb name hkept, notWorthBuilding_eq_none_iff hfree, hreorders.name]
  have hunique : candidate.spec.unique = true := by rw [hreorders.spec, hreorders.unique]
  by_cases hrestricted :
      candidate.spec.partialFilter.isSome = true ∨ candidate.spec.sparse = true
  · refine iff_of_true ?_ (hrestricted.imp_right .inl)
    rintro other - ⟨hoptions, -, -⟩
    obtain ⟨-, ⟨hunfiltered, hsparse, -⟩, -⟩ := (optionsCompatible_iff _ _).mp hoptions
    simp only [reorderedIndex] at hunfiltered hsparse
    simp [hunfiltered, hsparse] at hrestricted
  · rw [← or_assoc, or_iff_right hrestricted]
    simp only [not_or, Bool.not_eq_true] at hrestricted
    have hcovers (other : IndexSpec) :
        _ ↔ (_ → other.unique = true) ∧ Answers other candidate.keys candidate.spec.collation ∧ _ :=
      covers_iff_answers (reorderedIndex jsonb name candidate) other rfl
        ⟨hrestricted.1, hrestricted.2, rfl⟩
    constructor
    · rintro hnone other hother - ⟨hother', hanswers, hincludes⟩
      exact hnone other hother ((hcovers other).mpr ⟨fun _ => hother', hanswers, hincludes⟩)
    · intro hothers other hother hcovered
      by_cases hother' : other.name = index.name
      · obtain rfl := live.eq_of_name hother hindex hother'
        have huncovered := hreorders.uncovered (reorderedIndex jsonb name candidate) rfl
        rw [hcovered.2.2] at huncovered
        cases huncovered
      · obtain ⟨hother'', hanswers, hincludes⟩ := (hcovers other).mp hcovered
        exact hothers other hother hother' ⟨hother'' hunique, hanswers, hincludes⟩

end Worth

/-- Rows whose keys read back as written, against the indexes they were derived from. A
create is always worth building. A narrowing is where the index it narrows is restricted
and no other answers for the kept keys. A re-order is where it is filtered or sparse, or
no other unique index answers for its keys and carries its columns. -/
theorem worth_building_iff (jsonb : PartialFilter → PartialFilter) (host : Host)
    (stringify : ConstantValue → String) (shapes : List QueryShape) (live : LiveIndexes)
    (options : CreateOptions) (hinted : List String) (name : String)
    (hfree : ∀ index ∈ live.specs, index.name ≠ name) :
    (∀ candidate ∈ (recommendCreates host stringify shapes live.specs options).candidates,
      KeysKept candidate.keys →
        notWorthBuilding ((createRow name candidate).stored jsonb).spec live.specs = none) ∧
    (∀ candidate ∈ recommendNarrowing host shapes live.specs options.toWorkloadOptions,
      KeysKept candidate.keys → ∀ index ∈ live.specs, index.name = candidate.indexName →
        (notWorthBuilding ((narrowingRow name candidate).stored jsonb).spec live.specs = none ↔
          Restricted index ∧ ∀ other ∈ live.specs, other.name ≠ index.name →
            ¬ Answers other candidate.keys none)) ∧
    (∀ candidate ∈ recommendReorder shapes live.specs options.toWorkloadOptions hinted,
      KeysKept candidate.keys →
        (notWorthBuilding ((reorderRow name candidate).stored jsonb).spec live.specs = none ↔
          candidate.spec.partialFilter.isSome = true ∨ candidate.spec.sparse = true ∨
            ∀ other ∈ live.specs, other.name ≠ candidate.indexName →
              ¬ (other.unique = true ∧ Answers other candidate.keys candidate.spec.collation ∧
                ∀ column ∈ candidate.spec.includes,
                  column ∈ other.fields ∨ column ∈ other.includes))) :=
  ⟨fun _ hcandidate hkept => create_worth jsonb shapes live options hfree host stringify hcandidate
      hkept,
    fun _ hcandidate hkept _ hindex hname =>
      narrowing_worth_iff jsonb shapes live options hfree host hcandidate hkept hindex hname,
    fun _ hcandidate hkept =>
      reorder_worth_iff jsonb shapes live options hfree hinted hcandidate hkept⟩

def sparseLive : LiveIndexes where
  specs := [{ ascending "a_1_b_1_c_1" ["a", "b", "c"] with sparse := true }]
  names_nodup := by decide
  partial_marked := by decide

/-- Narrowed to the two fields a scan names, it is worth building dense. -/
theorem worth_building_sparse :
    ∃ candidate ∈ recommendNarrowing decimalHost [scanOf ["a", "b"] [] []] sparseLive.specs
        everyScan.toWorkloadOptions,
      notWorthBuilding ((narrowingRow "a_1_b_1" candidate).stored id).spec sparseLive.specs =
        none := by
  obtain ⟨candidate, hcandidate, hkept, hname⟩ : ∃ candidate ∈ recommendNarrowing decimalHost
      [scanOf ["a", "b"] [] []] sparseLive.specs everyScan.toWorkloadOptions,
      KeysKept candidate.keys ∧ candidate.indexName = "a_1_b_1_c_1" := by decide
  refine ⟨candidate, hcandidate, ?_⟩
  refine ((worth_building_iff id decimalHost (fun _ => "") [scanOf ["a", "b"] [] []] sparseLive
    everyScan [] "a_1_b_1" (by decide)).2.1 candidate hcandidate hkept _ List.mem_cons_self
    hname.symm).mpr ⟨.inr (.inl rfl), ?_⟩
  intro other hother hne
  rw [List.mem_singleton.mp hother] at hne
  exact absurd rfl hne

/-- A narrowing is closed because the index it narrows serves its queries; a re-order
because another unique index does; and a build for the field `a:-1`, which reads back as
the field `a` descending, because of an index on that. -/
theorem proposal_not_worth_building :
    let wide := ascending "a_1_b_1_c_1" ["a", "b", "c"]
    let straight := { ascending "a_1_b_1" ["a", "b"] with unique := true }
    let mixed := { ascending "mixed" ["a", "b", "c"] with
      unique := true
      keys := [⟨"a", .asc⟩, ⟨"b", .desc⟩, ⟨"c", .asc⟩] }
    let sorted := { scanOf [] [⟨"a", .asc⟩, ⟨"b", .desc⟩] [] with sortedInMemory := true }
    (∃ candidate ∈ recommendNarrowing decimalHost [scanOf ["a", "b"] [] []] [wide]
        everyScan.toWorkloadOptions,
      notWorthBuilding ((narrowingRow "a_1_b_1" candidate).stored id).spec [wide] =
        some "a_1_b_1_c_1 already serves every query this index would") ∧
    (∃ candidate ∈ recommendReorder [sorted] [straight, mixed] everyScan.toWorkloadOptions [],
      notWorthBuilding ((reorderRow "a_1_b_-1" candidate).stored id).spec [straight, mixed] =
        some "mixed already serves every query this index would") ∧
    ∃ candidate ∈ (recommendCreates decimalHost (fun _ => "") [scanOf ["a:-1"] [] []]
        [ascending "a_1" ["a"]] everyScan).candidates,
      notWorthBuilding ((createRow "a:-1_1" candidate).stored id).spec [ascending "a_1" ["a"]] =
        some "a_1 already serves every query this index would" := by
  decide

end Indexterity
