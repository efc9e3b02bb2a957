import Indexterity.WorkloadFilter
import Indexterity.Library.Leading

/-!
# What an UPDATE candidate retires

An index is extended when its fields are a proper prefix of the candidate's. The match
is by field names and by filter. Whether the candidate also walks the retired index's
order is then a matter of its directions alone, and whether it carries the retired
index's included columns a matter of those columns; neither is asked.
-/

namespace Indexterity

open Library

/-- The directions of the index are the leading ones of the keys, or all their reverses. -/
def DirectionsAgree (index : IndexSpec) (keys : List SortKey) : Prop :=
  let wanted := (keys.take index.keys.length).map fun key => some key.direction.index
  (index.keys.map fun key => some key.direction) = wanted ∨
    (index.keys.map fun key => key.direction.negate) = wanted
  deriving Decidable

theorem isPrefix_iff (shorter longer : List String) :
    isPrefix shorter longer = true ↔
      shorter ≠ [] ∧ shorter <+: longer ∧ shorter.length < longer.length := by
  unfold isPrefix
  split
  · rename_i hshort
    constructor
    · intro h
      cases h
    · rintro ⟨hne, -, hlt⟩
      rcases hshort with hzero | hle
      · exact absurd (List.length_eq_zero_iff.mp hzero) hne
      · omega
  · rename_i hlong
    rw [not_or, not_le] at hlong
    rw [zipIdx_all_iff shorter longer]
    constructor
    · intro h
      refine ⟨?_, h, hlong.2⟩
      intro hnil
      rw [hnil] at hlong
      exact hlong.1 rfl
    · rintro ⟨-, hleads, -⟩
      exact hleads

theorem leads_iff_of_fields {d : IndexDirection → Option IndexDirection} {xs ys : List IndexKey}
    (h : xs.map IndexKey.field <+: ys.map IndexKey.field) :
    Leads d xs ys ↔ (xs.map fun key => d key.direction) =
      (ys.take xs.length).map fun key => some key.direction := by
  induction xs generalizing ys with
  | nil => simp [Leads]
  | cons x xs ih =>
    cases ys with
    | nil => simp at h
    | cons y ys =>
      rw [List.map_cons, List.map_cons, List.cons_prefix_cons] at h
      simp only [Leads, h.1.symm, true_and, ih h.2, List.map_cons, List.length_cons,
        List.take_succ_cons, List.cons.injEq]

theorem coversKeyOrder_proposedIndex_iff {index : IndexSpec} {keys : List SortKey}
    (h : index.fields <+: fieldNames keys) (name : String) (filter : Option ConstantFilter) :
    coversKeyOrder index (proposedIndex name keys filter) = true ↔ DirectionsAgree index keys := by
  have hfields : index.keys.map IndexKey.field <+:
      (proposedIndex name keys filter).keys.map IndexKey.field := by
    have hproposed := fields_proposedIndex name keys filter
    rw [IndexSpec.fields] at hproposed
    rw [hproposed]
    exact h
  rw [coversKeyOrder_iff, leads_iff_of_fields hfields, leads_iff_of_fields hfields, DirectionsAgree]
  simp only [proposedIndex, ← List.map_take, List.map_map, Function.comp_def]

theorem coversIncludes_proposedIndex_iff (index : IndexSpec) (keys : List SortKey) (name : String)
    (filter : Option ConstantFilter) :
    coversIncludes index (proposedIndex name keys filter) = true ↔
      index.includes ⊆ fieldNames keys := by
  have hcolumns : coveredColumns (proposedIndex name keys filter) = fieldNames keys := by
    rw [coveredColumns, fields_proposedIndex]
    exact List.append_nil _
  simp only [coversIncludes, hcolumns, List.all_eq_true, List.contains_iff_mem]
  exact Iff.rfl

theorem directionsAgree_single {index : IndexSpec} {key : IndexKey} {keys : List SortKey}
    (hindex : index.keys = [key]) (hordered : key.direction.negate.isSome = true)
    (hkeys : keys ≠ []) : DirectionsAgree index keys := by
  obtain ⟨⟨field, direction⟩, rest, rfl⟩ := List.exists_cons_of_ne_nil hkeys
  simp only [DirectionsAgree, hindex, List.map_cons, List.map_nil, List.length_singleton,
    List.take_succ_cons, List.take_zero, List.cons.injEq, and_true]
  cases direction <;> cases hdir : key.direction <;>
    simp_all [SortDirection.index, IndexDirection.negate]

theorem candidateOf_update {host : Host} {stringify : ConstantValue → String}
    {existing : List IndexSpec} {want : Want}
    (h : (candidateOf host stringify existing want).type = .UPDATE) :
    ∃ index, extendable host existing want = some index ∧
      (candidateOf host stringify existing want).retireIndexes = [index.name] := by
  unfold candidateOf at h ⊢
  cases hextend : extendable host existing want with
  | some index => exact ⟨index, rfl, rfl⟩
  | none =>
    rw [hextend] at h
    simp only at h
    split at h <;> cases h

/-- An UPDATE retires one unprotected index over the same documents whose fields it
extends. It walks that index's order exactly where the directions agree, which those of
a single ordered key always do, and carries its columns exactly where they are fields. -/
theorem update_retires_leading_fields (host : Host) (stringify : ConstantValue → String)
    (existing : List IndexSpec) (options : CreateOptions) (shapes : List QueryShape) :
    ∀ candidate ∈ (recommendCreates host stringify shapes existing options).candidates,
      candidate.type = .UPDATE → ∃ index ∈ existing,
        candidate.retireIndexes = [index.name] ∧ isNeverDrop index = false ∧
        sameFilter host index.partialFilter (candidate.partialFilter.map filterValues) = true ∧
        index.fields ≠ [] ∧ index.fields <+: fieldNames candidate.keys ∧
        index.fields.length < candidate.keys.length ∧
        ∀ name, let built := proposedIndex name candidate.keys candidate.partialFilter
          (coversKeyOrder index built = true ↔ DirectionsAgree index candidate.keys) ∧
          (∀ key, index.keys = [key] → key.direction.negate.isSome = true →
            coversKeyOrder index built = true) ∧
          (coversIncludes index built = true ↔ index.includes ⊆ fieldNames candidate.keys) := by
  intro candidate hcandidate htype
  simp only [recommendCreates, List.mem_map, List.mem_filter] at hcandidate
  obtain ⟨want, -, rfl⟩ := hcandidate
  obtain ⟨index, hextend, hretire⟩ := candidateOf_update htype
  obtain ⟨hfilter, -, hkeys⟩ := candidateOf_fields host stringify existing want
  have hmem := List.mem_of_find?_eq_some hextend
  have hfound := List.find?_some hextend
  simp only [compatible, Bool.and_eq_true, Bool.not_eq_true'] at hfound
  obtain ⟨⟨hsafe, hsame⟩, hextends⟩ := hfound
  obtain ⟨hne, hleads, hlt⟩ := (isPrefix_iff _ _).mp hextends
  rw [hfilter, hkeys]
  have hlength : index.fields.length < want.wantedKeys.length := by
    simpa [fieldNames] using hlt
  refine ⟨index, hmem, hretire, hsafe, hsame, hne, hleads, hlength, ?_⟩
  intro name
  have horder := coversKeyOrder_proposedIndex_iff hleads name want.partialFilter
  refine ⟨horder, ?_, coversIncludes_proposedIndex_iff index _ name _⟩
  intro key hsingle hordered
  apply horder.mpr
  apply directionsAgree_single hsingle hordered
  intro hnil
  rw [hnil] at hlength
  cases hlength

/-- An index on one descending key is extended, and walked backwards. -/
theorem update_retires_leading_fields_single :
    let wide := scanOf ["a", "b"] [] []
    let narrow := { ascending "a_-1" ["a"] with keys := [⟨"a", .desc⟩] }
    ∃ candidate ∈ (recommendCreates decimalHost (fun _ => "") [wide] [narrow] everyScan).candidates,
      candidate.type = .UPDATE ∧ ∃ index ∈ [narrow], candidate.retireIndexes = [index.name] ∧
        index.fields <+: fieldNames candidate.keys ∧
        coversKeyOrder index (proposedIndex "" candidate.keys candidate.partialFilter) = true := by
  intro wide narrow
  obtain ⟨candidate, hcandidate, htype⟩ : ∃ candidate ∈
      (recommendCreates decimalHost (fun _ => "") [wide] [narrow] everyScan).candidates,
      candidate.type = .UPDATE := by decide
  obtain ⟨index, hindex, hretire, -, -, -, hleads, -, hcovers⟩ :=
    update_retires_leading_fields decimalHost (fun _ => "") [narrow] everyScan [wide] candidate
      hcandidate htype
  refine ⟨candidate, hcandidate, htype, index, hindex, hretire, hleads, ?_⟩
  apply (hcovers "").2.1 ⟨"a", .desc⟩
  · rw [List.mem_singleton.mp hindex]
  · rfl

/-- Extended by names alone: an index on mixed directions, one that carries a column, and
one under another collation. -/
theorem update_retires_uncovered :
    let retires (fields : List String) (index : IndexSpec) (uncovered : IndexSpec → Bool) :=
      (recommendCreates decimalHost (fun _ => "") [scanOf fields [] []] [index] everyScan).candidates.any
        fun candidate => candidate.type == .UPDATE && candidate.retireIndexes == [index.name] &&
          uncovered (proposedIndex "" candidate.keys candidate.partialFilter)
    let mixed := { ascending "a_1_b_-1" ["a", "b"] with keys := [⟨"a", .asc⟩, ⟨"b", .desc⟩] }
    let carrying := { ascending "a_1" ["a"] with includes := ["total"] }
    let collated := { ascending "a_1" ["a"] with collation := some "fr" }
    retires ["a", "b", "c"] mixed (fun built => !coversKeyOrder mixed built) = true ∧
      retires ["a", "b"] carrying (fun built => !coversIncludes carrying built) = true ∧
      retires ["a", "b"] collated (fun built => collated.collation != built.collation) = true := by
  decide

end Indexterity
