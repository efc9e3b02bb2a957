import Indexterity.BuildRetire
import Indexterity.Library.Json
import Indexterity.Rollback

/-!
# A re-order from the index it replaces to the drop of that index

The options of a protected index travel with the row that rebuilds it, and its partial filter with
them through the JSON column. Filters are held against each other as JSON writes them: an order
that the column changes is a difference, and a date is no other than its text.
-/

namespace Indexterity

open Library

universe u

section Shown
variable {τ : Type u} (column : JsonColumn τ) (number : ℚ → List Char)

def jsonText (value : Value τ) : String :=
  String.ofList (value.json number fun typed => (column.form typed).json number fun _ => [])

/-- A filter's value as JSON writes it. -/
def shownValue : Value τ → FilterValue
  | .typed value => filterValue (jsonText column number) (column.form value)
  | value => filterValue (jsonText column number) value

def shownFilter (members : Members τ) : PartialFilter :=
  members.map fun member => (member.1, shownValue column number member.2)

def ReadIndex.shown (index : ReadIndex τ) : IndexSpec :=
  { index.spec with partialFilter := index.partialFilter.map (shownFilter column number) }

/-- The index create builds from the row of a re-order, as it is read back. -/
def rebuiltIndex (name : String) (candidate : ReorderCandidate) (original : ReadIndex τ) :
    ReadIndex τ where
  spec := builtIndex (reorderRow name candidate)
  partialFilter := original.partialFilter.map fun filter =>
    recordEntries (column.arranged (rereadMembers column filter))

/-- Nothing in the filter is changed on its way through the column, and no name is the accessor
that records do not keep. -/
def FilterKept (filter : Members τ) : Prop :=
  "__proto__" ∉ filter.map Prod.fst ∧ (Value.document filter).kept column = true

variable {column number} {has : ℚ → Prop}

section
variable (hnumber : Numerals number has)
include hnumber

theorem shownValue_inj {value other : Value τ} (hvalue : IsJson has value) (hother : IsJson has other)
    (h : shownValue column number other = shownValue column number value) : other = value := by
  have hend : Stops [] := by simp [Stops]
  have hjson (htext : jsonText column number other = jsonText column number value) :
      other = value :=
    (hother.append_inj hnumber hvalue hend hend
      (congrArg (· ++ []) (String.ofList_injective htext))).1
  cases hvalue <;> cases hother <;> simp_all [shownValue, filterValue]

theorem shownFilter_inj {filter other : Members τ}
    (hfilter : ∀ member ∈ filter, IsJson has member.2)
    (hother : ∀ member ∈ other, IsJson has member.2)
    (h : shownFilter column number other = shownFilter column number filter) : other = filter := by
  induction filter generalizing other with
  | nil => exact List.map_eq_nil_iff.mp h
  | cons member filter ih =>
    cases other with
    | nil => cases h
    | cons first other =>
      obtain ⟨hfirst, hrest⟩ := List.cons.inj h
      obtain ⟨hname, hvalue⟩ := Prod.mk.inj hfirst
      obtain ⟨hmember, hfilter⟩ := List.forall_mem_cons.mp hfilter
      obtain ⟨hplain, hother⟩ := List.forall_mem_cons.mp hother
      rw [Prod.ext hname (shownValue_inj hnumber hmember hplain hvalue), ih hfilter hother hrest]

end

end Shown

/-! ## The re-order -/

theorem keysKept_of_names {index : IndexSpec} {shape : QueryShape} {keys : List SortKey}
    (hfields : fieldNames keys = index.fields) (hshape : fieldNames (esrKeys shape) = index.fields)
    (hnames : ∀ field ∈ fieldNames keys,
      ¬ DESCENDING_SUFFIX <:+ field.toList ∧ arrayIndex field = none)
    (hproto : "__proto__" ∉ index.fields) : KeysKept keys := by
  refine ⟨fun key hkey _ => (hnames key.field (List.mem_map_of_mem hkey)).1, ?_, hfields ▸ hproto, ?_⟩
  · rw [hfields, ← hshape, esrKeys_eq_firstsBy]
    exact nodup_map_firstsBy _ _
  · refine List.pairwise_of_forall_mem_list fun a _ b hb => ?_
    simp [enumerates, (hnames b hb).2]

section Rebuilt
variable {τ : Type u} (column : JsonColumn τ) (number : ℚ → List Char)
variable {name : String} {candidate : ReorderCandidate} {original : ReadIndex τ}

theorem shown_rebuiltIndex (hspec : candidate.spec = original.shown column number)
    (hkept : KeysKept candidate.keys) :
    (rebuiltIndex column name candidate original).shown column number =
      reorderedIndex (fun _ => ((rebuiltIndex column name candidate original).shown column
        number).partialFilter.getD []) name candidate := by
  have hkeys : decodeKeys (encodeKeys candidate.keys) = candidate.keys :=
    (decodeKeys_encodeKeys_iff _).mpr hkept
  cases hfilter : original.partialFilter <;>
    simp [rebuiltIndex, ReadIndex.shown, builtIndex, indexFrom, createOptions, reorderRow,
      reorderedIndex, hkeys, hspec, hfilter]

theorem fields_rebuiltIndex :
    "__proto__" ∉ ((rebuiltIndex column name candidate original).shown column number).fields := by
  have hproto := (names_assignAll ((encodeKeys candidate.keys).map decodeKey)).2
  intro hin
  refine hproto ((perm_ownEntries _).map Prod.fst |>.subset ?_)
  simpa [rebuiltIndex, ReadIndex.shown, builtIndex, indexFrom, reorderRow, decodeKeys,
    IndexSpec.fields, SortKey.indexKey, Function.comp_def] using hin

theorem partialFilter_rebuiltIndex_iff
    (hdistinct : ∀ filter ∈ original.partialFilter, (Value.document filter).distinct = true) :
    (rebuiltIndex column name candidate original).partialFilter = original.partialFilter ↔
      ∀ filter ∈ original.partialFilter, FilterKept column filter := by
  cases hfilter : original.partialFilter with
  | none => simp [rebuiltIndex, hfilter]
  | some filter =>
    simp only [rebuiltIndex, hfilter, Option.map_some, Option.some.injEq, Option.mem_def, forall_eq']
    exact recordEntries_arranged_iff column (hdistinct filter hfilter)

end Rebuilt

/-- What a passed preflight says of a protected index: the replacement it names is there, visible,
and enforces the same. -/
theorem exists_replacement {specs : List IndexSpec} {reads : PreflightReads} {target : DropTarget}
    {spec : IndexSpec} {name : String} (hsafe : (preflightDrop specs reads target).safe = true)
    (hspec : specNamed specs target.indexName = some spec) (hprotected : isNeverDrop spec = true)
    (hname : target.supersededBy = some name) :
    ∃ replacement ∈ specs, replacement.name = name ∧ enforcesTheSame spec replacement = true := by
  obtain ⟨found, hfound, hrefusal, -⟩ := preflightDrop_safe_iff.mp hsafe
  cases hspec.symm.trans hfound
  simp only [protectedRefusal, hprotected, hname, Bool.not_true, Bool.false_eq_true, if_false]
    at hrefusal
  split at hrefusal
  · cases hrefusal
  · rename_i replacement hreplacement
    obtain ⟨hmem, hnamed⟩ := specNamed_some hreplacement
    exact ⟨replacement, hmem, hnamed, by by_contra h; simp [h] at hrefusal⟩

theorem of_enforcesTheSame {original replacement : IndexSpec}
    (h : enforcesTheSame original replacement = true) :
    replacement.fields = original.fields ∧ replacement.unique = original.unique ∧
      replacement.sparse = original.sparse ∧ replacement.collation = original.collation ∧
      replacement.partialFilter = original.partialFilter ∧ replacement.hidden = false ∧
      ∀ column ∈ original.includes, column ∈ replacement.fields ∨ column ∈ replacement.includes := by
  simp only [enforcesTheSame, Bool.ite_eq_true_distrib, Bool.false_eq_true, if_false_left, not_not,
    Bool.not_eq_true] at h
  obtain ⟨-, -, hfields, -, hunique, hsparse, hcollation, hfilter, hhidden, hincludes⟩ := h
  exact ⟨hfields, hunique, hsparse, hcollation, hfilter, hhidden,
    (coversIncludes_iff _ _).mp hincludes⟩

section Retired
variable {τ : Type u} (column : JsonColumn τ) (number : ℚ → List Char)

/-- What a re-order rebuilds enforces what it replaces under the same filter, and serves the shape
that drives it, exactly where no field is named `__proto__` and the filter is kept by the column.
And what a protected index leaves behind when its drop is safe has its fields, options and columns;
and its filter, where a re-order built it and the filter is kept, or where both filters hold only
values of the types JSON has. -/
theorem reorder_enforced_iff :
    (∀ (shapes : List QueryShape) (existing : List (ReadIndex τ)) (options : WorkloadOptions)
      (hinted : List String) (name : String), (∀ index ∈ existing, index.spec.name ≠ name) →
      (∀ index ∈ existing, ∀ filter ∈ index.partialFilter,
        (Value.document filter).distinct = true) →
      ∀ candidate ∈ recommendReorder shapes (existing.map (ReadIndex.shown column number)) options
        hinted,
      (∀ field ∈ fieldNames candidate.keys,
        ¬ DESCENDING_SUFFIX <:+ field.toList ∧ arrayIndex field = none) →
      ∃ original ∈ existing, candidate.spec = original.shown column number ∧
        ∃ driver, (candidate.sourceShapes.insertionSort fun a b => b.count ≤ a.count).head? =
            some driver ∧ servesShapeOrder candidate.spec driver = false ∧
          let rebuilt := rebuiltIndex column name candidate original
          let built := rebuilt.shown column number
          (enforcesTheSame candidate.spec built = true ∧ servesShapeOrder built driver = true ∧
              rebuilt.partialFilter = original.partialFilter ↔
            "__proto__" ∉ original.spec.fields ∧
              ∀ filter ∈ original.partialFilter, FilterKept column filter)) ∧
    ∀ (live : List (ReadIndex τ)) (reads : PreflightReads) (target : DropTarget) (name : String)
      (original : ReadIndex τ), target.supersededBy = some name →
      specNamed (live.map (ReadIndex.shown column number)) target.indexName =
        some (original.shown column number) →
      isNeverDrop original.spec = true →
      (preflightDrop (live.map (ReadIndex.shown column number)) reads target).safe = true →
      ∃ replacement ∈ live, replacement.spec.name = name ∧ replacement.spec.hidden = false ∧
        replacement.spec.fields = original.spec.fields ∧
        replacement.spec.unique = original.spec.unique ∧
        replacement.spec.sparse = original.spec.sparse ∧
        replacement.spec.collation = original.spec.collation ∧
        (∀ included ∈ original.spec.includes,
          included ∈ replacement.spec.fields ∨ included ∈ replacement.spec.includes) ∧
        (∀ candidate, replacement = rebuiltIndex column name candidate original →
          (∀ filter ∈ original.partialFilter, (Value.document filter).distinct = true) →
          (replacement.partialFilter = original.partialFilter ↔
            ∀ filter ∈ original.partialFilter, FilterKept column filter)) ∧
        ∀ has, Numerals number has →
          (∀ filter ∈ original.partialFilter, ∀ member ∈ filter, IsJson has member.2) →
          (∀ filter ∈ replacement.partialFilter, ∀ member ∈ filter, IsJson has member.2) →
          replacement.partialFilter = original.partialFilter := by
  constructor
  · intro shapes existing options hinted name hfree hdistinct candidate hcandidate hnames
    obtain ⟨index, hindex, hreorder⟩ := List.mem_filterMap.mp hcandidate
    obtain ⟨original, horiginal, rfl⟩ := List.mem_map.mp hindex
    have hreorders := reorders_of_reorderIndex hreorder
    obtain ⟨-, -, -, -, -, -, driver, hdriver, hkeys, hunserved, hesr⟩ :=
      driver_of_reorderIndex hreorder
    refine ⟨original, horiginal, hreorders.spec, driver, hdriver, hreorders.spec ▸ hunserved, ?_⟩
    have hfilter := @partialFilter_rebuiltIndex_iff _ column name candidate original
      (hdistinct original horiginal)
    constructor
    · rintro ⟨henforced, -, hsame⟩
      have heq := (of_enforcesTheSame henforced).1
      rw [hreorders.spec] at heq
      have hbuilt : "__proto__" ∉
          ((rebuiltIndex column name candidate original).shown column number).fields :=
        fields_rebuiltIndex column number
      rw [heq] at hbuilt
      exact ⟨hbuilt, hfilter.mp hsame⟩
    · rintro ⟨hproto, hkept⟩
      have hsame := hfilter.mpr hkept
      have hbuilt := @shown_rebuiltIndex _ column number name candidate original hreorders.spec
        (keysKept_of_names hreorders.fields hesr hnames hproto)
      refine ⟨?_, servesShapeOrder_of_targetDirections hesr ?_, hsame⟩
      · rw [hbuilt, hreorders.spec,
          enforcesTheSame_reorderedIndex_iff _ hreorders (hfree original horiginal)]
        cases hread : original.partialFilter <;> simp [ReadIndex.shown, hsame, hread]
      · rw [hbuilt, ← hkeys]
        rfl
  · intro live reads target name original hname hspec hprotected hsafe
    obtain ⟨_, hmem, hnamed, henforced⟩ := exists_replacement hsafe hspec hprotected hname
    obtain ⟨replacement, hreplacement, rfl⟩ := List.mem_map.mp hmem
    obtain ⟨hfields, hunique, hsparse, hcollation, hfilter, hhidden, hincludes⟩ :=
      of_enforcesTheSame henforced
    refine ⟨replacement, hreplacement, hnamed, hhidden, hfields, hunique, hsparse, hcollation,
      hincludes, ?_, fun has hnumber hjson hother => ?_⟩
    · rintro candidate rfl hdistinct
      exact partialFilter_rebuiltIndex_iff column hdistinct
    simp only [ReadIndex.shown] at hfilter
    cases hr : replacement.partialFilter with
    | none =>
      cases ho : original.partialFilter with
      | none => rfl
      | some filter => simp [hr, ho] at hfilter
    | some other =>
      cases ho : original.partialFilter with
      | none => simp [hr, ho] at hfilter
      | some filter =>
        simp only [hr, ho, Option.map_some, Option.some.injEq] at hfilter
        rw [shownFilter_inj hnumber (hjson filter ho) (hother other hr) hfilter]

end Retired

def uniqueUnder (name : String) (second : IndexDirection) (filter : Members BsonType) :
    ReadIndex BsonType where
  spec := { ascending name ["a", "b"] with
    keys := [⟨"a", .asc⟩, ⟨"b", second⟩]
    unique := true
    isPartial := true }
  partialFilter := some filter

def sortedDown : QueryShape :=
  { scanOf [] [⟨"a", .asc⟩, ⟨"b", .desc⟩] [] with sortedInMemory := true }

/-- Two names the column lists the other way round: what is rebuilt is no longer taken for the same
index. And a date read back as its text: the drop is safe, and the filter left is another one. -/
theorem reorder_filter_lost :
    let shown := ReadIndex.shown jsonb fun value => Nat.toDigits 10 value.num.toNat
    let openOrders := uniqueUnder "a_1_b_1" .asc [("status", .text "open"), ("kind", .number 1)]
    let since := uniqueUnder "a_1_b_1" .asc [("at", .typed (.date "2026-01-01"))]
    let sinceText := uniqueUnder "a_1_b_-1" .desc [("at", .text "2026-01-01")]
    (∃ candidate ∈ recommendReorder [sortedDown] [shown openOrders] everyScan.toWorkloadOptions [],
      enforcesTheSame (shown openOrders)
        (shown (rebuiltIndex jsonb "a_1_b_-1" candidate openOrders)) = false) ∧
    (∃ candidate ∈ recommendReorder [sortedDown] [shown since] everyScan.toWorkloadOptions [],
      shown (rebuiltIndex jsonb "a_1_b_-1" candidate since) = shown sinceText) ∧
    (preflightDrop [shown since, shown sinceText] ⟨fun _ => 0, []⟩
      ⟨.DROP_REDUNDANT, "a_1_b_1", some "a_1_b_-1"⟩).safe = true ∧
    sinceText.partialFilter ≠ since.partialFilter := by
  refine ⟨by decide, by decide, by decide, ?_⟩
  simp [uniqueUnder]

end Indexterity
