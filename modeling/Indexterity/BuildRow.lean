import Indexterity.Preflight
import Indexterity.Reorder
import Indexterity.Library.Properties

/-!
# Build rows: from a candidate to an index and its retirements

The rows `jobs/suggest.ts` stores for a candidate, the index `jobs/create.ts` builds from
one, and the rows `retireSuperseded` of `jobs/finalize.ts` files once the build has
graduated. Keys are stored as texts, descending ones with a suffix, and read back into an
object whose order of properties is the order of the keys. A stored filter is read back as
the `jsonb` column returns it.
-/

namespace Indexterity

open Library

abbrev PartialFilter := List (String × FilterValue)

/-- An absent `include` is read as none. -/
structure BuildOptions where
  unique : Bool
  sparse : Bool
  collation : Option String
  partialFilter : Option PartialFilter
  includes : List String
deriving DecidableEq

structure TargetSpec where
  keys : List String
  retire : List String
  partialFilter : Option PartialFilter
  options : Option BuildOptions
deriving DecidableEq

structure BuildRow where
  type : RecommendationType
  indexName : String
  target : TargetSpec
deriving DecidableEq

/-! ## Rows -/

def encodeKey (key : SortKey) : String :=
  match key.direction with
  | .desc => key.field ++ ":-1"
  | .asc => key.field

def encodeKeys (keys : List SortKey) : List String := keys.map encodeKey

def createRow (name : String) (candidate : CreateCandidate) : BuildRow where
  type := candidate.type
  indexName := name
  target :=
    { keys := encodeKeys candidate.keys
      retire := candidate.retireIndexes
      partialFilter := candidate.partialFilter.map filterValues
      options := none }

def reorderRow (name : String) (candidate : ReorderCandidate) : BuildRow where
  type := .REORDER
  indexName := name
  target :=
    { keys := encodeKeys candidate.keys
      retire := [candidate.indexName]
      partialFilter := none
      options := some {
        unique := candidate.spec.unique
        sparse := candidate.spec.sparse
        collation := candidate.spec.collation
        partialFilter := candidate.spec.partialFilter
        includes := candidate.spec.includes } }

def narrowingRow (name : String) (candidate : NarrowCandidate) : BuildRow where
  type := .UPDATE
  indexName := name
  target :=
    { keys := encodeKeys candidate.keys
      retire := [candidate.indexName]
      partialFilter := none
      options := none }

def BuildRow.stored (jsonb : PartialFilter → PartialFilter) (row : BuildRow) : BuildRow :=
  { row with
    target :=
      { row.target with
        partialFilter := row.target.partialFilter.map jsonb
        options := row.target.options.map fun options =>
          { options with partialFilter := options.partialFilter.map jsonb } } }

/-! ## The build -/

def DESCENDING_SUFFIX : List Char := [':', '-', '1']

def decodeKey (entry : String) : String × SortDirection :=
  if DESCENDING_SUFFIX <:+ entry.toList then
    (String.ofList (entry.toList.take (entry.toList.length - 3)), .desc)
  else (entry, .asc)

def decodeKeys (entries : List String) : List SortKey :=
  (ownEntries (assignAll (entries.map decodeKey))).map fun entry => ⟨entry.1, entry.2⟩

def specOf (name : String) (keys : List SortKey) (target : TargetSpec) : IndexSpec :=
  let carried := target.options
  let filter := target.partialFilter.or (carried.bind BuildOptions.partialFilter)
  { name := name
    keys := keys.map SortKey.indexKey
    unique := (carried.map BuildOptions.unique).getD false
    ttl := false
    isPartial := filter.isSome
    partialFilter := filter
    sparse := (carried.map BuildOptions.sparse).getD false
    hidden := false
    isShardKey := false
    collation := carried.bind BuildOptions.collation
    includes := (carried.map BuildOptions.includes).getD [] }

def BuildRow.spec (row : BuildRow) : IndexSpec :=
  specOf row.indexName (decodeKeys row.target.keys) row.target

/-- The options of a create call; a collation is its locale. -/
structure CreateIndexOptions where
  name : String
  unique : Bool
  sparse : Bool
  partialFilterExpression : Option PartialFilter
  collation : Option String
  includes : List String
deriving DecidableEq

/-- What `applyCreates` hands to `executor.create`. Carried options are spread last. -/
def createOptions (row : BuildRow) : CreateIndexOptions where
  name := row.indexName
  unique := (row.target.options.map BuildOptions.unique).getD false
  sparse := (row.target.options.map BuildOptions.sparse).getD false
  partialFilterExpression :=
    (row.target.options.bind BuildOptions.partialFilter).or row.target.partialFilter
  collation := row.target.options.bind BuildOptions.collation
  includes := (row.target.options.map BuildOptions.includes).getD []

def indexFrom (keys : List SortKey) (options : CreateIndexOptions) : IndexSpec where
  name := options.name
  keys := keys.map SortKey.indexKey
  unique := options.unique
  ttl := false
  isPartial := options.partialFilterExpression.isSome
  partialFilter := options.partialFilterExpression
  sparse := options.sparse
  hidden := false
  isShardKey := false
  collation := options.collation
  includes := options.includes

def builtIndex (row : BuildRow) : IndexSpec :=
  indexFrom (decodeKeys row.target.keys) (createOptions row)

def notWorthBuilding (candidate : IndexSpec) (live : List IndexSpec) : Option String :=
  if live.any fun index => index.name == candidate.name then
    some ("an index named " ++ candidate.name ++ " already exists on this table")
  else
    (live.find? fun index => isCoveredBy candidate index).map fun covering =>
      covering.name ++ " already serves every query this index would"

/-! ## Retirements -/

def retireSuperseded (standing : List String) (row : BuildRow) : List DropTarget :=
  (row.target.retire.filter fun name => !standing.contains name).map fun name =>
    { type := .DROP_REDUNDANT
      indexName := name
      supersededBy := if row.type = .REORDER then some row.indexName else none }

/-- The indexes of one collection as a collector lists them: the names tell them apart, and
an index that is not marked partial has no filter. -/
structure LiveIndexes where
  specs : List IndexSpec
  names_nodup : (specs.map IndexSpec.name).Nodup
  partial_marked : ∀ index ∈ specs, index.isPartial = false → index.partialFilter = none

/-! ## Keys there and back -/

/-- The keys create reads from a row are those suggest wrote: an ascending field does not
read as a descending one, each field is a property of its own, and they come in the order
an object enumerates them in. -/
def KeysKept (keys : List SortKey) : Prop :=
  (∀ key ∈ keys, key.direction = .asc → ¬ DESCENDING_SUFFIX <:+ key.field.toList) ∧
    (fieldNames keys).Nodup ∧ "__proto__" ∉ fieldNames keys ∧ Enumerated (fieldNames keys)
  deriving Decidable

theorem decodeKey_desc (field : String) : decodeKey (field ++ ":-1") = (field, .desc) := by
  have hlist : (field ++ ":-1").toList = field.toList ++ DESCENDING_SUFFIX := String.toList_append
  have hsuffix : DESCENDING_SUFFIX <:+ (field ++ ":-1").toList := by
    rw [hlist]
    exact List.suffix_append _ _
  have htake : (field ++ ":-1").toList.take ((field ++ ":-1").toList.length - 3) = field.toList := by
    rw [hlist, List.length_append]
    exact List.take_left' (by simp [DESCENDING_SUFFIX])
  rw [decodeKey, if_pos hsuffix, htake, String.ofList_toList]

theorem decodeKey_encodeKey {key : SortKey}
    (h : key.direction = .asc → ¬ DESCENDING_SUFFIX <:+ key.field.toList) :
    decodeKey (encodeKey key) = (key.field, key.direction) := by
  obtain ⟨field, direction⟩ := key
  cases direction with
  | asc => exact if_neg (h rfl)
  | desc => exact decodeKey_desc field

theorem not_suffix_of_decodeKey {entry field : String} (h : decodeKey entry = (field, .asc)) :
    ¬ DESCENDING_SUFFIX <:+ field.toList := by
  unfold decodeKey at h
  split_ifs at h with hsuffix
  · cases h
  · obtain ⟨rfl, -⟩ := Prod.mk.inj h
    exact hsuffix

theorem decodeKeys_encodeKeys_iff (keys : List SortKey) :
    decodeKeys (encodeKeys keys) = keys ↔ KeysKept keys := by
  let pairs := keys.map fun key => (key.field, key.direction)
  have hnames : pairs.map Prod.fst = fieldNames keys := by simp [pairs, fieldNames]
  have hread : decodeKeys (encodeKeys keys) = keys ↔
      ownEntries (assignAll ((encodeKeys keys).map decodeKey)) = pairs := by
    rw [decodeKeys]
    constructor
    · intro h
      simp only [pairs]
      conv_rhs => rw [← h, List.map_map]
      exact (List.map_id _).symm
    · intro h
      rw [h, List.map_map]
      exact List.map_id keys
  rw [hread]
  constructor
  · intro h
    obtain ⟨hnodup, hproto⟩ := names_assignAll ((encodeKeys keys).map decodeKey)
    have hperm := (perm_ownEntries (assignAll ((encodeKeys keys).map decodeKey))).map Prod.fst
    have henumerated := enumerated_ownEntries (assignAll ((encodeKeys keys).map decodeKey))
    rw [h, hnames] at hperm henumerated
    refine ⟨?_, hperm.nodup_iff.mpr hnodup, fun hin => hproto (hperm.subset hin), henumerated⟩
    intro key hkey hasc
    have hpair : (key.field, SortDirection.asc) ∈ pairs := by
      rw [← hasc]
      exact List.mem_map.mpr ⟨key, hkey, rfl⟩
    rw [← h] at hpair
    have hdecoded := assignAll_subset _ ((perm_ownEntries _).subset hpair)
    obtain ⟨entry, -, hentry⟩ := List.mem_map.mp hdecoded
    exact not_suffix_of_decodeKey hentry
  · rintro ⟨hsuffix, hnodup, hproto, henumerated⟩
    have hdecoded : (encodeKeys keys).map decodeKey = pairs := by
      rw [encodeKeys, List.map_map]
      exact List.map_congr_left fun key hkey => decodeKey_encodeKey (hsuffix key hkey)
    rw [hdecoded, ownEntries_assignAll_iff, hnames]
    exact ⟨hnodup, hproto, henumerated⟩

/-- Fields of their own read back as proposed exactly where no ascending one ends in the suffix
of a descending one, none is the accessor of a plain object, and those that are array indexes
come first and by their numbers. -/
theorem stored_keys_read_back_iff (keys : List SortKey) (hdistinct : (fieldNames keys).Nodup) :
    decodeKeys (encodeKeys keys) = keys ↔
      (∀ key ∈ keys, key.direction = .asc → ¬ DESCENDING_SUFFIX <:+ key.field.toList) ∧
        "__proto__" ∉ fieldNames keys ∧ Enumerated (fieldNames keys) := by
  rw [decodeKeys_encodeKeys_iff, KeysKept, and_iff_right hdistinct]

theorem stored_keys_read_back_compound :
    decodeKeys (encodeKeys [⟨"at", .desc⟩, ⟨"a:-1", .desc⟩, ⟨"b", .asc⟩]) =
      [⟨"at", .desc⟩, ⟨"a:-1", .desc⟩, ⟨"b", .asc⟩] :=
  (stored_keys_read_back_iff _ (by decide)).mpr (by decide)

/-- An ascending `a:-1` is built as a descending `a`, `{b: 1, 0: 1}` as `{0: 1, b: 1}`, and
`__proto__` not at all. -/
theorem stored_keys_misread :
    decodeKeys (encodeKeys [⟨"a:-1", .asc⟩]) = [⟨"a", .desc⟩] ∧
      decodeKeys (encodeKeys [⟨"b", .asc⟩, ⟨"0", .asc⟩]) = [⟨"0", .asc⟩, ⟨"b", .asc⟩] ∧
      decodeKeys (encodeKeys [⟨"__proto__", .asc⟩, ⟨"b", .asc⟩]) = [⟨"b", .asc⟩] := by
  decide

theorem spec_eq_builtIndex {row : BuildRow}
    (h : row.target.partialFilter = none ∨ row.target.options = none) :
    row.spec = builtIndex row := by
  rcases h with h | h <;> simp [BuildRow.spec, specOf, builtIndex, indexFrom, createOptions, h]

end Indexterity
