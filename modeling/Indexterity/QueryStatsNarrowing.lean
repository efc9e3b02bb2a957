import Indexterity.NarrowingProbe
import Indexterity.QueryStats

/-!
# What narrowing may conclude from the query statistics

A shape mentions the fields that were read of the first entry of its map key. Narrowing
drops no field that an entry behind a recurring shape names, whatever the entries count and
whatever the indexes are, exactly where every entry's fields are among those.
-/

namespace Indexterity

open Library

universe u
variable {τ : Type u}

/-! ## What is kept of the entries of a map key -/

variable {stats : StatsShape}

section Kept
variable (host : Host) (targets : List WorkloadTarget)

def QueryStatsEntry.counted (entry : QueryStatsEntry τ) : Int :=
  if classifyClient host entry.client = .INTERACTIVE then 0 else entry.metrics.execCount

theorem grown_addEntry {first : ReadEntry τ} {rest : List (ReadEntry τ)}
    (h : grown (addEntry host) (first :: rest) = some stats) :
    stats.namespaceKey = first.entry.query.namespaceKey ∧
      stats.columns = first.read.columns ∧
      stats.count = ((first :: rest).map fun item => item.entry.counted host).sum ∧
      stats.clients = (first :: rest).map fun item => item.entry.client := by
  rw [grown_cons, Option.some.injEq] at h
  subst h
  have hkept := List.foldlRecOn (motive := fun stats : StatsShape =>
    stats.namespaceKey = first.entry.query.namespaceKey ∧ stats.columns = first.read.columns)
    rest (fun stats item => addEntry host item (some stats)) (b := addEntry host first none)
    ⟨rfl, rfl⟩ fun _ h _ _ => h
  refine ⟨hkept.1, hkept.2, ?_, ?_⟩
  · exact read_foldl (fun _ _ => rfl) rest (addEntry host first none)
  · rw [List.map_cons, List.map_eq_flatMap]
    exact (List.foldl_hom StatsShape.clients fun _ _ => rfl).symm.trans List.foldl_append_eq_append

theorem statsShapes_spec {entries : List (QueryStatsEntry τ)} {key : String}
    (h : (key, stats) ∈ statsShapes host targets entries) :
    ∃ first rest,
      (readEntries targets entries).filter (fun item => item.mapKey = key) = first :: rest ∧
      grown (addEntry host) (first :: rest) = some stats := by
  rw [statsShapes] at h
  split_ifs at h
  · rw [mem_gatherAll_iff] at h
    cases hgroup : (readEntries targets entries).filter fun item => decide (item.mapKey = key) with
    | nil =>
      rw [hgroup] at h
      cases h
    | cons first rest => exact ⟨first, rest, rfl, hgroup ▸ h⟩
  · cases h

theorem lookup_collectQueryStats (entries : List (QueryStatsEntry τ)) (now : Int)
    (namespaceKey : String) :
    ((collectQueryStats host targets entries now).lookup namespaceKey).getD [] =
      ((statsShapes host targets entries).filter fun stats =>
        stats.2.namespaceKey = namespaceKey).map
          fun stats => stats.2.shape (entries.findSome? QueryStatsEntry.asOf) now := by
  rw [collectQueryStats, lookup_gatherAll, grown]
  refine (@List.foldl_hom _ _ _ (Option.getD · []) _ (fun shapes stats => shapes ++
    [stats.2.shape (entries.findSome? QueryStatsEntry.asOf) now]) _ _ fun _ _ => rfl).symm.trans ?_
  rw [List.foldl_append_eq_append, ← List.flatMap_def, ← List.map_eq_flatMap]
  rfl

end Kept

/-! ## Fields read and fields named -/

/-- Narrowing a collection's indexes by its shapes, each index alone as narrowing looks at
them, drops no key whose field is named by an entry behind a recurring shape that reaches
the index. -/
def DropsUnnamed (host : Host) (targets : List WorkloadTarget)
    (entries : List (QueryStatsEntry τ)) (now : Int) (namespaceKey : String)
    (existing : List IndexSpec) (options : WorkloadOptions) : Prop :=
  ∀ index ∈ existing,
    ∀ candidate ∈ recommendNarrowing host
        (((collectQueryStats host targets entries now).lookup namespaceKey).getD [])
        [index] options,
      ∀ field ∈ candidate.droppedKeys, ∀ stats ∈ statsShapes host targets entries,
        stats.2.namespaceKey = namespaceKey →
        isRecurring (stats.2.shape (entries.findSome? QueryStatsEntry.asOf) now) options = true →
        reaches index (stats.2.shape (entries.findSome? QueryStatsEntry.asOf) now) = true →
          ∀ item ∈ readEntries targets entries, item.mapKey = stats.1 →
            field ∉ item.entry.query.named
  deriving Decidable

def readQueries (targets : List WorkloadTarget) (queries : List (StatsQuery τ)) :
    List (StatsQuery τ × ReadQuery) :=
  queries.filterMap fun query => (query.wanted targets).map fun read => (query, read)

/-- All that a query names is under `$and` in the first query of its map key, unless nothing
is. -/
def NamesRead (targets : List WorkloadTarget) (queries : List (StatsQuery τ)) : Prop :=
  ∀ item ∈ readQueries targets queries,
    ∀ first ∈ (readQueries targets queries).find? fun first =>
        first.1.mapKey first.2 = item.1.mapKey item.2,
      first.1.conjuncts ≠ [] → ∀ field ∈ item.1.named, field ∈ first.1.conjuncts
  deriving Decidable

def ReadEntry.pair (item : ReadEntry τ) : StatsQuery τ × ReadQuery := (item.entry.query, item.read)

theorem pair_readEntries (targets : List WorkloadTarget) (entries : List (QueryStatsEntry τ)) :
    (readEntries targets entries).map ReadEntry.pair =
      readQueries targets (entries.map QueryStatsEntry.query) := by
  rw [readEntries, readQueries, List.map_filterMap, List.filterMap_map]
  apply List.filterMap_congr
  intro entry _
  simp only [Function.comp_apply, Option.map_map]
  rfl

theorem pair_filter_readEntries (targets : List WorkloadTarget)
    (entries : List (QueryStatsEntry τ)) (key : String) :
    (((readEntries targets entries).filter fun item => item.mapKey = key).map ReadEntry.pair) =
      (readQueries targets (entries.map QueryStatsEntry.query)).filter
        fun item => item.1.mapKey item.2 = key := by
  rw [← pair_readEntries, List.filter_map]
  rfl

variable {queries : List (StatsQuery τ)} {targets : List WorkloadTarget}

variable {item : StatsQuery τ × ReadQuery} {other : String}

theorem mem_readQueries_iff :
    item ∈ readQueries targets queries ↔
      item.1 ∈ queries ∧ item.1.wanted targets = some item.2 := by
  rw [readQueries, List.mem_filterMap]
  constructor
  · rintro ⟨query, hquery, hitem⟩
    obtain ⟨read, hread, rfl⟩ := Option.map_eq_some_iff.mp hitem
    exact ⟨hquery, hread⟩
  · rintro ⟨hquery, hread⟩
    exact ⟨item.1, hquery, by rw [hread]; rfl⟩

theorem mem_conjuncts_iff (h : item ∈ readQueries targets queries) (field : String) :
    field ∈ item.1.conjuncts ↔ field ∈ item.2.columns.mentioned := by
  obtain ⟨-, hwanted⟩ := mem_readQueries_iff.mp h
  rw [StatsQuery.wanted] at hwanted
  split_ifs at hwanted
  exact (StatsQuery.mem_mentioned_iff hwanted field).symm

theorem dropsUnnamed_of_namesRead {host : Host} {entries : List (QueryStatsEntry τ)}
    (h : NamesRead targets (entries.map QueryStatsEntry.query)) (now : Int) (namespaceKey : String)
    (existing : List IndexSpec) (options : WorkloadOptions) :
    DropsUnnamed host targets entries now namespaceKey existing options := by
  rintro index - candidate hcandidate field hfield ⟨key, stats⟩ hstats hnamespace hrecurring
    hreaches item hitem hkey hnamed
  obtain ⟨dropped, hnarrows⟩ := narrowed_of_mem hcandidate
  rw [hnarrows.droppedKeys] at hfield
  obtain ⟨droppedKey, hdropped, rfl⟩ := List.mem_map.mp hfield
  have hshape : stats.shape (entries.findSome? QueryStatsEntry.asOf) now ∈
      (((collectQueryStats host targets entries now).lookup namespaceKey).getD []).filter
        fun shape => isRecurring shape options := by
    rw [lookup_collectQueryStats]
    refine List.mem_filter.mpr ⟨List.mem_map.mpr ⟨(key, stats), ?_, rfl⟩, hrecurring⟩
    exact List.mem_filter.mpr ⟨hstats, decide_eq_true hnamespace⟩
  obtain ⟨first, rest, hgroup, hgrown⟩ := statsShapes_spec host targets hstats
  obtain ⟨-, hcolumns, -, -⟩ := grown_addEntry host hgrown
  have hpairs := pair_filter_readEntries targets entries key
  rw [hgroup] at hpairs
  have hmem : item.pair ∈ readQueries targets (entries.map QueryStatsEntry.query) :=
    pair_readEntries targets entries ▸ List.mem_map_of_mem hitem
  have hfirst : (readQueries targets (entries.map QueryStatsEntry.query)).find?
      (fun other => other.1.mapKey other.2 = item.pair.1.mapKey item.pair.2) =
        some first.pair := by
    rw [show item.pair.1.mapKey item.pair.2 = key from hkey, ← List.head?_filter, ← hpairs]
    rfl
  have hconjuncts : ∀ field, field ∈ first.pair.1.conjuncts ↔
      field ∈ mentionedFields (stats.shape (entries.findSome? QueryStatsEntry.asOf) now) := by
    intro field
    rw [mem_conjuncts_iff (List.mem_of_find?_eq_some hfirst), ReadEntry.pair, ← hcolumns]
    rfl
  -- a reached shape has a first key, since the index has one
  have hread : first.pair.1.conjuncts ≠ [] := by
    cases hhead : (fieldNames (esrKeys
        (stats.shape (entries.findSome? QueryStatsEntry.asOf) now))).head? with
    | none =>
      rw [reaches, hhead, IndexSpec.fields, hnarrows.keys] at hreaches
      obtain ⟨kept, more, hkept⟩ := List.exists_cons_of_ne_nil hnarrows.kept
      simp [hkept] at hreaches
    | some leading =>
      exact List.ne_nil_of_mem ((hconjuncts leading).mpr
        (mem_mentionedFields_of_esr (List.mem_of_mem_head? hhead)))
  exact hnarrows.unmentioned droppedKey hdropped _ hshape hreaches ((hconjuncts _).mp
    (h item.pair hmem first.pair hfirst hread droppedKey.field hnamed))

/-! ## Entries of one key that recur -/

section Probe
variable (host : Host) (targets : List WorkloadTarget) (key : String)

def ranTimes (execCount : Int) (query : StatsQuery τ) : QueryStatsEntry τ where
  query := query
  client := ⟨none, none⟩
  asOf := none
  metrics := {
    execCount := execCount
    firstSeenTimestamp := none
    keysExamined := some 0
    docsExamined := none
    hasSortStage := none
    queryExecKeysExamined := none
    queryExecDocsExamined := none
    queryPlannerHasSortStage := none }

def probe (query : StatsQuery τ) : QueryStatsEntry τ :=
  ranTimes (if (query.wanted targets).map query.mapKey = some key then 1 else 0) query

theorem map_query_probe (queries : List (StatsQuery τ)) :
    (queries.map (probe targets key)).map QueryStatsEntry.query = queries := by
  rw [List.map_map]
  exact List.map_id queries

theorem counted_probe {item : ReadEntry τ}
    (h : item ∈ readEntries targets (queries.map (probe targets key))) :
    item.entry.client = ⟨none, none⟩ ∧
      item.entry.counted host = if item.mapKey = key then 1 else 0 := by
  obtain ⟨entry, hentry, hread⟩ := List.mem_filterMap.mp h
  obtain ⟨query, -, rfl⟩ := List.mem_map.mp hentry
  obtain ⟨read, hwanted, rfl⟩ := Option.map_eq_some_iff.mp hread
  refine ⟨rfl, ?_⟩
  have hwanted' : query.wanted targets = some read := hwanted
  simp [QueryStatsEntry.counted, probe, ranTimes, classifyClient, hwanted', ReadEntry.mapKey]

section
variable (h : (other, stats) ∈ statsShapes host targets (queries.map (probe targets key)))
include h

theorem count_probe :
    1 ≤ stats.count ↔ other = key := by
  obtain ⟨first, rest, hgroup, hgrown⟩ := statsShapes_spec host targets h
  obtain ⟨-, -, hcount, -⟩ := grown_addEntry host hgrown
  have hcounted : ∀ item ∈ first :: rest,
      item.entry.counted host = if other = key then 1 else 0 := by
    intro item hitem
    rw [← hgroup] at hitem
    obtain ⟨hin, hkey⟩ := List.mem_filter.mp hitem
    rw [(counted_probe host targets key hin).2, of_decide_eq_true hkey]
  rw [hcount, List.map_congr_left hcounted, List.map_const', List.sum_replicate]
  split_ifs with hother
  · simp [hother]
  · simp [hother]

theorem worth_probe :
    isWorthIndexing host stats.clients = true := by
  obtain ⟨first, rest, hgroup, hgrown⟩ := statsShapes_spec host targets h
  obtain ⟨-, -, -, hclients⟩ := grown_addEntry host hgrown
  have hfirst : first ∈ readEntries targets (queries.map (probe targets key)) :=
    List.mem_of_mem_filter (hgroup ▸ List.mem_cons_self)
  rw [hclients, List.map_cons, (counted_probe host targets key hfirst).1]
  simp [isWorthIndexing, classifyClient]

end

theorem exists_probe {first : StatsQuery τ × ReadQuery} {rest : List (StatsQuery τ × ReadQuery)}
    (h : (readQueries targets queries).filter (fun item => item.1.mapKey item.2 = key) =
      first :: rest) :
    ∃ stats, (key, stats) ∈ statsShapes host targets (queries.map (probe targets key)) ∧
      stats.namespaceKey = first.1.namespaceKey ∧ stats.columns = first.2.columns := by
  have hpairs := pair_filter_readEntries targets (queries.map (probe targets key)) key
  rw [map_query_probe, h, List.map_eq_cons_iff] at hpairs
  obtain ⟨item, items, hgroup, rfl, -⟩ := hpairs
  obtain ⟨entry, hentry, -⟩ := List.mem_filterMap.mp
    (List.mem_of_mem_filter (hgroup ▸ List.mem_cons_self : item ∈ List.filter _ _))
  have hplans : (queries.map (probe targets key)).any
      (fun entry => (planMetricsOf entry.metrics).keysExamined.isSome) = true := by
    refine List.any_eq_true.mpr ⟨entry, hentry, ?_⟩
    obtain ⟨query, -, rfl⟩ := List.mem_map.mp hentry
    rfl
  have hgrown := grown_cons (addEntry host) item items
  refine ⟨_, ?_, (grown_addEntry host hgrown).1, (grown_addEntry host hgrown).2.1⟩
  rw [statsShapes, if_pos hplans, mem_gatherAll_iff, hgroup, hgrown]

end Probe

theorem namesRead_of_dropsUnnamed {host : Host}
    (h : ∀ key namespaceKey index, DropsUnnamed host targets (queries.map (probe targets key)) 0
      namespaceKey [index] onceOptions) : NamesRead targets queries := by
  intro item hitem first hfirst hread field hnamed
  by_contra hunread
  set key := item.1.mapKey item.2 with hkey
  obtain ⟨rest, hgroup⟩ : ∃ rest, (readQueries targets queries).filter
      (fun item => item.1.mapKey item.2 = key) = first :: rest := by
    rw [Option.mem_def, ← List.head?_filter] at hfirst
    exact List.head?_eq_some_iff.mp hfirst
  obtain ⟨stats, hstats, hnamespace, hcolumns⟩ := exists_probe host targets key hgroup
  set entries := queries.map (probe targets key)
  set shape := stats.shape (entries.findSome? QueryStatsEntry.asOf) 0 with hshape
  have hmentioned : ∀ field, field ∈ first.1.conjuncts ↔ field ∈ mentionedFields shape := by
    intro field
    rw [mem_conjuncts_iff (List.mem_of_find?_eq_some hfirst), ← hcolumns]
    rfl
  have hrecurs : isRecurring shape onceOptions = true :=
    (isRecurring_once_iff shape).mpr ((count_probe host targets key hstats).mpr rfl)
  obtain ⟨named, hnamed'⟩ := List.exists_mem_of_ne_nil _ hread
  obtain ⟨leading, hleading⟩ := exists_head?_of_mentionedFields
    (List.ne_nil_of_mem ((hmentioned named).mp hnamed'))
  have hin : shape ∈ ((collectQueryStats host targets entries 0).lookup
      first.1.namespaceKey).getD [] := by
    rw [lookup_collectQueryStats]
    exact List.mem_map.mpr
      ⟨(key, stats), List.mem_filter.mpr ⟨hstats, decide_eq_true hnamespace⟩, rfl⟩
  -- no other shape recurs, and this one does not mention the field
  have hunmentioned : ∀ other ∈ ((collectQueryStats host targets entries 0).lookup
      first.1.namespaceKey).getD [], isRecurring other onceOptions = true →
      reaches (ascending "" [leading, field]) other = true → field ∉ mentionedFields other := by
    intro other hother hrecurring _
    rw [lookup_collectQueryStats] at hother
    obtain ⟨⟨otherKey, otherStats⟩, hmem, rfl⟩ := List.mem_map.mp hother
    have hotherStats := List.mem_of_mem_filter hmem
    rw [isRecurring_once_iff] at hrecurring
    obtain rfl := (count_probe host targets key hotherStats).mp hrecurring
    have heq : otherStats = stats := by
      obtain ⟨a, as, hgroupA, hgrownA⟩ := statsShapes_spec host targets hotherStats
      obtain ⟨b, bs, hgroupB, hgrownB⟩ := statsShapes_spec host targets hstats
      rw [← hgroupA] at hgrownA
      rw [← hgroupB, hgrownA] at hgrownB
      exact Option.some.inj hgrownB
    rw [heq]
    exact fun hmentions => hunread ((hmentioned field).mpr hmentions)
  obtain ⟨hreaches, candidate, hcandidate, hdropped⟩ := drops_unmentioned
    hin hrecurs (worth_probe host targets key hstats) hleading hunmentioned
  -- the entry that names it is one of the key's
  have hpairs := pair_readEntries targets entries
  rw [map_query_probe] at hpairs
  obtain ⟨readEntry, hreadEntry, rfl⟩ := List.mem_map.mp (hpairs ▸ hitem)
  exact h key first.1.namespaceKey (ascending "" [leading, field]) _ List.mem_cons_self candidate
    hcandidate field hdropped (key, stats) hstats hnamespace hrecurs hreaches readEntry hreadEntry
    rfl hnamed

/-- Whatever the entries count and whoever ran them, and for all indexes and options,
narrowing drops no named field exactly where the queries' fields are read. -/
theorem dropsUnnamed_iff (host : Host) (targets : List WorkloadTarget)
    (queries : List (StatsQuery τ)) :
    (∀ entries : List (QueryStatsEntry τ), entries.map QueryStatsEntry.query = queries →
      ∀ now namespaceKey existing options,
        DropsUnnamed host targets entries now namespaceKey existing options) ↔
      NamesRead targets queries := by
  constructor
  · intro h
    exact namesRead_of_dropsUnnamed fun key namespaceKey index =>
      h _ (map_query_probe targets key queries) 0 namespaceKey [index] onceOptions
  · rintro h entries rfl now namespaceKey existing options
    exact dropsUnnamed_of_namesRead h now namespaceKey existing options

def ordersQuery (filter : Members Empty) (sort : Option (Members Empty)) : StatsQuery Empty :=
  ⟨"shop", "orders", some filter, sort, none⟩

def andQuery : StatsQuery Empty :=
  ordersQuery [("$and", .array [.document [("status", .text "?string")],
    .document [("total", .document [("$gt", .text "?number")])]])]
    (some [("created", .number (-1))])

theorem dropsUnnamed_andQuery :
    NamesRead [⟨"shop", "orders"⟩] [andQuery] ∧
      DropsUnnamed decimalHost [⟨"shop", "orders"⟩] [ranTimes 100 andQuery] 0
        (workloadKey "shop" "orders") [ascending "status_region" ["status", "region"]]
        onceOptions :=
  have hread : NamesRead [⟨"shop", "orders"⟩] [andQuery] := by decide
  ⟨hread, (dropsUnnamed_iff decimalHost [⟨"shop", "orders"⟩] [andQuery]).mpr hread _ rfl _ _ _ _⟩

def orQuery : StatsQuery Empty :=
  ordersQuery [("status", .text "?string"), ("$or", .array [
    .document [("region", .text "?string")], .document [("total", .text "?number")]])] none

def commaQueries : List (StatsQuery Empty) :=
  [ordersQuery [("status,region", .text "?string")] none,
    ordersQuery [("status", .text "?string"), ("region", .text "?string")] none]

/-- The fields of an `$or` are lost, and of two queries of one map key those of the
second. -/
theorem drops_named :
    ¬ DropsUnnamed decimalHost [⟨"shop", "orders"⟩] [ranTimes 100 orQuery] 0
        (workloadKey "shop" "orders") [ascending "status_region" ["status", "region"]]
        onceOptions ∧
      ¬ DropsUnnamed decimalHost [⟨"shop", "orders"⟩] (commaQueries.map (ranTimes 100)) 0
        (workloadKey "shop" "orders") [ascending "comma_region" ["status,region", "region"]]
        onceOptions := by
  constructor <;> decide

end Indexterity
