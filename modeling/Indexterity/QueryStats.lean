import Indexterity.Narrowing
import Indexterity.Library.Document
import Indexterity.Library.Gather
import Indexterity.Library.Leading

/-!
# Shapes from the query statistics of a MongoDB server

`collectQueryStats` of `mongo/collector.ts`: the fields of a filter in the roles of equality
and range, the leading stages of a pipeline, and the merge of the entries of one shape over
clients under a text of their fields. The fields of `$or` and `$nor` are not read.
-/

namespace Indexterity

open Library

section
universe u

/-! ## Filters -/

/-- The fields of a filter by their roles, in the order they are pushed. -/
structure Predicates where
  equality : List String
  range : List String
deriving DecidableEq

def Predicates.none : Predicates := ⟨[], []⟩

def Predicates.append (a b : Predicates) : Predicates :=
  ⟨a.equality ++ b.equality, a.range ++ b.range⟩

def RANGE_OPS : List String :=
  ["$gt", "$gte", "$lt", "$lte", "$ne", "$nin", "$in", "$exists", "$regex"]

def startsWithDollar (field : String) : Bool := field.toList.head? == some '$'

section Filters
variable {τ : Type u}

def isRangePredicate : Value τ → Bool
  | .document members => members.any fun member => RANGE_OPS.contains member.1
  | _ => false

mutual

def collectPredicates : Members τ → Predicates
  | [] => .none
  | (field, value) :: members =>
    (if field = "$and" then collectClauses value
    else if startsWithDollar field then .none
    else if isRangePredicate value then ⟨[], [field]⟩
    else ⟨[field], []⟩).append (collectPredicates members)

/-- The clauses of an `$and`; what is no list is left out like any other operator. -/
def collectClauses : Value τ → Predicates
  | .array items => collectItems items
  | _ => .none

def collectItems : List (Value τ) → Predicates
  | [] => .none
  | item :: items => (collectClause item).append (collectItems items)

def collectClause : Value τ → Predicates
  | .document members => collectPredicates members
  | _ => .none

end

/-- The members of what `isRecord` lets through; values of the driver's own types have
none. -/
def record? : Value τ → Option (Members τ)
  | .document members => some members
  | .typed _ => some []
  | _ => none

def sortDirectionOf : Value τ → SortDirection
  | .number value => if value = -1 then .desc else .asc
  | _ => .asc

def sortKeysOf (sortSpec : Members τ) : List SortKey :=
  sortSpec.map fun member => ⟨member.1, sortDirectionOf member.2⟩

def dedupePredicates (predicates : Predicates) : Predicates :=
  let equality := firstsBy id predicates.equality
  ⟨equality, (firstsBy id predicates.range).filter fun field => !equality.contains field⟩

/-! ## Pipelines -/

/-- The loop of `pipelineShape`, up to the first stage that is neither. -/
def leadingStages : List (Members τ) → Predicates → List SortKey → Predicates × List SortKey
  | [], predicates, sort => (predicates, sort)
  | stage :: stages, predicates, sort =>
    match (stage.lookup "$match").bind record? with
    | some filter => leadingStages stages (predicates.append (collectPredicates filter)) sort
    | none =>
      match (stage.lookup "$sort").bind record? with
      | some sortStage => leadingStages stages predicates (sort ++ sortKeysOf sortStage)
      | none => (predicates, sort)

def ShapeColumns.isEmpty (columns : ShapeColumns) : Bool :=
  columns.equality.isEmpty && columns.range.isEmpty && columns.sort.isEmpty

def pipelineShape (pipeline : List (Members τ)) : Option ShapeColumns :=
  let leading := leadingStages pipeline .none []
  let predicates := dedupePredicates leading.1
  let columns : ShapeColumns := ⟨predicates.equality, leading.2, predicates.range⟩
  if columns.isEmpty then none else some columns

/-- `LookupJoin`, with the collection it is `from`. -/
structure LookupJoin where
  collection : String
  foreignField : String
deriving DecidableEq

def lookupJoin (stage : Members τ) : Option LookupJoin :=
  ((stage.lookup "$lookup").bind record?).bind fun lookup =>
    match lookup.lookup "from", lookup.lookup "foreignField" with
    | some (.text collection), some (.text foreignField) => some ⟨collection, foreignField⟩
    | _, _ => none

def lookupJoins (pipeline : List (Members τ)) : List LookupJoin :=
  firstsBy id (pipeline.filterMap lookupJoin)

end Filters

/-! ## Entries -/

/-- The query shape of an entry, as the server lists it. -/
structure StatsQuery (τ : Type u) where
  db : String
  coll : String
  filter : Option (Members τ)
  sort : Option (Members τ)
  pipeline : Option (List (Members τ))

/-- Sums, and the `true` of a tally. The metrics of a plan stand at the top, or under
`queryExec` and `queryPlanner`. -/
structure QueryStatsMetrics where
  execCount : Int
  firstSeenTimestamp : Option Int
  keysExamined : Option ℚ
  docsExamined : Option ℚ
  hasSortStage : Option ℚ
  queryExecKeysExamined : Option ℚ
  queryExecDocsExamined : Option ℚ
  queryPlannerHasSortStage : Option ℚ

structure PlanMetrics where
  keysExamined : Option ℚ
  docsExamined : Option ℚ
  hasSortStage : Option ℚ

def planMetricsOf (metrics : QueryStatsMetrics) : PlanMetrics where
  keysExamined := metrics.keysExamined.or metrics.queryExecKeysExamined
  docsExamined := metrics.docsExamined.or metrics.queryExecDocsExamined
  hasSortStage := metrics.hasSortStage.or metrics.queryPlannerHasSortStage

structure QueryStatsEntry (τ : Type u) where
  query : StatsQuery τ
  client : QueryClient
  asOf : Option Int
  metrics : QueryStatsMetrics

structure ReadQuery where
  columns : ShapeColumns
  lookups : List LookupJoin
deriving DecidableEq

def sortIsServable (hasSortStage : Bool) (sort : List SortKey) : Bool :=
  hasSortStage && decide (sort.length ≠ 0)

def lookupText (join : LookupJoin) : String := join.collection ++ "." ++ join.foreignField

def shapeMapKey (read : ReadQuery) : String :=
  joined ',' read.columns.equality ++ "|" ++ joined ',' (read.columns.sort.map sortText) ++
    "|" ++ joined ',' read.columns.range ++ "|" ++ joined ',' (read.lookups.map lookupText)

section Collect
variable {τ : Type u}

namespace StatsQuery

def namespaceKey (query : StatsQuery τ) : String := workloadKey query.db query.coll

/-- The fields and joins of an entry, or `none` where the loop goes on to the next. -/
def read (query : StatsQuery τ) : Option ReadQuery :=
  let read : Option ReadQuery :=
    match query.filter with
    | some filter =>
      let predicates := dedupePredicates (collectPredicates (parsedRecord filter))
      let sort := (query.sort.map fun sort => sortKeysOf (parsedRecord sort)).getD []
      some ⟨⟨predicates.equality, sort, predicates.range⟩, []⟩
    | none => query.pipeline.bind fun pipeline =>
      let stages := pipeline.map parsedRecord
      let lookups := lookupJoins stages
      match pipelineShape stages with
      | none => if lookups.isEmpty then none else some ⟨⟨[], [], []⟩, lookups⟩
      | some shape => some ⟨shape, lookups⟩
  read.filter fun read => !(read.columns.isEmpty && read.lookups.isEmpty)

end StatsQuery

structure StatsShape where
  namespaceKey : String
  columns : ShapeColumns
  lookups : List LookupJoin
  docsExamined : ℚ
  clients : List QueryClient
  collscan : Bool
  sortedInMemory : Bool
  count : Int
  firstSeen : Option Int

def StatsQuery.wanted (targets : List WorkloadTarget) (query : StatsQuery τ) : Option ReadQuery :=
  if targets.any fun target =>
      workloadKey target.database target.collection == query.namespaceKey then query.read
  else none

def StatsQuery.mapKey (query : StatsQuery τ) (read : ReadQuery) : String :=
  query.namespaceKey ++ "\x00" ++ shapeMapKey read

structure ReadEntry (τ : Type u) where
  entry : QueryStatsEntry τ
  read : ReadQuery

def ReadEntry.mapKey (item : ReadEntry τ) : String := item.entry.query.mapKey item.read

def readEntries (targets : List WorkloadTarget) (entries : List (QueryStatsEntry τ)) :
    List (ReadEntry τ) :=
  entries.filterMap fun entry => (entry.query.wanted targets).map fun read => ⟨entry, read⟩

variable (host : Host)

def addEntry (item : ReadEntry τ) (prev : Option StatsShape) : StatsShape :=
  let metrics := item.entry.metrics
  let plan := planMetricsOf metrics
  let docsExamined := plan.docsExamined.getD 0
  let collscan := decide (plan.keysExamined.getD 0 = 0) && decide (0 < docsExamined)
  let sortedInMemory :=
    sortIsServable (decide (0 < plan.hasSortStage.getD 0)) item.read.columns.sort
  let interactive := classifyClient host item.entry.client = .INTERACTIVE
  let countedExecs := if interactive then 0 else metrics.execCount
  let countedDocs := if interactive then 0 else docsExamined
  match prev with
  | none =>
    { namespaceKey := item.entry.query.namespaceKey
      columns := item.read.columns
      lookups := item.read.lookups
      docsExamined := countedDocs
      clients := [item.entry.client]
      collscan := collscan
      sortedInMemory := sortedInMemory
      count := countedExecs
      firstSeen := metrics.firstSeenTimestamp }
  | some prev =>
    { prev with
      count := prev.count + countedExecs
      docsExamined := prev.docsExamined + countedDocs
      clients := prev.clients ++ [item.entry.client]
      collscan := prev.collscan || collscan
      sortedInMemory := prev.sortedInMemory || sortedInMemory
      firstSeen :=
        match metrics.firstSeenTimestamp, prev.firstSeen with
        | none, seen => seen
        | some seen, none => some seen
        | some seen, some earlier => if seen < earlier then some seen else some earlier }

/-- The shapes by their map keys. A store without plan metrics has none. -/
def statsShapes (targets : List WorkloadTarget) (entries : List (QueryStatsEntry τ)) :
    List (String × StatsShape) :=
  if entries.any fun entry => (planMetricsOf entry.metrics).keysExamined.isSome then
    gatherAll ReadEntry.mapKey (addEntry host) (readEntries targets entries)
  else []

def observedFor (first asOf : Option Int) (now : Int) : Option ℚ :=
  first.bind fun first =>
    let hours : ℚ := ((asOf.getD now - first : Int) : ℚ) / 3600000
    if 0 < hours then some hours else none

def StatsShape.shape (asOf : Option Int) (now : Int) (stats : StatsShape) : QueryShape where
  equality := stats.columns.equality
  sort := stats.columns.sort
  range := stats.columns.range
  collscan := stats.collscan
  sortedInMemory := stats.sortedInMemory
  count := stats.count
  observedForHours := observedFor stats.firstSeen asOf now
  clients := stats.clients
  constants := []

def collectQueryStats (targets : List WorkloadTarget) (entries : List (QueryStatsEntry τ))
    (now : Int) : List (String × List QueryShape) :=
  let asOf := entries.findSome? QueryStatsEntry.asOf
  gatherAll (fun stats => stats.2.namespaceKey)
    (fun stats shapes => shapes.getD [] ++ [stats.2.shape asOf now])
    (statsShapes host targets entries)

end Collect

end

/-!
## The fields of a query and those that are read of it

A query names the fields of its filter, of the leading `$match` and `$sort` stages of its
pipeline and of its sort, under `$and`, `$or` and `$nor`. What is read of it are the fields
under `$and` alone.
-/

universe u
variable {τ : Type u}

/-! ## The fields of a query -/

section Under
variable (operators : List String)

mutual

def fieldsUnder : Members τ → List String
  | [] => []
  | (field, value) :: members =>
    (if field ∈ operators then clauseFields value
    else if startsWithDollar field then []
    else [field]) ++ fieldsUnder members

def clauseFields : Value τ → List String
  | .array items => itemFields items
  | _ => []

def itemFields : List (Value τ) → List String
  | [] => []
  | item :: items => documentFields item ++ itemFields items

def documentFields : Value τ → List String
  | .document members => fieldsUnder members
  | _ => []

end

/-- The fields of the leading `$match` and `$sort` stages. -/
def stageFields : List (Members τ) → List String
  | [] => []
  | stage :: stages =>
    match (stage.lookup "$match").bind record? with
    | some filter => fieldsUnder operators filter ++ stageFields stages
    | none =>
      match (stage.lookup "$sort").bind record? with
      | some sort => sort.map Prod.fst ++ stageFields stages
      | none => []

end Under

/-- The fields of a query's filter, its sort and the leading stages of its pipeline. -/
def StatsQuery.named (query : StatsQuery τ) : List String :=
  (query.filter.map (fieldsUnder ["$and", "$or", "$nor"])).getD [] ++
    (query.sort.map (·.map Prod.fst)).getD [] ++
    (query.pipeline.map (stageFields ["$and", "$or", "$nor"])).getD []

/-- The fields under no `$or` and no `$nor`, of the documents as objects list them. A
pipeline is looked at where there is no filter. -/
def StatsQuery.conjuncts (query : StatsQuery τ) : List String :=
  match query.filter with
  | some filter =>
    fieldsUnder ["$and"] (parsedRecord filter) ++
      (query.sort.map fun sort => (parsedRecord sort).map Prod.fst).getD []
  | none => (query.pipeline.map fun pipeline =>
      stageFields ["$and"] (pipeline.map parsedRecord)).getD []

/-! ## The fields that are read -/

def Predicates.fields (predicates : Predicates) : List String :=
  predicates.equality ++ predicates.range

theorem Predicates.mem_fields_append (a b : Predicates) (field : String) :
    field ∈ (a.append b).fields ↔ field ∈ a.fields ∨ field ∈ b.fields := by
  simp only [fields, append, List.mem_append]
  tauto

mutual

theorem mem_collectPredicates_iff (field : String) : ∀ members : Members τ,
    field ∈ (collectPredicates members).fields ↔ field ∈ fieldsUnder ["$and"] members
  | [] => by simp [collectPredicates, fieldsUnder, Predicates.fields, Predicates.none]
  | (name, value) :: members => by
    have hclauses := mem_collectClauses_iff field value
    rw [collectPredicates, fieldsUnder, Predicates.mem_fields_append, List.mem_append,
      mem_collectPredicates_iff field members]
    refine or_congr ?_ Iff.rfl
    by_cases hand : name = "$and"
    · simp only [hand, List.mem_singleton, if_true, hclauses]
    by_cases hdollar : startsWithDollar name = true
    · simp [hand, hdollar, Predicates.fields, Predicates.none]
    · simp only [hand, hdollar, List.mem_singleton, if_false, Bool.false_eq_true]
      split_ifs <;> simp [Predicates.fields]

theorem mem_collectClauses_iff (field : String) : ∀ value : Value τ,
    field ∈ (collectClauses value).fields ↔ field ∈ clauseFields ["$and"] value
  | .array items => mem_collectItems_iff field items
  | .null | .bool _ | .number _ | .text _ | .document _ | .typed _ => by
    simp [collectClauses, clauseFields, Predicates.fields, Predicates.none]

theorem mem_collectItems_iff (field : String) : ∀ items : List (Value τ),
    field ∈ (collectItems items).fields ↔ field ∈ itemFields ["$and"] items
  | [] => by simp [collectItems, itemFields, Predicates.fields, Predicates.none]
  | item :: items => by
    rw [collectItems, itemFields, Predicates.mem_fields_append, List.mem_append,
      mem_collectClause_iff field item, mem_collectItems_iff field items]

theorem mem_collectClause_iff (field : String) : ∀ value : Value τ,
    field ∈ (collectClause value).fields ↔ field ∈ documentFields ["$and"] value
  | .document members => mem_collectPredicates_iff field members
  | .null | .bool _ | .number _ | .text _ | .array _ | .typed _ => by
    simp [collectClause, documentFields, Predicates.fields, Predicates.none]

end

theorem fieldNames_sortKeysOf (sortSpec : Members τ) :
    fieldNames (sortKeysOf sortSpec) = sortSpec.map Prod.fst := by
  rw [fieldNames, sortKeysOf, List.map_map]
  rfl

theorem mem_leadingStages_iff (field : String) (stages : List (Members τ))
    (predicates : Predicates) (sort : List SortKey) :
    (field ∈ (leadingStages stages predicates sort).1.fields ∨
        field ∈ fieldNames (leadingStages stages predicates sort).2) ↔
      field ∈ predicates.fields ∨ field ∈ fieldNames sort ∨
        field ∈ stageFields ["$and"] stages := by
  induction stages generalizing predicates sort with
  | nil => simp [leadingStages, stageFields]
  | cons stage stages ih =>
    rw [leadingStages, stageFields]
    cases (stage.lookup "$match").bind record? with
    | some filter =>
      simp only [ih, Predicates.mem_fields_append, mem_collectPredicates_iff, List.mem_append]
      tauto
    | none =>
      cases (stage.lookup "$sort").bind record? with
      | some sortStage =>
        have hsort : fieldNames (sort ++ sortKeysOf sortStage) =
            fieldNames sort ++ sortStage.map Prod.fst := by
          rw [← fieldNames_sortKeysOf]
          exact List.map_append
        simp only [ih, hsort, List.mem_append]
        tauto
      | none => simp

theorem mem_dedupePredicates_iff (predicates : Predicates) (field : String) :
    field ∈ (dedupePredicates predicates).fields ↔ field ∈ predicates.fields := by
  have hfirsts : ∀ names : List String, field ∈ firstsBy id names ↔ field ∈ names := by
    intro names
    simpa using mem_map_firstsBy id names field
  simp only [dedupePredicates, Predicates.fields, List.mem_append, List.mem_filter, hfirsts,
    Bool.not_eq_true', List.contains_eq_mem, decide_eq_false_iff_not]
  tauto

def ShapeColumns.mentioned (columns : ShapeColumns) : List String :=
  columns.equality ++ fieldNames columns.sort ++ columns.range

theorem ShapeColumns.isEmpty_iff (columns : ShapeColumns) :
    columns.isEmpty = true ↔ columns.mentioned = [] := by
  simp only [isEmpty, mentioned, fieldNames, Bool.and_eq_true, List.isEmpty_iff,
    List.append_eq_nil_iff, List.map_eq_nil_iff]
  tauto

theorem mem_mentioned_dedupe (predicates : Predicates) (sort : List SortKey) (field : String) :
    field ∈ (⟨(dedupePredicates predicates).equality, sort,
        (dedupePredicates predicates).range⟩ : ShapeColumns).mentioned ↔
      field ∈ predicates.fields ∨ field ∈ fieldNames sort := by
  rw [← mem_dedupePredicates_iff]
  simp only [ShapeColumns.mentioned, Predicates.fields, List.mem_append]
  tauto

theorem mem_pipelineShape_iff (stages : List (Members τ)) (field : String) :
    (∃ columns ∈ pipelineShape stages, field ∈ columns.mentioned) ↔
      field ∈ stageFields ["$and"] stages := by
  have hnone : field ∉ Predicates.none.fields := List.not_mem_nil
  have hleading := mem_leadingStages_iff field stages .none []
  have hunsorted : field ∉ fieldNames [] := List.not_mem_nil
  rw [or_iff_right hnone, or_iff_right hunsorted] at hleading
  rw [← hleading, ← mem_mentioned_dedupe, pipelineShape]
  split_ifs with hempty
  · simp [(ShapeColumns.isEmpty_iff _).mp hempty]
  · simp

theorem StatsQuery.mem_mentioned_iff {query : StatsQuery τ} {read : ReadQuery}
    (h : query.read = some read) (field : String) :
    field ∈ read.columns.mentioned ↔ field ∈ query.conjuncts := by
  rw [StatsQuery.read, Option.filter_eq_some_iff] at h
  obtain ⟨hread, -⟩ := h
  rw [conjuncts]
  cases hfilter : query.filter with
  | some filter =>
    simp only [hfilter, Option.some.injEq] at hread
    rw [← hread, mem_mentioned_dedupe, mem_collectPredicates_iff, List.mem_append]
    cases query.sort with
    | none => rfl
    | some sort =>
      simp only [Option.map_some, Option.getD_some, fieldNames_sortKeysOf]
  | none =>
    cases hpipeline : query.pipeline with
    | none => simp [hfilter, hpipeline] at hread
    | some pipeline =>
      simp only [hfilter, hpipeline, Option.bind_some] at hread
      rw [Option.map_some, Option.getD_some, ← mem_pipelineShape_iff]
      cases hshape : pipelineShape (pipeline.map parsedRecord) with
      | none =>
        rw [hshape] at hread
        split_ifs at hread
        obtain rfl := Option.some.inj hread
        simp [ShapeColumns.mentioned, fieldNames]
      | some columns =>
        rw [hshape] at hread
        obtain rfl := Option.some.inj hread
        simp

end Indexterity
