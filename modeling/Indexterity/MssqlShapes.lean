import Indexterity.QueryShape
import Indexterity.Library.Consecutive
import Indexterity.Library.Gather

/-!
# Query Store plans folded into shapes

The fold of `mssql/workload.ts`: `shapesFromFacts` adds up the executions and the I/O of the
plans under the text `shapeKey` makes of a shape's columns. A missing-index suggestion of a plan is folded like a
shape the plan was observed with. Numbers are exact.
-/

namespace Indexterity

open Library

/-- One table's shape in one plan, `PlanTableShape`. Absent constants are none. -/
structure PlanTableShape extends ShapeColumns where
  table : String
  collscan : Bool
  sortedInMemory : Bool
  constants : List (String × ConstantValue)
deriving DecidableEq

structure MissingIndexSuggestion where
  table : String
  equality : List String
  range : List String
deriving DecidableEq

structure PlanShapeFacts where
  shapes : List PlanTableShape
  missing : List MissingIndexSuggestion
deriving DecidableEq

/-- A `Date` by its milliseconds, if it is a valid one, or a text. -/
inductive SeenAt where
  | date (ms : Option Int)
  | text (value : String)
deriving DecidableEq

structure FactRow where
  facts : PlanShapeFacts
  execs : Int
  totalIo : ℚ
  firstSeen : Option SeenAt
deriving DecidableEq

/-! ## The fold -/

structure Accumulated extends ShapeColumns where
  collscan : Bool
  sortedInMemory : Bool
  count : Int
  totalIo : ℚ
  firstSeenMs : Option Int
  constants : List (String × ConstantValue)
deriving DecidableEq

structure CostedShape where
  shape : QueryShape
  docsExamined : Int
deriving DecidableEq

def shapeKey (shape : ShapeColumns) : String :=
  joined '\x00' [joined ',' (sortedStrings shape.equality), joined ',' (shape.sort.map sortText),
    joined ',' (sortedStrings shape.range)]

def MissingIndexSuggestion.shape (suggestion : MissingIndexSuggestion) : PlanTableShape where
  equality := suggestion.equality
  sort := []
  range := suggestion.range
  table := suggestion.table
  collscan := false
  sortedInMemory := false
  constants := []

def PlanShapeFacts.shown (facts : PlanShapeFacts) : List PlanTableShape :=
  facts.shapes ++ facts.missing.map MissingIndexSuggestion.shape

def hoursBetween (first : Option Int) (now : Int) : Option ℚ :=
  first.bind fun start =>
    let hours : ℚ := ((now - start : Int) : ℚ) / 3600000
    if 0 < hours then some hours else none

variable {database table : String} {targets : List WorkloadTarget} {rows : List FactRow}
variable {seen : PlanTableShape × FactRow}

variable {accumulated : Accumulated} {a b : ShapeColumns} {plans : List PlanShapeFacts}

section Fold
variable (dateParse : String → Option Int)

def SeenAt.ms : SeenAt → Option Int
  | .date ms => ms
  | .text value => dateParse value

def FactRow.firstMs (row : FactRow) : Option Int := row.firstSeen.bind (SeenAt.ms dateParse)

def accumulate (shape : PlanTableShape) (row : FactRow) : Option Accumulated → Accumulated
  | none =>
    { toShapeColumns := shape.toShapeColumns
      collscan := shape.collscan
      sortedInMemory := shape.sortedInMemory
      count := row.execs
      totalIo := row.totalIo
      firstSeenMs := row.firstMs dateParse
      constants := shape.constants }
  | some existing =>
    { existing with
      count := existing.count + row.execs
      totalIo := existing.totalIo + row.totalIo
      collscan := existing.collscan || shape.collscan
      sortedInMemory := existing.sortedInMemory || shape.sortedInMemory
      firstSeenMs :=
        match row.firstMs dateParse, existing.firstSeenMs with
        | none, seen => seen
        | some ms, none => some ms
        | some ms, some seen => some (min seen ms)
      constants := existing.constants.filter fun (field, value) =>
        decide (shape.constants.lookup field = some value) }

def wantedKey (targets : List WorkloadTarget) (database table : String) : Option String :=
  if targets.any fun target => target.database == database && target.collection == table then
    some (workloadKey database table)
  else none

abbrev Accumulators := List (String × List (String × Accumulated))

def foldShape (key : String) (shape : PlanTableShape) (row : FactRow)
    (accumulators : Accumulators) : Accumulators :=
  gather key (fun byShape =>
    gather (shapeKey shape.toShapeColumns) (accumulate dateParse shape row) (byShape.getD []))
    accumulators

def foldRow (targets : List WorkloadTarget) (database : String) (accumulators : Accumulators)
    (row : FactRow) : Accumulators :=
  row.facts.shown.foldl (fun accumulators shape =>
    match wantedKey targets database shape.table with
    | none => accumulators
    | some key => foldShape dateParse key shape row accumulators) accumulators

def Accumulated.costed (accumulated : Accumulated) (now : Int) : CostedShape where
  shape :=
    { equality := accumulated.equality
      sort := accumulated.sort
      range := accumulated.range
      collscan := accumulated.collscan
      sortedInMemory := accumulated.sortedInMemory
      count := accumulated.count
      observedForHours := hoursBetween accumulated.firstSeenMs now
      clients := []
      constants := accumulated.constants }
  docsExamined := mathRound accumulated.totalIo

def shapesFromFacts (targets : List WorkloadTarget) (database : String) (rows : List FactRow)
    (now : Int) : List (String × List CostedShape) :=
  (rows.foldl (foldRow dateParse targets database) []).map fun (key, byShape) =>
    (key, byShape.map fun entry => entry.2.costed now)

/-! ## What is kept under a key -/

def sightings (table : String) (rows : List FactRow) : List (PlanTableShape × FactRow) :=
  rows.flatMap fun row =>
    (row.facts.shown.filter fun shape => shape.table = table).map fun shape => (shape, row)

def wantedSightings (targets : List WorkloadTarget) (database : String) (rows : List FactRow) :
    List (String × PlanTableShape × FactRow) :=
  rows.flatMap fun row => row.facts.shown.filterMap fun shape =>
    (wantedKey targets database shape.table).map fun key => (key, shape, row)

theorem foldl_foldRow_eq (targets : List WorkloadTarget) (database : String)
    (rows : List FactRow) (accumulators : Accumulators) :
    rows.foldl (foldRow dateParse targets database) accumulators =
      (wantedSightings targets database rows).foldl
        (fun accumulators seen => foldShape dateParse seen.1 seen.2.1 seen.2.2 accumulators)
        accumulators := by
  rw [wantedSightings, List.foldl_flatMap]
  congr 1
  funext accumulators row
  rw [foldRow, List.foldl_filterMap]
  congr 1
  funext accumulators shape
  cases wantedKey targets database shape.table <;> rfl

section
variable (h : ⟨database, table⟩ ∈ targets)
include h

theorem wantedKey_eq_some_iff (other : String) :
    wantedKey targets database other = some (workloadKey database table) ↔ other = table := by
  rw [wantedKey]
  constructor
  · intro hkey
    split_ifs at hkey
    exact workloadKey_injective (Option.some.inj hkey)
  · rintro rfl
    exact if_pos (List.any_eq_true.mpr ⟨_, h, by simp⟩)

theorem filter_wantedSightings (rows : List FactRow) :
    ((wantedSightings targets database rows).filter fun seen =>
        seen.1 = workloadKey database table) =
      (sightings table rows).map fun seen => (workloadKey database table, seen) := by
  rw [wantedSightings, sightings, List.filter_flatMap, List.map_flatMap]
  apply List.flatMap_congr
  intro row _
  rw [List.filter_filterMap, List.map_map, ← List.filterMap_eq_map, List.filterMap_filter]
  apply List.filterMap_congr
  intro shape _
  have hkey := wantedKey_eq_some_iff h shape.table
  cases hwanted : wantedKey targets database shape.table with
  | none => simp_all
  | some key => by_cases htable : shape.table = table <;> simp_all [Option.filter]

theorem mem_shapesFromFacts_iff (rows : List FactRow) (now : Int) (shapes : List CostedShape) :
    (workloadKey database table, shapes) ∈ shapesFromFacts dateParse targets database rows now ↔
      sightings table rows ≠ [] ∧
        (gatherAll (fun seen => shapeKey seen.1.toShapeColumns)
          (fun seen => accumulate dateParse seen.1 seen.2) (sightings table rows)).map
            (fun entry => entry.2.costed now) = shapes := by
  have hgathered : rows.foldl (foldRow dateParse targets database) [] =
      gatherAll Prod.fst (fun seen byShape =>
        gather (shapeKey seen.2.1.toShapeColumns) (accumulate dateParse seen.2.1 seen.2.2)
          (byShape.getD [])) (wantedSightings targets database rows) :=
    foldl_foldRow_eq dateParse targets database rows []
  have hentry : ∀ byShape, (workloadKey database table, byShape) ∈
      rows.foldl (foldRow dateParse targets database) [] ↔ sightings table rows ≠ [] ∧
        gatherAll (fun seen => shapeKey seen.1.toShapeColumns)
          (fun seen => accumulate dateParse seen.1 seen.2) (sightings table rows) = byShape := by
    intro byShape
    rw [hgathered, mem_gatherAll_iff, filter_wantedSightings h,
      grown_gather (fun seen : String × PlanTableShape × FactRow =>
        shapeKey seen.2.1.toShapeColumns), gatherAll, List.foldl_map, ne_eq, List.map_eq_nil_iff]
    rfl
  rw [shapesFromFacts, List.mem_map]
  constructor
  · rintro ⟨⟨key, byShape⟩, hin, heq⟩
    obtain ⟨rfl, rfl⟩ := Prod.mk.inj heq
    obtain ⟨hne, rfl⟩ := (hentry byShape).mp hin
    exact ⟨hne, rfl⟩
  · rintro ⟨hne, rfl⟩
    exact ⟨_, (hentry _).mpr ⟨hne, rfl⟩, rfl⟩

end

theorem grown_accumulate {first : PlanTableShape × FactRow} {rest : List (PlanTableShape × FactRow)}
    (h : grown (fun seen => accumulate dateParse seen.1 seen.2) (first :: rest) =
      some accumulated) :
    accumulated.toShapeColumns = first.1.toShapeColumns ∧
      accumulated.count = ((first :: rest).map fun seen => seen.2.execs).sum ∧
      accumulated.totalIo = ((first :: rest).map fun seen => seen.2.totalIo).sum := by
  rw [grown_cons, Option.some.injEq] at h
  subst h
  refine ⟨?_, ?_, ?_⟩
  · exact List.foldlRecOn (motive := fun entry : Accumulated =>
      entry.toShapeColumns = first.1.toShapeColumns) _ _ rfl fun _ h _ _ => h
  · exact read_foldl (fun _ _ => rfl) rest (accumulate dateParse first.1 first.2 none)
  · exact read_foldl (fun _ _ => rfl) rest (accumulate dateParse first.1 first.2 none)

end Fold

/-! ## Plans that count once -/

def SameColumns (a b : ShapeColumns) : Prop :=
  (∀ field, field ∈ a.equality ↔ field ∈ b.equality) ∧ a.sort = b.sort ∧
    ∀ field, field ∈ a.range ↔ field ∈ b.range

instance (a b : ShapeColumns) : Decidable (SameColumns a b) :=
  have hsets : ∀ xs ys : List String, (xs ⊆ ys ∧ ys ⊆ xs) ↔ ∀ field, field ∈ xs ↔ field ∈ ys :=
    fun _ _ => ⟨fun h _ => ⟨fun hx => h.1 hx, fun hy => h.2 hy⟩,
      fun h => ⟨fun _ hx => (h _).mp hx, fun _ hy => (h _).mpr hy⟩⟩
  decidable_of_iff ((a.equality ⊆ b.equality ∧ b.equality ⊆ a.equality) ∧ a.sort = b.sort ∧
    (a.range ⊆ b.range ∧ b.range ⊆ a.range)) (by rw [hsets, hsets, SameColumns])

namespace SameColumns

theorem refl (a : ShapeColumns) : SameColumns a a := ⟨fun _ => .rfl, rfl, fun _ => .rfl⟩

theorem symm (h : SameColumns a b) : SameColumns b a :=
  ⟨fun field => (h.1 field).symm, h.2.1.symm, fun field => (h.2.2 field).symm⟩

theorem trans {c : ShapeColumns} (hab : SameColumns a b) (hbc : SameColumns b c) :
    SameColumns a c :=
  ⟨fun field => (hab.1 field).trans (hbc.1 field), hab.2.1.trans hbc.2.1,
    fun field => (hab.2.2 field).trans (hbc.2.2 field)⟩

end SameColumns

def PlanShapeFacts.shownOf (facts : PlanShapeFacts) (table : String) : List PlanTableShape :=
  facts.shown.filter fun shape => shape.table = table

def PlanShapeFacts.keysOf (facts : PlanShapeFacts) (table : String) : List String :=
  (facts.shownOf table).map fun shape => shapeKey shape.toShapeColumns

def Shows (facts : PlanShapeFacts) (table : String) (columns : ShapeColumns) : Prop :=
  ∃ shape ∈ facts.shownOf table, SameColumns shape.toShapeColumns columns
  deriving Decidable

/-- Every returned shape sums each row that shows it once, and shapes of different columns
are not merged. -/
structure CountedOnce (dateParse : String → Option Int) (targets : List WorkloadTarget)
    (database : String) (rows : List FactRow) (now : Int) : Prop where
  counted : ∀ target ∈ targets, target.database = database → ∀ shapes,
    (workloadKey target.database target.collection, shapes) ∈
        shapesFromFacts dateParse targets database rows now →
      ∀ costed ∈ shapes,
        costed.shape.count = ((rows.filter fun row =>
          Shows row.facts target.collection costed.shape.columns).map FactRow.execs).sum ∧
        costed.docsExamined = mathRound ((rows.filter fun row =>
          Shows row.facts target.collection costed.shape.columns).map FactRow.totalIo).sum
  unmerged : ∀ target ∈ targets, target.database = database →
    ∀ a ∈ sightings target.collection rows, ∀ b ∈ sightings target.collection rows,
      shapeKey a.1.toShapeColumns = shapeKey b.1.toShapeColumns →
        SameColumns a.1.toShapeColumns b.1.toShapeColumns

/-- For each target's table: shapes of one key have the same columns, no plan shows a key
twice, and a plan that shows a shape's columns shows them under its key. -/
structure ShownOnce (targets : List WorkloadTarget) (database : String)
    (plans : List PlanShapeFacts) : Prop where
  apart : ∀ target ∈ targets, target.database = database →
    ∀ a ∈ plans.flatMap (·.shownOf target.collection),
      ∀ b ∈ plans.flatMap (·.shownOf target.collection),
        shapeKey a.toShapeColumns = shapeKey b.toShapeColumns →
          SameColumns a.toShapeColumns b.toShapeColumns
  once : ∀ target ∈ targets, target.database = database → ∀ facts ∈ plans,
    (facts.keysOf target.collection).Nodup
  alike : ∀ target ∈ targets, target.database = database →
    ∀ a ∈ plans.flatMap (·.shownOf target.collection), ∀ facts ∈ plans,
      Shows facts target.collection a.toShapeColumns →
        shapeKey a.toShapeColumns ∈ facts.keysOf target.collection

theorem mem_sightings_iff :
    seen ∈ sightings table rows ↔ seen.2 ∈ rows ∧ seen.1 ∈ seen.2.facts.shownOf table := by
  rw [sightings, List.mem_flatMap]
  constructor
  · rintro ⟨row, hrow, hin⟩
    obtain ⟨shape, hshape, rfl⟩ := List.mem_map.mp hin
    exact ⟨hrow, hshape⟩
  · rintro ⟨hrow, hshape⟩
    exact ⟨seen.2, hrow, List.mem_map.mpr ⟨seen.1, hshape, rfl⟩⟩

theorem sum_sightings {M : Type*} [AddCommGroup M] (table key : String) (rows : List FactRow)
    (weight : FactRow → M) :
    (((sightings table rows).filter fun seen => shapeKey seen.1.toShapeColumns = key).map
        fun seen => weight seen.2).sum =
      (rows.map fun row => (row.facts.keysOf table).count key • weight row).sum := by
  rw [sightings, List.filter_flatMap, List.map_flatMap, List.flatMap_def, List.sum_flatten,
    List.map_map]
  refine congrArg List.sum (List.map_congr_left fun row _ => ?_)
  rw [Function.comp_apply, List.filter_map, List.map_map, PlanShapeFacts.keysOf, List.count_eq_countP,
    List.countP_map, List.countP_eq_length_filter, ← List.sum_replicate, ← List.map_const']
  rfl

theorem sum_count_eq {M : Type*} [AddCommGroup M] {key : String} {columns : ShapeColumns}
    (weight : FactRow → M) (h : ∀ row ∈ rows, (row.facts.keysOf table).count key =
      if Shows row.facts table columns then 1 else 0) :
    (rows.map fun row => (row.facts.keysOf table).count key • weight row).sum =
      ((rows.filter fun row => Shows row.facts table columns).map weight).sum := by
  rw [← sum_ite_zero]
  refine congrArg List.sum (List.map_congr_left fun row hrow => ?_)
  rw [h row hrow, ite_smul, one_nsmul, zero_nsmul]

section Returned
variable {dateParse : String → Option Int} {table : String} {rows : List FactRow}

theorem gathered_spec {key : String}
    (h : (key, accumulated) ∈ gatherAll (fun seen => shapeKey seen.1.toShapeColumns)
      (fun seen => accumulate dateParse seen.1 seen.2) (sightings table rows)) :
    ∃ first ∈ sightings table rows, shapeKey first.1.toShapeColumns = key ∧
      accumulated.toShapeColumns = first.1.toShapeColumns ∧
      accumulated.count = (rows.map fun row =>
        (row.facts.keysOf table).count key • row.execs).sum ∧
      accumulated.totalIo = (rows.map fun row =>
        (row.facts.keysOf table).count key • row.totalIo).sum := by
  rw [mem_gatherAll_iff] at h
  rw [← sum_sightings, ← sum_sightings]
  cases hgroup : (sightings table rows).filter
      fun seen => decide (shapeKey seen.1.toShapeColumns = key) with
  | nil =>
    rw [hgroup] at h
    cases h
  | cons first rest =>
    have hfirst : first ∈ (sightings table rows).filter
        fun seen => decide (shapeKey seen.1.toShapeColumns = key) := hgroup ▸ List.mem_cons_self
    obtain ⟨hin, hkey⟩ := List.mem_filter.mp hfirst
    rw [hgroup] at h
    exact ⟨first, hin, of_decide_eq_true hkey, grown_accumulate dateParse h⟩

theorem exists_gathered (h : seen ∈ sightings table rows) :
    ∃ accumulated, (shapeKey seen.1.toShapeColumns, accumulated) ∈
      gatherAll (fun seen => shapeKey seen.1.toShapeColumns)
        (fun seen => accumulate dateParse seen.1 seen.2) (sightings table rows) := by
  have hin : seen ∈ (sightings table rows).filter
      fun other => decide (shapeKey other.1.toShapeColumns = shapeKey seen.1.toShapeColumns) :=
    List.mem_filter.mpr ⟨h, decide_eq_true rfl⟩
  obtain ⟨first, rest, hgroup⟩ := List.exists_cons_of_ne_nil (List.ne_nil_of_mem hin)
  simp only [mem_gatherAll_iff, hgroup, grown_cons, Option.some.injEq, exists_eq']

end Returned

def PlanShapeFacts.row (facts : PlanShapeFacts) (execs : Int) : FactRow := ⟨facts, execs, 0, none⟩

section Counted
variable {targets : List WorkloadTarget} {database : String}

theorem ShownOnce.count_eq (h : ShownOnce targets database plans) {target : WorkloadTarget}
    (htarget : target ∈ targets) (hdatabase : target.database = database) {a : PlanTableShape}
    (ha : a ∈ plans.flatMap (·.shownOf target.collection)) {facts : PlanShapeFacts}
    (hfacts : facts ∈ plans) :
    (facts.keysOf target.collection).count (shapeKey a.toShapeColumns) =
      if Shows facts target.collection a.toShapeColumns then 1 else 0 := by
  split_ifs with hshows
  · exact List.count_eq_one_of_mem (h.once target htarget hdatabase facts hfacts)
      (h.alike target htarget hdatabase a ha facts hfacts hshows)
  · rw [List.count_eq_zero]
    intro hin
    obtain ⟨shape, hshape, hkey⟩ := List.mem_map.mp hin
    have hmem : shape ∈ plans.flatMap (·.shownOf target.collection) :=
      List.mem_flatMap.mpr ⟨facts, hfacts, hshape⟩
    exact hshows ⟨shape, hshape, h.apart target htarget hdatabase shape hmem a ha hkey⟩

theorem mem_shownOf_plans (h : seen ∈ sightings table rows) :
    seen.1 ∈ (rows.map FactRow.facts).flatMap (·.shownOf table) := by
  obtain ⟨hrow, hshape⟩ := mem_sightings_iff.mp h
  exact List.mem_flatMap.mpr ⟨seen.2.facts, List.mem_map_of_mem hrow, hshape⟩

theorem countedOnce_of_shownOnce (h : ShownOnce targets database (rows.map FactRow.facts))
    (dateParse : String → Option Int) (now : Int) :
    CountedOnce dateParse targets database rows now where
  counted := by
    rintro ⟨_, table⟩ htarget rfl shapes hshapes costed hcosted
    obtain ⟨-, rfl⟩ := (mem_shapesFromFacts_iff dateParse htarget rows now shapes).mp hshapes
    obtain ⟨⟨key, accumulated⟩, hentry, rfl⟩ := List.mem_map.mp hcosted
    obtain ⟨first, hfirst, rfl, hcolumns, hcount, hio⟩ := gathered_spec hentry
    have honce : ∀ row ∈ rows, (row.facts.keysOf table).count (shapeKey first.1.toShapeColumns) =
        if Shows row.facts table first.1.toShapeColumns then 1 else 0 := fun row hrow =>
      h.count_eq htarget rfl (mem_shownOf_plans hfirst) (List.mem_map_of_mem hrow)
    have hshape : (accumulated.costed now).shape.columns = first.1.toShapeColumns := hcolumns
    rw [hshape, ← sum_count_eq FactRow.execs honce, ← sum_count_eq FactRow.totalIo honce, ← hcount,
      ← hio]
    exact ⟨rfl, rfl⟩
  unmerged target htarget hdatabase a ha b hb :=
    h.apart target htarget hdatabase a.1 (mem_shownOf_plans ha) b.1 (mem_shownOf_plans hb)

def oneRun (before : List PlanShapeFacts) (facts : PlanShapeFacts) (after : List PlanShapeFacts) :
    List FactRow :=
  before.map (·.row 0) ++ facts.row 1 :: after.map (·.row 0)

variable (before : List PlanShapeFacts) (facts : PlanShapeFacts) (after : List PlanShapeFacts)

theorem facts_oneRun :
    (oneRun before facts after).map FactRow.facts = before ++ facts :: after := by
  simp [oneRun, PlanShapeFacts.row, Function.comp_def]

theorem sum_oneRun (times : PlanShapeFacts → Nat) :
    ((oneRun before facts after).map fun row => times row.facts • row.execs).sum =
      times facts := by
  simp [oneRun, PlanShapeFacts.row, Function.comp_def]

theorem sum_filter_oneRun (p : PlanShapeFacts → Prop) [DecidablePred p] :
    (((oneRun before facts after).filter fun row => p row.facts).map FactRow.execs).sum =
      if p facts then 1 else 0 := by
  by_cases hp : p facts <;>
    simp [oneRun, PlanShapeFacts.row, List.filter_map, Function.comp_def, hp]

theorem count_eq_of_countedOnce {before : List PlanShapeFacts} {facts : PlanShapeFacts}
    {after : List PlanShapeFacts} {dateParse : String → Option Int} {now : Int}
    (h : CountedOnce dateParse targets database (oneRun before facts after) now)
    (htarget : ⟨database, table⟩ ∈ targets) {a : PlanTableShape}
    (ha : a ∈ (before ++ facts :: after).flatMap (·.shownOf table)) :
    (facts.keysOf table).count (shapeKey a.toShapeColumns) =
      if Shows facts table a.toShapeColumns then 1 else 0 := by
  obtain ⟨seen, hseen, rfl⟩ : ∃ seen ∈ sightings table (oneRun before facts after), seen.1 = a := by
    rw [← facts_oneRun, List.flatMap_map, List.mem_flatMap] at ha
    obtain ⟨row, hrow, hshape⟩ := ha
    exact ⟨(a, row), mem_sightings_iff.mpr ⟨hrow, hshape⟩, rfl⟩
  obtain ⟨accumulated, hgathered⟩ := exists_gathered hseen
  obtain ⟨first, hfirst, hkey, hcolumns, hcount, -⟩ := gathered_spec hgathered
  have hreturned := (mem_shapesFromFacts_iff dateParse htarget _ now _).mpr
    ⟨List.ne_nil_of_mem hseen, rfl⟩
  have hsum := (h.counted _ htarget rfl _ hreturned (accumulated.costed now)
    (List.mem_map.mpr ⟨_, hgathered, rfl⟩)).1
  have hshape : (accumulated.costed now).shape.columns = first.1.toShapeColumns := hcolumns
  have hcosted : (accumulated.costed now).shape.count = accumulated.count := rfl
  have hsame := h.unmerged _ htarget rfl first hfirst seen hseen hkey
  have hshows : Shows facts table first.1.toShapeColumns ↔
      Shows facts table seen.1.toShapeColumns :=
    ⟨fun ⟨shape, hin, hshape⟩ => ⟨shape, hin, hshape.trans hsame⟩,
      fun ⟨shape, hin, hshape⟩ => ⟨shape, hin, hshape.trans hsame.symm⟩⟩
  rw [hcosted, hcount, hshape, sum_oneRun before facts after fun facts =>
    (facts.keysOf table).count (shapeKey seen.1.toShapeColumns),
    sum_filter_oneRun before facts after fun facts =>
      Shows facts table first.1.toShapeColumns] at hsum
  simp only [hshows] at hsum
  split_ifs at hsum ⊢ <;> exact_mod_cast hsum

theorem shownOnce_of_countedOnce {dateParse : String → Option Int} {now : Int}
    (h : ∀ rows, rows.map FactRow.facts = plans → CountedOnce dateParse targets database rows now) :
    ShownOnce targets database plans := by
  have hcount : ∀ table, ⟨database, table⟩ ∈ targets → ∀ a ∈ plans.flatMap (·.shownOf table),
      ∀ facts ∈ plans, (facts.keysOf table).count (shapeKey a.toShapeColumns) =
        if Shows facts table a.toShapeColumns then 1 else 0 := by
    intro table htarget a ha facts hfacts
    obtain ⟨before, after, rfl⟩ := List.append_of_mem hfacts
    exact count_eq_of_countedOnce (h _ (facts_oneRun before facts after)) htarget ha
  refine ⟨?_, ?_, ?_⟩
  · rintro ⟨_, table⟩ htarget rfl a ha b hb hkey
    have hcounted := h (plans.map (·.row 0)) (by simp [PlanShapeFacts.row, Function.comp_def])
    have hseen : ∀ {c : PlanTableShape}, c ∈ plans.flatMap (·.shownOf table) →
        ∃ seen ∈ sightings table (plans.map (·.row 0)), seen.1 = c := by
      intro c hc
      obtain ⟨facts, hfacts, hshape⟩ := List.mem_flatMap.mp hc
      exact ⟨(c, facts.row 0), mem_sightings_iff.mpr ⟨List.mem_map_of_mem hfacts, hshape⟩, rfl⟩
    obtain ⟨seen, hin, rfl⟩ := hseen ha
    obtain ⟨seen', hin', rfl⟩ := hseen hb
    exact hcounted.unmerged _ htarget rfl seen hin seen' hin' hkey
  · rintro ⟨_, table⟩ htarget rfl facts hfacts
    rw [List.nodup_iff_count_le_one]
    intro key
    by_cases hkey : key ∈ facts.keysOf table
    · obtain ⟨a, ha, rfl⟩ := List.mem_map.mp hkey
      rw [hcount table htarget a (List.mem_flatMap.mpr ⟨facts, hfacts, ha⟩) facts hfacts]
      split_ifs <;> omega
    · rw [List.count_eq_zero.mpr hkey]
      omega
  · rintro ⟨_, table⟩ htarget rfl a ha facts hfacts hshows
    have hone := hcount table htarget a ha facts hfacts
    rw [if_pos hshows] at hone
    rw [← List.count_pos_iff, hone]
    exact Nat.one_pos

/-- The fold counts every plan once for each shape it shows, whatever the executions,
exactly where every plan shows every shape once. -/
theorem countedOnce_iff (dateParse : String → Option Int) (targets : List WorkloadTarget)
    (database : String) (plans : List PlanShapeFacts) (now : Int) :
    (∀ rows, rows.map FactRow.facts = plans → CountedOnce dateParse targets database rows now) ↔
      ShownOnce targets database plans := by
  constructor
  · exact shownOnce_of_countedOnce
  · rintro h rows rfl
    exact countedOnce_of_shownOnce h dateParse now

end Counted

/-! ## Plans of one table -/

def ordersTarget : WorkloadTarget := ⟨"shop", "dbo.orders"⟩

def scanning (equality : List String) : PlanTableShape where
  equality := equality
  sort := []
  range := []
  table := "dbo.orders"
  collscan := true
  sortedInMemory := false
  constants := []

def suggesting (equality : List String) : MissingIndexSuggestion := ⟨"dbo.orders", equality, []⟩

/-- Two plans of one shape, one of them with a suggestion for another. -/
def apartRows : List FactRow :=
  [⟨⟨[scanning ["status", "total"]], [suggesting ["total"]]⟩, 5, 100 / 3, none⟩,
    ⟨⟨[scanning ["total", "status"]], []⟩, 7, 20, none⟩]

theorem countedOnce_apartRows :
    CountedOnce (fun _ => none) [ordersTarget] "shop" apartRows 0 :=
  (countedOnce_iff (fun _ => none) [ordersTarget] "shop" (apartRows.map FactRow.facts) 0).mpr
    ⟨by decide +kernel, by decide +kernel, by decide +kernel⟩ apartRows rfl

def suggestedRows : List FactRow :=
  [⟨⟨[scanning ["status"]], [suggesting ["status"]]⟩, 7, 20, none⟩]

def commaRows : List FactRow :=
  [⟨⟨[scanning ["a,b"]], []⟩, 7, 20, none⟩, ⟨⟨[scanning ["a", "b"]], []⟩, 5, 10, none⟩]

def repeatedRows : List FactRow :=
  [⟨⟨[scanning ["status"]], []⟩, 7, 20, none⟩,
    ⟨⟨[], [suggesting ["status", "status"]]⟩, 5, 10, none⟩]

/-- Counted twice, merged, and counted apart. -/
theorem miscounted :
    ¬ CountedOnce (fun _ => none) [ordersTarget] "shop" suggestedRows 0 ∧
      ¬ CountedOnce (fun _ => none) [ordersTarget] "shop" commaRows 0 ∧
      ¬ CountedOnce (fun _ => none) [ordersTarget] "shop" repeatedRows 0 := by
  have hreturned : ∀ {rows : List FactRow} {shapes : List CostedShape},
      CountedOnce (fun _ => none) [ordersTarget] "shop" rows 0 →
      (workloadKey "shop" "dbo.orders", shapes) ∈
        shapesFromFacts (fun _ => none) [ordersTarget] "shop" rows 0 →
      ∀ costed ∈ shapes, costed.shape.count = ((rows.filter fun row =>
        Shows row.facts "dbo.orders" costed.shape.columns).map FactRow.execs).sum :=
    fun h hin costed hcosted =>
      (h.counted ordersTarget List.mem_cons_self rfl _ hin costed hcosted).1
  refine ⟨fun h => ?_, fun h => ?_, fun h => ?_⟩
  · have hshapes : (workloadKey "shop" "dbo.orders",
        [⟨⟨["status"], [], [], true, false, 14, none, [], [], 0⟩, 40⟩]) ∈
        shapesFromFacts (fun _ => none) [ordersTarget] "shop" suggestedRows 0 := by
      decide +kernel
    exact absurd (hreturned h hshapes) (by decide +kernel)
  · exact absurd (h.unmerged ordersTarget List.mem_cons_self rfl) (by decide +kernel)
  · have hshapes : (workloadKey "shop" "dbo.orders",
        [⟨⟨["status"], [], [], true, false, 7, none, [], [], 0⟩, 20⟩,
          ⟨⟨["status", "status"], [], [], false, false, 5, none, [], [], 0⟩, 10⟩]) ∈
        shapesFromFacts (fun _ => none) [ordersTarget] "shop" repeatedRows 0 := by
      decide +kernel
    exact absurd (hreturned h hshapes) (by decide +kernel)

end Indexterity
