import Indexterity.ClusterRows
import Indexterity.LatencyEvidence
import Indexterity.RecommendCover
import Indexterity.Service.World

/-!
# Classify cluster: which drops a pass files and which it retracts

`classifyCluster` of `jobs/classify.ts` with the key sets of `jobs/watched.ts`. The pass reads
every dimension that has a run in the window, keeps one of them under each index name, and files
what `recommendForCollection` offers on those. It then retracts the drops of the indexes that the
newest instant of the whole cluster does not show.

The server returns the dimensions in any order. The insert's conflict clause only acts against
another producer and is left out, as are the notes and the numbers of a candidate.
-/

namespace Indexterity

open Library

inductive RecommendationSource where
  | CLASSIFY
  | WORKLOAD
  | RETIRE
deriving DecidableEq, Repr

/-- A row of `recommendations`. -/
structure FiledRow where
  type : RecommendationType
  state : RecommendationState
  source : RecommendationSource
  database : String
  collection : String
  indexName : String
deriving DecidableEq, Repr

def FiledRow.key (row : FiledRow) : WatchKey := watchKey row.database row.collection row.indexName

def FiledRow.isDrop (row : FiledRow) : Bool := decide (row.type ∈ Service.DROP_TYPES)

def FiledRow.isOwn (row : FiledRow) : Bool :=
  decide (row.state = .PROPOSED) && decide (row.source = .CLASSIFY)

def pendingRemovalKeys (recs : List FiledRow) : List WatchKey :=
  (recs.filter fun row =>
    row.isDrop && decide (row.state ∈ [.PROPOSED, .APPROVED, .HIDDEN])).map FiledRow.key

def standingRecommendationKeys (recs : List FiledRow) : List WatchKey :=
  (recs.filter fun row =>
    row.isDrop && decide (row.state ∈ Service.LIVE_STATES) && !row.isOwn).map FiledRow.key

def CLASSIFY_OPTIONS : ClassifyOptions where
  recentHours := 12
  minHistory := 3
  minHistoryDays := 3
  minActiveHours := 72
  maxGapHours := MAX_GAP_HOURS

/-- The order in which the server returns what a query selects. -/
structure RowOrder where
  arrange : List Dimension → List Dimension
  perm : ∀ dims, (arrange dims).Perm dims

/-- What a pass reads apart from dimensions and recommendations. Keys are
`(database, collection)` and `(database, collection, indexName)`. -/
structure ClassifyReads where
  host : Host
  order : RowOrder
  server : TextServer
  since : Int
  now : Int
  observeDays : ℚ
  sizes : String × String → String → Option ℚ
  regressionWeights : String × String → String → Option ℚ
  evidence : String × String → Option CollectionEvidence
  cooled : List WatchKey
  watched : List WatchKey
  hinted : List WatchKey

structure ClassifyRow where
  dimension : Dimension
  usage : UsageFold

namespace ClassifyRow

def scope (row : ClassifyRow) : String × String :=
  (row.dimension.database, row.dimension.collection)

def indexName (row : ClassifyRow) : String := row.dimension.spec.name

def key (row : ClassifyRow) : WatchKey := row.dimension.key

theorem key_eq_iff {row : ClassifyRow} {key : WatchKey} :
    row.key = key ↔ row.scope = (key.1, key.2.1) ∧ row.indexName = key.2.2 := by
  obtain ⟨database, collection, name⟩ := key
  simp [ClassifyRow.key, Dimension.key, watchKey, scope, indexName, and_assoc]

end ClassifyRow

section Pass
variable (reads : ClassifyReads) (dims : List Dimension) (recs : List FiledRow)

def evidenceOfDimension (d : Dimension) : Option UsageFold :=
  usageEvidence reads.server reads.since MAX_GAP_MS d.rows

def classifyRows : List ClassifyRow :=
  (reads.order.arrange (dims.filter fun d => (evidenceOfDimension reads d).isSome)).filterMap
    fun d => (evidenceOfDimension reads d).map (ClassifyRow.mk d)

def scopes : List (String × String) := entries id ((classifyRows reads dims).map ClassifyRow.scope)

/-- The map of a collection: of several rows of one name it keeps the last. -/
def byIndex (scope : String × String) : List ClassifyRow :=
  entries ClassifyRow.indexName
    ((classifyRows reads dims).filter fun row => decide (row.scope = scope))

def inputOf (row : ClassifyRow) : IndexInput where
  spec := row.dimension.spec
  usage := row.usage
  pendingRemoval := decide (row.key ∈ pendingRemovalKeys recs)

def inputsOf (scope : String × String) : List IndexInput :=
  (byIndex reads dims scope).map (inputOf recs)

def evidenceFor (scope : String × String) : CollectionEvidence :=
  (reads.evidence scope).getD NO_EVIDENCE

def factsOf (scope : String × String) : CollectionFacts where
  host := reads.host
  sizes := reads.sizes scope
  options := CLASSIFY_OPTIONS
  regressionWeights := reads.regressionWeights scope
  now := reads.now
  activeHours := some (activeHoursFrom (evidenceFor reads scope).activity)

def suppressed (row : FiledRow) : Bool :=
  (decide (row.type ≠ .ADVISORY_REVIEW) && decide (row.key ∈ reads.cooled)) ||
    decide (row.key ∈ reads.watched) ||
    (decide (row.type ≠ .ADVISORY_REVIEW) && decide (row.key ∈ standingRecommendationKeys recs)) ||
    (decide (row.type ≠ .ADVISORY_REVIEW) && decide (row.key ∈ reads.hinted)) ||
    (row.isDrop && !observationCanFinishFrom
      (evidenceFor reads (row.database, row.collection)).observation reads.observeDays)

def filed (scope : String × String) (candidate : RecommendationCandidate) : FiledRow :=
  ⟨candidate.type, .PROPOSED, .CLASSIFY, scope.1, scope.2, candidate.indexName⟩

def toInsert : List FiledRow :=
  ((scopes reads dims).flatMap fun scope =>
    (recommendForCollection (factsOf reads scope) (inputsOf reads dims recs scope)).map
      (filed scope)).filter fun row => !suppressed reads recs row

def newestSeen (rows : List ClassifyRow) : Int :=
  rows.foldl (fun latest row => max latest (row.usage.newestEndMs.getD 0)) 0

def liveKeys (rows : List ClassifyRow) : List WatchKey :=
  (rows.filter fun row => decide (row.usage.newestEndMs = some (newestSeen rows))).map
    ClassifyRow.key

def gone (rows : List ClassifyRow) (row : FiledRow) : Bool :=
  decide (row.state = .PROPOSED) && row.isDrop && decide (row.key ∉ liveKeys rows)

def classifyCluster : List FiledRow :=
  let rows := classifyRows reads dims
  let swept := (recs.filter fun row => !row.isOwn) ++ toInsert reads dims recs
  if rows = [] then swept else swept.filter fun row => !gone rows row

end Pass

/-! ## Rows and live keys -/

section Rows
variable {reads : ClassifyReads} {dims : List Dimension}

theorem mem_classifyRows {row : ClassifyRow} :
    row ∈ classifyRows reads dims ↔
      row.dimension ∈ dims ∧ evidenceOfDimension reads row.dimension = some row.usage := by
  simp only [classifyRows, List.mem_filterMap, (reads.order.perm _).mem_iff, List.mem_filter]
  constructor
  · rintro ⟨d, ⟨hd, -⟩, hrow⟩
    obtain ⟨usage, husage, rfl⟩ := Option.map_eq_some_iff.mp hrow
    exact ⟨hd, husage⟩
  · rintro ⟨hd, husage⟩
    exact ⟨row.dimension, ⟨hd, by rw [husage]; rfl⟩, by rw [husage]; rfl⟩

theorem foldl_max_le_iff {α : Type} (f : α → Int) (xs : List α) (start bound : Int) :
    xs.foldl (fun latest x => max latest (f x)) start ≤ bound ↔
      start ≤ bound ∧ ∀ x ∈ xs, f x ≤ bound := by
  induction xs generalizing start with
  | nil => simp
  | cons x xs ih => rw [List.foldl_cons, ih, max_le_iff, List.forall_mem_cons, and_assoc]

theorem newestSeen_eq_iff {rows : List ClassifyRow} {row : ClassifyRow} {instant : Int}
    (hrow : row ∈ rows) (hend : row.usage.newestEndMs = some instant) (hpos : 0 ≤ instant) :
    newestSeen rows = instant ↔ ∀ other ∈ rows, other.usage.newestEndMs.getD 0 ≤ instant := by
  have hle := foldl_max_le_iff (fun row : ClassifyRow => row.usage.newestEndMs.getD 0) rows 0
  have hge : instant ≤ newestSeen rows := by
    have := ((hle (newestSeen rows)).mp le_rfl).2 row hrow
    rwa [hend] at this
  constructor
  · intro h
    exact ((hle instant).mp h.le).2
  · intro h
    exact le_antisymm ((hle instant).mpr ⟨hpos, h⟩) hge

end Rows

def SeenLast (collects : List (Nat × ClusterCollect)) (x : Sighting) : Prop :=
  x ∈ seenBy collects ∧ ∀ y ∈ seenBy collects, y.now ≤ x.now

variable {x : Sighting} {c : Nat × ClusterCollect} {row : FiledRow}

section Live
variable (reads : ClassifyReads) {host : Host} {now : Nat} {steps : List CollectStep}

theorem classifyRow_last_seen {row : ClassifyRow}
    (hrow : row ∈ classifyRows reads (dimensionsOf host (seenBy (collectsFrom now steps)))) :
    ∃ x ∈ seenBy (collectsFrom now steps), x.shape = row.dimension.shape ∧
      x.seen.spec = row.dimension.spec ∧ row.usage.newestEndMs = some x.now ∧
      reads.since ≤ x.now ∧
      ∀ y ∈ seenBy (collectsFrom now steps), y.shape = row.dimension.shape → y.now ≤ x.now := by
  obtain ⟨hd, husage⟩ := mem_classifyRows.mp hrow
  obtain ⟨x, hx, hshape, hspec, hreaches, hlast⟩ := dimension_last_seen hd
  obtain ⟨hin, hout⟩ := newestEndMs_usageEvidence hreaches reads.server reads.since MAX_GAP_MS
  have hsince : reads.since ≤ x.now := by
    by_contra hlt
    rw [evidenceOfDimension, hout (not_le.mp hlt)] at husage
    cases husage
  obtain ⟨fold, hfold, hend⟩ := hin hsince
  rw [evidenceOfDimension, hfold] at husage
  cases husage
  exact ⟨x, hx, hshape, hspec, hend, hsince, hlast⟩

theorem exists_classifyRow {x : Sighting} (hx : x ∈ seenBy (collectsFrom now steps))
    (hsince : reads.since ≤ x.now) :
    ∃ row ∈ classifyRows reads (dimensionsOf host (seenBy (collectsFrom now steps))),
      row.dimension.shape = x.shape := by
  obtain ⟨d, hd, hshape⟩ := List.mem_map.mp
    ((@dimensionsOf_reflect host (seenBy (collectsFrom now steps))).all x hx)
  obtain ⟨last, -, -, -, hreaches, hlast⟩ := dimension_last_seen hd
  obtain ⟨fold, hfold, -⟩ := (newestEndMs_usageEvidence hreaches reads.server reads.since
    MAX_GAP_MS).1 (hsince.trans (hlast x hx hshape.symm))
  exact ⟨⟨d, fold⟩, mem_classifyRows.mpr ⟨hd, hfold⟩, hshape⟩

theorem Dimension.key_of_shape {d : Dimension} (h : d.shape = x.shape) : d.key = x.key := by
  simp only [Dimension.shape, Sighting.shape, ShapeKey.mk.injEq] at h
  have hname : (withoutHidden d.spec).name = (withoutHidden x.seen.spec).name :=
    congrArg IndexSpec.name h.2.2
  exact Prod.ext h.1 (Prod.ext h.2.1 hname)

/-- The live keys are what the last collect saw of those that saw an index at all, if it is in
the window. -/
theorem mem_liveKeys_iff (key : WatchKey) :
    key ∈ liveKeys (classifyRows reads (dimensionsOf host (seenBy (collectsFrom now steps)))) ↔
      ∃ x, SeenLast (collectsFrom now steps) x ∧ reads.since ≤ x.now ∧ x.key = key := by
  have hpos : ∀ x ∈ seenBy (collectsFrom now steps), 0 ≤ x.now := by
    intro x hx
    obtain ⟨c, -, hx⟩ := List.mem_flatMap.mp hx
    rw [now_of_mem_seenIn hx]
    exact Int.natCast_nonneg _
  simp only [liveKeys, List.mem_map, List.mem_filter, decide_eq_true_eq]
  constructor
  · rintro ⟨row, ⟨hrow, hnewest⟩, rfl⟩
    obtain ⟨x, hx, hshape, -, hend, hsince, -⟩ := classifyRow_last_seen reads hrow
    have heq := Option.some.inj (hnewest.symm.trans hend)
    have hbound := (newestSeen_eq_iff hrow hend (hpos x hx)).mp heq
    refine ⟨x, ⟨hx, fun y hy => ?_⟩, hsince, (Dimension.key_of_shape hshape.symm).symm⟩
    by_contra hlt
    -- a later sighting would have a row that ends later
    obtain ⟨other, hother, hsame⟩ :=
      @exists_classifyRow reads host _ _ _ hy (hsince.trans (not_le.mp hlt).le)
    obtain ⟨z, -, -, -, hzend, -, hzlast⟩ := classifyRow_last_seen reads hother
    have hle := hbound other hother
    rw [hzend] at hle
    exact hlt ((hzlast y hy hsame.symm).trans hle)
  · rintro ⟨x, ⟨hx, hlast⟩, hsince, rfl⟩
    obtain ⟨row, hrow, hshape⟩ := @exists_classifyRow reads host _ _ _ hx hsince
    obtain ⟨y, hy, -, -, hend, -, hylast⟩ := classifyRow_last_seen reads hrow
    have hnow : y.now = x.now := le_antisymm (hlast y hy) (hylast x hx hshape.symm)
    rw [hnow] at hend
    refine ⟨row, ⟨hrow, hend.trans (congrArg some ?_)⟩, Dimension.key_of_shape hshape⟩
    refine ((newestSeen_eq_iff hrow hend (hpos x hx)).mpr fun other hother => ?_).symm
    obtain ⟨z, hz, -, -, hzend, -⟩ := classifyRow_last_seen reads hother
    rw [hzend]
    exact hlast z hz

end Live

/-! ## Retracted drops -/

structure FiledRow.IsRetirement (row : FiledRow) : Prop where
  state : row.state = .PROPOSED
  source : row.source = .RETIRE
  type : row.type ∈ Service.DROP_TYPES

/-- The newest collect that read a database, and the ones after it. -/
structure NewestRead (collects : List (Nat × ClusterCollect)) (database : String)
    (c : Nat × ClusterCollect) (after : List (Nat × ClusterCollect)) : Prop where
  split : ∃ before, collects = before ++ c :: after
  read : database ∈ c.2.reads.map DatabaseRead.database
  unread : ∀ later ∈ after, database ∉ later.2.reads.map DatabaseRead.database

theorem database_of_mem_seenIn (hx : x ∈ seenIn c) :
    x.database ∈ c.2.reads.map DatabaseRead.database := by
  obtain ⟨read, hread, hx⟩ := List.mem_flatMap.mp hx
  obtain ⟨seen, -, rfl⟩ := List.mem_map.mp hx
  exact List.mem_map_of_mem hread

section Retired
variable (reads : ClassifyReads) {host : Host} {now : Nat} {steps : List CollectStep}

theorem not_mem_classifyCluster_iff {dims : List Dimension} {recs : List FiledRow}
    (hrow : row ∈ recs) (h : row.IsRetirement) :
    row ∉ classifyCluster reads dims recs ↔
      classifyRows reads dims ≠ [] ∧ row.key ∉ liveKeys (classifyRows reads dims) := by
  have hswept : row ∈ (recs.filter fun row => !row.isOwn) ++ toInsert reads dims recs :=
    List.mem_append_left _ (List.mem_filter.mpr ⟨hrow, by simp [FiledRow.isOwn, h.source]⟩)
  unfold classifyCluster
  dsimp only
  split
  · rename_i hnil
    exact ⟨fun hnot => absurd hswept hnot, fun hgone => absurd hnil hgone.1⟩
  · rename_i hrows
    rw [List.mem_filter]
    simp [hswept, hrows, gone, FiledRow.isDrop, h.state, h.type]

theorem mem_seenBy_split {before after : List (Nat × ClusterCollect)}
    (hsplit : collectsFrom now steps = before ++ c :: after) {y : Sighting}
    (hy : y ∈ seenBy (collectsFrom now steps)) :
    y.now ≤ c.1 ∨ ∃ later ∈ after, y ∈ seenIn later ∧ (c.1 : Int) < later.1 := by
  have hincreasing := (collectsFrom_increasing now steps).1
  rw [hsplit] at hy hincreasing
  obtain ⟨-, hafter, hbefore⟩ := List.pairwise_append.mp hincreasing
  obtain ⟨d, hd, hy⟩ := List.mem_flatMap.mp hy
  rw [now_of_mem_seenIn hy]
  rcases List.mem_append.mp hd with hd | hd
  · exact .inl (Int.ofNat_le.mpr (hbefore d hd c List.mem_cons_self).le)
  · rcases List.mem_cons.mp hd with rfl | hd
    · exact .inl le_rfl
    · exact .inr ⟨d, hd, hy, Int.ofNat_lt.mpr ((List.pairwise_cons.mp hafter).1 d hd)⟩

/-- An index that the newest read of its database saw is taken for gone, exactly when a later
collect of the window saw some index somewhere else. -/
theorem retracted_iff {recs : List FiledRow} (hrow : row ∈ recs) (h : row.IsRetirement)
    {after : List (Nat × ClusterCollect)}
    (hnewest : NewestRead (collectsFrom now steps) row.database c after) (hx : x ∈ seenIn c)
    (hkey : x.key = row.key) :
    row ∉ classifyCluster reads (dimensionsOf host (seenBy (collectsFrom now steps))) recs ↔
      ∃ later ∈ after, reads.since ≤ later.1 ∧ seenIn later ≠ [] := by
  obtain ⟨before, hsplit⟩ := hnewest.split
  have hmem : ∀ d ∈ c :: after, ∀ y ∈ seenIn d, y ∈ seenBy (collectsFrom now steps) :=
    fun d hd y hy => List.mem_flatMap.mpr ⟨d, hsplit ▸ List.mem_append_right _ hd, hy⟩
  rw [not_mem_classifyCluster_iff reads hrow h, mem_liveKeys_iff]
  constructor
  · rintro ⟨hrows, hlive⟩
    by_contra hnone
    push Not at hnone
    obtain ⟨first, hfirst⟩ := List.exists_mem_of_ne_nil _ hrows
    obtain ⟨z, hz, -, -, -, hsince, -⟩ := classifyRow_last_seen reads hfirst
    have hquiet : ∀ y ∈ seenBy (collectsFrom now steps), reads.since ≤ y.now → y.now ≤ c.1 := by
      intro y hy hin
      rcases mem_seenBy_split hsplit hy with hle | ⟨later, hlater, hseen, -⟩
      · exact hle
      · rw [now_of_mem_seenIn hseen] at hin
        exact absurd (hnone later hlater hin) (List.ne_nil_of_mem hseen)
    have hc : reads.since ≤ c.1 := hsince.trans (hquiet z hz hsince)
    refine hlive ⟨x, ⟨hmem c List.mem_cons_self x hx, fun y hy => ?_⟩, ?_, hkey⟩
    · rw [now_of_mem_seenIn hx]
      by_contra hlt
      exact hlt (hquiet y hy (hc.trans (not_le.mp hlt).le))
    · rw [now_of_mem_seenIn hx]
      exact hc
  · rintro ⟨later, hlater, hsince, hseen⟩
    obtain ⟨w, hw⟩ := List.exists_mem_of_ne_nil _ hseen
    have hw' := hmem later (List.mem_cons_of_mem _ hlater) w hw
    have hwnow := now_of_mem_seenIn hw
    refine ⟨?_, ?_⟩
    · obtain ⟨found, hfound, -⟩ := @exists_classifyRow reads host _ _ _ hw' (hwnow ▸ hsince)
      exact List.ne_nil_of_mem hfound
    · rintro ⟨y, ⟨hy, hlast⟩, -, hykey⟩
      have hpairs := (collectsFrom_increasing now steps).1
      rw [hsplit] at hpairs
      have hlt : (c.1 : Int) < later.1 := Int.ofNat_lt.mpr
        ((List.pairwise_cons.mp (List.pairwise_append.mp hpairs).2.1).1 later hlater)
      rcases mem_seenBy_split hsplit hy with hle | ⟨d, hd, hyd, -⟩
      · have := hlast w hw'
        omega
      · refine hnewest.unread d hd ?_
        have hdatabase : y.database = row.database := congrArg Prod.fst hykey
        rw [← hdatabase]
        exact database_of_mem_seenIn hyd

/-- A retirement is retracted only where the newest read of its database did not see its index,
exactly when after every such read that did see it no collect of the window saw an index. -/
theorem retirement_retracted_only_if_gone_iff (reads : ClassifyReads) (host : Host) (now : Nat)
    (steps : List CollectStep) (recs : List FiledRow) :
    (∀ row ∈ recs, row.IsRetirement →
      row ∉ classifyCluster reads (dimensionsOf host (seenBy (collectsFrom now steps))) recs →
        ∀ c after, NewestRead (collectsFrom now steps) row.database c after →
          ∀ x ∈ seenIn c, x.key ≠ row.key) ↔
      ∀ row ∈ recs, row.IsRetirement →
        ∀ c after, NewestRead (collectsFrom now steps) row.database c after →
          (∃ x ∈ seenIn c, x.key = row.key) →
            ∀ later ∈ after, reads.since ≤ later.1 → seenIn later = [] := by
  constructor
  · rintro h row hrow hretired c after hnewest ⟨x, hx, hkey⟩ later hlater hsince
    by_contra hseen
    exact h row hrow hretired ((retracted_iff reads hrow hretired hnewest hx hkey).mpr
      ⟨later, hlater, hsince, hseen⟩) c after hnewest x hx hkey
  · intro h row hrow hretired hgone c after hnewest x hx hkey
    obtain ⟨later, hlater, hsince, hseen⟩ :=
      (retracted_iff reads hrow hretired hnewest hx hkey).mp hgone
    exact hseen (h row hrow hretired c after hnewest ⟨x, hx, hkey⟩ later hlater hsince)

end Retired

/-- A pass with the dimensions in the order of their creation and nothing that withholds a drop. -/
def plainReads : ClassifyReads where
  host := decimalHost
  order := ⟨id, fun _ => .refl _⟩
  server := decimalServer
  since := 0
  now := DAY_MS
  observeDays := 30
  sizes := fun _ _ => none
  regressionWeights := fun _ _ => none
  evidence := fun _ => none
  cooled := []
  watched := []
  hinted := []

def seenOrders (name : String) (fields : List String) : SeenIndex :=
  ⟨"orders", ascending name fields, [⟨"m", 0, some "0"⟩], nofun⟩

/-- Two databases with an index each; then one of them cannot be read. -/
def skippedDatabase : List CollectStep :=
  let shop : DatabaseRead := ⟨"shop", [seenOrders "a_1" ["a"]], by decide⟩
  let crm : DatabaseRead := ⟨"crm", [seenOrders "b_1" ["b"]], by decide⟩
  [⟨0, [shop, crm], by decide⟩, ⟨0, [crm], by decide⟩]

/-- The retirement of the index in the database that was skipped is retracted. -/
theorem retirement_lost_to_skipped_database :
    let row : FiledRow := ⟨.DROP_REDUNDANT, .PROPOSED, .RETIRE, "shop", "orders", "a_1"⟩
    let collects := collectsFrom 0 skippedDatabase
    row.IsRetirement ∧
      row ∉ classifyCluster plainReads (dimensionsOf decimalHost (seenBy collects)) [row] ∧
      ∃ c after, NewestRead collects row.database c after ∧ ∃ x ∈ seenIn c, x.key = row.key := by
  refine ⟨⟨rfl, rfl, by decide⟩, by decide, _, _, ⟨⟨[], rfl⟩, by decide, by decide⟩, ?_⟩
  exact ⟨_, List.mem_cons_self, rfl⟩

/-! ## Filed drops -/

section Filed
variable (reads : ClassifyReads) (dims : List Dimension) (recs : List FiledRow)

def judgedRow (key : WatchKey) : Option ClassifyRow :=
  lookupLast ClassifyRow.key (classifyRows reads dims) key

def withheld (key : WatchKey) : Bool :=
  decide (key ∈ reads.cooled) || decide (key ∈ reads.watched) ||
    decide (key ∈ standingRecommendationKeys recs) || decide (key ∈ reads.hinted) ||
    !observationCanFinishFrom (evidenceFor reads (key.1, key.2.1)).observation reads.observeDays

def coversOf (judged : ClassifyRow) : List IndexInput :=
  standingCovers (inputsOf reads dims recs judged.scope) (inputOf recs judged)

def judgedDead (judged : ClassifyRow) : Bool :=
  (deadClass (factsOf reads judged.scope) (inputOf recs judged)).isSome

def offered (type : RecommendationType) (judged : ClassifyRow) : Prop :=
  isNeverDrop judged.dimension.spec = false ∧
    if type = .DROP_REDUNDANT then coversOf reads dims recs judged ≠ []
    else coversOf reads dims recs judged = [] ∧ judgedDead reads recs judged = true

variable {reads dims recs}

theorem suppressed_of_drop (h : row.isDrop = true) :
    suppressed reads recs row = withheld reads recs row.key := by
  have htype : row.type ≠ .ADVISORY_REVIEW := by
    intro hadvisory
    rw [FiledRow.isDrop, hadvisory] at h
    exact absurd h (by decide)
  simp [suppressed, withheld, htype, h, FiledRow.key, watchKey]

theorem mem_byIndex_iff {scope : String × String} {row : ClassifyRow} :
    row ∈ byIndex reads dims scope ↔
      row.scope = scope ∧ judgedRow reads dims row.key = some row := by
  have hlookup : row.scope = scope → lookupLast ClassifyRow.indexName
      ((classifyRows reads dims).filter fun other => decide (other.scope = scope)) row.indexName =
        judgedRow reads dims row.key := by
    rintro rfl
    rw [judgedRow, lookupLast, lookupLast, List.filter_filter]
    congr 1
    refine List.filter_congr fun other _ => ?_
    rw [Bool.eq_iff_iff, Bool.and_eq_true, decide_eq_true_iff, decide_eq_true_iff,
      decide_eq_true_iff, ClassifyRow.key_eq_iff]
    exact and_comm
  rw [byIndex, mem_entries_iff]
  constructor
  · intro h
    have hscope : row.scope = scope :=
      of_decide_eq_true (List.mem_filter.mp (lookupLast_some _ h).1).2
    exact ⟨hscope, (hlookup hscope).symm.trans h⟩
  · rintro ⟨hscope, hjudged⟩
    exact (hlookup hscope).trans hjudged

theorem nodup_inputsOf (scope : String × String) :
    ((inputsOf reads dims recs scope).map fun index => index.spec.name).Nodup := by
  rw [inputsOf, List.map_map]
  exact nodup_entries ClassifyRow.indexName _

theorem proposes_name {facts : CollectionFacts} {indexes : List IndexInput}
    {type : RecommendationType} {name : String} (htype : type ∈ Service.DROP_TYPES)
    (h : proposes facts indexes type name) : ∃ index ∈ indexes, index.spec.name = name := by
  obtain ⟨c, hc, hctype, rfl⟩ := h
  rcases mem_recommendForCollection facts indexes hc with
    ⟨index, hindex, hfound⟩ | ⟨index, hindex, -, hfound⟩ | hadvisory
  · exact ⟨index, List.mem_of_mem_filter hindex,
      (redundantFinding_type facts indexes hfound).2.1.symm⟩
  · exact ⟨index, List.mem_of_mem_filter hindex, (usageFinding_type facts hfound).2.1.symm⟩
  · rw [← hctype, hadvisory] at htype
    exact absurd htype (by decide)

structure FiledRow.IsFiled (row : FiledRow) : Prop where
  state : row.state = .PROPOSED
  source : row.source = .CLASSIFY
  type : row.type ∈ Service.DROP_TYPES

variable (h : row.IsFiled)
include h

theorem mem_toInsert_iff :
    row ∈ toInsert reads dims recs ↔
      withheld reads recs row.key = false ∧
        proposes (factsOf reads (row.database, row.collection))
          (inputsOf reads dims recs (row.database, row.collection)) row.type row.indexName := by
  have hdrop : row.isDrop = true := decide_eq_true h.type
  rw [toInsert, List.mem_filter, suppressed_of_drop hdrop, Bool.not_eq_true', and_comm]
  refine and_congr_right fun _ => ?_
  simp only [List.mem_flatMap, List.mem_map]
  constructor
  · rintro ⟨scope, -, c, hc, rfl⟩
    exact ⟨c, hc, rfl, rfl⟩
  · intro hproposes
    obtain ⟨index, hindex, -⟩ := proposes_name h.type hproposes
    obtain ⟨judged, hjudged, -⟩ := List.mem_map.mp hindex
    obtain ⟨hscope, hrow⟩ := mem_byIndex_iff.mp hjudged
    obtain ⟨c, hc, htype, hname⟩ := hproposes
    refine ⟨(row.database, row.collection), ?_, c, hc, ?_⟩
    · have hkeys := (mem_keys_entries id ((classifyRows reads dims).map ClassifyRow.scope)
        (row.database, row.collection)).mpr
      simp only [List.map_id] at hkeys
      exact hkeys (hscope ▸ List.mem_map_of_mem (lookupLast_some _ hrow).1)
    · obtain ⟨hstate, hsource, -⟩ := h
      cases row
      simp_all [filed]

theorem mem_classifyCluster_iff :
    row ∈ classifyCluster reads dims recs ↔
      row ∈ toInsert reads dims recs ∧ row.key ∈ liveKeys (classifyRows reads dims) := by
  have hswept : row ∈ (recs.filter fun row => !row.isOwn) ++ toInsert reads dims recs ↔
      row ∈ toInsert reads dims recs := by
    simp [FiledRow.isOwn, h.state, h.source]
  unfold classifyCluster
  dsimp only
  split
  · rename_i hnil
    have hnone : toInsert reads dims recs = [] := by
      simp [toInsert, scopes, hnil, entries]
    rw [hswept, hnone]
    simp
  · rw [List.mem_filter, hswept]
    simp [gone, FiledRow.isDrop, h.state, h.type]

theorem proposes_iff_offered {judged : ClassifyRow}
    (hjudged : judged ∈ byIndex reads dims (row.database, row.collection))
    (hname : judged.indexName = row.indexName) :
    proposes (factsOf reads (row.database, row.collection))
        (inputsOf reads dims recs (row.database, row.collection)) row.type row.indexName ↔
      offered reads dims recs row.type judged := by
  have hscope := (mem_byIndex_iff.mp hjudged).1
  have hinput : inputOf recs judged ∈ inputsOf reads dims recs (row.database, row.collection) :=
    List.mem_map_of_mem hjudged
  have hspec : (inputOf recs judged).spec.name = row.indexName := hname
  have htype := h.type
  simp only [Service.DROP_TYPES, List.mem_cons, List.not_mem_nil, or_false] at htype
  rw [← hspec, offered, coversOf, judgedDead, hscope]
  rcases htype with hunused | hredundant
  · rw [hunused, if_neg (by decide)]
    exact proposes_unused_iff _ (nodup_inputsOf _) hinput
  · rw [hredundant, if_pos rfl]
    exact proposes_redundant_iff _ (nodup_inputsOf _) hinput

theorem filed_iff :
    row ∈ classifyCluster reads dims recs ↔
      row.key ∈ liveKeys (classifyRows reads dims) ∧ withheld reads recs row.key = false ∧
        ∃ judged, judgedRow reads dims row.key = some judged ∧
          offered reads dims recs row.type judged := by
  rw [mem_classifyCluster_iff h, mem_toInsert_iff h, and_comm]
  refine and_congr_right fun _ => and_congr_right fun _ => ?_
  constructor
  · intro hproposes
    obtain ⟨index, hindex, hname⟩ := proposes_name h.type hproposes
    obtain ⟨judged, hjudged, rfl⟩ := List.mem_map.mp hindex
    obtain ⟨hscope, hrow⟩ := mem_byIndex_iff.mp hjudged
    have hkey : judged.key = row.key := ClassifyRow.key_eq_iff.mpr ⟨hscope, hname⟩
    exact ⟨judged, hkey ▸ hrow, (proposes_iff_offered h hjudged hname).mp hproposes⟩
  · rintro ⟨judged, hjudged, hoffered⟩
    have hkey : judged.key = row.key := (lookupLast_some _ hjudged).2
    obtain ⟨hscope, hname⟩ := ClassifyRow.key_eq_iff.mp hkey
    exact (proposes_iff_offered h (mem_byIndex_iff.mpr ⟨hscope, hkey ▸ hjudged⟩) hname).mpr hoffered

end Filed

/-! ## Against what the newest collect saw -/

def usageHistory (host : Host) (collects : List (Nat × ClusterCollect)) (shape : ShapeKey) :
    List SnapshotRow :=
  collected host (((seenBy collects).filter fun x => decide (x.shape = shape)).map Sighting.collect)

def SawCover (c : Nat × ClusterCollect) (scope : String × String) (spec : IndexSpec) : Prop :=
  ∃ y ∈ seenIn c, (y.database, y.seen.collection) = scope ∧
    isRedundantPrefix spec y.seen.spec = true

/-- A drop agrees with what the newest collect saw: the index is there, it was judged on the spec
and on the usage of that shape, and what makes it redundant is there too. -/
def AgreesWithNewest (reads : ClassifyReads) (host : Host) (collects : List (Nat × ClusterCollect))
    (row : FiledRow) : Prop :=
  ∃ newest, collects.getLast? = some newest ∧ ∃ x ∈ seenIn newest, x.key = row.key ∧
    (∃ judged, judgedRow reads (dimensionsOf host (seenBy collects)) row.key = some judged ∧
      judged.dimension.spec = x.seen.spec ∧
      usageEvidence reads.server reads.since MAX_GAP_MS (usageHistory host collects x.shape) =
        some judged.usage) ∧
    (row.type = .DROP_REDUNDANT → SawCover newest (row.database, row.collection) x.seen.spec)

section Newest
variable {now : Nat} {steps : List CollectStep}

theorem mem_seenIn_newest {newest : Nat × ClusterCollect}
    (hnewest : (collectsFrom now steps).getLast? = some newest) {y : Sighting}
    (hx : SeenLast (collectsFrom now steps) x) (hy : y ∈ seenIn newest) : x ∈ seenIn newest := by
  obtain ⟨before, hsplit⟩ := List.getLast?_eq_some_iff.mp hnewest
  obtain ⟨c, hc, hxc⟩ := List.mem_flatMap.mp hx.1
  have hle := hx.2 y (List.mem_flatMap.mpr ⟨newest, List.mem_of_getLast? hnewest, hy⟩)
  have hpairs := (collectsFrom_increasing now steps).1
  rw [hsplit] at hc hpairs
  rcases List.mem_append.mp hc with hc | hc
  · have hlt := (List.pairwise_append.mp hpairs).2.2 c hc newest (List.mem_singleton_self _)
    rw [now_of_mem_seenIn hxc, now_of_mem_seenIn hy] at hle
    omega
  · exact List.mem_singleton.mp hc ▸ hxc

variable {reads : ClassifyReads} {host : Host}

theorem usageEvidence_of_judged {judged : ClassifyRow}
    (hjudged : judgedRow reads (dimensionsOf host (seenBy (collectsFrom now steps))) x.key =
      some judged) (hspec : judged.dimension.spec = x.seen.spec) :
    usageEvidence reads.server reads.since MAX_GAP_MS
      (usageHistory host (collectsFrom now steps) x.shape) = some judged.usage := by
  obtain ⟨hrow, hkey⟩ := lookupLast_some _ hjudged
  obtain ⟨hd, husage⟩ := mem_classifyRows.mp hrow
  have hshape : judged.dimension.shape = x.shape := by
    have hscope := (ClassifyRow.key_eq_iff.mp hkey).1
    exact ShapeKey.mk.injEq .. ▸ ⟨congrArg Prod.fst hscope, congrArg Prod.snd hscope,
      congrArg withoutHidden hspec⟩
  rw [← husage, evidenceOfDimension, (dimensionsOf_reflect _).reflects _ hd |>.rows, hshape]
  rfl

end Newest

/-- Every drop a pass files agrees with what the newest collect saw, exactly when this holds of
every index that was seen last: if the row it is judged on is offered a drop and nothing withholds
it, then the newest collect saw the index with the spec of that row, and, if rows of the collection
cover it, the newest collect saw a cover too. -/
theorem filed_sound_iff (reads : ClassifyReads) (host : Host) (now : Nat)
    (steps : List CollectStep) (recs : List FiledRow) :
    let collects := collectsFrom now steps
    let dims := dimensionsOf host (seenBy collects)
    (∀ row ∈ classifyCluster reads dims recs, row.IsFiled →
      AgreesWithNewest reads host collects row) ↔
      ∀ x, SeenLast collects x → reads.since ≤ x.now → withheld reads recs x.key = false →
        ∀ judged, judgedRow reads dims x.key = some judged →
          isNeverDrop judged.dimension.spec = false →
          (coversOf reads dims recs judged ≠ [] ∨ judgedDead reads recs judged = true) →
            ∃ newest, collects.getLast? = some newest ∧ x ∈ seenIn newest ∧
              judged.dimension.spec = x.seen.spec ∧
              (coversOf reads dims recs judged ≠ [] →
                SawCover newest (x.database, x.seen.collection) x.seen.spec) := by
  intro collects dims
  constructor
  · intro h x hx hsince hfree judged hjudged hdrop hcase
    -- the row that is filed of this index
    let row : FiledRow := ⟨if coversOf reads dims recs judged ≠ [] then .DROP_REDUNDANT
      else .DROP_UNUSED, .PROPOSED, .CLASSIFY, x.database, x.seen.collection, x.seen.spec.name⟩
    have hfiled : row.IsFiled := ⟨rfl, rfl, by dsimp only [row]; split <;> decide⟩
    have hlive : row.key ∈ liveKeys (classifyRows reads dims) :=
      (mem_liveKeys_iff reads _).mpr ⟨x, hx, hsince, rfl⟩
    have htype : row.type = .DROP_REDUNDANT ↔ coversOf reads dims recs judged ≠ [] := by
      dsimp only [row]
      split <;> simp_all
    have hoffered : offered reads dims recs row.type judged := by
      refine ⟨hdrop, ?_⟩
      by_cases hcovered : coversOf reads dims recs judged ≠ []
      · rwa [if_pos (htype.mpr hcovered)]
      · rw [if_neg (mt htype.mp hcovered)]
        exact ⟨not_not.mp hcovered, hcase.resolve_left hcovered⟩
    obtain ⟨newest, hnewest, y, hy, hkey, ⟨judged', hjudged', hspec, -⟩, hcover⟩ :=
      h row ((filed_iff hfiled).mpr ⟨hlive, hfree, judged, hjudged, hoffered⟩) hfiled
    have hmem := mem_seenIn_newest hnewest hx hy
    obtain rfl := List.inj_on_of_nodup_map (nodup_key_seenIn _) hmem hy hkey.symm
    obtain rfl := Option.some.inj (hjudged.symm.trans hjudged')
    exact ⟨newest, hnewest, hmem, hspec, fun hcovered => hcover (htype.mpr hcovered)⟩
  · intro h row hrow hfiled
    obtain ⟨hlive, hfree, judged, hjudged, hdrop, hcase⟩ := (filed_iff hfiled).mp hrow
    obtain ⟨x, hx, hsince, hkey⟩ := (mem_liveKeys_iff reads _).mp hlive
    rw [← hkey] at hfree hjudged
    have hargues : coversOf reads dims recs judged ≠ [] ∨ judgedDead reads recs judged = true := by
      split at hcase
      · exact .inl hcase
      · exact .inr hcase.2
    obtain ⟨newest, hnewest, hmem, hspec, hcover⟩ :=
      h x hx hsince hfree judged hjudged hdrop hargues
    refine ⟨newest, hnewest, x, hmem, hkey, ⟨judged, hkey ▸ hjudged, hspec,
      usageEvidence_of_judged hjudged hspec⟩, fun hredundant => ?_⟩
    rw [if_pos hredundant] at hcase
    have hscope : (x.database, x.seen.collection) = (row.database, row.collection) :=
      congrArg (fun key : WatchKey => (key.1, key.2.1)) hkey
    exact hscope ▸ hcover hcase

/-- A narrow index and a wider one; then the wider one is dropped by hand. -/
def droppedCover : List CollectStep :=
  let narrow := seenOrders "a_1" ["a"]
  let wide := seenOrders "a_1_b_1" ["a", "b"]
  [⟨0, [⟨"shop", [narrow, wide], by decide⟩], by decide⟩,
    ⟨0, [⟨"shop", [narrow], by decide⟩], by decide⟩]

/-- The narrow index is filed as redundant, covered by the one that is gone. -/
theorem redundant_of_dropped_cover :
    let row : FiledRow := ⟨.DROP_REDUNDANT, .PROPOSED, .CLASSIFY, "shop", "orders", "a_1"⟩
    let collects := collectsFrom 0 droppedCover
    row ∈ classifyCluster plainReads (dimensionsOf decimalHost (seenBy collects)) [] ∧
      row.IsFiled ∧ ¬ AgreesWithNewest plainReads decimalHost collects row := by
  refine ⟨by decide, ⟨rfl, rfl, by decide⟩, ?_⟩
  rintro ⟨newest, hnewest, x, hx, -, -, hcover⟩
  obtain rfl := Option.some.inj hnewest
  obtain ⟨y, hy, -, hcovers⟩ := hcover rfl
  -- the newest collect saw one index, which does not cover itself
  obtain rfl := List.mem_singleton.mp hx
  obtain rfl := List.mem_singleton.mp hy
  exact absurd hcovers (by decide)

end Indexterity
