import Indexterity.CollectBatch
import Indexterity.IndexSpec
import Indexterity.UsageEvidence

/-!
# Cluster rows: what a history of collects leaves of every index

`dimensionIds` and `recordSnapshots` of `jobs/collect.ts`, for the whole cluster. A collect reads
the databases it can reach and skips the others. An index has a dimension row for every shape it
was seen in, where being hidden is no part of the shape; the stored spec follows the flag. Time
passes between collects, so no run of one overlaps a run of another.

A dimension's runs reach exactly to the last collect that saw its shape, and its spec is the one
that collect saw.
-/

namespace Indexterity

open Library

/-- An index as a collect read it. The order of properties is no part of a spec: `canonicalSpec`
puts those of a filter in the order of their names. -/
structure SeenIndex where
  collection : String
  spec : IndexSpec
  perMember : List MemberUsage
  canonical : ∀ filter ∈ spec.partialFilter, (filter.map Prod.fst).Pairwise (· < ·)

/-- A database that could be read. The server lists every index of a collection once. -/
structure DatabaseRead where
  database : String
  indexes : List SeenIndex
  distinct : (indexes.map fun seen => (seen.collection, seen.spec.name)).Nodup

/-- What a collect read; an inaccessible database is not among it. -/
structure ClusterCollect where
  reads : List DatabaseRead
  distinct : (reads.map DatabaseRead.database).Nodup

structure CollectStep where
  wait : Nat
  collect : ClusterCollect

structure Sighting where
  now : Int
  database : String
  seen : SeenIndex

abbrev WatchKey := String × String × String

def watchKey (database collection indexName : String) : WatchKey :=
  (database, collection, indexName)

def withoutHidden (spec : IndexSpec) : IndexSpec := { spec with hidden := false }

/-- `shapeKey`. -/
structure ShapeKey where
  database : String
  collection : String
  spec : IndexSpec
deriving DecidableEq

structure Dimension where
  database : String
  collection : String
  spec : IndexSpec
  rows : List SnapshotRow

def Dimension.shape (d : Dimension) : ShapeKey := ⟨d.database, d.collection, withoutHidden d.spec⟩

def Dimension.key (d : Dimension) : WatchKey := watchKey d.database d.collection d.spec.name

namespace Sighting

def shape (x : Sighting) : ShapeKey := ⟨x.database, x.seen.collection, withoutHidden x.seen.spec⟩

def key (x : Sighting) : WatchKey := watchKey x.database x.seen.collection x.seen.spec.name

def collect (x : Sighting) : Collect := ⟨x.now, x.seen.perMember⟩

end Sighting

section Writer
variable (host : Host)

def Dimension.record (d : Dimension) (x : Sighting) : Dimension :=
  { d with spec := x.seen.spec, rows := recordSnapshots host d.rows x.collect }

/-- A shape that was seen before keeps its row, another one adds a row. -/
def recordSeen (dims : List Dimension) (x : Sighting) : List Dimension :=
  if x.shape ∈ dims.map Dimension.shape then
    dims.map fun d => if d.shape = x.shape then d.record host x else d
  else dims ++ [Dimension.record host ⟨x.database, x.seen.collection, x.seen.spec, []⟩ x]

def dimensionsOf (seen : List Sighting) : List Dimension := seen.foldl (recordSeen host) []

end Writer

def collectsFrom (now : Nat) : List CollectStep → List (Nat × ClusterCollect)
  | [] => []
  | step :: steps =>
    (now + step.wait + 1, step.collect) :: collectsFrom (now + step.wait + 1) steps

def seenIn (collect : Nat × ClusterCollect) : List Sighting :=
  collect.2.reads.flatMap fun read => read.indexes.map fun seen => ⟨collect.1, read.database, seen⟩

def seenBy (collects : List (Nat × ClusterCollect)) : List Sighting := collects.flatMap seenIn

/-! ## One dimension -/

variable {d : Dimension} {seen : List Sighting} {x : Sighting}

section Dimensions
variable {host : Host}

theorem shape_record (h : d.shape = x.shape) : (d.record host x).shape = x.shape := by
  simp only [Dimension.shape, Sighting.shape, ShapeKey.mk.injEq] at h ⊢
  exact ⟨h.1, h.2.1, rfl⟩

theorem map_shape_recordSeen (dims : List Dimension) (x : Sighting) :
    (recordSeen host dims x).map Dimension.shape =
      if x.shape ∈ dims.map Dimension.shape then dims.map Dimension.shape
      else dims.map Dimension.shape ++ [x.shape] := by
  unfold recordSeen
  split
  · rw [List.map_map]
    refine List.map_congr_left fun d _ => ?_
    dsimp only [Function.comp_apply]
    split
    · rename_i heq
      rw [shape_record heq, heq]
    · rfl
  · rw [List.map_append]
    rfl

/-- What a history leaves of a shape: the runs of the collects that saw it, and the spec that the
last of them saw. -/
structure Dimension.Reflects (host : Host) (seen : List Sighting) (d : Dimension) : Prop where
  rows : d.rows = collected host ((seen.filter fun x => decide (x.shape = d.shape)).map
    Sighting.collect)
  spec : ∃ x, (seen.filter fun x => decide (x.shape = d.shape)).getLast? = some x ∧
    x.seen.spec = d.spec

theorem Dimension.Reflects.other (h : d.Reflects host seen) (hx : d.shape ≠ x.shape) :
    d.Reflects host (seen ++ [x]) := by
  have hfilter : ((seen ++ [x]).filter fun y => decide (y.shape = d.shape)) =
      seen.filter fun y => decide (y.shape = d.shape) := by
    simp [Ne.symm hx]
  exact ⟨by rw [hfilter]; exact h.rows, by rw [hfilter]; exact h.spec⟩

theorem Dimension.reflects_record (hshape : d.shape = x.shape)
    (hrows : d.rows = collected host ((seen.filter fun y => decide (y.shape = d.shape)).map
      Sighting.collect)) : (d.record host x).Reflects host (seen ++ [x]) := by
  have hfilter : ((seen ++ [x]).filter fun y => decide (y.shape = (d.record host x).shape)) =
      (seen.filter fun y => decide (y.shape = d.shape)) ++ [x] := by
    rw [shape_record hshape, hshape]
    simp
  constructor
  · rw [hfilter, List.map_append, collected, List.map_singleton, List.foldl_concat]
    exact congrArg (recordSnapshots host · x.collect) hrows
  · exact ⟨x, by rw [hfilter, List.getLast?_concat], rfl⟩

/-- The dimensions are those of the shapes that were seen, one for each. -/
structure DimensionsReflect (host : Host) (seen : List Sighting) (dims : List Dimension) :
    Prop where
  distinct : (dims.map Dimension.shape).Nodup
  reflects : ∀ d ∈ dims, d.Reflects host seen
  all : ∀ x ∈ seen, x.shape ∈ dims.map Dimension.shape

theorem DimensionsReflect.step {dims : List Dimension} (h : DimensionsReflect host seen dims)
    (x : Sighting) (hnew : x.shape ∉ dims.map Dimension.shape → ∀ y ∈ seen, y.shape ≠ x.shape) :
    DimensionsReflect host (seen ++ [x]) (recordSeen host dims x) := by
  have hshapes := @map_shape_recordSeen host dims x
  by_cases hmem : x.shape ∈ dims.map Dimension.shape
  · rw [if_pos hmem] at hshapes
    refine ⟨hshapes ▸ h.distinct, ?_, ?_⟩
    · rw [recordSeen, if_pos hmem]
      refine List.forall_mem_map.mpr fun d hd => ?_
      by_cases heq : d.shape = x.shape
      · rw [if_pos heq]
        exact Dimension.reflects_record heq (h.reflects d hd).rows
      · rw [if_neg heq]
        exact (h.reflects d hd).other heq
    · rw [hshapes]
      exact List.forall_mem_append.mpr ⟨h.all, by simpa using hmem⟩
  · rw [if_neg hmem] at hshapes
    refine ⟨?_, ?_, ?_⟩
    · rw [hshapes]
      exact List.nodup_append.mpr ⟨h.distinct, List.nodup_singleton _, fun a ha b hb heq =>
        hmem (List.mem_singleton.mp hb ▸ heq ▸ ha)⟩
    · rw [recordSeen, if_neg hmem]
      refine List.forall_mem_append.mpr ⟨fun d hd => ?_, fun d hd => ?_⟩
      · exact (h.reflects d hd).other fun heq => hmem (heq ▸ List.mem_map_of_mem hd)
      · rw [List.mem_singleton.mp hd]
        refine Dimension.reflects_record rfl ?_
        have hnone : (seen.filter fun y => decide (y.shape = x.shape)) = [] :=
          List.filter_eq_nil_iff.mpr fun y hy => by simpa using hnew hmem y hy
        exact (congrArg (fun ys => collected host (ys.map Sighting.collect)) hnone).symm
    · rw [hshapes]
      exact List.forall_mem_append.mpr ⟨fun y hy => List.mem_append_left _ (h.all y hy), by simp⟩

theorem dimensionsOf_reflect (seen : List Sighting) :
    DimensionsReflect host seen (dimensionsOf host seen) := by
  induction seen using List.reverseRecOn with
  | nil => exact ⟨List.nodup_nil, List.forall_mem_nil _, List.forall_mem_nil _⟩
  | append_singleton seen x ih =>
    have hstep := ih.step x fun hmem y hy heq => hmem (heq ▸ ih.all y hy)
    rw [dimensionsOf, List.foldl_concat]
    exact hstep

end Dimensions

/-! ## How far runs reach -/

section Reach
variable {host : Host}

/-- The newest run was last confirmed at an instant, and no run ends behind it. -/
structure Reaches (rows : List SnapshotRow) (instant : Int) : Prop where
  attained : ∃ row ∈ rows, row.lastSeenAt = instant
  forward : ∀ row ∈ rows, row.capturedAt ≤ row.lastSeenAt
  past : ∀ row ∈ rows, row.lastSeenAt ≤ instant

theorem reaches_recordSnapshots {rows : List SnapshotRow} {c : Collect}
    (hforward : ∀ row ∈ rows, row.capturedAt ≤ row.lastSeenAt)
    (hlater : ∀ row ∈ rows, row.lastSeenAt < c.now) :
    Reaches (recordSnapshots host rows c) c.now := by
  have hold : ∀ row ∈ rows, row.capturedAt ≤ row.lastSeenAt ∧ row.lastSeenAt ≤ c.now :=
    fun row hrow => ⟨hforward row hrow, (hlater row hrow).le⟩
  have hreaches : ∀ written : List SnapshotRow, (∃ row ∈ written, row.lastSeenAt = c.now) →
      (∀ row ∈ written, row.capturedAt ≤ row.lastSeenAt ∧ row.lastSeenAt ≤ c.now) →
        Reaches written c.now :=
    fun written hnow hall =>
      ⟨hnow, fun row hrow => (hall row hrow).1, fun row hrow => (hall row hrow).2⟩
  cases hsplit : splitNewest rows with
  | none =>
    rw [recordSnapshots_none hsplit]
    exact hreaches _ ⟨_, List.mem_singleton_self _, rfl⟩ (by simp [insertedRow])
  | some split =>
    obtain ⟨older, run, rest⟩ := split
    obtain ⟨hrows, -⟩ := splitNewest_spec hsplit
    rw [hrows, List.forall_mem_append, List.forall_mem_cons] at hold
    obtain ⟨holder, hrun, hrest⟩ := hold
    cases hextends : extendsNewest host run c with
    | true =>
      rw [recordSnapshots_extend hsplit hextends]
      refine hreaches _ ⟨extendedRow run c.now, by simp, rfl⟩ ?_
      refine List.forall_mem_append.mpr ⟨holder, List.forall_mem_cons.mpr ⟨?_, hrest⟩⟩
      exact ⟨hrun.1.trans hrun.2, le_rfl⟩
    | false =>
      have htrim : (trimSupersededMembers run).capturedAt = run.capturedAt ∧
          (trimSupersededMembers run).lastSeenAt = run.lastSeenAt :=
        Prod.mk.inj (spanOf_trimSupersededMembers run)
      rw [recordSnapshots_insert hsplit hextends]
      refine hreaches _ ⟨_, List.mem_append_right _ (List.mem_singleton_self _), rfl⟩ ?_
      refine List.forall_mem_append.mpr ⟨List.forall_mem_append.mpr ⟨holder,
        List.forall_mem_cons.mpr ⟨?_, hrest⟩⟩, by simp [insertedRow]⟩
      rw [htrim.1, htrim.2]
      exact hrun

theorem reaches_collected {cs : List Collect} {c : Collect}
    (h : (cs ++ [c]).Pairwise fun a b => a.now < b.now) :
    Reaches (collected host (cs ++ [c])) c.now := by
  have hconcat : collected host (cs ++ [c]) = recordSnapshots host (collected host cs) c :=
    List.foldl_concat ..
  rw [hconcat]
  rcases cs.eq_nil_or_concat with rfl | ⟨before, last, hcs⟩
  · exact reaches_recordSnapshots (List.forall_mem_nil _) (List.forall_mem_nil _)
  · rw [List.concat_eq_append] at hcs
    subst hcs
    obtain ⟨hbefore, -, hlt⟩ := List.pairwise_append.mp h
    have hlast := reaches_collected hbefore
    exact reaches_recordSnapshots hlast.forward fun row hrow =>
      (hlast.past row hrow).trans_lt (hlt last (by simp) c (by simp))
termination_by cs.length
decreasing_by simp_all

theorem newestEndMs_usageEvidence {rows : List SnapshotRow} {instant : Int}
    (h : Reaches rows instant) (server : TextServer) (since minBlindMs : Int) :
    (since ≤ instant → ∃ fold, usageEvidence server since minBlindMs rows = some fold ∧
      fold.newestEndMs = some instant) ∧
    (instant < since → usageEvidence server since minBlindMs rows = none) := by
  have hends : (pricedFrom server none (Sql.orderBy SnapshotRow.capturedAt
      (keptSince since rows))).map PricedRow.spanEnd =
        (Sql.orderBy SnapshotRow.capturedAt (keptSince since rows)).map spanEndOf :=
    map_pricedFrom _ _ (fun _ _ => rfl) none _
  have hperm := Sql.orderBy_perm SnapshotRow.capturedAt (keptSince since rows)
  constructor
  · intro hle
    obtain ⟨row, hrow, hnow⟩ := h.attained
    have hkept : row ∈ keptSince since rows :=
      List.mem_filter.mpr ⟨hrow, decide_eq_true (hnow.symm ▸ hle)⟩
    have hend : ∀ r ∈ rows, spanEndOf r = r.lastSeenAt := fun r hr => max_eq_left (h.forward r hr)
    have hmax : ((Sql.orderBy SnapshotRow.capturedAt (keptSince since rows)).map spanEndOf).max? =
        some instant := by
      rw [List.max?_eq_some_iff]
      refine ⟨List.mem_map.mpr ⟨row, hperm.mem_iff.mpr hkept, (hend row hrow).trans hnow⟩,
        List.forall_mem_map.mpr fun r hr => ?_⟩
      have hr' : r ∈ rows := List.mem_of_mem_filter (hperm.mem_iff.mp hr)
      exact (hend r hr').trans_le (h.past r hr')
    unfold usageEvidence usageRow
    dsimp only
    rw [hends, hmax]
    exact ⟨_, rfl, rfl⟩
  · intro hlt
    have hnone : keptSince since rows = [] := List.filter_eq_nil_iff.mpr fun row hrow => by
      have := h.past row hrow
      simp
      omega
    unfold usageEvidence
    rw [hnone]
    rfl

end Reach

/-! ## Histories -/

section Histories

theorem collectsFrom_increasing (now : Nat) (steps : List CollectStep) :
    (collectsFrom now steps).Pairwise (fun a b => a.1 < b.1) ∧
      ∀ c ∈ collectsFrom now steps, now < c.1 := by
  induction steps generalizing now with
  | nil => exact ⟨.nil, nofun⟩
  | cons step steps ih =>
    obtain ⟨hpairs, hlater⟩ := ih (now + step.wait + 1)
    refine ⟨List.pairwise_cons.mpr ⟨hlater, hpairs⟩, List.forall_mem_cons.mpr ⟨?_, fun c hc => ?_⟩⟩
    · exact Nat.lt_succ_of_le (Nat.le_add_right _ _)
    · exact (Nat.lt_succ_of_le (Nat.le_add_right _ _)).trans (hlater c hc)

theorem now_of_mem_seenIn {c : Nat × ClusterCollect} (hx : x ∈ seenIn c) : x.now = c.1 := by
  obtain ⟨read, -, hx⟩ := List.mem_flatMap.mp hx
  obtain ⟨seen, -, rfl⟩ := List.mem_map.mp hx
  rfl

theorem key_of_shape {y : Sighting} (h : x.shape = y.shape) : x.key = y.key := by
  simp only [Sighting.shape, ShapeKey.mk.injEq] at h
  have hname : (withoutHidden x.seen.spec).name = (withoutHidden y.seen.spec).name :=
    congrArg IndexSpec.name h.2.2
  exact Prod.ext h.1 (Prod.ext h.2.1 hname)

theorem nodup_key_seenIn (c : Nat × ClusterCollect) : ((seenIn c).map Sighting.key).Nodup := by
  have hkeys : (seenIn c).map Sighting.key = c.2.reads.flatMap fun read =>
      read.indexes.map fun seen => watchKey read.database seen.collection seen.spec.name := by
    simp [seenIn, List.map_flatMap, Function.comp_def, Sighting.key]
  rw [hkeys, List.nodup_flatMap]
  refine ⟨fun read _ => ?_, ?_⟩
  · have hdistinct := read.distinct.map (f := Prod.mk read.database) fun a b h => (Prod.mk.inj h).2
    rwa [List.map_map] at hdistinct
  · refine (List.pairwise_map.mp c.2.distinct).imp fun hne => ?_
    intro key ha hb
    obtain ⟨_, -, rfl⟩ := List.mem_map.mp ha
    obtain ⟨_, -, heq⟩ := List.mem_map.mp hb
    exact hne (Prod.mk.inj heq).1.symm

variable {now : Nat} {steps : List CollectStep}

theorem seenBy_later : (seenBy (collectsFrom now steps)).Pairwise fun x y =>
    x.shape = y.shape → x.now < y.now := by
  refine List.pairwise_flatMap.mpr ⟨fun c _ => ?_, ?_⟩
  · refine (List.pairwise_map.mp (nodup_key_seenIn c)).imp fun hne hshape => ?_
    exact absurd (key_of_shape hshape) hne
  · refine (collectsFrom_increasing now steps).1.imp fun {a b} hlt x hx y hy _ => ?_
    rw [now_of_mem_seenIn hx, now_of_mem_seenIn hy]
    exact Int.ofNat_lt.mpr hlt

/-- The runs of a dimension reach to the last collect that saw its shape, and its spec is the one
that collect saw. -/
theorem dimension_last_seen {host : Host}
    (hd : d ∈ dimensionsOf host (seenBy (collectsFrom now steps))) :
    ∃ x ∈ seenBy (collectsFrom now steps), x.shape = d.shape ∧ x.seen.spec = d.spec ∧
      Reaches d.rows x.now ∧
      ∀ y ∈ seenBy (collectsFrom now steps), y.shape = d.shape → y.now ≤ x.now := by
  have hreflects := (@dimensionsOf_reflect host _).reflects d hd
  obtain ⟨x, hlast, hspec⟩ := hreflects.spec
  obtain ⟨before, hfilter⟩ := List.getLast?_eq_some_iff.mp hlast
  have hmem : x ∈ (seenBy (collectsFrom now steps)).filter fun y => decide (y.shape = d.shape) :=
    List.mem_of_getLast? hlast
  -- all the sightings of one shape are apart in time
  have hpairs : (before ++ [x]).Pairwise fun a b => a.now < b.now := by
    rw [← hfilter]
    refine (seenBy_later.filter _).imp_of_mem fun {a b} ha hb hlater => hlater ?_
    rw [of_decide_eq_true (List.mem_filter.mp ha).2, of_decide_eq_true (List.mem_filter.mp hb).2]
  refine ⟨x, (List.mem_filter.mp hmem).1, of_decide_eq_true (List.mem_filter.mp hmem).2, hspec,
    ?_, fun y hy hshape => ?_⟩
  · rw [hreflects.rows, hfilter, List.map_append]
    refine reaches_collected (c := x.collect) ?_
    rw [← List.map_singleton, ← List.map_append]
    exact List.pairwise_map.mpr hpairs
  · have hy' : y ∈ before ++ [x] := hfilter ▸ List.mem_filter.mpr ⟨hy, decide_eq_true hshape⟩
    rcases List.mem_append.mp hy' with hbefore | hx
    · exact ((List.pairwise_append.mp hpairs).2.2 y hbefore x (List.mem_singleton_self x)).le
    · rw [List.mem_singleton.mp hx]

end Histories

end Indexterity
