import Indexterity.FinalizePass
import Indexterity.Library.Steps

/-!
# A pass and an un-hide request

One pass of `finalizeCluster` interleaved with `unhide` of `recommendations.service.ts`,
statement by statement. The pass loads its rows, and for each in turn lists the live indexes
and decides, calls the executor, and writes the row; the request reads its row, calls the
executor, writes the row, and returns. Both write the row by its id alone. Statements that
neither read nor write the rows and the indexes are not steps.

The pass never takes a decision back, whatever the request has done since. A cancelled row is safe
where the pass is through with the row and its index by the time the request reads the row.
-/

namespace Indexterity

open Library

inductive RequestStage where
  | arrived
  | owned (row : RecommendationRow)
  | restored
  | written
  | returned
  | refused
deriving DecidableEq

/-- What a pass does about a row: a built index that slowed writes goes, a hidden one is
judged. -/
inductive PassAction where
  | rollback
  | due (action : DueAction)
deriving DecidableEq, Repr

namespace PassAction

def drops : PassAction → Bool
  | .rollback => true
  | .due action => decide (action = .drop)

def onCluster (canHide unhideFails : Bool) (live : List IndexSpec) (name : String) :
    PassAction → List IndexSpec
  | .rollback => dropIndex live name
  | .due action => action.onCluster canHide unhideFails live name

def onRow : PassAction → RecommendationRow → RecommendationRow
  | .rollback, row => { row with state := .ROLLED_BACK }
  | .due action, row => action.onRow row

end PassAction

/-- Where a pass stands; the rows are as it loaded them. -/
inductive PassStage where
  | start
  | handling (rest : List RecommendationRow)
  | decided (row : RecommendationRow) (action : PassAction) (rest : List RecommendationRow)
  | called (row : RecommendationRow) (action : PassAction) (rest : List RecommendationRow)
  | ended

structure RaceReads where
  pass : PassReads
  rowReads : String → RowReads
  /-- The post-build watch of a row ends in a regression of its collection's writes. -/
  regressed : RecommendationRow → Bool
  /-- The row the owner cancels. -/
  id : String
  requestReadOnly : Bool
  requestCanHide : Bool
  requestUnhideFails : Bool

structure Race where
  cluster : ClusterState
  pass : PassStage
  request : RequestStage
  /-- The rows `executor.drop` was called for, with where the request stood. -/
  drops : List (RequestStage × RecommendationRow)

inductive Actor where
  | pass
  | request
deriving DecidableEq, Repr

/-! ## The pass -/

def BUILD_TYPES : List RecommendationType := [.CREATE, .UPDATE, .MERGE, .REORDER]

def RecommendationRow.isDue (row : RecommendationRow) : Bool :=
  decide (row.state = .HIDDEN) && row.hiddenAt.isSome

def rollsBack (reads : RaceReads) (row : RecommendationRow) : Bool :=
  decide (row.state = .ACTIVE) && decide (row.target.type ∈ BUILD_TYPES) &&
    reads.pass.inScope row.database && reads.regressed row

/-- The watched rows come before the due ones. Both are loaded in one step: nothing a
request writes makes or unmakes a watched row. -/
def loadRows (reads : RaceReads) (rows : List RecommendationRow) : List RecommendationRow :=
  rows.filter (rollsBack reads) ++ rows.filter RecommendationRow.isDue

def passAction (reads : RaceReads) (live : List IndexSpec) (row : RecommendationRow) :
    PassAction :=
  match row.state, row.hiddenAt with
  | .HIDDEN, some hiddenAt =>
    .due (dueAction reads.pass (reads.rowReads row.id) live row hiddenAt)
  | _, _ => .rollback

def Race.called (s : Race) (row : RecommendationRow) (action : PassAction) :
    List (RequestStage × RecommendationRow) :=
  if action.drops then s.drops ++ [(s.request, row)] else s.drops

def passTick (reads : RaceReads) (s : Race) : Race :=
  match s.pass with
  | .start =>
    if reads.pass.readOnly then { s with pass := .ended }
    else { s with pass := .handling (loadRows reads s.cluster.rows) }
  | .handling [] => { s with pass := .ended }
  | .handling (row :: rest) =>
    let live := s.cluster.indexes row.database row.collection
    { s with pass := .decided row (passAction reads live row) rest }
  | .decided row action rest =>
    let live := s.cluster.indexes row.database row.collection
    if (reads.rowReads row.id).outcome = .failed then
      { s with pass := .ended, drops := s.called row action }
    else
      { s with
        cluster := s.cluster.setIndexes row.database row.collection
          (action.onCluster reads.pass.canHide (reads.rowReads row.id).unhideFails live
            row.target.indexName)
        pass := .called row action rest
        drops := s.called row action }
  | .called row action rest =>
    if (reads.rowReads row.id).outcome = .interrupted then { s with pass := .ended }
    else
      { s with
        cluster := s.cluster.updateRow row.id action.onRow
        pass := .handling rest }
  | .ended => s

/-! ## The request -/

def cancelRow (row : RecommendationRow) : RecommendationRow :=
  { row with
    state := .REJECTED
    hiddenAt := none
    observeDays := none
    baselineReadOps := none
    baselineReadLatency := none }

def ClusterState.rowById (s : ClusterState) (id : String) : Option RecommendationRow :=
  s.rows.find? fun row => row.id == id

def requestTick (reads : RaceReads) (s : Race) : Race :=
  match s.request with
  | .arrived =>
    match s.cluster.rowById reads.id with
    | some row => { s with request := if row.state = .HIDDEN then .owned row else .refused }
    | none => { s with request := .refused }
  | .owned row =>
    if reads.requestReadOnly then { s with request := .refused }
    else if !reads.requestCanHide then { s with request := .restored }
    else if reads.requestUnhideFails then { s with request := .refused }
    else
      { s with
        cluster := s.cluster.setIndexes row.database row.collection
          (unhide (s.cluster.indexes row.database row.collection) row.target.indexName)
        request := .restored }
  | .restored =>
    match s.cluster.rowById reads.id with
    | some _ => { s with cluster := s.cluster.updateRow reads.id cancelRow, request := .written }
    | none => { s with request := .refused }
  | .written => { s with request := .returned }
  | .returned | .refused => s

/-! ## Interleavings -/

def tick (reads : RaceReads) (s : Race) : Actor → Race
  | .pass => passTick reads s
  | .request => requestTick reads s

/-- A hidden row among rows that their ids tell apart. -/
structure RaceStart where
  cluster : ClusterState
  ids_nodup : (cluster.rows.map RecommendationRow.id).Nodup
  row : RecommendationRow
  mem : row ∈ cluster.rows
  hidden : row.state = .HIDDEN

def RaceStart.race (start : RaceStart) : Race :=
  ⟨start.cluster, .start, .arrived, []⟩

def interleave (reads : RaceReads) (start : RaceStart) (schedule : List Actor) : Race :=
  schedule.foldl (tick { reads with id := start.row.id }) start.race

theorem passTick_handleDue (reads : RaceReads) (s : Race) (row : RecommendationRow)
    (rest : List RecommendationRow) (hiddenAt : Int) (hpass : s.pass = .handling (row :: rest))
    (hstate : row.state = .HIDDEN) (hhiddenAt : row.hiddenAt = some hiddenAt)
    (hcompleted : (reads.rowReads row.id).outcome = .completed) :
    (passTick reads (passTick reads (passTick reads s))).cluster =
      (handleDue reads.pass ⟨s.cluster, [], false⟩ (reads.rowReads row.id) row
        hiddenAt).cluster := by
  have haction (live : List IndexSpec) : passAction reads live row =
      .due (dueAction reads.pass (reads.rowReads row.id) live row hiddenAt) := by
    simp only [passAction, hstate, hhiddenAt]
  simp [passTick, hpass, haction, hcompleted, handleDue, PassAction.onCluster]
  rfl

/-! ## What a run keeps -/

def SameIndex (a b : RecommendationRow) : Prop :=
  a.database = b.database ∧ a.collection = b.collection ∧ a.target.indexName = b.target.indexName
  deriving Decidable

/-- After the request returned the pass drops the index no more, and the row does not end as
DROPPED. -/
def CancelHolds (row : RecommendationRow) (s : Race) : Prop :=
  (∀ call ∈ s.drops, SameIndex call.2 row → call.1 ≠ .returned) ∧
    ∀ now ∈ s.cluster.rows, now.id = row.id → now.state ≠ .DROPPED

/-- Once the request has read its row, the pass makes no call for the row's index and no write of
the row, whatever it has decided. -/
def PassFirst (row : RecommendationRow) (s : Race) : Actor → Prop
  | .request => True
  | .pass => s.request = .arrived ∨
    match s.pass with
    | .decided other _ _ => ¬ SameIndex other row
    | .called other _ _ => other.id ≠ row.id
    | _ => True

instance (row : RecommendationRow) (s : Race) (actor : Actor) :
    Decidable (PassFirst row s actor) := by
  unfold PassFirst
  split
  · infer_instance
  · exact @instDecidableOr _ _ _ (by split <;> infer_instance)

structure Cancelling (row : RecommendationRow) (s : Race) : Prop where
  ids : (s.cluster.rows.map RecommendationRow.id).Nodup
  called : ∀ call ∈ s.drops, SameIndex call.2 row → call.1 = .arrived
  kept : s.request = .arrived ∨ s.request = .refused ∨
    ∀ now ∈ s.cluster.rows, now.id = row.id → now.state ≠ .DROPPED

variable {update : RecommendationRow → RecommendationRow}

theorem ids_updateRow (s : ClusterState) (id : String) (hid : ∀ row, (update row).id = row.id) :
    (s.updateRow id update).rows.map RecommendationRow.id = s.rows.map RecommendationRow.id := by
  simp only [ClusterState.updateRow, List.map_map]
  apply List.map_congr_left
  intro row _
  simp only [Function.comp_apply]
  split_ifs
  · exact hid row
  · rfl

theorem PassAction.onRow_id (action : PassAction) (row : RecommendationRow) :
    (action.onRow row).id = row.id := by
  rcases action with _ | action
  · rfl
  · cases action <;> rfl

namespace Cancelling

variable {reads : RaceReads} {row other : RecommendationRow} {action : PassAction}
  {rest : List RecommendationRow} {s : Race} (h : Cancelling row s)
include h

theorem mem_called {call : RequestStage × RecommendationRow}
    (hfirst : s.request = .arrived ∨ ¬ SameIndex other row) (hcall : call ∈ s.called other action)
    (hsame : SameIndex call.2 row) : call.1 = .arrived := by
  unfold Race.called at hcall
  split_ifs at hcall with hdrops
  · rcases List.mem_append.mp hcall with hcall | hcall
    · exact h.called call hcall hsame
    · obtain rfl := List.mem_singleton.mp hcall
      exact hfirst.resolve_right fun hother => hother hsame
  · exact h.called call hcall hsame

theorem write (hfirst : s.request = .arrived ∨ other.id ≠ row.id) :
    Cancelling row
      { s with cluster := s.cluster.updateRow other.id action.onRow, pass := .handling rest } where
  ids := by
    rw [ids_updateRow _ _ action.onRow_id]
    exact h.ids
  called := h.called
  kept := by
    rcases hfirst with harrived | hother
    · exact .inl harrived
    · refine h.kept.imp_right (Or.imp_right fun hkept now hnow hid => ?_)
      obtain ⟨old, hold, rfl⟩ := List.mem_map.mp hnow
      split_ifs at hid ⊢ with hsame
      · exact absurd (hsame.symm.trans ((action.onRow_id old).symm.trans hid)) hother
      · exact hkept old hold hid

theorem passTick (hfirst : PassFirst row s .pass) : Cancelling row (passTick reads s) := by
  unfold PassFirst at hfirst
  unfold Indexterity.passTick
  split
  · split_ifs <;> exact ⟨h.ids, h.called, h.kept⟩
  · exact ⟨h.ids, h.called, h.kept⟩
  · exact ⟨h.ids, h.called, h.kept⟩
  · rename_i hpass
    simp only [hpass] at hfirst
    split_ifs <;> exact ⟨h.ids, fun call => h.mem_called hfirst, h.kept⟩
  · rename_i hpass
    simp only [hpass] at hfirst
    split_ifs
    · exact ⟨h.ids, h.called, h.kept⟩
    · exact h.write hfirst
  · exact h

theorem requestTick (hid : reads.id = row.id) : Cancelling row (requestTick reads s) := by
  unfold Indexterity.requestTick
  split
  · split
    · rename_i read hread
      refine ⟨h.ids, h.called, .inr ?_⟩
      split_ifs with hhidden
      · right
        intro now hnow hsame
        -- the row it read is the only one of its id
        have hmem := List.mem_of_find?_eq_some hread
        have hfound : read.id = reads.id := by simpa using List.find?_some hread
        obtain rfl : now = read :=
          List.inj_on_of_nodup_map h.ids hnow hmem (by rw [hsame, hfound, hid])
        rw [hhidden]
        decide
      · exact .inl rfl
    · exact ⟨h.ids, h.called, .inr (.inl rfl)⟩
  · rename_i hrequest
    have hkept : ∀ now ∈ s.cluster.rows, now.id = row.id → now.state ≠ .DROPPED := by
      simpa [hrequest] using h.kept
    split_ifs
    · exact ⟨h.ids, h.called, .inr (.inl rfl)⟩
    · exact ⟨h.ids, h.called, .inr (.inr hkept)⟩
    · exact ⟨h.ids, h.called, .inr (.inl rfl)⟩
    · exact ⟨h.ids, h.called, .inr (.inr hkept)⟩
  · split
    · refine ⟨?_, h.called, .inr (.inr fun now hnow hsame => ?_)⟩
      · have hids := @ids_updateRow cancelRow s.cluster reads.id fun _ => rfl
        exact hids ▸ h.ids
      · obtain ⟨old, hold, rfl⟩ := List.mem_map.mp hnow
        split_ifs at hsame ⊢ with hown
        · simp [cancelRow]
        · exact absurd (hsame.trans hid.symm) hown
    · exact ⟨h.ids, h.called, .inr (.inl rfl)⟩
  · rename_i hrequest
    have hkept : ∀ now ∈ s.cluster.rows, now.id = row.id → now.state ≠ .DROPPED := by
      simpa [hrequest] using h.kept
    exact ⟨h.ids, h.called, .inr (.inr hkept)⟩
  · exact h
  · exact h

end Cancelling

theorem cancelling_interleave (reads : RaceReads) (start : RaceStart) (schedule : List Actor)
    (hfirst : Along (tick { reads with id := start.row.id }) (PassFirst start.row) start.race
      schedule) : Cancelling start.row (interleave reads start schedule) := by
  have hstart : Cancelling start.row start.race := 
    ⟨start.ids_nodup, fun _ hcall => absurd hcall List.not_mem_nil, .inl rfl⟩
  unfold interleave
  revert hstart hfirst
  generalize start.race = s
  intro hfirst hs
  induction schedule generalizing s with
  | nil => exact hs
  | cons actor schedule ih =>
    refine ih _ hfirst.2 ?_
    cases actor with
    | pass => exact hs.passTick hfirst.1
    | request => exact hs.requestTick rfl

/-- A pass that is let alone over a due row handles it as `handleDue` does. And in every
interleaving in which the pass is through with the row and its index by the time the request reads
the row: once the request has returned, its cancel holds. -/
theorem cancelHolds_of_passFirst (reads : RaceReads) :
    (∀ (s : Race) (row : RecommendationRow) (rest : List RecommendationRow) (hiddenAt : Int),
      s.pass = .handling (row :: rest) → row.state = .HIDDEN → row.hiddenAt = some hiddenAt →
      (reads.rowReads row.id).outcome = .completed →
      (passTick reads (passTick reads (passTick reads s))).cluster =
        (handleDue reads.pass ⟨s.cluster, [], false⟩ (reads.rowReads row.id) row
          hiddenAt).cluster) ∧
    ∀ (start : RaceStart) (schedule : List Actor),
      Along (tick { reads with id := start.row.id }) (PassFirst start.row) start.race schedule →
      (interleave reads start schedule).request = .returned →
      CancelHolds start.row (interleave reads start schedule) := by
  refine ⟨passTick_handleDue reads, fun start schedule hfirst hreturned => ?_⟩
  have h := cancelling_interleave reads start schedule hfirst
  refine ⟨fun call hcall hsame => ?_, ?_⟩
  · rw [h.called call hcall hsame]
    decide
  · simpa [hreturned] using h.kept

/-- A drop observed since day zero on an engine without a reversible hide. -/
def observedRow : RecommendationRow where
  id := "r"
  database := "shop"
  collection := "orders"
  target := ⟨.DROP_UNUSED, "a_1", none⟩
  state := .HIDDEN
  hiddenAt := some 0
  observeDays := none
  baselineReadOps := none
  baselineReadLatency := none
  baselineFailedOps := none
  baselineFailedReachMs := none

def cancelledStart : RaceStart where
  cluster := ⟨fun _ _ => [ascending "a_1" ["a"]], [observedRow]⟩
  ids_nodup := by decide
  row := observedRow
  mem := List.mem_cons_self
  hidden := rfl

def cancelReads (day : Int) : RaceReads where
  pass := ⟨none, day * DAY_MS, day * DAY_MS, false, false, none, []⟩
  rowReads := fun _ => ⟨false, .NO_SOURCE "", [], ⟨fun _ => 0, []⟩, .completed⟩
  regressed := fun _ => false
  id := "r"
  requestReadOnly := false
  requestCanHide := false
  requestUnhideFails := false

/-- The pass is through with the row when the request begins. -/
def passBefore : List Actor := List.replicate 4 .pass ++ List.replicate 4 .request ++ [.pass]

/-- On the fifteenth day the row is still waiting, and the cancel holds. -/
theorem cancelHolds_waiting :
    CancelHolds cancelledStart.row (interleave (cancelReads 15) cancelledStart passBefore) :=
  (cancelHolds_of_passFirst (cancelReads 15)).2 cancelledStart passBefore (by decide +kernel)
    (by decide +kernel)

/-- The whole request runs between the load of the rows and the first decision. -/
def cancelSchedule : List Actor :=
  [.pass, .request, .request, .request, .request, .pass, .pass, .pass, .pass]

/-- On the thirty-first the pass drops the index after the request has returned, and the row
ends as DROPPED. -/
theorem cancel_overrun :
    (interleave (cancelReads 31) cancelledStart cancelSchedule).request = .returned ∧
      ¬ CancelHolds cancelledStart.row
        (interleave (cancelReads 31) cancelledStart cancelSchedule) := by
  unfold CancelHolds
  decide +kernel

end Indexterity
