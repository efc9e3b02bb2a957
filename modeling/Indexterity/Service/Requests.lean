import Indexterity.Service.World

/-!
# Service: requests

`approve`, `rollback`, `unhide` and `shortenObserveWindow` of
`recommendations/recommendations.service.ts`, and `preflightDrop` of `jobs/preflight.ts` by
its reads.
-/

namespace Indexterity.Service

open Library

abbrev Prog := Program Op Op.Ans Thrown

abbrev ask (op : Op) : Prog op.Ans := Program.ask op

def notFound : Thrown := .refused ⟨.NOT_FOUND, "recommendation not found"⟩

def conflict (message : String) : Thrown := .refused ⟨.CONFLICT, message⟩

def approve (id orgId : String) : Prog Unit := do
  match ← ask (.ownedForApproval id orgId) with
  | none => .raise notFound
  | some owned =>
    if !inSelection owned.observedDatabases owned.database then
      .raise (conflict (owned.database ++ " is not one of the databases this cluster observes — " ++
        "reload the page, or add it back in the cluster's settings."))
    else if owned.readOnly then
      .raise (conflict ("this cluster is read-only, so nothing can be applied to it — " ++
        "switch it to live in the cluster's settings first."))
    else
      let updated : Bool ← ask (.updateRow id .approved)
      if updated then pure () else .raise notFound

/-- The index `create` is called for when a drop is undone: `rebuildKeys` and
`rebuildOptions`. -/
def rebuiltIndex (spec : IndexSpec) : Option IndexSpec :=
  (rebuildKeys spec).map fun keys =>
    { name := spec.name
      keys := keys.map readKey
      unique := spec.unique
      ttl := false
      isPartial := spec.partialFilter.isSome
      partialFilter := spec.partialFilter
      sparse := spec.sparse
      hidden := false
      isShardKey := false
      collation := spec.collation
      includes := spec.includes }

def rollbackCorrection (rec : Recommendation) : RoiMetric :=
  ⟨rec.id, -rec.estimatedBytesSaved, -1⟩

def recordRollback (rec : Recommendation) : Prog Unit := do
  ask (.insertRoi (rollbackCorrection rec))
  ask (.park rec.database rec.collection rec.target.indexName)
  let updated : Bool ← ask (.updateRow rec.id .undone)
  if updated then ask (.insertAction ⟨rec.id, .ROLLBACK, none⟩) else .raise notFound

def rollback (id orgId : String) : Prog Unit := do
  match ← ask (.ownedBy id orgId) with
  | none => .raise notFound
  | some rec =>
    if rec.state ≠ .DROPPED then .raise (conflict "only a dropped index can be undone")
    else
      let dropActions ← ask (.dropActionsFor rec.id)
      match dropActions.findSome? Action.rollbackToken with
      | none => .raise (conflict "no rollback token recorded for this drop")
      | some spec =>
        match rebuiltIndex spec with
        | none => .raise (conflict "stored spec cannot be rebuilt automatically")
        | some index =>
          let session ← ask .openSession
          if session.readOnly then .raise (conflict "cluster is read-only")
          else
            let _ ← ask (.create .undo rec.claim index)
            recordRollback rec

def recordUnhide (rec : Recommendation) : Prog Unit := do
  ask (.park rec.database rec.collection rec.target.indexName)
  let updated : Bool ← ask (.updateRow rec.id .cancelled)
  if updated then ask (.insertAction ⟨rec.id, .HIDE, none⟩) else .raise notFound

def unhide (id orgId : String) : Prog Unit := do
  match ← ask (.ownedBy id orgId) with
  | none => .raise notFound
  | some rec =>
    if rec.state ≠ .HIDDEN then .raise (conflict "only a hidden index can be un-hidden")
    else
      let session ← ask .openSession
      if session.readOnly then .raise (conflict "cluster is read-only")
      else if session.canHide then
        ask (.unhide .request rec.claim)
        recordUnhide rec
      else recordUnhide rec

def servedDays (now hiddenAt : Int) : ℚ := max 1 (⌈((now - hiddenAt : Int) : ℚ) / DAY_MS⌉ : Int)

def shortenObserveWindow (id orgId : String) (days : Option ℚ) : Prog Unit := do
  match ← ask (.ownedBy id orgId) with
  | none => .raise notFound
  | some rec =>
    match rec.state, rec.hiddenAt with
    | .HIDDEN, some hiddenAt =>
      let settings ← ask .settings
      let current := rec.observeDays.getD
        ((settings.policy.map FinalizePolicy.observeWindowDays).getD DEFAULT_OBSERVE_DAYS)
      let served := servedDays settings.now hiddenAt
      let wanted := days.getD served
      if current ≤ wanted then
        .raise (.badRequest ("this drop is already observing for " ++ toString current ++
          " day(s) — a window can be shortened here, never lengthened"))
      else if wanted < served then
        .raise (.badRequest ("this index has been hidden for " ++ toString served ++
          " day(s); the window cannot be shortened below what it has already observed"))
      else
        let updated : Bool ← ask (.updateRow rec.id (.shortened wanted))
        if updated then ask (.insertAction ⟨rec.id, .HIDE, none⟩) else .raise notFound
    | _, _ => .raise (conflict "only a hidden index has an observe window")

/-! ## Preflight -/

def refusedBySpecs (specs : List IndexSpec) (spec : IndexSpec) (target : DropTarget) : Bool :=
  (protectedRefusal specs spec target.supersededBy).isSome || (coverRefusal specs spec target).isSome

def usageFor (rec : Recommendation) : Prog (String → Int) :=
  if rec.target.type = .DROP_UNUSED then ask (.collectUsage rec.database rec.collection)
  else pure fun _ => 0

/-- Each read is made only where the gates before it let the drop through. -/
def preflight (rec : Recommendation) : Prog PreflightResult := do
  let specs ← ask (.listIndexes rec.database rec.collection)
  match specNamed specs rec.target.indexName with
  | none => pure (preflightDrop specs ⟨fun _ => 0, []⟩ rec.target)
  | some spec =>
    if refusedBySpecs specs spec rec.target then
      pure (preflightDrop specs ⟨fun _ => 0, []⟩ rec.target)
    else
      let usage ← usageFor rec
      if (usageRefusal ⟨usage, []⟩ spec rec.target).isSome then
        pure (preflightDrop specs ⟨usage, []⟩ rec.target)
      else
        let hinted ← ask (.collectHintedIndexes rec.database rec.collection)
        pure (preflightDrop specs ⟨usage, hinted⟩ rec.target)

end Indexterity.Service
