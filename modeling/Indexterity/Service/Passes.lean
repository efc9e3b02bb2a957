import Indexterity.Service.Requests

/-!
# Service: passes

`applyCluster` of `jobs/apply.ts` with `withdrawHinted` of `jobs/failure-watch.ts`,
`applyCreatesForCluster` of `jobs/create.ts`, `settleBuildsForCluster` of `jobs/building.ts`
and `finalizeCluster` of `jobs/finalize.ts`, call by call.
-/

namespace Indexterity.Service

open Library Program

/-! ## Apply -/

/-- When the watch of a row's collection began, where its database is watched. -/
def watchedSince (watches : Watches) (rec : Recommendation) : Option Int :=
  match watches.lookup rec.database with
  | some (.WATCHED since) => some ((since.lookup (rec.database ++ "." ++ rec.collection)).getD 0)
  | _ => none

structure Withdrawal where
  withdrawn : List String
  hintsOn : List ((String × String) × List String)

def hintsFor (state : Withdrawal) (rec : Recommendation) : Prog (List String) :=
  match state.hintsOn.lookup (rec.database, rec.collection) with
  | some hints => pure hints
  | none => ask (.hintedOrNone rec.database rec.collection)

def withdrawRow (watches : Watches) (state : Withdrawal) (rec : Recommendation) :
    Prog Withdrawal :=
  if rec.target.type ∉ HIDE_TYPES ∨ (watchedSince watches rec).isNone then pure state
  else do
    let hints ← hintsFor state rec
    let hintsOn := ((rec.database, rec.collection), hints) :: state.hintsOn
    if hints.contains rec.target.indexName then
      let _ ← ask (.updateRow rec.id .withdrawn)
      ask (.insertAction ⟨rec.id, .HIDE, none⟩)
      pure ⟨rec.id :: state.withdrawn, hintsOn⟩
    else pure { state with hintsOn }

def withdrawHinted (watches : Watches) : Prog (List String) :=
  if watches.isEmpty then pure []
  else do
    let approved ← ask (.selectRows .approved)
    let state ← eachFrom (withdrawRow watches) ⟨[], []⟩ approved
    pure state.withdrawn

def noteHideFailure (id : String) : Prog Unit := do
  let noted : Bool ← ask (.lastHideLine id)
  if noted then pure () else ask (.insertAction ⟨id, .HIDE, none⟩)

/-- The catch of the hide loop: what to report, and whether this pass hid the index. -/
def hideFailed (rec : Recommendation) (hiddenOnCluster : Bool) (error : Thrown) :
    Prog (Option Thrown) := do
  if hiddenOnCluster then
    (ask (.unhide .putBack rec.claim)).handle (fun _ => pure ()) pure
  noteHideFailure rec.id
  pure (some error)

def hideRecorded (rec : Recommendation) (spec : Option IndexSpec) : Prog (Option Thrown) :=
  (do ask (.insertAction ⟨rec.id, .HIDE, spec⟩)
      ask .notify).handle (fun error => pure (some error)) fun _ => pure none

def failedBefore : FailedOpsReading × Int → Option FailureSample
  | (.WINDOW window, reachMs) => some ⟨window.suspect, reachMs⟩
  | _ => none

def recordHidden (canHide : Bool) (since : Option Int) (rec : Recommendation) (hiddenAt : Int) :
    Prog Unit := do
  let (baseline, failures) ←
    if canHide then do
      let sample ← ask (.readLatency rec.database rec.collection)
      let reading ← ask (.collectFailedOps rec.database rec.collection (since.getD 0)
        rec.target.indexName)
      pure (some sample, failedBefore reading)
    else pure (none, none)
  let days ← ask (.dynamicObserveDays rec.claim)
  let _ ← ask (.updateRow rec.id (.hidden ⟨hiddenAt, days, baseline, failures⟩))
  pure ()

def reproposeRow (rec : Recommendation) : Prog Unit := do
  let _ ← ask (.updateRow rec.id .reproposed)
  ask (.insertAction ⟨rec.id, .HIDE, none⟩)

/-- The `try` of the hide loop, in the stretches its catch tells apart: before the hide,
behind it, and once the row has moved. -/
def hideRow (canHide : Bool) (since : Option Int) (rec : Recommendation) :
    Prog (Option Thrown) :=
  (preflight rec).handle (hideFailed rec false) fun check =>
    if !check.safe then (reproposeRow rec).handle (hideFailed rec false) fun _ => pure none
    else if canHide then
      (ask (.hide rec.claim)).handle (hideFailed rec false) fun hiddenAt =>
        (recordHidden canHide since rec hiddenAt).handle (hideFailed rec true) fun _ =>
          hideRecorded rec check.spec
    else
      (ask .clock).handle (hideFailed rec false) fun hiddenAt =>
        (recordHidden canHide since rec hiddenAt).handle (hideFailed rec false) fun _ =>
          hideRecorded rec check.spec

def skipsHide (session : Session) (watches : Watches) (withdrawn : List String) (now : Int)
    (rec : Recommendation) : Bool :=
  withdrawn.contains rec.id || !inSelection session.observedDatabases rec.database ||
    decide (rec.target.type ∉ HIDE_TYPES) ||
    (watchedSince watches rec).any fun since => decide (now - since < FAILURE_BASELINE_MS)

def applyRow (session : Session) (watches : Watches) (withdrawn : List String)
    (failed : List Thrown) (rec : Recommendation) : Prog (List Thrown) := do
  let now : Int ← ask .clock
  if skipsHide session watches withdrawn now rec then pure failed
  else
    let error ← hideRow session.canHide (watchedSince watches rec) rec
    pure (failed ++ error.toList)

def promoteByScore (threshold : Option Int) : Prog Unit :=
  match threshold with
  | none => pure ()
  | some threshold => ask (.promoteByScore threshold)

def hideApproved (approved : List Recommendation) : Prog Unit := do
  let session ← ask .openSession
  if session.readOnly then pure ()
  else
    let watches ← ask .keepFailureWatches
    let withdrawn ← withdrawHinted watches
    ask .note
    let failed ← eachFrom (applyRow session watches withdrawn) [] approved
    match failed with
    | [] => pure ()
    | error :: _ => .raise error

def applyCluster : Prog Unit := do
  let settings ← ask .settings
  promoteByScore settings.autoApplyScore
  let approved ← ask (.selectRows .approved)
  if approved.isEmpty || !settings.windowOpen then pure () else hideApproved approved

/-! ## Builds -/

def closeUnbuilt (rec : Recommendation) : Prog Unit := do
  let _ ← ask (.updateRow rec.id .unbuilt)
  ask (.insertAction ⟨rec.id, .CREATE, none⟩)

/-- The baseline is read where the index is there, and the row moves to ACTIVE. -/
def recordBuilt (rec : Recommendation) : Prog Unit := do
  let (writes, builtAt) ← ask (.collectionLatency rec.database rec.collection)
  let _ ← ask (.updateRow rec.id (.built builtAt writes))
  ask (.insertAction ⟨rec.id, .CREATE, none⟩)

def recordScheduled (rec : Recommendation) : Prog Unit := do
  let _ ← ask (.updateRow rec.id .building)
  ask (.insertAction ⟨rec.id, .CREATE, none⟩)

def buildFailed (rec : Recommendation) : Thrown → Prog Unit
  | .buildRefused _ => closeUnbuilt rec
  | error => .raise error

def Recommendation.buildRow (rec : Recommendation) (target : TargetSpec) : BuildRow :=
  ⟨rec.target.type, rec.target.indexName, target⟩

def buildRow (rec : Recommendation) : Prog Unit :=
  match rec.targetSpec with
  | none => pure ()
  | some target =>
    if target.keys.isEmpty then pure ()
    else if rec.target.type = .REORDER ∧ target.options.isNone then
      ask (.insertAction ⟨rec.id, .CREATE, none⟩)
    else do
      let live ← ask (.listIndexes rec.database rec.collection)
      if (notWorthBuilding (rec.buildRow target).spec live).isSome then closeUnbuilt rec
      else
        (ask (.create .build rec.claim (builtIndex (rec.buildRow target)))).handle
          (buildFailed rec) fun
            | .SCHEDULED => recordScheduled rec
            | .BUILT => recordBuilt rec

def applyCreates : Prog Unit := do
  let approved ← ask (.selectRows .approvedBuilds)
  if approved.isEmpty then pure ()
  else
    let settings ← ask .settings
    let buildable := if settings.windowOpen then approved else approved.filter Recommendation.urgent
    if buildable.isEmpty then pure ()
    else
      let session ← ask .openSession
      if session.readOnly then pure () else each buildable buildRow

def settleRow (rec : Recommendation) : Prog Unit := do
  match (← ask (.settleBuild rec.claim)).1 with
  | .PENDING => pure ()
  | .FAILED _ =>
    let _ ← ask (.updateRow rec.id .retried)
    ask (.insertAction ⟨rec.id, .CREATE, none⟩)
  | .READY => recordBuilt rec

/-- An engine without `settleBuild` has no scheduled builds. -/
def settleBuilds : Prog Unit := do
  let building ← ask (.selectRows .building)
  if building.isEmpty then pure ()
  else
    let _ ← ask .openSession
    each building settleRow

/-! ## Finalize: the post-build watch -/

def CUMULATIVE_REGRESSION_OPTIONS : RegressionOptions := ⟨13 / 10, 20⟩

def chain (watched : List Recommendation) (rec : Recommendation) : List BuildBaseline :=
  (watched.filter fun row =>
    decide (row.database = rec.database) && decide (row.collection = rec.collection)).filterMap
      Recommendation.buildBaseline

/-- The baseline a graduating build's collection is held against, unless it is its own. -/
def runBaseline (watched : List Recommendation) (rec : Recommendation) : Option LatencySample :=
  match oldestLiveBaseline (chain watched rec) with
  | none => none
  | some oldest => if rec.builtAt.getD 0 ≤ oldest.builtAt then none else some oldest.baseline

def judgeCumulative (watched : List Recommendation) (reported : List (String × String))
    (rec : Recommendation) : Prog (List (String × String)) :=
  if reported.contains (rec.database, rec.collection) then pure reported
  else
    match runBaseline watched rec with
    | none => pure reported
    | some baseline => do
      let (writes, _) ← ask (.collectionLatency rec.database rec.collection)
      let reported := (rec.database, rec.collection) :: reported
      if evaluateRegression baseline writes CUMULATIVE_REGRESSION_OPTIONS = .REGRESSED then
        ask (.park rec.database rec.collection "")
        ask (.insertAction ⟨rec.id, .CREATE, none⟩)
        ask .notify
        pure reported
      else pure reported

def retireName (rec : Recommendation) (name : String) : Prog Unit := do
  let standing : Bool ← ask (.standing rec.database rec.collection name)
  if standing then pure ()
  else
    let proposed : Option String ← ask (.insertRetirement rec name)
    if proposed.isSome then ask (.insertAction ⟨rec.id, .CREATE, none⟩) else pure ()

def retireSuperseded (rec : Recommendation) : Prog Unit :=
  match rec.targetSpec with
  | none => pure ()
  | some target => each target.retire (retireName rec)

def graduate (watched : List Recommendation) (reported : List (String × String))
    (rec : Recommendation) : Prog (List (String × String)) := do
  let reported ← judgeCumulative watched reported rec
  let _ ← ask (.updateRow rec.id .graduated)
  retireSuperseded rec
  ask .notify
  pure reported

def rollBackBuild (rec : Recommendation) : Prog Unit := do
  ask (.drop .built rec.claim)
  ask (.park rec.database rec.collection rec.target.indexName)
  let _ ← ask (.updateRow rec.id .rolledBack)
  ask (.insertAction ⟨rec.id, .DROP, none⟩)
  ask .notify
  ask .notify

def watchVerdict (pass : PassReads) (baseline : BuildBaseline) (readings : List LatencyReading) :
    ObservedVerdict :=
  (observedWindow readings .write baseline.builtAt pass.observeDays
    (observedOptions pass.outages (baseline.baseline.ops, baseline.baseline.latencyMicros))).verdict

def ObservedVerdict.isUndecided (verdict : ObservedVerdict) : Bool :=
  decide (verdict = .INCOMPLETE) || decide (verdict = .NO_BASELINE)

def watchOutstayed (pass : PassReads) (baseline : BuildBaseline) : Bool :=
  outstayedWindow baseline.builtAt pass.observeDays pass.now
    (ownOutageMs pass.outages baseline.builtAt pass.now)

def noteCutShort (rec : Recommendation) (verdict : ObservedVerdict) : Prog Unit :=
  if ObservedVerdict.isUndecided verdict then ask (.insertAction ⟨rec.id, .CREATE, none⟩)
  else pure ()

def concludeWatch (watched : List Recommendation) (reported : List (String × String))
    (rec : Recommendation) (verdict : ObservedVerdict) : Prog (List (String × String)) :=
  if verdict = .REGRESSED then do
    rollBackBuild rec
    pure reported
  else graduate watched reported rec

def watchRow (pass : PassReads) (watched : List Recommendation)
    (reported : List (String × String)) (rec : Recommendation) :
    Prog (List (String × String)) :=
  match rec.buildBaseline with
  | none => pure reported
  | some baseline =>
    if !pass.inScope rec.database then pure reported
    else do
      let readings ← ask (.latencyHistory rec.database rec.collection
        (baseline.builtAt - pass.observeDays * DAY_MS))
      if ObservedVerdict.isUndecided (watchVerdict pass baseline readings) &&
          !watchOutstayed pass baseline then pure reported
      else
        noteCutShort rec (watchVerdict pass baseline readings)
        concludeWatch watched reported rec (watchVerdict pass baseline readings)

/-! ## Finalize: the hidden rows -/

def dueVerdictOn (pass : PassReads) (rec : Recommendation) (hiddenAt : Int)
    (failedOps : FailedOpsReading) (readings : List LatencyReading) : DueVerdict :=
  dueVerdict (dueReads pass ⟨false, failedOps, readings, ⟨fun _ => 0, []⟩, .completed⟩
    rec.toRecommendationRow hiddenAt) rec.toRecommendationRow.row hiddenAt

def judgeDue (pass : PassReads) (rec : Recommendation) (hiddenAt : Int) : Prog DueVerdict :=
  match rec.toRecommendationRow.baselineRead with
  | none => pure (dueVerdictOn pass rec hiddenAt (.NO_SOURCE "") [])
  | some _ => do
    let failedOps ← ask (.collectFailedOps rec.database rec.collection hiddenAt
      rec.target.indexName)
    if (judgeFailures rec.failureSample failedOps.1 hiddenAt).isIntroduced then
      pure (dueVerdictOn pass rec hiddenAt failedOps.1 [])
    else
      let readings ← ask (.latencyHistory rec.database rec.collection
        (hiddenAt - rec.observeDays.getD pass.observeDays * DAY_MS))
      pure (dueVerdictOn pass rec hiddenAt failedOps.1 readings)

def settleDue (rec : Recommendation) (action : DueAction) (token : Option IndexSpec) :
    Prog Unit := do
  let _ ← ask (.updateRow rec.id (.due action))
  ask (.insertAction ⟨rec.id, .DROP, token⟩)

/-- Hiding the index did harm, and the index is given back and parked. -/
def giveBack (rec : Recommendation) (action : DueAction) : Prog Unit := do
  ask (.unhide (.due action) rec.claim)
  ask (.park rec.database rec.collection rec.target.indexName)
  settleDue rec action none
  ask .notify
  ask .notify

/-- The un-hide is tried, and the row goes back to PROPOSED either way. -/
def leaveScope (canHide : Bool) (rec : Recommendation) : Prog Unit := do
  if canHide then
    (ask (.unhide (.due .outOfScope) rec.claim)).handle (fun _ => pure ()) pure
  settleDue rec .outOfScope none

def outstay (rec : Recommendation) : Prog Unit := do
  ask (.unhide (.due .outstayed) rec.claim)
  let _ ← ask (.updateRow rec.id (.due .outstayed))
  ask (.insertAction ⟨rec.id, .HIDE, none⟩)

def recordDrop (rec : Recommendation) (spec : Option IndexSpec) : Prog Unit := do
  settleDue rec .drop spec
  ask (.insertRoi ⟨rec.id, rec.estimatedBytesSaved, 1⟩)

/-- The irreversible step, and what a last preflight makes of it; the indexes dropped so far
are counted. -/
def dropDue (canHide : Bool) (rec : Recommendation) (dropped : Nat) : Prog Nat := do
  let check ← preflight rec
  if check.safe then
    ask (.drop .hidden rec.claim)
    recordDrop rec check.spec
    pure (dropped + 1)
  else if check.spec.isSome then
    if canHide then ask (.unhide (.due .refused) rec.claim)
    settleDue rec .refused none
    pure dropped
  else
    settleDue rec .absent none
    pure dropped

def dueRow (pass : PassReads) (dropped : Nat) (rec : Recommendation) : Prog Nat :=
  match rec.hiddenAt with
  | none => pure dropped
  | some hiddenAt =>
    if !pass.inScope rec.database then do
      leaveScope pass.canHide rec
      pure dropped
    else do
      match ← judgeDue pass rec hiddenAt with
      | .introduced =>
        giveBack rec .introduced
        pure dropped
      | .outstayed =>
        outstay rec
        pure dropped
      | .observing => pure dropped
      | .regressed =>
        giveBack rec .regressed
        pure dropped
      | .graduated => if pass.windowOpen then dropDue pass.canHide rec dropped else pure dropped

def finalizeRows (settings : Settings) (due watched : List Recommendation) : Prog Unit := do
  let session ← ask .openSession
  if session.readOnly then pure ()
  else
    let pass := settings.passReads session
    let watches ← ask .keepFailureWatches
    let _ ← withdrawHinted watches
    let _ ← ask (.selectRows .approved)
    ask .note
    let _ ← eachFrom (watchRow pass watched) [] watched
    let dropped ← eachFrom (dueRow pass) 0 due
    if dropped = 0 then pure () else ask .notify

def finalizeCluster : Prog Unit := do
  let settings ← ask .settings
  let hidden ← ask (.selectRows .hidden)
  let due := hidden.filter fun rec => rec.hiddenAt.isSome
  ask .note
  let watched ← ask (.selectRows .active)
  let listed : Bool ← ask .listedWatch
  if due.isEmpty && watched.isEmpty && !listed then pure ()
  else finalizeRows settings due watched

/-! ## Tasks -/

inductive Task where
  | approve (id orgId : String)
  | rollback (id orgId : String)
  | unhide (id orgId : String)
  | shortenObserveWindow (id orgId : String) (days : Option ℚ)
  | applyCluster
  | applyCreates
  | settleBuilds
  | finalizeCluster
deriving DecidableEq

def Task.program : Task → Prog Unit
  | .approve id orgId => Service.approve id orgId
  | .rollback id orgId => Service.rollback id orgId
  | .unhide id orgId => Service.unhide id orgId
  | .shortenObserveWindow id orgId days => Service.shortenObserveWindow id orgId days
  | .applyCluster => Service.applyCluster
  | .applyCreates => Service.applyCreates
  | .settleBuilds => Service.settleBuilds
  | .finalizeCluster => Service.finalizeCluster

end Indexterity.Service
