import Indexterity.BuildRow
import Indexterity.FinalizeRace
import Indexterity.Regression
import Indexterity.Rollback
import Indexterity.Library.Program

/-!
# Service: what requests and passes call

The calls that `recommendations/recommendations.service.ts` and the passes under `jobs/`
make on our database and on one cluster, and what each does there. The rows, the trail and
the ROI rows are ours; the indexes and the builds still running are the cluster's. Anything
a call learns that is neither (settings, clocks, counters, readings, errors) is in its
reply, which says what the surroundings have to say whatever the call is. An error leaves
everything as it was.

A call to the executor names the row it is made for, and the log keeps the ones that went
through. The wording of the trail and of rationales is left out.
-/

namespace Indexterity.Service

open Library

/-! ## Rows -/

/-- What the requests and the passes read and write of a recommendation. -/
structure Recommendation extends RecommendationRow where
  targetSpec : Option TargetSpec
  urgent : Bool
  score : Int
  evidenceDays : Option Int
  estimatedBytesSaved : Int
  builtAt : Option Int
  baselineWriteOps : Option Int
  baselineWriteLatency : Option Int
deriving DecidableEq

/-- The index a call to the executor is about, and the row it is made for. -/
structure Claim where
  id : String
  database : String
  collection : String
  indexName : String
deriving DecidableEq

def Recommendation.claim (rec : Recommendation) : Claim :=
  ⟨rec.id, rec.database, rec.collection, rec.target.indexName⟩

/-- The baseline of the post-build watch, which all three columns make up. -/
def Recommendation.buildBaseline (rec : Recommendation) : Option BuildBaseline :=
  match rec.builtAt, rec.baselineWriteOps, rec.baselineWriteLatency with
  | some builtAt, some ops, some latency => some ⟨builtAt, ⟨ops, latency⟩⟩
  | _, _, _ => none

inductive ActionKind where
  | HIDE
  | DROP
  | CREATE
  | ROLLBACK
deriving DecidableEq, Repr

/-- A line of the trail. The token of a hide or a drop is the spec of the index it took
away; that of a build is a name, which nothing reads. -/
structure Action where
  recommendationId : String
  kind : ActionKind
  rollbackToken : Option IndexSpec
deriving DecidableEq

structure RoiMetric where
  recommendationId : String
  freedBytes : Int
  indexCountDelta : Int
deriving DecidableEq, Repr

structure HiddenColumns where
  hiddenAt : Int
  observeDays : ℚ
  baselineRead : Option LatencySample
  baselineFailed : Option FailureSample
deriving DecidableEq

/-- The updates of a row, one for each statement that makes one. -/
inductive Patch where
  /-- `approve`. -/
  | approved
  /-- `withdrawHinted`. -/
  | withdrawn
  /-- The hide's preflight refused. -/
  | reproposed
  | hidden (columns : HiddenColumns)
  /-- `closeUnbuilt`. -/
  | unbuilt
  | building
  | built (builtAt : Int) (writes : LatencySample)
  /-- A scheduled build failed. -/
  | retried
  | graduated
  /-- The post-build watch took its index back. -/
  | rolledBack
  | due (action : DueAction)
  /-- `rollback`. -/
  | undone
  /-- `unhide`. -/
  | cancelled
  /-- `shortenObserveWindow`. -/
  | shortened (days : ℚ)
deriving DecidableEq

def Patch.apply (rec : Recommendation) : Patch → Recommendation
  | .approved | .retried => { rec with state := .APPROVED }
  | .withdrawn | .reproposed => { rec with state := .PROPOSED }
  | .hidden columns =>
    { rec with
      state := .HIDDEN
      hiddenAt := some columns.hiddenAt
      observeDays := some columns.observeDays
      baselineReadOps := columns.baselineRead.map LatencySample.ops
      baselineReadLatency := columns.baselineRead.map LatencySample.latencyMicros
      baselineFailedOps := columns.baselineFailed.map FailureSample.failed
      baselineFailedReachMs := columns.baselineFailed.map FailureSample.reachMs }
  | .unbuilt => { rec with state := .REJECTED }
  | .building => { rec with state := .BUILDING }
  | .built builtAt writes =>
    { rec with
      state := .ACTIVE
      builtAt := some builtAt
      baselineWriteOps := some writes.ops
      baselineWriteLatency := some writes.latencyMicros }
  | .graduated => { rec with baselineWriteOps := none, baselineWriteLatency := none }
  | .rolledBack | .undone => { rec with state := .ROLLED_BACK }
  | .due action => { rec with toRecommendationRow := action.onRow rec.toRecommendationRow }
  | .cancelled => { rec with toRecommendationRow := cancelRow rec.toRecommendationRow }
  | .shortened days => { rec with observeDays := some days }

theorem Patch.apply_id (patch : Patch) (rec : Recommendation) : (patch.apply rec).id = rec.id := by
  cases patch with
  | due action => cases action <;> rfl
  | _ => rfl

/-! ## The surroundings -/

inductive Thrown where
  | refused (refusal : Refusal)
  | badRequest (message : String)
  /-- `IndexBuildRefusedError`. -/
  | buildRefused (message : String)
  | failed (message : String)
deriving DecidableEq

/-- The policy, the score the plan lets it approve at, and our own outages. -/
structure Settings where
  policy : Option FinalizePolicy
  autoApplyScore : Option Int
  startedAt : Int
  now : Int
  outages : List OwnOutage

def Settings.windowOpen (settings : Settings) : Bool :=
  inChangeWindow settings.startedAt (effectiveChangeWindow settings.policy)

structure Session where
  readOnly : Bool
  canHide : Bool
  observedDatabases : Option (List String)
deriving DecidableEq

def inSelection (databases : Option (List String)) (database : String) : Bool :=
  match databases with
  | none => true
  | some databases => databases.contains database

def Settings.passReads (settings : Settings) (session : Session) : PassReads :=
  ⟨settings.policy, settings.startedAt, settings.now, session.readOnly, session.canHide,
    session.observedDatabases, settings.outages⟩

inductive DatabaseWatch where
  | WATCHED (since : List (String × Int))
  | UNWATCHED
deriving DecidableEq

abbrev Watches := List (String × DatabaseWatch)

inductive IndexBuildOutcome where
  | BUILT
  | SCHEDULED
deriving DecidableEq, Repr

inductive IndexBuildSettlement where
  | PENDING
  | READY
  | FAILED (message : String)
deriving DecidableEq, Repr

inductive CronRun where
  | running
  | succeeded
  | failed (message : String)
deriving DecidableEq, Repr

structure Reply where
  error : Option Thrown
  now : Int
  settings : Settings
  readOnly : Bool
  observedDatabases : Option (List String)
  watches : Watches
  /-- A database of the cluster is on the list of watched ones. -/
  listed : Bool
  /-- The names the workload hints at. -/
  hinted : List String
  /-- Each index's operations, summed over its usage stats. -/
  usage : String → Int
  latency : LatencySample
  /-- A reading of failed operations, and how far back it reaches. -/
  failedOps : FailedOpsReading × Int
  readings : List LatencyReading
  /-- `dynamicObserveDays` of an index's history. -/
  windowDays : ℚ
  /-- The trail's last line says the same. -/
  noted : Bool
  outcome : IndexBuildOutcome
  /-- The apply function of the scheduler can be called. -/
  cronUsable : Bool
  cronRun : Option CronRun
  /-- The query of `finishBuild` goes through. -/
  unscheduled : Bool
  newId : String

/-! ## The state -/

inductive UnhideSite where
  | request
  | putBack
  | due (action : DueAction)
deriving DecidableEq

/-- A drop ends an observe window, or takes back a build. -/
inductive DropSite where
  | hidden
  | built
deriving DecidableEq

inductive CreateSite where
  | build
  | undo
deriving DecidableEq

/-- A call to the executor, with the index it found or left. -/
inductive ExecutorCall where
  | hide (spec : IndexSpec)
  | unhide (site : UnhideSite)
  | drop (site : DropSite) (spec : IndexSpec)
  | create (site : CreateSite) (spec : IndexSpec)
deriving DecidableEq

/-- A build that runs on the cluster by itself, again and again until it is removed. -/
structure Job where
  site : CreateSite
  claim : Claim
  spec : IndexSpec
deriving DecidableEq

/-- The rows of a cluster, which their ids tell apart. -/
structure Table where
  rows : List Recommendation
  ids_nodup : (rows.map fun rec => rec.id).Nodup

namespace Table

def find (t : Table) (id : String) : Option Recommendation := t.rows.find? fun rec => rec.id == id

def modify (t : Table) (f : Recommendation → Recommendation) (hid : ∀ rec, (f rec).id = rec.id) :
    Table where
  rows := t.rows.map f
  ids_nodup := by
    have hids : (t.rows.map f).map (fun rec => rec.id) = t.rows.map fun rec => rec.id := by
      rw [List.map_map]
      exact List.map_congr_left fun rec _ => hid rec
    rw [hids]
    exact t.ids_nodup

def insert (t : Table) (rec : Recommendation) : Table :=
  if h : rec.id ∈ t.rows.map fun row => row.id then t
  else
    { rows := t.rows ++ [rec]
      ids_nodup := by
        rw [List.map_append]
        exact List.nodup_append.mpr ⟨t.ids_nodup, List.nodup_singleton _, by
          intro id hid other hother heq
          rw [List.map_singleton, List.mem_singleton] at hother
          exact h (hother ▸ heq ▸ hid)⟩ }

end Table

/-- A database, a collection and a name. -/
abbrev Place := String × String × String

/-- Whether a place is in a list is decided by one instance throughout. -/
instance lawfulBEq_place : LawfulBEq Place := inferInstance

def Claim.place (claim : Claim) : Place := (claim.database, claim.collection, claim.indexName)

structure World where
  orgId : String
  /-- The engine can hide an index. -/
  canHide : Bool
  /-- The collections whose indexes share the names of a collection's: on PostgreSQL the other
  tables of its schema. -/
  sharers : String → List String
  table : Table
  actions : List Action
  roi : List RoiMetric
  /-- The live indexes of a database's collection. -/
  indexes : String → String → List IndexSpec
  /-- The indexes a failed build left. -/
  invalid : List Place
  jobs : List Job
  /-- The calls to the executor that went through. -/
  log : List (ExecutorCall × Claim)

namespace World

def rowById (s : World) (id : String) : Option Recommendation := s.table.find id

def updateRow (s : World) (id : String) (patch : Patch) : World :=
  { s with
    table := s.table.modify (fun rec => if rec.id = id then patch.apply rec else rec) (by
      intro rec
      split_ifs
      · exact patch.apply_id rec
      · rfl) }

def setIndexes (s : World) (claim : Claim) (live : List IndexSpec) : World :=
  { s with
    indexes := fun d c =>
      if d = claim.database ∧ c = claim.collection then live else s.indexes d c }

def live (s : World) (claim : Claim) : List IndexSpec := s.indexes claim.database claim.collection

def indexAt (s : World) (p : Place) : Option IndexSpec := specNamed (s.indexes p.1 p.2.1) p.2.2

def claimed (s : World) (claim : Claim) : Option IndexSpec := s.indexAt claim.place

def logged (s : World) (entry : ExecutorCall × Claim) : World := { s with log := s.log ++ [entry] }

/-- The places a claim's name may stand for. -/
def places (s : World) (claim : Claim) : List Place :=
  (claim.collection :: s.sharers claim.collection).map fun collection =>
    (claim.database, collection, claim.indexName)

def isValid (s : World) (claim : Claim) : Bool :=
  (s.places claim).any fun p => (s.indexAt p).isSome && decide (p ∉ s.invalid)

end World

/-! ## Calls -/

inductive Wanted where
  | approved
  | approvedBuilds
  | building
  | hidden
  /-- The rows of the post-build watch. -/
  | active
deriving DecidableEq, Repr

def Wanted.selects : Wanted → Recommendation → Bool
  | .approved, rec => decide (rec.state = .APPROVED)
  | .approvedBuilds, rec => decide (rec.state = .APPROVED) && decide (rec.target.type ∈ BUILD_TYPES)
  | .building, rec => decide (rec.state = .BUILDING)
  | .hidden, rec => decide (rec.state = .HIDDEN)
  | .active, rec => decide (rec.state = .ACTIVE) && decide (rec.target.type ∈ BUILD_TYPES)

def AUTO_APPLY_HISTORY_DAYS : Int := 7

def promotes (threshold : Int) (rec : Recommendation) : Bool :=
  decide (rec.state = .PROPOSED) && decide (rec.target.type ∉ [.ADVISORY_REVIEW, .REORDER]) &&
    rec.evidenceDays.all (fun days => decide (AUTO_APPLY_HISTORY_DAYS ≤ days)) &&
    decide (threshold ≤ rec.score)

def DROP_TYPES : List RecommendationType := [.DROP_UNUSED, .DROP_REDUNDANT]

def LIVE_STATES : List RecommendationState :=
  [.PROPOSED, .APPROVED, .HIDDEN, .OBSERVE, .SCHEDULED, .BUILDING]

def Recommendation.names (rec : Recommendation) (database collection name : String) : Bool :=
  decide (rec.database = database) && decide (rec.collection = collection) &&
    decide (rec.target.indexName = name)

/-- The row stands in the way of another drop row for its index, by the index
`recommendations_one_live_claim`. -/
def Recommendation.holdsDropClaim (rec : Recommendation) (database collection name : String) :
    Bool :=
  rec.names database collection name && decide (rec.state ∈ LIVE_STATES) &&
    decide (rec.target.type ∈ DROP_TYPES)

/-- What `retireSuperseded` takes for a proposal that is already there. -/
def Recommendation.stands (rec : Recommendation) (database collection name : String) : Bool :=
  rec.names database collection name && decide (rec.state ∈ [.PROPOSED, .APPROVED, .HIDDEN])

def SUPERSEDED_SCORE : Int := 55

def retirement (id : String) (rec : Recommendation) (name : String) : Recommendation where
  id := id
  database := rec.database
  collection := rec.collection
  target :=
    { type := .DROP_REDUNDANT
      indexName := name
      supersededBy := if rec.target.type = .REORDER then some rec.target.indexName else none }
  state := .PROPOSED
  hiddenAt := none
  observeDays := none
  baselineReadOps := none
  baselineReadLatency := none
  baselineFailedOps := none
  baselineFailedReachMs := none
  targetSpec := if rec.target.type = .REORDER then some ⟨[], [], none, none⟩ else none
  urgent := false
  score := SUPERSEDED_SCORE
  evidenceDays := none
  estimatedBytesSaved := 0
  builtAt := none
  baselineWriteOps := none
  baselineWriteLatency := none

/-- A row with what `approve` asks of its cluster. -/
structure OwnedForApproval where
  database : String
  observedDatabases : Option (List String)
  readOnly : Bool

inductive Op where
  | settings
  | clock
  | selectRows (wanted : Wanted)
  | ownedBy (id orgId : String)
  | ownedForApproval (id orgId : String)
  | dropActionsFor (id : String)
  | standing (database collection indexName : String)
  /-- The read of `noteHideFailure`. -/
  | lastHideLine (id : String)
  /-- The read of `failureWatches` in finalize. -/
  | listedWatch
  | promoteByScore (threshold : Int)
  | updateRow (id : String) (patch : Patch)
  | insertAction (action : Action)
  | insertRoi (metric : RoiMetric)
  | insertRetirement (rec : Recommendation) (indexName : String)
  /-- `recordRegression` and `recordManualVeto`. -/
  | park (database collection indexName : String)
  /-- `noteOwnOutages` and `noteWaitingDrops`, whose lines carry no token. -/
  | note
  | notify
  | openSession
  /-- `keepFailureWatchesOrNone`, which has none where it fails. -/
  | keepFailureWatches
  /-- `collectHintedIndexes`, taken for none where it fails. -/
  | hintedOrNone (database collection : String)
  | listIndexes (database collection : String)
  | collectUsage (database collection : String)
  | collectHintedIndexes (database collection : String)
  | readLatency (database collection : String)
  | collectFailedOps (database collection : String) (since : Int) (indexName : String)
  /-- `dynamicObserveDays` over the stored history of an index. -/
  | dynamicObserveDays (claim : Claim)
  /-- `collectionLatencyHistory`. -/
  | latencyHistory (database collection : String) (since : ℚ)
  /-- `collectionLatency`, of which the writes are read, with `servedShapes` behind it. -/
  | collectionLatency (database collection : String)
  | hide (claim : Claim)
  | unhide (site : UnhideSite) (claim : Claim)
  | drop (site : DropSite) (claim : Claim)
  | create (site : CreateSite) (claim : Claim) (spec : IndexSpec)
  | settleBuild (claim : Claim)

@[reducible] def Op.Ans : Op → Type
  | .settings => Settings
  | .clock => Int
  | .selectRows _ => List Recommendation
  | .ownedBy _ _ => Option Recommendation
  | .ownedForApproval _ _ => Option OwnedForApproval
  | .dropActionsFor _ => List Action
  | .standing _ _ _ => Bool
  | .lastHideLine _ => Bool
  | .listedWatch => Bool
  | .promoteByScore _ => Unit
  | .updateRow _ _ => Bool
  | .insertAction _ => Unit
  | .insertRoi _ => Unit
  | .insertRetirement _ _ => Option String
  | .park _ _ _ => Unit
  | .note => Unit
  | .notify => Unit
  | .openSession => Session
  | .keepFailureWatches => Watches
  | .hintedOrNone _ _ => List String
  | .listIndexes _ _ => List IndexSpec
  | .collectUsage _ _ => String → Int
  | .collectHintedIndexes _ _ => List String
  | .readLatency _ _ => LatencySample
  | .collectFailedOps _ _ _ _ => FailedOpsReading × Int
  | .dynamicObserveDays _ => ℚ
  | .latencyHistory _ _ _ => List LatencyReading
  | .collectionLatency _ _ => LatencySample × Int
  | .hide _ => Int
  | .unhide _ _ => Unit
  | .drop _ _ => Unit
  | .create _ _ _ => IndexBuildOutcome
  | .settleBuild _ => IndexBuildSettlement × Bool

/-! ## What a call answers -/

def Reply.gives {α : Type} (reply : Reply) (answer : α) : Except Thrown α :=
  match reply.error with
  | none => .ok answer
  | some error => .error error

namespace World

def owned (s : World) (id orgId : String) : Option Recommendation :=
  if orgId = s.orgId then s.rowById id else none

def dropActions (s : World) (id : String) : List Action :=
  (s.actions.filter fun action =>
    decide (action.recommendationId = id) && decide (action.kind = .DROP)).reverse

/-- `onConflictDoNothing`: a taken id or a live claim leaves the rows alone. -/
def accepts (s : World) (id : String) (rec : Recommendation) (name : String) : Bool :=
  !(s.table.rows.any fun row =>
    decide (row.id = id) || row.holdsDropClaim rec.database rec.collection name)

def taken (s : World) (claim : Claim) (spec : IndexSpec) : Option IndexSpec :=
  specNamed (s.live claim) spec.name

/-- `nameHolder`, for the other tables of the schema. -/
def takenElsewhere (s : World) (claim : Claim) (spec : IndexSpec) : Bool :=
  (s.sharers claim.collection).any fun collection =>
    (s.indexAt (claim.database, collection, spec.name)).isSome

/-- Another index under the name is an error; the same one may be answered as built. -/
def createAnswer (s : World) (claim : Claim) (spec : IndexSpec) (reply : Reply) :
    Except Thrown IndexBuildOutcome :=
  match s.taken claim spec, s.takenElsewhere claim spec with
  | none, false => reply.gives reply.outcome
  | some index, false =>
    if { index with hidden := false } = { spec with hidden := false } then reply.gives .BUILT
    else .error (reply.error.getD (.failed "an index of that name exists"))
  | _, true => .error (reply.error.getD (.buildRefused "the name is already taken"))

/-- What became of a scheduled build, and whether its job was removed with it. -/
def settled (s : World) (claim : Claim) (reply : Reply) : IndexBuildSettlement × Bool :=
  if !reply.cronUsable then (.FAILED "the pg_cron apply function is no longer available", false)
  else if s.isValid claim then (.READY, reply.unscheduled)
  else
    match reply.cronRun with
    | none | some .running => (.PENDING, false)
    | some (.failed message) => (.FAILED message, reply.unscheduled)
    | some .succeeded =>
      (.FAILED "an earlier attempt left an invalid index, so the retry skipped the build",
        reply.unscheduled)

def hideAnswer {α : Type} (s : World) (claim : Claim) (reply : Reply) (answer : α) :
    Except Thrown α :=
  match s.claimed claim with
  | none => .error (reply.error.getD (.failed "cannot find index"))
  | some _ => reply.gives answer

def answer (s : World) : (op : Op) → Reply → Except Thrown op.Ans
  | .settings, reply => reply.gives reply.settings
  | .clock, reply => .ok reply.now
  | .selectRows wanted, reply => reply.gives (s.table.rows.filter wanted.selects)
  | .ownedBy id orgId, reply => reply.gives (s.owned id orgId)
  | .ownedForApproval id orgId, reply =>
    reply.gives ((s.owned id orgId).map fun rec =>
      ⟨rec.database, reply.observedDatabases, reply.readOnly⟩)
  | .dropActionsFor id, reply => reply.gives (s.dropActions id)
  | .standing database collection indexName, reply =>
    reply.gives (s.table.rows.any fun rec => rec.stands database collection indexName)
  | .lastHideLine _, reply => reply.gives reply.noted
  | .listedWatch, reply => reply.gives reply.listed
  | .promoteByScore _, reply => reply.gives ()
  | .updateRow id _, reply => reply.gives (s.rowById id).isSome
  | .insertAction _, reply => reply.gives ()
  | .insertRoi _, reply => reply.gives ()
  | .insertRetirement rec indexName, reply =>
    reply.gives (if s.accepts reply.newId rec indexName then some reply.newId else none)
  | .park _ _ _, reply => reply.gives ()
  | .note, reply => reply.gives ()
  | .notify, reply => reply.gives ()
  | .openSession, reply => reply.gives ⟨reply.readOnly, s.canHide, reply.observedDatabases⟩
  | .keepFailureWatches, reply => .ok (if reply.error.isSome then [] else reply.watches)
  | .hintedOrNone _ _, reply => .ok (if reply.error.isSome then [] else reply.hinted)
  | .listIndexes database collection, reply => reply.gives (s.indexes database collection)
  | .collectUsage _ _, reply => reply.gives reply.usage
  | .collectHintedIndexes _ _, reply => reply.gives reply.hinted
  | .readLatency _ _, reply => reply.gives reply.latency
  | .collectFailedOps _ _ _ _, reply => reply.gives reply.failedOps
  | .dynamicObserveDays _, reply => reply.gives reply.windowDays
  | .latencyHistory _ _ _, reply => reply.gives reply.readings
  | .collectionLatency _ _, reply => reply.gives (reply.latency, reply.now)
  | .hide claim, reply => s.hideAnswer claim reply reply.now
  | .unhide _ claim, reply => s.hideAnswer claim reply ()
  | .drop _ _, reply => reply.gives ()
  | .create _ claim spec, reply => s.createAnswer claim spec reply
  | .settleBuild claim, reply => reply.gives (s.settled claim reply)

/-! ## What an answered call does -/

def promote (s : World) (threshold : Int) : World :=
  { s with
    table := s.table.modify
      (fun rec => if promotes threshold rec then Patch.approved.apply rec else rec) (by
        intro rec
        split_ifs
        · exact Patch.apply_id _ rec
        · rfl) }

def hidden (s : World) (claim : Claim) : World :=
  match s.claimed claim with
  | none => s
  | some spec =>
    (s.setIndexes claim (hide (s.live claim) claim.indexName)).logged (.hide spec, claim)

def unhidden (s : World) (site : UnhideSite) (claim : Claim) : World :=
  (s.setIndexes claim (unhide (s.live claim) claim.indexName)).logged (.unhide site, claim)

/-- The name is dropped wherever it stands; the log has what stood in the claim's collection. -/
def dropped (s : World) (site : DropSite) (claim : Claim) : World :=
  { s with
    invalid := s.invalid.filter fun p => decide (p ∉ s.places claim)
    indexes := fun d c =>
      if (d, c, claim.indexName) ∈ s.places claim then dropIndex (s.indexes d c) claim.indexName
      else s.indexes d c
    log := s.log ++ ((s.claimed claim).map fun spec => (.drop site spec, claim)).toList }

def created (s : World) (site : CreateSite) (claim : Claim) (spec : IndexSpec) : World :=
  match s.taken claim spec with
  | none => (s.setIndexes claim (s.live claim ++ [spec])).logged (.create site spec, claim)
  | some _ => s.logged (.create site spec, claim)

def finished (s : World) (claim : Claim) : Bool → World
  | false => s
  | true => { s with jobs := s.jobs.filter fun job => decide (job.claim.indexName ≠ claim.indexName) }

def effect (s : World) : (op : Op) → Except Thrown op.Ans → World
  | .promoteByScore threshold, .ok _ => s.promote threshold
  | .updateRow id patch, .ok _ => s.updateRow id patch
  | .insertAction action, .ok _ => { s with actions := s.actions ++ [action] }
  | .insertRoi metric, .ok _ => { s with roi := s.roi ++ [metric] }
  | .insertRetirement rec indexName, .ok (some id) =>
    { s with table := s.table.insert (retirement id rec indexName) }
  | .hide claim, .ok _ => s.hidden claim
  | .unhide site claim, .ok _ => s.unhidden site claim
  | .drop site claim, .ok _ => s.dropped site claim
  | .create site claim spec, .ok .BUILT => s.created site claim spec
  | .create site claim spec, .ok .SCHEDULED => { s with jobs := s.jobs ++ [⟨site, claim, spec⟩] }
  | .settleBuild claim, .ok answer => s.finished claim answer.2
  | _, _ => s

/-- A scheduled build runs, which a taken name stops. A failed one leaves its index behind. -/
def jobRuns (s : World) (job : Job) (succeeds : Bool) : World :=
  match s.taken job.claim job.spec, s.takenElsewhere job.claim job.spec with
  | none, false =>
    let built := s.setIndexes job.claim (s.live job.claim ++ [job.spec])
    if succeeds then built.logged (.create job.site job.spec, job.claim)
    else
      { built with
        invalid := (job.claim.database, job.claim.collection, job.spec.name) :: built.invalid }
  | _, _ => s

end World

def machine : Program.Machine Op Op.Ans Thrown World Reply where
  answer := World.answer
  effect := World.effect

end Indexterity.Service
