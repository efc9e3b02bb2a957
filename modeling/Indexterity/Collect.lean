import Indexterity.Classify

/-!
# Collect: the writer of run-length rows

`jobs/runs.ts` and the index half of `jobs/collect.ts`, for the rows of one index.
A collect either extends the newest run or inserts a new one, priced against the run
it supersedes; the superseded run then loses its copy of the members. What emptying
does is a parameter, so that the same writer can also be run without it.
-/

namespace Indexterity

def counterFingerprint (host : Host) (perMember : List MemberUsage) : String :=
  String.intercalate "\x01"
    ((perMember.insertionSort fun a b => host.localeCompare a.member b.member ≤ 0).map fun m =>
      m.member ++ "\x00" ++ toString m.ops ++ "\x00" ++ m.since.getD "")

structure CurrentRun where
  fingerprint : String
  lastSeenAt : Int

def extendsRun (current : Option CurrentRun) (fingerprint : String) (now : Int) : Bool :=
  match current with
  | none => false
  | some run =>
    decide (run.fingerprint = fingerprint) && decide (0 ≤ now - run.lastSeenAt) &&
      decide (now - run.lastSeenAt ≤ MAX_GAP_MS)

/-- One collect of one index. -/
structure Collect where
  now : Int
  perMember : List MemberUsage
deriving DecidableEq, Repr

/-- A row of `index_snapshots`. -/
structure SnapshotRow where
  capturedAt : Int
  lastSeenAt : Int
  observations : Int
  maxGapMs : Int
  perMember : List MemberUsage
  opsDelta : Option Int
  opsTotal : Option Int
  countersRestarted : Option Bool
  countersStartedAt : Option Int
deriving DecidableEq, Repr

/-- The newest row by `capturedAt`, with the rows written before and after it. Of rows
with one stamp it is the one written last. -/
def splitNewest : List SnapshotRow → Option (List SnapshotRow × SnapshotRow × List SnapshotRow)
  | [] => none
  | row :: rows =>
    match splitNewest rows with
    | none => some ([], row, [])
    | some (older, newest, rest) =>
      if newest.capturedAt < row.capturedAt then some ([], row, rows)
      else some (row :: older, newest, rest)

section Writer
variable (host : Host)

def currentRun (row : SnapshotRow) : CurrentRun where
  fingerprint := counterFingerprint host row.perMember
  lastSeenAt := row.lastSeenAt

def startedAt (perMember : List MemberUsage) : Option Int :=
  (latestCounterStart host perMember).bind host.dateParse

def insertedRow (previousMembers : Option (List MemberUsage)) (snapshot : Collect) :
    SnapshotRow where
  capturedAt := snapshot.now
  lastSeenAt := snapshot.now
  observations := 1
  maxGapMs := 0
  perMember := snapshot.perMember
  opsDelta := some (activityBetween previousMembers snapshot.perMember)
  opsTotal := some (activityInFull snapshot.perMember)
  countersRestarted := some (countersRestartedBetween host previousMembers snapshot.perMember)
  countersStartedAt := startedAt host snapshot.perMember

def extendedRow (row : SnapshotRow) (now : Int) : SnapshotRow :=
  { row with
    lastSeenAt := now
    observations := row.observations + 1
    maxGapMs := max row.maxGapMs (now - row.lastSeenAt) }

def trimSupersededMembers (row : SnapshotRow) : SnapshotRow :=
  if row.opsDelta.isSome && row.opsTotal.isSome && row.countersRestarted.isSome then
    { row with perMember := [] }
  else row

def recordSnapshotsWith (trim : SnapshotRow → SnapshotRow) (rows : List SnapshotRow)
    (snapshot : Collect) : List SnapshotRow :=
  match splitNewest rows with
  | none => rows ++ [insertedRow host none snapshot]
  | some (older, run, rest) =>
    if extendsRun (some (currentRun host run)) (counterFingerprint host snapshot.perMember)
        snapshot.now then
      older ++ extendedRow run snapshot.now :: rest
    else
      older ++ trim run :: rest ++ [insertedRow host (some run.perMember) snapshot]

def recordSnapshots : List SnapshotRow → Collect → List SnapshotRow :=
  recordSnapshotsWith host trimSupersededMembers

def collected (collects : List Collect) : List SnapshotRow :=
  collects.foldl (recordSnapshots host) []

def collectedUntrimmed (collects : List Collect) : List SnapshotRow :=
  collects.foldl (recordSnapshotsWith host id) []

end Writer

def runFrom (row : SnapshotRow) : Run where
  capturedAt := some row.capturedAt
  lastSeenAt := some row.lastSeenAt
  observations := some row.observations
  maxGapMs := some row.maxGapMs

def storedSnapshot (row : SnapshotRow) : UsageSnapshot where
  toRun := runFrom row
  perMember := row.perMember
  opsDelta := row.opsDelta
  opsTotal := row.opsTotal
  countersRestarted := row.countersRestarted
  countersStartedAt := row.countersStartedAt

/-- A row read for its members only: `capturedAt`, `lastSeenAt`, `observations`,
`maxGapMs` and `perMember`. -/
def memberSnapshot (row : SnapshotRow) : UsageSnapshot where
  toRun := runFrom row
  perMember := row.perMember
  opsDelta := none
  opsTotal := none
  countersRestarted := none
  countersStartedAt := none

def keptSince (cutoff : Int) (rows : List SnapshotRow) : List SnapshotRow :=
  rows.filter fun row => cutoff ≤ row.lastSeenAt

end Indexterity
