import Indexterity.Pipeline

/-!
# Finalize: whole passes over the hidden rows of a cluster

`finalizeCluster` of `jobs/finalize.ts`, with `analysis/failures.ts` and the change window
of `analysis/window.ts`. A pass loads its rows first and works from what it loaded: what it
does with a row is decided once, on the live indexes of the row's collection, and then done
to the cluster and written to the row by its id. Whatever else happens meanwhile is a step
of its own. The calls that drop an index for a hidden row are kept, each with the pass that
made it.
-/

namespace Indexterity

/-! ## Failed operations -/

abbrev FailureTally := List (String × Int)

structure FailureSample where
  failed : Int
  reachMs : Int
deriving DecidableEq, Repr

structure FailedOpsWindow where
  hinted : Option Int
  suspect : Int
  suspectKinds : FailureTally
  unrelated : FailureTally
  blindSpot : Option String
deriving DecidableEq, Repr

inductive FailedOpsReading where
  | WINDOW (window : FailedOpsWindow)
  | NO_SOURCE (reason : String)
deriving DecidableEq, Repr

inductive Unattributed where
  | FAILING_BEFORE (failed : Int)
  | NO_BASELINE
  | FEW
  | SHORT_BASELINE (baselineMs : Int)
deriving DecidableEq, Repr

inductive FailureCause where
  | HINTED
  | SUSPECT (kinds : FailureTally) (baselineMs : Int)
deriving DecidableEq, Repr

inductive FailureVerdict where
  | INTRODUCED (cause : FailureCause) (failed : Int) (unrelated : FailureTally)
  | INCONCLUSIVE (failed : Int) (kinds : FailureTally) (because : Unattributed)
      (unrelated : FailureTally)
  | CLEAN (blindSpot : Option String) (unrelated : FailureTally)
  | UNAVAILABLE (reason : String)
deriving DecidableEq, Repr

def FailureVerdict.isIntroduced : FailureVerdict → Bool
  | .INTRODUCED _ _ _ => true
  | _ => false

def FAILURE_BASELINE_MS : Int := 24 * 3600000

def MIN_INTRODUCED_FAILURES : Int := 3

def judgeSuspect (before : Option FailureSample) (after : FailedOpsWindow) (hiddenAtMs : Int) :
    FailureVerdict :=
  let unattributed (because : Unattributed) : FailureVerdict :=
    .INCONCLUSIVE after.suspect after.suspectKinds because after.unrelated
  match before with
  | none => unattributed .NO_BASELINE
  | some before =>
    let baselineMs := max 0 (hiddenAtMs - before.reachMs)
    if 0 < before.failed then unattributed (.FAILING_BEFORE before.failed)
    else if after.suspect < MIN_INTRODUCED_FAILURES then unattributed .FEW
    else if baselineMs < FAILURE_BASELINE_MS then unattributed (.SHORT_BASELINE baselineMs)
    else .INTRODUCED (.SUSPECT after.suspectKinds baselineMs) after.suspect after.unrelated

def judgeFailures (before : Option FailureSample) (after : FailedOpsReading) (hiddenAtMs : Int) :
    FailureVerdict :=
  match after with
  | .NO_SOURCE reason => .UNAVAILABLE reason
  | .WINDOW after =>
    if 0 < after.hinted.getD 0 then
      .INTRODUCED .HINTED (after.hinted.getD 0) after.unrelated
    else if after.suspect = 0 then .CLEAN after.blindSpot after.unrelated
    else judgeSuspect before after hiddenAtMs

/-! ## The change window -/

structure FinalizePolicy where
  observeWindowDays : ℚ
  changeWindowStartHour : Option Int
  changeWindowEndHour : Option Int
  inferredWindowStartHour : Option Int
  inferredWindowEndHour : Option Int
deriving DecidableEq

/-- An owner's window, if both of its ends are set, or else the inferred one. -/
def effectiveChangeWindow (policy : Option FinalizePolicy) : Option Int × Option Int :=
  match policy with
  | none => (none, none)
  | some policy =>
    if policy.changeWindowStartHour.isSome ∧ policy.changeWindowEndHour.isSome then
      (policy.changeWindowStartHour, policy.changeWindowEndHour)
    else (policy.inferredWindowStartHour, policy.inferredWindowEndHour)

def utcHours (nowMs : Int) : Int := nowMs / HOUR_MS % 24

def inChangeWindow (nowMs : Int) : Option Int × Option Int → Bool
  | (some startHour, some endHour) =>
    let hour := utcHours nowMs
    if startHour = endHour then true
    else if startHour < endHour then decide (startHour ≤ hour) && decide (hour < endHour)
    else decide (startHour ≤ hour) || decide (hour < endHour)
  | _ => true

/-! ## Rows and passes -/

structure RecommendationRow where
  id : String
  database : String
  collection : String
  target : DropTarget
  state : RecommendationState
  hiddenAt : Option Int
  observeDays : Option ℚ
  baselineReadOps : Option Int
  baselineReadLatency : Option Int
  baselineFailedOps : Option Int
  baselineFailedReachMs : Option Int
deriving DecidableEq

namespace RecommendationRow

def baselineRead (row : RecommendationRow) : Option (Int × Int) :=
  match row.baselineReadOps, row.baselineReadLatency with
  | some ops, some latency => some (ops, latency)
  | _, _ => none

def failureSample (row : RecommendationRow) : Option FailureSample :=
  row.baselineFailedOps.map fun failed => ⟨failed, row.baselineFailedReachMs.getD 0⟩

def row (row : RecommendationRow) : Row :=
  ⟨row.target, row.state, row.hiddenAt, row.observeDays, row.baselineRead⟩

end RecommendationRow

structure PassReads where
  policy : Option FinalizePolicy
  /-- The clock the change window is held against. -/
  startedAt : Int
  now : Int
  readOnly : Bool
  canHide : Bool
  observedDatabases : Option (List String)
  outages : List OwnOutage

def DEFAULT_OBSERVE_DAYS : ℚ := 30

namespace PassReads

def observeDays (pass : PassReads) : ℚ :=
  (pass.policy.map FinalizePolicy.observeWindowDays).getD DEFAULT_OBSERVE_DAYS

def windowOpen (pass : PassReads) : Bool :=
  inChangeWindow pass.startedAt (effectiveChangeWindow pass.policy)

def inScope (pass : PassReads) (database : String) : Bool :=
  match pass.observedDatabases with
  | none => true
  | some databases => databases.contains database

end PassReads

inductive WriteOutcome where
  | completed
  /-- The pass ends between its call to the cluster and its write to the row. -/
  | interrupted
  /-- The call to the cluster throws, and the pass ends. -/
  | failed
deriving DecidableEq, Repr

structure RowReads where
  unhideFails : Bool
  failedOps : FailedOpsReading
  readings : List LatencyReading
  preflight : PreflightReads
  outcome : WriteOutcome

def dueReads (pass : PassReads) (reads : RowReads) (row : RecommendationRow) (hiddenAt : Int) :
    DueReads where
  withdrawn := false
  inScope := pass.inScope row.database
  unhideFails := reads.unhideFails
  introduced := (judgeFailures row.failureSample reads.failedOps hiddenAt).isIntroduced
  readings := reads.readings
  outages := pass.outages
  now := pass.now
  policyObserveDays := pass.observeDays
  windowOpen := pass.windowOpen
  preflight := reads.preflight
  interrupted := decide (reads.outcome ≠ .completed)

/-! ## What is done with a row -/

inductive DueAction where
  | outOfScope
  | introduced
  | outstayed
  | observing
  | regressed
  | waiting
  | refused
  | absent
  | drop
deriving DecidableEq, Repr

def dueAction (pass : PassReads) (reads : RowReads) (live : List IndexSpec)
    (row : RecommendationRow) (hiddenAt : Int) : DueAction :=
  if !pass.inScope row.database then .outOfScope
  else
    match dueVerdict (dueReads pass reads row hiddenAt) row.row hiddenAt with
    | .introduced => .introduced
    | .outstayed => .outstayed
    | .observing => .observing
    | .regressed => .regressed
    | .graduated =>
      let check := preflightDrop live reads.preflight row.target
      if !pass.windowOpen then .waiting
      else if check.safe then .drop
      else if check.spec.isSome then .refused
      else .absent

namespace DueAction

def onCluster (canHide unhideFails : Bool) (live : List IndexSpec) (name : String) :
    DueAction → List IndexSpec
  | .outOfScope => if canHide && !unhideFails then unhide live name else live
  | .introduced | .outstayed | .regressed => unhide live name
  | .refused => if canHide then unhide live name else live
  | .drop => dropIndex live name
  | .observing | .waiting | .absent => live

def onRow (action : DueAction) (row : RecommendationRow) : RecommendationRow :=
  match action with
  | .outOfScope | .refused => { row with state := .PROPOSED, hiddenAt := none }
  | .introduced | .regressed => { row with state := .REJECTED, hiddenAt := none }
  | .outstayed =>
    { row with
      state := .PROPOSED
      hiddenAt := none
      observeDays := none
      baselineReadOps := none
      baselineReadLatency := none }
  | .absent | .drop => { row with state := .DROPPED }
  | .observing | .waiting => row

end DueAction

theorem finalizeDue_eq (pass : PassReads) (reads : RowReads) (live : List IndexSpec)
    (row : RecommendationRow) (hiddenAt : Int) :
    finalizeDue pass.canHide (dueReads pass reads row hiddenAt) live row.row hiddenAt =
      let action := dueAction pass reads live row hiddenAt
      ⟨action.onCluster pass.canHide reads.unhideFails live row.target.indexName,
        (action.onRow row).row,
        if action = .drop then (preflightDrop live reads.preflight row.target).spec else none⟩ := by
  have htarget : row.row.target = row.target := rfl
  cases hscope : pass.inScope row.database with
  | false =>
    have hscope' : (dueReads pass reads row hiddenAt).inScope = false := hscope
    simp only [finalizeDue, dueAction, hscope, hscope', Bool.not_false, if_true]
    rfl
  | true =>
    have hscope' : (dueReads pass reads row hiddenAt).inScope = true := hscope
    simp only [finalizeDue, dueAction, hscope, hscope', Bool.not_true, Bool.false_eq_true, if_false]
    cases dueVerdict (dueReads pass reads row hiddenAt) row.row hiddenAt with
    | introduced => rfl
    | outstayed => rfl
    | observing => rfl
    | regressed => rfl
    | graduated =>
      have hopen : (dueReads pass reads row hiddenAt).windowOpen = pass.windowOpen := rfl
      have hpreflight : (dueReads pass reads row hiddenAt).preflight = reads.preflight := rfl
      simp only [dropGraduated, hopen, hpreflight, htarget]
      by_cases hclosed : (!pass.windowOpen) = true
      · simp only [if_pos hclosed]
        rfl
      · simp only [if_neg hclosed]
        cases (preflightDrop live reads.preflight row.target).safe <;>
          cases (preflightDrop live reads.preflight row.target).spec.isSome <;> rfl

/-! ## Runs -/

structure ClusterState where
  /-- The live indexes of a database's collection. -/
  indexes : String → String → List IndexSpec
  rows : List RecommendationRow

namespace ClusterState

def setIndexes (s : ClusterState) (database collection : String) (live : List IndexSpec) :
    ClusterState :=
  { s with
    indexes := fun d c => if d = database ∧ c = collection then live else s.indexes d c }

def updateRow (s : ClusterState) (id : String) (update : RecommendationRow → RecommendationRow) :
    ClusterState :=
  { s with rows := s.rows.map fun row => if row.id = id then update row else row }

end ClusterState

structure DropCall where
  pass : PassReads
  row : RecommendationRow
  hiddenAt : Int
  reads : RowReads
  live : List IndexSpec

structure FinalizeRun where
  cluster : ClusterState
  calls : List DropCall
  /-- An error has ended the pass. -/
  ended : Bool

inductive PassStep where
  | handle (i : Nat) (reads : RowReads)
  /-- Anything else that happens while the pass runs. -/
  | outside (next : ClusterState → ClusterState)

def handleDue (pass : PassReads) (s : FinalizeRun) (reads : RowReads) (row : RecommendationRow)
    (hiddenAt : Int) : FinalizeRun :=
  let live := s.cluster.indexes row.database row.collection
  let action := dueAction pass reads live row hiddenAt
  let calls := if action = .drop then s.calls ++ [⟨pass, row, hiddenAt, reads, live⟩] else s.calls
  let called := s.cluster.setIndexes row.database row.collection
    (action.onCluster pass.canHide reads.unhideFails live row.target.indexName)
  match reads.outcome with
  | .completed => ⟨called.updateRow row.id action.onRow, calls, false⟩
  | .interrupted => ⟨called, calls, true⟩
  | .failed => ⟨s.cluster, calls, true⟩

def passStep (pass : PassReads) (loaded : List RecommendationRow) (s : FinalizeRun) :
    PassStep → FinalizeRun
  | .outside next => { s with cluster := next s.cluster }
  | .handle i reads =>
    match loaded[i]? with
    | none => s
    | some row =>
      match row.state, row.hiddenAt with
      | .HIDDEN, some hiddenAt => if s.ended then s else handleDue pass s reads row hiddenAt
      | _, _ => s

def finalizePass (s : FinalizeRun) (pass : PassReads × List PassStep) : FinalizeRun :=
  if pass.1.readOnly then s
  else pass.2.foldl (passStep pass.1 s.cluster.rows) { s with ended := false }

def finalizePasses (start : ClusterState) (passes : List (PassReads × List PassStep)) :
    FinalizeRun :=
  passes.foldl finalizePass ⟨start, [], false⟩

/-!
## The gates before a drop

What stands between a hidden row and `executor.drop`. The gates are read off the action a
pass decides on; that every call of a whole run passed them follows from what one step can
add to the calls.
-/

def DropCall.days (call : DropCall) : ℚ := call.row.observeDays.getD call.pass.observeDays

def DropCall.observed (call : DropCall) (baseline : Int × Int) : ObservedWindow :=
  observedWindow call.reads.readings .read call.hiddenAt call.days
    (observedOptions call.pass.outages baseline)

/-- The wait of a row: measured and stable where there is a baseline, elapsed where not. -/
def DropCall.Waited (call : DropCall) : Prop :=
  match call.row.baselineRead with
  | some baseline =>
    (judgeFailures call.row.failureSample call.reads.failedOps call.hiddenAt).isIntroduced = false ∧
      call.days * DAY_MS ≤ (call.observed baseline).observedMs ∧
      (call.observed baseline).verdict = .STABLE
  | none =>
    call.days * DAY_MS ≤
      ((call.pass.now - call.hiddenAt -
        ownOutageMs call.pass.outages call.hiddenAt call.pass.now : Int) : ℚ)

structure DropCall.Gated (call : DropCall) : Prop where
  hidden : call.row.state = .HIDDEN
  hiddenAt : call.row.hiddenAt = some call.hiddenAt
  writable : call.pass.readOnly = false
  inScope : call.pass.inScope call.row.database = true
  windowOpen : call.pass.windowOpen = true
  safe : (preflightDrop call.live call.reads.preflight call.row.target).safe = true
  waited : call.Waited
  /-- The row's step of the pipeline drops what the check has read. -/
  dropped : (finalizeDue call.pass.canHide (dueReads call.pass call.reads call.row call.hiddenAt)
    call.live call.row.row call.hiddenAt).dropped =
      (preflightDrop call.live call.reads.preflight call.row.target).spec

/-! ## One row -/

theorem observedWindow_complete {readings : List LatencyReading} {metric : LatencyMetric}
    {fromMs : Int} {days : ℚ} {options : ObservedOptions}
    (h : (observedWindow readings metric fromMs days options).verdict ≠ .INCOMPLETE) :
    days * DAY_MS ≤ (observedWindow readings metric fromMs days options).observedMs := by
  by_contra hlt
  apply h
  exact congrArg Prod.fst (if_pos (not_le.mp hlt))

variable {call : DropCall}

theorem waited_of_graduated
    (h : dueVerdict (dueReads call.pass call.reads call.row call.hiddenAt) call.row.row
      call.hiddenAt = .graduated) :
    call.Waited := by
  have hrow : call.row.row.baselineRead = call.row.baselineRead := rfl
  unfold DropCall.Waited
  simp only [dueVerdict, hrow] at h
  cases hbaseline : call.row.baselineRead with
  | none =>
    simp only [hbaseline] at h
    split_ifs at h with hshort
    exact not_lt.mp hshort
  | some baseline =>
    simp only [hbaseline] at h
    split_ifs at h with hintroduced hundecided _ hregressed
    refine ⟨Bool.eq_false_of_not_eq_true hintroduced, ?_, ?_⟩
    · exact observedWindow_complete fun hincomplete => hundecided (.inl hincomplete)
    · rcases hstable : (call.observed baseline).verdict with _ | _ | _ | _
      · exact absurd hstable hregressed
      · rfl
      · exact absurd (.inl hstable) hundecided
      · exact absurd (.inr hstable) hundecided

theorem gated_of_drop (hwritable : call.pass.readOnly = false) (hhidden : call.row.state = .HIDDEN)
    (hhiddenAt : call.row.hiddenAt = some call.hiddenAt)
    (h : dueAction call.pass call.reads call.live call.row call.hiddenAt = .drop) : call.Gated := by
  have hdropped : (finalizeDue call.pass.canHide
      (dueReads call.pass call.reads call.row call.hiddenAt) call.live call.row.row
      call.hiddenAt).dropped = (preflightDrop call.live call.reads.preflight call.row.target).spec := by
    rw [finalizeDue_eq, h]
    rfl
  unfold dueAction at h
  split at h
  · cases h
  rename_i hscope
  cases hverdict : dueVerdict (dueReads call.pass call.reads call.row call.hiddenAt) call.row.row
      call.hiddenAt with
  | introduced => simp [hverdict] at h
  | outstayed => simp [hverdict] at h
  | observing => simp [hverdict] at h
  | regressed => simp [hverdict] at h
  | graduated =>
    simp only [hverdict] at h
    split_ifs at h with hclosed hsafe
    exact {
      hidden := hhidden
      hiddenAt := hhiddenAt
      writable := hwritable
      inScope := by simpa using hscope
      windowOpen := by simpa using hclosed
      safe := hsafe
      waited := waited_of_graduated hverdict
      dropped := hdropped }

/-! ## Runs -/

variable {pass : PassReads} {s : FinalizeRun}

theorem calls_handleDue {reads : RowReads} {row : RecommendationRow} {hiddenAt : Int}
    (h : call ∈ (handleDue pass s reads row hiddenAt).calls) :
    call ∈ s.calls ∨
      call = ⟨pass, row, hiddenAt, reads, s.cluster.indexes row.database row.collection⟩ ∧
        dueAction pass reads call.live row hiddenAt = .drop := by
  have hcalls : (handleDue pass s reads row hiddenAt).calls =
      if dueAction pass reads (s.cluster.indexes row.database row.collection) row hiddenAt = .drop
      then s.calls ++ [⟨pass, row, hiddenAt, reads, s.cluster.indexes row.database row.collection⟩]
      else s.calls := by
    unfold handleDue
    cases reads.outcome <;> rfl
  rw [hcalls] at h
  split_ifs at h with hdrop
  · rcases List.mem_append.mp h with hold | hnew
    · exact .inl hold
    · rw [List.mem_singleton] at hnew
      subst hnew
      exact .inr ⟨rfl, hdrop⟩
  · exact .inl h

theorem calls_passStep (hwritable : pass.readOnly = false) {loaded : List RecommendationRow}
    {step : PassStep} (h : call ∈ (passStep pass loaded s step).calls) :
    call ∈ s.calls ∨ call.pass = pass ∧ (∃ i, step = .handle i call.reads) ∧ call.Gated := by
  cases step with
  | outside next => exact .inl h
  | handle i reads =>
    simp only [passStep] at h
    split at h
    · exact .inl h
    · split at h
      · rename_i hstate hhiddenAt
        split_ifs at h
        · exact .inl h
        · rcases calls_handleDue h with hold | ⟨rfl, hdrop⟩
          · exact .inl hold
          · exact .inr ⟨rfl, ⟨i, rfl⟩, gated_of_drop hwritable hstate hhiddenAt hdrop⟩
      · exact .inl h

theorem calls_foldl_passStep (hwritable : pass.readOnly = false)
    (loaded : List RecommendationRow) (steps : List PassStep) (s : FinalizeRun)
    (h : call ∈ (steps.foldl (passStep pass loaded) s).calls) :
    call ∈ s.calls ∨ call.pass = pass ∧ (∃ i, .handle i call.reads ∈ steps) ∧ call.Gated := by
  induction steps generalizing s with
  | nil => exact .inl h
  | cons step steps ih =>
    rcases ih _ h with hstep | ⟨hpass, ⟨i, hmem⟩, hgated⟩
    · rcases calls_passStep hwritable hstep with hold | ⟨hpass, ⟨i, rfl⟩, hgated⟩
      · exact .inl hold
      · exact .inr ⟨hpass, ⟨i, List.mem_cons_self⟩, hgated⟩
    · exact .inr ⟨hpass, ⟨i, List.mem_cons_of_mem step hmem⟩, hgated⟩

theorem calls_finalizePass {pass : PassReads × List PassStep}
    (h : call ∈ (finalizePass s pass).calls) :
    call ∈ s.calls ∨
      call.pass = pass.1 ∧ (∃ i, .handle i call.reads ∈ pass.2) ∧ call.Gated := by
  unfold finalizePass at h
  split_ifs at h with hreadOnly
  · exact .inl h
  · exact calls_foldl_passStep (Bool.eq_false_of_not_eq_true hreadOnly) s.cluster.rows pass.2
      { s with ended := false } h

/-- In any run, a hidden row's index is dropped only behind every gate, each one passed in
the pass that makes the call. -/
theorem dropCalls_gated (start : ClusterState) (passes : List (PassReads × List PassStep))
    (call : DropCall) (h : call ∈ (finalizePasses start passes).calls) :
    (∃ pass ∈ passes, call.pass = pass.1 ∧ ∃ i, .handle i call.reads ∈ pass.2) ∧ call.Gated := by
  induction passes using List.reverseRecOn with
  | nil => cases h
  | append_singleton passes pass ih =>
    rw [finalizePasses, List.foldl_append] at h
    rcases calls_finalizePass h with hold | ⟨hpass, hstep, hgated⟩
    · obtain ⟨⟨earlier, hmem, hfacts⟩, hgated⟩ := ih hold
      exact ⟨⟨earlier, List.mem_append_left _ hmem, hfacts⟩, hgated⟩
    · exact ⟨⟨pass, List.mem_append_right _ List.mem_cons_self, hpass, hstep⟩, hgated⟩

/-- A row hidden thirty-one days ago, whose reads were as fast since. -/
def graduatedRow : RecommendationRow where
  id := "r"
  database := "shop"
  collection := "orders"
  target := ⟨.DROP_UNUSED, "a_1", none⟩
  state := .HIDDEN
  hiddenAt := some 0
  observeDays := none
  baselineReadOps := some 100
  baselineReadLatency := some 1000
  baselineFailedOps := some 0
  baselineFailedReachMs := none

def graduatedState : ClusterState where
  indexes := fun _ _ => [{ ascending "a_1" ["a"] with hidden := true }]
  rows := [graduatedRow]

def passOn (day : Int) : PassReads where
  policy := none
  startedAt := day * DAY_MS
  now := day * DAY_MS
  readOnly := false
  canHide := true
  observedDatabases := some ["shop"]
  outages := []

def measuredReads : RowReads where
  unhideFails := false
  failedOps := .WINDOW ⟨some 0, 0, [], [], none⟩
  readings :=
    [⟨⟨some 0, some 0, some 1, none⟩, 100, 1000, 0, 0⟩,
      ⟨⟨some (30 * DAY_MS), some (30 * DAY_MS), some 1, none⟩, 150, 1500, 0, 0⟩]
  preflight := ⟨fun _ => 0, []⟩
  outcome := .completed

def graduatingPasses : List (PassReads × List PassStep) :=
  [(passOn 15, [.handle 0 { measuredReads with readings := [] }]),
    (passOn 31, [.handle 0 measuredReads])]

/-- The second of two passes makes the one call. -/
theorem dropCalls_gated_graduatingPasses :
    ∃ call, (finalizePasses graduatedState graduatingPasses).calls = [call] ∧ call.Gated := by
  obtain ⟨call, hcalls⟩ := List.length_eq_one_iff.mp
    (show (finalizePasses graduatedState graduatingPasses).calls.length = 1 by decide +kernel)
  have hmem : call ∈ (finalizePasses graduatedState graduatingPasses).calls := by
    rw [hcalls]
    exact List.mem_singleton_self call
  exact ⟨call, hcalls, (dropCalls_gated graduatedState graduatingPasses call hmem).2⟩

end Indexterity
