import Indexterity.Observed
import Indexterity.Preflight
import Mathlib.Data.Finset.Max

/-!
# Pipeline: apply and finalize passes over one collection

The hide loop of `jobs/apply.ts` and the due loop of `jobs/finalize.ts`. The cluster is
the list of the collection's indexes; a row is what the loops read and write of a
recommendation. Whatever a pass learns from outside the modelled state (counters,
latency readings, hints, scope, clocks, failing writes) is an argument, so a run ranges
over all of it. The specs dropped for plain redundancy rows are kept in a log.
-/

namespace Indexterity

inductive RecommendationState where
  | PROPOSED
  | APPROVED
  | HIDDEN
  | OBSERVE
  | DROPPED
  | SCHEDULED
  | BUILDING
  | ACTIVE
  | ROLLED_BACK
  | REJECTED
deriving DecidableEq, Repr

structure Row where
  target : DropTarget
  state : RecommendationState
  hiddenAt : Option Int
  observeDays : Option ℚ
  /-- `baselineReadOps` and `baselineReadLatency`, which are written together. -/
  baselineRead : Option (Int × Int)
deriving DecidableEq

/-! ## The executor -/

def setHidden (hidden : Bool) (indexes : List IndexSpec) (name : String) : List IndexSpec :=
  indexes.map fun index => if index.name = name then { index with hidden } else index

def hide : List IndexSpec → String → List IndexSpec := setHidden true

def unhide : List IndexSpec → String → List IndexSpec := setHidden false

def dropIndex (indexes : List IndexSpec) (name : String) : List IndexSpec :=
  indexes.filter fun index => index.name != name

/-! ## Apply -/

def HIDE_TYPES : List RecommendationType := [.DROP_UNUSED, .DROP_REDUNDANT, .MERGE]

/-- How the writes of one hide go. An error before the row moves un-hides the index
again, if that succeeds. -/
inductive HideOutcome where
  | recorded
  | hideFailed
  | putBack
  | stranded
deriving DecidableEq, Repr

structure HideReads where
  /-- `withdrawHinted` took the row back. -/
  withdrawn : Bool
  inScope : Bool
  /-- Less than `FAILURE_BASELINE_MS` of failures recorded so far. -/
  waiting : Bool
  preflight : PreflightReads
  now : Int
  latency : Int × Int
  /-- `dynamicObserveDays` of the index's history. -/
  windowDays : ℚ
  outcome : HideOutcome

def applyRow (canHide : Bool) (reads : HideReads) (indexes : List IndexSpec) (row : Row) :
    List IndexSpec × Row :=
  let name := row.target.indexName
  if row.state ≠ .APPROVED ∨ row.target.type ∉ HIDE_TYPES then (indexes, row)
  else if reads.withdrawn then (indexes, { row with state := .PROPOSED })
  else if !reads.inScope || reads.waiting then (indexes, row)
  else if !(preflightDrop indexes reads.preflight row.target).safe then
    (indexes, { row with state := .PROPOSED })
  else
    match reads.outcome with
    | .hideFailed => (indexes, row)
    | .putBack => (if canHide then unhide (hide indexes name) name else indexes, row)
    | .stranded => (if canHide then hide indexes name else indexes, row)
    | .recorded =>
      (if canHide then hide indexes name else indexes,
        { row with
          state := .HIDDEN
          hiddenAt := some reads.now
          observeDays := some reads.windowDays
          baselineRead := if canHide then some reads.latency else none })

/-! ## Finalize -/

structure DueReads where
  withdrawn : Bool
  inScope : Bool
  unhideFails : Bool
  /-- `judgeFailures` answered INTRODUCED. -/
  introduced : Bool
  readings : List LatencyReading
  outages : List OwnOutage
  now : Int
  policyObserveDays : ℚ
  windowOpen : Bool
  preflight : PreflightReads
  /-- The pass ends between its write to the cluster and its write to the row. -/
  interrupted : Bool

inductive DueVerdict where
  | introduced
  | outstayed
  | observing
  | regressed
  | graduated
deriving DecidableEq, Repr

def observedOptions (outages : List OwnOutage) (baseline : Int × Int) : ObservedOptions where
  factor := 3 / 2
  minWindowOps := 20
  recordedBaselineMicrosPerOp :=
    if 0 < baseline.1 then some ((baseline.2 : ℚ) / baseline.1) else none
  ownOutages := outages

def dueVerdict (reads : DueReads) (row : Row) (hiddenAt : Int) : DueVerdict :=
  let days := row.observeDays.getD reads.policyObserveDays
  let outageMs := ownOutageMs reads.outages hiddenAt reads.now
  match row.baselineRead with
  | some baseline =>
    if reads.introduced then .introduced
    else
      let verdict := (observedWindow reads.readings .read hiddenAt days
        (observedOptions reads.outages baseline)).verdict
      if verdict = .INCOMPLETE ∨ verdict = .NO_BASELINE then
        if outstayedWindow hiddenAt days reads.now outageMs then .outstayed else .observing
      else if verdict = .REGRESSED then .regressed
      else .graduated
  | none =>
    if ((reads.now - hiddenAt - outageMs : Int) : ℚ) < days * DAY_MS then .observing
    else .graduated

/-- What handling one hidden row leaves behind: the indexes, the row, and the index
dropped on the way. -/
structure DueResult where
  indexes : List IndexSpec
  row : Row
  dropped : Option IndexSpec

def dropGraduated (canHide : Bool) (reads : DueReads) (indexes : List IndexSpec) (row : Row) :
    DueResult :=
  let name := row.target.indexName
  let check := preflightDrop indexes reads.preflight row.target
  if !reads.windowOpen then ⟨indexes, row, none⟩
  else if check.safe then
    ⟨dropIndex indexes name, { row with state := .DROPPED }, check.spec⟩
  else if check.spec.isSome then
    ⟨if canHide then unhide indexes name else indexes,
      { row with state := .PROPOSED, hiddenAt := none }, none⟩
  else ⟨indexes, { row with state := .DROPPED }, none⟩

def finalizeDue (canHide : Bool) (reads : DueReads) (indexes : List IndexSpec) (row : Row)
    (hiddenAt : Int) : DueResult :=
  let name := row.target.indexName
  if !reads.inScope then
    ⟨if canHide && !reads.unhideFails then unhide indexes name else indexes,
      { row with state := .PROPOSED, hiddenAt := none }, none⟩
  else
    match dueVerdict reads row hiddenAt with
    | .introduced =>
      ⟨unhide indexes name, { row with state := .REJECTED, hiddenAt := none }, none⟩
    | .outstayed =>
      ⟨unhide indexes name,
        { row with
          state := .PROPOSED
          hiddenAt := none
          observeDays := none
          baselineRead := none }, none⟩
    | .observing => ⟨indexes, row, none⟩
    | .regressed =>
      ⟨unhide indexes name, { row with state := .REJECTED, hiddenAt := none }, none⟩
    | .graduated => dropGraduated canHide reads indexes row

def finalizeRow (canHide : Bool) (reads : DueReads) (indexes : List IndexSpec) (row : Row) :
    DueResult :=
  match row.state, row.hiddenAt with
  | .APPROVED, _ =>
    if row.target.type ∈ HIDE_TYPES ∧ reads.withdrawn then
      ⟨indexes, { row with state := .PROPOSED }, none⟩
    else ⟨indexes, row, none⟩
  | .HIDDEN, some hiddenAt =>
    let result := finalizeDue canHide reads indexes row hiddenAt
    if reads.interrupted then { result with row } else result
  | _, _ => ⟨indexes, row, none⟩

/-! ## Runs -/

structure Pipeline where
  indexes : List IndexSpec
  rows : List Row
  /-- The specs dropped for a DROP_REDUNDANT row without a `supersededBy`. -/
  droppedRedundant : List IndexSpec
deriving DecidableEq

def approve (s : Pipeline) (i : Nat) : Pipeline :=
  match s.rows[i]? with
  | none => s
  | some row =>
    if row.state = .PROPOSED then { s with rows := s.rows.set i { row with state := .APPROVED } }
    else s

def applyStep (canHide : Bool) (s : Pipeline) (step : Nat × HideReads) : Pipeline :=
  match s.rows[step.1]? with
  | none => s
  | some row =>
    let (indexes, row') := applyRow canHide step.2 s.indexes row
    { s with indexes, rows := s.rows.set step.1 row' }

def finalizeStep (canHide : Bool) (s : Pipeline) (step : Nat × DueReads) : Pipeline :=
  match s.rows[step.1]? with
  | none => s
  | some row =>
    let result := finalizeRow canHide step.2 s.indexes row
    { indexes := result.indexes
      rows := s.rows.set step.1 result.row
      droppedRedundant :=
        if row.target.isPlainRedundant then result.dropped.toList ++ s.droppedRedundant
        else s.droppedRedundant }

/-- One pass, over rows in the order the database returned them. -/
inductive Pass where
  | applyCluster (approvals : List Nat) (rows : List (Nat × HideReads))
  | finalizeCluster (rows : List (Nat × DueReads))

def runPass (canHide : Bool) (s : Pipeline) : Pass → Pipeline
  | .applyCluster approvals rows => rows.foldl (applyStep canHide) (approvals.foldl approve s)
  | .finalizeCluster rows => rows.foldl (finalizeStep canHide) s

def runPasses (canHide : Bool) (s : Pipeline) (passes : List Pass) : Pipeline :=
  passes.foldl (runPass canHide) s

/-!
## Covers across a run of passes

Preflight re-checks a redundancy drop's cover at its own moment, but a drop justified
by usage never asks what it covers. What a whole run keeps is therefore a matter of
which rows there are: an index no live row can take is still there, visible, after any
run, and where each redundant index has a cover that only redundancy rows can take, it
has one that no row can take.
-/

def RecommendationState.isLive : RecommendationState → Bool
  | PROPOSED => true
  | APPROVED => true
  | HIDDEN => true
  | _ => false

/-- The row can hide or drop the index: it is live, names it, and the index is not
protected from it. -/
def Row.takes (row : Row) (index : IndexSpec) : Bool :=
  row.state.isLive && row.target.indexName == index.name &&
    (!isNeverDrop index || row.target.supersededBy.isSome)

def IndexSpec.shown (index : IndexSpec) : IndexSpec := { index with hidden := false }

variable {index : IndexSpec}

theorem shown_of_visible (h : index.hidden = false) : index.shown = index := by
  cases index
  simp_all [IndexSpec.shown]

theorem isRedundantPrefix_shown (a b : IndexSpec) :
    isRedundantPrefix a.shown b = isRedundantPrefix a b := rfl

theorem takes_congr (row : Row) {a b : IndexSpec} (h : a.shown = b.shown) :
    row.takes a = row.takes b := by
  have hshown : row.takes a.shown = row.takes b.shown := congrArg row.takes h
  exact hshown

/-! ## What one row does to the cluster -/

/-- The writes a row can make: none, an un-hide, or, past preflight, a hide or a drop
of the index it names. -/
inductive ClusterWrite (indexes : List IndexSpec) (row : Row) :
    List IndexSpec → Option IndexSpec → Prop where
  | unchanged : ClusterWrite indexes row indexes none
  | unhidden : ClusterWrite indexes row (unhide indexes row.target.indexName) none
  | taken (spec : IndexSpec) (indexes' : List IndexSpec) (dropped : Option IndexSpec)
      (named : specNamed indexes row.target.indexName = some spec) (takes : row.takes spec = true)
      (write : indexes' = hide indexes row.target.indexName ∨
        indexes' = unhide (hide indexes row.target.indexName) row.target.indexName ∨
        indexes' = dropIndex indexes row.target.indexName)
      (drops : dropped = none ∨ dropped = some spec) :
      ClusterWrite indexes row indexes' dropped

def RowStep (row row' : Row) : Prop :=
  row'.target = row.target ∧ (row'.state.isLive = true → row.state.isLive = true)

theorem RowStep.refl (row : Row) : RowStep row row := ⟨rfl, id⟩

variable {indexes : List IndexSpec} {row : Row}

theorem takes_of_safe {reads : PreflightReads}
    (hlive : row.state.isLive = true) (hsafe : (preflightDrop indexes reads row.target).safe = true) :
    ∃ spec, specNamed indexes row.target.indexName = some spec ∧
      (preflightDrop indexes reads row.target).spec = some spec ∧ row.takes spec = true := by
  obtain ⟨spec, hnamed, hspec, hprotected, -⟩ := preflightDrop_safe hsafe
  refine ⟨spec, hnamed, hspec, ?_⟩
  have hname : spec.name = row.target.indexName := (specNamed_some hnamed).2
  rcases protectedRefusal_eq_none hprotected with h | h <;> simp [Row.takes, hlive, hname, h]

variable (canHide : Bool)

theorem applyRow_write (reads : HideReads) (indexes : List IndexSpec) (row : Row) :
    ClusterWrite indexes row (applyRow canHide reads indexes row).1 none ∧
      RowStep row (applyRow canHide reads indexes row).2 := by
  unfold applyRow
  split
  · exact ⟨.unchanged, .refl row⟩
  · rename_i hstate
    have hlive : row.state.isLive = true := by
      have happroved : row.state = .APPROVED := by
        by_contra h
        exact hstate (.inl h)
      rw [happroved]
      rfl
    split
    · exact ⟨.unchanged, rfl, fun _ => hlive⟩
    · split
      · exact ⟨.unchanged, .refl row⟩
      · split
        · exact ⟨.unchanged, rfl, fun _ => hlive⟩
        · rename_i hsafe
          obtain ⟨spec, hnamed, -, htakes⟩ := takes_of_safe hlive (by simpa using hsafe)
          cases canHide with
          | false => split <;> exact ⟨.unchanged, rfl, fun _ => hlive⟩
          | true =>
            split
            · exact ⟨.unchanged, .refl row⟩
            · exact ⟨.taken spec _ _ hnamed htakes (.inr (.inl rfl)) (.inl rfl), .refl row⟩
            · exact ⟨.taken spec _ _ hnamed htakes (.inl rfl) (.inl rfl), .refl row⟩
            · exact ⟨.taken spec _ _ hnamed htakes (.inl rfl) (.inl rfl), rfl, fun _ => hlive⟩

variable (reads : DueReads)

section
variable (indexes : List IndexSpec) (hlive : row.state.isLive = true)
include hlive

theorem dropGraduated_write :
    ClusterWrite indexes row (dropGraduated canHide reads indexes row).indexes
      (dropGraduated canHide reads indexes row).dropped ∧
      RowStep row (dropGraduated canHide reads indexes row).row := by
  cases hopen : reads.windowOpen with
  | false =>
    simp only [dropGraduated, hopen, Bool.not_false, if_true]
    exact ⟨.unchanged, .refl row⟩
  | true =>
    by_cases hsafe : (preflightDrop indexes reads.preflight row.target).safe = true
    · obtain ⟨spec, hnamed, hspec, htakes⟩ := takes_of_safe hlive hsafe
      simp only [dropGraduated, hopen, Bool.not_true, Bool.false_eq_true, if_false, hsafe, if_true]
      exact ⟨.taken spec _ _ hnamed htakes (.inr (.inr rfl)) (.inr hspec), rfl, fun _ => hlive⟩
    · by_cases hspec : (preflightDrop indexes reads.preflight row.target).spec.isSome = true
      · simp only [dropGraduated, hopen, Bool.not_true, Bool.false_eq_true, if_false, hsafe, hspec,
          if_true]
        cases canHide
        · exact ⟨.unchanged, rfl, fun _ => hlive⟩
        · exact ⟨.unhidden, rfl, fun _ => hlive⟩
      · simp only [dropGraduated, hopen, Bool.not_true, Bool.false_eq_true, if_false, hsafe, hspec]
        exact ⟨.unchanged, rfl, fun _ => hlive⟩

theorem finalizeDue_write (hiddenAt : Int) :
    ClusterWrite indexes row (finalizeDue canHide reads indexes row hiddenAt).indexes
      (finalizeDue canHide reads indexes row hiddenAt).dropped ∧
      RowStep row (finalizeDue canHide reads indexes row hiddenAt).row := by
  unfold finalizeDue
  split
  · by_cases hput : (canHide && !reads.unhideFails) = true
    · simp only [hput, if_true]
      exact ⟨.unhidden, rfl, fun _ => hlive⟩
    · simp only [hput]
      exact ⟨.unchanged, rfl, fun _ => hlive⟩
  · split
    · exact ⟨.unhidden, rfl, fun _ => hlive⟩
    · exact ⟨.unhidden, rfl, fun _ => hlive⟩
    · exact ⟨.unchanged, .refl row⟩
    · exact ⟨.unhidden, rfl, fun _ => hlive⟩
    · exact dropGraduated_write canHide reads indexes hlive

end

theorem finalizeRow_write (indexes : List IndexSpec) (row : Row) :
    ClusterWrite indexes row (finalizeRow canHide reads indexes row).indexes
      (finalizeRow canHide reads indexes row).dropped ∧
      RowStep row (finalizeRow canHide reads indexes row).row := by
  unfold finalizeRow
  split
  · rename_i hstate
    have hlive : row.state.isLive = true := by rw [hstate]; rfl
    split
    · exact ⟨.unchanged, rfl, fun _ => hlive⟩
    · exact ⟨.unchanged, .refl row⟩
  · rename_i hiddenAt hstate _
    have hlive : row.state.isLive = true := by rw [hstate]; rfl
    obtain ⟨hwrite, hstep⟩ := finalizeDue_write canHide reads indexes hlive hiddenAt
    split
    · exact ⟨hwrite, .refl row⟩
    · exact ⟨hwrite, hstep⟩
  · exact ⟨.unchanged, .refl row⟩

/-! ## What a run keeps -/

def Untouchable (start : Pipeline) (index : IndexSpec) : Prop :=
  ∀ row ∈ start.rows, row.takes index = false

/-- Everything a run from `start` has kept at `s`. -/
structure Kept (start s : Pipeline) : Prop where
  untouched : ∀ index ∈ start.indexes, index.hidden = false → Untouchable start index →
    index ∈ s.indexes
  origin : ∀ index ∈ s.indexes, ∃ index₀ ∈ start.indexes, index.shown = index₀.shown
  rows : ∀ row ∈ s.rows, ∃ row₀ ∈ start.rows, RowStep row₀ row
  dropped : ∀ index ∈ s.droppedRedundant, ∃ index₀ ∈ start.indexes, index.shown = index₀.shown ∧
    ∃ row₀ ∈ start.rows, row₀.target.isPlainRedundant = true ∧ row₀.takes index₀ = true

theorem Kept.refl {start : Pipeline} (hlog : start.droppedRedundant = []) : Kept start start where
  untouched := fun _ h _ _ => h
  origin := fun index h => ⟨index, h, rfl⟩
  rows := fun row h => ⟨row, h, .refl row⟩
  dropped := by simp [hlog]

theorem mem_setHidden_of_ne {hidden : Bool} {name : String} (h : index ∈ indexes) (hne : index.name ≠ name) :
    index ∈ setHidden hidden indexes name :=
  List.mem_map.mpr ⟨index, h, if_neg hne⟩

theorem mem_unhide_of_visible (name : String)
    (h : index ∈ indexes) (hvisible : index.hidden = false) : index ∈ unhide indexes name := by
  refine List.mem_map.mpr ⟨index, h, ?_⟩
  split
  · exact shown_of_visible hvisible
  · rfl

theorem shown_of_mem_setHidden {hidden : Bool} {name : String} (h : index ∈ setHidden hidden indexes name) :
    ∃ before ∈ indexes, index.shown = before.shown := by
  obtain ⟨before, hmem, rfl⟩ := List.mem_map.mp h
  refine ⟨before, hmem, ?_⟩
  split <;> rfl

variable {indexes' : List IndexSpec} {dropped : Option IndexSpec}

theorem ClusterWrite.origin (h : ClusterWrite indexes row indexes' dropped) :
    ∀ index ∈ indexes', ∃ before ∈ indexes, index.shown = before.shown := by
  intro index hindex
  cases h with
  | unchanged => exact ⟨index, hindex, rfl⟩
  | unhidden => exact shown_of_mem_setHidden hindex
  | taken spec _ _ _ _ write _ =>
    rcases write with rfl | rfl | rfl
    · exact shown_of_mem_setHidden hindex
    · obtain ⟨middle, hmiddle, hshown⟩ := shown_of_mem_setHidden hindex
      obtain ⟨before, hbefore, hshown'⟩ := shown_of_mem_setHidden hmiddle
      exact ⟨before, hbefore, hshown.trans hshown'⟩
    · exact ⟨index, (List.mem_filter.mp hindex).1, rfl⟩

section Run
variable {start : Pipeline} (hnames : (start.indexes.map fun index => index.name).Nodup)
include hnames

variable {s : Pipeline}

section
variable (hkept : Kept start s)
include hkept

theorem ClusterWrite.untouched {row₀ : Row} (hrow₀ : row₀ ∈ start.rows) (hstep : RowStep row₀ row)
    (h : ClusterWrite s.indexes row indexes' dropped) (hindex : index ∈ start.indexes)
    (hvisible : index.hidden = false) (huntouchable : Untouchable start index) :
    index ∈ indexes' := by
  have hmem := hkept.untouched index hindex hvisible huntouchable
  cases h with
  | unchanged => exact hmem
  | unhidden => exact mem_unhide_of_visible _ hmem hvisible
  | taken spec _ _ named takes write _ =>
    obtain ⟨hspec, hname⟩ := specNamed_some named
    have hne : index.name ≠ row.target.indexName := by
      intro heq
      -- the index taken is the index itself, which no row of the start takes
      obtain ⟨spec₀, hspec₀, hshown⟩ := hkept.origin spec hspec
      have hsame : spec₀ = index := by
        refine List.inj_on_of_nodup_map hnames hspec₀ hindex ?_
        have hname₀ : spec.shown.name = spec₀.shown.name := congrArg IndexSpec.name hshown
        exact hname₀.symm.trans (hname.trans heq.symm)
      have hfree := huntouchable row₀ hrow₀
      rw [← hsame, ← takes_congr row₀ hshown] at hfree
      simp only [Row.takes, hstep.1, Bool.and_eq_true, Bool.and_eq_false_iff] at takes hfree
      have hlive := hstep.2 takes.1.1
      simp_all
    rcases write with rfl | rfl | rfl
    · exact mem_setHidden_of_ne hmem hne
    · exact mem_setHidden_of_ne (mem_setHidden_of_ne hmem hne) hne
    · exact List.mem_filter.mpr ⟨hmem, by simpa using hne⟩

theorem Kept.step {i : Nat} {row' : Row} (hrow : s.rows[i]? = some row)
    (hwrite : ClusterWrite s.indexes row indexes' dropped) (hstep : RowStep row row') :
    Kept start ⟨indexes', s.rows.set i row',
      if row.target.isPlainRedundant then dropped.toList ++ s.droppedRedundant
      else s.droppedRedundant⟩ := by
  obtain ⟨row₀, hrow₀, hstep₀⟩ := hkept.rows row (List.mem_of_getElem? hrow)
  refine ⟨fun index hindex hvisible huntouchable => ?_, fun index hindex => ?_,
    fun other hother => ?_, fun index hindex => ?_⟩
  · exact hwrite.untouched hnames hkept hrow₀ hstep₀ hindex hvisible huntouchable
  · obtain ⟨before, hbefore, hshown⟩ := hwrite.origin index hindex
    obtain ⟨index₀, hindex₀, hshown₀⟩ := hkept.origin before hbefore
    exact ⟨index₀, hindex₀, hshown.trans hshown₀⟩
  · rcases List.mem_or_eq_of_mem_set hother with hother | rfl
    · exact hkept.rows other hother
    · exact ⟨row₀, hrow₀, hstep.1.trans hstep₀.1, fun h => hstep₀.2 (hstep.2 h)⟩
  · by_cases hplain : row.target.isPlainRedundant = true
    · rw [if_pos hplain] at hindex
      rcases List.mem_append.mp hindex with hnew | hold
      · -- only a taken index is dropped, and this row takes it
        cases hwrite with
        | unchanged => simp at hnew
        | unhidden => simp at hnew
        | taken spec _ _ named takes _ drops =>
          rcases drops with rfl | rfl
          · simp at hnew
          · have hindex : index = spec := by simpa using hnew
            obtain ⟨spec₀, hspec₀, hshown⟩ := hkept.origin spec (specNamed_some named).1
            refine ⟨spec₀, hspec₀, hindex ▸ hshown, row₀, hrow₀, hstep₀.1 ▸ hplain, ?_⟩
            rw [← takes_congr row₀ hshown]
            simp only [Row.takes, hstep₀.1, Bool.and_eq_true] at takes ⊢
            exact ⟨⟨hstep₀.2 takes.1.1, takes.1.2⟩, takes.2⟩
      · exact hkept.dropped index hold
    · rw [if_neg hplain] at hindex
      exact hkept.dropped index hindex

theorem Kept.approve (i : Nat) : Kept start (approve s i) := by
  unfold Indexterity.approve
  split
  · exact hkept
  · rename_i row hrow
    split
    · rename_i hstate
      have h := hkept.step hnames hrow .unchanged
        (⟨rfl, fun _ => by rw [hstate]; rfl⟩ : RowStep row { row with state := .APPROVED })
      simpa using h
    · exact hkept

theorem Kept.applyStep (canHide : Bool) (step : Nat × HideReads) :
    Kept start (applyStep canHide s step) := by
  unfold Indexterity.applyStep
  split
  · exact hkept
  · rename_i row hrow
    obtain ⟨hwrite, hstep⟩ := applyRow_write canHide step.2 s.indexes row
    have h := hkept.step hnames hrow hwrite hstep
    simpa using h

theorem Kept.finalizeStep (canHide : Bool) (step : Nat × DueReads) :
    Kept start (finalizeStep canHide s step) := by
  unfold Indexterity.finalizeStep
  split
  · exact hkept
  · rename_i row hrow
    obtain ⟨hwrite, hstep⟩ := finalizeRow_write canHide step.2 s.indexes row
    exact hkept.step hnames hrow hwrite hstep

theorem Kept.runPass (canHide : Bool) (pass : Pass) :
    Kept start (runPass canHide s pass) := by
  cases pass with
  | applyCluster approvals rows =>
    refine List.foldlRecOn rows _ ?_ fun _ h step _ => h.applyStep hnames canHide step
    exact List.foldlRecOn approvals _ hkept fun _ h i _ => h.approve hnames i
  | finalizeCluster rows =>
    exact List.foldlRecOn rows _ hkept fun _ h step _ => h.finalizeStep hnames canHide step

end

/-- Every index a plain redundancy row can take has a visible cover that only such rows
can take. -/
def RedundancyStands (start : Pipeline) : Prop :=
  ∀ row ∈ start.rows, row.target.isPlainRedundant = true →
    ∀ index ∈ start.indexes, row.takes index = true →
      ∃ cover ∈ start.indexes, isRedundantPrefix index cover = true ∧
        ∀ other ∈ start.rows, other.takes cover = true → other.target.isPlainRedundant = true

theorem RedundancyStands.exists_untouchable (h : RedundancyStands start)
    (hrow : row ∈ start.rows) (hplain : row.target.isPlainRedundant = true)
    (hindex : index ∈ start.indexes) (htakes : row.takes index = true) :
    ∃ cover ∈ start.indexes, isRedundantPrefix index cover = true ∧ Untouchable start cover := by
  classical
  let covers := start.indexes.filter fun cover => isRedundantPrefix index cover ∧
    ∀ other ∈ start.rows, other.takes cover = true → other.target.isPlainRedundant = true
  have hcovers : ∀ cover, cover ∈ covers ↔ cover ∈ start.indexes ∧
      isRedundantPrefix index cover = true ∧
      ∀ other ∈ start.rows, other.takes cover = true → other.target.isPlainRedundant = true := by
    intro cover
    simp [covers]
  obtain ⟨first, hfirst⟩ := h row hrow hplain index hindex htakes
  obtain ⟨widest, hwidest, hmax⟩ := covers.toFinset.exists_max_image
    (fun cover => cover.keys.length) ⟨first, List.mem_toFinset.mpr ((hcovers first).mpr hfirst)⟩
  obtain ⟨hmem, hcovering, honly⟩ := (hcovers widest).mp (List.mem_toFinset.mp hwidest)
  refine ⟨widest, hmem, hcovering, fun other hother => ?_⟩
  by_contra hne
  have htaken : other.takes widest = true := by simpa using hne
  obtain ⟨wider, hwider, hcovering', honly'⟩ :=
    h other hother (honly other hother htaken) widest hmem htaken
  have hlen := isRedundantPrefix_length hcovering'
  have htrans : isRedundantPrefix index wider = true := by
    refine isRedundantPrefix_trans hcovering hcovering' fun hname => ?_
    have hsame : index = wider := List.inj_on_of_nodup_map hnames hindex hwider hname
    have hlen' := isRedundantPrefix_length hcovering
    rw [hsame] at hlen'
    omega
  have hle := hmax wider (List.mem_toFinset.mpr ((hcovers wider).mpr ⟨hwider, htrans, honly'⟩))
  omega

/-- Where redundancy stands at the start, every index dropped as redundant has a cover,
present and visible, at the end of every run. -/
theorem droppedRedundant_covered (hlog : start.droppedRedundant = [])
    (hstands : RedundancyStands start) (canHide : Bool) (passes : List Pass) :
    ∀ index ∈ (runPasses canHide start passes).droppedRedundant,
      ∃ cover ∈ (runPasses canHide start passes).indexes,
        isRedundantPrefix index cover = true ∧ cover.hidden = false := by
  intro index hindex
  have hkept : Kept start (runPasses canHide start passes) :=
    List.foldlRecOn passes _ (Kept.refl hlog) fun _ h pass _ => h.runPass hnames canHide pass
  obtain ⟨index₀, hindex₀, hshown, row₀, hrow₀, hplain, htakes⟩ := hkept.dropped index hindex
  obtain ⟨cover, hcover, hcovering, huntouchable⟩ :=
    hstands.exists_untouchable hnames hrow₀ hplain hindex₀ htakes
  have hvisible : cover.hidden = false :=
    ((optionsCompatible_iff _ _).mp ((isRedundantPrefix_iff _ _).mp hcovering).1).2.2.1.2.2
  refine ⟨cover, hkept.untouched cover hcover hvisible huntouchable, ?_, hvisible⟩
  rw [← isRedundantPrefix_shown, hshown, isRedundantPrefix_shown]
  exact hcovering

/-- A run makes no index, and leaves a visible one that no row can take as it is. -/
theorem others_left_alone (hlog : start.droppedRedundant = []) (canHide : Bool)
    (passes : List Pass) :
    (∀ index ∈ (runPasses canHide start passes).indexes,
      ∃ index₀ ∈ start.indexes, index.shown = index₀.shown) ∧
    ∀ index ∈ start.indexes, index.hidden = false → Untouchable start index →
      index ∈ (runPasses canHide start passes).indexes := by
  have hkept : Kept start (runPasses canHide start passes) :=
    List.foldlRecOn passes _ (Kept.refl hlog) fun _ h pass _ => h.runPass hnames canHide pass
  exact ⟨hkept.origin, hkept.untouched⟩

end Run

/-- A pass that nothing outside holds back: no hints, no operations, no failures. -/
def quietHide : HideReads where
  withdrawn := false
  inScope := true
  waiting := false
  preflight := ⟨fun _ => 0, []⟩
  now := 0
  latency := (0, 0)
  windowDays := 0
  outcome := .recorded

def quietDue : DueReads where
  withdrawn := false
  inScope := true
  unhideFails := false
  introduced := false
  readings := []
  outages := []
  now := DAY_MS
  policyObserveDays := 30
  windowOpen := true
  preflight := ⟨fun _ => 0, []⟩
  interrupted := false

def approvedRow (type : RecommendationType) (name : String) : Row :=
  ⟨⟨type, name, none⟩, .APPROVED, none, none, none⟩

/-- A unique index stays, although a row asks for it. -/
theorem unique_left_alone :
    let index := { ascending "a_1" ["a"] with unique := true }
    index ∈ (runPasses true ⟨[index], [approvedRow .DROP_UNUSED "a_1"], []⟩
      [.applyCluster [] [(0, quietHide)], .finalizeCluster [(0, quietDue)]]).indexes := by
  refine (others_left_alone ?_ rfl true _).2 _ List.mem_cons_self rfl ?_
  · decide
  · unfold Untouchable
    decide

/-- Only the narrow index is on its way out: its cover outlives the run. -/
theorem droppedRedundant_covered_alone :
    let start : Pipeline := ⟨[ascending "a_1" ["a"], ascending "a_1_b_1" ["a", "b"]],
      [approvedRow .DROP_REDUNDANT "a_1"], []⟩
    let passes : List Pass := [.applyCluster [] [(0, quietHide)], .finalizeCluster [(0, quietDue)]]
    ∀ index ∈ (runPasses true start passes).droppedRedundant,
      ∃ cover ∈ (runPasses true start passes).indexes,
        isRedundantPrefix index cover = true ∧ cover.hidden = false := by
  intro start passes
  refine droppedRedundant_covered ?_ rfl ?_ true passes
  · decide
  · unfold RedundancyStands
    decide

/-- The cover has a usage row of its own: the first passes drop the narrow index as
redundant, the next ones its last cover as unused, on engines with and without hide. -/
theorem droppedRedundant_uncovered_by_unused :
    let start : Pipeline := ⟨[ascending "a_1" ["a"], ascending "a_1_b_1" ["a", "b"]],
      [approvedRow .DROP_REDUNDANT "a_1", approvedRow .DROP_UNUSED "a_1_b_1"], []⟩
    let passes : List Pass := [.applyCluster [] [(0, quietHide)], .finalizeCluster [(0, quietDue)],
      .applyCluster [] [(1, quietHide)], .finalizeCluster [(1, quietDue)]]
    ∀ canHide : Bool, (start.indexes.map fun index => index.name).Nodup ∧
      ¬ ∀ index ∈ (runPasses canHide start passes).droppedRedundant,
        ∃ cover ∈ (runPasses canHide start passes).indexes,
          isRedundantPrefix index cover = true ∧ cover.hidden = false := by
  decide +kernel

end Indexterity
