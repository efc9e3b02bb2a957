import Mathlib.Algebra.BigOperators.Ring.Finset
import Indexterity.Segments
import Indexterity.Library.Newest
import Indexterity.Library.Spans

/-!
# Batches: a collect of every index at once

`recordSnapshots` of `jobs/collect.ts` for all the indexes of a collect, and the exclusion
constraint of `index_snapshots`. The collect is two statements, one that extends runs and one
that inserts them, with no transaction around them; each is rejected as a whole where a row
of it would overlap another row of its index.

An extended run is the newest of its index and never reaches another. An inserted one is an
instant, so a batch is rejected exactly where the clock stands on a stored run and the reading
does not continue it.
-/

namespace Indexterity

open Library

/-- What one collect saw, by the id of the index. No collect lists an index twice. -/
structure Batch where
  now : Int
  seen : List (String × List MemberUsage)
  distinct : (seen.map Prod.fst).Nodup

abbrev SnapshotStore := String → List SnapshotRow

def Batch.collectOf (batch : Batch) (id : String) : Option Collect :=
  (batch.seen.find? fun entry => decide (entry.1 = id)).map fun entry => ⟨batch.now, entry.2⟩

def spanOf (row : SnapshotRow) : Int × Int := (row.capturedAt, row.lastSeenAt)

def NoOverlap (rows : List SnapshotRow) : Prop := Apart (rows.map spanOf)
  deriving Decidable

section Writer
variable (host : Host)

def extendsNewest (run : SnapshotRow) (snapshot : Collect) : Bool :=
  extendsRun (some (currentRun host run)) (counterFingerprint host snapshot.perMember)
    snapshot.now

def extendRun (rows : List SnapshotRow) (snapshot : Collect) : List SnapshotRow :=
  match splitNewest rows with
  | none => rows
  | some (older, run, rest) =>
    if extendsNewest host run snapshot then older ++ extendedRow run snapshot.now :: rest
    else rows

def onSeen (write : List SnapshotRow → Collect → List SnapshotRow) (store : SnapshotStore)
    (batch : Batch) : SnapshotStore :=
  fun id => (batch.collectOf id).elim (store id) (write (store id))

def Accepted (store : SnapshotStore) (batch : Batch) : Prop :=
  ∀ entry ∈ batch.seen, NoOverlap (store entry.1)
  deriving Decidable

/-- A rejected collect leaves what was written before the statement that was rejected. -/
def recordBatch (store : SnapshotStore) (batch : Batch) : Except SnapshotStore SnapshotStore :=
  let extended := onSeen (extendRun host) store batch
  let recorded := onSeen (recordSnapshots host) store batch
  if Accepted extended batch then
    if Accepted recorded batch then .ok recorded else .error extended
  else .error store

/-- The store behind collects that are run one after another, up to the first rejected one. -/
def recordBatches (batches : List Batch) : Except SnapshotStore SnapshotStore :=
  batches.foldlM (recordBatch host) fun _ => []

def collectsOf (batches : List Batch) (id : String) : List Collect :=
  batches.filterMap fun batch => batch.collectOf id

/-! ## The collects a row stands for -/

def mergeCollect (rows : List SnapshotRow) (merged : List Segment) (snapshot : Collect) :
    List Segment :=
  match splitNewest rows with
  | none => merged ++ [⟨snapshot, []⟩]
  | some (older, run, _) =>
    if extendsNewest host run snapshot then
      merged.modify older.length fun segment => segment.extend snapshot
    else merged ++ [⟨snapshot, []⟩]

def mergedRuns (collects : List Collect) : List Segment :=
  (collects.foldl (fun both snapshot =>
    (recordSnapshots host both.1 snapshot, mergeCollect host both.1 both.2 snapshot))
    ([], [])).2

theorem mergedRuns_concat (collects : List Collect) (snapshot : Collect) :
    mergedRuns host (collects ++ [snapshot]) =
      mergeCollect host (collected host collects) (mergedRuns host collects) snapshot := by
  unfold mergedRuns collected
  rw [List.foldl_concat]
  exact congrArg (mergeCollect host · _ snapshot) (List.foldl_hom Prod.fst fun _ _ => rfl).symm

end Writer

/-! ## One index -/

theorem splitNewest_eq (rows : List SnapshotRow) :
    splitNewest rows = splitNewestBy SnapshotRow.capturedAt rows := by
  induction rows with
  | nil => rfl
  | cons row rows ih =>
    rw [splitNewest, splitNewestBy, ih]
    cases splitNewestBy SnapshotRow.capturedAt rows with
    | none => rfl
    | some split => exact if_congr Iff.rfl rfl rfl

variable {rows older rest : List SnapshotRow} {run : SnapshotRow} {merged : List Segment}
variable {batches : List Batch} {next : SnapshotStore}

theorem splitNewest_eq_none (h : splitNewest rows = none) : rows = [] :=
  splitNewestBy_eq_none ((splitNewest_eq rows).symm.trans h)

theorem splitNewest_spec (h : splitNewest rows = some (older, run, rest)) :
    rows = older ++ run :: rest ∧ ∀ row ∈ rows, row.capturedAt ≤ run.capturedAt :=
  splitNewestBy_spec ((splitNewest_eq rows).symm.trans h)

def Forward (rows : List SnapshotRow) : Prop := ∀ row ∈ rows, row.capturedAt ≤ row.lastSeenAt

@[simp] theorem spanOf_trimSupersededMembers (row : SnapshotRow) :
    spanOf (trimSupersededMembers row) = spanOf row := by
  unfold trimSupersededMembers
  split <;> rfl

section Index
variable {host : Host} {rows older rest : List SnapshotRow} {run : SnapshotRow} {c : Collect}

theorem extendsNewest_iff :
    extendsNewest host run c = true ↔
      counterFingerprint host run.perMember = counterFingerprint host c.perMember ∧
        run.lastSeenAt ≤ c.now ∧ c.now - run.lastSeenAt ≤ MAX_GAP_MS := by
  simp only [extendsNewest, extendsRun, Bool.and_eq_true, decide_eq_true_eq, and_assoc,
    sub_nonneg]
  rfl

theorem recordSnapshots_none (hsplit : splitNewest rows = none) :
    recordSnapshots host rows c = [insertedRow host none c] := by
  rw [recordSnapshots, recordSnapshotsWith, hsplit, splitNewest_eq_none hsplit]
  rfl

section
variable (hsplit : splitNewest rows = some (older, run, rest))
include hsplit

theorem recordSnapshots_extend (hextends : extendsNewest host run c = true) :
    recordSnapshots host rows c = older ++ extendedRow run c.now :: rest := by
  rw [recordSnapshots, recordSnapshotsWith, hsplit]
  exact if_pos hextends

theorem recordSnapshots_insert (hextends : extendsNewest host run c = false) :
    recordSnapshots host rows c =
      older ++ trimSupersededMembers run :: rest ++ [insertedRow host (some run.perMember) c] := by
  rw [recordSnapshots, recordSnapshotsWith, hsplit]
  exact if_neg (Bool.eq_false_iff.mp hextends)

theorem map_spanOf_insert (hextends : extendsNewest host run c = false) :
    (recordSnapshots host rows c).map spanOf = rows.map spanOf ++ [(c.now, c.now)] := by
  rw [recordSnapshots_insert hsplit hextends, (splitNewest_spec hsplit).1]
  simp only [List.map_append, List.map_cons, List.map_nil, spanOf_trimSupersededMembers]
  rfl

end

theorem lt_newest (hforward : Forward rows) (hrows : NoOverlap rows)
    (hsplit : splitNewest rows = some (older, run, rest)) {row : SnapshotRow}
    (hrow : row ∈ older ++ rest) : row.lastSeenAt < run.capturedAt := by
  obtain ⟨hparts, hnewest⟩ := splitNewest_spec hsplit
  have hrun : run ∈ rows := hparts ▸ List.mem_append_right _ List.mem_cons_self
  have hmem : row ∈ rows := by
    rw [hparts]
    exact List.mem_append.mpr ((List.mem_append.mp hrow).imp_right (List.mem_cons_of_mem _))
  unfold NoOverlap at hrows
  rw [hparts, List.map_append, List.map_cons, apart_middle, ← List.map_append] at hrows
  exact lt_of_not_meets (hrows.2 _ (List.mem_map_of_mem hrow)) (hforward run hrun)
    (hnewest row hmem)

variable (hforward : Forward rows)
include hforward

theorem noOverlap_extend (hrows : NoOverlap rows)
    (hsplit : splitNewest rows = some (older, run, rest)) (now : Int) :
    NoOverlap (older ++ extendedRow run now :: rest) := by
  have hlt := @lt_newest _ _ _ _ hforward hrows hsplit
  unfold NoOverlap at hrows ⊢
  rw [(splitNewest_spec hsplit).1, List.map_append, List.map_cons, apart_middle] at hrows
  rw [List.map_append, List.map_cons, apart_middle, ← List.map_append]
  refine ⟨List.map_append ▸ hrows.1, fun span hspan => ?_⟩
  obtain ⟨row, hrow, rfl⟩ := List.mem_map.mp hspan
  exact not_meets_of_lt (hlt hrow)

/-- The clock of a collect is ahead of the newest run of an index, or stands on its end with
the same counters, or was set back to an instant that no run of the index covers. -/
def ClockFits (host : Host) (rows : List SnapshotRow) (perMember : List MemberUsage)
    (now : Int) : Prop :=
  match splitNewest rows with
  | none => True
  | some (_, run, _) =>
    run.lastSeenAt < now ∨
    (now = run.lastSeenAt ∧
      counterFingerprint host run.perMember = counterFingerprint host perMember) ∨
    (now < run.lastSeenAt ∧ ∀ row ∈ rows, ¬ (row.capturedAt ≤ now ∧ now ≤ row.lastSeenAt))

theorem forward_recordSnapshots :
    Forward (recordSnapshots host rows c) := by
  have hinserted : ∀ previous, (insertedRow host previous c).capturedAt ≤
      (insertedRow host previous c).lastSeenAt := fun _ => le_rfl
  cases hsplit : splitNewest rows with
  | none =>
    rw [recordSnapshots_none hsplit]
    exact fun row hrow => List.mem_singleton.mp hrow ▸ hinserted none
  | some split =>
    obtain ⟨older, run, rest⟩ := split
    obtain ⟨hparts, -⟩ := splitNewest_spec hsplit
    rw [hparts] at hforward
    obtain ⟨holder, hrun, hrest⟩ := List.forall_mem_append.mp hforward |>.imp_right
      List.forall_mem_cons.mp
    cases hextends : extendsNewest host run c with
    | true =>
      rw [recordSnapshots_extend hsplit hextends]
      exact List.forall_mem_append.mpr ⟨holder, List.forall_mem_cons.mpr
        ⟨hrun.trans (extendsNewest_iff.mp hextends).2.1, hrest⟩⟩
    | false =>
      have htrimmed := congrArg (fun s : Int × Int => s.1 ≤ s.2) (spanOf_trimSupersededMembers run)
      rw [recordSnapshots_insert hsplit hextends]
      refine List.forall_mem_append.mpr ⟨List.forall_mem_append.mpr
        ⟨holder, List.forall_mem_cons.mpr ⟨htrimmed.mpr hrun, hrest⟩⟩, ?_⟩
      exact fun row hrow => List.mem_singleton.mp hrow ▸ hinserted _

theorem noOverlap_extendRun (hrows : NoOverlap rows) :
    NoOverlap (extendRun host rows c) := by
  unfold extendRun
  split
  · exact hrows
  · rename_i older run rest hsplit
    split
    · exact noOverlap_extend hforward hrows hsplit c.now
    · exact hrows

theorem noOverlap_recordSnapshots_iff (hrows : NoOverlap rows) :
    NoOverlap (recordSnapshots host rows c) ↔ ClockFits host rows c.perMember c.now := by
  unfold ClockFits
  split
  · rename_i hsplit
    rw [recordSnapshots_none hsplit]
    exact iff_of_true (List.pairwise_singleton _ _) trivial
  · rename_i older run rest hsplit
    obtain ⟨hparts, hnewest⟩ := splitNewest_spec hsplit
    have hrun : run ∈ rows := hparts ▸ List.mem_append_right _ List.mem_cons_self
    cases hextends : extendsNewest host run c with
    | true =>
      obtain ⟨hsame, hnow, -⟩ := extendsNewest_iff.mp hextends
      rw [recordSnapshots_extend hsplit hextends]
      refine iff_of_true (noOverlap_extend hforward hrows hsplit c.now) ?_
      exact hnow.lt_or_eq.imp_right fun heq => .inl ⟨heq.symm, hsame⟩
    | false =>
      have hinsert : NoOverlap (recordSnapshots host rows c) ↔
          ∀ row ∈ rows, ¬ (row.capturedAt ≤ c.now ∧ c.now ≤ row.lastSeenAt) := by
        unfold NoOverlap at hrows ⊢
        rw [map_spanOf_insert hsplit hextends, apart_concat, List.forall_mem_map]
        exact and_iff_right hrows
      rw [hinsert]
      constructor
      · intro hclear
        rcases lt_trichotomy run.lastSeenAt c.now with hlt | heq | hgt
        · exact .inl hlt
        · exact absurd ⟨(hforward run hrun).trans heq.le, heq.ge⟩ (hclear run hrun)
        · exact .inr (.inr ⟨hgt, hclear⟩)
      · rintro (hlt | ⟨heq, hsame⟩ | ⟨-, hclear⟩)
        · intro row hrow hcovers
          rw [hparts] at hrow
          have hend : row.lastSeenAt ≤ run.lastSeenAt := by
            rcases List.mem_append.mp hrow with hrow | hrow
            · exact (lt_newest hforward hrows hsplit (List.mem_append_left _ hrow)).le.trans
                (hforward run hrun)
            · rcases List.mem_cons.mp hrow with rfl | hrow
              · exact le_rfl
              · exact (lt_newest hforward hrows hsplit (List.mem_append_right _ hrow)).le.trans
                  (hforward run hrun)
          omega
        · have hgap : c.now - run.lastSeenAt ≤ MAX_GAP_MS := by
            rw [heq, sub_self]
            decide
          exact absurd (extendsNewest_iff.mpr ⟨hsame, heq.ge, hgap⟩)
            (Bool.eq_false_iff.mp hextends)
        · exact hclear

end Index

/-! ## What the rows stand for -/

section Merged
variable (host : Host)

theorem runFrom_trimSupersededMembers (row : SnapshotRow) :
    runFrom (trimSupersededMembers row) = runFrom row := by
  unfold trimSupersededMembers
  split <;> rfl

theorem runFrom_extendedRow {row : SnapshotRow} {s : Segment} (h : runFrom row = s.run)
    (c : Collect) : runFrom (extendedRow row c.now) = (s.extend c).run := by
  have hlast : row.lastSeenAt = s.last.now := Option.some.inj (congrArg Run.lastSeenAt h)
  have hgap : row.maxGapMs = s.maxGap := Option.some.inj (congrArg Run.maxGapMs h)
  have hcount : row.observations = s.later.length + 1 :=
    Option.some.inj (congrArg Run.observations h)
  have hfirst : row.capturedAt = s.first.now := Option.some.inj (congrArg Run.capturedAt h)
  simp only [runFrom, extendedRow, Segment.run, Segment.last_extend, Segment.maxGap_extend,
    Segment.length_later_extend, hlast, hgap, hcount, hfirst]
  rfl

theorem merged_newest (h : rows.map runFrom = merged.map Segment.run)
    (hsplit : splitNewest rows = some (older, run, rest)) :
    ∃ before s after, merged = before ++ s :: after ∧ before.length = older.length ∧
      older.map runFrom = before.map Segment.run ∧ runFrom run = s.run ∧
      rest.map runFrom = after.map Segment.run := by
  rw [(splitNewest_spec hsplit).1, List.map_append, List.map_cons] at h
  obtain ⟨before, _, rfl, hbefore, hs⟩ := List.map_eq_append_iff.mp h.symm
  obtain ⟨s, after, rfl, hs, hafter⟩ := List.map_eq_cons_iff.mp hs
  refine ⟨before, s, after, rfl, ?_, hbefore.symm, hs.symm, hafter.symm⟩
  simpa using congrArg List.length hbefore

theorem mergeCollect_extend {before after : List Segment} {s : Segment} {c : Collect}
    (hsplit : splitNewest rows = some (older, run, rest))
    (hextends : extendsNewest host run c = true) (hlength : before.length = older.length) :
    mergeCollect host rows (before ++ s :: after) c = before ++ s.extend c :: after := by
  unfold mergeCollect
  rw [hsplit]
  simp [hextends, ← hlength, List.modify_eq_take_drop]

theorem mergeCollect_insert {c : Collect}
    (h : ∀ older run rest, splitNewest rows = some (older, run, rest) →
      extendsNewest host run c = false) :
    mergeCollect host rows merged c = merged ++ [⟨c, []⟩] := by
  unfold mergeCollect
  split
  · rfl
  · rename_i older run rest hsplit
    exact if_neg (Bool.eq_false_iff.mp (h older run rest hsplit))

theorem map_runFrom_step (h : rows.map runFrom = merged.map Segment.run) (c : Collect) :
    (recordSnapshots host rows c).map runFrom =
      (mergeCollect host rows merged c).map Segment.run := by
  cases hsplit : splitNewest rows with
  | none =>
    rw [mergeCollect_insert host (by simp [hsplit]), recordSnapshots_none hsplit,
      List.map_append, ← h, splitNewest_eq_none hsplit]
    rfl
  | some split =>
    obtain ⟨older, run, rest⟩ := split
    cases hextends : extendsNewest host run c with
    | true =>
      obtain ⟨before, s, after, rfl, hlength, hbefore, hs, hafter⟩ := merged_newest h hsplit
      rw [mergeCollect_extend host hsplit hextends hlength, recordSnapshots_extend hsplit hextends]
      simp only [List.map_append, List.map_cons, hbefore, hafter, runFrom_extendedRow hs]
    | false =>
      rw [mergeCollect_insert host (by simp [hsplit, hextends]),
        recordSnapshots_insert hsplit hextends, List.map_append, List.map_append (f := Segment.run),
        ← h, (splitNewest_spec hsplit).1]
      simp only [List.map_append, List.map_cons, runFrom_trimSupersededMembers]
      rfl

variable (collects : List Collect)

theorem map_runFrom_collected :
    (collected host collects).map runFrom = (mergedRuns host collects).map Segment.run := by
  induction collects using List.reverseRecOn with
  | nil => rfl
  | append_singleton collects c ih =>
    rw [mergedRuns_concat, collected, List.foldl_concat]
    exact map_runFrom_step host ih c

theorem flatMap_mergedRuns_perm :
    ((mergedRuns host collects).flatMap Segment.collects).Perm collects := by
  induction collects using List.reverseRecOn with
  | nil => exact .nil
  | append_singleton collects c ih =>
    rw [mergedRuns_concat]
    have h := map_runFrom_collected host collects
    by_cases hextends : ∃ older run rest, splitNewest (collected host collects) =
        some (older, run, rest) ∧ extendsNewest host run c = true
    · obtain ⟨older, run, rest, hsplit, hextends⟩ := hextends
      obtain ⟨before, s, after, hmerged, hlength, -⟩ := merged_newest h hsplit
      rw [hmerged] at ih ⊢
      rw [mergeCollect_extend host hsplit hextends hlength]
      simp only [List.flatMap_append, List.flatMap_cons, Segment.collects_extend,
        List.append_assoc] at ih ⊢
      refine .trans ?_ (ih.append_right [c])
      simp only [List.append_assoc]
      exact ((@List.perm_append_comm _ [c] _).append_left _).append_left _
    · rw [mergeCollect_insert host fun older run rest hsplit =>
        Bool.eq_false_iff.mpr fun h => hextends ⟨older, run, rest, hsplit, h⟩, List.flatMap_append]
      exact ih.append_right [c]

theorem sum_observations_collected :
    ((collected host collects).map SnapshotRow.observations).sum = collects.length := by
  have hruns := map_runFrom_collected host collects
  have hlength := (flatMap_mergedRuns_perm host collects).length_eq
  have hobs : (collected host collects).map SnapshotRow.observations =
      (mergedRuns host collects).map fun s => (s.collects.length : Int) := by
    have h := congrArg (List.map fun r : Run => r.observations.getD 0) hruns
    simp only [List.map_map] at h
    exact h
  rw [hobs, ← hlength, List.length_flatMap, Nat.cast_list_sum, List.map_map]
  rfl

theorem maxGapMs_collected :
    (collected host collects).map SnapshotRow.maxGapMs =
      (mergedRuns host collects).map Segment.maxGap := by
  have h := congrArg (List.map fun r : Run => r.maxGapMs.getD 0) (map_runFrom_collected host collects)
  simp only [List.map_map] at h
  exact h

end Merged

/-! ## Batches -/

section Batches
variable (host : Host)

theorem collectOf_eq_some {batch : Batch} {id : String} {perMember : List MemberUsage}
    (h : (id, perMember) ∈ batch.seen) : batch.collectOf id = some ⟨batch.now, perMember⟩ := by
  have hfind : batch.seen.find? (fun entry => decide (entry.1 = id)) = some (id, perMember) := by
    have hsome : (batch.seen.find? fun entry => decide (entry.1 = id)).isSome :=
      List.find?_isSome.mpr ⟨_, h, decide_eq_true rfl⟩
    obtain ⟨entry, hentry⟩ := Option.isSome_iff_exists.mp hsome
    have hid : entry.1 = id := by simpa using List.find?_some hentry
    rw [hentry, List.inj_on_of_nodup_map batch.distinct (List.mem_of_find?_eq_some hentry) h hid]
  rw [Batch.collectOf, hfind]
  rfl

theorem collectOf_eq_none {batch : Batch} {id : String} (h : id ∉ batch.seen.map Prod.fst) :
    batch.collectOf id = none := by
  rw [Batch.collectOf, List.find?_eq_none.mpr]
  · rfl
  · intro entry hentry hid
    exact h (of_decide_eq_true hid ▸ List.mem_map_of_mem hentry)

/-- A sound store: the rows of every index are apart, and none ends before it starts. -/
structure Sound (store : SnapshotStore) : Prop where
  forward : ∀ id, Forward (store id)
  apart : ∀ id, NoOverlap (store id)

variable {host} {store : SnapshotStore} {batch : Batch}

/-- The first statement is never rejected, and the second exactly where the clock does not fit
one of the indexes. -/
theorem recordBatch_eq_ok_iff (h : Sound store) :
    recordBatch host store batch = .ok next ↔
      next = onSeen (recordSnapshots host) store batch ∧
        ∀ entry ∈ batch.seen, ClockFits host (store entry.1) entry.2 batch.now := by
  have hextended : Accepted (onSeen (extendRun host) store batch) batch := by
    rintro ⟨id, perMember⟩ hentry
    simp only [onSeen, collectOf_eq_some hentry, Option.elim_some]
    exact noOverlap_extendRun (h.forward id) (h.apart id)
  have hrecorded : Accepted (onSeen (recordSnapshots host) store batch) batch ↔
      ∀ entry ∈ batch.seen, ClockFits host (store entry.1) entry.2 batch.now := by
    refine forall₂_congr ?_
    rintro ⟨id, perMember⟩ hentry
    simp only [onSeen, collectOf_eq_some hentry, Option.elim_some]
    exact noOverlap_recordSnapshots_iff (h.forward id) (h.apart id)
  unfold recordBatch
  rw [if_pos hextended, ← hrecorded]
  split <;> simp_all [eq_comm]

theorem Sound.recordBatch (h : Sound store) (hnext : recordBatch host store batch = .ok next) :
    Sound next := by
  obtain ⟨rfl, hfits⟩ := (recordBatch_eq_ok_iff h).mp hnext
  constructor
  · intro id
    unfold onSeen
    cases batch.collectOf id with
    | none => exact h.forward id
    | some c => exact forward_recordSnapshots (h.forward id)
  · intro id
    by_cases hid : id ∈ batch.seen.map Prod.fst
    · obtain ⟨⟨_, perMember⟩, hentry, rfl⟩ := List.mem_map.mp hid
      rw [onSeen, collectOf_eq_some hentry]
      exact (noOverlap_recordSnapshots_iff (h.forward _) (h.apart _)).mpr (hfits _ hentry)
    · rw [onSeen, collectOf_eq_none hid]
      exact h.apart id

theorem recordBatches_concat (batches : List Batch) (batch : Batch) :
    recordBatches host (batches ++ [batch]) = (recordBatches host batches).bind fun store =>
      recordBatch host store batch := by
  simp [recordBatches, List.foldlM_append]
  rfl

theorem recordBatches_concat_ok :
    recordBatches host (batches ++ [batch]) = .ok next ↔
      ∃ store, recordBatches host batches = .ok store ∧ recordBatch host store batch = .ok next := by
  rw [recordBatches_concat]
  cases recordBatches host batches with
  | error store => exact iff_of_false nofun nofun
  | ok store => simp [Except.bind]

/-- What collects leave that are all recorded: the rows each index has from the collects that
saw it. -/
theorem recordBatches_ok {store : SnapshotStore} (h : recordBatches host batches = .ok store) :
    Sound store ∧ ∀ id, store id = collected host (collectsOf batches id) := by
  induction batches using List.reverseRecOn generalizing store with
  | nil =>
    obtain rfl := Except.ok.inj h
    exact ⟨⟨fun _ => List.forall_mem_nil _, fun _ => List.Pairwise.nil⟩, fun _ => rfl⟩
  | append_singleton batches batch ih =>
    obtain ⟨before, hbefore, hstore⟩ := recordBatches_concat_ok.mp h
    obtain ⟨hsound, hrows⟩ := ih hbefore
    refine ⟨hsound.recordBatch hstore, fun id => ?_⟩
    obtain ⟨rfl, -⟩ := (recordBatch_eq_ok_iff hsound).mp hstore
    rw [onSeen, collectsOf, List.filterMap_append, hrows]
    cases hc : batch.collectOf id with
    | none => simp [hc, collectsOf]
    | some c => simp [hc, collectsOf, collected]

end Batches

/-- Every collect is recorded: no statement of it is rejected, and the rows account for the
collects that saw their index and for the gaps between those they stand for. -/
def Recorded (host : Host) (batches : List Batch) : Prop :=
  ∃ store, recordBatches host batches = .ok store ∧ ∀ id,
    NoOverlap (store id) ∧
    ((store id).map SnapshotRow.observations).sum = (collectsOf batches id).length ∧
    (store id).map SnapshotRow.maxGapMs =
      (mergedRuns host (collectsOf batches id)).map Segment.maxGap

theorem recorded_iff_ok {host : Host} :
    Recorded host batches ↔ ∃ store, recordBatches host batches = .ok store := by
  refine ⟨fun ⟨store, h, _⟩ => ⟨store, h⟩, fun ⟨store, h⟩ => ⟨store, h, fun id => ?_⟩⟩
  obtain ⟨hsound, hrows⟩ := recordBatches_ok h
  refine ⟨hsound.apart id, ?_, ?_⟩
  · rw [hrows]
    exact sum_observations_collected host _
  · rw [hrows]
    exact maxGapMs_collected host _

/-- The collects of a sequence are all recorded exactly when the clock fits every index at
every one of them. -/
theorem collects_recorded_iff (host : Host) (batches : List Batch) :
    Recorded host batches ↔
      ∀ before batch after store, batches = before ++ batch :: after →
        recordBatches host before = .ok store →
          ∀ entry ∈ batch.seen, ClockFits host (store entry.1) entry.2 batch.now := by
  rw [recorded_iff_ok]
  induction batches using List.reverseRecOn with
  | nil => exact iff_of_true ⟨_, rfl⟩ (by simp)
  | append_singleton batches batch ih =>
    constructor
    · rintro ⟨next, hnext⟩ before last after store hsplit hbefore
      obtain ⟨mid, hmid, hlast⟩ := recordBatches_concat_ok.mp hnext
      rcases List.eq_nil_or_concat after with rfl | ⟨after, _, rfl⟩
      · obtain ⟨rfl, hlast'⟩ := List.append_inj' hsplit rfl
        obtain rfl := List.singleton_inj.mp hlast'
        obtain rfl := Except.ok.inj (hmid.symm.trans hbefore)
        exact ((recordBatch_eq_ok_iff (recordBatches_ok hmid).1).mp hlast).2
      · rw [List.concat_eq_append, ← List.cons_append, ← List.append_assoc] at hsplit
        obtain ⟨hsplit, -⟩ := List.append_inj' hsplit rfl
        exact ih.mp ⟨mid, hmid⟩ before last after store hsplit hbefore
    · intro hfits
      obtain ⟨store, hstore⟩ := ih.mpr fun before last after store hsplit =>
        hfits before last (after ++ [batch]) store (by simp [hsplit])
      have hnext := (recordBatch_eq_ok_iff (recordBatches_ok hstore).1).mpr
        ⟨rfl, hfits batches batch [] store rfl hstore⟩
      exact ⟨_, recordBatches_concat_ok.mpr ⟨store, hstore, hnext⟩⟩

/-- An hour of one reading, then a changed one by a clock that was set back half an hour. -/
def setBackBatches : List Batch :=
  [⟨0, [("a_1", [⟨"m", 5, none⟩])], by decide⟩,
    ⟨3600000, [("a_1", [⟨"m", 5, none⟩])], by decide⟩,
    ⟨1800000, [("a_1", [⟨"m", 6, none⟩]), ("b_1", [⟨"m", 0, none⟩])], by decide⟩]

theorem set_back_clock_rejected : ¬ Recorded decimalHost setBackBatches := by
  rintro ⟨store, hstore, -⟩
  have hrejected : (recordBatches decimalHost setBackBatches).toOption.isSome = false := by
    decide
  rw [hstore] at hrejected
  cases hrejected

end Indexterity
