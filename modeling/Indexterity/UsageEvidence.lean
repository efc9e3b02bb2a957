import Indexterity.Collect
import Indexterity.Priced
import Indexterity.Library.Sql

/-!
# Usage evidence: the fold of an index, computed by a query

`jobs/usage-evidence.ts`, for the rows of one index. The query prices every run against the one
before it, from the stored columns where they are filled and from the members where they are
not; it groups the runs by a running count of restarts, and sums. Every common table expression
of the query is a definition here.

Priced rows are the priced runs of the fold, except that the first row of a window may carry a
restart. It opens an epoch as every first row does, and changes nothing.
-/

namespace Indexterity

open Library

structure TextServer where
  /-- Comparison of texts. -/
  textLt : String → String → Bool
  /-- The cast to `timestamptz`, of a text that has one. -/
  timestamptz : String → Int

/-- A server to run the query on: texts compare by code point, stamps are decimal milliseconds. -/
def decimalServer : TextServer where
  textLt := fun a b => decide (a < b)
  timestamptz := fun stamp => (decimalHost.dateParse stamp).getD 0

/-- A row of `priced`. The first row of a window has no row before it. -/
structure PricedRow where
  capturedAt : Int
  spanEnd : Int
  observations : Int
  maxGapMs : Int
  previousEnd : Option Int
  ops : Int
  restarted : Bool
  startedAt : Option Int

/-- A row of the result. -/
structure UsageRow where
  runs : Int
  observations : Int
  activeRuns : Int
  trustedWatchMs : Int
  newestEndMs : Int
  latestActivityMs : Option Int
  maxInteriorGapMs : Int
  blindWindows : List (Int × Int)

def spanEndOf (row : SnapshotRow) : Int := max row.lastSeenAt row.capturedAt

section Query
variable (server : TextServer)

def sameMember (current previous : MemberUsage) : Bool := decide (previous.member = current.member)

/-- The activity of a member against what the join found of it before. -/
def joinedActivity (p : MemberUsage × Option MemberUsage) : Int :=
  match p.2 with
  | none => max 0 p.1.ops
  | some previous =>
    if previous.since ≠ p.1.since ∨ p.1.ops < previous.ops then max 0 p.1.ops
    else p.1.ops - previous.ops

def joinedRestart (p : MemberUsage × MemberUsage) : Bool :=
  decide (p.1.ops < p.2.ops) ||
    match p.2.since, p.1.since with
    | some was, some now => server.textLt was now
    | _, _ => false

def pricedRow (previous : Option SnapshotRow) (row : SnapshotRow) : PricedRow where
  capturedAt := row.capturedAt
  spanEnd := spanEndOf row
  observations := row.observations
  maxGapMs := row.maxGapMs
  previousEnd := previous.map spanEndOf
  ops :=
    match previous with
    | none =>
      row.opsTotal.getD ((Sql.sum (row.perMember.map fun e => some (max 0 e.ops))).getD 0)
    | some before =>
      row.opsDelta.getD ((Sql.sum ((Sql.leftJoin sameMember row.perMember before.perMember).map
        fun p => some (joinedActivity p))).getD 0)
  restarted :=
    row.countersRestarted.getD ((Sql.innerJoin sameMember row.perMember
      ((previous.map SnapshotRow.perMember).getD [])).any (joinedRestart server))
  startedAt :=
    row.countersStartedAt.or
      ((row.perMember.filterMap MemberUsage.since).map server.timestamptz).max?

def pricedFrom (previous : Option SnapshotRow) (rows : List SnapshotRow) : List PricedRow :=
  (withPrevious previous rows).map fun p => pricedRow server p.1 p.2

/-- Every row with the epoch it belongs to, from a count of restarts on. -/
def epochedFrom (epoch : Int) (rows : List PricedRow) : List (PricedRow × Int) :=
  Sql.withRunningSum (fun row => if row.restarted then 1 else 0) epoch rows

/-- What an epoch could be watched, given its rows. There is at least one. -/
def watchedMs (rows : List PricedRow) : Int :=
  let epochStart := (rows.map PricedRow.capturedAt).min?.getD 0
  let epochEnd := (rows.map PricedRow.spanEnd).max?.getD 0
  let firstStarted := ((Sql.orderBy PricedRow.capturedAt rows).head?.map PricedRow.startedAt).join
  epochEnd - min (max epochStart (firstStarted.getD epochStart)) epochEnd

def trustedMs (epoched : List (PricedRow × Int)) : Int :=
  ((Sql.groupBy Prod.snd epoched).map fun epoch => watchedMs (epoch.2.map Prod.fst)).sum

def blindEnd (row : PricedRow) : Option Int :=
  match row.previousEnd with
  | none => none
  | some previousEnd =>
    if row.capturedAt ≤ previousEnd then none
    else
      match row.startedAt with
      | some started =>
        if previousEnd < started then some (min row.capturedAt started)
        else if row.restarted then some row.capturedAt
        else none
      | none => some row.capturedAt

def blindOf (minBlindMs : Int) (row : PricedRow) : List (Int × Int) :=
  match row.previousEnd, blindEnd row with
  | some previousEnd, some stop =>
    if minBlindMs < stop - previousEnd then [(previousEnd, stop)] else []
  | _, _ => []

def usageRow (minBlindMs : Int) (priced : List PricedRow) : Option UsageRow := do
  let newest ← (priced.map PricedRow.spanEnd).max?
  let active := priced.filter fun row => decide (0 < row.ops)
  some
    { runs := priced.length
      observations := (priced.map PricedRow.observations).sum
      activeRuns := active.length
      trustedWatchMs := trustedMs (epochedFrom 0 priced)
      newestEndMs := newest
      latestActivityMs := (active.map PricedRow.capturedAt).max?
      maxInteriorGapMs := (priced.map PricedRow.maxGapMs).max?.getD 0
      blindWindows := priced.flatMap (blindOf minBlindMs) }

/-- `blindWindowsOf` of the file, which reads the pairs of a row. -/
def readWindows (pairs : List (Int × Int)) : List BlindWindow :=
  pairs.flatMap fun pair => if pair.1 < pair.2 then [⟨pair.1, pair.2⟩] else []

def usageFoldOf (row : UsageRow) : UsageFold where
  runs := row.runs
  observations := row.observations
  activeRuns := row.activeRuns
  trustedWatchMs := row.trustedWatchMs
  newestEndMs := some row.newestEndMs
  latestActivityMs := row.latestActivityMs
  maxInteriorGapMs := row.maxInteriorGapMs
  blindWindows := readWindows row.blindWindows

def usageEvidence (since minBlindMs : Int) (rows : List SnapshotRow) : Option UsageFold :=
  let ordered := Sql.orderBy SnapshotRow.capturedAt (keptSince since rows)
  (usageRow minBlindMs (pricedFrom server none ordered)).map usageFoldOf

end Query

/-! ## Prices -/

variable {before row : SnapshotRow} {m : MemberUsage}

section Prices
variable {host : Host} {server : TextServer} {rows : List SnapshotRow}

def stampsOf (rows : List SnapshotRow) : List String :=
  (rows.flatMap SnapshotRow.perMember).filterMap MemberUsage.since

/-- The stamps of stored members are instants that the host and the server read alike, and their
texts compare as they do. -/
def ReadAlike (host : Host) (server : TextServer) (rows : List SnapshotRow) : Prop :=
  (∀ stamp ∈ stampsOf rows, host.dateParse stamp = some (server.timestamptz stamp)) ∧
    ∀ was ∈ stampsOf rows, ∀ now ∈ stampsOf rows,
      (server.textLt was now = true ↔ server.timestamptz was < server.timestamptz now)
  deriving Decidable

/-- The run of the fold that a row stands for. A restart shows only against a row before. -/
def asPriced (row : PricedRow) : PricedRun where
  run := ⟨some row.capturedAt, some row.spanEnd, some row.observations, some row.maxGapMs⟩
  activity := row.ops
  restarted := row.previousEnd.isSome && row.restarted
  started := row.startedAt

theorem price_eq_map (host : Host) (previous : Option UsageSnapshot) (runs : List UsageSnapshot) :
    price host previous runs = (withPrevious previous runs).map fun p =>
      { run := p.2.toRun
        activity := runActivity p.1 p.2
        restarted := p.1.any fun before => restartedBetween host before p.2
        started := countersStartedAt host p.2 } := by
  induction runs generalizing previous with
  | nil => rfl
  | cons run rest ih => rw [price, withPrevious, List.map_cons, ih]

theorem joinedActivity_eq (previous : List MemberUsage) (m : MemberUsage) :
    joinedActivity (m, memberOf previous m.member) = memberActivity previous m := by
  unfold joinedActivity memberActivity
  cases memberOf previous m.member <;> rfl

theorem activity_pricedRow (previous : Option SnapshotRow) (row : SnapshotRow)
    (hdistinct : ∀ before ∈ previous, (before.perMember.map MemberUsage.member).Nodup) :
    (pricedRow server previous row).ops =
      runActivity (previous.map storedSnapshot) (storedSnapshot row) := by
  unfold pricedRow
  cases previous with
  | none =>
    dsimp only [Option.map_none, runActivity, storedSnapshot]
    rw [Sql.sum_getD, activityBetween_none, List.map_map]
    rfl
  | some before =>
    have hjoin : Sql.leftJoin sameMember row.perMember before.perMember =
        row.perMember.map fun m => (m, memberOf before.perMember m.member) :=
      Sql.leftJoin_key MemberUsage.member MemberUsage.member (hdistinct before rfl) row.perMember
    have hsum : (Sql.sum ((Sql.leftJoin sameMember row.perMember before.perMember).map
        fun p => some (joinedActivity p))).getD 0 =
          activityBetween (some before.perMember) row.perMember := by
      rw [Sql.sum_getD, hjoin, List.map_map, List.map_map]
      exact congrArg List.sum (List.map_congr_left fun m _ =>
        joinedActivity_eq before.perMember m)
    exact congrArg (fun full => row.opsDelta.getD full) hsum

theorem mem_stamps (hrow : row ∈ rows) (hm : m ∈ row.perMember) {stamp : String}
    (hstamp : m.since = some stamp) : stamp ∈ stampsOf rows :=
  List.mem_filterMap.mpr ⟨m, List.mem_flatMap.mpr ⟨row, hrow, hm⟩, hstamp⟩

variable (h : ReadAlike host server rows)
include h

theorem joinedRestart_eq (hbefore : before ∈ rows) (hrow : row ∈ rows) {was : MemberUsage}
    (hwas : was ∈ before.perMember) (hm : m ∈ row.perMember) :
    joinedRestart server (m, was) =
      (decide (m.ops < was.ops) || sinceMovedForward host was m) := by
  unfold joinedRestart sinceMovedForward parseSince
  dsimp only
  congr 1
  cases hws : was.since with
  | none => rfl
  | some wasStamp =>
    have hwasStamp := mem_stamps hbefore hwas hws
    cases hms : m.since with
    | none =>
      rw [Option.bind_some, h.1 _ hwasStamp]
      rfl
    | some stamp =>
      have hstamp := mem_stamps hrow hm hms
      rw [Option.bind_some, Option.bind_some, h.1 _ hwasStamp, h.1 _ hstamp]
      exact Bool.eq_iff_iff.mpr ((h.2 _ hwasStamp _ hstamp).trans decide_eq_true_iff.symm)

theorem restarted_pricedRow (hbefore : before ∈ rows) (hrow : row ∈ rows)
    (hdistinct : (before.perMember.map MemberUsage.member).Nodup) :
    (pricedRow server (some before) row).restarted =
      restartedBetween host (storedSnapshot before) (storedSnapshot row) := by
  have hjoin : Sql.innerJoin sameMember row.perMember before.perMember =
      row.perMember.flatMap fun m => ((memberOf before.perMember m.member).map fun was =>
        (m, was)).toList :=
    Sql.innerJoin_key MemberUsage.member MemberUsage.member hdistinct row.perMember
  have hany : (Sql.innerJoin sameMember row.perMember before.perMember).any
      (joinedRestart server) =
        countersRestartedBetween host (some before.perMember) row.perMember := by
    rw [hjoin, List.any_flatMap, countersRestartedBetween, Bool.eq_iff_iff, List.any_eq_true,
      List.any_eq_true]
    refine exists_congr fun m => and_congr_right fun hm => ?_
    rw [← Bool.eq_iff_iff]
    dsimp only [Option.getD_some]
    cases hwas : memberOf before.perMember m.member with
    | none => rfl
    | some was =>
      have hmem := (lookupLast_some MemberUsage.member hwas).1
      simpa using joinedRestart_eq h hbefore hrow hmem hm
  unfold restartedBetween
  cases hstored : row.countersRestarted with
  | some restarted => simp [pricedRow, storedSnapshot, hstored]
  | none =>
    simp only [pricedRow, storedSnapshot, hstored, Option.getD_none, Option.map_some,
      Option.getD_some]
    exact hany

theorem startedAt_pricedRow (previous : Option SnapshotRow) (hrow : row ∈ rows) :
    (pricedRow server previous row).startedAt = countersStartedAt host (storedSnapshot row) := by
  have hparsed : row.perMember.filterMap (parseSince host) =
      (row.perMember.filterMap MemberUsage.since).map server.timestamptz := by
    rw [List.map_filterMap]
    refine List.filterMap_congr fun m hm => ?_
    unfold parseSince
    cases hms : m.since with
    | none => rfl
    | some stamp => exact h.1 _ (mem_stamps hrow hm hms)
  unfold pricedRow countersStartedAt
  dsimp only [storedSnapshot]
  rw [latestCounterStart_bind, hparsed]
  cases row.countersStartedAt <;> rfl

theorem map_asPriced (hforward : ∀ row ∈ rows, row.capturedAt ≤ row.lastSeenAt)
    (hdistinct : ∀ row ∈ rows, (row.perMember.map MemberUsage.member).Nodup)
    {part : List SnapshotRow} (hpart : ∀ row ∈ part, row ∈ rows) :
    (pricedFrom server none part).map asPriced = price host none (part.map storedSnapshot) := by
  have hpairs := withPrevious_map storedSnapshot none part
  rw [Option.map_none] at hpairs
  rw [price_eq_map, hpairs, pricedFrom, List.map_map, List.map_map]
  refine List.map_congr_left ?_
  rintro ⟨previous, row⟩ hp
  obtain ⟨before, after, hsplit, hprevious⟩ := mem_withPrevious_iff.mp hp
  rw [Option.or_none] at hprevious
  have hrow : row ∈ rows := hpart row (by simp [hsplit])
  have hmem : ∀ b ∈ previous, b ∈ rows := fun b hb =>
    hpart b (hsplit ▸ List.mem_append_left _ (List.mem_of_getLast? (hprevious ▸ hb)))
  have hend : spanEndOf row = row.lastSeenAt := max_eq_left (hforward row hrow)
  have hactivity := @activity_pricedRow server previous row fun b hb => hdistinct b (hmem b hb)
  have hstarted := startedAt_pricedRow h previous hrow
  simp only [Function.comp_apply, asPriced]
  rw [← hactivity, ← hstarted]
  cases previous with
  | none => simp [pricedRow, hend, storedSnapshot, runFrom]
  | some b =>
    rw [restarted_pricedRow h (hmem b rfl) hrow (hdistinct b (hmem b rfl))]
    simp [pricedRow, hend, storedSnapshot, runFrom]

end Prices

/-! ## Sums and extremes -/

section Fields
variable (rows : List PricedRow)

theorem foldl_laterOf (latest : Option Int) (instants : List Int) :
    instants.foldl laterOf latest = (latest.toList ++ instants).max? := by
  induction instants generalizing latest with
  | nil => cases latest <;> rfl
  | cons instant rest ih =>
    rw [List.foldl_cons, ih]
    cases latest with
    | none => rfl
    | some best =>
      have hlater : laterOf (some best) instant = some (max best instant) := by
        unfold laterOf
        dsimp only
        split
        · rw [max_eq_right (by omega)]
        · rw [max_eq_left (by omega)]
      rw [hlater]
      simp only [Option.toList_some, List.singleton_append, List.max?_cons', List.foldl_cons]

theorem foldl_max_zero {values : List Int} (h : ∀ v ∈ values, 0 ≤ v) :
    values.foldl max 0 = values.max?.getD 0 := by
  cases values with
  | nil => rfl
  | cons v values =>
    rw [List.foldl_cons, max_eq_right (List.forall_mem_cons.mp h).1, List.max?_cons',
      Option.getD_some]

theorem activePoints_asPriced :
    activePoints (pricedSeries (rows.map asPriced)) =
      (rows.filter fun row => decide (0 < row.ops)).map fun row =>
        sighting ((asPriced row).run, row.ops) := by
  induction rows with
  | nil => rfl
  | cons row rows ih =>
    have hsplit : activePoints (pricedSeries ((row :: rows).map asPriced)) =
        activePoints (pointsOf (asPriced row).run row.ops) ++
          activePoints (pricedSeries (rows.map asPriced)) := List.filter_append _ _
    rw [hsplit, ih, activePoints_pointsOf, List.filter_cons]
    by_cases hpos : 0 < row.ops <;> simp [hpos]

theorem totalObservations_sightings :
    totalObservations UsagePoint.toRun
      (rows.map fun row => sighting ((asPriced row).run, row.ops)) = rows.length := by
  induction rows with
  | nil => rfl
  | cons row rows ih =>
    rw [List.map_cons, totalObservations_cons, ih, List.length_cons]
    push_cast
    exact Int.add_comm _ _

theorem latestOf_sightings :
    latestOf (rows.map fun row => sighting ((asPriced row).run, row.ops)) =
      (rows.map PricedRow.capturedAt).max? := by
  rw [latestOf, foldl_laterOf, List.map_map]
  refine congrArg List.max? (List.map_congr_left fun row _ => ?_)
  exact max_self row.capturedAt

end Fields

/-! ## Epochs -/

section Epochs

def Behind (a b : PricedRow) : Prop := a.spanEnd < b.capturedAt

theorem watchedMs_eq {first last : PricedRow} {rows : List PricedRow}
    (hfirst : rows.head? = some first) (hlast : rows.getLast? = some last)
    (hbehind : rows.Pairwise Behind) (hforward : ∀ row ∈ rows, row.capturedAt ≤ row.spanEnd) :
    watchedMs rows =
      let epoch := closeEpoch first.capturedAt first.startedAt last.spanEnd
      epoch.endMs - epoch.startMs := by
  have hstarts : rows.Pairwise fun a b => a.capturedAt ≤ b.capturedAt := by
    refine (List.Pairwise.and_mem.mp hbehind).imp ?_
    rintro a b ⟨ha, -, hlt⟩
    exact (hforward a ha).trans hlt.le
  have hstops : rows.Pairwise fun a b => a.spanEnd ≤ b.spanEnd := by
    refine (List.Pairwise.and_mem.mp hbehind).imp ?_
    rintro a b ⟨-, hb, hlt⟩
    exact hlt.le.trans (hforward b hb)
  unfold watchedMs
  rw [Sql.orderBy_of_sorted _ hstarts, Sql.min?_of_sorted (List.pairwise_map.mpr hstarts),
    Sql.max?_of_sorted (List.pairwise_map.mpr hstops), List.head?_map, List.getLast?_map, hfirst,
    hlast]
  dsimp only [Option.map_some, Option.getD_some]
  cases hstarted : first.startedAt with
  | none => simp [closeEpoch]
  | some started => simp [closeEpoch]

theorem le_epoch {epoch : Int} {rows : List PricedRow} :
    ∀ p ∈ epochedFrom epoch rows, epoch ≤ p.2 := by
  induction rows generalizing epoch with
  | nil => exact List.forall_mem_nil _
  | cons row rows ih =>
    have hnext : epoch ≤ epoch + if row.restarted then 1 else 0 := by split <;> omega
    exact List.forall_mem_cons.mpr ⟨hnext, fun p hp => hnext.trans (ih p hp)⟩

theorem trustedMs_append {block : List PricedRow} {later : List (PricedRow × Int)} {epoch : Int}
    (hblock : block ≠ []) (hlater : ∀ p ∈ later, epoch < p.2) :
    trustedMs (block.map (fun row => (row, epoch)) ++ later) =
      watchedMs block + trustedMs later := by
  have hfst : (block.map fun row => (row, epoch)).map Prod.fst = block := by
    simp [Function.comp_def]
  have hkeys : ∀ p ∈ block.map fun row => (row, epoch), p.2 = epoch :=
    List.forall_mem_map.mpr fun _ _ => rfl
  have hne : (block.map fun row => (row, epoch)) ≠ [] := by simpa using hblock
  unfold trustedMs
  rw [Sql.groupBy_append Prod.snd hne hkeys fun p hp => (hlater p hp).ne', List.map_cons,
    List.sum_cons, hfst]

theorem trustedMs_epochedFrom {first last : PricedRow} {block rest : List PricedRow} {epoch : Int}
    (hfirst : block.head? = some first) (hlast : block.getLast? = some last)
    (hbehind : (block ++ rest).Pairwise Behind)
    (hforward : ∀ row ∈ block ++ rest, row.capturedAt ≤ row.spanEnd)
    (hrest : ∀ row ∈ rest, row.previousEnd.isSome = true) :
    trustedMs (block.map (fun row => (row, epoch)) ++ epochedFrom epoch rest) =
      epochsLength (pricedEpochsFrom (asPriced first) (asPriced last) (rest.map asPriced)) := by
  -- `block` is the epoch at hand so far, and the induction is on what comes behind it
  have hend : (asPriced last).run.spanEnd = last.spanEnd :=
    max_eq_right (hforward last (List.mem_append_left _ (List.mem_of_getLast? hlast)))
  have hne : block ≠ [] := by
    rintro rfl
    cases hfirst
  have hwatched := watchedMs_eq hfirst hlast (List.pairwise_append.mp hbehind).1
    fun row hrow => hforward row (List.mem_append_left _ hrow)
  induction rest generalizing first last block epoch with
  | nil =>
    have hnil : epochedFrom epoch [] = [] := rfl
    rw [hnil, @trustedMs_append block [] epoch hne (by simp), hwatched, List.map_nil,
      pricedEpochsFrom, hend]
    simp [trustedMs, Sql.groupBy, epochsLength, asPriced, Run.spanStart]
  | cons row rest ih =>
    obtain ⟨hrow, hmore⟩ := List.forall_mem_cons.mp hrest
    have hrowEnd : (asPriced row).run.spanEnd = row.spanEnd :=
      max_eq_right (hforward row (by simp))
    have hrestarted : (asPriced row).restarted = row.restarted := by
      rw [asPriced, hrow, Bool.true_and]
    rw [List.map_cons, pricedEpochsFrom, hrestarted]
    by_cases hnew : row.restarted = true
    · have hepoched : epochedFrom epoch (row :: rest) =
          [row].map (fun r => (r, epoch + 1)) ++ epochedFrom (epoch + 1) rest := by
        simp [epochedFrom, Sql.withRunningSum, hnew]
      have hlater : ∀ p ∈ epochedFrom epoch (row :: rest), epoch < p.2 := by
        rw [hepoched]
        refine List.forall_mem_append.mpr ⟨by simp, fun p hp => ?_⟩
        have := le_epoch p hp
        omega
      have hsuffix : ([row] ++ rest).Pairwise Behind := (List.pairwise_append.mp hbehind).2.1
      have hforwards : ∀ r ∈ [row] ++ rest, r.capturedAt ≤ r.spanEnd :=
        fun r hr => hforward r (List.mem_append_right _ hr)
      have hepochs := @ih row row [row] (epoch + 1) rfl rfl hsuffix hforwards hmore hrowEnd
        (List.cons_ne_nil _ _) (watchedMs_eq rfl rfl (List.pairwise_singleton _ _)
          fun r hr => hforwards r (List.mem_append_left _ hr))
      rw [trustedMs_append hne hlater, hepoched, hepochs, if_pos hnew, hwatched, hend]
      simp [epochsLength, asPriced, Run.spanStart]
    · have hepoched : epochedFrom epoch (row :: rest) = (row, epoch) :: epochedFrom epoch rest := by
        simp [epochedFrom, Sql.withRunningSum, hnew]
      have hblock : (block ++ [row]).head? = some first := by
        rw [List.head?_append, hfirst]
        rfl
      have hsplit : block ++ row :: rest = block ++ [row] ++ rest := by simp
      rw [hsplit] at hbehind hforward
      have hepochs := @ih first row (block ++ [row]) epoch hblock List.getLast?_concat hbehind
        hforward hmore hrowEnd (by simp) (watchedMs_eq hblock List.getLast?_concat
          (List.pairwise_append.mp hbehind).1 fun r hr => hforward r (List.mem_append_left _ hr))
      rw [hepoched, if_neg hnew, ← hepochs]
      simp

end Epochs

/-! ## Blind windows -/

section Blind
variable {server : TextServer} {minBlindMs : Int}

theorem blindHole_eq {row : PricedRow} {previousEnd : Int} (h : row.previousEnd = some previousEnd) :
    blindHole previousEnd row.capturedAt row.startedAt row.restarted =
      (blindEnd row).map fun stop => ⟨previousEnd, stop⟩ := by
  unfold blindHole blindEnd
  rw [h]
  dsimp only
  split
  · rfl
  · cases row.startedAt with
    | none => rfl
    | some started =>
      dsimp only
      split_ifs <;> rfl

theorem readWindows_blindOf (hblind : 0 ≤ minBlindMs) {row : PricedRow} {previousEnd : Int}
    (h : row.previousEnd = some previousEnd) :
    readWindows (blindOf minBlindMs row) =
      longerThan minBlindMs (blindHole previousEnd row.capturedAt row.startedAt row.restarted) := by
  rw [blindHole_eq h]
  unfold blindOf
  rw [h]
  cases blindEnd row with
  | none => rfl
  | some stop =>
    rw [longerThan, Option.map_some, Option.filter_some]
    dsimp only
    by_cases hlong : minBlindMs < stop - previousEnd
    · have hlt : previousEnd < stop := by omega
      rw [if_pos hlong, if_pos (decide_eq_true hlong)]
      simp [readWindows, hlt]
    · rw [if_neg hlong, if_neg (by simpa using hlong)]
      rfl

theorem spanEnd_asPriced (previous : Option SnapshotRow) (row : SnapshotRow) :
    (asPriced (pricedRow server previous row)).run.spanEnd = spanEndOf row :=
  max_eq_right (le_max_right _ _)

theorem readWindows_pricedFrom (hblind : 0 ≤ minBlindMs) {previous : SnapshotRow} {p : PricedRun}
    (hp : p.run.spanEnd = spanEndOf previous) (rows : List SnapshotRow) :
    readWindows ((pricedFrom server (some previous) rows).flatMap (blindOf minBlindMs)) =
      pricedBlindWindows minBlindMs
        (p :: (pricedFrom server (some previous) rows).map asPriced) := by
  induction rows generalizing previous p with
  | nil => rfl
  | cons row rows ih =>
    have hrow := @readWindows_blindOf minBlindMs hblind
      (pricedRow server (some previous) row) (spanEndOf previous) rfl
    have hsplit : pricedFrom server (some previous) (row :: rows) =
        pricedRow server (some previous) row :: pricedFrom server (some row) rows := rfl
    rw [hsplit, List.flatMap_cons, readWindows, List.flatMap_append, List.map_cons,
      pricedBlindWindows, ← ih (spanEnd_asPriced (some previous) row), pricedBlind, hp]
    exact congrArg (· ++ _) hrow

end Blind

/-! ## The fold -/

section Fold
variable {server : TextServer}

theorem map_pricedFrom {β : Type} (f : PricedRow → β) (g : SnapshotRow → β)
    (h : ∀ previous row, f (pricedRow server previous row) = g row) (previous : Option SnapshotRow)
    (rows : List SnapshotRow) : (pricedFrom server previous rows).map f = rows.map g := by
  rw [← map_snd_withPrevious previous rows, pricedFrom, List.map_map, List.map_map,
    map_snd_withPrevious]
  exact List.map_congr_left fun p _ => h p.1 p.2

theorem pricedFrom_behind {rows : List SnapshotRow}
    (hbehind : rows.Pairwise fun a b => a.lastSeenAt < b.capturedAt)
    (hforward : ∀ row ∈ rows, row.capturedAt ≤ row.lastSeenAt) (previous : Option SnapshotRow) :
    (pricedFrom server previous rows).Pairwise Behind := by
  have hspans : ((pricedFrom server previous rows).map fun row =>
      (row.capturedAt, row.spanEnd)).Pairwise fun a b => a.2 < b.1 := by
    rw [map_pricedFrom _ (fun row => (row.capturedAt, spanEndOf row)) fun _ _ => rfl]
    refine List.pairwise_map.mpr ((List.Pairwise.and_mem.mp hbehind).imp ?_)
    rintro a b ⟨ha, -, hlt⟩
    exact (max_eq_left (hforward a ha)).trans_lt hlt
  exact (List.pairwise_map.mp hspans).imp id

theorem previousEnd_pricedFrom (previous : SnapshotRow) (rows : List SnapshotRow) :
    ∀ row ∈ pricedFrom server (some previous) rows, row.previousEnd.isSome = true := by
  refine List.forall_mem_map.mpr ?_
  rintro ⟨before, row⟩ hp
  obtain ⟨front, after, -, rfl⟩ := mem_withPrevious_iff.mp hp
  cases front.getLast? <;> rfl

theorem usageRow_eq_foldPriced {minBlindMs : Int} (hblind : 0 ≤ minBlindMs)
    {rows : List SnapshotRow} (hne : rows ≠ [])
    (hbehind : rows.Pairwise fun a b => a.lastSeenAt < b.capturedAt)
    (hforward : ∀ row ∈ rows, row.capturedAt ≤ row.lastSeenAt)
    (hobserved : ∀ row ∈ rows, 1 ≤ row.observations) (hgap : ∀ row ∈ rows, 0 ≤ row.maxGapMs) :
    (usageRow minBlindMs (pricedFrom server none rows)).map usageFoldOf =
      some (foldPriced ((pricedFrom server none rows).map asPriced) minBlindMs) := by
  obtain ⟨first, rest, rfl⟩ := List.exists_cons_of_ne_nil hne
  have hsplit : pricedFrom server none (first :: rest) =
      pricedRow server none first :: pricedFrom server (some first) rest := rfl
  have hforwards : ∀ row ∈ pricedFrom server none (first :: rest), row.capturedAt ≤ row.spanEnd :=
    List.forall_mem_map.mpr fun _ _ => le_max_right _ _
  have hwatch : trustedMs (epochedFrom 0 (pricedFrom server none (first :: rest))) =
      epochsLength (pricedEpochs ((pricedFrom server none (first :: rest)).map asPriced)) := by
    exact @trustedMs_epochedFrom _ _ [pricedRow server none first] _ _ rfl rfl
      (pricedFrom_behind hbehind hforward none) hforwards (previousEnd_pricedFrom first rest)
  have hwindows : readWindows ((pricedFrom server none (first :: rest)).flatMap
      (blindOf minBlindMs)) =
        pricedBlindWindows minBlindMs ((pricedFrom server none (first :: rest)).map asPriced) := by
    rw [hsplit, List.flatMap_cons, List.map_cons,
      ← readWindows_pricedFrom hblind (spanEnd_asPriced none first)]
    rfl
  have hmap {β : Type} {f : PricedRow → β} (g : SnapshotRow → β)
      (h : ∀ previous row, f (pricedRow server previous row) = g row) :=
    map_pricedFrom f g h none (first :: rest)
  generalize pricedFrom server none (first :: rest) = priced at *
  have hends : (priced.map asPriced).map (fun p => p.run.spanEnd) = priced.map PricedRow.spanEnd := by
    rw [List.map_map, hmap spanEndOf spanEnd_asPriced, hmap spanEndOf fun _ _ => rfl]
  have hobservations : (priced.map asPriced).map (fun p => p.run.observationsOf) =
      priced.map PricedRow.observations := by
    rw [List.map_map, hmap (fun row => max 1 row.observations) fun _ _ => rfl,
      hmap SnapshotRow.observations fun _ _ => rfl]
    exact List.map_congr_left fun row hrow => max_eq_right (hobserved row hrow)
  have hgaps : (priced.map asPriced).map (fun p => p.run.interiorGap) =
      priced.map PricedRow.maxGapMs := by
    rw [List.map_map, hmap (fun row => if row.maxGapMs < 0 then 0 else row.maxGapMs) fun _ _ => rfl,
      hmap SnapshotRow.maxGapMs fun _ _ => rfl]
    exact List.map_congr_left fun row hrow => if_neg (not_lt.mpr (hgap row hrow))
  have hgapsNonneg : ∀ gap ∈ priced.map PricedRow.maxGapMs, 0 ≤ gap := by
    rw [hmap SnapshotRow.maxGapMs fun _ _ => rfl]
    exact List.forall_mem_map.mpr hgap
  obtain ⟨newest, hnewest⟩ : ∃ newest, (priced.map PricedRow.spanEnd).max? = some newest := by
    refine Option.ne_none_iff_exists'.mp fun hnone => ?_
    rw [List.max?_eq_none_iff, List.map_eq_nil_iff, hsplit] at hnone
    cases hnone
  unfold usageRow foldPriced
  rw [hnewest, hends, hnewest, totalObservations_pricedSeries, hobservations,
    activePoints_asPriced, hgaps, foldl_max_zero hgapsNonneg, ← hwatch, ← hwindows,
    latestOf_sightings, totalObservations_sightings, List.length_map]
  rfl

end Fold

/-- Where every stored run counts at least one collect and no negative gap, the query and the fold
over the same rows agree in every field, and an index without a row in the window has no fold. -/
theorem usageEvidence_eq_foldUsage (host : Host) (server : TextServer) (since minBlindMs : Int)
    (rows : List SnapshotRow) (hblind : 0 ≤ minBlindMs)
    (happart : Apart (rows.map fun row => (row.capturedAt, row.lastSeenAt)))
    (hforward : ∀ row ∈ rows, row.capturedAt ≤ row.lastSeenAt)
    (hdistinct : ∀ row ∈ rows, (row.perMember.map MemberUsage.member).Nodup)
    (halike : ReadAlike host server rows) (hobserved : ∀ row ∈ rows, 1 ≤ row.observations)
    (hgap : ∀ row ∈ rows, 0 ≤ row.maxGapMs) :
    usageEvidence server since minBlindMs rows =
      if keptSince since rows = [] then none
      else some (foldUsage host ((keptSince since rows).map storedSnapshot) minBlindMs) := by
  have hkept : (keptSince since rows).Sublist rows := List.filter_sublist
  have hperm := Sql.orderBy_perm SnapshotRow.capturedAt (keptSince since rows)
  have hmem : ∀ row ∈ Sql.orderBy SnapshotRow.capturedAt (keptSince since rows), row ∈ rows :=
    fun row hrow => hkept.subset (hperm.mem_iff.mp hrow)
  have hsorted : sortedRuns UsageSnapshot.toRun ((keptSince since rows).map storedSnapshot) =
      (Sql.orderBy SnapshotRow.capturedAt (keptSince since rows)).map storedSnapshot :=
    sortedRuns_map UsageSnapshot.toRun (fun _ => rfl) _
  unfold usageEvidence
  dsimp only
  split
  · rename_i hempty
    rw [hempty]
    rfl
  · rename_i hne
    have hbehind := @Sql.orderBy_of_apart _ _ _ (fun row : SnapshotRow =>
      (row.capturedAt, row.lastSeenAt)) (keptSince since rows)
      (happart.sublist (hkept.map _)) fun row hrow => hforward row (hkept.subset hrow)
    rw [foldUsage_eq_foldPriced, hsorted, ← map_asPriced halike hforward hdistinct hmem]
    refine usageRow_eq_foldPriced hblind (fun hnil => hne ?_) hbehind
      (fun row hrow => hforward row (hmem row hrow))
      (fun row hrow => hobserved row (hmem row hrow)) fun row hrow => hgap row (hmem row hrow)
    exact List.nil_perm.mp (hnil ▸ hperm)

/-- Two runs without stored prices, and a restart between them. -/
theorem usageEvidence_of_two_rows :
    let rows : List SnapshotRow :=
      [⟨5000, 6000, 2, 1000, [⟨"a", 1, some "4000"⟩], none, none, none, none⟩,
        ⟨1000, 3000, 3, 1000, [⟨"a", 4, some "1000"⟩], none, none, none, none⟩]
    usageEvidence decimalServer 0 0 rows =
        (if keptSince 0 rows = [] then none
        else some (foldUsage decimalHost ((keptSince 0 rows).map storedSnapshot) 0)) ∧
      usageEvidence decimalServer 0 0 rows =
        some ⟨2, 5, 2, 3000, some 6000, some 5000, 1000, [⟨3000, 4000⟩]⟩ :=
  ⟨usageEvidence_eq_foldUsage decimalHost decimalServer 0 0 _ (by decide) (by decide) (by decide)
    (by decide) (by decide) (by decide) (by decide), by decide⟩

/-- A run that counts no collect and one with a gap below zero: the query sums and compares what is
stored, where the fold counts one collect and no gap. -/
theorem usageEvidence_of_no_collect :
    let Differs (row : SnapshotRow) : Prop :=
      Apart ([row].map fun row => (row.capturedAt, row.lastSeenAt)) ∧
        row.capturedAt ≤ row.lastSeenAt ∧ (row.perMember.map MemberUsage.member).Nodup ∧
        ReadAlike decimalHost decimalServer [row] ∧ keptSince 0 [row] ≠ [] ∧
        usageEvidence decimalServer 0 0 [row] ≠
          some (foldUsage decimalHost ((keptSince 0 [row]).map storedSnapshot) 0)
    Differs ⟨1000, 3000, 0, 0, [], none, none, none, none⟩ ∧
      Differs ⟨1000, 3000, 1, -1, [], none, none, none, none⟩ := by
  constructor <;>
    exact ⟨by decide, by decide, by decide, ⟨nofun, nofun⟩, by decide, by decide⟩

end Indexterity
