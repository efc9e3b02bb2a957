import Indexterity.Runs
import Indexterity.Library.Keyed
import Mathlib.Algebra.Order.BigOperators.Group.List

/-!
# Usage: stored counters as activity

`analysis/usage.ts`. An access counter is cumulative and is stored raw, so what the
rules ask of it is the difference between two readings. A map of members is the list
it was built from, read with `lookupLast`: a later entry replaces an earlier one of
the same name.
-/

namespace Indexterity

open Library

structure MemberUsage where
  member : String
  ops : Int
  /-- When this member's counter began, as the server printed it. -/
  since : Option String
deriving DecidableEq, Repr

/-- A stored run of one index. An absent `perMember` is read as an empty one, and the
stored `countersStartedAt` is a timestamp column, so it is an instant here. -/
structure UsageSnapshot extends Run where
  perMember : List MemberUsage
  opsDelta : Option Int
  opsTotal : Option Int
  countersRestarted : Option Bool
  countersStartedAt : Option Int
deriving DecidableEq, Repr

structure UsagePoint extends Run where
  /-- Activity across the span, never the value of the counter. -/
  ops : Int
deriving DecidableEq, Repr

def memberOf (members : List MemberUsage) (name : String) : Option MemberUsage :=
  lookupLast MemberUsage.member members name

/-- What one member did since the reading before: a difference, or the whole counter
where it is new, restarted, or went backwards. -/
def memberActivity (previous : List MemberUsage) (m : MemberUsage) : Int :=
  match memberOf previous m.member with
  | none => max 0 m.ops
  | some before =>
    if before.since ≠ m.since ∨ m.ops < before.ops then max 0 m.ops else m.ops - before.ops

/-- `none` is a run with nothing to difference against. -/
def activityBetween (previous : Option (List MemberUsage)) (current : List MemberUsage) : Int :=
  (current.map (memberActivity (previous.getD []))).sum

def activityInFull (current : List MemberUsage) : Int :=
  (current.map fun m => max 0 m.ops).sum

section Clock
variable (host : Host)

def parseSince (m : MemberUsage) : Option Int := m.since.bind host.dateParse

def sinceMovedForward (before m : MemberUsage) : Bool :=
  match parseSince host before, parseSince host m with
  | some was, some now => decide (was < now)
  | _, _ => false

def countersRestartedBetween (previous : Option (List MemberUsage))
    (current : List MemberUsage) : Bool :=
  current.any fun m =>
    match memberOf (previous.getD []) m.member with
    | none => false
    | some before => decide (m.ops < before.ops) || sinceMovedForward host before m

/-- One step of the loop in `latestCounterStart`: the first stamp of the latest instant. -/
def laterStart (latest : Option (Int × String)) (m : MemberUsage) : Option (Int × String) :=
  match m.since with
  | none => latest
  | some since =>
    match host.dateParse since, latest with
    | none, _ => latest
    | some start, none => some (start, since)
    | some start, some (best, _) => if best < start then some (start, since) else latest

def latestCounterStart (current : List MemberUsage) : Option String :=
  (current.foldl (laterStart host) none).map Prod.snd

end Clock

def runActivity (previous : Option UsageSnapshot) (run : UsageSnapshot) : Int :=
  match previous with
  | none => run.opsTotal.getD (activityBetween none run.perMember)
  | some before => run.opsDelta.getD (activityBetween (some before.perMember) run.perMember)

/-- A run that moved is the instant it jumped and the silence after it; one that did
not is a single idle reading. -/
def pointsOf (run : Run) (ops : Int) : List UsagePoint :=
  if ops = 0 then
    [⟨⟨run.capturedAt, some run.spanEnd, some run.observationsOf,
      some (run.maxGapMs.getD 0)⟩, 0⟩]
  else if 1 < run.observationsOf then
    [⟨⟨run.capturedAt, run.capturedAt, some 1, some 0⟩, ops⟩,
      ⟨⟨run.capturedAt, some run.spanEnd, some (run.observationsOf - 1),
        some (run.maxGapMs.getD 0)⟩, 0⟩]
  else [⟨⟨run.capturedAt, run.capturedAt, some 1, some 0⟩, ops⟩]

/-- The loop of `usageSeries` from the run `previous` on. -/
def seriesFrom (previous : Option UsageSnapshot) : List UsageSnapshot → List UsagePoint
  | [] => []
  | run :: rest => pointsOf run.toRun (runActivity previous run) ++ seriesFrom (some run) rest

def usageSeries (history : List UsageSnapshot) : List UsagePoint :=
  seriesFrom none (sortedRuns UsageSnapshot.toRun history)

/-! ## Facts about activity -/

theorem memberActivity_nonneg (previous : List MemberUsage) (m : MemberUsage) :
    0 ≤ memberActivity previous m := by
  unfold memberActivity
  split
  · exact le_max_left _ _
  · split
    · exact le_max_left _ _
    · omega

theorem activityBetween_nonneg (previous : Option (List MemberUsage))
    (current : List MemberUsage) : 0 ≤ activityBetween previous current := by
  apply List.sum_nonneg
  intro a ha
  obtain ⟨m, _, rfl⟩ := List.mem_map.mp ha
  exact memberActivity_nonneg _ m

@[simp] theorem memberActivity_nil (m : MemberUsage) : memberActivity [] m = max 0 m.ops := rfl

theorem activityBetween_nil (current : List MemberUsage) :
    activityBetween (some []) current = activityInFull current :=
  congrArg List.sum (List.map_congr_left fun m _ => memberActivity_nil m)

theorem activityBetween_none (current : List MemberUsage) :
    activityBetween none current = activityInFull current :=
  activityBetween_nil current

theorem laterStart_of_unparsed {host : Host} {m : MemberUsage} (h : parseSince host m = none)
    (latest : Option (Int × String)) : laterStart host latest m = latest := by
  unfold laterStart
  unfold parseSince at h
  cases hs : m.since with
  | none => rfl
  | some since =>
    simp only [hs, Option.bind_some] at h
    simp [h]

theorem laterStart_of_parsed {host : Host} {m : MemberUsage} {start : Int}
    (h : parseSince host m = some start) (latest : Option (Int × String)) :
    ∃ since, host.dateParse since = some start ∧
      laterStart host latest m =
        match latest with
        | none => some (start, since)
        | some (best, _) => if best < start then some (start, since) else latest := by
  obtain ⟨since, hs, hdate⟩ : ∃ since, m.since = some since ∧
      host.dateParse since = some start := Option.bind_eq_some_iff.mp h
  refine ⟨since, hdate, ?_⟩
  unfold laterStart
  simp only [hs, hdate]
  cases latest <;> rfl

theorem foldl_laterStart (host : Host) (members : List MemberUsage) (latest : Option (Int × String))
    (hlatest : ∀ p ∈ latest, host.dateParse p.2 = some p.1) :
    (∀ p ∈ members.foldl (laterStart host) latest, host.dateParse p.2 = some p.1) ∧
      (members.foldl (laterStart host) latest).map Prod.fst =
        ((latest.map Prod.fst).toList ++ members.filterMap (parseSince host)).max? := by
  induction members generalizing latest with
  | nil => exact ⟨hlatest, by cases latest <;> rfl⟩
  | cons m members ih =>
    rw [List.foldl_cons, List.filterMap_cons]
    cases hparse : parseSince host m with
    | none =>
      rw [laterStart_of_unparsed hparse]
      exact ih latest hlatest
    | some start =>
      obtain ⟨since, hdate, hstep⟩ := laterStart_of_parsed hparse latest
      rw [hstep]
      cases latest with
      | none => exact ih _ (by simpa using hdate)
      | some p =>
        dsimp only
        split_ifs with hlt
        · have hnext := ih (some (start, since)) (by simpa using hdate)
          simpa only [Option.map_some, Option.toList_some, List.singleton_append, List.max?_cons',
            List.foldl_cons, max_eq_right (le_of_lt hlt)] using hnext
        · have hnext := ih (some p) hlatest
          simpa only [Option.map_some, Option.toList_some, List.singleton_append, List.max?_cons',
            List.foldl_cons, max_eq_left (not_lt.mp hlt)] using hnext

theorem latestCounterStart_bind (host : Host) (members : List MemberUsage) :
    (latestCounterStart host members).bind host.dateParse =
      (members.filterMap (parseSince host)).max? := by
  obtain ⟨hvalid, hmax⟩ := foldl_laterStart host members none (by simp)
  unfold latestCounterStart
  cases hl : members.foldl (laterStart host) none with
  | none => simpa [hl] using hmax
  | some p =>
    rw [hl] at hmax
    simpa [hvalid p hl] using hmax

end Indexterity
