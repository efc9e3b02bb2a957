import Indexterity.Classify
import Indexterity.Library.Consecutive

/-!
# True counters and what a reading shows of them

The abstract side of the usage counters. A member has operations and restarts at
instants of one clock; its counter at an instant is the number of operations since the
last restart, and that restart is its `since`. A reading shows some of the members.
Activity is then a number of operations: each run counts the operations of every member
it shows since the reading before, or since the restart where there is no such reading.
-/

namespace Indexterity

open Library

section
structure MemberTrace where
  name : String
  /-- The instants the counter started from zero. -/
  restarts : List Int
  ops : List Int
deriving DecidableEq

variable {m : MemberTrace} {t since : Int}

namespace MemberTrace

def sinceAt (m : MemberTrace) (t : Int) : Option Int := (m.restarts.filter (· ≤ t)).max?

def countAt (m : MemberTrace) (t : Int) : Int :=
  match m.sinceAt t with
  | none => 0
  | some since => (m.ops.countP fun o => decide (since ≤ o) && decide (o ≤ t) : Nat)

theorem sinceAt_eq_some_iff :
    m.sinceAt t = some since ↔
      since ∈ m.restarts ∧ since ≤ t ∧ ∀ r ∈ m.restarts, r ≤ t → r ≤ since := by
  rw [sinceAt, List.max?_eq_some_iff]
  simp [and_assoc]

variable {u : Int}

theorem sinceAt_mono {since' : Int} (htu : t ≤ u)
    (ht : m.sinceAt t = some since) (hu : m.sinceAt u = some since') : since ≤ since' := by
  obtain ⟨hmem, hle, -⟩ := sinceAt_eq_some_iff.mp ht
  exact (sinceAt_eq_some_iff.mp hu).2.2 since hmem (le_trans hle htu)

theorem sinceAt_eq_of_le (htu : t ≤ u)
    (hu : m.sinceAt u = some since) (hle : since ≤ t) : m.sinceAt t = some since := by
  obtain ⟨hmem, -, hmax⟩ := sinceAt_eq_some_iff.mp hu
  exact sinceAt_eq_some_iff.mpr ⟨hmem, hle, fun r hr hrt => hmax r hr (le_trans hrt htu)⟩

theorem countAt_of_sinceAt (hs : m.sinceAt t = some since) :
    m.countAt t = (m.ops.countP fun o => decide (since ≤ o) && decide (o ≤ t) : Nat) := by
  simp [countAt, hs]

theorem countAt_add (htu : t < u) (ht : m.sinceAt t = some since) (hu : m.sinceAt u = some since) :
    m.countAt u = m.countAt t +
      (m.ops.countP fun o => decide (o ≤ u) && decide (t < o) : Nat) := by
  have hle : since ≤ t := (sinceAt_eq_some_iff.mp ht).2.1
  rw [countAt_of_sinceAt ht, countAt_of_sinceAt hu, ← Nat.cast_add, Nat.cast_inj]
  induction m.ops with
  | nil => rfl
  | cons o ops ih =>
    simp only [List.countP_cons, ih, Bool.and_eq_true, decide_eq_true_eq]
    split_ifs <;> omega

/-- The trace without one operation of a member at an instant. -/
def without (n m : MemberTrace) (o : Int) : MemberTrace :=
  if n = m then { n with ops := n.ops.erase o } else n

@[simp] theorem name_without (n : MemberTrace) (o : Int) : (n.without m o).name = n.name := by
  unfold without
  split <;> rfl

@[simp] theorem sinceAt_without (n : MemberTrace) (o : Int) :
    (n.without m o).sinceAt t = n.sinceAt t := by
  unfold without
  split <;> rfl

end MemberTrace

structure TrueReading where
  instant : Int
  shown : List MemberTrace
deriving DecidableEq

def TrueReading.without (r : TrueReading) (m : MemberTrace) (o : Int) : TrueReading :=
  { r with shown := r.shown.map (·.without m o) }

/-- Members of distinct names, and readings at increasing instants that show some of
them, each once and after its counter first started. -/
structure TrueHistory where
  members : List MemberTrace
  readings : List TrueReading
  distinct : (members.map MemberTrace.name).Nodup
  increasing : readings.Pairwise fun a b => a.instant < b.instant
  shown_nodup : ∀ r ∈ readings, r.shown.Nodup
  shown_mem : ∀ r ∈ readings, ∀ m ∈ r.shown, m ∈ members
  shown_started : ∀ r ∈ readings, ∀ m ∈ r.shown, (m.sinceAt r.instant).isSome = true

section Readings
variable (iso : Int → String)

def usageOf (t : Int) (m : MemberTrace) : MemberUsage :=
  ⟨m.name, m.countAt t, (m.sinceAt t).map iso⟩

def snapshotOf (r : TrueReading) : UsageSnapshot where
  capturedAt := some r.instant
  lastSeenAt := some r.instant
  observations := some 1
  maxGapMs := some 0
  perMember := r.shown.map (usageOf iso r.instant)
  opsDelta := none
  opsTotal := none
  countersRestarted := none
  countersStartedAt := none

def TrueHistory.snapshots (h : TrueHistory) : List UsageSnapshot := h.readings.map (snapshotOf iso)

@[simp] theorem spanStart_snapshotOf (r : TrueReading) : (snapshotOf iso r).spanStart = r.instant :=
  rfl

@[simp] theorem spanEnd_snapshotOf (r : TrueReading) : (snapshotOf iso r).spanEnd = r.instant :=
  max_self r.instant

end Readings

def continued (previous : Option TrueReading) (r : TrueReading) (m : MemberTrace) : Bool :=
  previous.any fun a => decide (m ∈ a.shown) && decide (m.sinceAt a.instant = m.sinceAt r.instant)

def counts (previous : Option TrueReading) (r : TrueReading) (m : MemberTrace) (o : Int) : Bool :=
  decide (o ≤ r.instant) &&
    if continued previous r m then previous.any fun a => decide (a.instant < o)
    else (m.sinceAt r.instant).any fun since => decide (since ≤ o)

def countedOps (previous : Option TrueReading) (r : TrueReading) (m : MemberTrace) : List Int :=
  m.ops.filter (counts previous r m)

namespace TrueHistory

variable {h : TrueHistory}

def Clocked (host : Host) (iso : Int → String) (h : TrueHistory) : Prop :=
  ∀ m ∈ h.members, ∀ t ∈ m.restarts, host.dateParse (iso t) = some t

theorem eq_of_name_eq {n : MemberTrace} (hm : m ∈ h.members) (hn : n ∈ h.members)
    (hname : m.name = n.name) : m = n :=
  List.inj_on_of_nodup_map h.distinct hm hn hname

theorem memberOf_snapshot (iso : Int → String) {a : TrueReading} (ha : a ∈ h.readings) (hm : m ∈ h.members) :
    memberOf (a.shown.map (usageOf iso a.instant)) m.name =
      if m ∈ a.shown then some (usageOf iso a.instant m) else none := by
  have hkeys : OneEach MemberUsage.member (a.shown.map (usageOf iso a.instant)) := by
    intro x hx y hy hname
    obtain ⟨m, hm, rfl⟩ := List.mem_map.mp hx
    obtain ⟨n, hn, rfl⟩ := List.mem_map.mp hy
    rw [eq_of_name_eq (h.shown_mem a ha m hm) (h.shown_mem a ha n hn) hname]
  split
  · rename_i hmem
    exact (lookupLast_eq_some_iff _ hkeys _ _).mpr ⟨List.mem_map_of_mem hmem, rfl⟩
  · rename_i hmem
    refine (lookupLast_eq_none_iff _ _ _).mpr fun x hx hname => hmem ?_
    obtain ⟨n, hn, rfl⟩ := List.mem_map.mp hx
    rwa [← eq_of_name_eq (h.shown_mem a ha n hn) hm hname]

theorem neighbours {a b : TrueReading} (hab : (some a, b) ∈ withPrevious none h.readings) :
    a ∈ h.readings ∧ b ∈ h.readings ∧ a.instant < b.instant := by
  obtain ⟨before, after, hsplit⟩ := mem_withPrevious_some_iff.mp hab
  have hinc := h.increasing
  rw [hsplit, List.pairwise_append] at hinc
  refine ⟨by simp [hsplit], by simp [hsplit], ?_⟩
  exact (List.pairwise_cons.mp hinc.2.1).1 b List.mem_cons_self

theorem inOrder_snapshots (iso : Int → String) (h : TrueHistory) :
    InOrder UsageSnapshot.toRun (h.snapshots iso) := by
  refine ⟨fun r hr => ?_, List.pairwise_map.mpr (h.increasing.imp le_of_lt)⟩
  obtain ⟨reading, _, rfl⟩ := List.mem_map.mp hr
  rfl

/-- The history as it would have been without one of the member's operations. -/
def without (h : TrueHistory) (m : MemberTrace) (o : Int) : TrueHistory where
  members := h.members.map (·.without m o)
  readings := h.readings.map (·.without m o)
  distinct := by simpa [Function.comp_def] using h.distinct
  increasing := List.pairwise_map.mpr h.increasing
  shown_nodup r hr := by
    obtain ⟨old, hold, rfl⟩ := List.mem_map.mp hr
    refine (h.shown_nodup old hold).map_on fun x hx y hy hsame => ?_
    have hname := congrArg MemberTrace.name hsame
    rw [MemberTrace.name_without, MemberTrace.name_without] at hname
    exact eq_of_name_eq (h.shown_mem old hold x hx) (h.shown_mem old hold y hy) hname
  shown_mem r hr n hn := by
    obtain ⟨old, hold, rfl⟩ := List.mem_map.mp hr
    obtain ⟨shown, hshown, rfl⟩ := List.mem_map.mp hn
    exact List.mem_map_of_mem (h.shown_mem old hold shown hshown)
  shown_started r hr n hn := by
    obtain ⟨old, hold, rfl⟩ := List.mem_map.mp hr
    obtain ⟨shown, hshown, rfl⟩ := List.mem_map.mp hn
    rw [MemberTrace.sinceAt_without]
    exact h.shown_started old hold shown hshown

/-- The activity of each run. -/
def activities (iso : Int → String) (h : TrueHistory) : List Int :=
  (usageSeries (h.snapshots iso)).map UsagePoint.ops

end TrueHistory

end

/-!
## Where use goes unrecorded

Every operation of a true history is either counted by some run, or lies in a window
the fold reports as blind, or is lost. A blind window is found by the counters of the
later of two readings, so it knows nothing of a member that reading does not show: use
is lost exactly where a member is away at the next reading, restarts before it shows
again, and no other counter of that pair of readings restarted after it either.
-/

variable {minBlindMs : Int} {w : BlindWindow} {r : TrueReading}

theorem mem_blindWindowsOf_cons {host : Host} (run : UsageSnapshot) (runs : List UsageSnapshot) :
    w ∈ blindWindowsOf host minBlindMs (run :: runs) ↔
      ∃ a b, (some a, b) ∈ withPrevious (some run) runs ∧
        w ∈ longerThan minBlindMs (blindWindow host a b) := by
  induction runs generalizing run with
  | nil => simp [blindWindowsOf, withPrevious]
  | cons next rest ih =>
    rw [blindWindowsOf, List.mem_append, ih, withPrevious]
    constructor
    · rintro (h | ⟨a, b, hab, h⟩)
      · exact ⟨run, next, List.mem_cons_self, h⟩
      · exact ⟨a, b, List.mem_cons_of_mem _ hab, h⟩
    · rintro ⟨a, b, hab, h⟩
      rcases List.mem_cons.mp hab with heq | hab
      · obtain ⟨ha, rfl⟩ := Prod.mk.inj heq
        obtain rfl := Option.some.inj ha
        exact .inl h
      · exact .inr ⟨a, b, hab, h⟩

theorem mem_blindWindowsOf {host : Host} (runs : List UsageSnapshot) :
    w ∈ blindWindowsOf host minBlindMs runs ↔
      ∃ a b, (some a, b) ∈ withPrevious none runs ∧
        w ∈ longerThan minBlindMs (blindWindow host a b) := by
  cases runs with
  | nil => simp [blindWindowsOf, withPrevious]
  | cons run rest => simp [mem_blindWindowsOf_cons, withPrevious]

variable {a b : TrueReading}

namespace TrueHistory

def Blinded (host : Host) (iso : Int → String) (h : TrueHistory) (o : Int) : Prop :=
  ∃ w ∈ (foldUsage host (h.snapshots iso) 0).blindWindows, w.startMs ≤ o ∧ o ≤ w.endMs

/-- Some run's activity is smaller where the operation did not happen. -/
def Counted (iso : Int → String) (h : TrueHistory) (m : MemberTrace) (o : Int) : Prop :=
  ∃ p ∈ ((h.without m o).activities iso).zip (h.activities iso), p.1 < p.2

/-- A reading shows the member, and its run counts from before the operation. -/
def Accrued (h : TrueHistory) (m : MemberTrace) (o : Int) : Prop :=
  ∃ p ∈ withPrevious none h.readings, m ∈ p.2.shown ∧ o ∈ countedOps p.1 p.2 m

/-- Between two readings of which the later shows no member, or a member whose counter
started after the earlier one and not before `o`. -/
def RestartSeen (h : TrueHistory) (o : Int) : Prop :=
  ∃ a b, (some a, b) ∈ withPrevious none h.readings ∧ a.instant ≤ o ∧ o ≤ b.instant ∧
    (b.shown = [] ∨ ∃ m ∈ b.shown, ∃ since, m.sinceAt b.instant = some since ∧
      a.instant < since ∧ o ≤ since)

theorem shown_nil_of_no_start {h : TrueHistory} (hb : b ∈ h.readings)
    (hnone : (b.shown.filterMap fun m => m.sinceAt b.instant).max? = none) : b.shown = [] := by
  rw [List.max?_eq_none_iff, List.filterMap_eq_nil_iff] at hnone
  apply List.eq_nil_iff_forall_not_mem.mpr
  intro m hm
  have hsome := h.shown_started b hb m hm
  rw [hnone m hm] at hsome
  cases hsome

theorem latest_start {start : Int}
    (hstarted : (b.shown.filterMap fun m => m.sinceAt b.instant).max? = some start) :
    (∃ top ∈ b.shown, top.sinceAt b.instant = some start) ∧
      ∀ m ∈ b.shown, ∀ since, m.sinceAt b.instant = some since → since ≤ start := by
  obtain ⟨hmem, hmax⟩ := List.max?_eq_some_iff.mp hstarted
  refine ⟨List.mem_filterMap.mp hmem, ?_⟩
  intro m hm since hs
  exact hmax since (List.mem_filterMap.mpr ⟨m, hm, hs⟩)

section Pair
variable {h : TrueHistory} {host : Host} {iso : Int → String} (hclock : Clocked host iso h)
include hclock

theorem parseSince_usageOf {m : MemberTrace} (hm : m ∈ h.members) (t : Int) :
    parseSince host (usageOf iso t m) = m.sinceAt t := by
  cases hs : m.sinceAt t with
  | none => simp [parseSince, usageOf, hs]
  | some since =>
    simp [parseSince, usageOf, hs, hclock m hm since (MemberTrace.sinceAt_eq_some_iff.mp hs).1]

theorem countersStartedAt_snapshotOf (hr : r ∈ h.readings) :
    countersStartedAt host (snapshotOf iso r) =
      (r.shown.filterMap fun m => m.sinceAt r.instant).max? := by
  have hstarts : (snapshotOf iso r).perMember.filterMap (parseSince host) =
      r.shown.filterMap fun m => m.sinceAt r.instant := by
    rw [snapshotOf, List.filterMap_map]
    exact List.filterMap_congr fun m hm =>
      parseSince_usageOf hclock (h.shown_mem r hr m hm) r.instant
  rw [← hstarts, ← latestCounterStart_bind]
  rfl

section
variable (ha : a ∈ h.readings) (hb : b ∈ h.readings) (hab : a.instant < b.instant)
include ha hb hab

theorem restartedBetween_eq_false
    (hsame : ∀ m ∈ b.shown, ∀ since, m.sinceAt b.instant = some since → since ≤ a.instant) :
    restartedBetween host (snapshotOf iso a) (snapshotOf iso b) = false := by
  simp only [restartedBetween, snapshotOf, countersRestartedBetween, Option.getD_some,
    List.any_map, List.any_eq_false]
  intro m hm
  have hmh := h.shown_mem b hb m hm
  obtain ⟨since, hs⟩ := Option.isSome_iff_exists.mp (h.shown_started b hb m hm)
  have hs' := MemberTrace.sinceAt_eq_of_le (le_of_lt hab) hs (hsame m hm since hs)
  simp only [Function.comp_apply]
  rw [show (usageOf iso b.instant m).member = m.name from rfl, memberOf_snapshot iso ha hmh]
  by_cases hshown : m ∈ a.shown
  · have hadd := MemberTrace.countAt_add hab hs' hs
    have hops : ¬ (usageOf iso b.instant m).ops < (usageOf iso a.instant m).ops := by
      simp only [usageOf]
      omega
    have hmoved : sinceMovedForward host (usageOf iso a.instant m) (usageOf iso b.instant m) =
        false := by
      simp [sinceMovedForward, parseSince_usageOf hclock hmh, hs, hs']
    simp [hshown, hops, hmoved]
  · simp [hshown]

theorem blindWindow_iff (o : Int) :
    (∃ w ∈ longerThan 0 (blindWindow host (snapshotOf iso a) (snapshotOf iso b)),
      w.startMs ≤ o ∧ o ≤ w.endMs) ↔
      a.instant ≤ o ∧ o ≤ b.instant ∧
        (b.shown = [] ∨ ∃ m ∈ b.shown, ∃ since, m.sinceAt b.instant = some since ∧
          a.instant < since ∧ o ≤ since) := by
  have hspan : ¬ b.instant ≤ a.instant := not_le.mpr hab
  simp only [blindWindow, countersStartedAt_snapshotOf hclock hb, spanEnd_snapshotOf,
    spanStart_snapshotOf, blindHole, hspan, if_false]
  cases hstarted : (b.shown.filterMap fun m => m.sinceAt b.instant).max? with
  | none =>
    have hempty := shown_nil_of_no_start hb hstarted
    simp [longerThan, hempty, hab]
  | some start =>
    obtain ⟨⟨top, htop, hstart⟩, hlatest⟩ := latest_start hstarted
    have hle : start ≤ b.instant := (MemberTrace.sinceAt_eq_some_iff.mp hstart).2.1
    have hshown : b.shown ≠ [] := List.ne_nil_of_mem htop
    by_cases hlt : a.instant < start
    · simp only [min_eq_right hle, longerThan, Option.filter_some, sub_pos, hlt,
        decide_true, if_true, Option.toList_some, List.mem_singleton, exists_eq_left, hshown,
        false_or]
      constructor
      · rintro ⟨hlow, hhigh⟩
        exact ⟨hlow, le_trans hhigh hle, top, htop, start, hstart, hlt, hhigh⟩
      · rintro ⟨hlow, -, m, hm, since, hs, -, hhigh⟩
        exact ⟨hlow, le_trans hhigh (hlatest m hm since hs)⟩
    · have hold : ∀ m ∈ b.shown, ∀ since, m.sinceAt b.instant = some since → since ≤ a.instant :=
        fun m hm since hs => le_trans (hlatest m hm since hs) (not_lt.mp hlt)
      simp only [if_neg hlt, restartedBetween_eq_false hclock ha hb hab hold, longerThan,
        Bool.false_eq_true, if_false, Option.filter_none, Option.toList_none, List.not_mem_nil,
        false_and, exists_false, hshown, false_or, false_iff]
      rintro ⟨-, -, m, hm, since, hs, hafter, -⟩
      exact absurd (hold m hm since hs) (not_le.mpr hafter)

end

theorem blinded_iff (o : Int) : Blinded host iso h o ↔ RestartSeen h o := by
  have hsorted := sortedRuns_of_inOrder _ (inOrder_snapshots iso h)
  have hneighbours : ∀ x y, (some x, y) ∈ withPrevious none (h.snapshots iso) ↔
      ∃ a b, (some a, b) ∈ withPrevious none h.readings ∧ x = snapshotOf iso a ∧
        y = snapshotOf iso b := by
    intro x y
    rw [snapshots, ← Option.map_none, withPrevious_map, List.mem_map]
    constructor
    · rintro ⟨⟨p, b⟩, hmem, heq⟩
      obtain ⟨hp, rfl⟩ := Prod.mk.inj heq
      obtain ⟨a, rfl, rfl⟩ := Option.map_eq_some_iff.mp hp
      exact ⟨a, b, hmem, rfl, rfl⟩
    · rintro ⟨a, b, hmem, rfl, rfl⟩
      exact ⟨(some a, b), hmem, rfl⟩
  simp only [Blinded, foldUsage, hsorted, mem_blindWindowsOf, RestartSeen]
  constructor
  · rintro ⟨w, ⟨x, y, hxy, hw⟩, ho⟩
    obtain ⟨a, b, hab, rfl, rfl⟩ := (hneighbours x y).mp hxy
    obtain ⟨ha, hb, hlt⟩ := neighbours hab
    exact ⟨a, b, hab, (blindWindow_iff hclock ha hb hlt o).mp ⟨w, hw, ho⟩⟩
  · rintro ⟨a, b, hab, hseen⟩
    obtain ⟨ha, hb, hlt⟩ := neighbours hab
    obtain ⟨w, hw, ho⟩ := (blindWindow_iff hclock ha hb hlt o).mpr hseen
    exact ⟨w, ⟨_, _, (hneighbours _ _).mpr ⟨a, b, hab, rfl, rfl⟩, hw⟩, ho⟩

end Pair

/-! ## Activity is a number of operations -/

section Activity
variable {h : TrueHistory} {host : Host} {iso : Int → String}

theorem countAt_nonneg (m : MemberTrace) (t : Int) : 0 ≤ m.countAt t := by
  unfold MemberTrace.countAt
  split <;> omega

theorem length_countedOps_new {previous : Option TrueReading} {m : MemberTrace}
    (hnew : continued previous r m = false) (hs : (m.sinceAt r.instant).isSome = true) :
    ((countedOps previous r m).length : Int) = m.countAt r.instant := by
  obtain ⟨since, hs⟩ := Option.isSome_iff_exists.mp hs
  rw [MemberTrace.countAt_of_sinceAt hs, countedOps, ← List.countP_eq_length_filter, Nat.cast_inj]
  refine List.countP_congr fun o _ => ?_
  simp [counts, hnew, hs, and_comm]

section
variable (hclock : Clocked host iso h)
include hclock

theorem since_eq_iff {m : MemberTrace} (hm : m ∈ h.members) {t u : Int} :
    (m.sinceAt t).map iso = (m.sinceAt u).map iso ↔ m.sinceAt t = m.sinceAt u := by
  refine ⟨fun heq => ?_, congrArg _⟩
  have hparsed : ∀ t, ((m.sinceAt t).map iso).bind host.dateParse = m.sinceAt t :=
    fun t => parseSince_usageOf hclock hm t
  rw [← hparsed t, heq, hparsed u]

theorem memberActivity_usageOf {m : MemberTrace} (ha : a ∈ h.readings) (hab : a.instant < r.instant)
    (hr : r ∈ h.readings) (hm : m ∈ r.shown) :
    memberActivity (a.shown.map (usageOf iso a.instant)) (usageOf iso r.instant m) =
      ((countedOps (some a) r m).length : Int) := by
  have hmh := h.shown_mem r hr m hm
  have hs := h.shown_started r hr m hm
  have hfull : max 0 (m.countAt r.instant) = m.countAt r.instant := max_eq_right (countAt_nonneg _ _)
  unfold memberActivity
  rw [show (usageOf iso r.instant m).member = m.name from rfl, memberOf_snapshot iso ha hmh]
  by_cases hshown : m ∈ a.shown
  · simp only [hshown, if_true]
    by_cases hsame : m.sinceAt a.instant = m.sinceAt r.instant
    · obtain ⟨since, hs⟩ := Option.isSome_iff_exists.mp hs
      have hadd := MemberTrace.countAt_add hab (hsame.trans hs) hs
      have hcontinued : continued (some a) r m = true := by simp [continued, hshown, hsame]
      have hlength : (countedOps (some a) r m).length =
          m.ops.countP fun o => decide (o ≤ r.instant) && decide (a.instant < o) := by
        rw [countedOps, ← List.countP_eq_length_filter]
        refine List.countP_congr fun o _ => ?_
        simp [counts, hcontinued]
      have hkept : ¬ ((usageOf iso a.instant m).since ≠ (usageOf iso r.instant m).since ∨
          (usageOf iso r.instant m).ops < (usageOf iso a.instant m).ops) := by
        simp only [usageOf, hsame, ne_eq, not_true_eq_false, false_or, not_lt]
        omega
      rw [if_neg hkept, hlength]
      simp only [usageOf]
      omega
    · have hnew : continued (some a) r m = false := by simp [continued, hsame]
      have hchanged : (usageOf iso a.instant m).since ≠ (usageOf iso r.instant m).since :=
        fun heq => hsame ((since_eq_iff hclock hmh).mp heq)
      rw [if_pos (.inl hchanged), length_countedOps_new hnew hs]
      exact hfull
  · have hnew : continued (some a) r m = false := by simp [continued, hshown]
    simp only [hshown, if_false]
    rw [length_countedOps_new hnew hs]
    exact hfull

theorem runActivity_snapshotOf {previous : Option TrueReading}
    (hp : (previous, r) ∈ withPrevious none h.readings) :
    runActivity (previous.map (snapshotOf iso)) (snapshotOf iso r) =
      (r.shown.map fun m => ((countedOps previous r m).length : Int)).sum := by
  obtain ⟨before, after, hsplit, -⟩ := mem_withPrevious_iff.mp hp
  have hr : r ∈ h.readings := by simp [hsplit]
  cases previous with
  | none =>
    have hactivity : runActivity none (snapshotOf iso r) =
        activityInFull (r.shown.map (usageOf iso r.instant)) := activityBetween_none _
    rw [Option.map_none, hactivity, activityInFull, List.map_map]
    refine congrArg List.sum (List.map_congr_left fun m hm => ?_)
    rw [length_countedOps_new rfl (h.shown_started r hr m hm)]
    exact max_eq_right (countAt_nonneg _ _)
  | some a =>
    obtain ⟨ha, -, hab⟩ := neighbours hp
    have hactivity : runActivity (some (snapshotOf iso a)) (snapshotOf iso r) =
        ((r.shown.map (usageOf iso r.instant)).map
          (memberActivity (a.shown.map (usageOf iso a.instant)))).sum := rfl
    rw [Option.map_some, hactivity, List.map_map]
    exact congrArg List.sum (List.map_congr_left fun m hm =>
      memberActivity_usageOf hclock ha hab hr hm)

/-- The activity of a run is the number of operations it counts on the members it shows. -/
theorem activities_eq :
    h.activities iso = (withPrevious none h.readings).map fun p =>
      (p.2.shown.map fun m => ((countedOps p.1 p.2 m).length : Int)).sum := by
  have hops : ∀ (r : TrueReading) (ops : Int),
      (pointsOf (snapshotOf iso r).toRun ops).map UsagePoint.ops = [ops] := by
    intro r ops
    unfold pointsOf
    split_ifs with hidle hmany
    · simp [hidle]
    · exact absurd hmany (lt_irrefl 1)
    · rfl
  have hseries : ∀ (previous : Option TrueReading) (readings : List TrueReading),
      (seriesFrom (previous.map (snapshotOf iso)) (readings.map (snapshotOf iso))).map
        UsagePoint.ops = (withPrevious previous readings).map fun p =>
          runActivity (p.1.map (snapshotOf iso)) (snapshotOf iso p.2) := by
    intro previous readings
    induction readings generalizing previous with
    | nil => rfl
    | cons r rest ih =>
      rw [List.map_cons, seriesFrom, List.map_append, hops, withPrevious, List.map_cons]
      exact congrArg _ (ih (some r))
  rw [activities, usageSeries, sortedRuns_of_inOrder _ (inOrder_snapshots iso h), snapshots]
  exact (hseries none h.readings).trans
    (List.map_congr_left fun p hp => runActivity_snapshotOf hclock hp)

variable {m : MemberTrace} {o : Int}

theorem clocked_without (m : MemberTrace) (o : Int) : Clocked host iso (h.without m o) := by
  intro n hn t ht
  obtain ⟨old, hold, rfl⟩ := List.mem_map.mp hn
  refine hclock old hold t ?_
  unfold MemberTrace.without at ht
  split at ht <;> exact ht

end

variable {m : MemberTrace} {o : Int}

theorem continued_without {previous : Option TrueReading} {n : MemberTrace}
    (hp : (previous, r) ∈ withPrevious none h.readings) (hn : n ∈ h.members) :
    continued (previous.map (·.without m o)) (r.without m o) (n.without m o) =
      continued previous r n := by
  cases previous with
  | none => rfl
  | some a =>
    obtain ⟨ha, -, -⟩ := neighbours hp
    have hshown : n.without m o ∈ (a.without m o).shown ↔ n ∈ a.shown := by
      refine ⟨fun hmem => ?_, fun hmem => List.mem_map_of_mem hmem⟩
      obtain ⟨other, hother, hsame⟩ := List.mem_map.mp hmem
      have hname := congrArg MemberTrace.name hsame
      rw [MemberTrace.name_without, MemberTrace.name_without] at hname
      exact eq_of_name_eq (h.shown_mem a ha other hother) hn hname ▸ hother
    simp only [continued, Option.map_some, Option.any_some, hshown, MemberTrace.sinceAt_without]
    rfl

theorem length_countedOps_without {previous : Option TrueReading} {n : MemberTrace}
    (hp : (previous, r) ∈ withPrevious none h.readings) (hn : n ∈ h.members) :
    (countedOps (previous.map (·.without m o)) (r.without m o) (n.without m o)).length +
        (if n = m ∧ o ∈ countedOps previous r n then 1 else 0) =
      (countedOps previous r n).length := by
  have hcounts : counts (previous.map (·.without m o)) (r.without m o) (n.without m o) =
      counts previous r n := by
    funext o
    unfold counts
    rw [continued_without hp hn, MemberTrace.sinceAt_without]
    cases previous <;> rfl
  simp only [countedOps, hcounts, ← List.countP_eq_length_filter, List.mem_filter]
  by_cases hnm : n = m
  · subst hnm
    have hpos : o ∈ n.ops → counts previous r n o = true →
        0 < n.ops.countP (counts previous r n) :=
      fun ho hcount => List.countP_pos_iff.mpr ⟨o, ho, hcount⟩
    simp only [MemberTrace.without, if_true, List.countP_erase, true_and]
    split_ifs <;> grind
  · simp [MemberTrace.without, hnm]

theorem counted_iff (hclock : Clocked host iso h) (hm : m ∈ h.members) :
    Counted iso h m o ↔ Accrued h m o := by
  have hwithout : (h.without m o).activities iso = (withPrevious none h.readings).map fun p =>
      (p.2.shown.map fun n => ((countedOps (p.1.map (·.without m o)) (p.2.without m o)
        (n.without m o)).length : Int)).sum := by
    rw [activities_eq (clocked_without hclock m o)]
    have hmap := withPrevious_map (fun r : TrueReading => r.without m o) none h.readings
    change List.map _ (withPrevious none (h.readings.map fun r => r.without m o)) = _
    rw [← Option.map_none, hmap, List.map_map]
    refine List.map_congr_left fun p _ => congrArg List.sum ?_
    exact List.map_map
  rw [Counted, hwithout, activities_eq hclock, List.zip_map']
  simp only [List.mem_map, exists_exists_and_eq_and, Accrued]
  refine exists_congr fun p => and_congr_right fun hp => ?_
  obtain ⟨before, after, hsplit, -⟩ := mem_withPrevious_iff.mp hp
  have hshown : ∀ n ∈ p.2.shown, n ∈ h.members := h.shown_mem p.2 (by simp [hsplit])
  constructor
  · intro hlt
    by_contra hnot
    refine absurd hlt (not_lt.mpr (List.sum_le_sum fun n hn => ?_))
    have hlength := @length_countedOps_without _ h m o p.1 n hp (hshown n hn)
    rw [if_neg (by rintro ⟨rfl, hin⟩; exact hnot ⟨hn, hin⟩)] at hlength
    omega
  · rintro ⟨hin, hcounted⟩
    refine List.sum_lt_sum _ _ (fun n hn => ?_) ⟨m, hin, ?_⟩
    · have hlength := @length_countedOps_without _ h m o p.1 n hp (hshown n hn)
      omega
    · have hlength := @length_countedOps_without _ h m o p.1 m hp hm
      rw [if_pos ⟨rfl, hcounted⟩] at hlength
      omega

end Activity

/-! ## Counted or not -/

section Operation
variable {h : TrueHistory} {m : MemberTrace} {o : Int}

theorem bounds_of_mem_countedOps {p : Option TrueReading × TrueReading}
    (hp : p ∈ withPrevious none h.readings) (hm : m ∈ p.2.shown) (ho : o ∈ countedOps p.1 p.2 m) :
    o ≤ p.2.instant ∧ ∀ since, m.sinceAt p.2.instant = some since → since ≤ o := by
  obtain ⟨previous, r⟩ := p
  simp only [countedOps, counts, List.mem_filter, Bool.and_eq_true, decide_eq_true_eq] at ho
  obtain ⟨-, hle, hfrom⟩ := ho
  refine ⟨hle, fun since hs => ?_⟩
  by_cases hc : continued previous r m = true
  · rw [if_pos hc] at hfrom
    cases previous with
    | none => simp at hfrom
    | some a =>
      simp only [continued, Option.any_some, Bool.and_eq_true, decide_eq_true_eq] at hc hfrom
      have hs' := (MemberTrace.sinceAt_eq_some_iff.mp (hc.2.trans hs)).2.1
      omega
  · rw [if_neg hc] at hfrom
    simpa [hs] using hfrom

theorem accrued_of_shown (hab : (some a, b) ∈ withPrevious none h.readings) (ho : o ∈ m.ops)
    (hafter : a.instant < o) (hby : o ≤ b.instant) (hm : m ∈ b.shown) {since : Int}
    (hs : m.sinceAt b.instant = some since) (hle : since ≤ o) : Accrued h m o := by
  refine ⟨(some a, b), hab, hm, ?_⟩
  simp only [countedOps, counts, List.mem_filter, Bool.and_eq_true, decide_eq_true_eq]
  refine ⟨ho, hby, ?_⟩
  split
  · simpa using hafter
  · simpa [hs] using hle

theorem accrued_of_back {p : TrueReading} (hpr : (some p, r) ∈ withPrevious none h.readings)
    (ho : o ∈ m.ops) (hby : o ≤ r.instant) (haway : m ∉ p.shown) (hm : m ∈ r.shown) {since : Int}
    (hs : m.sinceAt r.instant = some since) (hle : since ≤ o) : Accrued h m o := by
  refine ⟨(some p, r), hpr, hm, ?_⟩
  have hc : continued (some p) r m = false := by simp [continued, haway]
  simp only [countedOps, counts, List.mem_filter, Bool.and_eq_true, decide_eq_true_eq, hc,
    Bool.false_eq_true, if_false, hs, Option.any_some]
  exact ⟨ho, hby, hle⟩

/-- An operation after the first reading and by the last, on a member the last shows. -/
def AtStake (h : TrueHistory) (m : MemberTrace) (o : Int) : Prop :=
  o ∈ m.ops ∧ ∃ first last, h.readings.head? = some first ∧ h.readings.getLast? = some last ∧
    first.instant < o ∧ o ≤ last.instant ∧ m ∈ last.shown

def nextReading (h : TrueHistory) (o : Int) : Option TrueReading :=
  h.readings.find? fun r => decide (o ≤ r.instant)

def nextShowing (h : TrueHistory) (m : MemberTrace) (o : Int) : Option TrueReading :=
  h.readings.find? fun r => decide (o ≤ r.instant) && decide (m ∈ r.shown)

/-- The next reading does not show the member, and by the time one does its counter has
started over. -/
def RestartedAway (h : TrueHistory) (m : MemberTrace) (o : Int) : Prop :=
  (∃ next ∈ nextReading h o, m ∉ next.shown) ∧
    ∃ back ∈ nextShowing h m o, ∃ since, m.sinceAt back.instant = some since ∧ o < since

theorem not_accrued_of_restartedAway (haway : RestartedAway h m o) : ¬ Accrued h m o := by
  rintro ⟨⟨previous, r⟩, hp, hm, ho⟩
  obtain ⟨-, back, hback, since, hs, hlt⟩ := haway
  obtain ⟨hby, hfrom⟩ := bounds_of_mem_countedOps hp hm ho
  obtain ⟨before, after, hr, -⟩ := mem_withPrevious_iff.mp hp
  have hrmem : r ∈ h.readings := by simp [hr]
  obtain ⟨since', hs'⟩ := Option.isSome_iff_exists.mp (h.shown_started r hrmem m hm)
  obtain ⟨hshows, earlier, later, hsplit, hnone⟩ := List.find?_eq_some_iff_append.mp hback
  -- the showing that counts it is not before the first showing after it
  have hle : back.instant ≤ r.instant := by
    rw [hsplit] at hrmem
    have hinc := h.increasing
    rw [hsplit, List.pairwise_append] at hinc
    rcases List.mem_append.mp hrmem with hin | hin
    · have hnot := hnone r hin
      simp only [hby, hm, decide_true, Bool.and_self, Bool.not_true, Bool.false_eq_true] at hnot
    · rcases List.mem_cons.mp hin with rfl | hin
      · exact le_refl _
      · exact le_of_lt ((List.pairwise_cons.mp hinc.2.1).1 r hin)
  have hmono := MemberTrace.sinceAt_mono hle hs hs'
  have := hfrom since' hs'
  omega

/-- The first showing at or after an operation at stake has a reading before it, and
every reading before it that is not before the operation misses the member. -/
theorem exists_back (hstake : AtStake h m o) :
    ∃ earlier p back later, h.readings = earlier ++ p :: back :: later ∧
      nextShowing h m o = some back ∧ o ≤ back.instant ∧ m ∈ back.shown ∧
      ∀ r ∈ earlier ++ [p], o ≤ r.instant → m ∉ r.shown := by
  obtain ⟨-, first, last, hfirst, hlast, hlow, hhigh, hm⟩ := hstake
  obtain ⟨back, hback⟩ : ∃ back, nextShowing h m o = some back := by
    refine Option.isSome_iff_exists.mp (List.find?_isSome.mpr ⟨last, ?_, ?_⟩)
    · exact List.mem_of_getLast? hlast
    · simp [hhigh, hm]
  obtain ⟨hshows, before, later, hsplit, hnone⟩ := List.find?_eq_some_iff_append.mp hback
  simp only [Bool.and_eq_true, decide_eq_true_eq] at hshows
  have hne : before ≠ [] := by
    rintro rfl
    rw [hsplit] at hfirst
    obtain rfl : back = first := by simpa using hfirst
    omega
  refine ⟨before.dropLast, before.getLast hne, back, later, ?_, hback, hshows.1, hshows.2, ?_⟩
  · rw [hsplit, List.append_cons before.dropLast, List.dropLast_append_getLast]
  · rw [List.dropLast_append_getLast]
    intro r hr hro
    have hnot := hnone r hr
    simpa [hro] using hnot

theorem recorded_of_not_restartedAway (hstake : AtStake h m o) (haway : ¬ RestartedAway h m o) :
    Accrued h m o ∨ RestartSeen h o := by
  obtain ⟨earlier, p, back, later, hsplit, hback, hby, hm, hmissed⟩ := exists_back hstake
  have hpair : (some p, back) ∈ withPrevious none h.readings :=
    mem_withPrevious_some_iff.mpr ⟨earlier, later, hsplit⟩
  obtain ⟨-, hmem, -⟩ := neighbours hpair
  obtain ⟨since, hs⟩ := Option.isSome_iff_exists.mp (h.shown_started back hmem m hm)
  by_cases hp : p.instant < o
  · -- shown by the very next reading
    by_cases hle : since ≤ o
    · exact .inl (accrued_of_shown hpair hstake.1 hp hby hm hs hle)
    · exact .inr ⟨p, back, hpair, le_of_lt hp, hby, .inr ⟨m, hm, since, hs, by omega, by omega⟩⟩
  · have hpo : o ≤ p.instant := not_lt.mp hp
    have hmiss := hmissed p (by simp) hpo
    refine .inl (accrued_of_back hpair hstake.1 hby hmiss hm hs ?_)
    by_contra hlt
    -- the next reading is one of those that miss the member
    obtain ⟨next, hnext⟩ : ∃ next, (earlier ++ [p]).find? (fun r => decide (o ≤ r.instant)) =
        some next := by
      exact Option.isSome_iff_exists.mp (List.find?_isSome.mpr ⟨p, by simp, by simpa using hpo⟩)
    have hnext' : nextReading h o = some next := by
      rw [nextReading, hsplit, List.append_cons, List.find?_append, hnext, Option.some_or]
    have hmiss' := hmissed next (List.mem_of_find?_eq_some hnext)
      (by simpa using List.find?_some hnext)
    exact haway ⟨⟨next, hnext', hmiss'⟩, back, hback, since, hs, not_le.mp hlt⟩

/-- Every operation at stake is counted in the activity of some run or in a blind window, exactly
when every one whose member restarts while away lies between two readings that show a restart. -/
theorem use_recorded_iff (host : Host) (iso : Int → String) (hclock : Clocked host iso h) :
    (∀ m o, AtStake h m o → Counted iso h m o ∨ Blinded host iso h o) ↔
      ∀ m o, AtStake h m o → RestartedAway h m o → RestartSeen h o := by
  have hcounted : ∀ {m o}, AtStake h m o → (Counted iso h m o ↔ Accrued h m o) := by
    rintro m o ⟨-, -, last, -, hlast, -, -, hm⟩
    exact counted_iff hclock (h.shown_mem last (List.mem_of_getLast? hlast) m hm)
  constructor
  · intro hall m o hstake haway
    rcases hall m o hstake with hrun | hblind
    · exact absurd ((hcounted hstake).mp hrun) (not_accrued_of_restartedAway haway)
    · exact (blinded_iff hclock o).mp hblind
  · intro hall m o hstake
    rw [blinded_iff hclock, hcounted hstake]
    by_cases haway : RestartedAway h m o
    · exact .inr (hall m o hstake haway)
    · exact recorded_of_not_restartedAway hstake haway

end Operation
end TrueHistory

/-! ## Two histories -/

section Samples

def steadyMember : MemberTrace := ⟨"b", [0], [2]⟩

def restartedMember : MemberTrace := ⟨"a", [0, 15], [5]⟩

def shownThroughout : TrueHistory where
  members := [restartedMember, steadyMember]
  readings := [⟨1, [restartedMember, steadyMember]⟩, ⟨10, [restartedMember, steadyMember]⟩,
    ⟨20, [restartedMember, steadyMember]⟩]
  distinct := by decide
  increasing := by decide
  shown_nodup := by decide
  shown_mem := by decide
  shown_started := by decide

def missedOnce : TrueHistory where
  members := [restartedMember, steadyMember]
  readings := [⟨1, [restartedMember, steadyMember]⟩, ⟨10, [steadyMember]⟩,
    ⟨20, [restartedMember, steadyMember]⟩]
  distinct := by decide
  increasing := by decide
  shown_nodup := by decide
  shown_mem := by decide
  shown_started := by decide

def decimalIso (t : Int) : String := toString t

end Samples

namespace TrueHistory

theorem use_recorded_shown_throughout :
    AtStake shownThroughout restartedMember 5 ∧
      (Counted decimalIso shownThroughout restartedMember 5 ∨
        Blinded decimalHost decimalIso shownThroughout 5) := by
  have hstake : AtStake shownThroughout restartedMember 5 :=
    ⟨by decide, _, _, rfl, rfl, by decide, by decide, by decide⟩
  refine ⟨hstake, (use_recorded_iff decimalHost decimalIso ?_).mpr ?_ _ _ hstake⟩
  · unfold Clocked
    decide
  · -- the next reading shows every member the last one does
    rintro m o ⟨-, first, last, -, hlast, -, -, hm⟩ ⟨⟨next, hnext, hmiss⟩, -⟩
    have hshown : ∀ r ∈ shownThroughout.readings, r.shown = last.shown := by
      rw [← Option.some.inj hlast]
      decide
    exact absurd (hshown next (List.mem_of_find?_eq_some hnext) ▸ hm) hmiss

/-- The operation at 5 is gone with the restart at 15: the reading at 10 does not show
its member, so only the stretch from 10 to 15 reads as blind. -/
theorem use_lost_missed_once :
    Clocked decimalHost decimalIso missedOnce ∧ AtStake missedOnce restartedMember 5 ∧
      ¬ Counted decimalIso missedOnce restartedMember 5 ∧
      ¬ Blinded decimalHost decimalIso missedOnce 5 := by
  refine ⟨?_, ?_, ?_, ?_⟩
  · unfold Clocked
    decide
  · exact ⟨by decide, _, _, rfl, rfl, by decide, by decide, by decide⟩
  · unfold Counted
    decide
  · unfold Blinded
    decide

end TrueHistory

end Indexterity
