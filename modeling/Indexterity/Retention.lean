import Indexterity.Latency

/-!
# Retention: what a sweep takes from an open observation

`jobs/retention.ts` for the latency rows of one namespace, and the reading of them by
`jobs/finalize.ts`. A sweep deletes the rows that ended before its plan's window; a drop that is
hidden is observed over the windows between the rows that are left, from the instant it was
hidden at.

The rows a sweep deletes are the oldest, so what an observation loses is exactly the windows
that deleted rows opened.
-/

namespace Indexterity

open Library

inductive Plan where
  | FREE
  | PRO
  | SCALE
  | SELF_HOSTED
deriving DecidableEq, Repr

def Plan.retentionDays : Plan → Int
  | .FREE => 90
  | .PRO => 183
  | .SCALE => 365
  | .SELF_HOSTED => 365

inductive HistoryEvent where
  | collect (sample : CollectedLatency)
  /-- The plan is the one the organization is on at the sweep. -/
  | sweep (plan : Plan)

structure HistoryStep where
  wait : Nat
  event : HistoryEvent

/-- The rows that are stored, and beside them those that sweeps have deleted. -/
structure LatencyHistory where
  now : Int
  pruned : List (LatencyRow CollectedLatency)
  stored : List (LatencyRow CollectedLatency)

namespace LatencyHistory

def ever (h : LatencyHistory) : List (LatencyRow CollectedLatency) := h.pruned ++ h.stored

def pruneHistory (h : LatencyHistory) (cutoff : Int) : LatencyHistory :=
  { h with
    pruned := h.pruned ++ h.stored.filter fun row => decide (row.lastSeenAt < cutoff)
    stored := h.stored.filter fun row => !decide (row.lastSeenAt < cutoff) }

def step (h : LatencyHistory) (s : HistoryStep) : LatencyHistory :=
  let h := { h with now := h.now + s.wait }
  match s.event with
  | .collect sample => { h with stored := recordLatency id h.stored h.now sample }
  | .sweep plan => h.pruneHistory (h.now - plan.retentionDays * DAY_MS)

def run (start : Int) (steps : List HistoryStep) : LatencyHistory :=
  steps.foldl step ⟨start, [], []⟩

end LatencyHistory

/-! ## Reading the rows -/

def collectionLatencyHistory (rows : List (LatencyRow CollectedLatency)) (since : Int) :
    List LatencyReading :=
  (rows.filter fun row => decide (since ≤ row.lastSeenAt)).map (readingOf id)

/-- What a finalize pass finds observed of a drop that was hidden for `days`. -/
def observedSince (rows : List (LatencyRow CollectedLatency)) (hiddenAt : Int) (days : Nat)
    (options : ObservedOptions) : Int :=
  (observedWindow (collectionLatencyHistory rows (hiddenAt - days * DAY_MS)) .read hiddenAt days
    options).observedMs

def contribution (outages : List OwnOutage) (hiddenAt : Int)
    (row next : LatencyRow CollectedLatency) : Int :=
  if Usable id .read outages row next ∧ hiddenAt ≤ row.lastSeenAt then
    next.capturedAt - row.lastSeenAt
  else 0

def contributions (outages : List OwnOutage) (hiddenAt : Int)
    (rows : List (LatencyRow CollectedLatency)) : Int :=
  ((neighbours rows).map fun p => contribution outages hiddenAt p.1 p.2).sum

variable {rows : List (LatencyRow CollectedLatency)} {now : Int}

section Observation
variable {outages : List OwnOutage} {hiddenAt : Int} {row : LatencyRow CollectedLatency}

theorem contributions_cons_of_lt
    {rest : List (LatencyRow CollectedLatency)} (h : row.lastSeenAt < hiddenAt) :
    contributions outages hiddenAt (row :: rest) = contributions outages hiddenAt rest := by
  cases rest with
  | nil => rfl
  | cons next rest =>
    have hzero : contribution outages hiddenAt row next = 0 :=
      if_neg fun hcounts => absurd hcounts.2 (not_le.mpr h)
    simp [contributions, hzero]

theorem contributions_filter {since : Int} (h : Timeline rows now) (hsince : since ≤ hiddenAt) :
    contributions outages hiddenAt (rows.filter fun row => decide (since ≤ row.lastSeenAt)) =
      contributions outages hiddenAt rows := by
  induction rows with
  | nil => rfl
  | cons row rest ih =>
    by_cases hrow : since ≤ row.lastSeenAt
    · have hall : ∀ r ∈ row :: rest, decide (since ≤ r.lastSeenAt) = true := by
        refine List.forall_mem_cons.mpr ⟨decide_eq_true hrow, fun r hr => decide_eq_true ?_⟩
        have hlt := (List.pairwise_cons.mp h.ordered).1 r hr
        exact hrow.trans (hlt.le.trans (h.forward r (List.mem_cons_of_mem row hr)))
      rw [List.filter_eq_self.mpr hall]
    · rw [List.filter_cons_of_neg (by simpa using hrow),
        ih (h.sublist (List.sublist_cons_self row rest)),
        contributions_cons_of_lt ((not_le.mp hrow).trans_le hsince)]

theorem observedSince_eq
    (h : Timeline rows now) (hiddenAt : Int) (days : Nat) (options : ObservedOptions) :
    observedSince rows hiddenAt days options =
      contributions options.ownOutages hiddenAt rows := by
  have hsince : hiddenAt - days * DAY_MS ≤ hiddenAt := by
    unfold DAY_MS
    omega
  have hkept := h.sublist (@List.filter_sublist _
    (fun row => decide (hiddenAt - days * DAY_MS ≤ row.lastSeenAt)) rows)
  have hsum := @sum_windowsSince _ id (fun window => window.endMs - window.startMs) .read
    options.ownOutages hiddenAt _ hkept.forward
  rw [← contributions_filter h hsince]
  unfold observedSince observedWindow windowsOf collectionLatencyHistory
  rw [sortedRuns_of_inOrder _ (inOrder_rows LatencyReading.toRun (readingOf id) (fun _ => rfl) hkept)]
  exact hsum

theorem contribution_eq_zero_iff {next : LatencyRow CollectedLatency}
    (h : row.lastSeenAt < next.capturedAt) :
    contribution outages hiddenAt row next = 0 ↔
      (hiddenAt ≤ row.lastSeenAt → ¬ Usable id .read outages row next) := by
  unfold contribution
  split
  · rename_i hcounts
    exact iff_of_false (by omega) fun himp => himp hcounts.2 hcounts.1
  · rename_i hcounts
    exact iff_of_true rfl fun hhidden husable => hcounts ⟨husable, hhidden⟩

/-- Without its first rows a series observes as much exactly when none of them opens a window
that counts. -/
theorem contributions_append_iff {first rest : List (LatencyRow CollectedLatency)}
    (h : Timeline (first ++ rest) now) :
    contributions outages hiddenAt rest = contributions outages hiddenAt (first ++ rest) ↔
      ∀ before row next after, first ++ rest = before ++ row :: next :: after →
        before.length < first.length → hiddenAt ≤ row.lastSeenAt →
          ¬ Usable id .read outages row next := by
  have horder (p) (hp : p ∈ neighbours (first ++ rest)) : p.1.lastSeenAt < p.2.capturedAt :=
    rel_of_mem_neighbours h.ordered hp
  unfold contributions
  have hnonneg (p) (hp : p ∈ neighbours (first ++ rest)) :
      0 ≤ contribution outages hiddenAt p.1 p.2 := by
    have hlt := horder p hp
    unfold contribution
    split <;> omega
  rw [sum_neighbours_eq_iff hnonneg]
  constructor
  · intro hzero before row next after hsplit hlength
    have hp := mem_take_neighbours_iff.mpr ⟨before, after, hsplit, hlength⟩
    exact (contribution_eq_zero_iff (horder _ (List.mem_of_mem_take hp))).mp (hzero _ hp)
  · rintro hunusable ⟨row, next⟩ hp
    obtain ⟨before, after, hsplit, hlength⟩ := mem_take_neighbours_iff.mp hp
    exact (contribution_eq_zero_iff (horder _ (List.mem_of_mem_take hp))).mpr
      (hunusable before row next after hsplit hlength)

end Observation

/-! ## A whole history -/

theorem filter_append_filter_not (h : Timeline rows now) (cutoff : Int) :
    (rows.filter fun row => decide (row.lastSeenAt < cutoff)) ++
      (rows.filter fun row => !decide (row.lastSeenAt < cutoff)) = rows := by
  induction rows with
  | nil => rfl
  | cons row rest ih =>
    by_cases hrow : row.lastSeenAt < cutoff
    · rw [List.filter_cons_of_pos (by simpa using hrow),
        List.filter_cons_of_neg (by simpa using hrow), List.cons_append,
        ih (h.sublist (List.sublist_cons_self row rest))]
    · have hall : ∀ r ∈ row :: rest, ¬ r.lastSeenAt < cutoff := by
        refine List.forall_mem_cons.mpr ⟨hrow, fun r hr => ?_⟩
        have hlt := (List.pairwise_cons.mp h.ordered).1 r hr
        have hforward := h.forward r (List.mem_cons_of_mem row hr)
        omega
      rw [List.filter_eq_nil_iff.mpr (by simpa using hall),
        List.filter_eq_self.mpr (by simpa using hall), List.nil_append]

namespace LatencyHistory

/-- The rows ever written lie in order, and those that were deleted ended before now. -/
structure Sound (h : LatencyHistory) : Prop where
  timeline : Timeline h.ever h.now
  gone : ∀ row ∈ h.pruned, row.lastSeenAt < h.now

variable {h : LatencyHistory}

section
variable (hs : h.Sound)
include hs

theorem Sound.wait (wait : Nat) : Sound { h with now := h.now + wait } :=
  ⟨hs.timeline.later (by simp), fun row hrow => (hs.gone row hrow).trans_le (by simp)⟩

theorem Sound.pruneHistory {cutoff : Int} (hcutoff : cutoff ≤ h.now) :
    (h.pruneHistory cutoff).Sound := by
  have hstored := hs.timeline.sublist (List.sublist_append_right h.pruned h.stored)
  have hever : (h.pruneHistory cutoff).ever = h.ever := by
    unfold ever LatencyHistory.pruneHistory
    rw [List.append_assoc, filter_append_filter_not hstored]
  refine ⟨hever ▸ hs.timeline, List.forall_mem_append.mpr ⟨hs.gone, fun row hrow => ?_⟩⟩
  have hlt : row.lastSeenAt < cutoff := by simpa using (List.mem_filter.mp hrow).2
  exact hlt.trans_le hcutoff

theorem Sound.collect (sample : CollectedLatency) :
    Sound { h with stored := recordLatency id h.stored h.now sample } := by
  have hstored := hs.timeline.sublist (List.sublist_append_right h.pruned h.stored)
  have hwritten := (latencyStep_recordLatency id hstored sample).append hs.gone
  exact ⟨hwritten.timeline hs.timeline, hs.gone⟩

theorem Sound.step (s : HistoryStep) : (h.step s).Sound := by
  unfold LatencyHistory.step
  cases s.event with
  | collect sample => exact (hs.wait s.wait).collect sample
  | sweep plan =>
    refine (hs.wait s.wait).pruneHistory ?_
    cases plan <;> simp [Plan.retentionDays, DAY_MS]

end

theorem sound_run (start : Int) (steps : List HistoryStep) : (run start steps).Sound := by
  have hstart : Sound ⟨start, [], []⟩ :=
    ⟨⟨.nil, List.forall_mem_nil _, List.forall_mem_nil _⟩, List.forall_mem_nil _⟩
  exact List.foldlRecOn steps _ hstart fun _ hsound step _ => hsound.step step

end LatencyHistory

/-- At any pass over any history, the rows that are left observe as much of a drop as all rows
that were ever written, exactly when no deleted row that ended behind the hide opened a window
that counts. -/
theorem observed_kept_iff (start : Int) (steps : List HistoryStep) (hiddenAt : Int) (days : Nat)
    (options : ObservedOptions) :
    observedSince (LatencyHistory.run start steps).stored hiddenAt days options =
      observedSince (LatencyHistory.run start steps).ever hiddenAt days options ↔
    ∀ before row next after,
      (LatencyHistory.run start steps).ever = before ++ row :: next :: after →
      before.length < (LatencyHistory.run start steps).pruned.length →
      hiddenAt ≤ row.lastSeenAt → ¬ Usable id .read options.ownOutages row next := by
  have hs := LatencyHistory.sound_run start steps
  have hstored := hs.timeline.sublist (List.sublist_append_right _ _)
  rw [observedSince_eq hstored, observedSince_eq hs.timeline]
  exact contributions_append_iff hs.timeline

/-- A drop hidden for 60 days on the free plan: readings 40 days apart, and a sweep on day 95. -/
def sweptHistory : List HistoryStep :=
  [⟨0, .collect ⟨100, 0, 1000, 0, 0⟩⟩, ⟨3456000000, .collect ⟨200, 0, 2000, 0, 0⟩⟩,
    ⟨3456000000, .collect ⟨300, 0, 3000, 0, 0⟩⟩, ⟨1296000000, .sweep .FREE⟩,
    ⟨0, .collect ⟨400, 0, 4000, 0, 0⟩⟩]

/-- The drop is still open on day 95. Its readings make 95 days, and those left 55. -/
theorem swept_observation_lost :
    outstayedWindow 0 60 (LatencyHistory.run 0 sweptHistory).now 0 = false ∧
    observedSince (LatencyHistory.run 0 sweptHistory).ever 0 60 ⟨3 / 2, 20, none, []⟩ =
      95 * DAY_MS ∧
    observedSince (LatencyHistory.run 0 sweptHistory).stored 0 60 ⟨3 / 2, 20, none, []⟩ =
      55 * DAY_MS := by
  decide +kernel

end Indexterity
