import Mathlib.Algebra.BigOperators.Ring.Finset
import Mathlib.Algebra.Order.BigOperators.Group.Finset
import Indexterity.Latency

/-!
# Member latency: totals over whichever members answered

`sumLatencyStats` of `mongo/collector.ts` under `windowsOf` of `analysis/observed.ts`. Every
member of a cluster counts for itself, and its counters only grow. A collect sums the counters
of the members that answer it, and the analysis differences those sums.

A sum falls short of all that the members have counted by the counters of the members that did
not answer. So a window is attributed what the members did in it, and besides what was missing
where it begins and no longer where it ends.
-/

namespace Indexterity

open Library

structure OpCounter where
  ops : Nat
  latency : Nat
deriving DecidableEq, Repr

structure CollectionLatency where
  reads : OpCounter
  writes : OpCounter
deriving DecidableEq, Repr

structure LatencyStatsDoc where
  host : String
  latencyStats : CollectionLatency
deriving DecidableEq, Repr

namespace CollectionLatency

def ops (latency : CollectionLatency) : LatencyMetric → Nat
  | .read => latency.reads.ops
  | .write => latency.writes.ops

def micros (latency : CollectionLatency) : LatencyMetric → Nat
  | .read => latency.reads.latency
  | .write => latency.writes.latency

def add (a b : CollectionLatency) : CollectionLatency :=
  ⟨⟨a.reads.ops + b.reads.ops, a.reads.latency + b.reads.latency⟩,
    ⟨a.writes.ops + b.writes.ops, a.writes.latency + b.writes.latency⟩⟩

end CollectionLatency

def sumLatencyStats (docs : List LatencyStatsDoc) : CollectionLatency :=
  let byHost := entries LatencyStatsDoc.host docs
  let sum (f : CollectionLatency → Nat) := (byHost.map fun doc => f doc.latencyStats).sum
  ⟨⟨sum fun l => l.reads.ops, sum fun l => l.reads.latency⟩,
    ⟨sum fun l => l.writes.ops, sum fun l => l.writes.latency⟩⟩

/-! ## Members -/

abbrev MemberTotals := String → CollectionLatency

/-- A reading: the sample that is stored, who answered, and what all members had counted. -/
structure MemberReading where
  sample : CollectedLatency
  answered : Finset String
  counters : MemberTotals

inductive MemberEvent where
  /-- A member serves operations. -/
  | work (host : String) (done : CollectionLatency)
  /-- These members answer, in this order; the primary answers twice. The tally of own reads is
  whatever it is. -/
  | collect (answering : List String) (selfReadOps : Int)

structure MemberStep where
  wait : Nat
  event : MemberEvent

structure MemberState where
  now : Int
  counters : MemberTotals
  rows : List (LatencyRow MemberReading)
  /-- What all members had counted at every collect, in order. -/
  collects : List (Int × MemberTotals)

def toSample (latency : CollectionLatency) (selfReadOps : Int) : CollectedLatency where
  readOps := latency.reads.ops
  selfReadOps := selfReadOps
  readLatencyMicros := latency.reads.latency
  writeOps := latency.writes.ops
  writeLatencyMicros := latency.writes.latency

section Run
variable (hosts : Finset String)

def readMembers (counters : MemberTotals) (answering : List String) (selfReadOps : Int) :
    MemberReading :=
  let answering := answering.filter fun host => decide (host ∈ hosts)
  { sample := toSample
      (sumLatencyStats (answering.map fun host => ⟨host, counters host⟩)) selfReadOps
    answered := answering.toFinset
    counters := counters }

def MemberState.step (s : MemberState) (step : MemberStep) : MemberState :=
  let s := { s with now := s.now + step.wait }
  match step.event with
  | .work host done =>
    { s with counters := Function.update s.counters host ((s.counters host).add done) }
  | .collect answering selfReadOps =>
    { s with
      rows := recordLatency MemberReading.sample s.rows s.now
        (readMembers hosts s.counters answering selfReadOps)
      collects := s.collects ++ [(s.now, s.counters)] }

def MemberState.run (start : Int) (counters : MemberTotals) (steps : List MemberStep) : MemberState :=
  steps.foldl (MemberState.step hosts) ⟨start, counters, [], []⟩

def served (counters : MemberTotals) (f : CollectionLatency → Nat) : Int :=
  ∑ host ∈ hosts, (f (counters host) : Int)

def MemberReading.missing (reading : MemberReading) (f : CollectionLatency → Nat) : Int :=
  ∑ host ∈ hosts \ reading.answered, (f (reading.counters host) : Int)

/-- The counters at the last collect before an instant, and at the start where there is none. -/
def MemberState.countersBefore (start : MemberTotals) (s : MemberState) (fromMs : Int) : MemberTotals :=
  ((s.collects.filter fun collect => decide (collect.1 < fromMs)).getLast?.map Prod.snd).getD start

def MemberState.performed (start : MemberTotals) (s : MemberState) (fromMs : Int)
    (f : CollectionLatency → Nat) : Int :=
  served hosts s.counters f - served hosts (s.countersBefore start fromMs) f

end Run

/-! ## What a sum leaves out -/

inductive Quantity where
  | ops
  | micros

def Quantity.of (quantity : Quantity) (metric : LatencyMetric) (latency : CollectionLatency) :
    Nat :=
  match quantity with
  | .ops => latency.ops metric
  | .micros => latency.micros metric

def Quantity.stored (quantity : Quantity) (metric : LatencyMetric) (sample : CollectedLatency) :
    Int :=
  match quantity with
  | .ops => sample.ops metric
  | .micros => sample.micros metric

def Quantity.ofWindow (quantity : Quantity) (window : Window) : Int :=
  match quantity with
  | .ops => window.ops
  | .micros => window.micros

section Missing
variable {hosts : Finset String}

theorem sum_answers (counters : MemberTotals) (answering : List String) (f : CollectionLatency → Nat) :
    ((entries LatencyStatsDoc.host (answering.map fun host => ⟨host, counters host⟩)).map
      fun doc => f doc.latencyStats).sum = ∑ host ∈ answering.toFinset, f (counters host) := by
  have hdocs : ∀ host doc, lookupLast LatencyStatsDoc.host
      (answering.map fun host => ⟨host, counters host⟩) host = some doc →
        f doc.latencyStats = f (counters host) := by
    intro host doc hdoc
    obtain ⟨hmem, hhost⟩ := lookupLast_some _ hdoc
    obtain ⟨h, -, rfl⟩ := List.mem_map.mp hmem
    exact congrArg (fun h => f (counters h)) hhost
  rw [sum_entries LatencyStatsDoc.host hdocs, List.map_map]
  simp [Function.comp_def]

theorem stored_readMembers (counters : MemberTotals) (answering : List String) (selfReadOps : Int)
    (quantity : Quantity) (metric : LatencyMetric) :
    quantity.stored metric (readMembers hosts counters answering selfReadOps).sample =
      served hosts counters (quantity.of metric) -
        (readMembers hosts counters answering selfReadOps).missing hosts (quantity.of metric) := by
  have hsubset : (answering.filter fun host => decide (host ∈ hosts)).toFinset ⊆ hosts := by
    intro host hhost
    simpa using (List.mem_filter.mp (List.mem_toFinset.mp hhost)).2
  have hstored : quantity.stored metric (readMembers hosts counters answering selfReadOps).sample =
      ((∑ host ∈ (answering.filter fun host => decide (host ∈ hosts)).toFinset,
        quantity.of metric (counters host) : Nat) : Int) := by
    rw [← sum_answers]
    cases quantity <;> cases metric <;> rfl
  rw [hstored, Nat.cast_sum, eq_sub_iff_add_eq, add_comm]
  exact Finset.sum_sdiff hsubset

end Missing

/-! ## Runs -/

def Grown (a b : MemberTotals) : Prop :=
  ∀ host (quantity : Quantity) metric, quantity.of metric (a host) ≤ quantity.of metric (b host)

theorem Grown.refl (a : MemberTotals) : Grown a a := fun _ _ _ => le_rfl

theorem Grown.trans {a b c : MemberTotals} (hab : Grown a b) (hbc : Grown b c) : Grown a c :=
  fun host quantity metric => (hab host quantity metric).trans (hbc host quantity metric)

theorem grown_work (counters : MemberTotals) (host : String) (done : CollectionLatency) :
    Grown counters (Function.update counters host ((counters host).add done)) := by
  intro other quantity metric
  by_cases heq : other = host
  · subst heq
    rw [Function.update_self]
    cases quantity <;> cases metric <;> exact Nat.le_add_right _ _
  · rw [Function.update_of_ne heq]

variable {s : MemberState}

section Runs
variable (hosts : Finset String) (start : MemberTotals)

/-- What a reading stores falls short of what was served by what is missing. -/
def MemberReading.Faithful (reading : MemberReading) : Prop :=
  ∀ (quantity : Quantity) metric, quantity.stored metric reading.sample =
    served hosts reading.counters (quantity.of metric) - reading.missing hosts (quantity.of metric)

structure MemberState.Sound (s : MemberState) : Prop where
  timeline : Timeline s.rows s.now
  faithful : ∀ row ∈ s.rows, row.sample.Faithful hosts
  started : Grown start s.counters
  grows : s.rows.Pairwise fun a b => Grown a.sample.counters b.sample.counters
  current : ∀ row ∈ s.rows, Grown start row.sample.counters ∧ Grown row.sample.counters s.counters
  logged : ∀ collect ∈ s.collects, Grown collect.2 s.counters
  before : ∀ collect ∈ s.collects, ∀ row ∈ s.rows, collect.1 < row.lastSeenAt →
    Grown collect.2 row.sample.counters

variable {hosts start}

section
variable (h : s.Sound hosts start)
include h

theorem MemberState.Sound.work {counters : MemberTotals} (hgrown : Grown s.counters counters) :
    Sound hosts start { s with counters := counters } where
  timeline := h.timeline
  faithful := h.faithful
  started := h.started.trans hgrown
  grows := h.grows
  current row hrow := ⟨(h.current row hrow).1, (h.current row hrow).2.trans hgrown⟩
  logged collect hcollect := (h.logged collect hcollect).trans hgrown
  before := h.before

theorem MemberState.Sound.collect (answering : List String) (selfReadOps : Int) :
    Sound hosts start { s with
      rows := recordLatency MemberReading.sample s.rows s.now
        (readMembers hosts s.counters answering selfReadOps)
      collects := s.collects ++ [(s.now, s.counters)] } := by
  have hstep := latencyStep_recordLatency MemberReading.sample h.timeline
    (readMembers hosts s.counters answering selfReadOps)
  have htimeline := hstep.timeline h.timeline
  have hnow := fun row hrow => not_lt.mpr (htimeline.past row hrow)
  have hshape := hstep.shape
  generalize recordLatency MemberReading.sample s.rows s.now
    (readMembers hosts s.counters answering selfReadOps) = written at *
  have hrow : ∀ row ∈ written, row ∈ s.rows ∨
      row.sample = readMembers hosts s.counters answering selfReadOps :=
    fun row hrow => hstep.mem hrow
  constructor
  · exact htimeline
  · intro row hmem
    rcases hrow row hmem with hold | hnew
    · exact h.faithful row hold
    · rw [hnew]
      exact stored_readMembers s.counters answering selfReadOps
  · exact h.started
  · rcases hshape with rfl | ⟨kept, last, rfl, hkept, hsample, -⟩
    · exact h.grows
    · refine List.pairwise_append.mpr ⟨h.grows.sublist hkept, List.pairwise_singleton _ _, ?_⟩
      intro a ha b hb
      rw [List.mem_singleton.mp hb, hsample]
      exact (h.current a (hkept.subset ha)).2
  · intro row hmem
    rcases hrow row hmem with hold | hnew
    · exact h.current row hold
    · rw [hnew]
      exact ⟨h.started, Grown.refl _⟩
  · refine List.forall_mem_append.mpr ⟨h.logged, ?_⟩
    intro collect hcollect
    rw [List.mem_singleton.mp hcollect]
    exact Grown.refl _
  · refine List.forall_mem_append.mpr ⟨fun collect hcollect row hmem hlt => ?_, ?_⟩
    · rcases hrow row hmem with hold | hnew
      · exact h.before collect hcollect row hold hlt
      · rw [hnew]
        exact h.logged collect hcollect
    · intro collect hcollect row hmem hlt
      rw [List.mem_singleton.mp hcollect] at hlt
      exact absurd hlt (hnow row hmem)

theorem MemberState.Sound.step (step : MemberStep) :
    (s.step hosts step).Sound hosts start := by
  have hwait : Sound hosts start { s with now := s.now + step.wait } :=
    { h with timeline := h.timeline.later (by simp) }
  unfold MemberState.step
  cases step.event with
  | work host done => exact hwait.work (grown_work _ host done)
  | collect answering selfReadOps => exact hwait.collect answering selfReadOps

end

theorem MemberState.sound_run (begin : Int) (steps : List MemberStep) :
    (MemberState.run hosts begin start steps).Sound hosts start := by
  have hstart : Sound hosts start ⟨begin, start, [], []⟩ :=
    ⟨⟨.nil, by simp, by simp⟩, by simp, Grown.refl _, .nil, by simp, by simp, by simp⟩
  exact List.foldlRecOn steps _ hstart fun _ hsound step _ => hsound.step step

end Runs

/-! ## What is attributed -/

section Attributed
variable (hosts : Finset String) (start : MemberTotals)

def MemberState.attributed (s : MemberState) (metric : LatencyMetric) (outages : List OwnOutage)
    (fromMs : Int) (quantity : Quantity) : Int :=
  let windows := windowsOf (s.rows.map (readingOf MemberReading.sample)) metric
  ((windowsSince outages fromMs windows).map quantity.ofWindow).sum

def MemberState.countedPairs (s : MemberState) (metric : LatencyMetric) (outages : List OwnOutage)
    (fromMs : Int) : List (LatencyRow MemberReading × LatencyRow MemberReading) :=
  (neighbours s.rows).filter fun p =>
    decide (Usable MemberReading.sample metric outages p.1 p.2 ∧ fromMs ≤ p.1.lastSeenAt)

/-- What the members that answer the end of a window and not its beginning had counted where it
begins, over all windows that count. -/
def MemberState.joined (s : MemberState) (metric : LatencyMetric) (outages : List OwnOutage)
    (fromMs : Int) (quantity : Quantity) : Int :=
  ((s.countedPairs metric outages fromMs).map fun p =>
    ∑ host ∈ (hosts \ p.1.sample.answered) ∩ p.2.sample.answered,
      (quantity.of metric (p.1.sample.counters host) : Int)).sum

/-- What the members that do not answer the end of a window have counted by then: all of it where
they answered its beginning, and what they did in the window where they did not. -/
def MemberState.unseen (s : MemberState) (metric : LatencyMetric) (outages : List OwnOutage)
    (fromMs : Int) (quantity : Quantity) : Int :=
  ((s.countedPairs metric outages fromMs).map fun p =>
    ∑ host ∈ hosts \ p.2.sample.answered, (quantity.of metric (p.2.sample.counters host) : Int) -
      ∑ host ∈ (hosts \ p.1.sample.answered) \ p.2.sample.answered,
        (quantity.of metric (p.1.sample.counters host) : Int)).sum

def MemberState.servedInside (s : MemberState) (metric : LatencyMetric) (outages : List OwnOutage)
    (fromMs : Int) (quantity : Quantity) : Int :=
  ((s.countedPairs metric outages fromMs).map fun p =>
    served hosts p.2.sample.counters (quantity.of metric) -
      served hosts p.1.sample.counters (quantity.of metric)).sum

/-- What all members did since the last collect before an instant and outside the windows that
count: ahead of the first reading, in the windows that are discarded and behind the last
reading. -/
def MemberState.servedOutside (s : MemberState) (metric : LatencyMetric) (outages : List OwnOutage)
    (fromMs : Int) (quantity : Quantity) : Int :=
  let did (a b : MemberTotals) :=
    served hosts b (quantity.of metric) - served hosts a (quantity.of metric)
  let readings := (s.rows.filter fun row => decide (fromMs ≤ row.lastSeenAt)).map fun row =>
    row.sample.counters
  let discarded := (neighbours s.rows).filter fun p =>
    decide (¬ Usable MemberReading.sample metric outages p.1 p.2 ∧ fromMs ≤ p.1.lastSeenAt)
  did (s.countersBefore start fromMs) (readings.head?.getD s.counters) +
    (discarded.map fun p => did p.1.sample.counters p.2.sample.counters).sum +
    did (readings.getLast?.getD s.counters) s.counters

variable {hosts start}

theorem Grown.served_le {a b : MemberTotals} (h : Grown a b) (quantity : Quantity)
    (metric : LatencyMetric) :
    served hosts a (quantity.of metric) ≤ served hosts b (quantity.of metric) :=
  Finset.sum_le_sum fun host _ => Int.ofNat_le.mpr (h host quantity metric)

theorem grown_countersBefore {fromMs : Int} {counters : MemberTotals} (hstart : Grown start counters)
    (hcollects : ∀ collect ∈ s.collects, collect.1 < fromMs → Grown collect.2 counters) :
    Grown (s.countersBefore start fromMs) counters := by
  unfold MemberState.countersBefore
  cases hlast : (s.collects.filter fun collect => decide (collect.1 < fromMs)).getLast? with
  | none => exact hstart
  | some collect =>
    obtain ⟨hmem, hlt⟩ := List.mem_filter.mp (List.mem_of_getLast? hlast)
    exact hcollects collect hmem (of_decide_eq_true hlt)

section
variable (h : s.Sound hosts start) (metric : LatencyMetric) (outages : List OwnOutage)
  (fromMs : Int) (quantity : Quantity)
include h

theorem attributed_eq :
    s.attributed metric outages fromMs quantity + s.unseen hosts metric outages fromMs quantity =
      s.servedInside hosts metric outages fromMs quantity +
        s.joined hosts metric outages fromMs quantity := by
  unfold MemberState.attributed windowsOf
  rw [sortedRuns_of_inOrder _ (inOrder_rows LatencyReading.toRun _ (fun _ => rfl) h.timeline),
    sum_windowsSince _ _ _ _ h.timeline.forward, sum_ite_zero]
  unfold MemberState.servedInside MemberState.joined MemberState.unseen MemberState.countedPairs
  rw [← List.sum_map_add, ← List.sum_map_add]
  refine congrArg List.sum (List.map_congr_left ?_)
  rintro ⟨row, next⟩ hp
  obtain ⟨before, after, hrows⟩ := mem_neighbours_iff.mp (List.mem_of_mem_filter hp)
  have hrow := h.faithful row (by simp [hrows]) quantity metric
  have hnext := h.faithful next (by simp [hrows]) quantity metric
  have hwindow : quantity.ofWindow (windowOf MemberReading.sample metric row next) =
      quantity.stored metric next.sample.sample - quantity.stored metric row.sample.sample := by
    cases quantity <;> rfl
  -- Who misses the beginning answers the end or misses it too.
  have hsplit := Finset.sum_inter_add_sum_sdiff (hosts \ row.sample.answered) next.sample.answered
    fun host => (quantity.of metric (row.sample.counters host) : Int)
  dsimp only [MemberReading.missing] at hrow hnext ⊢
  omega

theorem performed_eq :
    s.performed hosts start fromMs (quantity.of metric) =
      s.servedInside hosts metric outages fromMs quantity +
        s.servedOutside hosts start metric outages fromMs quantity := by
  have hlasts : s.rows.Pairwise fun a b => fromMs ≤ a.lastSeenAt → fromMs ≤ b.lastSeenAt := by
    refine (List.Pairwise.and_mem.mp h.timeline.ordered).imp ?_
    rintro a b ⟨-, hb, hab⟩ ha
    exact (ha.trans hab.le).trans (h.timeline.forward b hb)
  have hsum := sum_sub_neighbours
    (fun row : LatencyRow MemberReading => served hosts row.sample.counters (quantity.of metric))
    (fun row => fromMs ≤ row.lastSeenAt) hlasts (served hosts s.counters (quantity.of metric))
  have hread (o : Option (LatencyRow MemberReading)) :
      (o.map fun row => served hosts row.sample.counters (quantity.of metric)).getD
          (served hosts s.counters (quantity.of metric)) =
        served hosts ((o.map fun row => row.sample.counters).getD s.counters)
          (quantity.of metric) := by
    cases o <;> rfl
  have hsplit := sum_filter_add_filter_not (fun p => Usable MemberReading.sample metric outages p.1 p.2)
    (fun p : LatencyRow MemberReading × LatencyRow MemberReading => fromMs ≤ p.1.lastSeenAt)
    (fun p => served hosts p.2.sample.counters (quantity.of metric) -
      served hosts p.1.sample.counters (quantity.of metric)) (neighbours s.rows)
  rw [hread, hread] at hsum
  unfold MemberState.performed MemberState.servedInside MemberState.servedOutside
    MemberState.countedPairs
  dsimp only
  rw [List.head?_map, List.getLast?_map]
  omega

theorem servedOutside_nonneg : 0 ≤ s.servedOutside hosts start metric outages fromMs quantity := by
  unfold MemberState.servedOutside
  dsimp only
  rw [List.head?_map, List.getLast?_map]
  refine add_nonneg (add_nonneg (sub_nonneg.mpr ?_) ?_) (sub_nonneg.mpr ?_)
  · refine Grown.served_le ?_ quantity metric
    cases hfirst : (s.rows.filter fun row => decide (fromMs ≤ row.lastSeenAt)).head? with
    | none => exact grown_countersBefore h.started fun collect hmem _ => h.logged collect hmem
    | some row =>
      obtain ⟨hrow, hfrom⟩ := List.mem_filter.mp (List.mem_of_mem_head? hfirst)
      exact grown_countersBefore (h.current row hrow).1 fun collect hmem hlt =>
        h.before collect hmem row hrow (hlt.trans_le (of_decide_eq_true hfrom))
  · refine List.sum_nonneg (List.forall_mem_map.mpr fun p hp => sub_nonneg.mpr ?_)
    have hgrown := rel_of_mem_neighbours h.grows (List.mem_of_mem_filter hp)
    exact hgrown.served_le quantity metric
  · refine Grown.served_le ?_ quantity metric
    cases hlast : (s.rows.filter fun row => decide (fromMs ≤ row.lastSeenAt)).getLast? with
    | none => exact Grown.refl _
    | some row => exact (h.current row (List.mem_filter.mp (List.mem_of_getLast? hlast)).1).2

theorem unseen_nonneg : 0 ≤ s.unseen hosts metric outages fromMs quantity := by
  refine List.sum_nonneg (List.forall_mem_map.mpr fun p hp => sub_nonneg.mpr ?_)
  have hgrown := rel_of_mem_neighbours h.grows (List.mem_of_mem_filter hp)
  refine (Finset.sum_le_sum fun host _ => Int.ofNat_le.mpr (hgrown host quantity metric)).trans ?_
  exact Finset.sum_le_sum_of_subset_of_nonneg
    (Finset.sdiff_subset_sdiff Finset.sdiff_subset subset_rfl) fun _ _ _ => Int.natCast_nonneg _

end

theorem joined_eq_zero {metric : LatencyMetric} {outages : List OwnOutage} {fromMs : Int}
    (h : ∀ p ∈ s.countedPairs metric outages fromMs, p.2.sample.answered ⊆ p.1.sample.answered)
    (quantity : Quantity) : s.joined hosts metric outages fromMs quantity = 0 := by
  refine List.sum_eq_zero (List.forall_mem_map.mpr fun p hp => ?_)
  have hempty : (hosts \ p.1.sample.answered) ∩ p.2.sample.answered = ∅ :=
    Finset.disjoint_iff_inter_eq_empty.mp (Finset.sdiff_disjoint.mono_right (h p hp))
  rw [hempty, Finset.sum_empty]

end Attributed

/-- What the windows behind an instant are attributed stays within what all members did since
the last collect before it, exactly when the history of the members that join in those windows
is no more than what stays unseen in them and what is done outside them; so it is where no
member joins. -/
theorem attributed_within_iff (hosts : Finset String) (start : MemberTotals) (begin : Int)
    (steps : List MemberStep) (metric : LatencyMetric) (outages : List OwnOutage) (fromMs : Int) :
    ((∀ quantity,
      (MemberState.run hosts begin start steps).attributed metric outages fromMs quantity ≤
        (MemberState.run hosts begin start steps).performed hosts start fromMs
          (quantity.of metric)) ↔
      ∀ quantity,
        (MemberState.run hosts begin start steps).joined hosts metric outages fromMs quantity ≤
          (MemberState.run hosts begin start steps).unseen hosts metric outages fromMs quantity +
            (MemberState.run hosts begin start steps).servedOutside hosts start metric outages
              fromMs quantity) ∧
    ((∀ p ∈ (MemberState.run hosts begin start steps).countedPairs metric outages fromMs,
        p.2.sample.answered ⊆ p.1.sample.answered) →
      ∀ quantity,
        (MemberState.run hosts begin start steps).attributed metric outages fromMs quantity ≤
          (MemberState.run hosts begin start steps).performed hosts start fromMs
            (quantity.of metric)) := by
  have h : (MemberState.run hosts begin start steps).Sound hosts start :=
    MemberState.sound_run begin steps
  generalize MemberState.run hosts begin start steps = s at h ⊢
  have hiff (quantity : Quantity) : s.attributed metric outages fromMs quantity ≤
      s.performed hosts start fromMs (quantity.of metric) ↔
        s.joined hosts metric outages fromMs quantity ≤
          s.unseen hosts metric outages fromMs quantity +
            s.servedOutside hosts start metric outages fromMs quantity := by
    have hattributed := attributed_eq h metric outages fromMs quantity
    rw [performed_eq h metric outages]
    omega
  refine ⟨forall_congr' hiff, fun hsteady quantity => (hiff quantity).mpr ?_⟩
  rw [joined_eq_zero hsteady]
  exact add_nonneg (unseen_nonneg h metric outages fromMs quantity)
    (servedOutside_nonneg h metric outages fromMs quantity)

/-- Two members, of which the second has served 1000 reads. It answers the first collect, is
missing at the second and answers the third; in between the first member serves 10 reads. -/
def returningMember : List MemberStep :=
  [⟨0, .collect ["a", "b"] 0⟩, ⟨3600000, .collect ["a"] 0⟩,
    ⟨0, .work "a" ⟨⟨10, 500⟩, ⟨0, 0⟩⟩⟩, ⟨3600000, .collect ["a", "b"] 0⟩]

def servedBefore : MemberTotals := fun host =>
  if host = "b" then ⟨⟨1000, 50000⟩, ⟨0, 0⟩⟩ else ⟨⟨0, 0⟩, ⟨0, 0⟩⟩

/-- The members did 10 reads; the window behind the second collect is attributed 1010. -/
theorem returning_member_attributed :
    (MemberState.run {"a", "b"} 0 servedBefore returningMember).attributed .read [] 3600000 .ops =
      1010 ∧
    (MemberState.run {"a", "b"} 0 servedBefore returningMember).performed {"a", "b"} servedBefore
      3600000 (Quantity.ops.of .read) = 10 := by
  decide

end Indexterity
