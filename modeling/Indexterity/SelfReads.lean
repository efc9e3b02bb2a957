import Indexterity.Activity
import Indexterity.MemberLatency

/-!
# Own reads: the tally against the counters

`mongo/self-reads.ts` and the latency half of `collectSnapshots`, under `foldActivity`. A
collection that no client reads is still read by the product that measures it. Every metadata
read raises the counter of the member that serves it, and the tally of the process that issued
it; a stored reading has the sum of the counters of the members that answered, and the tally.

The sum falls short of all that was served by what it leaves out, and the tally by what was lost
to it: the reads of processes that ended, and those whose answer did not arrive. An interval is
taken for active where what is lost grew by more than what is left out.
-/

namespace Indexterity

open Library

def READS_PER_COLL_STATS_LATENCY : Nat := 1

/-- A metadata read that a member serves, as so many reads. Where its answer does not arrive it
is not added to the tally. -/
structure OwnRead where
  host : String
  cost : Nat
  acknowledged : Bool

inductive PassRead where
  | own (read : OwnRead)
  /-- `readLatencyStats`: the document of the member is part of the sum. -/
  | latency (host : String)

def PassRead.host : PassRead → String
  | .own read => read.host
  | .latency host => host

/-- The counters of all members, what the tally holds of them, and what no tally holds. -/
structure ReadTally where
  counters : MemberTotals
  held : Nat
  lost : Nat

def CollectionLatency.read (latency : CollectionLatency) (cost : Nat) : CollectionLatency :=
  latency.add ⟨⟨cost, 0⟩, ⟨0, 0⟩⟩

def ReadTally.ownRead (t : ReadTally) (read : OwnRead) : ReadTally where
  counters := Function.update t.counters read.host ((t.counters read.host).read read.cost)
  held := if read.acknowledged then t.held + read.cost else t.held
  lost := if read.acknowledged then t.lost else t.lost + read.cost

def ReadTally.others (t : ReadTally) (host : String) (readLatency : Nat) (writes : OpCounter) :
    ReadTally :=
  { t with
    counters := Function.update t.counters host
      ((t.counters host).add ⟨⟨0, readLatency⟩, writes⟩) }

def ReadTally.restart (t : ReadTally) : ReadTally :=
  { t with held := 0, lost := t.lost + t.held }

/-- A pass so far: the documents it has, and what each member served that none of them report. -/
structure ReadPass where
  tally : ReadTally
  unreported : String → Nat
  docs : List LatencyStatsDoc

/-- A reading: the sample that is stored, and what it and the tally miss of the reads served. -/
structure SelfReading where
  sample : CollectedLatency
  leftOut : Nat
  lost : Nat
deriving DecidableEq

inductive SelfReadEvent where
  | ownRead (read : OwnRead)
  | others (host : String) (readLatency : Nat) (writes : OpCounter)
  /-- The collecting process ends and another starts, or the tally of the namespace is evicted. -/
  | restart
  /-- The reads of a pass up to where the tally is read; those of the latency of members that
  answer are among them, in the order of their documents. -/
  | collect (reads : List PassRead)

structure SelfReadStep where
  wait : Nat
  event : SelfReadEvent

structure SelfReadState where
  now : Int
  tally : ReadTally
  rows : List (LatencyRow SelfReading)

section Run
-- whether the counters that a reading reports count that reading
variable (hosts : Finset String) (countsItself : Bool)

def ReadPass.read (p : ReadPass) : PassRead → ReadPass
  | .own read =>
    { p with
      tally := p.tally.ownRead read
      unreported := Function.update p.unreported read.host (p.unreported read.host + read.cost) }
  | .latency host =>
    let reported := if countsItself then READS_PER_COLL_STATS_LATENCY else 0
    { tally := p.tally.ownRead ⟨host, READS_PER_COLL_STATS_LATENCY, true⟩
      unreported := Function.update p.unreported host (READS_PER_COLL_STATS_LATENCY - reported)
      docs := p.docs ++ [⟨host, (p.tally.counters host).read reported⟩] }

def readsServed (counters : MemberTotals) : Nat := ∑ host ∈ hosts, (counters host).reads.ops

def collectReads (t : ReadTally) (reads : List PassRead) : ReadPass :=
  (reads.filter fun read => decide (read.host ∈ hosts)).foldl (ReadPass.read countsItself)
    ⟨t, fun host => (t.counters host).reads.ops, []⟩

def ReadPass.reading (p : ReadPass) : SelfReading where
  sample := toSample (sumLatencyStats p.docs) p.tally.held
  leftOut := ∑ host ∈ hosts, p.unreported host
  lost := p.tally.lost

def SelfReadState.step (s : SelfReadState) (step : SelfReadStep) : SelfReadState :=
  let s := { s with now := s.now + step.wait }
  match step.event with
  | .ownRead read => if read.host ∈ hosts then { s with tally := s.tally.ownRead read } else s
  | .others host readLatency writes =>
    { s with tally := s.tally.others host readLatency writes }
  | .restart => { s with tally := s.tally.restart }
  | .collect reads =>
    let pass := collectReads hosts countsItself s.tally reads
    { s with
      tally := pass.tally
      rows := recordLatency SelfReading.sample s.rows s.now (pass.reading hosts) }

/-- A process starts, with all that the members have served before lost to it. -/
def SelfReadState.run (start : Int) (counters : MemberTotals) (steps : List SelfReadStep) :
    SelfReadState :=
  steps.foldl (SelfReadState.step hosts countsItself)
    ⟨start, ⟨counters, 0, readsServed hosts counters⟩, []⟩

end Run

def activityPointOf (row : LatencyRow SelfReading) : ActivityPoint where
  toRun := row.run
  readOps := row.sample.sample.readOps
  selfReadOps := row.sample.sample.selfReadOps

/-! ## One pass -/

section Pass
variable {hosts : Finset String} {countsItself : Bool}

def ReadTally.Balanced (hosts : Finset String) (t : ReadTally) : Prop :=
  readsServed hosts t.counters = t.held + t.lost

theorem readsServed_update {counters : MemberTotals} {host : String} {latency : CollectionLatency}
    {cost : Nat} (hops : latency.reads.ops = (counters host).reads.ops + cost)
    (hhost : host ∈ hosts) :
    readsServed hosts (Function.update counters host latency) =
      readsServed hosts counters + cost := by
  have hread : ∀ h ∈ hosts, (Function.update counters host latency h).reads.ops =
      (counters h).reads.ops + if h = host then cost else 0 := by
    intro h _
    by_cases heq : h = host
    · subst heq
      rw [Function.update_self, if_pos rfl, hops]
    · rw [Function.update_of_ne heq, if_neg heq, add_zero]
  rw [readsServed, Finset.sum_congr rfl hread, Finset.sum_add_distrib, Finset.sum_ite_eq',
    if_pos hhost]
  rfl

section
variable {t : ReadTally} (h : t.Balanced hosts)
include h

theorem ReadTally.Balanced.ownRead {read : OwnRead} (hhost : read.host ∈ hosts) :
    (t.ownRead read).Balanced hosts := by
  unfold ReadTally.Balanced ReadTally.ownRead at *
  rw [readsServed_update rfl hhost]
  cases read.acknowledged <;> simp <;> omega

theorem ReadTally.Balanced.others (host : String) (readLatency : Nat) (writes : OpCounter) :
    (t.others host readLatency writes).Balanced hosts := by
  refine (Finset.sum_congr rfl fun other _ => ?_).trans h
  unfold ReadTally.others
  dsimp only
  by_cases heq : other = host
  · subst heq
    rw [Function.update_self]
    rfl
  · rw [Function.update_of_ne heq]

theorem ReadTally.Balanced.restart :
    t.restart.Balanced hosts := by
  unfold ReadTally.Balanced ReadTally.restart at *
  dsimp only
  omega

end

def reportedOf (docs : List LatencyStatsDoc) (host : String) : Nat :=
  (lookupLast LatencyStatsDoc.host docs host).elim 0 fun doc => doc.latencyStats.reads.ops

structure ReadPass.Sound (hosts : Finset String) (p : ReadPass) : Prop where
  balanced : p.tally.Balanced hosts
  reported : ∀ host, reportedOf p.docs host + p.unreported host =
    (p.tally.counters host).reads.ops
  within : ∀ doc ∈ p.docs, doc.host ∈ hosts

theorem ReadPass.Sound.read {p : ReadPass} (h : p.Sound hosts) {read : PassRead}
    (hhost : read.host ∈ hosts) : (p.read countsItself read).Sound hosts := by
  cases read with
  | own read =>
    refine ⟨h.balanced.ownRead hhost, fun host => ?_, h.within⟩
    have hreported := h.reported host
    unfold ReadPass.read ReadTally.ownRead
    dsimp only
    by_cases heq : host = read.host
    · subst heq
      rw [Function.update_self, Function.update_self, ← add_assoc, hreported]
      rfl
    · rw [Function.update_of_ne heq, Function.update_of_ne heq, hreported]
  | latency host =>
    refine ⟨h.balanced.ownRead hhost, fun other => ?_, List.forall_mem_append.mpr
      ⟨h.within, fun doc hdoc => List.mem_singleton.mp hdoc ▸ hhost⟩⟩
    have hreported := h.reported other
    unfold ReadPass.read ReadTally.ownRead reportedOf at *
    dsimp only at *
    rw [lookupLast_append, lookupLast_singleton]
    by_cases heq : other = host
    · subst heq
      rw [Function.update_self, Function.update_self, if_pos rfl]
      cases countsItself <;> rfl
    · rw [Function.update_of_ne heq, Function.update_of_ne heq, if_neg (Ne.symm heq)]
      exact hreported

theorem sound_collectReads {t : ReadTally} (h : t.Balanced hosts) (reads : List PassRead) :
    (collectReads hosts countsItself t reads).Sound hosts := by
  apply List.foldlRecOn (motive := fun pass : ReadPass => pass.Sound hosts)
  · exact ⟨h, fun host => Nat.zero_add _, nofun⟩
  · intro pass hpass read hread
    exact hpass.read (by simpa using (List.mem_filter.mp hread).2)

theorem readOps_sumLatencyStats {docs : List LatencyStatsDoc} (h : ∀ doc ∈ docs, doc.host ∈ hosts) :
    (sumLatencyStats docs).reads.ops = ∑ host ∈ hosts, reportedOf docs host := by
  have hsubset : (docs.map LatencyStatsDoc.host).toFinset ⊆ hosts := by
    intro host hhost
    obtain ⟨doc, hdoc, rfl⟩ := List.mem_map.mp (List.mem_toFinset.mp hhost)
    exact h doc hdoc
  have hsum : (sumLatencyStats docs).reads.ops =
      ∑ host ∈ (docs.map LatencyStatsDoc.host).toFinset, reportedOf docs host :=
    sum_entries LatencyStatsDoc.host fun host doc hdoc => by rw [reportedOf, hdoc]; rfl
  rw [hsum]
  refine Finset.sum_subset hsubset fun host _ hnot => ?_
  have hnone : lookupLast LatencyStatsDoc.host docs host = none := by
    cases hdoc : lookupLast LatencyStatsDoc.host docs host with
    | none => rfl
    | some doc =>
      obtain ⟨hmem, hhost⟩ := lookupLast_some _ hdoc
      exact absurd (List.mem_toFinset.mpr (List.mem_map.mpr ⟨doc, hmem, hhost⟩)) hnot
  rw [reportedOf, hnone]
  rfl

/-- Past the tally a sum counts what is lost, less what it leaves out itself. -/
def SelfReading.Faithful (reading : SelfReading) : Prop :=
  reading.sample.readOps - reading.sample.selfReadOps = reading.lost - reading.leftOut

theorem ReadPass.Sound.faithful {p : ReadPass} (h : p.Sound hosts) :
    (p.reading hosts).Faithful := by
  have hserved : (sumLatencyStats p.docs).reads.ops + ∑ host ∈ hosts, p.unreported host =
      p.tally.held + p.tally.lost := by
    rw [readOps_sumLatencyStats h.within, ← Finset.sum_add_distrib,
      Finset.sum_congr rfl fun host _ => h.reported host]
    exact h.balanced
  unfold SelfReading.Faithful ReadPass.reading toSample
  dsimp only
  omega

end Pass

/-! ## Runs -/

section Runs
variable {hosts : Finset String} {countsItself : Bool}

structure SelfReadState.Sound (hosts : Finset String) (s : SelfReadState) : Prop where
  balanced : s.tally.Balanced hosts
  timeline : Timeline s.rows s.now
  faithful : ∀ row ∈ s.rows, row.sample.Faithful

theorem SelfReadState.Sound.step {s : SelfReadState} (h : s.Sound hosts) (step : SelfReadStep) :
    (s.step hosts countsItself step).Sound hosts := by
  have htimeline : Timeline s.rows (s.now + step.wait) := h.timeline.later (by simp)
  unfold SelfReadState.step
  cases step.event with
  | ownRead read =>
    dsimp only
    split
    · rename_i hhost
      exact ⟨h.balanced.ownRead hhost, htimeline, h.faithful⟩
    · exact ⟨h.balanced, htimeline, h.faithful⟩
  | others host readLatency writes =>
    exact ⟨h.balanced.others host readLatency writes, htimeline, h.faithful⟩
  | restart => exact ⟨h.balanced.restart, htimeline, h.faithful⟩
  | collect reads =>
    have hpass := @sound_collectReads hosts countsItself _ h.balanced reads
    have hwritten := latencyStep_recordLatency SelfReading.sample htimeline
      ((collectReads hosts countsItself s.tally reads).reading hosts)
    refine ⟨hpass.balanced, hwritten.timeline htimeline, fun row hrow => ?_⟩
    rcases hwritten.mem hrow with hold | hnew
    · exact h.faithful row hold
    · rw [hnew]
      exact hpass.faithful

theorem SelfReadState.sound_run (start : Int) (counters : MemberTotals) (steps : List SelfReadStep) :
    (SelfReadState.run hosts countsItself start counters steps).Sound hosts := by
  have hstart : SelfReadState.Sound hosts
      ⟨start, ⟨counters, 0, readsServed hosts counters⟩, []⟩ :=
    ⟨(Nat.zero_add _).symm, ⟨.nil, by simp, by simp⟩, by simp⟩
  exact List.foldlRecOn steps _ hstart fun _ hsound step _ => hsound.step step

end Runs

/-! ## Active time -/

theorem spaced_points {rows : List (LatencyRow SelfReading)} {now : Int}
    (h : Timeline rows now) : Spaced (rows.map activityPointOf) := by
  refine List.pairwise_map.mpr ((List.Pairwise.and_mem.mp h.ordered).imp ?_)
  rintro a b ⟨ha, -, hlt⟩
  have hend : (activityPointOf a).spanEnd = a.lastSeenAt := max_eq_right (h.forward a ha)
  rw [hend]
  exact hlt

theorem readsMoved_iff {row next : LatencyRow SelfReading} (hrow : row.sample.Faithful)
    (hnext : next.sample.Faithful) :
    readsMoved (activityPointOf row) (activityPointOf next) ↔
      row.sample.sample.selfReadOps ≤ next.sample.sample.selfReadOps ∧
        (row.sample.lost : Int) - row.sample.leftOut < next.sample.lost - next.sample.leftOut := by
  unfold SelfReading.Faithful at hrow hnext
  unfold readsMoved activityPointOf
  dsimp only
  omega

/-- A collection that no client reads has no active time exactly when, from every stored reading
to the next one, the tally started again lower than it was or the reads lost to it did not grow
by more than those left out of the sum. -/
theorem unread_collection_idle_iff (hosts : Finset String) (countsItself : Bool) (start : Int)
    (counters : MemberTotals) (steps : List SelfReadStep) :
    let s := SelfReadState.run hosts countsItself start counters steps
    (foldActivity (s.rows.map activityPointOf)).activeMs = 0 ↔
      ∀ before row next after, s.rows = before ++ row :: next :: after →
        next.sample.sample.selfReadOps < row.sample.sample.selfReadOps ∨
          next.sample.lost + row.sample.leftOut ≤ row.sample.lost + next.sample.leftOut := by
  intro s
  have hsound : s.Sound hosts := SelfReadState.sound_run start counters steps
  have hmoved {row next : LatencyRow SelfReading} (hp : (row, next) ∈ neighbours s.rows) :
      ¬ readsMoved (activityPointOf row) (activityPointOf next) ↔
        next.sample.sample.selfReadOps < row.sample.sample.selfReadOps ∨
          next.sample.lost + row.sample.leftOut ≤ row.sample.lost + next.sample.leftOut := by
    obtain ⟨hrow, hnext⟩ := mem_of_mem_neighbours hp
    rw [readsMoved_iff (hsound.faithful row hrow) (hsound.faithful next hnext)]
    omega
  rw [foldActivity_idle_iff (inOrder_rows ActivityPoint.toRun _ (fun _ => rfl) hsound.timeline)
    (spaced_points hsound.timeline), neighbours_map, List.forall_mem_map]
  constructor
  · intro h before row next after hrows
    have hp : (row, next) ∈ neighbours s.rows := mem_neighbours_iff.mpr ⟨before, after, hrows⟩
    exact (hmoved hp).mp (h _ hp)
  · rintro h ⟨row, next⟩ hp
    obtain ⟨before, after, hrows⟩ := mem_neighbours_iff.mp hp
    exact (hmoved hp).mpr (h before row next after hrows)

/-- A process that restarts, and has read more than the one before it when it collects; and a
member that does not answer one collect, and answers the next. -/
theorem unread_collection_active :
    let collect (hosts : List String) : SelfReadEvent := .collect (hosts.map .latency)
    let activeMs (steps : List SelfReadStep) :=
      (foldActivity ((SelfReadState.run {"a", "b"} true 0 (fun _ => ⟨⟨0, 0⟩, ⟨0, 0⟩⟩)
        steps).rows.map activityPointOf)).activeMs
    activeMs [⟨0, collect ["a", "a", "b"]⟩, ⟨0, .restart⟩, ⟨3600000, .ownRead ⟨"a", 2, true⟩⟩,
      ⟨0, collect ["a", "a", "b"]⟩] = 3600000 ∧
    activeMs [⟨0, collect ["a", "a", "b"]⟩, ⟨3600000, collect ["a", "a"]⟩,
      ⟨3600000, collect ["a", "a", "b"]⟩] = 3600000 := by
  decide +kernel

end Indexterity
