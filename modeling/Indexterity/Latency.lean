import Indexterity.Collect
import Indexterity.Observed
import Indexterity.Library.Newest
import Indexterity.Library.Spans

/-!
# Latency: the writer of a collection's readings

`recordLatency` of `jobs/collect.ts`, for the rows of one namespace. It follows the rule of the
index rows, except that an extended run carries the reading of the last collect instead of
keeping that of the first. A sample may carry more than the columns; what the writer reads of
it is its view.

By a clock that does not step back a namespace's rows lie one behind the other, and a collect
either extends the last of them, adds one behind it, or is rejected by the exclusion constraint.
-/

namespace Indexterity

open Library

structure CollectedLatency where
  readOps : Int
  selfReadOps : Int
  readLatencyMicros : Int
  writeOps : Int
  writeLatencyMicros : Int
deriving DecidableEq, Repr

/-- The counters that move only when somebody else touches the collection. -/
def latencyFingerprint (sample : CollectedLatency) : String :=
  String.intercalate "\x00" [toString (sample.readOps - sample.selfReadOps),
    toString sample.writeOps]

/-- A row of `latency_samples`. -/
structure LatencyRow (σ : Type) where
  capturedAt : Int
  lastSeenAt : Int
  observations : Int
  maxGapMs : Int
  sample : σ
deriving DecidableEq, Repr

namespace LatencyRow

variable {σ : Type}

def span (row : LatencyRow σ) : Int × Int := (row.capturedAt, row.lastSeenAt)

def inserted (now : Int) (sample : σ) : LatencyRow σ := ⟨now, now, 1, 0, sample⟩

def extended (row : LatencyRow σ) (now : Int) (sample : σ) : LatencyRow σ where
  capturedAt := row.capturedAt
  lastSeenAt := now
  observations := row.observations + 1
  maxGapMs := max row.maxGapMs (now - row.lastSeenAt)
  sample := sample

def run (row : LatencyRow σ) : Run where
  capturedAt := some row.capturedAt
  lastSeenAt := some row.lastSeenAt
  observations := some row.observations
  maxGapMs := some row.maxGapMs

end LatencyRow

section Writer
variable {σ : Type} (view : σ → CollectedLatency)

def extendsLatency (row : LatencyRow σ) (now : Int) (sample : σ) : Bool :=
  extendsRun (some ⟨latencyFingerprint (view row.sample), row.lastSeenAt⟩)
    (latencyFingerprint (view sample)) now

def writeLatency (rows : List (LatencyRow σ)) (now : Int) (sample : σ) : List (LatencyRow σ) :=
  match splitNewestBy LatencyRow.capturedAt rows with
  | none => rows ++ [.inserted now sample]
  | some (older, run, rest) =>
    if extendsLatency view run now sample then older ++ run.extended now sample :: rest
    else rows ++ [.inserted now sample]

def recordLatency (rows : List (LatencyRow σ)) (now : Int) (sample : σ) : List (LatencyRow σ) :=
  let written := writeLatency view rows now sample
  if Apart (written.map LatencyRow.span) then written else rows

end Writer

/-! ## Rows in the order of time -/

variable {now : Int}

section Order
variable {σ : Type} {view : σ → CollectedLatency}

structure Timeline (rows : List (LatencyRow σ)) (now : Int) : Prop where
  ordered : rows.Pairwise fun a b => a.lastSeenAt < b.capturedAt
  forward : ∀ row ∈ rows, row.capturedAt ≤ row.lastSeenAt
  past : ∀ row ∈ rows, row.lastSeenAt ≤ now

variable {rows : List (LatencyRow σ)} {row : LatencyRow σ}

theorem Timeline.later {later : Int} (h : Timeline rows now) (hlater : now ≤ later) :
    Timeline rows later :=
  ⟨h.ordered, h.forward, fun row hrow => (h.past row hrow).trans hlater⟩

theorem Timeline.sublist {part : List (LatencyRow σ)} (h : Timeline rows now)
    (hpart : part.Sublist rows) : Timeline part now :=
  ⟨h.ordered.sublist hpart, fun row hrow => h.forward row (hpart.subset hrow),
    fun row hrow => h.past row (hpart.subset hrow)⟩

theorem Timeline.concat {later : Int} (h : Timeline rows now)
    (hbehind : ∀ r ∈ rows, r.lastSeenAt < row.capturedAt) (hrow : row.capturedAt ≤ row.lastSeenAt)
    (hlater : row.lastSeenAt ≤ later) (hnow : now ≤ later) : Timeline (rows ++ [row]) later where
  ordered := List.pairwise_append.mpr ⟨h.ordered, List.pairwise_singleton _ _,
    fun r hr s hs => List.mem_singleton.mp hs ▸ hbehind r hr⟩
  forward := List.forall_mem_append.mpr ⟨h.forward, by simpa using hrow⟩
  past := List.forall_mem_append.mpr
    ⟨fun r hr => (h.past r hr).trans hnow, by simpa using hlater⟩

inductive LatencyStep (view : σ → CollectedLatency) (rows : List (LatencyRow σ)) (now : Int)
    (sample : σ) : List (LatencyRow σ) → Prop
  | extended (older : List (LatencyRow σ)) (run : LatencyRow σ) :
      rows = older ++ [run] → extendsLatency view run now sample = true →
        LatencyStep view rows now sample (older ++ [run.extended now sample])
  | inserted : (∀ row ∈ rows, row.lastSeenAt < now) →
      LatencyStep view rows now sample (rows ++ [.inserted now sample])
  | rejected : LatencyStep view rows now sample rows

variable {sample : σ}

theorem Timeline.lt_of_apart (h : Timeline rows now)
    (hapart : Apart ((rows ++ [LatencyRow.inserted now sample]).map LatencyRow.span))
    (hrow : row ∈ rows) : row.lastSeenAt < now := by
  rw [List.map_append, List.map_singleton, apart_concat] at hapart
  have hmeets := hapart.2 _ (List.mem_map_of_mem hrow)
  exact lt_of_not_meets hmeets le_rfl ((h.forward row hrow).trans (h.past row hrow))

theorem Timeline.splitNewest {older : List (LatencyRow σ)} {run : LatencyRow σ}
    (h : Timeline (older ++ [run]) now) :
    splitNewestBy LatencyRow.capturedAt (older ++ [run]) = some (older, run, []) := by
  refine splitNewestBy_concat fun row hrow => ?_
  have hlt := (List.pairwise_append.mp h.ordered).2.2 row hrow run (List.mem_singleton_self run)
  exact (h.forward row (List.mem_append_left _ hrow)).trans hlt.le

theorem latencyStep_recordLatency (view : σ → CollectedLatency) (h : Timeline rows now)
    (sample : σ) : LatencyStep view rows now sample (recordLatency view rows now sample) := by
  unfold recordLatency
  dsimp only
  split
  · rename_i hapart
    rcases List.eq_nil_or_concat rows with rfl | ⟨older, run, hrows⟩
    · exact .inserted nofun
    · rw [List.concat_eq_append] at hrows
      have hsplit := (hrows ▸ h).splitNewest
      rw [← hrows] at hsplit
      unfold writeLatency at hapart ⊢
      rw [hsplit] at hapart ⊢
      dsimp only at hapart ⊢
      split at hapart
      · rename_i hextends
        rw [if_pos hextends]
        exact .extended older run hrows hextends
      · rename_i hextends
        rw [if_neg hextends]
        exact .inserted fun row hrow => h.lt_of_apart hapart hrow
  · exact .rejected

theorem extendsLatency_iff :
    extendsLatency view row now sample = true ↔
      latencyFingerprint (view row.sample) = latencyFingerprint (view sample) ∧
        row.lastSeenAt ≤ now ∧ now - row.lastSeenAt ≤ MAX_GAP_MS := by
  simp only [extendsLatency, extendsRun, Bool.and_eq_true, decide_eq_true_eq, and_assoc,
    sub_nonneg]

variable {written : List (LatencyRow σ)}

theorem LatencyStep.timeline (hwritten : LatencyStep view rows now sample written)
    (h : Timeline rows now) : Timeline written now := by
  cases hwritten with
  | extended older run hrows hextends =>
    subst hrows
    have hlast := List.mem_append_right older (List.mem_singleton_self run)
    have hnow := (extendsLatency_iff.mp hextends).2.1
    exact (h.sublist (List.sublist_append_left older [run])).concat
      (fun row hrow => (List.pairwise_append.mp h.ordered).2.2 row hrow run
        (List.mem_singleton_self run))
      ((h.forward run hlast).trans hnow) le_rfl le_rfl
  | inserted hbehind => exact h.concat hbehind le_rfl le_rfl le_rfl
  | rejected => exact h

theorem LatencyStep.append {first : List (LatencyRow σ)}
    (hfirst : ∀ row ∈ first, row.lastSeenAt < now)
    (hwritten : LatencyStep view rows now sample written) :
    LatencyStep view (first ++ rows) now sample (first ++ written) := by
  cases hwritten with
  | extended older run hrows hextends =>
    rw [← List.append_assoc]
    exact .extended (first ++ older) run (by rw [hrows, List.append_assoc]) hextends
  | inserted hbehind =>
    rw [← List.append_assoc]
    exact .inserted (List.forall_mem_append.mpr ⟨hfirst, hbehind⟩)
  | rejected => exact .rejected

variable (hwritten : LatencyStep view rows now sample written)
include hwritten

theorem LatencyStep.shape :
    written = rows ∨ ∃ kept row, written = kept ++ [row] ∧ kept.Sublist rows ∧
      row.sample = sample ∧ row.lastSeenAt = now := by
  cases hwritten with
  | extended older run hrows _ =>
    exact .inr ⟨older, _, rfl, hrows ▸ List.sublist_append_left older [run], rfl, rfl⟩
  | inserted _ => exact .inr ⟨rows, _, rfl, List.Sublist.refl rows, rfl, rfl⟩
  | rejected => exact .inl rfl

theorem LatencyStep.mem (hrow : row ∈ written) : row ∈ rows ∨ row.sample = sample := by
  rcases hwritten.shape with rfl | ⟨kept, last, rfl, hkept, hsample, -⟩
  · exact .inl hrow
  · rcases List.mem_append.mp hrow with hrow | hrow
    · exact .inl (hkept.subset hrow)
    · exact .inr (List.mem_singleton.mp hrow ▸ hsample)

end Order

/-! ## Reading rows in order -/

section Readings
variable {σ : Type} (view : σ → CollectedLatency)

def readingOf (row : LatencyRow σ) : LatencyReading where
  toRun := row.run
  readOps := (view row.sample).readOps
  readLatencyMicros := (view row.sample).readLatencyMicros
  writeOps := (view row.sample).writeOps
  writeLatencyMicros := (view row.sample).writeLatencyMicros

def CollectedLatency.ops (sample : CollectedLatency) : LatencyMetric → Int
  | .read => sample.readOps
  | .write => sample.writeOps

def CollectedLatency.micros (sample : CollectedLatency) : LatencyMetric → Int
  | .read => sample.readLatencyMicros
  | .write => sample.writeLatencyMicros

/-- The window between two rows counts: no counter fell, and Indexterity ran. -/
def Usable (metric : LatencyMetric) (outages : List OwnOutage) (row next : LatencyRow σ) : Prop :=
  (view row.sample).ops metric ≤ (view next.sample).ops metric ∧
    (view row.sample).micros metric ≤ (view next.sample).micros metric ∧
    spansOwnOutage outages row.lastSeenAt next.capturedAt = false
  deriving Decidable

def windowOf (metric : LatencyMetric) (row next : LatencyRow σ) : Window where
  startMs := row.lastSeenAt
  endMs := next.capturedAt
  micros := (view next.sample).micros metric - (view row.sample).micros metric
  ops := (view next.sample).ops metric - (view row.sample).ops metric

def windowsSince (outages : List OwnOutage) (fromMs : Int) (windows : List Window) :
    List Window :=
  (windows.filter fun window => !spansOwnOutage outages window.startMs window.endMs).filter
    fun window => decide (fromMs ≤ window.startMs)

variable {view}

theorem spanEnd_readingOf {row : LatencyRow σ} (h : row.capturedAt ≤ row.lastSeenAt) :
    (readingOf view row).spanEnd = row.lastSeenAt :=
  max_eq_right h

theorem inOrder_rows {τ : Type} (toRun : τ → Run) (read : LatencyRow σ → τ)
    (hread : ∀ row, toRun (read row) = row.run) {rows : List (LatencyRow σ)}
    (h : Timeline rows now) : InOrder toRun (rows.map read) := by
  constructor
  · intro r hr
    obtain ⟨row, -, rfl⟩ := List.mem_map.mp hr
    rw [hread]
    rfl
  · refine List.pairwise_map.mpr ((List.Pairwise.and_mem.mp h.ordered).imp ?_)
    rintro a b ⟨ha, -, hlt⟩
    rw [hread, hread]
    exact ((h.forward a ha).trans hlt.le : a.capturedAt ≤ b.capturedAt)

theorem windowsSince_windowBetween (metric : LatencyMetric) (outages : List OwnOutage)
    (fromMs : Int) {row next : LatencyRow σ} (hrow : row.capturedAt ≤ row.lastSeenAt) :
    windowsSince outages fromMs
        (windowBetween metric (readingOf view row) (readingOf view next)) =
      if Usable view metric outages row next ∧ fromMs ≤ row.lastSeenAt then
        [windowOf view metric row next]
      else [] := by
  have hdelta : deltaOf metric (readingOf view row) (readingOf view next) =
      ((windowOf view metric row next).ops, (windowOf view metric row next).micros) := by
    cases metric <;> rfl
  have hgrew : ¬ ((windowOf view metric row next).ops < 0 ∨
      (windowOf view metric row next).micros < 0) ↔
      (view row.sample).ops metric ≤ (view next.sample).ops metric ∧
        (view row.sample).micros metric ≤ (view next.sample).micros metric := by
    rw [not_or, not_lt, not_lt]
    exact and_congr sub_nonneg sub_nonneg
  unfold windowBetween Usable
  rw [hdelta, spanEnd_readingOf hrow]
  dsimp only
  split
  · rename_i hfell
    rw [if_neg fun h => hgrew.mpr ⟨h.1.1, h.1.2.1⟩ hfell]
    rfl
  · rename_i hfell
    obtain ⟨hops, hmicros⟩ := hgrew.mp hfell
    have hstart : (readingOf view next).spanStart = next.capturedAt := rfl
    rw [hstart]
    by_cases hspans : spansOwnOutage outages row.lastSeenAt next.capturedAt = true <;>
      by_cases hfrom : fromMs ≤ row.lastSeenAt <;>
        simp [windowsSince, windowOf, hspans, hfrom, hops, hmicros]

theorem sum_windowsSince (f : Window → Int) (metric : LatencyMetric) (outages : List OwnOutage)
    (fromMs : Int) {rows : List (LatencyRow σ)}
    (h : ∀ row ∈ rows, row.capturedAt ≤ row.lastSeenAt) :
    ((windowsSince outages fromMs (windowsFrom metric (rows.map (readingOf view)))).map f).sum =
      ((neighbours rows).map fun p =>
        if Usable view metric outages p.1 p.2 ∧ fromMs ≤ p.1.lastSeenAt then
          f (windowOf view metric p.1 p.2)
        else 0).sum := by
  rw [windowsFrom_eq, neighbours_map, List.map_map, windowsSince, List.filter_flatten,
    List.filter_flatten, List.map_flatten, List.sum_flatten]
  simp only [List.map_map]
  refine congrArg List.sum (List.map_congr_left fun p hp => ?_)
  have hone := @windowsSince_windowBetween _ view metric outages fromMs p.1 p.2
    (h p.1 (mem_of_mem_neighbours hp).1)
  refine (congrArg (fun windows => (windows.map f).sum) hone).trans ?_
  split <;> simp

end Readings

end Indexterity
