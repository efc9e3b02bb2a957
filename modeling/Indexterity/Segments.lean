import Indexterity.Collect
import Indexterity.Priced

/-!
# Segments: what the writer's rows stand for

The abstract side of the run-length writer. A segment is a nonempty stretch of
collects that one row stands for; a sequence of collects is cut into segments by the
extend rule alone. Whatever emptying does, the rows the writer leaves behind are the
rows of the segments, in order.
-/

namespace Indexterity

structure Segment where
  first : Collect
  later : List Collect

namespace Segment

def collects (s : Segment) : List Collect := s.first :: s.later

def last (s : Segment) : Collect := s.later.getLastD s.first

def extend (s : Segment) (c : Collect) : Segment := { s with later := s.later ++ [c] }

/-- The widest interval between two neighbours, from the stamp `stamp` on. -/
def widestGap (stamp gap : Int) : List Collect → Int
  | [] => gap
  | c :: rest => widestGap c.now (max gap (c.now - stamp)) rest

def maxGap (s : Segment) : Int := widestGap s.first.now 0 s.later

def run (s : Segment) : Run where
  capturedAt := some s.first.now
  lastSeenAt := some s.last.now
  observations := some (s.later.length + 1)
  maxGapMs := some s.maxGap

variable (s : Segment) (c : Collect)

@[simp] theorem last_extend : (s.extend c).last = c := by
  simp [last, extend]

@[simp] theorem collects_extend :
    (s.extend c).collects = s.collects ++ [c] := rfl

theorem getLast?_collects : s.collects.getLast? = some s.last := by
  rw [collects, last, List.getLast?_cons, List.getLastD_eq_getLast?]

theorem last_mem : s.last ∈ s.collects :=
  List.getLastD_mem_cons

@[simp] theorem length_later_extend :
    (s.extend c).later.length = s.later.length + 1 := by simp [extend]

theorem widestGap_append (xs : List Collect) (stamp gap : Int) (first : Collect)
    (h : first.now = stamp) :
    widestGap stamp gap (xs ++ [c]) =
      max (widestGap stamp gap xs) (c.now - (xs.getLastD first).now) := by
  induction xs generalizing stamp gap first with
  | nil => simp [widestGap, h]
  | cons x xs ih =>
    rw [List.getLastD_cons]
    exact ih x.now (max gap (x.now - stamp)) x rfl

theorem maxGap_extend :
    (s.extend c).maxGap = max s.maxGap (c.now - s.last.now) :=
  widestGap_append c s.later s.first.now 0 s.first rfl

end Segment

variable {cs : List Collect} {rest : List Segment}

section Cutting
variable (host : Host)

def continues (s : Segment) (c : Collect) : Bool :=
  extendsRun (some ⟨counterFingerprint host s.first.perMember, s.last.now⟩)
    (counterFingerprint host c.perMember) c.now

def segmentsFrom (current : Segment) : List Collect → List Segment
  | [] => [current]
  | c :: rest =>
    if continues host current c then segmentsFrom (current.extend c) rest
    else current :: segmentsFrom ⟨c, []⟩ rest

def segments : List Collect → List Segment
  | [] => []
  | c :: rest => segmentsFrom host ⟨c, []⟩ rest

/-- The row of a segment, priced against the members `previous` of the one before. -/
def segmentRow (previous : Option (List MemberUsage)) (s : Segment) : SnapshotRow :=
  { insertedRow host previous s.first with
    lastSeenAt := s.last.now
    observations := s.later.length + 1
    maxGapMs := s.maxGap }

/-- Every row but the newest has been through `trim`. -/
def segmentRows (trim : SnapshotRow → SnapshotRow) (previous : Option (List MemberUsage)) :
    List Segment → List SnapshotRow
  | [] => []
  | [s] => [segmentRow host previous s]
  | s :: t :: rest =>
    trim (segmentRow host previous s) :: segmentRows trim (some s.first.perMember) (t :: rest)

theorem segmentsFrom_ne_nil (s : Segment) (cs : List Collect) : segmentsFrom host s cs ≠ [] := by
  induction cs generalizing s with
  | nil => simp [segmentsFrom]
  | cons c cs ih =>
    unfold segmentsFrom
    split
    · exact ih _
    · simp

theorem flatMap_segmentsFrom (s : Segment) (cs : List Collect) :
    (segmentsFrom host s cs).flatMap Segment.collects = s.collects ++ cs := by
  induction cs generalizing s with
  | nil => simp [segmentsFrom]
  | cons c cs ih =>
    unfold segmentsFrom
    split
    · simp [ih]
    · simp [ih, Segment.collects]

theorem flatMap_segments (cs : List Collect) :
    (segments host cs).flatMap Segment.collects = cs := by
  cases cs with
  | nil => rfl
  | cons c cs =>
    rw [segments, flatMap_segmentsFrom]
    rfl

theorem splitNewest_append (rows : List SnapshotRow) (row : SnapshotRow)
    (h : ∀ r ∈ rows, r.capturedAt ≤ row.capturedAt) :
    splitNewest (rows ++ [row]) = some (rows, row, []) := by
  induction rows with
  | nil => rfl
  | cons r rows ih =>
    have hr : ¬ row.capturedAt < r.capturedAt := not_lt.mpr (h r List.mem_cons_self)
    simp [splitNewest, ih fun x hx => h x (List.mem_cons_of_mem r hx), hr]

theorem extendedRow_segmentRow (previous : Option (List MemberUsage)) (s : Segment) (c : Collect) :
    extendedRow (segmentRow host previous s) c.now = segmentRow host previous (s.extend c) := by
  simp only [extendedRow, segmentRow, Segment.last_extend, Segment.maxGap_extend,
    Segment.length_later_extend]
  rfl

theorem segmentRows_cons (trim : SnapshotRow → SnapshotRow) (previous : Option (List MemberUsage))
    (s : Segment) (h : rest ≠ []) :
    segmentRows host trim previous (s :: rest) =
      trim (segmentRow host previous s) :: segmentRows host trim (some s.first.perMember) rest := by
  cases rest with
  | nil => exact absurd rfl h
  | cons t ts => rfl

section Rows
variable {trim : SnapshotRow → SnapshotRow} (keeps : ∀ row, (trim row).capturedAt = row.capturedAt)
include keeps

/-- The writer over further collects: the closed rows stay, the open row grows into
the rows of its segments. -/
theorem foldl_recordSnapshotsWith (closed : List SnapshotRow) (previous : Option (List MemberUsage))
    (s : Segment) (cs : List Collect) (hclosed : ∀ row ∈ closed, row.capturedAt ≤ s.first.now)
    (hcs : (s.first :: cs).Pairwise fun a b => a.now ≤ b.now) :
    cs.foldl (recordSnapshotsWith host trim) (closed ++ [segmentRow host previous s]) =
      closed ++ segmentRows host trim previous (segmentsFrom host s cs) := by
  induction cs generalizing closed previous s with
  | nil => rfl
  | cons c cs ih =>
    obtain ⟨hfirst, hrest⟩ := List.pairwise_cons.mp hcs
    have hsplit := splitNewest_append closed (segmentRow host previous s) hclosed
    simp only [List.foldl_cons, recordSnapshotsWith, hsplit]
    have hcond : extendsRun (some (currentRun host (segmentRow host previous s)))
        (counterFingerprint host c.perMember) c.now = continues host s c := rfl
    rw [hcond, segmentsFrom]
    split
    · rw [extendedRow_segmentRow]
      refine ih closed previous (s.extend c) hclosed ?_
      exact List.pairwise_cons.mpr
        ⟨fun x hx => hfirst x (List.mem_cons_of_mem c hx), (List.pairwise_cons.mp hrest).2⟩
    · rw [segmentRows_cons host trim previous s (segmentsFrom_ne_nil host _ cs)]
      have hstep := ih (closed ++ [trim (segmentRow host previous s)])
        (some s.first.perMember) ⟨c, []⟩ ?_ hrest
      · simpa [segmentRow, insertedRow, Segment.last, Segment.maxGap, Segment.widestGap]
          using hstep
      · intro row hrow
        rcases List.mem_append.mp hrow with hrow | hrow
        · exact le_trans (hclosed row hrow) (hfirst c List.mem_cons_self)
        · rw [List.mem_singleton.mp hrow, keeps]
          exact hfirst c List.mem_cons_self

theorem foldl_recordSnapshotsWith_nil (cs : List Collect)
    (hcs : cs.Pairwise fun a b => a.now ≤ b.now) :
    cs.foldl (recordSnapshotsWith host trim) [] =
      segmentRows host trim none (segments host cs) := by
  cases cs with
  | nil => rfl
  | cons c cs =>
    have h := foldl_recordSnapshotsWith host keeps [] none ⟨c, []⟩ cs (by simp) hcs
    simpa [segmentRow, insertedRow, Segment.last, Segment.maxGap, Segment.widestGap,
      recordSnapshotsWith, splitNewest, segments] using h

end Rows

theorem trimSupersededMembers_capturedAt (row : SnapshotRow) :
    (trimSupersededMembers row).capturedAt = row.capturedAt := by
  unfold trimSupersededMembers
  split <;> rfl

variable (hcs : cs.Pairwise fun a b => a.now ≤ b.now)
include hcs

theorem collected_eq_segmentRows :
    collected host cs = segmentRows host trimSupersededMembers none (segments host cs) :=
  foldl_recordSnapshotsWith_nil host trimSupersededMembers_capturedAt cs hcs

theorem collectedUntrimmed_eq_segmentRows :
    collectedUntrimmed host cs = segmentRows host id none (segments host cs) :=
  foldl_recordSnapshotsWith_nil host (fun _ => rfl) cs hcs

end Cutting

/-!
## Stored summaries against full members

The collector stores, on each row, what the analysis would compute from the members
of the row and its predecessor. Read through those columns, with the members of every
superseded row emptied, a window of history has the same prices as the same runs read
from members that were never emptied. Both sides are the prices of the segments.
-/

variable {trim : SnapshotRow → SnapshotRow}

section Prices
variable (host : Host)

def pricedSegments (previous : Option (List MemberUsage)) : List Segment → List PricedRun
  | [] => []
  | s :: rest =>
    { run := s.run
      activity := activityBetween previous s.first.perMember
      restarted := countersRestartedBetween host previous s.first.perMember
      started := startedAt host s.first.perMember } ::
      pricedSegments (some s.first.perMember) rest

theorem countersRestartedBetween_none (current : List MemberUsage) :
    countersRestartedBetween host none current = false := by
  simp [countersRestartedBetween, memberOf]

/-- What emptying may do to a row: nothing but take its members. -/
structure OnlyMembers (trim : SnapshotRow → SnapshotRow) : Prop where
  run : ∀ row, runFrom (trim row) = runFrom row
  opsDelta : ∀ row, (trim row).opsDelta = row.opsDelta
  opsTotal : ∀ row, (trim row).opsTotal = row.opsTotal
  countersRestarted : ∀ row, (trim row).countersRestarted = row.countersRestarted
  countersStartedAt : ∀ row, (trim row).countersStartedAt = row.countersStartedAt
  perMember : ∀ row, (trim row).perMember = row.perMember ∨ (trim row).perMember = []

theorem onlyMembers_id : OnlyMembers id :=
  ⟨fun _ => rfl, fun _ => rfl, fun _ => rfl, fun _ => rfl, fun _ => rfl, fun _ => .inl rfl⟩

theorem onlyMembers_trimSupersededMembers : OnlyMembers trimSupersededMembers := by
  refine ⟨?_, ?_, ?_, ?_, ?_, ?_⟩ <;> intro row <;> unfold trimSupersededMembers <;> split <;>
    simp [runFrom]

@[simp] theorem runFrom_segmentRow (previous : Option (List MemberUsage)) (s : Segment) :
    runFrom (segmentRow host previous s) = s.run := rfl

section Trimmed
variable (ht : OnlyMembers trim) (previous : Option (List MemberUsage))
include ht

/-- The start the fold reads off a stored row. A row that stores none has no dated
member either, so emptied members change nothing. -/
theorem countersStartedAt_storedSnapshot (s : Segment) :
    countersStartedAt host (storedSnapshot (trim (segmentRow host previous s))) =
      startedAt host s.first.perMember := by
  have hcol : (trim (segmentRow host previous s)).countersStartedAt =
      startedAt host s.first.perMember := ht.countersStartedAt _
  cases hs : startedAt host s.first.perMember with
  | some start => simp [countersStartedAt, storedSnapshot, hcol, hs]
  | none =>
    simp only [countersStartedAt, storedSnapshot, hcol, hs]
    rcases ht.perMember (segmentRow host previous s) with hm | hm
    · rw [hm]
      exact hs
    · rw [hm]
      rfl

theorem price_storedSnapshot (s : Segment) (p : Option UsageSnapshot) :
    let row := storedSnapshot (trim (segmentRow host previous s))
    runActivity p row = activityBetween (if p.isSome then previous else none) s.first.perMember ∧
      (p.any fun before => restartedBetween host before row) =
        countersRestartedBetween host (if p.isSome then previous else none) s.first.perMember := by
  intro row
  have hdelta : row.opsDelta = some (activityBetween previous s.first.perMember) :=
    ht.opsDelta _
  have htotal : row.opsTotal = some (activityInFull s.first.perMember) := ht.opsTotal _
  have hrest : row.countersRestarted =
      some (countersRestartedBetween host previous s.first.perMember) := ht.countersRestarted _
  cases p with
  | none =>
    simp [runActivity, htotal, activityBetween_none, countersRestartedBetween_none]
  | some before => simp [runActivity, hdelta, restartedBetween, hrest]

theorem price_segmentRows_stored (segs : List Segment) (p : Option UsageSnapshot) :
    price host p ((segmentRows host trim previous segs).map storedSnapshot) =
      pricedSegments host (if p.isSome then previous else none) segs := by
  induction segs generalizing previous p with
  | nil => rfl
  | cons s rest ih =>
    cases rest with
    | nil =>
      obtain ⟨ha, hr⟩ := price_storedSnapshot host onlyMembers_id previous s p
      have hs := countersStartedAt_storedSnapshot host onlyMembers_id previous s
      simp only [id] at ha hr hs
      simp only [segmentRows, List.map_cons, List.map_nil, price, pricedSegments, ha, hr, hs]
      rfl
    | cons t ts =>
      obtain ⟨ha, hr⟩ := price_storedSnapshot host ht previous s p
      have hs := countersStartedAt_storedSnapshot host ht previous s
      have hrun : (storedSnapshot (trim (segmentRow host previous s))).toRun = s.run :=
        ht.run _
      simp only [segmentRows, List.map_cons, price, ha, hr, hs, hrun]
      exact congrArg _ (ih _ _)

end Trimmed

theorem price_segmentRows_members (previous : Option (List MemberUsage)) (segs : List Segment)
    (p : Option UsageSnapshot) :
    price host p ((segmentRows host id previous segs).map memberSnapshot) =
      pricedSegments host (p.map UsageSnapshot.perMember) segs := by
  induction segs generalizing previous p with
  | nil => rfl
  | cons s rest ih =>
    have hrow : price host p (memberSnapshot (segmentRow host previous s) ::
        (segmentRows host id (some s.first.perMember) rest).map memberSnapshot) =
        pricedSegments host (p.map UsageSnapshot.perMember) (s :: rest) := by
      rw [price, pricedSegments, ih]
      cases p with
      | none => simp [runActivity, memberSnapshot, countersRestartedBetween_none,
          countersStartedAt, startedAt, segmentRow, insertedRow, runFrom, Segment.run]
      | some before => simp [runActivity, memberSnapshot, restartedBetween,
          countersStartedAt, startedAt, segmentRow, insertedRow, runFrom, Segment.run]
    cases rest with
    | nil => exact hrow
    | cons t ts => exact hrow

end Prices

section Window
variable (host : Host)

def keptSegments (cutoff : Int) (segs : List Segment) : List Segment :=
  segs.filter fun s => cutoff ≤ s.last.now

def Successive (segs : List Segment) : Prop :=
  segs.Pairwise fun s t => s.first.now < t.first.now ∧ s.last.now ≤ t.last.now

variable {segs : List Segment}

theorem Successive.inOrder (h : Successive segs) :
    segs.Pairwise fun s t => s.first.now ≤ t.first.now :=
  h.imp fun hst => le_of_lt hst.1

theorem successive_segments (hcs : cs.Pairwise fun a b => a.now < b.now) :
    Successive (segments host cs) := by
  rw [← flatMap_segments host cs, List.pairwise_flatMap] at hcs
  refine hcs.2.imp fun {s t} h => ⟨?_, ?_⟩
  · exact h s.first List.mem_cons_self t.first List.mem_cons_self
  · exact le_of_lt (h s.last s.last_mem t.last t.last_mem)

variable {cutoff : Int}

theorem keptSegments_cons_of_le {s : Segment} (h : Successive (s :: rest))
    (hs : cutoff ≤ s.last.now) : keptSegments cutoff (s :: rest) = s :: rest := by
  refine List.filter_eq_self.mpr fun t ht => ?_
  rcases List.mem_cons.mp ht with rfl | ht
  · simpa using hs
  · simpa using le_trans hs ((List.pairwise_cons.mp h).1 t ht).2

theorem keptSegments_cons_of_lt {s : Segment} (hs : s.last.now < cutoff) :
    keptSegments cutoff (s :: rest) = keptSegments cutoff rest :=
  List.filter_cons_of_neg (by simpa using hs)

section Trimmed
variable (ht : OnlyMembers trim) (previous : Option (List MemberUsage))
include ht

theorem lastSeenAt_trim (s : Segment) :
    (trim (segmentRow host previous s)).lastSeenAt = s.last.now := by
  have h := congrArg Run.lastSeenAt (ht.run (segmentRow host previous s))
  exact Option.some.inj h

theorem keptSince_eq_self (h : ∀ s ∈ segs, cutoff ≤ s.last.now) :
    keptSince cutoff (segmentRows host trim previous segs) =
      segmentRows host trim previous segs := by
  refine List.filter_eq_self.mpr ?_
  induction segs generalizing previous with
  | nil => simp [segmentRows]
  | cons s rest ih =>
    have hs : cutoff ≤ s.last.now := h s List.mem_cons_self
    cases rest with
    | nil => simpa [segmentRows, segmentRow] using hs
    | cons t ts =>
      intro row hrow
      rcases List.mem_cons.mp hrow with rfl | hrow
      · simpa [lastSeenAt_trim host ht] using hs
      · exact ih (some s.first.perMember) (fun x hx => h x (List.mem_cons_of_mem s hx)) row hrow

/-- The rows a window keeps are the rows of the segments it keeps, the first of them
priced against whatever stands before the window. -/
theorem keptSince_segmentRows (cutoff : Int) (h : Successive segs) :
    ∃ before, keptSince cutoff (segmentRows host trim previous segs) =
      segmentRows host trim before (keptSegments cutoff segs) := by
  induction segs generalizing previous with
  | nil => exact ⟨none, rfl⟩
  | cons s rest ih =>
    by_cases hs : cutoff ≤ s.last.now
    · rw [keptSegments_cons_of_le h hs]
      have hall := List.filter_eq_self.mp (keptSegments_cons_of_le h hs)
      exact ⟨previous, keptSince_eq_self host ht previous fun t hmem => by simpa using hall t hmem⟩
    · have hlt : s.last.now < cutoff := not_le.mp hs
      rw [keptSegments_cons_of_lt hlt]
      cases rest with
      | nil => exact ⟨none, by simp [keptSince, keptSegments, segmentRows, segmentRow, hlt]⟩
      | cons t ts =>
        obtain ⟨before, hb⟩ := ih (some s.first.perMember) (List.pairwise_cons.mp h).2
        refine ⟨before, ?_⟩
        rw [← hb]
        exact List.filter_cons_of_neg (by simpa [lastSeenAt_trim host ht] using hlt)

theorem map_runFrom_segmentRows (segs : List Segment) :
    (segmentRows host trim previous segs).map runFrom = segs.map Segment.run := by
  induction segs generalizing previous with
  | nil => rfl
  | cons s rest ih =>
    cases rest with
    | nil => rfl
    | cons t ts =>
      rw [segmentRows, List.map_cons, ih, ht.run]
      rfl

theorem inOrder_segmentRows (h : segs.Pairwise fun s t => s.first.now ≤ t.first.now)
    (view : SnapshotRow → UsageSnapshot) (hview : ∀ row, (view row).toRun = runFrom row) :
    InOrder UsageSnapshot.toRun ((segmentRows host trim previous segs).map view) := by
  constructor
  · intro r hr
    obtain ⟨row, _, rfl⟩ := List.mem_map.mp hr
    rw [hview]
    rfl
  · have hruns : (segs.map Segment.run).Pairwise fun a b => a.spanStart ≤ b.spanStart :=
      List.pairwise_map.mpr h
    rw [← map_runFrom_segmentRows host ht previous, List.pairwise_map] at hruns
    refine List.pairwise_map.mpr (hruns.imp fun {a b} hab => ?_)
    rw [hview, hview]
    exact hab

end Trimmed

/-- Every window of the stored rows folds as the same runs with their members kept. -/
theorem foldUsage_stored_eq_members (cs : List Collect)
    (hcs : cs.Pairwise fun a b => a.now < b.now) (cutoff minBlindMs : Int) :
    foldUsage host ((keptSince cutoff (collected host cs)).map storedSnapshot) minBlindMs =
      foldUsage host ((keptSince cutoff (collectedUntrimmed host cs)).map memberSnapshot)
        minBlindMs := by
  have hle := hcs.imp fun {a b : Collect} (h : a.now < b.now) => le_of_lt h
  have hsucc := successive_segments host hcs
  have hkept : Successive (keptSegments cutoff (segments host cs)) := hsucc.filter _
  rw [collected_eq_segmentRows host hle, collectedUntrimmed_eq_segmentRows host hle]
  obtain ⟨before, hb⟩ :=
    keptSince_segmentRows host onlyMembers_trimSupersededMembers none cutoff hsucc
  obtain ⟨before', hb'⟩ := keptSince_segmentRows host onlyMembers_id none cutoff hsucc
  rw [hb, hb']
  apply foldUsage_congr
  · exact inOrder_segmentRows host onlyMembers_trimSupersededMembers before hkept.inOrder _
      fun _ => rfl
  · exact inOrder_segmentRows host onlyMembers_id before' hkept.inOrder _ fun _ => rfl
  · rw [price_segmentRows_stored host onlyMembers_trimSupersededMembers,
      price_segmentRows_members]
    rfl

end Window

/-- A window that cuts the first run off and starts on a restarted counter. -/
theorem foldUsage_stored_restarted :
    let cs : List Collect := [⟨10, [⟨"a", 5, some "0"⟩]⟩, ⟨20, [⟨"a", 7, some "0"⟩]⟩,
      ⟨30, [⟨"a", 1, some "25"⟩, ⟨"b", 4, none⟩]⟩]
    foldUsage decimalHost ((keptSince 20 (collected decimalHost cs)).map storedSnapshot) 0 =
      foldUsage decimalHost
        ((keptSince 20 (collectedUntrimmed decimalHost cs)).map memberSnapshot) 0 :=
  foldUsage_stored_eq_members decimalHost _ (by decide) 20 0

end Indexterity
