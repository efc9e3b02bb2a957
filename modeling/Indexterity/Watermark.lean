import Indexterity.Library.Pool
import Indexterity.Schedule

/-!
# Watermarks: who dispatches an occurrence

`jobs/watermark.ts` and `jobs/burst.ts`. A tick reads when each pass was last dispatched, works
out what has become due by its own clock, and claims each due occurrence by a conditional
upsert, which the database makes one at a time. A claim is stamped with the tick's own clock,
and goes through where the stamp it finds is before the occurrence.

Any number of ticks run side by side, each by a clock of its own and with a cadence of its own,
and stop anywhere. An occurrence is never after the stamp its claim leaves, so the occurrences
of a pass are claimed in order and once.
-/

namespace Indexterity

open Library Program

/-! ## Claims -/

def TaskName.name : TaskName → String
  | .scheduleCollect => "scheduleCollect"
  | .scheduleSuggest => "scheduleSuggest"
  | .scheduleApply => "scheduleApply"
  | .scheduleProbe => "scheduleProbe"
  | .scheduleFinalize => "scheduleFinalize"
  | .retention => "retention"
  | .digest => "digest"

def passKey (pass : String) : String := "pass:" ++ pass

/-- The statements of a tick. A job carries no occurrence; it is kept here to tell the jobs of
one pass apart. -/
inductive PassOp where
  | watermarks (keys : List String)
  | claim (key : String) (notBefore now : Int)
  | addJob (task : TaskName) (occurrence : Int)

abbrev PassOp.Ans : PassOp → Type
  | .watermarks _ => List (String × Int)
  | .claim _ _ _ => Bool
  | .addJob _ _ => Unit

structure BurstResult where
  dispatched : List TaskName
  alreadyClaimed : List TaskName

abbrev PassProgram := Program PassOp PassOp.Ans String

def issue (op : PassOp) : PassProgram op.Ans := ask op

/-- The map a tick builds of the rows it read: a later row of a key replaces an earlier one. -/
def lastDispatchedAt (rows : List (String × Int)) (task : TaskName) : Option Int :=
  (rows.reverse.find? fun row => (row.1.drop "pass:".length).toString == task.name).map Prod.snd

def claimPass (now : Int) (result : BurstResult) (due : TaskName × Int) :
    PassProgram BurstResult := do
  let won : Bool ← issue (.claim (passKey due.1.name) due.2 now)
  if won then
    issue (.addJob due.1 due.2)
    pure { result with dispatched := result.dispatched ++ [due.1] }
  else pure { result with alreadyClaimed := result.alreadyClaimed ++ [due.1] }

def claimDuePasses (monthStart : Int → Int) (fastMinutes : Nat) (now : Int) :
    PassProgram BurstResult := do
  let rows : List (String × Int) ←
    issue (.watermarks (BURST_SCHEDULE.map fun task => passKey task.name))
  eachFrom (claimPass now) ⟨[], []⟩
    (duePasses monthStart fastMinutes now (lastDispatchedAt rows))

/-! ## The table -/

/-- The table of watermarks, the claims that went through in their order, and the queue. -/
structure Ticks where
  at_ : String → Option Int
  claimed : List (String × Int)
  jobs : List (TaskName × Int)

def Ticks.free (s : Ticks) (key : String) (notBefore : Int) : Bool :=
  match s.at_ key with
  | none => true
  | some stamp => decide (stamp < notBefore)

def ticksMachine : Machine PassOp PassOp.Ans String Ticks (Option String) where
  answer s op reply :=
    match reply with
    | some error => .error error
    | none =>
      match op with
      | .watermarks keys => .ok (keys.filterMap fun key => (s.at_ key).map fun stamp => (key, stamp))
      | .claim key notBefore _ => .ok (s.free key notBefore)
      | .addJob _ _ => .ok ()
  effect s op answer :=
    match op, answer with
    | .claim key notBefore now, .ok true =>
      { s with
        at_ := Function.update s.at_ key (some now)
        claimed := s.claimed ++ [(key, notBefore)] }
    | .addJob task occurrence, .ok _ => { s with jobs := s.jobs ++ [(task, occurrence)] }
    | _, _ => s

/-! ## Ticks answered from memory -/

def RESET_LOCKS_PASS : String := "resetLocks"

def Ticks.StampedFrom (s : Ticks) (key : String) (occurrence : Int) : Prop :=
  ∃ stamp, s.at_ key = some stamp ∧ occurrence ≤ stamp

variable {s : Ticks} {notBefore : Int}

theorem not_free_of_stampedFrom {key : String} {occurrence : Int} (h : s.StampedFrom key occurrence)
    (hle : notBefore ≤ occurrence) : s.free key notBefore = false := by
  obtain ⟨stamp, hstamp, hocc⟩ := h
  rw [Ticks.free, hstamp]
  exact decide_eq_false (not_lt.mpr (hle.trans hocc))

/-- A claim round at `since` has stamped every pass and the reset of stale locks for their
occurrences. As long as no occurrence moves, no pass is due and the reset is not claimed: it is
on the grid of the fast passes, which are among those asked about. -/
theorem unmoved_nothing_due (monthStart : Int → Int) (fastMinutes : Nat) (since now : Int)
    (s : Ticks)
    (hpasses : ∀ task ∈ BURST_SCHEDULE,
      s.StampedFrom (passKey task.name) (task.occurrenceAt monthStart fastMinutes since))
    (hreset : s.StampedFrom (passKey RESET_LOCKS_PASS) (everyMinutes fastMinutes since))
    (hunmoved : occurrenceMoved monthStart since now fastMinutes = false) :
    duePasses monthStart fastMinutes now (fun task => s.at_ (passKey task.name)) = [] ∧
      s.free (passKey RESET_LOCKS_PASS) (everyMinutes fastMinutes now) = false := by
  have hle := occurrenceAt_le_of_unmoved monthStart hunmoved
  refine ⟨List.filter_eq_nil_iff.mpr fun due hdue => ?_,
    not_free_of_stampedFrom hreset (hle .scheduleApply)⟩
  obtain ⟨task, htask, rfl⟩ := List.mem_map.mp hdue
  exact Bool.not_eq_true _ ▸ not_free_of_stampedFrom (hpasses task htask) (hle task)

/-- Ticks at midnight and a minute later, the fast passes every quarter of an hour. -/
theorem minute_after_nothing_due :
    duePasses (fun _ => 0) 15 60000 (fun _ => some 0) = [] ∧
      Ticks.free ⟨fun _ => some 0, [], []⟩ (passKey RESET_LOCKS_PASS) (everyMinutes 15 60000) =
        false :=
  unmoved_nothing_due (fun _ => 0) 15 0 60000 ⟨fun _ => some 0, [], []⟩
    (fun task _ => ⟨0, rfl, by cases task <;> decide⟩) ⟨0, rfl, by decide⟩ (by decide)

/-! ## Ticks side by side -/

inductive TickMove where
  /-- A tick begins, by its own clock. -/
  | tick (now : Int) (fastMinutes : Nat)
  /-- One of the ticks makes its next statement. -/
  | statement (i : Nat) (error : Option String)
  /-- Something else stamps another key. -/
  | elsewhere (key : String) (stamp : Int)

abbrev TickPool := Pool PassOp PassOp.Ans String BurstResult Ticks

def TickMove.toMove (monthStart : Int → Int) :
    TickMove → Move PassOp PassOp.Ans String BurstResult Ticks (Option String)
  | .tick now fastMinutes => .start (claimDuePasses monthStart fastMinutes now)
  | .statement i error => .step i error
  | .elsewhere key stamp => .aside fun s => { s with at_ := Function.update s.at_ key (some stamp) }

/-- The cadences are whole minutes of an hour, and nothing else stamps a pass. -/
def TickMove.Proper : TickMove → Prop
  | .tick _ fastMinutes => 1 ≤ fastMinutes ∧ fastMinutes ≤ 60
  | .statement _ _ => True
  | .elsewhere key _ => ∀ task : TaskName, key ≠ passKey task.name

def runTicks (monthStart : Int → Int) (stamps : String → Option Int) (moves : List TickMove) :
    TickPool :=
  Pool.moves ticksMachine ⟨⟨stamps, [], []⟩, []⟩ (moves.map (TickMove.toMove monthStart))

/-- The occurrences of a pass that were claimed, in the order of the claims. -/
def Ticks.occurrences (s : Ticks) (key : String) : List Int :=
  (s.claimed.filter fun claim => decide (claim.1 = key)).map Prod.snd

/-! ## What a tick keeps to -/

abbrev Won := Option (TaskName × Int)

/-- A claim is for an occurrence that is not after the clock it is stamped with, and a job for
an occurrence that was won. -/
def tickContract : Contract PassOp PassOp.Ans String Won where
  admits _ _ _ := True
  demands won op :=
    match op with
    | .watermarks _ => won = none
    | .claim key notBefore now =>
      won = none ∧ notBefore ≤ now ∧ ∃ task : TaskName, key = passKey task.name
    | .addJob task occurrence => won = some (task, occurrence)
  effect won op answer :=
    match op, answer with
    | .claim key notBefore _, .ok true =>
      (BURST_SCHEDULE.find? fun task => decide (passKey task.name = key)).map fun task =>
        (task, notBefore)
    | .addJob _ _, .ok _ => none
    | _, _ => won

theorem find_passKey (task : TaskName) :
    BURST_SCHEDULE.find? (fun other => decide (passKey other.name = passKey task.name)) =
      some task := by
  cases task <;> decide

theorem keeps_claimPass {now : Int} {result : BurstResult} {due : TaskName × Int}
    (hdue : due.2 ≤ now) :
    (claimPass now result due).Keeps tickContract (fun r won =>
      match r with
      | .ok _ => won = none
      | .error _ => True) none := by
  refine keeps_ask_bind.mpr ⟨⟨rfl, hdue, due.1, rfl⟩, fun won _ => ?_, fun _ _ => trivial⟩
  cases won with
  | false => exact rfl
  | true =>
    have hwon : tickContract.effect none (.claim (passKey due.1.name) due.2 now) (.ok true) =
        some due := by
      change (BURST_SCHEDULE.find? _).map _ = _
      rw [find_passKey]
      rfl
    rw [hwon]
    exact keeps_ask_bind.mpr ⟨rfl, fun _ _ => rfl, fun _ _ => trivial⟩

variable (monthStart : Int → Int)

theorem keeps_claimDuePasses {fastMinutes : Nat} (hpos : 0 < fastMinutes) (now : Int) :
    (claimDuePasses monthStart fastMinutes now).Keeps tickContract (fun _ _ => True) none := by
  refine keeps_ask_bind.mpr ⟨rfl, fun rows _ => ?_, fun _ _ => trivial⟩
  refine keeps_eachFrom (fun _ rest won => won = none ∧ ∀ due ∈ rest, due.2 ≤ now)
    (fun _ _ _ => trivial) ?_ ⟨rfl, fun due hdue => ?_⟩
  · rintro result due rest won ⟨rfl, hrest⟩
    obtain ⟨hdue, hrest⟩ := List.forall_mem_cons.mp hrest
    refine (keeps_claimPass hdue).mono ?_
    rintro (error | result) won hwon
    · trivial
    · exact ⟨hwon, hrest⟩
  · obtain ⟨task, -, rfl⟩ := List.mem_map.mp (List.mem_filter.mp hdue).1
    exact (latest_occurrenceAt monthStart hpos task).le now

/-! ## What all ticks together keep to -/

/-- The claims of a key are in order, the last of them not after its stamp; and every job, and
every occurrence that is won and to be enqueued, has a claim of its own. -/
structure ClaimedInOrder (s : Ticks) (wons : List Won) : Prop where
  increasing : ∀ key, (s.occurrences key).Pairwise (· < ·)
  stamped : ∀ task : TaskName, ∀ occurrence ∈ s.occurrences (passKey task.name),
    ∃ stamp, s.at_ (passKey task.name) = some stamp ∧ occurrence ≤ stamp
  jobs : ∀ task occurrence, s.jobs.count (task, occurrence) + wons.count (some (task, occurrence)) ≤
    s.claimed.count (passKey task.name, occurrence)

theorem occurrences_append (s : Ticks) (key other : String) (occurrence : Int)
    (stamps : String → Option Int) :
    Ticks.occurrences ⟨stamps, s.claimed ++ [(key, occurrence)], s.jobs⟩ other =
      s.occurrences other ++ if key = other then [occurrence] else [] := by
  simp only [Ticks.occurrences, List.filter_append, List.map_append]
  by_cases heq : key = other <;> simp [heq]

variable {wons : List Won} {task : TaskName}

theorem lt_of_free (h : ClaimedInOrder s wons) (hfree : s.free (passKey task.name) notBefore = true) :
    ∀ occurrence ∈ s.occurrences (passKey task.name), occurrence < notBefore := by
  intro occurrence hoccurrence
  obtain ⟨stamp, hstamp, hle⟩ := h.stamped task occurrence hoccurrence
  rw [Ticks.free, hstamp] at hfree
  exact hle.trans_lt (of_decide_eq_true hfree)

variable {i : Nat}

theorem ClaimedInOrder.claim (h : ClaimedInOrder s wons) (hi : wons[i]? = some none) {now : Int}
    (hnow : notBefore ≤ now) (hfree : s.free (passKey task.name) notBefore = true) :
    ClaimedInOrder ⟨Function.update s.at_ (passKey task.name) (some now),
      s.claimed ++ [(passKey task.name, notBefore)], s.jobs⟩
      (wons.set i (some (task, notBefore))) where
  increasing key := by
    rw [occurrences_append]
    refine List.pairwise_append.mpr ⟨h.increasing key, ?_, ?_⟩
    · split <;> simp
    · intro a ha b hb
      split at hb
      · rename_i heq
        subst heq
        obtain rfl := List.mem_singleton.mp hb
        exact lt_of_free h hfree a ha
      · cases hb
  stamped other occurrence hoccurrence := by
    rw [occurrences_append, List.mem_append] at hoccurrence
    by_cases heq : passKey task.name = passKey other.name
    · refine ⟨now, by rw [heq]; exact Function.update_self _ _ _, ?_⟩
      rw [if_pos heq, List.mem_singleton, ← heq] at hoccurrence
      obtain hold | rfl := hoccurrence
      · exact ((lt_of_free h hfree occurrence hold).trans_le hnow).le
      · exact hnow
    · rw [if_neg heq] at hoccurrence
      obtain ⟨stamp, hstamp, hle⟩ :=
        h.stamped other occurrence (hoccurrence.resolve_right List.not_mem_nil)
      exact ⟨stamp, (Function.update_of_ne (Ne.symm heq) _ _).trans hstamp, hle⟩
  jobs other occurrence := by
    have hold := h.jobs other occurrence
    obtain ⟨hlength, hnone⟩ := List.getElem?_eq_some_iff.mp hi
    rw [List.count_set hlength, hnone, List.count_append]
    by_cases heq : (task, notBefore) = (other, occurrence)
    · obtain ⟨rfl, rfl⟩ := Prod.mk.inj heq
      simp only [List.count_singleton_self]
      simp
      omega
    · simp [heq]
      omega

theorem ClaimedInOrder.addJob (h : ClaimedInOrder s wons) {occurrence : Int} (hi : wons[i]? = some (some (task, occurrence))) :
    ClaimedInOrder { s with jobs := s.jobs ++ [(task, occurrence)] } (wons.set i none) where
  increasing := h.increasing
  stamped := h.stamped
  jobs other at_ := by
    have hold := h.jobs other at_
    obtain ⟨hlength, hwon⟩ := List.getElem?_eq_some_iff.mp hi
    have hpos : (task, occurrence) = (other, at_) → 0 < wons.count (some (other, at_)) := by
      intro heq
      rw [← heq, ← hwon]
      exact List.count_pos_iff.mpr (List.getElem_mem hlength)
    rw [List.count_set hlength, hwon, List.count_append]
    by_cases heq : (task, occurrence) = (other, at_)
    · have hpos := hpos heq
      simp [heq]
      omega
    · simp [heq]
      omega

theorem claimedInOrder_step {won : Won} {op : PassOp}
    {error : Option String} (h : ClaimedInOrder s wons) (hi : wons[i]? = some won)
    (hdemands : tickContract.demands won op) :
    ClaimedInOrder (ticksMachine.after s op error)
      (wons.set i (tickContract.effect won op (ticksMachine.answer s op error))) := by
  have hsame : wons.set i won = wons := by
    obtain ⟨hlength, rfl⟩ := List.getElem?_eq_some_iff.mp hi
    exact List.set_getElem_self hlength
  cases error with
  | some error =>
    cases op <;> exact (congrArg (ClaimedInOrder s) hsame).mpr h
  | none =>
    cases op with
    | watermarks keys => exact (congrArg (ClaimedInOrder s) hsame).mpr h
    | claim key notBefore now =>
      obtain ⟨rfl, hnow, task, rfl⟩ := hdemands
      change ClaimedInOrder
        (ticksMachine.effect s (.claim (passKey task.name) notBefore now)
          (.ok (s.free (passKey task.name) notBefore)))
        (wons.set i (tickContract.effect none (.claim (passKey task.name) notBefore now)
          (.ok (s.free (passKey task.name) notBefore))))
      cases hfree : s.free (passKey task.name) notBefore with
      | false => exact (congrArg (ClaimedInOrder s) hsame).mpr h
      | true =>
        have hwon : tickContract.effect none (.claim (passKey task.name) notBefore now)
            (.ok true) = some (task, notBefore) := by
          change (BURST_SCHEDULE.find? _).map _ = _
          rw [find_passKey]
          rfl
        rw [hwon]
        exact h.claim hi hnow hfree
    | addJob task occurrence =>
      obtain rfl : won = _ := hdemands
      exact h.addJob hi

def IsTick (monthStart : Int → Int) (program : Program PassOp PassOp.Ans String BurstResult) :
    Prop :=
  ∃ now fastMinutes, 0 < fastMinutes ∧ program = claimDuePasses monthStart fastMinutes now

def IsElsewhere (change : Ticks → Ticks) : Prop :=
  ∃ key stamp, (∀ task : TaskName, key ≠ passKey task.name) ∧
    change = fun s => { s with at_ := Function.update s.at_ key (some stamp) }

theorem ticks_keeper :
    Pool.Keeper ticksMachine tickContract (fun _ _ => True) ClaimedInOrder (fun _ _ _ => True)
      (IsTick monthStart) IsElsewhere where
  start := by
    rintro s wons _ ⟨now, fastMinutes, hpos, rfl⟩ h
    refine ⟨none, keeps_claimDuePasses monthStart hpos now, h.increasing, h.stamped, ?_⟩
    intro task occurrence
    simpa [List.count_append] using h.jobs task occurrence
  step s wons i won op error h hi hdemands _ := ⟨trivial, claimedInOrder_step h hi hdemands⟩
  aside := by
    rintro s wons _ ⟨key, stamp, hkey, rfl⟩ h
    refine ⟨h.increasing, fun task occurrence hoccurrence => ?_, h.jobs⟩
    obtain ⟨last, hlast, hle⟩ := h.stamped task occurrence hoccurrence
    exact ⟨last, (Function.update_of_ne (hkey task).symm _ _).trans hlast, hle⟩

theorem claimedInOrder_run (stamps : String → Option Int)
    {moves : List TickMove} (hmoves : ∀ move ∈ moves, move.Proper) :
    ∃ wons, ClaimedInOrder (runTicks monthStart stamps moves).state wons := by
  have hstart : Pool.Accounted tickContract (fun _ _ => True) ClaimedInOrder
      (⟨⟨stamps, [], []⟩, []⟩ : TickPool) :=
    ⟨[], .nil, fun _ => List.Pairwise.nil, fun _ _ => nofun, fun _ _ => le_rfl⟩
  have hpermits : ∀ m ∈ moves.map (TickMove.toMove monthStart),
      Pool.Permits (IsTick monthStart) IsElsewhere m := by
    intro m hm
    obtain ⟨move, hmove, rfl⟩ := List.mem_map.mp hm
    have hproper := hmoves move hmove
    cases move with
    | tick now fastMinutes => exact ⟨now, fastMinutes, hproper.1, rfl⟩
    | statement i error => trivial
    | elsewhere key stamp => exact ⟨key, stamp, hproper, rfl⟩
  obtain ⟨wons, -, h⟩ := hstart.moves (ticks_keeper monthStart) hpermits fun _ _ => trivial
  exact ⟨wons, h⟩

theorem ClaimedInOrder.count_le_one (h : ClaimedInOrder s wons)
    (key : String) (occurrence : Int) : s.claimed.count (key, occurrence) ≤ 1 := by
  have hnodup : (s.occurrences key).Nodup := (h.increasing key).imp fun hlt => hlt.ne
  have hcount : s.claimed.count (key, occurrence) ≤ (s.occurrences key).count occurrence := by
    have hfilter := List.count_filter (l := s.claimed) (p := fun claim => decide (claim.1 = key))
      (a := (key, occurrence)) (decide_eq_true rfl)
    rw [← hfilter]
    exact List.count_le_count_map (f := Prod.snd)
  exact hcount.trans (List.nodup_iff_count_le_one.mp hnodup occurrence)

/-- Whatever a table holds, and however ticks run side by side: the occurrences of a pass are
claimed in increasing order, no job is enqueued twice for one occurrence, and none for an
occurrence that was not claimed. And every occurrence is at or before the instant it is asked
for at, the later the later that is, and its own. -/
theorem occurrences_claimed_once (monthStart : Int → Int) (stamps : String → Option Int)
    (moves : List TickMove) (hmoves : ∀ move ∈ moves, move.Proper) :
    (∀ task : TaskName,
      ((runTicks monthStart stamps moves).state.occurrences (passKey task.name)).Pairwise (· < ·)) ∧
    ((runTicks monthStart stamps moves).state.jobs.Nodup ∧
      ∀ job ∈ (runTicks monthStart stamps moves).state.jobs,
        job.2 ∈ (runTicks monthStart stamps moves).state.occurrences (passKey job.1.name)) ∧
    ∀ (task : TaskName) (fastMinutes : Nat), 1 ≤ fastMinutes → fastMinutes ≤ 60 →
      (∀ now, task.occurrenceAt monthStart fastMinutes now ≤ now) ∧
      Monotone (task.occurrenceAt monthStart fastMinutes) ∧
      ∀ now, task.occurrenceAt monthStart fastMinutes
        (task.occurrenceAt monthStart fastMinutes now) =
          task.occurrenceAt monthStart fastMinutes now := by
  obtain ⟨wons, h⟩ := claimedInOrder_run monthStart stamps hmoves
  refine ⟨fun task => h.increasing _, ⟨?_, ?_⟩, ?_⟩
  · refine List.nodup_iff_count_le_one.mpr fun ⟨task, occurrence⟩ => ?_
    have hjobs := h.jobs task occurrence
    have hone := h.count_le_one (passKey task.name) occurrence
    omega
  · rintro ⟨task, occurrence⟩ hjob
    have hjobs := h.jobs task occurrence
    have hpos := List.count_pos_iff.mpr hjob
    have hclaimed : (passKey task.name, occurrence) ∈ _ :=
      List.count_pos_iff.mp (hpos.trans_le ((Nat.le_add_right _ _).trans hjobs))
    exact List.mem_map.mpr ⟨_, List.mem_filter.mpr ⟨hclaimed, decide_eq_true rfl⟩, rfl⟩
  · intro task fastMinutes hpos _
    have hlatest := latest_occurrenceAt monthStart hpos task
    exact ⟨hlatest.le, hlatest.monotone, hlatest.apply_apply⟩

/-- Two ticks a minute apart by their clocks read an empty table, and then make their claims in
turn. -/
def racingTicks : List TickMove :=
  [.tick 90000000 5, .tick 90060000 5, .statement 0 none, .statement 1 none] ++
    (List.replicate 20 [.statement 0 none, .statement 1 none]).flatten

theorem racing_ticks_claim_once :
    (∀ move ∈ racingTicks, move.Proper) ∧
    (runTicks (fun _ => 0) (fun _ => none) racingTicks).state.jobs.Nodup :=
  have hproper : ∀ move ∈ racingTicks, move.Proper := by
    simp [racingTicks, TickMove.Proper]
  ⟨hproper, (occurrences_claimed_once _ _ racingTicks hproper).2.1.1⟩

end Indexterity
