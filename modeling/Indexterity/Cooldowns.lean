import Mathlib
import Indexterity.Library.Pool
import Indexterity.Runs

/-!
# Cooldowns: regressions and vetoes of one index

`jobs/cooldowns.ts` and `analysis/cooldown.ts`, on the row of one index. A regression reads the
row, reads the clock and writes a count and a date of its own making; a veto writes a date and
leaves the count. Calls run side by side, statement by statement, by one clock, and a statement
that fails ends its call.
-/

namespace Indexterity

open Library Program

def FIRST_COOLDOWN_WINDOWS : Nat := 1

def COOLDOWN_CAP_DAYS : Nat := 365

def cooldownDaysFor (observeDays regressionCount : Nat) : Nat :=
  min COOLDOWN_CAP_DAYS (observeDays * (FIRST_COOLDOWN_WINDOWS * 2 ^ (regressionCount - 1)))

/-- An absent date is never again. -/
structure CooldownRow where
  regressionCount : Nat
  blockedUntil : Option Int
deriving DecidableEq

inductive CooldownOp where
  | now
  | select
  | upsertRegression (regressionCount : Nat) (blockedUntil : Int)
  | upsertVeto (blockedUntil : Option Int)

abbrev CooldownOp.Ans : CooldownOp → Type
  | .now => Int
  | .select => Option CooldownRow
  | .upsertRegression _ _ | .upsertVeto _ => Unit

abbrev CooldownCall := Program CooldownOp CooldownOp.Ans String (Option Int)

def query (op : CooldownOp) : Program CooldownOp CooldownOp.Ans String op.Ans := ask op

def recordManualVeto (days : Option Nat) : CooldownCall := do
  let blockedUntil : Option Int ← match days with
    | none => pure none
    | some days => do
      let now : Int ← query .now
      pure (some (now + days * DAY_MS))
  query (.upsertVeto blockedUntil)
  pure blockedUntil

def recordRegression (observeDays : Nat) : CooldownCall := do
  let existing : Option CooldownRow ← query .select
  let count := (existing.map CooldownRow.regressionCount).getD 0 + 1
  let now : Int ← query .now
  let blockedUntil := now + cooldownDaysFor observeDays count * DAY_MS
  query (.upsertRegression count blockedUntil)
  pure (some blockedUntil)

/-! ## The table -/

def countOf (row : Option CooldownRow) : Nat := (row.map CooldownRow.regressionCount).getD 0

/-- The row a regression writes over the one it found. -/
def regressionRow (observeDays : Nat) (now : Int) (found : Option CooldownRow) : CooldownRow :=
  ⟨countOf found + 1, some (now + cooldownDaysFor observeDays (countOf found + 1) * DAY_MS)⟩

def cooldownMachine :
    Machine CooldownOp CooldownOp.Ans String (Option CooldownRow) (Except String Int) where
  answer row op reply :=
    reply.map fun clock =>
      match op with
      | .now => clock
      | .select => row
      | .upsertRegression _ _ | .upsertVeto _ => ()
  effect row op answer :=
    match op, answer with
    | .upsertRegression count blockedUntil, .ok _ => some ⟨count, some blockedUntil⟩
    | .upsertVeto blockedUntil, .ok _ => some ⟨countOf row, blockedUntil⟩
    | _, _ => row

inductive CooldownMove where
  | regression (observeDays : Nat)
  | veto (days : Option Nat)
  /-- One of the calls makes its next statement. -/
  | statement (i : Nat) (reply : Except String Int)

abbrev CooldownPool := Pool CooldownOp CooldownOp.Ans String (Option Int) (Option CooldownRow)

def CooldownMove.toMove : CooldownMove →
    Move CooldownOp CooldownOp.Ans String (Option Int) (Option CooldownRow) (Except String Int)
  | .regression observeDays => .start (recordRegression observeDays)
  | .veto days => .start (recordManualVeto days)
  | .statement i reply => .step i reply

/-- A write of a regression: the row it found, and the count and the date it wrote. -/
structure RegressionWrite where
  found : Option CooldownRow
  regressionCount : Nat
  blockedUntil : Int
deriving DecidableEq

def regressionWrite : Option CooldownRow × CooldownOp × Except String Int → Option RegressionWrite
  | (found, .upsertRegression count blockedUntil, .ok _) => some ⟨found, count, blockedUntil⟩
  | _ => none

section Runs
variable (pool : CooldownPool)

def cooldownRun (moves : List CooldownMove) : CooldownPool :=
  pool.moves cooldownMachine (moves.map CooldownMove.toMove)

def regressionWrites (moves : List CooldownMove) : List RegressionWrite :=
  (pool.calls cooldownMachine (moves.map CooldownMove.toMove)).filterMap regressionWrite

/-- No date is put in the place of never again, none is moved to an earlier instant, and behind
any of the moves the count has grown by the regressions written. -/
structure CooldownsKept (moves : List CooldownMove) : Prop where
  never : ∀ write ∈ regressionWrites pool moves, ∀ row,
    write.found = some row → row.blockedUntil ≠ none
  later : ∀ write ∈ regressionWrites pool moves, ∀ row date,
    write.found = some row → row.blockedUntil = some date → date ≤ write.blockedUntil
  counted : ∀ first, first <+: moves →
    countOf (cooldownRun pool first).state =
      countOf pool.state + (regressionWrites pool first).length

/-- A regression is written on the count it finds, and on no date that is later than its own. -/
def RegressionWrite.IsKept (write : RegressionWrite) : Prop :=
  countOf write.found + 1 = write.regressionCount ∧
    ∀ row, write.found = some row → ∃ date, row.blockedUntil = some date ∧ date ≤ write.blockedUntil

end Runs

theorem countOf_move (pool : CooldownPool) (move : CooldownMove) :
    countOf (pool.move cooldownMachine move.toMove).state =
        countOf pool.state + (regressionWrites pool [move]).length ↔
      ∀ write ∈ regressionWrites pool [move], countOf write.found + 1 = write.regressionCount := by
  cases move with
  | regression observeDays => exact iff_of_true rfl (List.forall_mem_nil _)
  | veto days => exact iff_of_true rfl (List.forall_mem_nil _)
  | statement i reply =>
    simp only [regressionWrites, List.map_cons, List.map_nil, Pool.calls, CooldownMove.toMove,
      Pool.call, Pool.move]
    split
    · rename_i op next hi
      cases op <;> cases reply <;>
        simp [Machine.after, cooldownMachine, List.filterMap_cons, regressionWrite, countOf, Except.map,
          eq_comm]
    · simp

theorem regressionWrites_cons (pool : CooldownPool) (move : CooldownMove)
    (moves : List CooldownMove) :
    regressionWrites pool (move :: moves) =
      regressionWrites pool [move] ++
        regressionWrites (pool.move cooldownMachine move.toMove) moves := by
  simp [regressionWrites, Pool.calls, List.filterMap_append]

theorem counted_of_writes {pool : CooldownPool} {moves : List CooldownMove}
    (h : ∀ write ∈ regressionWrites pool moves, countOf write.found + 1 = write.regressionCount) :
    ∀ first, first <+: moves → countOf (cooldownRun pool first).state =
      countOf pool.state + (regressionWrites pool first).length := by
  induction moves generalizing pool with
  | nil =>
    intro first hfirst
    rw [List.prefix_nil.mp hfirst]
    rfl
  | cons move moves ih =>
    intro first hfirst
    rw [regressionWrites_cons, List.forall_mem_append] at h
    rcases List.prefix_cons_iff.mp hfirst with rfl | ⟨rest, rfl, hprefix⟩
    · rfl
    · rw [regressionWrites_cons, List.length_append, ← Nat.add_assoc, ← (countOf_move pool move).mpr h.1]
      exact ih h.2 rest hprefix

theorem cooldownsKept_of_writes {pool : CooldownPool} {moves : List CooldownMove}
    (h : ∀ write ∈ regressionWrites pool moves, write.IsKept) : CooldownsKept pool moves := by
  refine ⟨?_, ?_, counted_of_writes fun write hwrite => (h write hwrite).1⟩
  · intro write hwrite row hrow hnone
    obtain ⟨date, hdate, -⟩ := (h write hwrite).2 row hrow
    rw [hnone] at hdate
    cases hdate
  · intro write hwrite row date hrow hdate
    obtain ⟨stored, hstored, hle⟩ := (h write hwrite).2 row hrow
    rw [Option.some.inj (hdate.symm.trans hstored)]
    exact hle

/-! ## Calls in turn -/

def isWrite : CooldownCall → Bool
  | .call (.upsertRegression _ _) _ | .call (.upsertVeto _) _ => true
  | _ => false

/-- The call has read the row, and the write ahead of it is a regression's. -/
def isMidway : CooldownCall → Bool
  | .call (.upsertRegression _ _) _ => true
  | .call .now next =>
    match next (.ok 0) with
    | .call (.upsertRegression _ _) _ => true
    | _ => false
  | _ => false

/-- No write goes through between the read and the write of another call's regression. -/
def Undisturbed : CooldownPool → List CooldownMove → Prop
  | _, [] => True
  | pool, move :: moves =>
    (match move with
      | .statement i (.ok _) => pool.running[i]?.any isWrite = true →
        ∀ other ∈ pool.running.zipIdx, isMidway other.1 = true → other.2 = i
      | _ => True) ∧ Undisturbed (pool.move cooldownMachine move.toMove) moves

instance decidableUndisturbed : ∀ pool moves, Decidable (Undisturbed pool moves)
  | _, [] => isTrue trivial
  | _, move :: moves =>
    @instDecidableAnd _ _ (by split <;> infer_instance) (decidableUndisturbed _ moves)

/-- Regressions have one observe window, and vetoes are no longer than the first cooldown. -/
def CooldownMove.Steady (observeDays : Nat) : CooldownMove → Prop
  | .regression days => days = observeDays
  | .veto none => False
  | .veto (some days) => days ≤ cooldownDaysFor observeDays 1
  | .statement _ _ => True

instance (observeDays : Nat) (move : CooldownMove) : Decidable (move.Steady observeDays) := by
  unfold CooldownMove.Steady
  split <;> infer_instance

def CooldownMove.clock : CooldownMove → Option Int
  | .statement _ (.ok clock) => some clock
  | _ => none

/-- A date that a regression on the row, at the instant or later, does not fall behind. -/
def Bounded (observeDays : Nat) (now : Int) (row : Option CooldownRow) : Prop :=
  ∀ stored, row = some stored → ∃ date, stored.blockedUntil = some date ∧
    date ≤ now + cooldownDaysFor observeDays stored.regressionCount * DAY_MS

/-- How far a call has come. -/
inductive CooldownStage where
  | regression
  | read (row : Option CooldownRow)
  | timed (row : Option CooldownRow) (now : Int)
  | veto (days : Nat)
  | dated (days : Nat) (now : Int)
  | ended (result : Except String (Option Int))

section Stages
variable (observeDays : Nat)

def CooldownStage.program : CooldownStage → CooldownCall
  | .regression => recordRegression observeDays
  | .read row => (run cooldownMachine [.ok 0] (recordRegression observeDays) row).1
  | .timed row now => (run cooldownMachine [.ok 0, .ok now] (recordRegression observeDays) row).1
  | .veto days => recordManualVeto (some days)
  | .dated days now => (run cooldownMachine [.ok now] (recordManualVeto (some days)) none).1
  | .ended (.ok value) => .done value
  | .ended (.error error) => .raise error

def CooldownStage.Fits (now : Int) (row : Option CooldownRow) : CooldownStage → Prop
  | .regression | .ended _ => True
  | .read seen => seen = row
  | .timed seen clock => seen = row ∧ clock ≤ now ∧ Bounded observeDays clock row
  | .veto days => days ≤ cooldownDaysFor observeDays 1
  | .dated days clock => days ≤ cooldownDaysFor observeDays 1 ∧ clock ≤ now

/-- Every call is at some stage that fits the row and the clock. -/
structure InStages (now : Int) (pool : CooldownPool) (stages : List CooldownStage) : Prop where
  running : pool.running = stages.map (CooldownStage.program observeDays)
  row : Bounded observeDays now pool.state
  fits : ∀ stage ∈ stages, stage.Fits observeDays now pool.state

variable {observeDays} {now later : Int} {row row' : Option CooldownRow} {stage : CooldownStage}
variable {count more : Nat}

theorem cooldownDaysFor_mono (h : count ≤ more) :
    cooldownDaysFor observeDays count ≤ cooldownDaysFor observeDays more := by
  unfold cooldownDaysFor
  gcongr
  decide

theorem cooldownDaysFor_first : cooldownDaysFor observeDays 1 ≤ cooldownDaysFor observeDays count := by
  cases count with
  | zero => exact le_rfl
  | succ count => exact cooldownDaysFor_mono (Nat.le_add_left 1 count)

theorem dates_le {days : Nat} (hnow : now ≤ later) (hdays : days ≤ more) :
    now + days * DAY_MS ≤ later + more * DAY_MS :=
  add_le_add hnow (mul_le_mul_of_nonneg_right (Int.ofNat_le.mpr hdays) (by decide))

theorem Bounded.mono (h : Bounded observeDays now row) (hle : now ≤ later) :
    Bounded observeDays later row := by
  intro stored hstored
  obtain ⟨date, hdate, hbound⟩ := h stored hstored
  exact ⟨date, hdate, hbound.trans (add_le_add_left hle _)⟩

theorem CooldownStage.Fits.mono (h : stage.Fits observeDays now row) (hle : now ≤ later) :
    stage.Fits observeDays later row := by
  cases stage with
  | timed seen clock => exact ⟨h.1, h.2.1.trans hle, h.2.2⟩
  | dated days clock => exact ⟨h.1, h.2.trans hle⟩
  | _ => exact h

theorem CooldownStage.Fits.elsewhere (h : stage.Fits observeDays now row)
    (hmidway : isMidway (stage.program observeDays) = false) : stage.Fits observeDays now row' := by
  cases stage with
  | read seen => cases hmidway
  | timed seen clock => cases hmidway
  | _ => exact h

end Stages

section Steps
variable {observeDays : Nat} {now later : Int} {pool : CooldownPool} {stages : List CooldownStage}
variable {i : Nat} (h : InStages observeDays now pool stages)
include h

theorem InStages.mono (hle : now ≤ later) : InStages observeDays later pool stages :=
  ⟨h.running, h.row.mono hle, fun stage hstage => (h.fits stage hstage).mono hle⟩

theorem InStages.start (stage : CooldownStage) (hfits : stage.Fits observeDays now pool.state) :
    InStages observeDays now { pool with running := pool.running ++ [stage.program observeDays] }
      (stages ++ [stage]) := by
  refine ⟨by simp [h.running], h.row, List.forall_mem_append.mpr ⟨h.fits, ?_⟩⟩
  simpa using hfits

/-- A statement that leaves the row alone. -/
theorem InStages.goOn (stage : CooldownStage) (hfits : stage.Fits observeDays now pool.state) :
    InStages observeDays now
      { pool with running := pool.running.set i (stage.program observeDays) } (stages.set i stage) := by
  refine ⟨by rw [h.running, List.map_set], h.row, fun other hother => ?_⟩
  rcases List.mem_or_eq_of_mem_set hother with hother | rfl
  · exact h.fits other hother
  · exact hfits

/-- A write that disturbs no other call. -/
theorem InStages.write (row : CooldownRow) (result : Except String (Option Int))
    (halone : ∀ other ∈ pool.running.zipIdx, isMidway other.1 = true → other.2 = i)
    (hrow : Bounded observeDays now (some row)) :
    InStages observeDays now
      ⟨some row, pool.running.set i ((CooldownStage.ended result).program observeDays)⟩
      (stages.set i (.ended result)) := by
  refine ⟨by rw [h.running, List.map_set], hrow, fun other hother => ?_⟩
  obtain ⟨j, hj⟩ := List.mem_iff_getElem?.mp hother
  by_cases hij : i = j
  · rw [← hij, List.getElem?_set_self'] at hj
    obtain ⟨-, -, rfl⟩ := Option.map_eq_some_iff.mp hj
    trivial
  · rw [List.getElem?_set_ne hij] at hj
    refine (h.fits other (List.mem_of_getElem? hj)).elsewhere (Bool.eq_false_iff.mpr fun hmidway => ?_)
    refine hij (halone (other.program observeDays, j) ?_ hmidway).symm
    rw [List.mem_zipIdx_iff_getElem?, h.running, List.getElem?_map, hj]
    rfl

theorem InStages.statement {clock : Int} (hle : now ≤ clock)
    (hturn : pool.running[i]?.any isWrite = true →
      ∀ other ∈ pool.running.zipIdx, isMidway other.1 = true → other.2 = i) :
    (∀ write ∈ regressionWrites pool [.statement i (.ok clock)], write.IsKept) ∧
      ∃ stages', InStages observeDays clock
        (pool.move cooldownMachine (CooldownMove.statement i (.ok clock)).toMove) stages' := by
  replace h := h.mono hle
  simp only [regressionWrites, List.map_cons, List.map_nil, Pool.calls, CooldownMove.toMove,
    Pool.call, Pool.move, List.append_nil]
  cases hi : stages[i]? with
  | none =>
    rw [h.running, List.getElem?_map, hi]
    exact ⟨nofun, stages, h.running ▸ h⟩
  | some stage =>
    have hrunning : pool.running[i]? = some (stage.program observeDays) := by
      rw [h.running, List.getElem?_map, hi]
      rfl
    have hfits := h.fits stage (List.mem_of_getElem? hi)
    rw [hrunning] at hturn ⊢
    cases stage with
    | regression => exact ⟨nofun, _, h.goOn (.read pool.state) rfl⟩
    | read seen =>
      obtain rfl := hfits
      exact ⟨nofun, _, h.goOn (.timed pool.state clock) ⟨rfl, le_rfl, h.row⟩⟩
    | timed seen reading =>
      obtain ⟨rfl, hreading, hbound⟩ := hfits
      refine ⟨List.forall_mem_singleton.mpr ⟨rfl, fun row hrow => ?_⟩, _,
        h.write (regressionRow observeDays reading pool.state) (.ok (some _)) (hturn rfl) ?_⟩
      · obtain ⟨date, hdate, hle⟩ := hbound row hrow
        refine ⟨date, hdate, hle.trans (dates_le le_rfl (cooldownDaysFor_mono ?_))⟩
        rw [show pool.state = some row from hrow]
        exact Nat.le_succ _
      · rintro _ ⟨⟩
        exact ⟨_, rfl, dates_le hreading le_rfl⟩
    | veto days => exact ⟨nofun, _, h.goOn (.dated days clock) ⟨hfits, le_rfl⟩⟩
    | dated days reading =>
      refine ⟨nofun, _, h.write ⟨countOf pool.state, some (reading + days * DAY_MS)⟩ (.ok (some _))
        (hturn rfl) ?_⟩
      rintro _ ⟨⟩
      exact ⟨_, rfl, dates_le hfits.2 (hfits.1.trans cooldownDaysFor_first)⟩
    | ended result => cases result <;> exact ⟨nofun, stages, h⟩

theorem InStages.move {move : CooldownMove} (hsteady : move.Steady observeDays)
    (hclock : ∀ clock, move.clock = some clock → now ≤ clock) {moves : List CooldownMove}
    (hturn : Undisturbed pool (move :: moves)) :
    (∀ write ∈ regressionWrites pool [move], write.IsKept) ∧
      ∃ stages', InStages observeDays (move.clock.getD now)
        (pool.move cooldownMachine move.toMove) stages' := by
  cases move with
  | regression days =>
    obtain rfl : days = observeDays := hsteady
    exact ⟨nofun, _, h.start .regression trivial⟩
  | veto days =>
    cases days with
    | none => exact hsteady.elim
    | some days => exact ⟨nofun, _, h.start (.veto days) hsteady⟩
  | statement i reply =>
    cases reply with
    | ok clock => exact h.statement (hclock clock rfl) hturn.1
    | error error =>
      simp only [regressionWrites, List.map_cons, List.map_nil, Pool.calls, CooldownMove.toMove,
        Pool.call, Pool.move, List.append_nil]
      cases hi : stages[i]? with
      | none =>
        rw [h.running, List.getElem?_map, hi]
        exact ⟨nofun, stages, h.running ▸ h⟩
      | some stage =>
        rw [h.running, List.getElem?_map, hi, ← h.running]
        cases stage with
        | ended result => cases result <;> exact ⟨nofun, stages, h⟩
        | _ => exact ⟨nofun, _, h.goOn (.ended (.error error)) trivial⟩

end Steps

/-- Where no write comes between a regression's read and its write, the window stays the same
and no veto outlasts the first cooldown, a date is never lost and every regression is counted. -/
theorem cooldowns_kept {observeDays : Nat} {now : Int} {row : Option CooldownRow}
    {moves : List CooldownMove} (hrow : Bounded observeDays now row)
    (hclock : (now :: moves.filterMap CooldownMove.clock).Pairwise (· ≤ ·))
    (hsteady : ∀ move ∈ moves, move.Steady observeDays) (hturn : Undisturbed ⟨row, []⟩ moves) :
    CooldownsKept ⟨row, []⟩ moves := by
  refine cooldownsKept_of_writes ?_
  have hstages : InStages observeDays now ⟨row, []⟩ [] := ⟨rfl, hrow, nofun⟩
  revert hstages hturn
  generalize (⟨row, []⟩ : CooldownPool) = pool, ([] : List CooldownStage) = stages
  intro hturn hstages
  clear hrow
  induction moves generalizing now pool stages with
  | nil => exact nofun
  | cons move moves ih =>
    obtain ⟨hmove, hmoves⟩ := List.forall_mem_cons.mp hsteady
    rw [regressionWrites_cons, List.forall_mem_append]
    cases hread : move.clock with
    | none =>
      rw [List.filterMap_cons_none hread] at hclock
      obtain ⟨hwrites, stages', hstages'⟩ := hstages.move hmove (by simp [hread]) hturn
      rw [hread] at hstages'
      exact ⟨hwrites, ih hclock hmoves _ stages' hturn.2 hstages'⟩
    | some clock =>
      rw [List.filterMap_cons_some hread] at hclock
      obtain ⟨hnow, hrest⟩ := List.pairwise_cons.mp hclock
      obtain ⟨hwrites, stages', hstages'⟩ := hstages.move hmove (by simp [hread, hnow]) hturn
      rw [hread] at hstages'
      exact ⟨hwrites, ih hrest hmoves _ stages' hturn.2 hstages'⟩

def inTurn : List CooldownMove :=
  [.veto (some 30), .statement 0 (.ok 0), .statement 0 (.ok 0), .regression 30, .regression 30] ++
    List.replicate 3 (.statement 1 (.ok 1)) ++ List.replicate 3 (.statement 2 (.ok 2))

/-- A veto of a month and two regressions behind it, one after the other. -/
theorem cooldowns_kept_in_turn :
    (regressionWrites ⟨none, []⟩ inTurn).length = 2 ∧ CooldownsKept ⟨none, []⟩ inTurn :=
  ⟨by decide, @cooldowns_kept 30 0 none inTurn nofun (by decide) (by decide) (by decide)⟩

def vetoThenRegression (days : Option Nat) : List CooldownMove :=
  [.veto days, .statement 0 (.ok 0), .statement 0 (.ok 0), .regression 30] ++
    List.replicate 3 (.statement 1 (.ok 0))

def regressionsAtOnce : List CooldownMove :=
  [.regression 30, .regression 30, .statement 0 (.ok 0), .statement 1 (.ok 0)] ++
    List.replicate 2 (.statement 0 (.ok 0)) ++ List.replicate 2 (.statement 1 (.ok 0))

/-- A regression puts a date in the place of never again, takes a year's veto back to a month,
and of two at once counts one. -/
theorem regression_overrules_veto :
    ¬ CooldownsKept ⟨none, []⟩ (vetoThenRegression none) ∧
      ¬ CooldownsKept ⟨none, []⟩ (vetoThenRegression (some 365)) ∧
        ¬ CooldownsKept ⟨none, []⟩ regressionsAtOnce := by
  refine ⟨fun h => ?_, fun h => ?_, fun h => ?_⟩
  · exact h.never ⟨some ⟨0, none⟩, 1, 30 * DAY_MS⟩ (by decide) _ rfl rfl
  · exact absurd (h.later ⟨some ⟨0, some (365 * DAY_MS)⟩, 1, 30 * DAY_MS⟩ (by decide) _ _
      rfl rfl) (by decide)
  · exact absurd (h.counted regressionsAtOnce (List.prefix_refl _)) (by decide)

/-! ## What a regression weighs -/

def regressionWeight (cooldown : CooldownRow) (observeDays : Nat) (now : Int) : ℚ :=
  let count := cooldown.regressionCount
  if count ≤ 0 then 0
  else match cooldown.blockedUntil with
    | none => count
    | some blockedUntil =>
      let span : Int := cooldownDaysFor observeDays count * DAY_MS
      let past := now - blockedUntil
      if span ≤ 0 then count
      else if past ≤ 0 then count
      else if span ≤ past then 0
      else count * (1 - past / span)

section Weight
variable {observeDays reading count : Nat}

/-- What is left of a span when some of it is past. -/
def leftOf (past span : Int) : ℚ := max 0 (min 1 (1 - past / span))

theorem leftOf_nonneg (past span : Int) : 0 ≤ leftOf past span := le_max_left _ _

theorem leftOf_le_one (past span : Int) : leftOf past span ≤ 1 :=
  max_le zero_le_one (min_le_left _ _)

section Span
variable {past past' span span' : Int} (hspan : 0 < span)
include hspan

theorem leftOf_before (h : past ≤ 0) : leftOf past span = 1 := by
  have hgone : (past / span : ℚ) ≤ 0 :=
    div_nonpos_of_nonpos_of_nonneg (Int.cast_nonpos.mpr h) (Int.cast_nonneg hspan.le)
  rw [leftOf, min_eq_left (by linarith), max_eq_right zero_le_one]

theorem leftOf_after (h : span ≤ past) : leftOf past span = 0 := by
  have hgone : (1 : ℚ) ≤ past / span := (one_le_div (Int.cast_pos.mpr hspan)).mpr (Int.cast_le.mpr h)
  exact max_eq_left (min_le_of_right_le (by linarith))

theorem leftOf_within (hpos : 0 ≤ past) (hle : past ≤ span) :
    leftOf past span = 1 - past / span := by
  have hnone : (0 : ℚ) ≤ past / span := div_nonneg (Int.cast_nonneg hpos) (Int.cast_nonneg hspan.le)
  have hall : (past / span : ℚ) ≤ 1 := (div_le_one (Int.cast_pos.mpr hspan)).mpr (Int.cast_le.mpr hle)
  rw [leftOf, min_eq_right (by linarith), max_eq_right (by linarith)]

theorem leftOf_le_leftOf (hspans : span ≤ span') (hpast : past' ≤ past) :
    leftOf past span ≤ leftOf past' span' := by
  rcases le_total past' 0 with hbefore | hpos
  · rw [leftOf_before (hspan.trans_le hspans) hbefore]
    exact leftOf_le_one _ _
  · have hgone : (past' / span' : ℚ) ≤ past / span :=
      div_le_div₀ (Int.cast_nonneg (hpos.trans hpast)) (Int.cast_le.mpr hpast)
        (Int.cast_pos.mpr hspan) (Int.cast_le.mpr hspans)
    exact max_le_max le_rfl (min_le_min le_rfl (sub_le_sub_left hgone 1))

end Span

def spanFor (observeDays count : Nat) : Int := cooldownDaysFor observeDays count * DAY_MS

theorem spanFor_pos (h : 0 < observeDays) : 0 < spanFor observeDays count := by
  have hdays : 0 < cooldownDaysFor observeDays count :=
    lt_min (by decide) (Nat.mul_pos h (Nat.mul_pos Nat.one_pos (Nat.two_pow_pos _)))
  exact mul_pos (Int.natCast_pos.mpr hdays) (by decide)

theorem spanFor_mono {more : Nat} (h : count ≤ more) :
    spanFor observeDays count ≤ spanFor observeDays more := by
  exact mul_le_mul_of_nonneg_right (Int.ofNat_le.mpr (cooldownDaysFor_mono h)) (by decide)

theorem regressionWeight_eq (hreading : 0 < reading) (blockedUntil now : Int) :
    regressionWeight ⟨count, some blockedUntil⟩ reading now =
      count * leftOf (now - blockedUntil) (spanFor reading count) := by
  have hspan : 0 < spanFor reading count := spanFor_pos hreading
  have hdays : (cooldownDaysFor reading count * DAY_MS : Int) = spanFor reading count := rfl
  simp only [regressionWeight, hdays, if_neg hspan.not_ge]
  split_ifs with hcount hbefore hafter
  · rw [Nat.le_zero.mp hcount, Nat.cast_zero, zero_mul]
  · rw [leftOf_before hspan hbefore, mul_one]
  · rw [leftOf_after hspan hafter, mul_zero]
  · rw [leftOf_within hspan (not_le.mp hbefore).le (not_le.mp hafter).le]

end Weight

/-- The weight of the row `recordRegression` writes is its count until its cooldown ends and fades
to nothing over one further span; one regression more never weighs less. -/
theorem regressionWeight_fades (observeDays reading : Nat) (hreading : 0 < reading) (instant : Int)
    (found : Option CooldownRow) :
    let row := regressionRow observeDays instant found
    let ends := instant + cooldownDaysFor observeDays row.regressionCount * DAY_MS
    let again := regressionRow observeDays instant (some row)
    (∀ found, (run cooldownMachine (List.replicate 3 (.ok instant)) (recordRegression observeDays)
      found).2 = some (regressionRow observeDays instant found)) ∧
    row.blockedUntil = some ends ∧
      (∀ now, 0 ≤ regressionWeight row reading now ∧
        regressionWeight row reading now ≤ row.regressionCount) ∧
      (∀ now ≤ ends, regressionWeight row reading now = row.regressionCount) ∧
      Antitone (regressionWeight row reading) ∧
      (∀ now, ends + cooldownDaysFor reading row.regressionCount * DAY_MS ≤ now →
        regressionWeight row reading now = 0) ∧
      again.regressionCount = row.regressionCount + 1 ∧
      ∀ now, regressionWeight row reading now ≤ regressionWeight again reading now := by
  intro row ends again
  have hspan {count : Nat} : 0 < spanFor reading count := spanFor_pos hreading
  have hcount : (0 : ℚ) ≤ row.regressionCount := Nat.cast_nonneg _
  have hweight (now : Int) : regressionWeight row reading now =
      row.regressionCount * leftOf (now - ends) (spanFor reading row.regressionCount) :=
    regressionWeight_eq hreading ends now
  refine ⟨fun _ => rfl, rfl, fun now => ?_, fun now hnow => ?_, fun now later hle => ?_, fun now hnow => ?_, rfl,
    fun now => ?_⟩
  · rw [hweight]
    exact ⟨mul_nonneg hcount (leftOf_nonneg _ _), mul_le_of_le_one_right hcount (leftOf_le_one _ _)⟩
  · rw [hweight, leftOf_before hspan (by omega), mul_one]
  · rw [hweight, hweight]
    exact mul_le_mul_of_nonneg_left (leftOf_le_leftOf hspan le_rfl (by omega)) hcount
  · rw [hweight, leftOf_after hspan (by unfold spanFor; omega), mul_zero]
  · have hends : now - (instant + spanFor observeDays again.regressionCount) ≤ now - ends :=
      sub_le_sub_left (add_le_add_right (spanFor_mono (Nat.le_succ _)) instant) now
    have hleft := leftOf_le_leftOf (@hspan row.regressionCount) (spanFor_mono (Nat.le_succ _)) hends
    rw [hweight]
    exact (mul_le_mul (Nat.cast_le.mpr (Nat.le_succ _)) hleft (leftOf_nonneg _ _)
      (Nat.cast_nonneg _)).trans (regressionWeight_eq hreading _ now).ge

theorem regressionWeight_month :
    regressionWeight (regressionRow 30 0 none) 30 (30 * DAY_MS) = 1 ∧
      regressionWeight (regressionRow 30 0 none) 30 (60 * DAY_MS) = 0 := by
  have h := regressionWeight_fades 30 30 (by decide) 0 none
  exact ⟨(h.2.2.2.1 _ (by decide)).trans Nat.cast_one, h.2.2.2.2.2.1 _ (by decide)⟩

end Indexterity
