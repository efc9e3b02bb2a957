import Mathlib.Tactic
import Indexterity.Library.Newest
import Indexterity.Runs

/-!
# Schedule: the occurrences of a pass

`jobs/schedule.ts`. Every pass has its most recent occurrence at or before an instant: a whole
number of minutes past the hour, a time of the day or a time on a day of the week, in UTC. An
instant is a number of milliseconds since the epoch, and the setters of a date are those of
the language: a day has 86400000 milliseconds, and a date of a month is counted from the day
the month begins on.
-/

namespace Indexterity

open Library

def MINUTE_MS : Int := 60000

/-! ## Dates -/

def dayOf (t : Int) : Int := t / DAY_MS

def timeWithinDay (t : Int) : Int := t % DAY_MS

def getUTCHours (t : Int) : Int := t / HOUR_MS % 24

def getUTCMinutes (t : Int) : Int := t / MINUTE_MS % 60

def getUTCSeconds (t : Int) : Int := t / 1000 % 60

def getUTCMilliseconds (t : Int) : Int := t % 1000

def getUTCDay (t : Int) : Int := (4 + dayOf t) % 7

def makeTime (hour minute second ms : Int) : Int :=
  hour * HOUR_MS + minute * MINUTE_MS + second * 1000 + ms

def makeDate (day time : Int) : Int := day * DAY_MS + time

def setUTCSeconds (t second ms : Int) : Int :=
  makeDate (dayOf t) (makeTime (getUTCHours t) (getUTCMinutes t) second ms)

def setUTCMinutes (t minute : Int) : Int :=
  makeDate (dayOf t) (makeTime (getUTCHours t) minute (getUTCSeconds t) (getUTCMilliseconds t))

def setUTCHours (t hour minute second ms : Int) : Int :=
  makeDate (dayOf t) (makeTime hour minute second ms)

variable {fastMinutes : Nat} {hour minute : Int}

section Calendar

-- the day on which the month of a day begins
variable (monthStart : Int → Int)

def getUTCDate (t : Int) : Int := dayOf t - monthStart (dayOf t) + 1

def setUTCDate (t date : Int) : Int :=
  makeDate (monthStart (dayOf t) + date - 1) (timeWithinDay t)

theorem setUTCDate_sub (t days : Int) :
    setUTCDate monthStart t (getUTCDate monthStart t - days) = t - days * DAY_MS := by
  simp only [setUTCDate, getUTCDate, makeDate, dayOf, timeWithinDay, DAY_MS]
  omega

/-! ## Occurrences -/

def everyMinutes (minutes : Nat) (now : Int) : Int :=
  let start := setUTCSeconds now 0 0
  setUTCMinutes start (getUTCMinutes start / minutes * minutes)

def dailyAt (hour minute : Int) (now : Int) : Int :=
  let start := setUTCHours now hour minute 0 0
  if now < start then setUTCDate monthStart start (getUTCDate monthStart start - 1) else start

def weeklyAt (weekday hour minute : Int) (now : Int) : Int :=
  let start := setUTCHours now hour minute 0 0
  let back := (getUTCDay start - weekday + 7) % 7
  let start := setUTCDate monthStart start (getUTCDate monthStart start - back)
  if now < start then setUTCDate monthStart start (getUTCDate monthStart start - 7) else start

inductive TaskName where
  | scheduleCollect
  | scheduleSuggest
  | scheduleApply
  | scheduleProbe
  | scheduleFinalize
  | retention
  | digest
deriving DecidableEq, Repr

/-- `BURST_SCHEDULE`. -/
def TaskName.occurrenceAt (fastMinutes : Nat) : TaskName → Int → Int
  | .scheduleCollect | .scheduleSuggest | .scheduleFinalize => everyMinutes 60
  | .scheduleApply | .scheduleProbe => everyMinutes fastMinutes
  | .retention => dailyAt monthStart 3 0
  | .digest => weeklyAt monthStart 1 9 0

def BURST_SCHEDULE : List TaskName :=
  [.scheduleCollect, .scheduleSuggest, .scheduleApply, .scheduleProbe, .scheduleFinalize,
    .retention, .digest]

/-! ## The latest occurrence -/

def minuteMarks (minutes : Nat) : Set Int :=
  {s | s % MINUTE_MS = 0 ∧ getUTCMinutes s % minutes = 0}

def dayMarks (hour minute : Int) : Set Int := {s | timeWithinDay s = makeTime hour minute 0 0}

def weekMarks (weekday hour minute : Int) : Set Int :=
  {s | timeWithinDay s = makeTime hour minute 0 0 ∧ getUTCDay s = weekday}

theorem everyMinutes_eq (minutes : Nat) (now : Int) :
    everyMinutes minutes now =
      now / HOUR_MS * HOUR_MS + getUTCMinutes now / minutes * minutes * MINUTE_MS := by
  have hstart : setUTCSeconds now 0 0 =
      now / HOUR_MS * HOUR_MS + getUTCMinutes now * MINUTE_MS := by
    simp only [setUTCSeconds, makeDate, makeTime, dayOf, getUTCHours, getUTCMinutes, DAY_MS, HOUR_MS,
      MINUTE_MS]
    omega
  have hbounds : 0 ≤ getUTCMinutes now ∧ getUTCMinutes now < 60 := by
    unfold getUTCMinutes
    omega
  unfold everyMinutes
  dsimp only
  rw [hstart]
  generalize getUTCMinutes now = minute at hbounds ⊢
  have hminute : getUTCMinutes (now / HOUR_MS * HOUR_MS + minute * MINUTE_MS) = minute := by
    simp only [getUTCMinutes, HOUR_MS, MINUTE_MS]
    omega
  rw [hminute]
  generalize minute / minutes * minutes = marked
  simp only [setUTCMinutes, makeDate, makeTime, dayOf, getUTCHours, getUTCSeconds,
    getUTCMilliseconds, DAY_MS, HOUR_MS, MINUTE_MS]
  omega

theorem latest_everyMinutes (minutes : Nat) (hpos : 0 < minutes) :
    Latest (minuteMarks minutes) (everyMinutes minutes) := by
  intro now
  have hbounds : 0 ≤ getUTCMinutes now ∧ getUTCMinutes now < 60 := by
    unfold getUTCMinutes
    omega
  have hminutes : (0 : Int) < minutes := by exact_mod_cast hpos
  have hmarked : 0 ≤ getUTCMinutes now / minutes * minutes ∧
      getUTCMinutes now / minutes * minutes ≤ getUTCMinutes now :=
    ⟨mul_nonneg (Int.ediv_nonneg hbounds.1 hminutes.le) hminutes.le,
      Int.ediv_mul_le _ hminutes.ne'⟩
  rw [everyMinutes_eq minutes]
  generalize hlast : getUTCMinutes now / minutes * minutes = marked at hmarked ⊢
  refine ⟨⟨⟨?_, ?_⟩, ?_⟩, ?_⟩
  · simp only [HOUR_MS, MINUTE_MS]
    omega
  · have hmark : getUTCMinutes (now / HOUR_MS * HOUR_MS + marked * MINUTE_MS) = marked := by
      simp only [getUTCMinutes, HOUR_MS, MINUTE_MS] at hmarked hbounds ⊢
      omega
    rw [hmark, ← hlast]
    exact Int.mul_emod_left _ _
  · simp only [getUTCMinutes, HOUR_MS, MINUTE_MS] at hmarked hbounds ⊢
    omega
  · rintro s ⟨⟨hwhole, hmark⟩, hle⟩
    have hs : s = s / HOUR_MS * HOUR_MS + getUTCMinutes s * MINUTE_MS := by
      simp only [getUTCMinutes, HOUR_MS, MINUTE_MS] at hwhole ⊢
      omega
    obtain hhour | hhour := lt_or_ge (s / HOUR_MS) (now / HOUR_MS)
    · -- an earlier hour is over before this one begins
      simp only [getUTCMinutes, HOUR_MS, MINUTE_MS] at hs hhour hmarked ⊢
      omega
    · have hsame : s / HOUR_MS = now / HOUR_MS := by
        simp only [HOUR_MS] at hhour ⊢
        omega
      have hminute : getUTCMinutes s ≤ getUTCMinutes now := by
        simp only [getUTCMinutes, HOUR_MS, MINUTE_MS] at hs hsame ⊢
        omega
      have hdiv : getUTCMinutes s = getUTCMinutes s / minutes * minutes :=
        (Int.ediv_mul_cancel (Int.dvd_of_emod_eq_zero hmark)).symm
      have hmarks : getUTCMinutes s ≤ marked := by
        rw [hdiv, ← hlast]
        exact mul_le_mul_of_nonneg_right (Int.ediv_le_ediv hminutes hminute) hminutes.le
      rw [hs, hsame]
      simp only [MINUTE_MS]
      omega

section
variable (hhour : 0 ≤ hour ∧ hour < 24) (hminute : 0 ≤ minute ∧ minute < 60)
include hhour hminute

theorem setUTCHours_day (now : Int) :
    dayOf (setUTCHours now hour minute 0 0) = dayOf now ∧
      timeWithinDay (setUTCHours now hour minute 0 0) = makeTime hour minute 0 0 := by
  simp only [setUTCHours, makeDate, makeTime, timeWithinDay, dayOf, DAY_MS, HOUR_MS, MINUTE_MS]
  omega

theorem latest_dailyAt :
    Latest (dayMarks hour minute) (dailyAt monthStart hour minute) := by
  intro now
  obtain ⟨hday, htime⟩ := setUTCHours_day hhour hminute now
  unfold dailyAt
  dsimp only
  rw [setUTCDate_sub]
  generalize setUTCHours now hour minute 0 0 = start at hday htime ⊢
  change IsGreatest {s | timeWithinDay s = makeTime hour minute 0 0 ∧ s ≤ now} _
  rw [← htime]
  simp only [timeWithinDay, dayOf, DAY_MS] at hday ⊢
  split_ifs with hlt
  · refine ⟨⟨?_, ?_⟩, ?_⟩
    · omega
    · omega
    · rintro s ⟨hmark, hle⟩
      omega
  · refine ⟨⟨rfl, ?_⟩, ?_⟩
    · omega
    · rintro s ⟨hmark, hle⟩
      omega

end

theorem latest_weeklyAt {weekday : Int} (hweekday : 0 ≤ weekday ∧ weekday < 7)
    (hhour : 0 ≤ hour ∧ hour < 24) (hminute : 0 ≤ minute ∧ minute < 60) :
    Latest (weekMarks weekday hour minute) (weeklyAt monthStart weekday hour minute) := by
  intro now
  obtain ⟨hday, htime⟩ := setUTCHours_day hhour hminute now
  unfold weeklyAt
  simp only [setUTCDate_sub]
  generalize setUTCHours now hour minute 0 0 = start at hday htime ⊢
  change IsGreatest {s | (timeWithinDay s = makeTime hour minute 0 0 ∧ getUTCDay s = weekday) ∧
    s ≤ now} _
  rw [← htime]
  simp only [timeWithinDay, getUTCDay, dayOf, DAY_MS] at hday ⊢
  split_ifs with hlt
  · refine ⟨⟨⟨?_, ?_⟩, ?_⟩, ?_⟩
    · omega
    · omega
    · omega
    · rintro s ⟨⟨hmark, hweek⟩, hle⟩
      omega
  · refine ⟨⟨⟨?_, ?_⟩, ?_⟩, ?_⟩
    · omega
    · omega
    · omega
    · rintro s ⟨⟨hmark, hweek⟩, hle⟩
      omega

def TaskName.occurrences (fastMinutes : Nat) : TaskName → Set Int
  | .scheduleCollect | .scheduleSuggest | .scheduleFinalize => minuteMarks 60
  | .scheduleApply | .scheduleProbe => minuteMarks fastMinutes
  | .retention => dayMarks 3 0
  | .digest => weekMarks 1 9 0

theorem latest_occurrenceAt (hpos : 0 < fastMinutes) (task : TaskName) :
    Latest (task.occurrences fastMinutes) (task.occurrenceAt monthStart fastMinutes) := by
  cases task with
  | scheduleApply => exact latest_everyMinutes fastMinutes hpos
  | scheduleProbe => exact latest_everyMinutes fastMinutes hpos
  | retention => exact latest_dailyAt monthStart (by decide) (by decide)
  | digest => exact latest_weeklyAt monthStart (by decide) (by decide) (by decide)
  | _ => exact latest_everyMinutes 60 (by decide)

/-! ## What is due -/

/-- `duePasses`: the passes whose latest occurrence came after they were last dispatched. -/
def duePasses (fastMinutes : Nat) (now : Int) (lastDispatchedAt : TaskName → Option Int) :
    List (TaskName × Int) :=
  (BURST_SCHEDULE.map fun task => (task, task.occurrenceAt monthStart fastMinutes now)).filter
    fun due =>
      match lastDispatchedAt due.1 with
      | none => true
      | some last => decide (last < due.2)

/-- `occurrenceMoved`: some pass has a newer occurrence at `now` than it had at `since`. -/
def occurrenceMoved (since now : Int) (fastMinutes : Nat) : Bool :=
  BURST_SCHEDULE.any fun task => decide
    (task.occurrenceAt monthStart fastMinutes since < task.occurrenceAt monthStart fastMinutes now)

theorem occurrenceAt_le_of_unmoved {since now : Int}
    (h : occurrenceMoved monthStart since now fastMinutes = false) (task : TaskName) :
    task.occurrenceAt monthStart fastMinutes now ≤ task.occurrenceAt monthStart fastMinutes since :=
  not_lt.mp (of_decide_eq_false
    (Bool.eq_false_iff.mpr (List.any_eq_false.mp h task (by cases task <;> decide))))

end Calendar

end Indexterity
