import Indexterity.Service.Passes

/-!
# Graduation: a run of builds on one collection

The graduating half of the post-build watch of `jobs/finalize.ts`, over all the passes of a run of
builds on one collection. A build keeps the write totals from before it until it graduates. A pass
takes the builds that still keep theirs when it begins; at the first graduation of one that is
younger than the oldest of them it compares the live totals with that oldest baseline, and never
again in the pass.

None of the builds regresses on its own, so each one of them ends its watch by graduating.
-/

namespace Indexterity.Graduation

open Service (CUMULATIVE_REGRESSION_OPTIONS)

/-- The baseline a graduating build is held against: the oldest of the chain, unless the build is
no younger. -/
def heldAgainst (chain : List BuildBaseline) (build : BuildBaseline) : Option LatencySample :=
  match oldestLiveBaseline chain with
  | none => none
  | some oldest => if build.builtAt ≤ oldest.builtAt then none else some oldest.baseline

theorem runBaseline_eq (watched : List Service.Recommendation) {rec : Service.Recommendation}
    {build : BuildBaseline} (h : rec.buildBaseline = some build) :
    Service.runBaseline watched rec = heldAgainst (Service.chain watched rec) build := by
  have hbuilt : rec.builtAt.getD 0 = build.builtAt := by
    unfold Service.Recommendation.buildBaseline at h
    split at h
    · rename_i hbuilt _ _
      obtain rfl := Option.some.inj h
      rw [hbuilt]
      rfl
    · cases h
  rw [heldAgainst, ← hbuilt]
  rfl

/-- A build that graduates, and the live totals that are read if it is judged. -/
structure GraduationStep where
  build : BuildBaseline
  writes : LatencySample
deriving DecidableEq, Repr

inductive RunEvent where
  | build (build : BuildBaseline)
  /-- A pass, by the builds that graduate in it. -/
  | pass (steps : List GraduationStep)
deriving DecidableEq, Repr

structure RunState where
  /-- The builds that have not graduated. -/
  live : List BuildBaseline
  /-- The regressions recorded for the whole collection. -/
  recorded : Nat
deriving DecidableEq, Repr

/-- The namespace is reported, and the regressions recorded. -/
structure PassState where
  reported : Bool
  recorded : Nat

def judgeCumulative (chain : List BuildBaseline) (s : PassState) (step : GraduationStep) :
    PassState :=
  if s.reported then s
  else
    match heldAgainst chain step.build with
    | none => s
    | some baseline =>
      if evaluateRegression baseline step.writes CUMULATIVE_REGRESSION_OPTIONS = .REGRESSED then
        ⟨true, s.recorded + 1⟩
      else ⟨true, s.recorded⟩

def RunState.after (s : RunState) : RunEvent → RunState
  | .build b => { s with live := s.live ++ [b] }
  | .pass steps =>
    { live := s.live.filter fun b => decide (b ∉ steps.map GraduationStep.build)
      recorded := (steps.foldl (judgeCumulative s.live) ⟨false, s.recorded⟩).recorded }

def RunState.afterAll (s : RunState) (events : List RunEvent) : RunState :=
  events.foldl RunState.after s

def RunState.start : RunState := ⟨[], 0⟩

/-! ## What a pass records -/

def Regresses (chain : List BuildBaseline) (step : GraduationStep) : Prop :=
  ∃ baseline, heldAgainst chain step.build = some baseline ∧
    evaluateRegression baseline step.writes CUMULATIVE_REGRESSION_OPTIONS = .REGRESSED

def PassRegresses (chain : List BuildBaseline) (steps : List GraduationStep) : Prop :=
  ∃ earlier step later, steps = earlier ++ step :: later ∧
    (∀ other ∈ earlier, heldAgainst chain other.build = none) ∧ Regresses chain step

theorem foldl_judgeCumulative_reported (chain : List BuildBaseline) (steps : List GraduationStep)
    {s : PassState} (h : s.reported = true) : steps.foldl (judgeCumulative chain) s = s :=
  List.foldl_fixed' (fun step => show judgeCumulative chain s step = s from if_pos h) steps

theorem passRegresses_iff {chain : List BuildBaseline} {steps : List GraduationStep} :
    PassRegresses chain steps ↔
      ∃ step ∈ steps.find? fun step => (heldAgainst chain step.build).isSome,
        Regresses chain step := by
  constructor
  · rintro ⟨earlier, step, later, rfl, hearlier, hregresses⟩
    refine ⟨step, List.find?_eq_some_iff_append.mpr ⟨?_, earlier, later, rfl, ?_⟩, hregresses⟩
    · obtain ⟨baseline, hheld, -⟩ := hregresses
      rw [hheld]
      rfl
    · simpa using hearlier
  · rintro ⟨step, hfind, hregresses⟩
    obtain ⟨-, earlier, later, rfl, hearlier⟩ := List.find?_eq_some_iff_append.mp hfind
    exact ⟨earlier, step, later, rfl, by simpa using hearlier, hregresses⟩

theorem recorded_pass (chain : List BuildBaseline) (steps : List GraduationStep) (count : Nat) :
    (PassRegresses chain steps ∧
      (steps.foldl (judgeCumulative chain) ⟨false, count⟩).recorded = count + 1) ∨
    (¬ PassRegresses chain steps ∧
      (steps.foldl (judgeCumulative chain) ⟨false, count⟩).recorded = count) := by
  rw [passRegresses_iff]
  induction steps with
  | nil => exact .inr ⟨by simp, rfl⟩
  | cons step steps ih =>
    rw [List.foldl_cons, List.find?_cons]
    cases hheld : heldAgainst chain step.build with
    | none =>
      have hstep : judgeCumulative chain ⟨false, count⟩ step = ⟨false, count⟩ := by
        simp [judgeCumulative, hheld]
      rw [hstep]
      exact ih
    | some baseline =>
      by_cases hverdict : evaluateRegression baseline step.writes
          CUMULATIVE_REGRESSION_OPTIONS = .REGRESSED
      · have hstep : judgeCumulative chain ⟨false, count⟩ step = ⟨true, count + 1⟩ := by
          simp [judgeCumulative, hheld, hverdict]
        rw [hstep, foldl_judgeCumulative_reported chain steps rfl]
        exact .inl ⟨⟨step, rfl, baseline, hheld, hverdict⟩, rfl⟩
      · have hstep : judgeCumulative chain ⟨false, count⟩ step = ⟨true, count⟩ := by
          simp [judgeCumulative, hheld, hverdict]
        rw [hstep, foldl_judgeCumulative_reported chain steps rfl]
        refine .inr ⟨?_, rfl⟩
        rintro ⟨_, ⟨⟩, other, hother, hregressed⟩
        obtain rfl := Option.some.inj (hheld.symm.trans hother)
        exact hverdict hregressed

def SomePassRegresses (s : RunState) (events : List RunEvent) : Prop :=
  ∃ before steps after, events = before ++ .pass steps :: after ∧
    PassRegresses (s.afterAll before).live steps

theorem somePassRegresses_cons (s : RunState) (event : RunEvent) (events : List RunEvent) :
    SomePassRegresses s (event :: events) ↔
      (∃ steps, event = .pass steps ∧ PassRegresses s.live steps) ∨
        SomePassRegresses (s.after event) events := by
  constructor
  · rintro ⟨before, steps, after, hevents, hregresses⟩
    cases before with
    | nil =>
      obtain ⟨rfl, -⟩ := List.cons.inj hevents
      exact .inl ⟨steps, rfl, hregresses⟩
    | cons first before =>
      obtain ⟨rfl, hrest⟩ := List.cons.inj hevents
      exact .inr ⟨before, steps, after, hrest, hregresses⟩
  · rintro (⟨steps, rfl, hregresses⟩ | ⟨before, steps, after, rfl, hregresses⟩)
    · exact ⟨[], steps, events, rfl, hregresses⟩
    · exact ⟨event :: before, steps, after, rfl, hregresses⟩

theorem recorded_le_afterAll (s : RunState) (events : List RunEvent) :
    s.recorded ≤ (s.afterAll events).recorded := by
  induction events generalizing s with
  | nil => exact le_rfl
  | cons event events ih =>
    refine le_trans ?_ (ih (s.after event))
    cases event with
    | build b => exact le_rfl
    | pass steps =>
      rcases recorded_pass s.live steps s.recorded with ⟨-, h⟩ | ⟨-, h⟩
      · exact (Nat.le_succ _).trans h.ge
      · exact h.ge

theorem recorded_afterAll (s : RunState) (events : List RunEvent) :
    s.recorded < (s.afterAll events).recorded ↔ SomePassRegresses s events := by
  induction events generalizing s with
  | nil =>
    refine iff_of_false (lt_irrefl _) ?_
    rintro ⟨before, steps, after, hevents, -⟩
    cases before <;> cases hevents
  | cons event events ih =>
    have hrest := ih (s.after event)
    have hmono := recorded_le_afterAll (s.after event) events
    rw [somePassRegresses_cons]
    change s.recorded < ((s.after event).afterAll events).recorded ↔ _
    cases event with
    | build b =>
      refine hrest.trans ⟨.inr, fun hor => hor.resolve_left ?_⟩
      rintro ⟨steps, hsteps, -⟩
      cases hsteps
    | pass steps =>
      rcases recorded_pass s.live steps s.recorded with ⟨hregresses, h⟩ | ⟨hnone, h⟩
      · have hnext : (s.after (.pass steps)).recorded = s.recorded + 1 := h
        exact iff_of_true (by omega) (.inl ⟨steps, rfl, hregresses⟩)
      · have hnext : (s.after (.pass steps)).recorded = s.recorded := h
        rw [hnext] at hrest
        refine hrest.trans ⟨.inr, fun hor => hor.resolve_left ?_⟩
        rintro ⟨steps', hsteps, hregresses⟩
        obtain rfl := RunEvent.pass.inj hsteps
        exact hnone hregresses

/-! ## A run of builds -/

/-- Every build but the first comes while the one before it is live. -/
def Overlapping (s : RunState) (previous : Option BuildBaseline) : List RunEvent → Prop
  | [] => True
  | .build b :: events =>
    (∀ p ∈ previous, p ∈ s.live ∧ p.builtAt < b.builtAt) ∧
      Overlapping (s.after (.build b)) (some b) events
  | .pass steps :: events =>
    (∀ step ∈ steps, step.build ∈ s.live) ∧ Overlapping (s.after (.pass steps)) previous events

def buildsOf (events : List RunEvent) : List BuildBaseline :=
  events.filterMap fun event =>
    match event with
    | .build b => some b
    | .pass _ => none

/-- A run of builds up to the pass in which the last of them graduates. -/
structure BuildRun where
  events : List RunEvent
  last : List GraduationStep
  first : BuildBaseline
  final : GraduationStep
  overlapping : Overlapping .start none (events ++ [.pass last])
  starts : (buildsOf events).head? = some first
  ends : (buildsOf events).getLast? = some final.build
  graduates : final ∈ last

namespace BuildRun

def Regressed (run : BuildRun) : Prop :=
  evaluateRegression run.first.baseline run.final.writes CUMULATIVE_REGRESSION_OPTIONS = .REGRESSED

def Recorded (run : BuildRun) : Prop :=
  0 < (RunState.start.afterAll (run.events ++ [.pass run.last])).recorded

end BuildRun

/-- A row is held against the baseline that a build of its chain is held against here. And a
collection that a run of builds has slowed is recorded as regressed, exactly when in some pass of
the run the first build to graduate that is younger than the oldest one still live when the pass
began finds the totals regressed against that oldest one's baseline. -/
theorem slowed_run_recorded_iff (run : BuildRun) :
    (∀ (watched : List Service.Recommendation) (rec : Service.Recommendation)
        (build : BuildBaseline), rec.buildBaseline = some build →
      Service.runBaseline watched rec = heldAgainst (Service.chain watched rec) build) ∧
    ((run.Regressed → run.Recorded) ↔
      (run.Regressed → SomePassRegresses .start (run.events ++ [.pass run.last]))) :=
  ⟨fun watched _ _ hbuild => runBaseline_eq watched hbuild,
    imp_congr_right fun _ => recorded_afterAll .start _⟩

/-! ## A build that graduates before the next -/

/-- Two builds of one collection, with the write totals from before each. -/
def firstBuild : BuildBaseline := ⟨0, ⟨1000, 100000⟩⟩

def secondBuild : BuildBaseline := ⟨1, ⟨2000, 228000⟩⟩

/-- The first build graduates in one pass and the second in the next. -/
def apartRun : BuildRun where
  events := [.build firstBuild, .build secondBuild, .pass [⟨firstBuild, ⟨2000, 228000⟩⟩]]
  last := [⟨secondBuild, ⟨3000, 362000⟩⟩]
  first := firstBuild
  final := ⟨secondBuild, ⟨3000, 362000⟩⟩
  overlapping := by simp [Overlapping, RunState.start, RunState.after, firstBuild, secondBuild]
  starts := rfl
  ends := rfl
  graduates := List.mem_cons_self

/-- The writes of the collection are 31 percent slower than before the run, neither build is more
than 30 percent slower than its own baseline, and nothing is recorded. -/
theorem apartRun_not_recorded :
    apartRun.Regressed ∧ ¬ apartRun.Recorded ∧
      evaluateRegression firstBuild.baseline ⟨2000, 228000⟩ CUMULATIVE_REGRESSION_OPTIONS =
        .STABLE ∧
      evaluateRegression secondBuild.baseline ⟨3000, 362000⟩ CUMULATIVE_REGRESSION_OPTIONS =
        .STABLE := by
  unfold BuildRun.Regressed BuildRun.Recorded
  decide +kernel

end Indexterity.Graduation
