import Indexterity.Service.World

/-!
# Cron builds: indexes that a scheduler builds

The route of `postgres/cron-apply.ts` and `postgres/executor.ts` for a role that owns nothing.
`create` asks for the holder of the name and has `apply_index` schedule a job under the name of
the index; the job runs again and again; `settleBuild` reads the catalog, then the last run of
the job, and removes the job with its answer. Between two queries of one call, other calls make
theirs and runs start and finish.

The scheduler keeps one job for a name, whatever database it is for. Without the route to it
`settleBuild` answers `FAILED` at once and leaves the job. No query fails.
-/

namespace Indexterity.Cron

open Service (CronRun IndexBuildSettlement)

/-- The arguments of `apply_index`, which the statement of the job is made of. -/
structure CronBuild where
  database : String
  schema : String
  table : String
  indexName : String
  columns : List (String × Bool)
  isUnique : Bool
  includeColumns : List String
deriving DecidableEq, Repr

abbrev IndexKey := String × String × String

def CronBuild.index (b : CronBuild) : IndexKey := (b.database, b.schema, b.indexName)

/-- An index in the catalog. While a run builds it, it is as invalid as what a failure leaves. -/
inductive IndexState where
  | missing
  | building (run : Nat)
  | carcass
  | valid
deriving DecidableEq, Repr

/-- A row of `cron.job`. -/
structure CronJob where
  jobid : Nat
  build : CronBuild
deriving DecidableEq, Repr

/-- A row of `cron.job_run_details`, with the state a finished run left its index in. -/
structure JobRun where
  jobid : Nat
  build : CronBuild
  status : CronRun
  left : Option IndexState
deriving DecidableEq, Repr

/-- A call between two of its queries. -/
inductive Call where
  /-- Nothing holds the name; `apply_index` is next. -/
  | creating (b : CronBuild)
  /-- The catalog showed no valid index; the last run is next. -/
  | settling (b : CronBuild)
  /-- The job is removed next, and this is the answer. -/
  | finishing (b : CronBuild) (answer : IndexBuildSettlement)
deriving DecidableEq

def Call.build : Call → CronBuild
  | creating b => b
  | settling b => b
  | finishing b _ => b

structure CronServer where
  indexes : IndexKey → IndexState
  jobs : String → Option CronJob
  nextJobid : Nat
  /-- In the order of their starts. -/
  runs : List JobRun
  calls : List Call
  /-- Scheduled, and not yet answered `READY` or `FAILED`. -/
  unsettled : List CronBuild

inductive RunOutcome where
  | ok
  | error (message : String) (leavesCarcass : Bool)
deriving DecidableEq, Repr

def RunOutcome.status : RunOutcome → CronRun
  | .ok => .succeeded
  | .error message _ => .failed message

def RunOutcome.leaves : RunOutcome → IndexState
  | .ok => .valid
  | .error _ leavesCarcass => if leavesCarcass then .carcass else .missing

inductive Move where
  | create (b : CronBuild)
  | settleBuild (b : CronBuild) (routeUsable : Bool)
  /-- A call makes its next query. -/
  | proceed (i : Nat)
  | startRun (jobname : String)
  | finishRun (i : Nat) (outcome : RunOutcome)
deriving DecidableEq, Repr

namespace CronServer

def empty : CronServer where
  indexes := fun _ => .missing
  jobs := fun _ => none
  nextJobid := 0
  runs := []
  calls := []
  unsettled := []

/-- `cron.schedule_in_database`: a name that is taken keeps its job id. -/
def schedule (s : CronServer) (b : CronBuild) : CronServer :=
  match s.jobs b.indexName with
  | some job =>
    { s with
      jobs := Function.update s.jobs b.indexName (some { job with build := b })
      unsettled := b :: s.unsettled }
  | none =>
    { s with
      jobs := Function.update s.jobs b.indexName (some ⟨s.nextJobid, b⟩)
      nextJobid := s.nextJobid + 1
      unsettled := b :: s.unsettled }

def answered (s : CronServer) (b : CronBuild) : CronServer :=
  { s with unsettled := s.unsettled.filter fun other => decide (other ≠ b) }

def unschedule (s : CronServer) (b : CronBuild) : CronServer :=
  { s.answered b with jobs := Function.update s.jobs b.indexName none }

def lastRun (s : CronServer) (jobname : String) : Option JobRun :=
  match s.jobs jobname with
  | some job => (s.runs.filter fun run => decide (run.jobid = job.jobid)).getLast?
  | none => none

/-- What `settleBuild` makes of the last run, where the index is not valid. -/
def settlementOf : Option CronRun → IndexBuildSettlement
  | none | some .running => .PENDING
  | some (.failed message) => .FAILED message
  | some .succeeded =>
    .FAILED "an earlier attempt left an invalid index, so the retry skipped the build"

def withCall (s : CronServer) (call : Call) : CronServer := { s with calls := s.calls ++ [call] }

def withoutCall (s : CronServer) (i : Nat) : CronServer := { s with calls := s.calls.eraseIdx i }

def proceed (s : CronServer) (i : Nat) : Call → CronServer
  | .creating b => (s.withoutCall i).schedule b
  | .settling b =>
    match settlementOf ((s.lastRun b.indexName).map JobRun.status) with
    | .PENDING => s.withoutCall i
    | answer => (s.withoutCall i).withCall (.finishing b answer)
  | .finishing b _ => (s.withoutCall i).unschedule b

/-- `CREATE INDEX CONCURRENTLY IF NOT EXISTS` builds where nothing holds the name. -/
def startRun (s : CronServer) (job : CronJob) : CronServer :=
  { s with
    runs := s.runs ++ [⟨job.jobid, job.build, .running, none⟩]
    indexes :=
      if s.indexes job.build.index = .missing then
        Function.update s.indexes job.build.index (.building s.runs.length)
      else s.indexes }

/-- The state a run leaves its index in: another run's build is not its own. -/
def leftBy (s : CronServer) (i : Nat) (run : JobRun) (outcome : RunOutcome) : IndexState :=
  if s.indexes run.build.index = .building i then outcome.leaves
  else s.indexes run.build.index

def finishRun (s : CronServer) (i : Nat) (run : JobRun) (outcome : RunOutcome) : CronServer :=
  { s with
    runs := s.runs.set i
      { run with status := outcome.status, left := some (s.leftBy i run outcome) }
    indexes := Function.update s.indexes run.build.index (s.leftBy i run outcome) }

def step (s : CronServer) : Move → CronServer
  | .create b => if s.indexes b.index = .missing then s.withCall (.creating b) else s
  | .settleBuild b routeUsable =>
    if !routeUsable then s.answered b
    else if s.indexes b.index = .valid then s.withCall (.finishing b .READY)
    else s.withCall (.settling b)
  | .proceed i =>
    match s.calls[i]? with
    | some call => s.proceed i call
    | none => s
  | .startRun jobname =>
    match s.jobs jobname with
    | some job => s.startRun job
    | none => s
  | .finishRun i outcome =>
    match s.runs[i]? with
    | some run => if run.status = .running then s.finishRun i run outcome else s
    | none => s

end CronServer

/-! ## Histories -/

def Move.Within (builds : Set CronBuild) : Move → Prop
  | create b => b ∈ builds
  | settleBuild b _ => b ∈ builds
  | _ => True

def Move.RouteUsable : Move → Prop
  | settleBuild _ routeUsable => routeUsable = true
  | _ => True

def Along (P : CronServer → Move → Prop) : CronServer → List Move → Prop
  | _, [] => True
  | s, m :: ms => P s m ∧ Along P (s.step m) ms

/-- No job of another build that is not settled yet stands under the name. -/
def SparesOthers (s : CronServer) (b : CronBuild) : Prop :=
  ∀ job, s.jobs b.indexName = some job → job.build ≠ b → job.build ∉ s.unsettled

/-- A run of the build's own statement has finished and has left its index missing or invalid. -/
def HasFailed (s : CronServer) (b : CronBuild) : Prop :=
  ∃ run ∈ s.runs, run.build = b ∧ ∃ left, run.left = some left ∧ left ≠ .valid

/-- A query that replaces or removes a job does so to no other build, and `FAILED` is answered
only for a build that has failed. -/
def Faultless (s : CronServer) : Move → Prop
  | .proceed i =>
    match s.calls[i]? with
    | some (.creating b) => SparesOthers s b
    | some (.finishing b answer) =>
      SparesOthers s b ∧ ∀ message, answer = .FAILED message → HasFailed s b
    | _ => True
  | .settleBuild b false => HasFailed s b
  | _ => True

/-- No run makes an index valid between the two reads of a call that settles it, unless the build
has failed before. -/
def RaceFree (s : CronServer) : Move → Prop
  | .finishRun i .ok =>
    ∀ run, s.runs[i]? = some run → s.indexes run.build.index = .building i →
      ∀ b, Call.settling b ∈ s.calls → b.index = run.build.index → HasFailed s b
  | _ => True

/-! ## Builds of different names -/

/-- What holds between moves, if no two builds share a name. -/
structure Isolated (builds : Set CronBuild) (s : CronServer) : Prop where
  calls : ∀ call ∈ s.calls, call.build ∈ builds
  jobs : ∀ name job, s.jobs name = some job → job.build ∈ builds ∧ job.build.indexName = name
  fresh : ∀ name job, s.jobs name = some job → job.jobid < s.nextJobid
  apart : ∀ name name' job job', s.jobs name = some job → s.jobs name' = some job' →
    job.jobid = job'.jobid → name = name'
  past : ∀ run ∈ s.runs, run.jobid < s.nextJobid
  own : ∀ name job, s.jobs name = some job → ∀ run ∈ s.runs, run.jobid = job.jobid →
    run.build = job.build
  running : ∀ run ∈ s.runs, run.status = .running ↔ run.left = none
  lasting : ∀ run ∈ s.runs, run.left = some .valid → s.indexes run.build.index = .valid
  settling : ∀ b, Call.settling b ∈ s.calls → s.indexes b.index ≠ .valid ∨ HasFailed s b
  failing : ∀ b message, Call.finishing b (.FAILED message) ∈ s.calls → HasFailed s b

variable {b : CronBuild}

section Isolated
variable {builds : Set CronBuild} {s : CronServer}

theorem isolated_empty : Isolated builds .empty := by
  constructor <;> simp [CronServer.empty]

variable {run : JobRun} {i : Nat} {outcome : RunOutcome}

theorem leftBy_valid (h : s.leftBy i run outcome = .valid) :
    s.indexes run.build.index = .valid ∨
      (outcome = .ok ∧ s.indexes run.build.index = .building i) := by
  unfold CronServer.leftBy at h
  split at h
  · rename_i hbuilding
    cases outcome with
    | ok => exact .inr ⟨rfl, hbuilding⟩
    | error message leavesCarcass => cases leavesCarcass <;> cases h
  · exact .inl h

variable (h : Isolated builds s)
include h

theorem Isolated.withoutCall (i : Nat) : Isolated builds (s.withoutCall i) := by
  have hsub : ∀ call ∈ (s.withoutCall i).calls, call ∈ s.calls :=
    fun call hcall => List.mem_of_mem_eraseIdx hcall
  exact { h with
    calls := fun call hcall => h.calls call (hsub call hcall)
    settling := fun b hcall => h.settling b (hsub _ hcall)
    failing := fun b message hcall => h.failing b message (hsub _ hcall) }

theorem Isolated.withCall {call : Call} (hbuild : call.build ∈ builds)
    (hsettling : ∀ b, call = .settling b → s.indexes b.index ≠ .valid ∨ HasFailed s b)
    (hfailing : ∀ b message, call = .finishing b (.FAILED message) → HasFailed s b) :
    Isolated builds (s.withCall call) := by
  have hcases : ∀ other ∈ (s.withCall call).calls, other ∈ s.calls ∨ other = call := by
    simp [CronServer.withCall]
  refine { h with calls := fun other hother => ?_, settling := fun b hb => ?_,
                  failing := fun b message hb => ?_ }
  · rcases hcases other hother with hold | rfl
    · exact h.calls other hold
    · exact hbuild
  · exact (hcases _ hb).elim (h.settling b) fun heq => hsettling b heq.symm
  · exact (hcases _ hb).elim (h.failing b message) fun heq => hfailing b message heq.symm

theorem Isolated.unschedule (b : CronBuild) : Isolated builds (s.unschedule b) := by
  have hold : ∀ name job, Function.update s.jobs b.indexName none name = some job →
      s.jobs name = some job := by
    intro name job hname
    by_cases heq : name = b.indexName
    · subst heq
      rw [Function.update_self] at hname
      cases hname
    · rwa [Function.update_of_ne heq] at hname
  exact { h with
    jobs := fun name job hname => h.jobs name job (hold name job hname)
    fresh := fun name job hname => h.fresh name job (hold name job hname)
    apart := fun name name' job job' hname hname' =>
      h.apart name name' job job' (hold name job hname) (hold name' job' hname')
    own := fun name job hname => h.own name job (hold name job hname) }

theorem Isolated.startRun {name : String} {job : CronJob}
    (hjob : s.jobs name = some job) : Isolated builds (s.startRun job) := by
  have hvalid : ∀ key, (s.startRun job).indexes key = .valid ↔ s.indexes key = .valid := by
    intro key
    unfold CronServer.startRun
    dsimp only
    split
    · rename_i hmissing
      by_cases heq : key = job.build.index
      · subst heq
        simp [hmissing]
      · rw [Function.update_of_ne heq]
    · rfl
  have hcases : ∀ run ∈ (s.startRun job).runs,
      run ∈ s.runs ∨ run = ⟨job.jobid, job.build, .running, none⟩ := by
    simp [CronServer.startRun]
  have hfailed : ∀ b, HasFailed s b → HasFailed (s.startRun job) b :=
    fun b ⟨run, hrun, hrest⟩ => ⟨run, List.mem_append_left _ hrun, hrest⟩
  exact { h with
    past := fun run hrun => by
      rcases hcases run hrun with hold | rfl
      · exact h.past run hold
      · exact h.fresh name job hjob
    own := fun name' job' hjob' run hrun heq => by
      rcases hcases run hrun with hold | rfl
      · exact h.own name' job' hjob' run hold heq
      · obtain rfl := h.apart name name' job job' hjob hjob' heq
        exact congrArg CronJob.build (Option.some.inj (hjob.symm.trans hjob'))
    running := fun run hrun => by
      rcases hcases run hrun with hold | rfl
      · exact h.running run hold
      · exact iff_of_true rfl rfl
    lasting := fun run hrun hleft => by
      rcases hcases run hrun with hold | rfl
      · exact (hvalid _).mpr (h.lasting run hold hleft)
      · cases hleft
    settling := fun b hb => (h.settling b hb).imp (mt (hvalid _).mp) (hfailed b)
    failing := fun b message hb => hfailed b (h.failing b message hb) }

section
variable (hrun : s.runs[i]? = some run) (hstatus : run.status = .running)
include hrun hstatus

theorem HasFailed.finishRun (outcome : RunOutcome) (hfailed : HasFailed s b) :
    HasFailed (s.finishRun i run outcome) b := by
  obtain ⟨other, hother, hbuild, left, hleft, hinvalid⟩ := hfailed
  obtain ⟨k, hk⟩ := List.mem_iff_getElem?.mp hother
  have hne : i ≠ k := by
    rintro rfl
    obtain rfl := Option.some.inj (hrun.symm.trans hk)
    have hnone := (h.running run hother).mp hstatus
    rw [hleft] at hnone
    cases hnone
  refine ⟨other, List.mem_iff_getElem?.mpr ⟨k, ?_⟩, hbuild, left, hleft, hinvalid⟩
  rw [CronServer.finishRun, List.getElem?_set_ne hne]
  exact hk

theorem Isolated.finishRun (hrace : RaceFree s (.finishRun i outcome)) :
    Isolated builds (s.finishRun i run outcome) := by
  have hmem := List.mem_of_getElem? hrun
  have hcases : ∀ other ∈ (s.finishRun i run outcome).runs, other ∈ s.runs ∨
      other = { run with status := outcome.status, left := some (s.leftBy i run outcome) } :=
    fun other hother => List.mem_or_eq_of_mem_set hother
  have hfinished : outcome.status ≠ .running := by cases outcome <;> nofun
  exact { h with
    past := fun other hother => by
      rcases hcases other hother with hold | rfl
      · exact h.past other hold
      · exact h.past run hmem
    own := fun name job hjob other hother heq => by
      rcases hcases other hother with hold | rfl
      · exact h.own name job hjob other hold heq
      · exact h.own name job hjob run hmem heq
    running := fun other hother => by
      rcases hcases other hother with hold | rfl
      · exact h.running other hold
      · exact iff_of_false hfinished nofun
    lasting := fun other hother hleft => by
      rcases hcases other hother with hold | rfl
      · have hvalid := h.lasting other hold hleft
        by_cases heq : other.build.index = run.build.index
        · rw [heq] at hvalid ⊢
          exact (Function.update_self ..).trans (by rw [CronServer.leftBy, if_neg (by simp [hvalid]), hvalid])
        · exact (Function.update_of_ne heq ..).trans hvalid
      · exact (Function.update_self ..).trans (Option.some.inj hleft)
    settling := fun b hb => by
      rcases h.settling b hb with hindex | hfailed
      · by_cases heq : b.index = run.build.index
        · by_cases hleft : s.leftBy i run outcome = .valid
          · rcases leftBy_valid hleft with hvalid | ⟨rfl, hbuilding⟩
            · exact absurd (heq ▸ hvalid) hindex
            · exact .inr ((hrace run hrun hbuilding b hb heq).finishRun h hrun hstatus _)
          · refine .inl fun hvalid => hleft ?_
            rw [heq] at hvalid
            exact (Function.update_self run.build.index _ s.indexes).symm.trans hvalid
        · exact .inl fun hvalid => hindex ((Function.update_of_ne heq ..).symm.trans hvalid)
      · exact .inr (hfailed.finishRun h hrun hstatus outcome)
    failing := fun b message hb => (h.failing b message hb).finishRun h hrun hstatus outcome }

end

variable (hnames : builds.InjOn CronBuild.indexName)
include hnames

theorem Isolated.build_eq (hb : b ∈ builds) {job : CronJob} (hjob : s.jobs b.indexName = some job) :
    job.build = b := by
  obtain ⟨hmem, hname⟩ := h.jobs _ job hjob
  exact hnames hmem hb hname

theorem Isolated.faultless {m : Move} (hroute : m.RouteUsable) : Faultless s m := by
  have hspares : ∀ call ∈ s.calls, SparesOthers s call.build := fun call hcall job hjob hne =>
    absurd (h.build_eq hnames (h.calls call hcall) hjob) hne
  cases m with
  | proceed i =>
    unfold Faultless
    dsimp only
    split
    · rename_i b hcall
      exact hspares _ (List.mem_of_getElem? hcall)
    · rename_i b answer hcall
      have hmem := List.mem_of_getElem? hcall
      refine ⟨hspares _ hmem, ?_⟩
      rintro message rfl
      exact h.failing b message hmem
    · trivial
  | settleBuild b routeUsable =>
    cases hroute
    trivial
  | _ => trivial

theorem Isolated.schedule (hb : b ∈ builds) : Isolated builds (s.schedule b) := by
  unfold CronServer.schedule
  split
  · rename_i job hjob
    -- the job was the build's own, so nothing changes
    have hsame : Function.update s.jobs b.indexName (some { job with build := b }) = s.jobs := by
      rw [Function.update_eq_self_iff, hjob, ← h.build_eq hnames hb hjob]
    rw [hsame]
    exact { h with }
  · have hcases : ∀ name job, Function.update s.jobs b.indexName (some ⟨s.nextJobid, b⟩) name =
        some job → (name = b.indexName ∧ job = ⟨s.nextJobid, b⟩) ∨ s.jobs name = some job := by
      intro name job hname
      by_cases heq : name = b.indexName
      · subst heq
        rw [Function.update_self] at hname
        exact .inl ⟨rfl, (Option.some.inj hname).symm⟩
      · rw [Function.update_of_ne heq] at hname
        exact .inr hname
    exact { h with
      jobs := fun name job hname => by
        rcases hcases name job hname with ⟨rfl, rfl⟩ | hold
        · exact ⟨hb, rfl⟩
        · exact h.jobs name job hold
      fresh := fun name job hname => by
        rcases hcases name job hname with ⟨rfl, rfl⟩ | hold
        · exact Nat.lt_succ_self _
        · exact (h.fresh name job hold).trans (Nat.lt_succ_self _)
      apart := fun name name' job job' hname hname' heq => by
        rcases hcases name job hname with ⟨rfl, rfl⟩ | hold <;>
          rcases hcases name' job' hname' with ⟨rfl, rfl⟩ | hold'
        · rfl
        · exact absurd heq.symm (h.fresh name' job' hold').ne
        · exact absurd heq (h.fresh name job hold).ne
        · exact h.apart name name' job job' hold hold' heq
      past := fun run hrun => (h.past run hrun).trans (Nat.lt_succ_self _)
      own := fun name job hname run hrun heq => by
        rcases hcases name job hname with ⟨rfl, rfl⟩ | hold
        · exact absurd heq (h.past run hrun).ne
        · exact h.own name job hold run hrun heq }

theorem Isolated.lastRun (hb : b ∈ builds) (hrun : s.lastRun b.indexName = some run) :
    run ∈ s.runs ∧ run.build = b := by
  unfold CronServer.lastRun at hrun
  split at hrun
  · rename_i job hjob
    obtain ⟨hmem, hjobid⟩ := List.mem_filter.mp (List.mem_of_getLast? hrun)
    refine ⟨hmem, (h.own _ job hjob run hmem (of_decide_eq_true hjobid)).trans ?_⟩
    exact h.build_eq hnames hb hjob
  · cases hrun

theorem Isolated.hasFailed (hb : b ∈ builds) (hindex : s.indexes b.index ≠ .valid)
    (hrun : s.lastRun b.indexName = some run) (hstatus : run.status ≠ .running) :
    HasFailed s b := by
  obtain ⟨hmem, rfl⟩ := h.lastRun hnames hb hrun
  obtain ⟨left, hleft⟩ := Option.ne_none_iff_exists'.mp (mt (h.running run hmem).mpr hstatus)
  refine ⟨run, hmem, rfl, left, hleft, ?_⟩
  rintro rfl
  exact hindex (h.lasting run hmem hleft)

theorem Isolated.proceed {call : Call} (hcall : s.calls[i]? = some call) :
    Isolated builds (s.proceed i call) := by
  have hmem := List.mem_of_getElem? hcall
  have hbuild := h.calls call hmem
  cases call with
  | creating b => exact (h.withoutCall i).schedule hnames hbuild
  | finishing b answer => exact (h.withoutCall i).unschedule b
  | settling b =>
    unfold CronServer.proceed
    dsimp only
    split
    · exact h.withoutCall i
    · rename_i answer hanswer
      refine (h.withoutCall i).withCall hbuild nofun fun b' message heq => ?_
      obtain ⟨rfl, hfailed⟩ := Call.finishing.inj heq
      cases hrun : s.lastRun b.indexName with
      | none => simp [hrun, CronServer.settlementOf] at hanswer
      | some run =>
        refine (h.settling b hmem).elim (fun hindex => ?_) id
        refine h.hasFailed hnames hbuild hindex hrun fun hrunning => ?_
        simp [hrun, hrunning, CronServer.settlementOf] at hanswer

theorem Isolated.step {m : Move} (hm : m.Within builds) (hroute : m.RouteUsable)
    (hrace : RaceFree s m) : Isolated builds (s.step m) := by
  cases m with
  | create b =>
    unfold CronServer.step
    dsimp only
    split
    · exact h.withCall hm nofun nofun
    · exact h
  | settleBuild b routeUsable =>
    cases hroute
    unfold CronServer.step
    dsimp only
    rw [Bool.not_true, if_neg Bool.false_ne_true]
    split
    · exact h.withCall hm nofun nofun
    · rename_i hindex
      refine h.withCall hm (fun b' heq => ?_) nofun
      exact .inl (Call.settling.inj heq ▸ hindex)
  | proceed i =>
    unfold CronServer.step
    dsimp only
    split
    · rename_i call hcall
      exact h.proceed hnames hcall
    · exact h
  | startRun jobname =>
    unfold CronServer.step
    dsimp only
    split
    · rename_i job hjob
      exact h.startRun hjob
    · exact h
  | finishRun i outcome =>
    unfold CronServer.step
    dsimp only
    split
    · rename_i run hrun
      split
      · rename_i hstatus
        exact h.finishRun hrun hstatus hrace
      · exact h
    · exact h

theorem Isolated.along {ms : List Move} (hms : ∀ m ∈ ms, m.Within builds)
    (hroute : ∀ m ∈ ms, m.RouteUsable) (hrace : Along RaceFree s ms) : Along Faultless s ms := by
  induction ms generalizing s with
  | nil => trivial
  | cons m ms ih =>
    rw [List.forall_mem_cons] at hms hroute
    exact ⟨h.faultless hnames hroute.1,
      ih (h.step hnames hms.1 hroute.1 hrace.1) hms.2 hroute.2 hrace.2⟩

end Isolated

/-! ## Builds of one name -/

/-- Two creates of one name: the second replaces the job of the first. -/
def twoCreates (a b : CronBuild) : List Move := [.create a, .proceed 0, .create b, .proceed 0]

theorem not_faultless_twoCreates {a : CronBuild} (hne : a ≠ b)
    (hname : a.indexName = b.indexName) : ¬ Along Faultless .empty (twoCreates a b) := by
  rintro ⟨-, -, -, hspares, -⟩
  refine hspares ⟨0, a⟩ ?_ hne List.mem_cons_self
  simp [CronServer.step, CronServer.empty, CronServer.withCall, CronServer.proceed,
    CronServer.withoutCall, CronServer.schedule, hname]

/-- Over a set of builds, every interleaving in which the route stays usable and no run makes the
index of a build valid between the two reads of a call that settles it, the build never having
failed before, is faultless, exactly when no two of the builds share a name. -/
theorem faultless_iff_names_apart (builds : Set CronBuild) :
    (∀ ms : List Move, (∀ m ∈ ms, m.Within builds) → (∀ m ∈ ms, m.RouteUsable) →
      Along RaceFree .empty ms → Along Faultless .empty ms) ↔
        builds.InjOn CronBuild.indexName := by
  constructor
  · intro h a ha b hb hname
    by_contra hne
    refine not_faultless_twoCreates hne hname (h _ ?_ ?_ ?_)
    · simp [twoCreates, Move.Within, ha, hb]
    · simp [twoCreates, Move.RouteUsable]
    · exact ⟨trivial, trivial, trivial, trivial, trivial⟩
  · intro hnames ms hms hroute hrace
    exact isolated_empty.along hnames hms hroute hrace

def ordersBuild (database : String) : CronBuild where
  database := database
  schema := "public"
  table := "orders"
  indexName := "orders_a_idx"
  columns := [("a", true)]
  isUnique := false
  includeColumns := []

/-- The same table in two databases: the job of the first build is replaced, and when the second
build is done, the first one is answered `FAILED`, though its statement never ran. And one build
whose only run succeeds between the two reads, which is answered `FAILED` too. -/
theorem shared_name_fails_build :
    (let ms := twoCreates (ordersBuild "shop") (ordersBuild "crm") ++
      [.startRun "orders_a_idx", .finishRun 0 .ok, .settleBuild (ordersBuild "shop") true,
        .proceed 0]
    let s := ms.foldl CronServer.step .empty
    ¬ Along Faultless .empty (ms ++ [.proceed 0]) ∧
      (∃ message, s.calls[0]? = some (.finishing (ordersBuild "shop") (.FAILED message))) ∧
      ∀ run ∈ s.runs, run.build ≠ ordersBuild "shop") ∧
    (let s := [Move.create (ordersBuild "shop"), .proceed 0, .startRun "orders_a_idx",
      .settleBuild (ordersBuild "shop") true, .finishRun 0 .ok, .proceed 0].foldl
        CronServer.step .empty
    (∃ message, s.calls[0]? = some (.finishing (ordersBuild "shop") (.FAILED message))) ∧
      ¬ Faultless s (.proceed 0) ∧
      s.runs = [⟨0, ordersBuild "shop", .succeeded, some .valid⟩]) := by
  refine ⟨⟨?_, ⟨_, rfl⟩, by decide⟩, ⟨_, rfl⟩, ?_, rfl⟩
  · rintro ⟨-, -, -, hspares, -⟩
    exact hspares ⟨0, ordersBuild "shop"⟩ rfl (by decide) List.mem_cons_self
  · intro hfaultless
    obtain ⟨run, hrun, -, left, hleft, hinvalid⟩ := hfaultless.2 _ rfl
    rw [List.mem_singleton.mp hrun] at hleft
    exact hinvalid (Option.some.inj hleft).symm

end Indexterity.Cron
