import Indexterity.Service.DropRecord

/-!
# Service: what the executor is asked

Whatever tasks run, and wherever they stop: a call to the executor finds its row where the
call begins, an undo brings back what was dropped for its row, and a read-only cluster is left
alone.
-/

namespace Indexterity.Service

open Library Program

variable {s s' : World} {op : Op}

def Op.isExecutor : Op → Bool
  | .hide _ | .unhide _ _ | .drop _ _ | .create _ _ _ => true
  | _ => false

/-- A call to the executor is made for a row that stands where the call begins; but for the
un-hide by which a pass puts back what it has hidden. -/
theorem executor_calls_begin (s : World) (events : List Event) :
    AlongCalls (fun c => c.2.1.isExecutor = true →
      (∃ claim, c.2.1 = .unhide .putBack claim) ∨ Allowed c.1 .idle c.2.1) s events := by
  induction events generalizing s with
  | nil => trivial
  | cons event events ih =>
    refine ⟨fun c hc hop => ?_, ih _⟩
    obtain ⟨phase, hallowed⟩ := allowed_of_mem_calls hc
    obtain ⟨s, op, reply⟩ := c
    cases op with
    | unhide site claim =>
      cases site with
      | putBack => exact .inl ⟨claim, rfl⟩
      | _ => exact .inr (hallowed.1 ▸ hallowed)
    | drop site claim => cases site <;> exact .inr (hallowed.1 ▸ hallowed)
    | create site claim spec => cases site <;> exact .inr (hallowed.1 ▸ hallowed)
    | hide claim => exact .inr (hallowed.1 ▸ hallowed)
    | _ => cases hop

/-! ## Tokens -/

/-- The drop of an index went through for a row. -/
def World.HasDropped (s : World) (id : String) (spec : IndexSpec) : Prop :=
  ∃ claim : Claim, claim.id = id ∧ (.drop .hidden spec, claim) ∈ s.log

variable {answer : Except Thrown op.Ans} {spec : IndexSpec}

structure Receipts (k : Account) : Prop where
  trail : ∀ action ∈ k.world.actions, action.kind = .DROP → ∀ {spec},
    action.rollbackToken = some spec → k.world.HasDropped action.recommendationId spec
  hand : ∀ {claim spec}, k.phase = .dropped claim (some spec) ∨ k.phase = .marked claim (some spec) →
    k.world.HasDropped claim.id spec

theorem World.HasDropped.mono {id : String} (h : s.HasDropped id spec)
    {new : List (ExecutorCall × Claim)} (hlog : s'.log = s.log ++ new) : s'.HasDropped id spec :=
  h.imp fun _ hdrop => hdrop.imp_right fun hmem => hlog ▸ List.mem_append_left new hmem

theorem mem_actions_effect {action : Action} (h : action ∈ (s.effect op answer).actions) :
    action ∈ s.actions ∨ op = .insertAction action := by
  cases op with
  | insertAction other =>
    cases answer with
    | error error => exact .inl h
    | ok value => exact (List.mem_append.mp h).imp_right fun h => by rw [List.mem_singleton.mp h]
  | insertRoi metric => cases answer <;> exact .inl h
  | _ => exact .inl (((leaves_effect s _ answer).told rfl).1 ▸ h)

theorem Receipts.next {phase next : Phase} (h : Receipts ⟨s, phase⟩)
    (hstep : PhaseStep s phase op answer next) {claim : Claim}
    (hnext : next = .dropped claim (some spec) ∨ next = .marked claim (some spec)) :
    (s.effect op answer).HasDropped claim.id spec := by
  cases hstep with
  | stays => exact (h.hand hnext).mono (log_effect s op answer)
  | marked hdropped =>
    obtain hnext | hnext := hnext <;> cases hnext
    exact (h.hand (.inl hdropped)).mono (log_effect s _ _)
  | @dropped other value =>
    obtain hnext | hnext := hnext
    · obtain ⟨rfl, hclaimed⟩ := Phase.dropped.inj hnext
      exact ⟨other, rfl, by rw [log_effect]; simp [World.entry, hclaimed]⟩
    · cases hnext
  | _ => obtain hnext | hnext := hnext <;> cases hnext

theorem preserved_receipts : Preserved Receipts fun _ _ _ => True := by
  rintro ⟨s, phase⟩ op reply h hallowed -
  refine ⟨fun action haction hkind _ htoken => ?_, h.next (phaseStep_next s phase op _)⟩
  refine World.HasDropped.mono ?_ (log_effect s op _)
  rcases mem_actions_effect haction with hold | rfl
  · exact h.trail action hold hkind htoken
  · obtain ⟨-, hplain⟩ | ⟨claim, token, hmarked, rfl⟩ := hallowed
    · rw [hplain hkind] at htoken
      cases htoken
    · exact h.hand (.inr (hmarked.trans (congrArg _ htoken)))

theorem receipts_after (h : Receipts ⟨s, .idle⟩) (event : Event) :
    Receipts ⟨event.after s, .idle⟩ := by
  cases event with
  | turn task replies =>
    obtain ⟨phase, hafter, -⟩ := preserved_receipts.turn h fun _ _ => trivial
    exact ⟨hafter.trail, by simp⟩
  | jobRun job succeeds =>
    change Receipts ⟨if job ∈ s.jobs then s.jobRuns job succeeds else s, .idle⟩
    split
    · obtain ⟨-, -, hactions, new, hlog, -⟩ := aside_jobRuns s job succeeds
      exact ⟨fun action haction hkind _ htoken =>
        (h.trail action (hactions ▸ haction) hkind htoken).mono hlog, by simp⟩
    · exact h
  | outside database collection live invalid => exact ⟨h.trail, by simp⟩

def Call.UndoesDrop (c : Call) : Prop :=
  ∀ claim index, c.2.1 = .create .undo claim index →
    ∃ spec, c.1.HasDropped claim.id spec ∧ rebuiltIndex spec = some index

/-- An undo rebuilds an index whose drop went through for the row it is made for. -/
theorem undo_of_dropped (events : List Event)
    (h : ∀ action ∈ s.actions, action.rollbackToken = none) :
    AlongCalls Call.UndoesDrop s events := by
  have hstart : Receipts ⟨s, .idle⟩ :=
    ⟨fun action haction _ _ htoken => by simp [h action haction] at htoken, by simp⟩
  clear h
  induction events generalizing s with
  | nil => trivial
  | cons event events ih =>
    refine ⟨fun c hc claim index hop => ?_, ih (receipts_after hstart event)⟩
    obtain ⟨phase, hreceipts, hallowed⟩ := preserved_receipts.calls hstart (fun _ _ => trivial) c hc
    rw [hop] at hallowed
    obtain ⟨-, rec, -, -, -, spec, htoken, hindex⟩ := hallowed
    obtain ⟨action, haction, htoken⟩ := List.exists_of_findSome?_eq_some htoken
    simp only [World.dropActions, List.mem_reverse, List.mem_filter, Bool.and_eq_true,
      decide_eq_true_eq] at haction
    obtain ⟨haction, hid, hkind⟩ := haction
    exact ⟨spec, hid ▸ hreceipts.trail action haction hkind htoken, hindex⟩

theorem undo_of_due_drop :
    AlongCalls Call.UndoesDrop dueWorld
      [.turn .finalizeCluster (List.replicate 17 lateReply),
        .turn (.rollback "r" "o") (List.replicate 8 lateReply)] :=
  undo_of_dropped _ nofun

/-! ## Read-only clusters -/

/-- A session is answered as read-only, and the executor is left alone. -/
def whileReadOnly : Contract Op Op.Ans Thrown Unit where
  admits _ op answer :=
    match op, answer with
    | .openSession, .ok session => session.readOnly = true
    | _, _ => True
  demands _ op := op.isExecutor = false
  effect _ _ _ := ()

theorem accountsFor_readOnly : AccountsFor whileReadOnly machine (fun _ _ => True)
    fun _ _ reply => reply.readOnly = true := by
  intro k s op reply _ _ hreply
  refine ⟨?_, trivial⟩
  cases op with
  | openSession =>
    simp only [whileReadOnly, machine, World.answer, Reply.gives]
    cases reply.error with
    | none => exact hreply
    | some error => trivial
  | _ => trivial

theorem keeps_readOnly (task : Task) : task.program.Keeps whileReadOnly (fun _ _ => True) () := by
  cases task <;>
    dsimp only [Task.program, approve, rollback, unhide, shortenObserveWindow, applyCluster,
      applyCreates, settleBuilds, finalizeCluster, promoteByScore, hideApproved, finalizeRows, settleRow, recordBuilt]
  -- Every task that calls the executor opens a session first, and goes no further.
  all_goals
    repeat' first
      | exact trivial
      | exact keeps_ask.mpr ⟨rfl, fun answer _ => by cases answer <;> trivial⟩
      | refine keeps_ask_bind.mpr ⟨rfl, fun answer hanswer => ?_, fun _ _ => trivial⟩
      | refine keeps_eachFrom (fun _ _ _ => True) (fun _ _ _ => trivial) (fun _ rec _ _ _ => ?_) trivial
      | contradiction
      | split

/-- While every session is answered as read-only, no task asks anything of the executor. -/
theorem readOnly_left_alone (events : List Event)
    (h : AlongCalls (fun c => c.2.2.readOnly = true) s events) :
    AlongCalls (fun c => c.2.1.isExecutor = false) s events := by
  induction events generalizing s with
  | nil => trivial
  | cons event events ih =>
    refine ⟨fun c hc => ?_, ih h.2⟩
    cases event with
    | turn task replies =>
      exact ((keeps_readOnly task).calls accountsFor_readOnly trivial h.1 c hc).elim fun _ hc => hc.2
    | _ => cases hc

theorem readOnly_left_alone_apply :
    AlongCalls (fun c => c.2.1.isExecutor = false) approvedWorld
      [.turn .applyCluster (List.replicate 16 { plainReply with readOnly := true })] :=
  readOnly_left_alone _ ⟨by decide, trivial⟩

end Indexterity.Service
