import Indexterity.Service.Protocol

/-!
# Service: the rows a round writes

Each round of a loop over rows writes to its own row only, and the rows filed by a
graduation are new. So a loop finds every row as it was loaded. Some calls are made by one
task only, which gives it its role.
-/

namespace Indexterity.Service

open Library Program

/-! ## Roles -/

inductive Role where
  | approves
  | hides
  | drops
  | undoes
  | builds
  | settles
deriving DecidableEq, Repr

def Op.role : Op → Option Role
  | .updateRow _ .approved => some .approves
  | .updateRow _ (.hidden _) | .hide _ => some .hides
  | .drop _ _ => some .drops
  | .create .undo _ _ => some .undoes
  | .create .build _ _ => some .builds
  | .settleBuild _ => some .settles
  | _ => none

def InRole (role : Option Role) (op : Op) : Prop := op.role = none ∨ op.role = role

def RoundCall (role : Option Role) (ids : List String) (op : Op) : Prop :=
  OnRows ids op ∧ InRole role op

def Op.isUnpriced : Op → Bool
  | .drop .hidden _ | .create .undo _ _ | .insertRoi _ => false
  | _ => true

def PlainCall (role : Option Role) (ids : List String) (op : Op) : Prop :=
  RoundCall role ids op ∧ op.isUnpriced = true

theorem PlainCall.of_quiet {role : Option Role} {ids : List String} {op : Op}
    (h : op.isQuiet = true) : PlainCall role ids op := by
  cases op <;> first | exact ⟨⟨trivial, .inl rfl⟩, rfl⟩ | cases h

theorem OnRows.mono {ids ids' : List String} (hsub : ∀ id ∈ ids, id ∈ ids') {op : Op}
    (h : OnRows ids op) : OnRows ids' op := by
  cases op with
  | updateRow id patch => exact hsub id h
  | promoteByScore threshold => exact h
  | _ => trivial

/-! ## Rounds -/

section Rounds
variable (rec : Recommendation)

theorem uses_preflight : (preflight rec).Uses fun op => op.isQuiet = true := by
  unfold preflight usageFor
  repeat' first
    | exact uses_ask.mpr rfl
    | exact uses_pure _
    | refine Uses.bind ?_ fun _ => ?_
    | split

section Any
variable {role : Option Role}

theorem uses_updateRow (patch : Patch) (h : InRole role (.updateRow rec.id patch)) :
    (ask (.updateRow rec.id patch)).Uses (PlainCall role [rec.id]) :=
  uses_ask.mpr ⟨⟨List.mem_cons_self, h⟩, rfl⟩

theorem uses_noted (patch : Patch) (action : Action) (h : InRole role (.updateRow rec.id patch)) :
    (do let _ ← ask (.updateRow rec.id patch)
        ask (.insertAction action) : Prog Unit).Uses (PlainCall role [rec.id]) :=
  (uses_updateRow rec patch h).bind fun _ => uses_ask.mpr ⟨⟨trivial, .inl rfl⟩, rfl⟩

theorem uses_withdrawRow (watches : Watches) (state : Withdrawal) :
    (withdrawRow watches state rec).Uses (PlainCall role [rec.id]) := by
  unfold withdrawRow hintsFor
  repeat' first
    | exact uses_pure _
    | exact uses_ask.mpr ⟨⟨trivial, .inl rfl⟩, rfl⟩
    | exact uses_updateRow rec _ (.inl rfl)
    | refine Uses.bind ?_ fun _ => ?_
    | split

theorem uses_recordBuilt : (recordBuilt rec).Uses (PlainCall role [rec.id]) :=
  (uses_ask.mpr ⟨⟨trivial, .inl rfl⟩, rfl⟩).bind fun _ => uses_noted rec _ _ (.inl rfl)

theorem uses_closeUnbuilt : (closeUnbuilt rec).Uses (PlainCall role [rec.id]) :=
  uses_noted rec _ _ (.inl rfl)

theorem uses_judgeCumulative (watched : List Recommendation) (reported : List (String × String))
    (ids : List String) : (judgeCumulative watched reported rec).Uses (PlainCall role ids) := by
  unfold judgeCumulative
  repeat' first
    | exact uses_pure _
    | exact uses_ask.mpr ⟨⟨trivial, .inl rfl⟩, rfl⟩
    | refine Uses.bind ?_ fun _ => ?_
    | split

theorem uses_retireName (name : String) : (retireName rec name).Uses (PlainCall role [rec.id]) := by
  repeat' first
    | exact uses_pure _
    | exact uses_ask.mpr ⟨⟨trivial, .inl rfl⟩, rfl⟩
    | refine Uses.bind ?_ fun _ => ?_
    | split

theorem uses_retireSuperseded : (retireSuperseded rec).Uses (PlainCall role [rec.id]) := by
  unfold retireSuperseded
  split
  · exact uses_pure _
  · exact uses_eachFrom (fun _ name _ => uses_retireName rec name) ()

theorem uses_graduate (watched : List Recommendation) (reported : List (String × String)) :
    (graduate watched reported rec).Uses (PlainCall role [rec.id]) := by
  refine (uses_judgeCumulative rec watched reported _).bind fun _ => ?_
  refine (uses_updateRow rec .graduated (.inl rfl)).bind fun _ => ?_
  refine (uses_retireSuperseded rec).bind fun _ => ?_
  exact (uses_ask.mpr ⟨⟨trivial, .inl rfl⟩, rfl⟩).bind fun _ => uses_pure _

theorem uses_settleDue (action : DueAction) (token : Option IndexSpec) :
    (settleDue rec action token).Uses (PlainCall role [rec.id]) :=
  uses_noted rec _ _ (.inl rfl)

end Any

theorem uses_hideRow (canHide : Bool) (since : Option Int) :
    (hideRow canHide since rec).Uses (PlainCall (some .hides) [rec.id]) := by
  unfold hideRow reproposeRow recordHidden hideFailed hideRecorded noteHideFailure
  repeat' with_reducible first
    | exact uses_pure _
    | exact (uses_preflight rec).mono fun _ => PlainCall.of_quiet
    | refine uses_updateRow rec _ ?_
    | refine uses_ask.mpr ?_
    | refine Uses.bind ?_ fun _ => ?_
    | refine Uses.handle ?_ (fun _ => ?_) fun _ => ?_
    | split
  all_goals first
    | exact .inl rfl
    | exact .inr rfl
    | exact ⟨⟨trivial, .inl rfl⟩, rfl⟩
    | exact ⟨⟨trivial, .inr rfl⟩, rfl⟩

theorem uses_applyRow (session : Session) (watches : Watches) (withdrawn : List String)
    (failed : List Thrown) :
    (applyRow session watches withdrawn failed rec).Uses (PlainCall (some .hides) [rec.id]) := by
  refine Uses.bind (uses_ask.mpr ⟨⟨trivial, .inl rfl⟩, rfl⟩) fun now => ?_
  split
  · exact uses_pure _
  · exact (uses_hideRow rec _ _).bind fun _ => uses_pure _

theorem uses_buildRow : (buildRow rec).Uses (PlainCall (some .builds) [rec.id]) := by
  have hfailed (error : Thrown) :
      (buildFailed rec error).Uses (PlainCall (some .builds) [rec.id]) := by
    cases error with
    | buildRefused message => exact uses_closeUnbuilt rec
    | _ => exact uses_raise _
  unfold buildRow
  repeat' first
    | exact uses_pure _
    | exact uses_closeUnbuilt rec
    | exact uses_noted rec _ _ (.inl rfl)
    | exact uses_recordBuilt rec
    | exact uses_ask.mpr ⟨⟨trivial, .inl rfl⟩, rfl⟩
    | exact uses_ask.mpr ⟨⟨trivial, .inr rfl⟩, rfl⟩
    | refine Uses.bind ?_ fun _ => ?_
    | refine Uses.handle ?_ hfailed fun _ => ?_
    | split

theorem uses_settleRow : (settleRow rec).Uses (PlainCall (some .settles) [rec.id]) := by
  refine Uses.bind (uses_ask.mpr ⟨⟨trivial, .inr rfl⟩, rfl⟩) fun settlement => ?_
  split
  · exact uses_pure _
  · exact uses_noted rec _ _ (.inl rfl)
  · exact uses_recordBuilt rec

theorem uses_watchRow (pass : PassReads) (watched : List Recommendation)
    (reported : List (String × String)) :
    (watchRow pass watched reported rec).Uses (PlainCall (some .drops) [rec.id]) := by
  unfold watchRow noteCutShort concludeWatch rollBackBuild
  repeat' with_reducible first
    | exact uses_pure _
    | exact uses_graduate rec watched reported
    | refine uses_updateRow rec _ ?_
    | refine uses_ask.mpr ?_
    | refine Uses.bind ?_ fun _ => ?_
    | split
  all_goals first
    | exact .inl rfl
    | exact ⟨⟨trivial, .inl rfl⟩, rfl⟩
    | exact ⟨⟨trivial, .inr rfl⟩, rfl⟩

theorem uses_dueRow (pass : PassReads) (dropped : Nat) :
    (dueRow pass dropped rec).Uses (RoundCall (some .drops) [rec.id]) := by
  unfold dueRow judgeDue leaveScope giveBack outstay dropDue recordDrop
  repeat' with_reducible first
    | exact uses_pure _
    | refine uses_ask.mpr ?_
    | refine Uses.bind ?_ fun _ => ?_
    | refine Uses.handle ?_ (fun _ => ?_) fun _ => ?_
    | split
  all_goals first
    | exact (uses_settleDue rec _ _).mono fun _ h => h.1
    | exact (uses_preflight rec).mono fun _ h => (PlainCall.of_quiet h).1
    | exact ⟨trivial, .inl rfl⟩
    | exact ⟨trivial, .inr rfl⟩
    | exact ⟨List.mem_cons_self, .inl rfl⟩

end Rounds

/-!
## Service: who calls what

Some calls are made by one task each: only `approve` writes an approval, only an apply pass
hides, only a finalize pass drops, only `rollback` undoes a drop, only a create pass builds,
and only `settleBuilds` asks after what was scheduled.
-/

def Task.role : Task → Option Role
  | .approve _ _ => some .approves
  | .applyCluster => some .hides
  | .finalizeCluster => some .drops
  | .rollback _ _ => some .undoes
  | .applyCreates => some .builds
  | .settleBuilds => some .settles
  | .unhide _ _ | .shortenObserveWindow _ _ _ => none

def Task.isUnpriced : Task → Bool
  | .finalizeCluster | .rollback _ _ => false
  | _ => true

theorem InRole.ne {role : Option Role} {op : Op} (h : InRole role op) {other : Role}
    (hne : role ≠ some other) : op.role ≠ some other := by
  obtain hnone | hsame := h
  · rw [hnone]
    nofun
  · rwa [hsame]

def PlainRole (role : Option Role) (op : Op) : Prop := InRole role op ∧ op.isUnpriced = true

section Loops
variable {role : Option Role}

theorem plain_withdrawHinted (watches : Watches) :
    (withdrawHinted watches).Uses (PlainRole role) := by
  unfold withdrawHinted
  split
  · exact uses_pure _
  refine (uses_ask.mpr ⟨.inl rfl, rfl⟩).bind fun approved => ?_
  refine (uses_eachFrom (fun state rec _ => ?_) _).bind fun _ => uses_pure _
  exact (uses_withdrawRow rec watches state).mono fun _ h => ⟨h.1.2, h.2⟩

theorem plain_applyCluster : applyCluster.Uses (PlainRole (some .hides)) := by
  have hrow (session : Session) (watches : Watches) (withdrawn : List String)
      (failed : List Thrown) (rec : Recommendation) :
      (applyRow session watches withdrawn failed rec).Uses (PlainRole (some .hides)) :=
    (uses_applyRow rec session watches withdrawn failed).mono fun _ h => ⟨h.1.2, h.2⟩
  unfold applyCluster promoteByScore hideApproved
  repeat' first
    | exact uses_pure _
    | exact uses_raise _
    | exact uses_ask.mpr ⟨.inl rfl, rfl⟩
    | exact plain_withdrawHinted _
    | exact uses_eachFrom (fun failed rec _ => hrow _ _ _ failed rec) _
    | refine Uses.bind ?_ fun _ => ?_
    | split

theorem plain_applyCreates : applyCreates.Uses (PlainRole (some .builds)) := by
  repeat' first
    | exact uses_pure _
    | exact uses_ask.mpr ⟨.inl rfl, rfl⟩
    | exact uses_eachFrom (fun _ rec _ => (uses_buildRow rec).mono fun _ h => ⟨h.1.2, h.2⟩) _
    | refine Uses.bind ?_ fun _ => ?_
    | split
    | dsimp only

theorem plain_settleBuilds : settleBuilds.Uses (PlainRole (some .settles)) := by
  repeat' first
    | exact uses_pure _
    | exact uses_ask.mpr ⟨.inl rfl, rfl⟩
    | exact uses_eachFrom (fun _ rec _ => (uses_settleRow rec).mono fun _ h => ⟨h.1.2, h.2⟩) _
    | refine Uses.bind ?_ fun _ => ?_
    | split

theorem inRole_finalizeCluster : finalizeCluster.Uses (InRole (some .drops)) := by
  unfold finalizeCluster finalizeRows
  repeat' with_reducible first
    | exact uses_pure _
    | refine uses_ask.mpr ?_
    | refine uses_eachFrom (fun _ rec _ => ?_) _
    | refine Uses.bind ?_ fun _ => ?_
    | split
  all_goals first
    | exact .inl rfl
    | exact (plain_withdrawHinted _).mono fun _ h => h.1
    | exact (uses_watchRow _ _ _ _).mono fun _ h => h.1.2
    | exact (uses_dueRow _ _ _).mono fun _ h => h.2

end Loops

theorem plain_task {task : Task} (h : task.isUnpriced = true) :
    task.program.Uses (PlainRole task.role) := by
  cases task with
  | rollback id orgId => cases h
  | finalizeCluster => cases h
  | applyCluster => exact plain_applyCluster
  | applyCreates => exact plain_applyCreates
  | settleBuilds => exact plain_settleBuilds
  | approve id orgId =>
    change (approve id orgId).Uses _
    repeat' first
      | exact uses_pure _
      | exact uses_raise _
      | exact uses_ask.mpr ⟨.inl rfl, rfl⟩
      | exact uses_ask.mpr ⟨.inr rfl, rfl⟩
      | refine Uses.bind ?_ fun _ => ?_
      | split
  | unhide id orgId =>
    change (unhide id orgId).Uses _
    repeat' first
      | exact uses_raise _
      | exact uses_ask.mpr ⟨.inl rfl, rfl⟩
      | refine Uses.bind ?_ fun _ => ?_
      | split
  | shortenObserveWindow id orgId days =>
    change (shortenObserveWindow id orgId days).Uses _
    repeat' first
      | exact uses_raise _
      | exact uses_ask.mpr ⟨.inl rfl, rfl⟩
      | refine Uses.bind ?_ fun _ => ?_
      | split
      | dsimp only

theorem inRole_task (task : Task) : task.program.Uses (InRole task.role) := by
  cases hplain : task.isUnpriced with
  | true => exact (plain_task hplain).mono fun _ h => h.1
  | false =>
    cases task with
    | finalizeCluster => exact inRole_finalizeCluster
    | rollback id orgId =>
      change (rollback id orgId).Uses _
      unfold rollback recordRollback
      repeat' with_reducible first
        | exact uses_raise _
        | refine uses_ask.mpr ?_
        | refine Uses.bind ?_ fun _ => ?_
        | split
      all_goals first | exact .inl rfl | exact .inr rfl
    | _ => cases hplain

end Indexterity.Service
