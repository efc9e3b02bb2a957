import Indexterity.Service.Passes

/-!
# Service: the order of calls

What a call of one task finds, while no other task runs: the row it is about is as the task
read it, and the calls before it have brought the index and the records to where they are.
The account of a task is the state together with the phase it is in between a call to the
executor and the writes that follow it. `Allowed` says, call by call, what the account
shows when a task makes it; every task keeps to it, whatever it is answered.
-/

namespace Indexterity.Service

open Library Program

/-! ## Rows -/

variable {id : String} {rec : Recommendation} {patch : Patch}

namespace Table

theorem find_modify (t : Table) (f : Recommendation → Recommendation)
    (hid : ∀ rec, (f rec).id = rec.id) (id : String) :
    (t.modify f hid).find id = (t.find id).map f := by
  rw [find, modify, List.find?_map]
  refine congrArg (Option.map f) ?_
  congr 1
  funext rec
  simp only [Function.comp_apply, hid]

theorem find_insert {t : Table} {new : Recommendation} (h : t.find id = some rec) :
    (t.insert new).find id = some rec := by
  unfold insert
  split
  · exact h
  · exact List.find?_append.trans (by rw [show t.rows.find? _ = some rec from h]; rfl)

end Table

namespace World

theorem rowById_some {s : World} (h : s.rowById id = some rec) : rec ∈ s.table.rows ∧ rec.id = id :=
  ⟨List.mem_of_find?_eq_some h, by simpa using List.find?_some h⟩

theorem rowById_of_mem {s : World} (h : rec ∈ s.table.rows) : s.rowById rec.id = some rec :=
  find?_of_nodup (fun row : Recommendation => row.id) s.table.ids_nodup h

theorem rowById_updateRow (s : World) (id other : String) (patch : Patch) :
    (s.updateRow id patch).rowById other =
      (s.rowById other).map fun rec => if rec.id = id then patch.apply rec else rec := by
  simp only [rowById, updateRow, Table.find_modify]

theorem rowById_updateRow_self {s : World} (h : s.rowById rec.id = some rec) (patch : Patch) :
    (s.updateRow rec.id patch).rowById rec.id = some (patch.apply rec) := by
  rw [rowById_updateRow, h, Option.map_some, if_pos rfl]

theorem rowById_updateRow_of_ne (s : World) {other : String} (h : other ≠ id) (patch : Patch) :
    (s.updateRow id patch).rowById other = s.rowById other := by
  rw [rowById_updateRow]
  cases hrow : s.rowById other with
  | none => rfl
  | some rec =>
    have hid : rec.id ≠ id := (rowById_some hrow).2.trans_ne h
    rw [Option.map_some, if_neg hid]

end World

def Op.isQuiet : Op → Bool
  | .promoteByScore _ | .updateRow _ _ | .insertAction _ | .insertRoi _ | .insertRetirement _ _
  | .hide _ | .unhide _ _ | .drop _ _ | .create _ _ _ | .settleBuild _ => false
  | _ => true

@[simp] theorem effect_error (s : World) (op : Op) (error : Thrown) :
    s.effect op (.error error) = s := by
  cases op <;> rfl

theorem effect_quiet (s : World) {op : Op} (h : op.isQuiet = true) (answer : Except Thrown op.Ans) :
    s.effect op answer = s := by
  cases op <;> first | rfl | cases h

def Op.writesRows : Op → Bool
  | .promoteByScore _ | .updateRow _ _ | .insertRetirement _ _ => true
  | _ => false

def Op.isUntold : Op → Bool
  | .insertAction _ | .insertRoi _ => false
  | _ => true

def Op.sparesIndexes : Op → Bool
  | .hide _ | .unhide _ _ | .drop _ _ | .create _ _ _ => false
  | _ => true

structure Leaves (s : World) (op : Op) (s' : World) : Prop where
  canHide : s'.canHide = s.canHide
  sharers : s'.sharers = s.sharers
  table : op.writesRows = false → s'.table = s.table
  told : op.isUntold = true → s'.actions = s.actions ∧ s'.roi = s.roi
  indexes : op.sparesIndexes = true → s'.indexes = s.indexes
  invalid : (∀ site claim, op ≠ .drop site claim) → s'.invalid = s.invalid

section Calls
variable (s : World) {op : Op}

theorem leaves_effect (op : Op) (answer : Except Thrown op.Ans) :
    Leaves s op (s.effect op answer) := by
  cases answer with
  | error error =>
    rw [effect_error]
    exact ⟨rfl, rfl, fun _ => rfl, fun _ => ⟨rfl, rfl⟩, fun _ => rfl, fun _ => rfl⟩
  | ok answer =>
    cases op with
    | hide claim =>
      change Leaves s _ (s.hidden claim)
      unfold World.hidden
      split <;> exact ⟨rfl, rfl, fun _ => rfl, fun _ => ⟨rfl, rfl⟩, nofun, fun _ => rfl⟩
    | unhide site claim => exact ⟨rfl, rfl, fun _ => rfl, fun _ => ⟨rfl, rfl⟩, nofun, fun _ => rfl⟩
    | drop site claim =>
      exact ⟨rfl, rfl, fun _ => rfl, fun _ => ⟨rfl, rfl⟩, nofun, fun h => absurd rfl (h _ _)⟩
    | create site claim spec =>
      cases answer with
      | BUILT =>
        change Leaves s _ (s.created site claim spec)
        unfold World.created
        split <;> exact ⟨rfl, rfl, fun _ => rfl, fun _ => ⟨rfl, rfl⟩, nofun, fun _ => rfl⟩
      | SCHEDULED => exact ⟨rfl, rfl, fun _ => rfl, fun _ => ⟨rfl, rfl⟩, nofun, fun _ => rfl⟩
    | promoteByScore threshold =>
      exact ⟨rfl, rfl, nofun, fun _ => ⟨rfl, rfl⟩, fun _ => rfl, fun _ => rfl⟩
    | updateRow id patch => exact ⟨rfl, rfl, nofun, fun _ => ⟨rfl, rfl⟩, fun _ => rfl, fun _ => rfl⟩
    | insertRetirement rec indexName =>
      cases answer <;> exact ⟨rfl, rfl, nofun, fun _ => ⟨rfl, rfl⟩, fun _ => rfl, fun _ => rfl⟩
    | insertAction action => exact ⟨rfl, rfl, fun _ => rfl, nofun, fun _ => rfl, fun _ => rfl⟩
    | insertRoi metric => exact ⟨rfl, rfl, fun _ => rfl, nofun, fun _ => rfl, fun _ => rfl⟩
    | settleBuild claim =>
      obtain ⟨settlement, _ | _⟩ := answer <;>
        exact ⟨rfl, rfl, fun _ => rfl, fun _ => ⟨rfl, rfl⟩, fun _ => rfl, fun _ => rfl⟩
    | _ => exact ⟨rfl, rfl, fun _ => rfl, fun _ => ⟨rfl, rfl⟩, fun _ => rfl, fun _ => rfl⟩

theorem rowById_effect (h : op.writesRows = false) (answer : Except Thrown op.Ans) (id : String) :
    (s.effect op answer).rowById id = s.rowById id := by
  rw [World.rowById, (leaves_effect s op answer).table h, World.rowById]

end Calls

/-! ## Other rows -/

def OnRows (ids : List String) : Op → Prop
  | .promoteByScore _ => False
  | .updateRow id _ => id ∈ ids
  | _ => True

def Elsewhere (ids : List String) (s s' : World) : Prop :=
  s'.canHide = s.canHide ∧
    ∀ id, id ∉ ids → ∀ rec, s.rowById id = some rec → s'.rowById id = some rec

theorem Elsewhere.refl (ids : List String) (s : World) : Elsewhere ids s s :=
  ⟨rfl, fun _ _ _ h => h⟩

theorem Elsewhere.trans {ids : List String} {s s' s'' : World} (h : Elsewhere ids s s')
    (h' : Elsewhere ids s' s'') : Elsewhere ids s s'' :=
  ⟨h'.1.trans h.1, fun id hid rec hrec => h'.2 id hid rec (h.2 id hid rec hrec)⟩

/-- A row stays as it is, or is patched by its own update or by the promotion. -/
theorem rowById_after {s : World} (hrow : s.rowById id = some rec) (op : Op)
    (answer : Except Thrown op.Ans) :
    (s.effect op answer).rowById id = some rec ∨
      ∃ patch, (s.effect op answer).rowById id = some (patch.apply rec) ∧
        (op = .updateRow id patch ∨
          patch = .approved ∧ rec.state = .PROPOSED ∧ ∃ threshold, op = .promoteByScore threshold) ∧
        ∃ value, answer = .ok value := by
  cases hwrites : op.writesRows with
  | false => exact .inl ((rowById_effect s hwrites answer id).trans hrow)
  | true =>
    cases answer with
    | error error => exact .inl (by rwa [effect_error])
    | ok answer =>
      cases op with
      | updateRow other patch =>
        by_cases hid : id = other
        · subst hid
          obtain rfl := (World.rowById_some hrow).2
          exact .inr ⟨patch, World.rowById_updateRow_self hrow patch, .inl rfl, answer, rfl⟩
        · exact .inl ((World.rowById_updateRow_of_ne s hid patch).trans hrow)
      | insertRetirement row indexName =>
        cases answer with
        | none => exact .inl hrow
        | some newId => exact .inl (Table.find_insert hrow)
      | promoteByScore threshold =>
        have hafter : (s.promote threshold).rowById id =
            some (if promotes threshold rec then Patch.approved.apply rec else rec) := by
          rw [World.rowById, World.promote, Table.find_modify, show s.table.find id = _ from hrow]
          rfl
        split at hafter
        · rename_i hpromotes
          simp only [promotes, Bool.and_eq_true, decide_eq_true_eq] at hpromotes
          exact .inr ⟨_, hafter, .inr ⟨rfl, hpromotes.1.1.1, threshold, rfl⟩, answer, rfl⟩
        · exact .inl hafter
      | _ => cases hwrites

theorem elsewhere_effect {ids : List String} (s : World) {op : Op} (h : OnRows ids op)
    (answer : Except Thrown op.Ans) : Elsewhere ids s (s.effect op answer) := by
  refine ⟨(leaves_effect s op answer).canHide, fun id hid rec hrec => ?_⟩
  obtain hsame | ⟨patch, -, rfl | ⟨-, -, threshold, rfl⟩, -⟩ := rowById_after hrec op answer
  · exact hsame
  · exact absurd h hid
  · exact h.elim

/-! ## Phases -/

/-- Where a task is between a call to the executor and the writes that go with it. -/
inductive Phase where
  | idle
  /-- The index is hidden, and its row has not moved. -/
  | hid (claim : Claim)
  /-- The index is to be visible again, and its row has not moved. -/
  | shown (claim : Claim)
  /-- The index is gone, and nothing is recorded of it. -/
  | dropped (claim : Claim) (spec : Option IndexSpec)
  /-- The row has moved to DROPPED, without a token. -/
  | marked (claim : Claim) (spec : Option IndexSpec)
  /-- The token is written, and no ROI row. -/
  | traced (claim : Claim)
  /-- The record of a drop has failed. -/
  | lost (claim : Claim)
  /-- A build is dropped, and its row has not moved. -/
  | tookBack (claim : Claim)
  /-- The undo's build is answered. -/
  | rebuilt (claim : Claim)
  /-- The undo is taken off the ROI rows, and its row has not moved. -/
  | corrected (claim : Claim)
  /-- The built index is there, and its row has not moved; scheduled ones were waited for. -/
  | made (claim : Claim) (awaited : Bool)
  /-- The baseline of the built index is read. -/
  | measured (claim : Claim) (awaited : Bool)
  | scheduled (claim : Claim)
  /-- The engine will not build it. -/
  | refused (claim : Claim)
  /-- A scheduled build has failed. -/
  | unmade (claim : Claim)
deriving DecidableEq

/-- The phase behind an answered call. An un-hide that must not end its task counts as made
whatever it is answered. -/
def Phase.next (s : World) (phase : Phase) : (op : Op) → Except Thrown op.Ans → Phase
  | .updateRow _ (.due .drop), .ok _ =>
    match phase with
    | .dropped claim spec => .marked claim spec
    | _ => .idle
  | .updateRow _ (.due .drop), .error _ =>
    match phase with
    | .dropped claim _ => .lost claim
    | _ => phase
  | .updateRow _ _, .ok _ => .idle
  | .insertAction _, .ok _ =>
    match phase with
    | .marked claim _ => .traced claim
    | _ => phase
  | .insertAction _, .error _ =>
    match phase with
    | .marked claim _ => .lost claim
    | _ => phase
  | .insertRoi _, .ok _ =>
    match phase with
    | .rebuilt claim => .corrected claim
    | _ => .idle
  | .insertRoi _, .error _ =>
    match phase with
    | .traced claim => .lost claim
    | _ => phase
  | .collectionLatency _ _, .ok _ =>
    match phase with
    | .made claim awaited => .measured claim awaited
    | _ => phase
  | .hide claim, .ok _ => .hid claim
  | .unhide .putBack _, _ => .idle
  | .unhide (.due .outOfScope) claim, _ => .shown claim
  | .unhide _ claim, .ok _ => .shown claim
  | .drop .hidden claim, .ok _ => .dropped claim (s.claimed claim)
  | .drop .built claim, .ok _ => .tookBack claim
  | .create .undo claim _, .ok _ => .rebuilt claim
  | .create .build claim _, .ok .BUILT => .made claim false
  | .create .build claim _, .ok .SCHEDULED => .scheduled claim
  | .create .build claim _, .error (.buildRefused _) => .refused claim
  | .settleBuild claim, .ok (.READY, _) => .made claim true
  | .settleBuild claim, .ok (.FAILED _, _) => .unmade claim
  | _, _ => phase

def Phase.isCalm : Phase → Bool
  | .idle | .hid _ | .shown _ | .tookBack _ | .corrected _ => true
  | _ => false

inductive PhaseStep (s : World) (phase : Phase) : (op : Op) → Except Thrown op.Ans → Phase → Prop where
  | stays {op answer} : PhaseStep s phase op answer phase
  | ends {op answer} : PhaseStep s phase op answer .idle
  | marked {id updated claim spec} (h : phase = .dropped claim spec) :
      PhaseStep s phase (.updateRow id (.due .drop)) (.ok updated) (.marked claim spec)
  | traced {action value claim spec} (h : phase = .marked claim spec) :
      PhaseStep s phase (.insertAction action) (.ok value) (.traced claim)
  | lost {op error claim} (h : (∃ spec, phase = .dropped claim spec ∨ phase = .marked claim spec) ∨
      phase = .traced claim) : PhaseStep s phase op (.error error) (.lost claim)
  | corrected {metric value claim} (h : phase = .rebuilt claim) :
      PhaseStep s phase (.insertRoi metric) (.ok value) (.corrected claim)
  | measured {database collection reading claim awaited} (h : phase = .made claim awaited) :
      PhaseStep s phase (.collectionLatency database collection) (.ok reading)
        (.measured claim awaited)
  | hid {claim hiddenAt} : PhaseStep s phase (.hide claim) (.ok hiddenAt) (.hid claim)
  | shown {site claim answer} (h : site = .due .outOfScope ∨ ∃ value, answer = .ok value) :
      PhaseStep s phase (.unhide site claim) answer (.shown claim)
  | dropped {claim value} :
      PhaseStep s phase (.drop .hidden claim) (.ok value) (.dropped claim (s.claimed claim))
  | tookBack {claim value} : PhaseStep s phase (.drop .built claim) (.ok value) (.tookBack claim)
  | rebuilt {claim spec outcome} :
      PhaseStep s phase (.create .undo claim spec) (.ok outcome) (.rebuilt claim)
  | built {claim spec} : PhaseStep s phase (.create .build claim spec) (.ok .BUILT) (.made claim false)
  | scheduled {claim spec} :
      PhaseStep s phase (.create .build claim spec) (.ok .SCHEDULED) (.scheduled claim)
  | refused {claim spec message} :
      PhaseStep s phase (.create .build claim spec) (.error (.buildRefused message)) (.refused claim)
  | ready {claim removed} :
      PhaseStep s phase (.settleBuild claim) (.ok (.READY, removed)) (.made claim true)
  | unmade {claim message removed} :
      PhaseStep s phase (.settleBuild claim) (.ok (.FAILED message, removed)) (.unmade claim)

theorem phaseStep_next (s : World) (phase : Phase) (op : Op) (answer : Except Thrown op.Ans) :
    PhaseStep s phase op answer (phase.next s op answer) := by
  unfold Phase.next
  repeat' split
  all_goals first
    | exact .stays
    | exact .ends
    | exact .hid
    | exact .dropped
    | exact .tookBack
    | exact .rebuilt
    | exact .built
    | exact .scheduled
    | exact .refused
    | exact .ready
    | exact .unmade
    | exact .shown (.inl rfl)
    | exact .shown (.inr ⟨_, rfl⟩)
    | exact .marked rfl
    | exact .traced rfl
    | exact .corrected rfl
    | exact .measured rfl
    | exact .lost (.inl ⟨_, .inl rfl⟩)
    | exact .lost (.inl ⟨_, .inr rfl⟩)
    | exact .lost (.inr rfl)

variable {phase : Phase}

theorem next_quiet (s : World) (hcalm : phase.isCalm = true) {op : Op} (h : op.isQuiet = true)
    (answer : Except Thrown op.Ans) : phase.next s op answer = phase := by
  cases op with
  | collectionLatency database collection =>
    cases answer with
    | error error => rfl
    | ok reading => cases phase <;> first | rfl | cases hcalm
  | _ => first | rfl | cases h

section
variable (s : World) (phase : Phase) (id : String) (h : patch ≠ .due .drop)
include h

theorem next_updateRow_ok (updated : Bool) :
    phase.next s (.updateRow id patch) (.ok updated) = .idle := by
  cases patch with
  | due action => cases action <;> first | rfl | exact absurd rfl h
  | _ => rfl

theorem next_updateRow_error (error : Thrown) :
    phase.next s (.updateRow id patch) (.error error) = phase := by
  cases patch with
  | due action => cases action <;> first | rfl | exact absurd rfl h
  | _ => rfl

end

/-! ## Calls in order -/

def PatchAllowed (s : World) (phase : Phase) (rec : Recommendation) : Patch → Prop
  | .approved => phase = .idle
  | .withdrawn | .reproposed => phase = .idle ∧ rec.state = .APPROVED
  | .hidden _ =>
    rec.state = .APPROVED ∧ (phase = .hid rec.claim ∨ phase = .idle ∧ s.canHide = false)
  | .unbuilt =>
    rec.state = .APPROVED ∧ (phase = .refused rec.claim ∨ phase = .idle ∧
      ∃ target, rec.targetSpec = some target ∧
        (notWorthBuilding (rec.buildRow target).spec (s.live rec.claim)).isSome = true)
  | .building => rec.state = .APPROVED ∧ phase = .scheduled rec.claim
  | .built _ _ =>
    rec.state = .APPROVED ∧ phase = .measured rec.claim false ∨
      rec.state = .BUILDING ∧ phase = .measured rec.claim true
  | .retried => rec.state = .BUILDING ∧ phase = .unmade rec.claim
  | .graduated => rec.state = .ACTIVE ∧ phase = .idle
  | .rolledBack => rec.state = .ACTIVE ∧ phase = .tookBack rec.claim
  | .due .drop => rec.state = .HIDDEN ∧ ∃ spec, phase = .dropped rec.claim spec
  | .due .absent => rec.state = .HIDDEN ∧ phase = .idle ∧ s.claimed rec.claim = none
  | .due .outOfScope | .due .refused =>
    rec.state = .HIDDEN ∧ (phase = .shown rec.claim ∨ phase = .idle ∧ s.canHide = false)
  | .due .introduced | .due .outstayed | .due .regressed =>
    rec.state = .HIDDEN ∧ phase = .shown rec.claim
  | .due .observing | .due .waiting => False
  | .undone => rec.state = .DROPPED ∧ phase = .corrected rec.claim
  | .cancelled =>
    rec.state = .HIDDEN ∧ (phase = .shown rec.claim ∨ phase = .idle ∧ s.canHide = false)
  | .shortened _ => rec.state = .HIDDEN ∧ phase = .idle

def Standing (s : World) (claim : Claim) (state : RecommendationState)
    (also : Recommendation → Prop) : Prop :=
  ∃ rec, s.rowById claim.id = some rec ∧ rec.claim = claim ∧ rec.state = state ∧ also rec

def Allowed (s : World) (phase : Phase) : Op → Prop
  | .updateRow _ .approved => phase = .idle
  | .updateRow id patch =>
    ∃ rec, s.rowById id = some rec ∧ PatchAllowed s phase rec patch
  | .insertAction action =>
    (phase = .idle ∧ (action.kind = .DROP → action.rollbackToken = none)) ∨
      ∃ claim spec, phase = .marked claim spec ∧ action = ⟨claim.id, .DROP, spec⟩
  | .insertRoi metric => ∃ claim rec, s.rowById claim.id = some rec ∧
      (phase = .traced claim ∧ metric = ⟨claim.id, rec.estimatedBytesSaved, 1⟩ ∨
        phase = .rebuilt claim ∧ metric = rollbackCorrection rec)
  | .insertRetirement _ _ | .promoteByScore _ => phase = .idle
  | .hide claim =>
    phase = .idle ∧ Standing s claim .APPROVED fun _ => (s.claimed claim).isSome = true
  | .unhide .putBack claim => phase = .hid claim
  | .unhide _ claim => phase = .idle ∧ Standing s claim .HIDDEN fun _ => True
  | .drop .hidden claim => phase = .idle ∧ Standing s claim .HIDDEN fun rec =>
      ∃ spec, s.claimed claim = some spec ∧
        (isNeverDrop spec = true → rec.target.supersededBy.isSome = true)
  | .drop .built claim => phase = .idle ∧ Standing s claim .ACTIVE fun rec =>
      rec.buildBaseline.isSome = true
  | .create .undo claim spec => phase = .idle ∧ Standing s claim .DROPPED fun _ =>
      ∃ token, (s.dropActions claim.id).findSome? Action.rollbackToken = some token ∧
        rebuiltIndex token = some spec
  | .create .build claim spec => phase = .idle ∧ Standing s claim .APPROVED fun rec =>
      ∃ target, rec.targetSpec = some target ∧ spec = builtIndex (rec.buildRow target) ∧
        notWorthBuilding (rec.buildRow target).spec (s.live claim) = none
  | .settleBuild claim => phase = .idle ∧ Standing s claim .BUILDING fun _ => True
  | .collectionLatency _ _ => phase.isCalm = true ∨ ∃ claim awaited, phase = .made claim awaited
  | _ => phase.isCalm = true

theorem allowed_quiet {s : World} {op : Op} (hop : op.isQuiet = true) (h : phase.isCalm = true) :
    Allowed s phase op := by
  cases op <;> first | exact h | exact .inl h | cases hop

theorem allowed_updateRow {s : World} (h : Allowed s phase (.updateRow id patch))
    (hpatch : patch ≠ .approved) :
    ∃ rec, s.rowById id = some rec ∧ PatchAllowed s phase rec patch := by
  cases patch <;> first | exact h | exact absurd rfl hpatch

/-- The calls of a task that is in the middle of something. -/
inductive BusyCall (s : World) (phase : Phase) : Op → Prop where
  | read {op : Op} (hop : op.isQuiet = true) (hcalm : phase.isCalm = true) : BusyCall s phase op
  | baseline {claim : Claim} {awaited : Bool} (database collection : String)
      (hphase : phase = .made claim awaited) :
      BusyCall s phase (.collectionLatency database collection)
  | update {id : String} {patch : Patch} {rec : Recommendation} (hrow : s.rowById id = some rec)
      (hpatch : PatchAllowed s phase rec patch) : BusyCall s phase (.updateRow id patch)
  | putBack {claim : Claim} (hphase : phase = .hid claim) :
      BusyCall s phase (.unhide .putBack claim)
  | token {claim : Claim} {spec : Option IndexSpec} (hphase : phase = .marked claim spec) :
      BusyCall s phase (.insertAction ⟨claim.id, .DROP, spec⟩)
  | gain {claim : Claim} {rec : Recommendation} (hrow : s.rowById claim.id = some rec)
      (hphase : phase = .traced claim) :
      BusyCall s phase (.insertRoi ⟨claim.id, rec.estimatedBytesSaved, 1⟩)
  | correction {claim : Claim} {rec : Recommendation} (hrow : s.rowById claim.id = some rec)
      (hphase : phase = .rebuilt claim) : BusyCall s phase (.insertRoi (rollbackCorrection rec))

theorem busyCall_of_allowed {s : World} {op : Op} (h : Allowed s phase op) (hidle : phase ≠ .idle) :
    BusyCall s phase op := by
  cases op with
  | updateRow id patch =>
    by_cases happroved : patch = .approved
    · subst happroved
      exact absurd h hidle
    · obtain ⟨rec, hrow, hpatch⟩ := allowed_updateRow h happroved
      exact .update hrow hpatch
  | insertAction action =>
    obtain ⟨hphase, -⟩ | ⟨claim, spec, hphase, rfl⟩ := h
    · exact absurd hphase hidle
    · exact .token hphase
  | insertRoi metric =>
    obtain ⟨claim, rec, hrow, ⟨hphase, rfl⟩ | ⟨hphase, rfl⟩⟩ := h
    · exact .gain hrow hphase
    · exact .correction hrow hphase
  | insertRetirement rec indexName => exact absurd h hidle
  | promoteByScore threshold => exact absurd h hidle
  | hide claim => exact absurd h.1 hidle
  | unhide site claim =>
    cases site with
    | putBack => exact .putBack h
    | request => exact absurd h.1 hidle
    | due action => exact absurd h.1 hidle
  | drop site claim => cases site <;> exact absurd h.1 hidle
  | create site claim spec => cases site <;> exact absurd h.1 hidle
  | settleBuild claim => exact absurd h.1 hidle
  | collectionLatency database collection =>
    obtain hcalm | ⟨claim, awaited, hphase⟩ := h
    · exact .read rfl hcalm
    · exact .baseline database collection hphase
  | _ => exact .read rfl h

structure Account where
  world : World
  phase : Phase

def protocol : Contract Op Op.Ans Thrown Account where
  admits k op answer := ∃ reply, k.world.answer op reply = answer
  demands k op := Allowed k.world k.phase op
  effect k op answer := ⟨k.world.effect op answer, k.phase.next k.world op answer⟩

theorem effect_protocol_quiet {k : Account} (hcalm : k.phase.isCalm = true) {op : Op}
    (h : op.isQuiet = true) (answer : Except Thrown op.Ans) : protocol.effect k op answer = k := by
  simp only [protocol, effect_quiet _ h, next_quiet _ hcalm h]

theorem keeps_elsewhere {α : Type} {ids : List String} {program : Prog α}
    {post : Except Thrown α → Account → Prop} {k : Account}
    (h : program.Keeps protocol post k) (huses : program.Uses (OnRows ids)) :
    program.Keeps protocol (fun r k' => post r k' ∧ Elsewhere ids k.world k'.world) k :=
  Keeps.frame (R := fun k k' => Elsewhere ids k.world k'.world) h huses
    (fun k => Elsewhere.refl ids k.world)
    (fun {a b c} (h : Elsewhere ids a.world b.world) (h' : Elsewhere ids b.world c.world) =>
      h.trans h')
    fun k _ answer hop => elsewhere_effect k.world hop answer

end Indexterity.Service
