import Indexterity.Service.Records

/-!
# Service: the record of a drop

A finalize pass drops the index of a hidden row, and then writes of it: the row moves to
DROPPED, the token goes to the trail, and an ROI row counts the index as gone. No later pass
looks for a drop that was not written down. So a drop is on record exactly where the three
writes behind it are made and go through.
-/

namespace Indexterity.Service

open Library Program

/-! ## On record -/

def World.roiDrops (s : World) (id : String) : Nat :=
  s.roi.countP fun metric =>
    decide (metric.recommendationId = id) && decide (metric.indexCountDelta = 1)

def DroppedSince (s s' : World) (claim : Claim) (spec : IndexSpec) : Prop :=
  (ExecutorCall.drop .hidden spec, claim) ∈ s'.log.drop s.log.length

/-- The row is DROPPED, the token is the index, and one ROI row has come since a state. -/
structure DropRecorded (s s' : World) (claim : Claim) (spec : IndexSpec) : Prop where
  row : ∃ rec, s'.rowById claim.id = some rec ∧ rec.state = .DROPPED
  token : ⟨claim.id, .DROP, some spec⟩ ∈ s'.actions
  roi : s'.roiDrops claim.id = s.roiDrops claim.id + 1

def DropsRecorded (s s' : World) : Prop :=
  ∀ claim spec, DroppedSince s s' claim spec → DropRecorded s s' claim spec

def Call.removes (c : Call) : Bool :=
  match c.2.1 with
  | .drop .hidden _ => c.2.2.error.isNone
  | _ => false

def Booked : List Call → Prop
  | [] => True
  | c :: rest => (c.removes = true → GoesOn 3 rest) ∧ Booked rest

instance decidableBooked : (calls : List Call) → Decidable (Booked calls)
  | [] => isTrue trivial
  | _ :: rest => @instDecidableAnd _ _ inferInstance (decidableBooked rest)

def Phase.moved : Phase → Option Claim
  | .marked claim _ | .traced claim => some claim
  | _ => none

def Phase.undoing : Phase → Bool
  | .rebuilt _ | .corrected _ => true
  | _ => false

def Op.LeavesDrops (op : Op) : Prop := op.role ≠ some .approves ∧ op.role ≠ some .undoes

/-! ## What is allowed in between -/

def Phase.booking : Phase → Option Claim
  | .dropped claim _ | .marked claim _ | .traced claim | .lost claim => some claim
  | _ => none

variable {phase : Phase} {patch : Patch}

theorem booking_of_moved {claim : Claim} (h : phase.moved = some claim) :
    phase.booking = some claim := by
  cases phase <;> first | exact h | cases h

variable {rec : Recommendation} {rest : List Call} {events : List Event}

section Allowed
variable {s : World} {op : Op} {claim : Claim}

theorem patchAllowed_booking (h : PatchAllowed s phase rec patch)
    (hbooking : phase.booking = some claim) :
    patch = .due .drop ∧ rec.state = .HIDDEN ∧ ∃ spec, phase = .dropped rec.claim spec := by
  cases phase with
  | dropped _ _ =>
    cases patch with
    | due action =>
      cases action <;> simp [PatchAllowed] at h
      exact ⟨rfl, h.1, _, by rw [h.2]⟩
    | _ => simp [PatchAllowed] at h
  | marked _ _ | traced _ | lost _ =>
    cases patch with
    | due action => cases action <;> simp [PatchAllowed] at h
    | _ => simp [PatchAllowed] at h
  | _ => cases hbooking

theorem allowed_booking (h : Allowed s phase op) (hbooking : phase.booking = some claim) :
    (∃ spec, phase = .dropped claim spec ∧ op = .updateRow claim.id (.due .drop) ∧
      ∃ rec, s.rowById claim.id = some rec ∧ rec.claim = claim ∧ rec.state = .HIDDEN) ∨
    (∃ spec, phase = .marked claim spec ∧ op = .insertAction ⟨claim.id, .DROP, spec⟩) ∨
    phase = .traced claim ∧ ∃ bytes, op = .insertRoi ⟨claim.id, bytes, 1⟩ := by
  have hidle : phase ≠ .idle := fun heq => by simp [heq, Phase.booking] at hbooking
  cases busyCall_of_allowed h hidle with
  | read hop hcalm => cases phase <;> simp [Phase.isCalm, Phase.booking] at hcalm hbooking
  | baseline database collection hphase =>
    subst hphase
    cases hbooking
  | @update id patch rec hrow hpatch =>
    obtain ⟨rfl, hstate, spec, rfl⟩ := patchAllowed_booking hpatch hbooking
    obtain rfl := (World.rowById_some hrow).2
    obtain rfl : rec.claim = claim := Option.some.inj hbooking
    exact .inl ⟨spec, rfl, rfl, rec, hrow, rfl, hstate⟩
  | putBack hphase =>
    subst hphase
    cases hbooking
  | @token _ spec hphase =>
    subst hphase
    obtain rfl := Option.some.inj hbooking
    exact .inr (.inl ⟨spec, rfl, rfl⟩)
  | gain hrow hphase =>
    subst hphase
    obtain rfl := Option.some.inj hbooking
    exact .inr (.inr ⟨rfl, _, rfl⟩)
  | correction hrow hphase =>
    subst hphase
    cases hbooking

end Allowed

theorem next_of_not_booking (s : World) {op : Op}
    (hphase : phase.booking = none ∧ phase.undoing = false)
    (hdrop : ∀ claim, op ≠ .drop .hidden claim) (hrole : op.role ≠ some .undoes)
    (answer : Except Thrown op.Ans) :
    (phase.next s op answer).booking = none ∧ (phase.next s op answer).undoing = false := by
  have hstep := phaseStep_next s phase op answer
  generalize phase.next s op answer = next at hstep ⊢
  cases hstep with
  | stays => exact hphase
  | marked h => simp [h, Phase.booking] at hphase
  | traced h => simp [h, Phase.booking] at hphase
  | lost h => obtain ⟨spec, rfl | rfl⟩ | rfl := h <;> cases hphase.1
  | corrected h => simp [h, Phase.undoing] at hphase
  | dropped => exact absurd rfl (hdrop _)
  | rebuilt => exact absurd rfl hrole
  | _ => exact ⟨rfl, rfl⟩

theorem booking_next {s : World} {op : Op} {claim : Claim} (hallowed : Allowed s phase op)
    (hundo : phase.undoing = false) (hrole : op.role ≠ some .undoes) {answer : Except Thrown op.Ans}
    (h : (phase.next s op answer).booking = some claim) :
    phase.booking = some claim ∨ op = .drop .hidden claim := by
  cases hbooking : phase.booking with
  | some other =>
    refine .inl ?_
    obtain ⟨spec, rfl, rfl, -⟩ | ⟨spec, rfl, rfl⟩ | ⟨rfl, bytes, rfl⟩ :=
      allowed_booking hallowed hbooking
    · cases answer <;> exact h
    · cases answer <;> exact h
    · cases answer with
      | ok answer => cases h
      | error error => exact h
  | none =>
    by_cases hdrop : ∃ claim, op = .drop .hidden claim
    · obtain ⟨other, rfl⟩ := hdrop
      cases answer with
      | ok answer =>
        obtain rfl := Option.some.inj h
        exact .inr rfl
      | error error => cases hbooking.symm.trans h
    · obtain ⟨hnone, -⟩ :=
        next_of_not_booking s ⟨hbooking, hundo⟩ (not_exists.mp hdrop) hrole answer
      cases hnone.symm.trans h

/-! ## Dropped rows -/

/-- A row keeps its index, and stays DROPPED unless it is undone or approved. -/
def KeepsDropped (s s' : World) : Prop :=
  ∀ id rec, s.rowById id = some rec → ∃ rec', s'.rowById id = some rec' ∧ rec'.claim = rec.claim ∧
    (rec.state = .DROPPED → rec'.state = .DROPPED)

theorem KeepsDropped.of_table_eq {s s' : World} (h : s'.table = s.table) : KeepsDropped s s' :=
  fun _ rec hrow => ⟨rec, by rwa [World.rowById, h], rfl, fun hstate => hstate⟩

theorem keepsDropped_updateRow {s : World} {id : String}
    (h : ∀ rec, s.rowById id = some rec → rec.state = .DROPPED →
      (patch.apply rec).state = .DROPPED) : KeepsDropped s (s.updateRow id patch) := by
  intro other rec hrec
  by_cases heq : other = id
  · subst heq
    obtain rfl := (World.rowById_some hrec).2
    exact ⟨_, World.rowById_updateRow_self hrec patch, apply_claim patch rec, h rec hrec⟩
  · exact ⟨rec, (World.rowById_updateRow_of_ne s heq patch).trans hrec, rfl, fun hstate => hstate⟩

theorem patchAllowed_dropped {s : World} (h : PatchAllowed s phase rec patch)
    (happroved : patch ≠ .approved) (hundo : phase.undoing = false) : rec.state ≠ .DROPPED := by
  intro hstate
  cases patch with
  | approved => exact absurd rfl happroved
  | due action => cases action <;> simp [PatchAllowed, hstate] at h
  | undone => simp [h.2, Phase.undoing] at hundo
  | _ => simp [PatchAllowed, hstate] at h

theorem keepsDropped_effect {s : World} {op : Op} (h : Allowed s phase op)
    (hrole : op.role ≠ some .approves) (hundo : phase.undoing = false)
    (answer : Except Thrown op.Ans) : KeepsDropped s (s.effect op answer) := by
  intro id rec hrec
  obtain hsame | ⟨patch, hpatched, hop, -⟩ := rowById_after hrec op answer
  · exact ⟨rec, hsame, rfl, fun hstate => hstate⟩
  refine ⟨_, hpatched, apply_claim patch rec, fun hstate => ?_⟩
  obtain rfl | ⟨-, hproposed, -⟩ := hop
  · have happroved : patch ≠ .approved := by
      rintro rfl
      exact hrole rfl
    obtain ⟨row, hrow, hpatch⟩ := allowed_updateRow h happroved
    obtain rfl : row = rec := Option.some.inj (hrow.symm.trans hrec)
    exact absurd hstate (patchAllowed_dropped hpatch happroved hundo)
  · cases hproposed.symm.trans hstate

/-! ## The ledger -/

theorem roiDrops_insert (s : World) (metric : RoiMetric) (id : String) :
    World.roiDrops { s with roi := s.roi ++ [metric] } id =
      s.roiDrops id +
        if metric.recommendationId = id ∧ metric.indexCountDelta = 1 then 1 else 0 := by
  simp [World.roiDrops, List.countP_append, List.countP_singleton]

section Log
variable {s₀ s s' : World} {claim : Claim} {spec : IndexSpec}

theorem droppedSince_append {new : List (ExecutorCall × Claim)} (hlog : s₀.log <+: s.log)
    (h : s'.log = s.log ++ new) :
    DroppedSince s₀ s' claim spec ↔
      DroppedSince s₀ s claim spec ∨ (ExecutorCall.drop .hidden spec, claim) ∈ new := by
  rw [DroppedSince, h, List.drop_append_of_le_length hlog.length_le, List.mem_append, DroppedSince]

theorem entry_ne_drop {op : Op} (hop : ∀ claim, op ≠ .drop .hidden claim)
    (answer : Except Thrown op.Ans) :
    (ExecutorCall.drop .hidden spec, claim) ∉ (s.entry op answer).toList := by
  intro hmem
  cases logs_of_entry (Option.mem_toList.mp hmem) with
  | drop h => exact hop claim rfl

end Log

/-- A drop that is not on record, and that no pass will look for. -/
structure Lost (s₀ s : World) (claim : Claim) : Prop where
  removed : ∃ spec, DroppedSince s₀ s claim spec
  unsold : s.roiDrops claim.id = s₀.roiDrops claim.id
  row : ∃ rec, s.rowById claim.id = some rec ∧ rec.claim = claim ∧
    (s.claimed claim = none ∨ rec.state = .DROPPED)

/-- What holds of the ROI rows and of an unfinished record, between any two calls. -/
structure Ledger (s₀ : World) (k : Account) : Prop where
  log : s₀.log <+: k.world.log
  quiet : k.phase.undoing = false
  unsold : ∀ id, (∀ rec, k.world.rowById id = some rec → rec.state ≠ .DROPPED) →
    k.world.roiDrops id = s₀.roiDrops id
  hand : ∀ claim, k.phase.booking = some claim → Lost s₀ k.world claim
  moved : ∀ claim, k.phase.moved = some claim →
    ∃ rec, k.world.rowById claim.id = some rec ∧ rec.state = .DROPPED

theorem KeepsDropped.unsold {s₀ s s' : World} (h : KeepsDropped s s') (hroi : s'.roi = s.roi)
    (hunsold : ∀ id, (∀ rec, s.rowById id = some rec → rec.state ≠ .DROPPED) →
      s.roiDrops id = s₀.roiDrops id) (id : String)
    (hid : ∀ rec, s'.rowById id = some rec → rec.state ≠ .DROPPED) :
    s'.roiDrops id = s₀.roiDrops id := by
  rw [World.roiDrops, hroi]
  refine hunsold id fun rec hrec hstate => ?_
  obtain ⟨rec', hrec', -, hdropped⟩ := h id rec hrec
  exact hid rec' hrec' (hdropped hstate)

namespace Ledger
variable {s₀ : World} {k : Account} {op : Op}

variable (h : Ledger s₀ k)
include h

theorem step_aside (hallowed : Allowed k.world k.phase op) (hrole : op.LeavesDrops)
    (hbooking : k.phase.booking = none) (hdrop : ∀ claim, op ≠ .drop .hidden claim)
    (answer : Except Thrown op.Ans) :
    Ledger s₀ (protocol.effect k op answer) := by
  obtain ⟨hnone, hquiet⟩ := next_of_not_booking k.world ⟨hbooking, h.quiet⟩ hdrop hrole.2 answer
  have hroi : ∀ metric, op ≠ .insertRoi metric := by
    rintro metric rfl
    obtain ⟨claim, rec, -, ⟨hphase, -⟩ | ⟨hphase, -⟩⟩ := hallowed
    · simp [hphase, Phase.booking] at hbooking
    · simpa [hphase, Phase.undoing] using h.quiet
  refine ⟨?_, hquiet, ?_, ?_, ?_⟩
  · exact h.log.trans (log_effect k.world op answer ▸ List.prefix_append _ _)
  · exact (keepsDropped_effect hallowed hrole.1 h.quiet answer).unsold
      (roi_effect k.world hroi answer) h.unsold
  · intro claim hclaim
    cases hnone.symm.trans hclaim
  · intro claim hclaim
    cases hnone.symm.trans (booking_of_moved hclaim)

theorem step_drop {claim : Claim} (hallowed : Allowed k.world k.phase (.drop .hidden claim))
    (answer : Except Thrown Unit) :
    Ledger s₀ (protocol.effect k (.drop .hidden claim) answer) := by
  obtain ⟨hphase, rec, hrow, hclaim, hstate, spec, hspec, -⟩ := hallowed
  cases answer with
  | error error => exact h
  | ok answer =>
    have htable : (k.world.dropped .hidden claim).table = k.world.table :=
      (leaves_effect k.world (.drop .hidden claim) (.ok answer)).table rfl
    have hlog := log_effect k.world (.drop .hidden claim) (.ok answer)
    have hroi := @roi_effect (.drop .hidden claim) k.world (by simp) (.ok answer)
    have hunsold := (KeepsDropped.of_table_eq htable).unsold hroi h.unsold
    have hrow' : (k.world.dropped .hidden claim).rowById claim.id = some rec := by
      rwa [World.rowById, htable]
    refine ⟨h.log.trans (hlog ▸ List.prefix_append _ _), rfl, hunsold, ?_, ?_⟩
    · intro claim' hclaim'
      obtain rfl : claim = claim' := Option.some.inj hclaim'
      refine ⟨⟨spec, (droppedSince_append h.log hlog).mpr (.inr ?_)⟩, hunsold claim.id ?_, ?_⟩
      · rw [Option.mem_toList]
        exact congrArg (Option.map _) hspec
      · intro row hrow''
        obtain rfl := Option.some.inj (hrow'.symm.trans hrow'')
        simp [hstate]
      · refine ⟨rec, hrow', hclaim, .inl ?_⟩
        exact (indexAt_dropped k.world claim _ .hidden).trans (if_pos (place_mem_places _ _))
    · intro claim' hclaim'
      cases hclaim'

theorem step_booking {claim : Claim} (hallowed : Allowed k.world k.phase op)
    (hbooking : k.phase.booking = some claim) (answer : Except Thrown op.Ans) :
    Ledger s₀ (protocol.effect k op answer) := by
  obtain ⟨s, phase⟩ := k
  have hlost := h.hand claim hbooking
  -- a write that fails leaves the drop lost
  have hfails : Ledger s₀ ⟨s, .lost claim⟩ := by
    refine ⟨h.log, rfl, h.unsold, ?_, ?_⟩
    · rintro _ ⟨⟩
      exact hlost
    · exact nofun
  obtain ⟨spec, hphase, rfl, rec, hrow, rfl, hstate⟩ | ⟨spec, hphase, rfl⟩ |
    ⟨hphase, bytes, rfl⟩ := allowed_booking hallowed hbooking
  · obtain rfl : phase = _ := hphase
    cases answer with
    | error error => exact hfails
    | ok updated =>
      have hkeeps : KeepsDropped s (s.updateRow rec.id (.due .drop)) :=
        keepsDropped_updateRow fun _ _ _ => rfl
      have hrow' := World.rowById_updateRow_self hrow (.due .drop)
      refine ⟨h.log, rfl, hkeeps.unsold rfl h.unsold, ?_, ?_⟩
      · rintro _ ⟨⟩
        exact ⟨hlost.removed, hlost.unsold, _, hrow', apply_claim _ rec, .inr rfl⟩
      · rintro _ ⟨⟩
        exact ⟨_, hrow', rfl⟩
  · obtain rfl : phase = _ := hphase
    cases answer with
    | error error => exact hfails
    | ok _ =>
      refine ⟨h.log, rfl, h.unsold, ?_, ?_⟩
      · rintro _ ⟨⟩
        exact ⟨hlost.removed, hlost.unsold, hlost.row⟩
      · rintro _ ⟨⟩
        exact h.moved claim rfl
  · obtain rfl : phase = _ := hphase
    cases answer with
    | error error => exact hfails
    | ok _ =>
      refine ⟨h.log, rfl, fun id hid => ?_, nofun, nofun⟩
      obtain ⟨rec, hrow, hstate⟩ := h.moved claim rfl
      have hne : claim.id ≠ id := by
        rintro rfl
        exact hid rec hrow hstate
      refine (roiDrops_insert s ⟨claim.id, bytes, 1⟩ id).trans ?_
      rw [if_neg (fun heq => hne heq.1)]
      exact h.unsold id hid

theorem step (hallowed : Allowed k.world k.phase op) (hrole : op.LeavesDrops)
    (answer : Except Thrown op.Ans) : Ledger s₀ (protocol.effect k op answer) := by
  cases hbooking : k.phase.booking with
  | some claim => exact h.step_booking hallowed hbooking answer
  | none =>
    by_cases hdrop : ∃ claim, op = .drop .hidden claim
    · obtain ⟨claim, rfl⟩ := hdrop
      exact h.step_drop hallowed answer
    · exact h.step_aside hallowed hrole hbooking (not_exists.mp hdrop) answer

end Ledger

/-! ## Drops that are booked -/

section Recorded
variable {s₀ : World} {k : Account} {op : Op} {claim : Claim} {spec : IndexSpec}

theorem Ledger.roiDrops_effect (hledger : Ledger s₀ k) (hallowed : Allowed k.world k.phase op)
    {id : String} (hother : ∀ other, k.phase.booking = some other → other.id ≠ id)
    (answer : Except Thrown op.Ans) :
    (k.world.effect op answer).roiDrops id = k.world.roiDrops id := by
  by_cases hroi : ∃ metric, op = .insertRoi metric
  · obtain ⟨metric, rfl⟩ := hroi
    cases answer with
    | error error => rfl
    | ok _ =>
      obtain ⟨other, row, -, ⟨hphase, rfl⟩ | ⟨hphase, -⟩⟩ := hallowed
      · refine (roiDrops_insert k.world _ id).trans ?_
        rw [if_neg fun heq => hother other (by rw [hphase]; rfl) heq.1]
        rfl
      · simpa [hphase, Phase.undoing] using hledger.quiet
  · rw [World.roiDrops, roi_effect k.world (not_exists.mp hroi)]
    rfl

theorem DropRecorded.step (h : DropRecorded s₀ k.world claim spec) (hledger : Ledger s₀ k)
    (hallowed : Allowed k.world k.phase op) (hrole : op.LeavesDrops)
    (answer : Except Thrown op.Ans) : DropRecorded s₀ (k.world.effect op answer) claim spec := by
  refine ⟨?_, (actions_effect k.world op answer).subset h.token, ?_⟩
  · obtain ⟨rec, hrow, hstate⟩ := h.row
    obtain ⟨rec', hrow', -, hdropped⟩ :=
      keepsDropped_effect hallowed hrole.1 hledger.quiet answer claim.id rec hrow
    exact ⟨rec', hrow', hdropped hstate⟩
  refine (hledger.roiDrops_effect hallowed (fun other hbooking heq => ?_) answer).trans h.roi
  have hlost := (hledger.hand other hbooking).unsold
  rw [heq, h.roi] at hlost
  omega

def InHand (k : Account) (claim : Claim) (spec : IndexSpec) : Prop :=
  k.phase = .dropped claim (some spec) ∨ k.phase = .marked claim (some spec) ∨
    (k.phase = .traced claim ∧ ⟨claim.id, .DROP, some spec⟩ ∈ k.world.actions) ∨
    k.phase = .lost claim

theorem InHand.booking (h : InHand k claim spec) : k.phase.booking = some claim := by
  obtain h | h | ⟨h, -⟩ | h := h <;> rw [h] <;> rfl

def RecordedOrInHand (s₀ : World) (k : Account) : Prop :=
  ∀ claim spec, DroppedSince s₀ k.world claim spec →
    DropRecorded s₀ k.world claim spec ∨ InHand k claim spec

theorem InHand.step (h : InHand k claim spec) (hledger : Ledger s₀ k)
    (hallowed : Allowed k.world k.phase op) (answer : Except Thrown op.Ans) :
    DropRecorded s₀ (k.world.effect op answer) claim spec ∨
      InHand (protocol.effect k op answer) claim spec := by
  obtain ⟨s, phase⟩ := k
  have hlost := hledger.hand claim h.booking
  obtain ⟨spec', hphase, rfl, -⟩ | ⟨spec', hphase, rfl⟩ | ⟨hphase, bytes, rfl⟩ :=
    allowed_booking hallowed h.booking
  · obtain rfl : phase = _ := hphase
    obtain rfl : spec' = some spec := by simpa [InHand] using h
    cases answer with
    | error error => exact .inr (.inr (.inr (.inr rfl)))
    | ok updated => exact .inr (.inr (.inl rfl))
  · obtain rfl : phase = _ := hphase
    obtain rfl : spec' = some spec := by simpa [InHand] using h
    cases answer with
    | error error => exact .inr (.inr (.inr (.inr rfl)))
    | ok _ => exact .inr (.inr (.inr (.inl ⟨rfl, List.mem_append_right _ List.mem_cons_self⟩)))
  · obtain rfl : phase = _ := hphase
    have htoken : ⟨claim.id, .DROP, some spec⟩ ∈ s.actions := by simpa [InHand] using h
    cases answer with
    | error error => exact .inr (.inr (.inr (.inr rfl)))
    | ok _ =>
      refine .inl ⟨hledger.moved claim rfl, htoken, ?_⟩
      refine (roiDrops_insert s ⟨claim.id, bytes, 1⟩ claim.id).trans ?_
      rw [if_pos ⟨rfl, rfl⟩]
      exact congrArg (· + 1) hlost.unsold

theorem RecordedOrInHand.step (h : RecordedOrInHand s₀ k) (hledger : Ledger s₀ k)
    (hallowed : Allowed k.world k.phase op) (hrole : op.LeavesDrops)
    (answer : Except Thrown op.Ans) : RecordedOrInHand s₀ (protocol.effect k op answer) := by
  intro claim spec hsince
  obtain hold | hnew :=
    (droppedSince_append hledger.log (log_effect k.world op answer)).mp hsince
  · obtain hrecorded | hhand := h claim spec hold
    · exact .inl (hrecorded.step hledger hallowed hrole answer)
    · exact hhand.step hledger hallowed answer
  · -- the drop itself
    by_cases hdrop : ∃ claim, op = .drop .hidden claim
    · obtain ⟨claim', rfl⟩ := hdrop
      cases logs_of_entry (Option.mem_toList.mp hnew) with
      | drop hspec => exact .inr (.inl (congrArg _ hspec))
    · exact absurd hnew (entry_ne_drop (not_exists.mp hdrop) answer)

end Recorded

/-! ## Turns -/

def Phase.pending : Phase → Nat
  | .dropped _ _ => 3
  | .marked _ _ => 2
  | .traced _ => 1
  | _ => 0

def Fine (phase : Phase) (calls : List Call) : Prop :=
  (∀ claim, phase ≠ .lost claim) ∧ GoesOn phase.pending calls ∧ Booked calls

theorem fine_of_not_booking (h : phase.booking = none) (calls : List Call) :
    Fine phase calls ↔ Booked calls := by
  have hpending : phase.pending = 0 := by cases phase <;> first | rfl | cases h
  have hlost (claim : Claim) : phase ≠ .lost claim := fun heq => by simp [heq, Phase.booking] at h
  rw [Fine, hpending]
  exact ⟨fun h => h.2.2, fun h => ⟨hlost, goesOn_zero calls, h⟩⟩

theorem booked_cons_of_ne {c : Call} (h : ∀ claim, c.2.1 ≠ .drop .hidden claim) :
    Booked (c :: rest) ↔ Booked rest := by
  refine and_iff_right fun hremoves => ?_
  unfold Call.removes at hremoves
  split at hremoves
  · rename_i claim hop
    exact absurd hop (h claim)
  · cases hremoves

theorem fine_write {s : World} {after : Phase} {op : Op} {reply : Reply} (claim : Claim)
    (next : Phase) (hop : ∀ claim, op ≠ .drop .hidden claim) (hphase : ∀ claim, phase ≠ .lost claim)
    (hnext : ∀ claim, next ≠ .lost claim) (hpending : phase.pending = next.pending + 1)
    (hafter : after = if reply.error = none then next else .lost claim) :
    Fine phase ((s, op, reply) :: rest) ↔ Fine after rest := by
  rw [Fine, hpending, goesOn_cons, booked_cons_of_ne hop]
  cases hreply : reply.error with
  | none => simp [hafter, hreply, Fine, hphase, hnext]
  | some error => simp [hafter, hreply, Fine]

theorem fine_step {s : World} {op : Op} (hallowed : Allowed s phase op)
    (hundo : phase.undoing = false) (hrole : op.role ≠ some .undoes) (reply : Reply)
    (rest : List Call) :
    Fine phase ((s, op, reply) :: rest) ↔ Fine (phase.next s op (s.answer op reply)) rest := by
  cases hbooking : phase.booking with
  | some claim =>
    obtain ⟨spec, rfl, rfl, -⟩ | ⟨spec, rfl, rfl⟩ | ⟨rfl, bytes, rfl⟩ :=
      allowed_booking hallowed hbooking
    · refine fine_write claim (.marked claim spec) (by simp) (by simp) (by simp) rfl ?_
      cases herror : reply.error <;> simp [World.answer, Reply.gives, herror, Phase.next]
    · refine fine_write claim (.traced claim) (by simp) (by simp) (by simp) rfl ?_
      cases herror : reply.error <;> simp [World.answer, Reply.gives, herror, Phase.next]
    · refine fine_write claim .idle (by simp) (by simp) (by simp) rfl ?_
      cases herror : reply.error <;> simp [World.answer, Reply.gives, herror, Phase.next]
  | none =>
    rw [fine_of_not_booking hbooking]
    by_cases hdrop : ∃ claim, op = .drop .hidden claim
    · obtain ⟨claim, rfl⟩ := hdrop
      cases herror : reply.error with
      | none =>
        have hremoves : Call.removes (s, .drop .hidden claim, reply) = true := by
          simp [Call.removes, herror]
        have hnext : phase.next s (.drop .hidden claim) (s.answer (.drop .hidden claim) reply) =
            .dropped claim (s.claimed claim) := by
          simp [World.answer, Reply.gives, herror, Phase.next]
        rw [hnext, Fine, Booked]
        simp [hremoves, Phase.pending]
      | some error =>
        have hremoves : Call.removes (s, .drop .hidden claim, reply) = false := by
          simp [Call.removes, herror]
        have hnext : phase.next s (.drop .hidden claim) (s.answer (.drop .hidden claim) reply) =
            phase := by
          simp [World.answer, Reply.gives, herror, Phase.next]
        rw [hnext, fine_of_not_booking hbooking, Booked]
        simp [hremoves]
    · have hdrop := not_exists.mp hdrop
      obtain ⟨hnone, -⟩ := next_of_not_booking s ⟨hbooking, hundo⟩ hdrop hrole (s.answer op reply)
      rw [fine_of_not_booking hnone, booked_cons_of_ne hdrop]

theorem fine_nil (phase : Phase) : Fine phase [] ↔ phase.booking = none := by
  refine ⟨fun ⟨hlost, hgoes, _⟩ => ?_, fun h => (fine_of_not_booking h []).mpr trivial⟩
  have hpending : phase.pending = 0 := Nat.le_zero.mp hgoes.1
  cases phase <;> first | rfl | exact absurd rfl (hlost _) | cases hpending

section Runs
variable {s₀ : World}

theorem Ledger.idle {s : World} (h : Ledger s₀ ⟨s, phase⟩) : Ledger s₀ ⟨s, .idle⟩ :=
  ⟨h.log, rfl, h.unsold, nofun, nofun⟩

theorem ledger_run {α : Type} (replies : List Reply) {program : Prog α} {s : World}
    (hkeeps : program.Keeps protocol Ends ⟨s, phase⟩) (huses : program.Uses Op.LeavesDrops)
    (hledger : Ledger s₀ ⟨s, phase⟩) :
    ∃ phase', Ledger s₀ ⟨(run machine replies program s).2, phase'⟩ ∧
      (RecordedOrInHand s₀ ⟨s, phase⟩ →
        RecordedOrInHand s₀ ⟨(run machine replies program s).2, phase'⟩) ∧
      (Fine phase (calls machine replies program s) ↔ phase'.booking = none) := by
  have hroles : ∀ c ∈ calls machine replies program s, c.2.1.LeavesDrops := huses.calls
  obtain ⟨phase', ⟨-, hledger', hrecorded, hfine⟩, -⟩ := @keeps_run_rest _
    (fun k rest =>
      (∀ c ∈ rest, c.2.1.LeavesDrops) ∧ Ledger s₀ k ∧
        (RecordedOrInHand s₀ ⟨s, phase⟩ → RecordedOrInHand s₀ k) ∧
        (Fine phase (calls machine replies program s) ↔ Fine k.phase rest)) _
    (fun k op reply rest ⟨hroles, hledger, hrecorded, hfine⟩ hallowed =>
      have hrole := hroles _ List.mem_cons_self
      ⟨fun c hc => hroles c (List.mem_cons_of_mem _ hc), hledger.step hallowed hrole _,
        fun h => (hrecorded h).step hledger hallowed hrole _,
        hfine.trans (fine_step hallowed hledger.quiet hrole.2 reply rest)⟩)
    replies _ _ hkeeps ⟨hroles, hledger, id, Iff.rfl⟩
  exact ⟨phase', hledger', hrecorded, hfine.trans (fine_nil phase')⟩

theorem RecordedOrInHand.dropsRecorded {s : World} (h : RecordedOrInHand s₀ ⟨s, phase⟩)
    (hbooking : phase.booking = none) : DropsRecorded s₀ s :=
  fun claim spec hsince => (h claim spec hsince).resolve_right fun hhand => by
    cases hbooking.symm.trans hhand.booking

end Runs

def Event.leavesDrops : Event → Prop
  | .turn task _ => task.role ≠ some .approves ∧ task.role ≠ some .undoes
  | .jobRun _ _ | .outside _ _ _ _ => True

def Event.makesNothing : Event → Prop
  | .turn task _ =>
    (task.role ≠ some .approves ∧ task.role ≠ some .undoes) ∧ task.role ≠ some .builds
  | .jobRun _ _ | .outside _ _ _ _ => False

theorem Event.makesNothing.leavesDrops {event : Event} (h : event.makesNothing) :
    event.leavesDrops := by
  cases event with
  | turn task replies => exact h.1
  | jobRun job succeeds => trivial
  | outside database collection live invalid => trivial

theorem uses_leavesDrops {task : Task} (h : task.role ≠ some .approves ∧ task.role ≠ some .undoes) :
    task.program.Uses Op.LeavesDrops :=
  (inRole_task task).mono fun _ hrole => ⟨hrole.ne h.1, hrole.ne h.2⟩

/-! ## Sequences -/

section Events
variable {s₀ s : World}

/-- What a scheduled build and somebody else leave alone. -/
structure Aside (s s' : World) : Prop where
  table : s'.table = s.table
  roi : s'.roi = s.roi
  actions : s'.actions = s.actions
  log : ∃ new, s'.log = s.log ++ new ∧
    ∀ spec claim, (ExecutorCall.drop .hidden spec, claim) ∉ new

theorem Aside.refl (s : World) : Aside s s := ⟨rfl, rfl, rfl, [], (List.append_nil _).symm, by simp⟩

theorem aside_jobRuns (s : World) (job : Job) (succeeds : Bool) :
    Aside s (s.jobRuns job succeeds) := by
  unfold World.jobRuns
  split
  · cases succeeds with
    | true => exact ⟨rfl, rfl, rfl, [_], rfl, by simp⟩
    | false => exact ⟨rfl, rfl, rfl, [], (List.append_nil _).symm, by simp⟩
  · exact Aside.refl s

theorem Aside.ledger {s' : World} (h : Aside s s') (hledger : Ledger s₀ ⟨s, .idle⟩) :
    Ledger s₀ ⟨s', .idle⟩ := by
  obtain ⟨new, hlog, -⟩ := h.log
  refine ⟨hledger.log.trans (hlog ▸ List.prefix_append _ _), rfl, ?_, nofun, nofun⟩
  exact (KeepsDropped.of_table_eq h.table).unsold h.roi hledger.unsold

theorem Aside.dropsRecorded {s' : World} (h : Aside s s') (hlog : s₀.log <+: s.log)
    (hrecorded : DropsRecorded s₀ s) : DropsRecorded s₀ s' := by
  intro claim spec hsince
  obtain ⟨new, hnew, hdrops⟩ := h.log
  obtain ⟨hrow, htoken, hroi⟩ :=
    hrecorded claim spec (((droppedSince_append hlog hnew).mp hsince).resolve_right (hdrops _ _))
  refine ⟨?_, h.actions ▸ htoken, ?_⟩
  · rwa [World.rowById, h.table]
  · rwa [World.roiDrops, h.roi]

theorem ledger_event {event : Event} (hevent : event.leavesDrops) (h : Ledger s₀ ⟨s, .idle⟩) :
    Ledger s₀ ⟨event.after s, .idle⟩ ∧
      (DropsRecorded s₀ s → Booked (event.calls s) → DropsRecorded s₀ (event.after s)) := by
  cases event with
  | turn task replies =>
    obtain ⟨phase', hledger, hrecorded, hfine⟩ :=
      ledger_run replies (keeps_task task) (uses_leavesDrops hevent) h
    refine ⟨hledger.idle, fun hbefore hbooked => ?_⟩
    refine (hrecorded fun claim spec hsince => .inl (hbefore claim spec hsince)).dropsRecorded ?_
    exact hfine.mp ((fine_of_not_booking rfl _).mpr hbooked)
  | jobRun job succeeds =>
    have haside : Aside s (Event.after s (.jobRun job succeeds)) := by
      change Aside s (if job ∈ s.jobs then s.jobRuns job succeeds else s)
      split
      · exact aside_jobRuns s job succeeds
      · exact Aside.refl s
    exact ⟨haside.ledger h, fun hbefore _ => haside.dropsRecorded h.log hbefore⟩
  | outside database collection live invalid =>
    have haside : Aside s (Event.after s (.outside database collection live invalid)) :=
      ⟨rfl, rfl, rfl, [], (List.append_nil _).symm, by simp⟩
    exact ⟨haside.ledger h, fun hbefore _ => haside.dropsRecorded h.log hbefore⟩

theorem lost_of_not_booked {event : Event} (hevent : event.makesNothing) (h : Ledger s₀ ⟨s, .idle⟩)
    (hbooked : ¬ Booked (event.calls s)) : ∃ claim, Lost s₀ (event.after s) claim := by
  cases event with
  | turn task replies =>
    obtain ⟨phase', hledger, -, hfine⟩ :=
      ledger_run replies (keeps_task task) (uses_leavesDrops hevent.leavesDrops) h
    have hnone : ¬ phase'.booking = none := fun hnone =>
      hbooked ((fine_of_not_booking rfl _).mp (hfine.mpr hnone))
    obtain ⟨claim, hclaim⟩ := Option.ne_none_iff_exists'.mp hnone
    exact ⟨claim, hledger.hand claim hclaim⟩
  | jobRun job succeeds => exact hevent.elim
  | outside database collection live invalid => exact hevent.elim

end Events

/-! ## Lost drops -/

section Lost
variable {s₀ : World} {claim : Claim} {op : Op}

theorem Lost.step {k : Account} (h : Lost s₀ k.world claim) (hledger : Ledger s₀ k)
    (hother : ∀ other, k.phase.booking = some other → other.id ≠ claim.id)
    (hallowed : Allowed k.world k.phase op) (hroles : op.LeavesDrops)
    (hbuilds : op.role ≠ some .builds) (answer : Except Thrown op.Ans) :
    Lost s₀ (k.world.effect op answer) claim ∧
      ∀ other, (k.phase.next k.world op answer).booking = some other → other.id ≠ claim.id := by
  have hop (site : CreateSite) (claim : Claim) (spec : IndexSpec) :
      op ≠ .create site claim spec := by
    rintro rfl
    cases site with
    | undo => exact hroles.2 rfl
    | build => exact hbuilds rfl
  obtain ⟨rec, hrow, hclaim, hgone⟩ := h.row
  obtain ⟨rec', hrow', hclaim', hdropped⟩ :=
    keepsDropped_effect hallowed hroles.1 hledger.quiet answer claim.id rec hrow
  refine ⟨⟨?_, ?_, rec', hrow', hclaim'.trans hclaim, ?_⟩, ?_⟩
  · obtain ⟨spec, hspec⟩ := h.removed
    exact ⟨spec, (droppedSince_append hledger.log (log_effect k.world op answer)).mpr (.inl hspec)⟩
  · exact (hledger.roiDrops_effect hallowed hother answer).trans h.unsold
  · refine hgone.imp (fun hnone => ?_) hdropped
    refine Option.eq_none_iff_forall_ne_some.mpr fun index hindex => ?_
    obtain ⟨before, hbefore, -⟩ := indexAt_before hop hindex
    cases hnone.symm.trans hbefore
  · intro other hnext
    obtain hsame | rfl := booking_next hallowed hledger.quiet hroles.2 hnext
    · exact hother other hsame
    · intro heq
      -- the row of a lost drop is not HIDDEN with an index
      obtain ⟨-, row, hrow'', hother', hhidden, spec, hspec, -⟩ := hallowed
      rw [heq] at hrow''
      obtain rfl : rec = row := Option.some.inj (hrow.symm.trans hrow'')
      obtain rfl : claim = other := hclaim.symm.trans hother'
      obtain hnone | hstate := hgone
      · cases hnone.symm.trans hspec
      · cases hstate.symm.trans hhidden

theorem Lost.event {s : World} {event : Event} (h : Lost s₀ s claim) (hledger : Ledger s₀ ⟨s, .idle⟩)
    (hevent : event.makesNothing) : Lost s₀ (event.after s) claim := by
  cases event with
  | turn task replies =>
    have hpreserved : Preserved (fun k => Ledger s₀ k ∧ Lost s₀ k.world claim ∧
        ∀ other, k.phase.booking = some other → other.id ≠ claim.id)
        fun _ op _ => op.LeavesDrops ∧ op.role ≠ some .builds := by
      rintro k op reply ⟨hledger, hlost, hother⟩ hallowed ⟨hroles, hbuilds⟩
      exact ⟨hledger.step hallowed hroles _,
        hlost.step hledger hother hallowed hroles hbuilds _⟩
    obtain ⟨phase, ⟨-, hlost, -⟩, -⟩ := hpreserved.turn ⟨hledger, h, nofun⟩ fun c hc =>
      have hrole := inRole_of_mem_calls hc
      ⟨⟨hrole.ne hevent.1.1, hrole.ne hevent.1.2⟩, hrole.ne hevent.2⟩
    exact hlost
  | jobRun job succeeds => exact hevent.elim
  | outside database collection live invalid => exact hevent.elim

theorem Lost.run {events : List Event} (hevents : ∀ event ∈ events, event.makesNothing) {s : World}
    (h : Lost s₀ s claim) (hledger : Ledger s₀ ⟨s, .idle⟩) :
    Lost s₀ (runEvents s events) claim := by
  induction events generalizing s with
  | nil => exact h
  | cons event events ih =>
    obtain ⟨hevent, hevents⟩ := List.forall_mem_cons.mp hevents
    exact ih hevents (h.event hledger hevent) (ledger_event hevent.leavesDrops hledger).1

end Lost

/-! ## The record of every drop -/

theorem ledger_refl (s : World) : Ledger s ⟨s, .idle⟩ :=
  ⟨List.prefix_rfl, rfl, fun _ _ => rfl, nofun, nofun⟩

theorem dropsRecorded_refl (s : World) : DropsRecorded s s := by
  intro claim spec hsince
  rw [DroppedSince, List.drop_length] at hsince
  cases hsince

theorem dropsRecorded_of_booked {s₀ s : World} (hevents : ∀ event ∈ events, event.leavesDrops)
    (hledger : Ledger s₀ ⟨s, .idle⟩) (hrecorded : DropsRecorded s₀ s)
    (h : Along (fun s event => Booked (event.calls s)) s events) :
    DropsRecorded s₀ (runEvents s events) := by
  induction events generalizing s with
  | nil => exact hrecorded
  | cons event events ih =>
    obtain ⟨hevent, hevents⟩ := List.forall_mem_cons.mp hevents
    obtain ⟨hledger', hstep⟩ := ledger_event hevent hledger
    exact ih hevents hledger' (hstep hrecorded h.1) h.2

theorem booked_of_dropsRecorded {s₀ s : World} (hevents : ∀ event ∈ events, event.makesNothing)
    (hledger : Ledger s₀ ⟨s, .idle⟩) (h : DropsRecorded s₀ (runEvents s events)) :
    Along (fun s event => Booked (event.calls s)) s events := by
  induction events generalizing s with
  | nil => trivial
  | cons event events ih =>
    obtain ⟨hevent, hevents⟩ := List.forall_mem_cons.mp hevents
    have hledger' := (ledger_event hevent.leavesDrops hledger).1
    refine ⟨by_contra fun hbooked => ?_, ih hevents hledger' h⟩
    obtain ⟨claim, hlost⟩ := lost_of_not_booked hevent hledger hbooked
    have hlost' := hlost.run hevents hledger'
    obtain ⟨spec, hsince⟩ := hlost'.removed
    have hroi := (h claim spec hsince).roi
    rw [show (runEvents s (event :: events)).roiDrops claim.id = _ from hlost'.unsold] at hroi
    omega

/-- Every drop of a run is on record if the writes behind it are made and go through, whatever
else happens but approvals and undos; and among passes that build nothing only then. -/
theorem drops_recorded_iff (s : World) (events : List Event)
    (hevents : ∀ event ∈ events, event.leavesDrops) :
    (Along (fun s event => Booked (event.calls s)) s events →
      DropsRecorded s (runEvents s events)) ∧
    ((∀ event ∈ events, event.makesNothing) → DropsRecorded s (runEvents s events) →
      Along (fun s event => Booked (event.calls s)) s events) :=
  ⟨dropsRecorded_of_booked hevents (ledger_refl s) (dropsRecorded_refl s),
    fun hnothing => booked_of_dropsRecorded hnothing (ledger_refl s)⟩

theorem due_drop_recorded :
    DropsRecorded dueWorld
      (runEvents dueWorld [.turn .finalizeCluster (List.replicate 17 lateReply)]) := by
  refine (drops_recorded_iff dueWorld [.turn .finalizeCluster (List.replicate 17 lateReply)] ?_).1 ?_
  · simp [Event.leavesDrops, Task.role]
  · refine ⟨?_, trivial⟩
    decide +kernel

/-- The process stops behind the drop, and the next pass runs to its end: the row is DROPPED,
without a token and without an ROI row. -/
theorem stopped_drop_unrecorded :
    ∃ s events, (∀ event ∈ events, event.makesNothing) ∧
      ¬ DropsRecorded s (runEvents s events) ∧
      ((runEvents s events).rowById "r").map (fun rec => rec.state) = some .DROPPED ∧
      (runEvents s events).actions = [⟨"r", .DROP, none⟩] ∧ (runEvents s events).roi = [] := by
  refine ⟨dueWorld, [.turn .finalizeCluster (List.replicate 13 lateReply),
    .turn .finalizeCluster (List.replicate 13 lateReply)], ?_, fun h => ?_, ?_⟩
  · simp [Event.makesNothing, Task.role]
  · have hroi := (h hiddenRow.claim hiddenIndex (by unfold DroppedSince; decide +kernel)).roi
    revert hroi
    decide +kernel
  · decide +kernel

end Indexterity.Service
