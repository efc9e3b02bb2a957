import Indexterity.Service.Records

/-!
# Service: the record of a build

A create pass builds the index of an approved row and then writes of it: the row moves to
ACTIVE with the baselines of its watch, or to BUILDING where the build was scheduled. The pass
behind one that did not come that far takes the index for somebody else's and closes the row.
A settle pass is safe to repeat, as long as it can remove the job of a build it gives up.
-/

namespace Indexterity.Service

open Library Program

/-! ## On record -/

def BuiltSince (s s' : World) (claim : Claim) : Prop :=
  ∃ spec, (ExecutorCall.create .build spec, claim) ∈ s'.log.drop s.log.length

def Recommendation.IsRecorded (rec : Recommendation) : Prop :=
  rec.state = .ACTIVE ∧ rec.builtAt.isSome = true ∧ rec.baselineWriteOps.isSome = true ∧
    rec.baselineWriteLatency.isSome = true

def BuildRecorded (s : World) (claim : Claim) : Prop :=
  ∃ rec, s.rowById claim.id = some rec ∧ rec.claim = claim ∧
    (rec.IsRecorded ∨ rec.state = .ROLLED_BACK)

def BuildOpen (s : World) (claim : Claim) : Prop :=
  ∃ rec, s.rowById claim.id = some rec ∧ rec.state ≠ .REJECTED

def Call.owes (c : Call) : Nat :=
  match c.2.1 with
  | .create .build claim spec =>
    match c.1.createAnswer claim spec c.2.2 with
    | .ok .BUILT => 2
    | .ok .SCHEDULED => 1
    | .error _ => 0
  | _ => 0

/-- The baseline of each build is read and its row written, or the row written where the build
is scheduled. -/
def Followed : List Call → Prop
  | [] => True
  | c :: rest => GoesOn c.owes rest ∧ Followed rest

/-- A call that settles a build with the scheduler at hand, does not end a watch, and does not
take away what a row waits for. -/
def Call.Spares (c : Call) : Prop :=
  match c.2.1 with
  | .settleBuild _ =>
    c.2.2.error = none → c.2.2.cronUsable = true ∧ c.2.2.unscheduled = true
  | .updateRow _ .graduated => c.2.2.error.isSome = true
  | .drop _ claim => c.2.2.error = none → ∀ rec ∈ c.1.table.rows, rec.state = .BUILDING →
    ∀ p ∈ c.1.places rec.claim, p ∉ c.1.places claim
  | _ => True

instance decidableFollowed : (calls : List Call) → Decidable (Followed calls)
  | [] => isTrue trivial
  | _ :: rest => @instDecidableAnd _ _ inferInstance (decidableFollowed rest)

instance (c : Call) : Decidable c.Spares := by
  unfold Call.Spares
  split <;> infer_instance

def Phase.unrecorded : Phase → Option Claim
  | .made claim false | .measured claim false => some claim
  | _ => none

def Phase.owes : Phase → Nat
  | .made _ false => 2
  | .measured _ false | .scheduled _ => 1
  | _ => 0

def Phase.settled : Phase → Option Claim
  | .made claim true | .measured claim true | .unmade claim => some claim
  | _ => none

variable {patch : Patch} {phase : Phase} {s' : World}

section Allowed
variable {s : World} {op : Op} {claim : Claim} {awaited : Bool}

theorem allowed_made (h : Allowed s (.made claim awaited) op) :
    ∃ database collection, op = .collectionLatency database collection := by
  cases busyCall_of_allowed h nofun with
  | baseline database collection hphase => exact ⟨database, collection, rfl⟩
  | @update id patch rec hrow hpatch =>
    cases patch with
    | due action => cases action <;> simp [PatchAllowed] at hpatch
    | _ => simp [PatchAllowed] at hpatch
  | _ => contradiction

def Phase.awaits : Phase → Option Claim
  | .measured claim _ | .scheduled claim | .unmade claim => some claim
  | _ => none

def Phase.awaitedBy : Phase → Patch → Prop
  | .measured _ _, patch => ∃ builtAt writes, patch = .built builtAt writes
  | .scheduled _, patch => patch = .building
  | .unmade _, patch => patch = .retried
  | _, _ => False

theorem patchAllowed_awaits {rec : Recommendation} (h : PatchAllowed s phase rec patch)
    (hphase : phase.awaits = some claim) : rec.claim = claim ∧ phase.awaitedBy patch := by
  cases phase with
  | measured _ _ | scheduled _ | unmade _ =>
    obtain rfl := Option.some.inj hphase
    cases patch with
    | due action => cases action <;> simp [PatchAllowed] at h
    | built builtAt writes =>
      obtain ⟨-, heq⟩ | ⟨-, heq⟩ := h <;> cases heq <;> exact ⟨rfl, builtAt, writes, rfl⟩
    | building =>
      obtain ⟨-, heq⟩ := h
      cases heq <;> exact ⟨rfl, rfl⟩
    | retried =>
      obtain ⟨-, heq⟩ := h
      cases heq <;> exact ⟨rfl, rfl⟩
    | _ => simp [PatchAllowed] at h
  | _ => cases hphase

theorem Phase.awaitedBy.ne_drop (h : phase.awaitedBy patch) : patch ≠ .due .drop := by
  rintro rfl
  cases phase <;> simp [Phase.awaitedBy] at h

theorem allowed_awaits (h : Allowed s phase op) (hphase : phase.awaits = some claim) :
    ∃ rec patch, op = .updateRow claim.id patch ∧ s.rowById claim.id = some rec ∧
      rec.claim = claim ∧ phase.awaitedBy patch := by
  have hidle : phase ≠ .idle := fun heq => by simp [heq, Phase.awaits] at hphase
  cases busyCall_of_allowed h hidle with
  | read hop hcalm => cases phase <;> simp [Phase.isCalm, Phase.awaits] at hcalm hphase
  | baseline database collection heq => simp [heq, Phase.awaits] at hphase
  | @update id patch rec hrow hpatch =>
    obtain ⟨rfl, hawaited⟩ := patchAllowed_awaits hpatch hphase
    obtain rfl := (World.rowById_some hrow).2
    exact ⟨rec, patch, rfl, hrow, rfl, hawaited⟩
  | putBack heq => simp [heq, Phase.awaits] at hphase
  | token heq => simp [heq, Phase.awaits] at hphase
  | gain hrow heq => simp [heq, Phase.awaits] at hphase
  | correction hrow heq => simp [heq, Phase.awaits] at hphase

end Allowed

/-! ## What is owed -/

theorem owes_next {s : World} {op : Op} {reply : Reply} (h : phase.owes = 0) :
    (phase.next s op (s.answer op reply)).owes = Call.owes (s, op, reply) := by
  have hother (hop : ∀ claim spec, op ≠ .create .build claim spec) :
      Call.owes (s, op, reply) = 0 := by
    unfold Call.owes
    split
    · rename_i claim spec heq
      exact absurd heq (hop claim spec)
    · rfl
  by_cases hbuild : ∃ claim spec, op = .create .build claim spec
  · obtain ⟨claim, spec, rfl⟩ := hbuild
    change (phase.next s (.create .build claim spec) (s.createAnswer claim spec reply)).owes = _
    unfold Call.owes
    dsimp only
    cases s.createAnswer claim spec reply with
    | ok outcome => cases outcome <;> rfl
    | error error => cases error <;> first | exact h | rfl
  · push Not at hbuild
    rw [hother hbuild]
    have hstep := phaseStep_next s phase op (s.answer op reply)
    generalize phase.next s op (s.answer op reply) = next at hstep ⊢
    generalize s.answer op reply = answer at hstep
    cases hstep with
    | stays => exact h
    | measured heq =>
      rename_i awaited
      subst heq
      cases awaited <;> first | rfl | cases h
    | built => exact absurd rfl (hbuild _ _)
    | scheduled => exact absurd rfl (hbuild _ _)
    | _ => rfl

theorem owes_paid {s : World} {op : Op} {reply : Reply} {n : Nat} (hallowed : Allowed s phase op)
    (h : phase.owes = n + 1) (herror : reply.error = none) :
    (phase.next s op (s.answer op reply)).owes = n := by
  cases phase with
  | made claim awaited =>
    cases awaited with
    | true => cases h
    | false =>
      obtain rfl : 1 = n := Nat.succ.inj h
      obtain ⟨database, collection, rfl⟩ := allowed_made hallowed
      simp [World.answer, gives_of_error_none herror, Phase.next, Phase.owes]
  | measured claim awaited =>
    cases awaited with
    | true => cases h
    | false =>
      obtain rfl : 0 = n := Nat.succ.inj h
      obtain ⟨rec, patch, rfl, -, -, hawaited⟩ := allowed_awaits hallowed rfl
      rw [World.answer, gives_of_error_none herror, next_updateRow_ok s _ _ hawaited.ne_drop]
      rfl
  | scheduled claim =>
    obtain rfl : 0 = n := Nat.succ.inj h
    obtain ⟨rec, patch, rfl, -, -, hawaited⟩ := allowed_awaits hallowed rfl
    rw [World.answer, gives_of_error_none herror, next_updateRow_ok s _ _ hawaited.ne_drop]
    rfl
  | _ => cases h

theorem goesOn_next {s : World} {op : Op} {reply : Reply} {rest : List Call}
    (hallowed : Allowed s phase op) (h : GoesOn phase.owes ((s, op, reply) :: rest))
    (hfollowed : Followed ((s, op, reply) :: rest)) :
    (0 < phase.owes → reply.error = none) ∧
      GoesOn (phase.next s op (s.answer op reply)).owes rest := by
  cases howes : phase.owes with
  | zero =>
    refine ⟨fun hpos => absurd hpos (lt_irrefl 0), ?_⟩
    rw [owes_next howes]
    exact hfollowed.1
  | succ n =>
    rw [howes, goesOn_cons] at h
    refine ⟨fun _ => h.1, ?_⟩
    rw [owes_paid hallowed howes h.1]
    exact h.2

/-! ## The law of builds -/

/-- The row of a build is on record or rolled back, or waits with its index there. -/
def BuildKept (s : World) (claim : Claim) : Prop :=
  ∃ rec, s.rowById claim.id = some rec ∧ rec.claim = claim ∧
    (rec.IsRecorded ∨ rec.state = .ROLLED_BACK ∨ rec.state = .BUILDING ∧ s.isValid claim = true)

/-- Between two calls: a built index is seen to; a registered build has a row that waits for
it, until it is settled; and a build that was given up is not there. -/
structure BuildLaw (s₀ : World) (k : Account) : Prop where
  log : s₀.log <+: k.world.log
  rows : ∀ claim, BuiltSince s₀ k.world claim →
    k.phase.unrecorded = some claim ∨ BuildKept k.world claim
  jobs : ∀ job ∈ k.world.jobs, job.site = .build → job.spec.name = job.claim.indexName ∧
    (k.phase = .scheduled job.claim ∨ Standing k.world job.claim .BUILDING fun _ => True)
  unqueued : ∀ claim, k.phase.settled = some claim →
    ∀ job ∈ k.world.jobs, job.claim.indexName ≠ claim.indexName
  unmade : ∀ claim, k.phase = .unmade claim → k.world.isValid claim = false
  invalid : ∀ p ∈ k.world.invalid, (k.world.indexAt p).isSome = true

theorem builtSince_append {s₀ s s' : World} {entry : Option (ExecutorCall × Claim)}
    (hlog : s₀.log <+: s.log) (h : s'.log = s.log ++ entry.toList) {claim : Claim} :
    BuiltSince s₀ s' claim ↔
      BuiltSince s₀ s claim ∨ ∃ spec, entry = some (.create .build spec, claim) := by
  have hlength : s₀.log.length ≤ s.log.length := hlog.length_le
  simp only [BuiltSince, h, List.drop_append_of_le_length hlength, List.mem_append,
    Option.mem_toList, exists_or]

/-! ### Rows -/

theorem patch_kept {s : World} {rec : Recommendation} (h : PatchAllowed s phase rec patch)
    (happroved : patch ≠ .approved) (hgraduated : patch ≠ .graduated)
    (hunmade : phase = .unmade rec.claim → s.isValid rec.claim = false)
    (hkept : rec.IsRecorded ∨ rec.state = .ROLLED_BACK ∨
      rec.state = .BUILDING ∧ s.isValid rec.claim = true) :
    (patch.apply rec).IsRecorded ∨ (patch.apply rec).state = .ROLLED_BACK := by
  have hstates : rec.state = .ACTIVE ∨ rec.state = .ROLLED_BACK ∨ rec.state = .BUILDING := by
    obtain ⟨hstate, -⟩ | hstate | ⟨hstate, -⟩ := hkept <;> simp [hstate]
  cases patch with
  | approved => exact absurd rfl happroved
  | graduated => exact absurd rfl hgraduated
  | built builtAt writes => exact .inl ⟨rfl, rfl, rfl, rfl⟩
  | rolledBack => exact .inr rfl
  | undone => exact .inr rfl
  | retried =>
    obtain ⟨hstate, -⟩ | hstate | ⟨-, hvalid⟩ := hkept
    · cases h.1.symm.trans hstate
    · cases h.1.symm.trans hstate
    · cases (hunmade h.2).symm.trans hvalid
  | withdrawn => obtain hstate | hstate | hstate := hstates <;> cases h.2.symm.trans hstate
  | reproposed => obtain hstate | hstate | hstate := hstates <;> cases h.2.symm.trans hstate
  | due action =>
    cases action with
    | observing => exact h.elim
    | waiting => exact h.elim
    | _ => obtain hstate | hstate | hstate := hstates <;> cases h.1.symm.trans hstate
  | _ => obtain hstate | hstate | hstate := hstates <;> cases h.1.symm.trans hstate

section Step
variable {s₀ : World} {k : Account} {op : Op} {reply : Reply} {claim : Claim}

theorem effect_updateRow {s : World} {id : String} (h : reply.error = none) :
    s.effect (.updateRow id patch) (s.answer (.updateRow id patch) reply) = s.updateRow id patch := by
  rw [World.answer, gives_of_error_none h]
  rfl

theorem spares_drop (hspares : Call.Spares (k.world, op, reply))
    {rec : Recommendation} (hrow : k.world.rowById claim.id = some rec) (hclaim : rec.claim = claim)
    (hstate : rec.state = .BUILDING) (hvalid : k.world.isValid claim = true) :
    (k.world.effect op (k.world.answer op reply)).isValid claim = true := by
  by_cases hdrop : ∃ site other, op = .drop site other
  · obtain ⟨site, other, rfl⟩ := hdrop
    cases herror : reply.error with
    | none =>
      refine isValid_effect hvalid ?_ _
      rintro _ _ ⟨⟩
      exact hclaim ▸ hspares herror rec (World.rowById_some hrow).1 hstate
    | some error =>
      rw [show k.world.answer (.drop site other) reply = .error error by
        simp [World.answer, Reply.gives, herror], effect_error]
      exact hvalid
  · push Not at hdrop
    exact isValid_effect hvalid (fun site other heq => absurd heq (hdrop site other)) _

theorem BuildKept.step (h : BuildKept k.world claim) (hallowed : Allowed k.world k.phase op)
    (hrole : op.role ≠ some .approves) (hspares : Call.Spares (k.world, op, reply))
    (hunmade : k.phase = .unmade claim → k.world.isValid claim = false) :
    BuildKept (k.world.effect op (k.world.answer op reply)) claim := by
  obtain ⟨rec, hrow, hclaim, hkept⟩ := h
  by_cases hupdate : ∃ patch, op = .updateRow claim.id patch
  · obtain ⟨patch, rfl⟩ := hupdate
    cases herror : reply.error with
    | some error =>
      rw [show k.world.answer (.updateRow claim.id patch) reply = .error error by
        simp [World.answer, Reply.gives, herror], effect_error]
      exact ⟨rec, hrow, hclaim, hkept⟩
    | none =>
      have happroved : patch ≠ .approved := by
        rintro rfl
        exact hrole rfl
      have hgraduated : patch ≠ .graduated := by
        rintro rfl
        simp [Call.Spares, herror] at hspares
      obtain ⟨row, hrow', hpatch⟩ := allowed_updateRow hallowed happroved
      obtain rfl : rec = row := Option.some.inj (hrow.symm.trans hrow')
      subst hclaim
      refine ⟨patch.apply rec, ?_, apply_claim patch rec, ?_⟩
      · rw [effect_updateRow herror]
        exact World.rowById_updateRow_self hrow patch
      · exact (patch_kept hpatch happroved hgraduated hunmade hkept).imp_right .inl
  · have hstate : rec.state ≠ .PROPOSED := by
      obtain ⟨hstate, -⟩ | hstate | ⟨hstate, -⟩ := hkept <;> simp [hstate]
    refine ⟨rec, rowById_kept hrow hstate (not_exists.mp hupdate) _, hclaim, ?_⟩
    refine hkept.imp_right (Or.imp_right fun hwaits => ⟨hwaits.1, ?_⟩)
    exact spares_drop hspares hrow hclaim hwaits.1 hwaits.2

theorem unrecorded_step (h : k.phase.unrecorded = some claim)
    (hallowed : Allowed k.world k.phase op) (herror : reply.error = none) :
    (k.phase.next k.world op (k.world.answer op reply)).unrecorded = some claim ∨
      BuildKept (k.world.effect op (k.world.answer op reply)) claim := by
  obtain ⟨s, phase⟩ := k
  cases phase with
  | made other awaited =>
    cases awaited with
    | true => cases h
    | false =>
      obtain rfl : other = claim := Option.some.inj h
      obtain ⟨database, collection, rfl⟩ := allowed_made hallowed
      left
      simp [World.answer, gives_of_error_none herror, Phase.next, Phase.unrecorded]
  | measured other awaited =>
    cases awaited with
    | true => cases h
    | false =>
      obtain rfl : other = claim := Option.some.inj h
      obtain ⟨rec, patch, rfl, hrow, rfl, builtAt, writes, rfl⟩ := allowed_awaits hallowed rfl
      refine .inr ⟨Patch.apply rec (.built builtAt writes), ?_, apply_claim _ rec,
        .inl ⟨rfl, rfl, rfl, rfl⟩⟩
      rw [effect_updateRow herror]
      exact World.rowById_updateRow_self hrow _
  | _ => cases h

theorem BuildLaw.step_rows (h : BuildLaw s₀ k) (hallowed : Allowed k.world k.phase op)
    (hrole : op.role ≠ some .approves) (hspares : Call.Spares (k.world, op, reply))
    (hpays : 0 < k.phase.owes → reply.error = none) (claim : Claim)
    (hbuilt : BuiltSince s₀ (k.world.effect op (k.world.answer op reply)) claim) :
    (k.phase.next k.world op (k.world.answer op reply)).unrecorded = some claim ∨
      BuildKept (k.world.effect op (k.world.answer op reply)) claim := by
  obtain hold | ⟨spec, hentry⟩ := (builtSince_append h.log (log_effect _ _ _)).mp hbuilt
  · obtain hhand | hkept := h.rows claim hold
    · have howes : 0 < k.phase.owes := by
        generalize k.phase = phase at hhand
        cases phase with
        | made other awaited => cases awaited <;> first | exact Nat.zero_lt_succ _ | cases hhand
        | measured other awaited => cases awaited <;> first | exact Nat.zero_lt_succ _ | cases hhand
        | _ => cases hhand
      exact unrecorded_step hhand hallowed (hpays howes)
    · exact .inr (hkept.step hallowed hrole hspares (h.unmade claim))
  · generalize k.world.answer op reply = answer at hentry ⊢
    cases logs_of_entry hentry with
    | create => exact .inl rfl

/-! ### Jobs -/

theorem mem_jobs_effect {s : World} {answer : Except Thrown op.Ans} {job : Job}
    (h : job ∈ (s.effect op answer).jobs) :
    job ∈ s.jobs ∨ op = .create job.site job.claim job.spec ∧
      (job.site = .build → ∀ phase : Phase, phase.next s op answer = .scheduled job.claim) := by
  cases answer with
  | error error =>
    rw [effect_error] at h
    exact .inl h
  | ok answer =>
    cases op with
    | hide other =>
      change job ∈ (s.hidden other).jobs at h
      unfold World.hidden at h
      split at h <;> exact .inl h
    | create site other spec =>
      cases answer with
      | BUILT =>
        change job ∈ (s.created site other spec).jobs at h
        unfold World.created at h
        split at h <;> exact .inl h
      | SCHEDULED =>
        obtain hold | hnew := List.mem_append.mp h
        · exact .inl hold
        · obtain rfl := List.mem_singleton.mp hnew
          refine .inr ⟨rfl, fun hsite phase => ?_⟩
          obtain rfl : site = .build := hsite
          rfl
    | settleBuild other =>
      obtain ⟨settlement, _ | _⟩ := answer
      · exact .inl h
      · exact .inl (List.mem_filter.mp h).1
    | insertRetirement rec indexName => cases answer <;> exact .inl h
    | _ => exact .inl h

theorem settled_of_patchAllowed {s : World} {rec : Recommendation}
    (h : PatchAllowed s phase rec patch) (happroved : patch ≠ .approved)
    (hstate : rec.state = .BUILDING) : phase.settled = some rec.claim := by
  cases patch with
  | approved => exact absurd rfl happroved
  | built builtAt writes =>
    obtain ⟨happroved, -⟩ | ⟨-, rfl⟩ := h
    · cases hstate.symm.trans happroved
    · rfl
  | retried =>
    obtain ⟨-, rfl⟩ := h
    rfl
  | withdrawn => cases hstate.symm.trans h.2
  | reproposed => cases hstate.symm.trans h.2
  | due action =>
    cases action with
    | observing => exact h.elim
    | waiting => exact h.elim
    | _ => cases hstate.symm.trans h.1
  | _ => cases hstate.symm.trans h.1

theorem BuildLaw.step_jobs (h : BuildLaw s₀ k) (hallowed : Allowed k.world k.phase op)
    (hrole : op.role ≠ some .approves) (hpays : 0 < k.phase.owes → reply.error = none) (job : Job)
    (hjob : job ∈ (k.world.effect op (k.world.answer op reply)).jobs) (hsite : job.site = .build) :
    job.spec.name = job.claim.indexName ∧
      (k.phase.next k.world op (k.world.answer op reply) = .scheduled job.claim ∨
        Standing (k.world.effect op (k.world.answer op reply)) job.claim .BUILDING
          fun _ => True) := by
  obtain hold | ⟨hop, hnext⟩ := mem_jobs_effect hjob
  · obtain ⟨hname, hphase | ⟨rec, hrow, hclaim, hstate, -⟩⟩ := h.jobs job hold hsite
    · -- the row of a build that was just registered is written
      rw [hphase] at hallowed hpays
      obtain ⟨rec, patch, rfl, hrow, hclaim, rfl⟩ := allowed_awaits hallowed rfl
      refine ⟨hname, .inr ⟨_, ?_, (apply_claim .building rec).trans hclaim, rfl, trivial⟩⟩
      rw [effect_updateRow (hpays Nat.one_pos)]
      rw [← hclaim] at hrow ⊢
      exact World.rowById_updateRow_self hrow .building
    · refine ⟨hname, .inr ?_⟩
      by_cases hupdate : ∃ patch, op = .updateRow job.claim.id patch
      · obtain ⟨patch, rfl⟩ := hupdate
        have happroved : patch ≠ .approved := by
          rintro rfl
          exact hrole rfl
        obtain ⟨row, hrow', hpatch⟩ := allowed_updateRow hallowed happroved
        obtain rfl : rec = row := Option.some.inj (hrow.symm.trans hrow')
        have hsettled := settled_of_patchAllowed hpatch happroved hstate
        exact absurd (congrArg Claim.indexName hclaim.symm) (h.unqueued _ hsettled job hold)
      · have hne : rec.state ≠ .PROPOSED := by rw [hstate]; nofun
        exact ⟨rec, rowById_kept hrow hne (not_exists.mp hupdate) _, hclaim, hstate, trivial⟩
  · refine ⟨?_, .inl (hnext hsite k.phase)⟩
    rw [hop, hsite] at hallowed
    obtain ⟨-, rec, -, hclaim, -, target, -, hspec, -⟩ := hallowed
    rw [hspec, ← hclaim]
    rfl

/-! ### Settlements -/

theorem settled_next {s : World} {other : Claim} (hallowed : Allowed s phase op)
    (h : phase.settled = some other) (answer : Except Thrown op.Ans) :
    op.sparesIndexes = true ∧ (∀ site claim spec, op ≠ .create site claim spec) ∧
      ((phase.next s op answer).settled = some claim → claim = other) := by
  have hupdate {phase : Phase} (id : String) (patch : Patch) (hphase : phase.settled = some other)
      (hne : patch ≠ .due .drop) (answer : Except Thrown Bool) :
      (phase.next s (.updateRow id patch) answer).settled = some claim → claim = other := by
    intro hnext
    cases answer with
    | error error =>
      rw [next_updateRow_error s phase id hne] at hnext
      exact Option.some.inj (hnext.symm.trans hphase)
    | ok updated =>
      rw [next_updateRow_ok s phase id hne] at hnext
      cases hnext
  cases phase with
  | made build awaited =>
    cases awaited with
    | false => cases h
    | true =>
      obtain ⟨database, collection, rfl⟩ := allowed_made hallowed
      refine ⟨rfl, fun _ _ _ => nofun, fun hnext => ?_⟩
      obtain rfl := Option.some.inj h
      cases answer <;> exact (Option.some.inj hnext).symm
  | measured build awaited =>
    cases awaited with
    | false => cases h
    | true =>
      obtain ⟨rec, patch, rfl, -, -, hawaited⟩ := allowed_awaits hallowed rfl
      exact ⟨rfl, fun _ _ _ => nofun, hupdate _ patch h hawaited.ne_drop answer⟩
  | unmade build =>
    obtain ⟨rec, patch, rfl, -, -, hawaited⟩ := allowed_awaits hallowed rfl
    exact ⟨rfl, fun _ _ _ => nofun, hupdate _ patch h hawaited.ne_drop answer⟩
  | _ => cases h

theorem settles_of_next {s : World} {answer : Except Thrown op.Ans} (h : phase.settled = none)
    (hnext : (phase.next s op answer).settled = some claim) : op = .settleBuild claim := by
  have hstep := phaseStep_next s phase op answer
  generalize phase.next s op answer = next at hnext hstep
  cases hstep with
  | stays => cases h.symm.trans hnext
  | measured heq =>
    rename_i awaited
    subst heq
    cases awaited with
    | false => cases hnext
    | true => cases h
  | ready =>
    obtain rfl := Option.some.inj hnext
    rfl
  | unmade =>
    obtain rfl := Option.some.inj hnext
    rfl
  | _ => cases hnext

theorem unqueued_of_settles {s : World} (hspares : Call.Spares (s, .settleBuild claim, reply))
    (h : phase.settled = none) (hnext : (phase.next s (.settleBuild claim)
      (s.answer (.settleBuild claim) reply)).settled = some claim) :
    ∀ job ∈ (s.effect (.settleBuild claim) (s.answer (.settleBuild claim) reply)).jobs,
      job.claim.indexName ≠ claim.indexName := by
  change (phase.next s (.settleBuild claim) (reply.gives _)).settled = _ at hnext
  change ∀ job ∈ (s.effect (.settleBuild claim) (reply.gives _)).jobs, _
  cases herror : reply.error with
  | some error =>
    rw [show reply.gives (s.settled claim reply) = .error error by
      simp [Reply.gives, herror]] at hnext
    cases h.symm.trans hnext
  | none =>
    obtain ⟨husable, hunscheduled⟩ : reply.cronUsable = true ∧ reply.unscheduled = true :=
      hspares herror
    have hremoved : s.settled claim reply = (.PENDING, false) ∨
        (s.settled claim reply).2 = true := by
      simp only [World.settled, husable, hunscheduled, Bool.not_true, Bool.false_eq_true, if_false]
      split
      · exact .inr rfl
      · split <;> simp
    rw [gives_of_error_none herror] at hnext ⊢
    obtain hpending | hremoved := hremoved
    · rw [hpending] at hnext
      cases h.symm.trans hnext
    · intro job hjob
      change job ∈ (s.finished claim (s.settled claim reply).2).jobs at hjob
      rw [hremoved] at hjob
      exact of_decide_eq_true (List.mem_filter.mp hjob).2

theorem BuildLaw.step_unqueued (h : BuildLaw s₀ k) (hallowed : Allowed k.world k.phase op)
    (hspares : Call.Spares (k.world, op, reply)) (claim : Claim)
    (hnext : (k.phase.next k.world op (k.world.answer op reply)).settled = some claim) :
    ∀ job ∈ (k.world.effect op (k.world.answer op reply)).jobs,
      job.claim.indexName ≠ claim.indexName := by
  cases hphase : k.phase.settled with
  | none =>
    obtain rfl := settles_of_next hphase hnext
    exact unqueued_of_settles hspares hphase hnext
  | some other =>
    obtain ⟨-, hcreate, hsame⟩ := settled_next hallowed hphase (k.world.answer op reply)
    obtain rfl := hsame hnext
    intro job hjob
    obtain hold | ⟨hop, -⟩ := mem_jobs_effect hjob
    · exact h.unqueued _ hphase job hold
    · exact absurd hop (hcreate _ _ _)

theorem isValid_of_spares {s : World} (hspares : op.sparesIndexes = true)
    (answer : Except Thrown op.Ans) : (s.effect op answer).isValid claim = s.isValid claim := by
  have hdrop (site : DropSite) (other : Claim) : op ≠ .drop site other := by
    rintro rfl
    cases hspares
  unfold World.isValid World.places World.indexAt
  rw [(leaves_effect s op answer).sharers, (leaves_effect s op answer).indexes hspares,
    (leaves_effect s op answer).invalid hdrop]

theorem BuildLaw.step_unmade (h : BuildLaw s₀ k) (hallowed : Allowed k.world k.phase op)
    (hspares : Call.Spares (k.world, op, reply)) (claim : Claim)
    (hnext : k.phase.next k.world op (k.world.answer op reply) = .unmade claim) :
    (k.world.effect op (k.world.answer op reply)).isValid claim = false := by
  have hsettled : (k.phase.next k.world op (k.world.answer op reply)).settled = some claim := by
    rw [hnext]
    rfl
  cases hphase : k.phase.settled with
  | some other =>
    obtain ⟨hkeeps, -, hsame⟩ := settled_next hallowed hphase _
    obtain rfl := hsame hsettled
    rw [isValid_of_spares hkeeps]
    refine h.unmade claim ?_
    generalize k.phase = phase at *
    cases phase with
    | made build awaited =>
      obtain ⟨database, collection, rfl⟩ := allowed_made hallowed
      generalize k.world.answer (.collectionLatency database collection) reply = answer at hnext
      cases answer <;> cases hnext
    | measured build awaited =>
      obtain ⟨rec, patch, rfl, -, -, hawaited⟩ := allowed_awaits hallowed rfl
      generalize k.world.answer (.updateRow build.id patch) reply = answer at hnext
      cases answer with
      | error error => cases (next_updateRow_error _ _ _ hawaited.ne_drop error).symm.trans hnext
      | ok updated => cases (next_updateRow_ok _ _ _ hawaited.ne_drop updated).symm.trans hnext
    | unmade build => exact congrArg Phase.unmade (Option.some.inj hphase)
    | _ => cases hphase
  | none =>
    obtain rfl := settles_of_next hphase hsettled
    rw [isValid_of_spares rfl]
    by_contra hvalid
    rw [Bool.not_eq_false] at hvalid
    change k.phase.next k.world (.settleBuild claim) (reply.gives _) = _ at hnext
    cases herror : reply.error with
    | some error =>
      rw [show reply.gives (k.world.settled claim reply) = .error error by
        simp [Reply.gives, herror]] at hnext
      rw [show k.phase = _ from hnext] at hphase
      cases hphase
    | none =>
      rw [gives_of_error_none herror, World.settled, (hspares herror).1] at hnext
      simp [hvalid, Phase.next] at hnext

/-! ### Leftovers -/

theorem invalid_live {s : World} (h : ∀ p ∈ s.invalid, (s.indexAt p).isSome = true)
    (answer : Except Thrown op.Ans) :
    ∀ p ∈ (s.effect op answer).invalid, ((s.effect op answer).indexAt p).isSome = true := by
  intro p hp
  by_cases hdrop : ∃ site other, op = .drop site other
  · obtain ⟨site, other, rfl⟩ := hdrop
    cases answer with
    | error error => exact h p hp
    | ok answer =>
      obtain ⟨hold, hplace⟩ := mem_invalid_dropped hp
      refine isSome_indexAt_effect (h p hold) ?_ _
      rintro _ _ ⟨⟩
      exact hplace
  · push Not at hdrop
    rw [(leaves_effect s op answer).invalid hdrop] at hp
    exact isSome_indexAt_effect (h p hp) (fun site other heq => absurd heq (hdrop site other)) _

theorem BuildLaw.step (h : BuildLaw s₀ k) (hallowed : Allowed k.world k.phase op)
    (hrole : op.role ≠ some .approves) (hspares : Call.Spares (k.world, op, reply))
    (hpays : 0 < k.phase.owes → reply.error = none) :
    BuildLaw s₀ (protocol.effect k op (k.world.answer op reply)) where
  log := h.log.trans (by
    change k.world.log <+: (k.world.effect _ _).log
    rw [log_effect]
    exact List.prefix_append _ _)
  rows := h.step_rows hallowed hrole hspares hpays
  jobs := h.step_jobs hallowed hrole hpays
  unqueued := h.step_unqueued hallowed hspares
  unmade := h.step_unmade hallowed hspares
  invalid := invalid_live h.invalid _

end Step

/-! ## Runs -/

section Runs
variable {s₀ s : World}

theorem BuildLaw.idle (h : BuildLaw s₀ ⟨s, phase⟩) (howes : phase.owes = 0) :
    BuildLaw s₀ ⟨s, .idle⟩ where
  log := h.log
  rows claim hbuilt := by
    refine .inr ((h.rows claim hbuilt).resolve_left fun hhand => ?_)
    cases phase with
    | made other awaited =>
      cases awaited with
      | false => cases howes
      | true => cases hhand
    | measured other awaited =>
      cases awaited with
      | false => cases howes
      | true => cases hhand
    | _ => cases hhand
  jobs job hjob hsite := by
    refine (h.jobs job hjob hsite).imp_right fun hwaits => .inr (hwaits.resolve_left fun heq => ?_)
    obtain rfl : phase = _ := heq
    cases howes
  unqueued := nofun
  unmade := nofun
  invalid := h.invalid

structure LawAhead (s₀ : World) (k : Account) (rest : List Call) : Prop where
  law : BuildLaw s₀ k
  goes : GoesOn k.phase.owes rest
  followed : Followed rest
  calls : ∀ c ∈ rest, Call.Spares c ∧ c.2.1.role ≠ some .approves

theorem LawAhead.step {k : Account} {op : Op} {reply : Reply} {rest : List Call}
    (h : LawAhead s₀ k ((k.world, op, reply) :: rest)) (hallowed : Allowed k.world k.phase op) :
    LawAhead s₀ (protocol.effect k op (k.world.answer op reply)) rest := by
  obtain ⟨⟨hspares, hrole⟩, hrest⟩ := List.forall_mem_cons.mp h.calls
  obtain ⟨hpays, hgoes⟩ := goesOn_next hallowed h.goes h.followed
  exact ⟨h.law.step hallowed hrole hspares hpays, hgoes, h.followed.2, hrest⟩

theorem BuildKept.mono {s : World} {claim : Claim} (h : BuildKept s claim)
    (htable : s'.table = s.table) (hvalid : s.isValid claim = true → s'.isValid claim = true) :
    BuildKept s' claim := by
  obtain ⟨rec, hrow, hclaim, hkept⟩ := h
  exact ⟨rec, by rwa [World.rowById, htable], hclaim,
    hkept.imp_right (Or.imp_right fun hwaits => ⟨hwaits.1, hvalid hwaits.2⟩)⟩

variable (h : BuildLaw s₀ ⟨s, .idle⟩)
include h

end Runs

/-! ## The last settle pass -/

def NoneWaits (s : World) : Prop :=
  ∀ id rec, s.rowById id = some rec → rec.state = .BUILDING → s.isValid rec.claim = false

section Settle
variable {s : World} {rec : Recommendation}

end Settle

/-! ## The record of every build -/

/-- What a run may begin with: the builds that are registered have rows that wait for them, and
the leftovers of failed ones are there. -/
structure BuildStart (s : World) : Prop where
  jobs : ∀ job ∈ s.jobs, job.site = .build → job.spec.name = job.claim.indexName ∧
    Standing s job.claim .BUILDING fun _ => True
  invalid : ∀ p ∈ s.invalid, (s.indexAt p).isSome = true

theorem BuildStart.law {s : World} (h : BuildStart s) : BuildLaw s ⟨s, .idle⟩ where
  log := List.prefix_rfl
  rows claim hbuilt := by
    obtain ⟨spec, hmem⟩ := hbuilt
    rw [List.drop_length] at hmem
    cases hmem
  jobs job hjob hsite := (h.jobs job hjob hsite).imp_right .inr
  unqueued := nofun
  unmade := nofun
  invalid := h.invalid

section
variable {s : World} {claim : Claim} (h : BuildKept s claim)
include h

theorem BuildKept.isOpen :
    BuildOpen s claim := by
  obtain ⟨rec, hrow, -, hkept⟩ := h
  refine ⟨rec, hrow, ?_⟩
  obtain ⟨hstate, -⟩ | hstate | ⟨hstate, -⟩ := hkept <;> simp [hstate]

theorem BuildKept.recorded (hnone : NoneWaits s) : BuildRecorded s claim := by
  obtain ⟨rec, hrow, hclaim, hkept⟩ := h
  refine ⟨rec, hrow, hclaim, hkept.imp_right fun h => h.resolve_right fun ⟨hstate, hvalid⟩ => ?_⟩
  rw [← hclaim, hnone claim.id rec hrow hstate] at hvalid
  cases hvalid

end

end Indexterity.Service
