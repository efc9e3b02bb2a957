import Indexterity.Service.DropRecord

/-!
# Service: the rows of hidden indexes

An index that the engine hid and that is hidden still has its row on watch: HIDDEN, with the
time it was hidden. Two un-hides may fail without a word: the one that puts an index back
when its hide cannot be recorded, and the one for a row whose database is no longer observed.
As long as neither fails where there is an index, no hidden index is left without its row.
-/

namespace Indexterity.Service

open Library Program

/-! ## On watch -/

def hidesAt (p : Place) : ExecutorCall × Claim → Option Claim
  | (.hide _, claim) => if claim.place = p then some claim else none
  | _ => none

def World.hiddenFor (s : World) (p : Place) : Option Claim :=
  s.log.foldl (fun last entry => (hidesAt p entry).or last) none

def OnWatch (s : World) (claim : Claim) : Prop :=
  ∃ rec, s.rowById claim.id = some rec ∧ rec.claim = claim ∧ rec.state = .HIDDEN ∧
    rec.hiddenAt.isSome = true

def HidFor (s : World) (p : Place) (claim : Claim) : Prop :=
  (∃ index, s.indexAt p = some index ∧ index.hidden = true) ∧ s.hiddenFor p = some claim

/-- Every index the engine hid, and that is hidden still, has its row on watch. -/
def Watched (s : World) : Prop := ∀ p claim, HidFor s p claim → OnWatch s claim

/-- An un-hide whose failure ends nothing does not fail where there is an index. -/
def GivesBack (s : World) : Op → Reply → Prop
  | .unhide .putBack claim, reply | .unhide (.due .outOfScope) claim, reply =>
    (s.claimed claim).isSome = true → reply.error = none
  | _, _ => True

instance (s : World) (op : Op) (reply : Reply) : Decidable (GivesBack s op reply) := by
  unfold GivesBack
  split <;> infer_instance

/-! ## The log of hides -/

variable {p : Place} {patch : Patch}

section Log
variable {s s' : World}

theorem hiddenFor_append {entry : Option (ExecutorCall × Claim)} (h : s'.log = s.log ++ entry.toList)
    (p : Place) : s'.hiddenFor p = (entry.bind (hidesAt p)).or (s.hiddenFor p) := by
  rw [World.hiddenFor, h, List.foldl_append]
  cases entry <;> rfl

theorem place_of_hiddenFor {claim : Claim} (h : s.hiddenFor p = some claim) : claim.place = p := by
  refine List.foldlRecOn (motive := fun last : Option Claim =>
    ∀ claim, last = some claim → claim.place = p) s.log _ (by simp) ?_ claim h
  intro last hlast entry _ other hother
  obtain hhides | ⟨-, hbefore⟩ := Option.or_eq_some_iff.mp hother
  · unfold hidesAt at hhides
    split at hhides
    · split at hhides
      · cases hhides
        assumption
      · cases hhides
    · cases hhides
  · exact hlast other hbefore

theorem hiddenFor_effect {op : Op} (hop : ∀ claim, op ≠ .hide claim) (answer : Except Thrown op.Ans)
    (p : Place) : (s.effect op answer).hiddenFor p = s.hiddenFor p := by
  rw [hiddenFor_append (log_effect s op answer)]
  have hnone : (s.entry op answer).bind (hidesAt p) = none := by
    cases hentry : s.entry op answer with
    | none => rfl
    | some entry =>
      cases logs_of_entry hentry with
      | hide => exact absurd rfl (hop _)
      | _ => rfl
  rw [hnone, Option.none_or]

end Log

/-! ## Rows on watch -/

section Watch
variable {s : World} {phase : Phase} {op : Op} {claim : Claim}

theorem patchAllowed_hidden {rec : Recommendation} (h : PatchAllowed s phase rec patch)
    (happroved : patch ≠ .approved) (hengine : s.canHide = true) (hstate : rec.state = .HIDDEN) :
    (∃ days, patch = .shortened days) ∨ phase = .shown rec.claim ∨
      (∃ spec, phase = .dropped rec.claim spec) ∨ s.claimed rec.claim = none := by
  cases patch with
  | approved => exact absurd rfl happroved
  | shortened days => exact .inl ⟨days, rfl⟩
  | cancelled => exact .inr (.inl (h.2.resolve_right (by simp [hengine])))
  | due action =>
    cases action with
    | outOfScope => exact .inr (.inl (h.2.resolve_right (by simp [hengine])))
    | refused => exact .inr (.inl (h.2.resolve_right (by simp [hengine])))
    | introduced => exact .inr (.inl h.2)
    | outstayed => exact .inr (.inl h.2)
    | regressed => exact .inr (.inl h.2)
    | observing => exact h.elim
    | waiting => exact h.elim
    | absent => exact .inr (.inr (.inr h.2.2))
    | drop => exact .inr (.inr (.inl h.2))
  | _ => simp [PatchAllowed, hstate] at h

theorem allowed_hid (h : Allowed s (.hid claim) op) :
    op.isQuiet = true ∨ (∃ columns, op = .updateRow claim.id (.hidden columns)) ∨
      op = .unhide .putBack claim := by
  cases busyCall_of_allowed h nofun with
  | read hop hcalm => exact .inl hop
  | @update id patch rec hrow hpatch =>
    cases patch with
    | hidden columns =>
      obtain ⟨-, hphase⟩ := hpatch
      obtain rfl : claim = rec.claim := by simpa using hphase
      obtain rfl := (World.rowById_some hrow).2
      exact .inr (.inl ⟨columns, rfl⟩)
    | due action => cases action <;> simp [PatchAllowed] at hpatch
    | _ => simp [PatchAllowed] at hpatch
  | putBack hphase => exact .inr (.inr (by rw [Phase.hid.inj hphase]))
  | _ => contradiction

theorem OnWatch.effect (h : OnWatch s claim) (op : Op)
    (hop : ∀ patch, op ≠ .updateRow claim.id patch) (answer : Except Thrown op.Ans) : OnWatch (s.effect op answer) claim := by
  obtain ⟨rec, hrow, hclaim, hstate, hhiddenAt⟩ := h
  exact ⟨rec, rowById_kept hrow (by simp [hstate]) hop answer, hclaim, hstate, hhiddenAt⟩

theorem visible_of_allowed_create {site : CreateSite} {spec : IndexSpec}
    (h : Allowed s phase (.create site claim spec)) : spec.hidden = false := by
  cases site with
  | build =>
    obtain ⟨-, -, -, -, -, _, -, rfl, -⟩ := h
    rfl
  | undo =>
    obtain ⟨-, -, -, -, -, _, -, hspec⟩ := h
    obtain ⟨_, -, rfl⟩ := Option.map_eq_some_iff.mp hspec
    rfl

theorem hidden_before (hallowed : Allowed s phase op) (hop : ∀ claim, op ≠ .hide claim)
    {answer : Except Thrown op.Ans} {index : IndexSpec}
    (h : (s.effect op answer).indexAt p = some index) (hhidden : index.hidden = true) :
    s.indexAt p = some index := by
  cases answer with
  | error error => rwa [effect_error] at h
  | ok answer =>
    cases op with
    | hide claim => exact absurd rfl (hop claim)
    | unhide site claim =>
      replace h := (indexAt_unhidden s claim p site).symm.trans h
      split at h
      · obtain ⟨_, -, rfl⟩ := Option.map_eq_some_iff.mp h
        cases hhidden
      · exact h
    | drop site claim =>
      replace h := (indexAt_dropped s claim p site).symm.trans h
      split at h
      · cases h
      · exact h
    | create site claim spec =>
      cases answer with
      | SCHEDULED => exact h
      | BUILT =>
        change (s.created site claim spec).indexAt p = some index at h
        unfold World.created at h
        split at h
        · rename_i htaken
          replace h := (indexAt_built s claim p spec htaken).symm.trans h
          split at h
          · cases h
            cases (visible_of_allowed_create hallowed).symm.trans hhidden
          · exact h
        · exact h
    | _ => rwa [World.indexAt, (leaves_effect s _ _).indexes rfl] at h

end Watch

def Phase.leaving : Phase → Option Claim
  | .shown claim | .dropped claim _ => some claim
  | _ => none

theorem leaving_next {s : World} {phase : Phase} {op : Op} {answer : Except Thrown op.Ans}
    {claim : Claim} (h : (phase.next s op answer).leaving = some claim) :
    phase.leaving = some claim ∨
    (∃ site, op = .unhide site claim ∧ (site = .due .outOfScope ∨ ∃ value, answer = .ok value)) ∨
    op = .drop .hidden claim ∧ ∃ value, answer = .ok value := by
  have hstep := phaseStep_next s phase op answer
  generalize phase.next s op answer = next at h hstep
  cases hstep with
  | stays => exact .inl h
  | shown hsite =>
    obtain rfl := Option.some.inj h
    exact .inr (.inl ⟨_, rfl, hsite⟩)
  | dropped =>
    obtain rfl := Option.some.inj h
    exact .inr (.inr ⟨rfl, _, rfl⟩)
  | _ => cases h

theorem allowed_leaving {s : World} {phase : Phase} {op : Op} {claim : Claim}
    (hallowed : Allowed s phase op) (h : phase.leaving = some claim) :
    op.isQuiet = true ∨ ∃ id patch, op = .updateRow id patch := by
  have hidle : phase ≠ .idle := fun heq => by simp [heq, Phase.leaving] at h
  cases busyCall_of_allowed hallowed hidle with
  | read hop hcalm => exact .inl hop
  | baseline database collection hphase => exact .inl rfl
  | @update id patch rec hrow hpatch => exact .inr ⟨id, patch, rfl⟩
  | putBack hphase => simp [hphase, Phase.leaving] at h
  | token hphase => simp [hphase, Phase.leaving] at h
  | gain hrow hphase => simp [hphase, Phase.leaving] at h
  | correction hrow hphase => simp [hphase, Phase.leaving] at h

/-! ## The law of hides -/

/-- Between two calls, the row of a hidden index is on watch, or its task is about to see to
it; and the index of a row that is about to leave the watch is visible or gone. -/
structure HideLaw (k : Account) : Prop where
  engine : k.world.canHide = true
  watched : ∀ p claim, HidFor k.world p claim → OnWatch k.world claim ∨ k.phase = .hid claim
  leaving : ∀ claim, k.phase.leaving = some claim →
    ∀ index, k.world.indexAt claim.place = some index → index.hidden = false

namespace HideLaw
variable {k : Account} {op : Op}

section
variable (h : HideLaw k)
include h

theorem step_hide {claim : Claim} (hallowed : Allowed k.world k.phase (.hide claim))
    (answer : Except Thrown Int) : HideLaw (protocol.effect k (.hide claim) answer) := by
  obtain ⟨hphase, -⟩ := hallowed
  cases answer with
  | error error => exact h
  | ok hiddenAt =>
    refine ⟨((leaves_effect k.world (.hide claim) (.ok hiddenAt)).canHide).trans h.engine, ?_, ?_⟩
    · intro p other hother
      by_cases heq : other = claim
      · exact .inr (heq ▸ rfl)
      obtain ⟨⟨index, hindex, hhidden⟩, hfor⟩ := hother
      replace hindex := (indexAt_hidden k.world claim p).symm.trans hindex
      replace hfor := (hiddenFor_append (log_effect k.world (.hide claim) (.ok hiddenAt)) p).symm.trans
        hfor
      have hp : p ≠ claim.place := by
        intro hp
        rw [if_pos hp, hp] at hindex
        obtain ⟨spec, hspec, -⟩ := Option.map_eq_some_iff.mp hindex
        rw [World.entry, World.claimed, hspec, Option.map_some, Option.bind_some, hidesAt,
          if_pos hp.symm, Option.some_or] at hfor
        exact heq (Option.some.inj hfor).symm
      have hentry : (k.world.entry (.hide claim) (.ok hiddenAt)).bind (hidesAt p) = none := by
        rw [World.entry]
        cases k.world.claimed claim with
        | none => rfl
        | some spec => exact if_neg (Ne.symm hp)
      rw [hentry, Option.none_or] at hfor
      rw [if_neg hp] at hindex
      obtain hwatch | hhid := h.watched p other ⟨⟨index, hindex, hhidden⟩, hfor⟩
      · exact .inl (hwatch.effect (.hide claim) nofun (.ok hiddenAt))
      · cases hphase.symm.trans hhid
    · exact nofun

theorem step_unhide {site : UnhideSite} {claim : Claim} {reply : Reply}
    (hallowed : Allowed k.world k.phase (.unhide site claim))
    (hgives : GivesBack k.world (.unhide site claim) reply) :
    HideLaw (protocol.effect k (.unhide site claim) (k.world.answer (.unhide site claim) reply)) := by
  -- behind the call the index is visible or gone, unless an error ends the task
  have hafter : site = .putBack ∨ site = .due .outOfScope ∨
      (∃ answer, k.world.answer (.unhide site claim) reply = .ok answer) → ∀ index,
      (k.world.effect (.unhide site claim) (k.world.answer (.unhide site claim) reply)).indexAt
        claim.place = some index → index.hidden = false := by
    intro hsite index hindex
    cases hanswer : k.world.answer (.unhide site claim) reply with
    | ok answer =>
      rw [hanswer] at hindex
      replace hindex := (indexAt_unhidden k.world claim claim.place site).symm.trans hindex
      rw [if_pos rfl] at hindex
      obtain ⟨_, -, rfl⟩ := Option.map_eq_some_iff.mp hindex
      rfl
    | error error =>
      rw [hanswer, effect_error] at hindex
      have hsome : (k.world.claimed claim).isSome = true := by rw [World.claimed, hindex]; rfl
      have herror : reply.error = none := by
        obtain rfl | rfl | ⟨_, hok⟩ := hsite
        · exact hgives hsome
        · exact hgives hsome
        · cases hok.symm.trans hanswer
      change k.world.hideAnswer claim reply () = _ at hanswer
      rw [World.hideAnswer, World.claimed, hindex] at hanswer
      cases (gives_of_error_none herror ()).symm.trans hanswer
  refine ⟨(leaves_effect k.world _ _).canHide.trans h.engine, ?_, ?_⟩
  · intro p other hother
    obtain ⟨⟨index, hindex, hhidden⟩, hfor⟩ := hother
    have hbefore := hidden_before hallowed nofun hindex hhidden
    have hfor' := (@hiddenFor_effect k.world (.unhide site claim) nofun _ p).symm.trans hfor
    obtain hwatch | hphase := h.watched p other ⟨⟨index, hbefore, hhidden⟩, hfor'⟩
    · exact .inl (hwatch.effect (.unhide site claim) nofun _)
    · rw [hphase] at hallowed
      obtain hquiet | ⟨_, hop⟩ | hop := allowed_hid hallowed
      · cases hquiet
      · cases hop
      · cases hop
        obtain rfl := place_of_hiddenFor hfor
        cases (hafter (.inl rfl) index hindex).symm.trans hhidden
  · intro other hother index hindex
    obtain hsame | ⟨_, hop, hsite⟩ | ⟨hop, -⟩ := leaving_next hother
    · obtain hquiet | ⟨_, _, hop⟩ := allowed_leaving hallowed hsame
      · cases hquiet
      · cases hop
    · cases hop
      obtain rfl | ⟨value, hvalue⟩ := hsite
      · exact hafter (.inr (.inl rfl)) index hindex
      · exact hafter (.inr (.inr ⟨value, hvalue⟩)) index hindex
    · cases hop

theorem stays_watched {rec : Recommendation} (hrow : k.world.rowById rec.id = some rec)
    (hpatch : PatchAllowed k.world k.phase rec patch) (happroved : patch ≠ .approved)
    {claim : Claim} (hfor : HidFor k.world p claim) (hwatch : OnWatch k.world claim) :
    OnWatch (k.world.updateRow rec.id patch) claim := by
  obtain ⟨row, hrow', hclaim, hstate, hhiddenAt⟩ := hwatch
  by_cases hid : claim.id = rec.id
  · obtain rfl : rec = row := Option.some.inj (hrow.symm.trans (hid ▸ hrow'))
    obtain ⟨⟨index, hindex, hhidden⟩, hfor⟩ := hfor
    obtain rfl := place_of_hiddenFor hfor
    subst hclaim
    have hleaving (hphase : k.phase.leaving = some rec.claim) : False := by
      cases (h.leaving rec.claim hphase index hindex).symm.trans hhidden
    obtain ⟨days, rfl⟩ | hphase | ⟨spec, hphase⟩ | hnone :=
      patchAllowed_hidden hpatch happroved h.engine hstate
    · exact ⟨_, World.rowById_updateRow_self hrow _, apply_claim _ rec, hstate, hhiddenAt⟩
    · exact (hleaving (by rw [hphase]; rfl)).elim
    · exact (hleaving (by rw [hphase]; rfl)).elim
    · cases hindex.symm.trans hnone
  · exact ⟨row, (World.rowById_updateRow_of_ne _ hid patch).trans hrow', hclaim, hstate, hhiddenAt⟩

theorem step_updateRow {id : String} (hallowed : Allowed k.world k.phase (.updateRow id patch))
    (happroved : patch ≠ .approved) (answer : Except Thrown Bool) :
    HideLaw (protocol.effect k (.updateRow id patch) answer) := by
  obtain ⟨rec, hrow, hpatch⟩ := allowed_updateRow hallowed happroved
  obtain rfl := (World.rowById_some hrow).2
  refine ⟨(leaves_effect k.world _ _).canHide.trans h.engine, ?_, ?_⟩
  · intro p claim hclaim
    have hfor : HidFor k.world p claim := by cases answer <;> exact hclaim
    obtain hwatch | hphase := h.watched p claim hfor
    · cases answer with
      | error error => exact .inl hwatch
      | ok updated => exact .inl (h.stays_watched hrow hpatch happroved hfor hwatch)
    · rw [hphase] at hallowed hpatch
      obtain hquiet | ⟨columns, hop⟩ | hop := allowed_hid hallowed
      · cases hquiet
      · obtain rfl : patch = .hidden columns := (Op.updateRow.inj hop).2
        cases answer with
        | error error => exact .inr hphase
        | ok updated =>
          obtain rfl : claim = rec.claim := by simpa using hpatch.2
          exact .inl ⟨_, World.rowById_updateRow_self hrow (.hidden columns), apply_claim _ rec,
            rfl, rfl⟩
      · cases hop
  · intro claim hnext index hindex
    have hbefore : k.world.indexAt claim.place = some index := by
      cases answer <;> exact hindex
    obtain hsame | ⟨_, hop, -⟩ | ⟨hop, -⟩ := leaving_next hnext
    · exact h.leaving claim hsame index hbefore
    · cases hop
    · cases hop

theorem step_aside (hallowed : Allowed k.world k.phase op) (hhide : ∀ claim, op ≠ .hide claim)
    (hunhide : ∀ site claim, op ≠ .unhide site claim)
    (hupdate : ∀ id patch, op ≠ .updateRow id patch) (answer : Except Thrown op.Ans) :
    HideLaw (protocol.effect k op answer) := by
  refine ⟨(leaves_effect k.world op answer).canHide.trans h.engine, ?_, ?_⟩
  · rintro p claim ⟨⟨index, hindex, hhidden⟩, hfor⟩
    have hbefore := hidden_before hallowed hhide hindex hhidden
    have hfor' := (hiddenFor_effect hhide answer p).symm.trans hfor
    obtain hwatch | hphase := h.watched p claim ⟨⟨index, hbefore, hhidden⟩, hfor'⟩
    · exact .inl (hwatch.effect op (hupdate _) answer)
    · rw [hphase] at hallowed
      obtain hquiet | ⟨_, hop⟩ | hop := allowed_hid hallowed
      · have hcalm : k.phase.isCalm = true := by rw [hphase]; rfl
        exact .inr ((next_quiet k.world hcalm hquiet answer).trans hphase)
      · exact absurd hop (hupdate _ _)
      · exact absurd hop (hunhide _ _)
  · intro claim hnext index hindex
    obtain hsame | ⟨_, hop, -⟩ | ⟨rfl, value, rfl⟩ := leaving_next hnext
    · obtain hquiet | ⟨_, _, hop⟩ := allowed_leaving hallowed hsame
      · refine h.leaving claim hsame index ?_
        rwa [← effect_quiet k.world hquiet answer]
      · exact absurd hop (hupdate _ _)
    · exact absurd hop (hunhide _ _)
    · replace hindex := (indexAt_dropped k.world claim claim.place .hidden).symm.trans hindex
      rw [if_pos (place_mem_places _ _)] at hindex
      cases hindex

end

theorem preserved : Preserved HideLaw fun s op reply =>
    op.role ≠ some .approves ∧ GivesBack s op reply := by
  rintro k op reply h hallowed ⟨hrole, hgives⟩
  cases op with
  | hide claim => exact h.step_hide hallowed _
  | unhide site claim => exact h.step_unhide hallowed hgives
  | updateRow id patch =>
    refine h.step_updateRow hallowed ?_ _
    rintro rfl
    exact hrole rfl
  | _ => exact h.step_aside hallowed (fun _ => nofun) (fun _ _ => nofun) (fun _ _ => nofun) _

end HideLaw

/-! ## Sequences -/

def Event.endsUnapproved (s : World) : Event → Prop
  | .turn task replies => task.role ≠ some .approves ∧ (Event.turn task replies).isOver s = true
  | .jobRun _ _ | .outside _ _ _ _ => False

theorem watched_after {s : World} {event : Event} (hengine : s.canHide = true) (h : Watched s)
    (hevent : event.endsUnapproved s) (hgives : ∀ c ∈ event.calls s, GivesBack c.1 c.2.1 c.2.2) :
    (event.after s).canHide = true ∧ Watched (event.after s) := by
  cases event with
  | turn task replies =>
    have hlaw : HideLaw ⟨s, .idle⟩ := ⟨hengine, fun p claim hfor => .inl (h p claim hfor), nofun⟩
    obtain ⟨phase, hafter, hleft⟩ := HideLaw.preserved.turn hlaw fun c hc => by
      refine ⟨?_, hgives c hc⟩
      exact (inRole_of_mem_calls hc).ne hevent.1
    refine ⟨hafter.engine, fun p claim hfor => (hafter.watched p claim hfor).resolve_right ?_⟩
    have hover := hevent.2
    unfold Event.isOver at hover
    cases hleft' : (run machine replies task.program s).1 with
    | done value =>
      rw [hleft'] at hleft
      exact (show phase = .idle from hleft).trans_ne nofun
    | raise error =>
      rw [hleft'] at hleft
      exact hleft claim
    | call op next => simp [hleft', Program.isOver] at hover
  | jobRun job succeeds => exact hevent.elim
  | outside database collection live invalid => exact hevent.elim

/-- No hidden index is left without its row while its un-hides go through. -/
theorem hidden_rows_watched (s : World) (events : List Event) (hengine : s.canHide = true)
    (hstart : Watched s) (hevents : Along (fun s event => event.endsUnapproved s) s events)
    (hgives : AlongCalls (fun c => GivesBack c.1 c.2.1 c.2.2) s events) :
    Watched (runEvents s events) := by
  induction events generalizing s with
  | nil => exact hstart
  | cons event events ih =>
    obtain ⟨hengine', hafter⟩ := watched_after hengine hstart hevents.1 hgives.1
    exact ih (event.after s) hengine' hafter hevents.2 hgives.2

theorem watched_of_log_nil {s : World} (h : s.log = []) : Watched s := by
  rintro p claim ⟨-, hfor⟩
  rw [World.hiddenFor, h] at hfor
  cases hfor

theorem applied_row_watched :
    Watched (runEvents approvedWorld [.turn .applyCluster (List.replicate 16 plainReply)]) := by
  refine hidden_rows_watched approvedWorld [.turn .applyCluster (List.replicate 16 plainReply)] rfl
    (watched_of_log_nil rfl) ⟨⟨nofun, ?_⟩, trivial⟩ ⟨?_, trivial⟩ <;>
  decide

/-- The replies of a pass over a cluster that observes no database, and of which the un-hide
fails. -/
def scopedReplies : List Reply :=
  let reply := { plainReply with observedDatabases := some [] }
  List.replicate 9 reply ++ { reply with error := some (.failed "not master") } ::
    List.replicate 2 reply

/-- The database of a hidden index leaves the scope, and its one un-hide fails: the row is
proposed again and the index stays hidden. -/
theorem scoped_out_index_unwatched :
    ∃ s events, s.canHide = true ∧ Watched s ∧
      Along (fun s event => event.endsUnapproved s) s events ∧ ¬ Watched (runEvents s events) := by
  refine ⟨approvedWorld, [.turn .applyCluster (List.replicate 16 plainReply),
    .turn .finalizeCluster scopedReplies], rfl, watched_of_log_nil rfl,
    ⟨⟨nofun, ?_⟩, ⟨nofun, ?_⟩, trivial⟩, fun h => ?_⟩
  · decide
  · decide
  · obtain ⟨rec, hrow, -, hstate, -⟩ := h ("d", "c", "a_1") ⟨"r", "d", "c", "a_1"⟩
      ⟨⟨hiddenIndex, by decide, rfl⟩, by decide⟩
    have hproposed : ((runEvents approvedWorld
        [.turn .applyCluster (List.replicate 16 plainReply), .turn .finalizeCluster
          scopedReplies]).rowById "r").map (fun rec => rec.state) = some .PROPOSED := by
      decide
    rw [hrow, Option.map_some, hstate] at hproposed
    cases hproposed

end Indexterity.Service
