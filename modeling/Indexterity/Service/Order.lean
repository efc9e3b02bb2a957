import Indexterity.Service.Rows

/-!
# Service: every task keeps the order

One lemma for each piece of a task, from the pieces that handle one row up to the whole
tasks. A piece that handles a row finds it as it was loaded, because the pieces before it
wrote to other rows.
-/

namespace Indexterity.Service

open Library Program

/-- A task ends between two rows, or with an error, but never while the index it hid waits
for its row. -/
def Ends {α : Type} : Except Thrown α → Account → Prop
  | .ok _, k => k.phase = .idle
  | .error _, k => ∀ claim, k.phase ≠ .hid claim

/-- Begun between two rows, the program ends as a task does. -/
abbrev Orderly {α : Type} (program : Prog α) (s : World) : Prop :=
  program.Keeps protocol Ends ⟨s, .idle⟩

variable {reply : Reply} {action : Action} {op : Op} {canHide : Bool} {patch : Patch}
variable {phase : Phase} {watched : List Recommendation} {s' : World}

section
variable {α : Type} {answer value : α} (h : reply.gives answer = .ok value)
include h

theorem gives_ok :
    answer = value := by
  unfold Reply.gives at h
  split at h
  · exact Except.ok.inj h
  · cases h

theorem gives_error :
    reply.error = none := by
  unfold Reply.gives at h
  split at h
  · assumption
  · cases h

end

theorem gives_of_error_none {α : Type} (h : reply.error = none) (answer : α) :
    reply.gives answer = .ok answer := by
  rw [Reply.gives, h]

structure Found (s : World) (rec : Recommendation) (state : RecommendationState) : Prop where
  row : s.rowById rec.id = some rec
  state : rec.state = state

theorem Found.after {s : World} {rec : Recommendation} {state : RecommendationState}
    (h : Found s rec state) (op : Op) (hop : op.writesRows = false)
    (answer : Except Thrown op.Ans) : Found (s.effect op answer) rec state :=
  ⟨(@rowById_effect s op hop answer rec.id).trans h.row, h.state⟩

/-! ## Single calls -/

section Calls
variable {α : Type} {post : Except Thrown α → Account → Prop} {k : Account} {next : op.Ans → Prog α}

theorem keeps_call (hallowed : Allowed k.world k.phase op)
    (hnext : ∀ answer reply, k.world.answer op reply = .ok answer →
      (next answer).Keeps protocol post (protocol.effect k op (.ok answer)))
    (herror : ∀ error, post (.error error) (protocol.effect k op (.error error))) :
    (ask op >>= next).Keeps protocol post k :=
  keeps_ask_bind.mpr ⟨hallowed, fun answer ⟨reply, hreply⟩ => hnext answer reply hreply,
    fun error _ => herror error⟩

theorem keeps_quiet (hop : op.isQuiet = true) (hcalm : k.phase.isCalm = true)
    (hnext : ∀ answer reply, k.world.answer op reply = .ok answer →
      (next answer).Keeps protocol post k) (herror : ∀ error, post (.error error) k) :
    (ask op >>= next).Keeps protocol post k := by
  refine keeps_call (allowed_quiet hop hcalm) ?_ ?_
  · simpa only [effect_protocol_quiet hcalm hop] using hnext
  · simpa only [effect_protocol_quiet hcalm hop] using herror

theorem keeps_of_quiet {program : Prog α} (huses : program.Uses fun op => op.isQuiet = true)
    (hcalm : k.phase.isCalm = true) : program.Keeps protocol (fun _ k' => k' = k) k :=
  huses.keeps fun _ hop => ⟨allowed_quiet hop hcalm, effect_protocol_quiet hcalm hop⟩

theorem keeps_read {s : World} (hop : op.isQuiet = true)
    (hnext : ∀ answer reply, s.answer op reply = .ok answer →
      Orderly (next answer) s) :
    Orderly (ask op >>= next) s :=
  keeps_quiet hop rfl hnext fun _ => nofun

theorem keeps_note (hop : op.isQuiet = true) (s : World) : Orderly (ask op) s := by
  refine (keeps_of_quiet (uses_ask.mpr hop) rfl).mono ?_
  rintro (error | answer) k rfl
  · exact nofun
  · rfl

theorem keeps_line (h : action.kind = .DROP → action.rollbackToken = none) (s : World) :
    Orderly (ask (.insertAction action)) s := by
  refine keeps_ask.mpr ⟨.inl ⟨rfl, h⟩, ?_⟩
  rintro (error | answer) -
  · exact nofun
  · rfl

end Calls

theorem keeps_then {α β : Type} {program : Prog α} {next : α → Prog β} {k : Account}
    (h : program.Keeps protocol Ends k) (hnext : ∀ value s, Orderly (next value) s) :
    (program >>= next).Keeps protocol Ends k := by
  refine keeps_bind.mpr (h.mono ?_)
  rintro (error | value) ⟨s, phase⟩ hk
  · exact hk
  · obtain rfl : phase = .idle := hk
    exact hnext value s

theorem keeps_value {α β : Type} {program : Prog α} {k : Account} (value : β)
    (h : program.Keeps protocol Ends k) : (program >>= fun _ => pure value).Keeps protocol Ends k :=
  keeps_then h fun _ _ => rfl

/-! ## Preflight -/

theorem keeps_preflight (rec : Recommendation) {k : Account} (hcalm : k.phase.isCalm = true) :
    (preflight rec).Keeps protocol (fun r k' => k' = k ∧ ∀ check, r = .ok check →
      ∃ reads, check = preflightDrop (k.world.live rec.claim) reads rec.target) k := by
  refine keeps_quiet rfl hcalm ?_ (fun error => ⟨rfl, by simp⟩)
  intro specs reply hspecs
  obtain rfl : k.world.live rec.claim = specs := gives_ok hspecs
  have hgiven (reads : PreflightReads) :
      (pure (preflightDrop (k.world.live rec.claim) reads rec.target) : Prog PreflightResult).Keeps
        protocol (fun r k' => k' = k ∧ ∀ check, r = .ok check →
          ∃ reads, check = preflightDrop (k.world.live rec.claim) reads rec.target) k :=
    ⟨rfl, fun check hcheck => ⟨reads, (Except.ok.inj hcheck).symm⟩⟩
  split
  · exact hgiven _
  split
  · exact hgiven _
  have husage : (usageFor rec).Uses fun op => op.isQuiet = true := by
    unfold usageFor
    split
    · exact uses_ask.mpr rfl
    · trivial
  refine keeps_bind.mpr ((keeps_of_quiet husage hcalm).mono ?_)
  rintro (error | usage) k' rfl
  · exact ⟨rfl, by simp⟩
  change (ite _ _ _ : Prog _).Keeps _ _ _
  split
  · exact hgiven _
  · exact keeps_quiet rfl hcalm (fun _ _ _ => hgiven _) fun error => ⟨rfl, by simp⟩

/-! ## Hiding one row -/

variable {dropped : Nat} {pass : PassReads} {reads : PreflightReads} {since : Option Int}
variable {ids withdrawn : List String} {watches : Watches}

section Row
variable {rec : Recommendation} {s : World}

theorem keeps_noteHideFailure (id : String) : Orderly (noteHideFailure id) s := by
  refine keeps_read rfl fun noted _ _ => ?_
  cases noted with
  | true => rfl
  | false => exact keeps_line (by simp) s

theorem keeps_hideFailed (hiddenOnCluster : Bool) (error : Thrown) :
    (hideFailed rec hiddenOnCluster error).Keeps protocol Ends
      ⟨s, if hiddenOnCluster then .hid rec.claim else .idle⟩ := by
  have hnote (s : World) : (do noteHideFailure rec.id; pure (some error) : Prog _).Keeps protocol
      Ends ⟨s, .idle⟩ :=
    keeps_value _ (keeps_noteHideFailure rec.id)
  cases hiddenOnCluster with
  | false => exact hnote s
  | true =>
    refine keeps_bind.mpr (keeps_handle.mpr (keeps_ask.mpr ⟨rfl, ?_⟩))
    rintro (error | ⟨⟩) -
    · exact hnote _
    · exact hnote _

theorem keeps_hideRecorded (spec : Option IndexSpec) : Orderly (hideRecorded rec spec) s := by
  refine keeps_handle.mpr (keeps_call (.inl ⟨rfl, by simp⟩) ?_ ?_)
  · intro _ _ _
    refine (keeps_of_quiet (uses_ask.mpr rfl) rfl).mono ?_
    rintro (error | ⟨⟩) k rfl <;> rfl
  · intro error
    rfl

theorem keeps_recordHidden {hiddenAt : Int} (h : Found s rec .APPROVED)
    (hphase : phase = if canHide then .hid rec.claim else .idle) (hengine : s.canHide = canHide) :
    (recordHidden canHide since rec hiddenAt).Keeps protocol (fun
      | .ok _ => fun k => k.phase = .idle
      | .error _ => fun k => k = ⟨s, phase⟩) ⟨s, phase⟩ := by
  have hcalm : phase.isCalm = true := by
    rw [hphase]
    cases canHide <;> rfl
  have hallowed (columns : HiddenColumns) : Allowed s phase (.updateRow rec.id (.hidden columns)) := by
    refine ⟨rec, h.row, h.state, ?_⟩
    cases canHide with
    | true => exact .inl hphase
    | false => exact .inr ⟨hphase, hengine⟩
  have hwrite (baseline : Option LatencySample) (failures : Option FailureSample) :
      (do let days ← ask (.dynamicObserveDays rec.claim)
          let _ ← ask (.updateRow rec.id (.hidden ⟨hiddenAt, days, baseline, failures⟩))
          pure () : Prog Unit).Keeps protocol (fun
        | .ok _ => fun k => k.phase = .idle
        | .error _ => fun k => k = ⟨s, phase⟩) ⟨s, phase⟩ := by
    refine keeps_quiet rfl hcalm (fun days _ _ => ?_) (fun _ => rfl)
    exact keeps_call (hallowed _) (fun _ _ _ => rfl) fun error => by
      change Account.mk _ _ = _
      rfl
  cases canHide with
  | false => exact hwrite none none
  | true =>
    refine keeps_quiet rfl hcalm (fun _ _ _ => ?_) (fun _ => rfl)
    exact keeps_quiet rfl hcalm (fun _ _ _ => hwrite _ _) (fun _ => rfl)

def Settles {α : Type} (phase : Phase) : Except Thrown α → Account → Prop
  | .ok _, k => k.phase = .idle
  | .error _, k => k.phase = .idle ∨ k.phase = phase

theorem Settles.ends {α : Type} {r : Except Thrown α} {k : Account} (h : Settles phase r k)
    (hhid : ∀ claim, phase ≠ .hid claim) : Ends r k := by
  cases r with
  | ok value => exact h
  | error error =>
    intro claim
    rcases h with h | h
    · rw [h]
      exact nofun
    · rw [h]
      exact hhid claim

section
variable {id : String} (hallowed : Allowed s phase (.updateRow id patch))
include hallowed

theorem keeps_settle (hpatch : patch ≠ .due .drop)
    (haction : action.kind = .DROP → action.rollbackToken = none) :
    (do let _ ← ask (.updateRow id patch)
        ask (.insertAction action) : Prog Unit).Keeps protocol (Settles phase) ⟨s, phase⟩ := by
  refine keeps_call hallowed (fun updated _ _ => ?_) (fun error => ?_)
  · change Keeps _ _ _ (Account.mk _ (phase.next s _ _))
    rw [next_updateRow_ok s phase id hpatch]
    refine keeps_ask.mpr ⟨.inl ⟨rfl, haction⟩, ?_⟩
    rintro (error | ⟨⟩) -
    · exact .inl rfl
    · rfl
  · exact .inr (next_updateRow_error s phase id hpatch error)

theorem keeps_settle_ends (hhid : ∀ claim, phase ≠ .hid claim) (hpatch : patch ≠ .due .drop)
    (haction : action.kind = .DROP → action.rollbackToken = none) :
    (do let _ ← ask (.updateRow id patch)
        ask (.insertAction action) : Prog Unit).Keeps protocol Ends ⟨s, phase⟩ :=
  (keeps_settle hallowed hpatch haction).mono fun _ _ hk => hk.ends hhid

end

theorem keeps_reproposeRow (h : Found s rec .APPROVED) :
    (reproposeRow rec).Keeps protocol (Settles .idle) ⟨s, .idle⟩ :=
  keeps_settle ⟨rec, h.row, rfl, h.state⟩ nofun (by simp)

theorem preflight_claimed (h : (preflightDrop (s.live rec.claim) reads rec.target).safe = true) :
    ∃ spec, s.claimed rec.claim = some spec ∧
      (preflightDrop (s.live rec.claim) reads rec.target).spec = some spec ∧
      (isNeverDrop spec = true → rec.target.supersededBy.isSome = true) := by
  obtain ⟨spec, hspec, hcheck, hprotected, -⟩ := preflightDrop_safe h
  refine ⟨spec, hspec, hcheck, fun hnever => ?_⟩
  exact (protectedRefusal_eq_none hprotected).resolve_left (by simp [hnever])

theorem claimed_of_preflight
    (h : ¬ (preflightDrop (s.live rec.claim) reads rec.target).spec.isSome = true) :
    s.claimed rec.claim = none := by
  unfold preflightDrop at h
  split at h
  · assumption
  · split at h <;> simp at h

theorem keeps_hideRow (h : Found s rec .APPROVED) (hengine : s.canHide = canHide) :
    Orderly (hideRow canHide since rec) s := by
  refine keeps_handle.mpr ((keeps_preflight rec rfl).mono ?_)
  rintro (error | check) k ⟨rfl, hcheck⟩
  · exact keeps_hideFailed false error
  obtain ⟨reads, rfl⟩ := hcheck check rfl
  change (ite _ _ _ : Prog _).Keeps _ _ _
  split
  · refine keeps_handle.mpr ((keeps_reproposeRow h).mono ?_)
    rintro (error | ⟨⟩) ⟨s', phase⟩ hk
    · obtain rfl : phase = .idle := hk.elim id id
      exact keeps_hideFailed false error
    · exact hk
  rename_i hsafe
  obtain ⟨spec, hspec, -, -⟩ := preflight_claimed (by simpa using hsafe)
  cases canHide with
  | true =>
    refine keeps_handle.mpr (keeps_ask.mpr ⟨⟨rfl, rec, h.row, rfl, h.state, by simp [hspec]⟩, ?_⟩)
    rintro (error | hiddenAt) -
    · exact keeps_hideFailed false error
    have h' := h.after (.hide rec.claim) rfl (.ok hiddenAt)
    have hengine' := (leaves_effect s (.hide rec.claim) (.ok hiddenAt)).canHide.trans hengine
    refine keeps_handle.mpr ((keeps_recordHidden h' rfl hengine').mono ?_)
    rintro (error | ⟨⟩) ⟨s', phase⟩ hk
    · obtain ⟨rfl, rfl⟩ := Account.mk.inj hk
      exact keeps_hideFailed true error
    · obtain rfl : phase = .idle := hk
      exact keeps_hideRecorded _
  | false =>
    refine keeps_handle.mpr ((keeps_of_quiet (uses_ask.mpr rfl) rfl).mono ?_)
    rintro (error | hiddenAt) k rfl
    · exact keeps_hideFailed false error
    refine keeps_handle.mpr ((keeps_recordHidden h rfl hengine).mono ?_)
    rintro (error | ⟨⟩) ⟨s', phase⟩ hk
    · obtain ⟨rfl, rfl⟩ := Account.mk.inj hk
      exact keeps_hideFailed false error
    · obtain rfl : phase = .idle := hk
      exact keeps_hideRecorded _

/-! ## Building one row -/

theorem keeps_recordBuilt {awaited : Bool}
    (h : Found s rec (if awaited then .BUILDING else .APPROVED)) :
    (recordBuilt rec).Keeps protocol Ends ⟨s, .made rec.claim awaited⟩ := by
  refine keeps_call (.inr ⟨rec.claim, awaited, rfl⟩) ?_ (fun _ => nofun)
  rintro ⟨writes, builtAt⟩ _ _
  refine keeps_settle_ends ⟨rec, h.row, ?_⟩ nofun nofun (by simp)
  cases awaited with
  | false => exact .inl ⟨h.state, rfl⟩
  | true => exact .inr ⟨h.state, rfl⟩

theorem keeps_closeUnbuilt (hhid : ∀ claim, phase ≠ .hid claim)
    (h : Allowed s phase (.updateRow rec.id .unbuilt)) :
    (closeUnbuilt rec).Keeps protocol Ends ⟨s, phase⟩ :=
  keeps_settle_ends h hhid nofun (by simp)

theorem keeps_buildRow (h : Found s rec .APPROVED) : Orderly (buildRow rec) s := by
  unfold buildRow
  split
  · rfl
  rename_i target htarget
  split
  · rfl
  split
  · exact keeps_line (by simp) s
  refine keeps_read rfl fun live _ hlive => ?_
  obtain rfl : s.live rec.claim = live := gives_ok hlive
  split
  · rename_i hunworthy
    exact keeps_closeUnbuilt nofun ⟨rec, h.row, h.state, .inr ⟨rfl, target, htarget, hunworthy⟩⟩
  rename_i hworthy
  have hworthy' : notWorthBuilding (rec.buildRow target).spec (s.live rec.claim) = none := by
    simpa using hworthy
  refine keeps_handle.mpr (keeps_ask.mpr
    ⟨⟨rfl, rec, h.row, rfl, h.state, target, htarget, rfl, hworthy'⟩, ?_⟩)
  rintro (error | outcome) -
  · cases error with
    | buildRefused message =>
      exact keeps_closeUnbuilt nofun ⟨rec, h.row, h.state, .inl rfl⟩
    | _ => exact nofun
  · have h' := h.after (.create .build rec.claim _) rfl (.ok outcome)
    cases outcome with
    | BUILT => exact keeps_recordBuilt h'
    | SCHEDULED =>
      exact keeps_settle_ends ⟨rec, h'.row, h.state, rfl⟩ nofun nofun (by simp)

theorem keeps_settleRow (h : Found s rec .BUILDING) : Orderly (settleRow rec) s := by
  refine keeps_call ⟨rfl, rec, h.row, rfl, h.state, trivial⟩ ?_ (fun _ => nofun)
  rintro ⟨settlement, removed⟩ _ _
  have h' := h.after (.settleBuild rec.claim) rfl (.ok (settlement, removed))
  cases settlement with
  | PENDING => rfl
  | FAILED message =>
    exact keeps_settle_ends ⟨rec, h'.row, h.state, rfl⟩ nofun nofun (by simp)
  | READY => exact keeps_recordBuilt h'

/-! ## Watching one build -/

theorem keeps_judgeCumulative (watched : List Recommendation) (reported : List (String × String)) :
    Orderly (judgeCumulative watched reported rec) s := by
  unfold judgeCumulative
  split
  · rfl
  split
  · rfl
  refine keeps_call (.inl rfl) ?_ (fun _ => nofun)
  rintro ⟨writes, at_⟩ _ _
  change (ite _ _ _ : Prog _).Keeps _ _ _
  split
  · refine keeps_read rfl fun _ _ _ => ?_
    refine keeps_call (.inl ⟨rfl, by simp⟩) (fun _ _ _ => ?_) (fun _ => nofun)
    exact keeps_read rfl fun _ _ _ => rfl
  · rfl

theorem keeps_retireName (name : String) : Orderly (retireName rec name) s := by
  refine keeps_read rfl fun standing _ _ => ?_
  cases standing with
  | true => rfl
  | false =>
    refine keeps_call rfl ?_ (fun _ => nofun)
    intro proposed _ _
    cases proposed with
    | none => rfl
    | some id => exact keeps_line (by simp) _

theorem keeps_retireSuperseded : Orderly (retireSuperseded rec) s := by
  unfold retireSuperseded
  split
  · rfl
  refine keeps_eachFrom (fun _ _ k => k.phase = .idle) (fun _ _ h => h) ?_ rfl
  rintro ⟨⟩ name rest ⟨s, phase⟩ rfl
  refine (keeps_retireName name).mono ?_
  rintro (error | ⟨⟩) k hk <;> exact hk

theorem keeps_graduate (watched : List Recommendation) (reported : List (String × String))
    (h : Found s rec .ACTIVE) : Orderly (graduate watched reported rec) s := by
  have huses := (@uses_judgeCumulative rec none watched reported []).mono fun _ h => h.1.1
  refine keeps_bind.mpr ((keeps_elsewhere (keeps_judgeCumulative watched reported) huses).mono ?_)
  rintro (error | reported) ⟨s, phase⟩ ⟨hk, -, helse⟩
  · exact hk
  obtain rfl : phase = .idle := hk
  refine keeps_call ⟨rec, helse _ (by simp) _ h.row, h.state, rfl⟩ (fun _ _ _ => ?_) (fun _ => nofun)
  exact keeps_then keeps_retireSuperseded fun _ _ => keeps_read rfl fun _ _ _ => rfl

theorem keeps_notices : Orderly (do ask .notify; ask .notify : Prog Unit) s :=
  keeps_read rfl fun _ _ _ => keeps_note rfl s

theorem keeps_rollBackBuild (h : Found s rec .ACTIVE)
    (hbaseline : rec.buildBaseline.isSome = true) : Orderly (rollBackBuild rec) s := by
  refine keeps_call ⟨rfl, rec, h.row, rfl, h.state, hbaseline⟩ (fun _ _ _ => ?_) (fun _ => nofun)
  refine keeps_quiet rfl rfl (fun _ _ _ => ?_) (fun _ => nofun)
  have h' := h.after (.drop .built rec.claim) rfl (.ok ())
  refine keeps_call ⟨rec, h'.row, h.state, rfl⟩ (fun _ _ _ => ?_) (fun _ => nofun)
  exact keeps_call (.inl ⟨rfl, by simp⟩) (fun _ _ _ => keeps_notices) (fun _ => nofun)

theorem keeps_watchRow {reported : List (String × String)} (h : Found s rec .ACTIVE) :
    Orderly (watchRow pass watched reported rec) s := by
  unfold watchRow
  split
  · rfl
  rename_i baseline hbaseline
  split
  · rfl
  refine keeps_read rfl fun readings _ _ => ?_
  split
  · rfl
  have hconclude (verdict : ObservedVerdict) {s : World} (h : Found s rec .ACTIVE) :
      Orderly (concludeWatch watched reported rec verdict) s := by
    unfold concludeWatch
    split
    · exact keeps_value _ (keeps_rollBackBuild h (by simp [hbaseline]))
    · exact keeps_graduate watched reported h
  unfold noteCutShort
  split
  · exact keeps_call (.inl ⟨rfl, by simp⟩) (fun _ _ _ => hconclude _ (h.after (.insertAction _) rfl _))
      (fun _ => nofun)
  · exact hconclude _ h

/-! ## Judging one hidden row -/

theorem keeps_settleDue {action : DueAction} (h : Allowed s phase (.updateRow rec.id (.due action)))
    (hhid : ∀ claim, phase ≠ .hid claim) (hdrop : action ≠ .drop) :
    (settleDue rec action none).Keeps protocol Ends ⟨s, phase⟩ :=
  keeps_settle_ends h hhid (fun heq => hdrop (Patch.due.inj heq)) (by simp)

section
variable (h : Found s rec .HIDDEN)
include h

theorem keeps_unhide {α : Type} {site : UnhideSite} {next : Unit → Prog α} (hsite : site ≠ .putBack)
    (hnext : ∀ s, Found s rec .HIDDEN → (next ()).Keeps protocol Ends ⟨s, .shown rec.claim⟩) :
    Orderly (ask (.unhide site rec.claim) >>= next) s := by
  have hstanding : Standing s rec.claim .HIDDEN fun _ => True := ⟨rec, h.row, rfl, h.state, trivial⟩
  refine keeps_call ?_ ?_ ?_
  · cases site with
    | request => exact ⟨rfl, hstanding⟩
    | putBack => exact absurd rfl hsite
    | due action => exact ⟨rfl, hstanding⟩
  · rintro ⟨⟩ _ _
    have hnext := hnext _ (h.after (.unhide site rec.claim) rfl (.ok ()))
    cases site with
    | request => exact hnext
    | putBack => exact absurd rfl hsite
    | due action => cases action <;> exact hnext
  · intro error
    cases site with
    | request => exact nofun
    | putBack => exact absurd rfl hsite
    | due action => cases action <;> exact nofun

theorem keeps_giveBack {action : DueAction} (haction : action = .introduced ∨ action = .regressed) :
    Orderly (giveBack rec action) s := by
  have hdrop : action ≠ .drop := by rcases haction with rfl | rfl <;> exact nofun
  refine keeps_unhide h nofun fun s h => ?_
  refine keeps_quiet rfl rfl (fun _ _ _ => ?_) (fun _ => nofun)
  have hallowed : Allowed s (.shown rec.claim) (.updateRow rec.id (.due action)) := by
    rcases haction with rfl | rfl <;> exact ⟨rec, h.row, h.state, rfl⟩
  exact keeps_then (keeps_settleDue hallowed nofun hdrop) fun _ _ => keeps_notices

theorem keeps_outstay : Orderly (outstay rec) s :=
  keeps_unhide h nofun fun _ h =>
    keeps_settle_ends ⟨rec, h.row, h.state, rfl⟩ nofun nofun (by simp)

theorem keeps_leaveScope (hengine : s.canHide = canHide) :
    Orderly (leaveScope canHide rec) s := by
  cases canHide with
  | false => exact keeps_settleDue ⟨rec, h.row, h.state, .inr ⟨rfl, hengine⟩⟩ nofun nofun
  | true =>
    refine keeps_bind.mpr (keeps_handle.mpr (keeps_ask.mpr
      ⟨⟨rfl, rec, h.row, rfl, h.state, trivial⟩, ?_⟩))
    intro answer _
    have h' := h.after (.unhide (.due .outOfScope) rec.claim) rfl answer
    cases answer with
    | error error => exact keeps_settleDue ⟨rec, h'.row, h.state, .inl rfl⟩ nofun nofun
    | ok answer => exact keeps_settleDue ⟨rec, h'.row, h.state, .inl rfl⟩ nofun nofun

theorem keeps_recordDrop {spec : Option IndexSpec} :
    (recordDrop rec spec).Keeps protocol Ends ⟨s, .dropped rec.claim spec⟩ := by
  refine keeps_bind.mpr (keeps_call ⟨rec, h.row, h.state, spec, rfl⟩ (fun _ _ _ => ?_) (fun _ => nofun))
  refine keeps_ask.mpr ⟨.inr ⟨rec.claim, spec, rfl, rfl⟩, ?_⟩
  rintro (error | ⟨⟩) -
  · exact nofun
  have hnew := World.rowById_updateRow_self h.row (.due .drop)
  refine keeps_ask.mpr ⟨⟨rec.claim, _, hnew, .inl ⟨rfl, rfl⟩⟩, ?_⟩
  rintro (error | ⟨⟩) -
  · exact nofun
  · rfl

theorem keeps_dropDue (hengine : s.canHide = canHide) :
    Orderly (dropDue canHide rec dropped) s := by
  refine keeps_bind.mpr ((keeps_preflight rec rfl).mono ?_)
  rintro (error | check) k ⟨rfl, hcheck⟩
  · exact nofun
  obtain ⟨reads, rfl⟩ := hcheck check rfl
  change (ite _ _ _ : Prog _).Keeps _ _ _
  split
  · rename_i hsafe
    obtain ⟨spec, hspec, hcheck, hnever⟩ := preflight_claimed hsafe
    refine keeps_call ⟨rfl, rec, h.row, rfl, h.state, spec, hspec, hnever⟩ (fun _ _ _ => ?_)
      (fun _ => nofun)
    rw [hcheck, ← hspec]
    exact keeps_value _ (keeps_recordDrop (h.after (.drop .hidden rec.claim) rfl (.ok ())))
  split
  · have hpure {s : World} {phase : Phase}
        (h : Allowed s phase (.updateRow rec.id (.due .refused)))
        (hhid : ∀ claim, phase ≠ .hid claim) :
        (do settleDue rec .refused none; pure dropped : Prog Nat).Keeps protocol Ends ⟨s, phase⟩ :=
      keeps_value _ (keeps_settleDue h hhid nofun)
    cases canHide with
    | true =>
      exact keeps_unhide h nofun fun _ h => hpure ⟨rec, h.row, h.state, .inl rfl⟩ nofun
    | false => exact hpure ⟨rec, h.row, h.state, .inr ⟨rfl, hengine⟩⟩ nofun
  · rename_i hnone
    have habsent := claimed_of_preflight hnone
    exact keeps_value _ (keeps_settleDue ⟨rec, h.row, h.state, rfl, habsent⟩ nofun nofun)

end

theorem uses_judgeDue (pass : PassReads) (rec : Recommendation) (hiddenAt : Int) :
    (judgeDue pass rec hiddenAt).Uses fun op => op.isQuiet = true := by
  unfold judgeDue
  repeat' first
    | exact uses_pure _
    | exact uses_ask.mpr rfl
    | refine Uses.bind ?_ fun _ => ?_
    | split

theorem keeps_dueRow (h : Found s rec .HIDDEN) (hengine : s.canHide = pass.canHide) :
    Orderly (dueRow pass dropped rec) s := by
  unfold dueRow
  split
  · rfl
  rename_i hiddenAt _
  split
  · exact keeps_value _ (keeps_leaveScope h hengine)
  refine keeps_bind.mpr ((keeps_of_quiet (uses_judgeDue pass rec hiddenAt) rfl).mono ?_)
  rintro (error | verdict) k rfl
  · exact nofun
  cases verdict with
  | introduced => exact keeps_value _ (keeps_giveBack h (.inl rfl))
  | outstayed => exact keeps_value _ (keeps_outstay h)
  | observing => rfl
  | regressed => exact keeps_value _ (keeps_giveBack h (.inr rfl))
  | graduated =>
    change (ite _ _ _ : Prog _).Keeps _ _ _
    split
    · exact keeps_dropDue h hengine
    · rfl

end Row

/-! ## Requests -/

section Requests
variable {s : World} (id orgId : String)

theorem owned_some {rec : Recommendation} (h : s.owned id orgId = some rec) :
    s.rowById rec.id = some rec := by
  unfold World.owned at h
  split at h
  · rwa [(World.rowById_some h).2]
  · cases h

theorem keeps_approve : Orderly (approve id orgId) s := by
  refine keeps_read rfl fun owned _ _ => ?_
  split
  · exact nofun
  split
  · exact nofun
  split
  · exact nofun
  refine keeps_call rfl ?_ (fun _ => nofun)
  intro updated _ _
  cases updated with
  | true => rfl
  | false => exact nofun

theorem keeps_answered {id : String} (hallowed : Allowed s phase (.updateRow id patch))
    (hhid : ∀ claim, phase ≠ .hid claim) (hpatch : patch ≠ .due .drop)
    (haction : action.kind = .DROP → action.rollbackToken = none) :
    (do let updated : Bool ← ask (.updateRow id patch)
        if updated then ask (.insertAction action) else .raise notFound : Prog Unit).Keeps protocol
      Ends ⟨s, phase⟩ := by
  refine keeps_call hallowed (fun updated _ _ => ?_) (fun error => ?_)
  · change Keeps _ _ _ (Account.mk _ (phase.next s _ _))
    rw [next_updateRow_ok s phase id hpatch]
    cases updated with
    | true => exact keeps_line haction _
    | false => exact nofun
  · change ∀ claim, phase.next s _ _ ≠ _
    rw [next_updateRow_error s phase id hpatch]
    exact hhid

theorem keeps_recordRollback {rec : Recommendation} (h : Found s rec .DROPPED) :
    (recordRollback rec).Keeps protocol Ends ⟨s, .rebuilt rec.claim⟩ := by
  refine keeps_call ⟨rec.claim, rec, h.row, .inr ⟨rfl, rfl⟩⟩ (fun _ _ _ => ?_) (fun _ => nofun)
  refine keeps_quiet rfl rfl (fun _ _ _ => ?_) (fun _ => nofun)
  exact keeps_answered ⟨rec, h.row, h.state, rfl⟩ nofun nofun (by simp)

theorem keeps_rollback : Orderly (rollback id orgId) s := by
  refine keeps_read rfl fun owned _ howned => ?_
  split
  · exact nofun
  rename_i rec
  split
  · exact nofun
  rename_i hstate
  have h : Found s rec .DROPPED := ⟨owned_some id orgId (gives_ok howned), not_not.mp hstate⟩
  refine keeps_read rfl fun dropActions _ hactions => ?_
  obtain rfl : s.dropActions rec.id = dropActions := gives_ok hactions
  split
  · exact nofun
  rename_i token htoken
  split
  · exact nofun
  rename_i index hindex
  refine keeps_read rfl fun session _ _ => ?_
  split
  · exact nofun
  refine keeps_call ⟨rfl, rec, h.row, rfl, h.state, token, htoken, hindex⟩ (fun outcome _ _ => ?_)
    (fun _ => nofun)
  exact keeps_recordRollback (h.after (.create .undo rec.claim index) rfl (.ok outcome))

theorem keeps_recordUnhide {rec : Recommendation} (hcalm : phase.isCalm = true)
    (hhid : ∀ claim, phase ≠ .hid claim) (h : Allowed s phase (.updateRow rec.id .cancelled)) :
    (recordUnhide rec).Keeps protocol Ends ⟨s, phase⟩ :=
  keeps_quiet rfl hcalm (fun _ _ _ => keeps_answered h hhid nofun (by simp)) (fun _ => hhid)

theorem keeps_unhideRequest : Orderly (unhide id orgId) s := by
  refine keeps_read rfl fun owned _ howned => ?_
  split
  · exact nofun
  rename_i rec
  split
  · exact nofun
  rename_i hstate
  have h : Found s rec .HIDDEN := ⟨owned_some id orgId (gives_ok howned), not_not.mp hstate⟩
  refine keeps_read rfl fun session _ hsession => ?_
  obtain rfl := gives_ok hsession
  split
  · exact nofun
  split
  · exact keeps_unhide h nofun fun _ h =>
      keeps_recordUnhide rfl nofun ⟨rec, h.row, h.state, .inl rfl⟩
  · rename_i hengine
    exact keeps_recordUnhide rfl nofun
      ⟨rec, h.row, h.state, .inr ⟨rfl, Bool.eq_false_iff.mpr hengine⟩⟩

theorem keeps_shortenObserveWindow (days : Option ℚ) :
    Orderly (shortenObserveWindow id orgId days) s := by
  refine keeps_read rfl fun owned _ howned => ?_
  split
  · exact nofun
  rename_i rec
  have hrow := owned_some id orgId (gives_ok howned)
  split
  · rename_i hiddenAt hstate hhiddenAt
    refine keeps_read rfl fun settings _ _ => ?_
    change (ite _ _ _ : Prog _).Keeps _ _ _
    split
    · exact nofun
    split
    · exact nofun
    exact keeps_answered ⟨rec, hrow, hstate, rfl⟩ nofun nofun (by simp)
  · exact nofun

end Requests

/-! ## Loops -/

/-- Rows that are as they were loaded, but for those a loop passes over. -/
def Loaded (skip : List String) (s : World) (rows : List Recommendation) : Prop :=
  ∀ rec ∈ rows, rec.id ∈ skip ∨ s.rowById rec.id = some rec

theorem Loaded.elsewhere {skip : List String} {s : World} {rows : List Recommendation}
    (h : Loaded skip s rows) (helse : Elsewhere ids s s') (hids : ∀ rec ∈ rows, rec.id ∉ ids) :
    Loaded skip s' rows := by
  intro rec hrec
  exact (h rec hrec).imp_right (helse.2 _ (hids rec hrec) _)

theorem keeps_rows {γ : Type} {body : γ → Recommendation → Prog γ} {rows : List Recommendation}
    {s : World} (skip : List String) (carried : γ) (hnodup : (rows.map fun rec => rec.id).Nodup)
    (hloaded : Loaded skip s rows) (hengine : s.canHide = canHide)
    (huses : ∀ carried rec, (body carried rec).Uses (OnRows [rec.id]))
    (hround : ∀ carried, ∀ rec ∈ rows, ∀ s : World, s.canHide = canHide →
      (rec.id ∈ skip ∨ s.rowById rec.id = some rec) →
        Orderly (body carried rec) s) :
    Orderly (eachFrom body carried rows) s := by
  refine keeps_eachFrom (fun _ rest k => k.phase = .idle ∧ k.world.canHide = canHide ∧
    (rest.map fun rec => rec.id).Nodup ∧ Loaded skip k.world rest ∧ ∀ rec ∈ rest, rec ∈ rows)
    (fun _ _ h => h.1) ?_ ⟨rfl, hengine, hnodup, hloaded, fun _ h => h⟩
  rintro carried rec rest ⟨s, phase⟩ ⟨rfl, hengine, hnodup, hloaded, hsub⟩
  obtain ⟨hfresh, hnodup⟩ := List.nodup_cons.mp hnodup
  have hrow := hround carried rec (hsub _ List.mem_cons_self) s hengine
    (hloaded rec List.mem_cons_self)
  refine (keeps_elsewhere hrow (huses carried rec)).mono ?_
  rintro (error | carried) k ⟨hk, helse⟩
  · exact hk
  have hloaded' : Loaded skip s rest := fun row hrow => hloaded row (List.mem_cons_of_mem _ hrow)
  refine ⟨hk, helse.1.trans hengine, hnodup, hloaded'.elsewhere helse ?_,
    fun row hrow => hsub row (List.mem_cons_of_mem _ hrow)⟩
  intro row hrow hid
  rw [List.mem_singleton] at hid
  exact hfresh (List.mem_map.mpr ⟨row, hrow, hid⟩)

/-- Rows as a query lists them: each once, and all in one state. -/
structure Listed (s : World) (state : RecommendationState) (rows : List Recommendation) : Prop where
  nodup : (rows.map fun rec => rec.id).Nodup
  found : ∀ rec ∈ rows, Found s rec state

def Wanted.state : Wanted → RecommendationState
  | .approved | .approvedBuilds => .APPROVED
  | .building => .BUILDING
  | .hidden => .HIDDEN
  | .active => .ACTIVE

section Listed
variable {s : World} {state : RecommendationState} {rows : List Recommendation}

theorem listed_selected (wanted : Wanted) :
    Listed s wanted.state (s.table.rows.filter wanted.selects) := by
  refine ⟨(List.filter_sublist.map _).nodup s.table.ids_nodup, fun rec hrec => ?_⟩
  obtain ⟨hmem, hselects⟩ := List.mem_filter.mp hrec
  refine ⟨World.rowById_of_mem hmem, ?_⟩
  cases wanted with
  | approved | building | hidden => exact of_decide_eq_true hselects
  | approvedBuilds | active => exact of_decide_eq_true (Bool.and_elim_left hselects)

theorem Listed.sublist {rows' : List Recommendation} (h : Listed s state rows)
    (hsub : rows'.Sublist rows) : Listed s state rows' :=
  ⟨(hsub.map _).nodup h.nodup, fun rec hrec => h.found rec (hsub.subset hrec)⟩

theorem Listed.elsewhere (h : Listed s state rows) (helse : Elsewhere ids s s')
    (hids : ∀ rec ∈ rows, rec.id ∉ ids) : Listed s' state rows :=
  ⟨h.nodup, fun rec hrec => ⟨helse.2 _ (hids rec hrec) _ (h.found rec hrec).row,
    (h.found rec hrec).state⟩⟩

theorem keeps_listed {γ : Type} {body : γ → Recommendation → Prog γ} (carried : γ)
    (h : Listed s state rows) (hengine : s.canHide = canHide)
    (huses : ∀ carried rec, (body carried rec).Uses (OnRows [rec.id]))
    (hround : ∀ carried rec s, s.canHide = canHide → Found s rec state →
      Orderly (body carried rec) s) :
    Orderly (eachFrom body carried rows) s := by
  refine keeps_rows [] carried h.nodup (fun rec hrec => .inr (h.found rec hrec).row) hengine huses ?_
  intro carried rec hrec s hengine hrow
  exact hround carried rec s hengine ⟨hrow.resolve_left List.not_mem_nil, (h.found rec hrec).state⟩

end Listed

/-! ## Withdrawals -/

/-- Where a withdrawal leaves the rows: withdrawn ones were approved, others are as before. -/
def Withdrew (s : World) (withdrawn : List String) (s' : World) : Prop :=
  s'.canHide = s.canHide ∧ ∀ id rec, s.rowById id = some rec →
    s'.rowById id = some rec ∨ id ∈ withdrawn ∧ rec.state = .APPROVED

theorem Withdrew.step {s s'' : World} {rec : Recommendation} (h : Withdrew s withdrawn s')
    (hfound : Found s' rec .APPROVED) (helse : Elsewhere [rec.id] s' s'') :
    Withdrew s (rec.id :: withdrawn) s'' := by
  refine ⟨helse.1.trans h.1, fun id row hid => ?_⟩
  rcases h.2 id row hid with hsame | ⟨hmem, happroved⟩
  · by_cases heq : id = rec.id
    · subst heq
      obtain rfl : rec = row := Option.some.inj (hfound.row.symm.trans hsame)
      exact .inr ⟨List.mem_cons_self, hfound.state⟩
    · exact .inl (helse.2 id (by simpa using heq) row hsame)
  · exact .inr ⟨List.mem_cons_of_mem _ hmem, happroved⟩

theorem keeps_hintsFor (state : Withdrawal) (rec : Recommendation) {k : Account}
    (hcalm : k.phase.isCalm = true) :
    (hintsFor state rec).Keeps protocol (fun _ k' => k' = k) k := by
  unfold hintsFor
  split
  · rfl
  · exact keeps_of_quiet (uses_ask.mpr rfl) hcalm

theorem keeps_withdrawRow {state : Withdrawal} {rec : Recommendation} {s : World}
    (h : Found s rec .APPROVED) :
    (withdrawRow watches state rec).Keeps protocol (fun
      | .ok state' => fun k => k.phase = .idle ∧
          (k.world = s ∧ state'.withdrawn = state.withdrawn ∨
            Elsewhere [rec.id] s k.world ∧ state'.withdrawn = rec.id :: state.withdrawn)
      | .error _ => fun k => ∀ claim, k.phase ≠ .hid claim) ⟨s, .idle⟩ := by
  unfold withdrawRow
  split
  · exact ⟨rfl, .inl ⟨rfl, rfl⟩⟩
  refine keeps_bind.mpr ((keeps_hintsFor state rec rfl).mono ?_)
  rintro (error | hints) k rfl
  · exact nofun
  change (ite _ _ _ : Prog _).Keeps _ _ _
  split
  · refine keeps_call ⟨rec, h.row, rfl, h.state⟩ (fun updated _ _ => ?_) (fun _ => nofun)
    refine keeps_call (.inl ⟨rfl, by simp⟩) (fun _ _ _ => ?_) (fun _ => nofun)
    refine ⟨rfl, .inr ⟨?_, rfl⟩⟩
    exact (@elsewhere_effect [rec.id] s (.updateRow rec.id .withdrawn) List.mem_cons_self
      (.ok updated)).trans (@elsewhere_effect _ _ (.insertAction _) trivial (.ok ()))
  · exact ⟨rfl, .inl ⟨rfl, rfl⟩⟩

theorem keeps_withdrawHinted {s : World} (watches : Watches) :
    (withdrawHinted watches).Keeps protocol (fun
      | .ok withdrawn => fun k => k.phase = .idle ∧ Withdrew s withdrawn k.world
      | .error _ => fun k => ∀ claim, k.phase ≠ .hid claim) ⟨s, .idle⟩ := by
  unfold withdrawHinted
  split
  · exact ⟨rfl, rfl, fun _ _ h => .inl h⟩
  refine keeps_quiet rfl rfl (fun approved _ happroved => ?_) (fun _ => nofun)
  obtain rfl := gives_ok happroved
  refine keeps_bind.mpr (keeps_eachFrom (fun state rest k => k.phase = .idle ∧
    Withdrew s state.withdrawn k.world ∧ Listed k.world .APPROVED rest) ?_ ?_ ?_)
  · exact fun _ _ h => ⟨h.1, h.2.1⟩
  · rintro state rec rest ⟨s', phase⟩ ⟨rfl, hwithdrew, hlisted⟩
    have hfound := hlisted.found rec List.mem_cons_self
    refine (keeps_withdrawRow hfound).mono ?_
    rintro (error | state') ⟨s'', phase⟩ hk
    · exact hk
    obtain ⟨rfl, hcase⟩ := hk
    have hrest := hlisted.sublist (List.sublist_cons_self rec rest)
    rcases hcase with ⟨rfl, hsame⟩ | ⟨helse, hnew⟩
    · exact ⟨rfl, hsame ▸ hwithdrew, hrest⟩
    · refine ⟨rfl, hnew ▸ hwithdrew.step hfound helse, hrest.elsewhere helse fun row hmem heq => ?_⟩
      rw [List.mem_singleton] at heq
      exact (List.nodup_cons.mp hlisted.nodup).1 (List.mem_map.mpr ⟨row, hmem, heq⟩)
  · exact ⟨rfl, ⟨rfl, fun _ _ h => .inl h⟩, listed_selected .approved⟩

/-! ## Passes -/

section Passes
variable {s : World}

theorem keeps_applyRow {session : Session} {failed : List Thrown} {rec : Recommendation}
    (hstate : rec.state = .APPROVED) (hengine : s.canHide = session.canHide)
    (hrow : rec.id ∈ withdrawn ∨ s.rowById rec.id = some rec) :
    Orderly (applyRow session watches withdrawn failed rec) s := by
  refine keeps_read rfl fun now _ _ => ?_
  split
  · rfl
  rename_i hskips
  have hrow : s.rowById rec.id = some rec := by
    refine hrow.resolve_left fun hin => hskips ?_
    simp [skipsHide, hin]
  exact keeps_then (keeps_hideRow ⟨hrow, hstate⟩ hengine) fun _ _ => rfl

theorem keeps_hideApproved {approved : List Recommendation} (h : Listed s .APPROVED approved) :
    Orderly (hideApproved approved) s := by
  refine keeps_read rfl fun session _ hsession => ?_
  obtain rfl := gives_ok hsession
  split
  · rfl
  refine keeps_read rfl fun watches _ _ => ?_
  refine keeps_bind.mpr ((keeps_withdrawHinted watches).mono ?_)
  rintro (error | withdrawn) ⟨s', phase⟩ hk
  · exact hk
  obtain ⟨rfl, hengine, hrows⟩ := hk
  refine keeps_read rfl fun _ _ _ => ?_
  refine keeps_bind.mpr ((keeps_rows withdrawn [] h.nodup ?_ hengine
    (fun failed rec => (uses_applyRow rec _ watches withdrawn failed).mono fun _ h => h.1.1) ?_).mono ?_)
  · intro rec hrec
    exact (hrows rec.id rec (h.found rec hrec).row).symm.imp_left And.left
  · intro failed rec hrec s hengine hrow
    exact keeps_applyRow (h.found rec hrec).state hengine hrow
  · rintro (error | failed) k hk
    · exact hk
    · cases failed with
      | nil => exact hk
      | cons error rest => exact fun claim => (show k.phase = .idle from hk).trans_ne nofun

theorem keeps_applyCluster : Orderly applyCluster s := by
  have hselect {s : World} (settings : Settings) :
      (do let approved ← ask (.selectRows .approved)
          if approved.isEmpty || !settings.windowOpen then pure ()
          else hideApproved approved : Prog Unit).Keeps protocol Ends ⟨s, .idle⟩ := by
    refine keeps_read rfl fun approved _ happroved => ?_
    obtain rfl := gives_ok happroved
    split
    · rfl
    exact keeps_hideApproved (listed_selected .approved)
  refine keeps_read rfl fun settings _ _ => ?_
  unfold promoteByScore
  split
  · exact hselect settings
  · exact keeps_call rfl (fun _ _ _ => hselect settings) (fun _ => nofun)

theorem keeps_applyCreates : Orderly applyCreates s := by
  refine keeps_read rfl fun approved _ happroved => ?_
  obtain rfl := gives_ok happroved
  split
  · rfl
  refine keeps_read rfl fun settings _ _ => ?_
  -- urgent builds are some of the approved ones
  have hsub : (if settings.windowOpen then s.table.rows.filter Wanted.approvedBuilds.selects else
      (s.table.rows.filter Wanted.approvedBuilds.selects).filter Recommendation.urgent).Sublist
      (s.table.rows.filter Wanted.approvedBuilds.selects) := by
    split
    · exact List.Sublist.refl _
    · exact List.filter_sublist
  revert hsub
  generalize (if settings.windowOpen then s.table.rows.filter Wanted.approvedBuilds.selects else
    (s.table.rows.filter Wanted.approvedBuilds.selects).filter Recommendation.urgent) = buildable
  intro hsub
  change (ite _ _ _ : Prog _).Keeps _ _ _
  split
  · rfl
  refine keeps_read rfl fun session _ _ => ?_
  split
  · rfl
  exact keeps_listed () ((listed_selected .approvedBuilds).sublist hsub) rfl
    (fun _ rec => (uses_buildRow rec).mono fun _ h => h.1.1) fun _ _ _ _ h => keeps_buildRow h

theorem keeps_settleBuilds : Orderly settleBuilds s := by
  refine keeps_read rfl fun building _ hbuilding => ?_
  obtain rfl := gives_ok hbuilding
  split
  · rfl
  refine keeps_read rfl fun session _ _ => ?_
  exact keeps_listed () (listed_selected .building) rfl
    (fun _ rec => (uses_settleRow rec).mono fun _ h => h.1.1) fun _ _ _ _ h => keeps_settleRow h

theorem keeps_watchRows (pass : PassReads) (h : Listed s .ACTIVE watched) :
    (eachFrom (watchRow pass watched) [] watched).Keeps protocol
      (fun r k => Ends r k ∧ Elsewhere (watched.map fun rec => rec.id) s k.world) ⟨s, .idle⟩ := by
  refine keeps_elsewhere (keeps_listed [] h rfl ?_ fun _ _ _ _ h => keeps_watchRow h)
    (uses_eachFrom ?_ [])
  · exact fun reported rec => (uses_watchRow rec pass watched reported).mono fun _ h => h.1.1
  · intro reported rec hrec
    refine (uses_watchRow rec pass watched reported).mono fun _ h => h.1.1.mono fun id hid => ?_
    rw [List.mem_singleton] at hid
    exact List.mem_map.mpr ⟨rec, hrec, hid.symm⟩

theorem keeps_finalizeRows {settings : Settings} {due : List Recommendation}
    (hdue : Listed s .HIDDEN due) (hwatched : Listed s .ACTIVE watched) :
    Orderly (finalizeRows settings due watched) s := by
  refine keeps_read rfl fun session _ hsession => ?_
  obtain rfl := gives_ok hsession
  split
  · rfl
  refine keeps_read rfl fun watches _ _ => ?_
  refine keeps_bind.mpr ((keeps_withdrawHinted watches).mono ?_)
  rintro (error | withdrawn) ⟨s', phase⟩ hk
  · exact hk
  obtain ⟨rfl, hengine, hrows⟩ := hk
  -- a withdrawn row was approved, so it is neither due nor watched
  have hkept {state : RecommendationState} {rows : List Recommendation} (h : Listed s state rows)
      (hstate : state ≠ .APPROVED) : Listed s' state rows :=
    ⟨h.nodup, fun rec hrec => ⟨(hrows rec.id rec (h.found rec hrec).row).resolve_right fun happroved =>
      hstate ((h.found rec hrec).state.symm.trans happroved.2), (h.found rec hrec).state⟩⟩
  refine keeps_read rfl fun _ _ _ => ?_
  refine keeps_read rfl fun _ _ _ => ?_
  refine keeps_bind.mpr ((keeps_watchRows _ (hkept hwatched nofun)).mono ?_)
  rintro (error | reported) ⟨s'', phase⟩ ⟨hends, helse⟩
  · exact hends
  obtain rfl : phase = .idle := hends
  -- no row is due and watched at once
  have hdue' : Listed s'' .HIDDEN due := by
    refine (hkept hdue nofun).elsewhere helse fun rec hrec hin => ?_
    obtain ⟨row, hmem, hid⟩ := List.mem_map.mp hin
    have hrow := (hwatched.found row hmem).row
    rw [hid, (hdue.found rec hrec).row] at hrow
    obtain rfl : rec = row := Option.some.inj hrow
    cases (hdue.found rec hrec).state.symm.trans (hwatched.found rec hmem).state
  refine keeps_then (keeps_listed 0 hdue' (helse.1.trans hengine) ?_ ?_) fun dropped s => ?_
  · exact fun dropped rec => (uses_dueRow rec _ dropped).mono fun _ h => h.1
  · exact fun _ _ _ hengine h => keeps_dueRow h hengine
  · split
    · rfl
    · exact keeps_note rfl s

theorem keeps_finalizeCluster : Orderly finalizeCluster s := by
  refine keeps_read rfl fun settings _ _ => ?_
  refine keeps_read rfl fun hidden _ hhidden => ?_
  obtain rfl := gives_ok hhidden
  refine keeps_read rfl fun _ _ _ => ?_
  refine keeps_read rfl fun watched _ hwatched => ?_
  obtain rfl := gives_ok hwatched
  refine keeps_read rfl fun listed _ _ => ?_
  split
  · rfl
  exact keeps_finalizeRows ((listed_selected .hidden).sublist List.filter_sublist)
    (listed_selected .active)

theorem keeps_task (task : Task) : Orderly task.program s := by
  cases task with
  | approve id orgId => exact keeps_approve id orgId
  | rollback id orgId => exact keeps_rollback id orgId
  | unhide id orgId => exact keeps_unhideRequest id orgId
  | shortenObserveWindow id orgId days => exact keeps_shortenObserveWindow id orgId days
  | applyCluster => exact keeps_applyCluster
  | applyCreates => exact keeps_applyCreates
  | settleBuilds => exact keeps_settleBuilds
  | finalizeCluster => exact keeps_finalizeCluster

end Passes

end Indexterity.Service
