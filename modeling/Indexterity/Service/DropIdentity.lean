import Indexterity.Service.Records

/-!
# Service: the index a row stands for

A row holds an index by its name, and a finalize pass drops what lives under the name, on
PostgreSQL in whichever table of the schema. Whether that is still the index the row was hidden
for, or the one it built, is asked nowhere: the preflight of a hidden row's drop looks at what the
index is now, and the post-build watch does not look. So the drops of a pass take the rows' own
indexes where those are the ones that live under the names as the pass begins.
-/

namespace Indexterity.Service

open Library Program

/-! ## Own indexes -/

def SameIndex (own index : IndexSpec) : Prop := { own with hidden := index.hidden } = index
  deriving Decidable

variable {a b index : IndexSpec} {op : Op} {claim : Claim} {p : Place}

theorem SameIndex.trans {c : IndexSpec} (hab : SameIndex a b) (hbc : SameIndex b c) :
    SameIndex a c := by
  rw [SameIndex, ← hbc, ← hab]

theorem SameIndex.symm (h : SameIndex a b) : SameIndex b a := by
  rw [SameIndex, ← h]

theorem SameIndex.isNeverDrop (h : SameIndex a b) : isNeverDrop a = isNeverDrop b := by
  rw [← h]
  rfl

abbrev Origins := String → Option IndexSpec

/-- A row written as HIDDEN stands for what lives under its name, and one whose build is
answered for what it builds. -/
def Origins.heard (o : Origins) (s : World) : (op : Op) → Except Thrown op.Ans → Origins
  | .updateRow id (.hidden _), .ok _ =>
    Function.update o id ((s.rowById id).bind fun rec => s.claimed rec.claim)
  | .create .build claim spec, .ok _ => Function.update o claim.id (some spec)
  | _, _ => o

def Origins.after (o : Origins) (c : Call) : Origins := o.heard c.1 c.2.1 (c.1.answer c.2.1 c.2.2)

/-- What a drop takes: the indexes of its name, wherever that stands. -/
def Call.taken (c : Call) : List (Claim × Place × IndexSpec) :=
  match c.2.1, c.2.2.error with
  | .drop _ claim, none =>
    (c.1.places claim).filterMap fun p => (c.1.indexAt p).map fun index => (claim, p, index)
  | _, _ => []

abbrev Call.Takes (c : Call) (claim : Claim) (p : Place) (index : IndexSpec) : Prop :=
  (claim, p, index) ∈ c.taken

theorem Call.Takes.drop {c : Call} {claim : Claim} {p : Place} {index : IndexSpec}
    (h : c.Takes claim p index) :
    ∃ site, c.2.1 = .drop site claim ∧ p ∈ c.1.places claim ∧ c.1.indexAt p = some index := by
  obtain ⟨s, op, reply⟩ := c
  unfold Call.Takes Call.taken at h
  dsimp only at h ⊢
  split at h
  · obtain ⟨p', hp, hmap⟩ := List.mem_filterMap.mp h
    obtain ⟨index', hindex, heq⟩ := Option.map_eq_some_iff.mp hmap
    obtain ⟨rfl, hplace⟩ := Prod.mk.inj heq
    obtain ⟨rfl, rfl⟩ := Prod.mk.inj hplace
    exact ⟨_, rfl, hp, hindex⟩
  · cases h

/-- The index is the one its row stands for, and not a protected one unless the row retires a
superseded index. -/
structure TakesOwn (o : Origins) (s : World) (claim : Claim) (index : IndexSpec) : Prop where
  own : ∃ own, o claim.id = some own ∧ SameIndex own index
  expendable : isNeverDrop index = true →
    ∃ rec, s.rowById claim.id = some rec ∧ rec.target.supersededBy.isSome = true

def OwnDrops : Origins → List Call → Prop
  | _, [] => True
  | o, c :: rest =>
    (∀ claim p index, c.Takes claim p index → TakesOwn o c.1 claim index) ∧
      OwnDrops (o.after c) rest

/-- Each event is as wanted in the state it finds, for what the rows stand for by then. -/
def AlongOrigins (wanted : Origins → World → Event → Prop) : Origins → World → List Event → Prop
  | _, _, [] => True
  | o, s, event :: events =>
    wanted o s event ∧
      AlongOrigins wanted ((event.calls s).foldl Origins.after o) (event.after s) events

def Recommendation.HoldsIndex (rec : Recommendation) : Prop :=
  rec.state = .HIDDEN ∨ rec.state = .ACTIVE ∧ rec.buildBaseline.isSome = true

/-- What lives under a row's name, if anything, is its own. Only a hidden row's drop is kept
from a protected index, and only by what its own collection has under the name. -/
def StandsForOwn (o : Origins) (s : World) (rec : Recommendation) : Prop :=
  ∀ p ∈ s.places rec.claim, ∀ index, s.indexAt p = some index →
    (∃ own, o rec.id = some own ∧ SameIndex own index) ∧
      (rec.state = .ACTIVE ∨ p ≠ rec.claim.place → isNeverDrop index = true →
        rec.target.supersededBy.isSome = true)

variable {o : Origins}

theorem along_origins_imp {wanted wanted' : Origins → World → Event → Prop}
    (h : ∀ o s event, wanted o s event → wanted' o s event) {s : World} {events : List Event}
    (halong : AlongOrigins wanted o s events) : AlongOrigins wanted' o s events := by
  induction events generalizing o s with
  | nil => trivial
  | cons event events ih => exact ⟨h o s event halong.1, ih halong.2⟩

/-! ## Within a finalize pass -/

/-- A call that neither hides, builds, undoes a drop nor asks after a build. -/
structure Op.OnlyDrops (op : Op) : Prop where
  hides : op.role ≠ some .hides
  undoes : op.role ≠ some .undoes
  builds : op.role ≠ some .builds
  settles : op.role ≠ some .settles

theorem Op.OnlyDrops.no_create (h : op.OnlyDrops) (site : CreateSite) (claim : Claim)
    (spec : IndexSpec) : op ≠ .create site claim spec := by
  rintro rfl
  cases site with
  | undo => exact h.undoes rfl
  | build => exact h.builds rfl

theorem Op.OnlyDrops.heard (h : op.OnlyDrops) (o : Origins) (s : World)
    (answer : Except Thrown op.Ans) : o.heard s op answer = o := by
  cases op with
  | updateRow id patch =>
    cases patch with
    | hidden columns => exact absurd rfl h.hides
    | _ => cases answer <;> rfl
  | create site claim spec => exact absurd rfl (h.no_create site claim spec)
  | _ => cases answer <;> rfl

def Phase.isMaking : Phase → Bool
  | .made _ _ | .measured _ _ => true
  | _ => false

variable {phase : Phase} {calls : List Call} {event : Event}

theorem making_next {s : World} (h : phase.isMaking = false) (hop : op.OnlyDrops)
    (answer : Except Thrown op.Ans) : (phase.next s op answer).isMaking = false := by
  have hstep := phaseStep_next s phase op answer
  generalize phase.next s op answer = next at hstep ⊢
  cases hstep with
  | stays => exact h
  | measured heq =>
    subst heq
    cases h
  | built => exact absurd rfl (hop.no_create _ _ _)
  | ready => exact absurd rfl hop.settles
  | _ => rfl

/-- What a finalize pass has left alone since it began: the indexes it has not dropped, and
the rows whose indexes it may drop. -/
structure Since (s : World) (k : Account) : Prop where
  sharers : k.world.sharers = s.sharers
  indexes : ∀ p index, k.world.indexAt p = some index →
    ∃ before, s.indexAt p = some before ∧ SameIndex before index
  rows : ∀ id rec, k.world.rowById id = some rec → rec.HoldsIndex →
    ∃ before, s.rowById id = some before ∧ before.HoldsIndex ∧ before.claim = rec.claim ∧
      before.state = rec.state ∧ before.target.supersededBy = rec.target.supersededBy
  phase : k.phase.isMaking = false

theorem apply_supersededBy (patch : Patch) (rec : Recommendation) :
    (patch.apply rec).target.supersededBy = rec.target.supersededBy := by
  cases patch with
  | due action => cases action <;> rfl
  | _ => rfl

theorem holdsIndex_of_apply {s : World} {rec : Recommendation} {patch : Patch}
    (h : PatchAllowed s phase rec patch) (hmaking : phase.isMaking = false)
    (hhidden : ∀ columns, patch ≠ .hidden columns) (hafter : (patch.apply rec).HoldsIndex) :
    rec.HoldsIndex ∧ (patch.apply rec).state = rec.state := by
  cases patch with
  | hidden columns => exact absurd rfl (hhidden columns)
  | built builtAt writes =>
    obtain ⟨-, rfl⟩ | ⟨-, rfl⟩ := h <;> cases hmaking
  | shortened days => exact ⟨.inl h.1, rfl⟩
  | graduated =>
    obtain hstate | ⟨-, hbaseline⟩ := hafter
    · cases h.1.symm.trans hstate
    · simp [Patch.apply, Recommendation.buildBaseline] at hbaseline
  | due action =>
    cases action with
    | observing => exact h.elim
    | waiting => exact h.elim
    | _ => obtain hstate | ⟨hstate, -⟩ := hafter <;> cases hstate
  | _ => obtain hstate | ⟨hstate, -⟩ := hafter <;> cases hstate

theorem since_preserved (s : World) : Preserved (Since s) fun _ op _ => op.OnlyDrops := by
  intro k op reply h hallowed hop
  refine ⟨(leaves_effect _ op _).sharers.trans h.sharers, ?_, ?_, making_next h.phase hop _⟩
  · intro p index hindex
    obtain ⟨before, hbefore, hsame⟩ := indexAt_before hop.no_create hindex
    obtain ⟨first, hfirst, hsame'⟩ := h.indexes p before hbefore
    exact ⟨first, hfirst, hsame'.trans hsame⟩
  · intro id rec hrow hholds
    cases rowStep_effect hrow with
    | same hold => exact h.rows id rec hold hholds
    | @patched row patch hold hop' =>
      subst hop'
      by_cases happroved : patch = .approved
      · subst happroved
        obtain hstate | ⟨hstate, -⟩ := hholds <;> cases hstate
      obtain ⟨row', hrow', hpatch⟩ := allowed_updateRow hallowed happroved
      obtain rfl : row = row' := Option.some.inj (hold.symm.trans hrow')
      have hhidden (columns : HiddenColumns) : patch ≠ .hidden columns := by
        rintro rfl
        exact hop.hides rfl
      obtain ⟨hheld, hstate⟩ := holdsIndex_of_apply hpatch h.phase hhidden hholds
      obtain ⟨before, hbefore, hholds', hclaim, hstate', hby⟩ := h.rows id row hold hheld
      exact ⟨before, hbefore, hholds', hclaim.trans (apply_claim patch row).symm,
        hstate'.trans hstate.symm, hby.trans (apply_supersededBy patch row).symm⟩
    | promoted threshold hold hop' hproposed => obtain hstate | ⟨hstate, -⟩ := hholds <;> cases hstate
    | filed source name hop' => obtain hstate | ⟨hstate, -⟩ := hholds <;> cases hstate

theorem since_refl (s : World) : Since s ⟨s, .idle⟩ :=
  ⟨rfl, fun _ index h => ⟨index, h, rfl⟩, fun _ rec h hholds => ⟨rec, h, hholds, rfl, rfl, rfl⟩, rfl⟩

section Pass
variable {s : World} {replies : List Reply} {c : Call}

variable (hc : c ∈ (Event.turn .finalizeCluster replies).calls s)
include hc

theorem onlyDrops_of_mem_calls :
    c.2.1.OnlyDrops :=
  have hrole := inRole_of_mem_calls hc
  ⟨hrole.ne nofun, hrole.ne nofun, hrole.ne nofun, hrole.ne nofun⟩

/-- A drop of a finalize pass is for a row that held its index as the pass began, and takes
what lived under its name then. What a hidden row's drop takes of its own collection has passed
the preflight. -/
theorem finds_of_takes (htakes : c.Takes claim p index) :
    ∃ rec, s.rowById claim.id = some rec ∧ rec.HoldsIndex ∧ rec.claim = claim ∧
      (∃ first, p ∈ s.places claim ∧ s.indexAt p = some first ∧ SameIndex first index) ∧
      (∃ row, c.1.rowById claim.id = some row ∧
        row.target.supersededBy = rec.target.supersededBy) ∧
      ((rec.state = .ACTIVE ∨ p ≠ claim.place) ∨
        (isNeverDrop index = true → rec.target.supersededBy.isSome = true)) := by
  obtain ⟨phase, hsince, hallowed⟩ := (since_preserved s).calls (since_refl s)
    (fun c hc => onlyDrops_of_mem_calls hc) c hc
  obtain ⟨site, hop, hp, hindex⟩ := htakes.drop
  rw [hop] at hallowed
  rw [World.places, hsince.sharers] at hp
  obtain ⟨first, hfirst, hsame⟩ := hsince.indexes p index hindex
  cases site with
  | hidden =>
    obtain ⟨-, row, hrow, hclaim, hstate, spec, hspec, hexpendable⟩ := hallowed
    obtain ⟨rec, hrec, hholds, hclaim', hstate', hby⟩ :=
      hsince.rows claim.id row hrow (.inl hstate)
    refine ⟨rec, hrec, hholds, hclaim'.trans hclaim, ⟨first, hp, hfirst, hsame⟩,
      ⟨row, hrow, hby.symm⟩, ?_⟩
    by_cases hplace : p = claim.place
    · subst hplace
      obtain rfl : index = spec := Option.some.inj (hindex.symm.trans hspec)
      exact .inr (by rwa [hby])
    · exact .inl (.inr hplace)
  | built =>
    obtain ⟨-, row, hrow, hclaim, hstate, hbaseline⟩ := hallowed
    obtain ⟨rec, hrec, hholds, hclaim', hstate', hby⟩ :=
      hsince.rows claim.id row hrow (.inr ⟨hstate, hbaseline⟩)
    exact ⟨rec, hrec, hholds, hclaim'.trans hclaim, ⟨first, hp, hfirst, hsame⟩,
      ⟨row, hrow, hby.symm⟩, .inl (.inl (hstate'.trans hstate))⟩

theorem takesOwn_of_stands (htakes : c.Takes claim p index)
    (hstands : ∀ rec ∈ s.table.rows, rec.HoldsIndex → StandsForOwn o s rec) :
    TakesOwn o c.1 claim index := by
  obtain ⟨rec, hrec, hholds, rfl, ⟨first, hp, hfirst, hsame⟩, ⟨row, hrow, hby⟩, hchecked⟩ :=
    finds_of_takes hc htakes
  obtain ⟨⟨own, hown, hsame'⟩, hexpendable⟩ :=
    hstands rec (World.rowById_some hrec).1 hholds p hp first hfirst
  refine ⟨⟨own, hown, hsame'.trans hsame⟩, fun hnever => ⟨row, hrow, ?_⟩⟩
  rw [hby]
  obtain hasked | hchecked := hchecked
  · exact hexpendable hasked (hsame.isNeverDrop ▸ hnever)
  · exact hchecked hnever

/-- The index a drop takes was the row's own as the pass began, and expendable. -/
theorem stands_of_takesOwn (htakes : c.Takes claim p index) (h : TakesOwn o c.1 claim index) :
    ∃ rec first, s.rowById claim.id = some rec ∧ s.indexAt p = some first ∧
      (∃ own, o rec.id = some own ∧ SameIndex own first) ∧
      (isNeverDrop first = true → rec.target.supersededBy.isSome = true) := by
  obtain ⟨rec, hrec, -, -, ⟨first, -, hfirst, hsame⟩, ⟨row, hrow, hby⟩, -⟩ :=
    finds_of_takes hc htakes
  obtain ⟨own, hown, hsame'⟩ := h.own
  rw [← (World.rowById_some hrec).2] at hown
  refine ⟨rec, first, hrec, hfirst, ⟨own, hown, hsame'.trans hsame.symm⟩, fun hnever => ?_⟩
  obtain ⟨row', hrow', hsuperseded⟩ := h.expendable (hsame.isNeverDrop ▸ hnever)
  obtain rfl : row = row' := Option.some.inj (hrow.symm.trans hrow')
  rwa [← hby]

end Pass

/-! ## Whole runs -/

theorem ownDrops_iff (h : ∀ c ∈ calls, c.2.1.OnlyDrops) :
    OwnDrops o calls ↔
      ∀ c ∈ calls, ∀ claim p index, c.Takes claim p index → TakesOwn o c.1 claim index := by
  induction calls with
  | nil => simp [OwnDrops]
  | cons c rest ih =>
    obtain ⟨hc, hrest⟩ := List.forall_mem_cons.mp h
    rw [OwnDrops, Origins.after, hc.heard, ih hrest, List.forall_mem_cons]

theorem ownDrops_of_no_takes (h : ∀ c ∈ calls, ∀ claim p index, ¬ c.Takes claim p index) :
    OwnDrops o calls := by
  induction calls generalizing o with
  | nil => trivial
  | cons c rest ih =>
    obtain ⟨hc, hrest⟩ := List.forall_mem_cons.mp h
    exact ⟨fun claim p index htakes => absurd htakes (hc claim p index), ih hrest⟩

theorem finalize_of_takes {s : World} {c : Call} (hc : c ∈ event.calls s)
    (htakes : c.Takes claim p index) : ∃ replies, event = .turn .finalizeCluster replies := by
  cases event with
  | turn task replies =>
    obtain ⟨site, hop, -⟩ := htakes.drop
    have hrole := inRole_of_mem_calls hc
    rw [hop] at hrole
    cases task with
    | finalizeCluster => exact ⟨replies, rfl⟩
    | _ => exact absurd rfl (hrole.ne (by simp [Task.role]))
  | jobRun job succeeds => cases hc
  | outside database collection live invalid => cases hc

/-- A finalize pass begins with every row that holds an index standing for its own. -/
def BeginsWithOwn (o : Origins) (s : World) : Event → Prop
  | .turn .finalizeCluster _ => ∀ rec ∈ s.table.rows, rec.HoldsIndex → StandsForOwn o s rec
  | _ => True

theorem ownDrops_of_begins {s : World} (h : BeginsWithOwn o s event) :
    OwnDrops o (event.calls s) := by
  by_cases hfinalize : ∃ replies, event = .turn .finalizeCluster replies
  · obtain ⟨replies, rfl⟩ := hfinalize
    exact (ownDrops_iff fun c hc => onlyDrops_of_mem_calls hc).mpr
      fun c hc claim p index htakes => takesOwn_of_stands hc htakes h
  · exact ownDrops_of_no_takes fun c hc claim p index htakes =>
      hfinalize (finalize_of_takes hc htakes)

/-- What the drops of an event take was the rows' own as it began, and expendable. -/
def DropsForOwn (o : Origins) (s : World) (event : Event) : Prop :=
  ∀ c ∈ event.calls s, ∀ claim p index, c.Takes claim p index →
    ∃ rec first, s.rowById claim.id = some rec ∧ s.indexAt p = some first ∧
      (∃ own, o rec.id = some own ∧ SameIndex own first) ∧
      (isNeverDrop first = true → rec.target.supersededBy.isSome = true)

theorem dropsForOwn_of_ownDrops {s : World} (h : OwnDrops o (event.calls s)) :
    DropsForOwn o s event := by
  intro c hc claim p index htakes
  obtain ⟨replies, rfl⟩ := finalize_of_takes hc htakes
  exact stands_of_takesOwn hc htakes
    ((ownDrops_iff fun c hc => onlyDrops_of_mem_calls hc).mp h c hc claim p index htakes)

/-- Every drop of a run takes an index of its row's own if each finalize pass begins with the
rows standing for their own; and where it does, what is dropped was so as its pass began. -/
theorem drops_take_own (o : Origins) (s : World) (events : List Event) :
    (AlongOrigins BeginsWithOwn o s events →
      AlongOrigins (fun o s event => OwnDrops o (event.calls s)) o s events) ∧
    (AlongOrigins (fun o s event => OwnDrops o (event.calls s)) o s events →
      AlongOrigins DropsForOwn o s events) :=
  ⟨along_origins_imp fun _ _ _ => ownDrops_of_begins,
    along_origins_imp fun _ _ _ => dropsForOwn_of_ownDrops⟩

theorem standsForOwn_single {o : Origins} {s : World} {row : Recommendation} {index : IndexSpec}
    (hrows : s.table.rows = [row]) (halone : s.sharers = fun _ => []) (hindex : s.claimed row.claim = some index)
    (hown : o row.id = some index) (hnever : isNeverDrop index = false) :
    ∀ rec ∈ s.table.rows, rec.HoldsIndex → StandsForOwn o s rec := by
  intro rec hrec _ p hp index' hindex'
  obtain rfl : rec = row := List.mem_singleton.mp (hrows ▸ hrec)
  rw [World.places, halone] at hp
  obtain rfl : p = rec.claim.place := List.mem_singleton.mp hp
  obtain rfl : index = index' := Option.some.inj (hindex.symm.trans hindex')
  refine ⟨⟨index, hown, rfl⟩, fun _ hnever' => ?_⟩
  cases hnever.symm.trans hnever'

def readingOn (day ops micros : Int) : LatencyReading :=
  ⟨⟨some (day * DAY_MS), some (day * DAY_MS), some 1, some 0⟩, ops, micros, ops, micros⟩

def quietReply : Reply := { lateReply with readings := [readingOn 0 0 0, readingOn 50 0 0] }

def promptly (task : Task) : Event :=
  .turn task (List.replicate 16 { plainReply with latency := ⟨1, 1⟩ })

theorem applied_drop_own :
    AlongOrigins (fun o s event => OwnDrops o (event.calls s)) (fun _ => none) approvedWorld
      [promptly .applyCluster, .turn .finalizeCluster (List.replicate 19 quietReply)] := by
  refine (drops_take_own (fun _ => none) approvedWorld [promptly .applyCluster,
    .turn .finalizeCluster (List.replicate 19 quietReply)]).1 ⟨trivial, ?_, trivial⟩
  refine @standsForOwn_single _ _ ((Patch.hidden ⟨0, 7, some ⟨1, 1⟩, none⟩).apply
    (plainRow .DROP_UNUSED .APPROVED)) hiddenIndex ?_ rfl ?_ ?_ ?_ <;> decide

/-! ## Names that changed their meaning -/

def slowReply : Reply :=
  { lateReply with readings := [readingOn 0 0 0, readingOn 50 10000 10000000] }

def replacement (unique : Bool) : IndexSpec := { plainIndex "a_1" [⟨"b", .asc⟩] with unique }

/-- A task runs to its end, and somebody then puts another index in the place of its row's. -/
def replacedAfter (task : Task) (unique : Bool) : List Event :=
  [promptly task, .outside "d" "c" [replacement unique] []]

theorem not_ownDrops {o : Origins} {s : World} {replies : List Reply} {claim : Claim} {p : Place}
    {index own : IndexSpec} (n : Nat)
    (hn : n < ((Event.turn .finalizeCluster replies).calls s).length)
    (htakes : (((Event.turn .finalizeCluster replies).calls s).get ⟨n, hn⟩).Takes claim p index)
    (hown : o claim.id = some own) (hne : ¬ SameIndex own index) :
    ¬ OwnDrops o ((Event.turn .finalizeCluster replies).calls s) := by
  intro h
  obtain ⟨own', hown', hsame⟩ := ((ownDrops_iff fun c hc => onlyDrops_of_mem_calls hc).mp h _
    (List.get_mem _ ⟨n, hn⟩) claim p index htakes).own
  obtain rfl : own = own' := Option.some.inj (hown.symm.trans hown')
  exact hne hsame

/-- The index of a hidden row is replaced within its window, and the pass behind it drops the
new one. A built index is replaced by a unique one, and a slow window drops that. -/
theorem replaced_index_dropped :
    ¬ AlongOrigins (fun o s event => OwnDrops o (event.calls s)) (fun _ => none) approvedWorld
      (replacedAfter .applyCluster false ++
        [.turn .finalizeCluster (List.replicate 19 quietReply)]) ∧
    ¬ AlongOrigins (fun o s event => OwnDrops o (event.calls s)) (fun _ => none) buildWorld
      (replacedAfter .applyCreates true ++
        [.turn .finalizeCluster (List.replicate 16 slowReply)]) ∧
    isNeverDrop (replacement true) = true := by
  refine ⟨fun h => ?_, fun h => ?_, rfl⟩
  · refine @not_ownDrops _ _ _ (plainRow .DROP_UNUSED .APPROVED).claim ("d", "c", "a_1") (replacement false)
      hiddenIndex 14 ?_ ?_ ?_ ?_ h.2.2.1 <;> decide +kernel
  · refine @not_ownDrops _ _ _ (plainRow .CREATE .APPROVED).claim ("d", "c", "a_1") (replacement true)
      (plainIndex "a_1" [⟨"a", .asc⟩]) 10 ?_ ?_ ?_ ?_ h.2.2.1 <;> decide +kernel

end Indexterity.Service
