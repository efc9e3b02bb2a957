import Indexterity.Service.Sequence

/-!
# Service: what a call leaves behind

What a call adds to the log, the trail and the ROI rows, and what it makes of the index in
one place.
-/

namespace Indexterity.Service

open Library Program

/-! ## Records -/

def World.entry (s : World) : (op : Op) → Except Thrown op.Ans → Option (ExecutorCall × Claim)
  | .hide claim, .ok _ => (s.claimed claim).map fun spec => (.hide spec, claim)
  | .unhide site claim, .ok _ => some (.unhide site, claim)
  | .drop site claim, .ok _ => (s.claimed claim).map fun spec => (.drop site spec, claim)
  | .create site claim spec, .ok .BUILT => some (.create site spec, claim)
  | _, _ => none

theorem log_effect (s : World) (op : Op) (answer : Except Thrown op.Ans) :
    (s.effect op answer).log = s.log ++ (s.entry op answer).toList := by
  cases answer with
  | error error =>
    cases op <;> exact (List.append_nil _).symm
  | ok answer =>
    cases op with
    | hide claim =>
      change (s.hidden claim).log = _ ++ ((s.claimed claim).map _).toList
      unfold World.hidden
      cases s.claimed claim with
      | none => exact (List.append_nil _).symm
      | some spec => rfl
    | drop site claim => rfl
    | unhide site claim => rfl
    | create site claim spec =>
      cases answer with
      | BUILT =>
        change (s.created site claim spec).log = _
        unfold World.created
        split <;> rfl
      | SCHEDULED => exact (List.append_nil _).symm
    | settleBuild claim =>
      obtain ⟨settlement, _ | _⟩ := answer <;> exact (List.append_nil _).symm
    | insertRetirement rec indexName => cases answer <;> exact (List.append_nil _).symm
    | _ => exact (List.append_nil _).symm

variable {op : Op}

inductive Logs (s : World) : (op : Op) → Except Thrown op.Ans → ExecutorCall × Claim → Prop where
  | hide {claim hiddenAt spec} : Logs s (.hide claim) (.ok hiddenAt) (.hide spec, claim)
  | unhide {site claim value} : Logs s (.unhide site claim) (.ok value) (.unhide site, claim)
  | drop {site claim value spec} (h : s.claimed claim = some spec) :
      Logs s (.drop site claim) (.ok value) (.drop site spec, claim)
  | create {site claim spec} : Logs s (.create site claim spec) (.ok .BUILT) (.create site spec, claim)

variable {answer : Except Thrown op.Ans}

theorem logs_of_entry {s : World} {entry : ExecutorCall × Claim}
    (h : s.entry op answer = some entry) : Logs s op answer entry := by
  unfold World.entry at h
  split at h
  · obtain ⟨spec, -, rfl⟩ := Option.map_eq_some_iff.mp h
    exact .hide
  · cases h
    exact .unhide
  · obtain ⟨spec, hspec, rfl⟩ := Option.map_eq_some_iff.mp h
    exact .drop hspec
  · cases h
    exact .create
  · cases h

theorem roi_effect (s : World) (h : ∀ metric, op ≠ .insertRoi metric)
    (answer : Except Thrown op.Ans) : (s.effect op answer).roi = s.roi := by
  cases op with
  | insertRoi metric => exact absurd rfl (h metric)
  | insertAction action => cases answer <;> rfl
  | _ => exact ((leaves_effect s _ answer).told rfl).2

theorem actions_effect (s : World) (op : Op) (answer : Except Thrown op.Ans) :
    s.actions <+: (s.effect op answer).actions := by
  cases op with
  | insertAction action =>
    cases answer with
    | ok answer => exact List.prefix_append _ _
    | error error => exact List.prefix_rfl
  | insertRoi metric => cases answer <;> exact List.prefix_rfl
  | _ => exact ((leaves_effect s _ answer).told rfl).1 ▸ List.prefix_rfl

/-! ## Rows -/

theorem apply_claim (patch : Patch) (rec : Recommendation) : (patch.apply rec).claim = rec.claim := by
  cases patch with
  | due action => cases action <;> rfl
  | _ => rfl

inductive RowStep (s : World) (op : Op) (id : String) : Recommendation → Prop where
  | same {rec : Recommendation} (hrow : s.rowById id = some rec) : RowStep s op id rec
  | patched {rec : Recommendation} (patch : Patch) (hrow : s.rowById id = some rec)
      (hop : op = .updateRow id patch) : RowStep s op id (patch.apply rec)
  | promoted {rec : Recommendation} (threshold : Int) (hrow : s.rowById id = some rec)
      (hop : op = .promoteByScore threshold) (hstate : rec.state = .PROPOSED) :
      RowStep s op id (Patch.approved.apply rec)
  | filed (source : Recommendation) (name : String) (hop : op = .insertRetirement source name) :
      RowStep s op id (retirement id source name)

variable {id : String} {rec : Recommendation}

theorem rowStep_updateRow {s : World} {other : String} {patch : Patch}
    (h : (s.updateRow other patch).rowById id = some rec) :
    RowStep s (.updateRow other patch) id rec := by
  rw [World.rowById_updateRow] at h
  obtain ⟨before, hbefore, rfl⟩ := Option.map_eq_some_iff.mp h
  split
  · rename_i heq
    obtain rfl : id = other := (World.rowById_some hbefore).2.symm.trans heq
    exact .patched patch hbefore rfl
  · exact .same hbefore

theorem rowStep_promote {s : World} {threshold : Int}
    (h : (s.promote threshold).rowById id = some rec) :
    RowStep s (.promoteByScore threshold) id rec := by
  rw [World.rowById, World.promote, Table.find_modify] at h
  obtain ⟨before, hbefore, rfl⟩ := Option.map_eq_some_iff.mp h
  split
  · rename_i hpromotes
    refine .promoted threshold hbefore rfl ?_
    simp only [promotes, Bool.and_eq_true, decide_eq_true_eq] at hpromotes
    exact hpromotes.1.1.1
  · exact .same hbefore

theorem rowStep_insert {s : World} {newId name : String} {source : Recommendation}
    (h : (s.table.insert (retirement newId source name)).find id = some rec) :
    RowStep s (.insertRetirement source name) id rec := by
  unfold Table.insert at h
  split at h
  · exact .same h
  · rw [Table.find, List.find?_append, List.find?_singleton] at h
    cases hold : s.table.find id with
    | some before =>
      rw [show s.table.rows.find? _ = _ from hold] at h
      exact .same (hold.trans h)
    | none =>
      rw [show s.table.rows.find? _ = _ from hold, Option.none_or] at h
      split at h
      · rename_i hid
        obtain rfl := Option.some.inj h
        obtain rfl : newId = id := beq_iff_eq.mp hid
        exact .filed source name rfl
      · cases h

theorem rowStep_effect {s : World} (h : (s.effect op answer).rowById id = some rec) :
    RowStep s op id rec := by
  cases hwrites : op.writesRows with
  | false =>
    rw [rowById_effect s hwrites] at h
    exact .same h
  | true =>
    cases answer with
    | error error =>
      rw [effect_error] at h
      exact .same h
    | ok answer =>
      cases op with
      | updateRow other patch => exact rowStep_updateRow h
      | promoteByScore threshold => exact rowStep_promote h
      | insertRetirement source name =>
        cases answer with
        | none => exact .same h
        | some newId => exact rowStep_insert h
      | _ => cases hwrites

theorem rowById_kept {s : World} (hrow : s.rowById id = some rec) (hstate : rec.state ≠ .PROPOSED)
    (hop : ∀ patch, op ≠ .updateRow id patch) (answer : Except Thrown op.Ans) :
    (s.effect op answer).rowById id = some rec := by
  obtain hsame | ⟨patch, -, heq | ⟨-, hproposed, -⟩, -⟩ := rowById_after hrow op answer
  · exact hsame
  · exact absurd heq (hop patch)
  · exact absurd hproposed hstate

/-! ## Places -/

theorem place_mem_places (s : World) (claim : Claim) : claim.place ∈ s.places claim :=
  List.mem_cons_self

section Names
variable (live : List IndexSpec) (name other : String)

theorem specNamed_setHidden (hidden : Bool) :
    specNamed (setHidden hidden live name) other =
      if other = name then (specNamed live other).map fun index => { index with hidden }
      else specNamed live other := by
  have hsame (index : IndexSpec) :
      (if index.name = name then { index with hidden } else index).name = index.name := by
    split <;> rfl
  induction live with
  | nil => exact (ite_self none).symm
  | cons index live ih =>
    rw [specNamed, setHidden, List.map_cons, List.find?_cons, hsame]
    rw [specNamed, List.find?_cons]
    cases hname : index.name == other with
    | false => exact ih
    | true =>
      obtain rfl := beq_iff_eq.mp hname
      by_cases heq : index.name = name <;> simp [heq]

theorem specNamed_dropIndex :
    specNamed (dropIndex live name) other = if other = name then none else specNamed live other := by
  rw [specNamed, dropIndex, List.find?_filter]
  split
  · rename_i heq
    refine List.find?_eq_none.mpr fun index _ => ?_
    simp [heq]
  · rename_i hne
    congr 1
    funext index
    by_cases hname : index.name = other
    · simp [hname, hne]
    · simp [hname]

theorem specNamed_append (spec : IndexSpec) :
    specNamed (live ++ [spec]) other =
      (specNamed live other).or (if other = spec.name then some spec else none) := by
  by_cases hname : spec.name = other
  · simp [specNamed, hname]
  · simp [specNamed, hname, Ne.symm hname]

end Names

section Places
variable (s : World) (claim : Claim) (p : Place)

theorem indexAt_setIndexes (live : List IndexSpec) :
    (s.setIndexes claim live).indexAt p =
      if p.1 = claim.database ∧ p.2.1 = claim.collection then specNamed live p.2.2
      else s.indexAt p := by
  unfold World.setIndexes World.indexAt
  dsimp only
  split <;> rfl

theorem place_eq_iff : p = claim.place ↔
    (p.1 = claim.database ∧ p.2.1 = claim.collection) ∧ p.2.2 = claim.indexName := by
  obtain ⟨database, collection, name⟩ := p
  simp [Claim.place, and_assoc]

theorem indexAt_setHidden (hidden : Bool) :
    (s.setIndexes claim (setHidden hidden (s.live claim) claim.indexName)).indexAt p =
      if p = claim.place then (s.indexAt p).map fun index => { index with hidden }
      else s.indexAt p := by
  rw [indexAt_setIndexes, specNamed_setHidden, if_congr (place_eq_iff claim p) rfl rfl]
  by_cases hcoll : p.1 = claim.database ∧ p.2.1 = claim.collection
  · rw [if_pos hcoll, World.live, ← hcoll.1, ← hcoll.2]
    simp only [true_and, and_self]
    rfl
  · simp [hcoll]

theorem indexAt_hidden :
    (s.hidden claim).indexAt p =
      if p = claim.place then (s.indexAt p).map fun index => { index with hidden := true }
      else s.indexAt p := by
  unfold World.hidden
  split
  · rename_i hnone
    split
    · rename_i heq
      rw [heq, show s.indexAt claim.place = none from hnone]
      rfl
    · rfl
  · exact indexAt_setHidden s claim p true

theorem indexAt_unhidden (site : UnhideSite) :
    (s.unhidden site claim).indexAt p =
      if p = claim.place then (s.indexAt p).map fun index => { index with hidden := false }
      else s.indexAt p :=
  indexAt_setHidden s claim p false

theorem mem_places : p ∈ s.places claim ↔
    (p.1, p.2.1, claim.indexName) ∈ s.places claim ∧ p.2.2 = claim.indexName := by
  obtain ⟨database, collection, name⟩ := p
  simp only [World.places, List.mem_map, Prod.mk.injEq]
  constructor
  · rintro ⟨c, hc, hdatabase, hcollection, hname⟩
    exact ⟨⟨c, hc, hdatabase, hcollection, trivial⟩, hname.symm⟩
  · rintro ⟨⟨c, hc, hdatabase, hcollection, -⟩, hname⟩
    exact ⟨c, hc, hdatabase, hcollection, hname.symm⟩

theorem indexAt_dropped (site : DropSite) :
    (s.dropped site claim).indexAt p = if p ∈ s.places claim then none else s.indexAt p := by
  rw [World.indexAt, World.dropped, if_congr (mem_places s claim p) rfl rfl]
  dsimp only
  by_cases hplace : (p.1, p.2.1, claim.indexName) ∈ s.places claim
  · rw [if_pos hplace, specNamed_dropIndex]
    simp only [hplace, true_and]
    rfl
  · simp only [hplace, false_and, if_false]
    rfl

theorem indexAt_built (spec : IndexSpec) (h : s.taken claim spec = none) :
    (s.setIndexes claim (s.live claim ++ [spec])).indexAt p =
      if p = (claim.database, claim.collection, spec.name) then some spec else s.indexAt p := by
  have hplace : p = (claim.database, claim.collection, spec.name) ↔
      (p.1 = claim.database ∧ p.2.1 = claim.collection) ∧ p.2.2 = spec.name :=
    place_eq_iff ⟨claim.id, claim.database, claim.collection, spec.name⟩ p
  rw [indexAt_setIndexes, specNamed_append, if_congr hplace rfl rfl]
  by_cases hcoll : p.1 = claim.database ∧ p.2.1 = claim.collection
  · rw [if_pos hcoll]
    by_cases hname : p.2.2 = spec.name
    · rw [if_pos hname, if_pos ⟨hcoll, hname⟩, hname]
      exact congrArg (Option.or · (some spec)) h
    · rw [if_neg hname, if_neg fun h => hname h.2, Option.or_none, World.live, World.indexAt,
        hcoll.1, hcoll.2]
  · simp [hcoll]

end Places

/-- Only a build puts an index where there was another or none: any other call leaves what is
there, hides it or shows it, or takes it away. -/
theorem indexAt_before {s : World} {p : Place} {index : IndexSpec}
    (hop : ∀ site claim spec, op ≠ .create site claim spec)
    (h : (s.effect op answer).indexAt p = some index) :
    ∃ before, s.indexAt p = some before ∧
      { before with hidden := index.hidden } = index := by
  have hset (hidden : Bool) (claim : Claim)
      (h : (if p = claim.place then (s.indexAt p).map fun index => { index with hidden }
        else s.indexAt p) = some index) :
      ∃ before, s.indexAt p = some before ∧ { before with hidden := index.hidden } = index := by
    split at h
    · obtain ⟨before, hbefore, rfl⟩ := Option.map_eq_some_iff.mp h
      exact ⟨before, hbefore, rfl⟩
    · exact ⟨index, h, rfl⟩
  cases answer with
  | error error =>
    rw [effect_error] at h
    exact ⟨index, h, rfl⟩
  | ok answer =>
    cases op with
    | hide claim => exact hset true claim ((indexAt_hidden s claim p).symm.trans h)
    | unhide site claim => exact hset false claim ((indexAt_unhidden s claim p site).symm.trans h)
    | drop site claim =>
      replace h := (indexAt_dropped s claim p site).symm.trans h
      split at h
      · cases h
      · exact ⟨index, h, rfl⟩
    | create site claim spec => exact absurd rfl (hop site claim spec)
    | _ =>
      rw [World.indexAt, (leaves_effect s _ _).indexes rfl] at h
      exact ⟨index, h, rfl⟩

theorem isSome_indexAt_effect {s : World} {p : Place} (h : (s.indexAt p).isSome = true)
    (hop : ∀ site claim, op = .drop site claim → p ∉ s.places claim)
    (answer : Except Thrown op.Ans) : ((s.effect op answer).indexAt p).isSome = true := by
  have hset (hidden : Bool) (claim : Claim) :
      (if p = claim.place then (s.indexAt p).map fun index => { index with hidden }
        else s.indexAt p).isSome = true := by
    split
    · rwa [Option.isSome_map]
    · exact h
  cases answer with
  | error error => rwa [effect_error]
  | ok answer =>
    cases op with
    | hide claim => exact congrArg Option.isSome (indexAt_hidden s claim p) ▸ hset true claim
    | unhide site claim =>
      exact congrArg Option.isSome (indexAt_unhidden s claim p site) ▸ hset false claim
    | drop site claim =>
      refine congrArg Option.isSome (indexAt_dropped s claim p site) ▸ ?_
      rwa [if_neg (hop site claim rfl)]
    | create site claim spec =>
      cases answer with
      | SCHEDULED => exact h
      | BUILT =>
        change ((s.created site claim spec).indexAt p).isSome = true
        unfold World.created
        split
        · rename_i htaken
          refine congrArg Option.isSome (indexAt_built s claim p spec htaken) ▸ ?_
          split
          · rfl
          · exact h
        · exact h
    | _ => rwa [World.indexAt, (leaves_effect s _ _).indexes rfl]

theorem mem_invalid_dropped {s : World} {site : DropSite} {claim : Claim} {p : Place}
    (h : p ∈ (s.dropped site claim).invalid) : p ∈ s.invalid ∧ p ∉ s.places claim := by
  obtain ⟨hmem, hne⟩ := List.mem_filter.mp h
  exact ⟨hmem, of_decide_eq_true hne⟩

theorem isValid_iff {s : World} {claim : Claim} :
    s.isValid claim = true ↔
      ∃ p ∈ s.places claim, (s.indexAt p).isSome = true ∧ p ∉ s.invalid := by
  simp [World.isValid]

theorem isValid_effect {s : World} {claim : Claim} (h : s.isValid claim = true)
    (hop : ∀ site other, op = .drop site other → ∀ p ∈ s.places claim, p ∉ s.places other)
    (answer : Except Thrown op.Ans) : (s.effect op answer).isValid claim = true := by
  obtain ⟨p, hp, hthere, hvalid⟩ := isValid_iff.mp h
  have hplaces : (s.effect op answer).places claim = s.places claim := by
    rw [World.places, (leaves_effect s op answer).sharers, World.places]
  refine isValid_iff.mpr ⟨p, hplaces ▸ hp, ?_, fun hmem => hvalid ?_⟩
  · exact isSome_indexAt_effect hthere (fun site other heq => hop site other heq p hp) answer
  by_cases hdrop : ∃ site other, op = .drop site other
  · obtain ⟨site, other, rfl⟩ := hdrop
    cases answer with
    | error error => exact hmem
    | ok answer => exact (mem_invalid_dropped hmem).1
  · push Not at hdrop
    rwa [(leaves_effect s op answer).invalid hdrop] at hmem

end Indexterity.Service
