import Indexterity.WorkloadLead

/-!
# Partial filters against the shapes behind them

A want with a filter folds into nothing and takes nothing in, so a filtered candidate
is a want as the first loop left it. That loop keys a want by the keys that remain
once constants moved out, and the filter of the shape that opened it stands for every
shape that joined. The filter holds of all of them exactly when the shapes left
standing under one key bind its fields to the same constants.
-/

namespace Indexterity

open Library

/-- The shape binds every field of the filter to the filter's own value. -/
def FilterHolds (filter : ConstantFilter) (shape : QueryShape) : Prop :=
  ∀ entry ∈ filter, entry.1 ∈ shape.equality ∧
    constantOf shape.constants entry.1 = some entry.2

theorem filterHolds_askedOf {options : CreateOptions} {shape : QueryShape} {filter : ConstantFilter}
    (h : (askedOf options shape).partialFilter = some filter) : FilterHolds filter shape := by
  unfold askedOf at h
  split at h
  · intro entry hentry
    rw [← Option.some.inj h] at hentry
    obtain ⟨field, hfield, hvalue⟩ := List.mem_filterMap.mp hentry
    obtain ⟨value, hconst, rfl⟩ := Option.map_eq_some_iff.mp hvalue
    have hequality := (List.mem_filter.mp hfield).2
    exact ⟨List.contains_iff_mem.mp hequality, hconst⟩
  · cases h

/-! ## Filtered wants survive as they are -/

variable {want widest : Want} {wants : List Want} {first : QueryShape} {rest : List QueryShape}

theorem mem_survivorsOf_of_filtered (hfilter : want.partialFilter ≠ none) (turns : Nat)
    (wants : List Want) (hturns : wants.length ≤ turns) (hwant : want ∈ wants) :
    want ∈ survivorsOf turns wants := by
  induction turns, wants using survivorsOf.induct with
  | case1 =>
    rw [List.length_eq_zero_iff.mp (Nat.le_zero.mp hturns)] at hwant
    cases hwant
  | case2 => cases hwant
  | case3 turns head later before widest after hlast ih =>
    obtain ⟨rfl, habs⟩ := lastAbsorber_some hlast
    obtain ⟨⟨hhead, hwidest⟩, -⟩ := (absorbs_iff head widest).mp habs
    simp only [survivorsOf, hlast]
    apply ih (by simpa using hturns)
    -- neither side of a fold carries a filter
    rcases List.mem_cons.mp hwant with rfl | hwant
    · exact absurd hhead hfilter
    rcases List.mem_append.mp hwant with hwant | hwant
    · exact List.mem_append_left _ hwant
    rcases List.mem_cons.mp hwant with rfl | hwant
    · exact absurd hwidest hfilter
    · exact List.mem_append_right _ (List.mem_cons_of_mem _ hwant)
  | case4 turns head later hlast ih =>
    simp only [survivorsOf, hlast]
    rcases List.mem_cons.mp hwant with rfl | hwant
    · exact List.mem_cons_self
    · exact List.mem_cons_of_mem head (ih (Nat.le_of_succ_le_succ hturns) hwant)

theorem mem_of_mem_consolidate_filtered (hwant : want ∈ consolidate wants)
    (hfilter : want.partialFilter ≠ none) : want ∈ wants := by
  apply consolidate_forall (fun survivor => survivor.partialFilter ≠ none → survivor ∈ wants)
    _ _ (foldsMeet_true _ _) want hwant hfilter
  · intro narrow wide _ _ habs _ hne
    exact absurd ((absorbs_iff narrow wide).mp habs).1.2 hne
  · intro survivor hs _
    exact hs

theorem mem_consolidate_of_filtered (hwant : want ∈ wants) (hfilter : want.partialFilter ≠ none) :
    want ∈ consolidate wants := by
  apply mem_survivorsOf_of_filtered hfilter
  · exact le_of_eq (List.length_insertionSort _ _)
  · exact mem_sortedWants.mpr hwant

section Sources
variable (host : Host) (stringify : ConstantValue → String) (existing : List IndexSpec)
variable (options : CreateOptions)

theorem candidateOf_mem_of_filtered {shapes : List QueryShape}
    (hwant : want ∈ (wantsOf host existing options shapes).wants)
    (hfilter : want.partialFilter ≠ none) :
    candidateOf host stringify existing want ∈
      (recommendCreates host stringify shapes existing options).candidates := by
  obtain ⟨first, rest, hstands⟩ := (wantsStand_wantsOf host existing options shapes).stands want hwant
  have hled : { want with wantedKeys := leadWith want } = want := by
    rw [leadWith, if_pos hstands.lead]
  have hbuilt : alreadyBuilt existing want = false := by
    apply List.any_eq_false.mpr
    intro index hindex hequal
    have hserved := isServed_head host existing options hstands.standing
    apply Bool.eq_false_iff.mp hserved
    apply List.any_eq_true.mpr
    refine ⟨index, hindex, ?_⟩
    rw [hstands.wantedKeys] at hequal
    simp [servesWant, hequal]
  apply List.mem_map_of_mem
  apply List.mem_filter.mpr
  refine ⟨?_, by simp [hbuilt]⟩
  exact List.mem_map.mpr ⟨want, mem_consolidate_of_filtered hwant hfilter, hled⟩

theorem exists_want_of_filtered {shapes : List QueryShape} {candidate : CreateCandidate}
    (hcandidate : candidate ∈ (recommendCreates host stringify shapes existing options).candidates)
    (hfilter : candidate.partialFilter ≠ none) :
    ∃ want ∈ (wantsOf host existing options shapes).wants,
      candidate.partialFilter = want.partialFilter ∧ candidate.sourceShapes = want.sourceShapes := by
  obtain ⟨led, hled, rfl⟩ := List.mem_map.mp hcandidate
  obtain ⟨want, hwant, rfl⟩ := List.mem_map.mp (List.mem_filter.mp hled).1
  obtain ⟨hheld, hsources, -⟩ := candidateOf_fields host stringify existing
    { want with wantedKeys := leadWith want }
  rw [hheld] at hfilter
  exact ⟨want, mem_of_mem_consolidate_filtered hwant hfilter, hheld, hsources⟩

/-- A candidate's filter holds of every shape behind it exactly when, under each wanted
key, the shapes after the first unserved one bind its constants too. -/
theorem filter_holds_of_sources_iff (shapes : List QueryShape) :
    (∀ candidate ∈ (recommendCreates host stringify shapes existing options).candidates,
      ∀ filter, candidate.partialFilter = some filter →
        ∀ shape ∈ candidate.sourceShapes, FilterHolds filter shape) ↔
      ∀ wantedKey first rest, standing host existing options shapes wantedKey = first :: rest →
        ∀ filter, (askedOf options first).partialFilter = some filter →
          ∀ shape ∈ rest, FilterHolds filter shape := by
  have hloop := wantsStand_wantsOf host existing options shapes
  constructor
  · intro hall wantedKey first rest hstanding filter hfilter shape hshape
    obtain ⟨want, hwant, hkey⟩ := hloop.wanted wantedKey (by simp [hstanding])
    obtain ⟨first', rest', hstands⟩ := hloop.stands want hwant
    have hsame := hstands.standing
    rw [hkey, hstanding] at hsame
    obtain ⟨rfl, rfl⟩ := List.cons.inj hsame
    have hheld : want.partialFilter = some filter := hstands.partialFilter.trans hfilter
    obtain ⟨hcheld, hcsources, -⟩ := candidateOf_fields host stringify existing want
    apply hall (candidateOf host stringify existing want)
    · exact candidateOf_mem_of_filtered host stringify existing options hwant (by simp [hheld])
    · exact hcheld.trans hheld
    · rw [hcsources, hstands.sourceShapes]
      exact List.mem_cons_of_mem first hshape
  · intro hall candidate hcandidate filter hfilter shape hshape
    obtain ⟨want, hwant, hheld, hsources⟩ :=
      exists_want_of_filtered host stringify existing options hcandidate (by simp [hfilter])
    obtain ⟨first, rest, hstands⟩ := hloop.stands want hwant
    have hasked : (askedOf options first).partialFilter = some filter := by
      rw [← hstands.partialFilter, ← hheld, hfilter]
    rw [hsources, hstands.sourceShapes] at hshape
    rcases List.mem_cons.mp hshape with rfl | hshape
    · exact filterHolds_askedOf hasked
    · exact hall _ first rest hstands.standing filter hasked shape hshape

end Sources

/-- Two shapes that list their fields in another order and bind one of them to different
constants leave the same keys: the second stands behind an index that holds none of its
documents. -/
theorem filter_misses_other_constant :
    let opened := { scanOf ["tenant", "state"] [] [] with constants := [("state", .str "open")] }
    let closed := { scanOf ["state", "tenant"] [] [] with constants := [("state", .str "closed")] }
    ∃ candidate ∈ (recommendCreates decimalHost (fun _ => "") [opened, closed] [] everyScan).candidates,
      candidate.partialFilter = some [("state", .str "open")] ∧
        closed ∈ candidate.sourceShapes ∧ ¬ FilterHolds [("state", .str "open")] closed := by
  unfold FilterHolds
  decide

/-!
## Proposing again after the build

With every candidate's index built and its retired indexes gone, a shape behind a
candidate is proposed again only if some shape of its wanted key is not served by then.
The first loop asks `servesWant`, the consolidation folded by `absorbs`, which lets a range
field stand anywhere among the wider want's keys: as long as the two wants of each fold agree on
the shapes behind them and the ranges stand where `servesWant` looks for them, the second call
is silent.
-/

def proposedIndex (name : String) (keys : List SortKey) (partialFilter : Option ConstantFilter) :
    IndexSpec where
  name := name
  keys := keys.map fun key => ⟨key.field, key.direction.index⟩
  unique := false
  ttl := false
  isPartial := partialFilter.isSome
  partialFilter := partialFilter.map filterValues
  sparse := false
  hidden := false
  isShardKey := false
  collation := none
  includes := []

/-- The indexes once every candidate is built, under whatever names, and what it
retires is gone. -/
def builtIndexes (name : CreateCandidate → String) (existing : List IndexSpec)
    (candidates : List CreateCandidate) : List IndexSpec :=
  (existing.filter fun index => !(candidates.flatMap (·.retireIndexes)).contains index.name) ++
    candidates.map fun candidate =>
      proposedIndex (name candidate) candidate.keys candidate.partialFilter

section Conditions
variable (host : Host) (options : CreateOptions) (shapes : List QueryShape)

def servesShape (index : IndexSpec) (shape : QueryShape) : Bool :=
  servesWant host index (askedOf options shape).wantedKeys (blocksOf options shape)
    (askedOf options shape).partialFilter

def KeysSpellFields : Prop :=
  ∀ x ∈ shapes, ∀ y ∈ shapes, findable host options x = true → findable host options y = true →
    wantedKeyOf options x = wantedKeyOf options y →
    fieldNames (askedOf options x).wantedKeys = fieldNames (askedOf options y).wantedKeys
  deriving Decidable

/-- Behind the equality fields and the sort, the want's keys go on with the range fields. -/
def RangeFits (want : Want) (blocks : KeyBlocks) : Prop :=
  blocks.range = [] ∨ blocks.equality.Perm want.blocks.equality ∧
    blocks.sort = want.blocks.sort ∧
    (want.blocks.range.take blocks.range.length).Perm blocks.range
  deriving Decidable

/-- The shapes asking for a key behind either want are settled there and their ranges fit the
wider want, whose lead so far agrees with those behind the folded one. -/
def FoldFits (want widest : Want) : Prop :=
  (∀ x ∈ want.sourceShapes, ∀ shape ∈ shapes,
    asksFor host options (wantedKeyOf options x) shape = true →
      (Settled want (blocksOf options shape) ∧ RangeFits widest (blocksOf options shape)) ∧
        Agrees (blocksOf options shape).equality (fieldNames (blocksOf options shape).sort)
          widest.lead) ∧
    ∀ y ∈ widest.sourceShapes, ∀ shape ∈ shapes,
      asksFor host options (wantedKeyOf options y) shape = true →
        Settled widest (blocksOf options shape) ∧ RangeFits widest (blocksOf options shape)
  deriving Decidable

end Conditions

theorem fields_proposedIndex (name : String) (keys : List SortKey)
    (partialFilter : Option ConstantFilter) :
    (proposedIndex name keys partialFilter).fields = fieldNames keys := by
  simp [IndexSpec.fields, proposedIndex, fieldNames]

section Proposals
variable (host : Host) (stringify : ConstantValue → String) (existing : List IndexSpec)
variable (options : CreateOptions) (shapes : List QueryShape)

/-- Every shape with the wanted key of one behind the want is served by an index on
the want's keys. -/
def Answered (want : Want) : Prop :=
  ∀ x ∈ want.sourceShapes, ∀ shape ∈ shapes,
    asksFor host options (wantedKeyOf options x) shape = true → ∀ name,
      servesShape host options (proposedIndex name (leadWith want) want.partialFilter) shape = true

variable {host options shapes}

theorem answered_of_standsFor (hkeys : KeysSpellFields host options shapes)
    (h : StandsFor host existing options shapes want first rest) :
    Answered host options shapes want := by
  intro x hx shape hshape hasks name
  obtain ⟨hfind, hkey⟩ := Bool.and_eq_true_iff.mp hasks
  obtain ⟨-, -, hxkey⟩ := h.asks hx
  have hfirst : first ∈ want.sourceShapes := by
    rw [h.sourceShapes]
    exact List.mem_cons_self
  obtain ⟨hmem, hffind, hfkey⟩ := h.asks hfirst
  have hfields : fieldNames (askedOf options shape).wantedKeys = fieldNames want.wantedKeys := by
    rw [h.wantedKeys]
    apply hkeys shape hshape first hmem hfind hffind
    rw [hfkey, ← hxkey]
    exact beq_iff_eq.mp hkey
  have hequal : equalFields (proposedIndex name (leadWith want) want.partialFilter).fields
      (fieldNames (askedOf options shape).wantedKeys) = true := by
    rw [fields_proposedIndex, leadWith, if_pos h.lead, hfields]
    exact equalFields_iff.mpr rfl
  simp [servesShape, servesWant, hequal]

theorem exists_split_of_rangeFits {blocks : KeyBlocks} (hwant : Formed want)
    (h : Settled want blocks) (hrange : RangeFits want blocks) :
    ∃ front span back rest, leadWith want = front ++ span ++ back ++ rest ∧
      (fieldNames front).Perm blocks.equality ∧
      (span = blocks.sort ∨ span = blocks.sort.map SortKey.reverse) ∧
      (fieldNames back).Perm blocks.range := by
  rcases hrange with hnone | ⟨hequality, hsort, hrange⟩
  · obtain ⟨front, span, rest, hsplit, hfront, hspan⟩ := h.split hwant
    refine ⟨front, span, [], rest, by simpa using hsplit, hfront, hspan, ?_⟩
    rw [hnone]
    exact List.Perm.refl _
  · refine ⟨ascendingKeys (want.lead ++ want.blocks.equality.filter fun field =>
      field ∉ want.lead), blocks.sort, ascendingKeys (want.blocks.range.take blocks.range.length),
      ascendingKeys (want.blocks.range.drop blocks.range.length), ?_, ?_, .inl rfl, ?_⟩
    · rw [leadWith_eq hwant, hsort, List.append_assoc _ _ (ascendingKeys (List.drop _ _))]
      simp only [ascendingKeys, ← List.map_append, List.take_append_drop]
    · rw [fieldNames_ascendingKeys]
      exact hwant.ledEquality_perm.trans hequality.symm
    · rw [fieldNames_ascendingKeys]
      exact hrange

theorem fieldNames_span {span sort : List SortKey}
    (h : span = sort ∨ span = sort.map SortKey.reverse) : fieldNames span = fieldNames sort := by
  rcases h with rfl | rfl
  · rfl
  · simp [fieldNames, SortKey.reverse, Function.comp_def]

theorem spanServes_of_split {front span back : List SortKey} {blocks : KeyBlocks}
    (hfront : (fieldNames front).Perm blocks.equality)
    (hspan : span = blocks.sort ∨ span = blocks.sort.map SortKey.reverse)
    (hback : (fieldNames back).Perm blocks.range) :
    spanServes ((front ++ span ++ back).map fun key => ⟨key.field, key.direction.index⟩)
      blocks = true := by
  have hequality : front.length = blocks.equality.length := by
    simpa [fieldNames] using hfront.length_eq
  have hsort : span.length = blocks.sort.length := by
    simpa [fieldNames] using congrArg List.length (fieldNames_span hspan)
  refine spanServes_of_blocks hfront hback ?_ ?_
  · rw [← fieldNames_span hspan]
    simp [fieldNames, Function.comp_def]
  · rw [← List.map_take, ← List.map_drop, List.take_left' (by simp [hequality, hsort]),
      List.drop_left' hequality]
    rcases hspan with rfl | rfl
    · exact ⟨false, by simp [Function.comp_def]⟩
    · exact ⟨true, by simp [SortKey.reverse, Function.comp_def]⟩

theorem servesShape_of_settled {shape : QueryShape} (hwant : Formed want)
    (h : Settled want (blocksOf options shape)) (hrange : RangeFits want (blocksOf options shape))
    (name : String) :
    servesShape host options (proposedIndex name (leadWith want) none) shape = true := by
  obtain ⟨front, span, back, rest, hkeys, hfront, hspan, hback⟩ :=
    exists_split_of_rangeFits hwant h hrange
  have hwanted : (fieldNames (askedOf options shape).wantedKeys).length =
      (front ++ span ++ back).length := by
    have hlaid : fieldNames (askedOf options shape).wantedKeys =
        (blocksOf options shape).equality ++ fieldNames (blocksOf options shape).sort ++
          (blocksOf options shape).range := (laidOut_askedOf options shape).fields
    rw [hlaid, ← fieldNames_span hspan, List.length_append, List.length_append,
      ← hfront.length_eq, ← hback.length_eq]
    simp [fieldNames, Nat.add_assoc]
  have hkeys : (proposedIndex name (leadWith want) none).keys.take
      (fieldNames (askedOf options shape).wantedKeys).length =
        (front ++ span ++ back).map fun key => ⟨key.field, key.direction.index⟩ := by
    rw [hwanted, proposedIndex, hkeys, List.map_append]
    exact List.take_left' (by simp)
  unfold servesShape servesWant
  simp only [hkeys]
  split_ifs with hequal hplain hshort hspecial
  · rfl
  · simp [proposedIndex] at hplain
  · simp [hwanted] at hshort
  · obtain ⟨key, -, hkey⟩ := List.any_eq_true.mp (List.any_map ▸ hspecial)
    cases hdirection : key.direction <;> simp [hdirection, SortDirection.index] at hkey
  · exact spanServes_of_split hfront hspan hback

theorem answered_absorb (hwant : Formed want) (hwidest : Formed widest)
    (habs : absorbs want widest = true) (hfits : FoldFits host options shapes want widest) :
    Answered host options shapes (absorb want widest) := by
  intro x hx shape hshape hasks name
  have hplain : (absorb want widest).partialFilter = none := ((absorbs_iff _ _).mp habs).1.2
  rw [hplain]
  have hformed := formed_absorb hwant hwidest habs
  rcases List.mem_append.mp hx with hx | hx
  · obtain ⟨hsettled, hrange⟩ := hfits.2 x hx shape hshape hasks
    exact servesShape_of_settled hformed (hsettled.stays hwidest) hrange name
  · obtain ⟨⟨hsettled, hrange⟩, hagrees⟩ := hfits.1 x hx shape hshape hasks
    exact servesShape_of_settled hformed (hsettled.folds hwant habs hwidest
      (laidOut_askedOf options shape) hagrees) hrange name

/-- Some shape of the wanted key of each shape behind the want is not served. -/
def Unserved (host : Host) (existing : List IndexSpec) (options : CreateOptions)
    (shapes : List QueryShape) (want : Want) : Prop :=
  ∀ x ∈ want.sourceShapes, ∃ shape ∈ shapes,
    asksFor host options (wantedKeyOf options x) shape = true ∧
      isServed host existing options shape = false

theorem unserved_of_standsFor (h : StandsFor host existing options shapes want first rest) :
    Unserved host existing options shapes want := by
  intro x hx
  obtain ⟨-, -, hkey⟩ := h.asks hx
  have hfirst : first ∈ standing host existing options shapes (keyText want.wantedKeys) := by
    rw [h.standing]
    exact List.mem_cons_self
  obtain ⟨hmem, hasks⟩ := mem_of_mem_standing host existing options hfirst
  rw [← hkey] at hasks
  exact ⟨first, hmem, hasks, isServed_head host existing options h.standing⟩

theorem unserved_absorb (hwant : Unserved host existing options shapes want)
    (hwidest : Unserved host existing options shapes widest) :
    Unserved host existing options shapes (absorb want widest) := by
  intro x hx
  rcases List.mem_append.mp hx with hx | hx
  · exact hwidest x hx
  · exact hwant x hx

variable (host options shapes)

/-- Where every fold fits, no shape behind a candidate is proposed again once the candidates are
built. -/
theorem not_proposed_again (name : CreateCandidate → String)
    (hkeys : KeysSpellFields host options shapes)
    (hfolds : ConsolidationMeets (FoldFits host options shapes)
      (wantsOf host existing options shapes).wants) :
    let first := (recommendCreates host stringify shapes existing options).candidates
    let second := (recommendCreates host stringify shapes
      (builtIndexes name existing first) options).candidates
    ∀ again ∈ second, ∀ candidate ∈ first, ∀ shape ∈ candidate.sourceShapes,
      shape ∉ again.sourceShapes := by
  intro first second again hagain candidate hcandidate shape hshape hshape'
  obtain ⟨want, hwant, hwantKeys, hwantFilter, hwantShapes⟩ :=
    exists_survivor host stringify existing options shapes hcandidate
  obtain ⟨want', hwant', -, -, hwantShapes'⟩ :=
    exists_survivor host stringify (builtIndexes name existing first) options shapes hagain
  have hloop := wantsStand_wantsOf host existing options shapes
  have hloop' := wantsStand_wantsOf host (builtIndexes name existing first) options shapes
  have hanswered : Formed want ∧ Answered host options shapes want := by
    refine consolidate_forall (fun want => Formed want ∧ Answered host options shapes want)
      ?_ ?_ hfolds want hwant
    · intro narrow wide hnarrow hwide habs hfits
      exact ⟨formed_absorb hnarrow.1 hwide.1 habs, answered_absorb hnarrow.1 hwide.1 habs hfits⟩
    · intro opened hopened
      obtain ⟨_, _, hstands⟩ := hloop.stands opened hopened
      exact ⟨formed_of_standsFor host existing shapes hstands,
        answered_of_standsFor existing hkeys hstands⟩
  have hunserved : Unserved host (builtIndexes name existing first) options shapes want' := by
    refine consolidate_forall _ ?_ ?_ (foldsMeet_true _ _) want' hwant'
    · intro narrow wide hnarrow hwide _ _
      exact unserved_absorb _ hnarrow hwide
    · intro opened hopened
      obtain ⟨_, _, hstands⟩ := hloop'.stands opened hopened
      exact unserved_of_standsFor _ hstands
  rw [hwantShapes] at hshape
  rw [hwantShapes'] at hshape'
  obtain ⟨asker, hasker, hasks, hnot⟩ := hunserved shape hshape'
  have hserved := hanswered.2 shape hshape asker hasker hasks (name candidate)
  rw [← hwantKeys, ← hwantFilter] at hserved
  -- the candidate's own index is among those the second call sees
  apply Bool.eq_false_iff.mp hnot
  apply List.any_eq_true.mpr
  exact ⟨_, List.mem_append_right _ (List.mem_map_of_mem hcandidate), hserved⟩

end Proposals

/-! ## A shape folded in, served and not -/

/-- The candidate for both shapes serves both. -/
theorem not_proposed_again_led :
    let shapes := [scanOf ["a"] [] [], scanOf ["b", "a"] [] []]
    let first := (recommendCreates decimalHost (fun _ => "") shapes [] everyScan).candidates
    let second := (recommendCreates decimalHost (fun _ => "") shapes
      (builtIndexes (fun _ => "built") [] first) everyScan).candidates
    first ≠ [] ∧ ∀ again ∈ second, ∀ candidate ∈ first, ∀ shape ∈ candidate.sourceShapes,
      shape ∉ again.sourceShapes :=
  ⟨by decide, not_proposed_again decimalHost (fun _ => "") [] everyScan _ (fun _ => "built")
    (by decide) (by decide)⟩

/-- A range behind a key the shape does not bind is covered for the fold and not for
`servesWant`: the shape answered by the index just built is proposed an index again. -/
theorem proposed_again_behind_unbound_key :
    let narrow := scanOf ["a"] [] ["d"]
    let shapes := [narrow, scanOf ["a", "b"] [] ["d"]]
    let first := (recommendCreates decimalHost (fun _ => "") shapes [] everyScan).candidates
    let second := (recommendCreates decimalHost (fun _ => "") shapes
      (builtIndexes (fun _ => "built") [] first) everyScan).candidates
    (∃ candidate ∈ first, narrow ∈ candidate.sourceShapes) ∧
      ∃ again ∈ second, narrow ∈ again.sourceShapes := by
  decide

end Indexterity
