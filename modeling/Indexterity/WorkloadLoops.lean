import Indexterity.Workload

/-!
# The two loops of recommendCreates

The first loop: behind the want of a key stand the shapes that ask for it, from the
first one that no existing index serves. The second: what holds of every want and is
kept by each fold holds of every survivor, and a fold can be put under a condition. A
fold moves shapes and loses none.
-/

namespace Indexterity

/-! ## The shapes behind a want -/

variable {want : Want} {wants : List Want} {shapes : List QueryShape}

variable {wantedKey : String} {C : Want → Want → Prop}

section Standing
variable (host : Host) (existing : List IndexSpec) (options : CreateOptions)

def findable (shape : QueryShape) : Bool :=
  (shape.collscan || shape.sortedInMemory) && isRecurring shape options.toWorkloadOptions &&
    isWorthIndexing host shape.clients && decide (0 < (esrKeys shape).length)

def wantedKeyOf (shape : QueryShape) : String := keyText (askedOf options shape).wantedKeys

def asksFor (wantedKey : String) (shape : QueryShape) : Bool :=
  findable host options shape && wantedKeyOf options shape == wantedKey

def isServed (shape : QueryShape) : Bool :=
  servedByExisting host existing shape (askedOf options shape)

/-- The shapes that ask for a key, from the first that is not served already. -/
def standing (shapes : List QueryShape) (wantedKey : String) : List QueryShape :=
  (shapes.filter (asksFor host options wantedKey)).dropWhile (isServed host existing options)

theorem considerShape_wants (state : WorkloadState) (shape : QueryShape) :
    (considerShape host existing options state shape).wants =
      if findable host options shape then (admitShape host existing options state shape).wants
      else state.wants := by
  unfold considerShape
  split
  · -- neither a scan nor a sort in memory
    rename_i hquiet
    simp only [Bool.and_eq_true, Bool.not_eq_true'] at hquiet
    rw [if_neg (by simp [findable, hquiet])]
  · rename_i hseen
    split
    · rename_i hrare
      rw [if_neg (by simp [findable, (Bool.not_eq_true' _).mp hrare])]
      rfl
    · rename_i hrecurs
      split
      · rename_i hadHoc
        rw [if_neg (by simp [findable, (Bool.not_eq_true' _).mp hadHoc])]
        rfl
      · rename_i hworth
        split
        · rename_i hnone
          rw [if_neg (by simp [findable, hnone])]
          rfl
        · rename_i hkeys
          rw [if_pos]
          simp only [Bool.and_eq_true, Bool.not_eq_true', not_and, Bool.not_eq_false]
            at hseen hrecurs hworth
          simpa [findable, hrecurs, hworth, Nat.pos_of_ne_zero hkeys, or_iff_not_imp_left]
            using hseen

theorem standing_concat (shapes : List QueryShape) (shape : QueryShape) (wantedKey : String) :
    standing host existing options (shapes ++ [shape]) wantedKey =
      if asksFor host options wantedKey shape then
        if standing host existing options shapes wantedKey = [] then
          if isServed host existing options shape then [] else [shape]
        else standing host existing options shapes wantedKey ++ [shape]
      else standing host existing options shapes wantedKey := by
  unfold standing
  rw [List.filter_append]
  by_cases hasks : asksFor host options wantedKey shape = true
  · rw [List.filter_cons_of_pos hasks, List.filter_nil, List.dropWhile_append, if_pos hasks]
    simp only [List.isEmpty_iff]
    split
    · rw [List.dropWhile_cons, List.dropWhile_nil]
    · rfl
  · rw [List.filter_cons_of_neg hasks, List.filter_nil, List.append_nil, if_neg hasks]

variable {shape : QueryShape}

theorem mem_of_mem_standing (h : shape ∈ standing host existing options shapes wantedKey) :
    shape ∈ shapes ∧ asksFor host options wantedKey shape = true :=
  List.mem_filter.mp ((List.dropWhile_suffix _).subset h)

variable {first : QueryShape} {rest : List QueryShape}

theorem isServed_head (h : standing host existing options shapes wantedKey = first :: rest) :
    isServed host existing options first = false := by
  have hhead := List.head?_dropWhile_not (isServed host existing options)
    (shapes.filter (asksFor host options wantedKey))
  unfold standing at h
  simpa [h] using hhead

structure StandsFor (shapes : List QueryShape) (want : Want) (first : QueryShape)
    (rest : List QueryShape) : Prop where
  standing : standing host existing options shapes (keyText want.wantedKeys) = first :: rest
  sourceShapes : want.sourceShapes = first :: rest
  wantedKeys : want.wantedKeys = (askedOf options first).wantedKeys
  partialFilter : want.partialFilter = (askedOf options first).partialFilter
  blocks : want.blocks = keyBlocks first (askedOf options first).wantedKeys
  lead : want.lead = []

variable {host existing options}

section
variable (h : StandsFor host existing options shapes want first rest)
include h

theorem StandsFor.skip (hasks : asksFor host options (keyText want.wantedKeys) shape = false) :
    StandsFor host existing options (shapes ++ [shape]) want first rest := by
  refine { h with standing := ?_ }
  rw [standing_concat, hasks]
  exact h.standing

theorem StandsFor.join (hasks : asksFor host options (keyText want.wantedKeys) shape = true) :
    StandsFor host existing options (shapes ++ [shape]) (joinWant want shape) first
      (rest ++ [shape]) := by
  refine { h with standing := ?_, sourceShapes := ?_ }
  · rw [standing_concat]
    simp [joinWant, hasks, h.standing]
  · rw [joinWant, h.sourceShapes]
    rfl

end

theorem standsFor_newWant (hfind : findable host options shape = true)
    (hnone : standing host existing options shapes (wantedKeyOf options shape) = [])
    (hserved : isServed host existing options shape = false) :
    StandsFor host existing options (shapes ++ [shape]) (newWant shape (askedOf options shape))
      shape [] := by
  refine ⟨?_, rfl, rfl, rfl, rfl, rfl⟩
  have hasks : asksFor host options (wantedKeyOf options shape) shape = true := by
    simp [asksFor, hfind]
  have hconcat := standing_concat host existing options shapes shape (wantedKeyOf options shape)
  rw [hasks, hnone, hserved] at hconcat
  exact hconcat

theorem StandsFor.asks (h : StandsFor host existing options shapes want first rest) {x : QueryShape}
    (hx : x ∈ want.sourceShapes) :
    x ∈ shapes ∧ findable host options x = true ∧
      wantedKeyOf options x = keyText want.wantedKeys := by
  rw [h.sourceShapes, ← h.standing] at hx
  obtain ⟨hmem, hasks⟩ := mem_of_mem_standing host existing options hx
  obtain ⟨hfind, hkey⟩ := Bool.and_eq_true_iff.mp hasks
  exact ⟨hmem, hfind, beq_iff_eq.mp hkey⟩

/-- The invariant of the first loop: each want stands for the shapes of its key, and
each key with shapes left standing has its want. -/
structure WantsStand (host : Host) (existing : List IndexSpec) (options : CreateOptions)
    (shapes : List QueryShape) (wants : List Want) : Prop where
  stands : ∀ want ∈ wants, ∃ first rest, StandsFor host existing options shapes want first rest
  wanted : ∀ wantedKey, standing host existing options shapes wantedKey ≠ [] →
    ∃ want ∈ wants, keyText want.wantedKeys = wantedKey

theorem wantsStand_skip (h : WantsStand host existing options shapes wants)
    (hasks : ∀ want ∈ wants, asksFor host options (keyText want.wantedKeys) shape = false)
    (hstanding : ∀ wantedKey, asksFor host options wantedKey shape = true →
      standing host existing options (shapes ++ [shape]) wantedKey = []) :
    WantsStand host existing options (shapes ++ [shape]) wants := by
  refine ⟨?_, ?_⟩
  · intro want hwant
    obtain ⟨first, rest, hstands⟩ := h.stands want hwant
    exact ⟨first, rest, hstands.skip (hasks want hwant)⟩
  · intro wantedKey hne
    by_cases hkey : asksFor host options wantedKey shape = true
    · exact absurd (hstanding wantedKey hkey) hne
    · apply h.wanted
      rwa [standing_concat, if_neg hkey] at hne

theorem asksFor_iff (hfind : findable host options shape = true) (wantedKey : String) :
    asksFor host options wantedKey shape = true ↔ wantedKeyOf options shape = wantedKey := by
  simp [asksFor, hfind]

section
variable (h : WantsStand host existing options shapes wants)
    (hfind : findable host options shape = true)
include h hfind

theorem wantsStand_join
    (hany : ∃ want ∈ wants, keyText want.wantedKeys = wantedKeyOf options shape) :
    WantsStand host existing options (shapes ++ [shape]) (wants.map fun want =>
      if keyText want.wantedKeys = wantedKeyOf options shape then joinWant want shape else want) := by
  refine ⟨?_, ?_⟩
  · intro want hwant
    obtain ⟨old, hold, rfl⟩ := List.mem_map.mp hwant
    obtain ⟨first, rest, hstands⟩ := h.stands old hold
    split
    · rename_i hkey
      exact ⟨first, _, hstands.join ((asksFor_iff hfind _).mpr hkey.symm)⟩
    · rename_i hkey
      refine ⟨first, rest, hstands.skip ?_⟩
      exact Bool.eq_false_iff.mpr fun hasks => hkey ((asksFor_iff hfind _).mp hasks).symm
  · intro wantedKey hne
    by_cases hkey : wantedKeyOf options shape = wantedKey
    · obtain ⟨want, hwant, hwk⟩ := hany
      refine ⟨joinWant want shape, List.mem_map.mpr ⟨want, hwant, if_pos hwk⟩, hwk.trans hkey⟩
    · have hasks : ¬ asksFor host options wantedKey shape = true :=
        fun hasks => hkey ((asksFor_iff hfind _).mp hasks)
      rw [standing_concat, if_neg hasks] at hne
      obtain ⟨want, hwant, hwk⟩ := h.wanted wantedKey hne
      refine ⟨want, List.mem_map.mpr ⟨want, hwant, if_neg ?_⟩, hwk⟩
      rw [hwk]
      exact Ne.symm hkey

variable (hnone : ∀ want ∈ wants, keyText want.wantedKeys ≠ wantedKeyOf options shape)
include hnone

theorem wantsStand_open (hserved : isServed host existing options shape = false) :
    WantsStand host existing options (shapes ++ [shape])
      (wants ++ [newWant shape (askedOf options shape)]) := by
  refine ⟨?_, ?_⟩
  · intro want hwant
    rcases List.mem_append.mp hwant with hwant | hwant
    · obtain ⟨first, rest, hstands⟩ := h.stands want hwant
      refine ⟨first, rest, hstands.skip (Bool.eq_false_iff.mpr fun hasks => ?_)⟩
      exact hnone want hwant ((asksFor_iff hfind _).mp hasks).symm
    · rw [List.mem_singleton.mp hwant]
      refine ⟨shape, [], standsFor_newWant hfind ?_ hserved⟩
      by_contra hne
      obtain ⟨want, hmem, hkey⟩ := h.wanted _ hne
      exact hnone want hmem hkey
  · intro wantedKey hne
    by_cases hkey : wantedKeyOf options shape = wantedKey
    · exact ⟨_, List.mem_append_right _ (List.mem_singleton_self _), hkey⟩
    · have hasks : ¬ asksFor host options wantedKey shape = true :=
        fun hasks => hkey ((asksFor_iff hfind _).mp hasks)
      rw [standing_concat, if_neg hasks] at hne
      obtain ⟨want, hwant, hwk⟩ := h.wanted wantedKey hne
      exact ⟨want, List.mem_append_left _ hwant, hwk⟩

theorem wantsStand_served (hserved : isServed host existing options shape = true) :
    WantsStand host existing options (shapes ++ [shape]) wants := by
  apply wantsStand_skip h
  · intro want hwant
    apply Bool.eq_false_iff.mpr
    intro hasks
    exact hnone want hwant ((asksFor_iff hfind _).mp hasks).symm
  · intro wantedKey hasks
    have hempty : standing host existing options shapes wantedKey = [] := by
      by_contra hne
      obtain ⟨want, hwant, hkey⟩ := h.wanted wantedKey hne
      exact hnone want hwant (hkey.trans ((asksFor_iff hfind _).mp hasks).symm)
    rw [standing_concat, if_pos hasks, if_pos hempty]
    exact if_pos hserved

end

theorem wantsStand_gated (h : WantsStand host existing options shapes wants)
    (hfind : findable host options shape = false) :
    WantsStand host existing options (shapes ++ [shape]) wants := by
  have hasks : ∀ wantedKey, asksFor host options wantedKey shape = false := by
    intro wantedKey
    simp [asksFor, hfind]
  apply wantsStand_skip h
  · intro want _
    exact hasks _
  · intro wantedKey hpos
    rw [hasks wantedKey] at hpos
    cases hpos

theorem wantsStand_considerShape {state : WorkloadState}
    (h : WantsStand host existing options shapes state.wants) (shape : QueryShape) :
    WantsStand host existing options (shapes ++ [shape])
      (considerShape host existing options state shape).wants := by
  rw [considerShape_wants]
  split
  · rename_i hfind
    unfold admitShape
    simp only [List.any_eq_true, beq_iff_eq]
    split
    · rename_i hany
      exact wantsStand_join h hfind hany
    · rename_i hnone
      have hnone' : ∀ want ∈ state.wants, keyText want.wantedKeys ≠ wantedKeyOf options shape :=
        fun want hwant hkey => hnone ⟨want, hwant, hkey⟩
      split
      · rename_i hserved
        exact wantsStand_served h hfind hnone' hserved
      · rename_i hserved
        exact wantsStand_open h hfind hnone' (Bool.eq_false_iff.mpr hserved)
  · rename_i hfind
    exact wantsStand_gated h (Bool.eq_false_iff.mpr hfind)

variable (host existing options)

theorem wantsStand_wantsOf (shapes : List QueryShape) :
    WantsStand host existing options shapes (wantsOf host existing options shapes).wants := by
  induction shapes using List.reverseRecOn with
  | nil => exact ⟨by simp [wantsOf], by simp [standing]⟩
  | append_singleton shapes shape ih =>
    rw [wantsOf, List.foldl_append]
    exact wantsStand_considerShape ih shape

end Standing

/-! ## Folds -/

theorem absorbs_iff (narrow wide : Want) :
    absorbs narrow wide = true ↔
      (narrow.partialFilter = none ∧ wide.partialFilter = none) ∧
        narrow.blocks.equality ⊆ wide.blocks.equality ∧
        (sortFromEquality narrow wide = true ∨
          (narrow.blocks.equality.length = wide.blocks.equality.length ∨
            narrow.blocks.sort = []) ∧
          directedPrefixOrEqual narrow.blocks.sort wide.blocks.sort = true) ∧
        narrow.blocks.range ⊆
          wide.blocks.equality ++ fieldNames wide.blocks.sort ++ wide.blocks.range ∧
        wide.lead ⊆ narrow.blocks.equality ++
          (if sortFromEquality narrow wide then fieldNames narrow.blocks.sort else []) := by
  simp only [absorbs, Bool.if_false_left, Bool.and_eq_true, Bool.not_eq_true',
    decide_eq_false_iff_not]
  cases sortFromEquality narrow wide <;>
    simp [List.subset_def, or_iff_not_imp_left, List.length_eq_zero_iff, and_assoc]

theorem lastAbsorber_some {later before after : List Want} {widest : Want}
    (h : lastAbsorber want later = some (before, widest, after)) :
    later = before ++ widest :: after ∧ absorbs want widest = true := by
  induction later using lastAbsorber.induct want generalizing before with
  | case1 => cases h
  | case2 other rest before' widest' after' hrest ih =>
    simp only [lastAbsorber, hrest, Option.some.injEq, Prod.mk.injEq] at h
    obtain ⟨rfl, rfl, rfl⟩ := h
    obtain ⟨hsplit, habs⟩ := ih hrest
    exact ⟨congrArg (List.cons other) hsplit, habs⟩
  | case3 other rest hrest habs =>
    simp only [lastAbsorber, hrest, habs, if_true, Option.some.injEq, Prod.mk.injEq] at h
    obtain ⟨rfl, rfl, rfl⟩ := h
    exact ⟨rfl, habs⟩
  | case4 other rest hrest habs => simp [lastAbsorber, hrest, habs] at h

/-- Every fold of the consolidation meets `C`, read where it happens. -/
def FoldsMeet (C : Want → Want → Prop) : Nat → List Want → Prop
  | 0, _ => True
  | _ + 1, [] => True
  | turns + 1, want :: later =>
    match lastAbsorber want later with
    | some (before, widest, after) =>
      C want widest ∧ FoldsMeet C turns (before ++ absorb want widest :: after)
    | none => FoldsMeet C turns later

instance decidableFoldsMeet (C : Want → Want → Prop) [∀ want widest, Decidable (C want widest)] :
    ∀ turns wants, Decidable (FoldsMeet C turns wants)
  | 0, _ => isTrue trivial
  | _ + 1, [] => isTrue trivial
  | turns + 1, want :: later =>
    match h : lastAbsorber want later with
    | some (before, widest, after) =>
      have := decidableFoldsMeet C turns (before ++ absorb want widest :: after)
      decidable_of_iff
        (C want widest ∧ FoldsMeet C turns (before ++ absorb want widest :: after))
        (by simp only [FoldsMeet, h])
    | none =>
      have := decidableFoldsMeet C turns later
      decidable_of_iff (FoldsMeet C turns later) (by simp only [FoldsMeet, h])

/-- Wants that are apart to begin with, in a way that folds keep, are apart at every fold. -/
theorem foldsMeet_of_apart {R : Want → Want → Prop} (hsymm : ∀ a b, R a b → R b a)
    (hapart : ∀ want widest other, R want other → R widest other → R (absorb want widest) other)
    (turns : Nat) (wants : List Want) (hpairs : wants.Pairwise R) : FoldsMeet R turns wants := by
  induction turns, wants using survivorsOf.induct with
  | case1 => trivial
  | case2 => trivial
  | case3 turns want later before widest after hlast ih =>
    obtain ⟨hfirst, hrest⟩ := List.pairwise_cons.mp hpairs
    obtain ⟨rfl, -⟩ := lastAbsorber_some hlast
    simp only [FoldsMeet, hlast]
    -- being apart does not depend on the order, so the two wants of the fold come first
    have hmoved : (before ++ widest :: after).Perm (widest :: (before ++ after)) :=
      List.perm_middle
    obtain ⟨hboth, hwant⟩ := List.forall_mem_cons.mp
      fun other ho => hfirst other (hmoved.mem_iff.mpr ho)
    obtain ⟨hwidest, hothers⟩ := List.pairwise_cons.mp (hmoved.pairwise hrest (hsymm _ _))
    refine ⟨hboth, ih ?_⟩
    refine List.perm_middle.symm.pairwise (List.pairwise_cons.mpr ⟨?_, hothers⟩) (hsymm _ _)
    intro other ho
    exact hapart want widest other (hwant other ho) (hwidest other ho)
  | case4 turns want later hlast ih =>
    simp only [FoldsMeet, hlast]
    exact ih (List.pairwise_cons.mp hpairs).2

theorem foldsMeet_true (turns : Nat) (wants : List Want) :
    FoldsMeet (fun _ _ => True) turns wants :=
  foldsMeet_of_apart (fun _ _ => id) (fun _ _ _ _ => id) turns wants
    (List.pairwise_of_forall fun _ _ => trivial)

theorem survivorsOf_forall {P : Want → Prop}
    (hfold : ∀ want widest, P want → P widest → absorbs want widest = true → C want widest →
      P (absorb want widest)) (turns : Nat) (wants : List Want) (hwants : ∀ want ∈ wants, P want)
    (hmeet : FoldsMeet C turns wants) : ∀ want ∈ survivorsOf turns wants, P want := by
  induction turns, wants using survivorsOf.induct with
  | case1 => simp [survivorsOf]
  | case2 => simp [survivorsOf]
  | case3 turns want later before widest after hlast ih =>
    obtain ⟨rfl, habs⟩ := lastAbsorber_some hlast
    simp only [FoldsMeet, hlast] at hmeet
    simp only [survivorsOf, hlast]
    simp only [List.forall_mem_cons, List.forall_mem_append] at hwants
    obtain ⟨hwant, hbefore, hwidest, hafter⟩ := hwants
    refine ih ?_ hmeet.2
    simp only [List.forall_mem_cons, List.forall_mem_append]
    exact ⟨hbefore, hfold want widest hwant hwidest habs hmeet.1, hafter⟩
  | case4 turns want later hlast ih =>
    simp only [FoldsMeet, hlast] at hmeet
    simp only [survivorsOf, hlast]
    obtain ⟨hwant, hlater⟩ := List.forall_mem_cons.mp hwants
    exact List.forall_mem_cons.mpr ⟨hwant, ih hlater hmeet⟩

def ConsolidationMeets (C : Want → Want → Prop) (wants : List Want) : Prop :=
  FoldsMeet C wants.length (sortedWants wants)

instance (C : Want → Want → Prop) [∀ want widest, Decidable (C want widest)]
    (wants : List Want) : Decidable (ConsolidationMeets C wants) :=
  decidableFoldsMeet C wants.length (sortedWants wants)

/-- Folding moves shapes from want to want: with a turn for each want, none is lost and
none is counted twice. -/
theorem survivorsOf_sources_perm (turns : Nat) (wants : List Want) (hturns : wants.length ≤ turns) :
    ((survivorsOf turns wants).flatMap Want.sourceShapes).Perm (wants.flatMap Want.sourceShapes) := by
  induction turns, wants using survivorsOf.induct with
  | case1 =>
    rw [List.length_eq_zero_iff.mp (Nat.le_zero.mp hturns)]
    exact List.Perm.refl _
  | case2 => exact List.Perm.refl _
  | case3 turns want later before widest after hlast ih =>
    obtain ⟨rfl, -⟩ := lastAbsorber_some hlast
    have hsources : (absorb want widest).sourceShapes =
        widest.sourceShapes ++ want.sourceShapes := rfl
    simp only [survivorsOf, hlast]
    apply (ih (by simpa using hturns)).trans
    simp only [List.flatMap_append, List.flatMap_cons, hsources]
    rw [List.append_assoc widest.sourceShapes]
    exact ((List.perm_append_comm_assoc _ _ _).append_left _).trans
      (List.perm_append_comm_assoc _ _ _)
  | case4 turns want later hlast ih =>
    simp only [survivorsOf, hlast, List.flatMap_cons]
    exact (ih (by simpa using hturns)).append_left _

theorem mem_sortedWants :
    want ∈ sortedWants wants ↔ want ∈ wants :=
  List.mem_insertionSort _

theorem consolidate_forall (P : Want → Prop)
    (hfold : ∀ want widest, P want → P widest → absorbs want widest = true → C want widest →
      P (absorb want widest)) (hwants : ∀ want ∈ wants, P want)
    (hmeet : ConsolidationMeets C wants) :
    ∀ want ∈ consolidate wants, P want := by
  apply survivorsOf_forall hfold _ _ _ hmeet
  intro want hwant
  exact hwants want (mem_sortedWants.mp hwant)

theorem consolidate_sources_perm (wants : List Want) :
    ((consolidate wants).flatMap Want.sourceShapes).Perm (wants.flatMap Want.sourceShapes) := by
  have hsorted : (sortedWants wants).Perm wants := List.perm_insertionSort _ wants
  have hkept := survivorsOf_sources_perm wants.length (sortedWants wants) (le_of_eq hsorted.length_eq)
  exact hkept.trans (hsorted.flatMap_right _)

/-! ## Candidates -/

section Candidates
variable (host : Host) (stringify : ConstantValue → String) (existing : List IndexSpec)
variable (options : CreateOptions) (shapes : List QueryShape)

theorem candidateOf_fields (want : Want) :
    (candidateOf host stringify existing want).partialFilter = want.partialFilter ∧
      (candidateOf host stringify existing want).sourceShapes = want.sourceShapes ∧
      (candidateOf host stringify existing want).keys = want.wantedKeys := by
  unfold candidateOf
  cases extendable host existing want with
  | some index => exact ⟨rfl, rfl, rfl⟩
  | none =>
    simp only
    split <;> exact ⟨rfl, rfl, rfl⟩

theorem exists_survivor {candidate : CreateCandidate}
    (h : candidate ∈ (recommendCreates host stringify shapes existing options).candidates) :
    ∃ want ∈ consolidate (wantsOf host existing options shapes).wants,
      candidate.keys = leadWith want ∧ candidate.partialFilter = want.partialFilter ∧
        candidate.sourceShapes = want.sourceShapes := by
  obtain ⟨led, hled, rfl⟩ := List.mem_map.mp h
  obtain ⟨want, hwant, rfl⟩ := List.mem_map.mp (List.mem_filter.mp hled).1
  obtain ⟨hheld, hsources, hkeys⟩ := candidateOf_fields host stringify existing
    { want with wantedKeys := leadWith want }
  exact ⟨want, hwant, hkeys, hheld, hsources⟩

end Candidates

end Indexterity
