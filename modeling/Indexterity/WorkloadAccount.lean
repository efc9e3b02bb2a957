import Indexterity.WorkloadLoops

/-!
# Every shape accounted for

A shape that scans or sorts in memory is declined at a gate, declined as served, or put
behind a want; folding moves it to another want, and the want it ends in is proposed or
declined with all that stands behind it. So what is declined and what stands behind the
candidates are together the shapes the loop looked at, each as often as it was listed.
-/

namespace Indexterity

def isFinding (shape : QueryShape) : Bool := shape.collscan || shape.sortedInMemory

def wantKey (want : Want) : String := keyText want.wantedKeys

/-! ## The first loop -/

/-- What the first loop has seen is declined or stands behind a want, and no two wants
have a key in common. -/
structure Accounts (seen : List QueryShape) (state : WorkloadState) : Prop where
  sources : (state.declines.map Prod.fst ++ state.wants.flatMap Want.sourceShapes).Perm
    (seen.filter isFinding)
  keys : (state.wants.map wantKey).Nodup

theorem flatMap_joinWant_perm {wants : List Want} (hkeys : (wants.map wantKey).Nodup)
    {key : String} (hmem : key ∈ wants.map wantKey) (shape : QueryShape) :
    ((wants.map fun want => if wantKey want = key then joinWant want shape else want).flatMap
      Want.sourceShapes).Perm (wants.flatMap Want.sourceShapes ++ [shape]) := by
  induction wants with
  | nil => cases hmem
  | cons want wants ih =>
    obtain ⟨hnot, hkeys⟩ := List.nodup_cons.mp hkeys
    by_cases hkey : wantKey want = key
    · -- the want of the key, so the others stay as they are
      have hothers : (wants.map fun want =>
          if wantKey want = key then joinWant want shape else want) = wants := by
        refine (List.map_congr_left ?_).trans (List.map_id wants)
        intro other hother
        have hne : wantKey other ≠ key := by
          intro hsame
          rw [hkey, ← hsame] at hnot
          exact hnot (List.mem_map_of_mem hother)
        exact if_neg hne
      rw [List.map_cons, if_pos hkey, hothers, List.flatMap_cons, List.flatMap_cons]
      simp only [joinWant, List.append_assoc]
      exact (List.perm_append_comm).append_left _
    · have hrest : key ∈ wants.map wantKey := by
        rcases List.mem_cons.mp hmem with hsame | hrest
        · exact absurd hsame.symm hkey
        · exact hrest
      rw [List.map_cons, if_neg hkey, List.flatMap_cons, List.flatMap_cons, List.append_assoc]
      exact (ih hkeys hrest).append_left _

section Steps
variable {seen : List QueryShape} {state : WorkloadState} {shape : QueryShape}

theorem filter_isFinding_concat (hfinding : isFinding shape = true) :
    (seen ++ [shape]).filter isFinding = seen.filter isFinding ++ [shape] := by
  rw [List.filter_append, List.filter_cons_of_pos hfinding, List.filter_nil]

theorem Accounts.skip (h : Accounts seen state) (hfinding : isFinding shape = false) :
    Accounts (seen ++ [shape]) state := by
  refine ⟨?_, h.keys⟩
  rw [List.filter_append, List.filter_cons_of_neg (by simp [hfinding]), List.filter_nil,
    List.append_nil]
  exact h.sources

theorem Accounts.decline (h : Accounts seen state) (hfinding : isFinding shape = true)
    (reason : ShapeDecline) : Accounts (seen ++ [shape]) (state.decline shape reason) := by
  refine ⟨?_, h.keys⟩
  rw [filter_isFinding_concat hfinding]
  simp only [WorkloadState.decline, List.map_append, List.map_cons, List.map_nil,
    List.append_assoc]
  refine List.Perm.trans ?_ (h.sources.append_right [shape])
  rw [List.append_assoc]
  exact List.perm_append_comm.append_left _

variable (host : Host) (existing : List IndexSpec) (options : CreateOptions)
    (h : Accounts seen state)
include host h

theorem Accounts.admit (hfinding : isFinding shape = true) :
    Accounts (seen ++ [shape]) (admitShape host existing options state shape) := by
  unfold admitShape
  simp only [List.any_eq_true, beq_iff_eq]
  split
  · rename_i hany
    obtain ⟨want, hwant, hkey⟩ := hany
    have hmem : keyText (askedOf options shape).wantedKeys ∈ state.wants.map wantKey :=
      List.mem_map.mpr ⟨want, hwant, hkey⟩
    refine ⟨?_, ?_⟩
    · rw [filter_isFinding_concat hfinding]
      refine List.Perm.trans ?_ (h.sources.append_right [shape])
      rw [List.append_assoc]
      exact (flatMap_joinWant_perm h.keys hmem shape).append_left _
    · -- a want keeps its key when a shape joins it
      have hsame : ∀ want : Want, wantKey (if keyText want.wantedKeys =
          keyText (askedOf options shape).wantedKeys then joinWant want shape else want) =
            wantKey want := by
        intro want
        split <;> rfl
      simp only [List.map_map, Function.comp_def, hsame]
      exact h.keys
  · split
    · exact h.decline hfinding .indexExists
    · rename_i hnone hserved
      refine ⟨?_, ?_⟩
      · rw [filter_isFinding_concat hfinding]
        simp only [List.flatMap_append, List.flatMap_cons, List.flatMap_nil, List.append_nil]
        rw [← List.append_assoc]
        exact h.sources.append_right [shape]
      · rw [List.map_append, List.nodup_append]
        refine ⟨h.keys, List.nodup_singleton _, ?_⟩
        intro key hkey other hother hsame
        obtain ⟨want, hwant, rfl⟩ := List.mem_map.mp hkey
        rw [List.map_singleton, List.mem_singleton] at hother
        exact hnone ⟨want, hwant, hsame.trans hother⟩

theorem accounts_considerShape :
    Accounts (seen ++ [shape]) (considerShape host existing options state shape) := by
  unfold considerShape
  split
  · rename_i hquiet
    apply h.skip
    simpa [isFinding] using hquiet
  · rename_i hseen
    have hfinding : isFinding shape = true := by
      cases hcase : isFinding shape with
      | true => rfl
      | false => exact absurd (by simpa [isFinding] using hcase) hseen
    split
    · exact h.decline hfinding _
    · split
      · exact h.decline hfinding _
      · split
        · exact h.decline hfinding _
        · exact h.admit host existing options hfinding

end Steps

theorem accounts_wantsOf (host : Host) (existing : List IndexSpec) (options : CreateOptions)
    (shapes : List QueryShape) : Accounts shapes (wantsOf host existing options shapes) := by
  induction shapes using List.reverseRecOn with
  | nil => exact ⟨List.Perm.refl _, List.nodup_nil⟩
  | append_singleton shapes shape ih =>
    rw [wantsOf, List.foldl_append]
    exact accounts_considerShape host existing options ih

/-! ## The whole call -/

section Call
variable (host : Host) (stringify : ConstantValue → String) (existing : List IndexSpec)
variable (options : CreateOptions) (shapes : List QueryShape)

def declined : List QueryShape :=
  (recommendCreates host stringify shapes existing options).declines.map Prod.fst

theorem sources_ledWants_perm (wants : List Want) :
    ((ledWants wants).flatMap Want.sourceShapes).Perm (wants.flatMap Want.sourceShapes) := by
  rw [ledWants, List.flatMap_map]
  exact consolidate_sources_perm wants

theorem sources_candidates (wants : List Want) :
    (wants.map (candidateOf host stringify existing)).flatMap CreateCandidate.sourceShapes =
      wants.flatMap Want.sourceShapes := by
  rw [List.flatMap_map]
  apply List.flatMap_congr
  intro want _
  exact (candidateOf_fields host stringify existing want).2.1

theorem declined_append_sources_perm :
    (declined host stringify existing options shapes ++
      (recommendCreates host stringify shapes existing options).candidates.flatMap
        CreateCandidate.sourceShapes).Perm (shapes.filter isFinding) := by
  have hloop := (accounts_wantsOf host existing options shapes).sources
  have hled := sources_ledWants_perm (wantsOf host existing options shapes).wants
  have hsplit := ((ledWants (wantsOf host existing options shapes).wants).filter_append_perm
    (alreadyBuilt existing)).flatMap_right Want.sourceShapes
  rw [List.flatMap_append] at hsplit
  unfold declined recommendCreates
  simp only [List.map_append, sources_candidates, List.map_flatMap, List.map_map,
    Function.comp_def, List.map_id', List.append_assoc]
  exact ((hsplit.trans hled).append_left _).trans hloop

theorem exists_split_of_count_one {α : Type} (f : α → List QueryShape) (shape : QueryShape)
    (xs : List α) (h : (xs.flatMap f).count shape = 1) :
    ∃ before x after, xs = before ++ x :: after ∧ (f x).count shape = 1 ∧
      ∀ other ∈ before ++ after, shape ∉ f other := by
  obtain ⟨x, hx, hmem⟩ := List.mem_flatMap.mp (List.count_pos_iff.mp (h ▸ Nat.one_pos))
  obtain ⟨before, after, rfl⟩ := List.append_of_mem hx
  have hpos := List.count_pos_iff.mpr hmem
  simp only [List.flatMap_append, List.flatMap_cons, List.count_append] at h
  refine ⟨before, x, after, rfl, by omega, ?_⟩
  intro other hother hin
  have hothers := List.count_pos_iff.mpr (List.mem_flatMap.mpr ⟨other, hother, hin⟩)
  rw [List.flatMap_append, List.count_append] at hothers
  omega

/-- Of distinct shapes each finding is declined once or stands once behind one candidate,
and nothing else is declined or stands behind any. -/
theorem findings_accounted_once (hdistinct : shapes.Nodup) (shape : QueryShape) :
    let candidates := (recommendCreates host stringify shapes existing options).candidates
    let declines := (declined host stringify existing options shapes).count shape
    (shape ∈ shapes ∧ isFinding shape = true →
      (declines = 1 ∧ ∀ candidate ∈ candidates, shape ∉ candidate.sourceShapes) ∨
        (declines = 0 ∧ ∃ before candidate after, candidates = before ++ candidate :: after ∧
          candidate.sourceShapes.count shape = 1 ∧
          ∀ other ∈ before ++ after, shape ∉ other.sourceShapes)) ∧
      (¬ (shape ∈ shapes ∧ isFinding shape = true) →
        declines = 0 ∧ ∀ candidate ∈ candidates, shape ∉ candidate.sourceShapes) := by
  intro candidates declines
  have hperm := declined_append_sources_perm host stringify existing options shapes
  have htotal : declines + (candidates.flatMap CreateCandidate.sourceShapes).count shape =
      (shapes.filter isFinding).count shape := by
    rw [← List.count_append]
    exact hperm.count_eq shape
  have hnone : (candidates.flatMap CreateCandidate.sourceShapes).count shape = 0 →
      ∀ candidate ∈ candidates, shape ∉ candidate.sourceShapes := by
    intro hzero candidate hcandidate hmem
    exact List.count_eq_zero.mp hzero (List.mem_flatMap.mpr ⟨candidate, hcandidate, hmem⟩)
  constructor
  · intro hfinding
    have hone : (shapes.filter isFinding).count shape = 1 :=
      List.count_eq_one_of_mem (hdistinct.filter _) (List.mem_filter.mpr hfinding)
    rw [hone] at htotal
    rcases Nat.eq_zero_or_pos declines with hzero | hpos
    · refine Or.inr ⟨hzero, exists_split_of_count_one _ shape candidates ?_⟩
      omega
    · exact Or.inl ⟨by omega, hnone (by omega)⟩
  · intro hother
    have hzero : (shapes.filter isFinding).count shape = 0 :=
      List.count_eq_zero_of_not_mem fun hmem => hother (List.mem_filter.mp hmem)
    rw [hzero] at htotal
    exact ⟨by omega, hnone (by omega)⟩

end Call

/-- Two shapes behind one candidate: the second is neither lost nor declined. -/
theorem findings_accounted_once_folded :
    let narrow := scanOf ["a"] [] []
    let shapes := [scanOf ["b", "a"] [] [], narrow]
    let candidates := (recommendCreates decimalHost (fun _ => "") shapes [] everyScan).candidates
    let declines := (declined decimalHost (fun _ => "") [] everyScan shapes).count narrow
    shapes.Nodup ∧
      ((declines = 1 ∧ ∀ candidate ∈ candidates, narrow ∉ candidate.sourceShapes) ∨
        (declines = 0 ∧ ∃ before candidate after, candidates = before ++ candidate :: after ∧
          candidate.sourceShapes.count narrow = 1 ∧
          ∀ other ∈ before ++ after, narrow ∉ other.sourceShapes)) :=
  ⟨by decide, (findings_accounted_once decimalHost (fun _ => "") [] everyScan _ (by decide) _).1
    (by decide)⟩

/-!
## The frequency behind a candidate

Counts travel apart from the shapes. A fold adds the folded want's count to the wider
one, but a shape that joins a want brings no count with it: what a candidate counts is
the sum over the shapes that opened a want, one for each wanted key behind it.
-/

def countSum (shapes : List QueryShape) : Int := (shapes.map QueryShape.count).sum

@[simp] theorem countSum_cons (shape : QueryShape) (shapes : List QueryShape) :
    countSum (shape :: shapes) = shape.count + countSum shapes := by
  simp [countSum]

@[simp] theorem countSum_append (a b : List QueryShape) :
    countSum (a ++ b) = countSum a + countSum b := by
  simp [countSum]

theorem countSum_perm {a b : List QueryShape} (h : a.Perm b) : countSum a = countSum b :=
  (h.map _).sum_eq

theorem count_candidateOf (host : Host) (stringify : ConstantValue → String)
    (existing : List IndexSpec) (want : Want) :
    (candidateOf host stringify existing want).count = want.shape.count + want.absorbedCount := by
  unfold candidateOf
  cases extendable host existing want with
  | some index => rfl
  | none =>
    simp only
    split <;> rfl

variable {want : Want}

section Ledger
variable (host : Host) (existing : List IndexSpec) (options : CreateOptions)
variable (shapes : List QueryShape)

def keysBehind (want : Want) : List String :=
  (want.sourceShapes.map (wantedKeyOf options)).dedup

def joiners (wantedKey : String) : List QueryShape :=
  (standing host existing options shapes wantedKey).tail

/-- A want as the first loop leaves it counts the shape that opened it. -/
structure Opened (want : Want) : Prop where
  first : want.sourceShapes.head? = some want.shape
  unfolded : want.absorbedCount = 0

theorem opened_admitShape {state : WorkloadState} (h : ∀ want ∈ state.wants, Opened want)
    (shape : QueryShape) : ∀ want ∈ (admitShape host existing options state shape).wants,
      Opened want := by
  unfold admitShape
  simp only
  split
  · intro want hwant
    obtain ⟨old, hold, rfl⟩ := List.mem_map.mp hwant
    have hopened := h old hold
    split
    · refine ⟨?_, hopened.unfolded⟩
      simp only [joinWant, List.head?_append, hopened.first, Option.some_or]
    · exact hopened
  · split
    · exact h
    · intro want hwant
      rcases List.mem_append.mp hwant with hwant | hwant
      · exact h want hwant
      · rw [List.mem_singleton.mp hwant]
        exact ⟨rfl, rfl⟩

theorem opened_wantsOf : ∀ want ∈ (wantsOf host existing options shapes).wants, Opened want := by
  induction shapes using List.reverseRecOn with
  | nil =>
    intro want hwant
    cases hwant
  | append_singleton shapes shape ih =>
    rw [wantsOf, List.foldl_append, List.foldl_cons, List.foldl_nil, considerShape_wants]
    split
    · exact opened_admitShape host existing options ih shape
    · exact ih

/-- The shapes behind a want are all that stand under some keys, and it counts the first
of each. -/
structure Ledger (want : Want) (keys : List String) : Prop where
  nodup : keys.Nodup
  nonempty : ∀ key ∈ keys, standing host existing options shapes key ≠ []
  sources : want.sourceShapes.Perm (keys.flatMap (standing host existing options shapes))
  counted : want.shape.count + want.absorbedCount + countSum (keys.flatMap
    (joiners host existing options shapes)) = countSum want.sourceShapes

theorem ledger_of_standsFor {first : QueryShape} {rest : List QueryShape}
    (h : StandsFor host existing options shapes want first rest) (hopened : Opened want) :
    Ledger host existing options shapes want [keyText want.wantedKeys] := by
  have hstanding := h.standing
  have hfirst := hopened.first
  rw [h.sourceShapes, List.head?_cons, Option.some.injEq] at hfirst
  refine ⟨List.nodup_singleton _, ?_, ?_, ?_⟩
  · intro key hkey
    rw [List.mem_singleton.mp hkey, hstanding]
    exact List.cons_ne_nil _ _
  · simp [hstanding, h.sourceShapes]
  · simp [joiners, hstanding, h.sourceShapes, hopened.unfolded, hfirst]

variable {host existing options shapes}

theorem wantedKeyOf_of_mem_standing {shape : QueryShape} {key : String}
    (h : shape ∈ standing host existing options shapes key) : wantedKeyOf options shape = key := by
  have hasks := (mem_of_mem_standing host existing options h).2
  exact beq_iff_eq.mp (Bool.and_eq_true_iff.mp hasks).2

section
variable {keys : List String} (h : Ledger host existing options shapes want keys)
include h

theorem Ledger.mem_keys_iff (key : String) :
    key ∈ keys ↔ ∃ shape ∈ want.sourceShapes, wantedKeyOf options shape = key := by
  constructor
  · intro hkey
    obtain ⟨shape, hshape⟩ := List.exists_mem_of_ne_nil _ (h.nonempty key hkey)
    refine ⟨shape, ?_, wantedKeyOf_of_mem_standing hshape⟩
    exact h.sources.mem_iff.mpr (List.mem_flatMap.mpr ⟨key, hkey, hshape⟩)
  · rintro ⟨shape, hshape, rfl⟩
    obtain ⟨key, hkey, hmem⟩ := List.mem_flatMap.mp (h.sources.mem_iff.mp hshape)
    rw [wantedKeyOf_of_mem_standing hmem]
    exact hkey

theorem Ledger.keys_perm :
    keys.Perm (keysBehind options want) := by
  apply (List.perm_ext_iff_of_nodup h.nodup (List.nodup_dedup _)).mpr
  intro key
  rw [List.mem_dedup, List.mem_map]
  exact h.mem_keys_iff key

end

/-- No shape behind the one asks for a key that a shape behind the other asks for. -/
def KeysApart (options : CreateOptions) (a b : Want) : Prop :=
  ∀ x ∈ a.sourceShapes, ∀ y ∈ b.sourceShapes, wantedKeyOf options x ≠ wantedKeyOf options y

theorem keysApart_absorb {widest other : Want} (h : KeysApart options want other)
    (h' : KeysApart options widest other) : KeysApart options (absorb want widest) other := by
  intro x hx
  rcases List.mem_append.mp hx with hx | hx
  · exact h' x hx
  · exact h x hx

theorem ledger_absorb {widest : Want} (h : ∃ keys, Ledger host existing options shapes want keys)
    (h' : ∃ keys, Ledger host existing options shapes widest keys)
    (hapart : KeysApart options want widest) :
    ∃ keys, Ledger host existing options shapes (absorb want widest) keys := by
  obtain ⟨keys, h⟩ := h
  obtain ⟨keys', h'⟩ := h'
  have hsources : (absorb want widest).sourceShapes =
      widest.sourceShapes ++ want.sourceShapes := rfl
  refine ⟨keys' ++ keys, ?_, ?_, ?_, ?_⟩
  · refine List.nodup_append.mpr ⟨h'.nodup, h.nodup, ?_⟩
    intro key hkey other hother hsame
    obtain ⟨y, hy, hyk⟩ := (h'.mem_keys_iff key).mp hkey
    obtain ⟨x, hx, hxk⟩ := (h.mem_keys_iff other).mp hother
    exact hapart x hx y hy (by rw [hxk, hyk, hsame])
  · intro key hkey
    rcases List.mem_append.mp hkey with hkey | hkey
    · exact h'.nonempty key hkey
    · exact h.nonempty key hkey
  · rw [hsources, List.flatMap_append]
    exact h'.sources.append h.sources
  · have hcounted := h.counted
    have hcounted' := h'.counted
    rw [hsources, List.flatMap_append, countSum_append, countSum_append]
    simp only [absorb]
    omega

variable (host existing options shapes)

theorem keysApart_wantsOf :
    (wantsOf host existing options shapes).wants.Pairwise (KeysApart options) := by
  have hkeys := List.pairwise_map.mp (accounts_wantsOf host existing options shapes).keys
  have hstands := (wantsStand_wantsOf host existing options shapes).stands
  apply hkeys.imp_of_mem
  intro a b ha hb hne x hx y hy hsame
  obtain ⟨_, _, hsa⟩ := hstands a ha
  obtain ⟨_, _, hsb⟩ := hstands b hb
  apply hne
  rw [wantKey, wantKey, ← (hsa.asks hx).2.2, ← (hsb.asks hy).2.2, hsame]

section
variable (hwant : want ∈ ledWants (wantsOf host existing options shapes).wants)
include hwant

theorem ledger_ledWants :
    ∃ keys, Ledger host existing options shapes want keys := by
  obtain ⟨survivor, hsurvivor, rfl⟩ := List.mem_map.mp hwant
  have hledger : ∃ keys, Ledger host existing options shapes survivor keys := by
    have hmeet : ConsolidationMeets (KeysApart options) (wantsOf host existing options shapes).wants := by
      have hsymm : ∀ a b, KeysApart options a b → KeysApart options b a :=
        fun _ _ h x hx y hy hsame => h y hy x hx hsame.symm
      refine foldsMeet_of_apart hsymm (fun _ _ _ => keysApart_absorb) _ _ ?_
      exact (List.perm_insertionSort _ _).symm.pairwise
        (keysApart_wantsOf host existing options shapes) (hsymm _ _)
    refine consolidate_forall (fun want => ∃ keys, Ledger host existing options shapes want keys)
      (fun _ _ h h' _ => ledger_absorb h h') (fun opened hopened => ?_) hmeet survivor hsurvivor
    obtain ⟨_, _, hstands⟩ :=
      (wantsStand_wantsOf host existing options shapes).stands opened hopened
    exact ⟨_, ledger_of_standsFor host existing options shapes hstands
      (opened_wantsOf host existing options shapes opened hopened)⟩
  -- the led keys are no part of the ledger
  obtain ⟨keys, h⟩ := hledger
  exact ⟨keys, h.nodup, h.nonempty, h.sources, h.counted⟩

theorem count_add_joiners :
    want.shape.count + want.absorbedCount +
      countSum ((keysBehind options want).flatMap (joiners host existing options shapes)) =
        countSum want.sourceShapes := by
  obtain ⟨keys, h⟩ := ledger_ledWants host existing options shapes hwant
  rw [← countSum_perm (h.keys_perm.flatMap_right _)]
  exact h.counted

end

theorem exists_led_of_standing {wantedKey : String} {shape : QueryShape}
    (hshape : shape ∈ standing host existing options shapes wantedKey) :
    ∃ want ∈ ledWants (wantsOf host existing options shapes).wants,
      shape ∈ want.sourceShapes := by
  have hloop := wantsStand_wantsOf host existing options shapes
  obtain ⟨want, hwant, rfl⟩ := hloop.wanted wantedKey (List.ne_nil_of_mem hshape)
  obtain ⟨first, rest, hstands⟩ := hloop.stands want hwant
  rw [hstands.standing, ← hstands.sourceShapes] at hshape
  have hled := sources_ledWants_perm (wantsOf host existing options shapes).wants
  exact List.mem_flatMap.mp (hled.mem_iff.mpr (List.mem_flatMap.mpr ⟨want, hwant, hshape⟩))

/-- Every candidate counts the sum over its shapes where a shape that joins a want, behind the
first of its wanted key, counts nothing; and of counts that are not negative nowhere else, except
for joiners that end up declined. -/
theorem count_eq_sum_of_joiners (stringify : ConstantValue → String) :
    let result := recommendCreates host stringify shapes existing options
    let Summed := ∀ candidate ∈ result.candidates, candidate.count = countSum candidate.sourceShapes
    let Joins (shape : QueryShape) :=
      shape ∈ joiners host existing options shapes (wantedKeyOf options shape)
    ((∀ shape ∈ shapes, Joins shape → shape.count = 0) → Summed) ∧
    ((∀ shape ∈ shapes, 0 ≤ shape.count) → Summed → ∀ shape ∈ shapes, Joins shape →
      shape.count = 0 ∨ shape ∈ declined host stringify existing options shapes) := by
  intro result Summed Joins
  refine ⟨fun hnone candidate hcandidate => ?_, fun hcounts hsum shape hin hshape => ?_⟩
  · obtain ⟨want, hwant, rfl⟩ := List.mem_map.mp hcandidate
    have htotal := count_add_joiners host existing options shapes (List.mem_filter.mp hwant).1
    have hzero : countSum ((keysBehind options want).flatMap
        (joiners host existing options shapes)) = 0 := by
      refine List.sum_eq_zero fun count hcount => ?_
      obtain ⟨joiner, hjoiner, rfl⟩ := List.mem_map.mp hcount
      obtain ⟨key, -, hkey⟩ := List.mem_flatMap.mp hjoiner
      have hstanding := List.mem_of_mem_tail hkey
      obtain rfl := wantedKeyOf_of_mem_standing hstanding
      exact hnone joiner (mem_of_mem_standing host existing options hstanding).1 hkey
    rw [count_candidateOf, (candidateOf_fields host stringify existing want).2.1]
    omega
  · have hstanding := List.mem_of_mem_tail hshape
    obtain ⟨want, hwant, hbehind⟩ := exists_led_of_standing host existing options shapes hstanding
    cases hbuilt : alreadyBuilt existing want with
    | true =>
      refine .inr (List.mem_map.mpr ⟨(shape, .indexExists), ?_, rfl⟩)
      refine List.mem_append_right _ (List.mem_flatMap.mpr ⟨want, ?_, ?_⟩)
      · exact List.mem_filter.mpr ⟨hwant, hbuilt⟩
      · exact List.mem_map_of_mem hbehind
    | false =>
      left
      have hcount := hsum _ (List.mem_map_of_mem (List.mem_filter.mpr ⟨hwant, by simp [hbuilt]⟩))
      have htotal := count_add_joiners host existing options shapes hwant
      rw [count_candidateOf, (candidateOf_fields host stringify existing want).2.1] at hcount
      have hkey : wantedKeyOf options shape ∈ keysBehind options want :=
        List.mem_dedup.mpr (List.mem_map_of_mem hbehind)
      have hle : shape.count ≤ countSum ((keysBehind options want).flatMap
          (joiners host existing options shapes)) := by
        refine List.single_le_sum (fun count hcount => ?_) _
          (List.mem_map_of_mem (List.mem_flatMap.mpr ⟨_, hkey, hshape⟩))
        obtain ⟨joiner, hjoiner, rfl⟩ := List.mem_map.mp hcount
        obtain ⟨key, -, hmem⟩ := List.mem_flatMap.mp hjoiner
        exact hcounts joiner (mem_of_mem_standing host existing options (List.mem_of_mem_tail hmem)).1
      have hpos := hcounts shape hin
      omega

end Ledger

/-- A shape folded into the want of another brings its count along. -/
theorem count_eq_sum_folded :
    let shapes := [scanOf ["a"] [] [], scanOf ["a", "b"] [] []]
    (∀ candidate ∈ (recommendCreates decimalHost (fun _ => "") shapes [] everyScan).candidates,
      candidate.count = countSum candidate.sourceShapes) ∧
      (recommendCreates decimalHost (fun _ => "") shapes [] everyScan).candidates.map
        CreateCandidate.count = [20] := by
  exact ⟨(count_eq_sum_of_joiners decimalHost [] everyScan _ fun _ => "").1 (by decide), by decide⟩

/-- One index for both shapes; whichever is listed first gives the count. -/
theorem count_depends_on_order :
    let rare := scanOf ["a"] [⟨"b", .asc⟩] []
    let frequent := { scanOf ["a", "b"] [] [] with count := 90 }
    let counts (shapes : List QueryShape) :=
      (recommendCreates decimalHost (fun _ => "") shapes [] everyScan).candidates.map fun candidate =>
        (candidate.count, countSum candidate.sourceShapes)
    counts [rare, frequent] = [(10, 100)] ∧ counts [frequent, rare] = [(90, 100)] := by
  decide

end Indexterity
