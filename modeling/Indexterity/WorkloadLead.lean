import Indexterity.QueryBlocks
import Indexterity.WorkloadLoops

/-!
# Where consolidation leaves the shapes it folds

An index serves a shape whose equality fields come first, in any order, with its sort
right behind them. Folding a want puts its fields at the end of the wider want's lead,
so what the lead held before stays in front. A shape keeps its place when the lead it
is appended to agrees with it; `absorbs` asks this of the want's own fields, and not of
the shapes that were folded into the want before.
-/

namespace Indexterity

open Library

/-- The keys serve the shape: its remaining equality fields first, its remaining sort
right behind them in its own directions or all reversed, its range fields anywhere. -/
def Placed (keys : List SortKey) (filter : Option ConstantFilter) (shape : QueryShape) : Prop :=
  let equality := restEquality filter shape
  let span := (keys.drop equality.length).take (restSort shape).length
  ((fieldNames keys).take equality.length).Perm equality ∧
    (span = restSort shape ∨ span = (restSort shape).map SortKey.reverse) ∧
    shape.range ⊆ fieldNames keys
  deriving Decidable

def Walks (sort : List SortKey) : Prop :=
  sort.length ≤ 1 ∨ ∀ key ∈ sort, key.direction = .asc
  deriving Decidable

def LedIn (want : Want) (blocks : KeyBlocks) : Prop :=
  LeadsWith blocks.equality (fieldNames blocks.sort) want.lead ∧ Walks blocks.sort
  deriving Decidable

def HeldIn (want : Want) (blocks : KeyBlocks) : Prop :=
  blocks.equality.Perm want.blocks.equality ∧ blocks.sort <+: want.blocks.sort
  deriving Decidable

def Settled (want : Want) (blocks : KeyBlocks) : Prop := LedIn want blocks ∨ HeldIn want blocks
  deriving Decidable

section Conditions
variable (host : Host) (existing : List IndexSpec) (options : CreateOptions)
variable (shapes : List QueryShape)

/-- What joins a want asks for its keys, moved out no field the want's filter does not
hold, and bounds no field it moved out. -/
def JoinsCleanly : Prop :=
  ∀ x ∈ shapes, ∀ first ∈ (standing host existing options shapes (wantedKeyOf options x)).head?,
    ∀ shape ∈ standing host existing options shapes (wantedKeyOf options x),
      (askedOf options shape).wantedKeys = (askedOf options first).wantedKeys ∧
        filterFields (askedOf options shape).partialFilter ⊆
          filterFields (askedOf options first).partialFilter ∧
        ∀ field ∈ shape.range, field ∉ filterFields (askedOf options shape).partialFilter
  deriving Decidable

/-- The shapes behind both wants are settled there, and the wider want's lead so far
agrees with those behind the folded one. -/
def FoldAgrees (want widest : Want) : Prop :=
  (∀ x ∈ want.sourceShapes, Settled want (blocksOf options x) ∧
    Agrees (blocksOf options x).equality (fieldNames (blocksOf options x).sort) widest.lead) ∧
    ∀ y ∈ widest.sourceShapes, Settled widest (blocksOf options y)
  deriving Decidable

end Conditions

/-! ## Wants in shape -/

/-- Keys laid out in blocks, and a lead of distinct equality fields. -/
structure Formed (want : Want) : Prop where
  laidOut : LaidOut want.wantedKeys want.blocks
  lead_subset : want.lead ⊆ want.blocks.equality
  lead_nodup : want.lead.Nodup

variable {keys : List SortKey} {blocks : KeyBlocks}

theorem LaidOut.fields (h : LaidOut keys blocks) :
    fieldNames keys = blocks.equality ++ fieldNames blocks.sort ++ blocks.range := by
  rw [h.keys_eq]
  simp

theorem LaidOut.parts (h : LaidOut keys blocks) :
    blocks.equality.Nodup ∧ (fieldNames blocks.sort).Nodup ∧
      blocks.equality.Disjoint (fieldNames blocks.sort) ∧
      blocks.equality.Disjoint blocks.range := by
  have hnodup := h.nodup
  rw [h.fields, List.append_assoc] at hnodup
  obtain ⟨hequality, hrest, hdisjoint⟩ := List.nodup_append'.mp hnodup
  rw [List.disjoint_append_right] at hdisjoint
  exact ⟨hequality, (List.nodup_append'.mp hrest).1, hdisjoint.1, hdisjoint.2⟩

theorem directedPrefixOrEqual_iff (a b : List SortKey) :
    directedPrefixOrEqual a b = true ↔ a <+: b := by
  unfold directedPrefixOrEqual
  split
  · rename_i hlong
    constructor
    · intro h
      cases h
    · intro h
      exact absurd h.length_le (Nat.not_le.mpr hlong)
  · exact zipIdx_all_iff a b

theorem sortFromEquality_spec {narrow wide : Want} (h : sortFromEquality narrow wide = true) :
    narrow.blocks.sort ≠ [] ∧ fieldNames narrow.blocks.sort ⊆ wide.blocks.equality ∧
      Walks narrow.blocks.sort := by
  simp only [sortFromEquality, sortSitsInEquality, Bool.and_eq_true, decide_eq_true_eq,
    List.all_eq_true, List.contains_iff_mem, Bool.or_eq_true, beq_iff_eq] at h
  obtain ⟨hpos, hfields, hwalks⟩ := h
  refine ⟨List.ne_nil_of_length_pos hpos, ?_, hwalks.imp_left le_of_eq⟩
  intro field hfield
  obtain ⟨key, hkey, rfl⟩ := List.mem_map.mp hfield
  exact hfields key hkey

theorem lead_absorb (want widest : Want) :
    (absorb want widest).lead = firstsBy id (widest.lead ++ (want.lead ++ want.blocks.equality ++
      (fieldNames want.blocks.sort).filter fun field =>
        widest.blocks.equality.contains field)) := by
  rw [absorb, distinct, eraseDups_eq_firstsBy]
  simp

variable {want widest : Want}

section
variable (hwant : Formed want) (hwidest : Formed widest) (habs : absorbs want widest = true)
include hwant hwidest habs

theorem formed_absorb : Formed (absorb want widest) := by
  have hequality := ((absorbs_iff want widest).mp habs).2.1
  refine ⟨hwidest.laidOut, ?_, ?_⟩
  · rw [lead_absorb]
    intro field hfield
    have hmem := firstsBy_subset _ _ hfield
    simp only [List.mem_append, List.mem_filter, List.contains_iff_mem] at hmem
    rcases hmem with hmem | (hmem | hmem) | hmem
    · exact hwidest.lead_subset hmem
    · exact hequality (hwant.lead_subset hmem)
    · exact hequality hmem
    · exact hmem.2
  · rw [lead_absorb]
    simpa using nodup_map_firstsBy id _

theorem fieldNames_subset_of_absorbs :
    fieldNames want.wantedKeys ⊆ fieldNames widest.wantedKeys := by
  obtain ⟨-, hequality, hsort, hrange, -⟩ := (absorbs_iff want widest).mp habs
  rw [hwant.laidOut.fields, hwidest.laidOut.fields]
  intro field hfield
  simp only [List.mem_append] at hfield ⊢
  rcases hfield with (hfield | hfield) | hfield
  · exact Or.inl (Or.inl (hequality hfield))
  · rcases hsort with hfrom | ⟨-, hdirected⟩
    · exact Or.inl (Or.inl ((sortFromEquality_spec hfrom).2.1 hfield))
    · have hsub := ((directedPrefixOrEqual_iff _ _).mp hdirected).subset
      obtain ⟨key, hkey, rfl⟩ := List.mem_map.mp hfield
      exact Or.inl (Or.inr (List.mem_map_of_mem (hsub hkey)))
  · simpa [or_assoc] using hrange hfield

end

/-! ## One fold -/

theorem Settled.stays (hwidest : Formed widest) (h : Settled widest blocks) :
    Settled (absorb want widest) blocks := by
  rcases h with ⟨hled, hwalks⟩ | hheld
  · refine Or.inl ⟨?_, hwalks⟩
    rw [lead_absorb]
    exact hled.firsts_append hwidest.lead_nodup _
  · exact Or.inr hheld

theorem Walks.shorten {sort shorter : List SortKey} (h : Walks sort) (hshort : shorter <+: sort) :
    Walks shorter := by
  rcases h with hlength | hasc
  · exact Or.inl (le_trans hshort.length_le hlength)
  · exact Or.inr fun key hkey => hasc key (hshort.subset hkey)

theorem perm_firstsBy_block (hwant : Formed want) :
    (firstsBy id (want.lead ++ want.blocks.equality)).Perm want.blocks.equality := by
  have hnodup := hwant.laidOut.parts.1
  rw [firstsBy_id_append hwant.lead_nodup, firstsBy_of_nodup id (by simpa using hnodup)]
  exact perm_append_filter hwant.lead_nodup hwant.lead_subset hnodup (List.Perm.refl _)

theorem firstsBy_passed (hwant : Formed want) (p : String → Bool) :
    firstsBy id (want.lead ++ want.blocks.equality ++ (fieldNames want.blocks.sort).filter p) =
      firstsBy id (want.lead ++ want.blocks.equality) ++ (fieldNames want.blocks.sort).filter p := by
  obtain ⟨-, hnodup, hdisjoint, -⟩ := hwant.laidOut.parts
  have hself : firstsBy id ((fieldNames want.blocks.sort).filter p) =
      (fieldNames want.blocks.sort).filter p :=
    firstsBy_of_nodup id (by simpa using hnodup.filter p)
  rw [firstsBy_append, hself]
  apply congrArg (List.append _)
  apply List.filter_eq_self.mpr
  intro field hfield
  have hsort : field ∈ fieldNames want.blocks.sort := (List.mem_filter.mp hfield).1
  have hnot : field ∉ want.lead ++ want.blocks.equality := by
    intro hmem
    rcases List.mem_append.mp hmem with hmem | hmem
    · exact hdisjoint (hwant.lead_subset hmem) hsort
    · exact hdisjoint hmem hsort
  simpa using hnot

section Fold
variable {want widest : Want} (hwant : Formed want) (habs : absorbs want widest = true)
include hwant habs

theorem heldIn_of_perm (hblocks : LaidOut keys blocks) (hsettled : Settled want blocks)
    (hperm : blocks.equality.Perm widest.blocks.equality) : HeldIn (absorb want widest) blocks := by
  obtain ⟨-, hequality, hsort, -, -⟩ := (absorbs_iff want widest).mp habs
  refine ⟨hperm, ?_⟩
  rcases hsettled with ⟨hled, -⟩ | ⟨hheld, hdirected⟩
  · -- its sort would stand in the equality block it binds itself
    have hnone : blocks.sort = [] := by
      apply List.eq_nil_iff_forall_not_mem.mpr
      intro key hkey
      have hlead : key.field ∈ want.lead :=
        List.mem_of_mem_drop (hled.2.subset (List.mem_map_of_mem hkey))
      have hbound := hperm.mem_iff.mpr (hequality (hwant.lead_subset hlead))
      exact hblocks.parts.2.2.1 hbound (List.mem_map_of_mem hkey)
    rw [hnone]
    exact List.nil_prefix
  · rcases hsort with hfrom | ⟨-, hwide⟩
    · obtain ⟨hne, hfields, -⟩ := sortFromEquality_spec hfrom
      obtain ⟨key, hkey⟩ := List.exists_mem_of_ne_nil _ hne
      have hfield : key.field ∈ fieldNames want.blocks.sort := List.mem_map_of_mem hkey
      have hbound := hheld.mem_iff.mp (hperm.mem_iff.mpr (hfields hfield))
      exact absurd hfield (hwant.laidOut.parts.2.2.1 hbound)
    · exact hdirected.trans ((directedPrefixOrEqual_iff _ _).mp hwide)

theorem leadsWith_passed (hsettled : Settled want blocks)
    (hperm : ¬ blocks.equality.Perm widest.blocks.equality) :
    LeadsWith blocks.equality (fieldNames blocks.sort)
      (firstsBy id (want.lead ++ want.blocks.equality ++
        (fieldNames want.blocks.sort).filter fun field =>
          widest.blocks.equality.contains field)) ∧ Walks blocks.sort := by
  obtain ⟨-, hequality, hsort, -, -⟩ := (absorbs_iff want widest).mp habs
  rcases hsettled with ⟨hled, hwalks⟩ | ⟨hheld, hdirected⟩
  · refine ⟨?_, hwalks⟩
    rw [List.append_assoc]
    exact hled.firsts_append hwant.lead_nodup _
  · rw [firstsBy_passed hwant]
    have hfront := (perm_firstsBy_block hwant).trans hheld.symm
    have hlead : ∀ sequence, fieldNames blocks.sort <+: sequence →
        LeadsWith blocks.equality (fieldNames blocks.sort)
          (firstsBy id (want.lead ++ want.blocks.equality) ++ sequence) := by
      rintro sequence ⟨rest, rfl⟩
      exact leadsWith_iff.mpr ⟨_, rest, by simp, hfront⟩
    rcases hsort with hfrom | ⟨hsame, -⟩
    · -- the whole sort is passed on, behind the block
      obtain ⟨-, hfields, hwalks⟩ := sortFromEquality_spec hfrom
      refine ⟨hlead _ ?_, hwalks.shorten hdirected⟩
      rw [List.filter_eq_self.mpr fun field hfield => List.contains_iff_mem.mpr (hfields hfield)]
      exact hdirected.map SortKey.field
    · rcases hsame with hlength | hnone
      · -- equal blocks would make the shape bind the wider block
        have hwhole : want.blocks.equality.Perm widest.blocks.equality :=
          (List.subperm_of_subset hwant.laidOut.parts.1 hequality).perm_of_length_le
            (le_of_eq hlength.symm)
        exact absurd (hheld.trans hwhole) hperm
      · have hempty : blocks.sort = [] := List.prefix_nil.mp (hnone ▸ hdirected)
        refine ⟨hlead _ ?_, Or.inl (by simp [hempty])⟩
        rw [hempty]
        exact List.nil_prefix

theorem Settled.folds (hwidest : Formed widest)
    (hblocks : LaidOut keys blocks) (hsettled : Settled want blocks)
    (hagrees : Agrees blocks.equality (fieldNames blocks.sort) widest.lead) :
    Settled (absorb want widest) blocks := by
  by_cases hperm : blocks.equality.Perm widest.blocks.equality
  · exact Or.inr (heldIn_of_perm hwant habs hblocks hsettled hperm)
  · obtain ⟨hpassed, hwalks⟩ := leadsWith_passed hwant habs hsettled hperm
    obtain ⟨hequality, hsort, hdisjoint, -⟩ := hblocks.parts
    refine Or.inl ⟨?_, hwalks⟩
    rw [lead_absorb]
    exact leadsWith_of_agrees hwidest.lead_nodup hequality hsort hdisjoint hagrees hpassed

end Fold

/-! ## The keys a survivor is led to -/

theorem filter_field_eq (h : (fieldNames keys).Nodup) {key : SortKey}
    (hkey : key ∈ keys) : (keys.filter fun other => other.field == key.field) = [key] := by
  induction keys with
  | nil => cases hkey
  | cons head rest ih =>
    obtain ⟨hhead, hrest⟩ := List.nodup_cons.mp h
    rcases List.mem_cons.mp hkey with rfl | hkey
    · rw [List.filter_cons_of_pos (by simp)]
      apply congrArg (List.cons key)
      apply List.filter_eq_nil_iff.mpr
      intro other hother hsame
      exact hhead (beq_iff_eq.mp hsame ▸ List.mem_map_of_mem hother)
    · have hne : ¬ (head.field == key.field) = true := by
        intro hsame
        exact hhead (beq_iff_eq.mp hsame ▸ List.mem_map_of_mem hkey)
      rw [List.filter_cons, if_neg hne]
      exact ih hrest hkey

theorem keys_of_lead (h : Formed want) :
    (want.lead.flatMap fun field => want.wantedKeys.filter fun key => key.field == field) =
      ascendingKeys want.lead := by
  rw [ascendingKeys, List.map_eq_flatMap]
  apply List.flatMap_congr
  intro field hfield
  have hkey : (⟨field, .asc⟩ : SortKey) ∈ want.wantedKeys := by
    rw [h.laidOut.keys_eq]
    apply List.mem_append_left
    apply List.mem_append_left
    exact List.mem_map_of_mem (h.lead_subset hfield)
  exact filter_field_eq h.laidOut.nodup hkey

theorem keys_behind_lead (h : Formed want) :
    (want.wantedKeys.filter fun key => !want.lead.contains key.field) =
      ascendingKeys (want.blocks.equality.filter fun field => field ∉ want.lead) ++
        want.blocks.sort ++ ascendingKeys want.blocks.range := by
  obtain ⟨-, -, hsort, hrange⟩ := h.laidOut.parts
  have hkeep : ∀ keys : List SortKey, (∀ key ∈ keys, key.field ∉ want.lead) →
      (keys.filter fun key => !want.lead.contains key.field) = keys := by
    intro keys hkeys
    apply List.filter_eq_self.mpr
    intro key hkey
    simpa using hkeys key hkey
  rw [h.laidOut.keys_eq, List.filter_append, List.filter_append, hkeep want.blocks.sort,
    hkeep (ascendingKeys want.blocks.range), ascendingKeys, List.filter_map]
  · simp [ascendingKeys, Function.comp_def]
  · intro key hkey hmem
    obtain ⟨field, hfield, rfl⟩ := List.mem_map.mp hkey
    exact hrange (h.lead_subset hmem) hfield
  · intro key hkey hmem
    exact hsort (h.lead_subset hmem) (List.mem_map_of_mem hkey)

theorem leadWith_eq (h : Formed want) :
    leadWith want = ascendingKeys (want.lead ++ want.blocks.equality.filter fun field =>
      field ∉ want.lead) ++ want.blocks.sort ++ ascendingKeys want.blocks.range := by
  unfold leadWith
  split
  · rename_i hnone
    rw [h.laidOut.keys_eq, hnone]
    simp
  · rw [keys_of_lead h, keys_behind_lead h]
    simp [ascendingKeys]

theorem Formed.ledEquality_perm (h : Formed want) :
    (want.lead ++ want.blocks.equality.filter fun field => field ∉ want.lead).Perm
      want.blocks.equality :=
  perm_append_filter h.lead_nodup h.lead_subset h.laidOut.parts.1 (List.Perm.refl _)

variable {shape : QueryShape}

theorem placed_of_split {front span rest : List SortKey} {filter : Option ConstantFilter} (hkeys : keys = front ++ span ++ rest)
    (hfront : (fieldNames front).Perm (restEquality filter shape))
    (hspan : span = restSort shape ∨ span = (restSort shape).map SortKey.reverse)
    (hrange : shape.range ⊆ fieldNames keys) : Placed keys filter shape := by
  have hlength : front.length = (restEquality filter shape).length := by
    rw [← hfront.length_eq, fieldNames, List.length_map]
  have hspanLength : span.length = (restSort shape).length := by
    rcases hspan with rfl | rfl <;> simp
  refine ⟨?_, ?_, hrange⟩
  · rw [hkeys, List.append_assoc, fieldNames_append, ← hfront.length_eq, List.take_left]
    exact hfront
  · have hcut : (keys.drop (restEquality filter shape).length).take (restSort shape).length =
        span := by
      rw [hkeys, List.append_assoc, ← hlength, List.drop_left, ← hspanLength, List.take_left]
    rw [hcut]
    exact hspan

theorem Walks.ascending {sort : List SortKey} (h : Walks sort) :
    ascendingKeys (fieldNames sort) = sort ∨
      ascendingKeys (fieldNames sort) = sort.map SortKey.reverse := by
  rcases h with hlength | hasc
  · match sort, hlength with
    | [], _ => exact Or.inl rfl
    | [⟨field, .asc⟩], _ => exact Or.inl rfl
    | [⟨field, .desc⟩], _ => exact Or.inr rfl
  · exact Or.inl (ascendingKeys_fieldNames hasc)

theorem Settled.split (hwant : Formed want) (h : Settled want blocks) :
    ∃ front span rest, leadWith want = front ++ span ++ rest ∧
      (fieldNames front).Perm blocks.equality ∧
      (span = blocks.sort ∨ span = blocks.sort.map SortKey.reverse) := by
  rcases h with ⟨hled, hwalks⟩ | ⟨hperm, tail, htail⟩
  · obtain ⟨front, rest, hlead, hfront⟩ := leadsWith_iff.mp hled
    refine ⟨ascendingKeys front, ascendingKeys (fieldNames blocks.sort),
      ascendingKeys (rest ++ want.blocks.equality.filter fun field => field ∉ want.lead) ++
        want.blocks.sort ++ ascendingKeys want.blocks.range, ?_, ?_, hwalks.ascending⟩
    · rw [leadWith_eq hwant]
      nth_rewrite 1 [hlead]
      simp [ascendingKeys]
    · rw [fieldNames_ascendingKeys]
      exact hfront
  · refine ⟨ascendingKeys (want.lead ++ want.blocks.equality.filter fun field =>
      field ∉ want.lead), blocks.sort, tail ++ ascendingKeys want.blocks.range, ?_, ?_, Or.inl rfl⟩
    · rw [leadWith_eq hwant, ← htail]
      simp
    · rw [fieldNames_ascendingKeys]
      exact hwant.ledEquality_perm.trans hperm.symm

/-! ## What consolidation carries -/

variable {first : QueryShape} {rest : List QueryShape}

section Carried
variable (host : Host) (stringify : ConstantValue → String) (existing : List IndexSpec)
variable (options : CreateOptions) (shapes : List QueryShape)

/-- A shape behind a want: settled in it, or asking for just its keys while nothing
leads them. -/
structure Carries (want : Want) (shape : QueryShape) : Prop where
  equality : restEquality want.partialFilter shape = (blocksOf options shape).equality
  keys : fieldNames (askedOf options shape).wantedKeys ⊆ fieldNames want.wantedKeys
  range : shape.range ⊆ fieldNames (askedOf options shape).wantedKeys
  place : (want.lead = [] ∧ (askedOf options shape).wantedKeys = want.wantedKeys) ∨
    Settled want (blocksOf options shape)

variable {options}

theorem mem_fieldNames_leadWith (h : Formed want) {field : String}
    (hfield : field ∈ fieldNames want.wantedKeys) : field ∈ fieldNames (leadWith want) := by
  rw [leadWith_eq h]
  rw [h.laidOut.fields] at hfield
  simp only [fieldNames_append, fieldNames_ascendingKeys, List.mem_append, List.mem_filter,
    decide_eq_true_eq] at hfield ⊢
  by_cases hlead : field ∈ want.lead
  · exact Or.inl (Or.inl (Or.inl hlead))
  · rcases hfield with (hfield | hfield) | hfield
    · exact Or.inl (Or.inl (Or.inr ⟨hfield, hlead⟩))
    · exact Or.inl (Or.inr hfield)
    · exact Or.inr hfield

theorem Carries.placed (hwant : Formed want) (h : Carries options want shape) :
    Placed (leadWith want) want.partialFilter shape := by
  have hsort : (blocksOf options shape).sort = restSort shape := by rw [blocksOf_eq]
  have hrange : shape.range ⊆ fieldNames (leadWith want) :=
    fun field hfield => mem_fieldNames_leadWith hwant (h.keys (h.range hfield))
  rcases h.place with ⟨hnone, hkeys⟩ | hsettled
  · have hsplit := (laidOut_askedOf options shape).keys_eq
    rw [hkeys, hsort] at hsplit
    rw [leadWith, if_pos hnone] at hrange ⊢
    refine placed_of_split hsplit ?_ (Or.inl rfl) hrange
    rw [h.equality, fieldNames_ascendingKeys]
  · obtain ⟨front, span, rest, hsplit, hfront, hspan⟩ := hsettled.split hwant
    rw [← h.equality] at hfront
    exact placed_of_split hsplit hfront (hsort ▸ hspan) hrange

theorem formed_of_standsFor (h : StandsFor host existing options shapes want first rest) :
    Formed want := by
  refine ⟨?_, ?_, ?_⟩
  · rw [h.wantedKeys, h.blocks]
    exact laidOut_askedOf options first
  · rw [h.lead]
    exact List.nil_subset _
  · rw [h.lead]
    exact List.nodup_nil

theorem carries_of_standsFor (hclean : JoinsCleanly host existing options shapes)
    (h : StandsFor host existing options shapes want first rest) :
    ∀ shape ∈ want.sourceShapes, Carries options want shape := by
  intro shape hshape
  obtain ⟨hmem, -, hkey⟩ := h.asks hshape
  have hstanding := h.standing
  rw [← hkey] at hstanding
  rw [h.sourceShapes] at hshape
  obtain ⟨hkeys, hfilter, hrange⟩ := hclean shape hmem first (by simp [hstanding]) shape
    (hstanding ▸ hshape)
  rw [← h.wantedKeys] at hkeys
  refine ⟨?_, ?_, ?_, Or.inl ⟨h.lead, hkeys⟩⟩
  · -- the filters differ at most in fields the shape does not bind
    rw [blocksOf_eq, h.partialFilter]
    apply List.filter_congr
    intro field hfield
    have hbound : field ∈ shape.equality := List.mem_eraseDups.mp hfield
    apply decide_eq_decide.mpr
    constructor
    · intro hnot hown
      exact hnot (hfilter hown)
    · intro hown
      have hesr := (mem_fieldNames_esrKeys shape field).mpr (Or.inl hbound)
      have hwanted := mem_wantedKeys_askedOf hesr hown
      rw [hkeys, h.wantedKeys] at hwanted
      exact not_mem_filterFields hwanted
  · rw [hkeys]
    exact List.Subset.refl _
  · intro field hfield
    apply mem_wantedKeys_askedOf _ (hrange field hfield)
    exact (mem_fieldNames_esrKeys shape field).mpr (Or.inr (Or.inr hfield))

section Absorb
variable {want widest : Want} (hwant : Formed want) (hwidest : Formed widest)
variable (habs : absorbs want widest = true)
include habs

theorem Carries.equality_absorb (h : Carries options want shape) :
    restEquality (absorb want widest).partialFilter shape = (blocksOf options shape).equality := by
  obtain ⟨⟨hplain, hplain'⟩, -⟩ := (absorbs_iff want widest).mp habs
  have hequality := h.equality
  rw [hplain, ← hplain'] at hequality
  exact hequality

include hwant hwidest

theorem Carries.folds (h : Carries options want shape)
    (hsettled : Settled want (blocksOf options shape))
    (hagrees : Agrees (blocksOf options shape).equality
      (fieldNames (blocksOf options shape).sort) widest.lead) :
    Carries options (absorb want widest) shape := by
  have hfields := fieldNames_subset_of_absorbs hwant hwidest habs
  refine ⟨h.equality_absorb habs, List.Subset.trans h.keys hfields, h.range, Or.inr ?_⟩
  exact Settled.folds hwant habs hwidest (laidOut_askedOf options shape) hsettled hagrees

theorem carries_absorb (hcarries : ∀ shape ∈ want.sourceShapes, Carries options want shape)
    (hcarries' : ∀ shape ∈ widest.sourceShapes, Carries options widest shape)
    (hagrees : FoldAgrees options want widest) :
    ∀ shape ∈ (absorb want widest).sourceShapes, Carries options (absorb want widest) shape := by
  intro shape hshape
  rcases List.mem_append.mp hshape with hshape | hshape
  · have h := hcarries' shape hshape
    exact ⟨h.equality, h.keys, h.range, Or.inr ((hagrees.2 shape hshape).stays hwidest)⟩
  · obtain ⟨hsettled, hlead⟩ := hagrees.1 shape hshape
    exact (hcarries shape hshape).folds hwant hwidest habs hsettled hlead

end Absorb

variable (options)

/-- Every candidate's keys serve every shape behind it, where shapes join cleanly and
each fold agrees with the lead it is appended to. -/
theorem candidates_placed (hclean : JoinsCleanly host existing options shapes)
    (hfolds : ConsolidationMeets (FoldAgrees options) (wantsOf host existing options shapes).wants) :
    ∀ candidate ∈ (recommendCreates host stringify shapes existing options).candidates,
      ∀ shape ∈ candidate.sourceShapes, Placed candidate.keys candidate.partialFilter shape := by
  intro candidate hcandidate shape hshape
  obtain ⟨want, hwant, hkeys, hfilter, hsources⟩ :=
    exists_survivor host stringify existing options shapes hcandidate
  have hcarried : Formed want ∧ ∀ shape ∈ want.sourceShapes, Carries options want shape := by
    refine consolidate_forall (fun want => Formed want ∧
      ∀ shape ∈ want.sourceShapes, Carries options want shape) ?_ ?_ hfolds want hwant
    · rintro narrow wide ⟨hnarrow, hcarries⟩ ⟨hwide, hcarries'⟩ habs hagrees
      exact ⟨formed_absorb hnarrow hwide habs,
        carries_absorb hnarrow hwide habs hcarries hcarries' hagrees⟩
    · intro opened hopened
      obtain ⟨first, rest, hstands⟩ :=
        (wantsStand_wantsOf host existing options shapes).stands opened hopened
      exact ⟨formed_of_standsFor host existing shapes hstands,
        carries_of_standsFor host existing shapes hclean hstands⟩
  rw [hkeys, hfilter]
  rw [hsources] at hshape
  exact (hcarried.2 shape hshape).placed hcarried.1

end Carried

/-! ## A lead that agrees, and one that does not -/

/-- A descending sort is folded into the equality block of a wider shape. -/
theorem candidates_placed_sort :
    let narrow := scanOf ["c"] [⟨"b", .desc⟩] []
    let shapes := [narrow, scanOf ["a", "b", "c"] [] ["d"]]
    let candidates := (recommendCreates decimalHost (fun _ => "") shapes [] everyScan).candidates
    (∃ candidate ∈ candidates, candidate.sourceShapes.length = 2) ∧
      ∀ candidate ∈ candidates, ∀ shape ∈ candidate.sourceShapes,
        Placed candidate.keys candidate.partialFilter shape :=
  ⟨by decide, candidates_placed decimalHost (fun _ => "") [] everyScan _
    (by decide) (by decide)⟩

/-- The shape on `b` was folded into the one on `a` and `b`, which is folded in turn
behind `a`; nothing asks whether `b` still leads. -/
theorem candidate_displaces_folded :
    let narrow := scanOf ["b"] [] []
    let shapes := [scanOf ["a"] [] [], narrow, scanOf ["a", "b"] [] [], scanOf ["a", "b", "c"] [] []]
    ∃ candidate ∈ (recommendCreates decimalHost (fun _ => "") shapes [] everyScan).candidates,
      narrow ∈ candidate.sourceShapes ∧
        ¬ Placed candidate.keys candidate.partialFilter narrow := by
  decide

end Indexterity
