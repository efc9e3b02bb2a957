import Indexterity.Workload
import Indexterity.Library.Leading

/-!
# The blocks of the keys a shape asks for

Whatever a shape lists twice, and whatever constants moved into a filter, the keys it
asks for are its remaining equality fields, then the sort keys on other fields, then
the range fields on neither, and `keyBlocks` splits them back into exactly that.
-/

namespace Indexterity

open Library

def filterFields (filter : Option ConstantFilter) : List String := (filter.getD []).map Prod.fst

def restEquality (filter : Option ConstantFilter) (shape : QueryShape) : List String :=
  (distinct shape.equality).filter fun field => field ∉ filterFields filter

def restSort (shape : QueryShape) : List SortKey :=
  firstsBy SortKey.field (shape.sort.filter fun key => key.field ∉ shape.equality)

def blocksOf (options : CreateOptions) (shape : QueryShape) : KeyBlocks :=
  keyBlocks shape (askedOf options shape).wantedKeys

@[simp] theorem fieldNames_append (xs ys : List SortKey) :
    fieldNames (xs ++ ys) = fieldNames xs ++ fieldNames ys := List.map_append

@[simp] theorem fieldNames_ascendingKeys (fields : List String) :
    fieldNames (ascendingKeys fields) = fields := by
  rw [fieldNames, ascendingKeys, List.map_map]
  exact List.map_id fields

theorem ascendingKeys_fieldNames {keys : List SortKey} (h : ∀ key ∈ keys, key.direction = .asc) :
    ascendingKeys (fieldNames keys) = keys := by
  rw [ascendingKeys, fieldNames, List.map_map]
  refine (List.map_congr_left ?_).trans (List.map_id keys)
  intro key hkey
  obtain ⟨field, direction⟩ := key
  rw [id, ← h _ hkey]
  rfl

variable {key : SortKey}

theorem direction_ascendingKeys {fields : List String}
    (h : key ∈ ascendingKeys fields) : key.direction = .asc := by
  obtain ⟨field, -, rfl⟩ := List.mem_map.mp h
  rfl

theorem equalFields_iff {a b : List String} : equalFields a b = true ↔ a = b := by
  rw [equalFields, Bool.and_eq_true, beq_iff_eq, zipIdx_all_iff]
  constructor
  · rintro ⟨hlength, hleads⟩
    exact hleads.eq_of_length hlength
  · rintro rfl
    exact ⟨rfl, List.prefix_rfl⟩

/-! ## A span of an index -/

theorem zipIdx_all_of_map_eq {α β γ : Type} [DecidableEq γ] {f : α → γ} {g : β → γ} {xs : List α}
    {ys : List β} (h : xs.map f = ys.map g) :
    (xs.zipIdx.all fun (x, i) => some (f x) == ys[i]?.map g) = true := by
  rw [List.all_eq_true]
  intro entry hentry
  have hat := List.mem_zipIdx_iff_getElem?.mp hentry
  have hmap := congrArg (fun zs => zs[entry.2]?) h
  simp only [List.getElem?_map, hat, Option.map_some] at hmap
  exact beq_iff_eq.mpr hmap

theorem sameSet_of_perm {a b : List String} (h : a.Perm b) : sameSet a b = true := by
  rw [sameSet, h.length_eq, beq_self_eq_true, Bool.true_and, List.all_eq_true]
  intro field hfield
  exact List.contains_iff_mem.mpr (h.subset hfield)

theorem spanServes_of_blocks {equality range : List String} {blocks : KeyBlocks}
    {span : List IndexKey} (hequality : equality.Perm blocks.equality)
    (hrange : range.Perm blocks.range)
    (hfields : span.map IndexKey.field = equality ++ fieldNames blocks.sort ++ range)
    (hsort : ∃ reversed : Bool,
      ((span.take (blocks.equality.length + blocks.sort.length)).drop blocks.equality.length).map
        IndexKey.direction = blocks.sort.map fun key =>
          (if reversed then key.direction.reverse else key.direction).index) :
    spanServes span blocks = true := by
  have hlength : (equality ++ fieldNames blocks.sort).length =
      blocks.equality.length + blocks.sort.length := by
    simp [hequality.length_eq, fieldNames]
  have hfront : (span.take blocks.equality.length).map IndexKey.field = equality := by
    rw [List.map_take, hfields, List.append_assoc]
    exact List.take_left' hequality.length_eq
  have hmiddle : ((span.take (blocks.equality.length + blocks.sort.length)).drop
      blocks.equality.length).map IndexKey.field = blocks.sort.map SortKey.field := by
    rw [List.map_drop, List.map_take, hfields, List.take_left' hlength,
      List.drop_left' hequality.length_eq]
    rfl
  have hback : (span.drop (blocks.equality.length + blocks.sort.length)).map IndexKey.field =
      range := by
    rw [List.map_drop, hfields]
    exact List.drop_left' hlength
  obtain ⟨reversed, hdirections⟩ := hsort
  simp only [spanServes, hfront, hback, Bool.and_eq_true, Bool.or_eq_true]
  refine ⟨⟨sameSet_of_perm hequality, zipIdx_all_of_map_eq hmiddle, ?_⟩,
    sameSet_of_perm hrange⟩
  cases reversed with
  | false => exact .inl (zipIdx_all_of_map_eq hdirections)
  | true => exact .inr (zipIdx_all_of_map_eq hdirections)

/-! ## One list of first occurrences -/

theorem foldl_pushKey_eq (keys : List SortKey) :
    keys.foldl pushKey [] = firstsBy SortKey.field keys := by
  have hpush : pushKey = fun seen key =>
      if key.field ∈ seen.map SortKey.field then seen else seen ++ [key] := by
    funext seen key
    simp only [pushKey, List.any_eq_true, beq_iff_eq, List.mem_map]
  rw [hpush, foldl_push_eq]
  simp

theorem esrKeys_eq_firstsBy (shape : QueryShape) :
    esrKeys shape = firstsBy SortKey.field (ascendingKeys shape.equality ++ shape.sort ++
      ascendingKeys (sortedStrings shape.range)) :=
  foldl_pushKey_eq _

def equalityKeys (shape : QueryShape) : List SortKey :=
  firstsBy SortKey.field (ascendingKeys shape.equality)

def rangeKeys (shape : QueryShape) : List SortKey :=
  (firstsBy SortKey.field (ascendingKeys (sortedStrings shape.range))).filter fun key =>
    key.field ∉ shape.equality ∧ key.field ∉ fieldNames shape.sort

theorem restSort_eq_filter (shape : QueryShape) :
    restSort shape =
      (firstsBy SortKey.field shape.sort).filter fun key => key.field ∉ shape.equality :=
  firstsBy_filter SortKey.field (fun field => decide (field ∉ shape.equality)) shape.sort

theorem esrKeys_split (shape : QueryShape) :
    esrKeys shape = equalityKeys shape ++ restSort shape ++ rangeKeys shape := by
  have heq : (ascendingKeys shape.equality).map SortKey.field = shape.equality :=
    fieldNames_ascendingKeys _
  rw [esrKeys_eq_firstsBy, firstsBy_append, firstsBy_append, restSort_eq_filter, List.map_append,
    heq]
  apply congrArg (List.append _)
  apply List.filter_congr
  intro key _
  simp [fieldNames, not_or]

variable {shape : QueryShape}

theorem field_mem_equalityKeys
    (h : key ∈ equalityKeys shape) : key.field ∈ shape.equality ∧ key.direction = .asc := by
  have hmem := firstsBy_subset _ _ h
  refine ⟨?_, direction_ascendingKeys hmem⟩
  obtain ⟨field, hfield, rfl⟩ := List.mem_map.mp hmem
  exact hfield

theorem field_mem_restSort (h : key ∈ restSort shape) :
    key.field ∉ shape.equality ∧ key.field ∈ fieldNames shape.sort := by
  obtain ⟨hsort, hnot⟩ := List.mem_filter.mp (firstsBy_subset _ _ h)
  exact ⟨by simpa using hnot, List.mem_map_of_mem hsort⟩

theorem field_mem_rangeKeys (h : key ∈ rangeKeys shape) :
    (key.field ∉ shape.equality ∧ key.field ∉ fieldNames shape.sort) ∧ key.direction = .asc := by
  obtain ⟨hmem, hnot⟩ := List.mem_filter.mp h
  exact ⟨by simpa using hnot, direction_ascendingKeys (firstsBy_subset _ _ hmem)⟩

theorem filter_middle {p : SortKey → Bool} {before part after : List SortKey}
    (hbefore : ∀ key ∈ before, p key = false) (hpart : ∀ key ∈ part, p key = true)
    (hafter : ∀ key ∈ after, p key = false) : (before ++ part ++ after).filter p = part := by
  have hnone : ∀ keys : List SortKey, (∀ key ∈ keys, p key = false) → keys.filter p = [] := by
    intro keys hkeys
    apply List.filter_eq_nil_iff.mpr
    intro key hkey
    simp [hkeys key hkey]
  rw [List.filter_append, List.filter_append, hnone before hbefore, hnone after hafter,
    List.filter_eq_self.mpr hpart, List.nil_append, List.append_nil]

/-- `keyBlocks` finds the three parts of keys in this order, whichever of the equality
keys are left. -/
theorem keyBlocks_of_split {equality : List SortKey}
    (h : ∀ key ∈ equality, key.field ∈ shape.equality) :
    keyBlocks shape (equality ++ restSort shape ++ rangeKeys shape) =
      ⟨fieldNames equality, restSort shape, fieldNames (rangeKeys shape)⟩ := by
  have hequality : (equality ++ restSort shape ++ rangeKeys shape).filter
      (fun key => shape.equality.contains key.field) = equality := by
    rw [List.append_assoc, ← List.nil_append equality]
    apply filter_middle (by simp)
    · intro key hkey
      simp [h key hkey]
    · intro key hkey
      rcases List.mem_append.mp hkey with hkey | hkey
      · simp [(field_mem_restSort hkey).1]
      · simp [(field_mem_rangeKeys hkey).1.1]
  have hsort : (equality ++ restSort shape ++ rangeKeys shape).filter
      (fun key => !shape.equality.contains key.field &&
        (fieldNames shape.sort).contains key.field) = restSort shape := by
    apply filter_middle
    · intro key hkey
      simp [h key hkey]
    · intro key hkey
      simp [field_mem_restSort hkey]
    · intro key hkey
      simp [field_mem_rangeKeys hkey]
  have hrange : (equality ++ restSort shape ++ rangeKeys shape).filter
      (fun key => !shape.equality.contains key.field &&
        !(fieldNames shape.sort).contains key.field) = rangeKeys shape := by
    rw [← List.append_nil (equality ++ restSort shape ++ rangeKeys shape)]
    apply filter_middle _ _ (by simp)
    · intro key hkey
      rcases List.mem_append.mp hkey with hkey | hkey
      · simp [h key hkey]
      · simp [(field_mem_restSort hkey).2]
    · intro key hkey
      simp [field_mem_rangeKeys hkey]
  rw [keyBlocks, hequality, hsort, hrange]

/-! ## What a shape asks for -/

variable {field : String}

theorem filterFields_constantFilter (shape : QueryShape) (field : String) :
    field ∈ (constantFilter shape).map Prod.fst ↔ field ∈ constantFields shape := by
  constructor
  · intro h
    obtain ⟨entry, hentry, rfl⟩ := List.mem_map.mp h
    obtain ⟨name, hname, hvalue⟩ := List.mem_filterMap.mp hentry
    obtain ⟨value, -, rfl⟩ := Option.map_eq_some_iff.mp hvalue
    exact hname
  · intro h
    -- a constant field has an entry, so its value is found
    obtain ⟨entry, hentry, rfl⟩ := List.mem_map.mp (List.mem_filter.mp h).1
    obtain ⟨found, hfound⟩ : ∃ found,
        shape.constants.find? (fun e => e.1 == entry.1) = some found :=
      Option.isSome_iff_exists.mp (List.find?_isSome.mpr ⟨entry, hentry, by simp⟩)
    apply List.mem_map.mpr
    refine ⟨(entry.1, found.2), List.mem_filterMap.mpr ⟨entry.1, h, ?_⟩, rfl⟩
    simp [constantOf, hfound]

variable (options : CreateOptions)

theorem wantedKeys_askedOf (shape : QueryShape) :
    (askedOf options shape).wantedKeys =
      (equalityKeys shape).filter (fun key =>
        key.field ∉ filterFields (askedOf options shape).partialFilter) ++
        restSort shape ++ rangeKeys shape := by
  unfold askedOf
  split
  · have hfields : ∀ key : SortKey, (!isConstant shape key) =
        decide (key.field ∉ filterFields (some (constantFilter shape))) := by
      intro key
      have hiff := filterFields_constantFilter shape key.field
      simp only [isConstant, filterFields, Option.getD_some, decide_not, hiff]
      simp
    have hkeep : ∀ keys : List SortKey, (∀ key ∈ keys, key.field ∉ shape.equality) →
        keys.filter (fun key => !isConstant shape key) = keys := by
      intro keys hkeys
      apply List.filter_eq_self.mpr
      intro key hkey
      have hnot : key.field ∉ constantFields shape := fun h =>
        hkeys key hkey (List.contains_iff_mem.mp (List.mem_filter.mp h).2)
      simpa [isConstant] using hnot
    simp only [esrKeys_split, List.filter_append]
    rw [hkeep (restSort shape) fun key hkey => (field_mem_restSort hkey).1,
      hkeep (rangeKeys shape) fun key hkey => (field_mem_rangeKeys hkey).1.1]
    simp only [hfields]
  · simp [esrKeys_split, filterFields]

theorem fieldNames_equalityKeys (shape : QueryShape) :
    fieldNames (equalityKeys shape) = distinct shape.equality := by
  have h := map_firstsBy SortKey.field (ascendingKeys shape.equality)
  rw [distinct, eraseDups_eq_firstsBy]
  refine h.trans ?_
  exact congrArg (firstsBy id) (fieldNames_ascendingKeys shape.equality)

theorem blocksOf_eq (shape : QueryShape) :
    blocksOf options shape =
      ⟨restEquality (askedOf options shape).partialFilter shape, restSort shape,
        fieldNames (rangeKeys shape)⟩ := by
  rw [blocksOf, wantedKeys_askedOf, keyBlocks_of_split]
  · have hrest : fieldNames ((equalityKeys shape).filter fun key =>
          key.field ∉ filterFields (askedOf options shape).partialFilter) =
        restEquality (askedOf options shape).partialFilter shape := by
      rw [restEquality, ← fieldNames_equalityKeys]
      simp only [fieldNames, List.filter_map]
      rfl
    rw [hrest]
  · intro key hkey
    exact (field_mem_equalityKeys (List.mem_filter.mp hkey).1).1

/-- Keys laid out as their blocks, each field once. -/
structure LaidOut (keys : List SortKey) (blocks : KeyBlocks) : Prop where
  keys_eq : keys = ascendingKeys blocks.equality ++ blocks.sort ++ ascendingKeys blocks.range
  nodup : (fieldNames keys).Nodup

theorem laidOut_askedOf (shape : QueryShape) :
    LaidOut (askedOf options shape).wantedKeys (blocksOf options shape) := by
  refine ⟨?_, ?_⟩
  · have hequality : ∀ key ∈ (equalityKeys shape).filter (fun key =>
        key.field ∉ filterFields (askedOf options shape).partialFilter), key.direction = .asc :=
      fun key hkey => (field_mem_equalityKeys (List.mem_filter.mp hkey).1).2
    have hrange : ∀ key ∈ rangeKeys shape, key.direction = .asc :=
      fun key hkey => (field_mem_rangeKeys hkey).2
    rw [blocksOf, wantedKeys_askedOf, keyBlocks_of_split]
    · simp only [ascendingKeys_fieldNames hequality, ascendingKeys_fieldNames hrange]
    · intro key hkey
      exact (field_mem_equalityKeys (List.mem_filter.mp hkey).1).1
  · have hesr : (fieldNames (esrKeys shape)).Nodup := by
      rw [esrKeys_eq_firstsBy]
      exact nodup_map_firstsBy _ _
    unfold askedOf
    split
    · exact hesr.sublist (List.filter_sublist.map SortKey.field)
    · exact hesr

theorem mem_fieldNames_esrKeys (shape : QueryShape) (field : String) :
    field ∈ fieldNames (esrKeys shape) ↔
      field ∈ shape.equality ∨ field ∈ fieldNames shape.sort ∨ field ∈ shape.range := by
  have hsorted : field ∈ sortedStrings shape.range ↔ field ∈ shape.range :=
    List.mem_insertionSort _
  rw [esrKeys_eq_firstsBy, fieldNames, mem_map_firstsBy, ← fieldNames]
  simp [hsorted]

theorem mem_wantedKeys_askedOf {options : CreateOptions} (h : field ∈ fieldNames (esrKeys shape))
    (hfilter : field ∉ filterFields (askedOf options shape).partialFilter) :
    field ∈ fieldNames (askedOf options shape).wantedKeys := by
  rw [esrKeys_split] at h
  rw [wantedKeys_askedOf]
  simp only [fieldNames_append, List.mem_append] at h ⊢
  refine h.imp_left (Or.imp_left ?_)
  intro hmem
  obtain ⟨key, hkey, rfl⟩ := List.mem_map.mp hmem
  exact List.mem_map_of_mem (List.mem_filter.mpr ⟨hkey, by simpa using hfilter⟩)

theorem not_mem_filterFields {options : CreateOptions}
    (h : field ∈ fieldNames (askedOf options shape).wantedKeys) :
    field ∉ filterFields (askedOf options shape).partialFilter := by
  unfold askedOf at h ⊢
  split
  · rename_i hmoved
    rw [if_pos hmoved] at h
    obtain ⟨key, hkey, rfl⟩ := List.mem_map.mp h
    have hconst := (List.mem_filter.mp hkey).2
    intro hmem
    rw [filterFields, Option.getD_some, filterFields_constantFilter] at hmem
    simp [isConstant, hmem] at hconst
  · simp [filterFields]

end Indexterity
