import Mathlib
import Indexterity.Narrowing
import Indexterity.QueryBlocks

/-!
# Reorder: other directions for a protected index

`analysis/reorder.ts`. A compound unique index whose directions cannot serve a sort the
workload performs is proposed again with the same fields in the same order and the
directions of the most-run blocked shape.
-/

namespace Indexterity

open Library

/-- The second loop of `orderingPositions`; the position is the number of fields seen. -/
def orderingStep (state : List String × List (Nat × SortDirection)) (key : SortKey) :
    List String × List (Nat × SortDirection) :=
  if state.1.contains key.field then state
  else (state.1 ++ [key.field], state.2 ++ [(state.1.length, key.direction)])

def orderingPositions (shape : QueryShape) : List (Nat × SortDirection) :=
  (shape.sort.foldl orderingStep (distinct shape.equality, [])).2

def servesShapeOrder (index : IndexSpec) (shape : QueryShape) : Bool :=
  let positions := orderingPositions shape
  let direction (position : Nat) : Option IndexDirection :=
    index.keys[position]?.map IndexKey.direction
  if positions.length = 0 then true
  else if positions.any fun want => direction want.1 != some .asc && direction want.1 != some .desc then
    false
  else
    positions.all (fun want => direction want.1 == some want.2.index) ||
      positions.all fun want => direction want.1 == some want.2.reverse.index

def isReorderable (index : IndexSpec) : Bool :=
  if index.name = "_id_" then false
  else if index.isShardKey then false
  else if index.keys.length < 2 then false
  else if index.ttl then false
  else if index.keys.any fun key => key.direction != .asc && key.direction != .desc then false
  else isNeverDrop index

structure ReorderCandidate where
  indexName : String
  keys : List SortKey
  spec : IndexSpec
  count : Int
  rationale : String
  sourceShapes : List QueryShape
deriving DecidableEq

def directedKeys (index : IndexSpec) (positions : List (Nat × SortDirection)) (invert : Bool) :
    List SortKey :=
  index.keys.zipIdx.map fun (key, i) =>
    match positions.find? fun want => want.1 == i with
    | none => ⟨key.field, if key.direction = .desc then .desc else .asc⟩
    | some want => ⟨key.field, if invert then want.2.reverse else want.2⟩

def flippedKeys (index : IndexSpec) (keys : List SortKey) : Nat :=
  keys.zipIdx.countP fun (key, i) =>
    (index.keys[i]?.map IndexKey.direction) != some key.direction.index

def targetDirections (index : IndexSpec) (shape : QueryShape) : List SortKey :=
  let straight := directedKeys index (orderingPositions shape) false
  let reversed := directedKeys index (orderingPositions shape) true
  if flippedKeys index reversed < flippedKeys index straight then reversed else straight

/-- `describe` of `reorder.ts`, which writes every direction. -/
def describeDirected (keys : List SortKey) : String :=
  String.intercalate ", " (keys.map fun key => key.field ++ ": " ++ key.direction.text)

def reorderRationale (name : String) (keys : List SortKey) (count : Int) : String :=
  name ++ " covers these fields but not in an order that serves the sort, so the " ++
    "server orders the results in memory (seen " ++ toString count ++ "×). Rebuild it as \x7b" ++
    describeDirected keys ++ "\x7d — the SAME KEYS in the same order, with the directions the " ++
    "query needs. This index is unique, and the uniqueness is preserved: a unique index " ++
    "constrains its key SET, not its key directions, so both patterns enforce exactly the " ++
    "same rule. The replacement is built FIRST and the original is only retired once it " ++
    "has survived its post-build watch, so there is no moment when the constraint is not " ++
    "being enforced by one of them. Every other option — unique, the partial filter, " ++
    "sparse, the collation — is carried over unchanged."

def reorderIndex (recurring : List QueryShape) (hinted : List String) (index : IndexSpec) :
    Option ReorderCandidate :=
  if !isReorderable index then none
  else if hinted.contains index.name then none
  else
    let covered := recurring.filter fun shape => equalFields (fieldNames (esrKeys shape)) index.fields
    let blocked := covered.filter fun shape =>
      shape.sortedInMemory && !servesShapeOrder index shape
    match (blocked.insertionSort fun a b => b.count ≤ a.count).head? with
    | none => none
    | some driver =>
      let keys := targetDirections index driver
      let proposed := { index with keys := keys.map SortKey.indexKey }
      if covered.any fun shape => servesShapeOrder index shape && !servesShapeOrder proposed shape then
        none
      else
        let count := (blocked.map QueryShape.count).sum
        some {
          indexName := index.name
          keys := keys
          spec := index
          count := count
          rationale := reorderRationale index.name keys count
          sourceShapes := blocked }

def recommendReorder (shapes : List QueryShape) (existing : List IndexSpec)
    (options : WorkloadOptions) (hinted : List String) : List ReorderCandidate :=
  existing.filterMap (reorderIndex (shapes.filter fun shape => isRecurring shape options) hinted)

/-! ## The positions a sort constrains -/

theorem length_foldl_pushKey (keys seen : List SortKey) :
    seen.length ≤ (keys.foldl pushKey seen).length := by
  induction keys generalizing seen with
  | nil => exact Nat.le_refl _
  | cons key keys ih =>
    refine Nat.le_trans ?_ (ih (pushKey seen key))
    unfold pushKey
    split <;> simp

theorem foldl_orderingStep_seen (sort seen : List SortKey) (out : List (Nat × SortDirection)) :
    (sort.foldl orderingStep (fieldNames seen, out)).1 = fieldNames (sort.foldl pushKey seen) := by
  induction sort generalizing seen out with
  | nil => rfl
  | cons key sort ih =>
    rw [List.foldl_cons, List.foldl_cons, orderingStep, pushKey]
    have hseen : (fieldNames seen).contains key.field = seen.any fun k => k.field == key.field := by
      rw [Bool.eq_iff_iff]
      simp [fieldNames, List.any_eq_true]
    simp only [hseen]
    split
    · exact ih seen out
    · have hpush : fieldNames seen ++ [key.field] = fieldNames (seen ++ [key]) := by simp [fieldNames]
      rw [hpush]
      exact ih _ _

theorem foldl_orderingStep_positions (sort : List SortKey) (seen : List String)
    (out : List (Nat × SortDirection)) (hbound : ∀ want ∈ out, want.1 < seen.length)
    (hrise : out.Pairwise fun a b => a.1 < b.1) :
    (∀ want ∈ (sort.foldl orderingStep (seen, out)).2,
      want.1 < (sort.foldl orderingStep (seen, out)).1.length) ∧
      (sort.foldl orderingStep (seen, out)).2.Pairwise fun a b => a.1 < b.1 := by
  induction sort generalizing seen out with
  | nil => exact ⟨hbound, hrise⟩
  | cons key sort ih =>
    rw [List.foldl_cons, orderingStep]
    split
    · exact ih seen out hbound hrise
    · apply ih
      · intro want hwant
        rw [List.length_append, List.length_singleton]
        rcases List.mem_append.mp hwant with hold | hnew
        · exact Nat.lt_succ_of_lt (hbound want hold)
        · rw [List.mem_singleton.mp hnew]
          exact Nat.lt_succ_self _
      · refine List.pairwise_append.mpr ⟨hrise, List.pairwise_singleton _ _, ?_⟩
        intro want hwant new hnew
        rw [List.mem_singleton.mp hnew]
        exact hbound want hwant

theorem orderingPositions_lt (shape : QueryShape) :
    (∀ want ∈ orderingPositions shape, want.1 < (esrKeys shape).length) ∧
      ((orderingPositions shape).map Prod.fst).Nodup := by
  obtain ⟨hbound, hrise⟩ := foldl_orderingStep_positions shape.sort (distinct shape.equality) []
    (by simp) List.Pairwise.nil
  refine ⟨fun want hwant => Nat.lt_of_lt_of_le (hbound want hwant) ?_,
    List.pairwise_map.mpr (hrise.imp Nat.ne_of_lt)⟩
  have hequality : distinct shape.equality =
      fieldNames ((ascendingKeys shape.equality).foldl pushKey []) := by
    rw [foldl_pushKey_eq, fieldNames, map_firstsBy, distinct, eraseDups_eq_firstsBy]
    exact congrArg _ (fieldNames_ascendingKeys _).symm
  have hesr : esrKeys shape = (ascendingKeys (sortedStrings shape.range)).foldl pushKey
      ((ascendingKeys shape.equality ++ shape.sort).foldl pushKey []) := List.foldl_append
  rw [hequality, foldl_orderingStep_seen, ← List.foldl_append, fieldNames, List.length_map, hesr]
  exact length_foldl_pushKey _ _

/-! ## What a candidate says -/

theorem fieldNames_directedKeys (index : IndexSpec) (positions : List (Nat × SortDirection))
    (invert : Bool) : fieldNames (directedKeys index positions invert) = index.fields := by
  rw [directedKeys, fieldNames, List.map_map, IndexSpec.fields]
  refine List.ext_getElem (by simp) fun i _ _ => ?_
  simp only [List.getElem_map, List.getElem_zipIdx, Function.comp_apply]
  split <;> rfl

variable {index built : IndexSpec} {shape : QueryShape} {candidate : ReorderCandidate}
variable {hinted : List String}

theorem directedKeys_at {positions : List (Nat × SortDirection)}
    (hnodup : (positions.map Prod.fst).Nodup) (invert : Bool) {want : Nat × SortDirection}
    (hwant : want ∈ positions) (hbound : want.1 < index.keys.length) :
    ∃ key, (directedKeys index positions invert)[want.1]? = some key ∧
      key.direction = if invert then want.2.reverse else want.2 := by
  have hfind : (positions.find? fun other => other.1 == want.1) = some want :=
    find?_of_nodup Prod.fst hnodup hwant
  refine ⟨⟨(index.keys[want.1]).field, if invert then want.2.reverse else want.2⟩, ?_, rfl⟩
  simp [directedKeys, List.getElem?_eq_getElem hbound, hfind]

theorem targetDirections_eq (index : IndexSpec) (shape : QueryShape) :
    ∃ invert, targetDirections index shape =
      directedKeys index (orderingPositions shape) invert := by
  simp only [targetDirections]
  split
  · exact ⟨true, rfl⟩
  · exact ⟨false, rfl⟩

theorem fieldNames_targetDirections (index : IndexSpec) (shape : QueryShape) :
    fieldNames (targetDirections index shape) = index.fields := by
  obtain ⟨invert, heq⟩ := targetDirections_eq index shape
  rw [heq, fieldNames_directedKeys]

theorem servesShapeOrder_iff :
    servesShapeOrder index shape = true ↔ ∃ invert : Bool, ∀ want ∈ orderingPositions shape,
      (index.keys[want.1]?.map IndexKey.direction) =
        some (if invert then want.2.reverse else want.2).index := by
  have hordered (direction : SortDirection) :
      direction.index = .asc ∨ direction.index = .desc := by
    cases direction
    · exact .inl rfl
    · exact .inr rfl
  unfold servesShapeOrder
  simp only
  split
  · rename_i hnone
    exact iff_of_true rfl ⟨false, by simp [List.length_eq_zero_iff.mp hnone]⟩
  split
  · rename_i hother
    obtain ⟨want, hwant, hnone⟩ := List.any_eq_true.mp hother
    refine iff_of_false (by decide) fun ⟨invert, h⟩ => ?_
    rw [h want hwant] at hnone
    rcases hordered (if invert then want.2.reverse else want.2) with heq | heq <;>
      simp [heq] at hnone
  · simp

theorem Leads.direction_at {d : IndexDirection → Option IndexDirection} {xs ys : List IndexKey}
    (h : Leads d xs ys) {i : Nat} {key : IndexKey} (hkey : xs[i]? = some key) :
    ys[i]?.map IndexKey.direction = d key.direction := by
  induction xs generalizing ys i with
  | nil => simp at hkey
  | cons x xs ih =>
    cases ys with
    | nil => exact h.elim
    | cons y ys =>
      cases i with
      | zero =>
        obtain rfl : x = key := by simpa using hkey
        simp [h.2.1]
      | succ i => exact ih h.2.2 hkey

theorem negate_index (direction : SortDirection) :
    direction.index.negate = some direction.reverse.index := by
  cases direction <;> rfl

section
variable (hfields : fieldNames (esrKeys shape) = index.fields)
    (hkeys : built.keys = (targetDirections index shape).map SortKey.indexKey)
include hfields hkeys

/-- What is built from the target directions has, at every ordering position, the direction the
shape wants there, or at every one the inverse. -/
theorem targetDirections_at :
    ∃ invert : Bool, ∀ want ∈ orderingPositions shape, ∃ key : SortKey,
      built.keys[want.1]? = some key.indexKey ∧
        key.direction = if invert then want.2.reverse else want.2 := by
  obtain ⟨hbound, hnodup⟩ := orderingPositions_lt shape
  obtain ⟨invert, htarget⟩ := targetDirections_eq index shape
  have hlength : (esrKeys shape).length = index.keys.length := by
    simpa [fieldNames, IndexSpec.fields] using congrArg List.length hfields
  refine ⟨invert, fun want hwant => ?_⟩
  obtain ⟨key, hkey, hdirection⟩ := directedKeys_at hnodup invert hwant
    (hlength ▸ hbound want hwant)
  refine ⟨key, ?_, hdirection⟩
  rw [hkeys, htarget, List.getElem?_map, hkey]
  rfl

theorem servesShapeOrder_of_targetDirections :
    servesShapeOrder built shape = true := by
  obtain ⟨invert, hat⟩ := targetDirections_at hfields hkeys
  refine servesShapeOrder_iff.mpr ⟨invert, fun want hwant => ?_⟩
  obtain ⟨key, hkey, hdirection⟩ := hat want hwant
  rw [hkey, ← hdirection]
  rfl

theorem servesShapeOrder_of_covers (h : coversKeyOrder built index = true) :
    servesShapeOrder index shape = true := by
  obtain ⟨invert, hat⟩ := targetDirections_at hfields hkeys
  rw [servesShapeOrder_iff]
  rcases (coversKeyOrder_iff built index).mp h with hsame | hreversed
  · refine ⟨invert, fun want hwant => ?_⟩
    obtain ⟨key, hkey, hdirection⟩ := hat want hwant
    rw [hsame.direction_at hkey, SortKey.indexKey, hdirection]
  · refine ⟨!invert, fun want hwant => ?_⟩
    obtain ⟨key, hkey, hdirection⟩ := hat want hwant
    rw [hreversed.direction_at hkey, SortKey.indexKey, hdirection, negate_index]
    cases invert <;> simp [SortDirection.reverse]
    cases want.2 <;> rfl

end

/-! ## The fewest flips -/

theorem countP_zipIdx_le {α : Type*} {p : α × Nat → Bool} {xs ys : List α} (n : Nat)
    (hlength : xs.length = ys.length)
    (h : ∀ (i : Nat) (a b : α), xs[i]? = some a → ys[i]? = some b →
      p (a, n + i) = true → p (b, n + i) = true) :
    (xs.zipIdx n).countP p ≤ (ys.zipIdx n).countP p := by
  induction xs generalizing ys n with
  | nil => simp
  | cons x xs ih =>
    cases ys with
    | nil => simp at hlength
    | cons y ys =>
      have hrest := ih (n + 1) (Nat.succ.inj hlength) fun i a b ha hb => by
        have := h (i + 1) a b ha hb
        rwa [Nat.add_comm i, ← Nat.add_assoc] at this
      have hhead : (if p (x, n) then 1 else 0) ≤ if p (y, n) then 1 else 0 := by
        split
        · rename_i hx
          have hy : p (y, n) = true := h 0 x y rfl rfl hx
          rw [if_pos hy]
        · exact Nat.zero_le _
      rw [List.zipIdx_cons, List.zipIdx_cons, List.countP_cons, List.countP_cons]
      exact Nat.add_le_add hrest hhead

theorem flippedKeys_targetDirections_le {keys : List SortKey}
    (hordered : ∀ key ∈ index.keys, key.direction = .asc ∨ key.direction = .desc)
    (hlength : keys.length = index.keys.length)
    (hserves : servesShapeOrder { index with keys := keys.map SortKey.indexKey } shape = true) :
    flippedKeys index (targetDirections index shape) ≤ flippedKeys index keys := by
  obtain ⟨invert, hat⟩ := servesShapeOrder_iff.mp hserves
  have hbest : flippedKeys index (targetDirections index shape) ≤
      flippedKeys index (directedKeys index (orderingPositions shape) invert) := by
    simp only [targetDirections]
    split <;> cases invert <;> omega
  refine hbest.trans (countP_zipIdx_le 0 (by simp [directedKeys, hlength]) fun i a b ha hb hflip => ?_)
  have hdirected : ∃ key, index.keys[i]? = some key ∧
      (match (orderingPositions shape).find? fun want => want.1 == i with
        | none => ⟨key.field, if key.direction = .desc then .desc else .asc⟩
        | some want => ⟨key.field, if invert then want.2.reverse else want.2⟩) = a := by
    simpa [directedKeys] using ha
  obtain ⟨key, hkey, rfl⟩ := hdirected
  cases hfind : (orderingPositions shape).find? fun want => want.1 == i with
  | none =>
    -- the sort does not constrain this key, so it keeps its direction
    rcases hordered key (List.mem_of_getElem? hkey) with hasc | hdesc
    · simp [hkey, hfind, hasc, SortDirection.index] at hflip
    · simp [hkey, hfind, hdesc, SortDirection.index] at hflip
  | some want =>
    obtain rfl : want.1 = i := by simpa using List.find?_some hfind
    have hwant := hat want (List.mem_of_find?_eq_some hfind)
    rw [List.getElem?_map, hb] at hwant
    have hsame : b.direction.index = (if invert then want.2.reverse else want.2).index :=
      Option.some.inj hwant
    simpa [hfind, hsame] using hflip

/-- A re-order keeps the fields of a unique index that nothing hints at, in directions the
index itself does not produce. -/
structure Reorders (hinted : List String) (index : IndexSpec) (candidate : ReorderCandidate) :
    Prop where
  name : candidate.indexName = index.name
  spec : candidate.spec = index
  unique : index.unique = true
  unhinted : index.name ∉ hinted
  fields : fieldNames candidate.keys = index.fields
  uncovered : ∀ built : IndexSpec, built.keys = candidate.keys.map SortKey.indexKey →
    coversKeyOrder built index = false

theorem ordered_of_isReorderable (h : isReorderable index = true) :
    ∀ key ∈ index.keys, key.direction = .asc ∨ key.direction = .desc := by
  unfold isReorderable at h
  split_ifs at h with hid hshard hshort httl hspecial
  intro key hkey
  by_contra hother
  push Not at hother
  exact hspecial (List.any_eq_true.mpr ⟨key, hkey, by simp [hother]⟩)

theorem unique_of_isReorderable (h : isReorderable index = true) : index.unique = true := by
  have hplain : hideBreaksQueries index = false := by
    rw [hideBreaksQueries, List.any_eq_false]
    intro key hkey hbreaks
    rcases ordered_of_isReorderable h key hkey with heq | heq <;> rw [heq] at hbreaks <;>
      exact absurd hbreaks (by decide)
  unfold isReorderable at h
  split_ifs at h with hid hshard hshort httl hspecial
  simpa [isNeverDrop, hid, hshard, httl, hplain] using h

/-- Of the shapes run most, the stable sort puts the first one at the head. -/
theorem head?_insertionSort_count (shapes : List QueryShape) :
    (shapes.insertionSort fun a b => b.count ≤ a.count).head? = shapes.argmax QueryShape.count := by
  induction shapes with
  | nil => rfl
  | cons shape shapes ih =>
    rw [List.argmax_cons, ← ih, List.insertionSort_cons]
    cases shapes.insertionSort fun a b => b.count ≤ a.count with
    | nil => rfl
    | cons first rest =>
      by_cases hle : first.count ≤ shape.count
      · simp [hle]
      · simp [hle, Int.not_le.mp hle]

section
variable {recurring : List QueryShape} (h : reorderIndex recurring hinted index = some candidate)
include h

/-- The most-run blocked shape decides the directions of a candidate, and what the index
serves today is still served. -/
theorem driver_of_reorderIndex :
    isReorderable index = true ∧ index.name ∉ hinted ∧ candidate.indexName = index.name ∧
      candidate.spec = index ∧
      let covered := recurring.filter fun shape =>
        equalFields (fieldNames (esrKeys shape)) index.fields
      candidate.sourceShapes = (covered.filter fun shape =>
        shape.sortedInMemory && !servesShapeOrder index shape) ∧
      (∀ shape ∈ covered, servesShapeOrder index shape = true →
        servesShapeOrder { index with keys := candidate.keys.map SortKey.indexKey } shape = true) ∧
      ∃ driver, (candidate.sourceShapes.insertionSort fun a b => b.count ≤ a.count).head? =
          some driver ∧
        candidate.keys = targetDirections index driver ∧ servesShapeOrder index driver = false ∧
        fieldNames (esrKeys driver) = index.fields := by
  unfold reorderIndex at h
  simp only at h
  split_ifs at h with hreorderable hhinted
  split at h
  · cases h
  rename_i driver hdriver
  split_ifs at h with hbreaks
  obtain rfl := Option.some.inj h
  have hblocked := (List.mem_insertionSort _).mp (List.mem_of_head? hdriver)
  obtain ⟨hcovered, hserves⟩ := List.mem_filter.mp hblocked
  refine ⟨by simpa using hreorderable, by simpa using hhinted, rfl, rfl, rfl, ?_, driver, hdriver,
    rfl, ?_, equalFields_iff.mp (List.mem_filter.mp hcovered).2⟩
  · intro shape hshape hserved
    by_contra hlost
    exact hbreaks (List.any_eq_true.mpr ⟨shape, hshape, by simp [hserved, hlost]⟩)
  · simp only [Bool.and_eq_true, Bool.not_eq_true'] at hserves
    exact hserves.2

theorem reorders_of_reorderIndex :
    Reorders hinted index candidate := by
  obtain ⟨hreorderable, hhinted, hname, hspec, -, -, driver, -, htarget, hunserved, hesr⟩ :=
    driver_of_reorderIndex h
  refine ⟨hname, hspec, unique_of_isReorderable hreorderable, hhinted,
    htarget ▸ fieldNames_targetDirections index driver, fun built hkeys => ?_⟩
  by_contra hcovers
  have hserved := servesShapeOrder_of_covers hesr (htarget ▸ hkeys) (by simpa using hcovers)
  simp [hserved] at hunserved

end

theorem exists_reordered {shapes : List QueryShape} {existing : List IndexSpec}
    {options : WorkloadOptions} (h : candidate ∈ recommendReorder shapes existing options hinted) :
    ∃ index ∈ existing, Reorders hinted index candidate := by
  obtain ⟨index, hindex, hreorder⟩ := List.mem_filterMap.mp h
  exact ⟨index, hindex, reorders_of_reorderIndex hreorder⟩

/-- A candidate has the fields of its index, serves the most-run recurring shape on those fields
that the index leaves to be sorted in memory, keeps serving what the index serves, and no
directions that serve that shape flip fewer keys. -/
theorem recommendReorder_fewest_flips (shapes : List QueryShape) (existing : List IndexSpec)
    (options : WorkloadOptions) (hinted : List String) (candidate : ReorderCandidate)
    (h : candidate ∈ recommendReorder shapes existing options hinted) :
    ∃ index ∈ existing, candidate.spec = index ∧ fieldNames candidate.keys = index.fields ∧
      let directed (keys : List SortKey) := { index with keys := keys.map SortKey.indexKey }
      let covered := shapes.filter fun shape =>
        isRecurring shape options && fieldNames (esrKeys shape) = index.fields
      (∀ shape ∈ covered, servesShapeOrder index shape = true →
        servesShapeOrder (directed candidate.keys) shape = true) ∧
      ∃ driver, (covered.filter fun shape => shape.sortedInMemory &&
          !servesShapeOrder index shape).argmax QueryShape.count = some driver ∧
        servesShapeOrder (directed candidate.keys) driver = true ∧
        ∀ keys : List SortKey, fieldNames keys = index.fields →
          servesShapeOrder (directed keys) driver = true →
          flippedKeys index candidate.keys ≤ flippedKeys index keys := by
  obtain ⟨index, hindex, hreorder⟩ := List.mem_filterMap.mp h
  obtain ⟨hreorderable, -, -, hspec, hsource, hkept, driver, hdriver, htarget, -, hesr⟩ :=
    driver_of_reorderIndex hreorder
  have hcovered : ((shapes.filter fun shape => isRecurring shape options).filter fun shape =>
      equalFields (fieldNames (esrKeys shape)) index.fields) = shapes.filter fun shape =>
      isRecurring shape options && fieldNames (esrKeys shape) = index.fields := by
    rw [List.filter_filter]
    refine List.filter_congr fun shape _ => ?_
    rw [Bool.and_comm, Bool.eq_iff_iff.mpr (equalFields_iff.trans decide_eq_true_iff.symm)]
  rw [hcovered] at hsource hkept
  rw [head?_insertionSort_count, hsource] at hdriver
  refine ⟨index, hindex, hspec, (reorders_of_reorderIndex hreorder).fields, hkept, driver, hdriver,
    servesShapeOrder_of_targetDirections hesr (congrArg _ htarget), fun keys hfields hserves => ?_⟩
  rw [htarget]
  refine flippedKeys_targetDirections_le (ordered_of_isReorderable hreorderable) ?_ hserves
  simpa [fieldNames, IndexSpec.fields] using congrArg List.length hfields

theorem reorder_flips_one_of_three :
    let index := { ascending "a_1_b_1_c_1" ["a", "b", "c"] with unique := true }
    let sorted := { scanOf ["a"] [⟨"b", .desc⟩, ⟨"c", .asc⟩] [] with sortedInMemory := true }
    ∃ candidate ∈ recommendReorder [sorted] [index] everyScan.toWorkloadOptions [],
      flippedKeys index candidate.keys = 1 ∧
        ∃ driver ∈ [sorted], ∀ keys : List SortKey, fieldNames keys = index.fields →
          servesShapeOrder { index with keys := keys.map SortKey.indexKey } driver = true →
          flippedKeys index candidate.keys ≤ flippedKeys index keys := by
  intro index sorted
  obtain ⟨candidate, hcandidate, hone⟩ : ∃ candidate ∈
      recommendReorder [sorted] [index] everyScan.toWorkloadOptions [],
      flippedKeys index candidate.keys = 1 := by decide
  obtain ⟨other, hother, -, -, -, driver, hdriver, -, hfewest⟩ :=
    recommendReorder_fewest_flips [sorted] [index] _ [] candidate hcandidate
  obtain rfl := List.mem_singleton.mp hother
  have hmem := (List.mem_filter.mp (List.argmax_mem hdriver)).1
  exact ⟨candidate, hcandidate, hone, driver, (List.mem_filter.mp hmem).1, hfewest⟩

end Indexterity
