import Indexterity.Workload

/-!
# Narrowing: an index wider than anything asks for

`recommendNarrowing` of `analysis/workload.ts`. Trailing keys go where no recurring shape
that reaches the index mentions them. Shapes of a person at a prompt cannot justify a
narrowing and can prevent one. What a candidate says about its index and the workload is
stated once, below the definitions.
-/

namespace Indexterity

structure NarrowCandidate where
  indexName : String
  keys : List SortKey
  droppedKeys : List String
  observedCount : Int
  rationale : String
deriving DecidableEq

def reaches (index : IndexSpec) (shape : QueryShape) : Bool :=
  index.fields.head? == (fieldNames (esrKeys shape)).head?

def mentionedFields (shape : QueryShape) : List String :=
  shape.equality ++ fieldNames shape.sort ++ shape.range

def lastUsed (touched : List String) (keys : List IndexKey) : Option Nat :=
  keys.zipIdx.foldl (fun last entry => if touched.contains entry.1.field then some entry.2 else last)
    none

def IndexKey.sortKey? (key : IndexKey) : Option SortKey :=
  match key.direction with
  | .asc => some ⟨key.field, .asc⟩
  | .desc => some ⟨key.field, .desc⟩
  | _ => none

def quotedFields (separator : String) (fields : List String) : String :=
  String.intercalate separator (fields.map fun field => "`" ++ field ++ "`")

def narrowRationale (name : String) (keys : List SortKey) (dropped : List String) : String :=
  let plural := if dropped.length = 1 then "key" else "keys"
  "Replace " ++ name ++ " with an index on \x7b" ++ describe keys ++
    "\x7d — across every query seen using it, nothing mentions its trailing " ++ plural ++ " " ++
    quotedFields ", " dropped ++ ". Same queries served, a smaller index, and one fewer " ++ plural ++
    " to maintain on every write to this collection. CAUTION: this rests on the ABSENCE of " ++
    "evidence, so verify against anything that runs too rarely to reach the workload sample — " ++
    "particularly a query sorting on " ++ quotedFields " or " dropped ++ ", which would fall back " ++
    "to an in-memory sort. The old index is hidden first and restored automatically if reads " ++
    "regress, but a blocking sort over 100 MB fails outright rather than running slowly."

def narrowIndex (recurring worth : List QueryShape) (index : IndexSpec) : Option NarrowCandidate :=
  if isNeverDrop index || decide (index.keys.length < 2) then none
  else if index.keys.any (fun key => key.direction != .asc && key.direction != .desc) then none
  else
    let reaching := worth.filter (reaches index)
    if reaching.length = 0 then none
    else
      let touched := (recurring.filter (reaches index)).flatMap mentionedFields
      match lastUsed touched index.keys with
      | none => none
      | some last =>
        if index.keys.length - 1 ≤ last then none
        else
          let keys := (index.keys.take (last + 1)).filterMap IndexKey.sortKey?
          let dropped := (index.keys.drop (last + 1)).map IndexKey.field
          some {
            indexName := index.name
            keys := keys
            droppedKeys := dropped
            observedCount := (reaching.map QueryShape.count).sum
            rationale := narrowRationale index.name keys dropped }

def recommendNarrowing (host : Host) (shapes : List QueryShape) (existing : List IndexSpec)
    (options : WorkloadOptions) : List NarrowCandidate :=
  let recurring := shapes.filter fun shape => isRecurring shape options
  let worth := recurring.filter fun shape => isWorthIndexing host shape.clients
  if worth.length = 0 then [] else existing.filterMap (narrowIndex recurring worth)

/-! ## What a candidate says -/

theorem lastUsed_append (touched : List String) (keys : List IndexKey) (key : IndexKey) :
    lastUsed touched (keys ++ [key]) =
      if touched.contains key.field then some keys.length else lastUsed touched keys := by
  simp [lastUsed, List.zipIdx_append]

variable {keys : List IndexKey} {candidate : NarrowCandidate}

theorem not_touched_of_lastUsed {touched : List String} {last : Nat}
    (h : lastUsed touched keys = some last) :
    last < keys.length ∧ ∀ key ∈ keys.drop (last + 1), key.field ∉ touched := by
  induction keys using List.reverseRecOn with
  | nil => cases h
  | append_singleton keys key ih =>
    rw [lastUsed_append] at h
    split_ifs at h with htouched
    · obtain rfl := Option.some.inj h
      refine ⟨by simp, ?_⟩
      simp
    · obtain ⟨hlast, hrest⟩ := ih h
      refine ⟨by simp; omega, ?_⟩
      rw [List.drop_append_of_le_length hlast]
      intro other hother
      rcases List.mem_append.mp hother with hold | hnew
      · exact hrest other hold
      · rw [List.mem_singleton.mp hnew]
        simpa using htouched

def SortKey.indexKey (key : SortKey) : IndexKey := ⟨key.field, key.direction.index⟩

theorem indexKey_sortKeys (h : ∀ key ∈ keys, key.direction = .asc ∨ key.direction = .desc) :
    (keys.filterMap IndexKey.sortKey?).map SortKey.indexKey = keys := by
  induction keys with
  | nil => rfl
  | cons key keys ih =>
    have hrest := ih fun other hother => h other (List.mem_cons_of_mem _ hother)
    obtain ⟨field, direction⟩ := key
    rcases h _ List.mem_cons_self with hdirection | hdirection <;>
    · simp only at hdirection
      subst hdirection
      simp only [List.filterMap_cons, IndexKey.sortKey?, List.map_cons, hrest]
      rfl

/-- A narrowing keeps the leading keys of an unprotected index whose keys all order, and
drops the rest, none of which a recurring shape that reaches the index mentions. -/
structure Narrows (recurring : List QueryShape) (index : IndexSpec) (candidate : NarrowCandidate)
    (dropped : List IndexKey) : Prop where
  unprotected : isNeverDrop index = false
  name : candidate.indexName = index.name
  keys : index.keys = candidate.keys.map SortKey.indexKey ++ dropped
  kept : candidate.keys ≠ []
  drops : dropped ≠ []
  droppedKeys : candidate.droppedKeys = dropped.map IndexKey.field
  unmentioned : ∀ key ∈ dropped, ∀ shape ∈ recurring, reaches index shape = true →
    key.field ∉ mentionedFields shape

theorem narrows_of_narrowIndex {recurring worth : List QueryShape} {index : IndexSpec}
    (h : narrowIndex recurring worth index = some candidate) :
    ∃ dropped, Narrows recurring index candidate dropped := by
  unfold narrowIndex at h
  simp only at h
  split_ifs at h with hguard hordered
  split at h
  · cases h
  split at h
  · cases h
  rename_i last hlast hwide
  obtain rfl := Option.some.inj h
  obtain ⟨hlt, huntouched⟩ := not_touched_of_lastUsed hlast
  have hdirections : ∀ key ∈ index.keys, key.direction = .asc ∨ key.direction = .desc := by
    intro key hkey
    simp only [List.any_eq_true, Bool.and_eq_true, bne_iff_ne, not_exists, not_and] at hordered
    exact or_iff_not_imp_left.mpr fun hasc => not_not.mp (hordered key hkey hasc)
  have hkept := indexKey_sortKeys fun key hkey =>
    hdirections key (List.mem_of_mem_take (i := last + 1) hkey)
  refine ⟨index.keys.drop (last + 1), ?_, rfl, ?_, ?_, ?_, rfl, ?_⟩
  · simp only [Bool.or_eq_true, not_or, Bool.not_eq_true] at hguard
    exact hguard.1
  · rw [hkept, List.take_append_drop]
  · intro hnil
    simp only at hnil
    rw [hnil] at hkept
    have hlength := congrArg List.length hkept
    simp at hlength
    omega
  · intro hnil
    rw [List.drop_eq_nil_iff] at hnil
    omega
  · intro key hkey shape hshape hreaches hmentions
    apply huntouched key hkey
    rw [List.mem_flatMap]
    exact ⟨shape, List.mem_filter.mpr ⟨hshape, hreaches⟩, hmentions⟩

theorem exists_narrowed {host : Host} {shapes : List QueryShape} {existing : List IndexSpec}
    {options : WorkloadOptions} (h : candidate ∈ recommendNarrowing host shapes existing options) :
    ∃ index ∈ existing, ∃ dropped,
      Narrows (shapes.filter fun shape => isRecurring shape options) index candidate dropped := by
  simp only [recommendNarrowing] at h
  split_ifs at h
  · cases h
  · obtain ⟨index, hindex, hnarrow⟩ := List.mem_filterMap.mp h
    exact ⟨index, hindex, narrows_of_narrowIndex hnarrow⟩

end Indexterity
