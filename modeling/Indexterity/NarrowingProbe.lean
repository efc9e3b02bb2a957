import Indexterity.Narrowing
import Indexterity.QueryBlocks

/-!
# Narrowings that go through

A narrowing looks at each index alone. An index on the first key of a worthy recurring
shape and a field that no recurring shape reaching it mentions loses that field: whatever a
source leaves out of its shapes, some index is narrowed for it. More shapes of people at a
prompt narrow nothing further.
-/

namespace Indexterity

open Library

theorem recommendNarrowing_eq_flatMap (host : Host) (shapes : List QueryShape)
    (existing : List IndexSpec) (options : WorkloadOptions) :
    recommendNarrowing host shapes existing options =
      existing.flatMap fun index => recommendNarrowing host shapes [index] options := by
  simp only [recommendNarrowing]
  split_ifs with hworth
  · simp
  · rw [List.filterMap_eq_flatMap_toList]
    apply List.flatMap_congr
    intro index _
    rw [List.filterMap_eq_flatMap_toList, List.flatMap_singleton]

variable {host : Host} {index : IndexSpec} {shape : QueryShape}

variable {options : WorkloadOptions} {shapes : List QueryShape} {first last : String}
variable {touched : List String}

theorem narrowed_of_mem {candidate : NarrowCandidate}
    (h : candidate ∈ recommendNarrowing host shapes [index] options) :
    ∃ dropped, Narrows (shapes.filter fun shape => isRecurring shape options) index candidate
      dropped := by
  obtain ⟨other, hother, hnarrows⟩ := exists_narrowed h
  rwa [List.mem_singleton.mp hother] at hnarrows

theorem mem_mentionedFields_of_esr {field : String} (h : field ∈ fieldNames (esrKeys shape)) :
    field ∈ mentionedFields shape := by
  rw [mem_fieldNames_esrKeys] at h
  simpa [mentionedFields, or_assoc] using h

theorem exists_head?_of_mentionedFields (h : mentionedFields shape ≠ []) :
    ∃ first, (fieldNames (esrKeys shape)).head? = some first := by
  obtain ⟨field, hfield⟩ := List.exists_mem_of_ne_nil _ h
  have hkey : field ∈ fieldNames (esrKeys shape) := by
    rw [mem_fieldNames_esrKeys]
    simpa [mentionedFields, or_assoc] using hfield
  exact ⟨_, List.head?_eq_some_head (List.ne_nil_of_mem hkey)⟩

theorem lastUsed_pair (hfirst : first ∈ touched) (hlast : last ∉ touched) :
    lastUsed touched [⟨first, .asc⟩, ⟨last, .asc⟩] = some 0 := by
  simp [lastUsed, hfirst, hlast]

theorem drops_unmentioned (hin : shape ∈ shapes) (hrecurring : isRecurring shape options = true)
    (hworth : isWorthIndexing host shape.clients = true)
    (hfirst : (fieldNames (esrKeys shape)).head? = some first)
    (hlast : ∀ other ∈ shapes, isRecurring other options = true →
      reaches (ascending "" [first, last]) other = true → last ∉ mentionedFields other) :
    reaches (ascending "" [first, last]) shape = true ∧
      ∃ candidate ∈ recommendNarrowing host shapes [ascending "" [first, last]] options,
        last ∈ candidate.droppedKeys := by
  have hreaches : reaches (ascending "" [first, last]) shape = true := by
    simp [reaches, hfirst, ascending, IndexSpec.fields]
  have hworthy : shape ∈ (shapes.filter fun shape => isRecurring shape options).filter
      fun shape => isWorthIndexing host shape.clients :=
    List.mem_filter.mpr ⟨List.mem_filter.mpr ⟨hin, hrecurring⟩, hworth⟩
  have hreaching := List.mem_filter.mpr ⟨hworthy, hreaches⟩
  have hused : lastUsed (((shapes.filter fun shape => isRecurring shape options).filter
      (reaches (ascending "" [first, last]))).flatMap mentionedFields)
      (ascending "" [first, last]).keys = some 0 := by
    apply lastUsed_pair
    · exact List.mem_flatMap.mpr ⟨shape,
        List.mem_filter.mpr ⟨List.mem_filter.mpr ⟨hin, hrecurring⟩, hreaches⟩,
        mem_mentionedFields_of_esr (List.mem_of_mem_head? hfirst)⟩
    · intro htouched
      obtain ⟨other, hother, hmentions⟩ := List.mem_flatMap.mp htouched
      obtain ⟨hrecurs, hreach⟩ := List.mem_filter.mp hother
      obtain ⟨hshape, hrecurs⟩ := List.mem_filter.mp hrecurs
      exact hlast other hshape hrecurs hreach hmentions
  have hopen : isNeverDrop (ascending "" [first, last]) = false := by
    simp [isNeverDrop, ascending, hideBreaksQueries, HIDE_BREAKS_QUERIES]
  refine ⟨hreaches, ?_⟩
  have hlength := List.length_pos_of_mem hworthy
  have hreached := List.length_pos_of_mem hreaching
  simp only [recommendNarrowing, if_neg (Nat.ne_of_gt hlength), List.filterMap_cons,
    List.filterMap_nil, narrowIndex, hopen, hused, if_neg (Nat.ne_of_gt hreached)]
  simp [ascending]

def onceOptions : WorkloadOptions := ⟨1, 0⟩

theorem isRecurring_once_iff (shape : QueryShape) :
    isRecurring shape onceOptions = true ↔ 1 ≤ shape.count := by
  have hcast : ((shape.count : ℚ) < 1) ↔ shape.count < 1 := by norm_cast
  rw [isRecurring, onceOptions]
  simp only [hcast]
  split_ifs with hcount
  · simpa using hcount
  · have hrate : 0 ≤ (shape.count : ℚ) := by exact_mod_cast (by omega : 0 ≤ shape.count)
    have hrecurs : 1 ≤ shape.count := by omega
    cases hhours : shape.observedForHours with
    | none => simpa using hrecurs
    | some hours =>
      simp only [executionsPerWeek, hhours]
      split_ifs with hnone
      · simpa using hrecurs
      · have hweeks : 0 ≤ hours / HOURS_PER_WEEK :=
          div_nonneg (le_of_lt (not_le.mp hnone)) (by norm_num [HOURS_PER_WEEK])
        simpa [hrecurs] using div_nonneg hrate hweeks

/-! ## Further shapes -/

theorem exists_lastUsed_le {touched' : List String} (hsub : touched ⊆ touched')
    {keys : List IndexKey} (h : ∃ key ∈ keys, key.field ∈ touched) :
    ∃ last last', lastUsed touched keys = some last ∧ lastUsed touched' keys = some last' ∧
      last ≤ last' := by
  induction keys using List.reverseRecOn with
  | nil => simp at h
  | append_singleton keys key ih =>
    simp only [lastUsed_append, List.contains_iff_mem]
    by_cases htouched : key.field ∈ touched
    · exact ⟨_, _, if_pos htouched, if_pos (hsub htouched), le_refl _⟩
    have hearlier : ∃ other ∈ keys, other.field ∈ touched := by
      obtain ⟨other, hother, hmem⟩ := h
      rcases List.mem_append.mp hother with hold | hnew
      · exact ⟨other, hold, hmem⟩
      · exact absurd (List.mem_singleton.mp hnew ▸ hmem) htouched
    obtain ⟨last, last', hlast, hlast', hle⟩ := ih hearlier
    rw [if_neg htouched, hlast, hlast']
    by_cases htouched' : key.field ∈ touched'
    · exact ⟨last, _, rfl, if_pos htouched', (not_touched_of_lastUsed hlast).1.le⟩
    · exact ⟨last, last', rfl, if_neg htouched', hle⟩

theorem touched_of_reaches (hkeys : index.keys ≠ []) (h : reaches index shape = true) :
    ∃ key ∈ index.keys, key.field ∈ mentionedFields shape := by
  obtain ⟨first, rest, hfirst⟩ := List.exists_cons_of_ne_nil hkeys
  refine ⟨first, hfirst ▸ List.mem_cons_self, ?_⟩
  have hhead : some first.field = (fieldNames (esrKeys shape)).head? := by
    simpa [reaches, IndexSpec.fields, hfirst] using h
  exact mem_mentionedFields_of_esr (List.mem_of_mem_head? hhead.symm)

theorem exists_narrowIndex_prefix {recurring worth recurring' worth' : List QueryShape}
    {wider : NarrowCandidate} (hrecurring : recurring ⊆ recurring') (hworth : worth' ⊆ worth)
    (hin : worth ⊆ recurring) (h : narrowIndex recurring' worth' index = some wider) :
    ∃ candidate, narrowIndex recurring worth index = some candidate ∧
      candidate.keys <+: wider.keys := by
  unfold narrowIndex at h ⊢
  simp only [List.length_eq_zero_iff] at h ⊢
  split_ifs at h with hguard hordered hreaching'
  obtain ⟨shape, hshape⟩ := List.exists_mem_of_ne_nil _ hreaching'
  obtain ⟨hshape, hreaches⟩ := List.mem_filter.mp hshape
  have hreaching := List.ne_nil_of_mem (List.mem_filter.mpr ⟨hworth hshape, hreaches⟩)
  have hwide : ¬ index.keys.length < 2 := fun hlt => hguard (by simp [hlt])
  have htouched : ∃ key ∈ index.keys,
      key.field ∈ (recurring.filter (reaches index)).flatMap mentionedFields := by
    have hkeys : index.keys ≠ [] := by
      rintro hnil
      simp [hnil] at hwide
    obtain ⟨key, hkey, hmem⟩ := touched_of_reaches hkeys hreaches
    exact ⟨key, hkey, List.mem_flatMap.mpr
      ⟨shape, List.mem_filter.mpr ⟨hin (hworth hshape), hreaches⟩, hmem⟩⟩
  have hsub : (recurring.filter (reaches index)).flatMap mentionedFields ⊆
      (recurring'.filter (reaches index)).flatMap mentionedFields := by
    intro field hfield
    obtain ⟨other, hother, hmem⟩ := List.mem_flatMap.mp hfield
    exact List.mem_flatMap.mpr ⟨other, List.filter_subset _ hrecurring hother, hmem⟩
  obtain ⟨last, last', hlast, hlast', hle⟩ := exists_lastUsed_le hsub htouched
  rw [if_neg hguard, if_neg hordered, if_neg hreaching, hlast]
  rw [hlast'] at h
  simp only at h ⊢
  split_ifs at h with hlong
  rw [if_neg (by omega)]
  obtain rfl := Option.some.inj h
  exact ⟨_, rfl, (List.take_prefix_take_left (by omega)).filterMap _⟩

def QueryShape.Prompted (host : Host) (shape : QueryShape) : Prop :=
  shape.clients ≠ [] ∧ ∀ client ∈ shape.clients, classifyClient host client = .INTERACTIVE

theorem QueryShape.Prompted.not_worth (h : shape.Prompted host) :
    isWorthIndexing host shape.clients = false := by
  rw [isWorthIndexing, if_neg h.1, List.any_eq_false]
  intro client hclient
  simp [h.2 client hclient]

/-- A narrowing keeps leading keys and drops what nothing recurring that reaches the index
mentions. Shapes that only people at a prompt send make no narrowing, nor one that keeps less. -/
theorem narrowing_from_evidence (host : Host) (shapes : List QueryShape)
    (existing : List IndexSpec) (options : WorkloadOptions) :
    (∀ candidate ∈ recommendNarrowing host shapes existing options, ∃ index ∈ existing,
      candidate ∈ recommendNarrowing host shapes [index] options ∧
      candidate.indexName = index.name ∧ candidate.keys ≠ [] ∧
      candidate.keys.map SortKey.indexKey <+: index.keys ∧
      candidate.keys.length < index.keys.length ∧
      candidate.droppedKeys = index.fields.drop candidate.keys.length ∧
      ∀ shape ∈ shapes, isRecurring shape options = true →
        (fieldNames (esrKeys shape)).head? = index.fields.head? →
        ∀ field ∈ candidate.droppedKeys, field ∉ shape.equality ∧
          field ∉ fieldNames shape.sort ∧ field ∉ shape.range) ∧
    ∀ further more, more.Perm (shapes ++ further) → (∀ shape ∈ further, shape.Prompted host) →
      ∀ index ∈ existing, ∀ wider ∈ recommendNarrowing host more [index] options,
        ∃ candidate ∈ recommendNarrowing host shapes [index] options,
          candidate.keys <+: wider.keys := by
  refine ⟨?_, ?_⟩
  · intro candidate hcandidate
    rw [recommendNarrowing_eq_flatMap] at hcandidate
    obtain ⟨index, hindex, hcandidate⟩ := List.mem_flatMap.mp hcandidate
    obtain ⟨dropped, hnarrows⟩ := narrowed_of_mem hcandidate
    have hlength := congrArg List.length hnarrows.keys
    have hdrops := List.length_pos_iff.mpr hnarrows.drops
    rw [List.length_append, List.length_map] at hlength
    have hfields : candidate.droppedKeys = index.fields.drop candidate.keys.length := by
      rw [hnarrows.droppedKeys, IndexSpec.fields, hnarrows.keys, List.map_append,
        List.drop_left' (by simp)]
    refine ⟨index, hindex, hcandidate, hnarrows.name, hnarrows.kept, ⟨dropped, hnarrows.keys.symm⟩,
      by omega, hfields, ?_⟩
    intro shape hshape hrecurs hreaches field hfield
    rw [hnarrows.droppedKeys] at hfield
    obtain ⟨key, hkey, rfl⟩ := List.mem_map.mp hfield
    have hunmentioned := hnarrows.unmentioned key hkey shape
      (List.mem_filter.mpr ⟨hshape, hrecurs⟩) (by simp [reaches, hreaches])
    simpa [mentionedFields] using hunmentioned
  · intro further more hmore hprompted index _ wider hwider
    have hmem : ∀ shape, shape ∈ more ↔ shape ∈ shapes ∨ shape ∈ further := by
      intro shape
      rw [hmore.mem_iff, List.mem_append]
    simp only [recommendNarrowing, List.length_eq_zero_iff] at hwider ⊢
    have hworth : (more.filter fun shape => isRecurring shape options).filter
        (fun shape => isWorthIndexing host shape.clients) ⊆
        (shapes.filter fun shape => isRecurring shape options).filter
          fun shape => isWorthIndexing host shape.clients := by
      intro shape hshape
      obtain ⟨hshape, hworth⟩ := List.mem_filter.mp hshape
      obtain ⟨hshape, hrecurs⟩ := List.mem_filter.mp hshape
      rcases (hmem shape).mp hshape with hshape | hshape
      · exact List.mem_filter.mpr ⟨List.mem_filter.mpr ⟨hshape, hrecurs⟩, hworth⟩
      · simp [(hprompted shape hshape).not_worth] at hworth
    split_ifs at hwider with hnone
    · cases hwider
    obtain ⟨_, hother, hnarrowed⟩ := List.mem_filterMap.mp hwider
    obtain rfl := List.mem_singleton.mp hother
    obtain ⟨candidate, hcandidate, hkeys⟩ := exists_narrowIndex_prefix
      (List.filter_subset _ fun shape hshape => (hmem shape).mpr (.inl hshape)) hworth
      (List.filter_subset_self _) hnarrowed
    rw [if_neg]
    · exact ⟨candidate, List.mem_filterMap.mpr ⟨_, hother, hcandidate⟩, hkeys⟩
    · intro hnil
      rw [hnil] at hworth
      exact hnone (List.subset_nil.mp hworth)

/-- A shape with no client at all counts as worth an index. -/
theorem narrowing_from_clientless :
    (∀ client ∈ (scanOf ["a"] [] []).clients, classifyClient decimalHost client = .INTERACTIVE) ∧
      recommendNarrowing decimalHost [] [ascending "a_b" ["a", "b"]] onceOptions = [] ∧
      recommendNarrowing decimalHost [scanOf ["a"] [] []] [ascending "a_b" ["a", "b"]]
        onceOptions ≠ [] := by
  refine ⟨nofun, rfl, ?_⟩
  decide

end Indexterity
