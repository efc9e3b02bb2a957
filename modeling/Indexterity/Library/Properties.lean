import Mathlib.Data.List.Sort
import Indexterity.Library.Numeric

/-!
# Own properties of a script's object

An object built by assignments, as the list of its properties in the order they were
created. Enumeration takes the properties whose names are array indexes first, by their
numbers, and then the others in that order. An assignment to `__proto__` goes to the
accessor every plain object inherits, and a primitive leaves no property behind.

An object gives back the assignments it was built from exactly where each names its own
property and they come in the order of enumeration.
-/

namespace Indexterity.Library

/-- The number an array index names: a canonical numeral below `2 ^ 32 - 1`. -/
def arrayIndex (name : String) : Option Nat :=
  let digits := name.toList
  if isNumeral 10 digits && (digits.head? != some '0' || digits.length == 1) &&
      decide (numeral 10 digits < 2 ^ 32 - 1) then
    some (numeral 10 digits)
  else none

/-- The rule of enumeration between two names; it leaves names that are no array indexes in
the order they were created. -/
def enumerates (a b : String) : Bool :=
  match arrayIndex a, arrayIndex b with
  | some i, some j => decide (i ≤ j)
  | none, some _ => false
  | _, none => true

universe u
variable {α : Type u}

def assign (properties : List (String × α)) (name : String) (value : α) : List (String × α) :=
  if name = "__proto__" then properties
  else if properties.any (fun property => property.1 == name) then
    properties.map fun property => if property.1 = name then (name, value) else property
  else properties ++ [(name, value)]

def assignAll (pairs : List (String × α)) : List (String × α) :=
  pairs.foldl (fun properties pair => assign properties pair.1 pair.2) []

def ownEntries (properties : List (String × α)) : List (String × α) :=
  properties.insertionSort fun a b => enumerates a.1 b.1 = true

def Enumerated (names : List String) : Prop := names.Pairwise fun a b => enumerates a b = true
  deriving Decidable

theorem arrayIndex_injective {a b : String} {i : Nat} (ha : arrayIndex a = some i)
    (hb : arrayIndex b = some i) : a = b := by
  have hread : ∀ {name : String}, arrayIndex name = some i → Nat.toDigits 10 i = name.toList := by
    intro name h
    simp only [arrayIndex] at h
    split_ifs at h with hcanonical
    obtain rfl := Option.some.inj h
    simp only [Bool.and_eq_true, Bool.or_eq_true, bne_iff_ne, beq_iff_eq] at hcanonical
    exact toDigits_numeral hcanonical.1.1 hcanonical.1.2
  exact String.toList_inj.mp ((hread ha).symm.trans (hread hb))

theorem enumerates_total (a b : String) : enumerates a b = true ∨ enumerates b a = true := by
  unfold enumerates
  cases arrayIndex a <;> cases arrayIndex b <;> simp
  omega

theorem enumerates_trans {a b c : String} (hab : enumerates a b = true)
    (hbc : enumerates b c = true) : enumerates a c = true := by
  unfold enumerates at *
  cases ha : arrayIndex a <;> cases hb : arrayIndex b <;> cases hc : arrayIndex c <;>
    simp_all
  omega

instance : Std.Total fun a b : String × α => enumerates a.1 b.1 = true :=
  ⟨fun a b => enumerates_total a.1 b.1⟩

instance : IsTrans (String × α) fun a b => enumerates a.1 b.1 = true :=
  ⟨fun _ _ _ => enumerates_trans⟩

variable (properties : List (String × α))

theorem perm_ownEntries :
    (ownEntries properties).Perm properties :=
  List.perm_insertionSort _ _

theorem enumerated_ownEntries :
    Enumerated ((ownEntries properties).map Prod.fst) :=
  List.pairwise_map.mpr (List.pairwise_insertionSort _ _)

theorem ownEntries_of_enumerated {properties : List (String × α)}
    (h : Enumerated (properties.map Prod.fst)) : ownEntries properties = properties :=
  List.Pairwise.insertionSort_eq (List.pairwise_map.mp h)

theorem filter_ownEntries :
    ((ownEntries properties).filter fun property => (arrayIndex property.1).isNone) =
      properties.filter fun property => (arrayIndex property.1).isNone := by
  have hplain : (properties.filter fun property => (arrayIndex property.1).isNone).Pairwise
      fun a b => enumerates a.1 b.1 = true := by
    refine List.pairwise_of_forall_mem_list fun a ha b hb => ?_
    simp_all [enumerates]
  have hkept := (List.sublist_insertionSort hplain List.filter_sublist).filter
    fun property => (arrayIndex property.1).isNone
  rw [List.filter_filter, List.filter_congr fun _ _ => Bool.and_self _] at hkept
  exact (hkept.eq_of_length ((perm_ownEntries properties).filter _).length_eq.symm).symm

theorem names_assign (name : String) (value : α) :
    (assign properties name value).map Prod.fst =
      if name = "__proto__" ∨ name ∈ properties.map Prod.fst then properties.map Prod.fst
      else properties.map Prod.fst ++ [name] := by
  unfold assign
  by_cases hproto : name = "__proto__"
  · simp [hproto]
  · by_cases hmem : properties.any (fun property => property.1 == name) = true
    · have hname : name ∈ properties.map Prod.fst := by
        obtain ⟨property, hproperty, heq⟩ := List.any_eq_true.mp hmem
        exact List.mem_map.mpr ⟨property, hproperty, by simpa using heq⟩
      rw [if_neg hproto, if_pos hmem, if_pos (.inr hname), List.map_map]
      apply List.map_congr_left
      intro property _
      simp only [Function.comp_apply]
      split_ifs with heq
      · exact heq.symm
      · rfl
    · have hname : name ∉ properties.map Prod.fst := by
        intro hin
        obtain ⟨property, hproperty, heq⟩ := List.mem_map.mp hin
        exact hmem (List.any_eq_true.mpr ⟨property, hproperty, by simpa using heq⟩)
      rw [if_neg hproto, if_neg hmem, if_neg (by simp [hproto, hname]), List.map_append]
      rfl

variable (pairs : List (String × α))

theorem names_assignAll :
    ((assignAll pairs).map Prod.fst).Nodup ∧ "__proto__" ∉ (assignAll pairs).map Prod.fst := by
  apply List.foldlRecOn (motive := fun properties : List (String × α) =>
    (properties.map Prod.fst).Nodup ∧ "__proto__" ∉ properties.map Prod.fst)
  · exact ⟨List.nodup_nil, List.not_mem_nil⟩
  · intro properties h pair _
    rw [names_assign]
    split_ifs with hname
    · exact h
    · rw [not_or] at hname
      refine ⟨List.concat_eq_append ▸ h.1.concat hname.2, ?_⟩
      rw [List.mem_append, not_or]
      exact ⟨h.2, fun hin => hname.1 (List.mem_singleton.mp hin).symm⟩

theorem mem_assign {properties : List (String × α)} {name : String} {value : α}
    {property : String × α} (h : property ∈ assign properties name value) :
    property ∈ properties ∨ property = (name, value) := by
  unfold assign at h
  split_ifs at h
  · exact .inl h
  · obtain ⟨old, hold, rfl⟩ := List.mem_map.mp h
    split_ifs
    · exact .inr rfl
    · exact .inl hold
  · rcases List.mem_append.mp h with hold | hnew
    · exact .inl hold
    · exact .inr (List.mem_singleton.mp hnew)

theorem assignAll_subset : assignAll pairs ⊆ pairs := by
  apply List.foldlRecOn (motive := (· ⊆ pairs))
  · exact List.nil_subset _
  · intro properties h pair hpair property hproperty
    rcases mem_assign hproperty with hold | rfl
    · exact h hold
    · exact hpair

theorem assignAll_of_nodup {pairs : List (String × α)} (hnames : (pairs.map Prod.fst).Nodup)
    (hproto : "__proto__" ∉ pairs.map Prod.fst) : assignAll pairs = pairs := by
  induction pairs using List.reverseRecOn with
  | nil => rfl
  | append_singleton pairs pair ih =>
    rw [List.map_append, List.mem_append, not_or] at hproto
    rw [List.map_append, List.nodup_append] at hnames
    have hname : pair.1 ≠ "__proto__" := fun heq => hproto.2 (by simp [heq])
    rw [assignAll, List.foldl_concat, ← assignAll, ih hnames.1 hproto.1, assign, if_neg hname, if_neg]
    intro hany
    obtain ⟨property, hproperty, heq⟩ := List.any_eq_true.mp hany
    exact hnames.2.2 _ (List.mem_map_of_mem hproperty) pair.1 (by simp) (by simpa using heq)

theorem ownEntries_assignAll_iff :
    ownEntries (assignAll pairs) = pairs ↔
      (pairs.map Prod.fst).Nodup ∧ "__proto__" ∉ pairs.map Prod.fst ∧
        Enumerated (pairs.map Prod.fst) := by
  constructor
  · intro h
    obtain ⟨hnames, hproto⟩ := names_assignAll pairs
    have hperm := (perm_ownEntries (assignAll pairs)).map Prod.fst
    rw [h] at hperm
    refine ⟨hperm.nodup_iff.mpr hnames, fun hin => hproto (hperm.subset hin), ?_⟩
    rw [← h]
    exact enumerated_ownEntries _
  · rintro ⟨hnames, hproto, henumerated⟩
    rw [assignAll_of_nodup hnames hproto, ownEntries_of_enumerated henumerated]

end Indexterity.Library
