import Indexterity.Redundancy
import Indexterity.Library.Document

/-!
# Index descriptions of a MongoDB server

`mongo/collector.ts`: what the server lists for an index and the spec `toIndexSpec` reads
from it. The key is an ordered document that the driver returns as an object; directions
are read as `1` unless they are one of a few known forms; a collation is read as its
locale. What a cover found between two specs says about the two descriptions depends on
each of the three.
-/

namespace Indexterity

open Library

universe u

inductive KeyDirection where
  | number (value : ℚ)
  | text (value : String)
deriving DecidableEq

structure Collation (τ : Type u) where
  members : Members τ
  locale : String
  named : members.lookup "locale" = some (.text locale)

/-- What the server lists for one index: the members of its documents in their order, each
name once. -/
structure IndexDescription (τ : Type u) where
  name : String
  key : List (String × KeyDirection)
  unique : Option Bool
  sparse : Option Bool
  hidden : Option Bool
  expireAfterSeconds : Option ℚ
  partialFilterExpression : Option (Members τ)
  collation : Option (Collation τ)
  key_ne_nil : key ≠ []
  key_nodup : (key.map Prod.fst).Nodup
  filter_distinct : ∀ filter, partialFilterExpression = some filter →
    (Value.document filter).distinct = true

/-- What is read of a description: the spec, and its filter with the values as the driver
returned them. -/
structure ReadIndex (τ : Type u) where
  spec : IndexSpec
  partialFilter : Option (Members τ)

def normalizeDirection : KeyDirection → IndexDirection
  | .number value => if value = 1 then .asc else if value = -1 then .desc else .asc
  | .text value =>
    if value = "2d" then .geo2d
    else if value = "2dsphere" then .geo2dsphere
    else if value = "text" then .text
    else if value = "hashed" then .hashed
    else .asc

@[simp] theorem normalizeDirection_one : normalizeDirection (.number 1) = .asc := by decide

@[simp] theorem normalizeDirection_neg_one : normalizeDirection (.number (-1)) = .desc := by decide

section Read
variable {τ : Type u} (json : Value τ → String)

/-- A filter's value as the analysis compares it; `json` is the text of what is no
primitive. -/
def filterValue : Value τ → FilterValue
  | .text value => .constant (.str value)
  | .number value => .constant (.num value)
  | .bool value => .constant (.bool value)
  | value => .other (json value)

def readKey (entry : String × KeyDirection) : IndexKey := ⟨entry.1, normalizeDirection entry.2⟩

def toIndexSpec (desc : IndexDescription τ) : ReadIndex τ :=
  let filter := desc.partialFilterExpression.map recordEntries
  { spec :=
      { name := desc.name
        keys := (recordEntries desc.key).map readKey
        unique := desc.unique.getD false
        ttl := desc.expireAfterSeconds.isSome
        isPartial := filter.isSome
        partialFilter := filter.map fun members =>
          members.map fun member => (member.1, filterValue json member.2)
        sparse := desc.sparse.getD false
        hidden := desc.hidden.getD false
        isShardKey := false
        collation := desc.collation.map Collation.locale
        includes := [] }
    partialFilter := filter }

end Read

/-! ## What a description says -/

namespace KeyDirection

def Ordinary : KeyDirection → Prop
  | number value => value ≠ 0
  | text _ => False

def descending : KeyDirection → Bool
  | number value => decide (value < 0)
  | text _ => false

def misread : KeyDirection → Bool
  | number value => decide (value < 0 ∧ value ≠ -1)
  | text _ => false

instance (direction : KeyDirection) : Decidable direction.Ordinary :=
  match direction with
  | number value => inferInstanceAs (Decidable (value ≠ 0))
  | text _ => inferInstanceAs (Decidable False)

end KeyDirection

namespace IndexDescription

variable {τ : Type u}

def fields (desc : IndexDescription τ) : List String := desc.key.map Prod.fst

def collationOption (desc : IndexDescription τ) (option : String) : Option (Value τ) :=
  desc.collation.bind fun collation => collation.members.lookup option

/-- The key's fields stand in the order an object enumerates them in, and none is the
accessor that records do not keep. -/
def KeyInOrder (desc : IndexDescription τ) : Prop :=
  "__proto__" ∉ desc.fields ∧ Enumerated desc.fields
  deriving Decidable

theorem recordEntries_key_iff (desc : IndexDescription τ) :
    recordEntries desc.key = desc.key ↔ desc.KeyInOrder :=
  recordEntries_eq_self_iff desc.key_nodup

/-- One index covers another on the server: its keys extend the other's, all in the same
or all in the opposite direction, and strings are compared alike. -/
structure Covers (desc other : IndexDescription τ) : Prop where
  leads : desc.fields <+: other.fields
  proper : desc.key.length < other.key.length
  signs : (∀ pair ∈ desc.key.zip other.key, pair.1.2.descending = pair.2.2.descending) ∨
    ∀ pair ∈ desc.key.zip other.key, pair.1.2.descending ≠ pair.2.2.descending
  collation : ∀ option, desc.collationOption option = other.collationOption option

/-- Along the shared keys, directions are misread on both sides or neither, or on exactly
one side throughout. -/
def MisreadAlike (desc other : IndexDescription τ) : Prop :=
  (∀ pair ∈ desc.key.zip other.key, pair.1.2.misread = pair.2.2.misread) ∨
    ∀ pair ∈ desc.key.zip other.key, pair.1.2.misread ≠ pair.2.2.misread

end IndexDescription

/-! ## Covers found between specs -/

section Found
variable {τ : Type u}

theorem leads_map_readKey_iff (d : IndexDirection → Option IndexDirection)
    (keys others : List (String × KeyDirection)) :
    Leads d (keys.map readKey) (others.map readKey) ↔
      keys.map Prod.fst <+: others.map Prod.fst ∧
        ∀ pair ∈ keys.zip others,
          d (normalizeDirection pair.1.2) = some (normalizeDirection pair.2.2) := by
  induction keys generalizing others with
  | nil => simp [Leads]
  | cons key keys ih =>
    cases others with
    | nil => simp [Leads]
    | cons other others =>
      simp only [List.map_cons, Leads, readKey, ih others, List.cons_prefix_cons,
        List.zip_cons_cons, List.forall_mem_cons]
      tauto

theorem normalizeDirection_ordinary {direction : KeyDirection} (h : direction.Ordinary) :
    normalizeDirection direction =
      if direction.descending = direction.misread then .asc else .desc := by
  cases direction with
  | text value => exact h.elim
  | number value =>
    simp only [normalizeDirection, KeyDirection.descending, KeyDirection.misread]
    by_cases hasc : value = 1
    · simp [hasc]
    · by_cases hdesc : value = -1
      · subst hdesc
        decide
      · simp [hasc, hdesc]

theorem descending_eq_iff {a b : KeyDirection} (ha : a.Ordinary) (hb : b.Ordinary) :
    (some (normalizeDirection a) = some (normalizeDirection b) →
      (a.descending = b.descending ↔ a.misread = b.misread)) ∧
    ((normalizeDirection a).negate = some (normalizeDirection b) →
      (a.descending = b.descending ↔ a.misread ≠ b.misread)) := by
  rw [normalizeDirection_ordinary ha, normalizeDirection_ordinary hb]
  generalize a.descending = da, a.misread = ma, b.descending = db, b.misread = mb
  revert da ma db mb
  decide

namespace IndexDescription

/-- Where the specs walk one order, the descriptions do exactly where directions are
misread alike. -/
theorem signs_iff {desc other : IndexDescription τ}
    (hordinary : ∀ key ∈ desc.key, key.2.Ordinary) (hother : ∀ key ∈ other.key, key.2.Ordinary)
    (h : Leads some (desc.key.map readKey) (other.key.map readKey) ∨
      Leads IndexDirection.negate (desc.key.map readKey) (other.key.map readKey)) :
    ((∀ pair ∈ desc.key.zip other.key, pair.1.2.descending = pair.2.2.descending) ∨
      ∀ pair ∈ desc.key.zip other.key, pair.1.2.descending ≠ pair.2.2.descending) ↔
        desc.MisreadAlike other := by
  have hpair : ∀ pair ∈ desc.key.zip other.key, pair.1.2.Ordinary ∧ pair.2.2.Ordinary := by
    intro pair hin
    obtain ⟨hin₁, hin₂⟩ := List.of_mem_zip hin
    exact ⟨hordinary _ hin₁, hother _ hin₂⟩
  rcases h with h | h
  · have hsame : ∀ pair ∈ desc.key.zip other.key,
        (pair.1.2.descending = pair.2.2.descending ↔ pair.1.2.misread = pair.2.2.misread) := by
      intro pair hin
      exact (descending_eq_iff (hpair pair hin).1 (hpair pair hin).2).1
        (((leads_map_readKey_iff _ _ _).mp h).2 pair hin)
    exact or_congr (forall₂_congr hsame) (forall₂_congr fun pair hin => not_congr (hsame pair hin))
  · have hopposite : ∀ pair ∈ desc.key.zip other.key,
        (pair.1.2.descending = pair.2.2.descending ↔ pair.1.2.misread ≠ pair.2.2.misread) := by
      intro pair hin
      exact (descending_eq_iff (hpair pair hin).1 (hpair pair hin).2).2
        (((leads_map_readKey_iff _ _ _).mp h).2 pair hin)
    refine or_comm.trans (or_congr (forall₂_congr fun pair hin => ?_) (forall₂_congr hopposite))
    exact not_iff_comm.mp (hopposite pair hin).symm

theorem collationOption_locale {desc other : IndexDescription τ}
    (h : desc.collation.map Collation.locale = other.collation.map Collation.locale) :
    desc.collationOption "locale" = other.collationOption "locale" := by
  have hlocale : ∀ d : IndexDescription τ,
      d.collationOption "locale" = (d.collation.map Collation.locale).map Value.text := by
    intro d
    cases hcollation : d.collation with
    | none => simp [collationOption, hcollation]
    | some collation => simp [collationOption, hcollation, collation.named]
  rw [hlocale, hlocale, h]

end IndexDescription

/-- Of descriptions whose fields are read in their order: a cover found between the specs
is a cover on the server exactly where directions are misread alike and the collations
agree in what is not read of them. -/
theorem redundantPrefix_covers_iff (json : Value τ → String) (desc other : IndexDescription τ)
    (hdesc : desc.KeyInOrder) (hother : other.KeyInOrder)
    (hordinary : ∀ key ∈ desc.key, key.2.Ordinary) (hordinary' : ∀ key ∈ other.key, key.2.Ordinary)
    (h : isRedundantPrefix (toIndexSpec json desc).spec (toIndexSpec json other).spec = true) :
    desc.Covers other ↔
      desc.MisreadAlike other ∧ ∀ option, option ≠ "locale" →
        desc.collationOption option = other.collationOption option := by
  obtain ⟨hoptions, -, -, hlength, horder⟩ := (isRedundantPrefix_iff _ _).mp h
  have hlocale := ((optionsCompatible_iff _ _).mp hoptions).2.2.2
  rw [coversKeyOrder_iff] at horder
  simp only [toIndexSpec, (desc.recordEntries_key_iff).mpr hdesc,
    (other.recordEntries_key_iff).mpr hother, List.length_map] at hlength hlocale horder
  have hleads : desc.fields <+: other.fields := by
    rcases horder with horder | horder <;> exact ((leads_map_readKey_iff _ _ _).mp horder).1
  have hsigns := IndexDescription.signs_iff hordinary hordinary' horder
  constructor
  · intro hcovers
    exact ⟨hsigns.mp hcovers.signs, fun option _ => hcovers.collation option⟩
  · rintro ⟨hmisread, hagree⟩
    refine ⟨hleads, hlength, hsigns.mpr hmisread, fun option => ?_⟩
    by_cases hoption : option = "locale"
    · rw [hoption]
      exact IndexDescription.collationOption_locale hlocale
    · exact hagree option hoption

end Found

/-! ## Descriptions on a server -/

def described {τ : Type} (name : String) (key : List (String × KeyDirection))
    (collation : Option (Collation τ)) (hne : key ≠ []) (hnodup : (key.map Prod.fst).Nodup) :
    IndexDescription τ where
  name := name
  key := key
  unique := none
  sparse := none
  hidden := none
  expireAfterSeconds := none
  partialFilterExpression := none
  collation := collation
  key_ne_nil := hne
  key_nodup := hnodup
  filter_distinct := nofun

/-- French at a strength: 1 compares letters, 3 case and accents too. -/
def french {τ : Type} (strength : ℚ) : Collation τ where
  members := [("locale", .text "fr"), ("strength", .number strength)]
  locale := "fr"
  named := rfl

def ascDesc : IndexDescription Empty :=
  described "a_1_b_-2" [("a", .number 1), ("b", .number (-2))] (some (french 3))
    (by decide) (by decide)

def ascDescWider : IndexDescription Empty :=
  described "a_5_b_-0.5_c_1" [("a", .number 5), ("b", .number (-1 / 2)), ("c", .number 1)]
    (some (french 3)) (by decide) (by decide)

theorem redundantPrefix_covers_ascDesc : ascDesc.Covers ascDescWider :=
  (redundantPrefix_covers_iff (fun _ => "") ascDesc ascDescWider (by decide)
    (by decide +kernel) (by decide +kernel) (by decide +kernel) (by decide +kernel)).mpr
    ⟨.inl (by decide +kernel), fun _ _ => rfl⟩

def ascAscWider : IndexDescription Empty :=
  described "a_1_b_1_c_1" [("a", .number 1), ("b", .number 1), ("c", .number 1)]
    (some (french 3)) (by decide) (by decide)

def lettersOnly (τ : Type) : IndexDescription τ :=
  described "name_1" [("name", .number 1)] (some (french 1)) (by decide) (by decide)

def fullStrength (τ : Type) : IndexDescription τ :=
  described "name_1_at_1" [("name", .number 1), ("at", .number 1)] (some (french 3))
    (by decide) (by decide)

def onZero : IndexDescription Empty :=
  described "0_1" [("0", .number 1)] none (by decide) (by decide)

def onZeroSecond (τ : Type) : IndexDescription τ :=
  described "b_1_0_1" [("b", .number 1), ("0", .number 1)] none (by decide) (by decide)

/-- Covers that are none on the server: a direction of -2 read as ascending, two strengths
of one locale, and a field that an object enumerates first. -/
theorem redundantPrefix_not_covers :
    (isRedundantPrefix (toIndexSpec (fun _ => "") ascDesc).spec
        (toIndexSpec (fun _ => "") ascAscWider).spec = true ∧ ¬ ascDesc.Covers ascAscWider) ∧
      (isRedundantPrefix (toIndexSpec (fun _ => "") (lettersOnly Empty)).spec
        (toIndexSpec (fun _ => "") (fullStrength Empty)).spec = true ∧
          ¬ (lettersOnly Empty).Covers (fullStrength Empty)) ∧
      (isRedundantPrefix (toIndexSpec (fun _ => "") onZero).spec
        (toIndexSpec (fun _ => "") (onZeroSecond Empty)).spec = true ∧
          ¬ onZero.Covers (onZeroSecond Empty)) := by
  refine ⟨⟨by decide, fun h => ?_⟩, ⟨by decide, fun h => ?_⟩,
    ⟨by decide, fun h => ?_⟩⟩
  · exact absurd h.signs (by decide)
  · have hstrength : (some (.number 1) : Option (Value Empty)) = some (.number 3) :=
      h.collation "strength"
    simp at hstrength
  · exact absurd h.leads (by decide)

end Indexterity
