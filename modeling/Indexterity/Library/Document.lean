import Indexterity.Library.Properties

/-!
# Documents and the way through a JSON column

Documents are ordered lists of members. A script holds one as an object, which enumerates
array indexes first; a schema for records copies it and leaves `__proto__` behind; a JSON
column lists the members of every object in an order of its own, and what JSON has no form
for comes back as something else. Each of the three gives a document back exactly under a
condition on its names and leaves.
-/

namespace Indexterity.Library

universe u v

/-- A value of a document: those JSON has too, and those of types it lacks. -/
inductive Value (τ : Type u) where
  | null
  | bool (value : Bool)
  | number (value : ℚ)
  | text (value : String)
  | array (items : List (Value τ))
  | document (members : List (String × Value τ))
  | typed (value : τ)

abbrev Members (τ : Type u) := List (String × Value τ)

/-! ## Copies of a record -/

section Record
variable {α : Type v}

def recordEntries (members : List (String × α)) : List (String × α) :=
  ownEntries (assignAll (ownEntries members))

theorem names_recordEntries (members : List (String × α)) :
    ((recordEntries members).map Prod.fst).Nodup ∧
      "__proto__" ∉ (recordEntries members).map Prod.fst ∧
      Enumerated ((recordEntries members).map Prod.fst) := by
  obtain ⟨hnodup, hproto⟩ := names_assignAll (ownEntries members)
  have hperm := (perm_ownEntries (assignAll (ownEntries members))).map Prod.fst
  exact ⟨hperm.nodup_iff.mpr hnodup, fun hin => hproto (hperm.subset hin),
    enumerated_ownEntries _⟩

theorem recordEntries_subset (members : List (String × α)) :
    recordEntries members ⊆ members := fun _ hin =>
  (perm_ownEntries _).subset (assignAll_subset _ ((perm_ownEntries _).subset hin))

theorem recordEntries_eq_self_iff {members : List (String × α)}
    (hnodup : (members.map Prod.fst).Nodup) :
    recordEntries members = members ↔
      "__proto__" ∉ members.map Prod.fst ∧ Enumerated (members.map Prod.fst) := by
  constructor
  · intro h
    have hnames := (names_recordEntries members).2
    rwa [h] at hnames
  · rintro ⟨hproto, henumerated⟩
    rw [recordEntries, ownEntries_of_enumerated henumerated, ownEntries_assignAll_iff]
    exact ⟨hnodup, hproto, henumerated⟩

theorem eq_of_perm_of_names {l₁ l₂ : List (String × α)} (hperm : l₁.Perm l₂)
    (hnames : l₁.map Prod.fst = l₂.map Prod.fst) (hnodup : (l₂.map Prod.fst).Nodup) : l₁ = l₂ := by
  refine List.ext_getElem hperm.length_eq fun i h₁ h₂ => ?_
  have hname : l₁[i].1 = l₂[i].1 := by simpa [h₁, h₂] using congrArg (·[i]?) hnames
  exact List.inj_on_of_nodup_map hnodup (hperm.subset (List.getElem_mem h₁)) (List.getElem_mem h₂) hname

end Record

/-! ## Objects of a script -/

section Objects
variable {τ : Type u}

mutual

/-- A value as a script holds it: the members of its documents as they are enumerated. -/
def Value.enumerated : Value τ → Value τ
  | .array items => .array (enumeratedItems items)
  | .document members => .document (ownEntries (enumeratedMembers members))
  | .null => .null
  | .bool value => .bool value
  | .number value => .number value
  | .text value => .text value
  | .typed value => .typed value

def enumeratedItems : List (Value τ) → List (Value τ)
  | [] => []
  | item :: items => item.enumerated :: enumeratedItems items

def enumeratedMembers : Members τ → Members τ
  | [] => []
  | (name, value) :: members => (name, value.enumerated) :: enumeratedMembers members

end

def parsedRecord (members : Members τ) : Members τ := recordEntries (enumeratedMembers members)

end Objects

/-! ## The column -/

/-- A JSON column: what is written for a value JSON lacks, and the order in which the
members of an object are listed. -/
structure JsonColumn (τ : Type u) where
  form : τ → Value τ
  form_untyped : ∀ value other, form value ≠ .typed other
  listed : String → String → Bool
  listed_total : ∀ a b, listed a b = true ∨ listed b a = true
  listed_trans : ∀ {a b c}, listed a b = true → listed b c = true → listed a c = true
  listed_antisymm : ∀ {a b}, listed a b = true → listed b a = true → a = b

namespace JsonColumn

variable {τ : Type u} (column : JsonColumn τ) {α : Type v}

def sorted (members : List (String × α)) : List (String × α) :=
  members.insertionSort fun a b => column.listed a.1 b.1 = true

def arranged (members : List (String × α)) : List (String × α) :=
  ownEntries (column.sorted (ownEntries members))

def before (a b : String) : Bool :=
  enumerates a b && ((arrayIndex a).isSome || (arrayIndex b).isSome || column.listed a b)

def Arranged (names : List String) : Prop := names.Pairwise fun a b => column.before a b = true
  deriving Decidable

theorem Arranged.enumerated {column : JsonColumn τ} {names : List String}
    (h : column.Arranged names) : Enumerated names :=
  List.Pairwise.imp (fun hab => (Bool.and_eq_true_iff.mp hab).1) h

theorem before_antisymm {a b : String} (hab : column.before a b = true)
    (hba : column.before b a = true) : a = b := by
  simp only [before, enumerates, Bool.and_eq_true, Bool.or_eq_true] at hab hba
  cases ha : arrayIndex a with
  | none =>
    cases hb : arrayIndex b with
    | none =>
      have hlisted : column.listed a b = true ∧ column.listed b a = true := by simp_all
      exact column.listed_antisymm hlisted.1 hlisted.2
    | some j => simp_all
  | some i =>
    cases hb : arrayIndex b with
    | none => simp_all
    | some j =>
      have hij : i = j := by simp_all; omega
      exact arrayIndex_injective ha (hij ▸ hb)

instance : Std.Total fun a b : String × α => column.listed a.1 b.1 = true :=
  ⟨fun a b => column.listed_total a.1 b.1⟩

instance : IsTrans (String × α) fun a b => column.listed a.1 b.1 = true :=
  ⟨fun _ _ _ => column.listed_trans⟩

theorem perm_arranged (members : List (String × α)) : (column.arranged members).Perm members :=
  (perm_ownEntries _).trans ((List.perm_insertionSort _ _).trans (perm_ownEntries _))

theorem arranged_names (members : List (String × α)) :
    column.Arranged ((column.arranged members).map Prod.fst) := by
  have hlisted : (column.sorted (ownEntries members)).Pairwise
      fun a b => column.listed a.1 b.1 = true := List.pairwise_insertionSort _ _
  have hothers : ((column.arranged members).filter fun member =>
      (arrayIndex member.1).isNone).Pairwise fun a b => column.listed a.1 b.1 = true := by
    rw [arranged, filter_ownEntries]
    exact hlisted.filter _
  have hindexes := List.pairwise_map.mp (enumerated_ownEntries (column.sorted (ownEntries members)))
  refine List.pairwise_map.mpr (hindexes.imp₂ ?_ (List.pairwise_filter.mp hothers))
  intro a b henumerates hlists
  rw [before, henumerates, Bool.true_and]
  cases ha : arrayIndex a.1 <;> cases hb : arrayIndex b.1 <;> simp_all

theorem arranged_eq_self_iff {members : List (String × α)} (hnodup : (members.map Prod.fst).Nodup) :
    column.arranged members = members ↔ column.Arranged (members.map Prod.fst) := by
  constructor
  · intro h
    rw [← h]
    exact column.arranged_names members
  · intro h
    have hperm := column.perm_arranged members
    have hantisymm : ∀ a b, a ∈ column.arranged members → b ∈ members →
        column.before a.1 b.1 = true → column.before b.1 a.1 = true → a = b := by
      intro a b ha hb hab hba
      have hnames := column.before_antisymm hab hba
      exact List.inj_on_of_nodup_map hnodup (hperm.subset ha) hb hnames
    exact List.Perm.eq_of_pairwise hantisymm
      (List.pairwise_map.mp (column.arranged_names members)) (List.pairwise_map.mp h) hperm

end JsonColumn

/-! ## Values through the column -/

section Reread
variable {τ : Type u} (column : JsonColumn τ)

mutual

def Value.reread : Value τ → Value τ
  | .null => .null
  | .bool value => .bool value
  | .number value => .number value
  | .text value => .text value
  | .array items => .array (rereadItems items)
  | .document members => .document (column.arranged (rereadMembers members))
  | .typed value => column.form value

def rereadItems : List (Value τ) → List (Value τ)
  | [] => []
  | item :: items => item.reread :: rereadItems items

def rereadMembers : Members τ → Members τ
  | [] => []
  | (name, value) :: members => (name, value.reread) :: rereadMembers members

end

mutual

def Value.distinct : Value τ → Bool
  | .array items => distinctItems items
  | .document members => decide (members.map Prod.fst).Nodup && distinctMembers members
  | _ => true

def distinctItems : List (Value τ) → Bool
  | [] => true
  | item :: items => item.distinct && distinctItems items

def distinctMembers : Members τ → Bool
  | [] => true
  | (_, value) :: members => value.distinct && distinctMembers members

end

mutual

/-- Everything inside has a form in JSON, and the members of every document come in the
order they come back in. -/
def Value.kept : Value τ → Bool
  | .array items => keptItems items
  | .document members =>
    decide (column.Arranged (members.map Prod.fst)) && keptMembers members
  | .typed _ => false
  | _ => true

def keptItems : List (Value τ) → Bool
  | [] => true
  | item :: items => item.kept && keptItems items

def keptMembers : Members τ → Bool
  | [] => true
  | (_, value) :: members => value.kept && keptMembers members

end

theorem rereadMembers_names (members : Members τ) :
    (rereadMembers column members).map Prod.fst = members.map Prod.fst := by
  induction members with
  | nil => rfl
  | cons member members ih => rw [rereadMembers, List.map_cons, ih, List.map_cons]

theorem arranged_rereadMembers_iff {members : Members τ} (hnodup : (members.map Prod.fst).Nodup) :
    column.arranged (rereadMembers column members) = members ↔
      column.Arranged (members.map Prod.fst) ∧ rereadMembers column members = members := by
  constructor
  · intro h
    have hperm := column.perm_arranged (rereadMembers column members)
    rw [h] at hperm
    have hmembers := eq_of_perm_of_names hperm.symm (rereadMembers_names column members) hnodup
    rw [hmembers, column.arranged_eq_self_iff hnodup] at h
    exact ⟨h, hmembers⟩
  · rintro ⟨harranged, hmembers⟩
    rw [hmembers, column.arranged_eq_self_iff hnodup]
    exact harranged

mutual

theorem Value.reread_eq_self_iff (value : Value τ) (h : value.distinct = true) :
    value.reread column = value ↔ value.kept column = true := by
  cases value with
  | null => simp [Value.reread, Value.kept]
  | bool value => simp [Value.reread, Value.kept]
  | number value => simp [Value.reread, Value.kept]
  | text value => simp [Value.reread, Value.kept]
  | array items =>
    rw [Value.reread, Value.kept, Value.array.injEq, rereadItems_eq_self_iff items h]
  | document members =>
    simp only [Value.distinct, Bool.and_eq_true, decide_eq_true_eq] at h
    rw [Value.reread, Value.kept, Value.document.injEq, arranged_rereadMembers_iff column h.1,
      rereadMembers_eq_self_iff members h.2, Bool.and_eq_true, decide_eq_true_eq]
  | typed value => simp [Value.reread, Value.kept, column.form_untyped]

theorem rereadItems_eq_self_iff (items : List (Value τ)) (h : distinctItems items = true) :
    rereadItems column items = items ↔ keptItems column items = true := by
  cases items with
  | nil => simp [rereadItems, keptItems]
  | cons item items =>
    simp only [distinctItems, Bool.and_eq_true] at h
    rw [rereadItems, keptItems, List.cons.injEq, item.reread_eq_self_iff h.1,
      rereadItems_eq_self_iff items h.2, Bool.and_eq_true]

theorem rereadMembers_eq_self_iff (members : Members τ) (h : distinctMembers members = true) :
    rereadMembers column members = members ↔ keptMembers column members = true := by
  cases members with
  | nil => simp [rereadMembers, keptMembers]
  | cons member members =>
    obtain ⟨name, value⟩ := member
    simp only [distinctMembers, Bool.and_eq_true] at h
    rw [rereadMembers, keptMembers, List.cons.injEq, Prod.mk.injEq, value.reread_eq_self_iff h.1,
      rereadMembers_eq_self_iff members h.2, Bool.and_eq_true, and_iff_right rfl]

end

section
variable {members : Members τ} (h : (Value.document members).distinct = true)
include h

/-- A record stored and copied is what it was exactly where nothing is named `__proto__` and the
document is kept. -/
theorem recordEntries_arranged_iff :
    recordEntries (column.arranged (rereadMembers column members)) = members ↔
      "__proto__" ∉ members.map Prod.fst ∧ (Value.document members).kept column = true := by
  simp only [Value.distinct, Bool.and_eq_true, decide_eq_true_eq] at h
  obtain ⟨hnodup, hdistinct⟩ := h
  have hkept : (Value.document members).kept column = true ↔
      column.arranged (rereadMembers column members) = members := by
    rw [arranged_rereadMembers_iff column hnodup,
      rereadMembers_eq_self_iff column members hdistinct, Value.kept, Bool.and_eq_true,
      decide_eq_true_eq]
  have hperm := (column.perm_arranged (rereadMembers column members)).map Prod.fst
  rw [rereadMembers_names] at hperm
  have hcopied := recordEntries_eq_self_iff (hperm.nodup_iff.mpr hnodup)
  rw [hperm.mem_iff] at hcopied
  have henumerated := (column.arranged_names (rereadMembers column members)).enumerated
  rw [hkept]
  constructor
  · intro hback
    have hnames := (names_recordEntries (column.arranged (rereadMembers column members))).2.1
    rw [hback] at hnames
    exact ⟨hnames, (hcopied.mpr ⟨hnames, henumerated⟩).symm.trans hback⟩
  · rintro ⟨hproto, hback⟩
    exact (hcopied.mpr ⟨hproto, henumerated⟩).trans hback

/-- The same for one that is copied first. -/
theorem recordEntries_reread_iff :
    recordEntries (column.arranged (rereadMembers column (recordEntries members))) = members ↔
      "__proto__" ∉ members.map Prod.fst ∧ (Value.document members).kept column = true := by
  have hcopied := recordEntries_eq_self_iff
    (of_decide_eq_true (Bool.and_eq_true_iff.mp h).1)
  constructor
  · intro hback
    have hnames := (names_recordEntries
      (column.arranged (rereadMembers column (recordEntries members)))).2
    rw [hback] at hnames
    rw [hcopied.mpr hnames] at hback
    exact (recordEntries_arranged_iff column h).mp hback
  · rintro ⟨hproto, hkept⟩
    have harranged : column.Arranged (members.map Prod.fst) :=
      of_decide_eq_true (Bool.and_eq_true_iff.mp hkept).1
    rw [hcopied.mpr ⟨hproto, harranged.enumerated⟩]
    exact (recordEntries_arranged_iff column h).mpr ⟨hproto, hkept⟩

end

end Reread

end Indexterity.Library
