import Indexterity.IndexSpec
import Mathlib.Algebra.Order.Ring.Int

/-!
# Redundancy: when one index covers another

`analysis/redundancy.ts`. Covering compares keys position by position, all in one
direction or all reversed. Reversing twice is no reversal, so covering composes: it is
a strict order on indexes of distinct names, and a longest cover is covered by nothing.
-/

namespace Indexterity

def optionsCompatible (candidate other : IndexSpec) : Bool :=
  if candidate.unique && !other.unique then false
  else if candidate.isPartial || candidate.sparse || candidate.ttl then false
  else if other.isPartial || other.sparse || other.hidden then false
  else candidate.collation == other.collation

def coveredColumns (index : IndexSpec) : List String := index.fields ++ index.includes

def coversIncludes (candidate other : IndexSpec) : Bool :=
  candidate.includes.all fun column => (coveredColumns other).contains column

/-- The loop of `coversKeyOrder`: the directions at each position, where the fields of
`candidate` lead `other`. -/
def keyPairs : List IndexKey → List IndexKey → Option (List (IndexDirection × IndexDirection))
  | [], _ => some []
  | _ :: _, [] => none
  | key :: keys, otherKey :: others =>
    if otherKey.field ≠ key.field then none
    else (keyPairs keys others).map ((key.direction, otherKey.direction) :: ·)

def coversKeyOrder (candidate other : IndexSpec) : Bool :=
  match keyPairs candidate.keys other.keys with
  | none => false
  | some pairs =>
    pairs.all (fun p => p.1 == p.2) || pairs.all fun p => p.1.negate == some p.2

def servedByBackwardWalk (candidate other : IndexSpec) : Bool :=
  coversKeyOrder candidate other &&
    candidate.keys.zipIdx.any fun (key, i) =>
      (other.keys[i]?.map IndexKey.direction) != some key.direction

def isKeyPrefix (candidate other : IndexSpec) : Bool :=
  if candidate.name = other.name then false
  else if other.keys.length ≤ candidate.keys.length then false
  else if candidate.collation ≠ other.collation then false
  else coversKeyOrder candidate other

def isRedundantPrefix (candidate other : IndexSpec) : Bool :=
  if !optionsCompatible candidate other then false
  else if !coversIncludes candidate other then false
  else isKeyPrefix candidate other

def isCoveredBy (candidate other : IndexSpec) : Bool :=
  if isRedundantPrefix candidate other then true
  else if !optionsCompatible candidate other || !coversIncludes candidate other then false
  else candidate.keys.length == other.keys.length && coversKeyOrder candidate other

/-! ## Key order -/

/-- The fields of one key list lead another's, each in the direction `d` makes of it. -/
def Leads (d : IndexDirection → Option IndexDirection) : List IndexKey → List IndexKey → Prop
  | [], _ => True
  | _ :: _, [] => False
  | key :: keys, otherKey :: others =>
    otherKey.field = key.field ∧ d key.direction = some otherKey.direction ∧ Leads d keys others

theorem keyPairs_all_iff (d : IndexDirection → Option IndexDirection)
    (keys others : List IndexKey) :
    (∃ pairs, keyPairs keys others = some pairs ∧ ∀ p ∈ pairs, d p.1 = some p.2) ↔
      Leads d keys others := by
  induction keys generalizing others with
  | nil => simp [keyPairs, Leads]
  | cons key keys ih =>
    cases others with
    | nil => simp [keyPairs, Leads]
    | cons otherKey others =>
      by_cases hfield : otherKey.field = key.field
      · simp only [keyPairs, hfield, ne_eq, not_true_eq_false, if_false, Option.map_eq_some_iff,
          Leads, true_and, ← ih others]
        constructor
        · rintro ⟨_, ⟨pairs, hpairs, rfl⟩, hall⟩
          exact ⟨hall _ List.mem_cons_self, pairs, hpairs,
            fun p hp => hall p (List.mem_cons_of_mem _ hp)⟩
        · rintro ⟨hd, pairs, hpairs, hall⟩
          refine ⟨_, ⟨pairs, hpairs, rfl⟩, fun p hp => ?_⟩
          rcases List.mem_cons.mp hp with rfl | hp
          · exact hd
          · exact hall p hp
      · simp [keyPairs, Leads, hfield]

theorem coversKeyOrder_iff (candidate other : IndexSpec) :
    coversKeyOrder candidate other = true ↔
      Leads some candidate.keys other.keys ∨
        Leads IndexDirection.negate candidate.keys other.keys := by
  rw [← keyPairs_all_iff, ← keyPairs_all_iff, coversKeyOrder]
  cases keyPairs candidate.keys other.keys with
  | none => simp
  | some pairs => simp

theorem Leads.trans {d e f : IndexDirection → Option IndexDirection}
    (hdef : ∀ x y z, d x = some y → e y = some z → f x = some z)
    {xs ys zs : List IndexKey} (hxy : Leads d xs ys) (hyz : Leads e ys zs) : Leads f xs zs := by
  induction xs generalizing ys zs with
  | nil => trivial
  | cons x xs ih =>
    cases ys with
    | nil => exact hxy.elim
    | cons y ys =>
      cases zs with
      | nil => exact hyz.elim
      | cons z zs =>
        exact ⟨hyz.1.trans hxy.1, hdef _ _ _ hxy.2.1 hyz.2.1, ih hxy.2.2 hyz.2.2⟩

theorem Leads.mem_fields {d : IndexDirection → Option IndexDirection} {xs ys : List IndexKey}
    (h : Leads d xs ys) {field : String} (hf : field ∈ xs.map IndexKey.field) :
    field ∈ ys.map IndexKey.field := by
  induction xs generalizing ys with
  | nil => simp at hf
  | cons x xs ih =>
    cases ys with
    | nil => exact h.elim
    | cons y ys =>
      rcases List.mem_cons.mp hf with rfl | hf
      · exact List.mem_cons.mpr (.inl h.1.symm)
      · exact List.mem_cons_of_mem _ (ih h.2.2 hf)

theorem coversKeyOrder_trans {a b c : IndexSpec} (hab : coversKeyOrder a b = true)
    (hbc : coversKeyOrder b c = true) : coversKeyOrder a c = true := by
  rw [coversKeyOrder_iff] at hab hbc ⊢
  rcases hab with hab | hab <;> rcases hbc with hbc | hbc
  · exact .inl (hab.trans (fun x y z hxy hyz => by cases hxy; exact hyz) hbc)
  · exact .inr (hab.trans (fun x y z hxy hyz => by cases hxy; exact hyz) hbc)
  · exact .inr (hab.trans (fun x y z hxy hyz => by cases hyz; exact hxy) hbc)
  · exact .inl (hab.trans (fun x y z hxy hyz => by cases x <;> cases hxy <;> cases hyz <;> rfl) hbc)

theorem coversKeyOrder_fields {a b : IndexSpec} (h : coversKeyOrder a b = true) {field : String}
    (hf : field ∈ a.fields) : field ∈ b.fields := by
  rcases (coversKeyOrder_iff a b).mp h with h | h
  · exact h.mem_fields hf
  · exact h.mem_fields hf

/-! ## Covering is a strict order -/

variable (a b : IndexSpec)

theorem optionsCompatible_iff :
    optionsCompatible a b = true ↔
      (a.unique = true → b.unique = true) ∧
        (a.isPartial = false ∧ a.sparse = false ∧ a.ttl = false) ∧
        (b.isPartial = false ∧ b.sparse = false ∧ b.hidden = false) ∧
        a.collation = b.collation := by
  simp only [optionsCompatible, Bool.if_false_left, Bool.and_eq_true, Bool.not_eq_true',
    decide_eq_false_iff_not, Bool.or_eq_true, not_or, not_and, Bool.not_eq_true, beq_iff_eq]
  simp only [Bool.not_eq_false, and_assoc]

theorem coversIncludes_iff :
    coversIncludes a b = true ↔ ∀ column ∈ a.includes, column ∈ b.fields ∨ column ∈ b.includes := by
  simp [coversIncludes, coveredColumns, List.all_eq_true]

theorem isKeyPrefix_iff :
    isKeyPrefix a b = true ↔
      a.name ≠ b.name ∧ a.keys.length < b.keys.length ∧ a.collation = b.collation ∧
        coversKeyOrder a b = true := by
  simp only [isKeyPrefix, Bool.if_false_left, Bool.and_eq_true, Bool.not_eq_true',
    decide_eq_false_iff_not, Nat.not_le, ne_eq, not_not]

theorem isRedundantPrefix_iff :
    isRedundantPrefix a b = true ↔
      optionsCompatible a b = true ∧ coversIncludes a b = true ∧ a.name ≠ b.name ∧
        a.keys.length < b.keys.length ∧ coversKeyOrder a b = true := by
  have hguards : isRedundantPrefix a b = true ↔
      optionsCompatible a b = true ∧ coversIncludes a b = true ∧ isKeyPrefix a b = true := by
    simp only [isRedundantPrefix, Bool.if_false_left, Bool.and_eq_true, Bool.not_eq_true',
      decide_eq_false_iff_not, Bool.not_eq_false]
  rw [hguards, isKeyPrefix_iff]
  constructor
  · rintro ⟨hopt, hincl, hname, hlen, -, hord⟩
    exact ⟨hopt, hincl, hname, hlen, hord⟩
  · rintro ⟨hopt, hincl, hname, hlen, hord⟩
    -- the collation was already compared among the options
    exact ⟨hopt, hincl, hname, hlen, ((optionsCompatible_iff a b).mp hopt).2.2.2, hord⟩

theorem isRedundantPrefix_length {a b : IndexSpec} (h : isRedundantPrefix a b = true) :
    a.keys.length < b.keys.length :=
  ((isRedundantPrefix_iff a b).mp h).2.2.2.1

theorem isRedundantPrefix_trans {a b c : IndexSpec} (hab : isRedundantPrefix a b = true)
    (hbc : isRedundantPrefix b c = true) (hname : a.name ≠ c.name) :
    isRedundantPrefix a c = true := by
  rw [isRedundantPrefix_iff] at hab hbc ⊢
  obtain ⟨hopt, hincl, -, hlen, hord⟩ := hab
  obtain ⟨hopt', hincl', -, hlen', hord'⟩ := hbc
  refine ⟨?_, ?_, hname, Nat.lt_trans hlen hlen', coversKeyOrder_trans hord hord'⟩
  · rw [optionsCompatible_iff] at hopt hopt' ⊢
    obtain ⟨hu, hself, -, hcol⟩ := hopt
    obtain ⟨hu', -, hother, hcol'⟩ := hopt'
    exact ⟨fun h => hu' (hu h), hself, hother, hcol.trans hcol'⟩
  · rw [coversIncludes_iff] at hincl hincl' ⊢
    intro column hcolumn
    rcases hincl column hcolumn with h | h
    · exact .inl (coversKeyOrder_fields hord' h)
    · exact hincl' column h

/-!
## Key order: what covering means for the rows

A key list orders rows lexicographically. `coversKeyOrder` compares fields and directions
only; yet it says whether every listing in the order of one index, or its reverse, is in
the order of the other, whatever the rows are.
-/

section Order
variable {V : Type}

/-- A row may stand before another: the first key they differ in says so, or none does. -/
def MayPrecede (before : IndexDirection → V → V → Prop) :
    List IndexKey → (String → V) → (String → V) → Prop
  | [], _, _ => True
  | key :: keys, r, r' =>
    before key.direction (r key.field) (r' key.field) ∨
      r key.field = r' key.field ∧ MayPrecede before keys r r'

variable {turn : IndexDirection → Option IndexDirection} {before : IndexDirection → V → V → Prop}
  {keys others : List IndexKey} {r r' : String → V}

theorem mayPrecede_refl : MayPrecede before keys r r := by
  induction keys with
  | nil => trivial
  | cons key keys ih => exact .inr ⟨rfl, ih⟩

theorem mayPrecede_update {field : String} (h : field ∉ keys.map IndexKey.field) (a : V) :
    MayPrecede before keys (Function.update r field a) (Function.update r' field a) ↔
      MayPrecede before keys r r' := by
  induction keys with
  | nil => rfl
  | cons key keys ih =>
    rw [List.map_cons, List.mem_cons, not_or] at h
    simp only [MayPrecede, Function.update_of_ne (Ne.symm h.1), ih h.2]

theorem mayPrecede_swap : MayPrecede before keys r' r ↔
    MayPrecede (fun x a b => before x b a) keys r r' := by
  induction keys with
  | nil => rfl
  | cons key keys ih => simp only [MayPrecede, ih, eq_comm]

variable [LinearOrder V]

def IndexDirection.Before : IndexDirection → V → V → Prop
  | .desc, a, b => b < a
  | _, a, b => a < b

def SortedBy (keys : List IndexKey) (rows : List (String → V)) : Prop :=
  rows.Pairwise (MayPrecede IndexDirection.Before keys)

/-- Distinct fields, each in an order that has a reverse. -/
def Ordered (keys : List IndexKey) : Prop :=
  (keys.map IndexKey.field).Nodup ∧ ∀ key ∈ keys, key.direction = .asc ∨ key.direction = .desc
  deriving Decidable

theorem Ordered.tail {key : IndexKey} {keys : List IndexKey} (h : Ordered (key :: keys)) :
    Ordered keys :=
  ⟨h.1.of_cons, fun k hk => h.2 k (List.mem_cons_of_mem _ hk)⟩

/-- A way to read an index: what it makes of a direction, and of two values. -/
structure Reading (turn : IndexDirection → Option IndexDirection)
    (before : IndexDirection → V → V → Prop) : Prop where
  ne {x a b} : before x a b → a ≠ b
  asymm {x a b} : before x a b → ¬ before x b a
  exists_before (x) : ∃ a b, before x a b
  before_iff {x y a b} (hx : x = .asc ∨ x = .desc) (hy : y = .asc ∨ y = .desc)
    (h : y.Before a b) : before x a b ↔ turn x = some y

theorem mayPrecede_of_leads (hread : Reading turn before) (hkeys : Ordered keys)
    (hothers : Ordered others) (h : Leads turn keys others)
    (hr : MayPrecede IndexDirection.Before others r r') : MayPrecede before keys r r' := by
  induction keys generalizing others with
  | nil => trivial
  | cons key keys ih =>
    cases others with
    | nil => exact h.elim
    | cons other others =>
      obtain ⟨hfield, hturn, hrest⟩ := h
      have hk := hkeys.2 key List.mem_cons_self
      have ho := hothers.2 other List.mem_cons_self
      rw [MayPrecede, hfield] at hr
      exact hr.imp (fun hr => (hread.before_iff hk ho hr).mpr hturn)
        fun hr => ⟨hr.1, ih hkeys.tail hothers.tail hrest hr.2⟩

/-- Where one key list does not lead the other, two rows tell them apart. -/
theorem leads_of_mayPrecede (hread : Reading turn before) (hforward : Reading (V := V) some
    IndexDirection.Before) (hkeys : Ordered keys) (hothers : Ordered others)
    (h : ∀ r r', MayPrecede IndexDirection.Before others r r' → MayPrecede before keys r r') :
    Leads turn keys others := by
  induction keys generalizing others with
  | nil => trivial
  | cons key keys ih =>
    have hnot {r r' : String → V} (hr : before key.direction (r' key.field) (r key.field)) :
        ¬ MayPrecede before (key :: keys) r r' := by
      rintro (hbefore | ⟨heq, -⟩)
      · exact hread.asymm hr hbefore
      · exact hread.ne hr heq.symm
    obtain ⟨a, b, hab⟩ := hread.exists_before key.direction
    cases others with
    | nil => exact (hnot hab (h (fun _ => b) (fun _ => a) trivial)).elim
    | cons other others =>
      obtain ⟨c, d, hcd⟩ := hforward.exists_before other.direction
      by_cases hfield : other.field = key.field
      · refine ⟨hfield, ?_, ih hkeys.tail hothers.tail fun r r' hr => ?_⟩
        · have hk := hkeys.2 key List.mem_cons_self
          have ho := hothers.2 other List.mem_cons_self
          rcases h (fun _ => c) (fun _ => d) (.inl hcd) with hbefore | ⟨heq, -⟩
          · exact (hread.before_iff hk ho hcd).mp hbefore
          · exact (hforward.ne hcd heq).elim
        -- rows made equal in the first field are told apart by the others alone
        have hrow := (mayPrecede_update (hfield ▸ (List.nodup_cons.mp hothers.1).1) a).mpr hr
        rcases h _ _ (.inr ⟨by rw [hfield]; simp, hrow⟩) with hbefore | ⟨-, hrest⟩
        · exact (hread.ne hbefore (by simp)).elim
        · exact (mayPrecede_update (List.nodup_cons.mp hkeys.1).1 a).mp hrest
      · refine absurd (h (fun f => if f = other.field then c else b)
          (fun f => if f = other.field then d else a) (.inl (by simpa using hcd))) (hnot ?_)
        simpa [Ne.symm hfield] using hab

/-- A listing without repetition in one order keeps to another as every two rows do. -/
theorem sortedBy_imp_iff {rel : (String → V) → (String → V) → Prop} (hrefl : ∀ r, rel r r) :
    (∀ rows : List (String → V), rows.Nodup → SortedBy others rows → rows.Pairwise rel) ↔
      ∀ r r', MayPrecede IndexDirection.Before others r r' → rel r r' := by
  constructor
  · intro h r r' hr
    by_cases heq : r = r'
    · exact heq ▸ hrefl r
    · exact List.pairwise_pair.mp (h [r, r'] (by simpa using heq) (List.pairwise_pair.mpr hr))
  · exact fun h rows _ hrows => hrows.imp (h _ _)

variable [Nontrivial V]

theorem reading_forward : Reading (V := V) some IndexDirection.Before where
  ne := by rintro (_ | _) a b h <;> first | exact ne_of_lt h | exact ne_of_gt h
  asymm := by rintro (_ | _) a b h <;> exact lt_asymm h
  exists_before := by
    obtain ⟨a, b, hab⟩ := exists_pair_lt V
    rintro (_ | _) <;> first | exact ⟨a, b, hab⟩ | exact ⟨b, a, hab⟩
  before_iff := by
    rintro x y a b (rfl | rfl) (rfl | rfl) h <;>
      first | exact iff_of_true h rfl | exact iff_of_false (lt_asymm h) nofun

theorem reading_backward :
    Reading (V := V) IndexDirection.negate fun x a b => x.Before b a where
  ne h := (reading_forward.ne h).symm
  asymm h := reading_forward.asymm h
  exists_before x := exists_comm.mp (reading_forward.exists_before x)
  before_iff := by
    rintro x y a b (rfl | rfl) (rfl | rfl) h <;>
      first | exact iff_of_true h rfl | exact iff_of_false (lt_asymm h) nofun

/-- Covering in key order is covering in the order of the rows, read forwards or backwards. -/
theorem coversKeyOrder_iff_sortedBy {candidate other : IndexSpec} (hc : Ordered candidate.keys)
    (ho : Ordered other.keys) :
    coversKeyOrder candidate other = true ↔
      (∀ rows : List (String → V), rows.Nodup → SortedBy other.keys rows →
        SortedBy candidate.keys rows) ∨
      ∀ rows : List (String → V), rows.Nodup → SortedBy other.keys rows →
        SortedBy candidate.keys rows.reverse := by
  rw [coversKeyOrder_iff]
  refine or_congr (.trans ?_ (sortedBy_imp_iff fun _ => mayPrecede_refl).symm) ?_
  · exact ⟨fun h _ _ => mayPrecede_of_leads reading_forward hc ho h,
      leads_of_mayPrecede reading_forward reading_forward hc ho⟩
  · simp only [SortedBy, List.pairwise_reverse]
    refine .trans ?_ (sortedBy_imp_iff ?_).symm
    · constructor
      · intro h r r' hr
        exact mayPrecede_swap.mpr (mayPrecede_of_leads reading_backward hc ho h hr)
      · intro h
        exact leads_of_mayPrecede reading_backward reading_forward hc ho
          fun r r' hr => mayPrecede_swap.mp (h r r' hr)
    · exact fun _ => mayPrecede_refl

/-- A descending pair serves its leading field in ascending order. -/
theorem coversKeyOrder_descending :
    (∀ rows : List (String → Int), rows.Nodup →
      SortedBy [⟨"a", .desc⟩, ⟨"b", .desc⟩] rows → SortedBy [⟨"a", .asc⟩] rows) ∨
    ∀ rows : List (String → Int), rows.Nodup →
      SortedBy [⟨"a", .desc⟩, ⟨"b", .desc⟩] rows → SortedBy [⟨"a", .asc⟩] rows.reverse :=
  (@coversKeyOrder_iff_sortedBy _ _ _ (ascending "a" ["a"])
    { ascending "ab" [] with keys := [⟨"a", .desc⟩, ⟨"b", .desc⟩] } (by decide) (by decide)).mp
    (by decide)

end Order

end Indexterity
