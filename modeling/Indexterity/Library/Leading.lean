import Mathlib.Data.List.Infix
import Mathlib.Data.List.Nodup
import Mathlib.Data.List.Perm.Subperm

/-!
# First occurrences, and what a list leads with

`firstsBy` keeps the first element of each key, the way a loop with a set of seen keys
does. A list *leads with* a block and a sequence when it starts with the block in some
order and the sequence right behind it. Appending keeps what a list leads with; and a
list already there that agrees with the block and the sequence does not spoil them.
-/

namespace Indexterity.Library

universe u v

section Firsts
variable {α : Type u} {κ : Type v} [DecidableEq κ] (key : α → κ)

def firstsBy : List α → List α
  | [] => []
  | x :: xs => x :: (firstsBy xs).filter fun y => key y ≠ key x

@[simp] theorem firstsBy_nil : firstsBy key [] = [] := rfl

theorem firstsBy_cons (x : α) (xs : List α) :
    firstsBy key (x :: xs) = x :: (firstsBy key xs).filter fun y => key y ≠ key x := rfl

variable (xs : List α)

theorem firstsBy_subset : firstsBy key xs ⊆ xs := by
  induction xs with
  | nil => simp
  | cons x xs ih =>
    intro y hy
    rcases List.mem_cons.mp hy with rfl | hy
    · exact List.mem_cons_self
    · exact List.mem_cons_of_mem x (ih (List.mem_filter.mp hy).1)

theorem mem_map_firstsBy (k : κ) : k ∈ (firstsBy key xs).map key ↔ k ∈ xs.map key := by
  induction xs with
  | nil => simp
  | cons x xs ih =>
    by_cases hk : k = key x
    · simp [firstsBy_cons, hk]
    · rw [firstsBy_cons, List.map_cons, List.map_cons, List.mem_cons, List.mem_cons, ← ih]
      apply or_congr_right
      constructor
      · intro h
        obtain ⟨y, hy, rfl⟩ := List.mem_map.mp h
        exact List.mem_map_of_mem (List.mem_filter.mp hy).1
      · intro h
        obtain ⟨y, hy, rfl⟩ := List.mem_map.mp h
        exact List.mem_map_of_mem (List.mem_filter.mpr ⟨hy, by simpa using hk⟩)

theorem nodup_map_firstsBy : ((firstsBy key xs).map key).Nodup := by
  induction xs with
  | nil => exact List.nodup_nil
  | cons x xs ih =>
    rw [firstsBy_cons, List.map_cons, List.nodup_cons]
    constructor
    · intro h
      obtain ⟨y, hy, hyx⟩ := List.mem_map.mp h
      simpa [hyx] using (List.mem_filter.mp hy).2
    · exact ih.sublist (List.filter_sublist.map key)

theorem firstsBy_filter (p : κ → Bool) (xs : List α) :
    firstsBy key (xs.filter fun x => p (key x)) = (firstsBy key xs).filter fun x => p (key x) := by
  induction xs with
  | nil => rfl
  | cons x xs ih =>
    rw [firstsBy_cons, List.filter_cons, List.filter_cons]
    split
    · rw [firstsBy_cons, ih, List.filter_filter, List.filter_filter]
      simp only [Bool.and_comm]
    · rename_i hx
      rw [ih, List.filter_filter]
      apply List.filter_congr
      intro y _
      by_cases hy : key y = key x
      · simp [hy, Bool.eq_false_iff.mpr hx]
      · simp [hy]

theorem firstsBy_append (xs ys : List α) :
    firstsBy key (xs ++ ys) =
      firstsBy key xs ++ (firstsBy key ys).filter fun y => key y ∉ xs.map key := by
  induction xs with
  | nil => simp
  | cons x xs ih =>
    rw [List.cons_append, firstsBy_cons, firstsBy_cons, ih, List.filter_append, List.filter_filter,
      List.cons_append]
    apply congrArg (List.cons x)
    apply congrArg (List.append _)
    apply List.filter_congr
    intro y _
    simp

theorem firstsBy_of_nodup {xs : List α} (h : (xs.map key).Nodup) : firstsBy key xs = xs := by
  induction xs with
  | nil => rfl
  | cons x xs ih =>
    rw [List.map_cons, List.nodup_cons] at h
    rw [firstsBy_cons, ih h.2]
    apply congrArg (List.cons x)
    apply List.filter_eq_self.mpr
    intro y hy
    have hne : key y ≠ key x := fun heq => h.1 (heq ▸ List.mem_map_of_mem hy)
    simpa using hne

theorem map_firstsBy : (firstsBy key xs).map key = firstsBy id (xs.map key) := by
  induction xs with
  | nil => rfl
  | cons x xs ih =>
    rw [firstsBy_cons, List.map_cons, List.map_cons, firstsBy_cons, ← ih, List.filter_map]
    rfl

theorem foldl_push_eq (ys acc : List α) :
    ys.foldl (fun seen y => if key y ∈ seen.map key then seen else seen ++ [y]) acc =
      acc ++ (firstsBy key ys).filter fun y => key y ∉ acc.map key := by
  induction ys generalizing acc with
  | nil => simp
  | cons y ys ih =>
    rw [List.foldl_cons, ih, firstsBy_cons, List.filter_cons, List.filter_filter]
    by_cases hy : key y ∈ acc.map key
    · rw [if_pos hy]
      simp only [hy, not_true_eq_false, decide_false, if_false, Bool.false_eq_true]
      apply congrArg (acc ++ ·)
      apply List.filter_congr
      intro z _
      by_cases hz : key z = key y
      · simp only [hz, hy, not_true_eq_false, decide_false, Bool.false_and]
      · simp [hz]
    · rw [if_neg hy]
      simp only [hy, not_false_eq_true, decide_true, if_true, List.append_assoc,
        List.singleton_append]
      apply congrArg (acc ++ List.cons y ·)
      apply List.filter_congr
      intro z _
      simp [not_or]

end Firsts

section Leading
variable {α : Type u}

theorem zipIdx_all_iff [DecidableEq α] (a b : List α) :
    (a.zipIdx.all fun p => b[p.2]? == some p.1) = true ↔ a <+: b := by
  constructor
  · intro h
    apply List.prefix_iff_getElem?.mpr
    intro i hi
    have hat := List.all_eq_true.mp h (a[i], i) (List.mk_mem_zipIdx_iff_getElem?.mpr (by simp))
    simpa using hat
  · intro h
    apply List.all_eq_true.mpr
    rintro ⟨x, i⟩ hx
    have hat := List.mk_mem_zipIdx_iff_getElem?.mp hx
    obtain ⟨hi, hget⟩ := List.getElem?_eq_some_iff.mp hat
    have hb := List.prefix_iff_getElem?.mp h i hi
    simp [hb, hget]

def LeadsWith (block sequence lead : List α) : Prop :=
  (lead.take block.length).Perm block ∧ sequence <+: lead.drop block.length

/-- What stands in the places of the block is of the block, and what stands behind
them and the sequence do not part. -/
def Agrees (block sequence lead : List α) : Prop :=
  lead.take block.length ⊆ block ∧
    (lead.drop block.length <+: sequence ∨ sequence <+: lead.drop block.length)

variable {block lead sequence : List α}

theorem leadsWith_iff :
    LeadsWith block sequence lead ↔
      ∃ front rest, lead = front ++ sequence ++ rest ∧ front.Perm block := by
  constructor
  · rintro ⟨hperm, rest, hrest⟩
    refine ⟨lead.take block.length, rest, ?_, hperm⟩
    rw [List.append_assoc, hrest, List.take_append_drop]
  · rintro ⟨front, rest, rfl, hperm⟩
    rw [LeadsWith, ← hperm.length_eq, List.append_assoc, List.take_left, List.drop_left]
    exact ⟨hperm, List.prefix_append sequence rest⟩

theorem LeadsWith.append (h : LeadsWith block sequence lead) (more : List α) :
    LeadsWith block sequence (lead ++ more) := by
  obtain ⟨front, rest, rfl, hperm⟩ := leadsWith_iff.mp h
  exact leadsWith_iff.mpr ⟨front, rest ++ more, by simp, hperm⟩

variable [DecidableEq α]

instance (block sequence lead : List α) : Decidable (LeadsWith block sequence lead) :=
  inferInstanceAs (Decidable (_ ∧ _))

instance (block sequence lead : List α) : Decidable (Agrees block sequence lead) :=
  inferInstanceAs (Decidable (_ ∧ _))

theorem eraseDups_eq_firstsBy (xs : List α) : xs.eraseDups = firstsBy id xs := by
  induction hn : xs.length using Nat.strongRecOn generalizing xs with
  | ind n ih =>
    cases xs with
    | nil => rfl
    | cons x xs =>
      have hlen := List.length_filter_le (fun y => !y == x) xs
      rw [List.eraseDups_cons, ih _ (by simp only [List.length_cons] at hn; omega) _ rfl, firstsBy_cons]
      apply congrArg (List.cons x)
      refine (firstsBy_filter id (fun y => !y == x) xs).trans ?_
      apply List.filter_congr
      intro y _
      by_cases hy : y = x <;> simp [hy]

theorem firstsBy_id_append (hlead : lead.Nodup) (more : List α) :
    firstsBy id (lead ++ more) = lead ++ (firstsBy id more).filter fun x => x ∉ lead := by
  have hself : firstsBy id lead = lead := firstsBy_of_nodup id (by simpa using hlead)
  rw [firstsBy_append, hself]
  simp

theorem LeadsWith.firsts_append (h : LeadsWith block sequence lead) (hlead : lead.Nodup)
    (more : List α) : LeadsWith block sequence (firstsBy id (lead ++ more)) := by
  rw [firstsBy_id_append hlead]
  exact h.append _

theorem perm_append_filter {front : List α} (hlead : lead.Nodup) (hsub : lead ⊆ block)
    (hblock : block.Nodup) (hfront : front.Perm block) :
    (lead ++ front.filter fun x => x ∉ lead).Perm block := by
  have hnodup : front.Nodup := hfront.nodup_iff.mpr hblock
  apply (List.perm_ext_iff_of_nodup _ hblock).mpr
  · intro x
    simp only [List.mem_append, List.mem_filter, decide_eq_true_eq, hfront.mem_iff]
    constructor
    · rintro (hx | hx)
      · exact hsub hx
      · exact hx.1
    · intro hx
      by_cases hl : x ∈ lead
      · exact Or.inl hl
      · exact Or.inr ⟨hx, hl⟩
  · apply List.nodup_append.mpr
    refine ⟨hlead, hnodup.filter _, ?_⟩
    intro x hx y hy hxy
    have hnot := (List.mem_filter.mp hy).2
    simp [← hxy, hx] at hnot

theorem filter_not_mem_append {head tail : List α} (hhead : head ⊆ lead)
    (htail : lead.Disjoint tail) : ((head ++ tail).filter fun x => x ∉ lead) = tail := by
  have hgone : (head.filter fun x => x ∉ lead) = [] := by
    apply List.filter_eq_nil_iff.mpr
    intro x hx
    simp [hhead hx]
  have hkept : (tail.filter fun x => x ∉ lead) = tail := by
    apply List.filter_eq_self.mpr
    intro x hx
    have hnot : x ∉ lead := fun hmem => htail hmem hx
    simpa using hnot
  rw [List.filter_append, hgone, hkept, List.nil_append]

/-- A list that agrees does not spoil what is put behind it: where it ends inside the
block the rest of the block follows, where it ends inside the sequence the rest of the
sequence. -/
theorem leadsWith_of_agrees {more : List α} (hlead : lead.Nodup) (hblock : block.Nodup)
    (hsequence : sequence.Nodup) (hdisjoint : block.Disjoint sequence)
    (hagrees : Agrees block sequence lead) (hmore : LeadsWith block sequence (firstsBy id more)) :
    LeadsWith block sequence (firstsBy id (lead ++ more)) := by
  obtain ⟨hin, hbehind⟩ := hagrees
  obtain ⟨front, rest, hfirsts, hperm⟩ := leadsWith_iff.mp hmore
  rw [firstsBy_id_append hlead, hfirsts, List.filter_append]
  rcases Nat.lt_or_ge block.length lead.length with hlong | hshort
  · -- the block is full: its places hold exactly the block
    have hsplit := List.take_append_drop block.length lead
    have hfull : (lead.take block.length).Perm block := by
      have hnodup := hlead.sublist (List.take_sublist block.length lead)
      apply (List.subperm_of_subset hnodup hin).perm_of_length_le
      rw [List.length_take]
      omega
    rcases hbehind with ⟨tail, htail⟩ | hbehind
    · have hapart : lead.Disjoint tail := by
        intro x hx hxt
        rw [← hsplit] at hx
        rcases List.mem_append.mp hx with hx | hx
        · exact hdisjoint (hin hx) (htail ▸ List.mem_append_right _ hxt)
        · rw [← htail] at hsequence
          exact List.disjoint_of_nodup_append hsequence hx hxt
      have hleft : ((front ++ sequence).filter fun x => x ∉ lead) = tail := by
        rw [← htail, ← List.append_assoc]
        apply filter_not_mem_append _ hapart
        intro x hx
        rcases List.mem_append.mp hx with hx | hx
        · exact List.mem_of_mem_take (hfull.mem_iff.mpr (hperm.mem_iff.mp hx))
        · exact List.mem_of_mem_drop hx
      refine leadsWith_iff.mpr ⟨lead.take block.length, rest.filter fun x => x ∉ lead, ?_, hfull⟩
      rw [hleft, ← htail, ← List.append_assoc, ← List.append_assoc, hsplit]
    · exact LeadsWith.append ⟨hfull, hbehind⟩ _
  · have hall : lead ⊆ block := by
      rwa [List.take_of_length_le hshort] at hin
    have hapart : lead.Disjoint sequence := fun x hx hxs => hdisjoint (hall hx) hxs
    have hseq := filter_not_mem_append (List.nil_subset lead) hapart
    refine leadsWith_iff.mpr
      ⟨lead ++ front.filter fun x => x ∉ lead, rest.filter fun x => x ∉ lead, ?_, ?_⟩
    · rw [List.filter_append, ← List.append_assoc, ← List.append_assoc]
      rw [List.nil_append] at hseq
      rw [hseq]
    · exact perm_append_filter hlead hall hblock hperm

end Leading

end Indexterity.Library
