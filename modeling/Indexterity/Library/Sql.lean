import Mathlib.Algebra.BigOperators.Group.Finset.Piecewise
import Mathlib.Data.List.ReduceOption
import Mathlib.Data.List.Sort
import Indexterity.Library.Consecutive
import Indexterity.Library.Keyed
import Indexterity.Library.Spans

/-!
# What a query computes

Tables are lists of rows, and null is `none`. An ordered window is the rows in the order of its
key; `lag` is `withPrevious`. Aggregates leave nulls out and are null of nothing else. Grouping
splits a sum, and ordering keeps it.
-/

namespace Indexterity.Library.Sql

variable {α β κ : Type}

def orderBy [LinearOrder κ] (key : α → κ) (rows : List α) : List α :=
  rows.insertionSort fun a b => key a ≤ key b

def sum {M : Type} [AddMonoid M] (values : List (Option M)) : Option M :=
  match values.reduceOption with
  | [] => none
  | present => some present.sum

def withNext : List α → List (α × Option α)
  | [] => []
  | row :: rows => (row, rows.head?) :: withNext rows

def withRunningSum (f : α → Int) (sum : Int) : List α → List (α × Int)
  | [] => []
  | row :: rows => (row, sum + f row) :: withRunningSum f (sum + f row) rows

def groupBy [DecidableEq κ] (key : α → κ) (rows : List α) : List (κ × List α) :=
  (rows.map key).dedup.map fun k => (k, rows.filter fun row => decide (key row = k))

def leftJoin (on : α → β → Bool) (rows : List α) (others : List β) : List (α × Option β) :=
  rows.flatMap fun row =>
    match others.filter (on row) with
    | [] => [(row, none)]
    | matched => matched.map fun other => (row, some other)

def innerJoin (on : α → β → Bool) (rows : List α) (others : List β) : List (α × β) :=
  rows.flatMap fun row => (others.filter (on row)).map fun other => (row, other)

section Order
variable [LinearOrder κ] (key : α → κ)

theorem orderBy_perm (rows : List α) : (orderBy key rows).Perm rows :=
  List.perm_insertionSort _ rows

theorem orderBy_sorted (rows : List α) : (orderBy key rows).Pairwise fun a b => key a ≤ key b := by
  exact List.pairwise_insertionSort _ _

theorem orderBy_of_apart {span : α → κ × κ} {rows : List α} (happart : Apart (rows.map span))
    (hforward : ∀ row ∈ rows, (span row).1 ≤ (span row).2) :
    (orderBy (fun row => (span row).1) rows).Pairwise fun a b => (span a).2 < (span b).1 := by
  have hperm := orderBy_perm (fun row => (span row).1) rows
  have hapart : (orderBy (fun row => (span row).1) rows).Pairwise
      fun a b => ¬ Meets (span a) (span b) :=
    (hperm.pairwise_iff fun h hmeets => h hmeets.symm).mpr (List.pairwise_map.mp happart)
  refine (List.Pairwise.and_mem.mp (hapart.and (orderBy_sorted _ rows))).imp ?_
  rintro a b ⟨-, hb, hmeets, hle⟩
  exact lt_of_not_meets hmeets (hforward b (hperm.mem_iff.mp hb)) hle

theorem orderBy_of_sorted {rows : List α} (h : rows.Pairwise fun a b => key a ≤ key b) :
    orderBy key rows = rows :=
  h.insertionSort_eq

end Order

section Extremes
variable {values : List Int} (h : values.Pairwise (· ≤ ·))
include h

theorem min?_of_sorted : values.min? = values.head? := by
  cases values with
  | nil => rfl
  | cons x xs =>
    rw [List.head?_cons, List.min?_eq_some_iff]
    exact ⟨List.mem_cons_self, List.forall_mem_cons.mpr ⟨le_rfl, (List.pairwise_cons.mp h).1⟩⟩

theorem max?_of_sorted : values.max? = values.getLast? := by
  rcases List.eq_nil_or_concat values with rfl | ⟨xs, x, rfl⟩
  · rfl
  · rw [List.concat_eq_append] at h ⊢
    rw [List.getLast?_concat, List.max?_eq_some_iff]
    refine ⟨by simp, List.forall_mem_append.mpr ⟨fun y hy => ?_, by simp⟩⟩
    exact (List.pairwise_append.mp h).2.2 y hy x (by simp)

end Extremes

section Aggregates
variable {M : Type} [AddMonoid M]

theorem sum_getD (values : List (Option M)) :
    (sum values).getD 0 = (values.map fun value => value.getD 0).sum := by
  have hsum : (values.map fun value => value.getD 0).sum = values.reduceOption.sum := by
    induction values with
    | nil => rfl
    | cons value values ih => cases value <;> simp [ih]
  rw [hsum, sum]
  split
  · rename_i hnil
    rw [hnil]
    rfl
  · rfl

end Aggregates

section Groups
variable [DecidableEq κ] {M : Type} [AddCommMonoid M] (key : α → κ)

theorem sum_fibres (f : α → M) {rows : List α} {keys : Finset κ}
    (h : ∀ row ∈ rows, key row ∈ keys) :
    (∑ k ∈ keys, ((rows.filter fun row => decide (key row = k)).map f).sum) =
      (rows.map f).sum := by
  induction rows with
  | nil => simp
  | cons row rows ih =>
    obtain ⟨hrow, hrows⟩ := List.forall_mem_cons.mp h
    have hsplit : ∀ k ∈ keys,
        (((row :: rows).filter fun row => decide (key row = k)).map f).sum =
          (if key row = k then f row else 0) +
            ((rows.filter fun row => decide (key row = k)).map f).sum := by
      intro k _
      by_cases heq : key row = k <;> simp [heq]
    rw [Finset.sum_congr rfl hsplit, Finset.sum_add_distrib, ih hrows, Finset.sum_ite_eq,
      if_pos hrow, List.map_cons, List.sum_cons]

theorem sum_groupBy (f : α → M) (rows : List α) :
    ((groupBy key rows).map fun group => (group.2.map f).sum).sum = (rows.map f).sum := by
  have hrows : ∀ row ∈ rows, key row ∈ (rows.map key).dedup.toFinset :=
    fun row hrow => List.mem_toFinset.mpr (List.mem_dedup.mpr (List.mem_map_of_mem hrow))
  rw [← sum_fibres key f hrows, groupBy, List.map_map,
    List.sum_toFinset _ (List.nodup_dedup _)]
  rfl

theorem key_of_mem_groupBy {rows : List α} {group : κ × List α} (h : group ∈ groupBy key rows) :
    group.2 ≠ [] ∧ ∀ row ∈ group.2, row ∈ rows ∧ key row = group.1 := by
  obtain ⟨k, hk, rfl⟩ := List.mem_map.mp h
  obtain ⟨row, hrow, rfl⟩ := List.mem_map.mp (List.mem_dedup.mp hk)
  refine ⟨List.ne_nil_of_mem (List.mem_filter.mpr ⟨hrow, decide_eq_true rfl⟩), fun row hrow => ?_⟩
  exact ⟨List.mem_of_mem_filter hrow, by simpa using (List.mem_filter.mp hrow).2⟩

theorem groupBy_append {k : κ} {first rest : List α} (hne : first ≠ [])
    (hfirst : ∀ row ∈ first, key row = k) (hrest : ∀ row ∈ rest, key row ≠ k) :
    groupBy key (first ++ rest) = (k, first) :: groupBy key rest := by
  have hothers : k ∉ rest.map key := by
    rintro hmem
    obtain ⟨row, hrow, hkey⟩ := List.mem_map.mp hmem
    exact hrest row hrow hkey
  have hdedup : ((first ++ rest).map key).dedup = k :: (rest.map key).dedup := by
    rw [List.map_append, List.map_eq_replicate_iff.mpr hfirst, List.Disjoint.dedup_append,
      List.replicate_dedup (List.length_eq_zero_iff.not.mpr hne), List.singleton_append]
    intro other hother hmem
    exact hothers (List.eq_of_mem_replicate hother ▸ hmem)
  have hgroup : (first ++ rest).filter (fun row => decide (key row = k)) = first := by
    rw [List.filter_append, List.filter_eq_self.mpr fun row hrow => decide_eq_true (hfirst row hrow),
      List.filter_eq_nil_iff.mpr fun row hrow => by simpa using hrest row hrow, List.append_nil]
  rw [groupBy, hdedup, List.map_cons, hgroup, groupBy]
  congr 1
  refine List.map_congr_left fun other hother => ?_
  have hne : k ≠ other := by
    rintro rfl
    exact hothers (List.mem_dedup.mp hother)
  rw [List.filter_append, List.filter_eq_nil_iff.mpr fun row hrow => by
    simpa [hfirst row hrow] using hne, List.nil_append]

end Groups

section Joins
variable [DecidableEq κ] (key : β → κ) {others : List β}

theorem filter_key_eq (h : (others.map key).Nodup) (k : κ) :
    (others.filter fun other => decide (key other = k)) = (lookupLast key others k).toList := by
  induction others using List.reverseRecOn with
  | nil => rfl
  | append_singleton others other ih =>
    rw [List.map_append, List.nodup_append] at h
    rw [List.filter_append, ih h.1, lookupLast_append, lookupLast_singleton]
    by_cases heq : key other = k
    · have hnone : lookupLast key others k = none := by
        refine (lookupLast_eq_none_iff key others k).mpr fun x hx hxk => ?_
        exact h.2.2 (key x) (List.mem_map_of_mem hx) (key other) (by simp) (hxk.trans heq.symm)
      simp [heq, hnone]
    · simp [heq]

variable (keyOf : α → κ)

theorem leftJoin_key (h : (others.map key).Nodup) (rows : List α) :
    leftJoin (fun row other => decide (key other = keyOf row)) rows others =
      rows.map fun row => (row, lookupLast key others (keyOf row)) := by
  rw [leftJoin, List.map_eq_flatMap]
  refine List.flatMap_congr fun row _ => ?_
  rw [filter_key_eq key h]
  cases lookupLast key others (keyOf row) <;> rfl

theorem innerJoin_key (h : (others.map key).Nodup) (rows : List α) :
    innerJoin (fun row other => decide (key other = keyOf row)) rows others =
      rows.flatMap fun row => ((lookupLast key others (keyOf row)).map fun other =>
        (row, other)).toList := by
  refine List.flatMap_congr fun row _ => ?_
  rw [filter_key_eq key h]
  cases lookupLast key others (keyOf row) <;> rfl

end Joins

end Indexterity.Library.Sql
