import Mathlib.Algebra.BigOperators.Group.List.Basic
import Mathlib.Data.List.Nodup

/-!
# Maps that gather

A map that keeps the order of its first writes, filled by a loop: the entry of a key grows,
or a fresh one is appended. Under each key it holds what the items of that key alone make,
in their order.
-/

namespace Indexterity.Library

universe u v w
variable {κ : Type u} {σ : Type v} {α : Type w} [DecidableEq κ]

def gather (k : κ) (grow : Option σ → σ) : List (κ × σ) → List (κ × σ)
  | [] => [(k, grow none)]
  | entry :: rest =>
    if entry.1 = k then (k, grow (some entry.2)) :: rest else entry :: gather k grow rest

def gatherAll (key : α → κ) (grow : α → Option σ → σ) (items : List α) : List (κ × σ) :=
  items.foldl (fun entries item => gather (key item) (grow item) entries) []

theorem keys_gather (k : κ) (grow : Option σ → σ) (entries : List (κ × σ)) :
    (gather k grow entries).map Prod.fst =
      if k ∈ entries.map Prod.fst then entries.map Prod.fst else entries.map Prod.fst ++ [k] := by
  induction entries with
  | nil => rfl
  | cons entry rest ih =>
    rw [gather]
    split_ifs with hkey hin hin
    · rw [List.map_cons, List.map_cons, hkey]
    · exact (hin (by simp [hkey])).elim
    · rw [List.map_cons, ih, if_pos]
      · rfl
      · simpa [Ne.symm hkey] using hin
    · rw [List.map_cons, ih, if_neg]
      · rfl
      · simpa [Ne.symm hkey] using hin

theorem lookup_cons_eq_ite (k j : κ) (s : σ) (rest : List (κ × σ)) :
    ((k, s) :: rest).lookup j = if j = k then some s else rest.lookup j := by
  by_cases hj : j = k
  · simp [hj]
  · rw [List.lookup_cons, beq_eq_false_iff_ne.mpr hj, if_neg hj]

theorem lookup_gather (k j : κ) (grow : Option σ → σ) (entries : List (κ × σ)) :
    (gather k grow entries).lookup j =
      if j = k then some (grow (entries.lookup k)) else entries.lookup j := by
  induction entries with
  | nil => rw [gather, lookup_cons_eq_ite]; rfl
  | cons entry rest ih =>
    obtain ⟨k', s⟩ := entry
    rw [gather]
    by_cases hkey : k' = k
    · subst hkey
      simp only [if_true, lookup_cons_eq_ite]
      split_ifs <;> rfl
    · simp only [if_neg hkey, lookup_cons_eq_ite, ih, Ne.symm hkey, if_false]
      by_cases hj : j = k
      · subst hj
        simp [Ne.symm hkey]
      · simp [hj]

variable (key : α → κ) (grow : α → Option σ → σ) (items : List α)

theorem nodup_keys_gatherAll :
    ((gatherAll key grow items).map Prod.fst).Nodup := by
  apply List.foldlRecOn (motive := fun entries : List (κ × σ) => (entries.map Prod.fst).Nodup)
  · exact List.nodup_nil
  · intro entries h item _
    rw [keys_gather]
    split_ifs with hin
    · exact h
    · exact List.concat_eq_append ▸ h.concat hin

def grown (grow : α → Option σ → σ) (items : List α) : Option σ :=
  items.foldl (fun entry item => some (grow item entry)) none

theorem lookup_gatherAll (k : κ) :
    (gatherAll key grow items).lookup k = grown grow (items.filter fun item => key item = k) := by
  rw [gatherAll, grown, List.foldl_filter]
  refine (List.foldl_hom (List.lookup k) fun entries item => ?_).symm
  rw [lookup_gather]
  by_cases hkey : key item = k
  · simp [hkey]
  · simp [hkey, Ne.symm hkey]

theorem mem_iff_lookup_of_nodup {entries : List (κ × σ)} (h : (entries.map Prod.fst).Nodup)
    (k : κ) (s : σ) : (k, s) ∈ entries ↔ entries.lookup k = some s := by
  induction entries with
  | nil => simp
  | cons entry rest ih =>
    obtain ⟨k', s'⟩ := entry
    rw [List.map_cons, List.nodup_cons] at h
    rw [List.mem_cons, lookup_cons_eq_ite, Prod.mk.injEq]
    by_cases hkey : k = k'
    · have hfresh : (k, s) ∉ rest := fun hin =>
        h.1 (List.mem_map.mpr ⟨(k, s), hin, hkey⟩)
      simp [hkey, hkey ▸ hfresh, eq_comm]
    · simp [hkey, ih h.2]

theorem mem_gatherAll_iff (k : κ) (s : σ) : (k, s) ∈ gatherAll key grow items ↔
      grown grow (items.filter fun item => key item = k) = some s := by
  rw [mem_iff_lookup_of_nodup (nodup_keys_gatherAll key grow items), lookup_gatherAll]

theorem grown_cons (item : α) (items : List α) :
    grown grow (item :: items) =
      some (items.foldl (fun entry item => grow item (some entry)) (grow item none)) :=
  List.foldl_hom some fun _ _ => rfl

/-- What every item adds to, over a whole run. -/
theorem read_foldl {M : Type v} [AddMonoid M] {step : σ → α → σ} {read : σ → M} {added : α → M}
    (hstep : ∀ s item, read (step s item) = read s + added item) (items : List α) (s : σ) :
    read (items.foldl step s) = read s + (items.map added).sum := by
  induction items generalizing s with
  | nil => simp
  | cons item items ih => rw [List.foldl_cons, ih, hstep, add_assoc, List.map_cons, List.sum_cons]

theorem grown_gather (entries : List (κ × σ)) :
    grown (fun item inner => gather (key item) (grow item) (inner.getD [])) items = some entries ↔
      items ≠ [] ∧ gatherAll key grow items = entries := by
  cases items with
  | nil => simp [grown]
  | cons item items =>
    rw [grown_cons, Option.some.injEq]
    simp [gatherAll]

end Indexterity.Library
