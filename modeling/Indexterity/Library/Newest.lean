import Mathlib.Order.Bounds.Basic

/-!
# The newest entry of a list

By a stamp that entries carry, with the entries before and behind it in the list. Of entries
with one stamp it is the last.
-/

namespace Indexterity.Library

section
variable {α β : Type} [LinearOrder β] (stamp : α → β)

def splitNewestBy : List α → Option (List α × α × List α)
  | [] => none
  | a :: as =>
    match splitNewestBy as with
    | none => some ([], a, [])
    | some (older, newest, rest) =>
      if stamp newest < stamp a then some ([], a, as) else some (a :: older, newest, rest)

variable {stamp}

theorem splitNewestBy_eq_none {as : List α} (h : splitNewestBy stamp as = none) : as = [] := by
  cases as with
  | nil => rfl
  | cons a as =>
    unfold splitNewestBy at h
    split at h
    · cases h
    · split at h <;> cases h

theorem splitNewestBy_spec {as older rest : List α} {a : α}
    (h : splitNewestBy stamp as = some (older, a, rest)) :
    as = older ++ a :: rest ∧ ∀ b ∈ as, stamp b ≤ stamp a := by
  induction as generalizing older a rest with
  | nil => cases h
  | cons b as ih =>
    unfold splitNewestBy at h
    split at h
    · rename_i hnone
      obtain ⟨rfl, rfl, rfl⟩ := h
      rw [splitNewestBy_eq_none hnone]
      exact ⟨rfl, by simp⟩
    · rename_i before newest after hsome
      obtain ⟨has, hnewest⟩ := ih hsome
      split at h
      · rename_i hlt
        obtain ⟨rfl, rfl, rfl⟩ := h
        exact ⟨rfl, List.forall_mem_cons.mpr ⟨le_rfl, fun c hc => (hnewest c hc).trans hlt.le⟩⟩
      · rename_i hle
        obtain ⟨rfl, rfl, rfl⟩ := h
        exact ⟨congrArg _ has, List.forall_mem_cons.mpr ⟨not_lt.mp hle, hnewest⟩⟩

theorem splitNewestBy_concat {as : List α} {a : α} (h : ∀ b ∈ as, stamp b ≤ stamp a) :
    splitNewestBy stamp (as ++ [a]) = some (as, a, []) := by
  induction as with
  | nil => rfl
  | cons b as ih =>
    have hb : ¬ stamp a < stamp b := not_lt.mpr (h b List.mem_cons_self)
    rw [List.cons_append, splitNewestBy, ih fun c hc => h c (List.mem_cons_of_mem b hc)]
    exact if_neg hb

end

/-!
## The latest at or before

What a function that gives the latest point of a set at or before a point can be relied on
for, whatever the set is.
-/

variable {α : Type} [PartialOrder α]

def Latest (S : Set α) (f : α → α) : Prop := ∀ t, IsGreatest {s | s ∈ S ∧ s ≤ t} (f t)

namespace Latest
variable {S : Set α} {f : α → α}

theorem le (h : Latest S f) (t : α) : f t ≤ t := (h t).1.2

theorem monotone (h : Latest S f) : Monotone f := by
  intro s t hst
  exact (h t).2 ⟨(h s).1.1, (h.le s).trans hst⟩

theorem apply_apply (h : Latest S f) (t : α) : f (f t) = f t :=
  le_antisymm (h.le (f t)) ((h (f t)).2 ⟨(h t).1.1, le_rfl⟩)

end Latest

end Indexterity.Library
