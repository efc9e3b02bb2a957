import Mathlib.Order.Lattice

/-!
# Closed spans

A span is a pair of its ends, and contains both. Spans that are apart have an order: the one
that starts first ends before the other starts.
-/

namespace Indexterity.Library

variable {α : Type} [LinearOrder α]

def Meets (a b : α × α) : Prop := a.1 ≤ b.2 ∧ b.1 ≤ a.2
  deriving Decidable

def Apart (spans : List (α × α)) : Prop := spans.Pairwise fun a b => ¬ Meets a b
  deriving Decidable

variable {a b : α × α}

theorem Meets.symm (h : Meets a b) : Meets b a := ⟨h.2, h.1⟩

theorem lt_of_not_meets (h : ¬ Meets a b) (hb : b.1 ≤ b.2) (hab : a.1 ≤ b.1) : a.2 < b.1 :=
  not_le.mp fun hle => h ⟨hab.trans hb, hle⟩

theorem not_meets_of_lt (h : a.2 < b.1) : ¬ Meets a b :=
  fun hmeets => absurd hmeets.2 (not_le.mpr h)

theorem apart_concat {spans : List (α × α)} :
    Apart (spans ++ [a]) ↔ Apart spans ∧ ∀ s ∈ spans, ¬ Meets s a := by
  simp [Apart, List.pairwise_append]

theorem apart_middle {before after : List (α × α)} :
    Apart (before ++ a :: after) ↔
      Apart (before ++ after) ∧ ∀ s ∈ before ++ after, ¬ Meets s a := by
  have hsymm : ∀ s : α × α, ¬ Meets s a ↔ ¬ Meets a s :=
    fun s => not_congr ⟨Meets.symm, Meets.symm⟩
  have hswap : ∀ {x y : α × α}, ¬ Meets x y → ¬ Meets y x := fun h hm => h hm.symm
  unfold Apart
  rw [List.pairwise_middle hswap, List.pairwise_cons, and_comm]
  exact and_congr_right fun _ => forall₂_congr fun s _ => (hsymm s).symm

end Indexterity.Library
