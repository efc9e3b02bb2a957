import Mathlib.Algebra.Order.BigOperators.Group.List

/-!
# Each element with the one before it

`withPrevious` pairs the elements of a list with their predecessors, the way a loop
that remembers the last element it saw does. Membership is a split of the list. `neighbours`
are the pairs of elements one behind the other; a sum over them splits where the list does.
-/

namespace Indexterity.Library

universe u v
variable {α : Type u} {β : Type v}

def withPrevious (previous : Option α) : List α → List (Option α × α)
  | [] => []
  | x :: xs => (previous, x) :: withPrevious (some x) xs

theorem withPrevious_map (f : α → β) (previous : Option α) (xs : List α) :
    withPrevious (previous.map f) (xs.map f) =
      (withPrevious previous xs).map fun p => (p.1.map f, f p.2) := by
  induction xs generalizing previous with
  | nil => rfl
  | cons x xs ih =>
    exact congrArg _ (ih (some x))

private theorem getLast?_cons_or (y : α) (xs : List α) (previous : Option α) :
    (y :: xs).getLast?.or previous = xs.getLast?.or (some y) := by
  rw [List.getLast?_cons]
  cases xs.getLast? <;> rfl

variable {x a b : α} {xs : List α}

theorem mem_withPrevious_iff {previous p : Option α} :
    (p, x) ∈ withPrevious previous xs ↔
      ∃ before after, xs = before ++ x :: after ∧ p = before.getLast?.or previous := by
  induction xs generalizing previous with
  | nil => simp [withPrevious]
  | cons y ys ih =>
    rw [withPrevious, List.mem_cons, ih]
    constructor
    · rintro (h | ⟨before, after, rfl, rfl⟩)
      · obtain ⟨rfl, rfl⟩ := Prod.mk.inj h
        exact ⟨[], ys, rfl, rfl⟩
      · exact ⟨y :: before, after, rfl, (getLast?_cons_or y before previous).symm⟩
    · rintro ⟨before, after, hsplit, rfl⟩
      cases before with
      | nil =>
        obtain ⟨rfl, rfl⟩ := List.cons.inj hsplit
        exact .inl rfl
      | cons z before =>
        obtain ⟨rfl, rfl⟩ := List.cons.inj hsplit
        exact .inr ⟨before, after, rfl, getLast?_cons_or _ before previous⟩

theorem mem_withPrevious_some_iff :
    (some a, b) ∈ withPrevious none xs ↔
      ∃ before after, xs = before ++ a :: b :: after := by
  rw [mem_withPrevious_iff]
  constructor
  · rintro ⟨before, after, rfl, hlast⟩
    rw [Option.or_none] at hlast
    obtain ⟨before, rfl⟩ := List.getLast?_eq_some_iff.mp hlast.symm
    exact ⟨before, after, by simp⟩
  · rintro ⟨before, after, rfl⟩
    exact ⟨before ++ [a], after, by simp, by simp⟩

/-! ## Neighbours -/

def neighbours (xs : List α) : List (α × α) := xs.zip xs.tail

@[simp] theorem neighbours_nil : neighbours ([] : List α) = [] := rfl

@[simp] theorem neighbours_singleton (a : α) : neighbours [a] = [] := rfl

@[simp] theorem neighbours_cons_cons (a b : α) (xs : List α) :
    neighbours (a :: b :: xs) = (a, b) :: neighbours (b :: xs) := rfl

theorem neighbours_map (f : α → β) (xs : List α) :
    neighbours (xs.map f) = (neighbours xs).map fun p => (f p.1, f p.2) := by
  unfold neighbours
  rw [← List.map_tail, List.zip_map]
  rfl

theorem withPrevious_some (a : α) (xs : List α) :
    withPrevious (some a) xs = (neighbours (a :: xs)).map fun p => (some p.1, p.2) := by
  induction xs generalizing a with
  | nil => rfl
  | cons x xs ih => rw [withPrevious, ih, neighbours_cons_cons, List.map_cons]

theorem withPrevious_none_cons (a : α) (xs : List α) :
    withPrevious none (a :: xs) =
      (none, a) :: (neighbours (a :: xs)).map fun p => (some p.1, p.2) := by
  rw [withPrevious, withPrevious_some]

theorem map_snd_withPrevious (previous : Option α) (xs : List α) :
    (withPrevious previous xs).map Prod.snd = xs := by
  induction xs generalizing previous with
  | nil => rfl
  | cons x xs ih => rw [withPrevious, List.map_cons, ih]

theorem length_neighbours (xs : List α) : (neighbours xs).length = xs.length - 1 := by
  simp [neighbours]

theorem mem_take_neighbours_iff {n : Nat} :
    (a, b) ∈ (neighbours xs).take n ↔
      ∃ before after, xs = before ++ a :: b :: after ∧ before.length < n := by
  induction xs generalizing n with
  | nil => simp
  | cons x xs ih =>
    cases n with
    | zero => simp
    | succ n =>
      cases xs with
      | nil => simp [List.cons_eq_append_iff]
      | cons y xs =>
        rw [neighbours_cons_cons, List.take_succ_cons, List.mem_cons, ih]
        constructor
        · rintro (h | ⟨before, after, h, hlength⟩)
          · obtain ⟨rfl, rfl⟩ := Prod.mk.inj h
            exact ⟨[], xs, rfl, Nat.succ_pos n⟩
          · exact ⟨x :: before, after, congrArg _ h, Nat.succ_lt_succ hlength⟩
        · rintro ⟨before, after, h, hlength⟩
          cases before with
          | nil =>
            rw [List.nil_append, List.cons.injEq, List.cons.injEq] at h
            exact .inl (Prod.ext h.1.symm h.2.1.symm)
          | cons z before =>
            rw [List.cons_append, List.cons.injEq] at h
            exact .inr ⟨before, after, h.2, Nat.lt_of_succ_lt_succ hlength⟩

theorem mem_neighbours_iff :
    (a, b) ∈ neighbours xs ↔ ∃ before after, xs = before ++ a :: b :: after := by
  have hall : (neighbours xs).take xs.length = neighbours xs :=
    List.take_of_length_le ((length_neighbours xs).trans_le (Nat.sub_le _ _))
  rw [← hall, mem_take_neighbours_iff]
  refine exists₂_congr fun before after => and_iff_left_of_imp ?_
  rintro rfl
  simp

theorem rel_of_mem_neighbours {R : α → α → Prop} (h : xs.Pairwise R) {p : α × α}
    (hp : p ∈ neighbours xs) : R p.1 p.2 := by
  obtain ⟨before, after, rfl⟩ := mem_neighbours_iff.mp hp
  exact (List.pairwise_cons.mp (List.pairwise_append.mp h).2.1).1 _ List.mem_cons_self

theorem drop_neighbours (first rest : List α) :
    (neighbours (first ++ rest)).drop first.length = neighbours rest := by
  unfold neighbours
  rw [List.zip, List.drop_zipWith, List.drop_left, List.drop_tail, ← List.tail_drop,
    List.drop_left]

variable {f : α × α → β} {points : List α}

theorem map_neighbours_append (hne : points ≠ [])
    (hlast : ∀ p ∈ points.getLast?, ∀ b, f (p, b) = f (x, b)) (after : List α) :
    (neighbours (points ++ after)).map f =
      (neighbours points).map f ++ (neighbours (x :: after)).map f := by
  induction points with
  | nil => exact absurd rfl hne
  | cons p points ih =>
    cases points with
    | nil => cases after <;> simp [hlast p rfl]
    | cons q points =>
      have hrest := ih (List.cons_ne_nil q points) (by simpa using hlast)
      simpa using hrest

/-- A map that does not tell `x` from the first of `points` behind it, nor from the last ahead,
is cut around the `points` that stand for `x`. -/
theorem map_neighbours_within (hne : points ≠ [])
    (hfirst : ∀ p ∈ points.head?, ∀ a, f (a, p) = f (a, x))
    (hlast : ∀ p ∈ points.getLast?, ∀ b, f (p, b) = f (x, b)) (before after : List α) :
    (neighbours (before ++ points ++ after)).map f =
      (neighbours (before ++ [x])).map f ++ (neighbours points).map f ++
        (neighbours (x :: after)).map f := by
  induction before with
  | nil => simpa using map_neighbours_append hne hlast after
  | cons a before ih =>
    cases before with
    | nil =>
      obtain ⟨p, rest, rfl⟩ := List.exists_cons_of_ne_nil hne
      simpa [hfirst p rfl] using ih
    | cons b before => simpa using ih

section Sums
variable {M : Type v} [AddCommGroup M]

theorem sum_ite_zero (p : α → Prop) [DecidablePred p] (f : α → M) (xs : List α) :
    (xs.map fun x => if p x then f x else 0).sum =
      ((xs.filter fun x => decide (p x)).map f).sum := by
  induction xs with
  | nil => rfl
  | cons x xs ih => by_cases hx : p x <;> simp [hx, ih]

theorem sum_filter_add_filter_not (p q : α → Prop) [DecidablePred p] [DecidablePred q]
    (f : α → M) (xs : List α) :
    ((xs.filter fun x => decide (p x ∧ q x)).map f).sum +
        ((xs.filter fun x => decide (¬ p x ∧ q x)).map f).sum =
      ((xs.filter fun x => decide (q x)).map f).sum := by
  rw [← sum_ite_zero, ← sum_ite_zero, ← sum_ite_zero, ← List.sum_map_add]
  refine congrArg List.sum (List.map_congr_left fun x _ => ?_)
  by_cases hp : p x <;> simp [hp]

/-- From the first element with a property that lasts, the differences add up to the last value
less the first. -/
theorem sum_sub_neighbours (g : α → M) (p : α → Prop) [DecidablePred p]
    (h : xs.Pairwise fun a b => p a → p b) (d : M) :
    (((neighbours xs).filter fun q => decide (p q.1)).map fun q => g q.2 - g q.1).sum =
      ((xs.filter fun x => decide (p x)).getLast?.map g).getD d -
        ((xs.filter fun x => decide (p x)).head?.map g).getD d := by
  induction xs with
  | nil => simp
  | cons a xs ih =>
    obtain ⟨ha, hxs⟩ := List.pairwise_cons.mp h
    cases xs with
    | nil => by_cases hp : p a <;> simp [hp]
    | cons b xs =>
      rw [neighbours_cons_cons]
      by_cases hp : p a
      · have hb := ha b List.mem_cons_self hp
        have hrest := ih hxs
        rw [List.filter_cons_of_pos (by simpa using hb), List.head?_cons, Option.map_some,
          Option.getD_some] at hrest
        rw [List.filter_cons_of_pos (by simpa using hp), List.map_cons, List.sum_cons, hrest,
          List.filter_cons_of_pos (by simpa using hp), List.filter_cons_of_pos (by simpa using hb),
          List.getLast?_cons_cons, List.head?_cons, Option.map_some, Option.getD_some]
        exact sub_add_sub_cancel' _ _ _
      · rw [List.filter_cons_of_neg (by simpa using hp), List.filter_cons_of_neg (by simpa using hp),
          ih hxs]

variable [PartialOrder M] [IsOrderedAddMonoid M]

theorem sum_map_eq_zero_iff {f : α → M} (h : ∀ x ∈ xs, 0 ≤ f x) :
    (xs.map f).sum = 0 ↔ ∀ x ∈ xs, f x = 0 := by
  induction xs with
  | nil => simp
  | cons x xs ih =>
    obtain ⟨hx, hxs⟩ := List.forall_mem_cons.mp h
    have hsum := List.sum_nonneg (List.forall_mem_map.mpr hxs)
    rw [List.map_cons, List.sum_cons, List.forall_mem_cons, ← ih hxs]
    exact add_eq_zero_iff_of_nonneg hx hsum

theorem sum_neighbours_eq_iff {f : α × α → M} {first rest : List α}
    (h : ∀ p ∈ neighbours (first ++ rest), 0 ≤ f p) :
    ((neighbours rest).map f).sum = ((neighbours (first ++ rest)).map f).sum ↔
      ∀ p ∈ (neighbours (first ++ rest)).take first.length, f p = 0 := by
  have hsplit : ((neighbours (first ++ rest)).map f).sum =
      (((neighbours (first ++ rest)).take first.length).map f).sum +
        ((neighbours rest).map f).sum := by
    rw [← drop_neighbours first rest, ← List.sum_append, ← List.map_append,
      List.take_append_drop]
  rw [hsplit, ← sum_map_eq_zero_iff fun p hp => h p (List.mem_of_mem_take hp)]
  exact right_eq_add

end Sums

theorem mem_of_mem_neighbours {p : α × α} (h : p ∈ neighbours xs) : p.1 ∈ xs ∧ p.2 ∈ xs := by
  obtain ⟨before, after, rfl⟩ := mem_neighbours_iff.mp h
  simp

end Indexterity.Library
