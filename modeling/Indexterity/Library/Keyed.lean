import Mathlib.Algebra.BigOperators.Group.Finset.Basic

/-!
# Lists read as maps

A map built by writing the entries of a list in turn holds, under each key, the
last entry written there. `lookupLast` is that reading. Where a key has one
entry it is membership, and the order of the entries no longer matters.
-/

namespace Indexterity.Library

section
universe u v
variable {α : Type u} {κ : Type v} [DecidableEq κ] (key : α → κ)

def lookupLast (xs : List α) (k : κ) : Option α :=
  (xs.filter fun x => key x = k).getLast?

@[simp] theorem lookupLast_nil (k : κ) : lookupLast key [] k = none := rfl

variable {k : κ} {xs : List α}

theorem lookupLast_some {x : α} (h : lookupLast key xs k = some x) : x ∈ xs ∧ key x = k := by
  have hm := List.mem_of_getLast? h
  simpa using List.mem_filter.mp hm

theorem lookupLast_eq_none_iff (xs : List α) (k : κ) :
    lookupLast key xs k = none ↔ ∀ x ∈ xs, key x ≠ k := by
  simp [lookupLast]

theorem lookupLast_append (xs ys : List α) (k : κ) :
    lookupLast key (xs ++ ys) k = (lookupLast key ys k).or (lookupLast key xs k) := by
  rw [lookupLast, List.filter_append, List.getLast?_append]
  rfl

@[simp] theorem lookupLast_singleton (x : α) (k : κ) :
    lookupLast key [x] k = if key x = k then some x else none := by
  by_cases h : key x = k <;> simp [lookupLast, h]

theorem lookupLast_filter {p : α → Bool} (h : ∀ x, key x = k → p x = true) (xs : List α) :
    lookupLast key (xs.filter p) k = lookupLast key xs k := by
  rw [lookupLast, lookupLast, List.filter_filter]
  congr 1
  apply List.filter_congr
  intro x _
  by_cases hx : key x = k
  · simp [hx, h x hx]
  · simp [hx]

theorem lookupLast_filter_eq_none {p : α → Bool} (h : ∀ x, key x = k → p x = false) (xs : List α) :
    lookupLast key (xs.filter p) k = none := by
  rw [lookupLast_eq_none_iff]
  intro x hx heq
  rw [List.mem_filter, h x heq] at hx
  exact Bool.false_ne_true hx.2

def OneEach (xs : List α) : Prop := ∀ x ∈ xs, ∀ y ∈ xs, key x = key y → x = y

theorem lookupLast_eq_some_iff (hd : OneEach key xs) (k : κ) (x : α) :
    lookupLast key xs k = some x ↔ x ∈ xs ∧ key x = k := by
  constructor
  · exact lookupLast_some key
  · rintro ⟨hx, hk⟩
    cases hl : lookupLast key xs k with
    | none => exact absurd hk ((lookupLast_eq_none_iff key xs k).mp hl x hx)
    | some y =>
      obtain ⟨hy, hyk⟩ := lookupLast_some key hl
      exact congrArg some (hd y hy x hx (hyk.trans hk.symm))

theorem lookupLast_perm {ys : List α} (h : xs.Perm ys) (hd : OneEach key xs) (k : κ) :
    lookupLast key xs k = lookupLast key ys k := by
  have hd' : OneEach key ys := by
    intro x hx y hy
    exact hd x (h.mem_iff.mpr hx) y (h.mem_iff.mpr hy)
  apply Option.ext
  intro x
  rw [lookupLast_eq_some_iff key hd, lookupLast_eq_some_iff key hd', h.mem_iff]

theorem find?_of_nodup (hnodup : (xs.map key).Nodup) {x : α} (hx : x ∈ xs) :
    xs.find? (fun y => key y == key x) = some x := by
  cases hfound : xs.find? fun y => key y == key x with
  | none =>
    have hnone := List.find?_eq_none.mp hfound x hx
    simp at hnone
  | some y =>
    have hsame : key y = key x := by simpa using List.find?_some hfound
    rw [List.inj_on_of_nodup_map hnodup (List.mem_of_find?_eq_some hfound) hx hsame]

theorem getLast_eq_flatMap_iff {β : Type v} (f : α → List β) (xs : List α) :
    (xs.getLast?.map f).getD [] = xs.flatMap f ↔ ∀ x ∈ xs.dropLast, f x = [] := by
  rcases List.eq_nil_or_concat xs with rfl | ⟨ys, y, rfl⟩
  · simp
  · simp [List.flatMap_append]

theorem filterMap_filter_of_read {β : Type v} {read : α → Option β} {keeps : α → Bool}
    {keeps' : β → Bool} (h : ∀ x b, read x = some b → keeps x = keeps' b) (xs : List α) :
    (xs.filter keeps).filterMap read = (xs.filterMap read).filter keeps' := by
  rw [List.filterMap_filter, List.filter_filterMap]
  apply List.filterMap_congr
  intro x _
  cases hread : read x with
  | none => simp
  | some b => simp [h x b hread, Option.filter]

section Fields
variable {ν β : Type u} {φ : Type v} [DecidableEq φ] (fieldOf : ν → Option φ)

def lastValue (entries : List (ν × β)) (field : φ) : Option β :=
  (lookupLast (fun entry => fieldOf entry.1) entries (some field)).map Prod.snd

theorem lastValue_append (entries new : List (ν × β)) (field : φ) :
    lastValue fieldOf (entries ++ new) field =
      (lastValue fieldOf new field).or (lastValue fieldOf entries field) := by
  simp only [lastValue, lookupLast_append]
  cases lookupLast (fun entry => fieldOf entry.1) new (some field) <;> rfl

theorem lastValue_singleton (entry : ν × β) (field : φ) : lastValue fieldOf [entry] field =
    if fieldOf entry.1 = some field then some entry.2 else none := by
  by_cases h : fieldOf entry.1 = some field <;> simp [lastValue, h]

theorem lastValue_filter {entries : List (ν × β)} {field : φ} {keeps : ν × β → Bool}
    (h : ∀ entry, fieldOf entry.1 = some field → keeps entry = true) :
    lastValue fieldOf (entries.filter keeps) field = lastValue fieldOf entries field := by
  exact congrArg (Option.map Prod.snd) (lookupLast_filter _ h entries)

theorem lastValue_filter_eq_none {entries : List (ν × β)} {field : φ} {keeps : ν × β → Bool}
    (h : ∀ entry, fieldOf entry.1 = some field → keeps entry = false) :
    lastValue fieldOf (entries.filter keeps) field = none := by
  exact congrArg (Option.map Prod.snd) (lookupLast_filter_eq_none _ h entries)

end Fields

section Pairs
variable {β : Type u} {pairs : List (κ × β)} {k : κ}

def withEntry (pairs : List (κ × β)) (k : κ) (replacement : Option β) : List (κ × β) :=
  (pairs.filter fun pair => pair.1 ≠ k) ++ (replacement.map fun entry => (k, entry)).toList

theorem lookupLast_withEntry_self (replacement : Option β) :
    (lookupLast Prod.fst (withEntry pairs k replacement) k).map Prod.snd = replacement := by
  have hdropped : lookupLast Prod.fst (pairs.filter fun pair => pair.1 ≠ k) k = none := by
    apply lookupLast_filter_eq_none
    rintro pair rfl
    simp
  rw [withEntry, lookupLast_append, hdropped]
  cases replacement <;> simp

theorem lookupLast_withEntry_of_ne {other : κ} (h : other ≠ k) (replacement : Option β) :
    lookupLast Prod.fst (withEntry pairs k replacement) other =
      lookupLast Prod.fst pairs other := by
  have hkept : lookupLast Prod.fst (pairs.filter fun pair => pair.1 ≠ k) other =
      lookupLast Prod.fst pairs other := by
    apply lookupLast_filter
    rintro pair rfl
    simpa using h
  rw [withEntry, lookupLast_append, hkept]
  cases replacement <;> simp [Ne.symm h]

end Pairs

end

/-!
## Maps written entry by entry

`entries` is the map that writing a list's entries in turn leaves, as the list of what it
holds: a later entry stands in the place of an earlier one of its key. Its values are what
`lookupLast` reads, one for each key, so a sum over them is a sum over the keys.
-/

variable {α κ : Type} [DecidableEq κ] (key : α → κ)

def setEntry (xs : List α) (x : α) : List α :=
  if key x ∈ xs.map key then xs.map fun y => if key y = key x then x else y else xs ++ [x]

def entries (xs : List α) : List α := xs.foldl (setEntry key) []

theorem entries_concat (xs : List α) (x : α) :
    entries key (xs ++ [x]) = setEntry key (entries key xs) x := by
  rw [entries, List.foldl_concat]
  rfl

theorem map_key_setEntry (xs : List α) (x : α) :
    (setEntry key xs x).map key =
      if key x ∈ xs.map key then xs.map key else xs.map key ++ [key x] := by
  unfold setEntry
  split
  · rw [List.map_map]
    refine List.map_congr_left fun y _ => ?_
    simp only [Function.comp_apply]
    split <;> simp_all
  · rw [List.map_append, List.map_singleton]

theorem length_setEntry_le (xs : List α) (x : α) : (setEntry key xs x).length ≤ xs.length + 1 := by
  unfold setEntry
  split <;> simp

theorem length_entries_le (xs : List α) : (entries key xs).length ≤ xs.length := by
  induction xs using List.reverseRecOn with
  | nil => exact Nat.le_refl _
  | append_singleton xs x ih =>
    rw [entries_concat, List.length_append, List.length_singleton]
    exact (length_setEntry_le key _ x).trans (Nat.succ_le_succ ih)

theorem nodup_entries (xs : List α) : ((entries key xs).map key).Nodup := by
  induction xs using List.reverseRecOn with
  | nil => exact List.nodup_nil
  | append_singleton xs x ih =>
    rw [entries_concat, map_key_setEntry]
    split
    · exact ih
    · rename_i hnew
      exact List.nodup_append.mpr ⟨ih, List.nodup_singleton _, fun k hk k' hk' heq =>
        hnew (List.mem_singleton.mp hk' ▸ heq ▸ hk)⟩

theorem mem_keys_entries (xs : List α) (k : κ) : k ∈ (entries key xs).map key ↔ k ∈ xs.map key := by
  induction xs using List.reverseRecOn with
  | nil => rfl
  | append_singleton xs x ih =>
    rw [entries_concat, map_key_setEntry, List.map_append, List.mem_append, ← ih]
    split
    · rename_i hold
      refine ⟨.inl, fun h => h.elim id fun hk => ?_⟩
      exact List.mem_singleton.mp hk ▸ hold
    · rw [List.mem_append]
      rfl

theorem lookupLast_of_mem_entries {xs : List α} {x : α} (h : x ∈ entries key xs) :
    lookupLast key xs (key x) = some x := by
  induction xs using List.reverseRecOn generalizing x with
  | nil => cases h
  | append_singleton xs y ih =>
    rw [lookupLast_append, lookupLast_singleton]
    rw [entries_concat, setEntry] at h
    split at h
    · obtain ⟨z, hz, hx⟩ := List.mem_map.mp h
      by_cases hzy : key z = key y
      · rw [if_pos hzy] at hx
        rw [← hx, if_pos rfl]
        rfl
      · rw [if_neg hzy] at hx
        subst hx
        rw [if_neg (Ne.symm hzy)]
        exact ih hz
    · rename_i hnew
      rcases List.mem_append.mp h with hx | hx
      · have hne : key y ≠ key x := fun heq => hnew (heq ▸ List.mem_map_of_mem hx)
        rw [if_neg hne]
        exact ih hx
      · rw [List.mem_singleton.mp hx, if_pos rfl]
        rfl

theorem mem_entries_iff {xs : List α} {x : α} :
    x ∈ entries key xs ↔ lookupLast key xs (key x) = some x := by
  refine ⟨lookupLast_of_mem_entries key, fun h => ?_⟩
  obtain ⟨y, hy, hkey⟩ := List.mem_map.mp
    ((mem_keys_entries key xs (key x)).mpr (List.mem_map_of_mem (lookupLast_some key h).1))
  have hsome := lookupLast_of_mem_entries key hy
  rw [hkey, h] at hsome
  exact Option.some.inj hsome ▸ hy

theorem sum_entries {M : Type} [AddCommMonoid M] {xs : List α} {f : α → M} {g : κ → M}
    (h : ∀ k x, lookupLast key xs k = some x → f x = g k) :
    ((entries key xs).map f).sum = ∑ k ∈ (xs.map key).toFinset, g k := by
  have hmap : (entries key xs).map f = ((entries key xs).map key).map g := by
    rw [List.map_map]
    exact List.map_congr_left fun x hx => h _ x (lookupLast_of_mem_entries key hx)
  have hkeys : (xs.map key).toFinset = ((entries key xs).map key).toFinset := by
    ext k
    rw [List.mem_toFinset, List.mem_toFinset, mem_keys_entries]
  rw [hmap, hkeys, List.sum_toFinset _ (nodup_entries key xs)]

end Indexterity.Library
