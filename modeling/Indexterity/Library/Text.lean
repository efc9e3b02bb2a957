import Mathlib.Algebra.GroupWithZero.Nat
import Mathlib.Data.List.DropRight
import Mathlib.Data.List.Basic

/-!
# Texts as lists of characters

Cutting a list at the first or at the last occurrence of an element, cutting it at every
occurrence, and trimming it. A text of a script is a list of Unicode characters; its
length counts the two halves of a surrogate pair apart, and the mapping of its letters to
lower case is known on ASCII only.
-/

namespace Indexterity.Library

section
universe u

/-- The characters of a text are tested one by one. Without the priority, a test of every
character there is may be taken for this one. -/
instance (priority := 2000) decidableForallChar (p : Char → Prop) [DecidablePred p]
    (t : List Char) : Decidable (∀ c ∈ t, p c) :=
  List.decidableBAll p t

theorem append_cons_prefix_iff {α : Type u} {c : α} {a a' : List α} (h : c ∉ a) (h' : c ∉ a')
    {b b' : List α} : a ++ c :: b <+: a' ++ c :: b' ↔ a = a' ∧ b <+: b' := by
  induction a generalizing a' with
  | nil =>
    cases a' with
    | nil => simp
    | cons x a' =>
      rw [List.mem_cons, not_or] at h'
      simp [h'.1]
  | cons x a ih =>
    rw [List.mem_cons, not_or] at h
    cases a' with
    | nil => simp [Ne.symm h.1]
    | cons y a' =>
      rw [List.mem_cons, not_or] at h'
      simp [ih h.2 h'.2, and_assoc]

section Splitting
variable {α : Type u} [DecidableEq α]

def splitFirst (c : α) : List α → Option (List α × List α)
  | [] => none
  | x :: t => if x = c then some ([], t) else (splitFirst c t).map fun p => (x :: p.1, p.2)

def splitLast (c : α) : List α → Option (List α × List α)
  | [] => none
  | x :: t =>
    match splitLast c t with
    | some p => some (x :: p.1, p.2)
    | none => if x = c then some ([], t) else none

def splitDouble (c : α) : List α → Option (List α × List α)
  | x :: y :: t =>
    if x = c ∧ y = c then some ([], t)
    else (splitDouble c (y :: t)).map fun p => (x :: p.1, p.2)
  | _ => none

variable {a b : List α}

theorem splitFirst_append_cons {c : α} (h : c ∉ a) (b : List α) :
    splitFirst c (a ++ c :: b) = some (a, b) := by
  induction a with
  | nil => simp [splitFirst]
  | cons x a ih =>
    rw [List.mem_cons, not_or] at h
    simp [splitFirst, ih h.2, Ne.symm h.1]

theorem splitFirst_eq_none_iff {c : α} {t : List α} : splitFirst c t = none ↔ c ∉ t := by
  induction t with
  | nil => simp [splitFirst]
  | cons x t ih =>
    by_cases hx : x = c
    · simp [splitFirst, hx]
    · simp [splitFirst, hx, ih, Ne.symm hx]

theorem splitFirst_eq_some_iff {c : α} {t : List α} :
    splitFirst c t = some (a, b) ↔ c ∉ a ∧ t = a ++ c :: b := by
  constructor
  · intro h
    induction t generalizing a with
    | nil => simp [splitFirst] at h
    | cons x t ih =>
      by_cases hx : x = c
      · simp only [splitFirst, hx, if_true, Option.some.injEq, Prod.mk.injEq] at h
        obtain ⟨rfl, rfl⟩ := h
        simp [hx]
      · simp only [splitFirst, hx, if_false, Option.map_eq_some_iff, Prod.mk.injEq] at h
        obtain ⟨⟨a', b'⟩, hp, rfl, rfl⟩ := h
        obtain ⟨hc, rfl⟩ := ih hp
        simp [hc, Ne.symm hx]
  · rintro ⟨hc, rfl⟩
    exact splitFirst_append_cons hc b

theorem eq_append_of_splitDouble {c : α} {t : List α} (h : splitDouble c t = some (a, b)) :
    t = a ++ c :: c :: b := by
  induction t generalizing a with
  | nil => simp [splitDouble] at h
  | cons x t ih =>
    cases t with
    | nil => simp [splitDouble] at h
    | cons y t =>
      rw [splitDouble] at h
      split_ifs at h with hxy
      · obtain ⟨rfl, rfl⟩ := hxy
        cases h
        rfl
      · obtain ⟨⟨a', b'⟩, hp, heq⟩ := Option.map_eq_some_iff.mp h
        cases heq
        rw [ih hp]
        rfl

theorem splitDouble_eq_none_of_not_mem {c : α} {t : List α} (h : c ∉ t) :
    splitDouble c t = none := by
  cases hp : splitDouble c t with
  | none => rfl
  | some p =>
    rw [eq_append_of_splitDouble hp] at h
    exact absurd (by simp) h

theorem splitDouble_append_of_not_mem {c : α} (t : List α) {z : List α} (hz : c ∉ z) :
    splitDouble c (t ++ z) = (splitDouble c t).map fun p => (p.1, p.2 ++ z) := by
  induction t with
  | nil => rw [List.nil_append, splitDouble_eq_none_of_not_mem hz]; rfl
  | cons x t ih =>
    cases t with
    | nil =>
      cases z with
      | nil => rfl
      | cons y z =>
        have hy : y ≠ c := fun h => hz (by simp [h])
        rw [List.cons_append, List.nil_append, splitDouble, if_neg fun h => hy h.2,
          splitDouble_eq_none_of_not_mem hz]
        rfl
    | cons y t =>
      rw [List.cons_append] at ih
      rw [List.cons_append, List.cons_append, splitDouble, splitDouble]
      split_ifs with hxy
      · rfl
      · rw [ih, Option.map_map, Option.map_map]
        rfl

theorem splitOn_eq_of_splitFirst (c : α) (t : List α) :
    t.splitOn c = match splitFirst c t with
      | none => [t]
      | some (a, b) => a :: b.splitOn c := by
  cases h : splitFirst c t with
  | none => exact List.splitOn_eq_singleton (splitFirst_eq_none_iff.mp h)
  | some p =>
    obtain ⟨hc, rfl⟩ := splitFirst_eq_some_iff.mp h
    exact List.splitOn_append_cons_self_of_not_mem hc p.2

/-- A text is one part, or a part with the mark and a shorter text behind it. -/
theorem splitOn_induction {c : α} {P : List α → Prop} (whole : ∀ t, c ∉ t → P t)
    (cut : ∀ a t, c ∉ a → P t → P (a ++ c :: t)) (t : List α) : P t := by
  by_cases h : c ∈ t
  · obtain ⟨a, rest, rfl, ha⟩ := List.eq_append_cons_of_mem h
    exact cut a rest ha (splitOn_induction whole cut rest)
  · exact whole t h
termination_by t.length

theorem not_mem_of_mem_splitOn {c : α} {t part : List α} (h : part ∈ t.splitOn c) : c ∉ part := by
  induction t using splitOn_induction (c := c) with
  | whole t hc =>
    rw [List.splitOn_eq_singleton hc, List.mem_singleton] at h
    rwa [h]
  | cut a t ha ih =>
    rw [List.splitOn_append_cons_self_of_not_mem ha, List.mem_cons] at h
    rcases h with rfl | h
    · exact ha
    · exact ih h

theorem mem_part_iff {c x : α} {t : List α} (hne : x ≠ c) :
    (∃ part ∈ t.splitOn c, x ∈ part) ↔ x ∈ t := by
  induction t using splitOn_induction (c := c) with
  | whole t hc => simp [List.splitOn_eq_singleton hc]
  | cut a t ha ih => simp [List.splitOn_append_cons_self_of_not_mem ha, ih, hne]

theorem eq_append_of_splitOn {c : α} {t first second : List α} {parts : List (List α)}
    (h : t.splitOn c = first :: second :: parts) :
    c ∉ first ∧ ∃ rest, t = first ++ c :: rest ∧ rest.splitOn c = second :: parts := by
  rw [splitOn_eq_of_splitFirst] at h
  cases hcut : splitFirst c t with
  | none => simp [hcut] at h
  | some p =>
    obtain ⟨hc, rfl⟩ := splitFirst_eq_some_iff.mp hcut
    simp only [hcut, List.cons.injEq] at h
    obtain ⟨rfl, hrest⟩ := h
    exact ⟨hc, p.2, rfl, hrest⟩

theorem mem_of_mem_part {c x : α} {t part : List α} (hpart : part ∈ t.splitOn c) (hx : x ∈ part) :
    x ∈ t := by
  have hne : x ≠ c := fun heq => not_mem_of_mem_splitOn hpart (heq ▸ hx)
  exact (mem_part_iff hne).mp ⟨part, hpart, hx⟩

theorem eq_of_splitOn_singleton {c : α} {t first : List α} (h : t.splitOn c = [first]) :
    t = first := by
  have hjoin : [c].intercalate (t.splitOn c) = t := List.intercalate_splitOn c
  rw [h] at hjoin
  simpa using hjoin.symm

theorem splitOn_append_of_not_mem {c : α} {t last z : List α} {init : List (List α)}
    (h : t.splitOn c = init ++ [last]) (hz : c ∉ z) : (t ++ z).splitOn c = init ++ [last ++ z] := by
  have hlast : c ∉ last := not_mem_of_mem_splitOn (by rw [h]; simp)
  induction init generalizing t with
  | nil =>
    rw [eq_of_splitOn_singleton h]
    exact List.splitOn_eq_singleton (by simp [hlast, hz])
  | cons part init ih =>
    obtain ⟨next, more, hmore⟩ := List.exists_cons_of_ne_nil
      (List.append_ne_nil_of_right_ne_nil init (List.cons_ne_nil last []))
    rw [List.cons_append, hmore] at h
    obtain ⟨hc, rest, rfl, hrest⟩ := eq_append_of_splitOn h
    rw [← hmore] at hrest
    rw [List.append_assoc, List.cons_append, List.splitOn_append_cons_self_of_not_mem hc, ih hrest]
    rfl

theorem splitDouble_eq_none_of_parts {c : α} {t : List α} (h : ∀ part ∈ t.splitOn c, part ≠ []) :
    splitDouble c t = none := by
  cases hp : splitDouble c t with
  | none => rfl
  | some p =>
    rw [eq_append_of_splitDouble hp, List.splitOn_append_cons_self] at h
    have hnil : [] ∈ (c :: p.2).splitOn c := by
      rw [List.splitOn_cons_eq_if_modifyHead, if_pos (by simp)]
      simp
    exact absurd rfl (h [] (List.mem_append_right _ hnil))

end Splitting

/-- White space and line ends, as `trim` and `\s` know them. -/
def isSpace (c : Char) : Bool :=
  let n := c.toNat
  (9 ≤ n && n ≤ 13) || n == 32 || n == 160 || n == 5760 || (8192 ≤ n && n ≤ 8202) || n == 8232 ||
    n == 8233 || n == 8239 || n == 8287 || n == 12288 || n == 65279

def trim (t : List Char) : List Char :=
  (t.dropWhile isSpace).rdropWhile isSpace

theorem trim_append {a t b : List Char} (ha : ∀ c ∈ a, isSpace c = true)
    (hb : ∀ c ∈ b, isSpace c = true) (hhead : ∀ c ∈ t.head?, isSpace c = false)
    (hlast : ∀ c ∈ t.getLast?, isSpace c = false) : trim (a ++ (t ++ b)) = t := by
  rw [trim, List.dropWhile_append_of_pos ha, List.rdropWhile]
  cases t with
  | nil =>
    rw [List.nil_append, List.dropWhile_eq_nil_iff.mpr hb]
    rfl
  | cons c t =>
    have hc := hhead c rfl
    have hreverse : ∀ d ∈ (c :: t).reverse.head?, isSpace d = false := by
      rwa [List.head?_reverse]
    have hback : ∀ d ∈ b.reverse, isSpace d = true := fun d hd => hb d (List.mem_reverse.mp hd)
    rw [List.cons_append, List.dropWhile_cons_of_neg (by simp [hc]), ← List.cons_append,
      List.reverse_append, List.dropWhile_append_of_pos hback]
    obtain ⟨d, u, hd⟩ := List.exists_cons_of_ne_nil
      (List.reverse_ne_nil_iff.mpr (List.cons_ne_nil c t))
    rw [hd] at hreverse ⊢
    rw [List.dropWhile_cons_of_neg (by simp [hreverse d rfl]), ← hd, List.reverse_reverse]

variable {t : List Char} {c : Char}

theorem trim_eq_self (hhead : ∀ c ∈ t.head?, isSpace c = false)
    (hlast : ∀ c ∈ t.getLast?, isSpace c = false) : trim t = t := by
  simpa using @trim_append [] t [] (by simp) (by simp) hhead hlast

theorem trim_eq_self_of_forall (h : ∀ c ∈ t, isSpace c = false) : trim t = t :=
  trim_eq_self (fun c hc => h c (List.mem_of_mem_head? hc))
    (fun c hc => h c (List.mem_of_mem_getLast? hc))

theorem head_of_trim_eq_self (h : trim t = t) : ∀ c ∈ t.head?, isSpace c = false := by
  cases t with
  | nil => simp
  | cons c t =>
    intro x hx
    cases hx
    by_contra hspace
    have hle := (List.rdropWhile_prefix isSpace (l := (c :: t).dropWhile isSpace)).length_le
    have hdrop := (List.dropWhile_suffix isSpace (l := t)).length_le
    rw [trim] at h
    rw [h, List.dropWhile_cons_of_pos (by simpa using hspace), List.length_cons] at hle
    omega

theorem trim_ne_nil (hc : c ∈ t) (h : isSpace c = false) : trim t ≠ [] := by
  have hdrop : c ∈ t.dropWhile isSpace := by
    rw [← List.takeWhile_append_dropWhile (p := isSpace) (l := t), List.mem_append] at hc
    rcases hc with hc | hc
    · exact absurd (List.mem_takeWhile_imp hc) (by simp [h])
    · exact hc
  intro hnil
  rw [trim, List.rdropWhile_eq_nil_iff] at hnil
  exact Bool.false_ne_true (h.symm.trans (hnil c hdrop))

theorem lowered_take_append {word : List Char} (h : c.toLower ∉ word) (a t : List Char) :
    ((a ++ c :: t).take word.length).map Char.toLower = word ↔
      (a.take word.length).map Char.toLower = word := by
  by_cases hlen : word.length ≤ a.length
  · rw [List.take_append_of_le_length hlen]
  · constructor
    · intro heq
      refine absurd ?_ h
      rw [← heq]
      apply List.mem_map_of_mem
      obtain ⟨n, hn⟩ : ∃ n, word.length - a.length = n + 1 := ⟨word.length - a.length - 1, by omega⟩
      rw [List.take_append, hn, List.take_succ_cons]
      simp
    · intro heq
      have hle := congrArg List.length heq
      rw [List.length_map, List.length_take] at hle
      omega

def isLineEnd (c : Char) : Bool :=
  c.toNat == 10 || c.toNat == 13 || c.toNat == 8232 || c.toNat == 8233

def unwrap (first last : Char) : List Char → Option (List Char)
  | c :: t =>
    if c = first ∧ t.getLast? = some last ∧ t.dropLast.all (fun c => !isLineEnd c) = true then
      some t.dropLast
    else none
  | [] => none

def utf16Length (t : List Char) : Nat :=
  (t.map fun c => if c.toNat < 65536 then 1 else 2).sum

theorem utf16Length_append (s t : List Char) :
    utf16Length (s ++ t) = utf16Length s + utf16Length t := by
  simp [utf16Length]

theorem utf16Length_ne_zero (h : t ≠ []) : utf16Length t ≠ 0 := by
  cases t with
  | nil => exact absurd rfl h
  | cons c t =>
    rw [utf16Length, List.map_cons, List.sum_cons]
    split_ifs <;> omega

theorem utf16Length_eq_length (h : ∀ c ∈ t, c.toNat < 65536) : utf16Length t = t.length := by
  induction t with
  | nil => rfl
  | cons c t ih =>
    have hrest := ih fun c hc => h c (List.mem_cons_of_mem _ hc)
    rw [utf16Length] at hrest ⊢
    rw [List.map_cons, List.sum_cons, hrest, if_pos (h c List.mem_cons_self), List.length_cons]
    omega

theorem utf16Length_cons (c : Char) (t : List Char) :
    utf16Length (c :: t) = utf16Length [c] + utf16Length t := by
  rw [← List.singleton_append, utf16Length_append]

/-- A mapping to lower case: on ASCII the usual one. Elsewhere only this is known of it: no
other letter than the Kelvin sign is mapped into ASCII, and that one to a `k`. -/
structure LowerCase where
  lower : List Char → List Char
  ascii : ∀ t : List Char, (∀ c ∈ t, c.toNat < 128) → lower t = t.map Char.toLower
  back : ∀ t : List Char, (∀ c ∈ lower t, c.toNat < 128) →
    ∀ c ∈ t, c.toNat < 128 ∨ c.toNat = 0x212a
  kelvin : ∀ (t : List Char), ∀ c ∈ t, c.toNat = 0x212a → 'k' ∈ lower t

def lowerKelvin (c : Char) : Char :=
  if c.toNat = 0x212a then 'k' else c.toLower

theorem toLower_of_le (h : 128 ≤ c.toNat) : c.toLower = c := by
  refine dif_neg fun hup => ?_
  have hle : c.toNat ≤ 90 := hup.2
  omega

def asciiLower : LowerCase where
  lower := fun t => t.map lowerKelvin
  ascii := by
    intro t ht
    apply List.map_congr_left
    intro c hc
    have hlt := ht c hc
    rw [lowerKelvin, if_neg (by omega)]
  back := by
    intro t ht c hc
    by_cases hkelvin : c.toNat = 0x212a
    · exact Or.inr hkelvin
    · have hlt := ht _ (List.mem_map_of_mem hc)
      rw [lowerKelvin, if_neg hkelvin] at hlt
      by_contra hle
      rw [not_or] at hle
      rw [toLower_of_le (by omega)] at hlt
      omega
  kelvin := by
    intro t c hc hkelvin
    have hmem := List.mem_map_of_mem (f := lowerKelvin) hc
    rwa [lowerKelvin, if_pos hkelvin] at hmem

def joined (separator : Char) (parts : List String) : String :=
  String.ofList ([separator].intercalate (parts.map String.toList))

end

end Indexterity.Library
