import Indexterity.Library.Numeric

/-!
# Literals of network addresses

A dotted literal is four octets without leading zeros. A literal of the wide family is
eight groups of up to four hexadecimal digits; the last two may be a dotted literal, one
run of zero groups may be left out between two colons, and a zone may follow behind a
percent sign. A literal denotes the number its octets or groups are the digits of.
-/

namespace Indexterity.Library

section
def isOctet (t : List Char) : Bool :=
  isNumeral 10 t && t.length ≤ 3 && (t.head? != some '0' || t.length == 1) && numeral 10 t ≤ 255

def v4Octets (t : List Char) : Option (List Nat) :=
  let parts := t.splitOn '.'
  if parts.length = 4 ∧ parts.all isOctet then some (parts.map (numeral 10)) else none

def v4Value (t : List Char) : Option Nat :=
  (v4Octets t).map (digitsValue 256)

def isGroup (t : List Char) : Bool :=
  isNumeral 16 t && t.length ≤ 4

/-- The groups of the parts between colons; the last part may be a dotted literal. -/
def partGroups : List (List Char) → Option (List Nat)
  | [] => some []
  | [part] =>
    if isGroup part then some [numeral 16 part]
    else (v4Value part).map fun n => [n / 65536, n % 65536]
  | part :: parts =>
    if isGroup part then (partGroups parts).map fun groups => numeral 16 part :: groups else none

def sideParts (t : List Char) : List (List Char) :=
  if t = [] then [] else t.splitOn ':'

def v6Groups (t : List Char) : Option (List Nat) :=
  match splitDouble ':' t with
  | none => (partGroups (t.splitOn ':')).filter fun groups => groups.length == 8
  | some (head, tail) =>
    if (sideParts head).all isGroup then
      let left := (sideParts head).map (numeral 16)
      ((partGroups (sideParts tail)).filter fun right => left.length + right.length ≤ 7).map
        fun right => left ++ List.replicate (8 - left.length - right.length) 0 ++ right
    else none

def isZoneChar (c : Char) : Bool :=
  isDigitIn 36 c || c == '-' || c == '.' || c == ':'

def splitZone (t : List Char) : List Char × List Char :=
  (t.takeWhile (· != '%'), t.dropWhile (· != '%'))

def isZone (t : List Char) : Bool :=
  match t with
  | [] => true
  | _ :: zone => !zone.isEmpty && zone.all isZoneChar

def v6Literal (t : List Char) : Option (List Nat) :=
  if isZone (splitZone t).2 then v6Groups (splitZone t).1 else none

def v6Value (t : List Char) : Option Nat :=
  (v6Literal t).map (digitsValue 65536)

variable {t : List Char}

theorem isGroup_iff :
    isGroup t = true ↔ (t ≠ [] ∧ ∀ c ∈ t, isHexDigit c = true) ∧ t.length ≤ 4 := by
  rw [isGroup, Bool.and_eq_true, isNumeral_iff, decide_eq_true_eq]
  rfl

theorem numeral_group_lt (h : isGroup t = true) : numeral 16 t < 65536 := by
  obtain ⟨⟨-, hall⟩, hlen⟩ := isGroup_iff.mp h
  calc numeral 16 t < 16 ^ t.length := numeral_lt (by decide) hall
    _ ≤ 16 ^ 4 := Nat.pow_le_pow_right (by decide) hlen
    _ = 65536 := by decide

theorem v4Octets_spec {octets : List Nat} (h : v4Octets t = some octets) :
    octets.length = 4 ∧ ∀ o ∈ octets, o < 256 := by
  simp only [v4Octets, Option.ite_none_right_eq_some, Option.some.injEq] at h
  obtain ⟨⟨hlen, hall⟩, rfl⟩ := h
  refine ⟨by simpa using hlen, ?_⟩
  intro o ho
  obtain ⟨part, hpart, rfl⟩ := List.mem_map.mp ho
  have hoctet := List.all_eq_true.mp hall part hpart
  simp only [isOctet, Bool.and_eq_true, decide_eq_true_eq] at hoctet
  omega

theorem isNumeral_of_isOctet (h : isOctet t = true) : isNumeral 10 t = true := by
  simp only [isOctet, Bool.and_eq_true] at h
  exact h.1.1.1

variable {c : Char}

theorem mem_v4_literal (h : (v4Value t).isSome) (hc : c ∈ t) : isDigit c = true ∨ c = '.' := by
  by_cases hdot : c = '.'
  · exact Or.inr hdot
  · obtain ⟨n, hn⟩ := Option.isSome_iff_exists.mp h
    obtain ⟨octets, hoctets, -⟩ := Option.map_eq_some_iff.mp hn
    simp only [v4Octets, Option.ite_none_right_eq_some] at hoctets
    obtain ⟨part, hpart, hmem⟩ := (mem_part_iff hdot).mpr hc
    have hoctet := List.all_eq_true.mp hoctets.1.2 part hpart
    exact Or.inl ((isNumeral_iff.mp (isNumeral_of_isOctet hoctet)).2 c hmem)

theorem isOctet_toDigits : ∀ a < 256, isOctet (Nat.toDigits 10 a) = true ∧
    numeral 10 (Nat.toDigits 10 a) = a := by
  decide +kernel

theorem not_mem_of_isNumeral (h : isNumeral 10 t = true) (hc : isDigit c = false) : c ∉ t := by
  intro hmem
  have hdigit : isDigit c = true := (isNumeral_iff.mp h).2 c hmem
  exact Bool.false_ne_true (hc.symm.trans hdigit)

theorem v4Value_toDigits {a b c d : Nat} (ha : a < 256) (hb : b < 256) (hc : c < 256)
    (hd : d < 256) : v4Value (Nat.toDigits 10 a ++ '.' :: Nat.toDigits 10 b ++
      '.' :: Nat.toDigits 10 c ++ '.' :: Nat.toDigits 10 d) = some (digitsValue 256 [a, b, c, d]) := by
  have hdot : ∀ a < 256, '.' ∉ Nat.toDigits 10 a := fun a ha =>
    not_mem_of_isNumeral (isNumeral_of_isOctet (isOctet_toDigits a ha).1) (by decide)
  simp [v4Value, v4Octets, List.splitOn_append_cons_self_of_not_mem (hdot _ ha),
    List.splitOn_append_cons_self_of_not_mem (hdot _ hb),
    List.splitOn_append_cons_self_of_not_mem (hdot _ hc), List.splitOn_eq_singleton (hdot _ hd),
    isOctet_toDigits, ha, hb, hc, hd]

theorem v4Value_lt {n : Nat} (h : v4Value t = some n) : n < 2 ^ 32 := by
  obtain ⟨octets, hoctets, rfl⟩ := Option.map_eq_some_iff.mp h
  obtain ⟨hlen, hall⟩ := v4Octets_spec hoctets
  have hlt := digitsValue_lt (by decide) hall
  rw [hlen] at hlt
  simpa using hlt

theorem partGroups_cons_cons (part next : List Char) (parts : List (List Char)) :
    partGroups (part :: next :: parts) =
      if isGroup part then (partGroups (next :: parts)).map fun groups => numeral 16 part :: groups
      else none := rfl

variable {parts : List (List Char)} {groups : List Nat}

theorem partGroups_cons_cons_eq_some {part next : List Char} : partGroups (part :: next :: parts) = some groups ↔
      isGroup part = true ∧ ∃ rest, partGroups (next :: parts) = some rest ∧
        groups = numeral 16 part :: rest := by
  rw [partGroups_cons_cons]
  constructor
  · intro h
    split_ifs at h with hpart
    obtain ⟨rest, hrest, rfl⟩ := Option.map_eq_some_iff.mp h
    exact ⟨hpart, rest, hrest, rfl⟩
  · rintro ⟨hpart, rest, hrest, rfl⟩
    simp [hpart, hrest]

theorem partGroups_single_length {part : List Char}
    (h : partGroups [part] = some groups) : groups.length ≤ 2 := by
  simp only [partGroups] at h
  split_ifs at h
  · cases h
    simp
  · obtain ⟨n, -, rfl⟩ := Option.map_eq_some_iff.mp h
    simp

theorem partGroups_lt (h : partGroups parts = some groups) : ∀ g ∈ groups, g < 65536 := by
  induction parts generalizing groups with
  | nil =>
    cases h
    simp
  | cons part parts ih =>
    cases parts with
    | nil =>
      simp only [partGroups] at h
      split_ifs at h with hpart
      · cases h
        simpa using numeral_group_lt hpart
      · obtain ⟨n, hn, rfl⟩ := Option.map_eq_some_iff.mp h
        have hlt := v4Value_lt hn
        intro g hg
        simp only [List.mem_cons, List.not_mem_nil, or_false] at hg
        rcases hg with rfl | rfl <;> omega
    | cons next parts =>
      obtain ⟨hpart, rest, hrest, rfl⟩ := partGroups_cons_cons_eq_some.mp h
      intro g hg
      rcases List.mem_cons.mp hg with rfl | hg
      · exact numeral_group_lt hpart
      · exact ih hrest g hg

theorem v4Value_of_not_mem (h : '.' ∉ t) : v4Value t = none := by
  simp [v4Value, v4Octets, List.splitOn_eq_singleton h]

theorem partGroups_of_not_mem
    (hdot : ∀ part ∈ parts, '.' ∉ part) (h : partGroups parts = some groups) :
    (∀ part ∈ parts, isGroup part = true) ∧ groups = parts.map (numeral 16) := by
  induction parts generalizing groups with
  | nil =>
    cases h
    simp
  | cons part parts ih =>
    cases parts with
    | nil =>
      simp only [partGroups, v4Value_of_not_mem (hdot part (by simp)), Option.map_none] at h
      split_ifs at h with hpart
      cases h
      simp [hpart]
    | cons next parts =>
      obtain ⟨hpart, rest, hrest, rfl⟩ := partGroups_cons_cons_eq_some.mp h
      obtain ⟨hall, rfl⟩ := ih (fun part hmem => hdot part (by simp [hmem])) hrest
      exact ⟨List.forall_mem_cons.mpr ⟨hpart, hall⟩, rfl⟩

theorem partGroups_of_isGroup (h : ∀ part ∈ parts, isGroup part = true) :
    partGroups parts = some (parts.map (numeral 16)) := by
  induction parts with
  | nil => rfl
  | cons part parts ih =>
    have hpart := h part (by simp)
    cases parts with
    | nil => simp [partGroups, hpart]
    | cons next parts =>
      exact partGroups_cons_cons_eq_some.mpr
        ⟨hpart, _, ih fun part hmem => h part (by simp [hmem]), rfl⟩

theorem isGroup_toDigits {g : Nat} (h : g < 65536) : isGroup (Nat.toDigits 16 g) = true := by
  rw [isGroup, Bool.and_eq_true, decide_eq_true_eq]
  refine ⟨isNumeral_toDigits (by decide) (by decide) g, ?_⟩
  exact (Nat.length_toDigits_le_iff (by decide) (by decide)).mpr h

theorem isZoneChar_of_isHexDigit (h : isHexDigit c = true) : isZoneChar c = true := by
  have hlt : digitValue c < 16 := isDigitIn_iff.mp h
  have hdigit : isDigitIn 36 c = true := isDigitIn_iff.mpr (by omega)
  simp [isZoneChar, hdigit]

theorem isZoneChar_of_partGroups (h : partGroups parts = some groups) :
    ∀ part ∈ parts, ∀ c ∈ part, isZoneChar c = true := by
  have hgroup : ∀ part, isGroup part = true → ∀ c ∈ part, isZoneChar c = true :=
    fun part hpart c hc => isZoneChar_of_isHexDigit ((isGroup_iff.mp hpart).1.2 c hc)
  induction parts generalizing groups with
  | nil => simp
  | cons first parts ih =>
    cases parts with
    | nil =>
      intro part hmem c hc
      rw [List.mem_singleton] at hmem
      subst hmem
      simp only [partGroups] at h
      split_ifs at h with hpart
      · exact hgroup part hpart c hc
      · obtain ⟨n, hn, -⟩ := Option.map_eq_some_iff.mp h
        rcases mem_v4_literal (by simp [hn]) hc with hdigit | rfl
        · exact isZoneChar_of_isHexDigit (isHexDigit_of_isDigit hdigit)
        · decide
    | cons next parts =>
      obtain ⟨hfirst, rest, hrest, -⟩ := partGroups_cons_cons_eq_some.mp h
      exact List.forall_mem_cons.mpr ⟨hgroup first hfirst, ih hrest⟩

theorem v6Groups_eq_of_none (hcut : splitDouble ':' t = none) :
    v6Groups t = some groups ↔ partGroups (t.splitOn ':') = some groups ∧ groups.length = 8 := by
  simp [v6Groups, hcut, Option.filter_eq_some_iff]

theorem v6Groups_eq_of_some {head tail : List Char} (hcut : splitDouble ':' t = some (head, tail)) :
    v6Groups t = some groups ↔ (∀ part ∈ sideParts head, isGroup part = true) ∧
      ∃ right, partGroups (sideParts tail) = some right ∧
        (sideParts head).length + right.length ≤ 7 ∧
        groups = (sideParts head).map (numeral 16) ++
          List.replicate (8 - (sideParts head).length - right.length) 0 ++ right := by
  simp only [v6Groups, hcut, List.length_map]
  constructor
  · intro h
    split_ifs at h with hall
    obtain ⟨right, hright, rfl⟩ := Option.map_eq_some_iff.mp h
    obtain ⟨hright, hlen⟩ := Option.filter_eq_some_iff.mp hright
    exact ⟨List.all_eq_true.mp hall, right, hright, by simpa using hlen, rfl⟩
  · rintro ⟨hall, right, hright, hlen, rfl⟩
    rw [if_pos (List.all_eq_true.mpr hall), hright, Option.filter_some, if_pos (by simpa using hlen)]
    rfl

theorem v6Groups_spec (h : v6Groups t = some groups) :
    groups.length = 8 ∧ ∀ g ∈ groups, g < 65536 := by
  cases hcut : splitDouble ':' t with
  | none =>
    obtain ⟨hparts, hlen⟩ := (v6Groups_eq_of_none hcut).mp h
    exact ⟨hlen, partGroups_lt hparts⟩
  | some p =>
    obtain ⟨hall, right, hright, hlen, rfl⟩ := (v6Groups_eq_of_some hcut).mp h
    refine ⟨by simp; omega, ?_⟩
    intro g hg
    rcases List.mem_append.mp hg with hg | hg
    · rcases List.mem_append.mp hg with hg | hg
      · obtain ⟨part, hpart, rfl⟩ := List.mem_map.mp hg
        exact numeral_group_lt (hall part hpart)
      · rw [List.eq_of_mem_replicate hg]
        decide
    · exact partGroups_lt hright g hg

theorem v6Groups_double {rest : List Char} (hne : rest ≠ []) :
    v6Groups (':' :: ':' :: rest) = some groups ↔
      ∃ right, partGroups (rest.splitOn ':') = some right ∧ right.length ≤ 7 ∧
        groups = List.replicate (8 - right.length) 0 ++ right := by
  have hcut : splitDouble ':' (':' :: ':' :: rest) = some ([], rest) := by simp [splitDouble]
  simp [v6Groups_eq_of_some hcut, sideParts, hne]

theorem v6Groups_leading (h : v6Groups t = some groups) :
    (∃ rest tl, t = ':' :: ':' :: rest ∧ groups = 0 :: tl) ∨
    (∃ p rest tl, isGroup p = true ∧ t = p ++ ':' :: ':' :: rest ∧
      groups = numeral 16 p :: 0 :: tl) ∨
    (∃ p q rest tl, isGroup p = true ∧ isGroup q = true ∧ t = p ++ ':' :: (q ++ ':' :: rest) ∧
      groups = numeral 16 p :: numeral 16 q :: tl) := by
  cases hcut : splitDouble ':' t with
  | none =>
    obtain ⟨hparts, hlen⟩ := (v6Groups_eq_of_none hcut).mp h
    -- eight groups take at least seven parts
    rcases hsplit : t.splitOn ':' with _ | ⟨p, _ | ⟨q, _ | ⟨r, parts⟩⟩⟩
    · exact absurd hsplit (List.splitOn_ne_nil _ _)
    · rw [hsplit] at hparts
      have := partGroups_single_length hparts
      omega
    · rw [hsplit] at hparts
      obtain ⟨-, rest, hrest, rfl⟩ := partGroups_cons_cons_eq_some.mp hparts
      have := partGroups_single_length hrest
      simp at hlen
      omega
    · rw [hsplit] at hparts
      obtain ⟨hp, tl, htl, rfl⟩ := partGroups_cons_cons_eq_some.mp hparts
      obtain ⟨hq, tl, -, rfl⟩ := partGroups_cons_cons_eq_some.mp htl
      obtain ⟨-, rest, rfl, hrest⟩ := eq_append_of_splitOn hsplit
      obtain ⟨-, rest, rfl, -⟩ := eq_append_of_splitOn hrest
      exact Or.inr (Or.inr ⟨p, q, rest, tl, hp, hq, rfl, rfl⟩)
  | some cut =>
    obtain ⟨head, tail⟩ := cut
    obtain ⟨hall, right, -, hlen, rfl⟩ := (v6Groups_eq_of_some hcut).mp h
    rw [eq_append_of_splitDouble hcut]
    by_cases hhead : head = []
    · subst hhead
      simp only [sideParts, if_true, List.length_nil, Nat.zero_add] at hlen ⊢
      obtain ⟨k, hk⟩ : ∃ k, 8 - 0 - right.length = k + 1 := ⟨7 - right.length, by omega⟩
      exact Or.inl ⟨tail, List.replicate k 0 ++ right, rfl, by simp [hk, List.replicate_succ]⟩
    · simp only [sideParts, hhead, if_false] at hall hlen ⊢
      rcases hsplit : head.splitOn ':' with _ | ⟨p, _ | ⟨q, parts⟩⟩
      · exact absurd hsplit (List.splitOn_ne_nil _ _)
      · rw [hsplit] at hall hlen
        rw [eq_of_splitOn_singleton hsplit]
        simp only [List.length_singleton] at hlen ⊢
        obtain ⟨k, hk⟩ : ∃ k, 8 - 1 - right.length = k + 1 := ⟨6 - right.length, by omega⟩
        exact Or.inr (Or.inl ⟨p, tail, List.replicate k 0 ++ right, hall p (by simp), rfl,
          by simp [hk, List.replicate_succ]⟩)
      · rw [hsplit] at hall
        obtain ⟨-, rest, rfl, hrest⟩ := eq_append_of_splitOn hsplit
        obtain ⟨more, hmore⟩ : ∃ more, rest ++ ':' :: ':' :: tail = q ++ ':' :: more := by
          cases parts with
          | nil => exact ⟨':' :: tail, by rw [eq_of_splitOn_singleton hrest]⟩
          | cons r parts =>
            obtain ⟨-, rest, rfl, -⟩ := eq_append_of_splitOn hrest
            exact ⟨rest ++ ':' :: ':' :: tail, by simp⟩
        refine Or.inr (Or.inr ⟨p, q, more, parts.map (numeral 16) ++
          List.replicate (8 - (parts.length + 2) - right.length) 0 ++ right,
          hall p (by simp), hall q (by simp), ?_, rfl⟩)
        rw [← hmore]
        simp

theorem colon_mem_of_v6Groups (h : v6Groups t = some groups) : ':' ∈ t := by
  rcases v6Groups_leading h with ⟨rest, tl, rfl, -⟩ | ⟨p, rest, tl, -, rfl, -⟩ |
    ⟨p, q, rest, tl, -, -, rfl, -⟩ <;> simp

theorem isZoneChar_of_sideParts (h : ∀ part ∈ sideParts t, ∀ c ∈ part, isZoneChar c = true) :
    ∀ c ∈ t, isZoneChar c = true := by
  intro c hc
  by_cases hcolon : c = ':'
  · rw [hcolon]
    decide
  · rw [sideParts, if_neg (List.ne_nil_of_mem hc)] at h
    obtain ⟨part, hpart, hmem⟩ := (mem_part_iff hcolon).mpr hc
    exact h part hpart c hmem

theorem isZoneChar_of_v6Groups (h : v6Groups t = some groups) : ∀ c ∈ t, isZoneChar c = true := by
  cases hcut : splitDouble ':' t with
  | none =>
    apply isZoneChar_of_sideParts
    rw [sideParts, if_neg (List.ne_nil_of_mem (colon_mem_of_v6Groups h))]
    exact isZoneChar_of_partGroups ((v6Groups_eq_of_none hcut).mp h).1
  | some cut =>
    obtain ⟨hall, right, hright, -, -⟩ := (v6Groups_eq_of_some hcut).mp h
    have hhead := isZoneChar_of_sideParts fun part hpart =>
      isZoneChar_of_partGroups (partGroups_of_isGroup hall) part hpart
    have htail := isZoneChar_of_sideParts (isZoneChar_of_partGroups hright)
    intro c hc
    rw [eq_append_of_splitDouble hcut, List.mem_append, List.mem_cons, List.mem_cons] at hc
    rcases hc with hc | rfl | rfl | hc
    · exact hhead c hc
    · decide
    · decide
    · exact htail c hc

theorem splitZone_append (t : List Char) : (splitZone t).1 ++ (splitZone t).2 = t :=
  List.takeWhile_append_dropWhile

theorem head_splitZone (h : c ∈ (splitZone t).2.head?) : c = '%' := by
  have hdrop := List.head?_dropWhile_not (· != '%') t
  rw [splitZone] at h
  rw [Option.mem_def.mp h] at hdrop
  simpa using hdrop

theorem splitZone_of_not_mem (h : '%' ∉ t) : splitZone t = (t, []) := by
  have hall : ∀ c ∈ t, (c != '%') = true := by
    intro c hc
    rw [bne_iff_ne]
    rintro rfl
    exact h hc
  rw [splitZone, List.takeWhile_eq_self_iff.mpr hall, List.dropWhile_eq_nil_iff.mpr hall]

theorem v6Literal_eq_some :
    v6Literal t = some groups ↔ isZone (splitZone t).2 = true ∧
      v6Groups (splitZone t).1 = some groups := by
  simp [v6Literal]

theorem v6Value_eq_some {v : Nat} :
    v6Value t = some v ↔ ∃ groups, v6Literal t = some groups ∧ digitsValue 65536 groups = v :=
  Option.map_eq_some_iff

theorem mem_v6_literal (h : v6Literal t = some groups) (hc : c ∈ t) : isZoneChar c = true ∨ c = '%' := by
  obtain ⟨hzone, hgroups⟩ := v6Literal_eq_some.mp h
  rw [← splitZone_append t, List.mem_append] at hc
  rcases hc with hc | hc
  · exact Or.inl (isZoneChar_of_v6Groups hgroups c hc)
  · have hhead := fun c => head_splitZone (t := t) (c := c)
    cases hcut : (splitZone t).2 with
    | nil => simp [hcut] at hc
    | cons x zone =>
      rw [hcut] at hc hzone hhead
      rcases List.mem_cons.mp hc with rfl | hc
      · exact Or.inr (hhead c (by simp))
      · simp only [isZone, Bool.and_eq_true, List.all_eq_true] at hzone
        exact Or.inl (hzone.2 c hc)

theorem v4Value_eq_none_of_v6 (h : v6Literal t = some groups) : v4Value t = none := by
  by_contra hsome
  have hcolon : ':' ∈ t := by
    rw [← splitZone_append t]
    exact List.mem_append_left _ (colon_mem_of_v6Groups (v6Literal_eq_some.mp h).2)
  rcases mem_v4_literal (Option.isSome_iff_ne_none.mpr hsome) hcolon with hdigit | hdot
  · exact absurd hdigit (by decide)
  · exact absurd hdot (by decide)

end

/-!
## Numbers as bit strings of a fixed width

The most significant bit comes first. The first `n` bits of a number of `w` bits are the
number without its low `w - n` bits, so two numbers share a prefix exactly when they
agree after division; and the bit strings of digits in a base `2 ^ w`, one after another,
are the bit string of the number.
-/

def bits : Nat → Nat → List Char
  | 0, _ => []
  | w + 1, v => bits w (v / 2) ++ [Nat.digitChar (v % 2)]

theorem length_bits (w v : Nat) : (bits w v).length = w := by
  induction w generalizing v with
  | zero => rfl
  | succ w ih => simp [bits, ih]

theorem bits_add (w k v : Nat) : bits (w + k) v = bits w (v / 2 ^ k) ++ bits k v := by
  induction k generalizing v with
  | zero => simp [bits]
  | succ k ih =>
    rw [← Nat.add_assoc, bits, ih, bits, Nat.div_div_eq_div_mul, ← pow_succ', List.append_assoc]

theorem take_bits {w n : Nat} (h : n ≤ w) (v : Nat) :
    (bits w v).take n = bits n (v / 2 ^ (w - n)) := by
  obtain ⟨k, rfl⟩ := Nat.exists_eq_add_of_le h
  rw [bits_add, Nat.add_sub_cancel_left]
  exact List.take_left' (length_bits n _)

theorem bits_inj {w x y : Nat} (hx : x < 2 ^ w) (hy : y < 2 ^ w) : bits w x = bits w y ↔ x = y := by
  constructor
  · intro h
    induction w generalizing x y with
    | zero =>
      omega
    | succ w ih =>
      obtain ⟨hhigh, hlow⟩ := List.append_inj' h rfl
      have hdigit : ∀ a < 2, ∀ b < 2, Nat.digitChar a = Nat.digitChar b → a = b := by decide
      have hdiv := ih (by omega) (by omega) hhigh
      have hmod := hdigit (x % 2) (by omega) (y % 2) (by omega) (by simpa using hlow)
      omega
  · intro h
    rw [h]

theorem bits_mod (w v : Nat) : bits w (v % 2 ^ w) = bits w v := by
  induction w generalizing v with
  | zero => rfl
  | succ w ih =>
    have hdiv : v % 2 ^ (w + 1) / 2 = v / 2 % 2 ^ w := by
      rw [pow_succ', Nat.mod_mul_right_div_self]
    have hmod : v % 2 ^ (w + 1) % 2 = v % 2 :=
      Nat.mod_mod_of_dvd v (dvd_pow_self 2 (Nat.succ_ne_zero w))
    rw [bits, bits, hdiv, hmod, ih]

theorem bits_zero (w : Nat) : bits w 0 = List.replicate w '0' := by
  induction w with
  | zero => rfl
  | succ w ih =>
    rw [bits, Nat.zero_div, ih, List.replicate_succ']
    rfl

theorem take_bits_eq_iff {w n x y : Nat} (h : n ≤ w) (hx : x < 2 ^ w) (hy : y < 2 ^ w) :
    (bits w x).take n = (bits w y).take n ↔ x / 2 ^ (w - n) = y / 2 ^ (w - n) := by
  have hlt : ∀ v < 2 ^ w, v / 2 ^ (w - n) < 2 ^ n := by
    intro v hv
    rw [Nat.div_lt_iff_lt_mul (Nat.two_pow_pos _), ← pow_add]
    rwa [Nat.add_sub_of_le h]
  rw [take_bits h, take_bits h]
  exact bits_inj (hlt x hx) (hlt y hy)

theorem padZeros_toDigits {w v : Nat} (hw : 0 < w) (h : v < 2 ^ w) :
    padZeros w (Nat.toDigits 2 v) = bits w v := by
  induction w generalizing v with
  | zero => omega
  | succ w ih =>
    rw [Nat.toDigits_eq_if (by decide)]
    split_ifs with hv
    · have hzero : v / 2 = 0 := by omega
      rw [bits, hzero, bits_zero, padZeros, Nat.mod_eq_of_lt hv]
      rfl
    · have hpos : 0 < w := by
        rcases Nat.eq_zero_or_pos w with rfl | hpos
        · omega
        · exact hpos
      rw [pow_succ] at h
      rw [bits, ← ih hpos (by omega), padZeros, padZeros, List.length_append, List.length_singleton,
        Nat.add_sub_add_right, List.append_assoc]

theorem flatMap_bits {w : Nat} (hw : 0 < w) {digits : List Nat} (h : ∀ d ∈ digits, d < 2 ^ w) :
    digits.flatMap (bits w) = bits (w * digits.length) (digitsValue (2 ^ w) digits) := by
  induction digits with
  | nil => rfl
  | cons d digits ih =>
    have htl : ∀ d ∈ digits, d < 2 ^ w := fun d hd => h d (by simp [hd])
    have hlt : digitsValue (2 ^ w) digits < 2 ^ (w * digits.length) := by
      rw [pow_mul]
      exact digitsValue_lt (Nat.one_lt_two_pow (by omega)) htl
    rw [List.flatMap_cons, ih htl, List.length_cons, Nat.mul_succ, Nat.add_comm, bits_add,
      digitsValue_cons, ← pow_mul]
    congr 1
    · rw [Nat.add_comm, Nat.add_mul_div_right _ _ (Nat.two_pow_pos _), Nat.div_eq_of_lt hlt,
        Nat.zero_add]
    · rw [← bits_mod (w * digits.length) (_ + _), Nat.mul_add_mod_self_right, bits_mod]

end Indexterity.Library
