import Mathlib
import Indexterity.NetGuard

/-!
# The category of an address and the category of its literals

The guard reads the two families differently. A dotted literal is judged by its number.
A literal of the wide family is judged by its text: the ranges that are told by the first
groups are found however the literal is written, but the unspecified address, the
loopback address and the mapped addresses are found in a few spellings only, and are
public addresses in every other.
-/

namespace Indexterity

open Library

variable {groups : List Nat} {ip : List Char} {n : Nat} {c : Char}

theorem isIP_of_v6 (h : v6Literal ip = some groups) : isIP ip = 6 := by
  simp [isIP, v4Value_eq_none_of_v6 h, v6Value, h]

theorem isIP_of_v4 (h : v4Value ip = some n) : isIP ip = 4 := by
  simp [isIP, h]

theorem octetsToInt_eq {parts : List (List Char)} (h : ∀ part ∈ parts, isOctet part = true)
    (value : Nat) : octetsToInt value parts =
      some (value * 256 ^ parts.length + digitsValue 256 (parts.map (numeral 10))) := by
  induction parts generalizing value with
  | nil => simp [octetsToInt, digitsValue]
  | cons part parts ih =>
    have hpart := h part (by simp)
    simp only [isOctet, Bool.and_eq_true, decide_eq_true_eq] at hpart
    have hshort : isShortNumeral part = true := by simp [isShortNumeral, hpart]
    rw [octetsToInt, if_neg (by simp [hshort]), if_neg (by omega),
      ih (fun part hpart => h part (by simp [hpart]))]
    rw [List.map_cons, digitsValue_cons, List.length_map, List.length_cons, pow_succ]
    congr 1
    ring

theorem ipv4ToInt_of_v4 (h : v4Value ip = some n) : ipv4ToInt ip = some n := by
  obtain ⟨octets, hoctets, rfl⟩ := Option.map_eq_some_iff.mp h
  simp only [v4Octets, Option.ite_none_right_eq_some, Option.some.injEq] at hoctets
  obtain ⟨⟨hlen, hall⟩, rfl⟩ := hoctets
  rw [ipv4ToInt]
  simp only [hlen, ne_eq, not_true_eq_false, if_false]
  rw [octetsToInt_eq (List.all_eq_true.mp hall)]
  simp

theorem classifyV4_of_v4 (h : v4Value ip = some n) : classifyV4 ip = classifyValue n := by
  simp [classifyV4, isIP_of_v4 h, ipv4ToInt_of_v4 h]

section Unwrapping
variable {ip tail : List Char}

theorem mappedTail_eq_some (h : mappedTail ip = some tail) :
    ∃ word, isGroup word = true ∧ numeral 16 word = 0xffff ∧
      (∀ c ∈ word, c ≠ '%' ∧ c ≠ ':') ∧ ip = ':' :: ':' :: (word ++ ':' :: tail) := by
  unfold mappedTail at h
  split at h
  · rename_i a b c d rest
    split_ifs at h with hall
    cases h
    have hf : ∀ x ∈ [a, b, c, d], x = 'f' ∨ x = 'F' := by
      simpa using hall
    have ha := hf a (by simp)
    have hb := hf b (by simp)
    have hc := hf c (by simp)
    have hd := hf d (by simp)
    refine ⟨[a, b, c, d], ?_, ?_, ?_, rfl⟩
    · rcases ha with rfl | rfl <;> rcases hb with rfl | rfl <;> rcases hc with rfl | rfl <;>
        rcases hd with rfl | rfl <;> decide
    · rcases ha with rfl | rfl <;> rcases hb with rfl | rfl <;> rcases hc with rfl | rfl <;>
        rcases hd with rfl | rfl <;> decide
    · intro x hx
      rcases hf x hx with rfl | rfl <;> decide
  · cases h

theorem groups_of_mappedTail (hliteral : v6Literal ip = some groups)
    (htail : mappedTail ip = some tail) (hzone : '%' ∉ tail) :
    ∃ right, partGroups (tail.splitOn ':') = some right ∧ right.length ≤ 6 ∧
      groups = List.replicate (7 - right.length) 0 ++ 0xffff :: right := by
  obtain ⟨word, hword, hnum, hchars, rfl⟩ := mappedTail_eq_some htail
  have hpercent : '%' ∉ ':' :: ':' :: (word ++ ':' :: tail) := by
    have hw : '%' ∉ word := fun hmem => (hchars '%' hmem).1 rfl
    simp [hw, hzone]
  have hgroups := (v6Literal_eq_some.mp hliteral).2
  rw [splitZone_of_not_mem hpercent] at hgroups
  obtain ⟨right, hright, hlen, rfl⟩ := (v6Groups_double (by simp)).mp hgroups
  rw [List.splitOn_append_cons_self_of_not_mem fun hmem => (hchars ':' hmem).2 rfl] at hright
  obtain ⟨next, parts, hparts⟩ := List.exists_cons_of_ne_nil (List.splitOn_ne_nil ':' tail)
  rw [hparts] at hright ⊢
  obtain ⟨-, right, hrest, rfl⟩ := partGroups_cons_cons_eq_some.mp hright
  rw [List.length_cons] at hlen
  refine ⟨right, hrest, by omega, ?_⟩
  rw [hnum, List.length_cons]
  congr 2
  omega

theorem mem_dotted (h : (tail.splitOn '.').all isShortNumeral = true) (hc : c ∈ tail) :
    isDigit c = true ∨ c = '.' := by
  by_cases hdot : c = '.'
  · exact Or.inr hdot
  · obtain ⟨part, hpart, hmem⟩ := (mem_part_iff hdot).mpr hc
    have hshort := List.all_eq_true.mp h part hpart
    rw [isShortNumeral, Bool.and_eq_true] at hshort
    exact Or.inl ((isNumeral_iff.mp hshort.1).2 c hmem)

theorem not_isGroup_of_dotted (h : (tail.splitOn '.').length = 4) : isGroup tail = false := by
  by_contra hgroup
  rw [Bool.not_eq_false, isGroup_iff] at hgroup
  have hdot : '.' ∉ tail := by
    intro hmem
    exact absurd (hgroup.1.2 '.' hmem) (by decide)
  rw [List.splitOn_eq_singleton hdot] at h
  simp at h

theorem value_of_mapped {right : List Nat} (hlen : right.length = 2) :
    digitsValue 65536 (List.replicate (7 - right.length) 0 ++ 0xffff :: right) =
      0xffff * 2 ^ 32 + digitsValue 65536 right := by
  match right, hlen with
  | [high, low], _ => simp [digitsValue, Nat.ofDigits_cons, List.replicate_succ]; omega

theorem unwrapMappedV4_eq_some {mapped : List Char} (hliteral : v6Literal ip = some groups)
    (h : unwrapMappedV4 ip = some mapped) :
    ∃ n, v4Value mapped = some n ∧ digitsValue 65536 groups = 0xffff * 2 ^ 32 + n := by
  unfold unwrapMappedV4 at h
  cases htail : mappedTail ip with
  | none => simp [htail] at h
  | some tail =>
    simp only [htail] at h
    split_ifs at h with hdotted
    · rw [Option.some.injEq] at h
      subst h
      have hzone : '%' ∉ tail := fun hmem => absurd (mem_dotted hdotted.2 hmem) (by decide)
      have hcolon : ':' ∉ tail := fun hmem => absurd (mem_dotted hdotted.2 hmem) (by decide)
      obtain ⟨right, hright, -, rfl⟩ := groups_of_mappedTail hliteral htail hzone
      rw [List.splitOn_eq_singleton hcolon] at hright
      simp only [partGroups, not_isGroup_of_dotted hdotted.1, Bool.false_eq_true, if_false] at hright
      obtain ⟨n, hn, rfl⟩ := Option.map_eq_some_iff.mp hright
      refine ⟨n, hn, ?_⟩
      rw [value_of_mapped (by simp)]
      simp [digitsValue, Nat.ofDigits_cons]
      omega
    · split at h
      · rename_i first second hparts
        split_ifs at h with hgroup
        cases h
        rw [Bool.and_eq_true] at hgroup
        have hzone : '%' ∉ tail := by
          intro hmem
          obtain ⟨part, hpart, hin⟩ := (mem_part_iff (by decide : '%' ≠ ':')).mpr hmem
          rw [hparts] at hpart
          have hpart : isGroup part = true := by
            simp only [List.mem_cons, List.not_mem_nil, or_false] at hpart
            rcases hpart with rfl | rfl
            · exact hgroup.1
            · exact hgroup.2
          exact absurd ((isGroup_iff.mp hpart).1.2 '%' hin) (by decide)
        obtain ⟨right, hright, -, rfl⟩ := groups_of_mappedTail hliteral htail hzone
        rw [hparts] at hright
        simp only [partGroups, hgroup.1, hgroup.2, if_true, Option.map_some, Option.some.injEq]
          at hright
        subst hright
        have hhigh := numeral_group_lt hgroup.1
        have hlow := numeral_group_lt hgroup.2
        refine ⟨_, v4Value_toDigits (by omega) (by omega) (by omega) (by omega), ?_⟩
        rw [value_of_mapped (by simp)]
        simp [digitsValue, Nat.ofDigits_cons]
        omega
      · cases h

end Unwrapping

section Patterns
variable {p q rest : List Char}

theorem toLower_of_isHexDigit (h : isHexDigit c = true) :
    c.toLower = Nat.digitChar (digitValue c) := by
  rw [isHexDigit_iff] at h
  rw [← Char.ofNat_toNat c]
  generalize c.toNat = n at h ⊢
  rcases h with ⟨hlo, hhi⟩ | ⟨hlo, hhi⟩ | ⟨hlo, hhi⟩ <;> interval_cases n <;> decide

theorem digitChar_inj : ∀ x < 16, ∀ y < 16, Nat.digitChar x = Nat.digitChar y → x = y := by
  decide

theorem isLowerHex_digitChar : ∀ x < 16, isLowerHex (Nat.digitChar x) = true := by
  decide

theorem digitValue_lt (h : isHexDigit c = true) : digitValue c < 16 :=
  isDigitIn_iff.mp h

theorem toLower_beq_iff (d : Char) (x : Nat) (hx : x < 16) (hd : Nat.digitChar x = d)
    (h : isHexDigit c = true) : (c.toLower == d) = true ↔ digitValue c = x := by
  rw [toLower_of_isHexDigit h, ← hd, beq_iff_eq]
  constructor
  · exact digitChar_inj _ (digitValue_lt h) _ hx
  · intro heq
    rw [heq]

theorem isLowerHex_toLower (h : isHexDigit c = true) : isLowerHex c.toLower = true ↔ True := by
  rw [toLower_of_isHexDigit h, isLowerHex_digitChar _ (digitValue_lt h)]
  simp

theorem matchesFrom_group {f₀ f₁ f₂ f₃ : Char → Bool} (P₀ P₁ P₂ P₃ : Nat → Prop)
    (hzero : ¬P₀ 0) (h₁ : f₁ ':' = false) (h₂ : f₂ ':' = false) (h₃ : f₃ ':' = false)
    (hf₀ : ∀ c, isHexDigit c = true → (f₀ c.toLower = true ↔ P₀ (digitValue c)))
    (hf₁ : ∀ c, isHexDigit c = true → (f₁ c.toLower = true ↔ P₁ (digitValue c)))
    (hf₂ : ∀ c, isHexDigit c = true → (f₂ c.toLower = true ↔ P₂ (digitValue c)))
    (hf₃ : ∀ c, isHexDigit c = true → (f₃ c.toLower = true ↔ P₃ (digitValue c)))
    (hp : isGroup p = true) :
    matchesFrom [f₀, f₁, f₂, f₃, (· == ':')] (p.map Char.toLower ++ ':' :: rest) = true ↔
      P₀ (numeral 16 p / 4096) ∧ P₁ (numeral 16 p / 256 % 16) ∧ P₂ (numeral 16 p / 16 % 16) ∧
        P₃ (numeral 16 p % 16) := by
  obtain ⟨⟨hne, hall⟩, hlen⟩ := isGroup_iff.mp hp
  -- fewer digits bring the colon to a place that asks for a digit, and make the number small
  have hshort : p.length < 4 → numeral 16 p / 4096 = 0 := by
    intro hlt
    have hpow : 16 ^ p.length ≤ 16 ^ 3 := Nat.pow_le_pow_right (by decide) (by omega)
    exact Nat.div_eq_of_lt ((numeral_lt (by decide) hall).trans_le hpow)
  match p, hne, hlen with
  | [a], _, _ => simp [matchesFrom, h₁, hshort, hzero]
  | [a, b], _, _ => simp [matchesFrom, h₂, hshort, hzero]
  | [a, b, c], _, _ => simp [matchesFrom, h₃, hshort, hzero]
  | [a, b, c, d], _, _ =>
    have ha := hall a (by simp)
    have hb := hall b (by simp)
    have hc := hall c (by simp)
    have hd := hall d (by simp)
    have hbv := digitValue_lt hb
    have hcv := digitValue_lt hc
    have hdv := digitValue_lt hd
    have hnum : numeral 16 [a, b, c, d] =
        4096 * digitValue a + 256 * digitValue b + 16 * digitValue c + digitValue d := by
      simp [numeral]
      omega
    have e₀ : numeral 16 [a, b, c, d] / 4096 = digitValue a := by omega
    have e₁ : numeral 16 [a, b, c, d] / 256 % 16 = digitValue b := by
      have := digitValue_lt ha
      omega
    have e₂ : numeral 16 [a, b, c, d] / 16 % 16 = digitValue c := by omega
    have e₃ : numeral 16 [a, b, c, d] % 16 = digitValue d := by omega
    simp [matchesFrom, e₀, e₁, e₂, e₃, hf₀ a ha, hf₁ b hb, hf₂ c hc, hf₃ d hd]

section
variable (hp : isGroup p = true)
include hp

theorem isUniqueLocal_iff :
    isUniqueLocal (p.map Char.toLower ++ ':' :: rest) = true ↔ numeral 16 p / 512 = 0x7e := by
  rw [isUniqueLocal, matchesFrom_group (· = 15) (fun x => x = 12 ∨ x = 13)
    (fun _ => True) (fun _ => True) (by decide) (by decide) (by decide) (by decide)
    (fun c => toLower_beq_iff 'f' 15 (by decide) rfl) ?_ (fun c => isLowerHex_toLower)
    (fun c => isLowerHex_toLower) hp]
  · simp only [and_true]
    omega
  · intro c hc
    rw [Bool.or_eq_true, toLower_beq_iff 'c' 12 (by decide) rfl hc,
      toLower_beq_iff 'd' 13 (by decide) rfl hc]

theorem isLinkLocal_iff :
    isLinkLocal (p.map Char.toLower ++ ':' :: rest) = true ↔ numeral 16 p / 64 = 0x3fa := by
  rw [isLinkLocal, matchesFrom_group (· = 15) (· = 14)
    (fun x => x = 8 ∨ x = 9 ∨ x = 10 ∨ x = 11) (fun _ => True)
    (by decide) (by decide) (by decide) (by decide)
    (fun c => toLower_beq_iff 'f' 15 (by decide) rfl)
    (fun c => toLower_beq_iff 'e' 14 (by decide) rfl) ?_
    (fun c => isLowerHex_toLower) hp]
  · simp only [and_true]
    omega
  · intro c hc
    simp only [List.contains_cons, List.contains_nil, Bool.or_eq_true, Bool.or_false,
      toLower_beq_iff '8' 8 (by decide) rfl hc, toLower_beq_iff '9' 9 (by decide) rfl hc,
      toLower_beq_iff 'a' 10 (by decide) rfl hc, toLower_beq_iff 'b' 11 (by decide) rfl hc]

theorem isMulticast_iff :
    isMulticast (p.map Char.toLower ++ ':' :: rest) = true ↔ numeral 16 p / 256 = 0xff := by
  rw [isMulticast, matchesFrom_group (· = 15) (· = 15) (fun _ => True)
    (fun _ => True) (by decide) (by decide) (by decide) (by decide)
    (fun c => toLower_beq_iff 'f' 15 (by decide) rfl)
    (fun c => toLower_beq_iff 'f' 15 (by decide) rfl)
    (fun c => isLowerHex_toLower) (fun c => isLowerHex_toLower) hp]
  simp only [and_true]
  omega

end

theorem matchesFrom_text {word t : List Char} :
    matchesFrom (word.map fun c => (· == c)) t = true ↔ word <+: t := by
  induction word generalizing t with
  | nil => simp [matchesFrom]
  | cons c word ih =>
    cases t with
    | nil => simp [matchesFrom]
    | cons x t =>
      rw [List.map_cons, matchesFrom, Bool.and_eq_true, beq_iff_eq, ih, List.cons_prefix_cons,
        eq_comm]

theorem map_toLower_eq_iff {s t : List Char} (hs : ∀ c ∈ s, isHexDigit c = true)
    (ht : ∀ c ∈ t, isHexDigit c = true) (hlen : s.length = t.length) :
    s.map Char.toLower = t.map Char.toLower ↔ numeral 16 s = numeral 16 t := by
  induction s generalizing t with
  | nil =>
    rw [List.length_nil, eq_comm, List.length_eq_zero_iff] at hlen
    simp [hlen]
  | cons c s ih =>
    cases t with
    | nil => simp at hlen
    | cons d t =>
      have hc := hs c (by simp)
      have hd := ht d (by simp)
      have hs' : ∀ c ∈ s, isHexDigit c = true := fun c hc => hs c (by simp [hc])
      have ht' : ∀ c ∈ t, isHexDigit c = true := fun c hc => ht c (by simp [hc])
      have hlen' : s.length = t.length := by simpa using hlen
      have hslt := numeral_lt (by decide) hs'
      have htlt := numeral_lt (by decide) ht'
      rw [hlen'] at hslt
      rw [List.map_cons, List.map_cons, List.cons.injEq, ih hs' ht' hlen', numeral_cons,
        numeral_cons, hlen', toLower_of_isHexDigit hc, toLower_of_isHexDigit hd]
      constructor
      · rintro ⟨hchar, hnum⟩
        rw [digitChar_inj _ (digitValue_lt hc) _ (digitValue_lt hd) hchar, hnum]
      · intro h
        have hdiv := congrArg (· / 16 ^ t.length) h
        have hmod := congrArg (· % 16 ^ t.length) h
        simp only [Nat.mul_add_mod_self_right, Nat.mod_eq_of_lt hslt, Nat.mod_eq_of_lt htlt] at hmod
        simp only [Nat.add_comm (digitValue _ * _),
          Nat.add_mul_div_right _ _ (Nat.pow_pos (by decide : 0 < 16)),
          Nat.div_eq_of_lt hslt, Nat.div_eq_of_lt htlt, Nat.zero_add] at hdiv
        exact ⟨by rw [hdiv], hmod⟩

section
variable (hp : isGroup p = true)
include hp

theorem colon_not_mem_lower : ':' ∉ p.map Char.toLower := by
  intro hmem
  obtain ⟨c, hc, hcolon⟩ := List.mem_map.mp hmem
  have hhex := (isGroup_iff.mp hp).1.2 c hc
  have hnone : ∀ x < 16, Nat.digitChar x ≠ ':' := by decide
  rw [toLower_of_isHexDigit hhex] at hcolon
  exact hnone _ (digitValue_lt hhex) hcolon

theorem group_lower_iff {word : List Char} (hword : ∀ c ∈ word, isHexDigit c = true)
    (hlower : word.map Char.toLower = word) :
    word = p.map Char.toLower ↔ p.length = word.length ∧ numeral 16 p = numeral 16 word := by
  constructor
  · intro h
    have hlen : p.length = word.length := by rw [h, List.length_map]
    rw [eq_comm, ← hlower] at h
    exact ⟨hlen, (map_toLower_eq_iff (isGroup_iff.mp hp).1.2 hword hlen).mp h⟩
  · rintro ⟨hlen, hnum⟩
    rw [eq_comm, ← (map_toLower_eq_iff (isGroup_iff.mp hp).1.2 hword hlen).mpr hnum] at hlower
    exact hlower

theorem lt_pow_length_of_group : numeral 16 p < 16 ^ p.length :=
  numeral_lt (by decide) (isGroup_iff.mp hp).1.2

end

theorem documentation_text : "2001:db8:".toList = "2001".toList ++ ':' :: ("db8".toList ++ ':' :: []) ∧
    "2001:0db8:".toList = "2001".toList ++ ':' :: ("0db8".toList ++ ':' :: []) := by
  decide

theorem isDocumentation_iff (hp : isGroup p = true) (hq : isGroup q = true) :
    isDocumentation (p.map Char.toLower ++ ':' :: (q.map Char.toLower ++ ':' :: rest)) = true ↔
      numeral 16 p = 0x2001 ∧ numeral 16 q = 0xdb8 := by
  have hfirst : "2001".toList = p.map Char.toLower ↔ numeral 16 p = 0x2001 := by
    rw [group_lower_iff hp (by decide) (by decide)]
    have hlen : p.length ≤ 4 := (isGroup_iff.mp hp).2
    have hlt := lt_pow_length_of_group hp
    constructor
    · exact fun h => h.2
    · intro h
      refine ⟨?_, h⟩
      rw [h] at hlt
      interval_cases p.length <;> simp at hlt ⊢
  have hsecond : ("db8".toList = q.map Char.toLower ∨ "0db8".toList = q.map Char.toLower) ↔
      numeral 16 q = 0xdb8 := by
    rw [group_lower_iff hq (by decide) (by decide), group_lower_iff hq (by decide) (by decide)]
    have hlen : q.length ≤ 4 := (isGroup_iff.mp hq).2
    have hlt := lt_pow_length_of_group hq
    constructor
    · rintro (h | h)
      · exact h.2
      · exact h.2
    · intro h
      have hval : numeral 16 "db8".toList = 0xdb8 ∧ numeral 16 "0db8".toList = 0xdb8 := by decide
      rw [hval.1, hval.2]
      rw [h] at hlt ⊢
      interval_cases q.length <;> simp at hlt ⊢
  rw [isDocumentation, Bool.or_eq_true, matchesFrom_text, matchesFrom_text, documentation_text.1, documentation_text.2,
    append_cons_prefix_iff (by decide) (colon_not_mem_lower hp),
    append_cons_prefix_iff (by decide) (colon_not_mem_lower hp),
    append_cons_prefix_iff (by decide) (colon_not_mem_lower hq),
    append_cons_prefix_iff (by decide) (colon_not_mem_lower hq)]
  simp only [List.nil_prefix, and_true, ← and_or_left]
  rw [hfirst, hsecond]

theorem isDocumentation_double (hp : isGroup p = true) :
    isDocumentation (p.map Char.toLower ++ ':' :: ':' :: rest) = false := by
  rw [← Bool.not_eq_true, isDocumentation, Bool.or_eq_true, matchesFrom_text, matchesFrom_text,
    documentation_text.1, documentation_text.2, append_cons_prefix_iff (by decide) (colon_not_mem_lower hp),
    append_cons_prefix_iff (by decide) (colon_not_mem_lower hp)]
  simp

end Patterns

def leadingCategory (v : Nat) : AddressCategory :=
  if v / 2 ^ 121 = 0x7e then .PRIVATE
  else if v / 2 ^ 118 = 0x3fa then .FORBIDDEN
  else if v / 2 ^ 120 = 0xff then .FORBIDDEN
  else if v / 2 ^ 96 = 0x20010db8 then .FORBIDDEN
  else .PUBLIC

def categoryOf (v : Nat) : AddressCategory :=
  if v / 2 ^ 32 = 0xffff then (classifyValue (v % 2 ^ 32)).category
  else if v = 0 then .FORBIDDEN
  else if v = 1 then .PRIVATE
  else leadingCategory v

/-- The spellings in which the guard finds the addresses it does not tell by a range. -/
def Spelt (ip : List Char) (v : Nat) : Prop :=
  (v = 0 → ip = "::".toList ∨ ip = "::0".toList) ∧ (v = 1 → ip = "::1".toList) ∧
    (v / 2 ^ 32 = 0xffff → (unwrapMappedV4 ip).isSome = true)
  deriving Decidable

section ByValue
variable {ip : List Char} {groups : List Nat}

theorem toLower_eq_iff {d : Char} (hd : d.toNat < 65) : c.toLower = d ↔ c = d := by
  by_cases hup : 65 ≤ c.toNat ∧ c.toNat ≤ 90
  · have hne : c ≠ d := by
      rintro rfl
      omega
    have hlower : 97 ≤ c.toLower.toNat := by
      rw [← Char.ofNat_toNat c]
      generalize c.toNat = n at hup ⊢
      obtain ⟨hlo, hhi⟩ := hup
      interval_cases n <;> decide
    simp only [hne, iff_false]
    rintro rfl
    omega
  · rw [Char.toLower, dif_neg]
    exact hup

theorem map_toLower_eq_iff_of_lt (ip word : List Char) (hword : ∀ c ∈ word, c.toNat < 65) :
    ip.map Char.toLower = word ↔ ip = word := by
  induction ip generalizing word with
  | nil => simp
  | cons c ip ih =>
    cases word with
    | nil => simp
    | cons d word =>
      rw [List.map_cons, List.cons.injEq, List.cons.injEq, toLower_eq_iff (hword d (by simp)),
        ih word fun c hc => hword c (by simp [hc])]

theorem digitsValue_leading {g₀ g₁ : Nat} {tl : List Nat} (hlen : (g₀ :: g₁ :: tl).length = 8)
    (hlt : ∀ g ∈ g₀ :: g₁ :: tl, g < 65536) :
    digitsValue 65536 (g₀ :: g₁ :: tl) / 2 ^ 96 = g₀ * 65536 + g₁ := by
  have htl : tl.length = 6 := by simpa using hlen
  have hrest : digitsValue 65536 tl < 65536 ^ 6 := by
    rw [← htl]
    exact digitsValue_lt (by decide) fun g hg => hlt g (by simp [hg])
  rw [digitsValue_cons, digitsValue_cons, List.length_cons, htl]
  omega

def patternCategory (lower : List Char) : AddressCategory :=
  if isUniqueLocal lower then .PRIVATE
  else if isLinkLocal lower then .FORBIDDEN
  else if isMulticast lower then .FORBIDDEN
  else if isDocumentation lower then .FORBIDDEN
  else .PUBLIC

theorem category_classifyV6 (ip : List Char) : (classifyV6 ip).category =
    if ip = "::".toList ∨ ip = "::0".toList then .FORBIDDEN
    else if ip = "::1".toList then .PRIVATE
    else patternCategory (ip.map Char.toLower) := by
  have hzero := map_toLower_eq_iff_of_lt ip "::".toList (by decide)
  have hshort := map_toLower_eq_iff_of_lt ip "::0".toList (by decide)
  have hone := map_toLower_eq_iff_of_lt ip "::1".toList (by decide)
  simp only [classifyV6, patternCategory, hzero, hshort, hone]
  split_ifs <;> rfl

theorem patternCategory_eq (h : v6Literal ip = some groups) :
    patternCategory (ip.map Char.toLower) = leadingCategory (digitsValue 65536 groups) := by
  have hgroups := (v6Literal_eq_some.mp h).2
  obtain ⟨hlen, hlt⟩ := v6Groups_spec hgroups
  rw [← splitZone_append ip]
  generalize (splitZone ip).2 = zone
  suffices hiff : ∀ lower, lower = ((splitZone ip).1 ++ zone).map Char.toLower →
      (isUniqueLocal lower = true ↔ digitsValue 65536 groups / 2 ^ 121 = 0x7e) ∧
      (isLinkLocal lower = true ↔ digitsValue 65536 groups / 2 ^ 118 = 0x3fa) ∧
      (isMulticast lower = true ↔ digitsValue 65536 groups / 2 ^ 120 = 0xff) ∧
      (isDocumentation lower = true ↔ digitsValue 65536 groups / 2 ^ 96 = 0x20010db8) by
    obtain ⟨hlocal, hlink, hmulti, hdoc⟩ := hiff _ rfl
    simp only [patternCategory, leadingCategory, hlocal, hlink, hmulti, hdoc]
  rintro lower rfl
  rcases v6Groups_leading hgroups with ⟨rest, tl, htext, rfl⟩ | ⟨p, rest, tl, hp, htext, rfl⟩ |
    ⟨p, q, rest, tl, hp, hq, htext, rfl⟩
  · -- no pattern starts with a colon
    obtain ⟨g, tl, rfl⟩ : ∃ g tl', tl = g :: tl' :=
      List.exists_cons_of_ne_nil fun hnil => by simp [hnil] at hlen
    have hg := hlt g (by simp)
    have hhigh := digitsValue_leading hlen hlt
    have hfalse : ∀ pattern ∈ [isUniqueLocal, isLinkLocal, isMulticast, isDocumentation],
        pattern (((splitZone ip).1 ++ zone).map Char.toLower) = false := by
      rw [htext]
      simp [isUniqueLocal, isLinkLocal, isMulticast, isDocumentation, matchesFrom]
    rw [hfalse isUniqueLocal (by simp), hfalse isLinkLocal (by simp), hfalse isMulticast (by simp),
      hfalse isDocumentation (by simp)]
    simp only [Bool.false_eq_true, false_iff]
    refine ⟨?_, ?_, ?_, ?_⟩ <;> omega
  · have hnum := numeral_group_lt hp
    have hhigh := digitsValue_leading hlen hlt
    have hlower : ((splitZone ip).1 ++ zone).map Char.toLower =
        p.map Char.toLower ++ ':' :: ':' :: (rest ++ zone).map Char.toLower := by
      rw [htext]
      simp
    rw [hlower, isUniqueLocal_iff hp, isLinkLocal_iff hp, isMulticast_iff hp,
      isDocumentation_double hp]
    simp only [Bool.false_eq_true, false_iff]
    refine ⟨?_, ?_, ?_, ?_⟩ <;> omega
  · have hnum := numeral_group_lt hp
    have hnext := numeral_group_lt hq
    have hhigh := digitsValue_leading hlen hlt
    have hlower : ((splitZone ip).1 ++ zone).map Char.toLower = p.map Char.toLower ++
        ':' :: (q.map Char.toLower ++ ':' :: (rest ++ zone).map Char.toLower) := by
      rw [htext]
      simp
    rw [hlower, isUniqueLocal_iff hp, isLinkLocal_iff hp, isMulticast_iff hp,
      isDocumentation_iff hp hq]
    refine ⟨?_, ?_, ?_, ?_⟩ <;> omega

theorem value_of_spelt (h : v6Literal ip = some groups) :
    (ip = "::".toList ∨ ip = "::0".toList → digitsValue 65536 groups = 0) ∧
      (ip = "::1".toList → digitsValue 65536 groups = 1) := by
  constructor
  · rintro (rfl | rfl)
    · have hval : v6Literal "::".toList = some [0, 0, 0, 0, 0, 0, 0, 0] := by decide
      rw [Option.some.inj (h.symm.trans hval)]
      decide
    · have hval : v6Literal "::0".toList = some [0, 0, 0, 0, 0, 0, 0, 0] := by decide
      rw [Option.some.inj (h.symm.trans hval)]
      decide
  · rintro rfl
    have hval : v6Literal "::1".toList = some [0, 0, 0, 0, 0, 0, 0, 1] := by decide
    rw [Option.some.inj (h.symm.trans hval)]
    decide

theorem leadingCategory_of_lt {v : Nat} (h : v < 2 ^ 48) : leadingCategory v = .PUBLIC := by
  rw [leadingCategory, if_neg (by omega), if_neg (by omega), if_neg (by omega), if_neg (by omega)]

/-- A literal gets the category of its address where it is spelt as the guard expects, and
is a public address elsewhere. -/
theorem category_of_literal (h : v6Literal ip = some groups) :
    (classifyAddress ip).category = if Spelt ip (digitsValue 65536 groups) then
      categoryOf (digitsValue 65536 groups) else .PUBLIC := by
  rw [classifyAddress, if_pos (isIP_of_v6 h)]
  cases hmapped : unwrapMappedV4 ip with
  | some mapped =>
    obtain ⟨n, hn, hvalue⟩ := unwrapMappedV4_eq_some h hmapped
    have hlt := v4Value_lt hn
    have hspelt : Spelt ip (digitsValue 65536 groups) := by
      refine ⟨?_, ?_, fun _ => by simp [hmapped]⟩ <;> intro hv <;> omega
    have hhigh : (0xffff * 2 ^ 32 + n) / 2 ^ 32 = 0xffff := by omega
    have hlow : (0xffff * 2 ^ 32 + n) % 2 ^ 32 = n := by omega
    rw [if_pos hspelt, hvalue, categoryOf, if_pos hhigh, hlow]
    simp only [classifyV4_of_v4 hn]
  | none =>
    obtain ⟨hzero, hone⟩ := value_of_spelt h
    simp only [category_classifyV6, patternCategory_eq h]
    generalize digitsValue 65536 groups = v at hzero hone ⊢
    by_cases hhigh : v / 2 ^ 32 = 0xffff
    · have hspelt : ¬Spelt ip v := fun hs => by simpa [hmapped] using hs.2.2 hhigh
      rw [if_neg hspelt, if_neg fun hs => absurd (hzero hs) (by omega),
        if_neg fun hs => absurd (hone hs) (by omega), leadingCategory_of_lt (by omega)]
    · by_cases hv : v = 0 ∨ v = 1
      · -- the only literals of these two that are found are written out in the guard
        have hpublic : leadingCategory v = .PUBLIC := leadingCategory_of_lt (by omega)
        rcases hv with rfl | rfl
        · have hne : ip ≠ "::1".toList := fun hs => absurd (hone hs) (by decide)
          by_cases hs : ip = "::".toList ∨ ip = "::0".toList
          · have hspelt : Spelt ip 0 :=
              ⟨fun _ => hs, fun h => absurd h (by decide), fun h => absurd h hhigh⟩
            rw [if_pos hs, if_pos hspelt, categoryOf, if_neg hhigh, if_pos rfl]
          · have hspelt : ¬Spelt ip 0 := fun h => hs (h.1 rfl)
            rw [if_neg hs, if_neg hne, if_neg hspelt, hpublic]
        · have hne : ¬(ip = "::".toList ∨ ip = "::0".toList) := fun hs =>
            absurd (hzero hs) (by decide)
          by_cases hs : ip = "::1".toList
          · have hspelt : Spelt ip 1 :=
              ⟨fun h => absurd h (by decide), fun _ => hs, fun h => absurd h hhigh⟩
            rw [if_neg hne, if_pos hs, if_pos hspelt, categoryOf, if_neg hhigh, if_neg one_ne_zero,
              if_pos rfl]
          · have hspelt : ¬Spelt ip 1 := fun h => hs (h.2.1 rfl)
            rw [if_neg hne, if_neg hs, if_neg hspelt, hpublic]
      · rw [not_or] at hv
        have hspelt : Spelt ip v :=
          ⟨fun h => absurd h hv.1, fun h => absurd h hv.2, fun h => absurd h hhigh⟩
        rw [if_pos hspelt, if_neg fun hs => hv.1 (hzero hs), if_neg fun hs => hv.2 (hone hs),
          categoryOf, if_neg hhigh, if_neg hv.1, if_neg hv.2]

end ByValue

/-- Two literals of one address get one category exactly when the address is a public one,
or both are spelt as the guard expects, or neither is. A literal of a mapped address gets
the category of the address it maps exactly when that is a public one or it is so spelt. -/
theorem category_by_value_iff {s t : List Char} {v : Nat} (hs : v6Value s = some v)
    (ht : v6Value t = some v) :
    ((classifyAddress s).category = (classifyAddress t).category ↔
      categoryOf v = .PUBLIC ∨ (Spelt s v ↔ Spelt t v)) ∧
    (∀ u, v / 2 ^ 32 = 0xffff → v4Value u = some (v % 2 ^ 32) →
      ((classifyAddress s).category = (classifyAddress u).category ↔
        (classifyAddress u).category = .PUBLIC ∨ Spelt s v)) := by
  obtain ⟨sgroups, hsgroups, hsv⟩ := v6Value_eq_some.mp hs
  obtain ⟨tgroups, htgroups, htv⟩ := v6Value_eq_some.mp ht
  rw [category_of_literal hsgroups, category_of_literal htgroups, hsv, htv]
  constructor
  · by_cases hspelt : Spelt s v <;> by_cases htspelt : Spelt t v <;>
      simp [hspelt, htspelt, eq_comm]
  · intro u hhigh hu
    have hcategory : (classifyAddress u).category = categoryOf v := by
      rw [classifyAddress, if_neg (by simp [isIP_of_v4 hu]), classifyV4_of_v4 hu, categoryOf,
        if_pos hhigh]
    rw [hcategory]
    by_cases hspelt : Spelt s v <;> simp [hspelt, eq_comm]

theorem category_by_value_mapped :
    let s := "::ffff:7f00:1".toList
    let t := "0:0:0:0:0:ffff:7f00:1".toList
    let v := 0xffff7f000001
    (v6Value s = some v ∧ v6Value t = some v) ∧
    ((classifyAddress s).category = (classifyAddress t).category ↔
      categoryOf v = .PUBLIC ∨ (Spelt s v ↔ Spelt t v)) ∧
    (∀ u, v / 2 ^ 32 = 0xffff → v4Value u = some (v % 2 ^ 32) →
      ((classifyAddress s).category = (classifyAddress u).category ↔
        (classifyAddress u).category = .PUBLIC ∨ Spelt s v)) :=
  ⟨⟨by decide, by decide⟩,
    category_by_value_iff (by decide) (by decide)⟩

/-- The loopback address and a mapped loopback address, spelt twice each. -/
theorem category_depends_on_spelling :
    (v6Value "::1".toList = v6Value "0:0:0:0:0:0:0:1".toList ∧
      (classifyAddress "::1".toList).category = .PRIVATE ∧
      (classifyAddress "0:0:0:0:0:0:0:1".toList).category = .PUBLIC) ∧
    (v6Value "0:0:0:0:0:ffff:7f00:1".toList = some (0xffff * 2 ^ 32 + 0x7f000001) ∧
      v4Value "127.0.0.1".toList = some 0x7f000001 ∧
      (classifyAddress "127.0.0.1".toList).category = .PRIVATE ∧
      (classifyAddress "0:0:0:0:0:ffff:7f00:1".toList).category = .PUBLIC) := by
  decide +kernel

end Indexterity
