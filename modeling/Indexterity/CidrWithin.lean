import Indexterity.GuardCategory

/-!
# Membership in a prefix

The bit string of a dotted literal is that of its number, and so is the bit string of a
literal of the wide family, if it has neither a dotted tail nor a zone that is cut at a
colon. Behind a zone with colons any eight groups can be hidden: they are the ones that
are read, whatever the address is.
-/

namespace Indexterity

open Library

variable {x w : Nat} {groups : List Nat} {group t : List Char}

section Reading
variable {address zone : List Char} {groups : List Nat}

theorem groupBits_append (hgroup : isGroup group = true) (zone : List Char)
    (hzone : ∀ c ∈ zone.head?, c = '%') :
    groupBits (group ++ zone) = bits 16 (numeral 16 group) := by
  obtain ⟨⟨hne, hall⟩, hlen⟩ := isGroup_iff.mp hgroup
  have hnumeral : isNumeral 16 group = true := isNumeral_iff.mpr ⟨hne, hall⟩
  have hread : parseHex (group ++ zone) = .finite (numeral 16 group) := by
    apply parseHex_append hnumeral hlen
    intro c hc
    rw [hzone c hc]
    decide
  rw [groupBits, if_neg (by simp [hne]), hread, toBinary_natCast]
  exact padZeros_toDigits (by decide) (numeral_group_lt hgroup)

theorem groupBits_of_isGroup (hgroup : isGroup group = true) :
    groupBits group = bits 16 (numeral 16 group) := by
  have h := groupBits_append hgroup [] (by simp)
  rwa [List.append_nil] at h

theorem groupBits_zero : groupBits ['0'] = bits 16 0 := by
  decide

theorem toBits_of_v4 (h : v4Value address = some x) : toBits address = bits 32 x := by
  rw [toBits, if_pos (isIP_of_v4 h)]
  obtain ⟨octets, hoctets, rfl⟩ := Option.map_eq_some_iff.mp h
  obtain ⟨hlen, hlt⟩ := v4Octets_spec hoctets
  simp only [v4Octets, Option.ite_none_right_eq_some, Option.some.injEq] at hoctets
  obtain ⟨⟨-, hall⟩, rfl⟩ := hoctets
  have hoctet : ∀ octet ∈ address.splitOn '.',
      padZeros 8 (toNumber octet).toBinary = bits 8 (numeral 10 octet) := by
    intro octet hmem
    have hlt : numeral 10 octet < 256 := hlt _ (List.mem_map_of_mem hmem)
    have hisOctet := List.all_eq_true.mp hall octet hmem
    rw [toNumber_numeral (isNumeral_of_isOctet hisOctet), roundDouble_of_lt (by omega)]
    simp only [Numeric.signed, Bool.false_eq_true, if_false]
    exact padZeros_toDigits (by decide) hlt
  rw [List.flatMap_congr hoctet, ← List.flatMap_map, flatMap_bits (by decide) hlt, hlen]
  norm_num

theorem flatMap_parts (hdot : '.' ∉ t) (hparts : partGroups (t.splitOn ':') = some groups)
    (hcolon : ':' ∉ zone) (hzone : ∀ c ∈ zone.head?, c = '%') :
    ((t ++ zone).splitOn ':').flatMap groupBits = groups.flatMap (bits 16) ∧
      ((t ++ zone).splitOn ':').length = groups.length := by
  have hne := List.splitOn_ne_nil ':' t
  have hsplit : t.splitOn ':' = (t.splitOn ':').dropLast ++ [(t.splitOn ':').getLast hne] :=
    (List.dropLast_append_getLast hne).symm
  have hpart : ∀ part ∈ t.splitOn ':', '.' ∉ part := by
    intro part hmem hin
    exact hdot (mem_of_mem_part hmem hin)
  obtain ⟨hall, rfl⟩ := partGroups_of_not_mem hpart hparts
  rw [splitOn_append_of_not_mem hsplit hcolon]
  generalize (t.splitOn ':').dropLast = init at hsplit ⊢
  generalize (t.splitOn ':').getLast hne = last at hsplit ⊢
  rw [hsplit] at hall ⊢
  have hinit : init.flatMap groupBits = (init.map (numeral 16)).flatMap (bits 16) := by
    rw [List.flatMap_map]
    exact List.flatMap_congr fun part hmem => groupBits_of_isGroup (hall part (by simp [hmem]))
  constructor
  · rw [List.flatMap_append, List.map_append, List.flatMap_append, hinit, List.flatMap_singleton,
      List.map_singleton, List.flatMap_singleton, groupBits_append (hall last (by simp)) zone hzone]
  · simp

def Plain (address : List Char) : Prop :=
  '.' ∉ (splitZone address).1 ∧ ':' ∉ (splitZone address).2 ∧
    ((splitZone address).2 ≠ [] → (splitZone address).1.getLast? ≠ some ':')
  deriving Decidable

theorem toBits_of_v6 (h : isIP address ≠ 4) :
    toBits address = (sideParts (splitHeadTail address).1 ++
      List.replicate (8 - (sideParts (splitHeadTail address).1).length -
        (((splitHeadTail address).2.map sideParts).getD []).length) ['0'] ++
      ((splitHeadTail address).2.map sideParts).getD []).flatMap groupBits := by
  rw [toBits, if_neg h]
  cases htail : (splitHeadTail address).2 <;> simp [htail, sideParts]

theorem flatMap_sideParts (hdot : '.' ∉ t) (hparts : partGroups (sideParts t) = some groups)
    (hcolon : ':' ∉ zone) (hzone : ∀ c ∈ zone.head?, c = '%') (hend : t = [] → zone = []) :
    (sideParts (t ++ zone)).flatMap groupBits = groups.flatMap (bits 16) ∧
      (sideParts (t ++ zone)).length = groups.length ∧ splitDouble ':' (t ++ zone) = none := by
  by_cases ht : t = []
  · rw [ht, hend ht]
    rw [ht] at hparts
    cases hparts
    simp [sideParts, splitDouble]
  · rw [sideParts, if_neg ht] at hparts
    have hgroup : ∀ part ∈ t.splitOn ':', isGroup part = true :=
      (partGroups_of_not_mem (fun part hmem hin => hdot (mem_of_mem_part hmem hin)) hparts).1
    have hnone : splitDouble ':' t = none := by
      apply splitDouble_eq_none_of_parts
      intro part hmem
      exact (isGroup_iff.mp (hgroup part hmem)).1.1
    rw [sideParts, if_neg (by simp [ht]), splitDouble_append_of_not_mem t hcolon, hnone]
    obtain ⟨hflat, hlen⟩ := flatMap_parts hdot hparts hcolon hzone
    exact ⟨hflat, hlen, rfl⟩

theorem toBits_of_plain (h : v6Literal address = some groups) (hplain : Plain address) :
    toBits address = groups.flatMap (bits 16) := by
  have hgroups := (v6Literal_eq_some.mp h).2
  obtain ⟨hdot, hcolon, hend⟩ := hplain
  have hzone : ∀ c ∈ (splitZone address).2.head?, c = '%' := fun c hc => head_splitZone hc
  have hip : isIP address ≠ 4 := by simp [isIP_of_v6 h]
  have haddress := splitZone_append address
  generalize (splitZone address).1 = body at hgroups hdot hend haddress
  generalize (splitZone address).2 = zone at hcolon hend hzone haddress
  rw [toBits_of_v6 hip, ← haddress]
  have hcut := splitDouble_append_of_not_mem body hcolon
  cases hbody : splitDouble ':' body with
  | none =>
    obtain ⟨hparts, hlen⟩ := (v6Groups_eq_of_none hbody).mp hgroups
    obtain ⟨hflat, hcount⟩ := flatMap_parts hdot hparts hcolon hzone
    have hside : sideParts (body ++ zone) = (body ++ zone).splitOn ':' := by
      rw [sideParts, if_neg]
      intro hnil
      have hmem := colon_mem_of_v6Groups hgroups
      rw [(List.append_eq_nil_iff.mp hnil).1] at hmem
      cases hmem
    rw [hbody, Option.map_none] at hcut
    simp only [splitHeadTail, hcut, hside, Option.map_none, Option.getD_none, List.length_nil,
      List.append_nil]
    rw [hcount, hlen, ← hflat]
    simp
  | some cut =>
    obtain ⟨head, tail⟩ := cut
    obtain ⟨hall, right, hright, hlen, rfl⟩ := (v6Groups_eq_of_some hbody).mp hgroups
    have htext := eq_append_of_splitDouble hbody
    have htaildot : '.' ∉ tail := fun hmem => hdot (by rw [htext]; simp [hmem])
    have htailend : tail = [] → zone = [] := by
      intro htail
      by_contra hne
      exact hend hne (by rw [htext, htail]; simp)
    obtain ⟨hflat, hcount, hnone⟩ := flatMap_sideParts htaildot hright hcolon hzone htailend
    rw [hbody, Option.map_some] at hcut
    simp only [splitHeadTail, hcut, hnone, Option.map_some, Option.getD_some]
    have hleft : (sideParts head).flatMap groupBits =
        ((sideParts head).map (numeral 16)).flatMap (bits 16) := by
      rw [List.flatMap_map]
      exact List.flatMap_congr fun part hmem => groupBits_of_isGroup (hall part hmem)
    have hmiddle : ∀ k, (List.replicate k ['0']).flatMap groupBits =
        (List.replicate k 0).flatMap (bits 16) := by
      intro k
      induction k with
      | zero => rfl
      | succ k ih =>
        rw [List.replicate_succ, List.replicate_succ, List.flatMap_cons, List.flatMap_cons, ih,
          groupBits_zero]
    rw [List.flatMap_append, List.flatMap_append, List.flatMap_append, List.flatMap_append, hleft,
      hflat, hcount, hmiddle]

end Reading

section Spelling
variable {g : Nat} {groups : List Nat}

def fullText (groups : List Nat) : List Char :=
  [':'].intercalate (groups.map (Nat.toDigits 16))

/-- A short literal of the group alone, whose zone hides the other groups. -/
def hiddenText (g : Nat) (groups : List Nat) : List Char :=
  ':' :: ':' :: (Nat.toDigits 16 g ++ '%' :: 'x' :: ':' :: fullText groups)

theorem isGroup_of_mem_map (h : ∀ g ∈ groups, g < 65536) :
    ∀ part ∈ groups.map (Nat.toDigits 16), isGroup part = true := by
  intro part hpart
  obtain ⟨g, hg, rfl⟩ := List.mem_map.mp hpart
  exact isGroup_toDigits (h g hg)

theorem not_mem_of_isGroup {part : List Char} (h : isGroup part = true) {c : Char}
    (hc : isHexDigit c = false) : c ∉ part := by
  intro hmem
  exact Bool.false_ne_true (hc.symm.trans ((isGroup_iff.mp h).1.2 c hmem))

theorem map_numeral_toDigits (groups : List Nat) :
    (groups.map (Nat.toDigits 16)).map (numeral 16) = groups := by
  rw [List.map_map]
  apply List.map_id''
  intro g
  exact numeral_toDigits (by decide) (by decide) g

section
variable (hne : groups ≠ []) (h : ∀ g ∈ groups, g < 65536)
include hne h

theorem splitOn_fullText :
    (fullText groups).splitOn ':' = groups.map (Nat.toDigits 16) := by
  apply List.splitOn_intercalate
  · intro part hpart
    exact not_mem_of_isGroup (isGroup_of_mem_map h part hpart) (by decide)
  · simpa using hne

theorem not_mem_fullText {c : Char} (hcolon : c ≠ ':') (hc : isHexDigit c = false) :
    c ∉ fullText groups := by
  intro hmem
  obtain ⟨part, hpart, hin⟩ := (mem_part_iff hcolon).mpr hmem
  rw [splitOn_fullText hne h] at hpart
  exact not_mem_of_isGroup (isGroup_of_mem_map h part hpart) hc hin

end

theorem v6Literal_fullText (hlen : groups.length = 8) (h : ∀ g ∈ groups, g < 65536) :
    v6Literal (fullText groups) = some groups := by
  have hne : groups ≠ [] := fun hnil => by simp [hnil] at hlen
  have hsplit := splitOn_fullText hne h
  have hcut : splitDouble ':' (fullText groups) = none := by
    apply splitDouble_eq_none_of_parts
    rw [hsplit]
    intro part hpart
    exact (isGroup_iff.mp (isGroup_of_mem_map h part hpart)).1.1
  rw [v6Literal_eq_some, splitZone_of_not_mem (not_mem_fullText hne h (by decide) (by decide))]
  refine ⟨rfl, (v6Groups_eq_of_none hcut).mpr ⟨?_, hlen⟩⟩
  rw [hsplit, partGroups_of_isGroup (isGroup_of_mem_map h), map_numeral_toDigits]

theorem plain_fullText (hne : groups ≠ []) (h : ∀ g ∈ groups, g < 65536) :
    Plain (fullText groups) := by
  rw [Plain, splitZone_of_not_mem (not_mem_fullText hne h (by decide) (by decide))]
  exact ⟨not_mem_fullText hne h (by decide) (by decide), by simp, by simp⟩

theorem splitZone_hiddenText (hg : g < 65536) : splitZone (hiddenText g groups) =
    (':' :: ':' :: Nat.toDigits 16 g, '%' :: 'x' :: ':' :: fullText groups) := by
  have hall : ∀ c ∈ ':' :: ':' :: Nat.toDigits 16 g, (c != '%') = true := by
    intro c hc
    rw [bne_iff_ne]
    rintro rfl
    have hnot := not_mem_of_isGroup (isGroup_toDigits hg) (c := '%') (by decide)
    simp [hnot] at hc
  have htext : hiddenText g groups =
      (':' :: ':' :: Nat.toDigits 16 g) ++ '%' :: 'x' :: ':' :: fullText groups := by
    simp [hiddenText]
  rw [splitZone, htext, List.takeWhile_append_of_pos hall, List.dropWhile_append_of_pos hall]
  simp

theorem v6Literal_hiddenText (hg : g < 65536) (hne : groups ≠ []) (h : ∀ g ∈ groups, g < 65536) :
    v6Literal (hiddenText g groups) = some (List.replicate 7 0 ++ [g]) := by
  rw [v6Literal_eq_some, splitZone_hiddenText hg]
  constructor
  · simp only [isZone, List.isEmpty_cons, Bool.not_false, Bool.true_and, List.all_eq_true]
    intro c hc
    rcases List.mem_cons.mp hc with rfl | hc
    · decide
    rcases List.mem_cons.mp hc with rfl | hc
    · decide
    by_cases hcolon : c = ':'
    · rw [hcolon]
      decide
    · cases hhex : isHexDigit c with
      | true => exact isZoneChar_of_isHexDigit hhex
      | false => exact absurd hc (not_mem_fullText hne h hcolon hhex)
  · refine (v6Groups_double Nat.toDigits_ne_nil).mpr ⟨[g], ?_, by simp, rfl⟩
    rw [List.splitOn_eq_singleton (not_mem_of_isGroup (isGroup_toDigits hg) (by decide))]
    simp [partGroups, isGroup_toDigits hg, numeral_toDigits]

theorem toBits_hiddenText (hg : g < 65536) (hlen : groups.length = 7)
    (h : ∀ g ∈ groups, g < 65536) :
    toBits (hiddenText g groups) = (g :: groups).flatMap (bits 16) := by
  have hne : groups ≠ [] := fun hnil => by simp [hnil] at hlen
  have hip : isIP (hiddenText g groups) ≠ 4 := by
    simp [isIP_of_v6 (v6Literal_hiddenText hg hne h)]
  have hfirst : ':' ∉ Nat.toDigits 16 g ++ ['%', 'x'] := by
    simp [not_mem_of_isGroup (isGroup_toDigits hg) (c := ':') (by decide)]
  have hsplit : (Nat.toDigits 16 g ++ '%' :: 'x' :: ':' :: fullText groups).splitOn ':' =
      (Nat.toDigits 16 g ++ ['%', 'x']) :: groups.map (Nat.toDigits 16) := by
    have htext : Nat.toDigits 16 g ++ '%' :: 'x' :: ':' :: fullText groups =
        (Nat.toDigits 16 g ++ ['%', 'x']) ++ ':' :: fullText groups := by simp
    rw [htext, List.splitOn_append_cons_self_of_not_mem hfirst, splitOn_fullText hne h]
  have hnone : splitDouble ':' (Nat.toDigits 16 g ++ '%' :: 'x' :: ':' :: fullText groups) = none := by
    apply splitDouble_eq_none_of_parts
    rw [hsplit]
    intro part hpart
    rcases List.mem_cons.mp hpart with rfl | hpart
    · simp
    · exact (isGroup_iff.mp (isGroup_of_mem_map h part hpart)).1.1
  have hheadTail : splitHeadTail (hiddenText g groups) =
      ([], some (Nat.toDigits 16 g ++ '%' :: 'x' :: ':' :: fullText groups)) := by
    simp [splitHeadTail, hiddenText, splitDouble, hnone]
  have hside : sideParts (Nat.toDigits 16 g ++ '%' :: 'x' :: ':' :: fullText groups) =
      (Nat.toDigits 16 g ++ ['%', 'x']) :: groups.map (Nat.toDigits 16) := by
    rw [sideParts, if_neg (by simp), hsplit]
  rw [toBits_of_v6 hip, hheadTail]
  simp only [Option.map_some, Option.getD_some, hside]
  have hrest : (groups.map (Nat.toDigits 16)).flatMap groupBits = groups.flatMap (bits 16) := by
    rw [List.flatMap_map]
    apply List.flatMap_congr
    intro g hg
    rw [groupBits_of_isGroup (isGroup_toDigits (h g hg)), numeral_toDigits (by decide) (by decide)]
  have hbits := groupBits_append (isGroup_toDigits hg) ['%', 'x'] (by simp)
  rw [numeral_toDigits (by decide) (by decide)] at hbits
  have hzero : 8 - (sideParts []).length -
      ((Nat.toDigits 16 g ++ ['%', 'x']) :: groups.map (Nat.toDigits 16)).length = 0 := by
    simp [sideParts, hlen]
  rw [hzero, List.replicate_zero, List.append_nil, sideParts, if_pos rfl, List.nil_append,
    List.flatMap_cons, List.flatMap_cons, hbits, hrest]

end Spelling

/-- The entry is an address, alone or followed by one slash and a decimal prefix length. -/
def Written (entry address : List Char) (n : Nat) : Prop :=
  (entry = address ∧ n = if isIP address = 6 then 128 else 32) ∨
    ∃ d, entry = address ++ '/' :: d ∧ isNumeral 10 d = true ∧ numeral 10 d = n

/-- Literals of one family whose numbers agree on the first `n` bits. -/
def AgreesOn (a address : List Char) (n : Nat) : Prop :=
  (∃ x y, v4Value a = some x ∧ v4Value address = some y ∧
    x / 2 ^ (32 - n) = y / 2 ^ (32 - n)) ∨
  (∃ x y, v6Value a = some x ∧ v6Value address = some y ∧
    x / 2 ^ (128 - n) = y / 2 ^ (128 - n))

section Membership
variable {entry address a : List Char} {cidr : Cidr} {n : Nat}

theorem isIP_cases (h : isIP address ≠ 0) :
    (isIP address = 4 ∧ ∃ x, v4Value address = some x) ∨
      (isIP address = 6 ∧ ∃ groups, v6Literal address = some groups) := by
  unfold isIP at h ⊢
  split_ifs at h ⊢ with h4 h6
  · exact Or.inl ⟨rfl, Option.isSome_iff_exists.mp h4⟩
  · obtain ⟨v, hv⟩ := Option.isSome_iff_exists.mp h6
    obtain ⟨groups, hgroups, -⟩ := v6Value_eq_some.mp hv
    exact Or.inr ⟨rfl, groups, hgroups⟩
  · exact absurd rfl h

theorem slash_not_mem (h : isIP address ≠ 0) : '/' ∉ address := by
  intro hmem
  rcases isIP_cases h with ⟨-, x, hx⟩ | ⟨-, groups, hgroups⟩
  · rcases mem_v4_literal (by simp [hx]) hmem with hdigit | hdot
    · exact absurd hdigit (by decide)
    · exact absurd hdot (by decide)
  · rcases mem_v6_literal hgroups hmem with hzone | hpercent
    · exact absurd hzone (by decide)
    · exact absurd hpercent (by decide)

theorem parseCidr_spec (h : parseCidr entry = .ok cidr) :
    cidr.address = (entry.splitOn '/').headD [] ∧ isIP cidr.address ≠ 0 ∧
      cidr.bits ≤ (if isIP cidr.address = 6 then 128 else 32) ∧
      (match (entry.splitOn '/')[1]? with
        | none => cidr.bits = if isIP cidr.address = 6 then 128 else 32
        | some length => (toNumber length).integer? = some (cidr.bits : Int)) := by
  simp only [parseCidr] at h
  generalize (entry.splitOn '/').headD [] = address at h ⊢
  by_cases hip : isIP address = 0
  · simp [hip] at h
  rw [if_neg hip] at h
  cases hlength : (entry.splitOn '/')[1]? with
  | none =>
    simp only [hlength] at h
    split_ifs at h
    · cases h
      exact ⟨rfl, hip, by simp [*], by simp [*]⟩
    · cases h
      exact ⟨rfl, hip, by simp [*], by simp [*]⟩
  | some length =>
    simp only [hlength] at h
    cases hbits : (toNumber length).integer? with
    | none => simp [hbits] at h
    | some k =>
      simp only [hbits] at h
      split_ifs at h with hfamily hrange hrange
      · cases h
        refine ⟨rfl, hip, ?_, ?_⟩
        · simp only [hfamily, if_true]
          omega
        · simp only [hbits]
          rw [Int.toNat_of_nonneg (by omega)]
      · cases h
        refine ⟨rfl, hip, ?_, ?_⟩
        · simp only [hfamily, if_false]
          omega
        · simp only [hbits]
          rw [Int.toNat_of_nonneg (by omega)]

theorem cidr_of_written (h : parseCidr entry = .ok cidr) (hip : isIP address ≠ 0)
    (hwritten : Written entry address n) : cidr.address = address ∧ cidr.bits = n := by
  obtain ⟨haddress, -, hle, hbits⟩ := parseCidr_spec h
  have hslash := slash_not_mem hip
  rcases hwritten with ⟨rfl, rfl⟩ | ⟨d, rfl, hd, rfl⟩
  · rw [List.splitOn_eq_singleton hslash] at haddress hbits
    have haddress : cidr.address = entry := haddress
    rw [haddress] at hbits ⊢
    exact ⟨rfl, hbits⟩
  · have hd' : '/' ∉ d := not_mem_of_isNumeral hd (by decide)
    rw [List.splitOn_append_cons_self_of_not_mem hslash, List.splitOn_eq_singleton hd']
      at haddress hbits
    have hlt : cidr.bits < 2 ^ 53 := by split_ifs at hle <;> omega
    exact ⟨haddress, ((integer?_toNumber_iff hd hlt).mp hbits).symm⟩

theorem withinCidr_iff (hbits : cidr.bits ≠ 0) : withinCidr a cidr = true ↔
    isIP a = isIP cidr.address ∧ (toBits a).take cidr.bits = (toBits cidr.address).take cidr.bits := by
  unfold withinCidr
  split_ifs with hip
  · simp [hip]
  · rw [not_not] at hip
    simp [hip]

/-- The address is a literal of the family that is so many bits wide, and this is its number. -/
inductive LiteralOf (address : List Char) : Nat → Nat → Prop
  | v4 {x : Nat} (h : v4Value address = some x) : LiteralOf address 32 x
  | v6 {groups : List Nat} (h : v6Literal address = some groups) :
    LiteralOf address 128 (digitsValue 65536 groups)

theorem exists_literalOf (h : isIP address ≠ 0) : ∃ w x, LiteralOf address w x := by
  rcases isIP_cases h with ⟨-, x, hx⟩ | ⟨-, groups, hgroups⟩
  · exact ⟨_, _, .v4 hx⟩
  · exact ⟨_, _, .v6 hgroups⟩

theorem LiteralOf.isIP (h : LiteralOf address w x) : isIP address = if w = 128 then 6 else 4 := by
  cases h with
  | v4 h => exact isIP_of_v4 h
  | v6 h => exact isIP_of_v6 h

theorem agreesOn_iff {w' y : Nat} (ha : LiteralOf a w x) (haddress : LiteralOf address w' y) :
    AgreesOn a address n ↔ w = w' ∧ x / 2 ^ (w - n) = y / 2 ^ (w - n) := by
  have hnone {t : List Char} {x : Nat} (h : v4Value t = some x) : v6Literal t = none :=
    Option.eq_none_iff_forall_ne_some.mpr fun groups hg => by simp [v4Value_eq_none_of_v6 hg] at h
  cases ha with
  | v4 ha =>
    cases haddress with
    | v4 hy => simp [AgreesOn, v6Value, ha, hy, hnone ha]
    | v6 hy => simp [AgreesOn, v6Value, hnone ha, v4Value_eq_none_of_v6 hy]
  | v6 ha => cases haddress <;> simp [AgreesOn, v6Value, v4Value_eq_none_of_v6 ha, *]

theorem LiteralOf.lt (h : LiteralOf address w x) : x < 2 ^ w := by
  cases h with
  | v4 h => exact v4Value_lt h
  | v6 h =>
    obtain ⟨hlen, hlt⟩ := v6Groups_spec (v6Literal_eq_some.mp h).2
    have hvalue := digitsValue_lt (by decide) hlt
    rw [hlen] at hvalue
    simpa using hvalue

theorem LiteralOf.toBits (h : LiteralOf address w x)
    (hplain : Indexterity.isIP address = 6 → Plain address) : toBits address = bits w x := by
  cases h with
  | v4 h => exact toBits_of_v4 h
  | v6 h =>
    obtain ⟨hlen, hlt⟩ := v6Groups_spec (v6Literal_eq_some.mp h).2
    have hflat := flatMap_bits (w := 16) (by decide) hlt
    rw [hlen] at hflat
    rw [toBits_of_plain h (hplain (isIP_of_v6 h)), hflat]
    norm_num

theorem within_iff (ha : isIP a ≠ 0) (hip : isIP cidr.address ≠ 0)
    (hle : cidr.bits ≤ if isIP cidr.address = 6 then 128 else 32)
    (hplain : cidr.bits ≠ 0 → isIP cidr.address = 6 →
      Plain cidr.address ∧ (isIP a = 6 → Plain a)) :
    withinCidr a cidr = true ↔ AgreesOn a cidr.address cidr.bits := by
  obtain ⟨w, x, ha⟩ := exists_literalOf ha
  obtain ⟨w', y, hip⟩ := exists_literalOf hip
  have hfamily : isIP a = isIP cidr.address ↔ w = w' := by
    rw [ha.isIP, hip.isIP]
    cases ha <;> cases hip <;> decide
  rw [agreesOn_iff ha hip]
  by_cases hbits : cidr.bits = 0
  · have hzero (hw : w = w') : x / 2 ^ w = y / 2 ^ w := by
      rw [Nat.div_eq_of_lt ha.lt, Nat.div_eq_of_lt (hw ▸ hip.lt)]
    simpa [withinCidr, hbits, hfamily] using hzero
  · rw [withinCidr_iff hbits, hfamily]
    refine and_congr_right fun hw => ?_
    have hplain := hplain hbits
    have hread := ha.toBits fun h6 => (hplain (hfamily.mpr hw ▸ h6)).2 h6
    have hle : cidr.bits ≤ w' := by
      rw [hip.isIP] at hle
      cases hip <;> simpa using hle
    rw [hread, hip.toBits fun h6 => (hplain h6).1, hw, take_bits_eq_iff hle (hw ▸ ha.lt) hip.lt]

theorem withinCidr_hiddenText {g : Nat} (hg : g < 65536) (hlen : groups.length = 7)
    (h : ∀ g ∈ groups, g < 65536) (hbits : cidr.bits ≠ 0) :
    withinCidr (hiddenText g groups) cidr = withinCidr (fullText (g :: groups)) cidr := by
  have hne : groups ≠ [] := fun hnil => by simp [hnil] at hlen
  have hall : ∀ x ∈ g :: groups, x < 65536 := List.forall_mem_cons.mpr ⟨hg, h⟩
  have hfull : v6Literal (fullText (g :: groups)) = some (g :: groups) :=
    v6Literal_fullText (by simp [hlen]) hall
  have hplain : Plain (fullText (g :: groups)) := plain_fullText (by simp) hall
  rw [Bool.eq_iff_iff, withinCidr_iff hbits, withinCidr_iff hbits, toBits_hiddenText hg hlen h,
    toBits_of_plain hfull hplain, isIP_of_v6 hfull, isIP_of_v6 (v6Literal_hiddenText hg hne h)]

/-- Division by up to `2 ^ 127` does not take eight groups to what it takes the first of
them to. -/
theorem not_same_quotients {k : Nat} (hlen : groups.length = 8) (hlt : ∀ g ∈ groups, g < 65536)
    (hk : k ≤ 127)
    (h : ∀ (g : Nat) (rest : List Nat), g < 65536 → rest.length = 7 → (∀ g ∈ rest, g < 65536) →
      (digitsValue 65536 (g :: rest) / 2 ^ k = digitsValue 65536 groups / 2 ^ k ↔
        g / 2 ^ k = digitsValue 65536 groups / 2 ^ k)) : False := by
  have hfirst := h 0xffff [0, 0, 0, 0, 0, 0, 0] (by decide) rfl (by decide)
  have hsecond := h 0 [0xffff, 0, 0, 0, 0, 0, 0] (by decide) rfl (by decide)
  have hvfirst : digitsValue 65536 [0xffff, 0, 0, 0, 0, 0, 0, 0] = 0xffff * 2 ^ 112 := by decide
  have hvsecond : digitsValue 65536 [0, 0xffff, 0, 0, 0, 0, 0, 0] = 0xffff * 2 ^ 96 := by decide
  rw [hvfirst] at hfirst
  rw [hvsecond] at hsecond
  obtain ⟨g, rest, rfl⟩ := List.exists_cons_of_ne_nil fun hnil : groups = [] => by
    simp [hnil] at hlen
  have hrest : rest.length = 7 := by simpa using hlen
  have hg : g < 65536 := hlt g (by simp)
  have hself := (h g rest hg hrest fun g hg => hlt g (by simp [hg])).mp rfl
  have hvalue : g * 2 ^ 112 ≤ digitsValue 65536 (g :: rest) := by
    rw [digitsValue_cons, hrest]
    omega
  by_cases hhigh : 16 ≤ k
  · have hpow : 2 ^ 16 ≤ 2 ^ k := Nat.pow_le_pow_right (by decide) hhigh
    have hpow' : 2 ^ k ≤ 2 ^ 127 := Nat.pow_le_pow_right (by decide) hk
    have hzero : g / 2 ^ k = 0 := Nat.div_eq_of_lt (by omega)
    have hword : 0xffff / 2 ^ k = 0 := Nat.div_eq_of_lt (by omega)
    rw [← hself, hzero, hword] at hfirst
    have hpos : 0 < 0xffff * 2 ^ 112 / 2 ^ k := Nat.div_pos (by omega) (Nat.two_pow_pos k)
    omega
  · have hpow : 2 ^ k ≤ 2 ^ 16 := Nat.pow_le_pow_right (by decide) (by omega)
    have hquot : g * 2 ^ 96 ≤ digitsValue 65536 (g :: rest) / 2 ^ k := by
      rw [Nat.le_div_iff_mul_le (Nat.two_pow_pos k)]
      calc g * 2 ^ 96 * 2 ^ k ≤ g * 2 ^ 96 * 2 ^ 16 := Nat.mul_le_mul_left _ hpow
        _ = g * 2 ^ 112 := by omega
        _ ≤ digitsValue 65536 (g :: rest) := hvalue
    have hle : g / 2 ^ k ≤ g := Nat.div_le_self g _
    have hzero : g = 0 := by omega
    rw [← hself, hzero, Nat.zero_div] at hsecond
    have hpos : 0 < 0xffff * 2 ^ 96 / 2 ^ k := Nat.div_pos (by omega) (Nat.two_pow_pos k)
    omega

/-- No prefix of the wide family and of positive length has the addresses that agree with
it: a literal is read by the groups it hides. -/
theorem exists_misread (hip : v6Literal cidr.address = some groups) (hbits : cidr.bits ≠ 0)
    (hle : cidr.bits ≤ 128) :
    ∃ a, isIP a ≠ 0 ∧ ¬(withinCidr a cidr = true ↔ AgreesOn a cidr.address cidr.bits) := by
  by_contra hnone
  have hall : ∀ a, isIP a ≠ 0 →
      (withinCidr a cidr = true ↔ AgreesOn a cidr.address cidr.bits) := by
    intro a ha
    by_contra hne
    exact hnone ⟨a, ha, hne⟩
  obtain ⟨hlen, hlt⟩ := v6Groups_spec (v6Literal_eq_some.mp hip).2
  -- then the eight groups and the first of them alone would agree with the prefix alike
  have hsame : ∀ (g : Nat) (rest : List Nat), g < 65536 → rest.length = 7 →
      (∀ g ∈ rest, g < 65536) →
      (digitsValue 65536 (g :: rest) / 2 ^ (128 - cidr.bits) =
          digitsValue 65536 groups / 2 ^ (128 - cidr.bits) ↔
        g / 2 ^ (128 - cidr.bits) = digitsValue 65536 groups / 2 ^ (128 - cidr.bits)) := by
    intro g rest hg hlen hrest
    have hne : rest ≠ [] := fun hnil => by simp [hnil] at hlen
    have hfull : v6Literal (fullText (g :: rest)) = some (g :: rest) :=
      v6Literal_fullText (by simp [hlen]) (List.forall_mem_cons.mpr ⟨hg, hrest⟩)
    have hhidden := v6Literal_hiddenText hg hne hrest
    have hg' : digitsValue 65536 (List.replicate 7 0 ++ [g]) = g := by
      simp [digitsValue, Nat.ofDigits_cons, List.replicate_succ]
    have hagrees := agreesOn_iff (n := cidr.bits) (.v6 hfull) (.v6 hip)
    have hagrees' := agreesOn_iff (n := cidr.bits) (.v6 hhidden) (.v6 hip)
    rw [and_iff_right rfl] at hagrees hagrees'
    rw [hg'] at hagrees'
    rw [← hagrees, ← hagrees', ← hall _ (by simp [isIP_of_v6 hfull]), ← hall _ (by simp [isIP_of_v6 hhidden]),
      withinCidr_hiddenText hg hlen hrest hbits]
  exact not_same_quotients hlen hlt (by omega) hsame

end Membership

/-- An entry that is accepted says what it means, and means the addresses that agree with
it, exactly when it is an address or an address with a decimal length, and either a
dotted one or of length zero. For the others it does between plain literals. -/
theorem parseCidr_within_iff {entry : List Char} {cidr : Cidr} (h : parseCidr entry = .ok cidr) :
    ((∃ address n, isIP address ≠ 0 ∧ Written entry address n ∧
        ∀ a, isIP a ≠ 0 → (withinCidr a cidr = true ↔ AgreesOn a address n)) ↔
      ∃ n, Written entry cidr.address n ∧ (isIP cidr.address = 4 ∨ n = 0)) ∧
    (∀ n, Written entry cidr.address n → (isIP cidr.address = 6 → Plain cidr.address) →
      ∀ a, isIP a ≠ 0 → (isIP a = 6 → Plain a) →
        (withinCidr a cidr = true ↔ AgreesOn a cidr.address n)) := by
  obtain ⟨-, hip, hle, -⟩ := parseCidr_spec h
  constructor
  · constructor
    · rintro ⟨address, n, haddress, hwritten, hall⟩
      obtain ⟨rfl, rfl⟩ := cidr_of_written h haddress hwritten
      refine ⟨_, hwritten, ?_⟩
      rcases isIP_cases hip with ⟨h4, -⟩ | ⟨h6, groups, hgroups⟩
      · exact Or.inl h4
      · right
        by_contra hbits
        rw [if_pos h6] at hle
        obtain ⟨a, ha, hmisread⟩ := exists_misread hgroups hbits hle
        exact hmisread (hall a ha)
    · rintro ⟨n, hwritten, hcase⟩
      obtain ⟨-, rfl⟩ := cidr_of_written h hip hwritten
      refine ⟨cidr.address, _, hip, hwritten, ?_⟩
      exact fun a ha => within_iff ha hip hle fun hbits h6 => by omega
  · intro n hwritten hplain a ha haplain
    obtain ⟨-, rfl⟩ := cidr_of_written h hip hwritten
    exact within_iff ha hip hle fun _ h6 => ⟨hplain h6, haplain⟩

theorem parseCidr_within_link_local :
    let entry := "fe80::/10".toList
    let cidr : Cidr := ⟨"fe80::".toList, 10⟩
    parseCidr entry = .ok cidr ∧
    ((∃ address n, isIP address ≠ 0 ∧ Written entry address n ∧
        ∀ a, isIP a ≠ 0 → (withinCidr a cidr = true ↔ AgreesOn a address n)) ↔
      ∃ n, Written entry cidr.address n ∧ (isIP cidr.address = 4 ∨ n = 0)) ∧
    (∀ n, Written entry cidr.address n → (isIP cidr.address = 6 → Plain cidr.address) →
      ∀ a, isIP a ≠ 0 → (isIP a = 6 → Plain a) →
        (withinCidr a cidr = true ↔ AgreesOn a cidr.address n)) :=
  ⟨by decide +kernel, parseCidr_within_iff (by decide +kernel)⟩

/-- Two slashes and a length in another radix are accepted; a dotted tail is read as a
group, so an address is inside a prefix it does not agree with. -/
theorem parseCidr_misreads :
    (parseCidr "10.0.0.0/8/24".toList = .ok ⟨"10.0.0.0".toList, 8⟩ ∧
      parseCidr "10.0.0.0/0x8".toList = .ok ⟨"10.0.0.0".toList, 8⟩ ∧
      parseCidr "10.0.0.0/".toList = .ok ⟨"10.0.0.0".toList, 0⟩) ∧
    (parseCidr "::1/128".toList = .ok ⟨"::1".toList, 128⟩ ∧
      v6Value "::1.2.3.4".toList = some 0x01020304 ∧
      withinCidr "::1.2.3.4".toList ⟨"::1".toList, 128⟩ = true ∧
      ¬AgreesOn "::1.2.3.4".toList "::1".toList 128) := by
  refine ⟨by decide +kernel, by decide +kernel, by decide +kernel, by decide +kernel, ?_⟩
  have hdotted : v6Literal "::1.2.3.4".toList = some [0, 0, 0, 0, 0, 0, 0x102, 0x304] := by
    decide
  have hone : v6Literal "::1".toList = some [0, 0, 0, 0, 0, 0, 0, 1] := by decide
  rw [agreesOn_iff (.v6 hdotted) (.v6 hone)]
  decide

end Indexterity
