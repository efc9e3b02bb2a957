import Mathlib.Data.Nat.Digits.Defs
import Mathlib.Tactic.FieldSimp
import Mathlib.Tactic.Positivity
import Indexterity.Library.Text

/-!
# Numerals and the numbers a script reads from them

A numeral is a list of digits in some radix. A script turns a text into a double: the
exact value of the literal, rounded half to even to 53 bits. Integers below `2 ^ 53` come
out exactly, and no larger one comes out smaller than that.
-/

namespace Indexterity.Library

def digitValue (c : Char) : Nat :=
  if 48 ≤ c.toNat ∧ c.toNat ≤ 57 then c.toNat - 48
  else if 97 ≤ c.toNat ∧ c.toNat ≤ 122 then c.toNat - 87
  else if 65 ≤ c.toNat ∧ c.toNat ≤ 90 then c.toNat - 55
  else 36

def isDigitIn (radix : Nat) (c : Char) : Bool :=
  digitValue c < radix

def isDigit : Char → Bool := isDigitIn 10

def isHexDigit : Char → Bool := isDigitIn 16

def numeral (radix : Nat) (t : List Char) : Nat :=
  t.foldl (fun n c => radix * n + digitValue c) 0

def digitsValue (base : Nat) (digits : List Nat) : Nat :=
  Nat.ofDigits base digits.reverse

def isNumeral (radix : Nat) (t : List Char) : Bool :=
  !t.isEmpty && t.all (isDigitIn radix)

def roundHalfEven (a b : Nat) : Nat :=
  let q := a / b
  let r := a % b
  if 2 * r < b ∨ (2 * r = b ∧ q % 2 = 0) then q else q + 1

/-- The exponent under which `a / b` has a significand of 53 bits, or that of the
smallest doubles. -/
def exponentOf (a b : Nat) : Int :=
  let l : Int := (a.log2 : Int) - b.log2
  let e := if b * 2 ^ l.toNat ≤ a * 2 ^ (-l).toNat then l - 52 else l - 53
  max e (-1074)

def roundDouble (a b : Nat) : Option ℚ :=
  if a = 0 then some 0
  else
    let e := exponentOf a b
    let m := roundHalfEven (a * 2 ^ (-e).toNat) (b * 2 ^ e.toNat)
    let q : ℚ := m * 2 ^ e.toNat / 2 ^ (-e).toNat
    if q < 2 ^ 1024 then some q else none

/-- A number of a script. The two zeros are not told apart. -/
inductive Numeric where
  | nan
  | infinite (negative : Bool)
  | finite (value : ℚ)
  deriving DecidableEq

def Numeric.signed (negative : Bool) : Option ℚ → Numeric
  | none => .infinite negative
  | some q => .finite (if negative then -q else q)

/-- `Number.isInteger`, with the integer. -/
def Numeric.integer? : Numeric → Option Int
  | .finite q => if q.den = 1 then some q.num else none
  | _ => none

/-- The power of ten of a literal: nothing, or `e` and a signed numeral. -/
def exponentPart : List Char → Option Int
  | [] => some 0
  | c :: t =>
    if c = 'e' ∨ c = 'E' then
      match t with
      | '+' :: d => if isNumeral 10 d then some (numeral 10 d) else none
      | '-' :: d => if isNumeral 10 d then some (-numeral 10 d) else none
      | d => if isNumeral 10 d then some (numeral 10 d) else none
    else none

def decimalLiteral (t : List Char) : Option (Nat × Nat) :=
  let whole := t.takeWhile isDigit
  let (part, rest) := match t.dropWhile isDigit with
    | '.' :: r => (r.takeWhile isDigit, r.dropWhile isDigit)
    | r => ([], r)
  if whole ++ part = [] then none
  else (exponentPart rest).map fun power =>
    let e : Int := power - part.length
    (numeral 10 (whole ++ part) * 10 ^ e.toNat, 10 ^ (-e).toNat)

def signedLiteral (negative : Bool) (t : List Char) : Numeric :=
  if t = "Infinity".toList then .infinite negative
  else match decimalLiteral t with
    | none => .nan
    | some (a, b) => .signed negative (roundDouble a b)

def radixLiteral (radix : Nat) (d : List Char) : Numeric :=
  if isNumeral radix d then .signed false (roundDouble (numeral radix d) 1) else .nan

def toNumber (t : List Char) : Numeric :=
  match trim t with
  | [] => .finite 0
  | '0' :: 'x' :: d => radixLiteral 16 d
  | '0' :: 'X' :: d => radixLiteral 16 d
  | '0' :: 'o' :: d => radixLiteral 8 d
  | '0' :: 'O' :: d => radixLiteral 8 d
  | '0' :: 'b' :: d => radixLiteral 2 d
  | '0' :: 'B' :: d => radixLiteral 2 d
  | '+' :: d => signedLiteral false d
  | '-' :: d => signedLiteral true d
  | d => signedLiteral false d

/-- `parseInt` of a text in radix 16: the longest numeral it starts with. -/
def parseHex (t : List Char) : Numeric :=
  let read (negative : Bool) (t : List Char) : Numeric :=
    let d := match t with
      | '0' :: 'x' :: d => d.takeWhile isHexDigit
      | '0' :: 'X' :: d => d.takeWhile isHexDigit
      | d => d.takeWhile isHexDigit
    if d = [] then .nan else .signed negative (roundDouble (numeral 16 d) 1)
  match t.dropWhile isSpace with
  | '-' :: d => read true d
  | '+' :: d => read false d
  | d => read false d

/-- `toString(2)` of an integer, and of what is not a number at all. -/
def Numeric.toBinary : Numeric → List Char
  | .nan => "NaN".toList
  | .infinite negative => if negative then "-Infinity".toList else "Infinity".toList
  | .finite q => if q.num < 0 then '-' :: Nat.toDigits 2 q.num.natAbs else Nat.toDigits 2 q.num.natAbs

def padZeros (width : Nat) (t : List Char) : List Char :=
  List.replicate (width - t.length) '0' ++ t

variable {c : Char} {radix n : Nat}

theorem isDigitIn_iff : isDigitIn radix c = true ↔ digitValue c < radix :=
  decide_eq_true_iff

theorem isDigit_iff : isDigit c = true ↔ 48 ≤ c.toNat ∧ c.toNat ≤ 57 := by
  rw [isDigit, isDigitIn_iff, digitValue]
  split_ifs <;> omega

theorem isHexDigit_iff : isHexDigit c = true ↔ 48 ≤ c.toNat ∧ c.toNat ≤ 57 ∨
    97 ≤ c.toNat ∧ c.toNat ≤ 102 ∨ 65 ≤ c.toNat ∧ c.toNat ≤ 70 := by
  rw [isHexDigit, isDigitIn_iff, digitValue]
  split_ifs <;> omega

theorem isSpace_of_isHexDigit (h : isHexDigit c = true) : isSpace c = false := by
  rw [isHexDigit_iff] at h
  simp only [isSpace, Bool.or_eq_false_iff, Bool.and_eq_false_iff, decide_eq_false_iff_not,
    beq_eq_false_iff_ne]
  omega

theorem isHexDigit_of_isDigit (h : isDigit c = true) : isHexDigit c = true := by
  rw [isDigit_iff] at h
  exact isHexDigit_iff.mpr (Or.inl h)

theorem isNumeral_iff {t : List Char} :
    isNumeral radix t = true ↔ t ≠ [] ∧ ∀ c ∈ t, isDigitIn radix c = true := by
  simp [isNumeral]

theorem digitsValue_cons (base d : Nat) (digits : List Nat) :
    digitsValue base (d :: digits) = d * base ^ digits.length + digitsValue base digits := by
  rw [digitsValue, List.reverse_cons, Nat.ofDigits_append, Nat.ofDigits_singleton,
    List.length_reverse, digitsValue]
  ring

theorem digitsValue_lt {base : Nat} (hbase : 1 < base) {digits : List Nat}
    (h : ∀ d ∈ digits, d < base) : digitsValue base digits < base ^ digits.length := by
  have hlt := Nat.ofDigits_lt_base_pow_length hbase (l := digits.reverse) (by simpa using h)
  simpa [digitsValue] using hlt

theorem numeral_eq (radix : Nat) (t : List Char) :
    numeral radix t = digitsValue radix (t.map digitValue) := by
  rw [digitsValue, Nat.ofDigits_eq_foldr, List.foldr_reverse, List.foldl_map]
  simp [numeral, add_comm]

theorem numeral_cons (radix : Nat) (c : Char) (t : List Char) :
    numeral radix (c :: t) = digitValue c * radix ^ t.length + numeral radix t := by
  rw [numeral_eq, numeral_eq, List.map_cons, digitsValue_cons, List.length_map]

theorem numeral_concat (radix : Nat) (t : List Char) (c : Char) :
    numeral radix (t ++ [c]) = radix * numeral radix t + digitValue c := by
  simp [numeral]

theorem numeral_lt (hradix : 1 < radix) {t : List Char} (h : ∀ c ∈ t, isDigitIn radix c = true) :
    numeral radix t < radix ^ t.length := by
  have hdigits : ∀ d ∈ t.map digitValue, d < radix :=
    List.forall_mem_map.mpr fun c hc => isDigitIn_iff.mp (h c hc)
  simpa [numeral_eq] using digitsValue_lt hradix hdigits

section Writing
variable {b : Nat}

theorem digitValue_digitChar : ∀ d < 16, digitValue (Nat.digitChar d) = d := by
  decide

variable (hb : 1 < b) (hb' : b ≤ 16)
include hb hb'

theorem isDigitIn_of_mem_toDigits (n : Nat) :
    ∀ c ∈ Nat.toDigits b n, isDigitIn b c = true := by
  have hdigit : ∀ d < b, isDigitIn b (Nat.digitChar d) = true := by
    intro d hd
    rw [isDigitIn_iff, digitValue_digitChar d (by omega)]
    exact hd
  induction n using Nat.strong_induction_on with
  | _ n ih =>
    intro c hc
    rw [Nat.toDigits_eq_if hb] at hc
    split_ifs at hc with hn
    · rw [List.mem_singleton] at hc
      rw [hc]
      exact hdigit n hn
    · rcases List.mem_append.mp hc with hc | hc
      · exact ih (n / b) (Nat.div_lt_self (by omega) hb) c hc
      · rw [List.mem_singleton] at hc
        rw [hc]
        exact hdigit _ (Nat.mod_lt _ (by omega))

theorem numeral_toDigits (n : Nat) :
    numeral b (Nat.toDigits b n) = n := by
  induction n using Nat.strong_induction_on with
  | _ n ih =>
    rw [Nat.toDigits_eq_if hb]
    split_ifs with hn
    · simp [numeral, digitValue_digitChar n (by omega)]
    · have hmod : n % b < b := Nat.mod_lt _ (by omega)
      rw [numeral_concat, ih (n / b) (Nat.div_lt_self (by omega) hb),
        digitValue_digitChar _ (by omega)]
      exact Nat.div_add_mod n b

theorem isNumeral_toDigits (n : Nat) :
    isNumeral b (Nat.toDigits b n) = true :=
  isNumeral_iff.mpr ⟨Nat.toDigits_ne_nil, isDigitIn_of_mem_toDigits hb hb' n⟩

end Writing

theorem digitChar_digitValue (h : isDigit c = true) : Nat.digitChar (digitValue c) = c := by
  obtain ⟨hlo, hhi⟩ := isDigit_iff.mp h
  have hvalue : digitValue c = c.toNat - 48 := if_pos ⟨hlo, hhi⟩
  have hwritten : ∀ n ≤ 57, 48 ≤ n → Nat.digitChar (n - 48) = Char.ofNat n := by decide
  rw [hvalue, hwritten c.toNat hhi hlo, Char.ofNat_toNat]

theorem toDigits_numeral {d : List Char} (h : isNumeral 10 d = true)
    (hfront : d.head? ≠ some '0' ∨ d.length = 1) : Nat.toDigits 10 (numeral 10 d) = d := by
  induction d using List.reverseRecOn with
  | nil => simp [isNumeral] at h
  | append_singleton front c ih =>
    obtain ⟨-, hdigits⟩ := isNumeral_iff.mp h
    have hc : isDigit c = true := hdigits c (by simp)
    have hlt : digitValue c < 10 := isDigitIn_iff.mp hc
    cases front with
    | nil =>
      rw [numeral_concat, show numeral 10 [] = 0 from rfl, Nat.mul_zero, Nat.zero_add,
        Nat.toDigits_of_lt_base hlt, digitChar_digitValue hc, List.nil_append]
    | cons first rest =>
      have hfirst : first ≠ '0' := by
        rcases hfront with hfront | hfront
        · simpa using hfront
        · simp at hfront
      have hread := ih
        (isNumeral_iff.mpr ⟨by simp, fun x hx => hdigits x (List.mem_append_left _ hx)⟩)
        (.inl (by simpa using hfirst))
      rw [numeral_concat]
      generalize numeral 10 (first :: rest) = n at hread
      have hpos : n ≠ 0 := by
        rintro rfl
        exact hfirst (List.cons.inj hread).1.symm
      rw [Nat.toDigits_of_base_le (by omega) (by omega),
        show (10 * n + digitValue c) / 10 = n by omega,
        show (10 * n + digitValue c) % 10 = digitValue c by omega, hread,
        digitChar_digitValue hc]

theorem roundHalfEven_one (n : Nat) : roundHalfEven n 1 = n := by
  simp [roundHalfEven, Nat.mod_one]

theorem le_roundHalfEven (a b : Nat) : a / b ≤ roundHalfEven a b := by
  unfold roundHalfEven
  dsimp only
  split_ifs <;> omega

theorem exponentOf_one (hn : n ≠ 0) : exponentOf n 1 = (n.log2 : Int) - 52 := by
  have hlog : 2 ^ n.log2 ≤ n := Nat.log2_self_le hn
  have hone : Nat.log2 1 = 0 := by decide
  simp only [exponentOf, hone, Nat.cast_zero, sub_zero, Int.toNat_natCast, Int.toNat_neg_natCast,
    Nat.one_mul, pow_zero, Nat.mul_one, if_pos hlog]
  omega

theorem roundDouble_of_lt (h : n < 2 ^ 53) : roundDouble n 1 = some (n : ℚ) := by
  by_cases hn : n = 0
  · simp [roundDouble, hn]
  have hlog : n.log2 < 53 := (Nat.log2_lt hn).mpr h
  have hup : ((n.log2 : Int) - 52).toNat = 0 := by omega
  have hval : ((n * 2 ^ (-((n.log2 : Int) - 52)).toNat : Nat) : ℚ) * 2 ^ 0 /
      2 ^ (-((n.log2 : Int) - 52)).toNat = n := by
    push_cast
    field_simp
  have hlt : (n : ℚ) < 2 ^ 1024 := by
    calc (n : ℚ) < 2 ^ 53 := by exact_mod_cast h
      _ < 2 ^ 1024 := pow_lt_pow_right₀ (by norm_num) (by omega)
  rw [roundDouble, if_neg hn, exponentOf_one hn]
  simp only [hup, pow_zero, Nat.mul_one, roundHalfEven_one]
  rw [pow_zero] at hval
  rw [hval, if_pos hlt]

theorem le_of_roundDouble (h : 2 ^ 53 ≤ n) {q : ℚ} (hq : roundDouble n 1 = some q) :
    2 ^ 53 ≤ q := by
  have hn : n ≠ 0 := by
    rintro rfl
    simp at h
  have hlog : 53 ≤ n.log2 := (Nat.le_log2 hn).mpr h
  obtain ⟨k, hk⟩ : ∃ k, n.log2 = 53 + k := Nat.exists_eq_add_of_le hlog
  have hup : ((n.log2 : Int) - 52).toNat = k + 1 := by omega
  have hdown : (-((n.log2 : Int) - 52)).toNat = 0 := by omega
  have hself : 2 ^ 52 * 2 ^ (k + 1) ≤ n := by
    calc 2 ^ 52 * 2 ^ (k + 1) = 2 ^ n.log2 := by rw [hk, ← pow_add]; congr 1; omega
      _ ≤ n := Nat.log2_self_le hn
  have hm : 2 ^ 52 ≤ roundHalfEven n (2 ^ (k + 1)) :=
    ((Nat.le_div_iff_mul_le (Nat.two_pow_pos _)).mpr hself).trans (le_roundHalfEven _ _)
  rw [roundDouble, if_neg hn, exponentOf_one hn] at hq
  simp only [hup, hdown, pow_zero, Nat.mul_one, Nat.one_mul, div_one] at hq
  split_ifs at hq
  cases hq
  calc (2 : ℚ) ^ 53 = (2 : ℚ) ^ 52 * (2 : ℚ) ^ 1 := (pow_add 2 52 1)
    _ ≤ (roundHalfEven n (2 ^ (k + 1)) : ℚ) * (2 : ℚ) ^ (k + 1) := by
      apply mul_le_mul
      · exact_mod_cast hm
      · exact pow_le_pow_right₀ (by norm_num) (by omega)
      · positivity
      · positivity

theorem integer?_roundDouble_iff {m : Nat} (hm : m < 2 ^ 53) :
    (Numeric.signed false (roundDouble n 1)).integer? = some (m : Int) ↔ n = m := by
  by_cases hn : n < 2 ^ 53
  · rw [roundDouble_of_lt hn]
    simp [Numeric.signed, Numeric.integer?]
  · constructor
    · intro h
      cases hq : roundDouble n 1 with
      | none => simp [hq, Numeric.signed, Numeric.integer?] at h
      | some q =>
        have hle := le_of_roundDouble (Nat.le_of_not_lt hn) hq
        simp only [hq, Numeric.signed, Numeric.integer?, Bool.false_eq_true, if_false] at h
        split_ifs at h with hden
        have hval : q = (m : ℚ) := by
          rw [← Rat.num_div_den q, hden, Option.some.inj h]
          simp
        rw [hval] at hle
        have : 2 ^ 53 ≤ m := by exact_mod_cast hle
        omega
    · intro h
      omega

section Reading
variable {d : List Char}

section
variable (h : isNumeral 10 d = true)
include h

theorem decimalLiteral_numeral :
    decimalLiteral d = some (numeral 10 d, 1) := by
  obtain ⟨hne, hall⟩ : d ≠ [] ∧ ∀ c ∈ d, isDigit c = true := isNumeral_iff.mp h
  simp [decimalLiteral, List.takeWhile_eq_self_iff.mpr hall, List.dropWhile_eq_nil_iff.mpr hall,
    hne, exponentPart]

theorem toNumber_numeral :
    toNumber d = .signed false (roundDouble (numeral 10 d) 1) := by
  obtain ⟨hne, hall⟩ := isNumeral_iff.mp h
  have hdigit : ∀ c ∈ d, 48 ≤ c.toNat ∧ c.toNat ≤ 57 := fun c hc => isDigit_iff.mp (hall c hc)
  have hnot : ∀ c : Char, ¬(48 ≤ c.toNat ∧ c.toNat ≤ 57) → c ∉ d := fun c hc hmem =>
    hc (hdigit c hmem)
  have htrim : trim d = d := trim_eq_self_of_forall fun c hc =>
    isSpace_of_isHexDigit (isHexDigit_of_isDigit (hall c hc))
  have hsigned : signedLiteral false d = .signed false (roundDouble (numeral 10 d) 1) := by
    rw [signedLiteral, if_neg, decimalLiteral_numeral h]
    rintro rfl
    exact hnot 'I' (by decide) (by decide)
  rw [← hsigned, toNumber, htrim]
  split
  · exact absurd rfl hne
  · exact absurd (by simp) (hnot 'x' (by decide))
  · exact absurd (by simp) (hnot 'X' (by decide))
  · exact absurd (by simp) (hnot 'o' (by decide))
  · exact absurd (by simp) (hnot 'O' (by decide))
  · exact absurd (by simp) (hnot 'b' (by decide))
  · exact absurd (by simp) (hnot 'B' (by decide))
  · exact absurd (by simp) (hnot '+' (by decide))
  · exact absurd (by simp) (hnot '-' (by decide))
  · rfl

theorem integer?_toNumber_iff {m : Nat} (hm : m < 2 ^ 53) :
    (toNumber d).integer? = some (m : Int) ↔ numeral 10 d = m := by
  rw [toNumber_numeral h]
  exact integer?_roundDouble_iff hm

end

theorem isDigit_of_mem_toDigits (h : c ∈ Nat.toDigits 10 n) : isDigit c = true :=
  (isNumeral_iff.mp (isNumeral_toDigits (by decide) (by decide) n)).2 c h

theorem toDigits_ne_nil (n : Nat) : Nat.toDigits 10 n ≠ [] :=
  (isNumeral_iff.mp (isNumeral_toDigits (by decide) (by decide) n)).1

theorem integer?_toNumber_toDigits (h : n < 2 ^ 53) :
    (toNumber (Nat.toDigits 10 n)).integer? = some (n : Int) := by
  rw [integer?_toNumber_iff (isNumeral_toDigits (by decide) (by decide) n) h,
    numeral_toDigits (by decide) (by decide)]

/-- Up to four hexadecimal digits are read as the numeral they are, whatever follows that is
neither a digit nor the sign of a radix. -/
theorem parseHex_append (h : isNumeral 16 d = true) (hlen : d.length ≤ 4) {rest : List Char}
    (hrest : ∀ c ∈ rest.head?, isHexDigit c = false ∧ c ≠ 'x' ∧ c ≠ 'X') :
    parseHex (d ++ rest) = .finite (numeral 16 d) := by
  obtain ⟨hne, hall⟩ : d ≠ [] ∧ ∀ c ∈ d, isHexDigit c = true := isNumeral_iff.mp h
  have hlt : numeral 16 d < 2 ^ 53 := by
    calc numeral 16 d < 16 ^ d.length := numeral_lt (by decide) hall
      _ ≤ 16 ^ 4 := Nat.pow_le_pow_right (by decide) hlen
      _ < 2 ^ 53 := by decide
  have hread : (d ++ rest).takeWhile isHexDigit = d := by
    rw [List.takeWhile_append_of_pos hall]
    cases rest with
    | nil => simp
    | cons c rest => simp [(hrest c (by simp)).1]
  obtain ⟨c, d, rfl⟩ := List.exists_cons_of_ne_nil hne
  have hc : isHexDigit c = true := hall c (by simp)
  have hsecond : ∀ x ∈ (d ++ rest).head?, x ≠ 'x' ∧ x ≠ 'X' := by
    intro x hx
    cases d with
    | nil => exact (hrest x hx).2
    | cons y d =>
      have hy : isHexDigit y = true := hall y (by simp)
      obtain rfl : y = x := by simpa using hx
      constructor <;> rintro rfl <;> exact absurd hy (by decide)
  rw [parseHex]
  simp only [List.cons_append, List.dropWhile_cons, isSpace_of_isHexDigit hc, Bool.false_eq_true,
    if_false]
  split
  · rename_i heq
    rw [(List.cons.inj heq).1] at hc
    exact absurd hc (by decide)
  · rename_i heq
    rw [(List.cons.inj heq).1] at hc
    exact absurd hc (by decide)
  · split
    · rename_i heq
      rw [(List.cons.inj heq).2] at hsecond
      exact absurd rfl (hsecond 'x' (by simp)).1
    · rename_i heq
      rw [(List.cons.inj heq).2] at hsecond
      exact absurd rfl (hsecond 'X' (by simp)).2
    · rw [List.cons_append] at hread
      simp [hread, roundDouble_of_lt hlt, Numeric.signed]

theorem toBinary_natCast (n : Nat) : (Numeric.finite n).toBinary = Nat.toDigits 2 n := by
  rw [Numeric.toBinary, Rat.num_natCast, if_neg (by omega), Int.natAbs_natCast]

end Reading

end Indexterity.Library
