import Indexterity.Library.Document

/-!
# The text of a value

What a script writes for a value: texts in quotes, with an escape for quotes, backslashes and
control characters; items and members between brackets, with commas between them. Behind a value
stands a comma or a bracket, and no number goes on with one: so no two values of JSON have one text.
-/

namespace Indexterity.Library

universe u

/-! ## Texts in a row -/

section Row
variable {α : Type u} {f : α → List Char} {close : Char} {Behind : List Char → Prop}
  {l l' : List α} {r r' : List Char}

theorem flatMap_append_inj (hbehind : ∀ l : List α, ∀ r, Behind (l.flatMap f ++ close :: r))
    (hopen : ∀ a r r', f a ++ r ≠ close :: r')
    (hinj : ∀ a ∈ l, ∀ b ∈ l', ∀ r r', Behind r → Behind r' → f a ++ r = f b ++ r' → a = b ∧ r = r')
    (h : l.flatMap f ++ close :: r = l'.flatMap f ++ close :: r') : l = l' ∧ r = r' := by
  induction l generalizing l' with
  | nil =>
    cases l' with
    | nil => exact ⟨rfl, (List.cons.inj h).2⟩
    | cons b l' =>
      rw [List.flatMap_cons, List.append_assoc] at h
      exact absurd h.symm (hopen b _ _)
  | cons a l ih =>
    rw [List.flatMap_cons, List.append_assoc] at h
    cases l' with
    | nil => exact absurd h (hopen a _ _)
    | cons b l' =>
      rw [List.flatMap_cons, List.append_assoc] at h
      obtain ⟨rfl, hrest⟩ := hinj a (by simp) b (by simp) _ _ (hbehind l r) (hbehind l' r') h
      obtain ⟨rfl, hr⟩ := ih (fun x hx y hy => hinj x (by simp [hx]) y (by simp [hy])) hrest
      exact ⟨rfl, hr⟩

def isNumeralChar (c : Char) : Bool := c.isDigit || ['-', '+', '.', 'e', 'E'].contains c

/-- The text does not go on as a number does. -/
def Stops (rest : List Char) : Prop := ∀ c ∈ rest.head?, isNumeralChar c = false

def commas (f : α → List Char) (l : List α) : List Char := (l.flatMap fun a => ',' :: f a).tail

theorem commas_append_inj (hclose : isNumeralChar close = false ∧ close ≠ ',')
    (hopen : ∀ a ∈ l ++ l', ∀ r r', f a ++ r ≠ close :: r')
    (hinj : ∀ a ∈ l, ∀ b ∈ l', ∀ r r', Stops r → Stops r' → f a ++ r = f b ++ r' → a = b ∧ r = r')
    (h : commas f l ++ close :: r = commas f l' ++ close :: r') : l = l' ∧ r = r' := by
  have hbehind : ∀ l : List α, ∀ r, Stops ((l.flatMap fun a => ',' :: f a) ++ close :: r) := by
    rintro (_ | ⟨a, l⟩) r c hc <;> cases hc
    · exact hclose.1
    · rfl
  have hcommas := congrArg (List.cons ',') h
  cases l <;> cases l'
  · exact ⟨rfl, (List.cons.inj h).2⟩
  · rename_i b l'
    exact absurd ((List.append_assoc _ _ _).symm.trans h.symm) (hopen b (by simp) _ _)
  · rename_i a l
    exact absurd ((List.append_assoc _ _ _).symm.trans h) (hopen a (by simp) _ _)
  · refine flatMap_append_inj hbehind (fun a r r' heq => hclose.2 (List.cons.inj heq).1.symm) ?_ hcommas
    intro a ha b hb r r' hr hr' heq
    exact hinj a ha b hb r r' hr hr' (List.cons.inj heq).2

end Row

/-! ## Texts in quotes -/

def quote : Char := Char.ofNat 34

def backslash : Char := Char.ofNat 92

/-- The characters with an escape, and what stands behind its backslash. -/
def escapes : List (Char × List Char) :=
  [(quote, [quote]), (backslash, [backslash]), (Char.ofNat 8, ['b']), (Char.ofNat 9, ['t']),
    (Char.ofNat 10, ['n']), (Char.ofNat 12, ['f']), (Char.ofNat 13, ['r'])] ++
    (List.range 32).map fun n =>
      (Char.ofNat n, ['u', '0', '0', Nat.digitChar (n / 16), Nat.digitChar (n % 16)])

def escaped (c : Char) : List Char :=
  match escapes.lookup c with
  | some text => backslash :: text
  | none => [c]

def quoted (text : String) : List Char := quote :: (text.toList.flatMap escaped ++ [quote])

theorem escaped_cases (c : Char) :
    (∃ text, (c, text) ∈ escapes ∧ escaped c = backslash :: text) ∨
      (c ≠ quote ∧ c ≠ backslash ∧ escaped c = [c]) := by
  unfold escaped
  cases hescape : escapes.lookup c with
  | some text =>
    obtain ⟨before, after, hsplit, -⟩ := List.lookup_eq_some_iff.mp hescape
    exact .inl ⟨text, by simp [hsplit], rfl⟩
  | none => refine .inr ⟨?_, ?_, rfl⟩ <;> (rintro rfl; revert hescape; decide)

theorem escaped_append_inj {c c' : Char} {r r' : List Char}
    (h : escaped c ++ r = escaped c' ++ r') : c = c' ∧ r = r' := by
  -- no escape begins another one
  have htable : ∀ a ∈ escapes, ∀ b ∈ escapes, a.2 <+: b.2 → a = b := by decide +kernel
  rcases escaped_cases c with ⟨a, ha, hc⟩ | ⟨-, hb, hc⟩ <;>
    rcases escaped_cases c' with ⟨a', ha', hc'⟩ | ⟨-, hb', hc'⟩ <;>
    simp only [hc, hc', List.cons_append, List.nil_append, List.cons.injEq, true_and] at h
  · have hsame : (c, a) = (c', a') := by
      rcases List.prefix_or_prefix_of_prefix ⟨r, h⟩ (List.prefix_append a' r') with hle | hle
      · exact htable _ ha _ ha' hle
      · exact (htable _ ha' _ ha hle).symm
    obtain ⟨rfl, rfl⟩ := Prod.mk.inj hsame
    exact ⟨rfl, List.append_cancel_left h⟩
  · exact absurd h.1.symm hb'
  · exact absurd h.1 hb
  · exact h

theorem quoted_append_inj {s t : String} {r r' : List Char} (h : quoted s ++ r = quoted t ++ r') :
    s = t ∧ r = r' := by
  have hopen : ∀ c r r', escaped c ++ r ≠ quote :: r' := by
    intro c r r'
    have hne : backslash ≠ quote := by decide
    rcases escaped_cases c with ⟨_, -, hc⟩ | ⟨hq, -, hc⟩ <;> simp_all
  have hrow : s.toList.flatMap escaped ++ quote :: r = t.toList.flatMap escaped ++ quote :: r' := by
    simpa [quoted] using h
  have hchars := @flatMap_append_inj _ _ _ (fun _ => True) _ _ _ _ (fun _ _ => trivial) hopen
    (fun _ _ _ _ _ _ _ _ => escaped_append_inj) hrow
  exact hchars.imp_left String.toList_inj.mp

/-! ## Values -/

section Text
variable {τ : Type u} (number : ℚ → List Char) (typedText : τ → List Char)

mutual

/-- The text of a value; numbers and the types JSON lacks have the text they are given. -/
def Value.json : Value τ → List Char
  | .null => ['n', 'u', 'l', 'l']
  | .bool true => ['t', 'r', 'u', 'e']
  | .bool false => ['f', 'a', 'l', 's', 'e']
  | .number value => number value
  | .text value => quoted value
  | .array items => '[' :: ((jsonItems items).tail ++ [']'])
  | .document members => '\x7b' :: ((jsonMembers members).tail ++ ['\x7d'])
  | .typed value => typedText value

def jsonItems : List (Value τ) → List Char
  | [] => []
  | item :: items => ',' :: (item.json ++ jsonItems items)

def jsonMembers : Members τ → List Char
  | [] => []
  | (name, value) :: members => ',' :: (quoted name ++ ':' :: value.json ++ jsonMembers members)

end

def jsonMember (member : String × Value τ) : List Char :=
  quoted member.1 ++ ':' :: member.2.json number typedText

theorem tail_jsonItems (items : List (Value τ)) :
    (jsonItems number typedText items).tail = commas (Value.json number typedText) items := by
  refine congrArg List.tail ?_
  induction items with
  | nil => rfl
  | cons item items ih => rw [jsonItems, ih]; rfl

theorem tail_jsonMembers (members : Members τ) :
    (jsonMembers number typedText members).tail = commas (jsonMember number typedText) members := by
  refine congrArg List.tail ?_
  induction members with
  | nil => rfl
  | cons member members ih => rw [jsonMembers, ih]; rfl

/-- The numbers a script has, each with a text of its own. -/
structure Numerals (has : ℚ → Prop) : Prop where
  text_ne_nil : ∀ q, number q ≠ []
  numeral : ∀ q, ∀ c ∈ number q, isNumeralChar c = true
  inj : ∀ p q, has p → has q → number p = number q → p = q

-- whole numbers, as digits
example : Numerals (fun q => Nat.toDigits 10 q.num.toNat) fun q => ∃ n : ℕ, q = n where
  text_ne_nil _ := Nat.toDigits_ne_nil
  numeral _ _ hc := by simp [isNumeralChar, Nat.isDigit_of_mem_toDigits _ _ hc]
  inj := by
    rintro _ _ ⟨m, rfl⟩ ⟨n, rfl⟩ h
    simpa [Nat.ofDigitChars_toDigits] using congrArg (Nat.ofDigitChars 10 · 0) h

/-- Everything inside is of a type JSON has. -/
inductive IsJson (has : ℚ → Prop) : Value τ → Prop
  | null : IsJson has .null
  | yes : IsJson has (.bool true)
  | no : IsJson has (.bool false)
  | number {value : ℚ} : has value → IsJson has (.number value)
  | text (value : String) : IsJson has (.text value)
  | array {items : List (Value τ)} : (∀ item ∈ items, IsJson has item) → IsJson has (.array items)
  | document {members : Members τ} : (∀ member ∈ members, IsJson has member.2) →
      IsJson has (.document members)

variable {number typedText} {has : ℚ → Prop} {r r' : List Char}

section
variable (hnumber : Numerals number has)
include hnumber

theorem Numerals.append_inj {p q : ℚ} (hp : has p) (hq : has q) (hr : Stops r) (hr' : Stops r')
    (h : number p ++ r = number q ++ r') : p = q ∧ r = r' := by
  have htaken : ∀ q r, Stops r → (number q ++ r).takeWhile isNumeralChar = number q := by
    intro q r hr
    rw [List.takeWhile_append_of_pos (hnumber.numeral q)]
    cases r with
    | nil => simp
    | cons c r => rw [List.takeWhile_cons_of_neg (by simp [hr c rfl]), List.append_nil]
  have htext : number p = number q := by rw [← htaken p r hr, h, htaken q r' hr']
  rw [htext] at h
  exact ⟨hnumber.inj p q hp hq htext, List.append_cancel_left h⟩

theorem Numerals.first {q : ℚ} {c : Char} (h : number q ++ r = c :: r') :
    isNumeralChar c = true := by
  obtain ⟨d, text, htext⟩ := List.exists_cons_of_ne_nil (hnumber.text_ne_nil q)
  rw [htext] at h
  exact hnumber.numeral q c (by simp [htext, (List.cons.inj h).1])

theorem IsJson.append_ne {v : Value τ} (hv : IsJson has v) (r r' : List Char) :
    v.json number typedText ++ r ≠ ']' :: r' := by
  intro h
  cases hv with
  | number _ => exact absurd (hnumber.first h) (by decide)
  | _ => exact absurd (List.cons.inj h).1 (by decide)

theorem IsJson.append_inj {v w : Value τ} (hv : IsJson has v) (hw : IsJson has w) (hr : Stops r)
    (hr' : Stops r') (h : v.json number typedText ++ r = w.json number typedText ++ r') :
    v = w ∧ r = r' := by
  -- the first character tells the types apart
  induction hv generalizing w r r' <;> cases hw <;> try first
    | exact absurd (List.cons.inj h).1 (by decide)
    | exact absurd (hnumber.first h) (by decide)
    | exact absurd (hnumber.first h.symm) (by decide)
    | exact ⟨rfl, List.append_cancel_left h⟩
  case number.number hp _ hq => exact (hnumber.append_inj hp hq hr hr' h).imp_left (congrArg _)
  case text.text => exact (quoted_append_inj h).imp_left (congrArg _)
  case array.array items hitems ih others hothers =>
    simp only [Value.json, tail_jsonItems, List.cons_append, List.append_assoc, List.nil_append,
      List.cons.injEq, true_and] at h
    refine (commas_append_inj ⟨rfl, by decide⟩ (fun item hitem => ?_)
      (fun item hitem other hother _ _ => ih item hitem (hothers other hother)) h).imp_left (congrArg _)
    exact ((List.mem_append.mp hitem).elim (hitems item) (hothers item)).append_ne hnumber
  case document.document members hmembers ih others hothers =>
    simp only [Value.json, tail_jsonMembers, List.cons_append, List.append_assoc, List.nil_append,
      List.cons.injEq, true_and] at h
    refine (commas_append_inj ⟨rfl, by decide⟩
      (fun member _ _ _ heq => absurd (List.cons.inj heq).1 (by decide))
      (fun member hmember other hother t t' ht ht' heq => ?_) h).imp_left (congrArg _)
    rw [jsonMember, jsonMember, List.append_assoc, List.append_assoc] at heq
    obtain ⟨hname, hvalue⟩ := quoted_append_inj heq
    obtain ⟨hsame, hrest⟩ := ih member hmember (hothers other hother) ht ht' (List.cons.inj hvalue).2
    exact ⟨Prod.ext hname hsame, hrest⟩

end

end Text

end Indexterity.Library
