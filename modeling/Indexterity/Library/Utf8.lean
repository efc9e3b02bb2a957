import Indexterity.Library.Numeric

/-!
# UTF-8, one byte at a time

A first byte is a character, asks for more, or is none of a character; so is a byte that
was asked for.
-/

namespace Indexterity.Library

/-- What is still asked for: how many bytes, the bounds of the next, the value so far. -/
structure Pending where
  need : Nat
  lower : Nat
  upper : Nat
  value : Nat

inductive ByteStep where
  | char (c : Char)
  | more (pending : Pending)
  | bad

def firstByte (b : Nat) : ByteStep :=
  if b < 0x80 then .char (Char.ofNat b)
  else if 0xc2 ≤ b ∧ b ≤ 0xdf then .more ⟨1, 0x80, 0xbf, b - 0xc0⟩
  else if 0xe0 ≤ b ∧ b ≤ 0xef then
    .more ⟨2, if b = 0xe0 then 0xa0 else 0x80, if b = 0xed then 0x9f else 0xbf, b - 0xe0⟩
  else if 0xf0 ≤ b ∧ b ≤ 0xf4 then
    .more ⟨3, if b = 0xf0 then 0x90 else 0x80, if b = 0xf4 then 0x8f else 0xbf, b - 0xf0⟩
  else .bad

def nextByte (p : Pending) (b : Nat) : ByteStep :=
  if p.lower ≤ b ∧ b ≤ p.upper then
    let value := p.value * 64 + (b - 0x80)
    if p.need = 1 then .char (Char.ofNat value) else .more ⟨p.need - 1, 0x80, 0xbf, value⟩
  else .bad

def utf8Bytes (c : Char) : List Nat :=
  let n := c.toNat
  if n < 0x80 then [n]
  else if n < 0x800 then [0xc0 + n / 64, 0x80 + n % 64]
  else if n < 0x10000 then [0xe0 + n / 4096, 0x80 + n / 64 % 64, 0x80 + n % 64]
  else [0xf0 + n / 262144, 0x80 + n / 4096 % 64, 0x80 + n / 64 % 64, 0x80 + n % 64]

/-- Decoding with a replacement character for what is no character. -/
def decodeUtf8From : Option Pending → List Nat → List Char
  | none, [] => []
  | some _, [] => [Char.ofNat 0xfffd]
  | none, b :: bytes =>
    match firstByte b with
    | .char c => c :: decodeUtf8From none bytes
    | .more p => decodeUtf8From (some p) bytes
    | .bad => Char.ofNat 0xfffd :: decodeUtf8From none bytes
  | some p, b :: bytes =>
    match nextByte p b with
    | .char c => c :: decodeUtf8From none bytes
    | .more p => decodeUtf8From (some p) bytes
    | .bad =>
      -- the byte that was not asked for is read again, as a first one
      match firstByte b with
      | .char c => Char.ofNat 0xfffd :: c :: decodeUtf8From none bytes
      | .more p => Char.ofNat 0xfffd :: decodeUtf8From (some p) bytes
      | .bad => Char.ofNat 0xfffd :: Char.ofNat 0xfffd :: decodeUtf8From none bytes

def decodeUtf8 (bytes : List Nat) : List Char :=
  decodeUtf8From none bytes

/-!
## Percent coding

Texts as components of an address of the web, and lists of pairs as its query. A
component is decoded strictly: a sign that starts no byte, or bytes that are no
character, are an error. A query is decoded leniently.
-/

def upperHex (d : Nat) : Char :=
  (Nat.digitChar d).toUpper

def percentByte (b : Nat) : List Char :=
  ['%', upperHex (b / 16), upperHex (b % 16)]

def hexByte (a b : Char) : Nat :=
  16 * digitValue a + digitValue b

def isUnreserved (c : Char) : Bool :=
  isDigitIn 36 c || "-_.!~*'()".toList.contains c

def encodeURIComponent (t : List Char) : List Char :=
  t.flatMap fun c => if isUnreserved c then [c] else (utf8Bytes c).flatMap percentByte

/-- `decodeURIComponent`, between characters or inside one; `none` is the error it throws. -/
def decodeComponentFrom : Option Pending → List Char → Option (List Char)
  | none, [] => some []
  | some _, [] => none
  | pending, '%' :: a :: b :: t =>
    if isHexDigit a && isHexDigit b then
      match (match pending with
        | none => firstByte (hexByte a b)
        | some p => nextByte p (hexByte a b)) with
      | .char c => (decodeComponentFrom none t).map (c :: ·)
      | .more p => decodeComponentFrom (some p) t
      | .bad => none
    else none
  | none, c :: t => if c = '%' then none else (decodeComponentFrom none t).map (c :: ·)
  | some _, _ :: _ => none

def decodeURIComponent (t : List Char) : Option (List Char) :=
  decodeComponentFrom none t

/-- The bytes of a component of a query; a sign that starts no byte is itself. -/
def formBytes : List Char → List Nat
  | '%' :: a :: b :: t =>
    if isHexDigit a && isHexDigit b then hexByte a b :: formBytes t
    else 0x25 :: formBytes (a :: b :: t)
  | c :: t => (if c = '+' then [0x20] else utf8Bytes c) ++ formBytes t
  | [] => []

def formDecode (t : List Char) : List Char :=
  decodeUtf8 (formBytes t)

def stripMark : List Char → List Char
  | '?' :: t => t
  | t => t

def parseQuery (t : List Char) : List (List Char × List Char) :=
  (((stripMark t).splitOn '&').filter (· ≠ [])).map fun pair =>
    match splitFirst '=' pair with
    | none => (formDecode pair, [])
    | some (name, value) => (formDecode name, formDecode value)

end Indexterity.Library
