import Metaobject.Json.Cursor
import Metaobject.Text.Utf8

/-!
# Words, strings and numbers

The readers of single tokens. A number is read as a significand of at most 64 bits and a power of
ten; digits that no longer fit are dropped, and the double is the rounded significand times or
divided by the rounded power.
-/

namespace Metaobject.Json.Reader

def word : List UInt8 → Reader Unit
  | [] => return
  | b :: rest => do
    match ← next with
    | none => fail .endInValue
    | some c => if c = b then word rest else fail .expectedWord

def hexValue (b : UInt8) : Option Nat :=
  if 48 ≤ b && b ≤ 57 then some (b.toNat - 48)
  else if 65 ≤ b && b ≤ 70 then some (b.toNat - 55)
  else if 97 ≤ b && b ≤ 102 then some (b.toNat - 87)
  else none

def fourDigits (digits : List UInt8) : Option Nat :=
  digits.foldl (fun n b => do return (← n) * 16 + (← hexValue b)) (some 0)

def codeUnit : Reader Nat := do
  let c ← get
  let digits := c.rest.take 4
  set (c.steps digits.length)
  if digits.length < 4 then fail .endInString
  else
    match fourDigits digits with
    | some n => return n
    | none => fail .invalidEscape

def isHighSurrogate (n : Nat) : Bool := 0xD800 ≤ n && n ≤ 0xDBFF

def isLowSurrogate (n : Nat) : Bool := 0xDC00 ≤ n && n ≤ 0xDFFF

def pairMark (mark : UInt8) : Reader Unit := do
  match ← peek with
  | none => fail .endInString
  | some b =>
    advance
    if b = mark then return else fail .loneHighSurrogate

/-- The character of a code unit escape, or of two that form a pair. -/
def escapedCodePoint : Reader Char := do
  let n ← codeUnit
  if isLowSurrogate n then fail .loneSurrogate
  else if isHighSurrogate n then
    pairMark 92
    pairMark 117
    let m ← codeUnit
    if isLowSurrogate m then return Char.ofNat ((n - 0xD800) * 0x400 + (m - 0xDC00) + 0x10000)
    else fail .loneSurrogate
  else return Char.ofNat n

def escape? (b : UInt8) : Option UInt8 :=
  if b = 34 || b = 92 || b = 47 then some b
  else if b = 98 then some 8
  else if b = 102 then some 12
  else if b = 110 then some 10
  else if b = 114 then some 13
  else if b = 116 then some 9
  else none

/-- The octets that an escape stands for, after its backslash. -/
def escaped : Reader (List UInt8) := do
  match ← next with
  | none => fail .endInString
  | some b =>
    if b = 117 then return String.utf8EncodeChar (← escapedCodePoint)
    else
      match escape? b with
      | some c => return [c]
      | none => fail .invalidEscape

/-- The octets of a string up to its closing quote, latest first; `steps` bounds their number. -/
def stringOctets : Nat → List UInt8 → Reader (List UInt8)
  | 0, _ => fail .endInString
  | steps + 1, seen => do
    match ← next with
    | none => fail .endInString
    | some b =>
      if b = 34 then return seen
      else if b = 92 then stringOctets steps ((← escaped).reverse ++ seen)
      else if b < 32 then fail .controlCharacter
      else stringOctets steps (b :: seen)

def stringBody : Reader String := do
  let seen ← stringOctets ((← get).rest.length + 1) []
  match Text.Utf8.decode seen.reverse with
  | .ok s => return s
  | .error _ => return ""

/-- The end of a string whose content does not matter; surrogates need no partner in it. -/
def skipString : Nat → Reader Unit
  | 0 => fail .endInString
  | steps + 1 => do
    match ← peek with
    | none => fail .endInString
    | some b =>
      if b < 32 then fail .controlCharacter
      advance
      if b = 34 then return
      else if b = 92 then
        match ← next with
        | none => fail .endInString
        | some e =>
          if e = 117 then
            let _ ← codeUnit
            skipString steps
          else if (escape? e).isSome then skipString steps
          else fail .invalidEscape
      else skipString steps

def isDigit (b : UInt8) : Bool := 48 ≤ b && b ≤ 57

def digitValue (b : UInt8) : Nat := b.toNat - 48

def digits : Reader (List UInt8) := do
  let c ← get
  let ds := c.rest.takeWhile isDigit
  set (c.steps ds.length)
  return ds

/-- Append digits to a significand as long as it fits into 64 bits; also how many did not. -/
def significand : Nat → List UInt8 → Nat × List UInt8
  | n, [] => (n, [])
  | n, d :: ds =>
    if n * 10 + digitValue d < Nat.pow 2 64 then significand (n * 10 + digitValue d) ds else (n, d :: ds)

def maxPower : Nat := 308

/-- A double times a power of ten, in steps that a double can express; none if it grows beyond all
doubles. -/
def scale : Nat → Double → Int → Option Double
  | 0, f, _ => some f
  | steps + 1, f, e =>
    if e.natAbs ≤ maxPower then
      let power := Decimal.toDouble false 1 e.natAbs
      if 0 ≤ e then
        let product := f.mul power
        if product.isFinite then some product else none
      else some (f.div power)
    else if f.isZero then some f
    else if 0 ≤ e then none
    else scale steps (f.div (Decimal.toDouble false 1 maxPower)) (e + maxPower)

def real (negative : Bool) (n : Nat) (e : Int) : Reader Number :=
  match scale 8 (Double.ofNat n) e with
  | some x => return .real (if negative then x.neg else x)
  | none => fail .numberOutOfRange

def maxExponent : Nat := Nat.pow 2 31 - 1

/-- The exponent that the next digits write, or none if it is too large to tell; the digit that
makes it so is taken. -/
def exponentDigits : Nat → Nat → Reader (Option Nat)
  | 0, n => return some n
  | steps + 1, n => do
    match ← peek with
    | none => return some n
    | some d =>
      if isDigit d then
        advance
        if n * 10 + digitValue d ≤ maxExponent then exponentDigits steps (n * 10 + digitValue d)
        else return none
      else return some n

def exponentPart (negative : Bool) (n : Nat) (e : Int) : Reader Number := do
  advance
  let down : Bool := (← peek) = some 45
  if down || (← peek) = some 43 then advance
  match ← next with
  | none => fail .endInValue
  | some d =>
    if !isDigit d then fail .invalidNumber
    match ← exponentDigits (← get).rest.length (digitValue d) with
    | some x => real negative n (if down then e - x else e + x)
    | none =>
      if n ≠ 0 && !down then fail .numberOutOfRange
      let _ ← digits
      return .real (Double.zero negative)

def isExponentMark (b : Option UInt8) : Bool := b = some 101 || b = some 69

/-- A number from its point on, when its digits before the point stand for `n` times a power of
ten. -/
def fractionPart (negative : Bool) (n : Nat) (e : Int) : Reader Number := do
  advance
  let ds ← digits
  if ds.isEmpty then
    match ← peek with
    | some _ => failNext .invalidNumber
    | none => failNext .endInValue
  let (m, dropped) := significand n ds
  let e := e - (ds.length - dropped.length : Nat)
  if isExponentMark (← peek) then exponentPart negative m e else real negative m e

/-- An integer as it is kept: zero with a sign and what 64 bits do not hold become doubles. -/
def integer (negative : Bool) (n : Nat) : Number :=
  if !negative then .natural n
  else if n = 0 || Nat.pow 2 63 < n then .real (Double.ofNat n).neg
  else .negative n

def unsignedNumber (negative : Bool) : Reader Number := do
  match ← next with
  | none => fail .endInValue
  | some d =>
    if !isDigit d then fail .invalidNumber
    if d = 48 then
      match ← peek with
      | some b => if isDigit b then failNext .invalidNumber
      | none => pure ()
    let ds ← if d = 48 then pure [] else digits
    let (n, dropped) := significand (digitValue d) ds
    match ← peek with
    | some 46 => fractionPart negative n dropped.length
    | mark =>
      if isExponentMark mark then exponentPart negative n dropped.length
      else if dropped.isEmpty then return integer negative n
      else real negative n dropped.length

def number : Reader Number := do
  if (← peek) = some 45 then
    advance
    unsignedNumber true
  else unsignedNumber false

def skipNumber : Reader Unit := do
  if (← peek) = some 45 then advance
  match ← next with
  | none => fail .invalidNumber
  | some d =>
    if !isDigit d then fail .invalidNumber
    if d = 48 then
      match ← peek with
      | some b => if isDigit b then failNext .invalidNumber
      | none => pure ()
    else
      let _ ← digits
    if (← peek) = some 46 then
      advance
      if (← digits).isEmpty then failNext .invalidNumber
    if isExponentMark (← peek) then
      advance
      if (← peek) = some 43 || (← peek) = some 45 then advance
      match ← next with
      | none => fail .invalidNumber
      | some e =>
        if !isDigit e then fail .invalidNumber
        let _ ← digits

end Metaobject.Json.Reader
