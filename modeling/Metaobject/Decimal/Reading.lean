import Metaobject.Double

/-!
# Reading decimals

The double nearest to a decimal, and the text forms of a number: digits with at most one point, an
optional exponent, and the names of infinity and of no number in any case.
-/

namespace Metaobject.Decimal

/-- The double nearest to `digits` times a power of ten. Exponents far outside the range of
doubles are settled without computing the power. -/
def toDouble (negative : Bool) (digits : Nat) (exponent : Int) : Double :=
  if digits = 0 then Double.zero negative
  else
    let top := exponent + (Nat.toDigits 10 digits).length
    if 400 < top then Double.infinity negative
    else if top < -400 then Double.zero negative
    else match exponent with
      | .ofNat e => Double.ofRatio negative (digits * Nat.pow 10 e) 1
      | .negSucc e => Double.ofRatio negative digits (Nat.pow 10 (e + 1))

def value (digits : List Char) : Nat :=
  digits.foldl (fun n c => n * 10 + (c.toNat - '0'.toNat)) 0

def asciiLower (c : Char) : Char :=
  if 'A' ≤ c && c ≤ 'Z' then Char.ofNat (c.toNat + 32) else c

def sign : List Char → Bool × List Char
  | '-' :: rest => (true, rest)
  | '+' :: rest => (false, rest)
  | rest => (false, rest)

def exponent? : List Char → Option Int
  | [] => some 0
  | c :: rest =>
    if c = 'e' || c = 'E' then
      let (negative, digits) := sign rest
      if digits.isEmpty || !digits.all Char.isDigit then none
      else some (if negative then -(value digits : Int) else value digits)
    else none

def read? (text : String) : Option Double :=
  let (negative, body) := sign text.toList
  let word := String.ofList (body.map asciiLower)
  if word = "inf" || word = "infinity" then some (Double.infinity negative)
  else if word = "nan" then some (Double.notANumber negative)
  else
    let whole := body.takeWhile Char.isDigit
    let afterWhole := body.dropWhile Char.isDigit
    let (part, rest) := match afterWhole with
      | '.' :: more => (more.takeWhile Char.isDigit, more.dropWhile Char.isDigit)
      | _ => ([], afterWhole)
    if whole.isEmpty && part.isEmpty then none
    else (exponent? rest).map fun e =>
      toDouble negative (value (whole ++ part)) (e - part.length)

end Metaobject.Decimal
