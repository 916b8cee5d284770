import Metaobject.Decimal.Shortest

/-!
# Number texts

The positional and the exponential text of a decimal, and the two conventions in which doubles are
written: as runtime values, and as numbers of a JSON text.
-/

namespace Metaobject

namespace Decimal

def zeros (n : Nat) : String :=
  String.ofList (List.replicate n '0')

def positional (s : Scientific) : String :=
  let digits := Nat.toDigits 10 s.digits
  match s.exponent with
  | .ofNat e => String.ofList digits ++ zeros e
  | .negSucc e =>
    let places := e + 1
    if places < digits.length then
      String.ofList (digits.take (digits.length - places)) ++ "." ++
        String.ofList (digits.drop (digits.length - places))
    else "0." ++ zeros (places - digits.length) ++ String.ofList digits

def exponential (s : Scientific) : String :=
  let digits := Nat.toDigits 10 s.digits
  let exponent := s.exponent + (digits.length - 1 : Nat)
  let head := String.ofList (digits.take 1)
  let tail := if digits.length ≤ 1 then "" else "." ++ String.ofList (digits.drop 1)
  let mark := if exponent < 0 then "e-" else "e+"
  head ++ tail ++ mark ++ toString exponent.natAbs

def withSign (negative : Bool) (text : String) : String :=
  if negative then "-" ++ text else text

end Decimal

namespace Double

open Decimal

/-- Printed form of a runtime value: never an exponent, an integral number with one decimal and
all its digits, any other with the shortest digits that read back. -/
def print (x : Double) : String :=
  match x.magnitude with
  | .notANumber => "NaN"
  | .infinite => withSign x.isNegative "inf"
  | .finite m e =>
    let (num, den) := ratio m e
    let text :=
      if num % den = 0 then toString (num / den) ++ ".0"
      else positional (shortest .upward (ofParts false x.lowBits))
    withSign x.isNegative text

/-- Exponents of the leading digit for which a JSON number is written without an exponent. -/
def positionalRange : Int × Int := (-5, 15)

/-- Number text in JSON: shortest digits that read back, positional for moderate exponents. -/
def json (x : Double) : String :=
  match x.magnitude with
  | .finite m _ =>
    let text :=
      if m = 0 then "0.0"
      else
        let s := shortest .toEven (ofParts false x.lowBits)
        let leading := s.exponent + ((Nat.toDigits 10 s.digits).length - 1 : Nat)
        if positionalRange.1 ≤ leading && leading ≤ positionalRange.2 then
          if 0 ≤ s.exponent then positional s ++ ".0" else positional s
        else exponential s
    withSign x.isNegative text
  | _ => "null"

end Double

end Metaobject
