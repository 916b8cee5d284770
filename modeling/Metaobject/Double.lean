/-!
# Double-precision numbers

A double is its 64 bits, so that two of them are the same value exactly when they are equal.
Arithmetic is exact on ratios of naturals and rounds once, to the nearest double, ties to even.
-/

namespace Metaobject

/-- A binary64 number, told apart by its bits. -/
structure Double where
  bits : UInt64
deriving DecidableEq, Repr, Inhabited

/-- What the bits below the sign stand for. -/
inductive Magnitude
  | finite (mantissa : Nat) (exponent : Int)
  | infinite
  | notANumber
deriving DecidableEq, Repr

namespace Double

def signBit : Nat := Nat.pow 2 63

def fractionUnit : Nat := Nat.pow 2 52

def infinityBits : Nat := 0x7FF0000000000000

def ofParts (negative : Bool) (low : Nat) : Double :=
  ⟨UInt64.ofNat (if negative then signBit + low else low)⟩

def isNegative (x : Double) : Bool :=
  signBit ≤ x.bits.toNat

def lowBits (x : Double) : Nat :=
  x.bits.toNat % signBit

def magnitude (x : Double) : Magnitude :=
  let biased : Nat := x.lowBits / fractionUnit
  let fraction := x.lowBits % fractionUnit
  if biased = 2047 then if fraction = 0 then .infinite else .notANumber
  else if biased = 0 then .finite fraction (-1074)
  else .finite (fractionUnit + fraction) ((biased : Int) - 1075)

def zero (negative : Bool) : Double := ofParts negative 0

def infinity (negative : Bool) : Double := ofParts negative infinityBits

def notANumber (negative : Bool) : Double := ofParts negative 0x7FF8000000000000

def ratio (mantissa : Nat) (exponent : Int) : Nat × Nat :=
  match exponent with
  | .ofNat e => (mantissa * Nat.pow 2 e, 1)
  | .negSucc e => (mantissa, Nat.pow 2 (e + 1))

/-- The quotient of two naturals rounded to the nearest one, ties to even. -/
def roundDiv (num den : Nat) : Nat :=
  let quotient := num / den
  let twice := 2 * (num % den)
  if twice < den then quotient
  else if den < twice then quotient + 1
  else quotient + quotient % 2

def leadingBit (num den : Nat) : Int :=
  let guess : Int := (num.log2 : Int) - den.log2
  let reached : Bool := match guess with
    | .ofNat e => den * Nat.pow 2 e ≤ num
    | .negSucc e => den ≤ num * Nat.pow 2 (e + 1)
  if reached then guess else guess - 1

/-- The double nearest to a ratio. The mantissa with its leading bit is added onto the exponent
field, so that a mantissa rounded up to the next power of two carries into the exponent. -/
def ofRatio (negative : Bool) (num den : Nat) : Double :=
  if num = 0 || den = 0 then zero negative
  else
    let exponent : Int := max (leadingBit num den - 52) (-1074)
    let mantissa := match exponent with
      | .ofNat e => roundDiv num (den * Nat.pow 2 e)
      | .negSucc e => roundDiv (num * Nat.pow 2 (e + 1)) den
    let low := (exponent + 1074).toNat * fractionUnit + mantissa
    ofParts negative (min low infinityBits)

def ofNat (n : Nat) : Double := ofRatio false n 1

def neg (x : Double) : Double := ofParts (!x.isNegative) x.lowBits

def isFinite (x : Double) : Bool :=
  match x.magnitude with
  | .finite _ _ => true
  | _ => false

def toRatio? (x : Double) : Option (Nat × Nat) :=
  match x.magnitude with
  | .finite m e => some (ratio m e)
  | _ => none

def mul (x y : Double) : Double :=
  match x.toRatio?, y.toRatio? with
  | some (a, b), some (c, d) => ofRatio (x.isNegative != y.isNegative) (a * c) (b * d)
  | _, _ => notANumber false

def div (x y : Double) : Double :=
  match x.toRatio?, y.toRatio? with
  | some (a, b), some (c, d) => ofRatio (x.isNegative != y.isNegative) (a * d) (b * c)
  | _, _ => notANumber false

def isZero (x : Double) : Bool := x.lowBits = 0

def isIntegral (x : Double) : Bool :=
  match x.toRatio? with
  | some (num, den) => num % den = 0
  | none => false

end Double

end Metaobject
