import Metaobject.Decimal.Reading

/-!
# Shortest decimals

The fewest digits that read back as the same double and, of those, the nearest to it; a rule for
ties is part of each notation. For each
number of digits the two neighbours of the value on that decimal grid are tried: if any point of
the grid reads back, one of them does.
-/

namespace Metaobject.Decimal

structure Scientific where
  digits : Nat
  exponent : Int
deriving DecidableEq, Repr

/-- The largest power of ten not above a ratio below one, counted down; `steps` bounds the search. -/
def leadingBelow (den : Nat) : Nat → Nat → Int → Int
  | 0, _, e => e
  | steps + 1, num, e => if den ≤ num then e else leadingBelow den steps (num * 10) (e - 1)

/-- The exponent of the leading decimal digit of a positive ratio. -/
def leadingDigit (num den : Nat) : Int :=
  if den ≤ num then (Nat.toDigits 10 (num / den)).length - 1
  else leadingBelow den 400 num 0

def unscale (num den : Nat) : Int → Nat × Nat
  | .ofNat e => (num, den * Nat.pow 10 e)
  | .negSucc e => (num * Nat.pow 10 (e + 1), den)

def dropZeros : Nat → Scientific → Scientific
  | 0, s => s
  | steps + 1, s =>
    if s.digits % 10 = 0 then dropZeros steps ⟨s.digits / 10, s.exponent + 1⟩ else s

inductive Tie
  | upward
  | toEven
deriving DecidableEq, Repr

def Tie.prefersLower (tie : Tie) (num den : Nat) : Bool :=
  let twice := 2 * (num % den)
  if twice = den then
    match tie with
    | .upward => false
    | .toEven => num / den % 2 = 0
  else twice < den

/-- The neighbour of a ratio on the grid of a power of ten that reads back as `x`, the preferred
one if both do. -/
def neighbour? (tie : Tie) (x : Double) (num den : Nat) (exponent : Int) : Option Scientific :=
  let (n, d) := unscale num den exponent
  let low := n / d
  let readsBack (digits : Nat) : Bool := toDouble false digits exponent = x
  if readsBack low && (tie.prefersLower n d || !readsBack (low + 1)) then some ⟨low, exponent⟩
  else if readsBack (low + 1) then some ⟨low + 1, exponent⟩
  else none

/-- The first grid, from the given number of digits on, with a neighbour that reads back. -/
def shortestFrom (tie : Tie) (x : Double) (num den : Nat) (leading : Int) : Nat → Nat → Scientific
  | 0, count => ⟨num / den, leading - count⟩
  | steps + 1, count =>
    match neighbour? tie x num den (leading - count + 1) with
    | some s => s
    | none => shortestFrom tie x num den leading steps (count + 1)

/-- Shortest digits of a positive finite double, without trailing zeros. -/
def shortest (tie : Tie) (x : Double) : Scientific :=
  match x.toRatio? with
  | none => ⟨0, 0⟩
  | some (num, den) =>
    if num = 0 then ⟨0, 0⟩
    else dropZeros 400 (shortestFrom tie x num den (leadingDigit num den) 17 1)

end Metaobject.Decimal
