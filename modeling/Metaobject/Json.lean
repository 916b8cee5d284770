import Metaobject.Decimal.Notation
import Metaobject.Text.Hidden
import Metaobject.Text.Quoted

/-!
# JSON values

A value as it was written keeps the fields of an object in their order, repeated keys included.
The canonical form sorts the fields by key and keeps the last value of a repeated key.
-/

namespace Metaobject

namespace Json

/-- A number: a natural below 2^64, a negative integer down to -2^63, or any other as a double. -/
inductive Number
  | natural (n : Nat)
  | negative (n : Nat)
  | real (x : Double)
deriving DecidableEq, Repr, Inhabited

def Number.toInt? : Number → Option Int
  | .natural n => if n < Nat.pow 2 63 then some n else none
  | .negative n => some (-n)
  | .real _ => none

def Number.toDouble : Number → Double
  | .natural n => Double.ofNat n
  | .negative n => (Double.ofNat n).neg
  | .real x => x

def Number.text : Number → String
  | .natural n => toString n
  | .negative n => "-" ++ toString n
  | .real x => x.json

end Json

inductive Json
  | null
  | bool (b : Bool)
  | number (n : Json.Number)
  | string (s : String)
  | array (items : List Json)
  | object (fields : List (String × Json))
deriving Repr, Inhabited

namespace Json

/-- Fields of an object after one more field: sorted by key, the last value of a key. -/
def insertField (key : String) (value : Json) : List (String × Json) → List (String × Json)
  | [] => [(key, value)]
  | (k, v) :: rest =>
    if k = key then (key, value) :: rest
    else if key < k then (key, value) :: (k, v) :: rest
    else (k, v) :: insertField key value rest

mutual

/-- The value with the fields of all its objects sorted and without repetitions. -/
def canonical : Json → Json
  | .array items => .array (canonicalItems items)
  | .object fields => .object (canonicalFields fields [])
  | j => j

def canonicalItems : List Json → List Json
  | [] => []
  | j :: rest => canonical j :: canonicalItems rest

def canonicalFields : List (String × Json) → List (String × Json) → List (String × Json)
  | [], sorted => sorted
  | (k, v) :: rest, sorted => canonicalFields rest (insertField k (canonical v) sorted)

end

def escapedChar (c : Char) : String :=
  if c = '"' then "\\\""
  else if c = '\\' then "\\\\"
  else if c = '\x08' then "\\b"
  else if c = '\x0c' then "\\f"
  else if c = '\n' then "\\n"
  else if c = '\r' then "\\r"
  else if c = '\t' then "\\t"
  else if c.toNat < 0x10 then "\\u000" ++ Text.hex c.toNat
  else if c.toNat < 0x20 then "\\u00" ++ Text.hex c.toNat
  else c.toString

def quotedString (s : String) : String :=
  "\"" ++ String.join (s.toList.map escapedChar) ++ "\""

mutual

def text : Json → String
  | .null => "null"
  | .bool true => "true"
  | .bool false => "false"
  | .number n => n.text
  | .string s => quotedString s
  | .array items => "[" ++ ",".intercalate (itemTexts items) ++ "]"
  | .object fields => "\x7b" ++ ",".intercalate (fieldTexts fields) ++ "\x7d"

def itemTexts : List Json → List String
  | [] => []
  | j :: rest => text j :: itemTexts rest

def fieldTexts : List (String × Json) → List String
  | [] => []
  | (k, v) :: rest => (quotedString k ++ ":" ++ text v) :: fieldTexts rest

end

def field? (j : Json) (key : String) : Option Json :=
  match j with
  | .object fields => (fields.find? (fun f => f.1 = key)).map Prod.snd
  | _ => none

def string? : Json → Option String
  | .string s => some s
  | _ => none

def nat (n : Nat) : Json := .number (.natural n)

def orNull {α : Type} (f : α → Json) : Option α → Json
  | some a => f a
  | none => .null

end Json

end Metaobject
