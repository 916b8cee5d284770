import Metaobject.Json

/-!
# Reading positions and faults

A cursor walks over the octets of a text and knows the line and the column it has reached. A fault
is placed either where the cursor stands, or one octet further, at the octet that was looked at but
not taken. Faults about what a text says, not how it is written, start without a place and get
the one where the enclosing value ends.
-/

namespace Metaobject.Json

/-- Lines count from one; a column is the number of octets of the line that were read. -/
structure Position where
  line : Nat
  column : Nat
deriving DecidableEq, Repr

def Position.after (p : Position) (b : UInt8) : Position :=
  if b = 10 then ⟨p.line + 1, 0⟩ else ⟨p.line, p.column + 1⟩

inductive Found
  | null
  | boolean (b : Bool)
  | number (n : Number)
  | string (s : String)
  | sequence
  | map
deriving DecidableEq, Repr

def Found.describe : Found → String
  | .null => "null"
  | .boolean b => "boolean `" ++ toString b ++ "`"
  | .number (.real x) => "floating point `" ++ x.json ++ "`"
  | .number n => "integer `" ++ n.text ++ "`"
  | .string s => "string " ++ Text.quoted s
  | .sequence => "sequence"
  | .map => "map"

inductive Problem
  | endInString
  | endInValue
  | endInList
  | endInObject
  | expectedValue
  | expectedWord
  | expectedColon
  | expectedCommaOrBracket
  | expectedCommaOrBrace
  | expectedKey
  | trailingComma
  | trailingCharacters
  | invalidEscape
  | invalidNumber
  | numberOutOfRange
  | controlCharacter
  | loneHighSurrogate
  | loneSurrogate
  | tooDeep
  | wrongType (found : Found) (expected : String)
  | wrongValue (found : Found) (expected : String)
  | wrongLength (length : Nat) (expected : String)
  | unknownField (name : String) (known : List String)
  | duplicateField (name : String)
  | missingField (name : String)
  | noVariant (union : String)
deriving DecidableEq, Repr

def ticked (name : String) : String := "`" ++ name ++ "`"

def alternatives : List String → String
  | [] => "there are no fields"
  | [a] => "expected " ++ ticked a
  | [a, b] => "expected " ++ ticked a ++ " or " ++ ticked b
  | names => "expected one of " ++ ", ".intercalate (names.map ticked)

def Problem.message : Problem → String
  | .endInString => "EOF while parsing a string"
  | .endInValue => "EOF while parsing a value"
  | .endInList => "EOF while parsing a list"
  | .endInObject => "EOF while parsing an object"
  | .expectedValue => "expected value"
  | .expectedWord => "expected ident"
  | .expectedColon => "expected `:`"
  | .expectedCommaOrBracket => "expected `,` or `]`"
  | .expectedCommaOrBrace => "expected `,` or `\x7d`"
  | .expectedKey => "key must be a string"
  | .trailingComma => "trailing comma"
  | .trailingCharacters => "trailing characters"
  | .invalidEscape => "invalid escape"
  | .invalidNumber => "invalid number"
  | .numberOutOfRange => "number out of range"
  | .controlCharacter => "control character (\\u0000-\\u001F) found while parsing a string"
  | .loneHighSurrogate => "unexpected end of hex escape"
  | .loneSurrogate => "lone leading surrogate in hex escape"
  | .tooDeep => "recursion limit exceeded"
  | .wrongType found expected => "invalid type: " ++ found.describe ++ ", expected " ++ expected
  | .wrongValue found expected => "invalid value: " ++ found.describe ++ ", expected " ++ expected
  | .wrongLength n expected => "invalid length " ++ toString n ++ ", expected " ++ expected
  | .unknownField name known => "unknown field " ++ ticked name ++ ", " ++ alternatives known
  | .duplicateField name => "duplicate field " ++ ticked name
  | .missingField name => "missing field " ++ ticked name
  | .noVariant union => "data did not match any variant of untagged enum " ++ union

structure Fault where
  problem : Problem
  place : Option Position
deriving DecidableEq, Repr

def Fault.message (f : Fault) : String :=
  match f.place with
  | some p => f.problem.message ++ s!" at line {p.line} column {p.column}"
  | none => f.problem.message

/-- A reading position: what is left of the text, and how many brackets may still be opened, one
of them too many. -/
structure Cursor where
  position : Position
  rest : List UInt8
  depth : Nat
deriving Repr

def depthLimit : Nat := 128

def Cursor.start (octets : List UInt8) : Cursor := ⟨⟨1, 0⟩, octets, depthLimit⟩

def Cursor.step (c : Cursor) : Cursor :=
  match c.rest with
  | [] => c
  | b :: rest => { c with position := c.position.after b, rest }

def Cursor.steps : Nat → Cursor → Cursor
  | 0, c => c
  | n + 1, c => Cursor.steps n c.step

def isBlank (b : UInt8) : Bool := b = 32 || b = 10 || b = 13 || b = 9

def skipBlanks (p : Position) : List UInt8 → Position × List UInt8
  | [] => (p, [])
  | b :: rest => if isBlank b then skipBlanks (p.after b) rest else (p, b :: rest)

/-- A reading step. Where it fails, the cursor still tells how far it got. -/
abbrev Reader := ExceptT Fault (StateM Cursor)

namespace Reader

def peek : Reader (Option UInt8) := do
  return (← get).rest.head?

def advance : Reader Unit := modify Cursor.step

def next : Reader (Option UInt8) := do
  let b ← peek
  advance
  return b

def peekToken : Reader (Option UInt8) := do
  modify fun c =>
    let (position, rest) := skipBlanks c.position c.rest
    { c with position, rest }
  peek

def fail {α : Type} (problem : Problem) : Reader α := do
  throw ⟨problem, some (← get).position⟩

def failNext {α : Type} (problem : Problem) : Reader α := do
  throw ⟨problem, some (← get).step.position⟩

def failUnplaced {α : Type} (problem : Problem) : Reader α :=
  throw ⟨problem, none⟩

/-- Place a fault that has no place where the cursor stands. -/
def placed {α : Type} (r : Reader α) : Reader α :=
  ExceptT.mk fun c =>
    match r.run.run c with
    | (.error ⟨problem, none⟩, c) => (.error ⟨problem, some c.position⟩, c)
    | answer => answer

/-- Read a body and then its end, also if the body failed: its fault wins, but the cursor moves
on. -/
def closedBy {α : Type} (body : Reader α) (close : Reader Unit) : Reader α :=
  ExceptT.mk fun c =>
    match body.run.run c with
    | (.error f, c) => (.error f, (close.run.run c).2)
    | (.ok a, c) =>
      match close.run.run c with
      | (.ok (), c) => (.ok a, c)
      | (.error f, c) => (.error f, c)

def runOn {α : Type} (r : Reader α) (text : List UInt8) : Except Fault α :=
  let whole : Reader α := do
    let a ← r
    match ← peekToken with
    | some _ => failNext .trailingCharacters
    | none => return a
  (whole.run.run (Cursor.start text)).1

end Reader

end Metaobject.Json
