import Metaobject.Json.Reading

/-!
# Typed values

Readers for values of a known type. A record is read from an object with its fields in any order, or
from a list with its fields in the order of their declaration.
-/

namespace Metaobject.Json.Reader

/-- Refuse the value that comes next, which is not of the expected type. -/
def refuse {α : Type} (expected : String) : Reader α := do
  match ← peek with
  | none => failNext .endInValue
  | some b =>
    if b = 110 then
      word [110, 117, 108, 108]
      fail (.wrongType .null expected)
    else if b = 116 then
      word [116, 114, 117, 101]
      fail (.wrongType (.boolean true) expected)
    else if b = 102 then
      word [102, 97, 108, 115, 101]
      fail (.wrongType (.boolean false) expected)
    else if b = 45 || isDigit b then
      let n ← number
      fail (.wrongType (.number n) expected)
    else if b = 34 then
      advance
      let s ← stringBody
      fail (.wrongType (.string s) expected)
    else if b = 91 then fail (.wrongType .sequence expected)
    else if b = 123 then fail (.wrongType .map expected)
    else failNext .expectedValue

def valueStart : Reader UInt8 := do
  match ← peekToken with
  | some b => return b
  | none => failNext .endInValue

def string : Reader String := do
  if (← valueStart) = 34 then
    advance
    stringBody
  else refuse "a string"

def boolean : Reader Bool := do
  let b ← valueStart
  if b = 116 then
    word [116, 114, 117, 101]
    return true
  else if b = 102 then
    word [102, 97, 108, 115, 101]
    return false
  else refuse "a boolean"

def natural : Reader Nat := do
  let b ← valueStart
  if b = 45 || isDigit b then
    match ← number with
    | .natural n => return n
    | .negative n => fail (.wrongValue (.number (.negative n)) "usize")
    | n => fail (.wrongType (.number n) "usize")
  else refuse "usize"

def optional {α : Type} (item : Reader α) : Reader (Option α) := do
  if (← peekToken) = some 110 then
    word [110, 117, 108, 108]
    return none
  else return some (← item)

def listOf {α : Type} (item : Reader α) : Reader (List α) := do
  if (← valueStart) = 91 then placed (list item) else refuse "a sequence"

def mapOf {α : Type} (item : Reader α) : Reader (List (String × α)) := do
  if (← valueStart) = 123 then placed (object item) else refuse "a map"

/-- A field of a record that is read into a draft `δ`. -/
structure Field (δ : Type) where
  name : String
  required : Bool
  isSet : δ → Bool
  read : δ → Reader δ

/-- A field that is kept in an optional part of the draft until it is read. -/
def Field.of {δ α : Type} (name : String) (required : Bool) (part : δ → Option α)
    (put : δ → α → δ) (item : Reader α) : Field δ :=
  ⟨name, required, fun d => (part d).isSome, fun d => return put d (← item)⟩

structure RecordType (δ : Type) where
  name : String
  fields : List (Field δ)
  draft : δ
  skipsUnknown : Bool

namespace RecordType

variable {δ : Type}

/-- Read the fields of an open object into a draft; `steps` bounds their number. -/
def readFields (type : RecordType δ) : Nat → Bool → δ → Reader δ
  | 0, _, draft => return draft
  | steps + 1, first, draft => do
    if ← hasField first then
      let k ← key
      match type.fields.find? (fun f => f.name = k) with
      | some f =>
        if f.isSet draft then failUnplaced (.duplicateField k)
        colon
        readFields type steps false (← f.read draft)
      | none =>
        if type.skipsUnknown then
          colon
          skip
          readFields type steps false draft
        else failUnplaced (.unknownField k (type.fields.map Field.name))
    else
      match type.fields.find? (fun f => f.required && !f.isSet draft) with
      | some f => failUnplaced (.missingField f.name)
      | none => return draft

def sized (type : RecordType δ) : String :=
  let n := type.fields.length
  s!"struct {type.name} with {n} element" ++ (if n = 1 then "" else "s")

/-- Read the elements of an open list into a draft, one for each field. -/
def readElements (type : RecordType δ) : Nat → List (Field δ) → δ → Reader δ
  | _, [], draft => return draft
  | index, f :: rest, draft => do
    if ← hasElement (index = 0) then readElements type (index + 1) rest (← f.read draft)
    else
      match (f :: rest).findIdx? Field.required with
      | some i => failUnplaced (.wrongLength (index + i) type.sized)
      | none => return draft

end RecordType

/-- A record, as the draft in which all required fields are set. -/
def record {δ : Type} (type : RecordType δ) : Reader δ := do
  let b ← valueStart
  if b = 91 then
    placed do
      openBracket
      closedBy (type.readElements 0 type.fields type.draft) closeList
  else if b = 123 then
    placed do
      openBracket
      closedBy (do type.readFields (← remaining) true type.draft) closeObject
  else refuse ("struct " ++ type.name)

def decode {α : Type} (r : Reader α) (text : String) : Except Fault α :=
  r.runOn (Text.Utf8.encode text)

end Metaobject.Json.Reader
