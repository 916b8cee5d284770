import Metaobject.Json.Scalar

/-!
# Values, lists and objects

Reading of brackets, separators and keys, of any value, and of values that are skipped. Only values
that are kept count towards the nesting limit.
-/

namespace Metaobject.Json.Reader

def openBracket : Reader Unit := do
  let c ← get
  if c.depth ≤ 1 then
    set { c with depth := c.depth - 1 }
    failNext .tooDeep
  else
    set { c.step with depth := c.depth - 1 }

def restoreDepth : Reader Unit := modify fun c => { c with depth := c.depth + 1 }

def closeList : Reader Unit := do
  restoreDepth
  match ← peekToken with
  | some 93 => advance
  | some 44 =>
    advance
    match ← peekToken with
    | some 93 => failNext .trailingComma
    | _ => failNext .trailingCharacters
  | some _ => failNext .trailingCharacters
  | none => failNext .endInList

def closeObject : Reader Unit := do
  restoreDepth
  match ← peekToken with
  | some 125 => advance
  | some 44 => failNext .trailingComma
  | some _ => failNext .trailingCharacters
  | none => failNext .endInObject

/-- Whether a list has another element, which then comes next. -/
def hasElement (first : Bool) : Reader Bool := do
  match ← peekToken with
  | none => failNext .endInList
  | some b =>
    if b = 93 then return false
    else if first then return true
    else if b = 44 then
      advance
      match ← peekToken with
      | some 93 => failNext .trailingComma
      | some _ => return true
      | none => failNext .endInValue
    else failNext .expectedCommaOrBracket

def hasField (first : Bool) : Reader Bool := do
  match ← peekToken with
  | none => failNext .endInObject
  | some b =>
    if b = 125 then return false
    else if first then
      if b = 34 then return true else failNext .expectedKey
    else if b = 44 then
      advance
      match ← peekToken with
      | some 34 => return true
      | some 125 => failNext .trailingComma
      | some _ => failNext .expectedKey
      | none => failNext .endInValue
    else failNext .expectedCommaOrBrace

def key : Reader String := do
  advance
  stringBody

def colon : Reader Unit := do
  match ← peekToken with
  | some 58 => advance
  | some _ => failNext .expectedColon
  | none => failNext .endInObject

/-- The elements of an open list, latest first; `steps` bounds their number. -/
def elements {α : Type} (item : Reader α) : Nat → Bool → List α → Reader (List α)
  | 0, _, seen => return seen
  | steps + 1, first, seen => do
    if ← hasElement first then elements item steps false ((← item) :: seen) else return seen

/-- The fields of an open object, latest first; `steps` bounds their number. -/
def fields {α : Type} (item : Reader α) :
    Nat → Bool → List (String × α) → Reader (List (String × α))
  | 0, _, seen => return seen
  | steps + 1, first, seen => do
    if ← hasField first then
      let k ← key
      colon
      fields item steps false ((k, ← item) :: seen)
    else return seen

def remaining : Reader Nat := do
  return (← get).rest.length + 1

def list {α : Type} (item : Reader α) : Reader (List α) := do
  openBracket
  closedBy (do return (← elements item (← remaining) true []).reverse) closeList

def object {α : Type} (item : Reader α) : Reader (List (String × α)) := do
  openBracket
  closedBy (do return (← fields item (← remaining) true []).reverse) closeObject

/-- Any value as it is written; `depth` bounds the nesting. -/
def writtenWithin : Nat → Reader Json
  | 0 => failNext .tooDeep
  | depth + 1 => do
    match ← peekToken with
    | none => failNext .endInValue
    | some b =>
      if b = 110 then
        word [110, 117, 108, 108]
        return .null
      else if b = 116 then
        word [116, 114, 117, 101]
        return .bool true
      else if b = 102 then
        word [102, 97, 108, 115, 101]
        return .bool false
      else if b = 45 || isDigit b then return .number (← number)
      else if b = 34 then
        advance
        return .string (← stringBody)
      else if b = 91 then return .array (← list (writtenWithin depth))
      else if b = 123 then return .object (← object (writtenWithin depth))
      else failNext .expectedValue

def written : Reader Json := writtenWithin (depthLimit + 1)

def json : Reader Json := do
  return (← written).canonical

inductive Enclosing
  | list
  | object
deriving DecidableEq, Repr

/-- A scalar whose value does not matter, or an opening bracket. -/
def skipToken : Reader (Option Enclosing) := do
  match ← peekToken with
  | none => failNext .endInValue
  | some b =>
    if b = 110 then
      word [110, 117, 108, 108]
      return none
    else if b = 116 then
      word [116, 114, 117, 101]
      return none
    else if b = 102 then
      word [102, 97, 108, 115, 101]
      return none
    else if b = 45 || isDigit b then
      skipNumber
      return none
    else if b = 34 then
      advance
      skipString (← remaining)
      return none
    else if b = 91 then
      advance
      return some .list
    else if b = 123 then
      advance
      return some .object
    else failNext .expectedValue

/-- From the end of a value, or from an opening bracket, to where the next value starts. Returns
the open brackets, innermost first; none are left at the end of the outermost value. -/
def skipSeparators : Nat → Bool → List Enclosing → Reader (List Enclosing)
  | 0, _, _ => return []
  | _, _, [] => return []
  | steps + 1, afterValue, inner :: outer => do
    match inner, ← peekToken with
    | .list, none => failNext .endInList
    | .object, none => failNext .endInObject
    | _, some 44 =>
      if afterValue then
        advance
        return inner :: outer
      else return inner :: outer
    | .list, some 93 =>
      advance
      skipSeparators steps true outer
    | .object, some 125 =>
      advance
      skipSeparators steps true outer
    | .list, some _ =>
      if afterValue then failNext .expectedCommaOrBracket else return inner :: outer
    | .object, some _ =>
      if afterValue then failNext .expectedCommaOrBrace else return inner :: outer

def skipKey : Reader Unit := do
  match ← peekToken with
  | some 34 =>
    advance
    skipString (← remaining)
    colon
  | some _ => failNext .expectedKey
  | none => failNext .endInObject

/-- A value that does not matter, inside the given brackets; `steps` bounds its tokens. -/
def skipWithin : Nat → List Enclosing → Reader Unit
  | 0, _ => return
  | steps + 1, enclosing => do
    let opened ← skipToken
    let rest ← match opened with
      | some e => skipSeparators (steps + 1) false (e :: enclosing)
      | none => skipSeparators (steps + 1) true enclosing
    match rest with
    | [] => return
    | inner :: _ =>
      if inner = .object then skipKey
      skipWithin steps rest

def skip : Reader Unit := do
  skipWithin (← remaining) []

end Metaobject.Json.Reader
