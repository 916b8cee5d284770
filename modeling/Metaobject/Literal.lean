import Metaobject.Json
import Metaobject.Value

/-!
# Literals

Values written in JSON. A JSON string names a symbol, and an object with the one field `string` is
a string. There are no other literal objects.
-/

namespace Metaobject.Literal

mutual

/-- The value of a literal and the next free identity, or the object that is no literal. -/
def read : Json → ObjectId → Except Json (Value × ObjectId)
  | .null, next => .ok (.nil, next)
  | .bool false, next => .ok (.nil, next)
  | .bool true, next => .ok (.symbol ⟨"T"⟩, next)
  | .number n, next =>
    match n.toInt? with
    | some i => .ok (.integer i, next)
    | none => .ok (.float n.toDouble, next)
  | .string name, next => .ok (.symbol ⟨name⟩, next)
  | .array items, next => do
    let (values, next) ← readItems items next
    return (Value.ofItems next values, next + 1)
  | .object [(key, .string text)], next =>
    if key = "string" then .ok (.string next text, next + 1)
    else .error (.object [(key, .string text)])
  | .object fields, _ => .error (.object fields)

def readItems : List Json → ObjectId → Except Json (List Value × ObjectId)
  | [], next => .ok ([], next)
  | j :: rest, next => do
    let (value, next) ← read j next
    let (values, next) ← readItems rest next
    return (value :: values, next)

end

def refusal (j : Json) : String := "unsupported literal object " ++ j.text

end Metaobject.Literal
