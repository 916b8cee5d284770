import Metaobject.Double
import Metaobject.Symbol

/-!
# Runtime values

Strings, lists and code carry the identity they got when they were made, next to their contents,
which never change. Classes, instances and generic functions change, so a value only names them.
-/

namespace Metaobject

/-- The name of a class cell: its place in the registry, stable across redefinition. -/
abbrev ClassId := Nat

abbrev InstanceId := Nat

abbrev FunctionId := Nat

/-- The identity of an object that never changes. -/
abbrev ObjectId := Nat

/-- Compiled code, which this library stores and compares but does not run. -/
structure Code where
  id : ObjectId
  reference : String
deriving DecidableEq, Repr, Inhabited

/-- A function is its code; the name is only shown. -/
structure Function where
  name : Option Symbol
  code : Code
deriving DecidableEq, Repr, Inhabited

/-- A runtime value. A list has at least one element; the empty list is `nil`. -/
inductive Value
  | nil
  | integer (n : Int)
  | float (x : Double)
  | string (id : ObjectId) (text : String)
  | symbol (s : Symbol)
  | list (id : ObjectId) (items : List Value)
  | function (f : Function)
  | classObject (c : ClassId)
  | object (i : InstanceId)
  | generic (g : FunctionId)
  | eqlSpecializer (datum : Value)
deriving Repr, Inhabited

namespace Value

mutual

/-- Structural equality: strings and lists by their contents, floats by their bits, functions by
their code, everything that can change by name. -/
def equal : Value → Value → Bool
  | .nil, .nil => true
  | .integer a, .integer b => a = b
  | .float a, .float b => a = b
  | .string _ a, .string _ b => a = b
  | .symbol a, .symbol b => a = b
  | .list _ a, .list _ b => equalItems a b
  | .function a, .function b => a.code = b.code
  | .classObject a, .classObject b => a = b
  | .object a, .object b => a = b
  | .generic a, .generic b => a = b
  | .eqlSpecializer a, .eqlSpecializer b => equal a b
  | _, _ => false

def equalItems : List Value → List Value → Bool
  | [], [] => true
  | a :: as, b :: bs => equal a b && equalItems as bs
  | _, _ => false

end

/-- Identity: as structural equality, but strings and lists also have to be the same object. -/
def eql : Value → Value → Bool
  | .string i a, .string j b => i = j && a = b
  | .list i a, .list j b => i = j && equalItems a b
  | .eqlSpecializer a, .eqlSpecializer b => eql a b
  | .string _ _, _ => false
  | .list _ _, _ => false
  | .eqlSpecializer _, _ => false
  | a, b => equal a b

def symbol? : Value → Option Symbol
  | .symbol s => some s
  | _ => none

def string? : Value → Option String
  | .string _ text => some text
  | _ => none

def items? : Value → Option (List Value)
  | .nil => some []
  | .list _ items => some items
  | _ => none

def isNil : Value → Bool
  | .nil => true
  | _ => false

def ofItems (id : ObjectId) : List Value → Value
  | [] => .nil
  | items => .list id items

end Value

inductive Specializer
  | ofClass (c : ClassId)
  | eql (datum : Value)
deriving Repr

namespace Specializer

def toValue : Specializer → Value
  | .ofClass c => .classObject c
  | .eql datum => .eqlSpecializer datum

def ofValue? : Value → Option Specializer
  | .classObject c => some (.ofClass c)
  | .eqlSpecializer datum => some (.eql datum)
  | _ => none

def same : Specializer → Specializer → Bool
  | .ofClass a, .ofClass b => a = b
  | .eql a, .eql b => a.eql b
  | _, _ => false

end Specializer

inductive TypeDesignator
  | named (s : Symbol)
  | ofClass (c : ClassId)
deriving DecidableEq, Repr

end Metaobject
