import Metaobject.Image

/-!
# Types of values

The type and the class of a value, and the test whether a value is of a type. Class objects are
tested through their own kind and their metaclass first.
-/

namespace Metaobject

namespace TypeDesignator

/-- A value as a type: symbols name types, and `nil` is a symbol here. -/
def ofValue : Value → Except Fault TypeDesignator
  | .symbol s => .ok (.named s)
  | .nil => .ok (.named ⟨"NIL"⟩)
  | .classObject c => .ok (.ofClass c)
  | datum => .error (.typeError datum "(OR SYMBOL CLASS)")

end TypeDesignator

namespace Registry

/-- Whether the instances of a class are of a type. A name means every class of that name. -/
def hasInstancesOf (r : Registry) (c : ClassId) : TypeDesignator → Bool
  | .named s =>
    if s.name = "T" then true
    else if s.name = "NIL" then false
    else (r.precedenceList c).any (fun a => r.className a = some s)
  | .ofClass target => r.isSubclass c target

/-- Whether a class object is of a type, from one of its generations. -/
def classIsOfType (r : Registry) (self : ClassId) (g : Generation) (type : TypeDesignator) : Bool :=
  let metaclass := metaclassOf self g
  type = .named g.tag || type = .ofClass metaclass || r.hasInstancesOf metaclass type

end Registry

namespace Image

def typeOf (m : Image) : Value → Symbol
  | .nil => KernelClass.null.name
  | .integer _ => KernelClass.integer.name
  | .float _ => KernelClass.float.name
  | .string .. => KernelClass.string.name
  | .symbol _ => KernelClass.symbol.name
  | .list .. => KernelClass.cons.name
  | .function _ => KernelClass.function.name
  | .classObject c => (m.registry.generation c).tag
  | .object i => (m.registry.className (m.object i).owner).getD KernelClass.standardObject.name
  | .generic _ => KernelClass.standardGenericFunction.name
  | .eqlSpecializer _ => KernelClass.eqlSpecializer.name

def classOf (m : Image) : Value → ClassId
  | .nil => KernelClass.null.id
  | .integer _ => KernelClass.integer.id
  | .float _ => KernelClass.float.id
  | .string .. => KernelClass.string.id
  | .symbol _ => KernelClass.symbol.id
  | .list .. => KernelClass.cons.id
  | .function _ => KernelClass.function.id
  | .classObject c => Registry.metaclassOf c (m.registry.generation c)
  | .object i => (m.object i).owner
  | .generic _ => KernelClass.standardGenericFunction.id
  | .eqlSpecializer _ => KernelClass.eqlSpecializer.id

def isOfType (m : Image) (v : Value) (type : TypeDesignator) : Bool :=
  match v with
  | .classObject c => m.registry.classIsOfType c (m.registry.generation c) type
  | v => m.registry.hasInstancesOf (m.classOf v) type

def typep (m : Image) (v type : Value) : Except Fault Bool := do
  return m.isOfType v (← TypeDesignator.ofValue type)

end Image

end Metaobject
