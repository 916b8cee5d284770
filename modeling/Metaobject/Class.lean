import Metaobject.KernelClass
import Metaobject.Layout

/-!
# Generations of classes

A generation is what a class is at one time. Redefinition puts a new generation into the cell of the
class and never changes one.
-/

namespace Metaobject

inductive Metaclass
  | itself
  | other (c : ClassId)
deriving DecidableEq, Repr

/-- What finalization adds to a class: its superclasses from the most specific one on, and its
layout. -/
structure Shape where
  precedence : List ClassId
  layout : Layout
deriving DecidableEq, Repr

structure StandardClass where
  name : Option Symbol
  metaclass : Metaclass
  superclasses : List ClassId
  slots : List Symbol
  shape : Option Shape
  documentation : Option String
  isSealed : Bool
deriving DecidableEq, Repr

/-- A class of values that the runtime makes itself. -/
structure BuiltInClass where
  name : Symbol
  superclasses : List ClassId
  precedence : List ClassId
deriving DecidableEq, Repr

/-- What a class is: only named so far, defined, the class of methods with its fixed slots, or
built in. -/
inductive Generation
  | forwardReferenced (name : Symbol)
  | standard (c : StandardClass)
  | methodClass (c : StandardClass)
  | builtIn (c : BuiltInClass)
deriving DecidableEq, Repr

/-- How far a class has come: only named, defined with a superclass missing, or complete. -/
inductive ClassState
  | placeholder
  | unfinalized
  | finalized
deriving DecidableEq, Repr

/-- A class or another object in the form in which it is not read back. -/
def printUnreadable (tag : String) : Option Symbol → String
  | some name => "#<" ++ tag ++ " " ++ name.name ++ ">"
  | none => "#<" ++ tag ++ ">"

namespace Generation

def name : Generation → Option Symbol
  | .forwardReferenced name => some name
  | .standard c | .methodClass c => c.name
  | .builtIn c => some c.name

def tag : Generation → Symbol
  | .forwardReferenced _ => KernelClass.forwardReferencedClass.name
  | .standard _ | .methodClass _ => KernelClass.standardClass.name
  | .builtIn _ => KernelClass.builtInClass.name

def metaclass : Generation → Metaclass
  | .forwardReferenced _ => .other KernelClass.forwardReferencedClass.id
  | .standard c | .methodClass c => c.metaclass
  | .builtIn _ => .other KernelClass.builtInClass.id

def superclasses : Generation → List ClassId
  | .forwardReferenced _ => []
  | .standard c | .methodClass c => c.superclasses
  | .builtIn c => c.superclasses

def slots : Generation → List Symbol
  | .forwardReferenced _ | .builtIn _ => []
  | .standard c | .methodClass c => c.slots

/-- The shape of a finalized class. Built-in classes have no slots. -/
def shape : Generation → Option Shape
  | .forwardReferenced _ => none
  | .standard c | .methodClass c => c.shape
  | .builtIn c => some ⟨c.precedence, Layout.empty (some c.name)⟩

def layout (g : Generation) : Option Layout := g.shape.map Shape.layout

def inherited (g : Generation) : List ClassId :=
  match g.shape with
  | some s => s.precedence
  | none => []

def documentation : Generation → Option String
  | .standard c => c.documentation
  | _ => none

def state : Generation → ClassState
  | .forwardReferenced _ => .placeholder
  | g => if g.shape.isSome then .finalized else .unfinalized

/-- Sealed classes cannot be redefined. -/
def isSealed : Generation → Bool
  | .forwardReferenced _ => false
  | .standard c => c.isSealed
  | .methodClass _ | .builtIn _ => true

def isBuiltIn : Generation → Bool
  | .builtIn _ => true
  | _ => false

/-- Whether the class was defined, and is not the class of methods. -/
def isStandard : Generation → Bool
  | .standard _ => true
  | _ => false

def describe (g : Generation) : String := printUnreadable g.tag.name g.name

/-- The definition without its shape. A sealed class keeps it. -/
def unfinalized : Generation → Generation
  | .standard c => if c.isSealed then .standard c else .standard { c with shape := none }
  | g => g

end Generation

end Metaobject
