import Metaobject.Value

/-!
# Faults of the object system
-/

namespace Metaobject

/-- Why a step of the object system failed. Classes and instances are given in their printed form
where the fault is only reported. -/
inductive Fault
  | typeError (datum : Value) (expected : String)
  | notFinalized (label : String)
  | duplicateSlot (slot : Symbol) (owner : Option Symbol)
  | cyclicSuperclass (name superclass : Symbol)
  | inconsistentPrecedence (label : String)
  | sealedClass (name : Symbol)
  | unboundSlot (slot : Symbol) (label : String)
  | missingSlot (slot : Symbol) (label : String)
  | slotIndexOutOfRange (index length : Nat)
  | layoutTooLarge (count limit : Nat)
  | hierarchyTooDeep (label : String) (limit : Nat)
  | incongruentLambdaList (function : Symbol) (expected actual : Nat)
deriving Repr

namespace Fault

/-- The name by which a condition handler tells faults apart. -/
def kind : Fault → String
  | .typeError .. => "type-error"
  | .notFinalized .. => "not-finalized"
  | .duplicateSlot .. => "duplicate-slot"
  | .cyclicSuperclass .. => "cyclic-superclass"
  | .inconsistentPrecedence .. => "inconsistent-precedence"
  | .sealedClass .. => "sealed-class"
  | .unboundSlot .. => "unbound-slot"
  | .missingSlot .. => "missing-slot"
  | .slotIndexOutOfRange .. => "slot-index-out-of-range"
  | .layoutTooLarge .. => "layout-too-large"
  | .hierarchyTooDeep .. => "hierarchy-too-deep"
  | .incongruentLambdaList .. => "incongruent-lambda-list"

def ownerName : Option Symbol → String
  | some name => name.name
  | none => "an anonymous class"

def message (print : Value → String) : Fault → String
  | .typeError datum expected => "type error: " ++ print datum ++ " is not of type " ++ expected
  | .notFinalized label => "class " ++ label ++ " is not finalized"
  | .duplicateSlot slot owner => "duplicate slot " ++ slot.name ++ " in layout of " ++ ownerName owner
  | .cyclicSuperclass name superclass =>
    "class " ++ name.name ++ " cannot inherit from " ++ superclass.name ++
      ": superclass graph would be cyclic"
  | .inconsistentPrecedence label => "inconsistent class precedence list for " ++ label
  | .sealedClass name => "class " ++ name.name ++ " is sealed and cannot be redefined"
  | .unboundSlot slot label => "slot " ++ slot.name ++ " is unbound in " ++ label
  | .missingSlot slot label => label ++ " has no slot named " ++ slot.name
  | .slotIndexOutOfRange index length =>
    s!"slot index {index} out of range for layout of {length} slots"
  | .layoutTooLarge count limit => s!"layout of {count} slots exceeds the limit of {limit}"
  | .hierarchyTooDeep label limit =>
    "class precedence list of " ++ label ++ s!" exceeds the limit of {limit}"
  | .incongruentLambdaList function expected actual =>
    "method for " ++ function.name ++ s!" has {actual} specializers, expected {expected}"

end Fault

end Metaobject
