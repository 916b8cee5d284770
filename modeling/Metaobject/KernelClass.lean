import Metaobject.Precedence
import Metaobject.Value

/-!
# Kernel classes

The classes that exist before any definition. Their cells come first in a registry, in the order
given here, in which superclasses come before their subclasses.
-/

namespace Metaobject

inductive KernelClass
  | top
  | standardObject
  | anyClass
  | standardClass
  | builtInClass
  | forwardReferencedClass
  | method
  | standardMethod
  | genericFunction
  | standardGenericFunction
  | eqlSpecializer
  | number
  | integer
  | float
  | string
  | symbol
  | list
  | cons
  | null
  | function
deriving DecidableEq, Repr

namespace KernelClass

def all : List KernelClass :=
  [.top, .standardObject, .anyClass, .standardClass, .builtInClass, .forwardReferencedClass,
    .method, .standardMethod, .genericFunction, .standardGenericFunction, .eqlSpecializer, .number,
    .integer, .float, .string, .symbol, .list, .cons, .null, .function]

def id : KernelClass → ClassId
  | .top => 0
  | .standardObject => 1
  | .anyClass => 2
  | .standardClass => 3
  | .builtInClass => 4
  | .forwardReferencedClass => 5
  | .method => 6
  | .standardMethod => 7
  | .genericFunction => 8
  | .standardGenericFunction => 9
  | .eqlSpecializer => 10
  | .number => 11
  | .integer => 12
  | .float => 13
  | .string => 14
  | .symbol => 15
  | .list => 16
  | .cons => 17
  | .null => 18
  | .function => 19

theorem all_getElem_id (k : KernelClass) : all[k.id]? = some k := by
  cases k <;> rfl

def name : KernelClass → Symbol
  | .top => ⟨"T"⟩
  | .standardObject => ⟨"STANDARD-OBJECT"⟩
  | .anyClass => ⟨"CLASS"⟩
  | .standardClass => ⟨"STANDARD-CLASS"⟩
  | .builtInClass => ⟨"BUILT-IN-CLASS"⟩
  | .forwardReferencedClass => ⟨"FORWARD-REFERENCED-CLASS"⟩
  | .method => ⟨"METHOD"⟩
  | .standardMethod => ⟨"STANDARD-METHOD"⟩
  | .genericFunction => ⟨"GENERIC-FUNCTION"⟩
  | .standardGenericFunction => ⟨"STANDARD-GENERIC-FUNCTION"⟩
  | .eqlSpecializer => ⟨"EQL-SPECIALIZER"⟩
  | .number => ⟨"NUMBER"⟩
  | .integer => ⟨"INTEGER"⟩
  | .float => ⟨"FLOAT"⟩
  | .string => ⟨"STRING"⟩
  | .symbol => ⟨"SYMBOL"⟩
  | .list => ⟨"LIST"⟩
  | .cons => ⟨"CONS"⟩
  | .null => ⟨"NULL"⟩
  | .function => ⟨"FUNCTION"⟩

/-- Classes of values that the runtime makes itself, without slots. -/
def isBuiltIn : KernelClass → Bool
  | .top | .number | .integer | .float | .string | .symbol | .list | .cons | .null
  | .function => true
  | _ => false

def superclasses : KernelClass → List KernelClass
  | .top => []
  | .standardObject | .number | .string | .symbol | .list | .function => [.top]
  | .anyClass | .method | .genericFunction | .eqlSpecializer => [.standardObject]
  | .standardClass | .builtInClass | .forwardReferencedClass => [.anyClass]
  | .standardMethod => [.method]
  | .standardGenericFunction => [.genericFunction]
  | .integer | .float => [.number]
  | .cons => [.list]
  | .null => [.symbol, .list]

/-- The precedence list of a kernel class without the class itself. -/
def ancestors : KernelClass → List KernelClass
  | .top => []
  | .standardObject | .number | .string | .symbol | .list | .function => [.top]
  | .anyClass | .method | .genericFunction | .eqlSpecializer => [.standardObject, .top]
  | .standardClass | .builtInClass | .forwardReferencedClass => [.anyClass, .standardObject, .top]
  | .standardMethod => [.method, .standardObject, .top]
  | .standardGenericFunction => [.genericFunction, .standardObject, .top]
  | .integer | .float => [.number, .top]
  | .cons => [.list, .top]
  | .null => [.symbol, .list, .top]

/-- The lists of the superclasses one after the other, of each class the last occurrence. -/
theorem ancestors_eq_keepLast (k : KernelClass) :
    k.ancestors = Precedence.keepLast (k.superclasses.flatMap fun s => s :: s.ancestors) := by
  cases k <;> decide

end KernelClass

end Metaobject
