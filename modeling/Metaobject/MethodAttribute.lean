import Metaobject.Symbol

/-!
# Attributes of methods

What a method consists of. Methods keep each attribute in a slot of its own.
-/

namespace Metaobject

inductive MethodAttribute
  | genericFunction
  | lambdaList
  | specializers
  | qualifiers
  | function
  | fastFunction
  | documentation
deriving DecidableEq, Repr

namespace MethodAttribute

def all : List MethodAttribute :=
  [.genericFunction, .lambdaList, .specializers, .qualifiers, .function, .fastFunction,
    .documentation]

def slot : MethodAttribute → Symbol
  | .genericFunction => ⟨"GENERIC-FUNCTION"⟩
  | .lambdaList => ⟨"LAMBDA-LIST"⟩
  | .specializers => ⟨"SPECIALIZERS"⟩
  | .qualifiers => ⟨"QUALIFIERS"⟩
  | .function => ⟨"FUNCTION"⟩
  | .fastFunction => ⟨"FAST-FUNCTION"⟩
  | .documentation => ⟨"DOCUMENTATION"⟩

def slots : List Symbol := all.map slot

end MethodAttribute

end Metaobject
