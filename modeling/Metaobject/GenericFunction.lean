import Metaobject.Value

/-!
# Generic functions

A generic function is a name, a parameter list and the methods that were added. Which method a call
runs is not decided here.
-/

namespace Metaobject

/-- A generic function with its methods, in the order in which they were added. -/
structure GenericFunction where
  name : Symbol
  lambdaList : List Symbol
  documentation : Option String
  methods : List InstanceId
deriving Repr

/-- How many parameters come before the first lambda list keyword. -/
def requiredCount (lambdaList : List Symbol) : Nat :=
  (lambdaList.takeWhile (fun s => s.name.toList.head? ≠ some '&')).length

namespace GenericFunction

def required (g : GenericFunction) : Nat := requiredCount g.lambdaList

def describe (g : GenericFunction) : String := "#<STANDARD-GENERIC-FUNCTION " ++ g.name.name ++ ">"

end GenericFunction

end Metaobject
