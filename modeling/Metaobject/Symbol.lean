/-!
# Symbols

Identifiers of classes, slots, generic functions and types, told apart by their names.
-/

namespace Metaobject

structure Symbol where
  name : String
deriving DecidableEq, Repr, Inhabited

namespace Symbol

/-- Keywords are written with a leading colon and are not empty. -/
def isKeyword (s : Symbol) : Bool :=
  match s.name.toList with
  | ':' :: _ :: _ => true
  | _ => false

def inspect (s : Symbol) : String :=
  "Symbol(" ++ s.name ++ ")"

/-- Order of the names by their octets in UTF-8, which is the order of their code points. -/
def compareNames (a b : Symbol) : Ordering :=
  if a.name < b.name then .lt else if a.name = b.name then .eq else .gt

end Symbol

end Metaobject
