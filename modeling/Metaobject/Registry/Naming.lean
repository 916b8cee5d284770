import Metaobject.Registry

/-!
# Names of classes

Binding names to classes, and the placeholders for names that are used before they are defined. A
step that fails changes nothing.
-/

namespace Metaobject

def classNameType : String := "(AND SYMBOL (NOT NULL))"

/-- The name of a class is neither empty nor `NIL`. -/
def checkClassName (name : Symbol) : Except Fault Unit :=
  if name.name = "NIL" || name.name = "" then .error (.typeError (.symbol name) classNameType)
  else .ok ()

namespace Registry

def checkNotSealed (r : Registry) (name : Symbol) : Except Fault Unit :=
  match r.lookup name with
  | some c => if r.isSealed c then .error (.sealedClass name) else .ok ()
  | none => .ok ()

def register (r : Registry) (name : Symbol) (c : ClassId) :
    Except Fault (Option ClassId × Registry) := do
  checkClassName name
  r.checkNotSealed name
  return (r.lookup name, r.bind name c)

def remove (r : Registry) (name : Symbol) : Except Fault (Option ClassId × Registry) := do
  r.checkNotSealed name
  return (r.lookup name, { r with bindings := r.bindings.erase name })

def addPlaceholder (r : Registry) (name : Symbol) : ClassId × Registry :=
  let (c, r) := r.addCell (.forwardReferenced name)
  (c, r.bind name c)

/-- The class that a name is bound to, or else a new placeholder. -/
def resolve (r : Registry) (name : Symbol) : ClassId × Registry :=
  match r.lookup name with
  | some c => (c, r)
  | none => r.addPlaceholder name

def resolveOrPlaceholder (r : Registry) (name : Symbol) : Except Fault (ClassId × Registry) := do
  checkClassName name
  return r.resolve name

/-- Put a new placeholder behind a name. A cell that held a placeholder is kept; a defined class
loses the name to a new cell. -/
def installPlaceholder (r : Registry) (name : Symbol) : Except Fault (ClassId × Registry) := do
  checkClassName name
  match r.lookup name with
  | some c =>
    if r.state c = .placeholder then return (c, r.publish c (.forwardReferenced name))
    if r.isSealed c then throw (.sealedClass name)
    return r.addPlaceholder name
  | none => return r.addPlaceholder name

def makeForwardReferencedClass (r : Registry) (name : Value) :
    Except Fault (ClassId × Registry) :=
  match name with
  | .symbol s => r.installPlaceholder s
  | datum => .error (.typeError datum classNameType)

end Registry

end Metaobject
