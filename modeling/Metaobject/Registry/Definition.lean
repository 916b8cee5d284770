import Metaobject.Registry.Finalization
import Metaobject.Registry.Naming

/-!
# Definition and redefinition of classes

A definition is checked before anything changes. Superclasses that are missing become placeholders,
and the class waits until all of them are finalized. Its descendants follow every redefinition.
-/

namespace Metaobject

/-- A class as it is declared. Without superclasses it is a subclass of `STANDARD-OBJECT`. -/
structure ClassDefinition where
  name : Symbol
  superclasses : List Symbol
  slots : List Symbol
  documentation : Option String
deriving DecidableEq, Repr

namespace Registry

/-- The superclasses may not repeat, be built in, or descend from the class. -/
def checkSuperclasses (r : Registry) (name : Symbol) (existing : Option ClassId) :
    List Symbol → List Symbol → Except Fault Unit
  | _, [] => .ok ()
  | seen, super :: rest => do
    if super = name then throw (.cyclicSuperclass name super)
    if super ∈ seen then throw (.inconsistentPrecedence name.name)
    match r.lookup super with
    | none => pure ()
    | some c =>
      if (r.generation c).isBuiltIn && c ≠ KernelClass.top.id then
        throw (.typeError (.classObject c) "(NOT BUILT-IN-CLASS)")
      match existing with
      | some self => if r.isSubclass c self then throw (.cyclicSuperclass name super)
      | none => pure ()
    checkSuperclasses r name existing (super :: seen) rest

/-- The names in a definition have to be names of classes, and its own that of no sealed class. -/
def checkNames (r : Registry) (d : ClassDefinition) : Except Fault Unit := do
  checkClassName d.name
  d.superclasses.forM checkClassName
  r.checkNotSealed d.name

def checkDefinition (r : Registry) (d : ClassDefinition) : Except Fault Unit := do
  r.checkNames d
  discard (Layout.build (some d.name) d.slots [])
  r.checkSuperclasses d.name (r.lookup d.name) [] d.superclasses

/-- The classes of the given names, with placeholders for those that are not bound. -/
def resolveAll (r : Registry) : List Symbol → List ClassId × Registry
  | [] => ([], r)
  | name :: rest =>
    let (c, r) := r.resolve name
    let (cs, r) := resolveAll r rest
    (c :: cs, r)

def declaredSuperclasses (r : Registry) (d : ClassDefinition) : List ClassId × Registry :=
  if d.superclasses.isEmpty then ([KernelClass.standardObject.id], r)
  else r.resolveAll d.superclasses

/-- The cell for a definition: that of the name, or a new one that gets the name. -/
def cellFor (r : Registry) (name : Symbol) (c : StandardClass) : ClassId × Registry :=
  match r.lookup name with
  | some self => (self, r)
  | none =>
    let (self, r) := r.addCell (.standard c)
    (self, r.bind name self)

/-- Put a new generation into a cell and move the subclass links of the class to its new
superclasses. -/
def redefine (r : Registry) (self : ClassId) (g : Generation) : Registry :=
  let old := r.superclasses self
  let r := r.publish self g
  let r := old.foldl (fun r super => r.unlink self super) r
  g.superclasses.foldl (fun r super => r.link self super) r

/-- The cell for a definition, the class that was defined, and the registry with all superclasses. -/
def declare (r : Registry) (d : ClassDefinition) : ClassId × StandardClass × Registry :=
  let (supers, next) := r.declaredSuperclasses d
  let c : StandardClass :=
    ⟨some d.name, .other KernelClass.standardClass.id, supers, d.slots, none, d.documentation, false⟩
  let (self, next) := next.cellFor d.name c
  (self, c, next)

/-- The generation of a class that was defined: finalized if it is ready for that. -/
def generationFor (r : Registry) (self : ClassId) (isReady : Bool) (c : StandardClass) :
    Except Fault Generation :=
  if isReady then (r.finalizedClass r.limits self (r.built self) c).map Generation.standard
  else .ok (.standard c)

/-- Put the class of a definition into its cell. If it cannot be finalized, nothing is published: a
new cell is dropped, and a generation was counted for an old one. -/
def install (r : Registry) (d : ClassDefinition) : Except Fault ClassId × Registry :=
  let (self, c, next) := r.declare d
  let isReady := c.superclasses.all next.isFinalized
  let next := if isReady then next.countGeneration self else next
  match next.generationFor self isReady c with
  | .error f => (.error f, (r.declaredSuperclasses d).2.countGeneration self)
  | .ok g => (.ok self, next.redefine self g)

def define (r : Registry) (d : ClassDefinition) : Except Fault ClassId × Registry :=
  match r.checkDefinition d with
  | .error f => (.error f, r)
  | .ok () =>
    match r.install d with
    | (.error f, next) => (.error f, next)
    | (.ok self, next) => (.ok self, next.cascade self)

end Registry

end Metaobject
