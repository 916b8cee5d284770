import Metaobject.Event
import Metaobject.Registry.Definition

/-!
# Events of a registry

What a step of a registry has to tell. The events follow from the registry before the step, and do
not belong to it.
-/

namespace Metaobject.Registry

/-- What is told when the shape of a class is made. A layout that is too large was built as well. -/
def shapeEvents (r : Registry) (limits : Limits) (self : ClassId) (version : Nat)
    (c : StandardClass) : List Event :=
  let label := (Generation.standard c).describe
  match r.linearized limits self label c.superclasses with
  | .error _ => []
  | .ok precedence =>
    match Layout.build c.name c.slots (r.inheritedSlots precedence) with
    | .error _ => []
    | .ok layout =>
      .layoutBuilt c.name layout.length ::
        if limits.maxSlots < layout.length then []
        else [.classFinalized label version layout.length (precedence.length + 1)]

def generationEvents (r : Registry) (c : ClassId) (g : Generation) : List Event :=
  let shape := match g with
    | .standard s => r.shapeEvents r.limits c (r.built c) s
    | _ => []
  match r.finalizedGeneration r.limits c (r.built c) g with
  | .ok _ => shape
  | .error f => shape ++ [.subclassFailed (r.describe c) f]

def refinalizeEvents (r : Registry) (c : ClassId) : List Event :=
  let g := r.generation c
  if g.isSealed then []
  else
    let attempt :=
      if g.superclasses.all r.isFinalized then (r.countGeneration c).generationEvents c g else []
    let next := r.refinalize c
    attempt ++ [.subclassUpdated (next.describe c) (next.isFinalized c)]

def rebuildEvents : List ClassId → Registry → List Event
  | [], _ => []
  | c :: rest, r => r.refinalizeEvents c ++ rebuildEvents rest (r.refinalize c)

def cascadeEvents (r : Registry) (root : ClassId) : List Event :=
  rebuildEvents (r.cascadeOrder root) r

def referenceEvents (r : Registry) (name : Symbol) : List Event :=
  match r.resolveOrPlaceholder name with
  | .ok _ => if r.contains name then [] else [.placeholderMade name]
  | .error _ => []

def declarationEvents (r : Registry) (d : ClassDefinition) : List Event :=
  let (self, c, next) := r.declare d
  let isReady := c.superclasses.all next.isFinalized
  let next := if isReady then next.countGeneration self else next
  let shape := if isReady then next.shapeEvents next.limits self (next.built self) c else []
  let isRedefined := (r.lookup d.name).isSome && (r.generation self).isStandard
  match next.generationFor self isReady c with
  | .error _ => shape
  | .ok g =>
    shape ++ .classDefined d.name (next.built self) isReady isRedefined ::
      (next.redefine self g).cascadeEvents self

def definitionEvents (r : Registry) (d : ClassDefinition) : List Event :=
  match r.checkNames d, Layout.build (some d.name) d.slots [], r.checkDefinition d with
  | .ok (), .ok own, checked =>
    .layoutBuilt (some d.name) own.length ::
      match checked with
      | .error _ => []
      | .ok () =>
        (d.superclasses.filter (fun s => !r.contains s)).map Event.placeholderMade ++
          r.declarationEvents d
  | _, _, _ => []

end Metaobject.Registry
