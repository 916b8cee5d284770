import Metaobject.Registry

/-!
# Finalization

The shape of a class follows from the current generations of its superclasses: its precedence list
merges theirs, and its layout collects the slots along it, from the most general class on.
-/

namespace Metaobject

/-- Slots after a more specific class declared its own: a slot that was there moves to the end. -/
def declareSlots (inherited own : List Symbol) : List Symbol :=
  own.foldl (fun slots s => slots.erase s ++ [s]) inherited

namespace Registry

def inheritedSlots (r : Registry) (precedence : List ClassId) : List Symbol :=
  precedence.reverse.foldl (fun slots c => declareSlots slots (r.slots c)) []

def linearized (r : Registry) (limits : Limits) (self : ClassId) (label : String)
    (supers : List ClassId) : Except Fault (List ClassId) :=
  match Precedence.linearize limits.maxPrecedenceDepth self (supers.map r.precedenceList) supers with
  | .ok list => .ok list.tail
  | .error .inconsistent => .error (.inconsistentPrecedence label)
  | .error .tooDeep => .error (.hierarchyTooDeep label limits.maxPrecedenceDepth)

def shapeOf (r : Registry) (limits : Limits) (self : ClassId) (version : Nat) (c : StandardClass) :
    Except Fault Shape := do
  match c.superclasses.find? (fun s => !r.isFinalized s) with
  | some pending => throw (.notFinalized (r.describe pending))
  | none => pure ()
  let precedence ← r.linearized limits self (Generation.standard c).describe c.superclasses
  let layout ← Layout.build c.name c.slots (r.inheritedSlots precedence)
  if limits.maxSlots < layout.length then
    throw (.layoutTooLarge layout.length limits.maxSlots)
  return ⟨precedence, layout.withVersion version⟩

def finalizedClass (r : Registry) (limits : Limits) (self : ClassId) (version : Nat)
    (c : StandardClass) : Except Fault StandardClass := do
  return { c with shape := some (← r.shapeOf limits self version c) }

/-- The finalized generation of a class. Sealed classes stay what they are. -/
def finalizedGeneration (r : Registry) (limits : Limits) (self : ClassId) (version : Nat)
    (g : Generation) : Except Fault Generation :=
  match g with
  | .forwardReferenced _ => .error (.notFinalized g.describe)
  | .standard c =>
    if c.isSealed then .ok g
    else (r.finalizedClass limits self version c).map Generation.standard
  | .methodClass _ | .builtIn _ => .ok g

/-- Build a class again after one of its superclasses changed. While a superclass is not finalized,
or if there is no shape, the class loses its shape. -/
def refinalize (r : Registry) (c : ClassId) : Registry :=
  let g := r.generation c
  if g.isSealed then r
  else if g.superclasses.all r.isFinalized then
    let r := r.countGeneration c
    match r.finalizedGeneration r.limits c (r.built c) g with
    | .ok next => r.publish c next
    | .error _ => r.publish c g.unfinalized
  else r.publish c g.unfinalized

def descendants (r : Registry) (root : ClassId) : List ClassId :=
  Graph.preorder (fun c => (r.subclasses c).reverse) r.cells.length (r.subclasses root).reverse

/-- The pending classes in an order in which each comes after those of its superclasses that are
affected. -/
def settlingOrder (superclasses : ClassId → List ClassId) (affected done pending : List ClassId) :
    List ClassId :=
  match _h : pending.find? (fun c =>
      (superclasses c).all (fun s => s ∈ done || s ∉ affected)) with
  | none => []
  | some c => c :: settlingOrder superclasses affected (c :: done) (pending.erase c)
termination_by pending.length
decreasing_by
  have hc := List.mem_of_find?_eq_some _h
  have := List.length_erase_of_mem hc
  have := List.length_pos_of_mem hc
  omega

/-- The descendants of a class, superclasses before subclasses. -/
def cascadeOrder (r : Registry) (root : ClassId) : List ClassId :=
  let affected := r.descendants root
  settlingOrder r.superclasses affected [root] affected

/-- Build all descendants of a class again. This changes no superclasses, and so not their order. -/
def cascade (r : Registry) (root : ClassId) : Registry :=
  (r.cascadeOrder root).foldl refinalize r

end Registry

end Metaobject
