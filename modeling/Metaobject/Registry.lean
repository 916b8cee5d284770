import Metaobject.Class
import Metaobject.Graph
import Metaobject.Limits
import Metaobject.Table

/-!
# Class registries

A registry keeps a cell for each class that was ever made in it, and binds names to cells. A cell
outlives its binding and is named by its place.
-/

namespace Metaobject

/-- A generation as it stands in a cell. Stamps tell apart generations that say the same. -/
structure Snapshot where
  stamp : Nat
  generation : Generation
deriving DecidableEq, Repr

/-- A class: its current generation, how many generations were built for it, and the classes that
name it as a direct superclass. -/
structure Cell where
  current : Snapshot
  built : Nat
  subclasses : List ClassId
deriving DecidableEq, Repr

/-- A layout with the stamp of the generation that brought it. -/
structure Edition where
  stamp : Nat
  layout : Layout
deriving DecidableEq, Repr

structure Registry where
  limits : Limits
  cells : List Cell
  bindings : Table Symbol ClassId
  nextStamp : Nat
deriving Repr

/-- What stands for the class of a place without a cell. -/
def Cell.vacant : Cell := ⟨⟨0, .forwardReferenced ⟨""⟩⟩, 0, []⟩

def Snapshot.edition? (s : Snapshot) : Option Edition :=
  s.generation.layout.map (Edition.mk s.stamp)

namespace Registry

def cell (r : Registry) (c : ClassId) : Cell := r.cells[c]?.getD Cell.vacant

def snapshot (r : Registry) (c : ClassId) : Snapshot := (r.cell c).current

def generation (r : Registry) (c : ClassId) : Generation := (r.snapshot c).generation

def built (r : Registry) (c : ClassId) : Nat := (r.cell c).built

/-- The direct subclasses, in the order in which they were linked. -/
def subclasses (r : Registry) (c : ClassId) : List ClassId := (r.cell c).subclasses

def superclasses (r : Registry) (c : ClassId) : List ClassId := (r.generation c).superclasses

def className (r : Registry) (c : ClassId) : Option Symbol := (r.generation c).name

def slots (r : Registry) (c : ClassId) : List Symbol := (r.generation c).slots

def state (r : Registry) (c : ClassId) : ClassState := (r.generation c).state

def isFinalized (r : Registry) (c : ClassId) : Bool := (r.generation c).shape.isSome

def isSealed (r : Registry) (c : ClassId) : Bool := (r.generation c).isSealed

def layout (r : Registry) (c : ClassId) : Option Layout := (r.generation c).layout

def edition? (r : Registry) (c : ClassId) : Option Edition := (r.snapshot c).edition?

def describe (r : Registry) (c : ClassId) : String := (r.generation c).describe

/-- The class of a class, from any of its generations. -/
def metaclassOf (self : ClassId) (g : Generation) : ClassId :=
  match g.metaclass with
  | .itself => self
  | .other c => c

/-- The class and its superclasses: the precedence list of a finalized class, and before that a walk
along the direct superclasses. -/
def precedenceList (r : Registry) (c : ClassId) : List ClassId :=
  match (r.generation c).shape with
  | some s => c :: s.precedence
  | none => Graph.preorder r.superclasses r.cells.length [c]

def isSubclass (r : Registry) (a b : ClassId) : Bool := b ∈ r.precedenceList a

def lookup (r : Registry) (name : Symbol) : Option ClassId := r.bindings.find? name

def contains (r : Registry) (name : Symbol) : Bool := r.bindings.contains name

def size (r : Registry) : Nat := r.bindings.size

def isEmpty (r : Registry) : Bool := r.bindings.isEmpty

def names (r : Registry) : List Symbol :=
  r.bindings.keys.mergeSort (fun a b => a.compareNames b != .gt)

def modifyCell (r : Registry) (c : ClassId) (f : Cell → Cell) : Registry :=
  { r with cells := r.cells.modify c f }

def addCell (r : Registry) (g : Generation) : ClassId × Registry :=
  (r.cells.length,
    { r with cells := r.cells ++ [⟨⟨r.nextStamp, g⟩, 0, []⟩], nextStamp := r.nextStamp + 1 })

def publish (r : Registry) (c : ClassId) (g : Generation) : Registry :=
  { r.modifyCell c (fun cell => { cell with current := ⟨r.nextStamp, g⟩ }) with
    nextStamp := r.nextStamp + 1 }

def countGeneration (r : Registry) (c : ClassId) : Registry :=
  r.modifyCell c (fun cell => { cell with built := cell.built + 1 })

def bind (r : Registry) (name : Symbol) (c : ClassId) : Registry :=
  { r with bindings := r.bindings.insert name c }

def link (r : Registry) (c super : ClassId) : Registry :=
  r.modifyCell super fun cell =>
    { cell with
      subclasses := if c ∈ cell.subclasses then cell.subclasses else cell.subclasses ++ [c] }

def unlink (r : Registry) (c super : ClassId) : Registry :=
  r.modifyCell super fun cell => { cell with subclasses := cell.subclasses.filter (· ≠ c) }

end Registry

end Metaobject
