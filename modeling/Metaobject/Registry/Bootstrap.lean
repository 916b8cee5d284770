import Metaobject.MethodAttribute
import Metaobject.Registry

/-!
# Fresh registries

A fresh registry holds the kernel classes, finalized and sealed, each bound to its name. They are
entered one after the other, and each is linked to its superclasses.
-/

namespace Metaobject.KernelClass

def slots : KernelClass → List Symbol
  | .standardMethod => MethodAttribute.slots
  | _ => []

/-- Only the class of classes with instances is an instance of itself. -/
def metaclass : KernelClass → Metaclass
  | .standardClass => .itself
  | _ => .other KernelClass.standardClass.id

theorem nodup_slots (k : KernelClass) : k.slots.Nodup := by
  cases k <;> decide

def layout (k : KernelClass) : Layout := ⟨some k.name, 0, k.slots, k.nodup_slots⟩

def withSlots (k : KernelClass) : StandardClass where
  name := some k.name
  metaclass := k.metaclass
  superclasses := k.superclasses.map KernelClass.id
  slots := k.slots
  shape := some ⟨k.ancestors.map KernelClass.id, k.layout⟩
  documentation := none
  isSealed := true

def generation (k : KernelClass) : Generation :=
  if k.isBuiltIn then
    .builtIn ⟨k.name, k.superclasses.map KernelClass.id, k.ancestors.map KernelClass.id⟩
  else if k = .standardMethod then .methodClass k.withSlots
  else .standard k.withSlots

end Metaobject.KernelClass

namespace Metaobject.Registry

/-- Enter a kernel class whose superclasses are there. -/
def enterKernel (r : Registry) (k : KernelClass) : Registry :=
  let (c, next) := r.addCell k.generation
  (k.superclasses.map KernelClass.id).foldl (fun r super => r.link c super) next

def bootstrap (limits : Limits) : Registry :=
  KernelClass.all.foldl enterKernel ⟨limits, [], Table.empty, 0⟩

def fresh (limits : Limits) : Registry :=
  { bootstrap limits with
    bindings := Table.ofList (KernelClass.all.map fun k => (k.name, k.id)) }

end Metaobject.Registry
