import Metaobject.Image

/-!
# Slots of instances

Access by position uses the layout under which an instance is stored. Access by name first brings
the instance to the current layout of its class.
-/

namespace Metaobject.Action

/-- Allocate an instance of `c` as a generation of a class prescribes, with all slots unbound. -/
def allocateFrom (s : Snapshot) (c : ClassId) : Action InstanceId := do
  if s.generation.isBuiltIn then throw (.typeError (.classObject c) "STANDARD-CLASS")
  match s.edition? with
  | none => throw (.notFinalized s.generation.describe)
  | some e =>
    let (i, m) := (← get).addInstance ⟨c, Storage.unbound e⟩
    set m
    return i

def allocate (c : ClassId) : Action InstanceId := do
  allocateFrom ((← get).registry.snapshot c) c

/-- Move an instance to the current layout of its class. Returns whether it was stored under
another one. -/
def updateInstance (i : InstanceId) : Action Bool := do
  let m ← get
  let o := m.object i
  match m.registry.edition? o.owner with
  | none => throw (.notFinalized (m.registry.describe o.owner))
  | some e =>
    if e.stamp = o.storage.edition.stamp then return false
    set (m.setStorage i (o.storage.migrate e))
    return true

/-- The place of a slot in the current layout of the class, to which the instance is moved. -/
def locate (i : InstanceId) (slot : Symbol) : Action Nat := do
  discard (updateInstance i)
  let m ← get
  let o := m.object i
  match o.storage.layout.position? slot with
  | some index => return index
  | none => throw (.missingSlot slot (m.registry.describe o.owner))

def putSlot (i : InstanceId) (index : Nat) (value : Option Value) : Action Unit :=
  modify fun m => m.setStorage i ((m.object i).storage.put index value)

def slotValue (i : InstanceId) (slot : Symbol) : Action Value := do
  let index ← locate i slot
  let m ← get
  match (m.object i).storage.valueAt? index with
  | some value => return value
  | none => throw (.unboundSlot slot (m.describeObject i))

def setSlotValue (i : InstanceId) (slot : Symbol) (value : Value) : Action Unit := do
  putSlot i (← locate i slot) (some value)

def isSlotBound (i : InstanceId) (slot : Symbol) : Action Bool := do
  let index ← locate i slot
  return ((← get).object i).storage.valueAt? index |>.isSome

def makeSlotUnbound (i : InstanceId) (slot : Symbol) : Action Unit := do
  putSlot i (← locate i slot) none

def hasSlot (i : InstanceId) (slot : Symbol) : Action Bool := do
  discard (updateInstance i)
  return ((← get).object i).storage.layout.contains slot

def slotAt (i : InstanceId) (index : Nat) : Action (Option Value) := do
  match ((← get).object i).storage.slots[index]? with
  | some value => return value
  | none => throw (.slotIndexOutOfRange index ((← get).object i).storage.slots.length)

def setSlotAt (i : InstanceId) (index : Nat) (value : Value) : Action Unit := do
  discard (slotAt i index)
  putSlot i index (some value)

def makeInstance (c : ClassId) (initargs : List (Symbol × Value)) : Action InstanceId := do
  let i ← allocate c
  initargs.forM fun (slot, value) => setSlotValue i slot value
  return i

end Metaobject.Action
