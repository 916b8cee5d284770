import Metaobject.Decimal.Notation
import Metaobject.GenericFunction
import Metaobject.Instance
import Metaobject.Registry.Bootstrap
import Metaobject.Registry.Definition
import Metaobject.Text.Quoted

/-!
# Images

An image is everything that a running system holds: its classes, its instances and its generic
functions. Values name these by their places in the image.
-/

namespace Metaobject

structure Image where
  registry : Registry
  instances : List Instance
  functions : List GenericFunction
  functionNames : Table Symbol FunctionId
  nextObject : ObjectId
deriving Repr

/-- A step that may fail. What it did to the image before it failed stays done. -/
abbrev Action := ExceptT Fault (StateM Image)

namespace Image

def fresh (limits : Limits) : Image := ⟨Registry.fresh limits, [], [], Table.empty, 0⟩

def object (m : Image) (i : InstanceId) : Instance :=
  m.instances[i]?.getD ⟨KernelClass.standardObject.id, Storage.unbound ⟨0, Layout.empty none⟩⟩

def function (m : Image) (g : FunctionId) : GenericFunction :=
  m.functions[g]?.getD ⟨⟨""⟩, [], none, []⟩

def describeObject (m : Image) (i : InstanceId) : String :=
  match m.registry.className (m.object i).owner with
  | some name => "#<" ++ name.name ++ ">"
  | none => "#<INSTANCE>"

mutual

def print (m : Image) : Value → String
  | .nil => "NIL"
  | .integer n => toString n
  | .float x => x.print
  | .string _ text => Text.quoted text
  | .symbol s => s.name
  | .list _ items => "(" ++ " ".intercalate (printItems m items) ++ ")"
  | .function f => printUnreadable "FUNCTION" f.name
  | .classObject c => m.registry.describe c
  | .object i => m.describeObject i
  | .generic g => (m.function g).describe
  | .eqlSpecializer datum => "#<EQL-SPECIALIZER " ++ print m datum ++ ">"

def printItems (m : Image) : List Value → List String
  | [] => []
  | v :: rest => print m v :: printItems m rest

end

def message (m : Image) (f : Fault) : String := f.message m.print

def isObsolete (m : Image) (i : InstanceId) : Bool :=
  match m.registry.edition? (m.object i).owner with
  | some e => e.stamp ≠ (m.object i).storage.edition.stamp
  | none => true

def setStorage (m : Image) (i : InstanceId) (s : Storage) : Image :=
  { m with instances := m.instances.modify i fun o => { o with storage := s } }

def addInstance (m : Image) (o : Instance) : InstanceId × Image :=
  (m.instances.length, { m with instances := m.instances ++ [o] })

def addFunction (m : Image) (g : GenericFunction) : FunctionId × Image :=
  (m.functions.length, { m with functions := m.functions ++ [g] })

def setMethods (m : Image) (g : FunctionId) (methods : List InstanceId) : Image :=
  { m with functions := m.functions.modify g fun f => { f with methods } }

def findFunction (m : Image) (name : Symbol) : Option FunctionId := m.functionNames.find? name

end Image

namespace Action

def runOn {α : Type} (a : Action α) (m : Image) : Except Fault α × Image := a.run.run m

/-- A step of the registry that changes nothing if it fails. -/
def onRegistry {α : Type} (step : Registry → Except Fault (α × Registry)) : Action α := do
  match step (← get).registry with
  | .ok (a, registry) =>
    modify fun m => { m with registry }
    return a
  | .error f => throw f

def newObject : Action ObjectId := do
  let id := (← get).nextObject
  modify fun m => { m with nextObject := id + 1 }
  return id

def newString (text : String) : Action Value := do
  return .string (← newObject) text

def newList (items : List Value) : Action Value := do
  return Value.ofItems (← newObject) items

def newFunction (name : Option Symbol) (reference : String) : Action Function := do
  return ⟨name, ⟨← newObject, reference⟩⟩

def ensureClass (d : ClassDefinition) : Action ClassId := do
  let (answer, registry) := (← get).registry.define d
  modify fun m => { m with registry }
  liftM answer

end Action

end Metaobject
