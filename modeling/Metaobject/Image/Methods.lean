import Metaobject.Image.Slots

/-!
# Methods

A method is an instance of `STANDARD-METHOD`. Its attributes are slots like any others, so each
reader checks what it finds there.
-/

namespace Metaobject

structure MethodSpec where
  lambdaList : List Symbol
  specializers : List Specializer
  qualifiers : List Symbol
  function : Function
  fastFunction : Option Function
  documentation : Option String
deriving Repr

def listItems (v : Value) : Except Fault (List Value) :=
  match v.items? with
  | some items => .ok items
  | none => .error (.typeError v "LIST")

def symbolItems (v : Value) : Except Fault (List Symbol) := do
  (← listItems v).mapM fun item =>
    match item.symbol? with
    | some s => pure s
    | none => throw (.typeError item "SYMBOL")

def Specializer.ofValue (v : Value) : Except Fault Specializer :=
  match Specializer.ofValue? v with
  | some s => .ok s
  | none => .error (.typeError v "(OR CLASS EQL-SPECIALIZER)")

namespace Image

def isMethodClass (m : Image) (c : ClassId) : Bool :=
  (m.registry.precedenceList c).any
    (fun a => m.registry.className a = some KernelClass.standardMethod.name)

def methodOf (m : Image) : Value → Except Fault InstanceId
  | .object i =>
    if m.isMethodClass (m.object i).owner then .ok i
    else .error (.typeError (.object i) KernelClass.standardMethod.name.name)
  | datum => .error (.typeError datum KernelClass.standardMethod.name.name)

end Image

namespace Action

def attribute? (i : InstanceId) (a : MethodAttribute) : Action (Option Value) := do
  if ← isSlotBound i a.slot then return some (← slotValue i a.slot) else return none

def setAttribute (i : InstanceId) (a : MethodAttribute) (v : Value) : Action Unit :=
  setSlotValue i a.slot v

def allBound (i : InstanceId) : List MethodAttribute → Action Bool
  | [] => return true
  | a :: rest => do
    if ← isSlotBound i a.slot then allBound i rest else return false

def isInitialized (i : InstanceId) : Action Bool := allBound i MethodAttribute.all

def methodFunction? (i : InstanceId) : Action (Option FunctionId) := do
  match ← slotValue i MethodAttribute.genericFunction.slot with
  | .generic g => return some g
  | .nil => return none
  | datum => throw (.typeError datum "(OR GENERIC-FUNCTION NULL)")

def methodLambdaList (i : InstanceId) : Action (List Symbol) := do
  liftM (symbolItems (← slotValue i MethodAttribute.lambdaList.slot))

def methodSpecializers (i : InstanceId) : Action (List Specializer) := do
  let items ← liftM (listItems (← slotValue i MethodAttribute.specializers.slot))
  liftM (items.mapM Specializer.ofValue)

def methodQualifiers (i : InstanceId) : Action (List Symbol) := do
  liftM (symbolItems (← slotValue i MethodAttribute.qualifiers.slot))

def methodBody (i : InstanceId) : Action Function := do
  match ← slotValue i MethodAttribute.function.slot with
  | .function f => return f
  | datum => throw (.typeError datum "FUNCTION")

def methodFastBody? (i : InstanceId) : Action (Option Function) := do
  match ← slotValue i MethodAttribute.fastFunction.slot with
  | .function f => return some f
  | .nil => return none
  | datum => throw (.typeError datum "(OR FUNCTION NULL)")

def methodDocumentation? (i : InstanceId) : Action (Option String) := do
  match ← slotValue i MethodAttribute.documentation.slot with
  | .string _ text => return some text
  | .nil => return none
  | datum => throw (.typeError datum "(OR STRING NULL)")

def sameSpecializers (a b : List Specializer) : Bool :=
  a.length = b.length && (a.zip b).all (fun p => p.1.same p.2)

def hasSignature (i : InstanceId) (qualifiers : List Symbol) (specializers : List Specializer) :
    Action Bool := do
  if (← methodQualifiers i) ≠ qualifiers then return false
  return sameSpecializers (← methodSpecializers i) specializers

/-- The place of the first method with these qualifiers and specializers. -/
def signatureIndex? (qualifiers : List Symbol) (specializers : List Specializer) :
    List InstanceId → Action (Option Nat)
  | [] => return none
  | i :: rest => do
    if ← hasSignature i qualifiers specializers then return some 0
    return (← signatureIndex? qualifiers specializers rest).map (· + 1)

/-- Add a method to a generic function, in the place of the method with the same qualifiers and
specializers, which is returned. -/
def addMethod (g : FunctionId) (i : InstanceId) : Action (Option InstanceId) := do
  let specializers ← methodSpecializers i
  let qualifiers ← methodQualifiers i
  let f := (← get).function g
  if specializers.length ≠ f.required then
    throw (.incongruentLambdaList f.name f.required specializers.length)
  match ← signatureIndex? qualifiers specializers f.methods with
  | some index =>
    modify fun m => m.setMethods g (f.methods.set index i)
    return f.methods[index]?
  | none =>
    modify fun m => m.setMethods g (f.methods ++ [i])
    return none

def removeMethod (g : FunctionId) (i : InstanceId) : Action Bool := do
  let methods := ((← get).function g).methods
  modify fun m => m.setMethods g (methods.filter (· ≠ i))
  return i ∈ methods

def findMethod (g : FunctionId) (qualifiers : List Symbol) (specializers : List Specializer) :
    Action (Option InstanceId) := do
  let methods := ((← get).function g).methods
  return (← signatureIndex? qualifiers specializers methods).bind (methods[·]?)

/-- A generic function without a name in the image. -/
def newGenericFunction (name : Symbol) (lambdaList : List Symbol) (documentation : Option String) :
    Action FunctionId := do
  let (g, m) := (← get).addFunction ⟨name, lambdaList, documentation, []⟩
  set m
  return g

/-- The generic function of a name. One with another number of required parameters is replaced as
long as it has no methods. -/
def ensureGenericFunction (name : Symbol) (lambdaList : List Symbol)
    (documentation : Option String) : Action FunctionId := do
  let m ← get
  match m.findFunction name with
  | some g =>
    let f := m.function g
    if f.required = requiredCount lambdaList then return g
    if f.methods ≠ [] then
      throw (.incongruentLambdaList name f.required (requiredCount lambdaList))
  | none => pure ()
  let g ← newGenericFunction name lambdaList documentation
  modify fun m => { m with functionNames := m.functionNames.insert name g }
  return g

def installMethod (g : FunctionId) (spec : MethodSpec) : Action InstanceId := do
  let allocated ← allocate KernelClass.standardMethod.id
  let i ← liftM ((← get).methodOf (.object allocated))
  setAttribute i .genericFunction (.generic g)
  setAttribute i .lambdaList (← newList (spec.lambdaList.map Value.symbol))
  setAttribute i .specializers (← newList (spec.specializers.map Specializer.toValue))
  setAttribute i .qualifiers (← newList (spec.qualifiers.map Value.symbol))
  setAttribute i .function (.function spec.function)
  setAttribute i .fastFunction
    (match spec.fastFunction with
    | some f => .function f
    | none => .nil)
  setAttribute i .documentation
    (← match spec.documentation with
      | some text => newString text
      | none => pure .nil)
  discard (addMethod g i)
  return i

end Action

end Metaobject
