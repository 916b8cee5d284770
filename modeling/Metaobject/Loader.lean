import Metaobject.Cache
import Metaobject.DefinitionUnit
import Metaobject.Image.Methods
import Metaobject.Literal
import Metaobject.LoadFault
import Metaobject.Settings

/-!
# Loading units

A loader takes units from a cache of archives and installs them into an image: classes first, then
generic functions, then methods. The archive is released in any case.
-/

namespace Metaobject

structure LoadReport where
  unit : String
  classes : List Symbol
  functions : List Symbol
  methods : Nat
deriving DecidableEq, Repr

/-- A step of installation. What it did to the image before it failed stays done. -/
abbrev Installation := ExceptT LoadFault (StateM Image)

namespace Installation

def core {α : Type} (a : Action α) : Installation α := ExceptT.adapt LoadFault.core a

def literal (unit : String) (j : Json) : Installation Value := do
  match Literal.read j (← get).nextObject with
  | .ok (value, nextObject) =>
    modify fun m => { m with nextObject }
    return value
  | .error j => throw (.decode unit none none (Literal.refusal j))

def specializer (unit : String) : SpecializerDeclaration → Installation Specializer
  | .ofClass name => do
    return .ofClass (← core (Action.onRegistry fun r => r.resolveOrPlaceholder name))
  | .eql datum => return .eql (← literal unit datum)

/-- The generic function of a method, made from the parameters of the method if there is none. -/
def functionFor (d : MethodDeclaration) : Installation FunctionId := do
  match (← get).findFunction d.function with
  | some g => return g
  | none => core (Action.ensureGenericFunction d.function d.lambdaList none)

def spec (unit : String) (d : MethodDeclaration) : Installation MethodSpec := do
  let specializers ← d.specializers.mapM (specializer unit)
  let function ← core (Action.newFunction (some d.function) d.code)
  let fastFunction ← match d.fastCode with
    | some code => some <$> core (Action.newFunction (some d.function) code)
    | none => pure none
  return ⟨d.lambdaList, specializers, d.qualifiers, function, fastFunction, d.documentation⟩

def method (unit : String) (d : MethodDeclaration) : Installation Unit := do
  let g ← functionFor d
  let s ← spec unit d
  discard (core (Action.installMethod g s))

/-- Make sure of a generic function, and tell its name. -/
def function (d : FunctionDeclaration) : Installation Symbol := do
  let g ← core (Action.ensureGenericFunction d.name d.lambdaList d.documentation)
  return ((← get).function g).name

/-- Install all declarations of a unit, up to the first that fails. -/
def install (name : String) (u : DefinitionUnit) : Installation LoadReport := do
  u.classes.forM fun d => discard (core (Action.ensureClass d))
  let functions ← u.functions.mapM function
  u.methods.forM (method name)
  return ⟨name, u.classes.map ClassDefinition.name, functions, u.methods.length⟩

def decode (name text : String) : Installation DefinitionUnit :=
  match DefinitionUnit.ofJson text with
  | .ok u => return u
  | .error f =>
    throw (.decode name (f.place.map Json.Position.line) (f.place.map Json.Position.column) f.message)

def installArchive (a : Archive) : Installation LoadReport := do
  match a.text with
  | .error f => throw (.decode a.name none none f.message)
  | .ok text => install a.name (← decode a.name text)

def runOn {α : Type} (s : Installation α) (m : Image) : Except LoadFault α × Image := s.run.run m

end Installation

structure Loader (σ : Type) where
  image : Image
  cache : Cache σ Archive

namespace Loader

variable {σ : Type}

def fresh (settings : Settings) (backend : σ) : Loader σ :=
  ⟨Image.fresh settings.limits, Cache.fresh backend⟩

def loadUnit (o : Opener σ Archive) (name : String) (l : Loader σ) :
    Except LoadFault LoadReport × Loader σ :=
  match l.cache.acquire o name with
  | (.error f, cache) => (.error (.cache f), { l with cache })
  | (.ok archive, cache) =>
    let (answer, image) := (Installation.installArchive archive).runOn l.image
    let (_, cache) := cache.release o name
    (answer.mapError (LoadFault.within name), ⟨image, cache⟩)

/-- Load units in order, each by `load`. A unit that fails ends this, or else is left out. -/
def loadEach (load : String → Loader σ → Except LoadFault LoadReport × Loader σ)
    (stopOnError : Bool) :
    List String → Loader σ → Except LoadFault (List LoadReport) × Loader σ
  | [], l => (.ok [], l)
  | name :: rest, l =>
    match load name l with
    | (.error f, l) => if stopOnError then (.error f, l) else loadEach load stopOnError rest l
    | (.ok report, l) =>
      let (answer, l) := loadEach load stopOnError rest l
      (answer.map (report :: ·), l)

def loadAll (o : Opener σ Archive) (stopOnError : Bool) :
    List String → Loader σ → Except LoadFault (List LoadReport) × Loader σ :=
  loadEach (loadUnit o) stopOnError

end Loader

end Metaobject
