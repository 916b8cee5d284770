import Metaobject.Event
import Metaobject.Loader
import Metaobject.Registry.Events

/-!
# Events of a loader

What it tells to install a unit, and to load one. The events follow from the image, or from the
loader, before the step. A step that fails tells what happened before it failed.
-/

namespace Metaobject

namespace Installation

def completed? {α : Type} (step : Installation α) (m : Image) : Option Image :=
  match step.runOn m with
  | (.ok _, next) => some next
  | (.error _, _) => none

/-- What is told by one step for each item, up to the first that fails. There is no image after a
failure, and nothing is told from then on. -/
def tellEach {δ α : Type} (tell : δ → Image → List Event) (step : δ → Installation α) :
    List δ → Option Image → List Event × Option Image
  | d :: rest, some m =>
    let (events, last) := tellEach tell step rest (completed? (step d) m)
    (tell d m ++ events, last)
  | _, m => ([], m)

def classEvents (unit : String) (d : ClassDefinition) (m : Image) : List Event :=
  m.registry.definitionEvents d ++
    match (Action.ensureClass d).runOn m with
    | (.ok c, next) => [.classInstalled unit (next.registry.describe c)]
    | (.error _, _) => []

def functionEvents {α : Type} (name : Symbol) (step : Installation α) (m : Image) : List Event :=
  if m.functions.length < (step.runOn m).2.functions.length then [.functionMade name] else []

def specializerEvents (s : SpecializerDeclaration) (m : Image) : List Event :=
  match s with
  | .ofClass name => m.registry.referenceEvents name
  | .eql _ => []

def additionEvents (function : Symbol) (before after : Image) : List Event :=
  match after.findFunction function with
  | some g =>
    let methods := (after.function g).methods.length
    [.methodAdded function methods (methods = (before.function g).methods.length)]
  | none => []

def methodEvents (unit : String) (d : MethodDeclaration) (m : Image) : List Event :=
  let next := completed? (functionFor d) m
  let (references, _) := tellEach specializerEvents (specializer unit) d.specializers next
  let addition := match next, completed? (method unit d) m with
    | some before, some after => additionEvents d.function before after
    | _, _ => []
  functionEvents d.function (functionFor d) m ++ references ++ addition

def installEvents (name : String) (u : DefinitionUnit) (m : Image) : List Event :=
  let (classes, m) := tellEach (classEvents name) (fun d => core (Action.ensureClass d)) u.classes
    (some m)
  let (functions, m) := tellEach (fun d => functionEvents d.name (function d)) function u.functions m
  let (methods, m) := tellEach (methodEvents name) (method name) u.methods m
  let outcome := match m with
    | some _ => [.unitLoaded name u.classes.length u.functions.length u.methods.length]
    | none => []
  classes ++ functions ++ methods ++ outcome

/-- What is told when the unit in an archive is installed. An archive without one tells nothing. -/
def archiveEvents (a : Archive) (m : Image) : List Event :=
  match a.text.toOption.map DefinitionUnit.ofJson with
  | some (.ok u) => installEvents a.name u m
  | _ => []

end Installation

namespace Loader

variable {σ : Type}

/-- What is told when a hold on an archive is taken that had so many. -/
def acquireEvent (name : String) : Nat → Event
  | 0 => .archiveOpened name
  | n + 1 => .archiveShared name (n + 2)

/-- What is told when a hold on an archive is given up that leaves so many. -/
def releaseEvent (name : String) : Nat → Event
  | 0 => .archiveClosed name
  | n + 1 => .archiveReleased name (n + 1)

def unitEvents (o : Opener σ Archive) (name : String) (l : Loader σ) : List Event :=
  match (l.cache.acquire o name).1 with
  | .error _ => []
  | .ok archive =>
    let holders := l.cache.count name
    acquireEvent name holders :: Installation.archiveEvents archive l.image ++
      [releaseEvent name holders]

end Loader

end Metaobject
