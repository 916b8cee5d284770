import Metaobject.LoadFault
import Metaobject.Logging
import Metaobject.Text.Quoted

/-!
# Events

What a system has to tell about its work, and the entries of the log that tell it.
-/

namespace Metaobject

/-- Something that happened. Classes are given in their printed form. -/
inductive Event
  | projectOpened (root : String) (units : Nat)
  | kernelInstalled (classes : Nat)
  | placeholderMade (name : Symbol)
  | layoutBuilt (owner : Option Symbol) (slots : Nat)
  | classFinalized (label : String) (version slots precedence : Nat)
  | classDefined (name : Symbol) (generation : Nat) (finalized redefined : Bool)
  | subclassFailed (label : String) (f : Fault)
  | subclassUpdated (label : String) (finalized : Bool)
  | functionMade (name : Symbol)
  | methodAdded (function : Symbol) (methods : Nat) (replaced : Bool)
  | archiveOpened (name : String)
  | archiveShared (name : String) (count : Nat)
  | archiveReleased (name : String) (count : Nat)
  | archiveClosed (name : String)
  | classInstalled (unit label : String)
  | unitLoaded (unit : String) (classes functions methods : Nat)
  | unitSkipped (unit : String) (f : LoadFault)
deriving Repr

namespace Event

def runTarget : String := "mop::cli"

def phrase (message : String) (details : List (String × String)) : String :=
  message ++ String.join (details.map fun (key, value) => " " ++ key ++ "=" ++ value)

def ownerText : Option Symbol → String
  | some name => "Some(" ++ Text.quoted name.name ++ ")"
  | none => "None"

/-- How an event is logged, given how values are printed. Names of units and archives are quoted,
names of classes and functions are not. -/
def entry (print : Value → String) : Event → LogEntry
  | .projectOpened root units =>
    ⟨.info, runTarget, phrase "loading project" [("root", root), ("units", toString units)]⟩
  | .kernelInstalled classes =>
    .of .debug .registry (phrase "kernel classes installed" [("classes", toString classes)])
  | .placeholderMade name =>
    .of .debug .registry (phrase "placeholder created" [("name", name.name)])
  | .layoutBuilt owner slots =>
    .of .trace .layout (phrase "layout built"
      [("owner", ownerText owner), ("slots", toString slots)])
  | .classFinalized label version slots precedence =>
    .of .debug .classes (phrase "class finalized"
      [("class", label), ("version", toString version), ("slots", toString slots),
        ("precedence", toString precedence)])
  | .classDefined name generation finalized redefined =>
    .of .info .registry (phrase "class defined"
      [("name", name.name), ("generation", toString generation),
        ("finalized", toString finalized), ("redefined", toString redefined)])
  | .subclassFailed label f =>
    .of .warn .registry (phrase "subclass left unfinalized"
      [("class", label), ("error", f.message print)])
  | .subclassUpdated label finalized =>
    .of .debug .registry (phrase "subclass updated"
      [("class", label), ("finalized", toString finalized)])
  | .functionMade name =>
    .of .debug .method (phrase "generic function created" [("name", name.name)])
  | .methodAdded function methods replaced =>
    .of .debug .method (phrase "method added"
      [("generic_function", function.name), ("methods", toString methods),
        ("replaced", toString replaced)])
  | .archiveOpened name =>
    .of .debug .cache (phrase "resource opened" [("name", Text.quoted name)])
  | .archiveShared name count =>
    .of .trace .cache (phrase "resource shared"
      [("name", Text.quoted name), ("count", toString count)])
  | .archiveReleased name count =>
    .of .trace .cache (phrase "resource released"
      [("name", Text.quoted name), ("count", toString count)])
  | .archiveClosed name =>
    .of .debug .cache (phrase "resource closed" [("name", Text.quoted name)])
  | .classInstalled unit label =>
    .of .debug .loader (phrase "class installed"
      [("unit", Text.quoted unit), ("class", label)])
  | .unitLoaded unit classes functions methods =>
    .of .info .loader (phrase "unit loaded"
      [("unit", Text.quoted unit), ("classes", toString classes),
        ("generic_functions", toString functions), ("methods", toString methods)])
  | .unitSkipped unit f =>
    .of .error .loader (phrase "unit skipped"
      [("unit", Text.quoted unit), ("error", f.message print)])

end Event

end Metaobject
