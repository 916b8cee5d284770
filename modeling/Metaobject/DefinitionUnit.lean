import Metaobject.Json.Record
import Metaobject.Registry.Definition

/-!
# Definition units

A unit declares classes, generic functions and methods. Reading a unit checks its form only; names
are resolved when it is installed.
-/

namespace Metaobject

structure FunctionDeclaration where
  name : Symbol
  lambdaList : List Symbol
  documentation : Option String
deriving DecidableEq, Repr

inductive SpecializerDeclaration
  | ofClass (name : Symbol)
  | eql (datum : Json)
deriving Repr

structure MethodDeclaration where
  function : Symbol
  lambdaList : List Symbol
  specializers : List SpecializerDeclaration
  qualifiers : List Symbol
  code : String
  fastCode : Option String
  documentation : Option String
deriving Repr

structure DefinitionUnit where
  classes : List ClassDefinition
  functions : List FunctionDeclaration
  methods : List MethodDeclaration
deriving Repr

namespace DefinitionUnit

open Json.Reader

def symbol : Json.Reader Symbol := do
  return ⟨← string⟩

def symbols : Json.Reader (List Symbol) := listOf symbol

namespace Class

structure Draft where
  name : Option Symbol
  superclasses : Option (List Symbol)
  slots : Option (List Symbol)
  documentation : Option (Option String)

def Draft.complete (d : Draft) : ClassDefinition :=
  ⟨d.name.getD default, d.superclasses.getD [], d.slots.getD [], d.documentation.join⟩

def record : RecordType Draft where
  name := "ClassDecl"
  fields := [
    Field.of "name" true Draft.name (fun d x => { d with name := some x }) symbol,
    Field.of "superclasses" false Draft.superclasses
      (fun d x => { d with superclasses := some x }) symbols,
    Field.of "slots" false Draft.slots (fun d x => { d with slots := some x }) symbols,
    Field.of "documentation" false Draft.documentation
      (fun d x => { d with documentation := some x }) (optional string)]
  draft := ⟨none, none, none, none⟩
  skipsUnknown := false

def reader : Json.Reader ClassDefinition := do
  return (← Json.Reader.record record).complete

end Class

namespace Function

structure Draft where
  name : Option Symbol
  lambdaList : Option (List Symbol)
  documentation : Option (Option String)

def Draft.complete (d : Draft) : FunctionDeclaration :=
  ⟨d.name.getD default, d.lambdaList.getD [], d.documentation.join⟩

def record : RecordType Draft where
  name := "GenericFunctionDecl"
  fields := [
    Field.of "name" true Draft.name (fun d x => { d with name := some x }) symbol,
    Field.of "lambda_list" true Draft.lambdaList (fun d x => { d with lambdaList := some x })
      symbols,
    Field.of "documentation" false Draft.documentation
      (fun d x => { d with documentation := some x }) (optional string)]
  draft := ⟨none, none, none⟩
  skipsUnknown := false

def reader : Json.Reader FunctionDeclaration := do
  return (← Json.Reader.record record).complete

end Function

/-- A string names a class. An object has to have the field `eql`, once. -/
def specializer : Json.Reader SpecializerDeclaration := do
  match ← written with
  | .string name => return .ofClass ⟨name⟩
  | .object fields =>
    match fields.filter (fun f => f.1 = "eql") with
    | [(_, datum)] => return .eql datum.canonical
    | _ => failUnplaced (.noVariant "SpecializerDecl")
  | _ => failUnplaced (.noVariant "SpecializerDecl")

namespace Method

structure Draft where
  function : Option Symbol
  lambdaList : Option (List Symbol)
  specializers : Option (List SpecializerDeclaration)
  qualifiers : Option (List Symbol)
  code : Option String
  fastCode : Option (Option String)
  documentation : Option (Option String)

def Draft.complete (d : Draft) : MethodDeclaration :=
  ⟨d.function.getD default, d.lambdaList.getD [], d.specializers.getD [], d.qualifiers.getD [],
    d.code.getD "", d.fastCode.join, d.documentation.join⟩

def record : RecordType Draft where
  name := "MethodDecl"
  fields := [
    Field.of "generic_function" true Draft.function (fun d x => { d with function := some x })
      symbol,
    Field.of "lambda_list" true Draft.lambdaList (fun d x => { d with lambdaList := some x })
      symbols,
    Field.of "specializers" false Draft.specializers
      (fun d x => { d with specializers := some x }) (listOf specializer),
    Field.of "qualifiers" false Draft.qualifiers (fun d x => { d with qualifiers := some x })
      symbols,
    Field.of "function" true Draft.code (fun d x => { d with code := some x }) string,
    Field.of "fast_function" false Draft.fastCode (fun d x => { d with fastCode := some x })
      (optional string),
    Field.of "documentation" false Draft.documentation
      (fun d x => { d with documentation := some x }) (optional string)]
  draft := ⟨none, none, none, none, none, none, none⟩
  skipsUnknown := false

def reader : Json.Reader MethodDeclaration := do
  return (← Json.Reader.record record).complete

end Method

structure Draft where
  classes : Option (List ClassDefinition)
  functions : Option (List FunctionDeclaration)
  methods : Option (List MethodDeclaration)

def Draft.complete (d : Draft) : DefinitionUnit :=
  ⟨d.classes.getD [], d.functions.getD [], d.methods.getD []⟩

def record : RecordType Draft where
  name := "DefinitionUnit"
  fields := [
    Field.of "classes" false Draft.classes (fun d x => { d with classes := some x })
      (listOf Class.reader),
    Field.of "generic_functions" false Draft.functions (fun d x => { d with functions := some x })
      (listOf Function.reader),
    Field.of "methods" false Draft.methods (fun d x => { d with methods := some x })
      (listOf Method.reader)]
  draft := ⟨none, none, none⟩
  skipsUnknown := false

def ofJson (text : String) : Except Json.Fault DefinitionUnit :=
  (do return (← Json.Reader.record record).complete : Json.Reader DefinitionUnit).decode text

def isEmpty (u : DefinitionUnit) : Bool :=
  u.classes.isEmpty && u.functions.isEmpty && u.methods.isEmpty

end DefinitionUnit

end Metaobject
