import Metaobject.Image.Slots
import Metaobject.Json.Record
import Metaobject.Literal
import Metaobject.Path
import Metaobject.Settings
import Metaobject.Typing

/-!
# Projects

A project names the units to load, where their archives are, and type queries to answer afterwards.
-/

namespace Metaobject

/-- A question whether a value is of a type. The value is a literal, the name of a class, or an
object whose field `instance` names the class of a new instance. -/
structure Query where
  value : Json
  type : Symbol
deriving Repr

structure Project where
  archiveRoot : String
  units : List String
  queries : List Query
  logLevel : Option String
  log : Table String String
  limits : Limits
  maxArchiveBytes : Nat
  stopOnError : Option Bool
deriving Repr

inductive ProjectFault
  | json (f : Json.Fault)
  | noUnits
deriving DecidableEq, Repr

def ProjectFault.message : ProjectFault → String
  | .json f => f.message
  | .noUnits => "'units' must name at least one definition unit"

namespace Query

structure Draft where
  value : Option Json
  type : Option String

open Json.Reader in
def record : RecordType Draft where
  name := "Query"
  fields := [
    Field.of "value" true Draft.value (fun d x => { d with value := some x }) json,
    Field.of "type" true Draft.type (fun d x => { d with type := some x }) string]
  draft := ⟨none, none⟩
  skipsUnknown := true

def reader : Json.Reader Query := do
  let d ← Json.Reader.record record
  return ⟨d.value.getD .null, ⟨d.type.getD ""⟩⟩

def subject (j : Json) (m : Image) : Except String Value × Image :=
  match (j.field? "instance").bind Json.string? with
  | some name =>
    match m.registry.lookup ⟨name⟩ with
    | none => (.error ("no class named " ++ name), m)
    | some c =>
      match (Action.makeInstance c []).runOn m with
      | (.ok i, m) => (.ok (.object i), m)
      | (.error f, m) => (.error (m.message f), m)
  | none =>
    match j.string?.bind (fun name => m.registry.lookup ⟨name⟩) with
    | some c => (.ok (.classObject c), m)
    | none =>
      match Literal.read j m.nextObject with
      | .ok (value, nextObject) => (.ok value, { m with nextObject })
      | .error j => (.error (Literal.refusal j), m)

def answer (q : Query) (m : Image) : Except String String × Image :=
  match subject q.value m with
  | (.error detail, m) => (.error detail, m)
  | (.ok value, m) =>
    match m.typep value (.symbol q.type) with
    | .error f => (.error (m.message f), m)
    | .ok holds =>
      (.ok ("(typep " ++ m.print value ++ " '" ++ q.type.name ++ ") => " ++
        (if holds then "T" else "NIL")), m)

end Query

namespace Project

structure Draft where
  archiveRoot : Option String
  units : Option (List String)
  queries : Option (List Query)
  logLevel : Option (Option String)
  log : Option (List (String × String))
  limits : Option Limits
  cache : Option Nat
  stopOnError : Option (Option Bool)

def Draft.complete (d : Draft) : Project :=
  ⟨d.archiveRoot.getD "", d.units.getD [], d.queries.getD [], d.logLevel.join,
    Table.ofList (d.log.getD []), d.limits.getD Limits.standard,
    d.cache.getD Settings.standard.maxArchiveBytes, d.stopOnError.join⟩

open Json.Reader in
def record : RecordType Draft where
  name := "ProjectJson"
  fields := [
    Field.of "archive_root" true Draft.archiveRoot (fun d x => { d with archiveRoot := some x })
      string,
    Field.of "units" true Draft.units (fun d x => { d with units := some x }) (listOf string),
    Field.of "queries" false Draft.queries (fun d x => { d with queries := some x })
      (listOf Query.reader),
    Field.of "log_level" false Draft.logLevel (fun d x => { d with logLevel := some x })
      (optional string),
    Field.of "log" false Draft.log (fun d x => { d with log := some x })
      (mapOf string),
    Field.of "limits" false Draft.limits (fun d x => { d with limits := some x }) Limits.reader,
    Field.of "cache" false Draft.cache (fun d x => { d with cache := some x })
      Settings.cacheReader,
    Field.of "stop_on_error" false Draft.stopOnError (fun d x => { d with stopOnError := some x })
      (optional boolean)]
  draft := ⟨none, none, none, none, none, none, none, none⟩
  skipsUnknown := false

def ofJson (text : String) : Except ProjectFault Project :=
  match (Json.Reader.record record).decode text with
  | .error f => .error (.json f)
  | .ok d =>
    let p := d.complete
    if p.units = [] then .error .noUnits else .ok p

def settings (p : Project) : Settings :=
  ⟨p.limits, p.maxArchiveBytes, p.stopOnError.getD Settings.standard.stopOnError⟩

/-- Where the archives are, relative to the directory of the project file. -/
def resolveArchiveRoot (projectPath root : String) : String :=
  Path.join (Path.directory projectPath) root

end Project

end Metaobject
