import Metaobject.Json
import Metaobject.Table

/-!
# Logging

How much is logged, for everything and for single subsystems, and the forms of an entry.
-/

namespace Metaobject

inductive LogLevel
  | error
  | warn
  | info
  | debug
  | trace
deriving DecidableEq, Repr

namespace LogLevel

def text : LogLevel → String
  | .error => "ERROR"
  | .warn => "WARN"
  | .info => "INFO"
  | .debug => "DEBUG"
  | .trace => "TRACE"

def rank : LogLevel → Nat
  | .error => 0
  | .warn => 1
  | .info => 2
  | .debug => 3
  | .trace => 4

def column (l : LogLevel) : String :=
  let text := l.text
  if text.length < 5 then " " ++ text else text

/-- A level by its name in letters of any case. Errors are logged even if silence is asked for. -/
def ofName? (name : String) : Option LogLevel :=
  let lower := String.ofList (name.toList.map Char.toLower)
  if lower = "silent" || lower = "error" then some .error
  else if lower = "warn" then some .warn
  else if lower = "info" then some .info
  else if lower = "debug" then some .debug
  else if lower = "trace" then some .trace
  else none

end LogLevel

inductive Subsystem
  | registry
  | classes
  | layout
  | method
  | cache
  | loader
deriving DecidableEq, Repr

namespace Subsystem

def all : List Subsystem := [.registry, .classes, .layout, .method, .cache, .loader]

def name : Subsystem → String
  | .registry => "registry"
  | .classes => "class"
  | .layout => "layout"
  | .method => "method"
  | .cache => "cache"
  | .loader => "loader"

def target (s : Subsystem) : String := "mop::" ++ s.name

def ofName? (name : String) : Option Subsystem := all.find? (fun s => s.name = name)

def ofTarget? (target : String) : Option Subsystem := all.find? (fun s => s.target = target)

end Subsystem

inductive LogFault
  | unknownLevel (name : String)
  | unknownSubsystem (name : String)
deriving DecidableEq, Repr

def LogFault.message : LogFault → String
  | .unknownLevel name => "unknown log level '" ++ name ++ "'"
  | .unknownSubsystem name => "unknown log subsystem '" ++ name ++ "'"

structure LogLevels where
  global : LogLevel
  single : Table Subsystem LogLevel

namespace LogLevels

def level (name : String) : Except LogFault LogLevel :=
  match LogLevel.ofName? name with
  | some l => .ok l
  | none => .error (.unknownLevel name)

def subsystem (name : String) : Except LogFault Subsystem :=
  match Subsystem.ofName? name with
  | some s => .ok s
  | none => .error (.unknownSubsystem name)

/-- Levels by their names. Without one for everything, warnings are logged. -/
def ofNames (global : Option String) (single : List (String × String)) :
    Except LogFault LogLevels := do
  let g ← match global with
    | some name => level name
    | none => pure .warn
  let entries ← single.mapM fun (s, l) => do
    let s ← subsystem s
    return (s, ← level l)
  return ⟨g, Table.ofList entries⟩

def levelFor (l : LogLevels) (target : String) : LogLevel :=
  ((Subsystem.ofTarget? target).bind l.single.find?).getD l.global

end LogLevels

structure LogEntry where
  level : LogLevel
  target : String
  text : String
deriving DecidableEq, Repr

def LogLevels.keeps (l : LogLevels) (e : LogEntry) : Bool :=
  e.level.rank ≤ (l.levelFor e.target).rank

namespace LogEntry

def of (level : LogLevel) (s : Subsystem) (text : String) : LogEntry := ⟨level, s.target, text⟩

/-- The time of all entries. A run is a function of its files and its words, and has no clock. -/
def time : String := "2026-01-01T00:00:00.000000Z"

def compact (e : LogEntry) : String := e.level.column ++ " " ++ e.text

def line (e : LogEntry) : String :=
  time ++ " " ++ e.level.column ++ " " ++ e.target ++ ": " ++ e.text

def json (e : LogEntry) : Json :=
  .object [("timestamp", .string time), ("level", .string e.level.text),
    ("fields", .object [("message", .string e.text)]), ("target", .string e.target)]

end LogEntry

end Metaobject
