import Metaobject.Archive
import Metaobject.Fault
import Metaobject.Json

/-!
# Faults of loading

Why a unit could not be loaded, and the report that is shown about it.
-/

namespace Metaobject

inductive LoadFault
  | core (f : Fault)
  | cache (f : CacheFault)
  | decode (unit : String) (line column : Option Nat) (detail : String)
  | inUnit (unit : String) (source : LoadFault)
deriving Repr

structure Report where
  phase : String
  unit : Option String
  line : Option Nat
  column : Option Nat
  errorKind : String
  message : String
deriving DecidableEq, Repr

namespace LoadFault

def phase : LoadFault → String
  | .core _ => "core"
  | .cache _ => "cache"
  | .decode .. => "decode"
  | .inUnit _ source => source.phase

def unit : LoadFault → Option String
  | .core _ => none
  | .cache f => some f.name
  | .decode unit .. => some unit
  | .inUnit unit _ => some unit

def errorKind : LoadFault → String
  | .core f => f.kind
  | .cache f => f.kind
  | .decode .. => "decode"
  | .inUnit _ source => source.errorKind

def message (print : Value → String) : LoadFault → String
  | .core f => f.message print
  | .cache f => f.message
  | .decode unit _ _ detail => "cannot decode " ++ unit ++ ": " ++ detail
  | .inUnit unit source => unit ++ ": " ++ source.message print

/-- Name the unit of a fault that does not name one from within. -/
def within (unit : String) : LoadFault → LoadFault
  | .decode u line column detail => .decode u line column detail
  | .inUnit u source => .inUnit u source
  | f => .inUnit unit f

/-- The report on a fault. The unit is not repeated in the message. -/
def report (print : Value → String) (f : LoadFault) : Report where
  phase := f.phase
  unit := f.unit
  line := match f with
    | .decode _ line _ _ => line
    | _ => none
  column := match f with
    | .decode _ _ column _ => column
    | _ => none
  errorKind := f.errorKind
  message := match f with
    | .inUnit _ source => source.message print
    | f => f.message print

end LoadFault

namespace Report

def text (r : Report) : String :=
  let place := match r.unit, r.line, r.column with
    | some unit, some line, some column => "[" ++ unit ++ s!":{line}:{column}] "
    | some unit, _, _ => "[" ++ unit ++ "] "
    | none, _, _ => ""
  place ++ r.phase ++ " error: " ++ r.message

def brief (r : Report) : String := r.phase ++ ": " ++ r.message

def json (r : Report) : Json :=
  .object [
    ("phase", .string r.phase),
    ("unit", Json.orNull Json.string r.unit),
    ("line", Json.orNull Json.nat r.line),
    ("column", Json.orNull Json.nat r.column),
    ("error_kind", .string r.errorKind),
    ("message", .string r.message)]

end Report

end Metaobject
