import Metaobject.CommandLine.Arguments
import Metaobject.Files
import Metaobject.Loader.Events

/-!
# The journal of a run

What a run logs is shown, and goes to the end of the log file if there is one. That file may be one
of those that the run reads.
-/

namespace Metaobject.CommandLine

structure LogPlan where
  levels : LogLevels
  file : Option String

structure Journal (σ : Type) where
  files : σ
  entries : List LogEntry

namespace Journal

variable {σ : Type}

/-- The journal of a run that logged nothing yet. The log file is there from now on. -/
def start (store : FileStore σ) (plan : LogPlan) (files : σ) : Journal σ :=
  match plan.file with
  | some path => ⟨store.append path [] files, []⟩
  | none => ⟨files, []⟩

def note (store : FileStore σ) (plan : LogPlan) (j : Journal σ) (e : LogEntry) : Journal σ :=
  if !plan.levels.keeps e then j
  else
    match plan.file with
    | some path =>
      ⟨store.append path (Text.Utf8.encode (e.line ++ "\n")) j.files, j.entries ++ [e]⟩
    | none => ⟨j.files, j.entries ++ [e]⟩

def tell (store : FileStore σ) (plan : LogPlan) (m : Image) (events : List Event)
    (j : Journal σ) : Journal σ :=
  (events.map (Event.entry m.print)).foldl (note store plan) j

end Journal

def entryText (format : LogFormat) (e : LogEntry) : String :=
  match format with
  | .compact => e.compact
  | .pretty => "  " ++ e.line
  | .json => e.json.text

end Metaobject.CommandLine
