import Metaobject.Archive.Directory
import Metaobject.CommandLine.Arguments
import Metaobject.CommandLine.Journal
import Metaobject.Project

/-!
# The command line

Load the units of a project, show the classes, and answer the queries. The files that the command
reads and adds to are given to it, so that it is a function of them and of its arguments.
-/

namespace Metaobject.CommandLine

structure Outcome where
  exitCode : Nat
  output : String
  errors : String
  /-- The lines for the log file, if there is one. -/
  log : Option (String × List String)
deriving DecidableEq, Repr

/-- The outcome of a run that ends with a complaint before anything is logged. -/
def failure (message : String) : Outcome := ⟨1, "", "Error: " ++ message ++ "\n", none⟩

def readProject (view : FileView) (path : String) : Except String Project :=
  match view path with
  | .error _ =>
    .error ("'" ++ path ++
      "' not found\n\nhint: create it with 'archive_root' and 'units' fields")
  | .ok .directory => .error ("cannot read '" ++ path ++ "': " ++ FileFault.isDirectory.message)
  | .ok .device => parse []
  | .ok (.file bytes) => parse bytes
where
  parse (bytes : List UInt8) : Except String Project :=
    match Text.Utf8.decode bytes with
    | .error _ => .error ("cannot read '" ++ path ++ "': stream did not contain valid UTF-8")
    | .ok text =>
      match Project.ofJson text with
      | .error f => .error ("cannot parse '" ++ path ++ "': " ++ f.message)
      | .ok p => .ok p

def prepare (view : FileView) (a : Arguments) : Except String (Project × LogPlan) := do
  let p ← readProject view a.projectPath
  let levels ← (LogLevels.ofNames p.logLevel p.log.entries).mapError LogFault.message
  if let some path := a.logFile then
    (FileView.checkAppend view path).mapError fun f =>
      "cannot open log file '" ++ path ++ "': " ++ f.message
  return (p, ⟨levels, a.logFile⟩)

/-- The classes of an image that are not part of the kernel, by their names in order. -/
def classLines (m : Image) : List String :=
  (m.registry.names.filterMap m.registry.lookup).filterMap fun c =>
    if m.registry.isSealed c then none else some (m.registry.describe c)

def answerAll : List Query → Image → List String × List String
  | [], _ => ([], [])
  | q :: rest, m =>
    match q.answer m with
    | (.ok line, m) =>
      let (lines, complaints) := answerAll rest m
      (line :: lines, complaints)
    | (.error detail, m) =>
      let (lines, complaints) := answerAll rest m
      (lines, ("Error: query " ++ q.value.text ++ ": " ++ detail) :: complaints)

def unlines (lines : List String) : String := String.join (lines.map (· ++ "\n"))

def reportText (format : LogFormat) (r : Report) : String :=
  match format with
  | .json => r.json.text
  | _ => "Error: " ++ r.text

def openingEvents (root : String) (p : Project) : List Event :=
  [.projectOpened root p.units.length, .kernelInstalled KernelClass.all.length]

/-- What happens after an attempt to load a unit: one that fails is left out, unless it ends the
run. -/
def closingEvents (unit : String) (stopOnError : Bool) : Except LoadFault LoadReport → List Event
  | .ok _ => []
  | .error f => if stopOnError then [] else [.unitSkipped unit f]

/-- Load a unit, and log what happens. The unit is read before anything is logged about it. -/
def loadLogged {σ : Type} (store : FileStore σ) (plan : LogPlan) (o : Opener (Journal σ) Archive)
    (stopOnError : Bool) (unit : String) (l : Loader (Journal σ)) :
    Except LoadFault LoadReport × Loader (Journal σ) :=
  let (answer, next) := l.loadUnit o unit
  let events := l.unitEvents o unit ++ closingEvents unit stopOnError answer
  let backend := next.cache.backend.tell store plan next.image events
  (answer, { next with cache := { next.cache with backend } })

def runProject {σ : Type} (store : FileStore σ) (format : LogFormat) (plan : LogPlan) (root : String)
    (p : Project) (files : σ) : Outcome :=
  let start : Loader (Journal σ) := Loader.fresh p.settings (Journal.start store plan files)
  let journal := start.cache.backend.tell store plan start.image (openingEvents root p)
  let opener := DirectoryArchives.opener (fun j => store.view j.files) root p.maxArchiveBytes
  let load := loadLogged store plan opener p.settings.stopOnError
  let (answer, l) := (Loader.fresh p.settings journal).loadEach load p.settings.stopOnError p.units
  let entries := l.cache.backend.entries
  let shown := unlines (entries.map (entryText format))
  let log := plan.file.map fun path => (path, entries.map LogEntry.line)
  match answer with
  | .error f => ⟨1, "", shown ++ reportText format (f.report l.image.print) ++ "\n", log⟩
  | .ok _ =>
    let (lines, complaints) := answerAll p.queries l.image
    ⟨if complaints.isEmpty then 0 else 1, unlines (classLines l.image ++ lines),
      shown ++ unlines complaints, log⟩

def usage : String :=
  "Usage: mop [--log-format <pretty|compact|json>] [--log-file <FILE>] [PROJECT]\n"

def version : String := "mop 0.1.0\n"

def run {σ : Type} (store : FileStore σ) (words : List String) (files : σ) : Outcome :=
  match Arguments.parse words ⟨none, none, none⟩ with
  | none => ⟨2, "", usage, none⟩
  | some .version => ⟨0, version, "", none⟩
  | some .help => ⟨0, usage, "", none⟩
  | some (.load a) =>
    match prepare (store.view files) a with
    | .error detail => failure detail
    | .ok (p, plan) =>
      runProject store (a.format.getD .compact) plan
        (Project.resolveArchiveRoot a.projectPath p.archiveRoot) p files

def paths (view : FileView) (words : List String) : List String :=
  match Arguments.parse words ⟨none, none, none⟩ with
  | some (.load a) =>
    let archives := match readProject view a.projectPath with
      | .error _ => []
      | .ok p =>
        let root := Project.resolveArchiveRoot a.projectPath p.archiveRoot
        p.units.filterMap fun name => (DirectoryArchives.path root name).toOption
    let logs := match a.logFile with
      | some path => [path, FileView.enclosing path]
      | none => []
    a.projectPath :: logs ++ archives
  | _ => []

end Metaobject.CommandLine
