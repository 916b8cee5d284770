import Metaobject.Path
import Metaobject.Table
import Metaobject.Text.Utf8

/-!
# Files

What is found under a path, what can be added to, and a tree of files in which paths are looked up.
-/

namespace Metaobject

inductive FileFault
  | missing
  | notDirectory
  | isDirectory
  | nameTooLong
  | nulByte
  | other (detail : String)
deriving DecidableEq, Repr

def FileFault.message : FileFault → String
  | .missing => "No such file or directory (os error 2)"
  | .notDirectory => "Not a directory (os error 20)"
  | .isDirectory => "Is a directory (os error 21)"
  | .nameTooLong => "File name too long (os error 36)"
  | .nulByte => "file name contained an unexpected NUL byte"
  | .other detail => detail

/-- What is found under a path. Nothing can be read from a device, and it keeps nothing. -/
inductive Entry
  | file (bytes : List UInt8)
  | directory
  | device
deriving DecidableEq, Repr

abbrev FileView := String → Except FileFault Entry

/-- Files in a state `σ`: what is found under a path, and how octets are added to the end of a file,
which is made if it is missing. -/
structure FileStore (σ : Type) where
  view : σ → FileView
  append : String → List UInt8 → σ → σ

namespace FileView

def enclosing (path : String) : String :=
  let (before, _, _) := Path.splitLast path
  if before = "" then "." else before

/-- Whether a file can be made under a path or added to. A path that ends like that of a directory
is taken for one even if nothing is there. -/
def checkAppend (view : FileView) (path : String) : Except FileFault Unit := do
  if Path.sizeLimit < path.utf8ByteSize then throw .nameTooLong
  let (_, last, slashed) := Path.splitLast path
  match ← view (enclosing path) with
  | .directory =>
    if slashed || Path.isIdle last || last = ".." then throw .isDirectory
    match view path with
    | .ok .directory => throw .isDirectory
    | .ok _ | .error .missing => return ()
    | .error f => throw f
  | .file _ | .device => throw .notDirectory

end FileView

/-- All files of a system, each entry under the names that lead to it from the root. -/
structure FileTree where
  entries : Table (List String) Entry

namespace FileTree

def home : List String := ["tmp", "work"]

def place (path : String) : List String :=
  (Path.segments path).filter (fun s => !Path.isIdle s)

def beginnings {α : Type} : List α → List (List α)
  | [] => []
  | a :: rest => [] :: (beginnings rest).map (a :: ·)

def entry? (t : FileTree) (names : List String) : Option Entry :=
  if names = [] then some .directory else t.entries.find? names

/-- Enter directories for all names on the way that have none. -/
def withDirectories (t : FileTree) (names : List (List String)) : FileTree :=
  names.foldl (fun t d => if (t.entry? d).isSome then t else ⟨t.entries.insert d .directory⟩) t

def writeFile (t : FileTree) (path : String) (bytes : List UInt8) : FileTree :=
  let names := home ++ place path
  ⟨(t.withDirectories (beginnings names)).entries.insert names (.file bytes)⟩

def makeDirectory (t : FileTree) (path : String) : FileTree :=
  let names := home ++ place path
  t.withDirectories (beginnings names ++ [names])

def removeFile (t : FileTree) (path : String) : FileTree := ⟨t.entries.erase (home ++ place path)⟩

def bare : FileTree :=
  let directories := ["bin", "dev", "etc", "home", "lib", "opt", "proc", "root", "run", "sbin", "srv",
    "sys", "tmp", "usr", "var"].map fun name => [name]
  let devices := ["null", "zero", "full", "stdin", "stdout", "stderr"].map fun name => ["dev", name]
  let users := Text.Utf8.encode "root:x:0:0:root:/root:/bin/sh\n"
  ⟨Table.ofList ((home :: directories).map (·, .directory) ++ devices.map (·, .device) ++
    [(["etc", "passwd"], .file users)])⟩

/-- Follow the segments of a path from a directory. There may be nothing where they lead. -/
def follow (t : FileTree) (here : List String) : List String → Except FileFault (List String)
  | [] => .ok here
  | s :: rest =>
    match t.entry? here with
    | some .directory =>
      if Path.isIdle s then follow t here rest
      else if s = ".." then follow t here.dropLast rest
      else if Path.segmentLimit < s.utf8ByteSize then .error .nameTooLong
      else follow t (here ++ [s]) rest
    | some _ => .error .notDirectory
    | none => .error .missing

def locate (t : FileTree) (path : String) : Except FileFault (List String) :=
  if '\x00' ∈ path.toList then .error .nulByte
  else if path = "" then .error .missing
  else if Path.sizeLimit < path.utf8ByteSize then .error .nameTooLong
  else t.follow (if Path.isAbsolute path then [] else home) (Path.segments path)

def view (t : FileTree) : FileView := fun path => do
  match t.entry? (← t.locate path) with
  | some e => return e
  | none => throw .missing

def append (path : String) (bytes : List UInt8) (t : FileTree) : FileTree :=
  match t.locate path with
  | .error _ => t
  | .ok names =>
    match t.entry? names with
    | some (.file old) => ⟨t.entries.insert names (.file (old ++ bytes))⟩
    | none => ⟨t.entries.insert names (.file bytes)⟩
    | some .directory | some .device => t

def store : FileStore FileTree := ⟨view, append⟩

end FileTree

end Metaobject
