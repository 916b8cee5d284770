import Metaobject.CommandLine

/-!
# Entry point

Looks up the files at which the command looks and shows the outcome.
-/

open Metaobject

def lookUpFailure (e : IO.Error) : Except FileFault Entry :=
  let failed (number : UInt32) (detail : String) : Except FileFault Entry :=
    let code := if number < 0x80000000 then number else 0 - number
    if code = 20 then .error .notDirectory
    else if code = 21 then .ok .directory
    else if code = 36 then .error .nameTooLong
    else .error (.other (detail.capitalize ++ s!" (os error {code})"))
  match e with
  | .noFileOrDirectory .. | .noSuchThing .. => .error .missing
  | .inappropriateType _ code detail => failed code detail
  | .permissionDenied _ code detail => failed code detail
  | .invalidArgument _ code detail => failed code detail
  | .otherError code detail => failed code detail
  | e => .error (.other (toString e))

def lookUp (path : String) : IO (Except FileFault Entry) := do
  if '\x00' ∈ path.toList then return .error .nulByte
  try
    return .ok (.file (← IO.FS.readBinFile path).toList)
  catch e => return lookUpFailure e

abbrev Known := Table String (Except FileFault Entry)

def extend (known : Known) (paths : List String) : IO Known :=
  paths.foldlM (fun t path => do
    if t.contains path then return t else return t.insert path (← lookUp path)) known

def viewOf (known : Known) : FileView :=
  fun path => (known.find? path).getD (.error .missing)

def appendTo (path : String) (bytes : List UInt8) (known : Known) : Known :=
  match viewOf known path with
  | .ok (.file old) => known.insert path (.ok (.file (old ++ bytes)))
  | .error .missing => known.insert path (.ok (.file bytes))
  | _ => known

def main (words : List String) : IO UInt32 := do
  let first ← extend Table.empty (CommandLine.paths (viewOf Table.empty) words)
  let known ← extend first (CommandLine.paths (viewOf first) words)
  let outcome := CommandLine.run ⟨viewOf, appendTo⟩ words known
  IO.print outcome.output
  IO.eprint outcome.errors
  if let some (path, lines) := outcome.log then
    IO.FS.withFile path .append fun h => lines.forM h.putStrLn
  return UInt32.ofNat outcome.exitCode
