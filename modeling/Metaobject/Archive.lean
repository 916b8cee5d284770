import Metaobject.Path
import Metaobject.Text.Utf8

/-!
# Archives

Named octets, such as a compiled unit. A name leads from the root of the archives to one below it
and never out of it.
-/

namespace Metaobject

structure Archive where
  name : String
  bytes : List UInt8
deriving DecidableEq, Repr

/-- Why an archive cannot be had. -/
inductive CacheFault
  | notFound (name : String)
  | invalidName (name reason : String)
  | tooLarge (name : String) (size limit : Nat)
  | io (name detail : String)
deriving DecidableEq, Repr

namespace CacheFault

def name : CacheFault → String
  | .notFound name | .invalidName name _ | .tooLarge name _ _ | .io name _ => name

def kind : CacheFault → String
  | .notFound _ => "not-found"
  | .invalidName .. => "invalid-name"
  | .tooLarge .. => "too-large"
  | .io .. => "io"

def message : CacheFault → String
  | .notFound name => "archive not found: " ++ name
  | .invalidName name reason => "invalid archive name '" ++ name ++ "': " ++ reason
  | .tooLarge name size limit => "archive " ++ name ++ s!" is {size} bytes, limit is {limit}"
  | .io name detail => "IO error on " ++ name ++ ": " ++ detail

end CacheFault

namespace Archive

def size (a : Archive) : Nat := a.bytes.length

def isEmpty (a : Archive) : Bool := a.bytes.isEmpty

def text (a : Archive) : Except Text.Utf8Fault String := Text.Utf8.decode a.bytes

def nameProblem? (name : String) : Option String :=
  let chars := name.toList
  if chars = [] then some "empty name"
  else if chars.head? = some '/' then some "absolute names are not allowed"
  else if '\\' ∈ chars || '\x00' ∈ chars then some "name contains a forbidden character"
  else if (Path.segments name).any (fun s => s = "" || s = "..") then
    some "name has an empty or parent segment"
  else none

/-- Names are relative, their segments are not empty, and none leads upwards. -/
def validateName (name : String) : Except CacheFault Unit :=
  match nameProblem? name with
  | some reason => .error (.invalidName name reason)
  | none => .ok ()

/-- An archive of at most `limit` octets. -/
def limited (limit : Nat) (name : String) (bytes : List UInt8) : Except CacheFault Archive :=
  if limit < bytes.length then .error (.tooLarge name bytes.length limit) else .ok ⟨name, bytes⟩

end Archive

end Metaobject
