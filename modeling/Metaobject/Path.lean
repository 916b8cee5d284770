/-!
# Paths

Paths are text, divided into segments by slashes. A path that starts with a slash is absolute.
-/

namespace Metaobject.Path

def split : List Char → List (List Char)
  | [] => [[]]
  | c :: rest =>
    if c = '/' then [] :: split rest
    else
      match split rest with
      | [] => [[c]]
      | part :: parts => (c :: part) :: parts

def segments (path : String) : List String := (split path.toList).map String.ofList

def isAbsolute (path : String) : Bool := path.toList.head? = some '/'

/-- A path below another. An absolute path replaces it. -/
def join (base path : String) : String :=
  if isAbsolute path || base = "" then path
  else if base.toList.getLast? = some '/' then base ++ path
  else base ++ "/" ++ path

def isIdle (segment : String) : Bool := segment = "" || segment = "."

/-- The segments up to the last one that leads somewhere, latest first. -/
def significant (reversed : List String) : List String := reversed.dropWhile isIdle

/-- The path of the directory that a path lies in. The root and the empty path lie in none. -/
def parent? (path : String) : Option String :=
  let (root, rest) := if isAbsolute path then ("/", (segments path).tail) else ("", segments path)
  let (start, body) := match rest with
    | "." :: body => if root = "" then (["."], body) else ([], rest)
    | _ => ([], rest)
  match significant body.reverse with
  | _ :: before => some (root ++ "/".intercalate (start ++ (significant before).reverse))
  | [] => if start = [] then none else some ""

/-- A path up to its last segment that is not empty, that segment, and whether slashes follow it. -/
def splitLast (path : String) : String × String × Bool :=
  let reversed := path.toList.reverse
  let body := reversed.dropWhile (· = '/')
  (String.ofList (body.dropWhile (· ≠ '/')).reverse, String.ofList (body.takeWhile (· ≠ '/')).reverse,
    body.length < reversed.length)

def segmentLimit : Nat := 255

def sizeLimit : Nat := 4095

/-- The directory of a file, against which its relative paths are read. -/
def directory (path : String) : String := (parent? path).getD "."

end Metaobject.Path
