/-!
# Arguments

What the words of a command ask for.
-/

namespace Metaobject.CommandLine

inductive LogFormat
  | pretty
  | compact
  | json
deriving DecidableEq, Repr

structure Arguments where
  project : Option String
  format : Option LogFormat
  logFile : Option String

inductive Request
  | load (a : Arguments)
  | version
  | help

namespace Arguments

def projectPath (a : Arguments) : String := a.project.getD "project.json"

def formatNamed? : String → Option LogFormat
  | "pretty" => some .pretty
  | "compact" => some .compact
  | "json" => some .json
  | _ => none

def withProject (a : Arguments) (path : String) : Option Arguments :=
  if a.project.isSome || path = "" then none else some { a with project := some path }

def withOption (a : Arguments) (key value : String) : Option Arguments :=
  if key = "--log-format" && a.format.isNone then
    (formatNamed? value).map fun f => { a with format := some f }
  else if key = "--log-file" && a.logFile.isNone && value ≠ "" then
    some { a with logFile := some value }
  else none

def splitOption? (word : String) : Option (String × String) :=
  let chars := word.toList
  if '=' ∈ chars then
    some (String.ofList (chars.takeWhile (· ≠ '=')),
      String.ofList ((chars.dropWhile (· ≠ '=')).tail))
  else none

def isOption (word : String) : Bool :=
  match word.toList with
  | '-' :: _ :: _ => true
  | _ => false

def parse : List String → Arguments → Option Request
  | [], a => some (.load a)
  | "--" :: words, a => (words.foldlM withProject a).map Request.load
  | word :: words, a =>
    if word = "--version" || word.startsWith "-V" then some .version
    else if word = "--help" || word.startsWith "-h" then some .help
    else if isOption word then
      match splitOption? word, words with
      | some (key, value), words => (a.withOption key value).bind (parse words)
      | none, value :: words =>
        if isOption value then none else (a.withOption word value).bind (parse words)
      | none, [] => none
    else (a.withProject word).bind (parse words)

end Arguments

end Metaobject.CommandLine
