import Metaobject.Text.Hidden

/-!
# Quoted text

A string between double quotes. Quotes and backslashes are escaped, four controls have short
escapes, and every other character that cannot be shown stands as its code point in braces.
-/

namespace Metaobject.Text

def hex (n : Nat) : String :=
  String.ofList (Nat.toDigits 16 n)

def quotedChar (c : Char) : String :=
  if c = '"' then "\\\""
  else if c = '\\' then "\\\\"
  else if c = '\n' then "\\n"
  else if c = '\r' then "\\r"
  else if c = '\t' then "\\t"
  else if c = '\x00' then "\\0"
  else if isHidden c then "\\u\x7b" ++ hex c.toNat ++ "\x7d"
  else c.toString

def quoted (s : String) : String :=
  "\"" ++ String.join (s.toList.map quotedChar) ++ "\""

end Metaobject.Text
