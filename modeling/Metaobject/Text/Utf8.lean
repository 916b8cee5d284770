/-!
# UTF-8

Octets to characters. A fault names the octet where the first ill-formed sequence starts, and
how many octets of it are wrong beyond doubt; at the end of the text there may be none.
-/

namespace Metaobject.Text

/-- The first ill-formed sequence of a text. -/
structure Utf8Fault where
  validUpTo : Nat
  wrong : Option Nat
deriving DecidableEq, Repr

def Utf8Fault.message (f : Utf8Fault) : String :=
  match f.wrong with
  | some n => s!"invalid utf-8 sequence of {n} bytes from index {f.validUpTo}"
  | none => s!"incomplete utf-8 byte sequence from index {f.validUpTo}"

namespace Utf8

def isTail (b : UInt8) : Bool :=
  0x80 ≤ b && b ≤ 0xBF

/-- How many tails follow a leading octet, and the bounds of the first of them. -/
def lead (b : UInt8) : Option (Nat × UInt8 × UInt8) :=
  if b ≤ 0x7F then some (0, 0x80, 0xBF)
  else if 0xC2 ≤ b && b ≤ 0xDF then some (1, 0x80, 0xBF)
  else if b = 0xE0 then some (2, 0xA0, 0xBF)
  else if b = 0xED then some (2, 0x80, 0x9F)
  else if 0xE1 ≤ b && b ≤ 0xEF then some (2, 0x80, 0xBF)
  else if b = 0xF0 then some (3, 0x90, 0xBF)
  else if 0xF1 ≤ b && b ≤ 0xF3 then some (3, 0x80, 0xBF)
  else if b = 0xF4 then some (3, 0x80, 0x8F)
  else none

def codePoint (b : UInt8) (tails : List UInt8) : Nat :=
  let high := match tails.length with
    | 0 => b.toNat
    | 1 => b.toNat - 0xC0
    | 2 => b.toNat - 0xE0
    | _ => b.toNat - 0xF0
  tails.foldl (fun n t => n * 64 + (t.toNat - 0x80)) high

/-- One character from the front of the octets, with the number of octets it takes, or the
number of octets that are wrong. -/
def first (b : UInt8) (rest : List UInt8) : Except (Option Nat) (Char × Nat) :=
  match lead b with
  | none => .error (some 1)
  | some (0, _, _) => .ok (Char.ofNat b.toNat, 1)
  | some (n + 1, low, high) =>
    let tails := rest.take (n + 1)
    match tails with
    | [] => .error none
    | t :: more =>
      if !(low ≤ t && t ≤ high) then .error (some 1)
      else
        let good := more.takeWhile isTail
        if good.length < more.length then .error (some (good.length + 2))
        else if more.length < n then .error none
        else .ok (Char.ofNat (codePoint b tails), n + 2)

/-- The characters of the octets after those already read; `steps` bounds how many there are. -/
def decodeFrom : Nat → Nat → List Char → List UInt8 → Except Utf8Fault (List Char)
  | _, _, seen, [] => .ok seen.reverse
  | 0, _, seen, _ :: _ => .ok seen.reverse
  | steps + 1, here, seen, b :: rest =>
    match first b rest with
    | .error wrong => .error ⟨here, wrong⟩
    | .ok (c, width) => decodeFrom steps (here + width) (c :: seen) (rest.drop (width - 1))

def decode (bytes : List UInt8) : Except Utf8Fault String :=
  (decodeFrom bytes.length 0 [] bytes).map String.ofList

def encode (text : String) : List UInt8 :=
  text.toList.flatMap String.utf8EncodeChar

end Utf8

end Metaobject.Text
