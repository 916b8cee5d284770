import Metaobject.Cache

/-!
# Archives in memory
-/

namespace Metaobject

/-- The octets of each archive by its name. -/
abbrev MemoryArchives := Table String (List UInt8)

namespace MemoryArchives

def opener (limit : Nat) : Opener MemoryArchives Archive where
  openNamed name archives :=
    match archives.find? name with
    | some bytes => (Archive.limited limit name bytes, archives)
    | none => (.error (.notFound name), archives)
  closeNamed _ _ archives := archives

def names (archives : MemoryArchives) : List String :=
  archives.keys.mergeSort (fun a b => !(b < a))

end MemoryArchives

end Metaobject
