import Metaobject.Cache
import Metaobject.Files

/-!
# Archives in a directory

An archive is the file that its name leads to from the root of the archives.
-/

namespace Metaobject.DirectoryArchives

/-- The path of an archive: the root and then the segments of the name. -/
def path (root name : String) : Except CacheFault String := do
  Archive.validateName name
  return (Path.segments name).foldl Path.join root

/-- The archive in what was found under its path. Only a plain file holds one. -/
def ofEntry (limit : Nat) (name : String) : Except FileFault Entry → Except CacheFault Archive
  | .ok (.file bytes) => Archive.limited limit name bytes
  | .ok .directory | .ok .device | .error .missing => .error (.notFound name)
  | .error f => .error (.io name f.message)

def opener {σ : Type} (view : σ → FileView) (root : String) (limit : Nat) : Opener σ Archive where
  openNamed name s :=
    (do ofEntry limit name (view s (← path root name)), s)
  closeNamed _ _ s := s

end Metaobject.DirectoryArchives
