/-!
# Limits

How large classes may become.
-/

namespace Metaobject

structure Limits where
  maxSlots : Nat
  maxPrecedenceDepth : Nat
deriving DecidableEq, Repr

namespace Limits

def standard : Limits := ⟨4096, 256⟩

end Limits

end Metaobject
