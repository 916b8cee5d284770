import Metaobject.Cache

/-!
# Traces of openings and closings

An opener that notes what it was asked to do. Its resources carry the number of the note, by which
two openings of the same contents are told apart.
-/

namespace Metaobject

inductive OpenerEvent (ρ : Type)
  | opened (name : String)
  | closed (name : String) (resource : ρ)
deriving DecidableEq, Repr

/-- The state of an opener with the requests that it has seen, in their order. -/
structure Traced (σ ρ : Type) where
  inner : σ
  events : List (OpenerEvent ρ)

/-- A resource with the number of requests before it was opened. -/
structure Numbered (ρ : Type) where
  number : Nat
  resource : ρ
deriving DecidableEq, Repr

/-- Note each request before it is passed on. -/
def Opener.traced {σ ρ : Type} (o : Opener σ ρ) : Opener (Traced σ ρ) (Numbered ρ) where
  openNamed name s :=
    let (answer, inner) := o.openNamed name s.inner
    (answer.map (Numbered.mk s.events.length), ⟨inner, s.events ++ [.opened name]⟩)
  closeNamed name n s :=
    ⟨o.closeNamed name n.resource s.inner, s.events ++ [.closed name n.resource]⟩

end Metaobject
