import Metaobject.Archive
import Metaobject.Table

/-!
# Resource caches

A cache shares named resources between their holders. The first holder opens a resource, and it is
closed when the last one releases it.
-/

namespace Metaobject

/-- How resources `ρ` are opened and closed. The state `σ` is whatever this depends on. -/
structure Opener (σ ρ : Type) where
  openNamed : String → σ → Except CacheFault ρ × σ
  closeNamed : String → ρ → σ → σ

structure Holding (ρ : Type) where
  resource : ρ
  count : Nat
deriving Repr

/-- The open resources by name, over the state of the opener. -/
structure Cache (σ ρ : Type) where
  backend : σ
  holdings : Table String (Holding ρ)

namespace Cache

variable {σ ρ : Type}

def fresh (backend : σ) : Cache σ ρ := ⟨backend, Table.empty⟩

/-- Hold a resource, which is opened unless it is open. -/
def acquire (o : Opener σ ρ) (name : String) (c : Cache σ ρ) : Except CacheFault ρ × Cache σ ρ :=
  match Archive.validateName name with
  | .error f => (.error f, c)
  | .ok () =>
    match c.holdings.find? name with
    | some h =>
      (.ok h.resource, { c with holdings := c.holdings.insert name { h with count := h.count + 1 } })
    | none =>
      match o.openNamed name c.backend with
      | (.error f, backend) => (.error f, { c with backend })
      | (.ok resource, backend) =>
        (.ok resource, ⟨backend, c.holdings.insert name ⟨resource, 1⟩⟩)

/-- Give up one hold. Returns whether this closed the resource. Nothing happens to a resource that
is not open. -/
def release (o : Opener σ ρ) (name : String) (c : Cache σ ρ) : Bool × Cache σ ρ :=
  match c.holdings.find? name with
  | none => (false, c)
  | some h =>
    if 1 < h.count then
      (false, { c with holdings := c.holdings.insert name { h with count := h.count - 1 } })
    else (true, ⟨o.closeNamed name h.resource c.backend, c.holdings.erase name⟩)

def count (c : Cache σ ρ) (name : String) : Nat :=
  match c.holdings.find? name with
  | some h => h.count
  | none => 0

def isOpen (c : Cache σ ρ) (name : String) : Bool := c.holdings.contains name

def size (c : Cache σ ρ) : Nat := c.holdings.size

def isEmpty (c : Cache σ ρ) : Bool := c.holdings.isEmpty

def openNames (c : Cache σ ρ) : List String := c.holdings.keys.mergeSort (fun a b => !(b < a))

end Cache

end Metaobject
