import Metaobject.Registry

/-!
# Instances

The slots of an instance lie in the order of the layout under which they are stored. That layout may
be an earlier one than the current layout of the class; migration moves the values over by name.
-/

namespace Metaobject

/-- Slot values under a layout. A slot without a value is unbound. -/
structure Storage where
  edition : Edition
  slots : List (Option Value)
deriving Repr

namespace Storage

def layout (s : Storage) : Layout := s.edition.layout

def unbound (e : Edition) : Storage := ⟨e, List.replicate e.layout.length none⟩

def valueAt? (s : Storage) (index : Nat) : Option Value := s.slots[index]?.join

def value? (s : Storage) (name : Symbol) : Option Value :=
  (s.layout.position? name).bind s.valueAt?

def put (s : Storage) (index : Nat) (value : Option Value) : Storage :=
  { s with slots := s.slots.set index value }

/-- Move the value of a slot out. The place that it leaves is unbound. -/
def take (s : Storage) (name : Symbol) : Option Value × Storage :=
  match s.layout.position? name with
  | some index => (s.valueAt? index, s.put index none)
  | none => (none, s)

def takeAll : Storage → List Symbol → List (Option Value)
  | _, [] => []
  | s, name :: rest =>
    let (value, s) := s.take name
    value :: s.takeAll rest

/-- Move the values to another layout. Slots that it lacks are dropped, slots that it adds are
unbound. -/
def migrate (s : Storage) (e : Edition) : Storage := ⟨e, s.takeAll e.layout.slots⟩

end Storage

structure Instance where
  owner : ClassId
  storage : Storage
deriving Repr

end Metaobject
