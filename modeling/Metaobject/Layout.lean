import Metaobject.Fault
import Metaobject.Table

/-!
# Slot layouts

The order in which the slots of an instance are stored: inherited slots first, then the slots that
the class declares. A slot that is declared again moves to the place of the new declaration.
-/

namespace Metaobject

/-- The first element that equals one before it, or one that was seen already. -/
def firstRepeat {α : Type} [DecidableEq α] (seen : List α) : List α → Option α
  | [] => none
  | a :: rest => if a ∈ seen then some a else firstRepeat (a :: seen) rest

theorem nodup_of_firstRepeat {α : Type} [DecidableEq α] {seen l : List α}
    (h : firstRepeat seen l = none) : l.Nodup ∧ ∀ a ∈ l, a ∉ seen := by
  induction l generalizing seen with
  | nil => simp
  | cons a l ih =>
    unfold firstRepeat at h
    split at h
    · simp at h
    · rename_i ha
      obtain ⟨hl, hs⟩ := ih h
      refine ⟨List.nodup_cons.2 ⟨fun hm => hs a hm (by simp), hl⟩, ?_⟩
      intro b hb
      rcases List.mem_cons.1 hb with rfl | hb
      · exact ha
      · exact fun hm => hs b hb (List.mem_cons_of_mem a hm)

/-- Inherited names that are not declared again, and then the declared ones. -/
def mergeSlots (owned inherited : List Symbol) : List Symbol :=
  inherited.filter (fun s => s ∉ owned) ++ owned

theorem nodup_mergeSlots {owned inherited : List Symbol} (ho : owned.Nodup)
    (hi : inherited.Nodup) : (mergeSlots owned inherited).Nodup := by
  refine List.nodup_append.2 ⟨hi.filter _, ho, ?_⟩
  intro a ha b hb hab
  subst hab
  simp [hb] at ha

/-- The storage order of slots, each name once. The version is the generation of the class that the
layout was made for. -/
structure Layout where
  owner : Option Symbol
  version : Nat
  slots : List Symbol
  nodup : slots.Nodup
deriving DecidableEq, Repr

namespace Layout

def empty (owner : Option Symbol) : Layout := ⟨owner, 0, [], List.nodup_nil⟩

instance : Inhabited Layout := ⟨empty none⟩

/-- The layout of a class from its own slots and the inherited ones. Neither list may name a slot
twice. -/
def build (owner : Option Symbol) (owned inherited : List Symbol) : Except Fault Layout :=
  match ho : firstRepeat [] owned with
  | some s => .error (.duplicateSlot s owner)
  | none =>
    match hi : firstRepeat [] inherited with
    | some s => .error (.duplicateSlot s owner)
    | none =>
      .ok ⟨owner, 0, mergeSlots owned inherited,
        nodup_mergeSlots (nodup_of_firstRepeat ho).1 (nodup_of_firstRepeat hi).1⟩

def withVersion (l : Layout) (version : Nat) : Layout := { l with version }

def length (l : Layout) : Nat := l.slots.length

def isEmpty (l : Layout) : Bool := l.slots.isEmpty

/-- Each slot with its place, entered in the order of the slots. -/
def positions (l : Layout) : Table Symbol Nat := Table.ofList l.slots.zipIdx

def position? (l : Layout) (name : Symbol) : Option Nat := l.positions.find? name

def slot? (l : Layout) (index : Nat) : Option Symbol := l.slots[index]?

def contains (l : Layout) (name : Symbol) : Bool := l.positions.contains name

end Layout

end Metaobject
