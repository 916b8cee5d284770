/-!
# Precedence lists

The superclass-first merge of precedence lists: always take the first head that occurs in no tail.
The result keeps the order of every list that is merged.
-/

namespace Metaobject.Precedence

inductive Failure
  | inconsistent
  | tooDeep
deriving DecidableEq, Repr

variable {α : Type} [DecidableEq α]

/-- The first head of a list that is in the tail of none. -/
def nextHead (lists : List (List α)) : Option α :=
  (lists.filterMap List.head?).find? (fun a => lists.all (fun l => a ∉ l.tail))

def dropHead (a : α) (l : List α) : List α :=
  if l.head? = some a then l.tail else l

/-- Merge lists after the elements found so far, the first of which is `self`; `steps` bounds the
number of elements. -/
def merge (limit : Nat) (self : α) : Nat → List (List α) → List α → Except Failure (List α)
  | 0, _, found => .ok found
  | steps + 1, lists, found =>
    let live := lists.filter (fun l => !l.isEmpty)
    if live.isEmpty then .ok found
    else
      match nextHead live with
      | none => .error .inconsistent
      | some a =>
        if a = self then .error .inconsistent
        else if limit < found.length + 1 then .error .tooDeep
        else merge limit self steps (live.map (dropHead a)) (found ++ [a])

/-- The precedence list of `self`, itself first, from its direct superclasses and their precedence
lists. -/
def linearize (limit : Nat) (self : α) (lists : List (List α)) (supers : List α) :
    Except Failure (List α) :=
  let all := lists ++ [supers]
  merge limit self (all.flatten.length + 1) all [self]

/-- A list with only the last occurrence of each element. -/
def keepLast : List α → List α
  | [] => []
  | a :: rest => if a ∈ rest then keepLast rest else a :: keepLast rest

end Metaobject.Precedence
