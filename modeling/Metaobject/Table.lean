/-!
# Tables

Keys bound to values, each key at most once, in the order in which the keys were first bound.
-/

namespace Metaobject

universe u v

structure Table (κ : Type u) (ν : Type v) where
  entries : List (κ × ν)
deriving Repr

namespace Table

variable {κ : Type u} {ν : Type v} [DecidableEq κ]

def empty : Table κ ν := ⟨[]⟩

instance : Inhabited (Table κ ν) := ⟨empty⟩

def keys (t : Table κ ν) : List κ := t.entries.map Prod.fst

def size (t : Table κ ν) : Nat := t.entries.length

def isEmpty (t : Table κ ν) : Bool := t.entries.isEmpty

def findIn (k : κ) : List (κ × ν) → Option ν
  | [] => none
  | (key, value) :: rest => if key = k then some value else findIn k rest

def find? (t : Table κ ν) (k : κ) : Option ν := findIn k t.entries

def contains (t : Table κ ν) (k : κ) : Bool := (t.find? k).isSome

def insertIn (k : κ) (v : ν) : List (κ × ν) → List (κ × ν)
  | [] => [(k, v)]
  | (key, value) :: rest =>
    if key = k then (k, v) :: rest else (key, value) :: insertIn k v rest

/-- Bind a key, in its place if it is bound already. -/
def insert (t : Table κ ν) (k : κ) (v : ν) : Table κ ν := ⟨insertIn k v t.entries⟩

def erase (t : Table κ ν) (k : κ) : Table κ ν := ⟨t.entries.filter (fun e => e.1 ≠ k)⟩

def ofList (entries : List (κ × ν)) : Table κ ν :=
  entries.foldl (fun t e => t.insert e.1 e.2) empty

theorem findIn_insertIn (k j : κ) (v : ν) (l : List (κ × ν)) :
    findIn j (insertIn k v l) = if k = j then some v else findIn j l := by
  induction l with
  | nil => simp [insertIn, findIn]
  | cons e l ih =>
    obtain ⟨key, value⟩ := e
    by_cases h : key = k
    · subst h
      by_cases hj : key = j <;> simp [insertIn, findIn, hj]
    · by_cases hk : key = j
      · subst hk
        simp [insertIn, findIn, h, Ne.symm h]
      · simp [insertIn, findIn, h, hk, ih]

theorem find?_insert (t : Table κ ν) (k j : κ) (v : ν) :
    (t.insert k v).find? j = if k = j then some v else t.find? j :=
  findIn_insertIn k j v t.entries

theorem findIn_filter_ne (k j : κ) (l : List (κ × ν)) :
    findIn j (l.filter (fun e => e.1 ≠ k)) = if k = j then none else findIn j l := by
  induction l with
  | nil => simp [findIn]
  | cons e l ih =>
    obtain ⟨key, value⟩ := e
    by_cases h : key = k
    · subst h
      by_cases hj : key = j
      · subst hj
        simpa [findIn] using ih
      · simpa [findIn, hj] using ih
    · by_cases hk : key = j
      · subst hk
        simp [findIn, h, Ne.symm h]
      · simp [findIn, h, hk] at ih ⊢
        exact ih

theorem find?_erase (t : Table κ ν) (k j : κ) :
    (t.erase k).find? j = if k = j then none else t.find? j :=
  findIn_filter_ne k j t.entries

end Table

end Metaobject
