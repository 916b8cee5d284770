import Metaobject.Image.Methods

/-!
# Signatures of methods

Values are equal, or the same, if they agree in all that the test looks at. Both tests thereby are
equivalences, and so is the comparison of signatures, which are what methods are entered by.
-/

namespace Metaobject

namespace Value

mutual

/-- What structural equality looks at: no identities, and no names of functions. -/
def contents : Value → Value
  | .string _ text => .string 0 text
  | .list _ items => .list 0 (contentsOfItems items)
  | .function f => .function ⟨none, f.code⟩
  | .eqlSpecializer datum => .eqlSpecializer (contents datum)
  | .nil => .nil
  | .integer n => .integer n
  | .float x => .float x
  | .symbol s => .symbol s
  | .classObject c => .classObject c
  | .object i => .object i
  | .generic g => .generic g

def contentsOfItems : List Value → List Value
  | [] => []
  | v :: rest => contents v :: contentsOfItems rest

end

/-- What identity looks at: as equality, and the identities of strings and lists. -/
def identity : Value → Value
  | .string id text => .string id text
  | .list id items => .list id (contentsOfItems items)
  | .eqlSpecializer datum => .eqlSpecializer datum.identity
  | v => v.contents

mutual

theorem equal_iff_contents (a b : Value) : a.equal b = true ↔ a.contents = b.contents := by
  cases a with
  | list i as =>
    cases b with
    | list j bs =>
      rw [equal, contents, contents, equalItems_iff_contents as bs]
      simp
    | _ => simp [equal, contents]
  | eqlSpecializer v =>
    cases b with
    | eqlSpecializer w =>
      rw [equal, contents, contents, equal_iff_contents v w]
      simp
    | _ => simp [equal, contents]
  | _ => cases b <;> simp [equal, contents]

theorem equalItems_iff_contents (as bs : List Value) :
    equalItems as bs = true ↔ contentsOfItems as = contentsOfItems bs := by
  cases as with
  | nil => cases bs <;> simp [equalItems, contentsOfItems]
  | cons a as =>
    cases bs with
    | nil => simp [equalItems, contentsOfItems]
    | cons b bs =>
      rw [equalItems, contentsOfItems, contentsOfItems, Bool.and_eq_true, equal_iff_contents a b,
        equalItems_iff_contents as bs, List.cons.injEq]

end

theorem eql_iff_identity (a b : Value) : a.eql b = true ↔ a.identity = b.identity := by
  cases a with
  | list i as =>
    cases b with
    | list j bs => simp [eql, identity, equalItems_iff_contents]
    | _ => simp [eql, identity, contents]
  | eqlSpecializer v =>
    cases b with
    | eqlSpecializer w =>
      rw [eql, identity, identity, eql_iff_identity v w]
      simp
    | _ => simp [eql, identity, contents]
  | _ => cases b <;> simp [eql, identity, equal, contents]

end Value

namespace Specializer

def identity : Specializer → Specializer
  | .ofClass c => .ofClass c
  | .eql datum => .eql datum.identity

theorem same_iff_identity (s t : Specializer) : s.same t = true ↔ s.identity = t.identity := by
  cases s <;> cases t <;> simp [same, identity, Value.eql_iff_identity]

end Specializer

theorem Action.sameSpecializers_iff_identity (a b : List Specializer) :
    sameSpecializers a b = true ↔ a.map Specializer.identity = b.map Specializer.identity := by
  rw [sameSpecializers, Bool.and_eq_true, decide_eq_true_iff]
  induction a generalizing b with
  | nil => cases b <;> simp
  | cons s a ih =>
    cases b with
    | nil => simp
    | cons t b =>
      have hrest := ih b
      simp only [List.length_cons, Nat.add_right_cancel_iff, List.zip_cons_cons, List.all_cons,
        Bool.and_eq_true, Specializer.same_iff_identity, List.map_cons, List.cons.injEq, ← hrest]
      exact and_left_comm

/-- What distinguishes the methods of a generic function from each other. -/
structure Signature where
  qualifiers : List Symbol
  specializers : List Specializer
deriving Repr

namespace Signature

variable {σ τ : Signature}

def same (σ τ : Signature) : Bool :=
  σ.qualifiers = τ.qualifiers && Action.sameSpecializers σ.specializers τ.specializers

def key (σ : Signature) : List Symbol × List Specializer :=
  (σ.qualifiers, σ.specializers.map Specializer.identity)

theorem same_iff_key : σ.same τ = true ↔ σ.key = τ.key := by
  rw [same, Bool.and_eq_true, decide_eq_true_iff, Action.sameSpecializers_iff_identity, key, key,
    Prod.mk.injEq]

theorem same_refl (σ : Signature) : σ.same σ = true := same_iff_key.mpr rfl

theorem same_comm (σ τ : Signature) : σ.same τ = τ.same σ := by
  rw [Bool.eq_iff_iff, same_iff_key, same_iff_key, eq_comm]

end Signature

end Metaobject
