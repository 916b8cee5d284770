import Metaobject.Proofs.LiteralIdentity
import Metaobject.Proofs.MethodRuns
import Metaobject.Typing

/-!
# Equality of values

Identity and equality of values are equivalences, the first finer than the second, and equal values
are of one type. So specializers and signatures, which are told apart by identity, fall into classes
too, and it makes no difference from which of two methods a comparison starts.
-/

namespace Metaobject

theorem equivalence_of_key {α β : Type} {same : α → α → Bool} {key : α → β}
    (h : ∀ a b, same a b = true ↔ key a = key b) : Equivalence fun a b => same a b = true where
  refl a := (h a a).mpr rfl
  symm hab := (h _ _).mpr ((h _ _).mp hab).symm
  trans hab hbc := (h _ _).mpr (((h _ _).mp hab).trans ((h _ _).mp hbc))

namespace Value

variable {v w : Value} {id : ObjectId}

theorem eql_equivalence : Equivalence fun v w : Value => v.eql w = true :=
  equivalence_of_key eql_iff_identity

theorem equal_equivalence : Equivalence fun v w : Value => v.equal w = true :=
  equivalence_of_key equal_iff_contents

theorem equal_of_eql {v w : Value} (h : v.eql w = true) : v.equal w = true := by
  cases v with
  | string i a => cases w <;> simp_all [eql, equal]
  | list i as => cases w <;> simp_all [eql, equal]
  | eqlSpecializer a =>
    cases w with
    | eqlSpecializer b => exact equal_of_eql (v := a) (w := b) h
    | _ => contradiction
  | _ => exact h

/-- Of a string or a list, the test for identity asks for the identity alone, as long as there is no
other object with that identity. -/
theorem eql_iff_identity? (hv : v.identity? = some id) (hone : w.identity? = some id → w = v) :
    v.eql w = true ↔ w.identity? = some id := by
  constructor
  · intro h
    rw [← identity?_of_eql h, hv]
  · intro h
    rw [hone h]
    exact eql_equivalence.refl v

theorem typeOf_of_equal (m : Image) (h : v.equal w = true) : m.typeOf v = m.typeOf w := by
  cases v <;> cases w <;> simp_all [equal, Image.typeOf]

example : (float (Double.notANumber true)).eql (float (Double.notANumber true)) = true ∧
    (float (Double.zero false)).equal (float (Double.zero true)) = false ∧
    (eqlSpecializer (list 0 [integer 1])).equal (eqlSpecializer (list 1 [integer 1])) = true ∧
    (eqlSpecializer (list 0 [integer 1])).eql (eqlSpecializer (list 1 [integer 1])) = false := by
  decide +kernel

end Value

theorem Specializer.same_equivalence : Equivalence fun s t : Specializer => s.same t = true :=
  equivalence_of_key same_iff_identity

theorem Signature.same_equivalence : Equivalence fun σ τ : Signature => σ.same τ = true :=
  equivalence_of_key fun _ _ => same_iff_key

/-- What is compared when a method is looked for, or is to replace another one. -/
theorem Action.hasSignature_eq_same {m : Image} {i : InstanceId} {τ : Signature}
    (h : m.signature? i = some τ) (σ : Signature) :
    ((hasSignature i σ.qualifiers σ.specializers).runOn m).1 = .ok (τ.same σ) := by
  rw [runOn_hasSignature_settle h, Image.signedAs_of_signature? h]

/-- Identity and equality of values are equivalences. Values that are the same are equal, and equal
values are of one type. Specializers, and signatures as they are compared in a generic function, are
told apart by equivalences too. -/
theorem sameness_coherent :
    Equivalence (fun v w : Value => v.eql w = true) ∧
    Equivalence (fun v w : Value => v.equal w = true) ∧
    (∀ v w : Value, v.eql w = true → v.equal w = true) ∧
    (∀ (v w : Value) id, v.identity? = some id → (w.identity? = some id → w = v) →
      (v.eql w = true ↔ w.identity? = some id)) ∧
    (∀ (m : Image) (v w : Value), v.equal w = true → m.typeOf v = m.typeOf w) ∧
    Equivalence (fun s t : Specializer => s.same t = true) ∧
    Equivalence (fun σ τ : Signature => σ.same τ = true) ∧
    ∀ (m : Image) i τ σ, m.signature? i = some τ →
      ((Action.hasSignature i σ.qualifiers σ.specializers).runOn m).1 = .ok (τ.same σ) :=
  ⟨Value.eql_equivalence, Value.equal_equivalence, fun _ _ => Value.equal_of_eql,
    fun _ _ _ => Value.eql_iff_identity?, fun m _ _ => Value.typeOf_of_equal m,
    Specializer.same_equivalence, Signature.same_equivalence,
    fun _ _ _ σ h => Action.hasSignature_eq_same h σ⟩

/-- A method made by hand is found to be like one that was installed, and the other way round. -/
theorem twoAreas_sameness_coherent :
    let m := Session.twoAreas.image
    ∃ σ τ, m.signature? 0 = some σ ∧ m.signature? 1 = some τ ∧
      ((Action.hasSignature 0 τ.qualifiers τ.specializers).runOn m).1 = .ok true ∧
      ((Action.hasSignature 1 σ.qualifiers σ.specializers).runOn m).1 = .ok true := by
  intro m
  have hfirst : (m.signature? 0).isSome = true := by decide +kernel
  have hsecond : (m.signature? 1).isSome = true := by decide +kernel
  have hlike : ∀ σ ∈ m.signature? 0, ∀ τ ∈ m.signature? 1, σ.same τ = true := by decide +kernel
  obtain ⟨σ, hσ⟩ := Option.isSome_iff_exists.mp hfirst
  obtain ⟨τ, hτ⟩ := Option.isSome_iff_exists.mp hsecond
  obtain ⟨_, _, _, _, _, _, hsignatures, hcompared⟩ := sameness_coherent
  have hsame : σ.same τ = true := hlike σ hσ τ hτ
  refine ⟨σ, τ, hσ, hτ, ?_, ?_⟩
  · rw [hcompared m 0 σ τ hσ, hsame]
  · rw [hcompared m 1 τ σ hτ, hsignatures.symm hsame]

end Metaobject
