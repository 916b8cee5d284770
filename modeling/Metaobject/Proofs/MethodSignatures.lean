import Metaobject.Proofs.MethodInstallation
import Metaobject.Proofs.Signatures

/-!
# What is read of a method

The signature of a method is in its slots. To read it brings the method to the current layout of its
class, which changes nothing that could be read afterwards, of this method or of another one. So an image
matches the one that a search among methods leaves, and what the search finds does not depend on the order
in which methods were looked at.
-/

namespace Metaobject

theorem Storage.under_under (s : Storage) (e : Edition) : (s.under e).under e = s.under e := by
  have hstamp : e.stamp = (s.under e).edition.stamp := by
    by_cases h : e.stamp = s.edition.stamp
    · rw [under, if_pos h]
      exact h
    · rw [under, if_neg h]
      rfl
  exact if_pos hstamp

namespace Image

variable {m m' m'' : Image} {i j : InstanceId}

/-- The storage of an instance as it is under the current layout of its class. -/
def settled (m : Image) (i : InstanceId) : Storage :=
  match m.registry.edition? (m.object i).owner with
  | some e => (m.object i).storage.under e
  | none => (m.object i).storage

def settle (m : Image) (i : InstanceId) : Image := m.setStorage i (m.settled i)

/-- Images in which the same is read of all instances. -/
structure Agrees (m m' : Image) : Prop where
  registry : m'.registry = m.registry
  length : m'.instances.length = m.instances.length
  owner : ∀ i, (m'.object i).owner = (m.object i).owner
  settled : ∀ i, m'.settled i = m.settled i

/-- Images that differ at most in the layouts under which instances are stored. -/
structure Matches (m m' : Image) : Prop extends Agrees m m' where
  functions : m'.functions = m.functions
  functionNames : m'.functionNames = m.functionNames

theorem Matches.refl (m : Image) : m.Matches m :=
  ⟨⟨rfl, rfl, fun _ => rfl, fun _ => rfl⟩, rfl, rfl⟩

theorem Matches.trans (h : m.Matches m') (h' : m'.Matches m'') : m.Matches m'' where
  registry := h'.registry.trans h.registry
  length := h'.length.trans h.length
  owner i := (h'.owner i).trans (h.owner i)
  settled i := (h'.settled i).trans (h.settled i)
  functions := h'.functions.trans h.functions
  functionNames := h'.functionNames.trans h.functionNames

theorem Matches.function (h : m.Matches m') (g : FunctionId) : m'.function g = m.function g := by
  rw [Image.function, h.functions, Image.function]

theorem agrees_of_instances (hregistry : m'.registry = m.registry)
    (hinstances : m'.instances = m.instances) : m.Agrees m' := by
  have hobject : ∀ i, m'.object i = m.object i := fun i => by rw [object, hinstances, object]
  refine ⟨hregistry, congrArg List.length hinstances, fun i => by rw [hobject], fun i => ?_⟩
  rw [settled, hregistry, hobject, settled]

theorem settle_of_le (hi : m.instances.length ≤ i) : m.settle i = m := by
  rw [settle, setStorage, List.modify_eq_self hi]

theorem settled_settle (m : Image) (i j : InstanceId) : (m.settle i).settled j = m.settled j := by
  by_cases hj : j = i
  · subst hj
    by_cases hlt : j < m.instances.length
    · rw [settled, settle, registry_setStorage, owner_setStorage, object_setStorage_self hlt]
      dsimp only
      rw [settled]
      cases m.registry.edition? (m.object j).owner with
      | none => rfl
      | some e => exact Storage.under_under _ e
    · rw [settle_of_le (Nat.le_of_not_lt hlt)]
  · rw [settled, settle, registry_setStorage, owner_setStorage, object_setStorage_of_ne hj]
    rfl

theorem matches_settle (m : Image) (i : InstanceId) : m.Matches (m.settle i) where
  registry := rfl
  functions := rfl
  functionNames := rfl
  length := length_setStorage
  owner _ := owner_setStorage
  settled := settled_settle m i

theorem settle_settle (m : Image) (i : InstanceId) : (m.settle i).settle i = m.settle i := by
  rw [settle, settled_settle, settle, setStorage_setStorage]

def slotAnswer (m : Image) (i : InstanceId) (n : Symbol) : Except Fault Value :=
  match m.registry.edition? (m.object i).owner with
  | none => .error (.notFinalized (m.registry.describe (m.object i).owner))
  | some _ =>
    if n ∈ (m.settled i).layout.slots then
      match (m.settled i).value? n with
      | some v => .ok v
      | none => .error (.unboundSlot n (m.describeObject i))
    else .error (.missingSlot n (m.registry.describe (m.object i).owner))

theorem slotAnswer_congr (hregistry : m'.registry = m.registry)
    (howner : (m'.object i).owner = (m.object i).owner) (hsettled : m'.settled i = m.settled i)
    (n : Symbol) : m'.slotAnswer i n = m.slotAnswer i n := by
  unfold slotAnswer describeObject
  rw [hregistry, howner, hsettled]

def qualifiersAnswer (m : Image) (i : InstanceId) : Except Fault (List Symbol) :=
  (m.slotAnswer i MethodAttribute.qualifiers.slot).bind symbolItems

def specializersAnswer (m : Image) (i : InstanceId) : Except Fault (List Specializer) :=
  (m.slotAnswer i MethodAttribute.specializers.slot).bind fun v =>
    (listItems v).bind fun items => items.mapM Specializer.ofValue

def signature? (m : Image) (i : InstanceId) : Option Signature :=
  match ((Action.methodQualifiers i).runOn m).1, ((Action.methodSpecializers i).runOn m).1 with
  | .ok qualifiers, .ok specializers => some ⟨qualifiers, specializers⟩
  | _, _ => none

def signedAs (m : Image) (σ : Signature) (i : InstanceId) : Bool := (m.signature? i).any (·.same σ)

end Image

namespace Action

open Image

variable {m m' : Image} {i : InstanceId} {σ τ : Signature}

section Reading

theorem runOn_slotValue_settle (hi : i < m.instances.length) (n : Symbol) :
    (slotValue i n).runOn m = (m.slotAnswer i n, m.settle i) := by
  unfold slotAnswer settle settled
  cases hedition : m.registry.edition? (m.object i).owner with
  | none =>
    rw [slotValue, locate_of_none n _ hedition]
    simp only [setStorage_self]
  | some e =>
    dsimp only
    by_cases hn : n ∈ ((m.object i).storage.under e).layout.slots
    · rw [slotValue_of_mem hi hedition hn, if_pos hn]
      rfl
    · rw [slotValue, locate_of_notMem n hi hedition _ hn, if_neg hn]
      rfl

theorem slotValue_of_le (hi : m.instances.length ≤ i) (n : Symbol) :
    ∃ f, (slotValue i n).runOn m = (.error f, m) := by
  cases hedition : m.registry.edition? (m.object i).owner with
  | none => exact ⟨_, by rw [slotValue, locate_of_none n _ hedition]⟩
  | some e =>
    have hsame : updated m i e = m := by
      rw [updated, setStorage, List.modify_eq_self hi]
    have hlayout : (m.object i).storage.layout.position? n = none := by
      rw [object, List.getElem?_eq_none hi]
      rfl
    refine ⟨.missingSlot n (m.registry.describe (m.object i).owner), ?_⟩
    rw [slotValue, runOn_bind, locate, runOn_bind, runOn_discard, updateInstance_of_some hedition,
      hsame]
    simp only [Except.map, runOn_bind, runOn_get, hlayout, runOn_throw]

theorem runOn_methodQualifiers_settle (hi : i < m.instances.length) :
    (methodQualifiers i).runOn m = (m.qualifiersAnswer i, m.settle i) := by
  rw [methodQualifiers, runOn_bind, runOn_slotValue_settle hi, qualifiersAnswer]
  cases m.slotAnswer i MethodAttribute.qualifiers.slot with
  | error f => rfl
  | ok v => exact runOn_liftM _ _

theorem runOn_methodSpecializers_settle (hi : i < m.instances.length) :
    (methodSpecializers i).runOn m = (m.specializersAnswer i, m.settle i) := by
  rw [methodSpecializers, runOn_bind, runOn_slotValue_settle hi, specializersAnswer]
  cases m.slotAnswer i MethodAttribute.specializers.slot with
  | error f => rfl
  | ok v =>
    dsimp only
    rw [runOn_bind, runOn_liftM, Except.bind]
    cases listItems v with
    | error f => rfl
    | ok items => exact runOn_liftM _ _

end Reading

end Action

namespace Image

open Metaobject.Action

variable {m m' : Image} {i : InstanceId} {σ τ : Signature}

theorem lt_of_signature? (h : m.signature? i = some σ) : i < m.instances.length := by
  by_contra hi
  obtain ⟨f, hfault⟩ := slotValue_of_le (Nat.le_of_not_lt hi) MethodAttribute.qualifiers.slot
  have hqualifiers : ((methodQualifiers i).runOn m).1 = .error f := by
    rw [methodQualifiers, runOn_bind, hfault]
  rw [signature?, hqualifiers] at h
  contradiction

theorem signature?_eq (hi : i < m.instances.length) :
    m.signature? i =
      match m.qualifiersAnswer i, m.specializersAnswer i with
      | .ok qualifiers, .ok specializers => some ⟨qualifiers, specializers⟩
      | _, _ => none := by
  rw [signature?, runOn_methodQualifiers_settle hi, runOn_methodSpecializers_settle hi]

theorem signature?_congr (hi : i < m.instances.length) (hi' : i < m'.instances.length)
    (hregistry : m'.registry = m.registry) (howner : (m'.object i).owner = (m.object i).owner)
    (hsettled : m'.settled i = m.settled i) : m'.signature? i = m.signature? i := by
  have hanswer := slotAnswer_congr hregistry howner hsettled
  rw [signature?_eq hi', signature?_eq hi, qualifiersAnswer, qualifiersAnswer, specializersAnswer,
    specializersAnswer, hanswer, hanswer]

theorem Agrees.signature? (h : m.Agrees m') (i : InstanceId) :
    m'.signature? i = m.signature? i := by
  by_cases hi : i < m.instances.length
  · exact signature?_congr hi (h.length.symm ▸ hi) h.registry (h.owner i) (h.settled i)
  · have hi' : ¬i < m'.instances.length := h.length.symm ▸ hi
    rw [Option.eq_none_iff_forall_ne_some.mpr fun σ hσ => hi (lt_of_signature? hσ),
      Option.eq_none_iff_forall_ne_some.mpr fun σ hσ => hi' (lt_of_signature? hσ)]

theorem Agrees.signedAs (h : m.Agrees m') (σ : Signature) : m'.signedAs σ = m.signedAs σ := by
  funext i
  rw [Image.signedAs, h.signature?, Image.signedAs]

theorem signedAs_of_signature? (h : m.signature? i = some τ) : m.signedAs σ i = τ.same σ := by
  rw [signedAs, h]
  rfl

theorem runOn_of_signature? (h : m.signature? i = some σ) :
    (methodQualifiers i).runOn m = (.ok σ.qualifiers, m.settle i) ∧
      (methodSpecializers i).runOn m = (.ok σ.specializers, m.settle i) := by
  have hi := lt_of_signature? h
  rw [signature?_eq hi] at h
  rw [runOn_methodQualifiers_settle hi, runOn_methodSpecializers_settle hi]
  split at h
  · rename_i qualifiers specializers hqualifiers hspecializers
    cases h
    rw [hqualifiers, hspecializers]
    exact ⟨rfl, rfl⟩
  · contradiction

end Image

namespace Action

open Image

variable {m m' : Image} {i : InstanceId} {σ τ : Signature} {l : List InstanceId} {g : FunctionId}

theorem runOn_hasSignature_settle (h : m.signature? i = some τ) (σ : Signature) :
    (hasSignature i σ.qualifiers σ.specializers).runOn m = (.ok (m.signedAs σ i), m.settle i) := by
  have hsettled := (matches_settle m i).signature? i
  rw [h] at hsettled
  obtain ⟨hqualifiers, _⟩ := runOn_of_signature? h
  obtain ⟨_, hspecializers⟩ := runOn_of_signature? hsettled
  rw [hasSignature, runOn_bind_of_ok hqualifiers, signedAs_of_signature? h, Signature.same]
  by_cases hsame : τ.qualifiers = σ.qualifiers
  · rw [if_neg (not_not_intro hsame), runOn_bind_of_ok hspecializers, runOn_pure, settle_settle,
      decide_eq_true hsame, Bool.true_and]
  · rw [if_pos hsame, runOn_pure, decide_eq_false hsame, Bool.false_and]

/-- A search among methods finds the first with the signature, whatever it leaves of the storages. -/
theorem runOn_signatureIndex?_matches (hl : ∀ j ∈ l, (m.signature? j).isSome) (σ : Signature) :
    ∃ m', m.Matches m' ∧ (signatureIndex? σ.qualifiers σ.specializers l).runOn m =
      (.ok (l.findIdx? (m.signedAs σ)), m') := by
  induction l generalizing m with
  | nil => exact ⟨m, .refl m, rfl⟩
  | cons i rest ih =>
    have hmatches := matches_settle m i
    obtain ⟨τ, hi⟩ := Option.isSome_iff_exists.mp (hl i List.mem_cons_self)
    rw [signatureIndex?, runOn_bind_of_ok (runOn_hasSignature_settle hi σ), List.findIdx?_cons]
    cases hsame : m.signedAs σ i with
    | true => exact ⟨m.settle i, hmatches, rfl⟩
    | false =>
      have hrest : ∀ j ∈ rest, ((m.settle i).signature? j).isSome := by
        intro j hj
        rw [hmatches.signature?]
        exact hl j (List.mem_cons_of_mem i hj)
      obtain ⟨m', hlast, hrun⟩ := ih hrest
      rw [hmatches.signedAs] at hrun
      refine ⟨m', hmatches.trans hlast, ?_⟩
      rw [if_neg Bool.false_ne_true, if_neg Bool.false_ne_true, runOn_bind_of_ok hrun]
      rfl

theorem findIdx?_bind_getElem? (p : InstanceId → Bool) (l : List InstanceId) :
    (l.findIdx? p).bind (l[·]?) = l.find? p := by
  induction l with
  | nil => rfl
  | cons i rest ih =>
    rw [List.findIdx?_cons, List.find?_cons]
    cases p i with
    | true => rfl
    | false =>
      rw [if_neg Bool.false_ne_true, Option.bind_map, ← ih]
      rfl

theorem runOn_findMethod_matches (hl : ∀ j ∈ (m.function g).methods, (m.signature? j).isSome)
    (σ : Signature) : ∃ m', m.Matches m' ∧ (findMethod g σ.qualifiers σ.specializers).runOn m =
      (.ok ((m.function g).methods.find? (m.signedAs σ)), m') := by
  obtain ⟨m', hmatches, hrun⟩ := runOn_signatureIndex?_matches hl σ
  refine ⟨m', hmatches, ?_⟩
  rw [findMethod, runOn_bind_of_ok (runOn_get m)]
  dsimp only
  rw [runOn_bind_of_ok hrun, runOn_pure, findIdx?_bind_getElem?]

end Action

namespace Image

def enter (m : Image) (σ : Signature) (i : InstanceId) (l : List InstanceId) : List InstanceId :=
  match l.findIdx? (m.signedAs σ) with
  | some index => l.set index i
  | none => l ++ [i]

end Image

namespace Action

open Image

variable {m m' : Image} {i : InstanceId} {σ : Signature} {g : FunctionId} {spec : MethodSpec}

theorem runOn_addMethod_matches (hl : ∀ j ∈ (m.function g).methods, (m.signature? j).isSome)
    (hi : m.signature? i = some σ) (hlength : σ.specializers.length = (m.function g).required) :
    ∃ m', m.Matches m' ∧ (addMethod g i).runOn m =
      (.ok ((m.function g).methods.find? (m.signedAs σ)),
        m'.setMethods g (m.enter σ i (m.function g).methods)) := by
  obtain ⟨_, hspecializers⟩ := runOn_of_signature? hi
  have hfirst := matches_settle m i
  have hsettled := (hfirst.signature? i).trans hi
  obtain ⟨hqualifiers, _⟩ := runOn_of_signature? hsettled
  rw [settle_settle] at hqualifiers
  have hrest : ∀ j ∈ (m.function g).methods, ((m.settle i).signature? j).isSome := by
    intro j hj
    rw [hfirst.signature?]
    exact hl j hj
  obtain ⟨m', hlast, hrun⟩ := runOn_signatureIndex?_matches hrest σ
  rw [hfirst.signedAs] at hrun
  refine ⟨m', hfirst.trans hlast, ?_⟩
  rw [addMethod, runOn_bind_of_ok hspecializers, runOn_bind_of_ok hqualifiers,
    runOn_bind_of_ok (runOn_get _), hfirst.function]
  dsimp only
  rw [if_neg (not_not_intro hlength), runOn_bind_of_ok hrun, enter, ← findIdx?_bind_getElem?]
  cases (m.function g).methods.findIdx? (m.signedAs σ) with
  | none => rfl
  | some index => rfl

theorem runOn_addMethod_misfit (hi : m.signature? i = some σ)
    (hlength : σ.specializers.length ≠ (m.function g).required) :
    (addMethod g i).runOn m = (.error (.incongruentLambdaList (m.function g).name
      (m.function g).required σ.specializers.length), m.settle i) := by
  obtain ⟨_, hspecializers⟩ := runOn_of_signature? hi
  have hfirst := matches_settle m i
  obtain ⟨hqualifiers, _⟩ := runOn_of_signature? ((hfirst.signature? i).trans hi)
  rw [settle_settle] at hqualifiers
  rw [addMethod, runOn_bind_of_ok hspecializers, runOn_bind_of_ok hqualifiers,
    runOn_bind_of_ok (runOn_get _), hfirst.function]
  dsimp only
  rw [if_pos hlength]
  rfl

theorem runOn_addMethod_unreadable (hi : m.signature? i = none) (g : FunctionId) :
    ∃ f m', m.Matches m' ∧ (addMethod g i).runOn m = (.error f, m') := by
  by_cases hlt : i < m.instances.length
  · have hfirst := matches_settle m i
    have hlt' : i < (m.settle i).instances.length := hfirst.length.symm ▸ hlt
    have hqualifiers := runOn_methodQualifiers_settle hlt'
    rw [qualifiersAnswer, slotAnswer_congr hfirst.registry (hfirst.owner i) (hfirst.settled i),
      ← qualifiersAnswer, settle_settle] at hqualifiers
    rw [signature?_eq hlt] at hi
    rw [addMethod, runOn_bind, runOn_methodSpecializers_settle hlt]
    cases hs : m.specializersAnswer i with
    | error f => exact ⟨f, m.settle i, hfirst, rfl⟩
    | ok specializers =>
      cases hq : m.qualifiersAnswer i with
      | error f =>
        rw [hq] at hqualifiers
        refine ⟨f, m.settle i, hfirst, ?_⟩
        dsimp only
        rw [runOn_bind, hqualifiers]
      | ok qualifiers =>
        rw [hq, hs] at hi
        contradiction
  · obtain ⟨f, hfault⟩ := slotValue_of_le (Nat.le_of_not_lt hlt) MethodAttribute.specializers.slot
    refine ⟨f, m, .refl m, ?_⟩
    rw [addMethod, runOn_bind, methodSpecializers, runOn_bind, hfault]

end Action

end Metaobject
