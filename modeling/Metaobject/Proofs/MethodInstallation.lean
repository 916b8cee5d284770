import Metaobject.Proofs.KernelIntegrity
import Metaobject.Proofs.MethodTables

/-!
# Installation of methods

A method is stored under the one layout that the class of methods ever has. What is put into it when
it is installed is what is read of it from then on.
-/

namespace Metaobject

namespace MethodAttribute

def index : MethodAttribute → Nat
  | .genericFunction => 0
  | .lambdaList => 1
  | .specializers => 2
  | .qualifiers => 3
  | .function => 4
  | .fastFunction => 5
  | .documentation => 6

end MethodAttribute

/-- The layout of methods, as it is from the start. -/
def methodEdition : Edition := ⟨KernelClass.standardMethod.id, KernelClass.standardMethod.layout⟩

theorem Registry.KernelIntact.edition?_method {r : Registry} (h : r.KernelIntact) :
    r.edition? KernelClass.standardMethod.id = some methodEdition := by
  rw [Registry.edition?, h.snapshot]
  rfl

theorem position?_methodEdition (a : MethodAttribute) :
    methodEdition.layout.position? a.slot = some a.index := by
  cases a <;> rfl

namespace Storage

variable {s : Storage}

structure OfMethod (s : Storage) : Prop where
  edition : s.edition = methodEdition
  length : s.slots.length = MethodAttribute.all.length

theorem ofMethod_unbound : (unbound methodEdition).OfMethod := ⟨rfl, rfl⟩

def withAttribute (s : Storage) (a : MethodAttribute) (v : Value) : Storage :=
  s.put a.index (some v)

def attribute? (s : Storage) (a : MethodAttribute) : Option Value := s.valueAt? a.index

namespace OfMethod

variable (h : s.OfMethod)

include h

theorem mem_slots (a : MethodAttribute) : a.slot ∈ s.layout.slots := by
  rw [layout, h.edition]
  exact List.mem_of_getElem? (Layout.position?_eq_some.mp (position?_methodEdition a))

theorem position? (a : MethodAttribute) : s.layout.position? a.slot = some a.index := by
  rw [layout, h.edition]
  exact position?_methodEdition a

theorem withAttribute (a : MethodAttribute) (v : Value) : (s.withAttribute a v).OfMethod :=
  ⟨h.edition, (List.length_set ..).trans h.length⟩

theorem assign_eq (a : MethodAttribute) (v : Value) :
    s.assign a.slot (some v) = s.withAttribute a v := by
  rw [assign, h.position? a]
  rfl

theorem value?_eq (a : MethodAttribute) : s.value? a.slot = s.attribute? a := by
  rw [value?, h.position? a]
  rfl

end OfMethod

/-- What is put into the attributes of a method, and what is read of them. -/
structure Carries (s : Storage) (t : MethodReading) : Prop where
  ofMethod : s.OfMethod
  lambdaList : ∃ v, s.attribute? .lambdaList = some v ∧ symbolItems v = .ok t.lambdaList
  specializers : ∃ v items, s.attribute? .specializers = some v ∧ listItems v = .ok items ∧
    items.mapM Specializer.ofValue = .ok t.specializers
  qualifiers : ∃ v, s.attribute? .qualifiers = some v ∧ symbolItems v = .ok t.qualifiers
  function : ∃ f, s.attribute? .function = some (.function f) ∧ f.code.reference = t.code
  fastFunction : s.attribute? .fastFunction = some .nil ∧ t.fastCode = none ∨
    ∃ f, s.attribute? .fastFunction = some (.function f) ∧ t.fastCode = some f.code.reference
  documentation : s.attribute? .documentation = some .nil ∧ t.documentation = none ∨
    ∃ id text, s.attribute? .documentation = some (.string id text) ∧ t.documentation = some text

end Storage

namespace Image

variable {m m' : Image} {i : InstanceId} {t : MethodReading} {s : Storage} {next : ObjectId}

structure Carries (m : Image) (i : InstanceId) (t : MethodReading) : Prop where
  lt : i < m.instances.length
  owner : (m.object i).owner = KernelClass.standardMethod.id
  storage : (m.object i).storage.Carries t

theorem Carries.mono (h : m.Carries i t) (hinstances : m.instances <+: m'.instances) :
    m'.Carries i t := by
  obtain ⟨rest, hrest⟩ := hinstances
  have hobject : m'.object i = m.object i := by
    rw [object, object, ← hrest, List.getElem?_append_left h.lt]
  refine ⟨?_, ?_, ?_⟩
  · rw [← hrest, List.length_append]
    exact Nat.lt_add_right _ h.lt
  · rw [hobject]
    exact h.owner
  · rw [hobject]
    exact h.storage

/-- The image with another method, and with objects that were made for it. -/
def withMethod (m : Image) (s : Storage) (next : ObjectId) : Image :=
  { m with instances := m.instances ++ [⟨KernelClass.standardMethod.id, s⟩], nextObject := next }

theorem object_withMethod (m : Image) (s : Storage) (next : ObjectId) :
    (m.withMethod s next).object m.instances.length =
    ⟨KernelClass.standardMethod.id, s⟩ := by
  simp [object, withMethod]

theorem lt_withMethod : m.instances.length < (m.withMethod s next).instances.length := by
  simp [withMethod]

theorem setStorage_withMethod (s' : Storage) :
    (m.withMethod s next).setStorage m.instances.length s' = m.withMethod s' next := by
  have hlast := List.modifyTailIdx_add (List.modifyHead fun o : Instance =>
    { o with storage := s' }) 0 m.instances [⟨KernelClass.standardMethod.id, s⟩]
  exact congrArg (fun instances => { m with instances, nextObject := next }) hlast

theorem carries_withMethod (m : Image) (next : ObjectId) (h : s.Carries t) :
    (m.withMethod s next).Carries m.instances.length t := by
  refine ⟨lt_withMethod, ?_, ?_⟩
  · rw [object_withMethod]
  · rw [object_withMethod]
    exact h

end Image

def MethodSpec.reading (spec : MethodSpec) : MethodReading :=
  ⟨spec.specializers, spec.qualifiers, spec.lambdaList, spec.documentation,
    spec.function.code.reference, spec.fastFunction.map fun f => f.code.reference⟩

theorem listItems_ofItems (id : ObjectId) (items : List Value) :
    listItems (Value.ofItems id items) = .ok items := by
  cases items <;> rfl

theorem symbolItems_ofItems (id : ObjectId) (names : List Symbol) :
    symbolItems (Value.ofItems id (names.map Value.symbol)) = .ok names := by
  rw [symbolItems, listItems_ofItems, ok_bind]
  induction names with
  | nil => rfl
  | cons n names ih =>
    rw [List.map_cons, List.mapM_cons, ih]
    rfl

theorem mapM_ofValue_toValue (specializers : List Specializer) :
    (specializers.map Specializer.toValue).mapM Specializer.ofValue = .ok specializers := by
  induction specializers with
  | nil => rfl
  | cons s rest ih =>
    rw [List.map_cons, List.mapM_cons, ih]
    cases s <;> rfl

namespace Action

variable {m : Image} {i : InstanceId} {t : MethodReading} {s : Storage} {next : ObjectId}

section Reading

theorem updated_method (hi : m.Carries i t) : updated m i methodEdition = m := by
  have hstamp : methodEdition.stamp = (m.object i).storage.edition.stamp := by
    rw [hi.storage.ofMethod.edition]
  rw [updated, Storage.under, if_pos hstamp, Image.setStorage_self]

variable (hm : m.registry.KernelIntact) (hi : m.Carries i t)

include hm hi

theorem runOn_slotValue {a : MethodAttribute} {v : Value}
    (hv : (m.object i).storage.attribute? a = some v) :
    (slotValue i a.slot).runOn m = (.ok v, m) := by
  have hedition : m.registry.edition? (m.object i).owner = some methodEdition := by
    rw [hi.owner]
    exact hm.edition?_method
  have hunder : (m.object i).storage.under methodEdition = (m.object i).storage := by
    rw [Storage.under, if_pos (by rw [hi.storage.ofMethod.edition])]
  have hmem : a.slot ∈ ((m.object i).storage.under methodEdition).layout.slots := by
    rw [hunder]
    exact hi.storage.ofMethod.mem_slots a
  rw [slotValue_of_mem hi.lt hedition hmem, hunder, hi.storage.ofMethod.value?_eq, hv,
    updated_method hi]

theorem runOn_methodLambdaList : (methodLambdaList i).runOn m = (.ok t.lambdaList, m) := by
  obtain ⟨v, hv, hitems⟩ := hi.storage.lambdaList
  rw [methodLambdaList, runOn_bind_of_ok (runOn_slotValue hm hi hv), runOn_liftM, hitems]

theorem runOn_methodQualifiers : (methodQualifiers i).runOn m = (.ok t.qualifiers, m) := by
  obtain ⟨v, hv, hitems⟩ := hi.storage.qualifiers
  rw [methodQualifiers, runOn_bind_of_ok (runOn_slotValue hm hi hv), runOn_liftM, hitems]

theorem runOn_methodSpecializers : (methodSpecializers i).runOn m = (.ok t.specializers, m) := by
  obtain ⟨v, items, hv, hitems, hall⟩ := hi.storage.specializers
  rw [methodSpecializers, runOn_bind_of_ok (runOn_slotValue hm hi hv), runOn_bind, runOn_liftM,
    hitems]
  dsimp only
  rw [runOn_liftM, hall]

theorem runOn_methodBody :
    ∃ f, (methodBody i).runOn m = (.ok f, m) ∧ f.code.reference = t.code := by
  obtain ⟨f, hf, hcode⟩ := hi.storage.function
  refine ⟨f, ?_, hcode⟩
  rw [methodBody, runOn_bind_of_ok (runOn_slotValue hm hi hf)]
  rfl

theorem runOn_methodFastBody? :
    ∃ f?, (methodFastBody? i).runOn m = (.ok f?, m) ∧
      f?.map (fun f => f.code.reference) = t.fastCode := by
  rcases hi.storage.fastFunction with ⟨hnil, hcode⟩ | ⟨f, hf, hcode⟩
  · refine ⟨none, ?_, hcode.symm⟩
    rw [methodFastBody?, runOn_bind_of_ok (runOn_slotValue hm hi hnil)]
    rfl
  · refine ⟨some f, ?_, hcode.symm⟩
    rw [methodFastBody?, runOn_bind_of_ok (runOn_slotValue hm hi hf)]
    rfl

theorem runOn_methodDocumentation? :
    (methodDocumentation? i).runOn m = (.ok t.documentation, m) := by
  rcases hi.storage.documentation with ⟨hnil, htext⟩ | ⟨id, text, hstring, htext⟩
  · rw [methodDocumentation?, runOn_bind_of_ok (runOn_slotValue hm hi hnil), htext]
    rfl
  · rw [methodDocumentation?, runOn_bind_of_ok (runOn_slotValue hm hi hstring), htext]
    rfl

end Reading

/-- All that is read of a method, without the identities of its code. -/
def readMethod (i : InstanceId) : Action MethodReading := do
  let specializers ← methodSpecializers i
  let qualifiers ← methodQualifiers i
  let lambdaList ← methodLambdaList i
  let documentation ← methodDocumentation? i
  let body ← methodBody i
  let fastBody? ← methodFastBody? i
  return ⟨specializers, qualifiers, lambdaList, documentation, body.code.reference,
    fastBody?.map fun f => f.code.reference⟩

theorem runOn_readMethod (hm : m.registry.KernelIntact) (hi : m.Carries i t) :
    (readMethod i).runOn m = (.ok t, m) := by
  obtain ⟨f, hf, hcode⟩ := runOn_methodBody hm hi
  obtain ⟨f?, hf?, hfast⟩ := runOn_methodFastBody? hm hi
  rw [readMethod, runOn_bind_of_ok (runOn_methodSpecializers hm hi),
    runOn_bind_of_ok (runOn_methodQualifiers hm hi),
    runOn_bind_of_ok (runOn_methodLambdaList hm hi),
    runOn_bind_of_ok (runOn_methodDocumentation? hm hi), runOn_bind_of_ok hf, runOn_bind_of_ok hf?,
    runOn_pure, hcode, hfast]

section Entering

variable {methods : List InstanceId} {texts : List MethodReading} {g : FunctionId}

theorem runOn_hasSignature (hm : m.registry.KernelIntact) (hi : m.Carries i t)
    (qualifiers : List Symbol) (specializers : List Specializer) :
    (hasSignature i qualifiers specializers).runOn m =
      (.ok (t.HasSignature qualifiers specializers), m) := by
  rw [hasSignature, runOn_bind_of_ok (runOn_methodQualifiers hm hi)]
  by_cases hq : t.qualifiers = qualifiers
  · rw [if_neg (not_not_intro hq), runOn_bind_of_ok (runOn_methodSpecializers hm hi), runOn_pure,
      MethodReading.HasSignature, decide_eq_true hq, Bool.true_and]
  · rw [if_pos hq, runOn_pure, MethodReading.HasSignature, decide_eq_false hq, Bool.false_and]

theorem runOn_signatureIndex? (hm : m.registry.KernelIntact)
    (h : List.Forall₂ m.Carries methods texts) (qualifiers : List Symbol)
    (specializers : List Specializer) :
    (signatureIndex? qualifiers specializers methods).runOn m =
      (.ok (texts.findIdx? (·.HasSignature qualifiers specializers)), m) := by
  induction h with
  | nil => rfl
  | @cons i t methods texts hi hrest ih =>
    rw [signatureIndex?, runOn_bind_of_ok (runOn_hasSignature hm hi _ _), List.findIdx?_cons]
    by_cases hsignature : t.HasSignature qualifiers specializers = true
    · rw [if_pos hsignature, if_pos hsignature, runOn_pure]
    · rw [if_neg hsignature, if_neg hsignature, runOn_bind_of_ok ih]
      rfl

def entered (methods : List InstanceId) (texts : List MethodReading) (i : InstanceId)
    (t : MethodReading) : List InstanceId :=
  match texts.findIdx? (·.HasSignature t.qualifiers t.specializers) with
  | none => methods ++ [i]
  | some index => methods.set index i

theorem forall₂_set {R : InstanceId → MethodReading → Prop} (h : List.Forall₂ R methods texts)
    (hi : R i t) (index : Nat) : List.Forall₂ R (methods.set index i) (texts.set index t) := by
  induction h generalizing index with
  | nil => exact .nil
  | cons hhead hrest ih =>
    cases index with
    | zero => exact .cons hi hrest
    | succ index => exact .cons hhead (ih index)

theorem carries_entered (h : List.Forall₂ m.Carries methods texts) (hi : m.Carries i t) :
    List.Forall₂ m.Carries (entered methods texts i t) (MethodReading.enter texts t) := by
  unfold entered MethodReading.enter
  cases texts.findIdx? (·.HasSignature t.qualifiers t.specializers) with
  | none => exact List.rel_append h (.cons hi .nil)
  | some index => exact forall₂_set h hi index

theorem runOn_addMethod (hm : m.registry.KernelIntact)
    (h : List.Forall₂ m.Carries (m.function g).methods texts) (hi : m.Carries i t)
    (hlength : t.specializers.length = (m.function g).required) :
    ∃ old, (addMethod g i).runOn m =
      (.ok old, m.setMethods g (entered (m.function g).methods texts i t)) := by
  have hindex := runOn_signatureIndex? hm h t.qualifiers t.specializers
  rw [addMethod, runOn_bind_of_ok (runOn_methodSpecializers hm hi),
    runOn_bind_of_ok (runOn_methodQualifiers hm hi), runOn_bind_of_ok (runOn_get m)]
  dsimp only
  rw [if_neg (not_not_intro hlength), runOn_bind_of_ok hindex, entered]
  cases texts.findIdx? (·.HasSignature t.qualifiers t.specializers) with
  | none => exact ⟨none, rfl⟩
  | some index => exact ⟨(m.function g).methods[index]?, rfl⟩

theorem runOn_addMethod_of_ne (hm : m.registry.KernelIntact) (hi : m.Carries i t)
    (hlength : t.specializers.length ≠ (m.function g).required) :
    (addMethod g i).runOn m = (.error (.incongruentLambdaList (m.function g).name
      (m.function g).required t.specializers.length), m) := by
  rw [addMethod, runOn_bind_of_ok (runOn_methodSpecializers hm hi),
    runOn_bind_of_ok (runOn_methodQualifiers hm hi), runOn_bind_of_ok (runOn_get m)]
  dsimp only
  rw [if_pos hlength]
  rfl

end Entering

section Installing

variable {spec : MethodSpec} {g : FunctionId} {texts : List MethodReading}

theorem runOn_allocate_method (hm : m.registry.KernelIntact) :
    (allocate KernelClass.standardMethod.id).runOn m =
      (.ok m.instances.length, m.withMethod (.unbound methodEdition) m.nextObject) := by
  rw [allocate, runOn_bind_of_ok (runOn_get m), hm.snapshot]
  rfl

theorem methodOf_withMethod (hm : m.registry.KernelIntact) :
    (m.withMethod s next).methodOf (.object m.instances.length) = .ok m.instances.length := by
  have howner : ((m.withMethod s next).object m.instances.length).owner =
      KernelClass.standardMethod.id := by
    rw [Image.object_withMethod]
  have hgen : m.registry.generation KernelClass.standardMethod.id =
      KernelClass.standardMethod.generation := congrArg Snapshot.generation (hm.snapshot _)
  have hself : KernelClass.standardMethod.id ∈
      m.registry.precedenceList KernelClass.standardMethod.id := by
    rw [Registry.precedenceList, hgen]
    exact List.mem_cons_self
  have hclass : m.isMethodClass KernelClass.standardMethod.id = true := by
    rw [Image.isMethodClass, List.any_eq_true]
    refine ⟨KernelClass.standardMethod.id, hself, ?_⟩
    rw [Registry.className, hgen]
    rfl
  rw [Image.methodOf, howner]
  exact if_pos hclass

theorem runOn_setAttribute (hm : m.registry.KernelIntact) (hs : s.OfMethod) (a : MethodAttribute)
    (v : Value) : (setAttribute m.instances.length a v).runOn (m.withMethod s next) =
      (.ok (), m.withMethod (s.withAttribute a v) next) := by
  have hobject := Image.object_withMethod m s next
  have hedition : (m.withMethod s next).registry.edition?
      ((m.withMethod s next).object m.instances.length).owner = some methodEdition := by
    rw [hobject]
    exact hm.edition?_method
  have hunder : ((m.withMethod s next).object m.instances.length).storage.under methodEdition =
      s := by
    rw [hobject, Storage.under, if_pos (by rw [hs.edition])]
  have hmem : a.slot ∈ (((m.withMethod s next).object m.instances.length).storage.under
      methodEdition).layout.slots := by
    rw [hunder]
    exact hs.mem_slots a
  rw [setAttribute, setSlotValue, putSlot_of_mem Image.lt_withMethod hedition hmem, hunder,
    hs.assign_eq, Image.setStorage_withMethod]

section Steps

variable {α : Type} (f : Value → Action α) (rest : PUnit → Action α)

theorem runOn_newList (items : List Value) : (newList items >>= f).runOn (m.withMethod s next) =
    (f (Value.ofItems next items)).runOn (m.withMethod s (next + 1)) := rfl

theorem runOn_setAttribute_bind (hm : m.registry.KernelIntact) (hs : s.OfMethod)
    (a : MethodAttribute) (v : Value) :
    (setAttribute m.instances.length a v >>= rest).runOn (m.withMethod s next) =
      (rest ()).runOn (m.withMethod (s.withAttribute a v) next) := by
  rw [runOn_bind_of_ok (runOn_setAttribute hm hs a v)]

end Steps

/-- What is put into a method that is installed. -/
def methodStorage (g : FunctionId) (spec : MethodSpec) (next : ObjectId) : Storage :=
  Storage.unbound methodEdition
    |>.withAttribute .genericFunction (.generic g)
    |>.withAttribute .lambdaList (Value.ofItems next (spec.lambdaList.map Value.symbol))
    |>.withAttribute .specializers
      (Value.ofItems (next + 1) (spec.specializers.map Specializer.toValue))
    |>.withAttribute .qualifiers (Value.ofItems (next + 2) (spec.qualifiers.map Value.symbol))
    |>.withAttribute .function (.function spec.function)
    |>.withAttribute .fastFunction
      (match spec.fastFunction with
      | some f => .function f
      | none => .nil)
    |>.withAttribute .documentation
      (match spec.documentation with
      | some text => .string (next + 3) text
      | none => .nil)

def installedValue (g : FunctionId) (spec : MethodSpec) (next : ObjectId) : MethodAttribute → Value
  | .genericFunction => .generic g
  | .lambdaList => Value.ofItems next (spec.lambdaList.map Value.symbol)
  | .specializers => Value.ofItems (next + 1) (spec.specializers.map Specializer.toValue)
  | .qualifiers => Value.ofItems (next + 2) (spec.qualifiers.map Value.symbol)
  | .function => .function spec.function
  | .fastFunction =>
    match spec.fastFunction with
    | some f => .function f
    | none => .nil
  | .documentation =>
    match spec.documentation with
    | some text => .string (next + 3) text
    | none => .nil

theorem attribute?_methodStorage (g : FunctionId) (spec : MethodSpec) (next : ObjectId)
    (a : MethodAttribute) :
    (methodStorage g spec next).attribute? a = some (installedValue g spec next a) := by
  cases a <;> rfl

theorem carries_methodStorage (g : FunctionId) (spec : MethodSpec) (next : ObjectId) :
    (methodStorage g spec next).Carries spec.reading := by
  have hattribute := attribute?_methodStorage g spec next
  refine ⟨⟨rfl, rfl⟩, ?_, ?_, ?_, ?_, ?_, ?_⟩
  · exact ⟨_, hattribute .lambdaList, symbolItems_ofItems next spec.lambdaList⟩
  · exact ⟨_, _, hattribute .specializers, listItems_ofItems (next + 1) _,
      mapM_ofValue_toValue spec.specializers⟩
  · exact ⟨_, hattribute .qualifiers, symbolItems_ofItems (next + 2) spec.qualifiers⟩
  · exact ⟨spec.function, hattribute .function, rfl⟩
  · have hfast := hattribute .fastFunction
    rw [installedValue] at hfast
    cases hf : spec.fastFunction with
    | none =>
      rw [hf] at hfast
      exact Or.inl ⟨hfast, by simp [MethodSpec.reading, hf]⟩
    | some f =>
      rw [hf] at hfast
      exact Or.inr ⟨f, hfast, by simp [MethodSpec.reading, hf]⟩
  · have hdocumentation := hattribute .documentation
    rw [installedValue] at hdocumentation
    cases htext : spec.documentation with
    | none =>
      rw [htext] at hdocumentation
      exact Or.inl ⟨hdocumentation, htext⟩
    | some text =>
      rw [htext] at hdocumentation
      exact Or.inr ⟨next + 3, text, hdocumentation, htext⟩

theorem runOn_installMethod (hm : m.registry.KernelIntact) (g : FunctionId) (spec : MethodSpec) :
    ∃ next, m.nextObject ≤ next ∧ (installMethod g spec).runOn m =
      (do
        discard (addMethod g m.instances.length)
        return m.instances.length : Action InstanceId).runOn
          (m.withMethod (methodStorage g spec m.nextObject) next) := by
  have hunbound := Storage.ofMethod_unbound
  rw [installMethod, runOn_bind_of_ok (runOn_allocate_method hm), runOn_bind_of_ok (runOn_get _),
    methodOf_withMethod hm, runOn_bind_of_ok (runOn_liftM _ _)]
  rw [runOn_setAttribute_bind _ hm hunbound]
  have h1 := hunbound.withAttribute .genericFunction (.generic g)
  rw [runOn_newList, runOn_setAttribute_bind _ hm h1]
  have h2 := h1.withAttribute .lambdaList
    (Value.ofItems m.nextObject (spec.lambdaList.map Value.symbol))
  rw [runOn_newList, runOn_setAttribute_bind _ hm h2]
  have h3 := h2.withAttribute .specializers
    (Value.ofItems (m.nextObject + 1) (spec.specializers.map Specializer.toValue))
  rw [runOn_newList, runOn_setAttribute_bind _ hm h3]
  have h4 := h3.withAttribute .qualifiers
    (Value.ofItems (m.nextObject + 2) (spec.qualifiers.map Value.symbol))
  rw [runOn_setAttribute_bind _ hm h4]
  have h5 := h4.withAttribute .function (.function spec.function)
  rw [runOn_setAttribute_bind _ hm h5]
  have h6 := h5.withAttribute .fastFunction
    (match spec.fastFunction with
    | some f => .function f
    | none => .nil)
  cases htext : spec.documentation with
  | none =>
    refine ⟨m.nextObject + 3, Nat.le_add_right _ _, ?_⟩
    rw [methodStorage, htext]
    exact runOn_setAttribute_bind (fun _ => do
      discard (addMethod g m.instances.length)
      return m.instances.length) hm h6 .documentation .nil
  | some text =>
    refine ⟨m.nextObject + 4, Nat.le_add_right _ _, ?_⟩
    rw [methodStorage, htext]
    exact runOn_setAttribute_bind (fun _ => do
      discard (addMethod g m.instances.length)
      return m.instances.length) hm h6 .documentation (.string (m.nextObject + 3) text)

end Installing

end Action

end Metaobject
