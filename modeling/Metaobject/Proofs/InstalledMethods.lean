import Metaobject.Proofs.MethodRuns

/-!
# Installed methods

A method that was installed is read back as it was written, attribute by attribute. It stays readable
through all steps that do not write to it, whatever else happens: its class is never redefined, and
reading only brings instances to the current layouts of their classes. So another method can always be
installed beside methods of this kind.
-/

namespace Metaobject

/-- What is read of a method that was installed in a generic function. Reading leaves the image as it
is. -/
structure Image.ReadsBack (m : Image) (i : InstanceId) (g : FunctionId) (spec : MethodSpec) :
    Prop where
  initialized : (Action.isInitialized i).runOn m = (.ok true, m)
  genericFunction : (Action.methodFunction? i).runOn m = (.ok (some g), m)
  lambdaList : (Action.methodLambdaList i).runOn m = (.ok spec.lambdaList, m)
  specializers : (Action.methodSpecializers i).runOn m = (.ok spec.specializers, m)
  qualifiers : (Action.methodQualifiers i).runOn m = (.ok spec.qualifiers, m)
  function : (Action.methodBody i).runOn m = (.ok spec.function, m)
  fastFunction : (Action.methodFastBody? i).runOn m = (.ok spec.fastFunction, m)
  documentation : (Action.methodDocumentation? i).runOn m = (.ok spec.documentation, m)

namespace Action

variable {m : Image} {i : InstanceId} {t : MethodReading} {g : FunctionId} {spec : MethodSpec}
  {next : ObjectId}

section Reading

variable (hm : m.registry.KernelIntact) (hi : m.Carries i t)

include hm hi

theorem runOn_isSlotBound {a : MethodAttribute} {v : Value}
    (hv : (m.object i).storage.attribute? a = some v) :
    (isSlotBound i a.slot).runOn m = (.ok true, m) := by
  have hedition : m.registry.edition? (m.object i).owner = some methodEdition := by
    rw [hi.owner]
    exact hm.edition?_method
  have hunder : (m.object i).storage.under methodEdition = (m.object i).storage := by
    rw [Storage.under, if_pos (by rw [hi.storage.ofMethod.edition])]
  have hmem : a.slot ∈ ((m.object i).storage.under methodEdition).layout.slots := by
    rw [hunder]
    exact hi.storage.ofMethod.mem_slots a
  rw [isSlotBound_of_mem hi.lt hedition hmem, hunder, hi.storage.ofMethod.value?_eq, hv,
    updated_method hi]
  rfl

theorem runOn_allBound (hall : ∀ a, ∃ v, (m.object i).storage.attribute? a = some v)
    (attributes : List MethodAttribute) : (allBound i attributes).runOn m = (.ok true, m) := by
  induction attributes with
  | nil => rfl
  | cons a rest ih =>
    obtain ⟨v, hv⟩ := hall a
    rw [allBound, runOn_bind_of_ok (runOn_isSlotBound hm hi hv), if_pos rfl, ih]

end Reading

theorem readsBack_of_storage (hm : m.registry.KernelIntact) (hi : m.Carries i spec.reading)
    (hs : (m.object i).storage = methodStorage g spec next) : m.ReadsBack i g spec := by
  have hattribute : ∀ a, (m.object i).storage.attribute? a = some (installedValue g spec next a) := by
    intro a
    rw [hs, attribute?_methodStorage]
  have hslot := fun a => runOn_slotValue hm hi (hattribute a)
  constructor
  · exact runOn_allBound hm hi (fun a => ⟨_, hattribute a⟩) MethodAttribute.all
  · rw [methodFunction?, runOn_bind_of_ok (hslot .genericFunction)]
    rfl
  · exact runOn_methodLambdaList hm hi
  · exact runOn_methodSpecializers hm hi
  · exact runOn_methodQualifiers hm hi
  · rw [methodBody, runOn_bind_of_ok (hslot .function)]
    rfl
  · rw [methodFastBody?, runOn_bind_of_ok (hslot .fastFunction), installedValue]
    cases spec.fastFunction <;> rfl
  · exact runOn_methodDocumentation? hm hi

theorem installMethod_readsBack {texts : List MethodReading} (hm : m.registry.KernelIntact)
    (h : List.Forall₂ m.Carries (m.function g).methods texts)
    (hlength : spec.specializers.length = (m.function g).required) :
    ∃ m', (installMethod g spec).runOn m = (.ok m.instances.length, m') ∧
      m'.ReadsBack m.instances.length g spec := by
  obtain ⟨next, _, hrun⟩ := runOn_installMethod hm g spec
  have hcarries := m.carries_withMethod next (carries_methodStorage g spec m.nextObject)
  have hobject := m.object_withMethod (methodStorage g spec m.nextObject) next
  generalize hmade : m.withMethod (methodStorage g spec m.nextObject) next = made at *
  have hregistry : made.registry.KernelIntact := by
    rw [← hmade]
    exact hm
  have hfunction : made.function g = m.function g := by
    rw [← hmade]
    rfl
  have hothers : List.Forall₂ made.Carries (made.function g).methods texts := by
    rw [hfunction]
    exact h.imp fun j u hj => hj.mono (hmade ▸ ⟨_, rfl⟩)
  obtain ⟨old, hadd⟩ := runOn_addMethod hregistry hothers hcarries (hfunction ▸ hlength)
  refine ⟨made.setMethods g (entered (made.function g).methods texts m.instances.length
    spec.reading), ?_, ?_⟩
  · rw [hrun, runOn_bind, runOn_discard, hadd]
    rfl
  · -- The methods of the function changed, and no instance.
    exact readsBack_of_storage hregistry (hcarries.mono List.prefix_rfl)
      (congrArg Instance.storage hobject)

/-- The action changes no class, and no method of which everything can be read. -/
def KeepsMethods {α : Type} (a : Action α) : Prop :=
  ∀ m : Image, m.registry.KernelIntact → (a.runOn m).2.registry = m.registry ∧
    ∀ i t, m.Carries i t → (a.runOn m).2.Carries i t

section Keeping

variable {α β : Type} {a : Action α} {f : α → Action β}

theorem keepsMethods_of_same (h : ∀ m, (a.runOn m).2.registry = m.registry ∧
    m.instances <+: (a.runOn m).2.instances) : KeepsMethods a :=
  fun m _ => ⟨(h m).1, fun _ _ hi => hi.mono (h m).2⟩

theorem keepsMethods_pure (x : α) : KeepsMethods (pure x : Action α) :=
  keepsMethods_of_same fun _ => ⟨rfl, List.prefix_rfl⟩

theorem keepsMethods_get : KeepsMethods (get : Action Image) :=
  keepsMethods_of_same fun _ => ⟨rfl, List.prefix_rfl⟩

theorem keepsMethods_liftM (x : Except Fault α) : KeepsMethods (liftM x : Action α) :=
  keepsMethods_of_same fun m => by
    rw [runOn_liftM]
    exact ⟨rfl, List.prefix_rfl⟩

theorem keepsMethods_setMethods (g : FunctionId) (methods : List InstanceId) :
    KeepsMethods (modify fun m => m.setMethods g methods : Action PUnit) :=
  keepsMethods_of_same fun _ => ⟨rfl, List.prefix_rfl⟩

theorem KeepsMethods.bind (ha : KeepsMethods a) (hf : ∀ x, KeepsMethods (f x)) :
    KeepsMethods (a >>= f) := by
  intro m hm
  obtain ⟨hregistry, hcarries⟩ := ha m hm
  rw [runOn_bind]
  cases hrun : a.runOn m with
  | mk x next =>
    rw [hrun] at hregistry hcarries
    cases x with
    | error e => exact ⟨hregistry, hcarries⟩
    | ok x =>
      obtain ⟨hrest, hlast⟩ := hf x next (hregistry ▸ hm)
      exact ⟨hrest.trans hregistry, fun i t hi => hlast i t (hcarries i t hi)⟩

/-- Reading a slot brings one instance to its current layout, under which a method is stored
already. -/
theorem keepsMethods_slotValue (j : InstanceId) (n : Symbol) : KeepsMethods (slotValue j n) := by
  intro m hm
  by_cases hj : j < m.instances.length
  · rw [runOn_slotValue_settle hj]
    refine ⟨rfl, fun i t hi => ?_⟩
    by_cases hij : i = j
    · subst hij
      have hsame : m.settle i = m := by
        rw [Image.settle, Image.settled, hi.owner, hm.edition?_method]
        exact updated_method hi
      rw [hsame]
      exact hi
    · refine ⟨?_, ?_, ?_⟩
      · rw [(Image.matches_settle m j).length]
        exact hi.lt
      · rw [(Image.matches_settle m j).owner]
        exact hi.owner
      · rw [Image.settle, Image.object_setStorage_of_ne hij]
        exact hi.storage
  · obtain ⟨e, hrun⟩ := slotValue_of_le (Nat.le_of_not_lt hj) n
    rw [hrun]
    exact ⟨rfl, fun _ _ hi => hi⟩

theorem keepsMethods_methodSpecializers (j : InstanceId) : KeepsMethods (methodSpecializers j) :=
  (keepsMethods_slotValue j _).bind fun _ => (keepsMethods_liftM _).bind fun _ =>
    keepsMethods_liftM _

theorem keepsMethods_methodQualifiers (j : InstanceId) : KeepsMethods (methodQualifiers j) :=
  (keepsMethods_slotValue j _).bind fun _ => keepsMethods_liftM _

theorem keepsMethods_hasSignature (j : InstanceId) (qualifiers : List Symbol)
    (specializers : List Specializer) : KeepsMethods (hasSignature j qualifiers specializers) := by
  unfold hasSignature
  refine (keepsMethods_methodQualifiers j).bind fun _ => ?_
  split
  · exact keepsMethods_pure false
  · exact (keepsMethods_methodSpecializers j).bind fun _ => keepsMethods_pure _

theorem keepsMethods_signatureIndex? (qualifiers : List Symbol) (specializers : List Specializer)
    (methods : List InstanceId) : KeepsMethods (signatureIndex? qualifiers specializers methods) := by
  induction methods with
  | nil => exact keepsMethods_pure none
  | cons j rest ih =>
    unfold signatureIndex?
    refine (keepsMethods_hasSignature j qualifiers specializers).bind fun _ => ?_
    split
    · exact keepsMethods_pure (some 0)
    · exact ih.bind fun _ => keepsMethods_pure _

theorem keepsMethods_addMethod (g : FunctionId) (j : InstanceId) : KeepsMethods (addMethod g j) := by
  unfold addMethod
  refine (keepsMethods_methodSpecializers j).bind fun specializers => ?_
  refine (keepsMethods_methodQualifiers j).bind fun qualifiers => keepsMethods_get.bind fun m => ?_
  dsimp only
  split
  · exact keepsMethods_of_same fun _ => ⟨rfl, List.prefix_rfl⟩
  · refine (keepsMethods_signatureIndex? qualifiers specializers _).bind fun index? => ?_
    cases index? with
    | none => exact (keepsMethods_setMethods g _).bind fun _ => keepsMethods_pure _
    | some index => exact (keepsMethods_setMethods g _).bind fun _ => keepsMethods_pure _

theorem keepsMethods_removeMethod (g : FunctionId) (j : InstanceId) :
    KeepsMethods (removeMethod g j) :=
  keepsMethods_get.bind fun _ => (keepsMethods_setMethods g _).bind fun _ => keepsMethods_pure _

theorem keepsMethods_newGenericFunction (name : Symbol) (lambdaList : List Symbol)
    (documentation : Option String) :
    KeepsMethods (newGenericFunction name lambdaList documentation) :=
  keepsMethods_of_same fun _ => ⟨rfl, List.prefix_rfl⟩

theorem keepsMethods_ensureGenericFunction (name : Symbol) (lambdaList : List Symbol)
    (documentation : Option String) :
    KeepsMethods (ensureGenericFunction name lambdaList documentation) := by
  intro m hm
  rcases ensureGenericFunction_cases m name lambdaList documentation with
    ⟨g, _, _, hrun⟩ | ⟨f, hrun⟩ | ⟨_, hrun⟩
  · rw [hrun]
    exact ⟨rfl, fun _ _ hi => hi⟩
  · rw [hrun]
    exact ⟨rfl, fun _ _ hi => hi⟩
  · rw [hrun]
    exact ⟨rfl, fun _ _ hi => hi.mono List.prefix_rfl⟩

/-- A method is made beside the others, and then the function is searched for its place. -/
theorem installMethod_carries (hm : m.registry.KernelIntact) (g : FunctionId) (spec : MethodSpec) :
    ((installMethod g spec).runOn m).2.registry = m.registry ∧
      (∀ i t, m.Carries i t → ((installMethod g spec).runOn m).2.Carries i t) ∧
      ∀ i, ((installMethod g spec).runOn m).1 = .ok i →
        ((installMethod g spec).runOn m).2.Carries i spec.reading := by
  obtain ⟨next, _, hrun⟩ := runOn_installMethod hm g spec
  have hcarries := m.carries_withMethod next (carries_methodStorage g spec m.nextObject)
  obtain ⟨hregistry, hkept⟩ := (keepsMethods_addMethod g m.instances.length)
    (m.withMethod (methodStorage g spec m.nextObject) next) hm
  rw [hrun, runOn_bind, runOn_discard]
  cases hadded : (addMethod g m.instances.length).runOn
      (m.withMethod (methodStorage g spec m.nextObject) next) with
  | mk x last =>
    rw [hadded] at hregistry hkept
    have hothers : ∀ i t, m.Carries i t → last.Carries i t :=
      fun i t hi => hkept i t (hi.mono ⟨_, rfl⟩)
    cases x with
    | error e => exact ⟨hregistry, hothers, nofun⟩
    | ok old =>
      refine ⟨hregistry, hothers, fun i hi => ?_⟩
      cases hi
      exact hkept _ _ hcarries

theorem keepsMethods_call (c : FunctionCall) (m : Image) (hm : m.registry.KernelIntact) :
    (c.after m).registry = m.registry ∧ ∀ i t, m.Carries i t → (c.after m).Carries i t := by
  cases c with
  | create name lambdaList documentation =>
    exact keepsMethods_newGenericFunction name lambdaList documentation m hm
  | ensure name lambdaList documentation =>
    exact keepsMethods_ensureGenericFunction name lambdaList documentation m hm
  | install g spec =>
    obtain ⟨hregistry, hcarries, _⟩ := installMethod_carries hm g spec
    exact ⟨hregistry, hcarries⟩
  | add g j => exact keepsMethods_addMethod g j m hm
  | remove g j => exact keepsMethods_removeMethod g j m hm

end Keeping

end Action

theorem exists_forall₂ {α β : Type} {R : α → β → Prop} {l : List α} (h : ∀ a ∈ l, ∃ b, R a b) :
    ∃ l', List.Forall₂ R l l' := by
  induction l with
  | nil => exact ⟨[], .nil⟩
  | cons a l ih =>
    obtain ⟨⟨b, hb⟩, hrest⟩ := List.forall_mem_cons.mp h
    obtain ⟨l', hl'⟩ := ih hrest
    exact ⟨b :: l', .cons hb hl'⟩

def Command.written? : Command → Option InstanceId
  | .access i a => if a.change?.isSome then some i else none
  | .writeAt i _ _ => some i
  | .classes _ | .hold _ | .allocate _ _ | .readAt _ _ | .functions _ _ _ => none

namespace Session

variable {limits : Limits} {s : Session} {cmd : Command} {g : FunctionId} {spec : MethodSpec}
  {i : InstanceId} {t : MethodReading} {installed : List InstanceId}

/-- Sessions with calls on generic functions, and the methods that were installed and not written to
since. -/
inductive Recorded (limits : Limits) : Session → List InstanceId → Prop
  | fresh : Recorded limits (.fresh limits) []
  | step {s : Session} {installed : List InstanceId} {cmd : Command} :
      Recorded limits s installed → s.Allowed cmd →
      Recorded limits (s.perform cmd) (installed.filter fun i => cmd.written? ≠ some i)
  | call {s : Session} {installed : List InstanceId} (c : FunctionCall) :
      Recorded limits s installed → Recorded limits (s.call c) installed
  | install {s : Session} {installed : List InstanceId} {g : FunctionId} {spec : MethodSpec}
      {i : InstanceId} : Recorded limits s installed →
      ((Action.installMethod g spec).runOn s.image).1 = .ok i →
      Recorded limits (s.call (.install g spec)) (i :: installed)

theorem carries_perform (hm : s.image.registry.KernelIntact) (hi : s.image.Carries i t)
    (ha : s.Allowed cmd) (hwritten : cmd.written? ≠ some i) : (s.perform cmd).image.Carries i t := by
  have hobject : (s.perform cmd).image.object i = s.image.object i := by
    rcases object_perform ha hi.lt with hsame | ⟨a, rfl, hobject⟩ | ⟨index, v, rfl, _⟩
    · exact hsame
    · have hnone : a.change? = none := by
        cases hchange : a.change? with
        | none => rfl
        | some change => exact absurd (by rw [Command.written?, hchange]; rfl) hwritten
      have hstored : (s.image.object i).storage.under methodEdition = (s.image.object i).storage := by
        rw [Storage.under, if_pos (by rw [hi.storage.ofMethod.edition])]
      rw [hobject, NamedAccess.after, hi.owner, hm.edition?_method]
      dsimp only
      rw [NamedAccess.store, hnone, hstored, ← hi.owner]
    · exact absurd rfl hwritten
  refine ⟨Nat.lt_of_lt_of_le hi.lt (length_perform ha), ?_, ?_⟩
  · rw [hobject]
    exact hi.owner
  · rw [hobject]
    exact hi.storage

theorem Recorded.invariant (h : Recorded limits s installed) :
    Registry.Reachable limits s.image.registry ∧ ∀ i ∈ installed, ∃ t, s.image.Carries i t := by
  induction h with
  | fresh => exact ⟨.fresh, nofun⟩
  | @step s installed cmd _ ha ih =>
    obtain ⟨hregistry, hcarries⟩ := ih
    constructor
    · rcases registry_perform ha with hsame | ⟨op, rfl, hop⟩
      · rw [hsame]
        exact hregistry
      · rw [hop]
        exact hregistry.step ha
    · intro i hi
      obtain ⟨hmem, hwritten⟩ := List.mem_filter.mp hi
      obtain ⟨t, ht⟩ := hcarries i hmem
      exact ⟨t, carries_perform hregistry.kernelIntact ht ha (of_decide_eq_true hwritten)⟩
  | call c _ ih =>
    obtain ⟨hregistry, hcarries⟩ := ih
    obtain ⟨hsame, hkept⟩ := Action.keepsMethods_call c _ hregistry.kernelIntact
    refine ⟨hsame.symm ▸ hregistry, fun i hi => ?_⟩
    obtain ⟨t, ht⟩ := hcarries i hi
    exact ⟨t, hkept i t ht⟩
  | install _ hinstall ih =>
    obtain ⟨hregistry, hcarries⟩ := ih
    obtain ⟨hsame, hkept, hnew⟩ := Action.installMethod_carries hregistry.kernelIntact _ _
    refine ⟨hsame.symm ▸ hregistry, fun i hi => ?_⟩
    rcases List.mem_cons.mp hi with rfl | hi
    · exact ⟨_, hnew i hinstall⟩
    · obtain ⟨t, ht⟩ := hcarries i hi
      exact ⟨t, hkept i t ht⟩

theorem Recorded.performAll {cmds : List Command} (h : Recorded limits s installed)
    (ha : s.AllSteps Allowed cmds) (hw : ∀ cmd ∈ cmds, cmd.written? = none) :
    Recorded limits (s.performAll cmds) installed := by
  induction cmds generalizing s with
  | nil => exact h
  | cons cmd rest ih =>
    obtain ⟨hnone, hrest⟩ := List.forall_mem_cons.mp hw
    have hstep := h.step ha.1
    rw [hnone] at hstep
    refine ih ?_ ha.2 hrest
    simpa using hstep

/-- Beside methods that were installed and not written to since, a method that fits is installed and
read back. -/
theorem Recorded.install_readsBack (h : Recorded limits s installed)
    (hmethods : ∀ i ∈ (s.image.function g).methods, i ∈ installed)
    (hlength : spec.specializers.length = (s.image.function g).required) :
    ∃ m', (Action.installMethod g spec).runOn s.image = (.ok s.image.instances.length, m') ∧
      m'.ReadsBack s.image.instances.length g spec := by
  obtain ⟨hregistry, hcarries⟩ := h.invariant
  obtain ⟨texts, htexts⟩ := exists_forall₂ fun i hi => hcarries i (hmethods i hi)
  exact Action.installMethod_readsBack hregistry.kernelIntact htexts hlength

/-- Every method that fits is installed in a generic function whose methods were installed and not written
to since. All that was written is read of it, and its specializers are the same as those that were given,
place by place. -/
theorem recorded_install_reads_back (h : Recorded limits s installed)
    (hmethods : ∀ i ∈ (s.image.function g).methods, i ∈ installed)
    (hlength : spec.specializers.length = (s.image.function g).required) :
    ∃ i m', (Action.installMethod g spec).runOn s.image = (.ok i, m') ∧
      m'.ReadsBack i g spec ∧ Action.sameSpecializers spec.specializers spec.specializers = true := by
  obtain ⟨m', hrun, hback⟩ := h.install_readsBack hmethods hlength
  exact ⟨_, m', hrun, hback, (Action.sameSpecializers_iff_identity _ _).mpr rfl⟩

def readArea : Session :=
  ((fresh Limits.standard).call (.ensure ⟨"AREA"⟩ [⟨"SHAPE"⟩] none)
    |>.call (.install 0 areaMethod)).performAll
      [.classes (.define .point), .access 0 (.read MethodAttribute.qualifiers.slot)]

theorem recorded_readArea : Recorded Limits.standard readArea [0] := by
  have hensured : Recorded Limits.standard
      ((fresh Limits.standard).call (.ensure ⟨"AREA"⟩ [⟨"SHAPE"⟩] none)) [] :=
    Recorded.fresh.call _
  obtain ⟨m', hrun, _⟩ :
      ∃ m', (Action.installMethod 0 areaMethod).runOn
          ((fresh Limits.standard).call (.ensure ⟨"AREA"⟩ [⟨"SHAPE"⟩] none)).image = (.ok 0, m') ∧
        m'.ReadsBack 0 0 areaMethod :=
    hensured.install_readsBack (by decide +kernel) (by decide +kernel)
  have hinstalled := hensured.install (congrArg Prod.fst hrun)
  exact hinstalled.performAll (by decide +kernel) (by decide)

def areaOfUnit : MethodSpec :=
  ⟨[⟨"UNIT"⟩, ⟨"&REST"⟩, ⟨"SHAPES"⟩], [.eql (.eqlSpecializer (.string 7 "acre"))], [⟨":AROUND"⟩],
    ⟨some ⟨"AREA"⟩, ⟨8, "area-of-unit"⟩⟩, some ⟨none, ⟨9, "area-of-acre"⟩⟩, some "Areas in acres."⟩

theorem readArea_install_reads_back :
    Recorded Limits.standard readArea [0] ∧ (readArea.image.function 0).methods = [0] ∧
      areaOfUnit.specializers.length = (readArea.image.function 0).required ∧
      ∃ i m', (Action.installMethod 0 areaOfUnit).runOn readArea.image = (.ok i, m') ∧
        (Action.methodSpecializers i).runOn m' =
          (.ok [.eql (.eqlSpecializer (.string 7 "acre"))], m') ∧
        (Action.methodDocumentation? i).runOn m' = (.ok (some "Areas in acres."), m') := by
  have hmethods : (readArea.image.function 0).methods = [0] := by decide +kernel
  have hlength : areaOfUnit.specializers.length = (readArea.image.function 0).required := by
    decide +kernel
  obtain ⟨i, m', hrun, hback, _⟩ := recorded_install_reads_back recorded_readArea
    (fun i hi => hmethods ▸ hi) hlength
  exact ⟨recorded_readArea, hmethods, hlength, i, m', hrun, hback.specializers,
    hback.documentation⟩

end Session

end Metaobject
