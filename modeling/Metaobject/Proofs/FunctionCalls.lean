import Metaobject.Proofs.MethodLists

/-!
# Calls on generic functions

A call leaves the tables of methods as they are, or enters or removes one method. Whether it reads methods
or makes a new one, what was read of the methods in the tables is read of them afterwards.
-/

namespace Metaobject

def MethodSpec.signature (spec : MethodSpec) : Signature := ⟨spec.qualifiers, spec.specializers⟩

namespace Image

variable {m m' made next : Image} {i j : InstanceId} {σ : Signature} {g : FunctionId}
  {f : GenericFunction}

/-- Generic functions stay what they are, and what could be read of an instance is read of it. -/
structure Retains (m m' : Image) : Prop where
  registry : m'.registry = m.registry
  functions : m'.functions = m.functions
  functionNames : m'.functionNames = m.functionNames
  signature : ∀ i, i < m.instances.length → m'.signature? i = m.signature? i

section Retaining

theorem Retains.function (h : m.Retains m') (g : FunctionId) : m'.function g = m.function g := by
  rw [Image.function, h.functions, Image.function]

theorem Matches.retains (h : m.Matches m') : m.Retains m' :=
  ⟨h.registry, h.functions, h.functionNames, fun i _ => h.signature? i⟩

theorem Retains.matches (h : m.Retains made) (hmatches : made.Matches m') : m.Retains m' where
  registry := hmatches.registry.trans h.registry
  functions := hmatches.functions.trans h.functions
  functionNames := hmatches.functionNames.trans h.functionNames
  signature i hi := (hmatches.signature? i).trans (h.signature i hi)

theorem Tabled.lt (h : m.Tabled) (hi : i ∈ (m.function g).methods) : i < m.instances.length := by
  obtain ⟨σ, hσ, _⟩ := h.signed g i hi
  exact lt_of_signature? hσ

theorem Tabled.retains (h : m.Tabled) (hretains : m.Retains m') : m'.Tabled :=
  h.mono (fun g => Or.inl (hretains.function g)) fun _ i hi => hretains.signature i (h.lt hi)

theorem Tabled.signedAs_retains (h : m.Tabled) (hretains : m.Retains m')
    (hi : i ∈ (m.function g).methods) (σ : Signature) : m'.signedAs σ i = m.signedAs σ i := by
  rw [signedAs, hretains.signature i (h.lt hi), signedAs]

theorem Tabled.find?_retains (h : m.Tabled) (hretains : m.Retains m') (g : FunctionId)
    (σ : Signature) : (m.function g).methods.find? (m'.signedAs σ) =
      (m.function g).methods.find? (m.signedAs σ) :=
  List.find?_congr fun _ hi => h.signedAs_retains hretains hi σ

theorem retains_withMethod (m : Image) (s : Storage) (next : ObjectId) :
    m.Retains (m.withMethod s next) := by
  refine ⟨rfl, rfl, rfl, fun i hi => ?_⟩
  have hobject : (m.withMethod s next).object i = m.object i := by
    rw [object, withMethod, List.getElem?_append_left hi, object]
  have hlt : i < (m.withMethod s next).instances.length := by
    rw [withMethod, List.length_append]
    exact Nat.lt_add_right _ hi
  have hregistry : (m.withMethod s next).registry = m.registry := rfl
  have hsettled : (m.withMethod s next).settled i = m.settled i := by
    rw [settled, hobject, hregistry, settled]
  exact signature?_congr hi hlt hregistry (congrArg Instance.owner hobject) hsettled

theorem signature?_of_carries {t : MethodReading} (hm : m.registry.KernelIntact)
    (hi : m.Carries i t) : m.signature? i = some ⟨t.qualifiers, t.specializers⟩ := by
  rw [signature?, Action.runOn_methodQualifiers hm hi, Action.runOn_methodSpecializers hm hi]

theorem Tabled.append {names : Table Symbol FunctionId} (h : m.Tabled) (hf : f.methods = []) :
    { m with functions := m.functions ++ [f], functionNames := names }.Tabled := by
  apply h.mono
  · intro g
    rcases Nat.lt_trichotomy g m.functions.length with hlt | rfl | hlt
    · left
      rw [Image.function, List.getElem?_append_left hlt, Image.function]
    · right
      simp [Image.function, hf]
    · right
      rw [function_of_le]
      rw [List.length_append]
      exact hlt
  · intro g i _
    apply Agrees.signature?
    exact agrees_of_instances rfl rfl

end Retaining

/-- A method that fits is entered in a generic function. Before that, it may have been made, and methods
may have been read. -/
def Enters (m next : Image) (g : FunctionId) (i : InstanceId) (σ : Signature) : Prop :=
  ∃ made read, m.Retains made ∧ made.signature? i = some σ ∧
    σ.specializers.length = (m.function g).required ∧ made.Matches read ∧
    next = read.setMethods g (made.enter σ i (m.function g).methods)

namespace Enters

variable (h : m.Enters next g i σ)

include h

theorem registry : next.registry = m.registry := by
  obtain ⟨made, read, hretains, _, _, hread, rfl⟩ := h
  exact (hretains.matches hread).registry

theorem functionNames : next.functionNames = m.functionNames := by
  obtain ⟨made, read, hretains, _, _, hread, rfl⟩ := h
  exact (hretains.matches hread).functionNames

theorem length : next.functions.length = m.functions.length := by
  obtain ⟨made, read, hretains, _, _, hread, rfl⟩ := h
  rw [length_setMethods, (hretains.matches hread).functions]

theorem signature (hj : j < m.instances.length) : next.signature? j = m.signature? j := by
  obtain ⟨made, read, hretains, _, _, hread, rfl⟩ := h
  rw [(agrees_setMethods read g _).signature?]
  exact (hretains.matches hread).signature j hj

theorem signature_self : next.signature? i = some σ := by
  obtain ⟨made, read, _, hi, _, hread, rfl⟩ := h
  rw [(agrees_setMethods read g _).signature?, hread.signature?, hi]

theorem others {k : FunctionId} (hk : k ≠ g) : next.function k = m.function k := by
  obtain ⟨made, read, hretains, _, _, hread, rfl⟩ := h
  rw [function_setMethods_of_ne hk]
  exact (hretains.matches hread).function k

theorem tabled (hm : m.Tabled) : next.Tabled := by
  obtain ⟨made, read, hretains, hi, hlength, hread, rfl⟩ := h
  rw [← hretains.function] at hlength ⊢
  exact tabled_enter (hm.retains hretains) hread hi hlength

theorem mem_self (hg : g < m.functions.length) : i ∈ (next.function g).methods := by
  obtain ⟨made, read, hretains, _, _, hread, rfl⟩ := h
  have hlt : g < read.functions.length := (hretains.matches hread).functions.symm ▸ hg
  rw [function_setMethods_self hlt]
  exact mem_enter_self made σ i _

theorem mem_of_not_signed (hm : m.Tabled) (hj : j ∈ (m.function g).methods)
    (hother : m.signedAs σ j = false) : j ∈ (next.function g).methods := by
  obtain ⟨made, read, hretains, _, _, hread, rfl⟩ := h
  by_cases hg : g < m.functions.length
  · have hlt : g < read.functions.length := (hretains.matches hread).functions.symm ▸ hg
    rw [← hm.signedAs_retains hretains hj] at hother
    rw [function_setMethods_self hlt]
    exact mem_enter_of_not_signed hj hother
  · rw [function_of_le (Nat.le_of_not_lt hg)] at hj
    contradiction

theorem entered (hm : m.Tabled) (hg : g < m.functions.length) :
    m.Entered next g i σ ((m.function g).methods.find? (m.signedAs σ)) := by
  have htabled := tabled h hm
  have hothers : ∀ k, k ≠ g → next.function k = m.function k := fun k hk => others h hk
  obtain ⟨made, read, hretains, hi, hlength, hread, rfl⟩ := h
  have hmade := hm.retains hretains
  rw [← hretains.function] at hlength
  have hentered := entered_enter hmade hread hi hlength (hretains.functions.symm ▸ hg)
  rw [hretains.function, hm.find?_retains hretains] at hentered
  constructor
  · rcases hentered.methods with ⟨k, j, hk, hsigned, hold, hmethods⟩ | ⟨hnone, hold, hmethods⟩
    · rw [hretains.function] at hk hmethods
      rw [hm.signedAs_retains hretains (List.mem_of_getElem? hk)] at hsigned
      exact Or.inl ⟨k, j, hk, hsigned, hold, hmethods⟩
    · rw [hretains.function] at hnone hmethods
      refine Or.inr ⟨fun j hj => ?_, hold, hmethods⟩
      rw [← hm.signedAs_retains hretains hj]
      exact hnone j hj
  · exact hentered.found
  · intro τ hτ
    rw [hentered.kept τ hτ, hmade.methodFor_eq, hm.methodFor_eq, hretains.function,
      hm.find?_retains hretains]
  · exact hothers

end Enters

end Image

namespace Action

open Image

variable {m : Image}

theorem addMethod_of_fits (h : m.Tabled) {g : FunctionId} {i : InstanceId} {σ : Signature}
    (hi : m.signature? i = some σ) (hlength : σ.specializers.length = (m.function g).required) :
    ∃ m', m.Enters m' g i σ ∧
      (addMethod g i).runOn m = (.ok ((m.function g).methods.find? (m.signedAs σ)), m') := by
  obtain ⟨m', hmatches, hrun⟩ := runOn_addMethod_matches (h.readable g) hi hlength
  exact ⟨_, ⟨m, m', (Matches.refl m).retains, hi, hlength, hmatches, rfl⟩, hrun⟩

theorem addMethod_cases (h : m.Tabled) (g : FunctionId) (i : InstanceId) :
    (∃ f m', m.Retains m' ∧ (addMethod g i).runOn m = (.error f, m')) ∨
      ∃ σ m', m.signature? i = some σ ∧ m.Enters m' g i σ ∧
        (addMethod g i).runOn m = (.ok ((m.function g).methods.find? (m.signedAs σ)), m') := by
  cases hi : m.signature? i with
  | none =>
    obtain ⟨f, m', hmatches, hrun⟩ := runOn_addMethod_unreadable hi g
    exact Or.inl ⟨f, m', hmatches.retains, hrun⟩
  | some σ =>
    by_cases hlength : σ.specializers.length = (m.function g).required
    · obtain ⟨m', henters, hrun⟩ := addMethod_of_fits h hi hlength
      exact Or.inr ⟨σ, m', rfl, henters, hrun⟩
    · exact Or.inl ⟨_, m.settle i, (matches_settle m i).retains, runOn_addMethod_misfit hi hlength⟩

theorem runOn_installMethod_made (hm : m.registry.KernelIntact) (g : FunctionId)
    (spec : MethodSpec) : ∃ made, m.Retains made ∧
      made.signature? m.instances.length = some spec.signature ∧ (installMethod g spec).runOn m =
        (do
          discard (addMethod g m.instances.length)
          return m.instances.length : Action InstanceId).runOn made := by
  obtain ⟨next, _, hrun⟩ := runOn_installMethod hm g spec
  have hstorage := carries_methodStorage g spec m.nextObject
  generalize methodStorage g spec m.nextObject = s at hrun hstorage
  have hregistry : (m.withMethod s next).registry.KernelIntact := hm
  have hsignature := signature?_of_carries hregistry (carries_withMethod m next hstorage)
  exact ⟨m.withMethod s next, retains_withMethod m s next, hsignature, hrun⟩

theorem installMethod_enters (h : m.Tabled) (hm : m.registry.KernelIntact) (g : FunctionId)
    (spec : MethodSpec) :
    (spec.specializers.length ≠ (m.function g).required ∧
        ∃ f m', m.Retains m' ∧ (installMethod g spec).runOn m = (.error f, m')) ∨
      spec.specializers.length = (m.function g).required ∧
        ∃ m', m.Enters m' g m.instances.length spec.signature ∧
          (installMethod g spec).runOn m = (.ok m.instances.length, m') := by
  obtain ⟨made, hretains, hsignature, hrun⟩ := runOn_installMethod_made hm g spec
  rw [hrun, runOn_bind, runOn_discard]
  by_cases hlength : spec.specializers.length = (m.function g).required
  · right
    have hfits : spec.signature.specializers.length = (made.function g).required := by
      rw [hretains.function]
      exact hlength
    obtain ⟨read, hread, hadd⟩ :=
      runOn_addMethod_matches ((h.retains hretains).readable g) hsignature hfits
    rw [hretains.function] at hadd
    refine ⟨hlength, _, ⟨made, read, hretains, hsignature, hlength, hread, rfl⟩, ?_⟩
    rw [hadd]
    rfl
  · left
    have hmisfit : spec.signature.specializers.length ≠ (made.function g).required := by
      rw [hretains.function]
      exact hlength
    rw [runOn_addMethod_misfit hsignature hmisfit]
    exact ⟨hlength, _, made.settle _, hretains.matches (matches_settle made _), rfl⟩

end Action

end Metaobject
