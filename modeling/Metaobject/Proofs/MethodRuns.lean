import Metaobject.Proofs.FunctionCalls

/-!
# Runs of calls on generic functions

In a run, calls on generic functions alternate with steps that change classes and instances, but not the
signatures of methods that were entered. Then the methods of each generic function are a table by signatures
at any time.
-/

namespace Metaobject

inductive FunctionCall
  | create (name : Symbol) (lambdaList : List Symbol) (documentation : Option String)
  | ensure (name : Symbol) (lambdaList : List Symbol) (documentation : Option String)
  | install (g : FunctionId) (spec : MethodSpec)
  | add (g : FunctionId) (i : InstanceId)
  | remove (g : FunctionId) (i : InstanceId)

def FunctionCall.after (m : Image) : FunctionCall → Image
  | .create name lambdaList documentation =>
    ((Action.newGenericFunction name lambdaList documentation).runOn m).2
  | .ensure name lambdaList documentation =>
    ((Action.ensureGenericFunction name lambdaList documentation).runOn m).2
  | .install g spec => ((Action.installMethod g spec).runOn m).2
  | .add g i => ((Action.addMethod g i).runOn m).2
  | .remove g i => ((Action.removeMethod g i).runOn m).2

namespace Image

variable {limits : Limits} {m m' : Image} {g : FunctionId} {i : InstanceId} {σ : Signature}

structure Orderly (limits : Limits) (m : Image) : Prop where
  registry : Registry.Reachable limits m.registry
  tabled : m.Tabled
  names : ∀ n g, m.findFunction n = some g → g < m.functions.length

namespace Orderly

theorem retains (h : m.Orderly limits) (hretains : m.Retains m') : m'.Orderly limits where
  registry := hretains.registry.symm ▸ h.registry
  tabled := h.tabled.retains hretains
  names n g hn := by
    rw [findFunction, hretains.functionNames] at hn
    rw [hretains.functions]
    exact h.names n g hn

theorem enters (h : m.Orderly limits) (henters : m.Enters m' g i σ) : m'.Orderly limits where
  registry := henters.registry.symm ▸ h.registry
  tabled := henters.tabled h.tabled
  names n k hn := by
    rw [findFunction, henters.functionNames] at hn
    rw [henters.length]
    exact h.names n k hn

theorem create (h : m.Orderly limits) (name : Symbol) (lambdaList : List Symbol)
    (documentation : Option String) :
    (FunctionCall.after m (.create name lambdaList documentation)).Orderly limits where
  registry := h.registry
  tabled := h.tabled.append rfl
  names n g hn := by
    have hlength : (FunctionCall.after m (.create name lambdaList documentation)).functions.length =
        m.functions.length + 1 := List.length_append
    rw [hlength]
    exact Nat.lt_succ_of_lt (h.names n g hn)

theorem ensure (h : m.Orderly limits) (name : Symbol) (lambdaList : List Symbol)
    (documentation : Option String) :
    (FunctionCall.after m (.ensure name lambdaList documentation)).Orderly limits := by
  rw [FunctionCall.after]
  rcases Action.ensureGenericFunction_cases m name lambdaList documentation with
    ⟨g, _, _, hrun⟩ | ⟨f, hrun⟩ | ⟨_, hrun⟩
  · rw [hrun]
    exact h
  · rw [hrun]
    exact h
  · rw [hrun]
    refine ⟨h.registry, h.tabled.append rfl, ?_⟩
    intro n g hn
    rw [findFunction_withFunction] at hn
    rw [length_withFunction]
    split at hn
    · cases hn
      exact Nat.lt_succ_self _
    · exact Nat.lt_succ_of_lt (h.names n g hn)

theorem install (h : m.Orderly limits) (g : FunctionId) (spec : MethodSpec) :
    (FunctionCall.after m (.install g spec)).Orderly limits := by
  rw [FunctionCall.after]
  rcases Action.installMethod_enters h.tabled h.registry.kernelIntact g spec with
    ⟨_, f, m', hretains, hrun⟩ | ⟨_, m', henters, hrun⟩
  · rw [hrun]
    exact h.retains hretains
  · rw [hrun]
    exact h.enters henters

theorem add (h : m.Orderly limits) (g : FunctionId) (i : InstanceId) :
    (FunctionCall.after m (.add g i)).Orderly limits := by
  rw [FunctionCall.after]
  rcases Action.addMethod_cases h.tabled g i with ⟨f, m', hretains, hrun⟩ | ⟨σ, m', _, henters, hrun⟩
  · rw [hrun]
    exact h.retains hretains
  · rw [hrun]
    exact h.enters henters

theorem remove (h : m.Orderly limits) (g : FunctionId) (i : InstanceId) :
    (FunctionCall.after m (.remove g i)).Orderly limits where
  registry := h.registry
  tabled := by
    apply h.tabled.setMethods
    · intro j hj
      exact h.tabled.signed g j (List.mem_of_mem_filter hj)
    · exact (h.tabled.distinct g).sublist (List.filter_sublist.map m.key?)
  names n k hn := by
    have hlength : (FunctionCall.after m (.remove g i)).functions.length = m.functions.length :=
      length_setMethods
    rw [hlength]
    exact h.names n k hn

theorem after (h : m.Orderly limits) (c : FunctionCall) : (c.after m).Orderly limits := by
  cases c with
  | create name lambdaList documentation => exact h.create name lambdaList documentation
  | ensure name lambdaList documentation => exact h.ensure name lambdaList documentation
  | install g spec => exact h.install g spec
  | add g i => exact h.add g i
  | remove g i => exact h.remove g i

end Orderly

end Image

namespace Session

variable {limits : Limits} {s : Session} {cmd : Command}

def call (s : Session) (c : FunctionCall) : Session := { s with image := c.after s.image }

/-- The step is about classes and instances. -/
def SparesFunctions : Command → Prop
  | .functions _ _ _ => False
  | .classes _ | .hold _ | .allocate _ _ | .access _ _ | .readAt _ _ | .writeAt _ _ _ => True

/-- The signatures of methods that were entered are not changed. -/
def KeepsSignatures (s : Session) (cmd : Command) : Prop :=
  ∀ g, ∀ i ∈ (s.image.function g).methods, ∀ σ, s.image.signature? i = some σ →
    (s.perform cmd).image.signature? i = some σ

/-- Sessions with calls on generic functions in which no method is changed once it was entered. -/
inductive Managed (limits : Limits) : Session → Prop
  | fresh : Managed limits (.fresh limits)
  | step {s : Session} {cmd : Command} : Managed limits s → s.Allowed cmd → SparesFunctions cmd →
      s.KeepsSignatures cmd → Managed limits (s.perform cmd)
  | call {s : Session} (c : FunctionCall) : Managed limits s → Managed limits (s.call c)

theorem functions_perform (ha : s.Allowed cmd) (hspares : SparesFunctions cmd) :
    (s.perform cmd).image.functions = s.image.functions ∧
      (s.perform cmd).image.functionNames = s.image.functionNames := by
  cases cmd with
  | classes op => exact ⟨rfl, rfl⟩
  | hold c => exact ⟨rfl, rfl⟩
  | allocate k c =>
    rw [perform]
    split
    · rename_i x _
      rcases allocateFrom_cases s.image x c with hsame | ⟨e, _, _, hadd⟩
      · exact ⟨congrArg Image.functions hsame, congrArg Image.functionNames hsame⟩
      · have hfunctions := congrArg Image.functions hadd
        have hnames := congrArg Image.functionNames hadd
        exact ⟨hfunctions, hnames⟩
    · exact ⟨rfl, rfl⟩
  | access i a =>
    rw [image_access a ha]
    exact ⟨rfl, rfl⟩
  | readAt i index =>
    rw [image_readAt]
    exact ⟨rfl, rfl⟩
  | writeAt i index v =>
    rw [image_writeAt]
    exact ⟨rfl, rfl⟩
  | functions functions names nextObject => exact absurd hspares not_false

theorem orderly_perform (h : s.image.Orderly limits) (ha : s.Allowed cmd)
    (hspares : SparesFunctions cmd) (hkeeps : s.KeepsSignatures cmd) :
    (s.perform cmd).image.Orderly limits := by
  obtain ⟨hfunctions, hnames⟩ := functions_perform ha hspares
  have hfunction : ∀ g, (s.perform cmd).image.function g = s.image.function g := by
    intro g
    rw [Image.function, hfunctions, Image.function]
  constructor
  · rcases registry_perform ha with hsame | ⟨op, rfl, hop⟩
    · rw [hsame]
      exact h.registry
    · rw [hop]
      exact h.registry.step ha
  · apply h.tabled.mono fun g => Or.inl (hfunction g)
    intro g i hi
    obtain ⟨σ, hσ, _⟩ := h.tabled.signed g i hi
    rw [hkeeps g i hi σ hσ, hσ]
  · intro n g hn
    rw [Image.findFunction, hnames] at hn
    rw [hfunctions]
    exact h.names n g hn

theorem Managed.orderly (h : Managed limits s) : s.image.Orderly limits := by
  induction h with
  | fresh =>
    refine ⟨.fresh, ⟨?_, ?_⟩, nofun⟩
    · intro g i hi
      rw [Session.fresh, Image.function_of_le (Nat.zero_le g)] at hi
      contradiction
    · intro g
      rw [Session.fresh, Image.function_of_le (Nat.zero_le g)]
      exact .nil
  | step _ ha hspares hkeeps ih => exact orderly_perform ih ha hspares hkeeps
  | call c _ ih => exact ih.after c

theorem Managed.performAll {cmds : List Command} (h : Managed limits s)
    (hnone : s.image.functions = []) (ha : s.AllSteps Allowed cmds)
    (hspares : ∀ cmd ∈ cmds, SparesFunctions cmd) : Managed limits (s.performAll cmds) := by
  induction cmds generalizing s with
  | nil => exact h
  | cons cmd rest ih =>
    obtain ⟨hspare, hrest⟩ := List.forall_mem_cons.mp hspares
    have hkeeps : s.KeepsSignatures cmd := by
      intro g i hi
      rw [Image.function_of_le (by rw [hnone]; exact Nat.zero_le g)] at hi
      contradiction
    have hfunctions := (functions_perform ha.1 hspare).1
    exact ih (h.step ha.1 hspare hkeeps) (hfunctions.trans hnone) ha.2 hrest

section Methods

variable {m : Image} {g : FunctionId} {i : InstanceId} {spec : MethodSpec} {f : Fault}

theorem functions_addMethod_error (h : m.Tabled)
    (hfault : ((Action.addMethod g i).runOn m).1 = .error f) :
    ((Action.addMethod g i).runOn m).2.functions = m.functions := by
  rcases Action.addMethod_cases h g i with ⟨_, m', hretains, hrun⟩ | ⟨_, _, _, _, hrun⟩
  · rw [hrun]
    exact hretains.functions
  · rw [hrun] at hfault
    contradiction

theorem functions_installMethod_error (h : m.Tabled) (hm : m.registry.KernelIntact)
    (hfault : ((Action.installMethod g spec).runOn m).1 = .error f) :
    ((Action.installMethod g spec).runOn m).2.functions = m.functions := by
  rcases Action.installMethod_enters h hm g spec with ⟨_, _, m', hretains, hrun⟩ | ⟨_, _, _, hrun⟩
  · rw [hrun]
    exact hretains.functions
  · rw [hrun] at hfault
    contradiction

theorem runOn_removeMethod (h : m.Tabled) (hg : g < m.functions.length) (i : InstanceId) :
    ∃ m', (Action.removeMethod g i).runOn m = (.ok (decide (i ∈ (m.function g).methods)), m') ∧
      (m'.function g).methods = (m.function g).methods.erase i ∧
      ∀ k, k ≠ g → m'.function k = m.function k := by
  refine ⟨m.setMethods g ((m.function g).methods.filter (· ≠ i)), rfl, ?_, ?_⟩
  · rw [Image.function_setMethods_self hg, (h.distinct g).of_map.erase_eq_filter]
    apply List.filter_congr
    intro j _
    rw [bne, decide_not]
    rfl
  · intro k hk
    exact Image.function_setMethods_of_ne hk

theorem pairwise_of_distinct (h : m.Tabled) (g : FunctionId) :
    (m.function g).methods.Pairwise fun i j => ∀ σ τ, m.signature? i = some σ →
      m.signature? j = some τ → σ.same τ = false := by
  apply (List.pairwise_map.mp (h.distinct g)).imp
  intro i j hne σ τ hσ hτ
  rw [Image.key?_of_signature? hσ, Image.key?_of_signature? hτ] at hne
  rw [← Bool.not_eq_true, Signature.same_iff_key]
  exact fun hsame => hne (congrArg some hsame)

end Methods

/-- The methods of a generic function are a table by signatures: no two have the same. A method that fits
is added or installed in the place of the one with its signature, or at the end. One that is removed leaves
the others in their order, and what fails leaves all as they are. -/
theorem managed_methods_keyed (h : Managed limits s) {g : FunctionId}
    (hg : g < s.image.functions.length) :
    (∀ i ∈ (s.image.function g).methods, ∃ σ, s.image.signature? i = some σ ∧
        σ.specializers.length = (s.image.function g).required) ∧
      ((s.image.function g).methods.Pairwise fun i j => ∀ σ τ, s.image.signature? i = some σ →
        s.image.signature? j = some τ → σ.same τ = false) ∧
      (∀ i σ, s.image.signature? i = some σ →
        σ.specializers.length = (s.image.function g).required →
        ∃ old m', (Action.addMethod g i).runOn s.image = (.ok old, m') ∧
          s.image.Entered m' g i σ old) ∧
      (∀ spec : MethodSpec, spec.specializers.length = (s.image.function g).required →
        ∃ old m',
          (Action.installMethod g spec).runOn s.image = (.ok s.image.instances.length, m') ∧
          s.image.Entered m' g s.image.instances.length spec.signature old) ∧
      (∀ i, ∃ m', (Action.removeMethod g i).runOn s.image =
          (.ok (decide (i ∈ (s.image.function g).methods)), m') ∧
        (m'.function g).methods = (s.image.function g).methods.erase i ∧
        ∀ k, k ≠ g → m'.function k = s.image.function k) ∧
      (∀ i f, ((Action.addMethod g i).runOn s.image).1 = .error f →
        ((Action.addMethod g i).runOn s.image).2.functions = s.image.functions) ∧
      ∀ spec f, ((Action.installMethod g spec).runOn s.image).1 = .error f →
        ((Action.installMethod g spec).runOn s.image).2.functions = s.image.functions := by
  have htabled := h.orderly.tabled
  have hkernel := h.orderly.registry.kernelIntact
  refine ⟨htabled.signed g, pairwise_of_distinct htabled g, ?_, ?_, runOn_removeMethod htabled hg,
    fun _ _ => functions_addMethod_error htabled,
    fun _ _ => functions_installMethod_error htabled hkernel⟩
  · intro i σ hi hlength
    obtain ⟨m', henters, hrun⟩ := Action.addMethod_of_fits htabled hi hlength
    exact ⟨_, m', hrun, henters.entered htabled hg⟩
  · intro spec hlength
    rcases Action.installMethod_enters htabled hkernel g spec with ⟨hmisfit, _⟩ | ⟨_, m', henters, hrun⟩
    · exact absurd hlength hmisfit
    · exact ⟨_, m', hrun, henters.entered htabled hg⟩

def areaMethod : MethodSpec :=
  ⟨[⟨"S"⟩], [.ofClass KernelClass.top.id], [], ⟨none, ⟨0, "area"⟩⟩, none, none⟩

/-- A method that was made by hand, and one with the same signature that was installed. -/
def twoAreas : Session :=
  ((fresh Limits.standard).performAll
      [.hold KernelClass.standardMethod.id, .allocate 0 KernelClass.standardMethod.id,
        .access 0 (.write MethodAttribute.qualifiers.slot .nil),
        .access 0 (.write MethodAttribute.specializers.slot
          (.list 0 [.classObject KernelClass.top.id]))]
    |>.call (.ensure ⟨"AREA"⟩ [⟨"SHAPE"⟩] none)
    |>.call (.install 0 areaMethod))

theorem managed_twoAreas : Managed Limits.standard twoAreas :=
  Managed.fresh.performAll rfl (by decide +kernel) (by simp [SparesFunctions]) |>.call _ |>.call _

theorem twoAreas_methods_keyed :
    Managed Limits.standard twoAreas ∧ 0 < twoAreas.image.functions.length ∧
      (twoAreas.image.function 0).methods = [1] ∧
      ∃ σ old m', twoAreas.image.signature? 0 = some σ ∧ twoAreas.image.signedAs σ 1 = true ∧
        (Action.addMethod 0 0).runOn twoAreas.image = (.ok old, m') ∧
        m'.methodFor 0 σ = .ok (some 0) := by
  have hlt : 0 < twoAreas.image.functions.length := by decide +kernel
  have hread : (twoAreas.image.signature? 0).isSome = true := by decide +kernel
  have hlike : ∀ σ ∈ twoAreas.image.signature? 0,
      σ.specializers.length = (twoAreas.image.function 0).required ∧
        twoAreas.image.signedAs σ 1 = true := by decide +kernel
  obtain ⟨σ, hσ⟩ := Option.isSome_iff_exists.mp hread
  obtain ⟨hlength, hsame⟩ := hlike σ hσ
  obtain ⟨_, _, hadd, _⟩ := managed_methods_keyed managed_twoAreas hlt
  obtain ⟨old, m', hrun, hentered⟩ := hadd 0 σ hσ hlength
  exact ⟨managed_twoAreas, hlt, by decide +kernel, σ, old, m', hσ, hsame, hrun,
    hentered.found σ σ.same_refl⟩

end Session

end Metaobject
