import Metaobject.Proofs.InstallationSteps
import Metaobject.Proofs.MethodInstallation
import Metaobject.Proofs.Restatement

/-!
# Images of loaders

What holds of an image into which units were loaded, also if some of them failed: names lead to the
classes and functions that have them, and everything that is listed as a method can be read as one.
-/

namespace Metaobject

/-- What others see of a function, apart from its methods. -/
def GenericFunction.head (f : GenericFunction) : Symbol × List Symbol × Option String :=
  (f.name, f.lambdaList, f.documentation)

namespace Image

variable {m m' : Image} {T : FunctionId → List MethodReading} {g h : FunctionId}
  {f : GenericFunction}
  {r : Registry} {next : ObjectId} {s : Storage} {n : Symbol}

/-- The methods of each function carry what the table says, place by place. -/
def Shows (m : Image) (T : FunctionId → List MethodReading) : Prop :=
  ∀ g, List.Forall₂ m.Carries (m.function g).methods (T g)

structure Loaded (m : Image) : Prop where
  registry : m.registry.Loadable
  functions : ∀ n g, m.findFunction n = some g → g < m.functions.length
  named : ∀ n g, m.findFunction n = some g → (m.function g).name = n
  shown : ∃ T, m.Shows T

def withFunction (m : Image) (f : GenericFunction) : Image :=
  { m with
    functions := m.functions ++ [f]
    functionNames := m.functionNames.insert f.name m.functions.length }

section Functions

theorem function_of_le (hg : m.functions.length ≤ g) : m.function g = ⟨⟨""⟩, [], none, []⟩ := by
  rw [function, List.getElem?_eq_none hg]
  rfl

theorem function_withFunction_of_lt (hg : g < m.functions.length) :
    (m.withFunction f).function g = m.function g := by
  rw [function, withFunction, List.getElem?_append_left hg, function]

theorem function_withFunction_new : (m.withFunction f).function m.functions.length = f := by
  simp [function, withFunction]

theorem length_withFunction : (m.withFunction f).functions.length = m.functions.length + 1 := by
  simp [withFunction]

theorem findFunction_withFunction :
    (m.withFunction f).findFunction n =
      if f.name = n then some m.functions.length else m.findFunction n :=
  Table.find?_insert ..

theorem function_setMethods_self {methods : List InstanceId} (hg : g < m.functions.length) :
    (m.setMethods g methods).function g = { m.function g with methods } := by
  simp [function, setMethods, hg]

theorem function_setMethods_of_ne {methods : List InstanceId} (hne : h ≠ g) :
    (m.setMethods g methods).function h = m.function h := by
  simp [function, setMethods, List.getElem?_modify_ne _ _ (Ne.symm hne)]

theorem length_setMethods {methods : List InstanceId} :
    (m.setMethods g methods).functions.length = m.functions.length :=
  List.length_modify ..

theorem head_setMethods (methods : List InstanceId) (h : FunctionId) :
    ((m.setMethods g methods).function h).head = (m.function h).head := by
  by_cases hgh : h = g
  · subst hgh
    by_cases hlt : h < m.functions.length
    · rw [function_setMethods_self hlt]
      rfl
    · have hle := Nat.le_of_not_lt hlt
      rw [function_of_le hle, function_of_le (by rwa [length_setMethods])]
  · rw [function_setMethods_of_ne hgh]

end Functions

section Shown

theorem Shows.of_functions (hT : m.Shows T) (hinstances : m.instances <+: m'.instances)
    (hmethods : ∀ g, (m'.function g).methods = (m.function g).methods) : m'.Shows T := by
  intro g
  rw [hmethods]
  exact (hT g).imp fun _ _ hi => hi.mono hinstances

theorem Shows.withRegistry (hT : m.Shows T) (r : Registry) (next : ObjectId) :
    { m with registry := r, nextObject := next }.Shows T :=
  hT.of_functions (List.prefix_refl _) fun _ => rfl

theorem Shows.withMethod (hT : m.Shows T) (s : Storage) (next : ObjectId) :
    (m.withMethod s next).Shows T :=
  hT.of_functions (List.prefix_append ..) fun _ => rfl

theorem Shows.withFunction (hT : m.Shows T) (hf : f.methods = []) : (m.withFunction f).Shows T := by
  refine hT.of_functions (List.prefix_refl _) fun g => ?_
  rcases Nat.lt_trichotomy g m.functions.length with hlt | rfl | hlt
  · rw [function_withFunction_of_lt hlt]
  · rw [function_withFunction_new, hf, function_of_le (Nat.le_refl _)]
  · rw [function_of_le (Nat.le_of_lt hlt), function_of_le]
    rw [length_withFunction]
    exact hlt

theorem Shows.setMethods {methods : List InstanceId} {texts : List MethodReading} (hT : m.Shows T)
    (hg : g < m.functions.length) (hmethods : List.Forall₂ m.Carries methods texts) :
    (m.setMethods g methods).Shows (Function.update T g texts) := by
  intro h
  by_cases hgh : h = g
  · subst hgh
    rw [function_setMethods_self hg, Function.update_self]
    exact hmethods.imp fun _ _ hi => hi.mono (List.prefix_refl _)
  · rw [function_setMethods_of_ne hgh, Function.update_of_ne hgh]
    exact (hT h).imp fun _ _ hi => hi.mono (List.prefix_refl _)

theorem Shows.setMethods_of_le {methods : List InstanceId} (hT : m.Shows T)
    (hg : m.functions.length ≤ g) : (m.setMethods g methods).Shows T := by
  have hsame : m.setMethods g methods = m := by
    rw [Image.setMethods, List.modify_eq_self hg]
  rw [hsame]
  exact hT

end Shown

theorem loaded_fresh (limits : Limits) : (fresh limits).Loaded where
  registry := Registry.loadable_fresh limits
  functions _ _ hn := nomatch hn
  named _ _ hn := nomatch hn
  shown := ⟨fun _ => [], fun _ => .nil⟩

theorem Loaded.withRegistry (hm : m.Loaded) (hr : r.Loadable) :
    { m with registry := r, nextObject := next }.Loaded where
  registry := hr
  functions := hm.functions
  named := hm.named
  shown := by
    obtain ⟨T, hT⟩ := hm.shown
    exact ⟨T, hT.withRegistry r next⟩

theorem Loaded.withFunction (hm : m.Loaded) (hf : f.methods = []) : (m.withFunction f).Loaded where
  registry := hm.registry
  functions n g hn := by
    rw [findFunction_withFunction] at hn
    rw [length_withFunction]
    split at hn
    · cases hn
      exact Nat.lt_succ_self _
    · exact Nat.lt_succ_of_lt (hm.functions n g hn)
  named n g hn := by
    rw [findFunction_withFunction] at hn
    split at hn
    · rename_i heq
      cases hn
      rw [function_withFunction_new]
      exact heq
    · rw [function_withFunction_of_lt (hm.functions n g hn)]
      exact hm.named n g hn
  shown := by
    obtain ⟨T, hT⟩ := hm.shown
    exact ⟨T, hT.withFunction hf⟩

end Image

namespace Action

variable {m : Image} {T : FunctionId → List MethodReading}

theorem runOn_ensureClass (d : ClassDefinition) :
    (ensureClass d).runOn m =
      ((m.registry.define d).1, { m with registry := (m.registry.define d).2 }) := by
  rw [ensureClass, runOn_bind_of_ok (runOn_get m), runOn_bind_of_ok (runOn_modify m _), runOn_liftM]

theorem runOn_ensureGenericFunction {name : Symbol} {lambdaList : List Symbol} {g : FunctionId}
    (documentation : Option String) (hname : m.findFunction name = some g)
    (hrequired : (m.function g).required = requiredCount lambdaList) :
    (ensureGenericFunction name lambdaList documentation).runOn m = (.ok g, m) := by
  rw [ensureGenericFunction, runOn_bind_of_ok (runOn_get m), hname]
  dsimp only
  rw [if_pos hrequired]
  rfl

/-- A function is found, or does not fit its methods, or is made in the place of one without any. -/
theorem ensureGenericFunction_cases (m : Image) (name : Symbol) (lambdaList : List Symbol)
    (documentation : Option String) :
    (∃ g, m.findFunction name = some g ∧ (m.function g).required = requiredCount lambdaList ∧
      (ensureGenericFunction name lambdaList documentation).runOn m = (.ok g, m)) ∨
    (∃ f, (ensureGenericFunction name lambdaList documentation).runOn m = (.error f, m)) ∨
    (∀ g, m.findFunction name = some g → (m.function g).methods = []) ∧
      (ensureGenericFunction name lambdaList documentation).runOn m =
        (.ok m.functions.length, m.withFunction ⟨name, lambdaList, documentation, []⟩) := by
  have hnew : (do
      let g ← newGenericFunction name lambdaList documentation
      modify fun m => { m with functionNames := m.functionNames.insert name g }
      return g : Action FunctionId).runOn m =
        (.ok m.functions.length, m.withFunction ⟨name, lambdaList, documentation, []⟩) := rfl
  cases hname : m.findFunction name with
  | none =>
    rw [ensureGenericFunction, runOn_bind_of_ok (runOn_get m), hname]
    exact Or.inr (Or.inr ⟨nofun, hnew⟩)
  | some g =>
    by_cases hrequired : (m.function g).required = requiredCount lambdaList
    · exact Or.inl ⟨g, rfl, hrequired, runOn_ensureGenericFunction documentation hname hrequired⟩
    · rw [ensureGenericFunction, runOn_bind_of_ok (runOn_get m), hname]
      dsimp only
      rw [if_neg hrequired]
      by_cases hmethods : (m.function g).methods ≠ []
      · rw [if_pos hmethods]
        exact Or.inr (Or.inl ⟨_, rfl⟩)
      · rw [if_neg hmethods]
        refine Or.inr (Or.inr ⟨?_, hnew⟩)
        intro g' hg'
        cases hg'
        exact not_not.mp hmethods

theorem installMethod_cases (hm : m.registry.KernelIntact) (hT : m.Shows T) (g : FunctionId)
    (spec : MethodSpec) : ∃ s next, m.nextObject ≤ next ∧
      (m.withMethod s next).Carries m.instances.length spec.reading ∧
      (spec.specializers.length ≠ (m.function g).required →
        ∃ f, (installMethod g spec).runOn m = (.error f, m.withMethod s next)) ∧
      (spec.specializers.length = (m.function g).required →
        (installMethod g spec).runOn m = (.ok m.instances.length,
          (m.withMethod s next).setMethods g
            (entered (m.function g).methods (T g) m.instances.length spec.reading))) := by
  obtain ⟨next, hnext, hrun⟩ := runOn_installMethod hm g spec
  have hcarries := Image.carries_withMethod m next
    (carries_methodStorage g spec m.nextObject)
  have hregistry : (m.withMethod (methodStorage g spec m.nextObject) next).registry.KernelIntact :=
    hm
  have hshows := hT.withMethod (methodStorage g spec m.nextObject) next g
  refine ⟨methodStorage g spec m.nextObject, next, hnext, hcarries, ?_, ?_⟩
  · intro hlength
    rw [hrun, runOn_bind, runOn_discard, runOn_addMethod_of_ne hregistry hcarries hlength]
    exact ⟨_, rfl⟩
  · intro hlength
    obtain ⟨old, hadd⟩ := runOn_addMethod hregistry hshows hcarries hlength
    rw [hrun, runOn_bind, runOn_discard, hadd]
    rfl

end Action

section Keeping

variable {ε ε' α β : Type} {a : ExceptT ε (StateM Image) α} {f : α → ExceptT ε (StateM Image) β}

def KeepsLoaded (a : ExceptT ε (StateM Image) α) : Prop :=
  ∀ m : Image, m.Loaded → (a.run.run m).2.Loaded

theorem KeepsLoaded.loaded (ha : KeepsLoaded a) {m m' : Image} {x : Except ε α} (hm : m.Loaded)
    (h : a.run.run m = (x, m')) : m'.Loaded := by
  have hnext := ha m hm
  rw [h] at hnext
  exact hnext

theorem keepsLoaded_of_same (h : ∀ m, (a.run.run m).2 = m) : KeepsLoaded a := by
  intro m hm
  rw [h]
  exact hm

theorem KeepsLoaded.bind (ha : KeepsLoaded a) (hf : ∀ x, KeepsLoaded (f x)) :
    KeepsLoaded (a >>= f) := by
  intro m hm
  have hnext := ha m hm
  rw [run_bind_image]
  cases hrun : a.run.run m with
  | mk x next =>
    rw [hrun] at hnext
    cases x with
    | error e => exact hnext
    | ok x => exact hf x next hnext

theorem KeepsLoaded.congr {b : ExceptT ε' (StateM Image) β} (ha : KeepsLoaded a)
    (h : ∀ m, (b.run.run m).2 = (a.run.run m).2) : KeepsLoaded b := by
  intro m hm
  rw [h]
  exact ha m hm

theorem KeepsLoaded.map (ha : KeepsLoaded a) (g : α → β) : KeepsLoaded (g <$> a) :=
  ha.congr (run_map_image g)

theorem KeepsLoaded.forM {l : List α} {f : α → ExceptT ε (StateM Image) PUnit}
    (hf : ∀ x, KeepsLoaded (f x)) : KeepsLoaded (l.forM f) := by
  induction l with
  | nil => exact keepsLoaded_of_same fun _ => rfl
  | cons x l ih => exact (hf x).bind fun _ => ih

theorem KeepsLoaded.mapM {l : List α} (hf : ∀ x, KeepsLoaded (f x)) : KeepsLoaded (l.mapM f) := by
  induction l with
  | nil => exact keepsLoaded_of_same fun _ => rfl
  | cons x l ih =>
    rw [List.mapM_cons]
    exact (hf x).bind fun _ => ih.bind fun _ => keepsLoaded_of_same fun _ => rfl

theorem keepsLoaded_core {a : Action α} (ha : KeepsLoaded a) : KeepsLoaded (Installation.core a) :=
  ha.congr fun _ => rfl

theorem keepsLoaded_newObject : KeepsLoaded Action.newObject := fun _ hm =>
  hm.withRegistry hm.registry

theorem keepsLoaded_newFunction (name : Option Symbol) (reference : String) :
    KeepsLoaded (Action.newFunction name reference) :=
  keepsLoaded_newObject.bind fun _ => keepsLoaded_of_same fun _ => rfl

theorem keepsLoaded_ensureClass (d : ClassDefinition) : KeepsLoaded (Action.ensureClass d) := by
  intro m hm
  change ((Action.ensureClass d).runOn m).2.Loaded
  rw [Action.runOn_ensureClass]
  exact hm.withRegistry (hm.registry.define d)

theorem keepsLoaded_ensureGenericFunction (name : Symbol) (lambdaList : List Symbol)
    (documentation : Option String) :
    KeepsLoaded (Action.ensureGenericFunction name lambdaList documentation) := by
  intro m hm
  change ((Action.ensureGenericFunction name lambdaList documentation).runOn m).2.Loaded
  rcases Action.ensureGenericFunction_cases m name lambdaList documentation with
    ⟨g, _, _, h⟩ | ⟨f, h⟩ | ⟨_, h⟩
  · rw [h]
    exact hm
  · rw [h]
    exact hm
  · rw [h]
    exact hm.withFunction rfl

theorem keepsLoaded_installMethod (g : FunctionId) (spec : MethodSpec) :
    KeepsLoaded (Action.installMethod g spec) := by
  intro m hm
  change ((Action.installMethod g spec).runOn m).2.Loaded
  obtain ⟨T, hT⟩ := hm.shown
  obtain ⟨s, next, _, hcarries, hfails, hadds⟩ :=
    Action.installMethod_cases hm.registry.kernel hT g spec
  have hshows := hT.withMethod s next
  by_cases hlength : spec.specializers.length = (m.function g).required
  · rw [hadds hlength]
    refine ⟨hm.registry, ?_, ?_, ?_⟩
    · intro n h hn
      rw [Image.length_setMethods]
      exact hm.functions n h hn
    · intro n h hn
      exact (congrArg Prod.fst (Image.head_setMethods _ h)).trans (hm.named n h hn)
    · by_cases hg : g < m.functions.length
      · exact ⟨_, hshows.setMethods hg (Action.carries_entered (hshows g) hcarries)⟩
      · exact ⟨T, hshows.setMethods_of_le (Nat.le_of_not_lt hg)⟩
  · obtain ⟨f, hrun⟩ := hfails hlength
    rw [hrun]
    exact ⟨hm.registry, hm.functions, hm.named, T, hshows⟩

theorem keepsLoaded_specializer (unit : String) (d : SpecializerDeclaration) :
    KeepsLoaded (Installation.specializer unit d) := by
  intro m hm
  cases d with
  | ofClass n =>
    change ((Installation.specializer unit (.ofClass n)).runOn m).2.Loaded
    rw [Installation.runOn_specializer]
    cases h : m.registry.resolveOrPlaceholder n with
    | error f => exact hm
    | ok p => exact hm.withRegistry (hm.registry.resolve h)
  | eql datum =>
    rw [Installation.specializer]
    change (Installation.runOn _ m).2.Loaded
    rw [Installation.runOn_bind, Installation.runOn_literal]
    cases Literal.read datum m.nextObject with
    | error j => exact hm
    | ok p => exact hm.withRegistry hm.registry

theorem keepsLoaded_functionFor (d : MethodDeclaration) :
    KeepsLoaded (Installation.functionFor d) := by
  unfold Installation.functionFor
  refine (keepsLoaded_of_same fun _ => rfl).bind fun m => ?_
  cases m.findFunction d.function with
  | none => exact keepsLoaded_core (keepsLoaded_ensureGenericFunction d.function d.lambdaList none)
  | some g => exact keepsLoaded_of_same fun _ => rfl

theorem keepsLoaded_spec (unit : String) (d : MethodDeclaration) :
    KeepsLoaded (Installation.spec unit d) := by
  unfold Installation.spec
  refine (KeepsLoaded.mapM (keepsLoaded_specializer unit)).bind fun specializers => ?_
  refine (keepsLoaded_core (keepsLoaded_newFunction _ _)).bind fun function => ?_
  cases d.fastCode with
  | none =>
    exact (keepsLoaded_of_same fun _ => rfl).bind fun _ => keepsLoaded_of_same fun _ => rfl
  | some code =>
    refine ((keepsLoaded_core (keepsLoaded_newFunction _ code)).map some).bind fun _ => ?_
    exact keepsLoaded_of_same fun _ => rfl

theorem keepsLoaded_method (unit : String) (d : MethodDeclaration) :
    KeepsLoaded (Installation.method unit d) :=
  (keepsLoaded_functionFor d).bind fun g => (keepsLoaded_spec unit d).bind fun s =>
    (keepsLoaded_core (keepsLoaded_installMethod g s)).map fun _ => ()

theorem keepsLoaded_function (d : FunctionDeclaration) : KeepsLoaded (Installation.function d) :=
  (keepsLoaded_core (keepsLoaded_ensureGenericFunction _ _ _)).bind fun _ =>
    (keepsLoaded_of_same fun _ => rfl).bind fun _ => keepsLoaded_of_same fun _ => rfl

theorem keepsLoaded_install (name : String) (u : DefinitionUnit) :
    KeepsLoaded (Installation.install name u) := by
  unfold Installation.install
  refine KeepsLoaded.bind (KeepsLoaded.forM fun d => ?_) fun _ => ?_
  · exact (keepsLoaded_core (keepsLoaded_ensureClass d)).map fun _ => ()
  refine KeepsLoaded.bind (KeepsLoaded.mapM keepsLoaded_function) fun functions => ?_
  refine KeepsLoaded.bind (KeepsLoaded.forM (keepsLoaded_method name)) fun _ => ?_
  exact keepsLoaded_of_same fun _ => rfl

theorem keepsLoaded_installArchive (a : Archive) : KeepsLoaded (Installation.installArchive a) := by
  unfold Installation.installArchive
  split
  · exact keepsLoaded_of_same fun _ => rfl
  · refine KeepsLoaded.bind ?_ fun u => keepsLoaded_install a.name u
    unfold Installation.decode
    split <;> exact keepsLoaded_of_same fun _ => rfl

end Keeping

end Metaobject
