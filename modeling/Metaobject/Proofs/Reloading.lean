import Metaobject.Archive.Memory
import Metaobject.Proofs.UnitInstallation

/-!
# Units that are loaded again

A unit that was loaded, and whose classes are all finalized, can be loaded again, and then nothing
is seen to change. Whatever was loaded before, and whether it failed, does not matter.
-/

namespace Metaobject

def Archive.unit? (a : Archive) : Option DefinitionUnit :=
  a.text.toOption.bind fun text => (DefinitionUnit.ofJson text).toOption

def Action.readMethods (g : FunctionId) : Action (List MethodReading) := do
  ((← get).function g).methods.mapM readMethod

namespace Image

variable {m m' : Image} {T : FunctionId → List MethodReading}

theorem runOn_mapM_readMethod {methods : List InstanceId} {texts : List MethodReading}
    (hm : m.registry.KernelIntact) (h : List.Forall₂ m.Carries methods texts) :
    (methods.mapM Action.readMethod).runOn m = (.ok texts, m) := by
  induction h with
  | nil => rfl
  | cons hi _ ih =>
    rw [List.mapM_cons, Action.runOn_bind_of_ok (Action.runOn_readMethod hm hi),
      Action.runOn_bind_of_ok ih]
    rfl

theorem Shows.runOn_readMethods (hT : m.Shows T) (hm : m.registry.KernelIntact) (g : FunctionId) :
    (Action.readMethods g).runOn m = (.ok (T g), m) := by
  rw [Action.readMethods, Action.runOn_bind_of_ok (Action.runOn_get m)]
  exact runOn_mapM_readMethod hm (hT g)

/-- The same names lead to the same classes and functions, each class is the same in all that can be
seen of it, and all that is read of the methods of a function is the same. -/
structure Restates (m m' : Image) : Prop where
  lookup : m'.registry.lookup = m.registry.lookup
  classes : ∀ c, m.registry.SameClass m'.registry c
  functionNames : m'.functionNames = m.functionNames
  functions : m'.functions.length = m.functions.length
  head : ∀ g, (m'.function g).head = (m.function g).head
  methods : ∀ g, ∃ texts, ((Action.readMethods g).runOn m).1 = .ok texts ∧
    ((Action.readMethods g).runOn m').1 = .ok texts

end Image

namespace Installation

variable {m m' : Image} {u : DefinitionUnit} {unit : String} {report : LoadReport} {a : Archive}

/-- A unit that was installed can be installed again, and then nothing is seen to change. -/
theorem install_repeat (hm : m.Loaded) (hclasses : (u.classes.map ClassDefinition.name).Nodup)
    (hfunctions : (u.functions.map FunctionDeclaration.name).Nodup)
    (hmethods : ∀ d ∈ u.methods, d.IsPlain)
    (hrun : (install unit u).runOn m = (.ok report, m'))
    (hfinal : ∀ d ∈ u.classes, ∃ c, m'.registry.lookup d.name = some c ∧
      m'.registry.isFinalized c) :
    ∃ m'', (install unit u).runOn m' = (.ok report, m'') ∧ m'.Restates m'' := by
  obtain ⟨rfl, jobs, T, hholds, hT⟩ := install_eq_ok hm hrun
  have hstill : ∀ d ∈ u.classes, ∀ c, m'.registry.lookup d.name = some c →
      m'.registry.isFinalized c := by
    intro d hd c hc
    obtain ⟨c', hc', hfinal⟩ := hfinal d hd
    cases hc.symm.trans hc'
    exact hfinal
  obtain ⟨m'', hrun', hloaded, hsame, hnames, hlength, hhead, hT'⟩ :=
    install_again unit hholds hT hclasses hfunctions hmethods hstill
  -- The methods of the second installation replace those of the first, which say the same.
  obtain ⟨first, hdeclares⟩ := hholds.methods
  rw [MethodReading.foldl_enterAt_again T (hdeclares.isPlain hmethods)] at hT'
  have hinv := hholds.loaded.registry.invariant
  refine ⟨m'', hrun', hsame.lookup, ?_, hnames, hlength, hhead, ?_⟩
  · exact hsame.sameClass hinv hloaded.registry.invariant
  · intro g
    exact ⟨_, congrArg Prod.fst (hT.runOn_readMethods hholds.loaded.registry.kernel g),
      congrArg Prod.fst (hT'.runOn_readMethods hloaded.registry.kernel g)⟩

theorem installArchive_of_unit (h : a.unit? = some u) : installArchive a = install a.name u := by
  obtain ⟨text, htext, hu⟩ := Option.bind_eq_some_iff.mp h
  cases hbytes : a.text with
  | error f =>
    rw [hbytes] at htext
    contradiction
  | ok text' =>
    rw [hbytes] at htext
    cases htext
    cases hjson : DefinitionUnit.ofJson text with
    | error f =>
      rw [hjson] at hu
      contradiction
    | ok u' =>
      rw [hjson] at hu
      cases hu
      rw [installArchive, hbytes]
      dsimp only
      rw [decode, hjson]
      rfl

end Installation

namespace Loader

variable {σ : Type} {o : Opener σ Archive} {l l' : Loader σ} {name : String} {a : Archive}
  {report : LoadReport}

theorem loadUnit_loaded (o : Opener σ Archive) (name : String) (h : l.image.Loaded) :
    (l.loadUnit o name).2.image.Loaded := by
  unfold loadUnit
  split
  · exact h
  · exact keepsLoaded_installArchive _ _ h

theorem loadEach_loaded {load : String → Loader σ → Except LoadFault LoadReport × Loader σ}
    (hload : ∀ name l, l.image.Loaded → (load name l).2.image.Loaded) (stop : Bool)
    (names : List String) (h : l.image.Loaded) :
    (loadEach load stop names l).2.image.Loaded := by
  induction names generalizing l with
  | nil => exact h
  | cons name rest ih =>
    have hnext := hload name l h
    rw [loadEach]
    cases hunit : load name l with
    | mk answer next =>
      rw [hunit] at hnext
      cases answer with
      | ok report => exact ih hnext
      | error f =>
        cases stop with
        | true => exact hnext
        | false => exact ih hnext

theorem loadUnit_of_acquire (h : (l.cache.acquire o name).1 = .ok a) :
    l.loadUnit o name =
      (((Installation.installArchive a).runOn l.image).1.mapError (LoadFault.within name),
        ⟨((Installation.installArchive a).runOn l.image).2,
          ((l.cache.acquire o name).2.release o name).2⟩) := by
  cases hcache : l.cache.acquire o name with
  | mk answer cache =>
    rw [hcache] at h
    cases h
    rw [loadUnit, hcache]

theorem loadUnit_of_error {f : CacheFault} (h : (l.cache.acquire o name).1 = .error f) :
    l.loadUnit o name = (.error (.cache f), { l with cache := (l.cache.acquire o name).2 }) := by
  cases hcache : l.cache.acquire o name with
  | mk answer cache =>
    rw [hcache] at h
    cases h
    rw [loadUnit, hcache]

theorem loadUnit_eq_ok (ha : (l.cache.acquire o name).1 = .ok a)
    (h : l.loadUnit o name = (.ok report, l')) :
    (Installation.installArchive a).runOn l.image = (.ok report, l'.image) := by
  have hsteps := loadUnit_of_acquire ha
  rw [h] at hsteps
  cases hrun : (Installation.installArchive a).runOn l.image with
  | mk answer next =>
    rw [hrun] at hsteps
    cases answer with
    | error f => cases hsteps
    | ok x =>
      cases hsteps
      rfl

/-- Loading a unit again, whatever was loaded before it, gives the same report and changes nothing
that can be seen. -/
theorem loadUnit_idempotent (settings : Settings) (backend : σ) (names : List String)
    {u : DefinitionUnit} (hbefore : (loadAll o false names (fresh settings backend)).2 = l)
    (hfirst : (l.cache.acquire o name).1 = .ok a) (hload : l.loadUnit o name = (.ok report, l'))
    (hagain : (l'.cache.acquire o name).1 = .ok a) (hunit : a.unit? = some u)
    (hclasses : (u.classes.map ClassDefinition.name).Nodup)
    (hfunctions : (u.functions.map FunctionDeclaration.name).Nodup)
    (hmethods : ∀ d ∈ u.methods, d.IsPlain)
    (hfinal : ∀ d ∈ u.classes, ∃ c, l'.image.registry.lookup d.name = some c ∧
      l'.image.registry.isFinalized c) :
    ∃ l'', l'.loadUnit o name = (.ok report, l'') ∧ l'.image.Restates l''.image := by
  have hloaded : l.image.Loaded := by
    rw [← hbefore]
    exact loadEach_loaded (fun name _ => loadUnit_loaded o name) false names
      (Image.loaded_fresh settings.limits)
  have hrun := loadUnit_eq_ok hfirst hload
  rw [Installation.installArchive_of_unit hunit] at hrun
  obtain ⟨m, hrun', hsame⟩ :=
    Installation.install_repeat hloaded hclasses hfunctions hmethods hrun hfinal
  have hsteps := loadUnit_of_acquire hagain
  rw [Installation.installArchive_of_unit hunit, hrun'] at hsteps
  exact ⟨_, hsteps, hsame⟩

def dots : Archive :=
  let dot : Json := .object [("name", .string "DOT")]
  let draw : Json := .object [("generic_function", .string "DRAW"),
    ("lambda_list", .array [.string "X"]), ("specializers", .array [.string "DOT"]),
    ("function", .string "d")]
  ⟨"dots", Text.Utf8.encode
    (Json.object [("classes", .array [dot]), ("methods", .array [draw])]).text⟩

def undotted : Loader MemoryArchives :=
  (loadAll (MemoryArchives.opener 200) false ["lines"]
    (fresh Settings.standard (Table.empty.insert "dots" dots.bytes))).2

def dotted : Except LoadFault LoadReport × Loader MemoryArchives :=
  undotted.loadUnit (MemoryArchives.opener 200) "dots"

theorem dotted_loadUnit_idempotent :
    dotted.1.toOption = some ⟨"dots", [⟨"DOT"⟩], [], 1⟩ ∧ ∃ l,
      dotted.2.loadUnit (MemoryArchives.opener 200) "dots" = (.ok ⟨"dots", [⟨"DOT"⟩], [], 1⟩, l) ∧
      dotted.2.image.Restates l.image := by
  have hfacts : dotted.1.toOption = some ⟨"dots", [⟨"DOT"⟩], [], 1⟩ ∧
      ∃ u ∈ dots.unit?, (u.classes.map ClassDefinition.name).Nodup ∧
        (u.functions.map FunctionDeclaration.name).Nodup ∧ (∀ d ∈ u.methods, d.IsPlain) ∧
        ∀ d ∈ u.classes, ∃ c ∈ dotted.2.image.registry.lookup d.name,
          dotted.2.image.registry.isFinalized c := by
    decide +kernel
  obtain ⟨hreport, u, hunit, hclasses, hfunctions, hmethods, hfinal⟩ := hfacts
  have hload : dotted = (.ok ⟨"dots", [⟨"DOT"⟩], [], 1⟩, dotted.2) := by
    cases hanswer : dotted.1 with
    | error f =>
      rw [hanswer] at hreport
      cases hreport
    | ok report =>
      rw [hanswer] at hreport
      cases hreport
      calc
        dotted = (dotted.1, dotted.2) := Prod.mk.eta.symm
        _ = _ := by rw [hanswer]
  have hfirst : (undotted.cache.acquire (MemoryArchives.opener 200) "dots").1 = .ok dots := by
    decide +kernel
  have hagain : (dotted.2.cache.acquire (MemoryArchives.opener 200) "dots").1 = .ok dots := by
    rw [dotted, loadUnit_of_acquire hfirst]
    decide +kernel
  exact ⟨hreport, loadUnit_idempotent Settings.standard _ ["lines"] rfl hfirst hload hagain hunit
    hclasses hfunctions hmethods hfinal⟩

end Loader

end Metaobject
