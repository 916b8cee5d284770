import Metaobject.Proofs.UnitDeclarations

/-!
# Installation of units

What a unit leaves that was installed: its classes stand as they are defined, its functions take as
many parameters as they are declared with, and its methods are entered into the tables of their
functions. If all of this is there already, installing the unit again finds it and leaves it.
-/

namespace Metaobject

def DefinitionUnit.report (u : DefinitionUnit) (name : String) : LoadReport :=
  ⟨name, u.classes.map ClassDefinition.name, u.functions.map FunctionDeclaration.name,
    u.methods.length⟩

namespace Installation

variable {m m' : Image} {T : FunctionId → List MethodReading} {unit : String}
  {d : MethodDeclaration} {g : FunctionId} {t : MethodReading} {first last : ObjectId}

section Specializers

variable {s : SpecializerDeclaration} {x : Specializer} {ss : List SpecializerDeclaration}
  {xs : List Specializer}

theorem specializer_eq_ok (h : (specializer unit s).runOn m = (.ok x, m')) :
    ∃ r next names, m' = { m with registry := r, nextObject := next } ∧ m.nextObject ≤ next ∧
      m.registry.Grown r names ∧ r.Reads m.nextObject next s x := by
  cases s with
  | ofClass n =>
    rw [runOn_specializer] at h
    cases hresolve : m.registry.resolveOrPlaceholder n with
    | error f =>
      rw [hresolve] at h
      cases h
    | ok p =>
      obtain ⟨c, r⟩ := p
      rw [hresolve] at h
      cases h
      obtain ⟨_, ⟨hn, rfl⟩ | ⟨hnone, rfl, rfl⟩⟩ := Registry.resolve_cases hresolve
      · exact ⟨m.registry, m.nextObject, [], rfl, Nat.le_refl _, .refl _ _, .ofClass hn⟩
      · refine ⟨_, m.nextObject, [n], rfl, Nat.le_refl _, Registry.grown_addPlaceholder hnone,
          .ofClass ?_⟩
        rw [Registry.lookup_addPlaceholder, if_pos rfl]
  | eql j =>
    obtain ⟨v, m₁, hliteral, hrest⟩ := bind_eq_ok m h
    rw [runOn_literal] at hliteral
    cases hread : Literal.read j m.nextObject with
    | error j =>
      rw [hread] at hliteral
      cases hliteral
    | ok p =>
      obtain ⟨w, next⟩ := p
      rw [hread] at hliteral
      cases hliteral
      cases hrest
      exact ⟨m.registry, next, [], rfl, Literal.read_le j hread, .refl _ _,
        .eql (Nat.le_refl _) hread (Nat.le_refl _)⟩

theorem runOn_specializer_of_reads (unit : String) (hm : m.registry.KernelIntact)
    (hs : s.IsPlain) (h : m.registry.Reads first last s x) :
    ∃ next, (specializer unit s).runOn m = (.ok x, { m with nextObject := next }) := by
  cases s with
  | ofClass n =>
    cases h with
    | @ofClass _ c hn =>
      have hname := checkClassName_eq_ok.mpr (hm.names n c hn)
      have hresolve : m.registry.resolveOrPlaceholder n = .ok (c, m.registry) := by
        rw [Registry.resolveOrPlaceholder, hname, ok_bind, Registry.resolve, hn]
        rfl
      refine ⟨m.nextObject, ?_⟩
      rw [runOn_specializer, hresolve]
  | eql j =>
    cases x with
    | ofClass c => cases h
    | eql v =>
      obtain ⟨_, hreads⟩ := h.read_plain hs
      obtain ⟨next, hnext⟩ := hreads m.nextObject
      refine ⟨next, ?_⟩
      rw [specializer, runOn_bind, runOn_literal, hnext]
      rfl

theorem mapM_specializer_eq_ok (h : (ss.mapM (specializer unit)).runOn m = (.ok xs, m')) :
    ∃ r next names, m' = { m with registry := r, nextObject := next } ∧ m.nextObject ≤ next ∧
      m.registry.Grown r names ∧ List.Forall₂ (r.Reads m.nextObject next) ss xs := by
  induction ss generalizing m xs with
  | nil =>
    cases h
    exact ⟨_, _, [], rfl, Nat.le_refl _, .refl _ _, .nil⟩
  | cons s rest ih =>
    rw [List.mapM_cons] at h
    obtain ⟨x, m₁, hx, h⟩ := bind_eq_ok m h
    obtain ⟨ys, m₂, hys, h⟩ := bind_eq_ok m₁ h
    cases h
    obtain ⟨r, next, names, rfl, hle, hgrown, hread⟩ := specializer_eq_ok hx
    obtain ⟨r', next', names', rfl, hle', hgrown', hall⟩ := ih hys
    refine ⟨r', next', names ++ names', rfl, Nat.le_trans hle hle', hgrown.trans hgrown', ?_⟩
    constructor
    · have hkept := hread.kept fun _ _ hn => hgrown'.lookup_of_some hn
      exact hkept.widen (Nat.le_refl _) hle'
    · exact hall.imp fun _ _ hy => hy.widen hle (Nat.le_refl _)

theorem runOn_mapM_of_reads (unit : String) (hm : m.registry.KernelIntact)
    (hss : ∀ s ∈ ss, s.IsPlain) (h : List.Forall₂ (m.registry.Reads first last) ss xs) :
    ∃ next, (ss.mapM (specializer unit)).runOn m = (.ok xs, { m with nextObject := next }) := by
  generalize hr : m.registry = r at hm h
  induction h generalizing m with
  | nil =>
    subst hr
    exact ⟨m.nextObject, rfl⟩
  | @cons s x ss xs hx hrest ih =>
    subst hr
    obtain ⟨next, hrun⟩ := runOn_specializer_of_reads unit hm (hss s List.mem_cons_self) hx
    obtain ⟨next', hrun'⟩ := ih (m := { m with nextObject := next })
      (fun y hy => hss y (List.mem_cons_of_mem s hy)) rfl
    refine ⟨next', ?_⟩
    rw [List.mapM_cons, runOn_bind_of_ok hrun, runOn_bind_of_ok hrun']
    rfl

theorem runOn_spec (h : (d.specializers.mapM (specializer unit)).runOn m = (.ok xs, m')) :
    ∃ spec next, m'.nextObject ≤ next ∧
      (Installation.spec unit d).runOn m = (.ok spec, { m' with nextObject := next }) ∧
      spec.reading = d.reading xs := by
  rw [Installation.spec, runOn_bind_of_ok h, runOn_bind]
  cases hfast : d.fastCode with
  | none =>
    refine ⟨_, m'.nextObject + 1, Nat.le_add_right _ _, rfl, ?_⟩
    rw [MethodDeclaration.reading, hfast]
    rfl
  | some code =>
    refine ⟨_, m'.nextObject + 2, Nat.le_add_right _ _, rfl, ?_⟩
    rw [MethodDeclaration.reading, hfast]
    rfl

end Specializers

section Methods

theorem functionFor_eq_ok (h : (functionFor d).runOn m = (.ok g, m')) :
    m.Grown m' ∧ m'.nextObject = m.nextObject ∧ m'.findFunction d.function = some g ∧
      ∀ T, m.Shows T → m'.Shows T := by
  rw [functionFor, runOn_bind_of_ok (runOn_get m)] at h
  cases hname : m.findFunction d.function with
  | some g' =>
    rw [hname] at h
    cases h
    exact ⟨.refl m, rfl, hname, fun _ hT => hT⟩
  | none =>
    rw [hname] at h
    have hcore := core_eq_ok m h
    rcases Action.ensureGenericFunction_cases m d.function d.lambdaList none with
      ⟨g', hg', _⟩ | ⟨f, hf⟩ | ⟨_, hnew⟩
    · rw [hname] at hg'
      contradiction
    · rw [hf] at hcore
      cases hcore
    · rw [hnew] at hcore
      cases hcore
      refine ⟨Image.grown_withFunction hname, rfl, ?_, fun T hT => hT.withFunction rfl⟩
      rw [Image.findFunction_withFunction, if_pos rfl]

theorem installMethod_of_fits (hm : m.Loaded) (hT : m.Shows T) (hg : g < m.functions.length)
    {spec : MethodSpec} (hfits : spec.specializers.length = (m.function g).required) :
    ∃ m', (Action.installMethod g spec).runOn m = (.ok m.instances.length, m') ∧ m.Alike m' ∧
      m.nextObject ≤ m'.nextObject ∧ m'.Shows (MethodReading.enterAt T (g, spec.reading)) := by
  obtain ⟨s, next, hnext, hcarries, _, hadds⟩ :=
    Action.installMethod_cases hm.registry.kernel hT g spec
  have hsame : m.Alike (m.withMethod s next) := ⟨rfl, rfl, rfl, fun _ => rfl⟩
  refine ⟨_, hadds hfits, ?_, hnext, ?_⟩
  · exact hsame.trans (Image.alike_setMethods _ g _)
  · have hshows := hT.withMethod s next
    exact hshows.setMethods hg (Action.carries_entered (hshows g) hcarries)

theorem method_of_means (unit : String) (hm : m.Loaded) (hT : m.Shows T) (hd : d.IsPlain)
    (h : m.Means first last d g t) :
    ∃ m', (method unit d).runOn m = (.ok (), m') ∧ m.Alike m' ∧
      m'.Shows (MethodReading.enterAt T (g, t)) := by
  obtain ⟨next, hmapM⟩ := runOn_mapM_of_reads unit hm.registry.kernel hd h.specializers
  obtain ⟨spec, next', _, hspec, hreading⟩ := runOn_spec hmapM
  have hfunction : (functionFor d).runOn m = (.ok g, m) := by
    rw [functionFor, runOn_bind_of_ok (runOn_get m), h.function]
    rfl
  have htext : spec.reading = t := hreading.trans h.reading.symm
  have hfits : spec.specializers.length = (m.function g).required := by
    rw [← h.fits, ← htext]
    rfl
  obtain ⟨m', hinstall, halike, _, hshows⟩ := installMethod_of_fits
    (m := { m with nextObject := next' }) (hm.withRegistry hm.registry)
    (hT.withRegistry m.registry next') (hm.functions _ g h.function) hfits
  rw [htext] at hshows
  refine ⟨m', ?_, ?_, hshows⟩
  · rw [method, runOn_bind_of_ok hfunction, runOn_bind_of_ok hspec, runOn_discard, runOn_core,
      hinstall]
    rfl
  · have hsame : m.Alike { m with nextObject := next' } := ⟨rfl, rfl, rfl, fun _ => rfl⟩
    exact hsame.trans halike

theorem method_eq_ok (hm : m.Loaded) (hT : m.Shows T)
    (h : (method unit d).runOn m = (.ok (), m')) :
    m.Grown m' ∧ m.nextObject ≤ m'.nextObject ∧
      ∃ g t, m'.Means m.nextObject m'.nextObject d g t ∧
        m'.Shows (MethodReading.enterAt T (g, t)) := by
  obtain ⟨g, m₁, hfunction, h⟩ := bind_eq_ok m h
  obtain ⟨spec, m₂, hspec, h⟩ := bind_eq_ok m₁ h
  obtain ⟨i, h⟩ := discard_eq_ok m₂ h
  have hinstall := core_eq_ok m₂ h
  obtain ⟨hgrown, hsame, hname, hshown⟩ := functionFor_eq_ok hfunction
  have hloaded := (keepsLoaded_functionFor d).loaded hm hfunction
  have hloaded' := (keepsLoaded_spec unit d).loaded hloaded hspec
  obtain ⟨xs, m₃, hmapM, _⟩ := bind_eq_ok m₁ hspec
  obtain ⟨spec', next, hnext, hspec', hreading⟩ := runOn_spec hmapM
  cases hspec.symm.trans hspec'
  obtain ⟨r, next', names, rfl, hfirst, hr, hreads⟩ := mapM_specializer_eq_ok hmapM
  rw [hsame] at hfirst hreads
  have hshows : Image.Shows { m₁ with registry := r, nextObject := next } T :=
    (hshown T hT).withRegistry r next
  have hgrown' : m₁.Grown { m₁ with registry := r, nextObject := next } :=
    ⟨⟨names, hr⟩, fun _ _ hn => hn, Nat.le_refl _, fun _ _ => rfl⟩
  have hg : g < m₁.functions.length := hloaded.functions _ g hname
  by_cases hfits : spec.specializers.length = (m₁.function g).required
  · obtain ⟨m₄, hrun, halike, hlast, hentered⟩ :=
      installMethod_of_fits hloaded' hshows hg hfits
    cases hrun.symm.trans hinstall
    have hread : next' ≤ m'.nextObject := Nat.le_trans hnext hlast
    refine ⟨(hgrown.trans hgrown').trans halike.grown, Nat.le_trans hfirst hread, g, spec.reading,
      ?_, hentered⟩
    have hmeans : Image.Means { m₁ with registry := r, nextObject := next } m.nextObject
        m'.nextObject d g spec.reading := by
      refine ⟨hname, ?_, ?_, hfits⟩
      · rw [hreading]
        exact hreads.imp fun _ _ hx => hx.widen (Nat.le_refl _) hread
      · rw [hreading]
        rfl
    exact hmeans.grown hloaded' halike.grown
  · obtain ⟨s, next'', _, _, hfails, _⟩ :=
      Action.installMethod_cases hloaded'.registry.kernel hshows g spec
    obtain ⟨f, hrun⟩ := hfails hfits
    cases hrun.symm.trans hinstall

end Methods

section Phases

variable {ds : List MethodDeclaration} {jobs : List (FunctionId × MethodReading)}
  {e : FunctionDeclaration} {es : List FunctionDeclaration} {cs : List ClassDefinition}
  {r : Registry}

theorem methods_eq_ok (hm : m.Loaded) (hT : m.Shows T)
    (h : (ds.forM (method unit)).runOn m = (.ok (), m')) :
    m.Grown m' ∧ ∃ jobs : List (FunctionId × MethodReading), m'.Declares m.nextObject ds jobs ∧
      m'.Shows (jobs.foldl MethodReading.enterAt T) := by
  induction ds generalizing m T with
  | nil =>
    cases h
    exact ⟨.refl _, [], .nil _, hT⟩
  | cons d rest ih =>
    obtain ⟨m₁, hd, hrest⟩ := forM_cons_eq_ok m h
    obtain ⟨hgrown, hle, g, t, hmeans, hshows⟩ := method_eq_ok hm hT hd
    have hloaded := (keepsLoaded_method unit d).loaded hm hd
    obtain ⟨hgrown', jobs, hall, hshows'⟩ := ih hloaded hshows hrest
    refine ⟨hgrown.trans hgrown', (g, t) :: jobs, ?_, hshows'⟩
    exact .cons hle (hmeans.grown hloaded hgrown') hall

theorem methods_of_declares (unit : String) (hm : m.Loaded) (hT : m.Shows T)
    (hds : ∀ d ∈ ds, d.IsPlain) (h : m.Declares first ds jobs) :
    ∃ m', (ds.forM (method unit)).runOn m = (.ok (), m') ∧ m.Alike m' ∧
      m'.Shows (jobs.foldl MethodReading.enterAt T) := by
  induction ds generalizing m T first jobs with
  | nil =>
    cases h
    exact ⟨m, rfl, .refl m, hT⟩
  | cons d rest ih =>
    cases h with
    | cons _ hd hrest =>
      obtain ⟨m₁, hrun, halike, hshows⟩ :=
        method_of_means unit hm hT (hds d List.mem_cons_self) hd
      have hloaded := (keepsLoaded_method unit d).loaded hm hrun
      obtain ⟨m₂, hrun', halike', hshows'⟩ := ih hloaded hshows
        (fun x hx => hds x (List.mem_cons_of_mem d hx)) (hrest.grown hm halike.grown)
      refine ⟨m₂, ?_, halike.trans halike', hshows'⟩
      rw [forM_cons_of_ok m rest hrun]
      exact hrun'

theorem functions_of_ensures (hm : m.Loaded) (h : ∀ e ∈ es, m.Ensures e) :
    (es.mapM function).runOn m = (.ok (es.map FunctionDeclaration.name), m) := by
  induction es with
  | nil => rfl
  | cons e rest ih =>
    obtain ⟨g, hg, hrequired⟩ := h e List.mem_cons_self
    have hcore : (core (Action.ensureGenericFunction e.name e.lambdaList e.documentation)).runOn m =
        (.ok g, m) := by
      rw [runOn_core, Action.runOn_ensureGenericFunction e.documentation hg hrequired]
      rfl
    have hfunction : (function e).runOn m = (.ok e.name, m) := by
      rw [function, runOn_bind_of_ok hcore, runOn_bind_of_ok (runOn_get m), hm.named _ g hg]
      rfl
    rw [List.mapM_cons, runOn_bind_of_ok hfunction,
      runOn_bind_of_ok (ih fun x hx => h x (List.mem_cons_of_mem e hx))]
    rfl

/-- A function that was ensured is there, under the name that is told; functions of other names are
not touched. -/
theorem function_eq_ok {name : Symbol} (hm : m.Loaded)
    (h : (function e).runOn m = (.ok name, m')) :
    name = e.name ∧ m'.Ensures e ∧ m'.registry = m.registry ∧
      ∀ e' : FunctionDeclaration, e'.name ≠ e.name → m.Ensures e' → m'.Ensures e' := by
  obtain ⟨g, next, hensure, htold⟩ := bind_eq_ok m h
  cases htold
  have hcore := core_eq_ok m hensure
  rcases Action.ensureGenericFunction_cases m e.name e.lambdaList e.documentation with
    ⟨g', hg', hrequired, hrun⟩ | ⟨f, hrun⟩ | ⟨_, hrun⟩
  · rw [hrun] at hcore
    cases hcore
    exact ⟨hm.named _ g hg', ⟨_, hg', hrequired⟩, rfl, fun _ _ he' => he'⟩
  · rw [hrun] at hcore
    cases hcore
  · rw [hrun] at hcore
    cases hcore
    refine ⟨?_, ⟨m.functions.length, ?_, ?_⟩, rfl, ?_⟩
    · rw [Image.function_withFunction_new]
    · rw [Image.findFunction_withFunction, if_pos rfl]
    · rw [Image.function_withFunction_new]
      rfl
    · rintro e' hne ⟨g, hg, hrequired⟩
      refine ⟨g, ?_, ?_⟩
      · rw [Image.findFunction_withFunction, if_neg (Ne.symm hne)]
        exact hg
      · rw [Image.function_withFunction_of_lt (hm.functions _ g hg)]
        exact hrequired

/-- Functions that were ensured are there as they were declared last, and their names are told. -/
theorem functions_eq_ok {names : List Symbol} (hm : m.Loaded)
    (h : (es.mapM function).runOn m = (.ok names, m')) :
    names = es.map FunctionDeclaration.name ∧ m'.Loaded ∧ m'.registry = m.registry ∧
      (∀ e ∈ prevailing (sameKey FunctionDeclaration.name) es, m'.Ensures e) ∧
      ∀ e' : FunctionDeclaration, (∀ e ∈ es, e'.name ≠ e.name) → m.Ensures e' → m'.Ensures e' := by
  induction es generalizing m names with
  | nil =>
    cases h
    exact ⟨rfl, hm, rfl, fun e he => absurd he List.not_mem_nil, fun _ _ he' => he'⟩
  | cons e rest ih =>
    rw [List.mapM_cons] at h
    obtain ⟨name, m₁, he, hmore⟩ := bind_eq_ok m h
    obtain ⟨others, m₂, hrest, htold⟩ := bind_eq_ok m₁ hmore
    cases htold
    obtain ⟨rfl, hensures, hregistry, hkept⟩ := function_eq_ok hm he
    have hloaded := (keepsLoaded_function e).loaded hm he
    obtain ⟨rfl, hloaded', hregistry', hall, hkept'⟩ := ih hloaded hrest
    refine ⟨rfl, hloaded', hregistry'.trans hregistry, ?_, ?_⟩
    · intro x hx
      rcases mem_prevailing_cons.mp hx with hx | ⟨rfl, hothers⟩
      · exact hall x hx
      · exact hkept' x (fun y hy => of_decide_eq_false (hothers y hy)) hensures
    · intro e' hne he'
      apply hkept'
      · exact fun x hx => hne x (List.mem_cons_of_mem e hx)
      · exact hkept e' (hne e List.mem_cons_self) he'

theorem classes_eq_ok :
    (cs.forM fun c => discard (core (Action.ensureClass c))).runOn m = (.ok (), m') ↔
      ∃ r, m.registry.defineAll cs = some r ∧ m' = { m with registry := r } := by
  induction cs generalizing m with
  | nil =>
    constructor
    · rintro h
      cases h
      exact ⟨_, rfl, rfl⟩
    · rintro ⟨r, hr, rfl⟩
      cases hr
      rfl
  | cons d rest ih =>
    have hstep : (discard (core (Action.ensureClass d))).runOn m =
        (((m.registry.define d).1.mapError LoadFault.core).map fun _ => (),
          { m with registry := (m.registry.define d).2 }) := by
      rw [runOn_discard, runOn_core, Action.runOn_ensureClass]
    cases hanswer : m.registry.define d with
    | mk answer next =>
      rw [hanswer] at hstep
      cases answer with
      | error f =>
        constructor
        · intro h
          obtain ⟨m₁, hd, _⟩ := forM_cons_eq_ok m h
          cases hd.symm.trans hstep
        · rintro ⟨r, hr, _⟩
          obtain ⟨root, next', hd, _⟩ := Registry.defineAll_eq_some hr
          cases hanswer.symm.trans hd
      | ok root =>
        rw [forM_cons_of_ok m rest hstep, Registry.defineAll_cons hanswer]
        exact ih

end Phases

section Units

variable {u : DefinitionUnit} {report : LoadReport} {jobs : List (FunctionId × MethodReading)}

/-- A unit that was installed into the image of a loader leaves its declarations there. -/
theorem install_eq_ok (hm : m.Loaded) (h : (install unit u).runOn m = (.ok report, m')) :
    report = u.report unit ∧ ∃ jobs T, m'.Holds u jobs ∧
      m'.Shows (jobs.foldl MethodReading.enterAt T) := by
  obtain ⟨⟨⟩, m₁, hrun, h⟩ := bind_eq_ok m h
  obtain ⟨names, m₂, hrun', h⟩ := bind_eq_ok m₁ h
  obtain ⟨⟨⟩, m₃, hrun'', h⟩ := bind_eq_ok m₂ h
  cases h
  obtain ⟨r, hdefined, rfl⟩ := classes_eq_ok.mp hrun
  have hstands := Registry.stands_of_defineAll hm.registry hdefined
  have hloaded : Image.Loaded { m with registry := r } :=
    hm.withRegistry (hm.registry.defineAll hdefined)
  obtain ⟨rfl, hloaded', hregistry, hensures, _⟩ := functions_eq_ok hloaded hrun'
  obtain ⟨T, hT⟩ := hloaded'.shown
  obtain ⟨hgrown, jobs, hdeclares, hshows⟩ := methods_eq_ok hloaded' hT hrun''
  have hloaded'' := (KeepsLoaded.forM (keepsLoaded_method unit)).loaded hloaded' hrun''
  refine ⟨rfl, jobs, T, ⟨hloaded'', ?_, ?_, _, hdeclares⟩, hshows⟩
  · intro d hd
    obtain ⟨c, supers, hc⟩ := hstands d hd
    obtain ⟨names, hnames⟩ := hgrown.registry
    rw [hregistry] at hnames
    exact ⟨c, supers, hc.grown hloaded.registry.invariant.toWellFormed hnames⟩
  · exact fun e he => (hensures e he).grown hloaded' hgrown

/-- A unit whose declarations are there is installed again, and only its methods are replaced. -/
theorem install_again (unit : String) {T : FunctionId → List MethodReading} (h : m.Holds u jobs)
    (hT : m.Shows T) (hclasses : (u.classes.map ClassDefinition.name).Nodup)
    (hfunctions : (u.functions.map FunctionDeclaration.name).Nodup)
    (hmethods : ∀ d ∈ u.methods, d.IsPlain)
    (hfinal : ∀ d ∈ u.classes, ∀ c, m.registry.lookup d.name = some c → m.registry.isFinalized c) :
    ∃ m', (install unit u).runOn m = (.ok (u.report unit), m') ∧ m'.Loaded ∧
      m.registry.Restates m'.registry ∧ m'.functionNames = m.functionNames ∧
      m'.functions.length = m.functions.length ∧
      (∀ g, (m'.function g).head = (m.function g).head) ∧
      m'.Shows (jobs.foldl MethodReading.enterAt T) := by
  have hstands := h.classes
  have hensures := h.functions
  obtain ⟨first, hdeclares⟩ := h.methods
  rw [prevailing_of_nodup hclasses] at hstands
  rw [prevailing_of_nodup hfunctions] at hensures
  have hdefined : ∀ d ∈ u.classes, ∃ c supers, m.registry.Stands d c supers ∧
      m.registry.isFinalized c := by
    intro d hd
    obtain ⟨c, supers, hc⟩ := hstands d hd
    exact ⟨c, supers, hc, hfinal d hd c hc.lookup⟩
  obtain ⟨r, hr, hsame⟩ := Registry.defineAll_again h.loaded.registry hdefined
  have hloaded : Image.Loaded { m with registry := r } :=
    h.loaded.withRegistry (h.loaded.registry.defineAll hr)
  have hrun := (classes_eq_ok (m := m)).mpr ⟨r, hr, rfl⟩
  have hrun' := functions_of_ensures hloaded hensures
  have hT' : Image.Shows { m with registry := r } T :=
    hT.withRegistry r m.nextObject
  obtain ⟨m', hrun'', halike, hshows⟩ :=
    methods_of_declares unit hloaded hT' hmethods (hdeclares.restates hsame)
  have hloaded' := (KeepsLoaded.forM (keepsLoaded_method unit)).loaded hloaded hrun''
  refine ⟨m', ?_, hloaded', ?_, halike.functionNames, halike.length, halike.head, hshows⟩
  · rw [install, runOn_bind_of_ok hrun, runOn_bind_of_ok hrun', runOn_bind_of_ok hrun'']
    rfl
  · rw [halike.registry]
    exact hsame

end Units

end Installation

end Metaobject
