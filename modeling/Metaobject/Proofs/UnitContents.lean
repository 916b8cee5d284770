import Metaobject.Proofs.Reloading
import Metaobject.Proofs.TypeCoherence

/-!
# What a unit leaves in an image

A unit that was loaded has installed every declaration that no later one of it overrides: classes and
functions stand as they were declared last, and methods are found in their functions. Nothing that the
unit does later takes this back.
-/

namespace Metaobject

/-- Whether the specializers stand for the same, the second one read after the first. -/
def SpecializerDeclaration.same : SpecializerDeclaration → SpecializerDeclaration → Bool
  | .ofClass n, .ofClass n' => n = n'
  | .eql j, .eql j' => Literal.same j j'
  | _, _ => false

/-- Whether a method that is declared later takes the place of another one: it belongs to the same
function and has the same qualifiers and specializers. -/
def MethodDeclaration.overriddenBy (d later : MethodDeclaration) : Bool :=
  d.function = later.function && d.qualifiers = later.qualifiers &&
    d.specializers.isEqv later.specializers SpecializerDeclaration.same

namespace Registry

variable {r : Registry} {s s' : SpecializerDeclaration} {x x' : Specializer}
  {ss ss' : List SpecializerDeclaration} {xs xs' : List Specializer}
  {first last first' last' : ObjectId} {d : ClassDefinition} {c : ClassId} {supers : List ClassId}

structure Defines (r : Registry) (d : ClassDefinition) (c : ClassId) : Prop where
  lookup : r.lookup d.name = some c
  isStandard : (r.generation c).isStandard = true
  slots : r.slots c = d.slots
  documentation : (r.generation c).documentation = d.documentation
  superclasses : (r.superclasses c).map r.className = d.superclassNames.map some

theorem Named.map_className {names : List Symbol} (hr : r.Named)
    (h : names.map r.lookup = supers.map some) : supers.map r.className = names.map some := by
  induction names generalizing supers with
  | nil =>
    cases supers with
    | nil => rfl
    | cons c rest => contradiction
  | cons n names ih =>
    cases supers with
    | nil => contradiction
    | cons c rest =>
      obtain ⟨hn, hrest⟩ := List.cons.inj h
      rw [List.map_cons, List.map_cons, hr n c hn, ih hrest]

theorem Stands.defines (hr : r.Loadable) (h : r.Stands d c supers) : r.Defines d c where
  lookup := h.lookup
  isStandard := by
    rw [← Generation.isStandard_unfinalized, h.definition]
    rfl
  slots := by
    rw [Registry.slots, ← Generation.slots_unfinalized, h.definition]
    rfl
  documentation := by
    rw [← Generation.documentation_unfinalized, h.definition]
    rfl
  superclasses := by
    rw [h.superclasses]
    exact hr.named.map_className (h.names.map_lookup (hr.kernel.bound .standardObject))

theorem Reads.same_of_same (hr : r.Named) (h : r.Reads first last s x)
    (h' : r.Reads first' last' s' x') (hle : last ≤ first') (hsame : x.same x' = true) :
    s.same s' = true := by
  cases h with
  | @ofClass n c hn =>
    cases h' with
    | @ofClass n' c' hn' =>
      have hc : c = c' := of_decide_eq_true hsame
      subst hc
      have hname : some n = some n' := (hr n c hn).symm.trans (hr n' c hn')
      exact decide_eq_true (Option.some.inj hname)
    | eql => contradiction
  | eql _ hread hlast =>
    cases h' with
    | ofClass => contradiction
    | eql hfirst hread' _ =>
      have horder := Nat.le_trans hlast (Nat.le_trans hle hfirst)
      exact (Literal.eql_eq_same hread hread' horder).symm.trans hsame

theorem Reads.isEqv (hr : r.Named) (h : List.Forall₂ (r.Reads first last) ss xs)
    (h' : List.Forall₂ (r.Reads first' last') ss' xs') (hle : last ≤ first')
    (hsame : Action.sameSpecializers xs xs' = true) :
    ss.isEqv ss' SpecializerDeclaration.same = true := by
  rw [Action.sameSpecializers, Bool.and_eq_true, decide_eq_true_iff] at hsame
  induction h generalizing ss' xs' with
  | nil =>
    cases h' with
    | nil => rfl
    | cons _ _ => simp at hsame
  | cons hx hrest ih =>
    cases h' with
    | nil => simp at hsame
    | cons hx' hrest' =>
      simp only [List.length_cons, Nat.add_right_cancel_iff, List.zip_cons_cons, List.all_cons,
        Bool.and_eq_true] at hsame
      obtain ⟨hlength, hhead, hall⟩ := hsame
      rw [List.isEqv, hx.same_of_same hr hx' hle hhead, ih hrest' ⟨hlength, hall⟩]
      rfl

end Registry

namespace Image

variable {m : Image} {u : DefinitionUnit} {d d' : MethodDeclaration} {ds : List MethodDeclaration}
  {jobs : List (FunctionId × MethodReading)} {j : FunctionId × MethodReading} {g : FunctionId}
  {t t' : MethodReading} {first last first' last' : ObjectId} {T : FunctionId → List MethodReading}

/-- An instance is read as the method that is declared, specialized on the classes that its names are
bound to and on the values of its literals. -/
def IsMethod (m : Image) (d : MethodDeclaration) (i : InstanceId) : Prop :=
  ∃ specializers first last, (Action.readMethod i).runOn m = (.ok (d.reading specializers), m) ∧
    List.Forall₂ (m.registry.Reads first last) d.specializers specializers

/-- Every declaration of a unit that prevails is there. -/
structure Installed (m : Image) (u : DefinitionUnit) : Prop where
  classes : ∀ n ∈ u.classes.map ClassDefinition.name,
    ∃ d ∈ prevailing (sameKey ClassDefinition.name) u.classes, d.name = n ∧
      ∃ c, m.registry.Defines d c
  functions : ∀ n ∈ u.functions.map FunctionDeclaration.name,
    ∃ e ∈ prevailing (sameKey FunctionDeclaration.name) u.functions, e.name = n ∧
      ∃ g, m.findFunction n = some g ∧ g < m.functions.length ∧
        (m.function g).required = requiredCount e.lambdaList
  methods : ∀ d ∈ prevailing MethodDeclaration.overriddenBy u.methods,
    ∃ g, m.findFunction d.function = some g ∧ ∃ i ∈ (m.function g).methods, m.IsMethod d i

theorem Means.overriddenBy (hm : m.Loaded) (h : m.Means first last d g t)
    (h' : m.Means first' last' d' g t') (hle : last ≤ first')
    (hsignature : t.HasSignature t'.qualifiers t'.specializers = true) :
    d.overriddenBy d' = true := by
  rw [MethodReading.HasSignature, Bool.and_eq_true, decide_eq_true_iff] at hsignature
  obtain ⟨hqualifiers, hspecializers⟩ := hsignature
  have hfunction : d.function = d'.function :=
    (hm.named _ g h.function).symm.trans (hm.named _ g h'.function)
  rw [h.reading, h'.reading] at hqualifiers
  have hqualifiers : d.qualifiers = d'.qualifiers := hqualifiers
  have hsame := Registry.Reads.isEqv hm.registry.named h.specializers h'.specializers hle
    hspecializers
  rw [MethodDeclaration.overriddenBy, decide_eq_true hfunction, decide_eq_true hqualifiers, hsame]
  rfl

theorem Declares.exists_of_mem (h : m.Declares first ds jobs) (hj : j ∈ jobs) :
    ∃ d ∈ ds, ∃ first' last, first ≤ first' ∧ m.Means first' last d j.1 j.2 := by
  induction h with
  | nil => contradiction
  | @cons first next d j' ds jobs hle hd _ ih =>
    rcases List.mem_cons.mp hj with rfl | hj
    · exact ⟨d, List.mem_cons_self, first, next, Nat.le_refl first, hd⟩
    · obtain ⟨d', hd', first', last, hfirst, hmeans⟩ := ih hj
      exact ⟨d', List.mem_cons_of_mem d hd', first', last, Nat.le_trans hle hfirst, hmeans⟩

theorem Declares.mem_table (hm : m.Loaded) (h : m.Declares first ds jobs)
    (hd : d ∈ prevailing MethodDeclaration.overriddenBy ds) :
    ∃ g t first' last, m.Means first' last d g t ∧
      t ∈ jobs.foldl MethodReading.enterAt T g := by
  induction h generalizing T with
  | nil => contradiction
  | @cons first next d' j ds jobs _ hmeans hrest ih =>
    rcases mem_prevailing_cons.mp hd with hd | ⟨rfl, hkept⟩
    · exact ih hd
    · have hentered : j.2 ∈ MethodReading.enterAt T j j.1 := by
        rw [MethodReading.enterAt, Function.update_self]
        exact MethodReading.mem_enter_self _ _
      refine ⟨j.1, j.2, first, next, hmeans, ?_⟩
      apply MethodReading.mem_foldl_enterAt hentered
      intro x hx hg hsignature
      obtain ⟨e, he, first', last, hle, hlater⟩ := hrest.exists_of_mem hx
      rw [hg] at hlater
      have hover := hmeans.overriddenBy hm hlater hle hsignature
      rw [hkept e he] at hover
      contradiction

/-- What holds of an image into which a unit was installed, as others see it. -/
theorem Holds.installed (h : m.Holds u jobs) (hT : m.Shows (jobs.foldl MethodReading.enterAt T)) :
    m.Installed u where
  classes n hn := by
    obtain ⟨d', hd', rfl⟩ := List.mem_map.mp hn
    obtain ⟨d, hd, hname⟩ := exists_prevailing ClassDefinition.name hd'
    obtain ⟨c, supers, hc⟩ := h.classes d hd
    exact ⟨d, hd, hname, c, hc.defines h.loaded.registry⟩
  functions n hn := by
    obtain ⟨e', he', rfl⟩ := List.mem_map.mp hn
    obtain ⟨e, he, hname⟩ := exists_prevailing FunctionDeclaration.name he'
    obtain ⟨g, hg, hrequired⟩ := h.functions e he
    refine ⟨e, he, hname, g, ?_, h.loaded.functions _ g hg, hrequired⟩
    rw [← hname]
    exact hg
  methods d hd := by
    obtain ⟨first, hdeclares⟩ := h.methods
    obtain ⟨g, t, first', last, hmeans, ht⟩ := hdeclares.mem_table (T := T) h.loaded hd
    obtain ⟨i, hi, hcarries⟩ := exists_of_forall₂ (hT g) ht
    have hread := Action.runOn_readMethod h.loaded.registry.kernel hcarries
    rw [hmeans.reading] at hread
    exact ⟨g, hmeans.function, i, hi, _, first', last, hread, hmeans.specializers⟩

end Image

namespace Loader

variable {σ : Type} {o : Opener σ Archive} {l l' : Loader σ} {name : String} {a : Archive}
  {m m' : Image} {report : LoadReport}

theorem unit?_of_installArchive
    (h : (Installation.installArchive a).runOn m = (.ok report, m')) : ∃ u, a.unit? = some u := by
  rw [Installation.installArchive] at h
  cases htext : a.text with
  | error f =>
    rw [htext] at h
    cases h
  | ok text =>
    rw [htext] at h
    obtain ⟨u, _, hdecode, _⟩ := Installation.bind_eq_ok m h
    rw [Installation.decode] at hdecode
    cases hjson : DefinitionUnit.ofJson text with
    | error f =>
      rw [hjson] at hdecode
      cases hdecode
    | ok u' =>
      refine ⟨u', ?_⟩
      rw [Archive.unit?, htext]
      exact congrArg Except.toOption hjson

theorem acquire_of_loadUnit (h : l.loadUnit o name = (.ok report, l')) :
    ∃ a, (l.cache.acquire o name).1 = .ok a := by
  cases hacquire : (l.cache.acquire o name).1 with
  | error f =>
    rw [loadUnit_of_error hacquire] at h
    cases h
  | ok a => exact ⟨a, rfl⟩

/-- Loading a unit, whatever was loaded before it, installs every declaration of the unit that no later
one overrides, and reports what was declared. -/
theorem loadUnit_installs (settings : Settings) (backend : σ) (stopOnError : Bool)
    (names : List String)
    (hbefore : (loadAll o stopOnError names (fresh settings backend)).2 = l)
    (hload : l.loadUnit o name = (.ok report, l')) :
    ∃ a u, (l.cache.acquire o name).1 = .ok a ∧ a.unit? = some u ∧ report = u.report a.name ∧
      l'.image.Installed u := by
  have hloaded : l.image.Loaded := by
    rw [← hbefore]
    exact loadEach_loaded (fun name _ => loadUnit_loaded o name) stopOnError names
      (Image.loaded_fresh settings.limits)
  obtain ⟨a, ha⟩ := acquire_of_loadUnit hload
  have hrun := loadUnit_eq_ok ha hload
  obtain ⟨u, hu⟩ := unit?_of_installArchive hrun
  rw [Installation.installArchive_of_unit hu] at hrun
  obtain ⟨hreport, jobs, T, hholds, hT⟩ := Installation.install_eq_ok hloaded hrun
  exact ⟨a, u, ha, hu, hreport, hholds.installed hT⟩

/-- An archive that declares a class twice, and a method on it twice with another one in between. All
is written as lists of fields. -/
def drawing : Archive :=
  let dot (slots : List Json) : Json := .array [.string "DOT", .array [], .array slots]
  let draw (specializer : Json) (code : String) : Json :=
    .array [.string "DRAW", .array [.string "A"], .array [specializer], .array [], .string code]
  let one : Json := .object [("eql", .number (.natural 1))]
  ⟨"drawing", Text.Utf8.encode (Json.array [.array [dot [], dot [.string "SIZE"]], .array [],
    .array [draw (.string "DOT") "d", draw one "e", draw (.string "DOT") "f"]]).text⟩

def undrawn : Loader MemoryArchives :=
  (loadAll (MemoryArchives.opener 200) false ["lines"]
    (fresh Settings.standard (Table.empty.insert "drawing" drawing.bytes))).2

def drawn : Except LoadFault LoadReport × Loader MemoryArchives :=
  undrawn.loadUnit (MemoryArchives.opener 200) "drawing"

theorem drawn_loadUnit_installs :
    ∃ u, drawing.unit? = some u ∧ drawn.1.toOption = some (u.report "drawing") ∧
      drawn.2.image.Installed u ∧
      (prevailing (sameKey ClassDefinition.name) u.classes).map ClassDefinition.slots =
        [[⟨"SIZE"⟩]] ∧
      (prevailing MethodDeclaration.overriddenBy u.methods).map MethodDeclaration.code =
        ["e", "f"] := by
  have hfound : (undrawn.cache.acquire (MemoryArchives.opener 200) "drawing").1 = .ok drawing := by
    decide +kernel
  obtain ⟨u, hu, hrun, hclasses, hmethods⟩ : ∃ u ∈ drawing.unit?,
      ((Installation.install drawing.name u).runOn undrawn.image).1.toOption =
        some (u.report "drawing") ∧
      (prevailing (sameKey ClassDefinition.name) u.classes).map ClassDefinition.slots =
        [[⟨"SIZE"⟩]] ∧
      (prevailing MethodDeclaration.overriddenBy u.methods).map MethodDeclaration.code =
        ["e", "f"] := by
    decide +kernel
  have hload : drawn = (.ok (u.report "drawing"), drawn.2) := by
    have hsteps := loadUnit_of_acquire hfound
    rw [Installation.installArchive_of_unit hu] at hsteps
    cases hanswer : ((Installation.install drawing.name u).runOn undrawn.image).1 with
    | error f =>
      rw [hanswer] at hrun
      cases hrun
    | ok report =>
      rw [hanswer] at hrun hsteps
      rw [Except.toOption, Option.some.injEq] at hrun
      rw [drawn, hsteps, hrun]
      rfl
  obtain ⟨a, u', ha, hu', _, hinstalled⟩ :=
    loadUnit_installs Settings.standard _ false ["lines"] rfl hload
  rw [Except.ok.inj (ha.symm.trans hfound), hu] at hu'
  rw [← Option.some.inj hu'] at hinstalled
  exact ⟨u, hu, congrArg (fun p => p.1.toOption) hload, hinstalled, hclasses, hmethods⟩

end Loader

end Metaobject
