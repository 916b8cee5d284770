import Metaobject.Proofs.Reloading

/-!
# Faults of decoding

An archive that holds no unit is refused before anything of it is installed. A literal is decoded only
when its method is installed, so one that is refused comes too late: what stands before it in the unit
has been installed by then, and stays.
-/

namespace Metaobject

@[simp] theorem LoadFault.phase_within (f : LoadFault) (unit : String) :
    (f.within unit).phase = f.phase := by
  cases f <;> rfl

/-- The place of a literal in a unit: in a method that comes after others, and there after other
specializers. -/
structure LiteralPlace (u : DefinitionUnit) where
  earlier : List MethodDeclaration
  method : MethodDeclaration
  later : List MethodDeclaration
  declared : List SpecializerDeclaration
  datum : Json
  undeclared : List SpecializerDeclaration
  methods_eq : u.methods = earlier ++ method :: later
  specializers_eq : method.specializers = declared ++ .eql datum :: undeclared

namespace Installation

variable {α β : Type} {m m' : Image} {s : Installation α} {f : α → Installation β} {e : LoadFault}
  {unit : String} {u : DefinitionUnit} {d : MethodDeclaration} {x : SpecializerDeclaration}
  {a : Archive}

/-- What is installed of a unit before one of its literals is read. -/
def reach (unit : String) (p : LiteralPlace u) : Installation Unit := do
  discard (install unit { u with methods := p.earlier })
  discard (functionFor p.method)
  p.declared.forM fun x => discard (specializer unit x)

def Refuses (unit : String) (datum : Json) (m : Image) (e : LoadFault) : Prop :=
  ∃ j, Literal.read datum m.nextObject = .error j ∧
    e = .decode unit none none (Literal.refusal j)

/-- How decoding fails when an archive is installed: with which fault, and in which image that ends. -/
inductive FailsToDecode (a : Archive) (m : Image) : LoadFault → Image → Prop
  | text {f : Text.Utf8Fault} : a.text = .error f →
      FailsToDecode a m (.decode a.name none none f.message) m
  | unit {text : String} {f : Json.Fault} : a.text = .ok text → DefinitionUnit.ofJson text = .error f →
      FailsToDecode a m (.decode a.name (f.place.map Json.Position.line)
        (f.place.map Json.Position.column) f.message) m
  | literal {u : DefinitionUnit} (p : LiteralPlace u) {e : LoadFault} {m' : Image} :
      a.unit? = some u → (reach a.name p).runOn m = (.ok (), m') → Refuses a.name p.datum m' e →
      FailsToDecode a m e m'

/-- A step that decodes nothing, and fails for other reasons if it fails. -/
def DecodesNothing (s : Installation α) : Prop :=
  ∀ m e m', s.runOn m = (.error e, m') → e.phase ≠ "decode"

section Composition

theorem DecodesNothing.bind (hs : DecodesNothing s) (hf : ∀ y, DecodesNothing (f y)) :
    DecodesNothing (s >>= f) :=
  FailsOnly.bind hs hf

theorem DecodesNothing.forM {f : α → Installation PUnit} (hf : ∀ y, DecodesNothing (f y))
    (l : List α) : DecodesNothing (l.forM f) :=
  FailsOnly.forM hf l

theorem DecodesNothing.map (hs : DecodesNothing s) (g : α → β) : DecodesNothing (g <$> s) :=
  FailsOnly.map hs g

theorem DecodesNothing.discard (hs : DecodesNothing s) : DecodesNothing (discard s) :=
  FailsOnly.discard hs

theorem decodesNothing_pure (y : α) : DecodesNothing (pure y : Installation α) :=
  failsOnly_pure y

theorem decodesNothing_core (action : Action α) : DecodesNothing (core action) :=
  failsOnly_core (by simp [LoadFault.phase]) action

theorem decodesNothing_functionFor (d : MethodDeclaration) : DecodesNothing (functionFor d) :=
  failsOnly_functionFor (by simp [LoadFault.phase]) d

theorem decodesNothing_function (d : FunctionDeclaration) : DecodesNothing (function d) :=
  failsOnly_function (by simp [LoadFault.phase]) d

theorem DecodesNothing.bind_eq_error (hs : DecodesNothing s) (he : e.phase = "decode") :
    (s >>= f).runOn m = (.error e, m') ↔
      ∃ y next, s.runOn m = (.ok y, next) ∧ (f y).runOn next = (.error e, m') := by
  rw [Installation.bind_eq_error]
  exact or_iff_right fun h => hs m e m' h he

theorem bind_eq_error_of_decodesNothing (hf : ∀ y, DecodesNothing (f y)) (he : e.phase = "decode") :
    (s >>= f).runOn m = (.error e, m') ↔ s.runOn m = (.error e, m') := by
  rw [Installation.bind_eq_error]
  apply or_iff_left
  rintro ⟨y, next, _, hnext⟩
  exact hf y next e m' hnext he

end Composition

section Declarations

theorem specializer_eq_error (he : e.phase = "decode") :
    (specializer unit x).runOn m = (.error e, m') ↔
      ∃ datum, x = .eql datum ∧ Refuses unit datum m e ∧ m' = m := by
  cases x with
  | ofClass n =>
    have hsteps : DecodesNothing (specializer unit (.ofClass n)) :=
      (decodesNothing_core _).map _
    simpa using fun h => hsteps m e m' h he
  | eql datum =>
    have hsteps : (specializer unit (.eql datum)).runOn m =
        (((literal unit datum).runOn m).1.map Specializer.eql, ((literal unit datum).runOn m).2) :=
      runOn_map m _ _
    rw [hsteps, runOn_literal]
    cases hread : Literal.read datum m.nextObject with
    | ok y => simp [Refuses, hread, Except.map]
    | error j => simp [Refuses, hread, Except.map, eq_comm]

theorem spec_eq_error_iff_mapM (he : e.phase = "decode") :
    (spec unit d).runOn m = (.error e, m') ↔
      (d.specializers.mapM (specializer unit)).runOn m = (.error e, m') := by
  refine bind_eq_error_of_decodesNothing (fun xs => (decodesNothing_core _).bind fun code => ?_) he
  cases d.fastCode with
  | none => exact (decodesNothing_pure _).bind fun _ => decodesNothing_pure _
  | some fastCode =>
    exact ((decodesNothing_core _).map some).bind fun _ => decodesNothing_pure _

theorem spec_eq_error (he : e.phase = "decode") :
    (spec unit d).runOn m = (.error e, m') ↔ ∃ declared datum undeclared,
      d.specializers = declared ++ .eql datum :: undeclared ∧
        (declared.forM fun x => discard (specializer unit x)).runOn m = (.ok (), m') ∧
        Refuses unit datum m' e := by
  rw [spec_eq_error_iff_mapM he, ← discard_eq_error, ← forM_discard, forM_eq_error]
  simp only [discard_eq_error, specializer_eq_error he]
  constructor
  · rintro ⟨declared, _, undeclared, next, hspecializers, hdeclared, datum, rfl, hrefuses, rfl⟩
    exact ⟨declared, datum, undeclared, hspecializers, hdeclared, hrefuses⟩
  · rintro ⟨declared, datum, undeclared, hspecializers, hdeclared, hrefuses⟩
    exact ⟨declared, _, undeclared, m', hspecializers, hdeclared, datum, rfl, hrefuses, rfl⟩

theorem method_eq_error (he : e.phase = "decode") :
    (method unit d).runOn m = (.error e, m') ↔
      ∃ next, (discard (functionFor d)).runOn m = (.ok (), next) ∧
        (spec unit d).runOn next = (.error e, m') := by
  have hlast (g : FunctionId) (y : MethodSpec) :
      DecodesNothing (discard (core (Action.installMethod g y))) :=
    (decodesNothing_core _).discard
  rw [method, (decodesNothing_functionFor d).bind_eq_error he]
  simp only [bind_eq_error_of_decodesNothing (hlast _) he]
  constructor
  · rintro ⟨g, next, hg, hspec⟩
    refine ⟨next, ?_, hspec⟩
    rw [runOn_discard, hg]
    rfl
  · rintro ⟨next, hfunction, hspec⟩
    obtain ⟨g, hg⟩ := discard_eq_ok m hfunction
    exact ⟨g, next, hg, hspec⟩

def declare (u : DefinitionUnit) : Installation Unit := do
  u.classes.forM fun d => discard (core (Action.ensureClass d))
  discard (u.functions.mapM function)

theorem decodesNothing_declare (u : DefinitionUnit) : DecodesNothing (declare u) :=
  DecodesNothing.bind (.forM (fun _ => (decodesNothing_core _).discard) _) fun _ =>
    (FailsOnly.mapM decodesNothing_function u.functions).discard

theorem discard_install (unit : String) (u : DefinitionUnit) :
    discard (install unit u) = declare u >>= fun _ => u.methods.forM (method unit) := by
  simp [install, declare, discard, Functor.discard, map_const]

theorem discard_install_eq_ok :
    (discard (install unit u)).runOn m = (.ok (), m') ↔ ∃ next,
      (declare u).runOn m = (.ok (), next) ∧
        (u.methods.forM (method unit)).runOn next = (.ok (), m') := by
  rw [discard_install]
  constructor
  · intro h
    obtain ⟨_, next, hdeclare, hmethods⟩ := bind_eq_ok m h
    exact ⟨next, hdeclare, hmethods⟩
  · rintro ⟨next, hdeclare, hmethods⟩
    rw [runOn_bind_of_ok hdeclare, hmethods]

theorem install_eq_error (he : e.phase = "decode") :
    (install unit u).runOn m = (.error e, m') ↔
      ∃ earlier d later next, u.methods = earlier ++ d :: later ∧
        (discard (install unit { u with methods := earlier })).runOn m = (.ok (), next) ∧
        (method unit d).runOn next = (.error e, m') := by
  rw [← discard_eq_error, discard_install, (decodesNothing_declare u).bind_eq_error he]
  simp only [forM_eq_error, discard_install_eq_ok]
  constructor
  · rintro ⟨_, declared, hdeclare, earlier, d, later, next, hmethods, hearlier, hd⟩
    exact ⟨earlier, d, later, next, hmethods, ⟨declared, hdeclare, hearlier⟩, hd⟩
  · rintro ⟨earlier, d, later, next, hmethods, ⟨declared, hdeclare, hearlier⟩, hd⟩
    exact ⟨(), declared, hdeclare, earlier, d, later, next, hmethods, hearlier, hd⟩

theorem runOn_reach (p : LiteralPlace u) :
    (reach unit p).runOn m = (.ok (), m') ↔ ∃ installed next,
      (discard (install unit { u with methods := p.earlier })).runOn m = (.ok (), installed) ∧
      (discard (functionFor p.method)).runOn installed = (.ok (), next) ∧
      (p.declared.forM fun x => discard (specializer unit x)).runOn next = (.ok (), m') := by
  constructor
  · intro h
    obtain ⟨_, installed, hinstalled, hrest⟩ := bind_eq_ok m h
    obtain ⟨_, next, hfunction, hdeclared⟩ := bind_eq_ok installed hrest
    exact ⟨installed, next, hinstalled, hfunction, hdeclared⟩
  · rintro ⟨installed, next, hinstalled, hfunction, hdeclared⟩
    rw [reach, runOn_bind_of_ok hinstalled, runOn_bind_of_ok hfunction]
    exact hdeclared

/-- Of a unit, decoding fails at one of its literals, when all before it is installed. -/
theorem install_refuses (he : e.phase = "decode") :
    (install unit u).runOn m = (.error e, m') ↔ ∃ p : LiteralPlace u,
      (reach unit p).runOn m = (.ok (), m') ∧ Refuses unit p.datum m' e := by
  -- Each equivalence opens one layer: the unit, the method that fails, its specializers.
  simp only [install_eq_error he, method_eq_error he, spec_eq_error he, runOn_reach]
  constructor
  · rintro ⟨earlier, d, later, installed, hmethods, hinstalled, next, hfunction, declared, datum,
      undeclared, hspecializers, hdeclared, hrefuses⟩
    exact ⟨⟨earlier, d, later, declared, datum, undeclared, hmethods, hspecializers⟩,
      ⟨installed, next, hinstalled, hfunction, hdeclared⟩, hrefuses⟩
  · rintro ⟨p, ⟨installed, next, hinstalled, hfunction, hdeclared⟩, hrefuses⟩
    exact ⟨p.earlier, p.method, p.later, installed, p.methods_eq, hinstalled, next, hfunction,
      p.declared, p.datum, p.undeclared, p.specializers_eq, hdeclared, hrefuses⟩

theorem installArchive_eq_error (he : e.phase = "decode") :
    (installArchive a).runOn m = (.error e, m') ↔ FailsToDecode a m e m' := by
  constructor
  · intro h
    cases htext : a.text with
    | error f =>
      rw [installArchive, htext] at h
      cases h
      exact .text htext
    | ok text =>
      cases hjson : DefinitionUnit.ofJson text with
      | error f =>
        simp only [installArchive, htext, decode, hjson] at h
        cases h
        exact .unit htext hjson
      | ok u =>
        have hunit : a.unit? = some u := by simp [Archive.unit?, htext, hjson, Except.toOption]
        rw [installArchive_of_unit hunit] at h
        obtain ⟨p, hreach, hrefuses⟩ := (install_refuses he).mp h
        exact .literal p hunit hreach hrefuses
  · intro h
    cases h with
    | text htext => simp only [installArchive, htext]; rfl
    | unit htext hjson => simp only [installArchive, htext, decode, hjson]; rfl
    | literal p hunit hreach hrefuses =>
      rw [installArchive_of_unit hunit]
      exact (install_refuses he).mpr ⟨p, hreach, hrefuses⟩

end Declarations

theorem FailsToDecode.exists_decode (h : FailsToDecode a m e m') :
    ∃ unit line column detail, e = .decode unit line column detail := by
  cases h with
  | text _ => exact ⟨_, _, _, _, rfl⟩
  | unit _ _ => exact ⟨_, _, _, _, rfl⟩
  | literal p _ _ hrefuses =>
    obtain ⟨j, _, rfl⟩ := hrefuses
    exact ⟨_, _, _, _, rfl⟩

end Installation

namespace Loader

open Installation (FailsToDecode installArchive_eq_error)

variable {σ : Type} {o : Opener σ Archive} {l : Loader σ} {name : String} {f : LoadFault} {m : Image}

/-- Loading fails to decode in three ways. If the archive is no text or holds no unit, nothing is
installed. If a literal of the unit is refused, all that stands before it is. -/
theorem loadUnit_decode_fault_iff :
    ((l.loadUnit o name).1 = .error f ∧ f.phase = "decode" ∧ (l.loadUnit o name).2.image = m) ↔
      ∃ a, (l.cache.acquire o name).1 = .ok a ∧ FailsToDecode a l.image f m := by
  constructor
  · rintro ⟨hfault, hphase, rfl⟩
    cases hacquire : (l.cache.acquire o name).1 with
    | error g =>
      rw [loadUnit_of_error hacquire] at hfault
      cases hfault
      simp [LoadFault.phase] at hphase
    | ok a =>
      refine ⟨a, rfl, ?_⟩
      rw [loadUnit_of_acquire hacquire] at hfault ⊢
      cases hrun : (Installation.installArchive a).runOn l.image with
      | mk answer next =>
        rw [hrun] at hfault
        cases answer with
        | ok report => cases hfault
        | error e =>
          cases hfault
          rw [LoadFault.phase_within] at hphase
          -- Faults of decoding name their unit, so they are passed on as they are.
          have hfails := (installArchive_eq_error hphase).mp hrun
          obtain ⟨unit, line, column, detail, rfl⟩ := hfails.exists_decode
          exact hfails
  · rintro ⟨a, hacquire, hfails⟩
    obtain ⟨unit, line, column, detail, rfl⟩ := hfails.exists_decode
    have hrun := (installArchive_eq_error rfl).mpr hfails
    rw [loadUnit_of_acquire hacquire, hrun]
    exact ⟨rfl, rfl, rfl⟩

def areas : Archive :=
  let shape : Json := .object [("name", .string "SHAPE")]
  let area : Json := .object [("generic_function", .string "AREA"),
    ("lambda_list", .array [.string "S"]),
    ("specializers", .array [.object [("eql", .object [("list", .number (.natural 1))])]]),
    ("function", .string "area")]
  ⟨"shapes.json", Text.Utf8.encode
    (Json.object [("classes", .array [shape]), ("methods", .array [area])]).text⟩

def unloadedAreas : Loader MemoryArchives :=
  fresh Settings.standard (Table.empty.insert "shapes.json" areas.bytes)

def refusedAreas : Except LoadFault LoadReport × Loader MemoryArchives :=
  unloadedAreas.loadUnit (MemoryArchives.opener 400) "shapes.json"

/-- That the unit cannot be decoded is told when its class and a function are there already. -/
theorem refusedAreas_partly_installed :
    refusedAreas.1.mapError LoadFault.phase = .error "decode" ∧
      unloadedAreas.image.registry.lookup ⟨"SHAPE"⟩ = none ∧
      refusedAreas.2.image.registry.lookup ⟨"SHAPE"⟩ = some 20 ∧
      unloadedAreas.image.findFunction ⟨"AREA"⟩ = none ∧
      refusedAreas.2.image.findFunction ⟨"AREA"⟩ = some 0 := by
  decide +kernel

end Loader

end Metaobject
