import Metaobject.Loader
import Metaobject.Proofs.Session

/-!
# Actions as runs

What an action does to an image is a run of steps of a session, whether it succeeds or fails. So is what
a loader does. All that holds of sessions thereby holds of images that were made by actions and of
images into which units were loaded. None of these steps gives a name to another class.
-/

namespace Metaobject

def Session.Leads : Session → Session → Prop :=
  Relation.ReflTransGen fun s t => ∃ cmd, s.Allowed cmd ∧ t = s.perform cmd

theorem Session.Reachable.leads {limits : Limits} {s t : Session} (h : Reachable limits s)
    (hleads : s.Leads t) : Reachable limits t := by
  induction hleads with
  | refl => exact h
  | tail _ hstep ih =>
    obtain ⟨cmd, ha, rfl⟩ := hstep
    exact ih.step ha

theorem Session.Leads.single {s : Session} {cmd : Command} (ha : s.Allowed cmd) :
    s.Leads (s.perform cmd) :=
  Relation.ReflTransGen.single ⟨cmd, ha, rfl⟩

/-- A step that leaves every name to the class that it is bound to. -/
def Registry.KeepsNames (r : Registry) : Operation → Prop
  | .define _ | .resolve _ => True
  | .installPlaceholder n => ∀ c, r.lookup n = some c → r.state c = .placeholder
  | .register _ _ | .remove _ => False

def Session.KeepsNames (s : Session) : Command → Prop
  | .classes op => s.image.registry.KeepsNames op
  | .hold _ | .allocate _ _ | .access _ _ | .readAt _ _ | .writeAt _ _ _ | .functions _ _ _ => True

/-- Steps that lead from one session to another and keep the names of its classes. -/
def Session.Proceeds : Session → Session → Prop :=
  Relation.ReflTransGen fun s t => ∃ cmd, s.Allowed cmd ∧ s.KeepsNames cmd ∧ t = s.perform cmd

theorem Session.Proceeds.single {s : Session} {cmd : Command} (ha : s.Allowed cmd)
    (hkeeps : s.KeepsNames cmd) : s.Proceeds (s.perform cmd) :=
  Relation.ReflTransGen.single ⟨cmd, ha, hkeeps, rfl⟩

theorem Session.Proceeds.leads {s t : Session} (h : s.Proceeds t) : s.Leads t := by
  induction h with
  | refl => exact .refl
  | tail _ hstep ih =>
    obtain ⟨cmd, ha, _, rfl⟩ := hstep
    exact ih.tail ⟨cmd, ha, rfl⟩

/-- From any session, some run that keeps names leaves the image that the computation leaves. -/
def IsRun {ε α : Type} (a : ExceptT ε (StateM Image) α) : Prop :=
  ∀ s : Session, ∃ t, s.Proceeds t ∧ t.image = (a.run.run s.image).2

section Composition

variable {ε ε' α β : Type} {a : ExceptT ε (StateM Image) α} {f : α → ExceptT ε (StateM Image) β}

theorem isRun_of_same (h : ∀ m, (a.run.run m).2.registry = m.registry ∧
    (a.run.run m).2.instances = m.instances) : IsRun a := by
  intro s
  obtain ⟨hregistry, hinstances⟩ := h s.image
  cases hm : (a.run.run s.image).2 with
  | mk registry instances functions names nextObject =>
    rw [hm] at hregistry hinstances
    refine ⟨s.perform (.functions functions names nextObject), Session.Proceeds.single trivial trivial, ?_⟩
    cases hregistry
    cases hinstances
    rfl

theorem isRun_pure (x : α) : IsRun (pure x : ExceptT ε (StateM Image) α) :=
  isRun_of_same fun _ => ⟨rfl, rfl⟩

theorem isRun_throw (e : ε) : IsRun (throw e : ExceptT ε (StateM Image) α) :=
  isRun_of_same fun _ => ⟨rfl, rfl⟩

theorem isRun_get : IsRun (get : ExceptT ε (StateM Image) Image) :=
  isRun_of_same fun _ => ⟨rfl, rfl⟩

theorem isRun_liftM (x : Except Fault α) : IsRun (liftM x : Action α) :=
  isRun_of_same fun m => by
    change ((liftM x : Action α).runOn m).2.registry = _ ∧ _
    rw [Action.runOn_liftM]
    exact ⟨rfl, rfl⟩

theorem run_bind_image (m : Image) :
    ((a >>= f).run.run m).2 =
      match a.run.run m with
      | (.ok x, next) => ((f x).run.run next).2
      | (.error _, next) => next := by
  change ((match a.run.run m with
    | (x, next) => (ExceptT.bindCont f x).run next : Except ε β × Image)).2 = _
  cases a.run.run m with
  | mk x next => cases x <;> rfl

theorem IsRun.bind (ha : IsRun a) (hf : ∀ x, IsRun (f x)) : IsRun (a >>= f) := by
  intro s
  obtain ⟨t, hproceeds, himage⟩ := ha s
  rw [run_bind_image]
  cases hrun : a.run.run s.image with
  | mk x next =>
    rw [hrun] at himage
    cases x with
    | error e => exact ⟨t, hproceeds, himage⟩
    | ok x =>
      obtain ⟨u, hrest, hlast⟩ := hf x t
      refine ⟨u, hproceeds.trans hrest, ?_⟩
      rw [hlast, himage]

theorem IsRun.congr {b : ExceptT ε' (StateM Image) β} (ha : IsRun a)
    (h : ∀ m, (b.run.run m).2 = (a.run.run m).2) : IsRun b := by
  intro s
  rw [h]
  exact ha s

theorem run_map_image (g : α → β) (m : Image) :
    ((g <$> a).run.run m).2 = (a.run.run m).2 := by
  change ((a >>= fun x => pure (g x)).run.run m).2 = _
  rw [run_bind_image]
  cases a.run.run m with
  | mk x next => cases x <;> rfl

theorem IsRun.map (ha : IsRun a) (g : α → β) : IsRun (g <$> a) :=
  ha.congr (run_map_image g)

theorem IsRun.discard (ha : IsRun a) : IsRun (discard a) :=
  ha.map fun _ => ()

theorem IsRun.forM {l : List α} {f : α → ExceptT ε (StateM Image) PUnit} (hf : ∀ x, IsRun (f x)) :
    IsRun (l.forM f) := by
  induction l with
  | nil => exact isRun_pure _
  | cons x l ih => exact (hf x).bind fun _ => ih

theorem IsRun.mapM {l : List α} (hf : ∀ x, IsRun (f x)) : IsRun (l.mapM f) := by
  induction l with
  | nil => exact isRun_pure _
  | cons x l ih =>
    rw [List.mapM_cons]
    exact (hf x).bind fun y => ih.bind fun ys => isRun_pure (y :: ys)

end Composition

/-- The computation changes no more than the storage of one instance. -/
def Confined {α : Type} (i : InstanceId) (a : Action α) : Prop :=
  ∀ m, ∃ s, (a.runOn m).2 = m.setStorage i s

section Slots

variable {α β : Type} {i : InstanceId} {a : Action α} {f : α → Action β}

theorem confined_of_same (h : ∀ m, (a.runOn m).2 = m) : Confined i a := by
  intro m
  exact ⟨(m.object i).storage, by rw [h, Image.setStorage_self]⟩

theorem Confined.bind (ha : Confined i a) (hf : ∀ x, Confined i (f x)) :
    Confined i (a >>= f) := by
  intro m
  obtain ⟨s, hs⟩ := ha m
  rw [Action.runOn_bind]
  cases hrun : a.runOn m with
  | mk x next =>
    rw [hrun] at hs
    cases x with
    | error e => exact ⟨s, hs⟩
    | ok x =>
      obtain ⟨s', hs'⟩ := hf x next
      refine ⟨s', ?_⟩
      change ((f x).runOn next).2 = _
      have hnext : next = m.setStorage i s := hs
      rw [hs', hnext, Image.setStorage_setStorage]

theorem Confined.map (ha : Confined i a) (g : α → β) : Confined i (g <$> a) := by
  intro m
  rw [Action.runOn_map]
  exact ha m

theorem confined_updateInstance (i : InstanceId) : Confined i (Action.updateInstance i) := by
  intro m
  cases he : m.registry.edition? (m.object i).owner with
  | none =>
    rw [Action.updateInstance_of_none he]
    exact ⟨(m.object i).storage, (Image.setStorage_self m i).symm⟩
  | some e =>
    rw [Action.updateInstance_of_some he]
    exact ⟨_, rfl⟩

theorem confined_locate (i : InstanceId) (n : Symbol) : Confined i (Action.locate i n) := by
  unfold Action.locate
  refine ((confined_updateInstance i).map fun _ => ()).bind fun _ => ?_
  refine (confined_of_same fun _ => rfl).bind fun m => ?_
  dsimp only
  cases (m.object i).storage.layout.position? n with
  | none => exact confined_of_same fun _ => rfl
  | some index => exact confined_of_same fun _ => rfl

theorem confined_putSlot (i : InstanceId) (index : Nat) (v : Option Value) :
    Confined i (Action.putSlot i index v) := by
  intro m
  exact ⟨_, rfl⟩

theorem confined_run (a : NamedAccess) (i : InstanceId) : Confined i (a.run i) := by
  cases a with
  | update => exact (confined_updateInstance i).map _
  | read n =>
    refine Confined.map ((confined_locate i n).bind fun index => ?_) _
    refine (confined_of_same fun _ => rfl).bind fun m => ?_
    cases (m.object i).storage.valueAt? index with
    | none => exact confined_of_same fun _ => rfl
    | some v => exact confined_of_same fun _ => rfl
  | write n v => exact Confined.map ((confined_locate i n).bind fun _ => confined_putSlot i _ _) _
  | test n =>
    refine Confined.map ((confined_locate i n).bind fun index => ?_) _
    exact confined_of_same fun _ => rfl
  | clear n => exact Confined.map ((confined_locate i n).bind fun _ => confined_putSlot i _ _) _
  | find n =>
    refine Confined.map (((confined_updateInstance i).map fun _ => ()).bind fun _ => ?_) _
    exact confined_of_same fun _ => rfl

/-- An access is a step, and does nothing if there is no such instance. -/
theorem isRun_access (a : NamedAccess) (i : InstanceId) : IsRun (a.run i) := by
  intro s
  by_cases hi : i < s.image.instances.length
  · exact ⟨s.perform (.access i a), Session.Proceeds.single hi trivial, rfl⟩
  · obtain ⟨storage, h⟩ := confined_run a i s.image
    refine ⟨s, .refl, ?_⟩
    change s.image = ((a.run i).runOn s.image).2
    rw [h, Image.setStorage, List.modify_eq_self (Nat.le_of_not_lt hi)]

theorem isRun_slotValue (i : InstanceId) (n : Symbol) : IsRun (Action.slotValue i n) :=
  (isRun_access (.read n) i).congr fun m => (run_map_image Answer.value m).symm

theorem isRun_setSlotValue (i : InstanceId) (n : Symbol) (v : Value) :
    IsRun (Action.setSlotValue i n v) :=
  (isRun_access (.write n v) i).congr fun m => (run_map_image (fun _ => Answer.done) m).symm

theorem isRun_allocate (c : ClassId) : IsRun (Action.allocate c) := by
  intro s
  by_cases hc : c < s.image.registry.cells.length
  · -- Two steps: the generation is taken from the class, and then used at once.
    have hhold : s.Allowed (.hold c) := hc
    have hheld : (s.perform (.hold c)).Allowed (.allocate s.snapshots.length c) := hc
    refine ⟨(s.perform (.hold c)).perform (.allocate s.snapshots.length c), ?_, ?_⟩
    · exact .tail (Session.Proceeds.single hhold trivial) ⟨_, hheld, trivial, rfl⟩
    · have hlast : (s.snapshots ++ [s.image.registry.snapshot c])[s.snapshots.length]? =
          some (s.image.registry.snapshot c) := by
        simp
      simp only [Session.perform, hlast]
      rfl
  · refine ⟨s, .refl, ?_⟩
    have hvacant := Registry.snapshot_of_le (Nat.le_of_not_lt hc)
    change s.image = ((Action.allocateFrom (s.image.registry.snapshot c) c).runOn s.image).2
    rw [hvacant]
    rfl

theorem isRun_makeInstance (c : ClassId) (initargs : List (Symbol × Value)) :
    IsRun (Action.makeInstance c initargs) := by
  unfold Action.makeInstance
  refine (isRun_allocate c).bind fun i => IsRun.bind ?_ fun _ => isRun_pure i
  exact IsRun.forM fun ⟨slot, value⟩ => isRun_setSlotValue i slot value

end Slots

section Classes

theorem isRun_ensureClass (d : ClassDefinition) : IsRun (Action.ensureClass d) := by
  intro s
  refine ⟨s.perform (.classes (.define d)), Session.Proceeds.single trivial trivial, ?_⟩
  change _ = ((Action.ensureClass d).runOn s.image).2
  rw [Action.ensureClass, Action.runOn_bind, Action.runOn_get]
  dsimp only
  rw [Action.runOn_bind, Action.runOn_modify]
  dsimp only
  rw [Action.runOn_liftM]
  rfl

theorem isRun_resolve (name : Symbol) :
    IsRun (Action.onRegistry fun r => r.resolveOrPlaceholder name) := by
  intro s
  refine ⟨s.perform (.classes (.resolve name)), Session.Proceeds.single trivial trivial, ?_⟩
  change _ = ((Action.onRegistry fun r => r.resolveOrPlaceholder name).runOn s.image).2
  rw [Action.onRegistry, Action.runOn_bind, Action.runOn_get]
  dsimp only
  rw [Session.perform, Registry.perform]
  cases s.image.registry.resolveOrPlaceholder name <;> rfl

end Classes

section Functions

theorem isRun_newObject : IsRun Action.newObject :=
  isRun_of_same fun _ => ⟨rfl, rfl⟩

theorem isRun_newString (text : String) : IsRun (Action.newString text) :=
  isRun_newObject.bind fun _ => isRun_pure _

theorem isRun_newList (items : List Value) : IsRun (Action.newList items) :=
  isRun_newObject.bind fun _ => isRun_pure _

theorem isRun_newFunction (name : Option Symbol) (reference : String) :
    IsRun (Action.newFunction name reference) :=
  isRun_newObject.bind fun _ => isRun_pure _

theorem isRun_methodSpecializers (i : InstanceId) : IsRun (Action.methodSpecializers i) :=
  (isRun_slotValue i _).bind fun _ => (isRun_liftM _).bind fun _ => isRun_liftM _

theorem isRun_methodQualifiers (i : InstanceId) : IsRun (Action.methodQualifiers i) :=
  (isRun_slotValue i _).bind fun _ => isRun_liftM _

theorem isRun_hasSignature (i : InstanceId) (qualifiers : List Symbol)
    (specializers : List Specializer) : IsRun (Action.hasSignature i qualifiers specializers) := by
  unfold Action.hasSignature
  refine (isRun_methodQualifiers i).bind fun _ => ?_
  split
  · exact isRun_pure false
  · exact (isRun_methodSpecializers i).bind fun _ => isRun_pure _

theorem isRun_signatureIndex? (qualifiers : List Symbol) (specializers : List Specializer)
    (methods : List InstanceId) : IsRun (Action.signatureIndex? qualifiers specializers methods) := by
  induction methods with
  | nil => exact isRun_pure none
  | cons i rest ih =>
    unfold Action.signatureIndex?
    refine (isRun_hasSignature i qualifiers specializers).bind fun _ => ?_
    split
    · exact isRun_pure (some 0)
    · exact ih.bind fun _ => isRun_pure _

theorem isRun_setMethods (g : FunctionId) (methods : List InstanceId) :
    IsRun (modify fun m => m.setMethods g methods : Action PUnit) :=
  isRun_of_same fun _ => ⟨rfl, rfl⟩

theorem isRun_addMethod (g : FunctionId) (i : InstanceId) : IsRun (Action.addMethod g i) := by
  unfold Action.addMethod
  refine (isRun_methodSpecializers i).bind fun specializers => ?_
  refine (isRun_methodQualifiers i).bind fun qualifiers => isRun_get.bind fun m => ?_
  dsimp only
  split
  · exact isRun_of_same fun _ => ⟨rfl, rfl⟩
  · refine (isRun_signatureIndex? qualifiers specializers _).bind fun index? => ?_
    cases index? with
    | none => exact (isRun_setMethods g _).bind fun _ => isRun_pure _
    | some index => exact (isRun_setMethods g _).bind fun _ => isRun_pure _

theorem isRun_removeMethod (g : FunctionId) (i : InstanceId) : IsRun (Action.removeMethod g i) :=
  isRun_get.bind fun _ => (isRun_setMethods g _).bind fun _ => isRun_pure _

theorem isRun_newGenericFunction (name : Symbol) (lambdaList : List Symbol)
    (documentation : Option String) :
    IsRun (Action.newGenericFunction name lambdaList documentation) :=
  isRun_of_same fun _ => ⟨rfl, rfl⟩

theorem isRun_ensureGenericFunction (name : Symbol) (lambdaList : List Symbol)
    (documentation : Option String) :
    IsRun (Action.ensureGenericFunction name lambdaList documentation) := by
  have hnew : IsRun (do
      let g ← Action.newGenericFunction name lambdaList documentation
      modify fun m => { m with functionNames := m.functionNames.insert name g }
      return g : Action FunctionId) :=
    (isRun_newGenericFunction name lambdaList documentation).bind fun g =>
      IsRun.bind (isRun_of_same fun _ => ⟨rfl, rfl⟩) fun _ => isRun_pure g
  unfold Action.ensureGenericFunction
  refine isRun_get.bind fun m => ?_
  dsimp only
  cases m.findFunction name with
  | none => exact hnew
  | some g =>
    dsimp only
    split
    · exact isRun_pure g
    · split
      · exact (isRun_throw _).bind fun _ => hnew
      · exact hnew

theorem isRun_installMethod (g : FunctionId) (spec : MethodSpec) :
    IsRun (Action.installMethod g spec) := by
  unfold Action.installMethod
  refine (isRun_allocate _).bind fun allocated => isRun_get.bind fun m => ?_
  refine (isRun_liftM _).bind fun i => (isRun_setSlotValue i _ _).bind fun _ => ?_
  refine (isRun_newList _).bind fun _ => (isRun_setSlotValue i _ _).bind fun _ => ?_
  refine (isRun_newList _).bind fun _ => (isRun_setSlotValue i _ _).bind fun _ => ?_
  refine (isRun_newList _).bind fun _ => (isRun_setSlotValue i _ _).bind fun _ => ?_
  refine (isRun_setSlotValue i _ _).bind fun _ => (isRun_setSlotValue i _ _).bind fun _ => ?_
  have hlast : ∀ v, IsRun (do
      Action.setAttribute i .documentation v
      discard (Action.addMethod g i)
      return i) :=
    fun v => (isRun_setSlotValue i _ v).bind fun _ =>
      (isRun_addMethod g i).discard.bind fun _ => isRun_pure i
  cases spec.documentation with
  | none => exact (isRun_pure _).bind hlast
  | some text => exact (isRun_newString text).bind hlast

end Functions

section Units

theorem isRun_core {α : Type} {a : Action α} (h : IsRun a) : IsRun (Installation.core a) :=
  h.congr fun _ => rfl

theorem isRun_literal (unit : String) (j : Json) : IsRun (Installation.literal unit j) := by
  unfold Installation.literal
  refine isRun_get.bind fun m => ?_
  cases Literal.read j m.nextObject with
  | error j => exact isRun_throw _
  | ok p => exact IsRun.bind (isRun_of_same fun _ => ⟨rfl, rfl⟩) fun _ => isRun_pure _

theorem isRun_specializer (unit : String) (d : SpecializerDeclaration) :
    IsRun (Installation.specializer unit d) := by
  cases d with
  | ofClass name => exact (isRun_core (isRun_resolve name)).bind fun _ => isRun_pure _
  | eql datum => exact (isRun_literal unit datum).bind fun _ => isRun_pure _

theorem isRun_functionFor (d : MethodDeclaration) : IsRun (Installation.functionFor d) := by
  unfold Installation.functionFor
  refine isRun_get.bind fun m => ?_
  cases m.findFunction d.function with
  | none => exact isRun_core (isRun_ensureGenericFunction d.function d.lambdaList none)
  | some g => exact isRun_pure g

theorem isRun_spec (unit : String) (d : MethodDeclaration) : IsRun (Installation.spec unit d) := by
  unfold Installation.spec
  refine (IsRun.mapM (isRun_specializer unit)).bind fun specializers => ?_
  refine (isRun_core (isRun_newFunction _ _)).bind fun function => ?_
  cases d.fastCode with
  | none => exact (isRun_pure none).bind fun _ => isRun_pure _
  | some code => exact ((isRun_core (isRun_newFunction _ code)).map some).bind fun _ => isRun_pure _

theorem isRun_method (unit : String) (d : MethodDeclaration) :
    IsRun (Installation.method unit d) :=
  (isRun_functionFor d).bind fun g => (isRun_spec unit d).bind fun s =>
    (isRun_core (isRun_installMethod g s)).discard

theorem isRun_function (d : FunctionDeclaration) : IsRun (Installation.function d) :=
  (isRun_core (isRun_ensureGenericFunction d.name d.lambdaList d.documentation)).bind fun g =>
    isRun_get.bind fun m => isRun_pure (m.function g).name

theorem isRun_install (name : String) (u : DefinitionUnit) : IsRun (Installation.install name u) := by
  unfold Installation.install
  refine IsRun.bind (IsRun.forM fun d => (isRun_core (isRun_ensureClass d)).discard) fun _ => ?_
  refine IsRun.bind (IsRun.mapM isRun_function) fun functions => ?_
  exact IsRun.bind (IsRun.forM (isRun_method name)) fun _ => isRun_pure _

theorem isRun_decode (name text : String) : IsRun (Installation.decode name text) := by
  unfold Installation.decode
  split
  · exact isRun_pure _
  · exact isRun_throw _

theorem isRun_installArchive (a : Archive) : IsRun (Installation.installArchive a) := by
  unfold Installation.installArchive
  split
  · exact isRun_throw _
  · exact (isRun_decode a.name _).bind fun u => isRun_install a.name u

namespace Loader

variable {σ : Type} (o : Opener σ Archive) {s : Session} {l : Loader σ}

theorem proceeds_loadUnit (name : String) (h : s.image = l.image) :
    ∃ t, s.Proceeds t ∧ t.image = (l.loadUnit o name).2.image := by
  unfold loadUnit
  cases hacquire : l.cache.acquire o name with
  | mk answer cache =>
    cases answer with
    | error f => exact ⟨s, .refl, h⟩
    | ok archive =>
      obtain ⟨t, hproceeds, himage⟩ := isRun_installArchive archive s
      refine ⟨t, hproceeds, ?_⟩
      rw [himage, h]
      rfl

theorem proceeds_loadAll (stopOnError : Bool) (names : List String) (h : s.image = l.image) :
    ∃ t, s.Proceeds t ∧ t.image = (loadAll o stopOnError names l).2.image := by
  induction names generalizing s l with
  | nil => exact ⟨s, .refl, h⟩
  | cons name rest ih =>
    obtain ⟨t, hproceeds, himage⟩ := proceeds_loadUnit o name h
    obtain ⟨u, hrest, hlast⟩ := ih himage
    unfold loadAll at hlast ⊢
    unfold loadEach
    cases hunit : l.loadUnit o name with
    | mk answer next =>
      rw [hunit] at himage hlast
      cases answer with
      | error f =>
        cases stopOnError with
        | true => exact ⟨t, hproceeds, himage⟩
        | false => exact ⟨u, hproceeds.trans hrest, hlast⟩
      | ok report => exact ⟨u, hproceeds.trans hrest, hlast⟩

/-- Whatever units are loaded, the classes and instances are those of a session. -/
theorem reachable_loadAll {limits : Limits} (stopOnError : Bool) (names : List String)
    (hs : Session.Reachable limits s) (h : s.image = l.image) :
    ∃ t, Session.Reachable limits t ∧ t.image = (loadAll o stopOnError names l).2.image := by
  obtain ⟨t, hproceeds, himage⟩ := proceeds_loadAll o stopOnError names h
  exact ⟨t, hs.leads hproceeds.leads, himage⟩

end Loader

end Units

end Metaobject
